import StreamBroker.Proofs.Broker.Registry

/-!
# Routing

A message is routed to the stream that takes its subject, and a subscription to the stream that
takes all subjects of its pattern.  The streams of a broker have no order, so whichever of them is
found first has to be the only one that there is to find: subjects that are in order make sure of
that.

## Main results

* `Broker.Orderly.pairwise_boundSubjects`: no two bound subjects of a broker overlap
* `find?_eq_some_iff_of_perm`: what is found in any order
* `Broker.Reached.routing`: subjects and patterns lead to one stream, in whatever order it is looked
  for
-/

namespace StreamBroker

variable {α : Type} {p : α → Bool} {l l' : List α}

/-- What only one element of a list satisfies is found wherever it stands. -/
theorem find?_eq_some_iff_of_pairwise (h : l.Pairwise fun a b => ¬(p a = true ∧ p b = true))
    {a : α} : l.find? p = some a ↔ a ∈ l ∧ p a = true := by
  refine ⟨fun ha => ⟨List.mem_of_find?_eq_some ha, List.find?_some ha⟩, ?_⟩
  induction l with
  | nil =>
    rintro ⟨ha, -⟩
    cases ha
  | cons b l ih =>
    rw [List.pairwise_cons] at h
    rintro ⟨ha, hp⟩
    rcases List.mem_cons.1 ha with rfl | ha
    · rw [List.find?_cons_of_pos hp]
    · -- The element is further down, so the first one is none that is looked for.
      rw [List.find?_cons_of_neg fun hb => h.1 a ha ⟨hb, hp⟩]
      exact ih h.2 ⟨ha, hp⟩

/-- It is found in whatever order the elements are looked at. -/
theorem find?_eq_some_iff_of_perm (h : l.Pairwise fun a b => ¬(p a = true ∧ p b = true))
    (hperm : l'.Perm l) {a : α} : l'.find? p = some a ↔ a ∈ l ∧ p a = true := by
  rw [find?_eq_some_iff_of_pairwise (hperm.symm.pairwise h fun h => fun ⟨hb, ha⟩ => h ⟨ha, hb⟩),
    hperm.mem_iff]

theorem find?_eq_none_iff_of_perm (hperm : l'.Perm l) :
    l'.find? p = none ↔ ∀ a ∈ l, p a = false := by
  rw [List.find?_eq_none]
  constructor
  · exact fun h a ha => Bool.eq_false_iff.2 (h a (hperm.mem_iff.2 ha))
  · exact fun h a ha => Bool.eq_false_iff.1 (h a (hperm.mem_iff.1 ha))

/-- The bound subjects of acceptable settings do not overlap. -/
theorem StreamSettings.checkDisjoint_of_check {s : StreamSettings} (h : s.check = .ok ()) :
    checkDisjoint s.boundSubjects = .ok () := by
  rw [check] at h
  obtain ⟨⟨⟩, -, h⟩ := except_bind_eq_ok.1 h
  obtain ⟨⟨⟩, -, h⟩ := except_bind_eq_ok.1 h
  obtain ⟨⟨⟩, hdisjoint, -⟩ := except_bind_eq_ok.1 h
  exact hdisjoint

namespace Broker

variable {b : Broker}

/-- **No two bound subjects of a broker overlap**, be they of one stream or of two. -/
theorem Orderly.pairwise_boundSubjects (h : b.Orderly) :
    (b.streams.flatMap fun s => s.settings.boundSubjects).Pairwise fun p q =>
      patternsOverlap p q = false := by
  refine List.pairwise_flatMap.2 ⟨fun s hs => ?_, ?_⟩
  · have hcheck := h.check_eq _ (mem_registry hs)
    exact checkDisjoint_eq_ok_iff.1 (StreamSettings.checkDisjoint_of_check hcheck)
  · exact (List.pairwise_map.1 h.apart).imp fun hapart => hapart.2.2

/-- No two streams have a bound subject each to which something is common that makes patterns
overlap. -/
theorem Orderly.pairwise_any (h : b.Orderly) {test : String → Bool}
    (htest : ∀ p q, test p = true → test q = true → patternsOverlap p q = true) :
    b.streams.Pairwise fun s t =>
      ¬(s.settings.boundSubjects.any test = true ∧ t.settings.boundSubjects.any test = true) := by
  refine (List.pairwise_map.1 h.apart).imp ?_
  rintro s t ⟨-, -, hapart⟩ ⟨hs, ht⟩
  obtain ⟨p, hp, hptest⟩ := List.any_eq_true.1 hs
  obtain ⟨q, hq, hqtest⟩ := List.any_eq_true.1 ht
  have hoverlap := htest p q hptest hqtest
  rw [hapart p hp q hq] at hoverlap
  cases hoverlap

/-- At most one stream takes a subject. -/
theorem Orderly.pairwise_takes (h : b.Orderly) (subject : String) : b.streams.Pairwise fun s t =>
    ¬(s.settings.takes subject = true ∧ t.settings.takes subject = true) :=
  h.pairwise_any fun _ _ => patternsOverlap_of_subjectMatches

/-- At most one stream takes all subjects of a pattern. -/
theorem Orderly.pairwise_holds (h : b.Orderly) (filter : String) : b.streams.Pairwise fun s t =>
    ¬(s.settings.holds filter = true ∧ t.settings.holds filter = true) :=
  h.pairwise_any fun _ _ => patternsOverlap_of_patternIsSubset

/-- A stream is found by its number. -/
theorem Orderly.liveStream_eq (h : b.Orderly) {s : Stream} (hs : s ∈ b.streams) :
    b.liveStream s.id = .ok s := by
  have hapart : b.streams.Pairwise fun t u => ¬((t.id == s.id) = true ∧ (u.id == s.id) = true) := by
    refine (List.pairwise_map.1 h.apart).imp ?_
    rintro t u ⟨hid, -⟩ ⟨ht, hu⟩
    exact hid ((beq_iff_eq.1 ht).trans (beq_iff_eq.1 hu).symm)
  rw [liveStream, (find?_eq_some_iff_of_pairwise hapart).2 ⟨hs, beq_self_eq_true s.id⟩]

theorem route_eq {subject : String} (h : checkSubject subject = .ok ()) :
    b.route subject = match b.streams.find? fun s => s.settings.takes subject with
      | some s => .ok s
      | none => .error (.noInterest subject) := by
  simp only [route, checkLiteralSubject, h]
  rfl

theorem streamHolding_eq {filter : String} (h : checkPattern filter = .ok ()) :
    b.streamHolding filter = match b.streams.find? fun s => s.settings.holds filter with
      | some s => .ok s
      | none => .error (.noStreamHolds filter) := by
  simp only [streamHolding, checkFilter, h]
  rfl

/-- **Routing is unambiguous**, whatever streams and buckets were created, changed and deleted: no
subject is matched by two bound subjects of a broker, of one stream or of two, and no pattern is
contained in bound subjects of two streams.  So a subject leads to the one stream that takes it, and
a pattern to the one stream that takes all its subjects, in whatever order the streams are looked
at, and to none only if there is none. -/
theorem Reached.routing (h : b.Reached) :
    (∀ subject, (b.streams.flatMap fun s => s.settings.boundSubjects).Pairwise fun p q =>
      ¬(subjectMatches subject p = true ∧ subjectMatches subject q = true)) ∧
    (∀ filter, b.streams.Pairwise fun s t =>
      ¬(s.settings.holds filter = true ∧ t.settings.holds filter = true)) ∧
    ∀ streams, streams.Perm b.streams →
      (∀ subject, checkSubject subject = .ok () →
        (∀ s, { b with streams }.route subject = .ok s ↔
          s ∈ b.streams ∧ s.settings.takes subject = true) ∧
        ({ b with streams }.route subject = .error (.noInterest subject) ↔
          ∀ s ∈ b.streams, s.settings.takes subject = false)) ∧
      ∀ filter, checkPattern filter = .ok () →
        (∀ s, { b with streams }.streamHolding filter = .ok s ↔
          s ∈ b.streams ∧ s.settings.holds filter = true) ∧
        ({ b with streams }.streamHolding filter = .error (.noStreamHolds filter) ↔
          ∀ s ∈ b.streams, s.settings.holds filter = false) := by
  have horderly := h.orderly
  refine ⟨fun subject => ?_, horderly.pairwise_holds, fun streams hperm => ⟨?_, ?_⟩⟩
  · refine horderly.pairwise_boundSubjects.imp ?_
    rintro p q hapart ⟨hp, hq⟩
    rw [patternsOverlap_of_subjectMatches hp hq] at hapart
    cases hapart
  · intro subject hsubject
    -- At most one stream takes a subject, so it is the first one in whatever order.
    rw [route_eq hsubject, ← find?_eq_none_iff_of_perm hperm]
    refine ⟨fun s => ?_, ?_⟩
    · rw [← find?_eq_some_iff_of_perm (horderly.pairwise_takes subject) hperm]
      cases streams.find? fun s => s.settings.takes subject <;> simp
    · cases streams.find? fun s => s.settings.takes subject <;> simp
  · intro filter hfilter
    rw [streamHolding_eq hfilter, ← find?_eq_none_iff_of_perm hperm]
    refine ⟨fun s => ?_, ?_⟩
    · rw [← find?_eq_some_iff_of_perm (horderly.pairwise_holds filter) hperm]
      cases streams.find? fun s => s.settings.holds filter <;> simp
    · cases streams.find? fun s => s.settings.holds filter <;> simp

/-- A subject leads to the second of two streams as well when it is looked for from behind. -/
theorem routed_in_any_order :
    ∃ (b : Broker) (s t : Stream), b.Reached ∧ b.streams = [s, t] ∧
      t.settings.takes "b.x" = true ∧ b.route "b.x" = .ok t ∧
      { b with streams := [t, s] }.route "b.x" = .ok t := by
  obtain ⟨b, s, t, hreached, hstreams, htakes⟩ : ∃ (b : Broker) (s t : Stream),
      b.Reached ∧ b.streams = [s, t] ∧ t.settings.takes "b.x" = true := by
    have hstart := Reached.started {} 0 ⟨0, 0⟩ { store := .memory {} }
    have hring : Feed.ringSize ({} : BrokerSettings).watchBuffer < tooLongRing := by decide +kernel
    have hfirst := hstart.changed (.createStream { name := "A", subjects := ["a.*"] })
    rw [run_createStream rfl rfl rfl hring rfl] at hfirst
    have hsecond := hfirst.changed (.createStream { name := "B", subjects := ["b.>"] })
    rw [run_createStream rfl rfl rfl hring rfl] at hsecond
    exact ⟨_, _, _, hsecond, rfl, rfl⟩
  obtain ⟨-, -, hroutes⟩ := hreached.routing
  have ht : t ∈ b.streams := hstreams ▸ List.mem_cons_of_mem s List.mem_cons_self
  have hroute (streams : List Stream) (hperm : streams.Perm b.streams) :
      { b with streams }.route "b.x" = .ok t :=
    (((hroutes streams hperm).1 "b.x" rfl).1 t).2 ⟨ht, htakes⟩
  refine ⟨b, s, t, hreached, hstreams, htakes, hroute b.streams (.refl _), ?_⟩
  exact hroute [t, s] (hstreams ▸ List.Perm.swap s t [])

end Broker

end StreamBroker
