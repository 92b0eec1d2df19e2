import StreamBroker.Proofs.Stream.Workers
import StreamBroker.Proofs.Subject.Exact

/-!
# The regions of a work queue

The subjects that a consumer of a work queue gets are its region, and no subject is in the regions
of two.  A consumer that is created or changed is compared with the others one by one, and pattern
by pattern, never with a subject, and the consumers that exist are not compared with each other
again.  Since the comparison of patterns is exact, what is refused for it is exactly what would put
a subject in two regions: nothing gets by that has a subject in common with another, and nothing is
refused that has none.

This takes that all filters are patterns that were checked, which is why it is shown together with
what else the consumers of a work queue have in common.

## Main definitions

* `ConsumerSettings.Apart`: two consumers get no subject together
* `ConsumerSettings.IsWorker`: what a consumer of a work queue is like
* `Stream.Admits`: what a request asks for that nothing but another consumer speaks against
* `Stream.settingsWith`: what the consumers would be like

## Main results

* `ConsumerSettings.apart_iff`: consumers are apart exactly if their filters do not overlap
* `Stream.Life.isWorker`: what the consumers of a work queue are like
* `Stream.Life.regions`: no subject has two consumers, and exactly what would give it two is refused
-/

namespace StreamBroker

/-! ## Settings -/

namespace ConsumerSettings

variable {settings wanted current : ConsumerSettings}

/-- Two consumers get no subject together. -/
def Apart (settings wanted : ConsumerSettings) : Prop :=
  ∀ subject, checkSubject subject = .ok () →
    ¬(settings.gets subject = true ∧ wanted.gets subject = true)

theorem Apart.symm (h : settings.Apart wanted) : wanted.Apart settings :=
  fun subject hsubject hgets => h subject hsubject hgets.symm

/-- What a consumer of a work queue is like. -/
structure IsWorker (settings : ConsumerSettings) : Prop where
  acknowledges : settings.ackPolicy ≠ .none
  begins : settings.deliverPolicy = .all
  /-- Its filter was checked. -/
  checked : checkPattern (settings.filter.getD ">") = .ok ()

/-- Settings that are accepted have a filter that is a pattern. -/
theorem checkPattern_of_check (h : settings.check = .ok ()) :
    checkPattern (settings.filter.getD ">") = .ok () := by
  cases hfilter : settings.filter with
  | none => rfl
  | some filter =>
    simp only [check, hfilter] at h
    obtain ⟨⟨⟩, -, h⟩ := except_bind_eq_ok.1 h
    -- The filter is looked at behind the name, if there is one.
    have hpattern {f : Unit → Except Error Unit}
        (h : ((checkPattern filter).mapError (Error.invalidFilter filter) >>= f) = .ok ()) :
        checkPattern filter = .ok () := by
      obtain ⟨⟨⟩, h, -⟩ := except_bind_eq_ok.1 h
      exact except_mapError_eq_ok.1 h
    split at h
    · obtain ⟨⟨⟩, -, h⟩ := except_bind_eq_ok.1 h
      exact hpattern h
    · exact hpattern h

theorem IsAccepted.checkPattern (h : settings.IsAccepted) :
    StreamBroker.checkPattern (settings.filter.getD ">") = .ok () := by
  obtain ⟨asked, name, defaults, hcheck, rfl⟩ := h
  have hchecked := checkPattern_of_check hcheck
  exact hchecked

/-- A consumer stays what it is like when it is given other settings. -/
theorem IsWorker.mayBecome (h : current.IsWorker) (hmay : current.MayBecome settings) :
    settings.IsWorker where
  acknowledges := hmay.fixed_eq.1 ▸ h.acknowledges
  begins := hmay.fixed_eq.2 ▸ h.begins
  checked := by
    obtain ⟨asked, name, defaults, who, hcheck, rfl, -⟩ := hmay
    have hchecked := checkPattern_of_check hcheck
    exact hchecked

/-- **Consumers are apart exactly if their filters do not overlap.** -/
theorem apart_iff (h : checkPattern (settings.filter.getD ">") = .ok ())
    (h' : checkPattern (wanted.filter.getD ">") = .ok ()) : settings.Apart wanted ↔
      patternsOverlap (settings.filter.getD ">") (wanted.filter.getD ">") = false := by
  rw [Bool.eq_false_iff]
  constructor
  · intro hapart hoverlap
    obtain ⟨subject, hsubject, hleft, hright⟩ :=
      exists_subject_of_patternsOverlap h h' hoverlap
    refine hapart subject hsubject ⟨?_, ?_⟩
    · rwa [gets_eq]
    · rwa [gets_eq]
  · intro hoverlap subject _ hgets
    rw [gets_eq, gets_eq] at hgets
    exact hoverlap (patternsOverlap_of_subjectMatches hgets.1 hgets.2)

end ConsumerSettings

open ConsumerSettings (Apart IsWorker)

/-! ## Consumers that exist -/

/-- A consumer keeps its settings, or is given settings that it may be given. -/
theorem CursorStep.settings_cases {s : Stream} {clock : Clock} {reply : Except Error StreamReply}
    {c : Consumer} {op : StreamOp} {cursor : Cursor} (h : CursorStep s clock reply c op cursor)
    (hx : s.index.Filed)
    (hlt : ∀ {n}, c.cursor.pending.contains n = true → n < c.cursor.nextSeq) :
    cursor.settings = c.cursor.settings ∨ c.cursor.settings.MayBecome cursor.settings := by
  cases h with
  | kept => exact .inl rfl
  | @collected l =>
    obtain ⟨_, _, _, -, -, hhands, -⟩ := Cursor.hands_collect
      (hx.loses (Retention.loses_expire s.settings clock.wall s.index)) hlt l clock.elapsed
    exact .inl hhands.settings_eq
  | acknowledged => exact .inl (Cursor.samePlace_acknowledge ..).settings
  | configured hname hfilter h hdisjoint hreply => exact .inr h
  | @attended a => cases a <;> exact .inl rfl

namespace Stream

variable {others : Backend → Backend → Prop} {events : List StreamEvent} {s s' : Stream}
  {b₀ b b' : Backend} {clock : Clock} {name madeUp : String} {mode : UpsertMode} {id : Nat}
  {defaults : BrokerSettings} {settings wanted : ConsumerSettings} {reply : Except Error Nat}

/-- **All consumers of a work queue acknowledge, begin with the first message and have a filter that
was checked**, throughout its life. -/
theorem Life.isWorker (life : Life others b₀ events s b)
    (hqueue : s.settings.retention = .workQueue) :
    ∀ c ∈ s.consumers, c.cursor.settings.IsWorker := by
  induction life with
  | opened hcheck hclock h =>
    rw [consumers_of_open? h]
    exact fun c hc => nomatch hc
  | operated life hop hclock h hreply ih =>
    obtain ⟨ms, hmoves, -⟩ := StreamOp.moves_run hclock hop h hreply
    have hqueue' := hmoves.retention ▸ hqueue
    intro c hc
    rcases StreamOp.staff_run life.roster.ids hop h hreply with hcontinues | ⟨d, hhires⟩
    · obtain ⟨d, hd, -, -, hstep⟩ := hcontinues.exists_of_mem hc
      -- Whatever its settings may become, a worker is a worker.
      rcases hstep.settings_cases life.roster.filed fun hn => (life.pending_lt hd hn).1 with
        heq | hmay
      · exact heq ▸ ih hqueue' d hd
      · exact (ih hqueue' d hd).mayBecome hmay
    · rw [hhires.consumers_eq, List.mem_append, List.mem_singleton] at hc
      rcases hc with hc | rfl
      · exact ih hqueue' c hc
      · exact ⟨hhires.ackPolicy_ne hqueue', hhires.deliverPolicy_eq hqueue',
          hhires.begins.1.checkPattern⟩
  | reopened life hs hcheck hname hstorage hclock h ih =>
    rw [consumers_of_open? h]
    exact fun c hc => nomatch hc
  | elsewhere life h ih => exact ih hqueue

/-- The consumers of a work queue are apart. -/
theorem Life.pairwise_apart (life : Life others b₀ events s b)
    (hqueue : s.settings.retention = .workQueue) :
    (s.consumers.map (·.cursor.settings)).Pairwise Apart := by
  have hids : s.consumers.Pairwise fun c d => c.id ≠ d.id := List.pairwise_map.1 life.roster.ids
  rw [List.pairwise_map]
  refine hids.imp_of_mem fun hc hd hne subject _ hgets => ?_
  exact life.disjoint hqueue _ hc _ hd hne subject hgets.1 hgets.2

/-! ## Consumers that are wanted -/

/-- What a request asks for that changes something and that nothing speaks against, unless another
consumer does: it passes all checks but the comparison of its filter with the others. -/
inductive Admits (s : Stream) (mode : UpsertMode) (madeUp : String) (defaults : BrokerSettings)
    (settings : ConsumerSettings) : String → ConsumerSettings → Prop where
  /-- A consumer is created. -/
  | creates {name : String} {wanted : ConsumerSettings}
      (hname : settings.explicitName.getD madeUp = name)
      (hchecked : s.checkConsumer settings = .ok ()) (hnone : s.consumer? name = none)
      (hmode : mode ≠ .update)
      (hwanted : { settings with name := some name }.withDefaults defaults = wanted) :
      Admits s mode madeUp defaults settings name wanted
  /-- A consumer is given other settings. -/
  | changes {name : String} {c : Consumer} {wanted : ConsumerSettings}
      (hname : settings.explicitName.getD madeUp = name)
      (hchecked : s.checkConsumer settings = .ok ()) (hc : s.consumer? name = some c)
      (hwanted : wantedSettings { settings with name := some name } c.cursor.settings defaults =
        wanted)
      (hne : wanted ≠ c.cursor.settings) (hmode : mode ≠ .create)
      (hchange : checkChange name c.cursor.settings wanted = .ok ()) :
      Admits s mode madeUp defaults settings name wanted

/-- What the consumers would be like, if the one of a name were like this. -/
def settingsWith (s : Stream) (name : String) (wanted : ConsumerSettings) :
    List ConsumerSettings :=
  wanted :: (s.consumers.filter (·.name != name)).map (·.cursor.settings)

namespace Admits

/-- A request leaves open neither where a consumer begins nor what it gets. -/
theorem asked (h : s.Admits mode madeUp defaults settings name wanted) :
    s.checkConsumer settings = .ok () ∧ wanted.filter = settings.filter ∧
      wanted.deliverPolicy = settings.deliverPolicy := by
  cases h with
  | creates hname hchecked hnone hmode hwanted =>
    subst hwanted
    exact ⟨hchecked, rfl, rfl⟩
  | changes hname hchecked hc hwanted hne hmode hchange =>
    subst hwanted
    exact ⟨hchecked, rfl, rfl⟩

theorem checkPattern (h : s.Admits mode madeUp defaults settings name wanted) :
    StreamBroker.checkPattern (wanted.filter.getD ">") = .ok () := by
  obtain ⟨hchecked, hfilter, -⟩ := h.asked
  rw [hfilter]
  exact ConsumerSettings.checkPattern_of_check (checkConsumer_eq_ok hchecked).1

end Admits

theorem pairwise_settingsWith_iff (hs : (s.consumers.map (·.cursor.settings)).Pairwise Apart) :
    (s.settingsWith name wanted).Pairwise Apart ↔
      ∀ c ∈ s.consumers, c.name ≠ name → wanted.Apart c.cursor.settings := by
  have hothers : ((s.consumers.filter (·.name != name)).map (·.cursor.settings)).Pairwise Apart :=
    hs.sublist (List.filter_sublist.map _)
  rw [settingsWith, List.pairwise_cons, and_iff_left hothers, List.forall_mem_map]
  simp only [List.mem_filter, bne_iff_ne, and_imp]

/-- The comparison with the others finds one that is not apart, if there is one. -/
theorem checkDisjointFrom_cases (hqueue : s.settings.retention = .workQueue)
    (hs : ∀ c ∈ s.consumers, c.cursor.settings.IsWorker)
    (hwanted : checkPattern (wanted.filter.getD ">") = .ok ()) :
    (s.checkDisjointFrom name wanted.filter = .ok () ∧
      ∀ c ∈ s.consumers, c.name ≠ name → wanted.Apart c.cursor.settings) ∨
    ∃ c ∈ s.consumers, c.name ≠ name ∧ ¬wanted.Apart c.cursor.settings ∧
      s.checkDisjointFrom name wanted.filter = .error (.overlappingConsumer
        (wanted.filter.getD ">") c.name (c.cursor.settings.filter.getD ">") s.name) := by
  simp only [checkDisjointFrom, if_pos hqueue]
  split
  · next c hfind =>
    have hc := List.mem_of_find?_eq_some hfind
    have hfound := List.find?_some hfind
    simp only [Bool.and_eq_true, bne_iff_ne] at hfound
    refine .inr ⟨c, hc, hfound.1, ?_, rfl⟩
    -- Patterns that overlap have a subject in common, as both were checked.
    rw [ConsumerSettings.apart_iff hwanted (hs c hc).checked, hfound.2]
    exact Bool.noConfusion
  · next hfind =>
    refine .inl ⟨rfl, fun c hc hne => ?_⟩
    have hnot := List.find?_eq_none.1 hfind c hc
    rw [ConsumerSettings.apart_iff hwanted (hs c hc).checked]
    simpa [hne] using hnot

/-! ## Requests -/

/-- A request that another consumer speaks against is refused. -/
theorem upsertConsumer_of_admits_error {e : Error}
    (h : s.Admits mode madeUp defaults settings name wanted)
    (hoverlap : s.checkDisjointFrom name wanted.filter = .error e) :
    s.upsertConsumer mode id madeUp defaults settings clock b = (.error e, s, b) := by
  cases h with
  | creates hname hchecked hnone hmode hwanted =>
    simp only [upsertConsumer, hchecked, hname, hnone, if_neg hmode, hwanted, addConsumer, hoverlap]
    rfl
  | changes hname hchecked hc hwanted hne hmode hchange =>
    simp only [upsertConsumer, hchecked, hname, hc, hwanted, if_neg hne, if_neg hmode, hchange]
    rw [show (Except.ok () >>= fun _ => s.checkDisjointFrom name wanted.filter) = .error e from
      hoverlap]

/-- The consumers are one and all others. -/
theorem perm_cons_filter {c : Consumer} (hs : s.Roster) (hc : c ∈ s.consumers) :
    s.consumers.Perm (c :: s.consumers.filter (·.name != c.name)) := by
  have hnodup : s.consumers.Nodup := .of_map _ hs.names
  refine (List.perm_ext_iff_of_nodup hnodup ?_).2 fun d => ?_
  · refine List.nodup_cons.2 ⟨?_, hnodup.filter _⟩
    simp
  · rw [List.mem_cons, List.mem_filter, bne_iff_ne]
    constructor
    · intro hd
      by_cases hname : d.name = c.name
      · exact .inl (hs.eq_of_name hd hc hname)
      · exact .inr ⟨hd, hname⟩
    · rintro (rfl | ⟨hd, -⟩)
      · exact hc
      · exact hd

/-- One consumer is changed and told to look again, and all others stay. -/
theorem perm_settingsWith {c : Consumer} {f : Consumer → Consumer} (hs : s.Roster)
    (hc : c ∈ s.consumers) (hid : ∀ d, (f d).id = d.id) (hf : (f c).cursor.settings = wanted) :
    (((s.modifyConsumer c.id f).modifyConsumer c.id Consumer.notify).consumers.map
      (·.cursor.settings)).Perm (s.settingsWith c.name wanted) := by
  rw [consumers_modifyConsumer_notify rfl hid, modifyConsumer, List.map_map]
  refine ((perm_cons_filter hs hc).map _).trans (.of_eq ?_)
  rw [List.map_cons, settingsWith]
  refine congrArg₂ _ ?_ (List.map_congr_left fun d hd => ?_)
  · simp [← hf, Consumer.notify]
  · rw [List.mem_filter, bne_iff_ne] at hd
    have hid : d.id ≠ c.id := fun heq => hd.2 (congrArg _ (hs.eq_of_id hd.1 hc heq))
    simp [hid]

/-- A request that no consumer speaks against is answered, and then the consumers are what they
would be like. -/
theorem upsertConsumer_of_admits (hs : s.Roster) (hqueue : s.settings.retention = .workQueue)
    (h : s.Admits mode madeUp defaults settings name wanted)
    (hdisjoint : s.checkDisjointFrom name wanted.filter = .ok ()) :
    ∃ id' s', s.upsertConsumer mode id madeUp defaults settings clock b = (.ok id', s', b) ∧
      (s'.consumers.map (·.cursor.settings)).Perm (s.settingsWith name wanted) := by
  obtain ⟨hchecked, -, hdeliver⟩ := h.asked
  -- A worker starts with all messages, so no start behind the last one is refused.
  rw [deliverPolicy_eq_of_checkWorker (checkConsumer_eq_ok hchecked).2 hqueue] at hdeliver
  cases h with
  | creates hname hchecked hnone hmode hwanted =>
    obtain ⟨t, hadd, ht⟩ : ∃ t, s.addConsumer id name wanted clock = .ok (id, t) ∧
        t.consumers.map (·.cursor.settings) = s.consumers.map (·.cursor.settings) ++ [wanted] := by
      simp only [addConsumer, hdisjoint, isBehindLast, hdeliver]
      exact ⟨_, rfl, List.map_append⟩
    refine ⟨id, t, ?_, ?_⟩
    · simp only [upsertConsumer, hchecked, hname, hnone, if_neg hmode, hwanted, hadd]
    · have hall : s.consumers.filter (·.name != name) = s.consumers :=
        List.filter_eq_self.2 fun c hc => bne_iff_ne.2 fun heq =>
          List.find?_eq_none.1 hnone c hc (beq_iff_eq.2 heq)
      rw [settingsWith, hall, ht]
      exact List.perm_append_comm
  | changes hname hchecked hc hwanted hne hmode hchange =>
    rename_i c
    have hmem := List.mem_of_find?_eq_some hc
    obtain rfl : c.name = name := by simpa using List.find?_some hc
    have hreleased (f : Consumer → Consumer) :
        (s.modifyConsumer c.id f).releaseUnclaimed b = (.ok (), s.modifyConsumer c.id f, b) := by
      rw [releaseUnclaimed, show (s.modifyConsumer c.id f).settings = s.settings from rfl, hqueue,
        if_neg (by decide)]
    obtain ⟨t, hchanged, ht⟩ : ∃ t, s.changeConsumer c wanted b = (.ok (), t, b) ∧
        (t.consumers.map (·.cursor.settings)).Perm (s.settingsWith c.name wanted) := by
      simp only [changeConsumer, hreleased]
      exact ⟨_, rfl, perm_settingsWith hs hmem (fun _ => rfl) rfl⟩
    refine ⟨c.id, t, ?_, ht⟩
    simp only [upsertConsumer, hchecked, hname, hc, hwanted, if_neg hne, if_neg hmode, hchange]
    rw [show (Except.ok () >>= fun _ => s.checkDisjointFrom c.name wanted.filter) = .ok () from
      hdisjoint]
    simp only [hchanged]
    rfl

/-! ## Refusals -/

/-- A step does not fail because of another consumer. -/
def BlamesNobody {α : Type} (x : Except Error α) : Prop :=
  ∀ filter other theirs stream,
    x ≠ .error (.overlappingConsumer filter other theirs stream)

theorem BlamesNobody.bind {α β : Type} {x : Except Error α} {f : α → Except Error β}
    (hx : BlamesNobody x) (hf : ∀ a, BlamesNobody (f a)) : BlamesNobody (x >>= f) := by
  cases x with
  | error e =>
    intro filter other theirs stream heq
    cases heq
    exact hx _ _ _ _ rfl
  | ok a => exact hf a

theorem blamesNobody_checkPositive (fields : List (String × Option Nat)) :
    BlamesNobody (checkPositive fields) := by
  induction fields with
  | nil => rintro _ _ _ _ ⟨⟩
  | cons field fields ih =>
    rw [checkPositive]
    split
    · rintro _ _ _ _ ⟨⟩
    · exact ih

theorem blamesNobody_checkDurations (fields : List (String × Option Duration)) :
    BlamesNobody (ConsumerSettings.checkDurations fields) := by
  induction fields with
  | nil => rintro _ _ _ _ ⟨⟩
  | cons field fields ih =>
    rw [ConsumerSettings.checkDurations]
    split
    · rintro _ _ _ _ ⟨⟩
    · exact ih

theorem blamesNobody_checkNames : BlamesNobody settings.checkNames := by
  rw [ConsumerSettings.checkNames]
  split
  · split <;> rintro _ _ _ _ ⟨⟩
  · rintro _ _ _ _ ⟨⟩

theorem blamesNobody_checkName : BlamesNobody (checkName name) := by
  rw [checkName]
  split
  · rintro _ _ _ _ ⟨⟩
  · split <;> rintro _ _ _ _ ⟨⟩

theorem blamesNobody_checkPattern (pattern : String) :
    BlamesNobody ((checkPattern pattern).mapError (Error.invalidFilter pattern)) := by
  cases checkPattern pattern <;> rintro _ _ _ _ ⟨⟩

/-- No check of settings on their own speaks of another consumer. -/
theorem blamesNobody_check : BlamesNobody settings.check := by
  -- The numbers are looked at behind the filter, and that behind the name, if they are there.
  have hnumbers {positive : List (String × Option Nat)}
      {durations : List (String × Option Duration)} :
      BlamesNobody (checkPositive positive >>= fun _ =>
        ConsumerSettings.checkDurations durations) :=
    (blamesNobody_checkPositive positive).bind fun _ => blamesNobody_checkDurations durations
  rw [ConsumerSettings.check]
  refine blamesNobody_checkNames.bind fun _ => ?_
  dsimp only
  split
  · refine blamesNobody_checkName.bind fun _ => ?_
    split
    · exact (blamesNobody_checkPattern _).bind fun _ => hnumbers
    · exact hnumbers
  · split
    · exact (blamesNobody_checkPattern _).bind fun _ => hnumbers
    · exact hnumbers

theorem blamesNobody_checkFilterBound : BlamesNobody (s.checkFilterBound settings) := by
  rw [checkFilterBound]
  split
  · split <;> rintro _ _ _ _ ⟨⟩
  · rintro _ _ _ _ ⟨⟩

theorem blamesNobody_checkWorker : BlamesNobody (s.checkWorker settings) := by
  rw [checkWorker]
  split
  · dsimp only
    split
    · rintro _ _ _ _ ⟨⟩
    · split <;> rintro _ _ _ _ ⟨⟩
  · rintro _ _ _ _ ⟨⟩

theorem blamesNobody_checkConsumer : BlamesNobody (s.checkConsumer settings) :=
  blamesNobody_check.bind fun _ =>
    blamesNobody_checkFilterBound.bind fun _ => blamesNobody_checkWorker

theorem blamesNobody_checkChange {current : ConsumerSettings} :
    BlamesNobody (checkChange name current wanted) := by
  rw [checkChange]
  split
  · rintro _ _ _ _ ⟨⟩
  · dsimp only
    split <;> rintro _ _ _ _ ⟨⟩

/-- Whoever is refused because of another consumer had asked for something that nothing else spoke
against. -/
theorem admits_of_overlap {filter other theirs stream : String}
    (h : s.upsertConsumer mode id madeUp defaults settings clock b =
      (.error (.overlappingConsumer filter other theirs stream), s', b')) :
    ∃ name wanted, s.Admits mode madeUp defaults settings name wanted := by
  -- Only the last check blames another consumer, so those before it passed.
  simp only [upsertConsumer] at h
  split at h
  · next hchecked =>
    cases h
    exact (blamesNobody_checkConsumer _ _ _ _ hchecked).elim
  · next hchecked =>
    split at h
    · next hnone =>
      split at h
      · cases h
      · next hmode => exact ⟨_, _, .creates rfl hchecked hnone hmode rfl⟩
    · next c hc =>
      split at h
      · cases h
      · next hne =>
        split at h
        · cases h
        · next hmode =>
          refine ⟨_, _, .changes rfl hchecked hc rfl hne hmode ?_⟩
          split at h
          · next hcheck =>
            cases h
            cases hchange : checkChange (settings.explicitName.getD madeUp) c.cursor.settings
              (wantedSettings { settings with name := some (settings.explicitName.getD madeUp) }
                c.cursor.settings defaults) with
            | error e =>
              rw [hchange] at hcheck
              cases hcheck
              exact (blamesNobody_checkChange _ _ _ _ hchange).elim
            | ok u => rfl
          · next hcheck =>
            obtain ⟨⟨⟩, hchange, -⟩ := except_bind_eq_ok.1 hcheck
            exact hchange

/-! ## The regions -/

/-- **No subject has two consumers in a work queue, and exactly what would give it two is refused**,
throughout its life: all consumers are apart, acknowledge and begin with the first message; and a
request that passes all other checks is refused because of another consumer if and only if the
consumers would not be apart with what it asks for.  If they would be, it is answered, and then they
are what they would be like. -/
theorem Life.regions (life : Life others b₀ events s b)
    (hqueue : s.settings.retention = .workQueue) :
    (s.consumers.map (·.cursor.settings)).Pairwise Apart ∧
    (∀ c ∈ s.consumers, c.cursor.settings.ackPolicy ≠ .none ∧
      c.cursor.settings.deliverPolicy = .all) ∧
    ∀ mode id madeUp defaults settings clock reply s' b',
      s.upsertConsumer mode id madeUp defaults settings clock b = (reply, s', b') →
      ((∃ filter other theirs,
          reply = .error (.overlappingConsumer filter other theirs s.name)) ↔
        ∃ name wanted, s.Admits mode madeUp defaults settings name wanted ∧
          ¬(s.settingsWith name wanted).Pairwise Apart) ∧
      ∀ name wanted, s.Admits mode madeUp defaults settings name wanted →
        (s.settingsWith name wanted).Pairwise Apart →
          (∃ id', reply = .ok id') ∧
          (s'.consumers.map (·.cursor.settings)).Perm (s.settingsWith name wanted) := by
  have hworkers := life.isWorker hqueue
  have hapart := life.pairwise_apart hqueue
  refine ⟨hapart, fun c hc => ⟨(hworkers c hc).acknowledges, (hworkers c hc).begins⟩, ?_⟩
  intro mode id madeUp defaults settings clock reply s' b' h
  -- What is asked for is compared with the others, and the answer is told by that alone.
  have hanswer {name : String} {wanted : ConsumerSettings}
      (hadmits : s.Admits mode madeUp defaults settings name wanted) :
      ((s.settingsWith name wanted).Pairwise Apart ∧ (∃ id', reply = .ok id') ∧
        (s'.consumers.map (·.cursor.settings)).Perm (s.settingsWith name wanted)) ∨
      (¬(s.settingsWith name wanted).Pairwise Apart ∧ ∃ filter other theirs,
        reply = .error (.overlappingConsumer filter other theirs s.name)) := by
    rw [pairwise_settingsWith_iff hapart]
    rcases checkDisjointFrom_cases hqueue hworkers hadmits.checkPattern with
      ⟨hdisjoint, hall⟩ | ⟨c, hc, hne, hshared, hoverlap⟩
    · obtain ⟨id', t, hupsert, hperm⟩ :=
        upsertConsumer_of_admits life.roster hqueue hadmits hdisjoint
      rw [hupsert] at h
      cases h
      exact .inl ⟨hall, ⟨id', rfl⟩, hperm⟩
    · rw [upsertConsumer_of_admits_error hadmits hoverlap] at h
      cases h
      exact .inr ⟨fun hall => hshared (hall c hc hne), _, _, _, rfl⟩
  refine ⟨⟨?_, ?_⟩, ?_⟩
  · rintro ⟨filter, other, theirs, rfl⟩
    obtain ⟨name, wanted, hadmits⟩ := admits_of_overlap h
    refine ⟨name, wanted, hadmits, ?_⟩
    rcases hanswer hadmits with ⟨-, ⟨id', hok⟩, -⟩ | ⟨hshared, -⟩
    · cases hok
    · exact hshared
  · rintro ⟨name, wanted, hadmits, hshared⟩
    exact ((hanswer hadmits).resolve_left fun hall => hshared hall.1).2
  · intro name wanted hadmits hall
    exact ((hanswer hadmits).resolve_right fun hshared => hshared.1 hall).2

/-- Beside a consumer of one subject, a consumer of all subjects is refused, and a consumer of
another subject is not. -/
theorem refused_beside_worker :
    ∃ events s b c, Life (Backend.Elsewhere "stream_S") blankBackend events s b ∧
      s.settings.retention = .workQueue ∧ s.consumers = [c] ∧
      c.cursor.settings.filter = some "a" ∧
      (∃ filter other theirs, (s.upsertConsumer .create 1 "D" {} {} epochClock b).1 =
        .error (.overlappingConsumer filter other theirs s.name)) ∧
      ∃ id', (s.upsertConsumer .create 1 "D" {} { filter := some "b" } epochClock b).1 =
        .ok id' := by
  have hclock : epochClock.IsDated := rfl
  obtain ⟨s₀, b₀, s, b, c, hopen, hcreate, hnew, hqueue, hone, hname, hfilter, hnone, hall,
      hother⟩ :
      ∃ s₀ b₀ s b c,
        open? 0 { name := "S", subjects := ["a", "b"], retention := .workQueue } epochClock
          blankBackend = (.ok s₀, b₀) ∧
        (StreamOp.upsertConsumer .create 0 "C" {} { filter := some "a" }).run epochClock s₀ b₀ =
          (.ok (.consumer 0), s, b) ∧
        s₀.consumerById? 0 = none ∧ s.settings.retention = .workQueue ∧ s.consumers = [c] ∧
        c.name = "C" ∧ c.cursor.settings.filter = some "a" ∧ s.consumer? "D" = none ∧
        s.checkConsumer {} = .ok () ∧ s.checkConsumer { filter := some "b" } = .ok () :=
    ⟨_, _, _, _, _, rfl, rfl, rfl, rfl, rfl, rfl, rfl, rfl, rfl, rfl⟩
  have life : Life (Backend.Elsewhere "stream_S") blankBackend _ s b :=
    (Life.opened rfl hclock hopen).operated (by exact hnew) hclock hcreate (by simp)
  have hc : c ∈ s.consumers := hone ▸ List.mem_singleton_self c
  have hregions := (life.regions hqueue).2.2
  refine ⟨_, s, b, c, life, hqueue, hone, hfilter, ?_, ?_⟩
  · refine (hregions .create 1 "D" {} {} epochClock _ _ _ rfl).1.2
      ⟨"D", _, .creates rfl hall hnone (by decide) rfl, ?_⟩
    rw [pairwise_settingsWith_iff (life.pairwise_apart hqueue)]
    intro hapart
    refine hapart c hc (by rw [hname]; decide) "a" rfl ⟨rfl, ?_⟩
    rw [ConsumerSettings.gets, hfilter]
    rfl
  · refine ((hregions .create 1 "D" {} { filter := some "b" } epochClock _ _ _ rfl).2 "D" _
      (.creates rfl hother hnone (by decide) rfl) ?_).1
    rw [pairwise_settingsWith_iff (life.pairwise_apart hqueue)]
    intro d hd _
    obtain rfl : d = c := List.mem_singleton.1 (hone ▸ hd)
    rw [ConsumerSettings.apart_iff rfl (life.isWorker hqueue d hc).checked, hfilter]
    rfl

end Stream

end StreamBroker
