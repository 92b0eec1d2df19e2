import StreamBroker.Proofs.Stream.Restart

/-!
# Numbers are given in order

The messages that a stream accepts get the numbers one, two, three and so on, whatever is removed
and however often the stream is opened again.  Only the numbers of sixty-four bits can be given this
way.  A stream that has given all of them accepts nothing more, until its broker starts anew: the
journal does not give back the largest number, and numbers are given again.

## Main definitions

* `StreamEvent.numbers`: the numbers that were given, in order
* `Stream.Counted`: what the numbers that were given have to do with the last one of a stream

## Main results

* `LogRun.map_sequence`: the steps of a log give the numbers that follow the last one
* `Stream.Life.counted`: the numbers of a life are all from one on, up to the largest
* `Stream.Life.number_eq_iff`: the n-th message gets the number n exactly as long as there are
  numbers
-/

namespace StreamBroker

/-- The numbers that were given, in order. -/
def StreamEvent.numbers (events : List StreamEvent) : List Nat :=
  events.filterMap StreamEvent.assigned

theorem StreamEvent.numbers_concat (events : List StreamEvent) (e : StreamEvent) :
    numbers (events ++ [e]) = numbers events ++ e.assigned.toList := by
  rw [numbers, List.filterMap_append]
  cases h : e.assigned <;> simp [numbers, h]

/-! ## The numbers of steps -/

section Runs

variable {journal : Option String} {x y : Index} {b b' : Backend} {ms : List StoredMessage}

/-- The messages of a step get the numbers that follow the last one. -/
theorem LogStep.map_sequence (h : LogStep journal x b ms y b') :
    ms.map (·.sequence) = List.range' (x.lastSeq + 1) ms.length ∧
      y.lastSeq = x.lastSeq + ms.length ∧ ∀ m ∈ ms, m.sequence < wordLimit := by
  cases h with
  | store hnext hlt htime h =>
    refine ⟨by simp [hnext], ?_, fun w hw => List.mem_singleton.1 hw ▸ hlt⟩
    exact (Nat.max_eq_right (hnext ▸ Nat.le_succ x.lastSeq)).trans hnext
  | lose h => exact ⟨rfl, h.lastSeq_eq, by simp⟩
  | fail hjournal hlt h => exact ⟨rfl, rfl, by simp⟩

/-- The messages of steps get the numbers that follow the last one. -/
theorem LogRun.map_sequence (h : LogRun journal x b ms y b') :
    ms.map (·.sequence) = List.range' (x.lastSeq + 1) ms.length ∧
      y.lastSeq = x.lastSeq + ms.length ∧ ∀ m ∈ ms, m.sequence < wordLimit := by
  induction h with
  | refl => exact ⟨rfl, rfl, by simp⟩
  | @step ms ms' y z b' b'' run h ih =>
    obtain ⟨hms, hy, hlt⟩ := ih
    obtain ⟨hms', hz, hlt'⟩ := h.map_sequence
    refine ⟨?_, by rw [hz, hy, List.length_append, Nat.add_assoc], ?_⟩
    · rw [List.map_append, hms, hms', hy, List.length_append, Nat.add_right_comm,
        List.range'_append_1]
    · intro m hm
      exact (List.mem_append.1 hm).elim (hlt m) (hlt' m)

end Runs

/-! ## The numbers of a life -/

namespace Stream

variable {ns : String} {settings : StreamSettings} {b₀ b b' : Backend} {log : SeqMap Bytes}
  {events : List StreamEvent} {s : Stream} {x y : Index} {others : Backend → Backend → Prop}

/-- Below the largest number a mirror gives back the last number. -/
theorem lastSeq_eq_of_reread (hns : settings.journal? = some ns) (hb : b.Keeps ns log)
    (hlog : Journal.Mirrors log x) (hx : x.Sound) (hlt : x.lastSeq + 1 < wordLimit)
    (h : reread settings b = (.ok y, b')) : y.lastSeq = x.lastSeq := by
  obtain ⟨z, b₁, hread, hagrees⟩ := (reread_agrees_iff hns hb hlog hx).2 hlt
  rw [h] at hread
  cases hread
  exact hagrees.lastSeq

/-- The numbers that were given up to the last one of a stream: they are all numbers from one on,
and more were given only behind a restart that forgot the largest number. -/
structure Counted (events : List StreamEvent) (s : Stream) : Prop where
  /-- The last number has sixty-four bits. -/
  lastSeq_lt : s.index.lastSeq < wordLimit
  /-- Every number that was given has sixty-four bits. -/
  numbers_lt : ∀ n ∈ StreamEvent.numbers events, n < wordLimit
  /-- The numbers are those up to the last one, or those up to the largest and more. -/
  numbers_eq : StreamEvent.numbers events = List.range' 1 s.index.lastSeq ∨
    (∃ before, .reopened before ∈ events ∧ before.index.lastSeq + 1 = wordLimit) ∧
      ∃ more, StreamEvent.numbers events = List.range' 1 (wordLimit - 1) ++ more

namespace Counted

variable {journal : Option String} {ms : List StoredMessage} {s' : Stream} {e : StreamEvent}

/-- A stream that was never opened before has given no number. -/
theorem opened (hx : x.lastSeq = 0) (run : LogRun journal x b [] s.index b') :
    Counted [.opened] s := by
  have hlast : s.index.lastSeq = 0 := run.map_sequence.2.1.trans hx
  refine ⟨hlast ▸ by decide, ?_, .inl (by rw [hlast]; rfl)⟩
  intro n hn
  cases hn

/-- Steps of the log give the numbers that follow. -/
theorem operated (h : Counted events s) (run : LogRun journal s.index b ms s'.index b')
    (he : ms.map (·.sequence) = e.assigned.toList) : Counted (events ++ [e]) s' := by
  obtain ⟨hms, hlast, hlt⟩ := run.map_sequence
  have hnumbers := StreamEvent.numbers_concat events e
  rw [← he] at hnumbers
  refine ⟨run.lastSeq_lt h.lastSeq_lt, ?_, ?_⟩
  · intro n hn
    rw [hnumbers, List.mem_append, List.mem_map] at hn
    rcases hn with hn | ⟨m, hm, rfl⟩
    · exact h.numbers_lt n hn
    · exact hlt m hm
  · rcases h.numbers_eq with heq | ⟨⟨before, hbefore, hlargest⟩, more, heq⟩
    · refine .inl ?_
      -- The numbers of the steps go on where the others end.
      rw [hnumbers, heq, hms, hlast, Nat.add_comm s.index.lastSeq 1, List.range'_append_1]
    · refine .inr ⟨⟨before, List.mem_append_left _ hbefore, hlargest⟩,
        more ++ ms.map (·.sequence), ?_⟩
      rw [hnumbers, heq, List.append_assoc]

/-- A restart gives no number.  It goes on behind the last one, unless that is the largest. -/
theorem reopened (h : Counted events s) (hlt : x.lastSeq < wordLimit)
    (hx : s.index.lastSeq + 1 < wordLimit → x.lastSeq = s.index.lastSeq)
    (run : LogRun journal x b [] s'.index b') : Counted (events ++ [.reopened s]) s' := by
  have hnumbers : StreamEvent.numbers (events ++ [.reopened s]) = StreamEvent.numbers events :=
    (StreamEvent.numbers_concat events _).trans (List.append_nil _)
  have hlast : s'.index.lastSeq = x.lastSeq := run.map_sequence.2.1
  refine ⟨run.lastSeq_lt hlt, hnumbers ▸ h.numbers_lt, ?_⟩
  rw [hnumbers]
  rcases h.numbers_eq with heq | ⟨⟨before, hbefore, hlargest⟩, hmore⟩
  · -- A restart forgets a number only if there is none behind it.
    by_cases hroom : s.index.lastSeq + 1 < wordLimit
    · exact .inl (by rw [heq, hlast, hx hroom])
    · have hlargest : s.index.lastSeq + 1 = wordLimit :=
        Nat.le_antisymm h.lastSeq_lt (Nat.le_of_not_lt hroom)
      refine .inr ⟨⟨s, List.mem_append_right _ List.mem_cons_self, hlargest⟩, [], ?_⟩
      rw [heq, List.append_nil, ← hlargest]
      rfl
  · exact .inr ⟨⟨before, List.mem_append_left _ hbefore, hlargest⟩, hmore⟩

end Counted

/-- The numbers of a life up to the largest and behind it. -/
theorem Life.counted (life : Life others b₀ events s b)
    (hfile : ∀ ns, s.journal? = some ns →
      b₀.Keeps ns SeqMap.empty ∧ ∀ {b b'}, others b b' → Backend.Elsewhere ns b b') :
    Counted events s := by
  -- Induction on the life; each event is one of the three lemmas above.
  induction life with
  | @opened id settings clock s b hcheck hclock h =>
    obtain ⟨x, b₁, hread, rfl, run⟩ := moves_of_open? h
    refine .opened ?_ run
    cases hns : s.settings.journal? with
    | none =>
      -- A stream without a journal begins with no number given.
      rw [reread_unjournaled hns] at hread
      cases hread
      rfl
    | some ns =>
      exact lastSeq_eq_of_reread hns (hfile ns hns).1 Journal.Mirrors.empty Index.empty_sound
        (by decide) hread
  | operated life hop hclock h hreply ih =>
    obtain ⟨ms, hmoves, hms⟩ := StreamOp.moves_run hclock hop h hreply
    exact (ih fun ns hns => hfile ns (hmoves.journal.trans hns)).operated hmoves.run hms
  | @reopened events s s' b b' id settings clock life hs hcheck hname hstorage hclock h ih =>
    obtain ⟨x, b₁, hread, rfl, run⟩ := moves_of_open? h
    have hjournal := journal?_of_isJournaled hs
    have hns := (journal?_of_reopened hs hname hstorage).trans hjournal
    obtain ⟨hb₀, hothers⟩ := hfile _ hns
    obtain ⟨hx, log, hb, hlog⟩ := life.mirrors hothers hb₀ hjournal
    have hcounted := ih fun ns hj => hfile ns (hns.trans (hjournal.symm.trans hj))
    refine hcounted.reopened (Nat.lt_of_succ_lt (lastSeq_of_reread hread)) ?_ run
    intro hlt
    exact lastSeq_eq_of_reread hns hb hlog hx hlt hread
  | elsewhere life h ih => exact ih hfile

/-! ## The largest number -/

/-- A stream without limits is opened with the index that was read back. -/
theorem open?_plain (h : reread plainSettings b = (.ok x, b')) :
    ∃ s, open? 0 plainSettings epochClock b = (.ok s, b') ∧ s.settings = plainSettings ∧
      s.index = x := ⟨_, open?_of_prune_eq h rfl, rfl, rfl⟩

/-- A mirror without a watermark is always read back, whatever the last number is. -/
theorem exists_reread_of_get?_eq_none (hns : settings.journal? = some ns) (hb : b.Keeps ns log)
    (hlog : Journal.Mirrors log x) (hx : x.Sound)
    (hnone : log.get? Journal.watermarkIndex = none) :
    ∃ y b', reread settings b = (.ok y, b') ∧ b'.Keeps ns log := by
  obtain ⟨r, b', hr, hb', hread⟩ := reread_spec hns hb (hlog.readable hx)
  have hlt : (Index.restore r.messages r.watermark).lastSeq + 1 < wordLimit := by
    apply Nat.lt_of_not_le
    intro hle
    -- Only an entry or a watermark of the largest number could be in the way, but the one is never
    -- read and the other was never written.
    have hlargest : wordLimit - 1 ≤ (Index.restore r.messages r.watermark).lastSeq := by omega
    rcases (hr.le_lastSeq_iff hlog hx (by decide)).1 hlargest with
      ⟨k, m, hk, hlt, -⟩ | ⟨w, -, -, hw⟩
    · exact absurd hlt (Nat.not_lt_of_le hk)
    · rw [hnone] at hw
      cases hw
  rw [if_neg (Nat.not_le_of_lt hlt)] at hread
  exact ⟨_, b', hread, hb'⟩

/-- **The n-th message that a stream accepts gets the number n exactly as long as there are
numbers.**  Refused messages take none, and neither removals nor restarts give one back, up to the
largest number.  More messages than there are numbers are accepted only behind a restart of the
stream that has given the largest. -/
theorem Life.number_eq_iff (life : Life others b₀ events s b)
    (hfile : ∀ ns, s.journal? = some ns →
      b₀.Keeps ns SeqMap.empty ∧ ∀ {b b'}, others b b' → Backend.Elsewhere ns b b') :
    (∀ i n, (StreamEvent.numbers events)[i]? = some n → (n = i + 1 ↔ i + 1 < wordLimit)) ∧
      (wordLimit ≤ (StreamEvent.numbers events).length →
        ∃ before, .reopened before ∈ events ∧ before.index.lastSeq + 1 = wordLimit) := by
  have hcounted := life.counted hfile
  have hlast := hcounted.lastSeq_lt
  refine ⟨fun i n hn => ⟨?_, ?_⟩, ?_⟩
  · intro heq
    -- A number that was given has sixty-four bits.
    exact heq ▸ hcounted.numbers_lt n (List.mem_of_getElem? hn)
  · intro hlt
    rcases hcounted.numbers_eq with heq | ⟨-, more, heq⟩
    · rw [heq, List.getElem?_eq_some_iff] at hn
      obtain ⟨hi, hn⟩ := hn
      rw [List.getElem_range'] at hn
      omega
    · -- The numbers that were given behind the largest come after this one.
      have hi : i < (List.range' 1 (wordLimit - 1)).length := by
        rw [List.length_range']
        omega
      rw [heq, List.getElem?_append_left hi, List.getElem?_eq_some_iff] at hn
      obtain ⟨hi', hn⟩ := hn
      rw [List.getElem_range'] at hn
      omega
  · intro hlength
    rcases hcounted.numbers_eq with heq | ⟨hbefore, -⟩
    · rw [heq, List.length_range'] at hlength
      omega
    · exact hbefore

/-- A life that gives the largest number and is opened again gives a number twice. -/
theorem number_ne_behind_largest :
    ∃ events s b i n, Life (Backend.Elsewhere "stream_S") blankBackend events s b ∧
      wordLimit ≤ i + 1 ∧ (StreamEvent.numbers events)[i]? = some n ∧ n ≠ i + 1 := by
  have hclock : epochClock.IsDated := rfl
  -- The largest number is given ...
  obtain ⟨events, s, b, log, life, hsettings, hlast, hb, hnone⟩ :=
    exists_life_lastSeq (n := wordLimit - 1) (by decide)
  have hjournal : s.journal? = some "stream_S" := by rw [journal?, hsettings]; rfl
  -- ... so there are as many numbers as there can be.
  have hlength : wordLimit ≤ (StreamEvent.numbers events).length + 1 := by
    rcases (life.counted (keeps_plain hsettings)).numbers_eq with heq | ⟨-, more, heq⟩
    · rw [heq, List.length_range', hlast]
      decide
    · rw [heq, List.length_append, List.length_range']
      omega
  -- The stream is opened again, behind a number that is not the largest ...
  obtain ⟨hx, log', hb', hlog⟩ := life.mirrors (fun h => h) (blankBackend_keeps _) hjournal
  obtain rfl := hb.holds.unique hb'.holds
  have hns : plainSettings.journal? = some "stream_S" := rfl
  obtain ⟨x, b₁, hread, hb₁⟩ := exists_reread_of_get?_eq_none hns hb hlog hx hnone
  obtain ⟨s', hopen, hs', rfl⟩ := open?_plain hread
  have life' := life.reopened (by rw [isJournaled, hsettings]; rfl) rfl
    (by rw [name, hsettings]) rfl hclock hopen
  -- ... and takes one more message.
  obtain ⟨octets, s'', b'', hrun, hs'', -⟩ := run_plainPublish hb₁ hs' (lastSeq_of_reread hread)
  have hproper : plainPublish.IsProper s' := trivial
  have life'' := life'.operated hproper hclock hrun (by simp)
  have hnumber : (StreamEvent.numbers (events ++ [.reopened s] ++ [.operated s' plainPublish
      (.ok (.stored (s'.index.lastSeq + 1)))]))[(StreamEvent.numbers events).length]? =
        some (s'.index.lastSeq + 1) := by
    rw [StreamEvent.numbers_concat, StreamEvent.numbers_concat]
    have hnone : (StreamEvent.reopened s).assigned.toList = [] := rfl
    rw [hnone, List.append_nil]
    exact List.getElem?_concat_length
  refine ⟨_, s'', b'', _, _, life'', hlength, hnumber, ?_⟩
  intro heq
  have hlt := ((life''.number_eq_iff (keeps_plain hs'')).1 _ _ hnumber).1 heq
  exact absurd hlt (Nat.not_lt_of_le hlength)

end Stream

end StreamBroker
