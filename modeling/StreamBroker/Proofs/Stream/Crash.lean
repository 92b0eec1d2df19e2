import StreamBroker.Proofs.Journal.Crash
import StreamBroker.Proofs.Stream.Numbers

/-!
# A stream whose backend stops

The backend of a stream stops in the midst of an operation, or while the stream is opened again:
some of the calls were performed, the others never are.  A broker that starts from what is left is
to give no number that was given before.  It does not, unless the calls end with the compaction of a
removal that leaves no entry for the highest number, or there is no number behind the highest.

## Main definitions

* `Stream.Turn`: what a stream may be in the midst of

## Main results

* `Stream.Turn.halted`: what is left of the journal of a stream that mirrors its index
* `Stream.Life.highest_reread_iff`: the highest number is read back outside of the gap, and only
  there
-/

namespace StreamBroker

/-! ## Calls of a turn -/

namespace Backend

variable {b b' : Backend} {ns : String} {log : SeqMap Bytes}

/-- Calls that succeed are recorded. -/
theorem Keeps.calls_performAll (hb : b.Keeps ns log) {calls : List LogCall}
    (hcalls : ∀ call ∈ calls, call.ns = ns ∧ call.IsInRange) :
    (b.performAll calls).2.calls = calls.reverse ++ b.calls := by
  induction calls generalizing b log with
  | nil => rfl
  | cons call calls ih =>
    obtain ⟨rfl, hrange⟩ := hcalls call List.mem_cons_self
    obtain ⟨hreply, hb'⟩ := hb.perform call hrange
    have hrest := ih hb' fun c hc => hcalls c (List.mem_cons_of_mem call hc)
    -- Without faults a call is put in front of those before it.
    have hcall : (b.perform call).2.calls = call :: b.calls := by
      rw [perform_of_faults_eq hb.faults_eq]
    cases hp : b.perform call with
    | mk reply b₁ =>
      rw [hp] at hreply hrest hcall
      obtain rfl : reply = _ := hreply
      simp only [Backend.performAll, hp]
      rw [hrest, hcall, List.reverse_cons, List.append_assoc]
      rfl

/-- What happens to a backend is that a log is read. -/
def Reads (ns : String) (b b' : Backend) : Prop :=
  ∃ calls, (∀ call ∈ calls, call.ns = ns ∧ call.IsReading) ∧ b' = (b.performAll calls).2

theorem Reads.refl (ns : String) (b : Backend) : Reads ns b b := ⟨[], by simp, rfl⟩

theorem Reads.perform (h : Reads ns b b') (hb : b.Keeps ns log) {call : LogCall}
    (hns : call.ns = ns) (hread : call.IsReading) : Reads ns b (b'.perform call).2 := by
  obtain ⟨calls, hcalls, rfl⟩ := h
  refine ⟨calls ++ [call], ?_, ?_⟩
  · intro c hc
    rcases List.mem_append.1 hc with hc | hc
    · exact hcalls c hc
    · obtain rfl := List.mem_singleton.1 hc
      exact ⟨hns, hread⟩
  · rw [hb.performAll_append fun c hc =>
      ⟨(hcalls c hc).1, LogCall.isInRange_of_isReading (hcalls c hc).2⟩]
    rw [performAll]
    split
    · next heq => rw [heq, performAll]
    · next heq => rw [heq]

/-- A log that is read does not change. -/
theorem Reads.exists_changes (h : Reads ns b b') (x : Index) :
    ∃ calls, Journal.Changes ns x calls x ∧ b' = (b.performAll calls).2 := by
  obtain ⟨calls, hcalls, rfl⟩ := h
  refine ⟨calls, ?_, rfl⟩
  induction calls with
  | nil => exact .refl
  | cons call calls ih =>
    obtain ⟨hns, hread⟩ := hcalls call List.mem_cons_self
    have hcall : Journal.Changes ns x ([] ++ [call]) x := .read .refl hns hread
    exact hcall.trans (ih fun c hc => hcalls c (List.mem_cons_of_mem call hc))

end Backend

/-- To recover a journal is to read it. -/
theorem Journal.reads_recover {ns : String} {b b' : Backend} {log : SeqMap Bytes}
    {reply : Except Error Recovered} (hb : b.Keeps ns log) (h : recover ns b = (reply, b')) :
    Backend.Reads ns b b' := by
  -- The watermark is read first, then the bounds, then the messages between them.
  have hfirst : Backend.Reads ns b (b.readRange ns watermarkIndex (watermarkIndex + 1)).2 :=
    (Backend.Reads.refl ns b).perform hb rfl trivial
  rw [recover] at h
  split at h
  · next heq =>
    cases h
    rwa [heq] at hfirst
  · next b₁ heq =>
    rw [heq] at hfirst
    have hbounds : Backend.Reads ns b (b₁.bounds ns).2 := hfirst.perform hb rfl trivial
    split at h
    · cases h
      exact hfirst
    · rw [recoverMessages] at h
      split at h
      · next heq =>
        cases h
        rwa [heq] at hbounds
      · next heq =>
        cases h
        rwa [heq] at hbounds
      · next first last b₂ heq =>
        rw [heq] at hbounds
        have hread : Backend.Reads ns b (b₂.readRange ns (max first (watermarkIndex + 1))
            (min (last + 1) lastIndex)).2 := hbounds.perform hb rfl trivial
        split at h
        · next heq =>
          cases h
          rwa [heq] at hread
        · next heq =>
          cases h
          rwa [heq] at hread

/-! ## Turns -/

namespace Stream

open Journal

variable {ns : String} {b₀ b b' : Backend} {log : SeqMap Bytes} {events : List StreamEvent}
  {s : Stream}

/-- What a stream may be in the midst of, with what it makes of the backend: an operation, or to be
opened again. -/
inductive Turn (s : Stream) (b : Backend) : Backend → Prop where
  | operation {op : StreamOp} {clock : Clock} {reply : Except Error StreamReply} {s' : Stream}
      {b' : Backend} (hop : op.IsProper s) (hclock : clock.IsDated)
      (h : op.run clock s b = (reply, s', b')) : Turn s b b'
  | reopening {id : Nat} {settings : StreamSettings} {clock : Clock} {s' : Stream} {b' : Backend}
      (hname : settings.name = s.name) (hstorage : settings.storage = .file)
      (h : open? id settings clock b = (.ok s', b')) : Turn s b b'

theorem reads_reread {settings : StreamSettings} {reply : Except Error Index} {b' : Backend}
    (hns : settings.journal? = some ns) (hb : b.Keeps ns log)
    (h : reread settings b = (reply, b')) : Backend.Reads ns b b' := by
  obtain ⟨hfile, rfl⟩ := StreamSettings.journal?_eq_some_iff.1 hns
  simp only [reread, recovered, hfile] at h
  split at h
  · next heq =>
    cases h
    exact reads_recover hb heq
  · next heq =>
    split at h
    · cases h
      exact reads_recover hb heq
    · cases h
      exact reads_recover hb heq

/-- The calls of a turn, and what is left of the journal when they are cut off. -/
theorem Turn.halted (turn : Turn s b b') (hs : s.journal? = some ns) (hb : b.Keeps ns log)
    (hlog : Mirrors log s.index) (hx : s.index.Sound) :
    ∃ calls, (∀ call ∈ calls, call.ns = ns ∧ call.IsInRange) ∧ b' = (b.performAll calls).2 ∧
      (s.index.lastSeq + 1 < wordLimit → ∀ i, Halted log s.index.lastSeq (calls.take i)) := by
  cases turn with
  | operation hop hclock h =>
    obtain ⟨_, hends, -⟩ := StreamOp.ends_run hclock hop h
    obtain ⟨ms, x, run⟩ := hends.reaches
    rw [hs] at run
    obtain ⟨calls, changes, hb'⟩ := run.exists_changes hb
    exact ⟨calls, changes.inRange, hb', fun _ => changes.halted hx hlog⟩
  | @reopening id _ clock s' b' hname hstorage h =>
    obtain ⟨x, b₁, hread, rfl, run⟩ := moves_of_open? h
    have hns : s'.journal? = some ns := by
      have hsettings := StreamSettings.journal?_eq_some_iff.1 hs
      exact StreamSettings.journal?_eq_some_iff.2 ⟨hstorage, hname ▸ hsettings.2⟩
    obtain ⟨hy, hb₁, hlog₁⟩ := mirrors_of_reread hns hb hlog hx hread
    obtain ⟨calls, changes, rfl⟩ := (reads_reread hns hb hread).exists_changes s.index
    rw [← journal?, hns] at run
    obtain ⟨calls', changes', rfl⟩ := run.exists_changes hb₁
    -- What was read is what the calls before left, so the calls behind it are about the same log.
    obtain heffects := (hb.performAll changes.inRange).2.holds.unique hb₁.holds
    refine ⟨calls ++ calls', ?_, ?_, ?_⟩
    · intro call hcall
      exact (List.mem_append.1 hcall).elim (changes.inRange call) (changes'.inRange call)
    · rw [hb.performAll_append changes.inRange]
    · intro hlt i
      refine halted_take_append (changes.halted hx hlog) ?_ i
      intro i _
      rw [heffects, changes.highest_eq, ← lastSeq_eq_of_reread hns hb hlog hx hlt hread]
      exact changes'.halted hy hlog₁ i

/-- The highest number of a life is the last one, unless it is the largest. -/
theorem Counted.highest_eq (h : Counted events s)
    (hlt : (StreamEvent.numbers events).foldl max 0 + 1 < wordLimit) :
    (StreamEvent.numbers events).foldl max 0 = s.index.lastSeq := by
  rcases h.numbers_eq with heq | ⟨-, more, heq⟩
  · rw [heq]
    -- All numbers up to the last one were given.
    refine Nat.le_antisymm ?_ ?_
    · rcases Index.le_foldl_max_iff.1 (Nat.le_refl _) with hle | ⟨n, hn, hle⟩
      · exact Nat.le_trans hle (Nat.zero_le _)
      · have := (List.mem_range'_1.1 hn).2
        omega
    · rw [Index.le_foldl_max_iff]
      rcases Nat.eq_zero_or_pos s.index.lastSeq with hzero | hpos
      · exact .inl (Nat.le_of_eq hzero)
      · exact .inr ⟨_, List.mem_range'_1.2 ⟨hpos, by omega⟩, Nat.le_refl _⟩
  · -- The largest number was given, so there is none behind the highest.
    have hle : wordLimit - 1 ≤ (StreamEvent.numbers events).foldl max 0 := by
      rw [heq, Index.le_foldl_max_iff]
      refine .inr ⟨wordLimit - 1, List.mem_append_left _ ?_, Nat.le_refl _⟩
      exact List.mem_range'_1.2 ⟨by decide, by decide⟩
    omega

/-- **When its backend stops in the midst of an operation**, or while a stream is opened again, the
highest number that was given is read back, unless the calls end with the compaction of a removal
that leaves no entry for it, or there is no number behind it. -/
theorem Life.highest_reread_iff (hb₀ : b₀.Keeps ns SeqMap.empty)
    (life : Life (Backend.Elsewhere ns) b₀ events s b) (hs : s.journal? = some ns)
    (turn : Turn s b b') :
    ∃ calls : List LogCall, b'.calls = calls.reverse ++ b.calls ∧ ∀ i n,
      n = highest ((StreamEvent.numbers events).foldl max 0) (calls.take i) →
      ∃ log, (b.performAll (calls.take i)).2.Keeps ns log ∧
        ((∃ x b'', reread s.settings (b.performAll (calls.take i)).2 = (.ok x, b'') ∧
            n ≤ x.lastSeq) ↔
          n + 1 < wordLimit ∧ ¬(EndsCompacting (calls.take i) ∧ log.get? n = none)) := by
  obtain ⟨hx, log, hb, hlog⟩ := life.mirrors (fun h => h) hb₀ hs
  have hcounted : Counted events s := life.counted fun ns' hns' => by
    obtain rfl := Option.some.inj (hs.symm.trans hns')
    exact ⟨hb₀, fun h => h⟩
  obtain ⟨calls, hrange, rfl, hhalted⟩ := turn.halted hs hb hlog hx
  refine ⟨calls, hb.calls_performAll hrange, ?_⟩
  intro i n hn
  have hcut : (b.performAll (calls.take i)).2.Keeps ns (LogCall.effects log (calls.take i)) :=
    (hb.performAll fun call hcall => hrange call (List.mem_of_mem_take hcall)).2
  refine ⟨_, hcut, ?_⟩
  -- A stream is opened only if the number behind the last one exists.
  by_cases hlt : n + 1 < wordLimit
  · have hle : (StreamEvent.numbers events).foldl max 0 ≤ n :=
      hn ▸ Index.le_foldl_max_iff.2 (.inl (Nat.le_refl _))
    have hlast := hcounted.highest_eq (by omega)
    have h := hhalted (by omega) i
    rw [hlast] at hn
    obtain ⟨hupto, hremembers⟩ := h
    rw [← hn] at hupto hremembers
    rw [reread_remembers_iff hs hcut hupto, hremembers]
  · constructor
    · rintro ⟨x, b'', hread, hle⟩
      exact absurd (Nat.lt_of_le_of_lt (Nat.succ_le_succ hle) (lastSeq_of_reread hread)) hlt
    · exact fun h => absurd h.1 hlt

/-- A purge that is cut off behind its compaction forgets the number that was given. -/
theorem highest_forgotten_in_gap :
    ∃ events s b b' calls, Life (Backend.Elsewhere "stream_S") blankBackend events s b ∧
      Turn s b b' ∧ b'.calls = calls ++ b.calls ∧ StreamEvent.numbers events = [1] ∧
      ∃ i, ¬∃ x b'', reread s.settings (b.performAll (calls.reverse.take i)).2 = (.ok x, b'') ∧
        1 ≤ x.lastSeq := by
  have hclock : epochClock.IsDated := rfl
  have hproper : ∀ s, plainPublish.IsProper s := fun _ => trivial
  have hpurge : ∀ s, (StreamOp.purge {}).IsProper s := fun _ => trivial
  obtain ⟨s₀, b₀, s, b, reply, s', b', hopen, hrun, hrun', hjournal, hcalls, hnone⟩ :
      ∃ s₀ b₀ s b reply s' b', open? 0 plainSettings epochClock blankBackend = (.ok s₀, b₀) ∧
        plainPublish.run epochClock s₀ b₀ = (.ok (.stored 1), s, b) ∧
        (StreamOp.purge {}).run epochClock s b = (reply, s', b') ∧
        s.journal? = some "stream_S" ∧
        b'.calls = [.append "stream_S" [(watermarkIndex, encodeWatermark 1)],
          .compactBefore "stream_S" 1] ++ b.calls ∧
        ∀ log, (b.performAll [.compactBefore "stream_S" 1]).2.Keeps "stream_S" log →
          log.get? 1 = none :=
    ⟨_, _, _, _, _, _, _, rfl, rfl, rfl, rfl, rfl, fun _ h => h.holds ▸ rfl⟩
  have life := (Life.opened rfl hclock hopen :
    Life (Backend.Elsewhere "stream_S") _ _ _ _).operated (hproper s₀) hclock hrun nofun
  have turn : Turn s b b' := .operation (hpurge s) hclock hrun'
  refine ⟨_, s, b, b', _, life, turn, hcalls, rfl, 1, ?_⟩
  intro hread
  obtain ⟨calls, hcalls', hcut⟩ := life.highest_reread_iff (blankBackend_keeps _) hjournal turn
  -- The calls are those that the backend has recorded.
  have hreverse := List.append_cancel_right (hcalls.symm.trans hcalls')
  obtain rfl : calls = _ := List.reverse_eq_iff.1 hreverse.symm
  obtain ⟨log, hkeeps, hiff⟩ := hcut 1 1 rfl
  exact (hiff.1 hread).2 ⟨rfl, hnone log hkeeps⟩

end Stream

end StreamBroker
