import StreamBroker.Proofs.Lookup
import StreamBroker.Proofs.Stream.LastTime
import StreamBroker.Proofs.Stream.Numbers
import StreamBroker.Proofs.Stream.Staff

/-!
# The time of the last number

A stream tells the last number that it gave, and the time of the message that it accepted last.  As
long as it is not opened again the one is the time of the other, whatever is removed and however its
backend does.  A restart finds the last number in the journal even if its message is gone, but the
time only of messages that are still there.  So behind a restart the time is that of the newest
message that was found, until a message is accepted again.

## Main definitions

* `Stream.Stamped`: what can happen to a stream, with the times at which it accepted messages
* `Stamps.Confirm`: the time that an index tells is that of its last number
* `StreamEvent.found`: the stream that the last restart found, if no message was accepted since

## Main results

* `Stream.Stamped.confirm`, `Stream.Stamped.recalls`: the time before a restart, and behind it
* `Stream.same_state_of_reread_iff`: what the journal gives back says the same exactly if the time
  is that of the newest message
* `Stream.Stamped.last_time`: all of this of a life that accepted a message
-/

namespace StreamBroker

/-! ## Times -/

/-- The numbers that were given to messages, with the times of the messages, the newest first. -/
abbrev Stamps := List (Nat × Timestamp)

namespace StreamEvent

variable {e : StreamEvent} {clock : Clock} {n : Nat}

/-- The number that an event gave to a message, with the time of its clock. -/
def stamps (clock : Clock) (e : StreamEvent) : Stamps :=
  e.assigned.toList.map fun n => (n, clock.wall.toMicro)

theorem stamps_eq_nil (h : e.assigned = none) : e.stamps clock = [] := by
  rw [stamps, h]
  rfl

theorem stamps_eq_singleton (h : e.assigned = some n) :
    e.stamps clock = [(n, clock.wall.toMicro)] := by
  rw [stamps, h]
  rfl

/-- An event gives one number at most. -/
theorem reverse_stamps (clock : Clock) (e : StreamEvent) :
    (e.stamps clock).reverse = e.stamps clock := by
  cases h : e.assigned with
  | none => rw [stamps_eq_nil h, List.reverse_nil]
  | some n => rw [stamps_eq_singleton h, List.reverse_singleton]

end StreamEvent

namespace Stamps

variable {stamps : Stamps} {x y : Index} {m : StoredMessage}

/-- The time that an index tells is the one at which its last number was given. -/
def Confirm (stamps : Stamps) (x : Index) : Prop :=
  ∃ t, stamps.lookup x.lastSeq = some t ∧ x.lastTimestamp = some t

/-- Every message has the time at which its number was given. -/
def Date (stamps : Stamps) (x : Index) : Prop :=
  ∀ n m, x.get? n = some m → stamps.lookup n = some m.timestamp

theorem Date.of_get? (h : stamps.Date x) (hget : ∀ {n m}, y.get? n = some m → x.get? n = some m) :
    stamps.Date y := fun n m hm => h n m (hget hm)

theorem Date.commit (h : stamps.Date x) (m : StoredMessage) :
    Date ((m.sequence, m.timestamp) :: stamps) (x.commit m) := by
  intro n w hw
  rw [Index.get?_commit] at hw
  split at hw
  · next hn =>
    cases hw
    rw [hn, List.lookup_cons_self]
  · next hn => exact (lookup_cons_of_ne hn).trans (h n w hw)

end Stamps

section Runs

variable {journal : Option String} {x y : Index} {b b' : Backend} {ms : List StoredMessage}
  {stamps : Stamps}

theorem LogStep.date (h : LogStep journal x b ms y b') (hx : stamps.Date x) :
    Stamps.Date ((ms.map fun m => (m.sequence, m.timestamp)).reverse ++ stamps) y := by
  cases h with
  | store hnext hlt htime h => exact hx.commit _
  | lose h => exact hx.of_get? h.get?_of_get?
  | fail hjournal hlt h => exact hx

theorem LogRun.date (h : LogRun journal x b ms y b') (hx : stamps.Date x) :
    Stamps.Date ((ms.map fun m => (m.sequence, m.timestamp)).reverse ++ stamps) y := by
  induction h with
  | refl => exact hx
  | step run h ih =>
    rw [List.map_append, List.reverse_append, List.append_assoc]
    exact h.date ih

end Runs

/-! ## Lives with times -/

namespace StreamEvent

/-- What the last restart found behind an event, from what it found before. -/
def foundFrom (found : Option Stream) (e : StreamEvent) : Option Stream :=
  match e with
  | opened => found
  | operated .. => if e.assigned.isSome then none else found
  | reopened before => some before

/-- The stream that the last restart found, if no message was accepted since. -/
def found (events : List StreamEvent) : Option Stream := events.foldl foundFrom none

variable {events : List StreamEvent} {s : Stream} {op : StreamOp}
  {reply : Except Error StreamReply}

theorem found_reopened : found (events ++ [.reopened s]) = some s := by
  rw [found, List.foldl_append]
  rfl

theorem found_operated : found (events ++ [.operated s op reply]) =
    if (operated s op reply).assigned.isSome then none else found events := by
  rw [found, List.foldl_append]
  rfl

/-- An operation that accepts no message leaves what the last restart found. -/
theorem found_of_assigned_eq_none (h : (operated s op reply).assigned = none) :
    found (events ++ [.operated s op reply]) = found events := by
  rw [found_operated, h]
  rfl

/-- Behind a message that was accepted it does not matter what a restart found. -/
theorem found_of_assigned {n : Nat} (h : (operated s op reply).assigned = some n) :
    found (events ++ [.operated s op reply]) = none := by
  rw [found_operated, h]
  rfl

end StreamEvent

namespace Stream

variable {others : Backend → Backend → Prop} {b₀ b b' : Backend} {stamps : Stamps}
  {events : List StreamEvent} {s s' : Stream} {ns : String} {settings : StreamSettings}
  {log : SeqMap Bytes} {x y : Index} {op : StreamOp} {clock : Clock}
  {reply : Except Error StreamReply}

/-- What can happen to a stream, with the times at which it accepted messages. -/
inductive Stamped (others : Backend → Backend → Prop) (b₀ : Backend) :
    Stamps → List StreamEvent → Stream → Backend → Prop where
  | opened {id : Nat} {settings : StreamSettings} {clock : Clock} {s : Stream} {b : Backend}
      (hcheck : settings.check = .ok ()) (hclock : clock.IsDated)
      (h : open? id settings clock b₀ = (.ok s, b)) : Stamped others b₀ [] [.opened] s b
  | operated {stamps : Stamps} {events : List StreamEvent} {s s' : Stream} {b b' : Backend}
      {op : StreamOp} {clock : Clock} {reply : Except Error StreamReply}
      (life : Stamped others b₀ stamps events s b) (hop : op.IsProper s) (hclock : clock.IsDated)
      (h : op.run clock s b = (reply, s', b')) (hreply : reply ≠ .error .numbersExhausted) :
      Stamped others b₀ ((StreamEvent.operated s op reply).stamps clock ++ stamps)
        (events ++ [.operated s op reply]) s' b'
  | reopened {stamps : Stamps} {events : List StreamEvent} {s s' : Stream} {b b' : Backend}
      {id : Nat} {settings : StreamSettings} {clock : Clock}
      (life : Stamped others b₀ stamps events s b) (hs : s.isJournaled = true)
      (hcheck : settings.check = .ok ()) (hname : settings.name = s.name)
      (hstorage : settings.storage = .file) (hclock : clock.IsDated)
      (h : open? id settings clock b = (.ok s', b')) :
      Stamped others b₀ stamps (events ++ [.reopened s]) s' b'
  | elsewhere {stamps : Stamps} {events : List StreamEvent} {s : Stream} {b b' : Backend}
      (life : Stamped others b₀ stamps events s b) (h : others b b') :
      Stamped others b₀ stamps events s b'

theorem Stamped.life (life : Stamped others b₀ stamps events s b) : Life others b₀ events s b := by
  induction life with
  | opened hcheck hclock h => exact .opened hcheck hclock h
  | operated life hop hclock h hreply ih => exact ih.operated hop hclock h hreply
  | reopened life hs hcheck hname hstorage hclock h ih =>
    exact ih.reopened hs hcheck hname hstorage hclock h
  | elsewhere life h ih => exact ih.elsewhere h

/-- In every life messages are accepted at some times. -/
theorem Life.exists_stamped (life : Life others b₀ events s b) :
    ∃ stamps, Stamped others b₀ stamps events s b := by
  induction life with
  | opened hcheck hclock h => exact ⟨[], .opened hcheck hclock h⟩
  | operated life hop hclock h hreply ih =>
    obtain ⟨stamps, hstamped⟩ := ih
    exact ⟨_, hstamped.operated hop hclock h hreply⟩
  | reopened life hs hcheck hname hstorage hclock h ih =>
    obtain ⟨stamps, hstamped⟩ := ih
    exact ⟨stamps, hstamped.reopened hs hcheck hname hstorage hclock h⟩
  | elsewhere life h ih =>
    obtain ⟨stamps, hstamped⟩ := ih
    exact ⟨stamps, hstamped.elsewhere h⟩

/-! ## Without a restart -/

/-- An operation leaves the last number and its time, unless it is a publish that is accepted: then
the last number is the new one, and the time is that of the clock. -/
theorem latest_operated (hop : op.IsProper s) (hclock : clock.IsDated)
    (h : op.run clock s b = (reply, s', b')) (hreply : reply ≠ .error .numbersExhausted) :
    (StreamEvent.operated s op reply).assigned = none ∧
        s'.index.lastSeq = s.index.lastSeq ∧ s'.index.lastTimestamp = s.index.lastTimestamp ∨
      (StreamEvent.operated s op reply).assigned = some s'.index.lastSeq ∧
        s'.index.lastTimestamp = some clock.wall.toMicro := by
  have htime := StreamOp.lastTimestamp_run h hreply
  obtain ⟨ms, hmoves, hms⟩ := StreamOp.moves_run hclock hop h hreply
  obtain ⟨hnumbers, hlast, -⟩ := hmoves.run.map_sequence
  rw [hms] at hnumbers
  cases hassigned : (StreamEvent.operated s op reply).assigned with
  | none =>
    rw [hassigned] at hms htime
    obtain rfl := List.map_eq_nil_iff.1 hms
    exact .inl ⟨rfl, hlast, htime⟩
  | some n =>
    rw [hassigned] at hms htime hnumbers
    -- There is one message, and its number is the one behind the last.
    have hlength : ms.length = 1 := by
      rw [← List.length_map (·.sequence), hms]
      rfl
    rw [hlength] at hnumbers hlast
    obtain rfl : n = s.index.lastSeq + 1 := List.head_eq_of_cons_eq hnumbers
    exact .inr ⟨congrArg some hlast.symm, htime⟩

/-- As long as a stream that accepted a message is not opened again, the time that it tells is that
of its last number. -/
theorem Stamped.confirm (life : Stamped others b₀ stamps events s b) (hstamps : stamps ≠ [])
    (hfound : StreamEvent.found events = none) : stamps.Confirm s.index := by
  induction life with
  | opened => exact absurd rfl hstamps
  | operated life hop hclock h hreply ih =>
    rcases latest_operated hop hclock h hreply with ⟨hnone, hlast, htime⟩ | ⟨hsome, htime⟩
    · rw [StreamEvent.stamps_eq_nil hnone, List.nil_append] at hstamps ⊢
      rw [StreamEvent.found_of_assigned_eq_none hnone] at hfound
      obtain ⟨t, hstamp, ht⟩ := ih hstamps hfound
      exact ⟨t, hlast ▸ hstamp, htime.trans ht⟩
    · rw [StreamEvent.stamps_eq_singleton hsome]
      exact ⟨_, List.lookup_cons_self, htime⟩
  | reopened =>
    rw [StreamEvent.found_reopened] at hfound
    cases hfound
  | elsewhere life h ih => exact ih hstamps hfound

/-! ## Behind a restart -/

/-- What a mirror gives back is what was recovered from it. -/
theorem exists_recovers_of_reread (hns : settings.journal? = some ns) (hb : b.Keeps ns log)
    (hlog : Journal.Mirrors log x) (hx : x.Sound) (h : reread settings b = (.ok y, b')) :
    ∃ r, Journal.Recovers log r ∧ y = Index.restore r.messages r.watermark := by
  obtain ⟨r, b₁, hr, -, hread⟩ := reread_spec hns hb (hlog.readable hx)
  rw [h] at hread
  refine ⟨r, hr, ?_⟩
  obtain ⟨hy, -⟩ := Prod.mk.inj hread
  split at hy
  · cases hy
  · cases hy
    rfl

/-- What a mirror gives back are messages of its index. -/
theorem get?_of_reread (hns : settings.journal? = some ns) (hb : b.Keeps ns log)
    (hlog : Journal.Mirrors log x) (hx : x.Sound) (h : reread settings b = (.ok y, b')) {n : Nat}
    {m : StoredMessage} (hm : y.get? n = some m) : x.get? n = some m := by
  obtain ⟨r, hr, rfl⟩ := exists_recovers_of_reread hns hb hlog hx h
  exact ((hlog.messageAt_iff hx).1 (hr.get?_restore_iff.1 hm).1).1

/-- What a mirror gives back has the time of the newest message of its index, up to the last number
that it gives back. -/
theorem lastTimestamp_of_reread (hns : settings.journal? = some ns) (hb : b.Keeps ns log)
    (hlog : Journal.Mirrors log x) (hx : x.Sound) (h : reread settings b = (.ok y, b')) :
    y.lastTimestamp = (x.newestUpTo y.lastSeq).map (·.timestamp) := by
  have hlt := lastSeq_of_reread h
  obtain ⟨r, hr, rfl⟩ := exists_recovers_of_reread hns hb hlog hx h
  have hlist : r.messages =
      x.toList.filter fun m =>
        decide (m.sequence ≤ (Index.restore r.messages r.watermark).lastSeq) := by
    refine eq_of_ascending (·.sequence) hr.ascending (hx.filed.pairwise_toList.filter _) fun m => ?_
    rw [hr.mem_iff, hlog.messageAt_iff hx, hx.filed.mem_filter_iff, decide_eq_true_eq]
    refine and_congr_right fun hm => ⟨fun hread => ?_, fun hle => ?_⟩
    · -- A message that is read is in what was recovered.
      have hmessage := (hlog.messageAt_iff hx).2 ⟨hm, hread⟩
      exact hr.restore_sound.le_lastSeq (hr.get?_restore_iff.2 ⟨hmessage, rfl⟩)
    · -- Only the largest number is not read.
      have hlargest : Journal.lastIndex = wordLimit - 1 := rfl
      omega
  rw [Index.lastTimestamp_restore, Index.newestUpTo, ← hlist]

/-- What a stream that was opened again knows of times: those of its messages, and that of the
newest message that the restart found. -/
structure Recalls (stamps : Stamps) (events : List StreamEvent) (s : Stream) : Prop where
  /-- Every message has the time at which its number was given. -/
  date : stamps.Date s.index
  /-- What the last restart found has its messages under their numbers. -/
  filed : ∀ before, StreamEvent.found events = some before → before.index.Filed
  /-- What the last restart found has the times at which its numbers were given. -/
  found : ∀ before, StreamEvent.found events = some before → stamps.Date before.index
  /-- The time is that of the newest message that the last restart found. -/
  lastTimestamp_eq : ∀ before, StreamEvent.found events = some before →
    s.index.lastTimestamp = (before.index.newestUpTo s.index.lastSeq).map (·.timestamp)

theorem Recalls.of_found_eq_none (hdate : stamps.Date s.index)
    (h : StreamEvent.found events = none) : Recalls stamps events s := by
  have hnone (before : Stream) : StreamEvent.found events ≠ some before := by
    rw [h]
    exact nofun
  exact ⟨hdate, fun before h => absurd h (hnone before), fun before h => absurd h (hnone before),
    fun before h => absurd h (hnone before)⟩

theorem Recalls.operated (h : Recalls stamps events s) (hop : op.IsProper s)
    (hclock : clock.IsDated) (hrun : op.run clock s b = (reply, s', b'))
    (hreply : reply ≠ .error .numbersExhausted) :
    Recalls ((StreamEvent.operated s op reply).stamps clock ++ stamps)
      (events ++ [.operated s op reply]) s' := by
  obtain ⟨ms, hmoves, hms⟩ := StreamOp.moves_run_stamped hclock hop hrun hreply
  have hdate := hmoves.run.date h.date
  rw [hms, ← StreamEvent.stamps, StreamEvent.reverse_stamps] at hdate
  rcases latest_operated hop hclock hrun hreply with ⟨hnone, hlast, htime⟩ | ⟨hsome, -⟩
  · rw [StreamEvent.stamps_eq_nil hnone, List.nil_append] at hdate ⊢
    have hfound : StreamEvent.found (events ++ [.operated s op reply]) =
        StreamEvent.found events := StreamEvent.found_of_assigned_eq_none hnone
    refine ⟨hdate, ?_, ?_, ?_⟩
    · exact fun before hbefore => h.filed before (hfound ▸ hbefore)
    · exact fun before hbefore => h.found before (hfound ▸ hbefore)
    · rw [htime, hlast]
      exact fun before hbefore => h.lastTimestamp_eq before (hfound ▸ hbefore)
  · -- A message was accepted, so the restart does not matter any more.
    exact .of_found_eq_none hdate (StreamEvent.found_of_assigned hsome)

theorem Recalls.reopened (h : Recalls stamps events s) (hs : s.index.Filed)
    (hget : ∀ {n m}, s'.index.get? n = some m → s.index.get? n = some m)
    (htime : s'.index.lastTimestamp =
      (s.index.newestUpTo s'.index.lastSeq).map (·.timestamp)) :
    Recalls stamps (events ++ [.reopened s]) s' := by
  have hfound {before : Stream} (h : StreamEvent.found (events ++ [.reopened s]) = some before) :
      before = s := (Option.some.inj (StreamEvent.found_reopened.symm.trans h)).symm
  refine ⟨h.date.of_get? hget, ?_, ?_, ?_⟩
  · exact fun before hbefore => hfound hbefore ▸ hs
  · exact fun before hbefore => hfound hbefore ▸ h.date
  · exact fun before hbefore => hfound hbefore ▸ htime

/-- The time is right if the newest message that the restart found is of the time of the last
number. -/
theorem Recalls.confirm_iff (h : Recalls stamps events s) {before : Stream}
    (hfound : StreamEvent.found events = some before) :
    stamps.Confirm s.index ↔ ∃ m, before.index.newestUpTo s.index.lastSeq = some m ∧
      stamps.lookup s.index.lastSeq = some m.timestamp := by
  rw [Stamps.Confirm, h.lastTimestamp_eq before hfound]
  constructor
  · rintro ⟨t, hstamp, ht⟩
    obtain ⟨m, hm, rfl⟩ := Option.map_eq_some_iff.1 ht
    exact ⟨m, hm, hstamp⟩
  · rintro ⟨m, hm, hstamp⟩
    exact ⟨m.timestamp, hstamp, by rw [hm]; rfl⟩

/-- A life on a backend whose calls succeed knows of times what its restarts found. -/
theorem Stamped.recalls (life : Stamped others b₀ stamps events s b)
    (hfile : ∀ ns, s.journal? = some ns →
      b₀.Keeps ns SeqMap.empty ∧ ∀ {b b'}, others b b' → Backend.Elsewhere ns b b') :
    Recalls stamps events s := by
  induction life with
  | @opened id settings clock s b hcheck hclock h =>
    obtain ⟨x, b₁, hread, rfl, run⟩ := moves_of_open? h
    refine .of_found_eq_none ?_ rfl
    -- A stream that was never opened before begins without messages.
    have hx (n : Nat) : x.get? n = none := by
      cases hns : s.settings.journal? with
      | none =>
        rw [reread_unjournaled hns] at hread
        cases hread
        rfl
      | some ns =>
        rw [Option.eq_none_iff_forall_ne_some]
        intro m hm
        cases get?_of_reread hns (hfile ns hns).1 .empty Index.empty_sound hread hm
    obtain ⟨gone, hloses⟩ := run.loses rfl
    intro n m hm
    cases (hx n).symm.trans (hloses.get?_of_get? hm)
  | operated life hop hclock h hreply ih =>
    obtain ⟨ms, hmoves, -⟩ := StreamOp.moves_run hclock hop h hreply
    exact (ih fun ns hns => hfile ns (hmoves.journal.trans hns)).operated hop hclock h hreply
  | @reopened stamps events s s' b b' id settings clock life hs hcheck hname hstorage hclock h ih =>
    obtain ⟨x, b₁, hread, hs', -⟩ := open?_eq_ok h
    have hjournal := journal?_of_isJournaled hs
    have hns := (journal?_of_reopened hs hname hstorage).trans hjournal
    have hfile' : ∀ ns, s.journal? = some ns → b₀.Keeps ns SeqMap.empty ∧
        ∀ {b b'}, others b b' → Backend.Elsewhere ns b b' := fun ns hj => hfile ns (by
      rw [hs']
      exact hns.trans (hjournal.symm.trans hj))
    obtain ⟨hb₀, hothers⟩ := hfile' _ hjournal
    obtain ⟨hx, log, hb, hlog⟩ := life.life.mirrors hothers hb₀ hjournal
    -- What the settings do not allow goes at once, and takes neither the last number nor the time.
    have hloses := loses_prune settings clock.wall x
    have hindex : s'.index = (prune settings clock.wall x).2 := by rw [hs']
    refine (ih hfile').reopened hx.filed ?_ ?_
    · intro n m hm
      rw [hindex] at hm
      exact get?_of_reread hns hb hlog hx hread (hloses.get?_of_get? hm)
    · rw [hindex, lastTimestamp_prune, hloses.lastSeq_eq]
      exact lastTimestamp_of_reread hns hb hlog hx hread
  | elsewhere life h ih => exact ih hfile

/-- **What a mirror gives back says the same as its index exactly if the number behind the last one
exists and the time is that of the newest message.** -/
theorem same_state_of_reread_iff (hns : settings.journal? = some ns) (hb : b.Keeps ns log)
    (hlog : Journal.Mirrors log x) (hx : x.Sound) :
    (∃ y b', reread settings b = (.ok y, b') ∧
        ∀ filter consumers, (y.state filter consumers).Same (x.state filter consumers)) ↔
      x.lastSeq + 1 < wordLimit ∧ x.lastTimestamp = x.toList.getLast?.map (·.timestamp) := by
  have hiff := reread_agrees_iff hns hb hlog hx
  -- What is given back below the largest number is the index, but for the time.
  have htime {y : Index} {b' : Backend} (hread : reread settings b = (.ok y, b'))
      (hagrees : y.Agrees x) :
      (∀ filter consumers, (y.state filter consumers).Same (x.state filter consumers)) ↔
        x.toList.getLast?.map (·.timestamp) = x.lastTimestamp := by
    obtain ⟨hy, -, -⟩ := mirrors_of_reread hns hb hlog hx hread
    rw [hagrees.same_state_iff hy.coherent.toTallied hx.coherent.toTallied,
      lastTimestamp_of_reread hns hb hlog hx hread, hagrees.lastSeq, hx.filed.newestUpTo_lastSeq]
  constructor
  · rintro ⟨y, b', hread, hsame⟩
    have hlast : y.lastSeq = x.lastSeq := congrArg StreamState.lastSequence (hsame none 0).counters
    have hlt : x.lastSeq + 1 < wordLimit := hlast ▸ lastSeq_of_reread hread
    obtain ⟨z, b₁, hread', hagrees⟩ := hiff.2 hlt
    rw [hread] at hread'
    cases hread'
    exact ⟨hlt, ((htime hread hagrees).1 hsame).symm⟩
  · rintro ⟨hlt, heq⟩
    obtain ⟨y, b', hread, hagrees⟩ := hiff.2 hlt
    exact ⟨y, b', hread, (htime hread hagrees).2 heq.symm⟩

/-! ## The time that is told -/

/-- **The time that a stream tells is that of its last number, unless a restart has forgotten it.**
As long as a stream that accepted a message is not opened again the time is right, on any backend.
On a backend whose calls succeed the time behind a restart is that of the newest message that the
restart found, so it is right exactly if that is the message of the last number or one of the same
time.  What the journal gives back says all that the stream does exactly if the number behind the
last one exists and the newest message that is still there has the time that the stream tells. -/
theorem Stamped.last_time (life : Stamped others b₀ stamps events s b) (hstamps : stamps ≠ []) :
    (StreamEvent.found events = none → stamps.Confirm s.index) ∧
    ((∀ ns, s.journal? = some ns →
        b₀.Keeps ns SeqMap.empty ∧ ∀ {b b'}, others b b' → Backend.Elsewhere ns b b') →
      (∀ before, StreamEvent.found events = some before →
        s.index.lastTimestamp =
            (before.index.newestUpTo s.index.lastSeq).map (·.timestamp) ∧
          (stamps.Confirm s.index ↔ before.index.contains s.index.lastSeq = true ∨
            ∃ m, before.index.newestUpTo s.index.lastSeq = some m ∧
              stamps.lookup s.index.lastSeq = some m.timestamp)) ∧
      (s.isJournaled = true →
        ((∃ x b', reread s.settings b = (.ok x, b') ∧ ∀ filter consumers,
            (x.state filter consumers).Same (s.index.state filter consumers)) ↔
          s.index.lastSeq + 1 < wordLimit ∧
            s.index.lastTimestamp = s.index.toList.getLast?.map (·.timestamp)))) := by
  refine ⟨life.confirm hstamps, fun hfile => ⟨fun before hfound => ?_, fun hs => ?_⟩⟩
  · have hrecalls := life.recalls hfile
    refine ⟨hrecalls.lastTimestamp_eq before hfound, ?_⟩
    rw [hrecalls.confirm_iff hfound, or_iff_right_of_imp]
    intro hcontains
    -- The message of the last number is the newest up to it.
    obtain ⟨m, hm⟩ := Index.contains_iff.1 hcontains
    exact ⟨m, (hrecalls.filed before hfound).newestUpTo_of_get? hm,
      hrecalls.found before hfound _ m hm⟩
  · have hns := journal?_of_isJournaled hs
    obtain ⟨hb₀, hothers⟩ := hfile _ hns
    obtain ⟨hx, log, hb, hlog⟩ := life.life.mirrors hothers hb₀ hns
    exact same_state_of_reread_iff hns hb hlog hx

/-- A stream whose newest message is deleted before it is opened again tells the time of an older
one, and its journal did not give back what it said. -/
theorem last_time_forgotten :
    ∃ stamps events before s b b₁,
      Stamped (Backend.Elsewhere "stream_S") blankBackend stamps events before b₁ ∧
      Stamped (Backend.Elsewhere "stream_S") blankBackend stamps (events ++ [.reopened before])
        s b ∧
      stamps = [(2, ⟨1, 0⟩), (1, ⟨0, 0⟩)] ∧ before.index.lastSeq = 2 ∧ s.index.lastSeq = 2 ∧
      before.index.lastTimestamp = some ⟨1, 0⟩ ∧ s.index.lastTimestamp = some ⟨0, 0⟩ ∧
      stamps.Confirm before.index ∧ ¬stamps.Confirm s.index ∧
      ¬∃ x b', reread before.settings b₁ = (.ok x, b') ∧ ∀ filter consumers,
        (x.state filter consumers).Same (before.index.state filter consumers) := by
  have hclock : epochClock.IsDated := rfl
  have hlater : (⟨0, 1000000000⟩ : Clock).IsDated := rfl
  have hproper : ∀ s, plainPublish.IsProper s := fun _ => trivial
  have hdelete : ∀ s, (StreamOp.deleteMessage 2).IsProper s := fun _ => trivial
  obtain ⟨s₀, b₀, s₁, b₁, s₂, b₂, s₃, b₃, s, b, m, hopen, hfirst, hsecond, hgone, hagain, hsettings,
      hsettings', hlast, hlast', htime, htime', hnone, hnewest, hm, hlist⟩ :
      ∃ s₀ b₀ s₁ b₁ s₂ b₂ s₃ b₃ s b m,
        open? 0 plainSettings epochClock blankBackend = (.ok s₀, b₀) ∧
        plainPublish.run epochClock s₀ b₀ = (.ok (.stored 1), s₁, b₁) ∧
        plainPublish.run ⟨0, 1000000000⟩ s₁ b₁ = (.ok (.stored 2), s₂, b₂) ∧
        (StreamOp.deleteMessage 2).run ⟨0, 1000000000⟩ s₂ b₂ = (.ok .done, s₃, b₃) ∧
        open? 0 plainSettings ⟨0, 1000000000⟩ b₃ = (.ok s, b) ∧
        s₃.settings = plainSettings ∧ s.settings = plainSettings ∧
        s₃.index.lastSeq = 2 ∧ s.index.lastSeq = 2 ∧
        s₃.index.lastTimestamp = some ⟨1, 0⟩ ∧ s.index.lastTimestamp = some ⟨0, 0⟩ ∧
        s₃.index.contains 2 = false ∧ s₃.index.newestUpTo 2 = some m ∧ m.timestamp = ⟨0, 0⟩ ∧
        s₃.index.toList.getLast? = some m :=
    ⟨_, _, _, _, _, _, _, _, _, _, _, rfl, rfl, rfl, rfl, rfl, rfl, rfl, rfl, rfl, rfl,
      by decide +kernel, rfl, rfl, rfl, rfl⟩
  have life : Stamped (Backend.Elsewhere "stream_S") blankBackend
      [(2, ⟨1, 0⟩), (1, ⟨0, 0⟩)] _ s₃ b₃ :=
    (((Stamped.opened rfl hclock hopen).operated (hproper s₀) hclock hfirst (by simp)).operated
      (hproper s₁) hlater hsecond (by simp)).operated (hdelete s₂) hlater hgone (by simp)
  have hs : s₃.isJournaled = true := by rw [isJournaled, hsettings]; rfl
  have life' := life.reopened hs rfl (by rw [name, hsettings]) rfl hlater hagain
  obtain ⟨hright, hrest⟩ := life.last_time (List.cons_ne_nil _ _)
  obtain ⟨-, hreread⟩ := hrest (keeps_plain hsettings)
  obtain ⟨-, hrest'⟩ := life'.last_time (List.cons_ne_nil _ _)
  obtain ⟨hbehind, -⟩ := hrest' (keeps_plain hsettings')
  obtain ⟨-, hiff⟩ := hbehind s₃ StreamEvent.found_reopened
  refine ⟨_, _, s₃, s, b, b₃, life, life', rfl, hlast, hlast', htime, htime', hright rfl, ?_, ?_⟩
  · rw [hiff, hlast', hnone, hnewest]
    -- The restart found neither the message of the last number nor another one of its time.
    rintro (hcontains | ⟨w, hw, hstamp⟩)
    · cases hcontains
    · obtain rfl := Option.some.inj hw
      rw [hm] at hstamp
      cases hstamp
  · rw [hreread hs, hlist, htime]
    rintro ⟨-, heq⟩
    rw [Option.map_some, hm] at heq
    cases heq

end Stream

end StreamBroker
