import Mathlib.Data.List.Nodup
import StreamBroker.Proofs.Index.Queries
import StreamBroker.Proofs.Index.Removal
import StreamBroker.Proofs.Index.Sound

/-!
# What is counted again

All that an index says about itself can be counted again from its messages and its last number, but
for one thing: the time of the message that came last.  It stays when messages go, as the last
number does, and unlike the number it is not written down beside the messages.  An index of messages
that were read back has the time of the newest of these instead.  So it says what the index before
it said exactly if the two times are the same.

## Main definitions

* `Index.newestUpTo`: the newest message up to a number
* `StreamState.Same`: the same counters, and the same counts of the subjects

## Main results

* `Index.Removes.lastTimestamp_eq`: removals leave the last time
* `Index.lastTimestamp_restore`: what is read back has the time of its newest message
* `Index.Agrees.same_state_iff`: an index that was counted again says the same exactly if it has
  the same last time
-/

namespace StreamBroker

/-- Two states of streams say the same: the counters are the same, and so are the counts of the
subjects, which come in no order. -/
structure StreamState.Same (s t : StreamState) : Prop where
  /-- The counters are the same. -/
  counters : { s with subjects := none } = { t with subjects := none }
  /-- The counts of the subjects are the same. -/
  counts : Option.Rel List.Perm s.subjects t.subjects

namespace Index

variable {x y : Index} {gone : List Nat} {n : Nat} {m : StoredMessage}

/-! ## The last time -/

theorem lastTimestamp_remove (x : Index) (n : Nat) :
    (x.remove n).lastTimestamp = x.lastTimestamp := by
  rw [remove]
  split <;> rfl

/-- The last time stays when messages go, also when the last message does. -/
theorem Removes.lastTimestamp_eq (h : x.Removes gone y) : y.lastTimestamp = x.lastTimestamp := by
  induction h with
  | refl x => rfl
  | cons hn h ih => exact ih.trans (lastTimestamp_remove _ _)

theorem lastTimestamp_foldl_commit (x : Index) (ms : List StoredMessage) :
    (ms.foldl commit x).lastTimestamp =
      (ms.getLast?.map (·.timestamp)).or x.lastTimestamp := by
  induction ms generalizing x with
  | nil => rfl
  | cons m ms ih =>
    rw [List.foldl_cons, ih, List.getLast?_cons]
    -- Either another message comes later, or this one was the last.
    cases ms.getLast? <;> rfl

/-- What is read back has the time of its newest message, whatever the watermark is. -/
theorem lastTimestamp_restore (ms : List StoredMessage) (watermark : Nat) :
    (restore ms watermark).lastTimestamp = ms.getLast?.map (·.timestamp) :=
  (lastTimestamp_foldl_commit empty ms).trans Option.or_none

/-! ## The newest message -/

/-- The message with the highest number up to a number. -/
def newestUpTo (x : Index) (n : Nat) : Option StoredMessage :=
  (x.toList.filter fun m => decide (m.sequence ≤ n)).getLast?

namespace Filed

/-- A message is the newest up to its own number. -/
theorem newestUpTo_of_get? (hx : x.Filed) (hm : x.get? n = some m) : x.newestUpTo n = some m := by
  obtain rfl := hx.sequence_eq hm
  have hmem : m ∈ x.toList.filter fun w => decide (w.sequence ≤ m.sequence) :=
    (hx.mem_filter_iff _).2 ⟨hm, decide_eq_true (Nat.le_refl _)⟩
  obtain ⟨w, hw⟩ : ∃ w, _ = some w :=
    ⟨_, List.getLast?_eq_some_getLast (List.ne_nil_of_mem hmem)⟩
  obtain ⟨hwmem, hmost⟩ :=
    getLast?_of_ascending (·.sequence) (hx.pairwise_toList.filter _) hw
  obtain ⟨hwget, hle⟩ := (hx.mem_filter_iff _).1 hwmem
  -- Either number is at most the other, and there is one message under a number.
  have heq := Nat.le_antisymm (of_decide_eq_true hle) (hmost m hmem)
  rw [heq, hm] at hwget
  rw [newestUpTo, hw, hwget]

/-- No number is above the last one. -/
theorem newestUpTo_lastSeq (hx : x.Filed) : x.newestUpTo x.lastSeq = x.toList.getLast? := by
  rw [newestUpTo, List.filter_eq_self.2]
  intro m hm
  exact decide_eq_true (hx.le_lastSeq (hx.mem_toList_iff.1 hm))

end Filed

/-! ## The counters -/

/-- What is listed of the subjects is known by the numbers of each of them. -/
theorem Tallied.mem_subjects_iff (hx : x.Tallied) {e : String × SeqSet} :
    e ∈ x.subjects ↔
      SubjectIndex.sequences e.1 x.subjects = e.2 ∧ e.2.isEmpty = false := by
  constructor
  · intro he
    exact ⟨SubjectIndex.sequences_of_mem hx.nodup_subjects he, hx.isEmpty_of_mem e he⟩
  · rintro ⟨hsequences, hempty⟩
    rw [SubjectIndex.sequences] at hsequences
    cases hlookup : x.subjects.lookup e.1 with
    | none =>
      -- A subject that is not listed has no numbers.
      rw [hlookup] at hsequences
      rw [← hsequences] at hempty
      cases hempty
    | some ns =>
      rw [hlookup] at hsequences
      obtain rfl : ns = e.2 := hsequences
      exact mem_of_lookup hlookup

theorem Agrees.perm_subjects (h : x.Agrees y) (hx : x.Tallied) (hy : y.Tallied) :
    x.subjects.Perm y.subjects := by
  have hnodup {z : Index} (hz : z.Tallied) : z.subjects.Nodup := .of_map _ hz.nodup_subjects
  refine (List.perm_ext_iff_of_nodup (hnodup hx) (hnodup hy)).2 fun e => ?_
  rw [hx.mem_subjects_iff, hy.mem_subjects_iff, h.sequences]

/-- **An index that was counted again says the same exactly if it has the same last time.** -/
theorem Agrees.same_state_iff (h : x.Agrees y) (hx : x.Tallied) (hy : y.Tallied) :
    (∀ filter consumers, (x.state filter consumers).Same (y.state filter consumers)) ↔
      x.lastTimestamp = y.lastTimestamp := by
  have hperm := h.perm_subjects hx hy
  constructor
  · intro hsame
    exact congrArg StreamState.lastTimestamp (hsame none 0).counters
  · intro htime filter consumers
    refine ⟨?_, ?_⟩
    · simp only [state, size, first?, h.messages, h.bytes, h.firstSeq, h.lastSeq, htime,
        hperm.length_eq]
      rfl
    · cases filter with
      | none => exact .none
      | some pattern => exact .some ((hperm.filter _).map _)

end Index

end StreamBroker
