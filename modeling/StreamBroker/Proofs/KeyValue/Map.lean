import Mathlib.Data.List.DropRight
import StreamBroker.KeyValue.Bucket

/-!
# Maps of versioned keys

What a key-value bucket is for is told without streams and subjects: every key has revisions, which
are numbered throughout the map, and of which only the newest are kept.  An operation is refused for
what the newest revision of its key is, or it writes one more.

## Main definitions

* `KeyOp`: the operations that write
* `KeyMap`: the revisions that are kept of every key
* `KeyMap.apply`: what an operation is answered with, and what it makes of a map
* `KeyMap.IsTidy`: what holds of a map that began empty

## Main results

* `KeyMap.IsTidy.apply`: operations keep a map tidy
* `KeyMap.revisions_apply_of_ne`: keys do not affect each other
* `KeyMap.apply_refused`, `KeyMap.apply_written`: an operation that is refused changes nothing, and
  one that is not writes a revision above all others
-/

namespace StreamBroker

/-- An operation that writes a revision of a key. -/
inductive KeyOp where
  /-- A value is written. -/
  | put (key : String) (value : Bytes)
  /-- A value is written if the key has none. -/
  | create (key : String) (value : Bytes)
  /-- A value is written if the newest revision has a number, zero for a key without revisions. -/
  | update (key : String) (value : Bytes) (revision : Nat)
  /-- The key is deleted. -/
  | delete (key : String)
  /-- The key is deleted with its older revisions. -/
  | purge (key : String)
  deriving DecidableEq, Repr

namespace KeyOp

def key : KeyOp → String
  | put key _ | create key _ | update key _ _ | delete key | purge key => key

/-- The value that is written, empty for deletions. -/
def value : KeyOp → Bytes
  | put _ value | create _ value | update _ value _ => value
  | delete _ | purge _ => []

/-- What the revision records. -/
def operation : KeyOp → KeyOperation
  | put .. | create .. | update .. => .put
  | delete _ => .delete
  | purge _ => .purge

/-- How many revisions of its key an operation leaves in a map that keeps `history` of them. -/
def leaves (history : Nat) : KeyOp → Nat
  | purge _ => 1
  | _ => history

/-- The operation on a bucket. -/
def run (k : KeyValueBucket) : KeyOp → Action Broker Nat
  | put key value => k.put key value
  | create key value => k.create key value
  | update key value revision => k.update key value revision
  | delete key => k.delete key
  | purge key => k.purge key

end KeyOp

/-- The revisions that are kept of every key. -/
@[ext]
structure KeyMap where
  /-- The number of the newest revision of all keys. -/
  last : Nat
  /-- The revisions of a key, oldest first. -/
  revisions : String → List KeyEntry

namespace KeyMap

variable {M : KeyMap} {bucket : String} {history : Nat} {now : Timestamp} {op : KeyOp}

def empty : KeyMap := ⟨0, fun _ => []⟩

/-- The newest revision of a key. -/
def newest? (M : KeyMap) (key : String) : Option KeyEntry := (M.revisions key).getLast?

/-- The number of the newest revision of a key, zero for a key without revisions. -/
def newestRevision (M : KeyMap) (key : String) : Nat :=
  ((M.newest? key).map KeyEntry.revision).getD 0

/-- The value of a key, if its newest revision is one. -/
def value? (M : KeyMap) (key : String) : Option Bytes :=
  ((M.newest? key).filter fun e => decide (e.operation = .put)).map KeyEntry.value

/-- A revision is written, and the newest revisions of its key are kept. -/
def extend (M : KeyMap) (kept : Nat) (e : KeyEntry) : KeyMap where
  last := e.revision
  revisions key := if key = e.key then (M.revisions key ++ [e]).rtake kept else M.revisions key

/-- Why an operation on a bucket is refused: the key that is created has a value, or the revision
that is expected is not the newest. -/
def refusal? (M : KeyMap) (bucket : String) : KeyOp → Option Error
  | .create key _ => if (M.value? key).isSome then some (.keyExists key bucket) else none
  | .update key _ revision =>
    if revision = M.newestRevision key then none
    else some (.wrongLastSubjectSequence revision (KeyValueSettings.keyPrefix bucket ++ key)
      (M.newestRevision key))
  | .put .. | .delete _ | .purge _ => none

/-- The revision that an operation writes. -/
def written (M : KeyMap) (bucket : String) (now : Timestamp) (op : KeyOp) : KeyEntry where
  bucket := bucket
  key := op.key
  value := op.value
  revision := M.last + 1
  created := now
  operation := op.operation

/-- What an operation is answered with, and what it makes of a map that keeps `history` revisions
of every key. -/
def apply (M : KeyMap) (bucket : String) (history : Nat) (now : Timestamp) (op : KeyOp) :
    Except Error Nat × KeyMap :=
  match M.refusal? bucket op with
  | some e => (.error e, M)
  | none => (.ok (M.last + 1), M.extend (op.leaves history) (M.written bucket now op))

/-- What holds of a map that began empty and keeps `history` revisions of every key. -/
structure IsTidy (M : KeyMap) (history : Nat) : Prop where
  /-- No more revisions are kept. -/
  length_le : ∀ key, (M.revisions key).length ≤ history
  /-- The revisions of a key are those of no other. -/
  key_eq : ∀ key, ∀ e ∈ M.revisions key, e.key = key
  /-- The revisions of a key are in the order of their numbers. -/
  ascending : ∀ key, (M.revisions key).Pairwise fun d e => d.revision < e.revision
  /-- No revision is above the newest. -/
  revision_le : ∀ key, ∀ e ∈ M.revisions key, e.revision ≤ M.last

theorem empty_isTidy (history : Nat) : empty.IsTidy history where
  length_le _ := Nat.zero_le _
  key_eq _ _ he := by cases he
  ascending _ := List.Pairwise.nil
  revision_le _ _ he := by cases he

/-- What is kept of a list is part of it. -/
theorem rtake_sublist {α : Type} (l : List α) (n : Nat) : (l.rtake n).Sublist l :=
  List.drop_sublist _ l

theorem length_rtake_le {α : Type} (l : List α) (n : Nat) : (l.rtake n).length ≤ n := by
  rw [List.rtake, List.length_drop]
  omega

/-- A key of which only the newest revision is to be kept may be cut down in two steps. -/
theorem revisions_extend_one {kept : Nat} (hkept : 1 ≤ kept) (M : KeyMap) (e : KeyEntry)
    (key : String) : (M.extend 1 e).revisions key =
      if key = e.key then ((M.extend kept e).revisions e.key).rtake 1
      else (M.extend kept e).revisions key := by
  obtain ⟨n, rfl⟩ : ∃ n, kept = n + 1 := ⟨kept - 1, by omega⟩
  simp only [extend, if_true]
  by_cases h : key = e.key
  · rw [if_pos h, if_pos h, List.rtake_concat_succ, List.rtake_concat_succ,
      List.rtake_concat_succ, List.rtake_zero, List.rtake_zero]
  · rw [if_neg h, if_neg h, if_neg h]

/-- A revision above all others leaves a map tidy. -/
theorem IsTidy.extend (h : M.IsTidy history) {kept : Nat} (hkept : kept ≤ history) {e : KeyEntry}
    (he : M.last < e.revision) : (M.extend kept e).IsTidy history where
  length_le key := by
    rw [KeyMap.extend]
    dsimp only
    split
    · exact Nat.le_trans (length_rtake_le _ _) hkept
    · exact h.length_le key
  key_eq key d hd := by
    rw [KeyMap.extend] at hd
    dsimp only at hd
    split at hd
    · next hkey =>
      rcases List.mem_append.1 ((rtake_sublist _ _).subset hd) with hd | hd
      · exact h.key_eq key d hd
      · rw [List.mem_singleton.1 hd, hkey]
    · exact h.key_eq key d hd
  ascending key := by
    rw [KeyMap.extend]
    dsimp only
    split
    · refine List.Pairwise.sublist (rtake_sublist _ _) ?_
      refine List.pairwise_append.2 ⟨h.ascending key, List.pairwise_singleton .., ?_⟩
      intro d hd f hf
      rw [List.mem_singleton.1 hf]
      exact Nat.lt_of_le_of_lt (h.revision_le key d hd) he
    · exact h.ascending key
  revision_le key d hd := by
    rw [KeyMap.extend] at hd ⊢
    dsimp only at hd ⊢
    split at hd
    · rcases List.mem_append.1 ((rtake_sublist _ _).subset hd) with hd | hd
      · exact Nat.le_of_lt (Nat.lt_of_le_of_lt (h.revision_le key d hd) he)
      · rw [List.mem_singleton.1 hd]
    · exact Nat.le_of_lt (Nat.lt_of_le_of_lt (h.revision_le key d hd) he)

/-- Operations keep a map tidy. -/
theorem IsTidy.apply (h : M.IsTidy history) (hhistory : 1 ≤ history) (bucket : String)
    (now : Timestamp) (op : KeyOp) : (M.apply bucket history now op).2.IsTidy history := by
  rw [KeyMap.apply]
  split
  · exact h
  · refine h.extend ?_ (Nat.lt_succ_self M.last)
    cases op with
    | purge key => exact hhistory
    | _ => exact Nat.le_refl history

/-- Keys do not affect each other. -/
theorem revisions_apply_of_ne {key : String} (hkey : key ≠ op.key) :
    (M.apply bucket history now op).2.revisions key = M.revisions key := by
  rw [apply]
  split
  · rfl
  · exact if_neg hkey

/-- An operation that is refused changes nothing. -/
theorem apply_refused {e : Error} (h : (M.apply bucket history now op).1 = .error e) :
    (M.apply bucket history now op).2 = M := by
  rw [apply] at h ⊢
  split
  · rfl
  · next hnone =>
    rw [hnone] at h
    cases h

/-- An operation that is not refused writes a revision above all others. -/
theorem apply_written {n : Nat} (h : (M.apply bucket history now op).1 = .ok n) :
    M.last < n ∧ (M.apply bucket history now op).2.last = n := by
  rw [apply] at h ⊢
  split
  · next e he =>
    rw [he] at h
    cases h
  · next hnone =>
    rw [hnone] at h
    cases h
    exact ⟨Nat.lt_succ_self _, rfl⟩

end KeyMap

end StreamBroker
