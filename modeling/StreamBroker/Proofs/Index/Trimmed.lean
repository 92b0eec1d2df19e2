import Mathlib.Data.List.DropRight
import StreamBroker.Proofs.Index.Limits
import StreamBroker.Proofs.Subject.Literal

/-!
# Subjects that are cut down

A limit on the messages of a subject and a request to purge a subject come to the same: the oldest
messages of the subject go until no more than a number are left, and the messages of other subjects
stay.

## Main results

* `Index.toList_removeAll`: the messages that stay when some numbers go
* `Retention.ofSubject_trimSubject`: what is left of a subject that is cut down
* `Index.purge_subject`: a request to purge a subject cuts it down
-/

namespace StreamBroker

/-- What is not among the first of a list without repetitions is the rest of it. -/
theorem filter_notMem_take {α : Type} (f : α → Nat) {l : List α}
    (hl : l.Pairwise fun a b => f a < f b) (k : Nat) :
    (l.filter fun a => decide (f a ∉ (l.map f).take k)) = l.drop k := by
  refine eq_of_ascending f (hl.filter _) (hl.sublist (List.drop_sublist k l)) fun a => ?_
  rw [List.mem_filter, decide_eq_true_eq, ← List.map_take]
  have hapart := hl
  rw [← List.take_append_drop k l, List.pairwise_append] at hapart
  constructor
  · rintro ⟨ha, hk⟩
    rw [← List.take_append_drop k l, List.mem_append] at ha
    exact ha.resolve_left fun ha => hk (List.mem_map_of_mem ha)
  · intro ha
    refine ⟨List.mem_of_mem_drop ha, fun hk => ?_⟩
    obtain ⟨b, hb, heq⟩ := List.mem_map.1 hk
    exact Nat.ne_of_lt (hapart.2.2 b hb a ha) heq

/-- What is not among the last of a list without repetitions is the rest of it. -/
theorem mem_rdrop_iff {α : Type} {l : List α} (hl : l.Nodup) (k : Nat) (a : α) :
    a ∈ l.rdrop k ↔ a ∈ l ∧ a ∉ l.rtake k := by
  have happend : l.rdrop k ++ l.rtake k = l := List.take_append_drop _ _
  have hapart := happend.symm ▸ hl
  rw [List.nodup_append] at hapart
  constructor
  · exact fun ha => ⟨List.mem_of_mem_take ha, fun hk => hapart.2.2 a ha a hk rfl⟩
  · rintro ⟨ha, hk⟩
    rw [← happend, List.mem_append] at ha
    exact ha.resolve_right hk

namespace Index

variable {x y : Index} {m : StoredMessage} {gone : List Nat}

/-- The messages that stay when some numbers go. -/
theorem toList_removeAll (hx : x.Filed) (ns : List Nat) :
    (x.removeAll ns).2.toList = x.toList.filter fun m => decide (m.sequence ∉ ns) := by
  have hy := hx.loses (loses_removeAll x ns)
  refine eq_of_ascending (·.sequence) hy.pairwise_toList (hx.pairwise_toList.filter _) fun m => ?_
  rw [hx.mem_filter_iff, hy.mem_toList_iff, get?_removeAll, decide_eq_true_eq]
  by_cases hm : m.sequence ∈ ns <;> simp [hm]

theorem ofSubject_removeAll (hx : x.Filed) (ns : List Nat) (subject : String) :
    (x.removeAll ns).2.ofSubject subject =
      (x.ofSubject subject).filter fun m => decide (m.sequence ∉ ns) := by
  rw [ofSubject, toList_removeAll hx, ofSubject, List.filter_filter, List.filter_filter]
  exact List.filter_congr fun _ _ => Bool.and_comm _ _

theorem ofSubject_commit_self (hx : x.Filed) (hm : x.lastSeq < m.sequence) :
    (x.commit m).ofSubject m.subject = x.ofSubject m.subject ++ [m] := by
  rw [ofSubject, toList_commit hx hm, List.filter_append, ofSubject]
  simp

/-- The messages of a subject as a pattern are those of the subject. -/
theorem matching_subject (x : Index) {subject : String} (h : checkSubject subject = .ok ()) :
    x.matching subject = x.ofSubject subject := by
  refine List.filter_congr fun m _ => ?_
  rw [Bool.eq_iff_iff, subjectMatches_iff_eq h, decide_eq_true_eq]

/-- A request to purge a subject cuts it down to as many messages as it keeps. -/
theorem purge_subject (hx : x.Tallied) {subject : String} (h : checkSubject subject = .ok ())
    (keep : Option Nat) : x.purge { filter := some subject, keep } =
      .ok (Retention.trimSubject (keep.getD 0) x subject) := by
  have hnumbers : x.matchingSequences subject = x.subjectSequences subject := by
    rw [hx.matchingSequences_eq, hx.subjectSequences_eq, matching_subject x h]
  cases keep with
  | none => simp [purge, purgeSelection, Retention.trimSubject, hnumbers]
  | some keep => simp [purge, purgeSelection, Retention.trimSubject, hnumbers]

end Index

namespace Retention

variable {x : Index}

theorem removes_trimSubject (most : Nat) (x : Index) (subject : String) :
    x.Removes (trimSubject most x subject).1 (trimSubject most x subject).2 :=
  Index.removes_removeAll x _

/-- **What is left of a subject that is cut down** is its newest messages; other subjects keep
theirs. -/
theorem ofSubject_trimSubject (hx : x.Tallied) (most : Nat) (subject other : String) :
    (trimSubject most x subject).2.ofSubject other =
      if other = subject then (x.ofSubject subject).rtake most else x.ofSubject other := by
  rw [trimSubject, Index.ofSubject_removeAll hx.toFiled, hx.subjectSequences_eq, List.length_map]
  split
  · next h =>
    subst h
    exact filter_notMem_take _ (hx.pairwise_toList.filter _) _
  · next h =>
    refine List.filter_eq_self.2 fun m hm => decide_eq_true fun hk => h ?_
    -- A number is that of one message, which has one subject.
    obtain ⟨w, hw, heq⟩ := List.mem_map.1 (List.mem_of_mem_take hk)
    have hget := (hx.mem_ofSubject_iff.1 hm)
    have hwget := (hx.mem_ofSubject_iff.1 hw)
    rw [heq, hget.1, Option.some.injEq] at hwget
    rw [← hget.2, ← hwget.2, hwget.1]

/-- When a subject goes, the messages of other subjects are left. -/
theorem toList_trimSubject (hx : x.Tallied) (subject : String) :
    (trimSubject 0 x subject).2.toList =
      x.toList.filter fun m => decide (m.subject ≠ subject) := by
  rw [trimSubject, Nat.sub_zero, List.take_length, Index.toList_removeAll hx.toFiled,
    hx.subjectSequences_eq, Index.ofSubject]
  refine List.filter_congr fun m hm => decide_eq_decide.2 (not_congr ?_)
  simp only [hx.mem_map_filter_iff, hx.mem_toList_iff.1 hm, Option.some.injEq, exists_eq_left',
    decide_eq_true_eq]

/-- In a stream that refuses what is too much, a message makes only its own subject be cut down. -/
theorem enforceLimits_new {settings : StreamSettings} (hdiscard : settings.discard = .new)
    (subject : String) (x : Index) :
    (enforceLimits settings (some subject) x).2 =
      match settings.maxMessagesPerSubject with
      | some most => (trimSubject most x subject).2
      | none => x := by
  rw [enforceLimits, hdiscard]
  cases settings.maxMessagesPerSubject <;> rfl

end Retention

end StreamBroker
