import Mathlib.Algebra.Order.BigOperators.Group.List
import Mathlib.Algebra.Order.Group.Nat
import StreamBroker.Proofs.Index.Queries
import StreamBroker.Proofs.Index.Removal
import StreamBroker.Proofs.Subject

/-!
# Limits

Settings limit how many messages a subject may have, and how many messages and octets a stream may
hold.  What is over a limit goes, the oldest first, and what goes for another reason takes nothing
over a limit.  A message that comes is one more for its own subject only, so it is enough to look at
that subject, if all others were within the limit before.

A stream that refuses new messages instead of letting old ones go is not looked at as a whole: what
it holds is over a limit only if it was before.

## Main definitions

* `Index.SubjectsFit`, `Index.Fits`: the limits on the subjects and on the whole
* `Index.Within`: the limits that are kept at all times

## Main results

* `Index.Loses.within`: what goes takes nothing over a limit
* `Retention.within_enforceLimits`: what is over a limit goes
* `Index.fits_commit`: a message that there is room for takes nothing over a limit
-/

namespace StreamBroker

namespace Index

variable {settings : StreamSettings} {x y : Index} {gone : List Nat} {m : StoredMessage}

/-- No subject has more messages than settings allow. -/
def SubjectsFit (x : Index) (settings : StreamSettings) : Prop :=
  ∀ most, settings.maxMessagesPerSubject = some most →
    ∀ subject, (x.ofSubject subject).length ≤ most

/-- There are not more messages and not more octets than settings allow. -/
structure Fits (x : Index) (settings : StreamSettings) : Prop where
  /-- The number of messages. -/
  size_le : ∀ most, settings.maxMessages = some most → x.toList.length ≤ most
  /-- The size of all messages. -/
  bytes_le : ∀ most, settings.maxBytes = some most →
    (x.toList.map StoredMessage.size).sum ≤ most

/-- The limits that are kept at all times: those on the subjects, and those on the whole if old
messages go for new ones. -/
structure Within (x : Index) (settings : StreamSettings) : Prop where
  /-- The limit on every subject. -/
  subjects : x.SubjectsFit settings
  /-- The limits on the whole. -/
  whole : settings.discard = .old → x.Fits settings

theorem length_toList (x : Index) : x.toList.length = x.size := by
  rw [toList, SeqMap.values, List.length_map, SeqMap.length_entries, size]

/-! ## Messages go -/

theorem Loses.toList_sublist (h : x.Loses gone y) (hx : x.Filed) :
    y.toList.Sublist x.toList := by
  have hfilter : y.toList = x.toList.filter fun m => decide (m.sequence ∉ gone) := by
    refine eq_of_ascending (·.sequence) (hx.loses h).pairwise_toList (hx.pairwise_toList.filter _)
      fun m => ?_
    rw [hx.mem_filter_iff, (hx.loses h).mem_toList_iff, h.get?_eq, decide_eq_true_eq]
    by_cases hm : m.sequence ∈ gone <;> simp [hm]
  rw [hfilter]
  exact List.filter_sublist

theorem length_ofSubject_le (h : y.toList.Sublist x.toList) (subject : String) :
    (y.ofSubject subject).length ≤ (x.ofSubject subject).length := (h.filter _).length_le

theorem Fits.sublist (hfits : x.Fits settings) (h : y.toList.Sublist x.toList) :
    y.Fits settings where
  size_le most hmost := Nat.le_trans h.length_le (hfits.size_le most hmost)
  bytes_le most hmost := Nat.le_trans
    ((h.map StoredMessage.size).sum_le_sum fun _ _ => Nat.zero_le _) (hfits.bytes_le most hmost)

/-- What goes takes nothing over a limit. -/
theorem Loses.within (h : x.Loses gone y) (hx : x.Filed) (hwithin : x.Within settings) :
    y.Within settings where
  subjects most hmost subject := Nat.le_trans (length_ofSubject_le (h.toList_sublist hx) subject)
    (hwithin.subjects most hmost subject)
  whole hold := (hwithin.whole hold).sublist (h.toList_sublist hx)

/-! ## A message comes -/

/-- A message above all others comes last. -/
theorem toList_commit (hx : x.Filed) (hm : x.lastSeq < m.sequence) :
    (x.commit m).toList = x.toList ++ [m] := by
  have hentries := x.messages.entries_insert_of_lt m fun e he =>
    hx.lt_of_lastSeq_lt hm e.1 e.2 (x.messages.mem_entries_iff.1 he)
  show (x.messages.insert m.sequence m).values = _
  rw [SeqMap.values, hentries, List.map_append, toList, SeqMap.values, List.map_singleton]

/-- A message is one more for its own subject only. -/
theorem ofSubject_commit_of_ne (hx : x.Filed) (hm : x.lastSeq < m.sequence) {subject : String}
    (hne : subject ≠ m.subject) : (x.commit m).ofSubject subject = x.ofSubject subject := by
  rw [ofSubject, toList_commit hx hm, List.filter_append, ofSubject]
  simp [Ne.symm hne]

theorem checkRoom_eq_ok {size : Nat} (hdiscard : settings.discard = .new)
    (h : x.checkRoom settings size = .ok ()) :
    (∀ most, settings.maxMessages = some most → x.size < most) ∧
      ∀ most, settings.maxBytes = some most → x.bytes + size ≤ most := by
  rw [checkRoom, if_pos hdiscard] at h
  constructor
  · intro most hmost
    rw [hmost] at h
    dsimp only at h
    split at h
    · cases h
    · next hlt => exact Nat.lt_of_not_le hlt
  · intro most hmost
    rw [hmost] at h
    dsimp only at h
    -- Whatever the number of messages, the last check was passed.
    have hbytes : (if most < x.bytes + size then throw (.maximumBytesExceeded settings.name most)
        else pure () : Except Error Unit) = .ok () := by
      split at h
      · split at h
        · cases h
        · exact h
      · exact h
    split at hbytes
    · cases hbytes
    · next hlt => exact Nat.le_of_not_lt hlt

/-- A message that there is room for takes nothing over a limit. -/
theorem fits_commit (hx : x.Coherent) (hm : x.lastSeq < m.sequence)
    (hdiscard : settings.discard = .new) (h : x.checkRoom settings m.size = .ok ()) :
    (x.commit m).Fits settings := by
  obtain ⟨hmessages, hbytes⟩ := checkRoom_eq_ok hdiscard h
  rw [hx.bytes_eq] at hbytes
  refine ⟨fun most hmost => ?_, fun most hmost => ?_⟩
  · rw [toList_commit hx.toFiled hm, List.length_append, length_toList]
    exact hmessages most hmost
  · rw [toList_commit hx.toFiled hm, List.map_append, List.sum_append]
    exact hbytes most hmost

end Index

/-! ## What is over a limit goes -/

namespace Retention

variable {settings : StreamSettings} {x : Index}

/-- A subject is cut down to what is allowed. -/
theorem length_trimSubject_le (hx : x.Coherent) (most : Nat) (subject : String) :
    ((trimSubject most x subject).2.ofSubject subject).length ≤ most := by
  have hy : (trimSubject most x subject).2.Coherent :=
    (Index.removes_removeAll x _).coherent hx
  -- The numbers that are left are among the last of the subject.
  have hsubset : (trimSubject most x subject).2.subjectSequences subject ⊆
      (x.subjectSequences subject).drop ((x.subjectSequences subject).length - most) := by
    intro n hn
    rw [hy.subjectSequences_eq, Index.ofSubject, hy.mem_map_filter_iff] at hn
    obtain ⟨m, hget, hsubject⟩ := hn
    rw [trimSubject, Index.get?_removeAll] at hget
    split at hget
    · cases hget
    · next hn =>
      have hmem : n ∈ x.subjectSequences subject := by
        rw [hx.subjectSequences_eq, Index.ofSubject, hx.mem_map_filter_iff]
        exact ⟨m, hget, hsubject⟩
      rw [← List.take_append_drop ((x.subjectSequences subject).length - most)
        (x.subjectSequences subject), List.mem_append] at hmem
      exact hmem.resolve_left hn
  have hnodup : ((trimSubject most x subject).2.subjectSequences subject).Nodup :=
    SeqMap.keys_nodup _
  have hlength := hnodup.length_le_of_subset hsubset
  rw [List.length_drop, hy.subjectSequences_eq, List.length_map] at hlength
  omega

theorem length_trimSubjects_le (hx : x.Coherent) (most : Nat) {subjects : List String}
    {subject : String} (h : subject ∈ subjects) :
    ((trimSubjects most subjects x).2.ofSubject subject).length ≤ most := by
  induction subjects generalizing x with
  | nil => cases h
  | cons other subjects ih =>
    have hy : (trimSubject most x other).2.Coherent :=
      (Index.removes_removeAll x _).coherent hx
    rcases List.mem_cons.1 h with rfl | h
    · -- What goes of the other subjects takes nothing over the limit of this one.
      have hlater := (removes_trimSubjects most subjects (trimSubject most x subject).2).loses
      exact Nat.le_trans (Index.length_ofSubject_le (hlater.toList_sublist hy.toFiled) subject)
        (length_trimSubject_le hx most subject)
    · exact ih hy h

/-- Every subject that has messages is looked at when all are. -/
theorem mem_trimmedSubjects (hx : x.Coherent) {subject : String}
    (h : x.ofSubject subject ≠ []) : subject ∈ trimmedSubjects x none := by
  have hasc : (x.ofSubject subject).Pairwise fun a b => a.sequence < b.sequence :=
    hx.pairwise_toList.filter _
  obtain ⟨hmem, hmost⟩ :=
    getLast?_of_ascending (·.sequence) hasc (List.getLast?_eq_some_getLast h)
  obtain ⟨hget, hsubject⟩ := hx.mem_ofSubject_iff.1 hmem
  refine List.mem_map.2 ⟨_, (hx.mem_lastPerSubject_iff ">").2 ⟨hget, subjectMatches_rest _, ?_⟩,
    hsubject⟩
  exact fun w hw hw' => hmost w (hx.mem_ofSubject_iff.2 ⟨hw, hw'.trans hsubject⟩)

/-- All messages go, unless there is not too much any more. -/
theorem trimFront_cases (settings : StreamSettings) (ns : List Nat) (x : Index) :
    isFull settings (trimFront settings ns x).2 = false ∨ (trimFront settings ns x).1 = ns := by
  induction ns generalizing x with
  | nil => exact .inr rfl
  | cons n ns ih =>
    rw [trimFront]
    split
    · exact (ih (x.remove n)).imp id fun hgone => congrArg (n :: ·) hgone
    · next hfull => exact .inl (Bool.eq_false_iff.2 hfull)

theorem isFull_eq_false_iff (hx : x.Coherent) :
    isFull settings x = false ↔ x.Fits settings := by
  rw [isFull, Bool.or_eq_false_iff, hx.bytes_eq, ← Index.length_toList]
  constructor
  · rintro ⟨hmessages, hbytes⟩
    refine ⟨fun most hmost => ?_, fun most hmost => ?_⟩
    · simpa [hmost] using hmessages
    · simpa [hmost] using hbytes
  · rintro ⟨hmessages, hbytes⟩
    constructor
    · cases hmost : settings.maxMessages with
      | none => rfl
      | some most => exact decide_eq_false (Nat.not_lt.2 (hmessages most hmost))
    · cases hmost : settings.maxBytes with
      | none => rfl
      | some most => exact decide_eq_false (Nat.not_lt.2 (hbytes most hmost))

/-- The oldest messages go until what is left is within the limits. -/
theorem fits_trimOldest (hx : x.Coherent) : (trimOldest settings x).2.Fits settings := by
  have hremoves := removes_trimOldest settings x
  rw [← isFull_eq_false_iff (hremoves.coherent hx)]
  rw [trimOldest] at hremoves ⊢
  split
  · next hfull =>
    rw [if_pos hfull] at hremoves
    rcases trimFront_cases settings x.messages.keys x with hdone | hgone
    · exact hdone
    · -- When all messages are gone, nothing is too much.
      have hnil : (trimFront settings x.messages.keys x).2.toList = [] := by
        refine List.eq_nil_iff_forall_not_mem.2 fun m hm => ?_
        have hy := hremoves.coherent hx
        have hget := hy.mem_toList_iff.1 hm
        have hkey : m.sequence ∈ x.messages.keys :=
          SeqMap.mem_keys_iff.2 (Index.contains_iff.2 ⟨m, hremoves.loses.get?_of_get? hget⟩)
        rw [hremoves.loses.get?_eq_none (hgone.symm ▸ hkey)] at hget
        cases hget
      refine (isFull_eq_false_iff (hremoves.coherent hx)).2 ⟨?_, ?_⟩
      · intro most hmost
        rw [hnil]
        exact Nat.zero_le _
      · intro most hmost
        rw [hnil]
        exact Nat.zero_le _
  · next hfull => exact Bool.eq_false_iff.2 hfull

/-- What the subjects have too much of goes, and then what the whole has too much of, if old
messages go for new ones. -/
theorem enforceLimits_cases (hx : x.Coherent) {subject : Option String}
    (hothers : ∀ most, settings.maxMessagesPerSubject = some most →
      ∀ other, other ∉ trimmedSubjects x subject → (x.ofSubject other).length ≤ most) :
    ∃ y gone, x.Removes gone y ∧ y.SubjectsFit settings ∧
      (enforceLimits settings subject x).2 =
        match settings.discard with
        | .new => y
        | .old => (trimOldest settings y).2 := by
  rw [enforceLimits]
  cases hmost : settings.maxMessagesPerSubject with
  | none =>
    refine ⟨x, [], .refl x, fun most h => ?_, ?_⟩
    · rw [hmost] at h
      cases h
    · cases settings.discard <;> rfl
  | some most =>
    have hremoves := removes_trimSubjects most (trimmedSubjects x subject) x
    refine ⟨_, _, hremoves, fun most' h other => ?_, ?_⟩
    · obtain rfl : most = most' := Option.some.inj (hmost.symm.trans h)
      -- Subjects that are not looked at have few enough by assumption, and can only lose.
      by_cases hother : other ∈ trimmedSubjects x subject
      · exact length_trimSubjects_le hx most hother
      · have hsublist := hremoves.loses.toList_sublist hx.toFiled
        exact Nat.le_trans (Index.length_ofSubject_le hsublist other)
          (hothers most hmost other hother)
    · cases settings.discard <;> rfl

/-- **What is over a limit goes**: behind it every limit is kept, if those on the subjects that are
not looked at were kept before. -/
theorem within_enforceLimits (hx : x.Coherent) {subject : Option String}
    (hothers : ∀ most, settings.maxMessagesPerSubject = some most →
      ∀ other, other ∉ trimmedSubjects x subject → (x.ofSubject other).length ≤ most) :
    (enforceLimits settings subject x).2.Within settings := by
  obtain ⟨y, gone, hremoves, hsubjects, heq⟩ := enforceLimits_cases hx hothers
  have hy := hremoves.coherent hx
  rw [heq]
  cases hdiscard : settings.discard with
  | new => exact ⟨hsubjects, fun hold => by rw [hdiscard] at hold; cases hold⟩
  | old =>
    have hsublist := (removes_trimOldest settings y).loses.toList_sublist hy.toFiled
    refine ⟨fun most hmost subject => ?_, fun _ => fits_trimOldest hy⟩
    exact Nat.le_trans (Index.length_ofSubject_le hsublist subject) (hsubjects most hmost subject)

/-- When all subjects are looked at, nothing needs to be known of what was before. -/
theorem within_enforceLimits_all (settings : StreamSettings) (hx : x.Coherent) :
    (enforceLimits settings none x).2.Within settings := by
  refine within_enforceLimits hx fun most hmost other hother => ?_
  -- A subject that is not looked at has no messages.
  have hnil : x.ofSubject other = [] :=
    Decidable.byContradiction fun hne => hother (mem_trimmedSubjects hx hne)
  rw [hnil]
  exact Nat.zero_le _

/-- When a message came, its subject is looked at. -/
theorem within_enforceLimits_commit {m : StoredMessage} (hx : x.Coherent)
    (hm : x.lastSeq < m.sequence) (hwithin : x.Within settings) :
    (enforceLimits settings (some m.subject) (x.commit m)).2.Within settings := by
  refine within_enforceLimits (hx.commit hm) fun most hmost other hother => ?_
  have hne : other ≠ m.subject := fun h => hother (List.mem_singleton.2 h)
  rw [Index.ofSubject_commit_of_ne hx.toFiled hm hne]
  exact hwithin.subjects most hmost other

end Retention

end StreamBroker
