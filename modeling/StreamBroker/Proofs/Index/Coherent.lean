import StreamBroker.Index
import StreamBroker.Proofs.Except
import StreamBroker.Proofs.Lookup
import StreamBroker.Proofs.SeqMap

/-!
# What an index keeps beside its messages

What an index keeps beside its messages is determined by the messages and the last number: the
subject index is the inverse of the messages, the size is the sum of their sizes, and the first
number is the lowest.  A message that comes above all others and a message that goes leave it so.

A message above all others need not be above the last number: when messages are read back, the first
may have the number zero, which the empty index counts as given.  Then its number becomes the first
one only at the end, so the first number is kept apart from what is counted.

## Main definitions

* `Index.Filed`: the messages stand under their own numbers
* `Index.Tallied`: the messages are counted right
* `Index.Coherent`: all that is kept beside the messages is right

## Main results

* `Index.Coherent.commit`, `Index.Coherent.remove`: one message comes or goes
* `Index.restore_coherent`: an index of messages that were read back in order
-/

namespace StreamBroker

namespace SubjectIndex

/-! ## The numbers of every subject -/

theorem sequences_cons_self (subject : String) (ns : SeqSet) (x : SubjectIndex) :
    sequences subject ((subject, ns) :: x) = ns := by
  rw [sequences, List.lookup_cons_self, Option.getD_some]

theorem sequences_cons_of_ne {subject other : String} (h : other ≠ subject) (ns : SeqSet)
    (x : SubjectIndex) : sequences other ((subject, ns) :: x) = sequences other x := by
  rw [sequences, lookup_cons_of_ne h, sequences]

theorem sequences_add (subject other : String) (n : Nat) (x : SubjectIndex) :
    sequences other (add subject n x) =
      if other = subject then (sequences subject x).add n else sequences other x := by
  induction x with
  | nil =>
    rw [add]
    by_cases h : other = subject
    · subst h
      rw [if_pos rfl, sequences_cons_self]
      rfl
    · rw [if_neg h, sequences_cons_of_ne h]
  | cons e es ih =>
    obtain ⟨s, ns⟩ := e
    rw [add]
    by_cases hs : s = subject
    · subst hs
      rw [if_pos rfl, sequences_cons_self]
      by_cases h : other = s
      · subst h
        rw [if_pos rfl, sequences_cons_self]
      · rw [if_neg h, sequences_cons_of_ne h, sequences_cons_of_ne h]
    · rw [if_neg hs]
      by_cases h : other = s
      · subst h
        rw [if_neg hs, sequences_cons_self, sequences_cons_self]
      · rw [sequences_cons_of_ne h, sequences_cons_of_ne h, sequences_cons_of_ne (Ne.symm hs), ih]

theorem sequences_eq_empty {x : SubjectIndex} {subject : String}
    (h : subject ∉ x.map (·.1)) : sequences subject x = SeqMap.empty := by
  have : x.lookup subject = none := by
    rw [List.lookup_eq_none_iff]
    intro p hp
    have hne : subject ≠ p.1 := fun e => h (e ▸ List.mem_map_of_mem hp)
    simpa using hne
  simp [sequences, this]

theorem sequences_discard {x : SubjectIndex} (hx : (x.map (·.1)).Nodup) (subject other : String)
    (n : Nat) :
    sequences other (discard subject n x) =
      if other = subject then (sequences subject x).erase n else sequences other x := by
  induction x with
  | nil =>
    have he : (SeqMap.empty : SeqSet).erase n = SeqMap.empty := rfl
    split <;> simp [sequences, discard, he]
  | cons e es ih =>
    obtain ⟨s, ns⟩ := e
    rw [List.map_cons, List.nodup_cons] at hx
    rw [discard]
    by_cases hs : s = subject
    · subst hs
      rw [if_pos rfl, sequences_cons_self]
      by_cases hempty : (ns.erase n).isEmpty = true
      · -- The subject goes with its last number, and is not listed behind.
        rw [if_pos hempty]
        by_cases h : other = s
        · rw [if_pos h, h, sequences_eq_empty hx.1, SeqMap.eq_empty_of_isEmpty hempty]
        · rw [if_neg h, sequences_cons_of_ne h]
      · rw [if_neg hempty]
        by_cases h : other = s
        · subst h
          rw [if_pos rfl, sequences_cons_self]
        · rw [if_neg h, sequences_cons_of_ne h, sequences_cons_of_ne h]
    · rw [if_neg hs]
      by_cases h : other = s
      · subst h
        rw [if_neg hs, sequences_cons_self, sequences_cons_self]
      · rw [sequences_cons_of_ne h, sequences_cons_of_ne h, sequences_cons_of_ne (Ne.symm hs),
          ih hx.2]

theorem keys_discard_sublist (subject : String) (n : Nat) (x : SubjectIndex) :
    ((discard subject n x).map (·.1)).Sublist (x.map (·.1)) := by
  induction x with
  | nil => exact .slnil
  | cons e es ih =>
    rw [discard]
    split
    · split
      · exact List.sublist_cons_self ..
      · exact List.Sublist.refl _
    · exact ih.cons_cons e.1

theorem mem_keys_add {subject other : String} {n : Nat} {x : SubjectIndex}
    (h : other ∈ (add subject n x).map (·.1)) : other = subject ∨ other ∈ x.map (·.1) := by
  induction x with
  | nil => exact .inl (by simpa [add] using h)
  | cons e es ih =>
    rw [add] at h
    split at h
    · exact .inr h
    · rcases List.mem_cons.1 h with h | h
      · exact .inr (h ▸ List.mem_cons_self)
      · exact (ih h).imp id (List.mem_cons_of_mem _)

theorem nodup_keys_add {subject : String} {n : Nat} {x : SubjectIndex}
    (hx : (x.map (·.1)).Nodup) : ((add subject n x).map (·.1)).Nodup := by
  induction x with
  | nil => simp [add]
  | cons e es ih =>
    rw [List.map_cons, List.nodup_cons] at hx
    rw [add]
    split
    · exact List.nodup_cons.2 hx
    · next hs =>
      refine List.nodup_cons.2 ⟨?_, ih hx.2⟩
      intro h
      rcases mem_keys_add h with h | h
      · exact hs h
      · exact hx.1 h

theorem isEmpty_of_mem_add {subject : String} {n : Nat} {x : SubjectIndex}
    (hx : ∀ e ∈ x, e.2.isEmpty = false) : ∀ e ∈ add subject n x, e.2.isEmpty = false := by
  have hadd (ns : SeqSet) : (ns.add n).isEmpty = false :=
    SeqMap.isEmpty_eq_false_iff.2 ⟨n, (), by simp [SeqSet.add]⟩
  induction x with
  | nil =>
    intro e he
    rw [add, List.mem_singleton] at he
    exact he ▸ hadd SeqMap.empty
  | cons d es ih =>
    intro e he
    rw [add] at he
    split at he
    · rcases List.mem_cons.1 he with rfl | he
      · exact hadd d.2
      · exact hx e (List.mem_cons_of_mem _ he)
    · rcases List.mem_cons.1 he with rfl | he
      · exact hx _ List.mem_cons_self
      · exact ih (fun e he => hx e (List.mem_cons_of_mem _ he)) e he

theorem isEmpty_of_mem_discard {subject : String} {n : Nat} {x : SubjectIndex}
    (hx : ∀ e ∈ x, e.2.isEmpty = false) : ∀ e ∈ discard subject n x, e.2.isEmpty = false := by
  induction x with
  | nil => intro e he; cases he
  | cons d es ih =>
    have hes : ∀ e ∈ es, e.2.isEmpty = false := fun e he => hx e (List.mem_cons_of_mem _ he)
    intro e he
    rw [discard] at he
    split at he
    · split at he
      · exact hes e he
      · next hempty =>
        rcases List.mem_cons.1 he with rfl | he
        · simpa using hempty
        · exact hes e he
    · rcases List.mem_cons.1 he with rfl | he
      · exact hx _ List.mem_cons_self
      · exact ih hes e he

end SubjectIndex

namespace Index

/-! ## The lowest number -/

theorem lowest_of_isEmpty {ms : SeqMap StoredMessage} {last : Nat} (h : ms.isEmpty = true) :
    lowest ms last = last + 1 := by
  rw [lowest, SeqMap.first?_eq_none_iff.2 h]

theorem lowest_of_first {ms : SeqMap StoredMessage} {last k : Nat} {m : StoredMessage}
    (hk : ms.get? k = some m) (hle : ∀ j w, ms.get? j = some w → k ≤ j) : lowest ms last = k := by
  rw [lowest, SeqMap.first?_eq_some_iff.2 ⟨hk, hle⟩]

theorem lowest_le {ms : SeqMap StoredMessage} {last k : Nat} {m : StoredMessage}
    (hk : ms.get? k = some m) : lowest ms last ≤ k := by
  cases hf : ms.first? with
  | none =>
    rw [SeqMap.isEmpty_iff.1 (SeqMap.first?_eq_none_iff.1 hf) k] at hk
    cases hk
  | some e =>
    rw [lowest, hf]
    exact (SeqMap.first?_eq_some_iff.1 hf).2 k m hk

theorem lowest_cases (ms : SeqMap StoredMessage) (last : Nat) :
    (ms.isEmpty = true ∧ lowest ms last = last + 1) ∨ ∃ m, ms.get? (lowest ms last) = some m := by
  cases hf : ms.first? with
  | none =>
    have := SeqMap.first?_eq_none_iff.1 hf
    exact .inl ⟨this, lowest_of_isEmpty this⟩
  | some e =>
    refine .inr ⟨e.2, ?_⟩
    rw [lowest, hf]
    exact (SeqMap.first?_eq_some_iff.1 hf).1

/-- A number above all others is the lowest only when it is alone. -/
theorem lowest_insert {ms : SeqMap StoredMessage} {k : Nat} (last last' : Nat) {m : StoredMessage}
    (h : ∀ j w, ms.get? j = some w → j < k) :
    lowest (ms.insert k m) last' = if ms.isEmpty = true then k else lowest ms last := by
  split
  · next he =>
    -- The new message is the only one.
    apply lowest_of_first (k := k) (m := m) (by simp)
    intro j w hj
    rw [SeqMap.get?_insert, SeqMap.isEmpty_iff.1 he] at hj
    split at hj
    · omega
    · cases hj
  · next he =>
    rcases lowest_cases ms last with ⟨h, -⟩ | ⟨w, hw⟩
    · exact absurd h he
    · -- The message with the lowest number stays, and the new one is above it.
      refine lowest_of_first (m := w) ?_ ?_
      · rw [SeqMap.get?_insert, if_neg (Nat.ne_of_lt (h _ _ hw)), hw]
      · intro j v hj
        rw [SeqMap.get?_insert] at hj
        split at hj
        · have := h _ _ hw
          omega
        · exact lowest_le hj

/-- A number that goes was the lowest, or the lowest stays. -/
theorem lowest_erase {ms : SeqMap StoredMessage} {k last : Nat} (h : k ≠ lowest ms last) :
    lowest (ms.erase k) last = lowest ms last := by
  rcases lowest_cases ms last with ⟨he, -⟩ | ⟨w, hw⟩
  · -- Where nothing was, nothing goes.
    have : (ms.erase k).isEmpty = true := by
      rw [SeqMap.isEmpty_iff]
      intro j
      rw [SeqMap.get?_erase, SeqMap.isEmpty_iff.1 he]
      split <;> rfl
    rw [lowest_of_isEmpty this, lowest_of_isEmpty he]
  · -- The message with the lowest number stays.
    refine lowest_of_first (m := w) ?_ ?_
    · rw [SeqMap.get?_erase, if_neg (Ne.symm h), hw]
    · intro j v hj
      rw [SeqMap.get?_erase] at hj
      split at hj
      · cases hj
      · exact lowest_le hj

/-! ## The invariant -/

/-- The messages of an index stand under their own numbers, up to the last.  This holds of whatever
is read back. -/
structure Filed (x : Index) : Prop where
  /-- Every message stands under its number. -/
  sequence_eq : ∀ {n m}, x.get? n = some m → m.sequence = n
  /-- No number is above the last. -/
  le_lastSeq : ∀ {n m}, x.get? n = some m → n ≤ x.lastSeq

/-- The messages of an index are counted right. -/
structure Tallied (x : Index) : Prop extends Filed x where
  /-- The size is that of all messages. -/
  bytes_eq : x.bytes = (x.toList.map StoredMessage.size).sum
  /-- The numbers of a subject are those of its messages. -/
  mem_sequences_iff : ∀ subject n, (SubjectIndex.sequences subject x.subjects).contains n = true ↔
    ∃ m, x.get? n = some m ∧ m.subject = subject
  /-- A subject without messages is not listed. -/
  isEmpty_of_mem : ∀ e ∈ x.subjects, e.2.isEmpty = false
  /-- No subject is listed twice. -/
  nodup_subjects : (x.subjects.map (·.1)).Nodup

/-- All that an index keeps beside its messages is right. -/
structure Coherent (x : Index) : Prop extends Tallied x where
  /-- The first number is the lowest. -/
  firstSeq_eq : x.firstSeq = lowest x.messages x.lastSeq

@[simp] theorem get?_empty (n : Nat) : empty.get? n = none := rfl

theorem contains_iff {x : Index} {n : Nat} : x.contains n = true ↔ ∃ m, x.get? n = some m :=
  Option.isSome_iff_exists

theorem contains_eq_false_iff {x : Index} {n : Nat} : x.contains n = false ↔ x.get? n = none := by
  simp [contains]

theorem empty_tallied : empty.Tallied where
  sequence_eq h := by cases h
  le_lastSeq h := by cases h
  bytes_eq := rfl
  mem_sequences_iff subject n := by
    constructor
    · intro h; cases h
    · rintro ⟨m, h, -⟩; cases h
  isEmpty_of_mem e he := by cases he
  nodup_subjects := List.nodup_nil

theorem empty_coherent : empty.Coherent := ⟨empty_tallied, rfl⟩

/-! ## Messages come and go -/

variable {x y : Index}

theorem get?_commit (x : Index) (m : StoredMessage) (n : Nat) :
    (x.commit m).get? n = if n = m.sequence then some m else x.get? n :=
  SeqMap.get?_insert x.messages m.sequence n m

/-- A message that is prepared has room, the next number, and the time of the clock. -/
theorem prepare_eq_ok {settings : StreamSettings} {maxPayload : Nat} {now : Timestamp}
    {e : Expectations} {m : Message} {stored : StoredMessage}
    (h : x.prepare settings maxPayload now e m = .ok stored) :
    x.checkRoom settings m.size = .ok () ∧ x.lastSeq + 1 < wordLimit ∧
      stored = m.stored (x.lastSeq + 1) now := by
  rw [prepare] at h
  obtain ⟨⟨⟩, -, h⟩ := except_bind_eq_ok.1 h
  obtain ⟨⟨⟩, -, h⟩ := except_bind_eq_ok.1 h
  obtain ⟨⟨⟩, hroom, h⟩ := except_bind_eq_ok.1 h
  split at h
  · cases h
  · next hlt =>
    cases h
    exact ⟨hroom, Nat.lt_of_not_le hlt, rfl⟩

theorem remove_of_get? {n : Nat} {m : StoredMessage} (hn : x.get? n = some m) :
    x.remove n =
      { x with
        messages := x.messages.erase n
        subjects := SubjectIndex.discard m.subject n x.subjects
        firstSeq := if n = x.firstSeq then lowest (x.messages.erase n) x.lastSeq else x.firstSeq
        bytes := x.bytes - m.size } := by
  simp only [Index.remove, hn]

theorem remove_of_get?_eq_none {n : Nat} (hn : x.get? n = none) : x.remove n = x := by
  simp only [Index.remove, hn]

theorem get?_remove (x : Index) (n j : Nat) :
    (x.remove n).get? j = if j = n then none else x.get? j := by
  cases hn : x.get? n with
  | none =>
    rw [remove_of_get?_eq_none hn]
    split
    · next h => rw [h, hn]
    · rfl
  | some m =>
    rw [remove_of_get? hn]
    exact SeqMap.get?_erase x.messages n j

theorem lastSeq_remove (x : Index) (n : Nat) : (x.remove n).lastSeq = x.lastSeq := by
  rw [Index.remove]
  split <;> rfl

/-- All messages are those from zero on. -/
theorem startingAt_zero (x : Index) : x.startingAt 0 = x.toList := by
  have hmessages : x.messages.startingAt 0 = x.messages :=
    SeqMap.ext_get? fun n => by rw [SeqMap.get?_startingAt, if_pos (Nat.zero_le n)]
  rw [startingAt, hmessages, toList]

namespace Filed

/-- Messages that were there before are as they were. -/
theorem of_get? (hx : x.Filed) (hget : ∀ {n m}, y.get? n = some m → x.get? n = some m)
    (hlast : x.lastSeq ≤ y.lastSeq) : y.Filed where
  sequence_eq hm := hx.sequence_eq (hget hm)
  le_lastSeq hm := Nat.le_trans (hx.le_lastSeq (hget hm)) hlast

theorem commit (hx : x.Filed) (m : StoredMessage) : (x.commit m).Filed where
  sequence_eq {n w} hw := by
    rw [get?_commit] at hw
    split at hw
    · next hn =>
      cases hw
      exact hn.symm
    · exact hx.sequence_eq hw
  le_lastSeq {n w} hw := by
    rw [get?_commit] at hw
    split at hw
    · next hn => exact hn ▸ Nat.le_max_right _ _
    · exact Nat.le_trans (hx.le_lastSeq hw) (Nat.le_max_left _ _)

theorem lt_of_lastSeq_lt (hx : x.Filed) {k : Nat} (hk : x.lastSeq < k) (j : Nat)
    (w : StoredMessage) (h : x.messages.get? j = some w) : j < k :=
  Nat.lt_of_le_of_lt (hx.le_lastSeq h) hk

/-- The messages from a number on come in the order of their numbers. -/
theorem pairwise_startingAt (hx : x.Filed) (n : Nat) :
    (x.startingAt n).Pairwise fun a b => a.sequence < b.sequence := by
  rw [startingAt, SeqMap.values, List.pairwise_map]
  refine List.Pairwise.imp_of_mem ?_ (x.messages.startingAt n).ascending
  intro a b ha hb hlt
  have hget {e : Nat × StoredMessage} (he : e ∈ (x.messages.startingAt n).entries) :
      e.2.sequence = e.1 := by
    have hm := SeqMap.get?_eq_some_iff.2 he
    rw [SeqMap.get?_startingAt] at hm
    split at hm
    · exact hx.sequence_eq hm
    · cases hm
  rwa [hget ha, hget hb]

theorem mem_startingAt_iff (hx : x.Filed) {n : Nat} {m : StoredMessage} :
    m ∈ x.startingAt n ↔ x.get? m.sequence = some m ∧ n ≤ m.sequence := by
  rw [startingAt, SeqMap.mem_values_iff]
  simp only [SeqMap.get?_startingAt]
  constructor
  · rintro ⟨k, hk⟩
    split at hk
    · next hle =>
      obtain rfl := hx.sequence_eq hk
      exact ⟨hk, hle⟩
    · cases hk
  · rintro ⟨hm, hle⟩
    exact ⟨m.sequence, by rw [if_pos hle]; exact hm⟩

theorem pairwise_toList (hx : x.Filed) : x.toList.Pairwise fun a b => a.sequence < b.sequence :=
  startingAt_zero x ▸ hx.pairwise_startingAt 0

theorem mem_toList_iff (hx : x.Filed) {m : StoredMessage} :
    m ∈ x.toList ↔ x.get? m.sequence = some m := by
  rw [← startingAt_zero, hx.mem_startingAt_iff, and_iff_left (Nat.zero_le _)]

end Filed

namespace Tallied

theorem mem_sequences_commit (hx : x.Tallied) {m : StoredMessage}
    (hnew : ∀ j w, x.messages.get? j = some w → j < m.sequence) (subject : String) (n : Nat) :
    (SubjectIndex.sequences subject (x.commit m).subjects).contains n = true ↔
      ∃ w, (x.commit m).get? n = some w ∧ w.subject = subject := by
  -- The number is new, so no subject has it yet.
  have hold : x.get? m.sequence = none := by
    cases hs : x.get? m.sequence with
    | none => rfl
    | some w => exact absurd (hnew _ w hs) (Nat.lt_irrefl _)
  have hmem := hx.mem_sequences_iff subject n
  show (SubjectIndex.sequences subject
    (SubjectIndex.add m.subject m.sequence x.subjects)).contains n = true ↔ _
  rw [SubjectIndex.sequences_add, get?_commit]
  -- The subject is that of the message or another, and so is the number.
  by_cases hs : subject = m.subject <;> by_cases hn : n = m.sequence
  · subst hs
    simp [hn]
  · subst hs
    simp [hn, hmem]
  · rw [if_neg hs, hmem, hn, hold]
    simp [Ne.symm hs]
  · rw [if_neg hs, if_neg hn, hmem]

/-- Messages stay counted right when one comes above all others. -/
theorem commit (hx : x.Tallied) {m : StoredMessage}
    (hnew : ∀ j w, x.messages.get? j = some w → j < m.sequence) : (x.commit m).Tallied where
  toFiled := hx.toFiled.commit m
  bytes_eq := by
    show x.bytes + m.size = ((x.messages.insert m.sequence m).values.map StoredMessage.size).sum
    rw [SeqMap.sum_values_insert _ _ _ hnew, hx.bytes_eq]
    rfl
  mem_sequences_iff := hx.mem_sequences_commit hnew
  isEmpty_of_mem := SubjectIndex.isEmpty_of_mem_add hx.isEmpty_of_mem
  nodup_subjects := SubjectIndex.nodup_keys_add hx.nodup_subjects

theorem mem_sequences_remove (hx : x.Tallied) {n : Nat} {m : StoredMessage}
    (hn : x.get? n = some m) (subject : String) (j : Nat) :
    (SubjectIndex.sequences subject (x.remove n).subjects).contains j = true ↔
      ∃ w, (x.remove n).get? j = some w ∧ w.subject = subject := by
  have hmem := hx.mem_sequences_iff subject j
  have hsub : (x.remove n).subjects = SubjectIndex.discard m.subject n x.subjects := by
    rw [remove_of_get? hn]
  rw [hsub, SubjectIndex.sequences_discard hx.nodup_subjects, get?_remove]
  -- Only the subject of the message loses a number, and only that of the message.
  by_cases hs : subject = m.subject <;> by_cases hj : j = n
  · simp [hs, hj]
  · subst hs
    simp [hj, hmem]
  · rw [if_neg hs, hmem, hj, hn]
    simp [Ne.symm hs]
  · rw [if_neg hs, if_neg hj, hmem]

/-- The size of a message is a share of the size of all. -/
theorem bytes_remove (hx : x.Tallied) {n : Nat} {m : StoredMessage} (hn : x.get? n = some m) :
    x.bytes = m.size + ((x.remove n).toList.map StoredMessage.size).sum := by
  have hmessages : (x.remove n).messages = x.messages.erase n := by rw [remove_of_get? hn]
  rw [hx.bytes_eq, toList, toList, hmessages, x.messages.sum_values_erase StoredMessage.size hn]

/-- Messages stay counted right when one goes. -/
theorem remove (hx : x.Tallied) (n : Nat) : (x.remove n).Tallied := by
  cases hn : x.get? n with
  | none => rwa [remove_of_get?_eq_none hn]
  | some m =>
    refine { hx.toFiled.of_get? ?_ (Nat.le_of_eq (lastSeq_remove x n).symm) with
      bytes_eq := ?_
      mem_sequences_iff := hx.mem_sequences_remove hn
      isEmpty_of_mem := ?_
      nodup_subjects := ?_ }
    · intro j w h
      rw [get?_remove] at h
      split at h
      · cases h
      · exact h
    · -- The size of the message is in the sum, so nothing is cut off at zero.
      have hbytes : (x.remove n).bytes = x.bytes - m.size := by rw [remove_of_get? hn]
      rw [hbytes, hx.bytes_remove hn, Nat.add_sub_cancel_left]
    · rw [remove_of_get? hn]
      exact SubjectIndex.isEmpty_of_mem_discard hx.isEmpty_of_mem
    · rw [remove_of_get? hn]
      exact hx.nodup_subjects.sublist (SubjectIndex.keys_discard_sublist ..)

end Tallied

namespace Coherent

theorem firstSeq_le (hx : x.Coherent) {n : Nat} {m : StoredMessage} (h : x.get? n = some m) :
    x.firstSeq ≤ n := by
  rw [hx.firstSeq_eq]
  exact lowest_le h

/-- An index stays coherent when a message comes under a new number. -/
theorem commit (hx : x.Coherent) {m : StoredMessage} (hm : x.lastSeq < m.sequence) :
    (x.commit m).Coherent where
  toTallied := hx.toTallied.commit (hx.lt_of_lastSeq_lt hm)
  firstSeq_eq := by
    -- The first number is that of the message exactly when nothing was there.
    show (if x.messages.isEmpty = true ∧ x.lastSeq < m.sequence then m.sequence else x.firstSeq) =
      lowest (x.messages.insert m.sequence m) (x.commit m).lastSeq
    rw [lowest_insert x.lastSeq _ (hx.lt_of_lastSeq_lt hm), hx.firstSeq_eq]
    simp only [hm, and_true]

/-- An index stays coherent when a message goes. -/
theorem remove (hx : x.Coherent) (n : Nat) : (x.remove n).Coherent where
  toTallied := hx.toTallied.remove n
  firstSeq_eq := by
    cases hn : x.get? n with
    | none => rw [remove_of_get?_eq_none hn, hx.firstSeq_eq]
    | some m =>
      rw [remove_of_get? hn]
      show (if n = x.firstSeq then lowest (x.messages.erase n) x.lastSeq else x.firstSeq) = _
      split
      · rfl
      · next h =>
        rw [hx.firstSeq_eq] at h ⊢
        exact (lowest_erase h).symm

end Coherent

/-! ## Messages that are read back -/

/-- Messages that are committed in the order of their numbers, above all others, are counted
right. -/
theorem foldl_commit_tallied {x : Index} (hx : x.Tallied) {ms : List StoredMessage}
    (hasc : ms.Pairwise fun a b => a.sequence < b.sequence)
    (habove : ∀ m ∈ ms, ∀ j w, x.messages.get? j = some w → j < m.sequence) :
    (ms.foldl commit x).Tallied := by
  induction ms generalizing x with
  | nil => exact hx
  | cons m ms ih =>
    rw [List.pairwise_cons] at hasc
    apply ih (hx.commit (habove m List.mem_cons_self)) hasc.2
    intro w hw j v hj
    -- Below what comes later are the message and all that was there before it.
    have hget : (x.commit m).get? j = some v := hj
    rw [get?_commit] at hget
    split at hget
    · next hn => exact hn ▸ hasc.1 w hw
    · exact habove w (List.mem_cons_of_mem m hw) j v hget

theorem get?_foldl_commit {x : Index} {ms : List StoredMessage}
    (hasc : ms.Pairwise fun a b => a.sequence < b.sequence) {n : Nat} {m : StoredMessage} :
    (ms.foldl commit x).get? n = some m ↔
      (m ∈ ms ∧ m.sequence = n) ∨ ((∀ w ∈ ms, w.sequence ≠ n) ∧ x.get? n = some m) := by
  induction ms generalizing x with
  | nil => simp
  | cons w ms ih =>
    rw [List.pairwise_cons] at hasc
    rw [List.foldl_cons, ih hasc.2, get?_commit]
    by_cases hn : n = w.sequence
    · subst hn
      -- No later message takes the number of this one.
      have hne : ∀ v ∈ ms, v.sequence ≠ w.sequence := fun v hv => (Nat.ne_of_lt (hasc.1 v hv)).symm
      constructor
      · rintro (⟨hm, he⟩ | ⟨-, he⟩)
        · exact absurd he (hne m hm)
        · rw [if_pos rfl, Option.some.injEq] at he
          exact .inl ⟨he ▸ List.mem_cons_self, he ▸ rfl⟩
      · rintro (⟨hm, he⟩ | ⟨hall, -⟩)
        · rcases List.mem_cons.1 hm with rfl | hm
          · exact .inr ⟨hne, if_pos rfl⟩
          · exact absurd he (hne m hm)
        · exact absurd rfl (hall w List.mem_cons_self)
    · rw [if_neg hn]
      simp only [List.mem_cons, forall_eq_or_imp]
      constructor
      · rintro (⟨hm, he⟩ | ⟨hall, he⟩)
        · exact .inl ⟨.inr hm, he⟩
        · exact .inr ⟨⟨Ne.symm hn, hall⟩, he⟩
      · rintro (⟨rfl | hm, he⟩ | ⟨⟨-, hall⟩, he⟩)
        · exact absurd he.symm hn
        · exact .inl ⟨hm, he⟩
        · exact .inr ⟨hall, he⟩

/-- Whatever is read back, in whatever order, stands under its number. -/
theorem filed_restore (ms : List StoredMessage) (watermark : Nat) :
    (restore ms watermark).Filed := by
  -- Induction on the messages, from any index that has this property.
  have hfold (x : Index) (hx : x.Filed) : (ms.foldl commit x).Filed := by
    induction ms generalizing x with
    | nil => exact hx
    | cons m ms ih => exact ih (x.commit m) (hx.commit m)
  exact (hfold empty empty_coherent.toFiled).of_get? (fun h => h) (Nat.le_max_left _ _)

/-- The index of messages that were read back in order has just these. -/
theorem get?_restore_eq_some_iff {ms : List StoredMessage}
    (hasc : ms.Pairwise fun a b => a.sequence < b.sequence) {watermark n : Nat}
    {m : StoredMessage} :
    (restore ms watermark).get? n = some m ↔ m ∈ ms ∧ m.sequence = n := by
  have h := get?_foldl_commit (x := empty) hasc (n := n) (m := m)
  apply h.trans
  simp

/-- **An index of messages that were read back in order is coherent**, whatever their numbers and
the watermark. -/
theorem restore_coherent {ms : List StoredMessage}
    (hasc : ms.Pairwise fun a b => a.sequence < b.sequence) (watermark : Nat) :
    (restore ms watermark).Coherent := by
  have hx := foldl_commit_tallied empty_tallied hasc fun _ _ j w h => by cases h
  exact
    { toFiled := hx.toFiled.of_get? (fun h => h) (Nat.le_max_left _ _)
      bytes_eq := hx.bytes_eq
      mem_sequences_iff := hx.mem_sequences_iff
      isEmpty_of_mem := hx.isEmpty_of_mem
      nodup_subjects := hx.nodup_subjects
      firstSeq_eq := rfl }

end Index

end StreamBroker
