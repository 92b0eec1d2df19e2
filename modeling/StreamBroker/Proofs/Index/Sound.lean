import StreamBroker.Proofs.Index.Coherent

/-!
# The invariant of an index

The numbers of a stream begin with one.  An index with such numbers is sound if all that it keeps
beside its messages is right, and two sound indexes with the same messages and the same last number
say the same.

## Main definitions

* `Index.Keyed`: the messages stand under their own numbers, from one on
* `Index.Sound`: what is kept beside the messages is right
* `Index.Agrees`: two indexes say the same about their messages

## Main results

* `Index.Sound.commit`, `Index.Sound.remove`: one message comes or goes
* `Index.restore_sound`: an index of messages that were read back in order
* `Index.Sound.agrees`: messages and the last number determine all the rest
-/

namespace StreamBroker

namespace Index

variable {x y : Index}

/-! ## The invariant -/

/-- The messages of an index stand under their own numbers, from one to the last. -/
structure Keyed (x : Index) : Prop where
  /-- Every message stands under its number. -/
  sequence_eq : ∀ {n m}, x.get? n = some m → m.sequence = n
  /-- Numbers begin with one. -/
  pos : ∀ {n m}, x.get? n = some m → 0 < n
  /-- No number is above the last. -/
  le_lastSeq : ∀ {n m}, x.get? n = some m → n ≤ x.lastSeq

/-- What an index keeps beside its messages is right. -/
structure Sound (x : Index) : Prop extends Keyed x where
  /-- The first number is the lowest. -/
  firstSeq_eq : x.firstSeq = lowest x.messages x.lastSeq
  /-- The size is that of all messages. -/
  bytes_eq : x.bytes = (x.toList.map StoredMessage.size).sum
  /-- The numbers of a subject are those of its messages. -/
  mem_sequences_iff : ∀ subject n, (SubjectIndex.sequences subject x.subjects).contains n = true ↔
    ∃ m, x.get? n = some m ∧ m.subject = subject
  /-- A subject without messages is not listed. -/
  isEmpty_of_mem : ∀ e ∈ x.subjects, e.2.isEmpty = false
  /-- No subject is listed twice. -/
  nodup_subjects : (x.subjects.map (·.1)).Nodup

namespace Keyed

/-- Messages that were there before are as they were. -/
theorem of_get? (hx : x.Keyed) (hget : ∀ {n m}, y.get? n = some m → x.get? n = some m)
    (hlast : x.lastSeq ≤ y.lastSeq) : y.Keyed where
  sequence_eq hm := hx.sequence_eq (hget hm)
  pos hm := hx.pos (hget hm)
  le_lastSeq hm := Nat.le_trans (hx.le_lastSeq (hget hm)) hlast

theorem filed (hx : x.Keyed) : x.Filed := ⟨hx.sequence_eq, hx.le_lastSeq⟩

theorem commit (hx : x.Keyed) {m : StoredMessage} (hm : x.lastSeq < m.sequence) :
    (x.commit m).Keyed where
  sequence_eq := (hx.filed.commit m).sequence_eq
  pos {n w} hw := by
    rw [get?_commit] at hw
    split at hw
    · next hn => exact hn ▸ Nat.zero_lt_of_lt hm
    · exact hx.pos hw
  le_lastSeq := (hx.filed.commit m).le_lastSeq

end Keyed

namespace Sound

/-- A sound index is a coherent one whose numbers begin with one. -/
theorem of_coherent (hx : x.Coherent) (hpos : ∀ {n m}, x.get? n = some m → 0 < n) : x.Sound :=
  { hx with pos := hpos }

theorem coherent (hx : x.Sound) : x.Coherent := { hx with }

theorem firstSeq_le (hx : x.Sound) {n : Nat} {m : StoredMessage} (h : x.get? n = some m) :
    x.firstSeq ≤ n := hx.coherent.firstSeq_le h

theorem firstSeq_pos (hx : x.Sound) : 0 < x.firstSeq := by
  rw [hx.firstSeq_eq]
  rcases lowest_cases x.messages x.lastSeq with ⟨-, h⟩ | ⟨m, h⟩
  · omega
  · exact hx.pos h

/-- An index stays sound when a message comes under a new number. -/
theorem commit (hx : x.Sound) {m : StoredMessage} (hm : x.lastSeq < m.sequence) :
    (x.commit m).Sound := of_coherent (hx.coherent.commit hm) (hx.toKeyed.commit hm).pos

/-- An index stays sound when a message goes. -/
theorem remove (hx : x.Sound) (n : Nat) : (x.remove n).Sound := by
  refine of_coherent (hx.coherent.remove n) ?_
  intro j w h
  rw [get?_remove] at h
  split at h
  · cases h
  · exact hx.pos h

end Sound

theorem empty_sound : empty.Sound := .of_coherent empty_coherent fun h => by cases h

/-! ## Messages that are read back -/

theorem lastSeq_foldl_commit (x : Index) (ms : List StoredMessage) :
    (ms.foldl commit x).lastSeq = (ms.map (·.sequence)).foldl max x.lastSeq := by
  induction ms generalizing x with
  | nil => rfl
  | cons m ms ih => exact ih (x.commit m)

theorem lastSeq_restore (ms : List StoredMessage) (watermark : Nat) :
    (restore ms watermark).lastSeq = max ((ms.map (·.sequence)).foldl max 0) watermark := by
  show max (ms.foldl commit empty).lastSeq watermark = _
  rw [lastSeq_foldl_commit]
  rfl

theorem le_max_iff {n i j : Nat} : n ≤ max i j ↔ n ≤ i ∨ n ≤ j := by omega

theorem le_foldl_max_iff {ns : List Nat} {k n : Nat} :
    n ≤ ns.foldl max k ↔ n ≤ k ∨ ∃ i ∈ ns, n ≤ i := by
  induction ns generalizing k with
  | nil => simp
  | cons i ns ih =>
    rw [List.foldl_cons, ih, le_max_iff]
    simp only [List.mem_cons, exists_eq_or_imp, or_assoc]

/-- The last number reaches as far as a message or the watermark. -/
theorem le_lastSeq_restore_iff {ms : List StoredMessage} {watermark n : Nat} (hn : 0 < n) :
    n ≤ (restore ms watermark).lastSeq ↔ (∃ m ∈ ms, n ≤ m.sequence) ∨ n ≤ watermark := by
  have hzero : ¬n ≤ 0 := Nat.not_le_of_lt hn
  rw [lastSeq_restore, le_max_iff, le_foldl_max_iff]
  simp only [hzero, false_or, List.mem_map]
  constructor
  · rintro (⟨i, ⟨m, hm, rfl⟩, hle⟩ | hle)
    · exact .inl ⟨m, hm, hle⟩
    · exact .inr hle
  · rintro (⟨m, hm, hle⟩ | hle)
    · exact .inl ⟨_, ⟨m, hm, rfl⟩, hle⟩
    · exact .inr hle

/-- **An index of messages that were read back in order is sound** if their numbers begin with one,
whatever the watermark. -/
theorem restore_sound {ms : List StoredMessage}
    (hasc : ms.Pairwise fun a b => a.sequence < b.sequence) (hpos : ∀ m ∈ ms, 0 < m.sequence)
    (watermark : Nat) : (restore ms watermark).Sound := by
  refine .of_coherent (restore_coherent hasc watermark) ?_
  intro n m h
  obtain ⟨hm, rfl⟩ := (get?_restore_eq_some_iff hasc).1 h
  exact hpos m hm

/-- Two indexes say the same about their messages. -/
structure Agrees (x y : Index) : Prop where
  /-- The messages are the same. -/
  messages : x.messages = y.messages
  /-- The first number is the same. -/
  firstSeq : x.firstSeq = y.firstSeq
  /-- The last number is the same. -/
  lastSeq : x.lastSeq = y.lastSeq
  /-- The size is the same. -/
  bytes : x.bytes = y.bytes
  /-- The numbers of every subject are the same. -/
  sequences : ∀ subject, SubjectIndex.sequences subject x.subjects =
    SubjectIndex.sequences subject y.subjects

/-- **The messages and the last number determine all the rest.** -/
theorem Sound.agrees {x y : Index} (hx : x.Sound) (hy : y.Sound) (hm : x.messages = y.messages)
    (hl : x.lastSeq = y.lastSeq) : x.Agrees y where
  messages := hm
  firstSeq := by rw [hx.firstSeq_eq, hy.firstSeq_eq, hm, hl]
  lastSeq := hl
  bytes := by rw [hx.bytes_eq, hy.bytes_eq, toList, toList, hm]
  sequences subject := by
    apply SeqSet.ext_contains
    intro k
    have hk : (SubjectIndex.sequences subject x.subjects).contains k = true ↔
        (SubjectIndex.sequences subject y.subjects).contains k = true := by
      rw [hx.mem_sequences_iff, hy.mem_sequences_iff, get?, get?, hm]
    exact Bool.eq_iff_iff.2 hk

end Index

end StreamBroker
