import StreamBroker.Proofs.Index.Removal

/-!
# Messages go in any order

What is left of an index when two messages are gone does not depend on which went first.  The first
number may have moved twice on one way and once on the other, but it ends at the lowest number that
is left, and a subject goes with its last number whichever that was.

At the largest number there is one message that cannot go, the first, since nothing is behind it
that the first number could move to.  It is the same one until it goes.

## Main definitions

* `Index.drop?`: a message goes, unless the first number is stuck

## Main results

* `Index.Sound.remove_comm`: two messages may go in any order
* `Index.Sound.drop?_comm`: so they may when the first number may be stuck
-/

namespace StreamBroker

theorem SeqMap.erase_comm {β : Type} (m : SeqMap β) (n k : Nat) :
    (m.erase n).erase k = (m.erase k).erase n := by
  apply SeqMap.ext_get?
  intro j
  simp only [SeqMap.get?_erase]
  split <;> split <;> rfl

namespace SubjectIndex

/-! ## The numbers of every subject -/

theorem discard_of_notMem {x : SubjectIndex} {subject : String} (h : subject ∉ x.map (·.1))
    (n : Nat) : discard subject n x = x := by
  induction x with
  | nil => rfl
  | cons e es ih =>
    rw [List.map_cons, List.mem_cons, not_or] at h
    rw [discard, if_neg (Ne.symm h.1), ih h.2]

/-- A subject that is listed once goes when both of two numbers are gone and no other is left. -/
theorem discard_discard_cons {e : String × SeqSet} {x : SubjectIndex} (h : e.1 ∉ x.map (·.1))
    (n k : Nat) : discard e.1 n (discard e.1 k (e :: x)) =
      if ((e.2.erase k).erase n).isEmpty then x else (e.1, (e.2.erase k).erase n) :: x := by
  rw [discard, if_pos rfl]
  split
  · next hempty =>
    have hleft : ((e.2.erase k).erase n).isEmpty = true := by
      rw [SeqMap.eq_empty_of_isEmpty hempty]
      rfl
    rw [discard_of_notMem h, if_pos hleft]
  · rw [discard, if_pos rfl]

/-- Numbers may be discarded in any order. -/
theorem discard_comm {x : SubjectIndex} (hx : (x.map (·.1)).Nodup) (s t : String) (n k : Nat) :
    discard s n (discard t k x) = discard t k (discard s n x) := by
  induction x with
  | nil => rfl
  | cons e es ih =>
    rw [List.map_cons, List.nodup_cons] at hx
    by_cases hs : e.1 = s
    · by_cases ht : e.1 = t
      · subst hs ht
        -- Both numbers are of the subject that stands first, which may go with the second of them.
        rw [discard_discard_cons hx.1, discard_discard_cons hx.1, SeqMap.erase_comm]
      · rw [discard, if_neg ht, discard, if_pos hs, discard, if_pos hs]
        split
        · rfl
        · rw [discard, if_neg ht]
    · by_cases ht : e.1 = t
      · rw [discard, if_pos ht, discard, if_neg hs, discard, if_pos ht]
        split
        · rfl
        · rw [discard, if_neg hs]
      · simp only [discard, if_neg hs, if_neg ht, ih hx.2]

end SubjectIndex

namespace Index

variable {x y : Index} {n k : Nat}

/-! ## Two messages -/

/-- What is left when two messages are gone. -/
theorem Sound.remove_remove (hx : x.Sound) {m w : StoredMessage}
    (hn : x.get? n = some m) (hk : x.get? k = some w) (hne : n ≠ k) :
    (x.remove n).remove k =
      { x with
        messages := (x.messages.erase n).erase k
        subjects := SubjectIndex.discard w.subject k (SubjectIndex.discard m.subject n x.subjects)
        firstSeq := lowest ((x.messages.erase n).erase k) x.lastSeq
        bytes := x.bytes - m.size - w.size } := by
  have hk' : (x.remove n).get? k = some w := by rw [get?_remove, if_neg (Ne.symm hne), hk]
  -- The first number is the lowest again, whatever it was in between.
  have hfirst := ((hx.remove n).remove k).firstSeq_eq
  rw [remove_of_get? hk', remove_of_get? hn] at hfirst ⊢
  rw [mk.injEq]
  exact ⟨rfl, rfl, hfirst, rfl, rfl, rfl⟩

/-- **Messages may go in any order.** -/
theorem Sound.remove_comm (hx : x.Sound) (n k : Nat) :
    (x.remove n).remove k = (x.remove k).remove n := by
  cases hn : x.get? n with
  | none =>
    have hn' : (x.remove k).get? n = none := by
      rw [get?_remove, hn]
      split <;> rfl
    rw [remove_of_get?_eq_none hn, remove_of_get?_eq_none hn']
  | some m =>
    cases hk : x.get? k with
    | none =>
      have hk' : (x.remove n).get? k = none := by
        rw [get?_remove, hk]
        split <;> rfl
      rw [remove_of_get?_eq_none hk, remove_of_get?_eq_none hk']
    | some w =>
      by_cases hne : n = k
      · rw [hne]
      · rw [hx.remove_remove hn hk hne, hx.remove_remove hk hn (Ne.symm hne), SeqMap.erase_comm,
          SubjectIndex.discard_comm hx.nodup_subjects, Nat.sub_right_comm]

/-! ## The first number -/

/-- A message goes, or stays as it was not to go.  The first one cannot go if the number behind the
last does not exist. -/
def drop? (x : Index) (n : Nat) (goes : Bool) : Option Index :=
  if goes then (if x.isStuck [n] then none else some (x.remove n)) else some x

theorem drop?_false (x : Index) (n : Nat) : x.drop? n false = some x := rfl

theorem isStuck_iff : x.isStuck [n] = true ↔ wordLimit ≤ x.lastSeq + 1 ∧ n = x.firstSeq := by
  rw [isStuck, Bool.and_eq_true, decide_eq_true_eq, List.contains_iff_mem, List.mem_singleton,
    eq_comm]

/-- What comes of it when a message goes. -/
theorem drop?_cases {goes : Bool} (h : x.drop? n goes = some y) :
    y = x ∧ goes = false ∨ y = x.remove n ∧ goes = true ∧ x.isStuck [n] = false := by
  cases goes with
  | false => exact .inl ⟨(Option.some.inj h).symm, rfl⟩
  | true =>
    rw [drop?, if_pos rfl] at h
    split at h
    · cases h
    · next hstuck => exact .inr ⟨(Option.some.inj h).symm, rfl, Bool.eq_false_iff.2 hstuck⟩

theorem firstSeq_remove_of_ne (h : n ≠ x.firstSeq) : (x.remove n).firstSeq = x.firstSeq := by
  rw [Index.remove]
  split
  · rfl
  · exact if_neg h

/-- A message that goes does not decide whether another one can go. -/
theorem isStuck_remove (h : x.isStuck [k] = false) : (x.remove k).isStuck [n] = x.isStuck [n] := by
  rw [Bool.eq_iff_iff, isStuck_iff, isStuck_iff, lastSeq_remove]
  apply and_congr_right
  intro hlast
  have hne : k ≠ x.firstSeq := fun heq => Bool.eq_false_iff.1 h (isStuck_iff.2 ⟨hlast, heq⟩)
  rw [firstSeq_remove_of_ne hne]

/-- **Messages may go in any order**, and it does not depend on the order whether they can go. -/
theorem Sound.drop?_comm (hx : x.Sound) (n k : Nat) (first second : Bool) :
    (x.drop? n first).bind (·.drop? k second) = (x.drop? k second).bind (·.drop? n first) := by
  cases first with
  | false => simp [drop?_false]
  | true =>
    cases second with
    | false => simp [drop?_false]
    | true =>
      simp only [drop?, if_pos]
      cases hn : x.isStuck [n] with
      | true =>
        cases hk : x.isStuck [k] with
        | true => rfl
        | false => simp [isStuck_remove hk, hn]
      | false =>
        cases hk : x.isStuck [k] with
        | true => simp [isStuck_remove hn, hk]
        | false => simp [isStuck_remove hn, isStuck_remove hk, hn, hk, hx.remove_comm n k]

end Index

end StreamBroker
