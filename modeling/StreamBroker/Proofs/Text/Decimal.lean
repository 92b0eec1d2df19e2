import StreamBroker.Text.Decimal

/-!
# Decimal numerals are read back

Zeros in front do not change what digits say, so a number is read back from its digits at any
width, and no two numbers have the same digits.

## Main results

* `Decimal.value_digits`, `Decimal.value_padded`: a number is the value of its digits
* `Decimal.parse?_padded`: a number is read back at any width
-/

namespace StreamBroker.Decimal

theorem digit_spec {n : Nat} (h : n < 10) :
    (digit n).isDigit = true ∧ digitValue (digit n) = n := by
  match n, h with
  | 0, _ | 1, _ | 2, _ | 3, _ | 4, _ | 5, _ | 6, _ | 7, _ | 8, _ | 9, _ => decide

theorem all_isDigit_digits (n : Nat) : (digits n).all Char.isDigit = true := by
  induction n using digits.induct with
  | case1 n h =>
    rw [digits, if_pos h]
    simp [(digit_spec h).1]
  | case2 n h ih =>
    rw [digits, if_neg h, List.all_append, ih]
    simp [(digit_spec (Nat.mod_lt n (by decide))).1]

theorem value_append (cs ds : List Char) :
    value (cs ++ ds) = ds.foldl (fun n c => n * 10 + digitValue c) (value cs) :=
  List.foldl_append ..

/-- A number is the value of its digits. -/
theorem value_digits (n : Nat) : value (digits n) = n := by
  induction n using digits.induct with
  | case1 n h =>
    rw [digits, if_pos h]
    simp [value, (digit_spec h).2]
  | case2 n h ih =>
    rw [digits, if_neg h, value_append, ih]
    -- The last digit is the remainder by ten, and those in front are the quotient.
    simp only [List.foldl_cons, List.foldl_nil, (digit_spec (Nat.mod_lt n (by decide))).2]
    omega

theorem value_replicate_append (k : Nat) (cs : List Char) :
    value (List.replicate k '0' ++ cs) = value cs := by
  induction k with
  | zero => rfl
  | succ k ih => exact ih

theorem value_padded (width n : Nat) : value (padded width n) = n := by
  rw [padded, value_replicate_append, value_digits]

theorem all_isDigit_padded (width n : Nat) : (padded width n).all Char.isDigit = true := by
  rw [padded, List.all_append, all_isDigit_digits, Bool.and_true, List.all_eq_true]
  intro c hc
  rw [List.eq_of_mem_replicate hc]
  rfl

theorem digits_ne_nil (n : Nat) : digits n ≠ [] := by
  rw [digits]
  split <;> simp

/-- Only zero begins with a zero. -/
theorem head?_digits {n : Nat} (h : (digits n).head? = some '0') : n = 0 := by
  induction n using digits.induct with
  | case1 n hn =>
    rw [digits, if_pos hn, List.head?_cons, Option.some.injEq] at h
    rw [← (digit_spec hn).2, h]
    rfl
  | case2 n hn ih =>
    obtain ⟨d, ds, hds⟩ := List.exists_cons_of_ne_nil (digits_ne_nil (n / 10))
    rw [digits, if_neg hn, hds] at h
    rw [hds] at ih
    have := ih h
    omega

theorem padded_ne_nil (width n : Nat) : padded width n ≠ [] :=
  List.append_ne_nil_of_right_ne_nil _ (digits_ne_nil n)

/-- **A number is read back from its digits**, whatever their width. -/
theorem parse?_padded (width n : Nat) : parse? (padded width n) = some n := by
  have hne : (padded width n).isEmpty = false := by
    simpa [List.isEmpty_iff] using padded_ne_nil width n
  rw [parse?, hne, if_neg Bool.false_ne_true, if_pos (all_isDigit_padded width n), value_padded]

theorem padded_inj {width m n : Nat} (h : padded width m = padded width n) : m = n := by
  rw [← value_padded width m, h, value_padded]

/-- A number below a power of ten has no more digits than the exponent says. -/
theorem length_digits_le {width n : Nat} (hwidth : 0 < width) (h : n < Nat.pow 10 width) :
    (digits n).length ≤ width := by
  induction n using digits.induct generalizing width with
  | case1 n hn =>
    rw [digits, if_pos hn]
    exact hwidth
  | case2 n hn ih =>
    rw [digits, if_neg hn, List.length_append, List.length_singleton]
    obtain ⟨width, rfl⟩ : ∃ w, width = w + 1 := ⟨width - 1, by omega⟩
    have hpos : 0 < width := by
      rcases Nat.eq_zero_or_pos width with rfl | hpos
      · exact absurd h hn
      · exact hpos
    rw [Nat.pow_eq, Nat.pow_succ, ← Nat.pow_eq] at h
    exact Nat.succ_le_succ (ih hpos (Nat.div_lt_of_lt_mul (by omega)))

/-- A number that fits a width fills it. -/
theorem length_padded {width n : Nat} (hwidth : 0 < width) (h : n < Nat.pow 10 width) :
    (padded width n).length = width := by
  have hle := length_digits_le hwidth h
  rw [padded, List.length_append, List.length_replicate]
  omega

/-! ## Digits in front of a text -/

/-- A text does not begin with a digit. -/
def Ends (cs : List Char) : Prop := ∀ c ∈ cs.head?, c.isDigit = false

theorem Ends.take {cs : List Char} (h : Ends cs) (n : Nat) : Ends (cs.take n) := by
  cases cs with
  | nil => rwa [List.take_nil]
  | cons c cs =>
    cases n with
    | zero =>
      rintro d ⟨⟩
    | succ n => exact h

/-- The digits in front of a text that does not begin with one. -/
theorem takeWhile_append {ds cs : List Char} (hds : ds.all Char.isDigit = true) (hcs : Ends cs) :
    (ds ++ cs).takeWhile Char.isDigit = ds := by
  rw [List.takeWhile_append_of_pos (List.all_eq_true.1 hds)]
  cases cs with
  | nil => simp
  | cons c cs => rw [List.takeWhile_cons, hcs c rfl, if_neg Bool.false_ne_true, List.append_nil]

/-- What is behind these digits. -/
theorem dropWhile_append {ds cs : List Char} (hds : ds.all Char.isDigit = true) (hcs : Ends cs) :
    (ds ++ cs).dropWhile Char.isDigit = cs := by
  rw [List.dropWhile_append_of_pos (List.all_eq_true.1 hds)]
  cases cs with
  | nil => rfl
  | cons c cs => rw [List.dropWhile_cons, hcs c rfl, if_neg Bool.false_ne_true]

end StreamBroker.Decimal
