import StreamBroker.Proofs.Subject.Literal
import StreamBroker.Proofs.Text.Decimal
import StreamBroker.Proofs.Timestamp.Calendar
import StreamBroker.Timestamp.Text

/-!
# Timestamps are read back

A timestamp outside leap seconds is read back from its text, if the calendar has a date for it.
Each part of the text is read up to where the next one begins: numbers of a fixed width fill it, and
behind the others stands a character that is no digit.

## Main results

* `Timestamp.parse?_render`: a timestamp is read back
-/

namespace StreamBroker

namespace Timestamp

variable {cs ds : List Char} {c : Char} {n width : Nat}

/-! ## Parts -/

/-- Nothing is passed over in front of a character that is not blank. -/
theorem skipBlanks_cons (h : Text.isBlank c = false) : skipBlanks (c :: cs) = c :: cs := by
  rw [skipBlanks, List.dropWhile_cons, h]
  rfl

/-- Digits are read that fill their width, or have no digit behind them. -/
theorem number?_append (hne : ds ≠ []) (hds : ds.all Char.isDigit = true)
    (hle : ds.length ≤ width) (hend : ds.length = width ∨ Decimal.Ends cs) :
    number? width (ds ++ cs) = some (Decimal.value ds, cs) := by
  have htake : ((ds ++ cs).take width).takeWhile Char.isDigit = ds := by
    rw [List.take_append, List.take_of_length_le hle]
    refine Decimal.takeWhile_append hds ?_
    rcases hend with rfl | hend
    · rw [Nat.sub_self, List.take_zero]
      rintro c ⟨⟩
    · exact hend.take _
  have hempty : ds.isEmpty = false := List.isEmpty_eq_false_iff.2 hne
  simp only [number?, htake, hempty, Bool.false_eq_true, if_false, List.drop_left]

/-- A number of a fixed width is read back. -/
theorem number?_padded (hwidth : 0 < width) (hn : n < Nat.pow 10 width) (cs : List Char) :
    number? width (Decimal.padded width n ++ cs) = some (n, cs) := by
  have hlength := Decimal.length_padded hwidth hn
  rw [number?_append (Decimal.padded_ne_nil _ _) (Decimal.all_isDigit_padded _ _)
    (Nat.le_of_eq hlength) (.inl hlength), Decimal.value_padded]

/-- Nothing is passed over in front of digits. -/
theorem skipBlanks_append (hne : ds ≠ []) (hds : ds.all Char.isDigit = true) (cs : List Char) :
    skipBlanks (ds ++ cs) = ds ++ cs := by
  obtain ⟨d, ds, rfl⟩ := List.exists_cons_of_ne_nil hne
  have hd : d.isDigit = true := List.all_eq_true.1 hds d List.mem_cons_self
  have hrange := toNat_of_isAlphanum (show d.isAlphanum = true by simp [Char.isAlphanum, hd])
  exact skipBlanks_cons (isBlank_eq_false_of_visible (by omega) (by omega)).1

theorem field?_padded (hwidth : 0 < width) (hn : n < Nat.pow 10 width) (cs : List Char) :
    field? width (Decimal.padded width n ++ cs) = some (n, cs) := by
  rw [field?, skipBlanks_append (Decimal.padded_ne_nil _ _) (Decimal.all_isDigit_padded _ _),
    number?_padded hwidth hn]

theorem mark?_cons (h : Text.isBlank c = false) (cs : List Char) : mark? c (c :: cs) = some cs := by
  rw [mark?, skipBlanks_cons h]
  exact if_pos rfl

/-- A year behind its sign is read back. -/
theorem number?_year (n : Nat) (cs : List Char) :
    number? (Decimal.padded 4 n ++ '-' :: cs).length (Decimal.padded 4 n ++ '-' :: cs) =
      some (n, '-' :: cs) := by
  have hend : Decimal.Ends ('-' :: cs) := by
    rintro c ⟨⟩
    rfl
  rw [number?_append (Decimal.padded_ne_nil _ _) (Decimal.all_isDigit_padded _ _) (by simp)
    (.inr hend), Decimal.value_padded]

/-- A year is read back from its text. -/
theorem year?_yearText (year : Int) (cs : List Char) :
    year? (yearText year ++ '-' :: cs) = some (year, '-' :: cs) := by
  rw [yearText]
  split
  · rw [year?, List.cons_append, skipBlanks_cons (by decide)]
    show (number? _ _).map (fun p : Nat × List Char => (-(p.1 : Int), p.2)) = _
    rw [number?_year, Option.map_some, show -(year.natAbs : Int) = year by omega]
  · split
    · have hne := Decimal.padded_ne_nil 4 year.natAbs
      have hdigits := Decimal.all_isDigit_padded 4 year.natAbs
      have hnumber := number?_padded (show 0 < 4 by decide)
        (show year.natAbs < 10000 by omega) ('-' :: cs)
      rw [year?, skipBlanks_append hne hdigits]
      -- The first character is a digit and no sign.
      obtain ⟨d, ds, hds⟩ := List.exists_cons_of_ne_nil hne
      rw [hds] at hdigits hnumber ⊢
      have hd : d.isDigit = true := List.all_eq_true.1 hdigits d List.mem_cons_self
      split
      · next h =>
        obtain ⟨rfl, -⟩ := List.cons.inj h
        cases hd
      · next h =>
        obtain ⟨rfl, -⟩ := List.cons.inj h
        cases hd
      · rw [hnumber, Option.map_some]
        dsimp only
        rw [show (year.natAbs : Int) = year by omega]
    · rw [year?, List.cons_append, skipBlanks_cons (by decide)]
      show (number? _ _).map (fun p : Nat × List Char => ((p.1 : Int), p.2)) = _
      rw [number?_year, Option.map_some, show (year.natAbs : Int) = year by omega]

/-- Decimal places are read back. -/
theorem fraction?_padded (hwidth : 0 < width) (hle : width ≤ 9) (hn : n < Nat.pow 10 width)
    (cs : List Char) :
    fraction? ('.' :: (Decimal.padded width n ++ 'Z' :: cs)) =
      some (n * Nat.pow 10 (9 - width), 'Z' :: cs) := by
  have hlength := Decimal.length_padded hwidth hn
  have hvalue := Decimal.value_padded width n
  have hne := Decimal.padded_ne_nil width n
  have hdigits := Decimal.all_isDigit_padded width n
  generalize Decimal.padded width n = ds at hlength hvalue hne hdigits ⊢
  have hend : Decimal.Ends ('Z' :: cs) := by
    rintro c ⟨⟩
    rfl
  have htake : ((ds ++ 'Z' :: cs).take 9).takeWhile Char.isDigit = ds := by
    rw [List.take_append, List.take_of_length_le (hlength ▸ hle)]
    exact Decimal.takeWhile_append hdigits (hend.take _)
  have hempty : ds.isEmpty = false := List.isEmpty_eq_false_iff.2 hne
  have hdrop : (ds ++ 'Z' :: cs).drop width = 'Z' :: cs := hlength ▸ List.drop_left
  simp only [fraction?, htake, hempty, Bool.false_eq_true, if_false, hvalue, hlength, hdrop]
  rfl

/-- The decimal places of a second are read back. -/
theorem fraction?_fractionText (hn : n < 1000000000) (cs : List Char) :
    fraction? (fractionText n ++ 'Z' :: cs) = some (n, 'Z' :: cs) := by
  rw [fractionText]
  -- The places are none, three, six or nine.
  split
  · next h =>
    subst h
    rfl
  · split
    · rw [List.cons_append, fraction?_padded (by decide) (by decide)
        (show n / 1000000 < 1000 by omega)]
      congr 2
      show n / 1000000 * 1000000 = n
      omega
    · split
      · rw [List.cons_append, fraction?_padded (by decide) (by decide)
          (show n / 1000 < 1000000 by omega)]
        congr 2
        show n / 1000 * 1000 = n
        omega
      · rw [List.cons_append, fraction?_padded (by decide) (by decide) hn]
        congr 2
        exact Nat.mul_one n

/-! ## The whole -/

/-- **A timestamp is read back from its text.** -/
theorem parse?_render {t : Timestamp} (hcalendar : inCalendar t.micros = true)
    (hnanos : t.nanos < 1000000000) : parse? t.render = some t := by
  obtain ⟨seconds, nanos⟩ := t
  have hnanos : nanos < 1000000000 := hnanos
  simp only [inCalendar, Bool.and_eq_true, decide_eq_true_eq] at hcalendar
  simp only [micros, firstMicros, lastMicros] at hcalendar
  have hdays : Calendar.firstDay ≤ seconds / 86400 ∧ seconds / 86400 ≤ Calendar.lastDay := by
    rw [show Calendar.firstDay = -96465292 by decide, show Calendar.lastDay = 95026236 by decide]
    omega
  have hkept := Calendar.isKept_dateOfDays hdays.1 hdays.2
  have hback := Calendar.daysOfDate_dateOfDays (seconds / 86400)
  obtain ⟨hmonth, hday⟩ := Calendar.lt_of_isKept hkept
  obtain ⟨inDay, hinDay⟩ := Int.eq_ofNat_of_zero_le (Int.emod_nonneg seconds
    (show (86400 : Int) ≠ 0 by decide))
  have hhour : inDay / 3600 < 24 := by omega
  have hminute : inDay % 3600 / 60 < 60 := by omega
  have hsecond : inDay % 60 < 60 := by omega
  have hread {n : Nat} (hn : n < 100) := field?_padded (show 0 < 2 by decide) hn
  have hdash := mark?_cons (show Text.isBlank '-' = false by decide)
  have hcolon := mark?_cons (show Text.isBlank ':' = false by decide)
  simp only [parse?, render, String.toList_ofList, List.append_assoc, List.cons_append, hinDay,
    Int.toNat_natCast, Nat.div_eq_of_lt hnanos, Nat.mod_eq_of_lt hnanos, Nat.add_zero]
  generalize Calendar.dateOfDays (seconds / 86400) = date at hkept hback hmonth hday ⊢
  -- What is written is read part by part.
  refine Option.bind_eq_some_iff.2 ⟨_, year?_yearText _ _, ?_⟩
  refine Option.bind_eq_some_iff.2 ⟨_, hdash _, ?_⟩
  refine Option.bind_eq_some_iff.2 ⟨_, hread hmonth _, ?_⟩
  refine Option.bind_eq_some_iff.2 ⟨_, hdash _, ?_⟩
  refine Option.bind_eq_some_iff.2 ⟨_, hread hday _, ?_⟩
  refine Option.bind_eq_some_iff.2 ⟨_, hread (show inDay / 3600 < 100 by omega) _, ?_⟩
  refine Option.bind_eq_some_iff.2 ⟨_, hcolon _, ?_⟩
  refine Option.bind_eq_some_iff.2 ⟨_, hread (show inDay % 3600 / 60 < 100 by omega) _, ?_⟩
  refine Option.bind_eq_some_iff.2 ⟨_, hcolon _, ?_⟩
  refine Option.bind_eq_some_iff.2 ⟨_, hread (show inDay % 60 < 100 by omega) _, ?_⟩
  refine Option.bind_eq_some_iff.2 ⟨_, fraction?_fractionText hnanos _, ?_⟩
  refine Option.bind_eq_some_iff.2 ⟨(0, []), rfl, ?_⟩
  dsimp only
  have hseconds : seconds / 86400 * 86400 +
      ((inDay / 3600 * 3600 + inDay % 3600 / 60 * 60 + inDay % 60 : Nat) : Int) - 0 = seconds := by
    omega
  have hmoment : inCalendar (seconds * 1000000) = true := by
    simp only [inCalendar, Bool.and_eq_true, decide_eq_true_eq]
    simp only [firstMicros, lastMicros]
    omega
  rw [if_neg (Nat.ne_of_lt hsecond), if_neg (Nat.ne_of_lt hsecond), hback, hseconds, hmoment, hkept,
    decide_eq_true hhour, decide_eq_true hminute, decide_eq_true (Nat.le_of_lt hsecond)]
  rfl

end Timestamp

end StreamBroker
