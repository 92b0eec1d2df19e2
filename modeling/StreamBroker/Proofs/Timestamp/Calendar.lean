import Mathlib.Data.Nat.Find
import StreamBroker.Timestamp.Calendar

/-!
# The calendar counts days

Every day has one date, which exists and leads back to the day.  A cycle of 400 years is counted
through once: each of its years is found from its first and its last day, and so from all days
between them.

## Main definitions

* `Calendar.yearInCycle`: the year of a day of a cycle
* `Calendar.yearEnd`: the end of a year of a cycle

## Main results

* `Calendar.yearInCycle_spec`: a day lies in its year
* `Calendar.daysOfDate_dateOfDays`: a date leads back to its day
* `Calendar.isKept_dateOfDays`: the calendar has the dates of its days
-/

namespace StreamBroker.Calendar

variable {day m n year : Nat} {days : Int}

/-! ## Years of a cycle -/

/-- The year of a day of a cycle of 400 years. -/
def yearInCycle (day : Nat) : Nat := (day - day / 1460 + day / 36524 - day / 146096) / 365

/-- The day behind a year of a cycle. -/
def yearEnd (year : Nat) : Nat := if year = 399 then daysInCycle else daysBeforeYear (year + 1)

/-- Later days are not in earlier years. -/
theorem yearInCycle_mono (h : m ≤ n) (hn : n < daysInCycle) : yearInCycle m ≤ yearInCycle n := by
  have hn : n < 146097 := hn
  refine Nat.div_le_div_right ?_
  by_cases hlast : n = 146096
  · subst hlast
    omega
  · have hzero : m / 146096 = 0 ∧ n / 146096 = 0 := by omega
    have hleap : m - m / 1460 ≤ n - n / 1460 := by omega
    omega

/-- The first and the last day of a year are in it. -/
theorem yearInCycle_ends (h : year < 400) :
    yearInCycle (daysBeforeYear year) = year ∧ yearInCycle (yearEnd year - 1) = year ∧
      daysBeforeYear year < yearEnd year ∧ yearEnd year ≤ daysInCycle := by
  have hall : ∀ year < 400, yearInCycle (daysBeforeYear year) = year ∧
      yearInCycle (yearEnd year - 1) = year ∧ daysBeforeYear year < yearEnd year ∧
        yearEnd year ≤ daysInCycle := by decide +kernel
  exact hall year h

/-- **A day lies in its year.** -/
theorem yearInCycle_spec (h : day < daysInCycle) :
    yearInCycle day < 400 ∧ daysBeforeYear (yearInCycle day) ≤ day ∧
      day < yearEnd (yearInCycle day) := by
  -- The last year that does not begin behind the day ends behind it.
  obtain ⟨year, hyear, hle, hlt⟩ :
      ∃ year < 400, daysBeforeYear year ≤ day ∧ day < yearEnd year := by
    have hmost := Nat.findGreatest_le (P := (daysBeforeYear · ≤ day)) 399
    have hspec := Nat.findGreatest_spec (P := (daysBeforeYear · ≤ day)) (Nat.zero_le 399)
      (Nat.zero_le day)
    refine ⟨Nat.findGreatest (daysBeforeYear · ≤ day) 399, Nat.lt_succ_of_le hmost, hspec, ?_⟩
    rw [yearEnd]
    split
    · exact h
    · next hne =>
      have hnext := Nat.findGreatest_is_greatest (P := (daysBeforeYear · ≤ day))
        (Nat.lt_succ_self _) (Nat.lt_of_le_of_ne hmost hne)
      exact Nat.lt_of_not_le hnext
  obtain ⟨hfirst, hlast, -, hend⟩ := yearInCycle_ends hyear
  have hlow := yearInCycle_mono hle h
  have hhigh := yearInCycle_mono (Nat.le_sub_one_of_lt hlt) (by omega)
  obtain rfl : year = yearInCycle day := by omega
  exact ⟨hyear, hle, hlt⟩

/-! ## Months of a year -/

/-- A day lies in its month. -/
theorem month_spec (h : day < 366) :
    (5 * day + 2) / 153 < 12 ∧ daysBeforeMonth ((5 * day + 2) / 153) ≤ day ∧
      day < daysBeforeMonth ((5 * day + 2) / 153 + 1) := by
  unfold daysBeforeMonth
  omega

/-- Every four hundredth year is a leap year, of the other hundredth ones none, and of all others
every fourth. -/
theorem isLeapYear_iff (year : Int) :
    isLeapYear year = true ↔ year % 4 = 0 ∧ (year % 100 ≠ 0 ∨ year % 400 = 0) := by
  simp [isLeapYear]

/-- A year has 365 days, and one more if its February is in a leap year. -/
theorem yearEnd_eq (h : year < 400) (cycle : Int) :
    yearEnd year = daysBeforeYear year +
      (if isLeapYear (cycle * 400 + (year : Nat) + 1) then 366 else 365) := by
  have hleap := isLeapYear_iff (cycle * 400 + (year : Nat) + 1)
  unfold yearEnd daysBeforeYear
  split
  · next hlast =>
    subst hlast
    rw [if_pos (hleap.2 (by omega))]
    rfl
  · split
    · next hyear =>
      have := hleap.1 hyear
      omega
    · next hyear =>
      have hnot := mt hleap.2 hyear
      omega

/-- What a date is made of. -/
theorem dateOfDays_eq (days : Int) : ∃ (cycle : Int) (year month inMonth : Nat),
    year < 400 ∧ month < 12 ∧
    days + epochOffset = cycle * daysInCycle +
      (daysBeforeYear year + daysBeforeMonth month + inMonth : Nat) ∧
    daysBeforeMonth month + inMonth < daysBeforeMonth (month + 1) ∧
    daysBeforeMonth month + inMonth < yearEnd year - daysBeforeYear year ∧
    dateOfDays days = if month < 10 then ⟨cycle * 400 + (year : Nat), month + 3, inMonth + 1⟩
      else ⟨cycle * 400 + (year : Nat) + 1, month - 9, inMonth + 1⟩ := by
  have hsplit := Int.mul_ediv_add_emod (days + epochOffset) daysInCycle
  have hlow := Int.emod_nonneg (days + epochOffset) (show (daysInCycle : Int) ≠ 0 by decide)
  have hhigh := Int.emod_lt_of_pos (days + epochOffset) (show (0 : Int) < daysInCycle by decide)
  obtain ⟨inCycle, hinCycle⟩ := Int.eq_ofNat_of_zero_le hlow
  have hlt : inCycle < daysInCycle := by omega
  -- The day is in a year of its cycle, and in a month of that year.
  obtain ⟨hyear, hfirst, hend⟩ := yearInCycle_spec hlt
  have hlength := yearEnd_eq hyear 0
  have hday : inCycle - daysBeforeYear (yearInCycle inCycle) < 366 := by
    split at hlength <;> omega
  obtain ⟨hmonth, hmonthFirst, hmonthEnd⟩ := month_spec hday
  refine ⟨(days + epochOffset) / daysInCycle, yearInCycle inCycle,
    (5 * (inCycle - daysBeforeYear (yearInCycle inCycle)) + 2) / 153,
    inCycle - daysBeforeYear (yearInCycle inCycle) -
      daysBeforeMonth ((5 * (inCycle - daysBeforeYear (yearInCycle inCycle)) + 2) / 153),
    hyear, hmonth, ?_, by omega, by omega, ?_⟩
  · rw [Int.mul_comm]
    omega
  · simp only [dateOfDays, hinCycle, Int.toNat_natCast]
    rfl

/-- **A date leads back to its day.** -/
theorem daysOfDate_dateOfDays (days : Int) : daysOfDate (dateOfDays days) = days := by
  obtain ⟨cycle, year, month, inMonth, hyear, hmonth, hdays, -, -, hdate⟩ := dateOfDays_eq days
  have hcycle : (cycle * 400 + (year : Nat)) % 400 = year ∧
      (cycle * 400 + (year : Nat)) / 400 = cycle := by omega
  rw [hdate]
  split
  · next h =>
    have hmonth' : ¬month + 3 ≤ 2 := by omega
    simp only [daysOfDate, if_neg hmonth', hcycle.1, hcycle.2, Int.toNat_natCast,
      Nat.add_sub_cancel]
    omega
  · next h =>
    have hmonth' : month - 9 ≤ 2 := by omega
    have hback : month - 9 + 9 = month := by omega
    simp only [daysOfDate, if_pos hmonth', Int.add_sub_cancel, hcycle.1, hcycle.2,
      Int.toNat_natCast, Nat.add_sub_cancel, hback]
    omega

/-- The length of a month but February, which is counted from March. -/
theorem daysInMonth_eq {month : Nat} (h : month < 11) (year : Int) :
    daysInMonth year (if month < 10 then month + 3 else month - 9) =
      daysBeforeMonth (month + 1) - daysBeforeMonth month := by
  match month, h with
  | 0, _ | 1, _ | 2, _ | 3, _ | 4, _ | 5, _ | 6, _ | 7, _ | 8, _ | 9, _ | 10, _ => rfl

/-- The date of a day exists. -/
theorem exists_dateOfDays (days : Int) : (dateOfDays days).exists? = true := by
  obtain ⟨cycle, year, month, inMonth, hyear, hmonth, -, hinMonth, hinYear, hdate⟩ :=
    dateOfDays_eq days
  rw [hdate]
  by_cases hlast : month = 11
  · -- February is cut off by the end of its year.
    subst hlast
    have hfirst : daysBeforeMonth 11 = 337 := rfl
    have hlength := yearEnd_eq hyear cycle
    have hinFebruary : inMonth + 1 ≤ daysInMonth (cycle * 400 + (year : Nat) + 1) 2 := by
      simp only [daysInMonth, beq_self_eq_true, if_true]
      split at hlength
      · next hleap =>
        rw [if_pos hleap]
        omega
      · next hleap =>
        rw [if_neg hleap]
        omega
    simpa [Date.exists?] using hinFebruary
  · have heq := daysInMonth_eq (show month < 11 by omega)
    split
    · next h =>
      simp only [if_pos h] at heq
      simp only [Date.exists?, heq, Bool.and_eq_true, decide_eq_true_eq]
      omega
    · next h =>
      simp only [if_neg h] at heq
      simp only [Date.exists?, heq, Bool.and_eq_true, decide_eq_true_eq]
      omega

/-- The month and the day of a date have two digits at most. -/
theorem lt_of_isKept {date : Date} (h : date.isKept = true) :
    date.month < 100 ∧ date.day < 100 := by
  simp only [Date.isKept, Date.exists?, Bool.and_eq_true, decide_eq_true_eq] at h
  have hlength : daysInMonth date.year date.month ≤ 31 := by
    unfold daysInMonth
    split
    · split <;> decide
    · split <;> decide
  omega

/-- The calendar begins with a year. -/
def firstDay : Int := daysOfDate ⟨firstYear, 1, 1⟩

/-- The calendar ends with a year. -/
def lastDay : Int := daysOfDate ⟨lastYear, 12, 31⟩

/-- **The calendar has the dates of its days.** -/
theorem isKept_dateOfDays (hfirst : firstDay ≤ days) (hlast : days ≤ lastDay) :
    (dateOfDays days).isKept = true := by
  have hexists := exists_dateOfDays days
  obtain ⟨cycle, year, month, inMonth, hyear, hmonth, hdays, hinMonth, hinYear, hdate⟩ :=
    dateOfDays_eq days
  have hfirstDay : firstDay = -96465292 := by decide
  have hlastDay : lastDay = 95026236 := by decide
  have hend := (yearInCycle_ends hyear).2.2.2
  rw [show daysInCycle = 146097 from rfl] at hend hdays
  rw [show epochOffset = 719468 from rfl] at hdays
  -- The calendar begins in the cycle that comes 656 cycles before the first one, and ends in the
  -- one that comes 655 cycles behind it.
  have hcycle : cycle = -656 ∨ cycle = 655 ∨ -656 < cycle ∧ cycle < 655 := by omega
  have hbounds : firstYear ≤ (dateOfDays days).year ∧ (dateOfDays days).year ≤ lastYear := by
    rw [hdate, show firstYear = -262143 from rfl, show lastYear = 262142 from rfl]
    simp only [daysBeforeYear, daysBeforeMonth] at hdays hinMonth
    rcases hcycle with rfl | rfl | hcycle
    · split <;> dsimp only <;> omega
    · split <;> dsimp only <;> omega
    · split <;> dsimp only <;> omega
  rw [Date.isKept, hexists, decide_eq_true hbounds.1, decide_eq_true hbounds.2]
  rfl

end StreamBroker.Calendar
