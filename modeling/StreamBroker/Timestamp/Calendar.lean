import StreamBroker.Timestamp.Basic

/-!
# The calendar

Dates of the Gregorian calendar, extended before its introduction, and the number of days from the
beginning of 1970 to a date.  Both directions count years from March, so that the leap day is the
last day of a year, and use that the calendar repeats after 146097 days, which are 400 years.

## Main definitions

* `Calendar.Date`: year, month and day.
* `Calendar.dateOfDays`: the date a number of days after the beginning of 1970.
* `Calendar.daysOfDate`: the number of days to a date.
* `Calendar.daysInMonth`: the length of a month.
-/

namespace StreamBroker.Calendar

/-- A date. -/
structure Date where
  /-- The year; the year before 1 is 0. -/
  year : Int
  /-- The month, from 1 to 12. -/
  month : Nat
  /-- The day of the month, from 1. -/
  day : Nat
  deriving DecidableEq, Repr

/-- The days in 400 years. -/
def daysInCycle : Nat := 146097

/-- The days from the first of March of the year 0 to the beginning of 1970. -/
def epochOffset : Int := 719468

/-- The days before a year of a cycle of 400, counted from March. -/
def daysBeforeYear (year : Nat) : Nat := 365 * year + year / 4 - year / 100

/-- The days before a month of a year counted from March. -/
def daysBeforeMonth (month : Nat) : Nat := (153 * month + 2) / 5

/-- The date a number of days after the beginning of 1970. -/
def dateOfDays (days : Int) : Date :=
  let shifted := days + epochOffset
  let cycle := shifted / daysInCycle
  let inCycle := (shifted % daysInCycle).toNat
  let year := (inCycle - inCycle / 1460 + inCycle / 36524 - inCycle / 146096) / 365
  let inYear := inCycle - daysBeforeYear year
  let month := (5 * inYear + 2) / 153
  let day := inYear - daysBeforeMonth month + 1
  let civilYear := cycle * 400 + (year : Nat)
  if month < 10 then ⟨civilYear, month + 3, day⟩ else ⟨civilYear + 1, month - 9, day⟩

/-- The number of days from the beginning of 1970 to a date. -/
def daysOfDate (date : Date) : Int :=
  let marchYear := if date.month ≤ 2 then date.year - 1 else date.year
  let month := if date.month ≤ 2 then date.month + 9 else date.month - 3
  let year := (marchYear % 400).toNat
  let inCycle := daysBeforeYear year + daysBeforeMonth month + (date.day - 1)
  marchYear / 400 * daysInCycle + (inCycle : Nat) - epochOffset

/-- Whether a year has a leap day. -/
def isLeapYear (year : Int) : Bool :=
  year % 4 == 0 && (year % 100 != 0 || year % 400 == 0)

def daysInMonth (year : Int) (month : Nat) : Nat :=
  if month == 2 then if isLeapYear year then 29 else 28
  else if month == 4 || month == 6 || month == 9 || month == 11 then 30
  else 31

def Date.exists? (date : Date) : Bool :=
  decide (1 ≤ date.month) && decide (date.month ≤ 12) && decide (1 ≤ date.day)
    && decide (date.day ≤ daysInMonth date.year date.month)

def firstYear : Int := -262143

def lastYear : Int := 262142

/-- Whether a date exists and the calendar has it. -/
def Date.isKept (date : Date) : Bool :=
  date.exists? && decide (firstYear ≤ date.year) && decide (date.year ≤ lastYear)

end StreamBroker.Calendar
