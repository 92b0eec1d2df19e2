import StreamBroker.Duration.Basic
import StreamBroker.Text.Character
import StreamBroker.Text.Decimal

/-!
# Durations as text

Settings write a duration as groups of a number and a unit, such as `1h 30m` or `1.5s`.  The
reading is generous with white space, with the names of units and with decimal fractions; the
writing is canonical.  Messages about a duration use a third, shorter form with one unit.

## Main definitions

* `Duration.parse`: reads a duration from settings.
* `Duration.ReadError`: why a text is not read.
* `Duration.render`: writes a duration for settings.
* `Duration.brief`: writes a duration for messages.
-/

namespace StreamBroker.Duration

/-! ## Units -/

/-- What an amount is counted in before it is added up. -/
inductive Grain where
  /-- Nanoseconds, for units up to the millisecond. -/
  | nanos
  /-- Whole seconds, for units from the second up. -/
  | seconds
  deriving DecidableEq, Repr

/-- A unit of time as it is read: how much one of it is, and in what its decimal fraction is
counted, where it may have one. -/
structure UnitOfTime where
  /-- What whole amounts are counted in. -/
  grain : Grain
  /-- How many grains one unit is. -/
  amount : Nat
  /-- What a fraction is counted in and how many of these one unit is; a fraction of a nanosecond
  is no amount. -/
  fraction : Option (Grain × Nat)
  deriving Repr

/-- The units by all their names. -/
def units : List (List String × UnitOfTime) :=
  [(["nanos", "nsec", "ns"], ⟨.nanos, 1, none⟩),
    (["usec", "us", "\u00b5s"], ⟨.nanos, 1000, some (.nanos, 1000)⟩),
    (["millis", "msec", "ms"], ⟨.nanos, 1000000, some (.nanos, 1000000)⟩),
    (["seconds", "second", "secs", "sec", "s"], ⟨.seconds, 1, some (.nanos, 1000000000)⟩),
    (["minutes", "minute", "min", "mins", "m"], ⟨.seconds, 60, some (.nanos, 60000000000)⟩),
    (["hours", "hour", "hr", "hrs", "h"], ⟨.seconds, 3600, some (.seconds, 3600)⟩),
    (["days", "day", "d"], ⟨.seconds, 86400, some (.seconds, 86400)⟩),
    (["weeks", "week", "wk", "wks", "w"], ⟨.seconds, 604800, some (.seconds, 604800)⟩),
    (["months", "month", "M"], ⟨.seconds, 2630016, some (.seconds, 2630016)⟩),
    (["years", "year", "yr", "yrs", "y"], ⟨.seconds, 31557600, some (.seconds, 31557600)⟩)]

/-- The unit with a name; names are told apart by case. -/
def unit? (name : String) : Option UnitOfTime :=
  (units.find? fun u => u.1.contains name).map (·.2)

/-! ## Reading -/

/-- Why a text is not read. -/
inductive ReadError where
  /-- It is not written as a duration, or one of its numbers is too large. -/
  | malformed
  /-- Its nanoseconds make up the one second that is missing to `2 ^ 64`. -/
  | overflow
  deriving DecidableEq, Repr

/-- A number that fits in sixty-four bits. -/
def word (n : Nat) : Except ReadError Nat := if n < wordLimit then .ok n else .error .malformed

/-- The seconds and nanoseconds added up so far. -/
structure Sum where
  seconds : Nat
  /-- Nanoseconds below a second. -/
  nanos : Nat

/-- Adds an amount; every part has to fit in sixty-four bits. -/
def Sum.add (s : Sum) : Grain → Nat → Except ReadError Sum
  | .seconds, n => do
    let seconds ← word (s.seconds + n)
    pure { s with seconds := seconds }
  | .nanos, n => do
    let nanos ← word (s.nanos + n)
    -- Exactly one second is not yet carried when the seconds are checked.
    if nanos = nanosPerSecond ∧ wordLimit ≤ s.seconds + 1 then throw .overflow
    let seconds ← word (s.seconds + nanos / nanosPerSecond)
    pure ⟨seconds, nanos % nanosPerSecond⟩

/-- A decimal fraction, numerator over denominator. -/
abbrev Fraction := Nat × Nat

/-- Adds a number of units, with the fraction of one unit behind its point.  A fraction has to be
a whole number of grains. -/
def Sum.addGroup (s : Sum) (number : Nat) (fraction : Option Fraction) (unitName : List Char) :
    Except ReadError Sum :=
  match unit? (String.ofList unitName) with
  | none => .error .malformed
  | some u => do
    let whole ← word (number * u.amount)
    let s ← s.add u.grain whole
    match fraction, u.fraction with
    | none, _ => pure s
    | some _, none => throw .malformed
    | some (numerator, denominator), some (grain, amount) =>
      let product ← word (numerator * amount)
      if product % denominator = 0 then s.add grain (product / denominator) else throw .malformed

/-- Where the reading of a duration stands between two characters. -/
inductive Reading where
  /-- Before the number of a group. -/
  | gap
  /-- In the whole part of a number. -/
  | number (n : Nat)
  /-- Behind the point of a number. -/
  | fraction (n : Nat) (behind : Fraction)
  | unitName (n : Nat) (behind : Option Fraction) (name : List Char)

/-- Whether a character may stand in the name of a unit. -/
def isUnitChar (c : Char) : Bool := c.isAlpha || c == '\u00b5'

/-- Takes one character.  White space may stand anywhere but inside the name of a unit; a digit
ends the name of a unit and begins the next group. -/
def Reading.step (c : Char) : Reading → Sum → Except ReadError (Reading × Sum)
  | .gap, s =>
    if c.isDigit then .ok (.number (Decimal.digitValue c), s)
    else if Text.isBlank c then .ok (.gap, s)
    else .error .malformed
  | .number n, s =>
    if c.isDigit then do
      let n ← word (n * 10 + Decimal.digitValue c)
      .ok (.number n, s)
    else if Text.isBlank c then .ok (.number n, s)
    else if isUnitChar c then .ok (.unitName n none [c], s)
    else if c == '.' then .ok (.fraction n (0, 1), s)
    else .error .malformed
  | .fraction n (numerator, denominator), s =>
    if c.isDigit then do
      let numerator ← word (numerator * 10 + Decimal.digitValue c)
      let denominator ← word (denominator * 10)
      .ok (.fraction n (numerator, denominator), s)
    else if Text.isBlank c then .ok (.fraction n (numerator, denominator), s)
    else if isUnitChar c && denominator != 1 then
      .ok (.unitName n (some (numerator, denominator)) [c], s)
    else .error .malformed
  | .unitName n behind name, s =>
    if isUnitChar c then .ok (.unitName n behind (name ++ [c]), s)
    else if c.isDigit then do
      let s ← s.addGroup n behind name
      .ok (.number (Decimal.digitValue c), s)
    else if Text.isBlank c then do
      let s ← s.addGroup n behind name
      .ok (.gap, s)
    else .error .malformed

def Reading.run : List Char → Reading → Sum → Except ReadError (Reading × Sum)
  | [], r, s => .ok (r, s)
  | c :: cs, r, s => do
    let (r, s) ← r.step c s
    Reading.run cs r s

/-- Reads a duration: `0`, or one or more groups of a number and a unit, which add up. -/
def parse (text : String) : Except ReadError Duration :=
  if text = "0" then .ok zero
  else if text.toList.all Text.isBlank then .error .malformed
  else do
    let (r, s) ← Reading.run text.toList .gap ⟨0, 0⟩
    let s ← match r with
      | .gap => pure s
      | .unitName n behind name => s.addGroup n behind name
      | .number _ | .fraction .. => throw .malformed
    pure ⟨s.seconds * nanosPerSecond + s.nanos⟩

/-! ## Writing -/

/-- A group of a number and a unit whose name takes a plural, or nothing for zero. -/
def pluralGroup (n : Nat) (name : String) : List String :=
  if n = 0 then [] else if n = 1 then ["1" ++ name] else [Decimal.text n ++ name ++ "s"]

/-- A group of a number and the sign of a unit, or nothing for zero. -/
def signGroup (n : Nat) (sign : String) : List String :=
  if n = 0 then [] else [Decimal.text n ++ sign]

/-- Writes a duration for settings: its parts from years down to nanoseconds, those that are zero
left out.  A year has 365.25 days and a month 30.44. -/
def render (d : Duration) : String :=
  let years := d.seconds / 31557600
  let inYear := d.seconds % 31557600
  let months := inYear / 2630016
  let inMonth := inYear % 2630016
  let days := inMonth / 86400
  let inDay := inMonth % 86400
  let groups :=
    pluralGroup years "year" ++ pluralGroup months "month" ++ pluralGroup days "day"
      ++ signGroup (inDay / 3600) "h" ++ signGroup (inDay % 3600 / 60) "m"
      ++ signGroup (inDay % 60) "s" ++ signGroup (d.subsecond / 1000000) "ms"
      ++ signGroup (d.subsecond / 1000 % 1000) "us" ++ signGroup (d.subsecond % 1000) "ns"
  if groups.isEmpty then "0s" else " ".intercalate groups

/-- The digits of a fraction below one with so many places, without zeros at the end. -/
def fractionDigits (places n : Nat) : List Char :=
  ((Decimal.padded places n).reverse.dropWhile (· == '0')).reverse

/-- A whole part, a fraction with so many places and a unit. -/
def briefIn (whole fraction places : Nat) (sign : String) : String :=
  let digits := fractionDigits places fraction
  let tail := if digits.isEmpty then "" else String.ofList ('.' :: digits)
  Decimal.text whole ++ tail ++ sign

/-- Writes a duration for messages: in the largest of seconds, milliseconds, microseconds and
nanoseconds of which it holds at least one. -/
def brief (d : Duration) : String :=
  if 0 < d.seconds then briefIn d.seconds d.subsecond 9 "s"
  else if nanosPerMilli ≤ d.nanos then
    briefIn (d.nanos / nanosPerMilli) (d.nanos % nanosPerMilli) 6 "ms"
  else if 1000 ≤ d.nanos then briefIn (d.nanos / 1000) (d.nanos % 1000) 3 "\u00b5s"
  else briefIn d.nanos 0 0 "ns"

end StreamBroker.Duration
