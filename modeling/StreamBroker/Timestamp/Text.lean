import StreamBroker.Timestamp.Calendar
import StreamBroker.Text.Character
import StreamBroker.Text.Decimal

/-!
# Timestamps as text

Documents write a timestamp as a date, the letter `T`, a time of day and `Z`, such as
`2024-05-01T12:30:00.500Z`.  The writing is in universal time with the fewest of no, three, six
or nine decimal places that are exact.  The reading takes any offset from universal time, short
numbers, white space between the parts, and a blank for the letter `T`.

## Main definitions

* `Timestamp.render`: writes a timestamp.
* `Timestamp.parse?`: reads a timestamp.
-/

namespace StreamBroker.Timestamp

/-! ## Writing -/

/-- A year: four digits, or a sign and at least four digits outside 0 to 9999. -/
def yearText (year : Int) : List Char :=
  if year < 0 then '-' :: Decimal.padded 4 year.natAbs
  else if year ≤ 9999 then Decimal.padded 4 year.natAbs
  else '+' :: Decimal.padded 4 year.natAbs

/-- The decimal places of a second. -/
def fractionText (nanos : Nat) : List Char :=
  if nanos = 0 then []
  else if nanos % 1000000 = 0 then '.' :: Decimal.padded 3 (nanos / 1000000)
  else if nanos % 1000 = 0 then '.' :: Decimal.padded 6 (nanos / 1000)
  else '.' :: Decimal.padded 9 nanos

/-- Writes a timestamp in universal time; a leap second is second sixty of its minute. -/
def render (t : Timestamp) : String :=
  let date := Calendar.dateOfDays (t.seconds / 86400)
  let inDay := (t.seconds % 86400).toNat
  let leap := t.nanos / 1000000000
  String.ofList <|
    yearText date.year ++ '-' :: Decimal.padded 2 date.month ++ '-' :: Decimal.padded 2 date.day
      ++ 'T' :: Decimal.padded 2 (inDay / 3600) ++ ':' :: Decimal.padded 2 (inDay % 3600 / 60)
      ++ ':' :: Decimal.padded 2 (inDay % 60 + leap)
      ++ fractionText (t.nanos % 1000000000) ++ ['Z']

/-! ## Reading -/

/-- The text without the white space at its front. -/
def skipBlanks (cs : List Char) : List Char := cs.dropWhile Text.isBlank

/-- A number of at least one and at most so many digits, and the text behind it. -/
def number? (width : Nat) (cs : List Char) : Option (Nat × List Char) :=
  let digits := (cs.take width).takeWhile Char.isDigit
  if digits.isEmpty then none else some (Decimal.value digits, cs.drop digits.length)

/-- A number with white space allowed in front of it. -/
def field? (width : Nat) (cs : List Char) : Option (Nat × List Char) :=
  number? width (skipBlanks cs)

/-- A year: four digits at most, or a sign and any number of digits. -/
def year? (cs : List Char) : Option (Int × List Char) :=
  match skipBlanks cs with
  | '-' :: cs => (number? cs.length cs).map fun (n, cs) => (-(n : Int), cs)
  | '+' :: cs => (number? cs.length cs).map fun (n, cs) => ((n : Int), cs)
  | cs => (number? 4 cs).map fun (n, cs) => ((n : Int), cs)

/-- A given character, with white space allowed in front of it. -/
def mark? (c : Char) (cs : List Char) : Option (List Char) :=
  match skipBlanks cs with
  | d :: cs => if d = c then some cs else none
  | [] => none

/-- The nanoseconds of a decimal fraction; digits behind the ninth are dropped. -/
def fraction? (cs : List Char) : Option (Nat × List Char) :=
  match cs with
  | '.' :: cs =>
    let digits := (cs.take 9).takeWhile Char.isDigit
    if digits.isEmpty then none
    else some (Decimal.value digits * Nat.pow 10 (9 - digits.length),
      (cs.drop digits.length).dropWhile Char.isDigit)
  | cs => some (0, cs)

def twoDigits? (cs : List Char) : Option (Nat × List Char) :=
  match cs with
  | a :: b :: cs =>
    if a.isDigit && b.isDigit then some (Decimal.value [a, b], cs) else none
  | _ => none

/-- The offset from universal time in seconds: `Z`, `UTC`, or hours and minutes with a sign. -/
def offset? (cs : List Char) : Option (Int × List Char) :=
  if ((cs.take 3).map Char.toUpper) = ['U', 'T', 'C'] then some (0, cs.drop 3)
  else match cs with
    | [] => none
    | c :: cs =>
      if c = 'Z' || c = 'z' then some (0, cs)
      else do
        let sign ← if c = '+' then some (1 : Int)
          else if c = '-' || c = '\u2212' then some (-1) else none
        let (hours, cs) ← twoDigits? cs
        let (minutes, cs) ← twoDigits? (cs.dropWhile fun c => c == ':' || Text.isBlank c)
        if minutes < 60 && hours < 24 then
          some (sign * ((hours * 3600 + minutes * 60 : Nat) : Int), cs)
        else none

/-- Reads a timestamp.  The calendar has to have the date as it is written and as it is in universal
time. -/
def parse? (text : String) : Option Timestamp := do
  let (year, cs) ← year? text.toList
  let cs ← mark? '-' cs
  let (month, cs) ← field? 2 cs
  let cs ← mark? '-' cs
  let (day, cs) ← field? 2 cs
  let cs ← match cs with
    | c :: cs => if c = 'T' || c = 't' || c = ' ' then some cs else none
    | [] => none
  let (hour, cs) ← field? 2 cs
  let cs ← mark? ':' cs
  let (minute, cs) ← field? 2 cs
  let cs ← mark? ':' cs
  let (second, cs) ← field? 2 cs
  let (nanos, cs) ← fraction? cs
  let (offset, cs) ← offset? (skipBlanks cs)
  let date : Calendar.Date := ⟨year, month, day⟩
  if (skipBlanks cs).isEmpty && date.isKept && hour < 24 && minute < 60 && second ≤ 60 then
    let inDay := hour * 3600 + minute * 60 + (if second = 60 then 59 else second)
    let t : Timestamp :=
      ⟨Calendar.daysOfDate date * 86400 + (inDay : Nat) - offset,
        if second = 60 then nanos + 1000000000 else nanos⟩
    if inCalendar (t.seconds * 1000000) then some t else none
  else none

end StreamBroker.Timestamp
