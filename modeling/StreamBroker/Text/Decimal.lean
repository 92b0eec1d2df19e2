/-!
# Decimal numerals

Natural numbers in decimal digits, with leading zeros where a format asks for a fixed width, and
the reading of digits.

## Main definitions

* `Decimal.digits`: the digits of a number, without leading zeros; zero is one digit.
* `Decimal.padded`: at least the given number of digits.
* `Decimal.integer`: the same for integers, with a sign.
* `Decimal.value`: the number with given digits.
* `Decimal.parse?`: the number that a text of digits only writes.
-/

namespace StreamBroker.Decimal

/-- The digit of a number below ten. -/
def digit (n : Nat) : Char := Char.ofNat (48 + n)

/-- The digits of a number, most significant first and without leading zeros. -/
def digits (n : Nat) : List Char :=
  if n < 10 then [digit n] else digits (n / 10) ++ [digit (n % 10)]

/-- The digits of a number, filled up with zeros in front to a width. -/
def padded (width n : Nat) : List Char :=
  List.replicate (width - (digits n).length) '0' ++ digits n

/-- The number that a digit stands for. -/
def digitValue (c : Char) : Nat := c.toNat - 48

/-- The number with the given digits. -/
def value (cs : List Char) : Nat := cs.foldl (fun n c => n * 10 + digitValue c) 0

/-- The number written by a non-empty text of digits. -/
def parse? (cs : List Char) : Option Nat :=
  if cs.isEmpty then none
  else if cs.all Char.isDigit then some (value cs)
  else none

def text (n : Nat) : String := String.ofList (digits n)

/-- The digits of an integer, behind a minus sign when it is negative. -/
def integer (n : Int) : List Char :=
  if n < 0 then '-' :: digits n.natAbs else digits n.natAbs

end StreamBroker.Decimal
