import StreamBroker.Json.Basic
import StreamBroker.Text.Bytes
import StreamBroker.Text.Decimal

/-!
# Reading JSON

A document is read octet by octet, with the character of its number standing for each octet.  A
reader takes octets from the front and returns what it read with the octets behind it.  Documents
nest, so the readers of values, items and members call each other with one step less at every
call; the number of octets always suffices as the number of steps.

What stands between the quotes of a text is read first and turned into characters afterwards.  A
text that has no characters is garbled, and so is an object with a garbled name; neither spoils the
document around it.

## Main definitions

* `Json.readString?`, `Json.readNumber?`: the leaves.
* `Json.readValue?`: a document and what is behind it.
* `Json.parseBytes?`, `Json.parse?`: a document that fills octets or a text.
-/

namespace StreamBroker.Json

/-- Whether a character is white space between the parts of a document. -/
def isSpace (c : Char) : Bool := c == ' ' || c == '\n' || c == '\t' || c == '\r'

/-- The text without the white space at its front. -/
def skipSpace (cs : List Char) : List Char := cs.dropWhile isSpace

/-! ## Texts -/

/-- The value of a hexadecimal digit. -/
def hexValue? (c : Char) : Option Nat :=
  if c.isDigit then some (c.toNat - 48)
  else if 'a' ≤ c ∧ c ≤ 'f' then some (c.toNat - 87)
  else if 'A' ≤ c ∧ c ≤ 'F' then some (c.toNat - 55)
  else none

/-- The value of four hexadecimal digits. -/
def hexWord? (a b c d : Char) : Option Nat := do
  let a ← hexValue? a
  let b ← hexValue? b
  let c ← hexValue? c
  let d ← hexValue? d
  some (((a * 16 + b) * 16 + c) * 16 + d)

/-- The octet of an escape with one letter. -/
def escaped? : Char → Option UInt8
  | '"' => some 0x22
  | '\\' => some 0x5c
  | '/' => some 0x2f
  | 'b' => some 0x08
  | 'f' => some 0x0c
  | 'n' => some 0x0a
  | 'r' => some 0x0d
  | 't' => some 0x09
  | _ => none

/-- A part of a text. -/
inductive Piece where
  | octet (b : UInt8)
  /-- Sixteen bits of an escape in digits: a character, or half of one outside the first plane. -/
  | unit (n : Nat)
  deriving DecidableEq, Repr

/-- The rest of a text behind its opening quote, behind the pieces that were read before in
reverse order, and what is behind the closing quote. -/
def readPieces? : List Piece → List Char → Option (List Piece × List Char)
  | done, '"' :: cs => some (done.reverse, cs)
  | done, '\\' :: 'u' :: a :: b :: c :: d :: cs => do
    let n ← hexWord? a b c d
    readPieces? (.unit n :: done) cs
  | done, '\\' :: c :: cs => do
    let b ← escaped? c
    readPieces? (.octet b :: done) cs
  | done, c :: cs =>
    if c.toNat < 0x20 ∨ c = '\\' then none
    else readPieces? (.octet (UInt8.ofNat c.toNat) :: done) cs
  | _, [] => none

/-- Whether sixteen bits are the first half of a character. -/
def isHighHalf (n : Nat) : Bool := decide (0xD800 ≤ n) && decide (n < 0xDC00)

/-- Whether sixteen bits are the second half of a character. -/
def isLowHalf (n : Nat) : Bool := decide (0xDC00 ≤ n) && decide (n < 0xE000)

/-- The octets of the character of a number in front of others, all in reverse order. -/
def pushCharacter (n : Nat) (done : Bytes) : Bytes :=
  (Bytes.ofText (String.singleton (Char.ofNat n))).reverse ++ done

/-- The octets of pieces, behind others in reverse order.  Halves have to come in pairs. -/
def octets? : Bytes → List Piece → Option Bytes
  | done, [] => some done.reverse
  | done, .octet b :: ps => octets? (b :: done) ps
  | done, .unit a :: .unit b :: ps =>
    if isHighHalf a then
      if isLowHalf b then
        octets? (pushCharacter (0x10000 + (a - 0xD800) * 0x400 + (b - 0xDC00)) done) ps
      else none
    else if isLowHalf a then none
    else octets? (pushCharacter a done) (.unit b :: ps)
  | done, .unit a :: ps =>
    if isHighHalf a || isLowHalf a then none else octets? (pushCharacter a done) ps

/-- The characters of pieces, unless they are garbled. -/
def textOfPieces? (ps : List Piece) : Option String := do
  let octets ← octets? [] ps
  Bytes.toText? octets

/-- A text behind its opening quote, unless it is garbled. -/
def readString? (cs : List Char) : Option (Option String × List Char) :=
  (readPieces? [] cs).map fun (ps, cs) => (textOfPieces? ps, cs)

def ofText : Option String → Json
  | some s => .str s
  | none => .garbled

def ofMembers (members : List (Option String × Json)) : Json :=
  match members.mapM fun m => m.1.map fun name => (name, m.2) with
  | some members => .obj members
  | none => .garbled

/-! ## Numbers -/

/-- Digits, at least one, and what is behind them. -/
def readDigits? (cs : List Char) : Option (List Char × List Char) :=
  let digits := cs.takeWhile Char.isDigit
  if digits.isEmpty then none else some (digits, cs.dropWhile Char.isDigit)

/-- The point and the digits of a fraction, if there is one. -/
def readFraction? (cs : List Char) : Option (List Char × List Char) :=
  match cs with
  | '.' :: cs => (readDigits? cs).map fun (digits, cs) => ('.' :: digits, cs)
  | cs => some ([], cs)

/-- The letter, the sign and the digits of an exponent, if there is one. -/
def readExponent? (cs : List Char) : Option (List Char × List Char) :=
  match cs with
  | e :: cs' =>
    if e = 'e' ∨ e = 'E' then
      match cs' with
      | s :: cs'' =>
        if s = '+' ∨ s = '-' then
          (readDigits? cs'').map fun (digits, cs) => (e :: s :: digits, cs)
        else (readDigits? cs').map fun (digits, cs) => (e :: digits, cs)
      | [] => none
    else some ([], cs)
  | [] => some ([], [])

/-- A number: no zero in front of other digits.  Minus zero counts as a number with a fraction. -/
def readNumber? (cs : List Char) : Option (Json × List Char) := do
  let (sign, cs) := match cs with
    | '-' :: cs => (['-'], cs)
    | cs => ([], cs)
  let (digits, cs) ← readDigits? cs
  if digits.head? = some '0' ∧ digits.length ≠ 1 then none
  else
    let (fraction, cs) ← readFraction? cs
    let (exponent, cs) ← readExponent? cs
    let n := Decimal.value digits
    if fraction.isEmpty ∧ exponent.isEmpty ∧ ¬(sign ≠ [] ∧ n = 0) then
      some (.int (if sign.isEmpty then n else -(n : Int)), cs)
    else some (.decimal (String.ofList (sign ++ digits ++ fraction ++ exponent)), cs)

/-! ## Documents -/

mutual

/-- A document, with white space allowed in front of it. -/
def readValue? : Nat → List Char → Option (Json × List Char)
  | 0, _ => none
  | steps + 1, cs =>
    match skipSpace cs with
    | 'n' :: 'u' :: 'l' :: 'l' :: cs => some (.null, cs)
    | 't' :: 'r' :: 'u' :: 'e' :: cs => some (.bool true, cs)
    | 'f' :: 'a' :: 'l' :: 's' :: 'e' :: cs => some (.bool false, cs)
    | '"' :: cs => (readString? cs).map fun (s, cs) => (ofText s, cs)
    | '[' :: cs =>
      match skipSpace cs with
      | ']' :: cs => some (.arr [], cs)
      | cs => (readItems? steps cs).map fun (items, cs) => (.arr items, cs)
    | '\x7b' :: cs =>
      match skipSpace cs with
      | '\x7d' :: cs => some (.obj [], cs)
      | cs => (readMembers? steps cs).map fun (members, cs) => (ofMembers members, cs)
    | cs => readNumber? cs

/-- The items of an array up to its closing bracket. -/
def readItems? : Nat → List Char → Option (List Json × List Char)
  | 0, _ => none
  | steps + 1, cs => do
    let (v, cs) ← readValue? steps cs
    match skipSpace cs with
    | ',' :: cs => (readItems? steps cs).map fun (vs, cs) => (v :: vs, cs)
    | ']' :: cs => some ([v], cs)
    | _ => none

/-- The members of an object up to its closing brace, with the names that are not garbled. -/
def readMembers? : Nat → List Char → Option (List (Option String × Json) × List Char)
  | 0, _ => none
  | steps + 1, cs =>
    match skipSpace cs with
    | '"' :: cs => do
      let (name, cs) ← readString? cs
      match skipSpace cs with
      | ':' :: cs => do
        let (v, cs) ← readValue? steps cs
        match skipSpace cs with
        | ',' :: cs => (readMembers? steps cs).map fun (ms, cs) => ((name, v) :: ms, cs)
        | '\x7d' :: cs => some ([(name, v)], cs)
        | _ => none
      | _ => none
    | _ => none

end

/-- The document that fills octets. -/
def parseBytes? (octets : Bytes) : Option Json := do
  let cs := octets.map fun b => Char.ofNat b.toNat
  let (v, cs) ← readValue? (cs.length + 1) cs
  if (skipSpace cs).isEmpty then some v else none

/-- The document that fills a text. -/
def parse? (text : String) : Option Json := parseBytes? (Bytes.ofText text)

end StreamBroker.Json
