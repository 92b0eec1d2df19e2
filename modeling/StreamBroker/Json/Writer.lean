import StreamBroker.Json.Basic
import StreamBroker.Text.Bytes
import StreamBroker.Text.Decimal

/-!
# Writing JSON

Documents are written without white space.  In a text only the quote, the reverse solidus and the
control characters below the blank are escaped; every other character stands for itself.  What is
garbled is written as `null`.

## Main definitions

* `Json.escape`: the written form of a character inside a text.
* `Json.write`: the characters of a document.
* `Json.compact`: the text of a document.
-/

namespace StreamBroker.Json

/-- The written form of a character inside a text. -/
def escape (c : Char) : List Char :=
  if c = '"' then ['\\', '"']
  else if c = '\\' then ['\\', '\\']
  else if c = '\n' then ['\\', 'n']
  else if c = '\r' then ['\\', 'r']
  else if c = '\t' then ['\\', 't']
  else if c = '\x08' then ['\\', 'b']
  else if c = '\x0c' then ['\\', 'f']
  else if c.toNat < 0x20 then
    ['\\', 'u', '0', '0', Bytes.hexDigit (c.toNat / 16), Bytes.hexDigit (c.toNat % 16)]
  else [c]

def quote (s : String) : List Char := '"' :: s.toList.flatMap escape ++ ['"']

mutual

def write : Json → List Char
  | .null | .garbled => ['n', 'u', 'l', 'l']
  | .bool true => ['t', 'r', 'u', 'e']
  | .bool false => ['f', 'a', 'l', 's', 'e']
  | .int n => Decimal.integer n
  | .decimal text => text.toList
  | .str s => quote s
  | .arr items => '[' :: writeItems items ++ [']']
  | .obj members => '\x7b' :: writeMembers members ++ ['\x7d']

/-- The items of an array with commas between them. -/
def writeItems : List Json → List Char
  | [] => []
  | [v] => write v
  | v :: w :: vs => write v ++ ',' :: writeItems (w :: vs)

/-- The members of an object with commas between them. -/
def writeMembers : List (String × Json) → List Char
  | [] => []
  | [(name, v)] => quote name ++ ':' :: write v
  | (name, v) :: m :: ms => quote name ++ ':' :: write v ++ ',' :: writeMembers (m :: ms)

end

def compact (v : Json) : String := String.ofList (write v)

end StreamBroker.Json
