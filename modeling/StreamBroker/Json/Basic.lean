/-!
# JSON values

Documents as trees.  Only integers are kept as numbers; a number with a fraction or an exponent is
kept by its text, because no document of this library holds one.  Members of an object stay in the
order in which they were written.  A document that was read may hold texts without characters,
because their octets are not UTF-8 or their escapes are halves of a character; nothing can be done
with them but to ignore them.

## Main definitions

* `Json`: a document.
* `Json.ofNat`, `Json.ofOption`, `Json.strings`: documents for common values.
* `Json.mapTexts`: a document with its texts changed.
-/

namespace StreamBroker

/-- A JSON document. -/
inductive Json where
  | null
  | bool (b : Bool)
  /-- A number without fraction and exponent. -/
  | int (n : Int)
  /-- Any other number, as written. -/
  | decimal (text : String)
  | str (s : String)
  /-- A text that has no characters, or an object with such a name. -/
  | garbled
  | arr (items : List Json)
  | obj (members : List (String × Json))
  deriving Repr, Inhabited

namespace Json

def ofNat (n : Nat) : Json := .int n

/-- A value that may be missing, as `null` when it is. -/
def ofOption {α : Type} (f : α → Json) : Option α → Json
  | none => .null
  | some a => f a

def strings (texts : List String) : Json := .arr (texts.map .str)

/-- The members with a name, in order. -/
def membersNamed (name : String) (members : List (String × Json)) : List Json :=
  (members.filter fun m => m.1 == name).map (·.2)

/-- The member of an object with a name; of several the last. -/
def member? (name : String) : Json → Option Json
  | .obj members => (membersNamed name members).getLast?
  | _ => none

mutual

/-- The same document with every text and every name of a member changed. -/
def mapTexts (f : String → String) : Json → Json
  | .str s => .str (f s)
  | .arr items => .arr (mapItems f items)
  | .obj members => .obj (mapMembers f members)
  | v => v

/-- The same items with every text changed. -/
def mapItems (f : String → String) : List Json → List Json
  | [] => []
  | v :: vs => mapTexts f v :: mapItems f vs

/-- The same members with every text changed. -/
def mapMembers (f : String → String) : List (String × Json) → List (String × Json)
  | [] => []
  | (name, v) :: ms => (f name, mapTexts f v) :: mapMembers f ms

end

end Json

end StreamBroker
