import StreamBroker.Json.Basic
import StreamBroker.Duration.Text
import StreamBroker.Timestamp.Text

/-!
# Records in JSON

A record is written as an object with a member for each field, in the order of the fields.  It is
read from an object in any order, members without a field are ignored, and a field may be written
only once; a record may also be written as the array of its fields in order.

A document that does not fit is refused for one of two causes.  A document may hold several of
them, and the one that stands first decides; a field that is missing is noticed behind all others.

## Main definitions

* `Json.Decoder`: reads a value from a document, or tells why there is none.
* `Json.RecordDecoder`: reads the fields of a record; combined by `<$>` and `<*>`.
* `Json.RecordDecoder.required`, `nullable`, `defaulted`: reads one field.
* `Json.record`: reads a record.

## Main results

* `Json.RecordDecoder.names_seq`: a combination has the fields of its parts, in order.
-/

namespace StreamBroker.Json

/-- Why a document does not hold the value that was asked for. -/
inductive Misfit where
  /-- It holds something else. -/
  | mismatch
  /-- It holds a duration that overflows when it is added up. -/
  | overflow
  deriving DecidableEq, Repr

/-- A way to read a value from a document. -/
abbrev Decoder (α : Type) := Json → Except Misfit α

/-! ## Values -/

/-- A number of sixty-four bits. -/
def toWord? : Json → Option Nat
  | .int n => if 0 ≤ n ∧ n < wordLimit then some n.toNat else none
  | _ => none

def toText? : Json → Option String
  | .str s => some s
  | _ => none

def toBool? : Json → Option Bool
  | .bool b => some b
  | _ => none

namespace Decoder

/-- A value that is there, or a mismatch. -/
def ofOption {α : Type} : Option α → Except Misfit α
  | some a => .ok a
  | none => .error .mismatch

def word : Decoder Nat := fun v => ofOption v.toWord?

def text : Decoder String := fun v => ofOption v.toText?

def bool : Decoder Bool := fun v => ofOption v.toBool?

def octet : Decoder UInt8
  | .int n => if 0 ≤ n ∧ n < 256 then .ok (UInt8.ofNat n.toNat) else .error .mismatch
  | _ => .error .mismatch

def duration : Decoder Duration
  | .str s =>
    match Duration.parse s with
    | .ok d => .ok d
    | .error .malformed => .error .mismatch
    | .error .overflow => .error .overflow
  | _ => .error .mismatch

def timestamp : Decoder Timestamp
  | .str s => ofOption (Timestamp.parse? s)
  | _ => .error .mismatch

def list {α : Type} (f : Decoder α) : Decoder (List α)
  | .arr items => items.mapM f
  | _ => .error .mismatch

/-- A pair, written as an array of two. -/
def pair {α β : Type} (f : Decoder α) (g : Decoder β) : Decoder (α × β)
  | .arr [a, b] => do
    let a ← f a
    let b ← g b
    pure (a, b)
  | _ => .error .mismatch

/-- A value that may be missing, `null` when it is. -/
def option {α : Type} (f : Decoder α) : Decoder (Option α)
  | .null => .ok none
  | v => (f v).map some

/-- A choice among names: the name itself, or an object with the name as its only member and
`null` behind it. -/
def choice {α : Type} (choices : List (String × α)) : Decoder α
  | .str s => ofOption (choices.lookup s)
  | .obj [(s, .null)] => ofOption (choices.lookup s)
  | _ => .error .mismatch

end Decoder

/-- The name of a value among choices. -/
def choiceName {α : Type} [BEq α] (choices : List (String × α)) (a : α) : Json :=
  .str (((choices.find? fun c => c.2 == a).map (·.1)).getD "")

def ofDuration (d : Duration) : Json := .str d.render

def ofTimestamp (t : Timestamp) : Json := .str t.render

/-! ## Fields -/

/-- The fields of a record as a document gives them. -/
structure Fields where
  /-- The fields with their names, in the order of the document. -/
  members : List (String × Json)
  /-- Whether the document is an array, which gives the fields by their places. -/
  isArray : Bool

namespace Fields

/-- A field and its place among the fields of the document; of several the first. -/
def find? (fields : Fields) (name : String) : Option (Nat × Json) :=
  (fields.members.zipIdx.find? fun m => m.1.1 == name).map fun m => (m.2, m.1.2)

/-- The place behind all fields of the document. -/
def behind (fields : Fields) : Nat := fields.members.length

/-- The place of the first field that was written before. -/
def repetition? (fields : Fields) : Option Nat :=
  let names := fields.members.map (·.1)
  (names.zipIdx.find? fun m => (names.take m.2).contains m.1).map (·.2)

end Fields

/-- A cause of refusal with the place of the field that it stands in. -/
abbrev MisfitAt := Nat × Misfit

/-- Of two causes the one that stands first. -/
def MisfitAt.first (a b : MisfitAt) : MisfitAt := if b.1 < a.1 then b else a

/-- A way to read the fields of a record. -/
structure RecordDecoder (α : Type) where
  /-- The names of the fields, in order. -/
  names : List String
  /-- Reads the fields, or tells the first cause of refusal. -/
  run : Fields → Except MisfitAt α

namespace RecordDecoder

/-- Nothing more to read. -/
def pure {α : Type} (a : α) : RecordDecoder α := ⟨[], fun _ => .ok a⟩

/-- Reads two parts of a record and joins them. -/
def seq {α β : Type} (f : RecordDecoder (α → β)) (x : RecordDecoder α) : RecordDecoder β where
  names := f.names ++ x.names
  run fields :=
    match f.run fields, x.run fields with
    | .ok f, .ok a => .ok (f a)
    | .error e, .ok _ => .error e
    | .ok _, .error e => .error e
    | .error e, .error e' => .error (e.first e')

instance : Applicative RecordDecoder where
  pure := pure
  seq f x := seq f (x ())

@[simp] theorem names_seq {α β : Type} (f : RecordDecoder (α → β)) (x : RecordDecoder α) :
    (f <*> x).names = f.names ++ x.names := rfl

/-- A field that has to be written. -/
def required {α : Type} (name : String) (f : Decoder α) : RecordDecoder α where
  names := [name]
  run fields :=
    match fields.find? name with
    | some (place, v) => (f v).mapError (place, ·)
    | none => .error (fields.behind, .mismatch)

/-- A field with a value for when it is not written. -/
def defaulted {α : Type} (name : String) (f : Decoder α) (value : α) : RecordDecoder α where
  names := [name]
  run fields :=
    match fields.find? name with
    | some (place, v) => (f v).mapError (place, ·)
    | none => .ok value

/-- A field that may be `null` and that objects may leave out. -/
def nullable {α : Type} (name : String) (f : Decoder α) : RecordDecoder (Option α) where
  names := [name]
  run fields :=
    match fields.find? name with
    | some (place, v) => (f.option v).mapError (place, ·)
    | none => if fields.isArray then .error (fields.behind, .mismatch) else .ok none

end RecordDecoder

/-- A record.  An array may not have more items than there are fields. -/
def record {α : Type} (d : RecordDecoder α) : Decoder α
  | .obj members =>
    let fields : Fields := ⟨members.filter fun m => d.names.contains m.1, false⟩
    match d.run fields, fields.repetition? with
    | .ok a, none => .ok a
    | .ok _, some _ => .error .mismatch
    | .error e, none => .error e.2
    | .error e, some place => .error (e.first (place, .mismatch)).2
  | .arr items => do
    let a ← (d.run ⟨d.names.zip items, true⟩).mapError (·.2)
    if d.names.length < items.length then throw .mismatch
    pure a
  | _ => .error .mismatch

end StreamBroker.Json
