import StreamBroker.Json.Record
import StreamBroker.Json.Writer
import StreamBroker.Json.Reader

/-!
# Descriptions of objects

What an object bucket keeps about an object besides its data.  The description is stored as a JSON
document.

## Main definitions

* `ObjectLabel`: the part that users set.
* `ObjectDescription`: the whole description.
* `ObjectDescription.encode`, `ObjectDescription.ofStored?`: its stored form.
-/

namespace StreamBroker

open Json.Decoder Json.RecordDecoder

/-- What users say about an object. -/
structure ObjectLabel where
  name : String
  description : Option String := none
  deriving DecidableEq, Repr, Inhabited

namespace ObjectLabel

def toJson (l : ObjectLabel) : Json :=
  .obj [("name", .str l.name), ("description", .ofOption .str l.description)]

def decode : Json.Decoder ObjectLabel :=
  Json.record (mk <$> required "name" text <*> nullable "description" text)

end ObjectLabel

/-- What a bucket keeps about a version of an object. -/
structure ObjectDescription where
  name : String
  description : Option String
  bucket : String
  /-- What the chunks of this version are found by. -/
  nuid : String
  /-- The octets of the data. -/
  size : Nat
  /-- The chunks of the data. -/
  chunks : Nat
  modified : Timestamp
  digest : String
  deleted : Bool
  deriving DecidableEq, Repr, Inhabited

namespace ObjectDescription

/-- The part that users set. -/
def label (d : ObjectDescription) : ObjectLabel := ⟨d.name, d.description⟩

def toJson (d : ObjectDescription) : Json :=
  .obj [("name", .str d.name), ("description", .ofOption .str d.description),
    ("bucket", .str d.bucket), ("nuid", .str d.nuid), ("size", .ofNat d.size),
    ("chunks", .ofNat d.chunks), ("modified", .ofTimestamp d.modified),
    ("digest", .str d.digest), ("deleted", .bool d.deleted)]

def decode : Json.Decoder ObjectDescription :=
  Json.record (mk
    <$> required "name" text
    <*> nullable "description" text
    <*> required "bucket" text
    <*> required "nuid" text
    <*> required "size" word
    <*> required "chunks" word
    <*> required "modified" timestamp
    <*> required "digest" text
    <*> defaulted "deleted" bool false)

/-- The stored form of a description. -/
def encode (d : ObjectDescription) : Bytes := Bytes.ofText d.toJson.compact

/-- The description in a stored form. -/
def ofStored? (octets : Bytes) : Option ObjectDescription := do
  let v ← Json.parseBytes? octets
  (decode v).toOption

end ObjectDescription

end StreamBroker
