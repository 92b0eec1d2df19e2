import StreamBroker.KeyValue.Settings

/-!
# Settings of an object bucket

An object bucket is a stream whose name and subjects are made from the name of the bucket; its
settings are those of the stream that are left open.

## Main definitions

* `ObjectBucketSettings`: the settings.
* `ObjectBucketSettings.streamSettings`: the settings of the stream of a bucket.
-/

namespace StreamBroker

open Json.Decoder Json.RecordDecoder

/-- The settings of an object bucket. -/
structure ObjectBucketSettings where
  bucket : String := ""
  description : Option String := none
  maxAge : Option Duration := none
  maxBytes : Option Nat := none
  /-- Where the bucket keeps its objects. -/
  storage : StorageType := .file
  deriving DecidableEq, Repr, Inhabited

namespace ObjectBucketSettings

def streamName (bucket : String) : String := "OBJ_" ++ bucket

/-- What the subjects of the chunks of a bucket begin with. -/
def chunkPrefix (bucket : String) : String := "$O." ++ bucket ++ ".C."

/-- What the subjects of the descriptions of a bucket begin with. -/
def descriptionPrefix (bucket : String) : String := "$O." ++ bucket ++ ".M."

def streamSettings (s : ObjectBucketSettings) : Except Error StreamSettings := do
  checkBucket s.bucket
  pure { name := streamName s.bucket
         description := s.description
         subjects := [chunkPrefix s.bucket ++ ">", descriptionPrefix s.bucket ++ ">"]
         storage := s.storage
         discard := .new
         maxAge := s.maxAge
         maxBytes := s.maxBytes }

def toJson (s : ObjectBucketSettings) : Json :=
  .obj [("bucket", .str s.bucket), ("description", .ofOption .str s.description),
    ("max_age", .ofOption .ofDuration s.maxAge), ("max_bytes", .ofOption .ofNat s.maxBytes),
    ("storage", .choiceName StorageType.choices s.storage)]

/-- Reads settings; what a document leaves out has its default. -/
def decode : Json.Decoder ObjectBucketSettings :=
  let d : ObjectBucketSettings := {}
  Json.record (mk
    <$> defaulted "bucket" text d.bucket
    <*> defaulted "description" (option text) d.description
    <*> defaulted "max_age" (option duration) d.maxAge
    <*> defaulted "max_bytes" (option word) d.maxBytes
    <*> defaulted "storage" (choice StorageType.choices) d.storage)

end ObjectBucketSettings

end StreamBroker
