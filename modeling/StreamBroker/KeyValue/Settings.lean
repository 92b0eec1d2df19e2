import StreamBroker.Settings.Stream

/-!
# Settings of a key-value bucket

A bucket is a stream whose name and subjects are made from the name of the bucket; its settings are
those of the stream that are left open.

## Main definitions

* `KeyValueSettings`: the settings.
* `KeyValueSettings.streamSettings`: the settings of the stream of a bucket.
* `checkBucket`, `checkKey`, `checkKeyPattern`: what may name buckets and keys.
-/

namespace StreamBroker

open Json.Decoder Json.RecordDecoder

/-- The settings of a key-value bucket. -/
structure KeyValueSettings where
  bucket : String := ""
  description : Option String := none
  /-- How many revisions of a key are kept. -/
  history : Nat := 1
  maxAge : Option Duration := none
  maxBytes : Option Nat := none
  maxValueSize : Option Nat := none
  /-- Where the bucket keeps its revisions. -/
  storage : StorageType := .file
  deriving DecidableEq, Repr, Inhabited

/-- What a revision of a key records. -/
inductive KeyOperation where
  /-- A value was written. -/
  | put
  /-- The key was deleted. -/
  | delete
  /-- The key was deleted with its older revisions. -/
  | purge
  deriving DecidableEq, Repr, Inhabited

/-- The names of the operations. -/
def KeyOperation.choices : List (String × KeyOperation) :=
  [("put", put), ("delete", delete), ("purge", purge)]

/-- How many revisions a bucket can keep of a key. -/
def maxHistory : Nat := 64

/-- Whether a character may stand in the name of a bucket. -/
def isBucketChar (c : Char) : Bool := Text.isAsciiAlphanumeric c || c == '_' || c == '-'

/-- Accepts the names of buckets: letters, digits, underscores and hyphens. -/
def checkBucket (bucket : String) : Except Error Unit :=
  if bucket.isEmpty || !bucket.toList.all isBucketChar then
    .error (.invalidConfig s!"invalid bucket name '{bucket}'")
  else .ok ()

/-- Whether a character may stand in a token of a key. -/
def isKeyChar (c : Char) : Bool :=
  Text.isAsciiAlphanumeric c || c == '-' || c == '/' || c == '_' || c == '='

/-- Whether a text is a token of a key. -/
def isKeyToken (t : Token) : Bool := !t.isEmpty && t.all isKeyChar

/-- Accepts the keys: tokens of letters, digits and a few signs. -/
def checkKey (key : String) : Except Error Unit :=
  if (tokens key).all isKeyToken then .ok () else .error (.invalidKey key)

/-- Accepts the patterns of keys: a token may be a wildcard. -/
def checkKeyPattern (pattern : String) : Except Error Unit :=
  if (tokens pattern).all fun t => t == Token.star || t == Token.rest || isKeyToken t then .ok ()
  else .error (.invalidKeyPattern pattern)

namespace KeyValueSettings

def streamName (bucket : String) : String := "KV_" ++ bucket

/-- What the subjects of the keys of a bucket begin with. -/
def keyPrefix (bucket : String) : String := "$KV." ++ bucket ++ "."

/-- The settings of the stream of a bucket. -/
def streamSettings (s : KeyValueSettings) : Except Error StreamSettings := do
  checkBucket s.bucket
  if s.history = 0 ∨ maxHistory < s.history then
    throw (.invalidConfig ("history must be between 1 and " ++ Decimal.text maxHistory))
  pure { name := streamName s.bucket
         description := s.description
         subjects := [keyPrefix s.bucket ++ ">"]
         storage := s.storage
         discard := .new
         maxAge := s.maxAge
         maxBytes := s.maxBytes
         maxMessageSize := s.maxValueSize
         maxMessagesPerSubject := some s.history }

def toJson (s : KeyValueSettings) : Json :=
  .obj [("bucket", .str s.bucket), ("description", .ofOption .str s.description),
    ("history", .ofNat s.history), ("max_age", .ofOption .ofDuration s.maxAge),
    ("max_bytes", .ofOption .ofNat s.maxBytes),
    ("max_value_size", .ofOption .ofNat s.maxValueSize),
    ("storage", .choiceName StorageType.choices s.storage)]

/-- Reads settings; what a document leaves out has its default. -/
def decode : Json.Decoder KeyValueSettings :=
  let d : KeyValueSettings := {}
  Json.record (mk
    <$> defaulted "bucket" text d.bucket
    <*> defaulted "description" (option text) d.description
    <*> defaulted "history" word d.history
    <*> defaulted "max_age" (option duration) d.maxAge
    <*> defaulted "max_bytes" (option word) d.maxBytes
    <*> defaulted "max_value_size" (option word) d.maxValueSize
    <*> defaulted "storage" (choice StorageType.choices) d.storage)

end KeyValueSettings

end StreamBroker
