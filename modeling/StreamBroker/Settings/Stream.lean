import StreamBroker.Json.Record
import StreamBroker.Error

/-!
# Settings of a stream

The name of a stream, the subjects that it takes, where it keeps its messages and when it lets them
go; the requests that are made of a stream; and what a stream says about itself.

## Main definitions

* `StreamSettings`: the settings.
* `StreamSettings.boundSubjects`: the patterns of the subjects that a stream takes.
* `StreamSettings.check`: refuses settings that no stream can have.
* `PurgeRequest`, `Expectations`: requests.
* `StreamState`, `StreamInfo`: what a stream says about itself.
-/

namespace StreamBroker

open Json.Decoder Json.RecordDecoder

/-- Where a stream keeps its messages. -/
inductive StorageType where
  /-- In the log store, and so across a restart. -/
  | file
  /-- In memory only. -/
  | memory
  deriving DecidableEq, Repr, Inhabited

/-- What a stream keeps its messages for. -/
inductive RetentionPolicy where
  /-- Until a limit is exceeded. -/
  | limits
  /-- As long as a consumer needs them. -/
  | interest
  /-- Until one consumer has settled them. -/
  | workQueue
  deriving DecidableEq, Repr, Inhabited

/-- What goes when a stream is full. -/
inductive DiscardPolicy where
  /-- The oldest messages. -/
  | old
  /-- The new message. -/
  | new
  deriving DecidableEq, Repr, Inhabited

/-- The names of the places for messages. -/
def StorageType.choices : List (String × StorageType) := [("file", file), ("memory", memory)]

/-- The names of the retention policies. -/
def RetentionPolicy.choices : List (String × RetentionPolicy) :=
  [("limits", limits), ("interest", interest), ("work_queue", workQueue)]

/-- The names of the discard policies. -/
def DiscardPolicy.choices : List (String × DiscardPolicy) := [("old", old), ("new", new)]

/-- The settings of a stream. -/
structure StreamSettings where
  name : String := ""
  description : Option String := none
  /-- The patterns of the subjects that the stream takes; with none it takes its name. -/
  subjects : List String := []
  /-- What the stream keeps its messages for. -/
  retention : RetentionPolicy := .limits
  /-- Where the stream keeps its messages. -/
  storage : StorageType := .file
  /-- What goes when the stream is full. -/
  discard : DiscardPolicy := .old
  maxMessages : Option Nat := none
  maxBytes : Option Nat := none
  maxAge : Option Duration := none
  maxMessagesPerSubject : Option Nat := none
  maxMessageSize : Option Nat := none
  deriving DecidableEq, Repr, Inhabited

/-- Whether a character may not stand in a name. -/
def isNameBreaker (c : Char) : Bool :=
  Text.isBlank c || Text.isControl c || ".*>/\\".toList.contains c

/-- Refuses names that no stream and no consumer can have. -/
def checkName (name : String) : Except Error Unit :=
  if name.isEmpty then .error (.invalidConfig "name cannot be empty")
  else if name.toList.any isNameBreaker then
    .error (.invalidConfig s!"name '{name}' contains invalid characters")
  else .ok ()

/-- Accepts the patterns, with the error of a broker for other texts. -/
def checkFilter (pattern : String) : Except Error Unit :=
  (checkPattern pattern).mapError .invalidSubject

/-- Accepts the subjects, with the error of a broker for other texts. -/
def checkLiteralSubject (subject : String) : Except Error Unit :=
  (checkSubject subject).mapError .invalidSubject

/-- Refuses limits of zero; the first is reported. -/
def checkPositive : List (String × Option Nat) → Except Error Unit
  | [] => .ok ()
  | (field, value) :: more =>
    if value = some 0 then .error (.invalidConfig (field ++ " must be positive"))
    else checkPositive more

/-- Accepts lists of patterns only. -/
def checkPatterns : List String → Except Error Unit
  | [] => .ok ()
  | p :: ps => do
    checkFilter p
    checkPatterns ps

/-- Accepts lists of patterns of which no two stand for a common subject. -/
def checkDisjoint : List String → Except Error Unit
  | [] => .ok ()
  | a :: rest =>
    match rest.find? (patternsOverlap a) with
    | some b => .error (.invalidConfig s!"stream subjects '{a}' and '{b}' overlap")
    | none => checkDisjoint rest

namespace StreamSettings

/-- The patterns of the subjects that a stream takes: those that are set, or its name. -/
def boundSubjects (s : StreamSettings) : List String :=
  if s.subjects.isEmpty then [s.name] else s.subjects

def takes (s : StreamSettings) (subject : String) : Bool :=
  s.boundSubjects.any (subjectMatches subject)

/-- Whether a stream takes all subjects of a pattern through one of its own. -/
def holds (s : StreamSettings) (filter : String) : Bool :=
  s.boundSubjects.any (patternIsSubset filter)

/-- Refuses settings that no stream can have. -/
def check (s : StreamSettings) : Except Error Unit := do
  checkName s.name
  checkPatterns s.boundSubjects
  checkDisjoint s.boundSubjects
  checkPositive [("max_messages", s.maxMessages), ("max_bytes", s.maxBytes),
    ("max_messages_per_subject", s.maxMessagesPerSubject),
    ("max_message_size", s.maxMessageSize)]
  if s.maxAge = some Duration.zero then throw (.invalidConfig "max_age must be positive")

def toJson (s : StreamSettings) : Json :=
  .obj [("name", .str s.name),
    ("description", .ofOption .str s.description),
    ("subjects", .strings s.subjects),
    ("retention", .choiceName RetentionPolicy.choices s.retention),
    ("storage", .choiceName StorageType.choices s.storage),
    ("discard", .choiceName DiscardPolicy.choices s.discard),
    ("max_messages", .ofOption .ofNat s.maxMessages),
    ("max_bytes", .ofOption .ofNat s.maxBytes),
    ("max_age", .ofOption .ofDuration s.maxAge),
    ("max_messages_per_subject", .ofOption .ofNat s.maxMessagesPerSubject),
    ("max_message_size", .ofOption .ofNat s.maxMessageSize)]

/-- Reads settings; what a document leaves out has its default. -/
def decode : Json.Decoder StreamSettings :=
  let d : StreamSettings := {}
  Json.record (mk
    <$> defaulted "name" text d.name
    <*> defaulted "description" (option text) d.description
    <*> defaulted "subjects" (list text) d.subjects
    <*> defaulted "retention" (choice RetentionPolicy.choices) d.retention
    <*> defaulted "storage" (choice StorageType.choices) d.storage
    <*> defaulted "discard" (choice DiscardPolicy.choices) d.discard
    <*> defaulted "max_messages" (option word) d.maxMessages
    <*> defaulted "max_bytes" (option word) d.maxBytes
    <*> defaulted "max_age" (option duration) d.maxAge
    <*> defaulted "max_messages_per_subject" (option word) d.maxMessagesPerSubject
    <*> defaulted "max_message_size" (option word) d.maxMessageSize)

end StreamSettings

/-! ## Requests -/

/-- Which messages a purge removes. -/
structure PurgeRequest where
  /-- Only those of these subjects. -/
  filter : Option String := none
  /-- All but so many of the newest. -/
  keep : Option Nat := none
  /-- Only those below a number. -/
  sequence : Option Nat := none
  deriving DecidableEq, Repr, Inhabited

namespace PurgeRequest

def toJson (r : PurgeRequest) : Json :=
  .obj [("filter", .ofOption .str r.filter), ("keep", .ofOption .ofNat r.keep),
    ("sequence", .ofOption .ofNat r.sequence)]

def decode : Json.Decoder PurgeRequest :=
  Json.record (mk
    <$> defaulted "filter" (option text) none
    <*> defaulted "keep" (option word) none
    <*> defaulted "sequence" (option word) none)

end PurgeRequest

/-- What a publisher expects of the stream that stores its message. -/
structure Expectations where
  /-- Its name. -/
  stream : Option String := none
  /-- The number of its last message. -/
  lastSequence : Option Nat := none
  /-- The number of its last message of the subject, zero for none. -/
  lastSubjectSequence : Option Nat := none
  deriving DecidableEq, Repr, Inhabited

namespace Expectations

def toJson (e : Expectations) : Json :=
  .obj [("expected_stream", .ofOption .str e.stream),
    ("expected_last_sequence", .ofOption .ofNat e.lastSequence),
    ("expected_last_subject_sequence", .ofOption .ofNat e.lastSubjectSequence)]

def decode : Json.Decoder Expectations :=
  Json.record (mk
    <$> defaulted "expected_stream" (option text) none
    <*> defaulted "expected_last_sequence" (option word) none
    <*> defaulted "expected_last_subject_sequence" (option word) none)

end Expectations

/-- Where a published message was stored. -/
structure PublishAck where
  stream : String
  sequence : Nat
  deriving DecidableEq, Repr

namespace PublishAck

def toJson (a : PublishAck) : Json :=
  .obj [("stream", .str a.stream), ("sequence", .ofNat a.sequence)]

def decode : Json.Decoder PublishAck :=
  Json.record (mk <$> required "stream" text <*> required "sequence" word)

end PublishAck

/-- Where a feed begins. -/
inductive WatchStart where
  /-- With the next message. -/
  | new
  /-- With the newest message of every subject. -/
  | lastPerSubject
  /-- With the oldest message. -/
  | all
  deriving DecidableEq, Repr, Inhabited

/-- The names of the beginnings. -/
def WatchStart.choices : List (String × WatchStart) :=
  [("new", new), ("last_per_subject", lastPerSubject), ("all", all)]

/-! ## What a stream says about itself -/

/-- The counters of a stream. -/
structure StreamState where
  messages : Nat
  /-- How many octets they count for. -/
  bytes : Nat
  /-- The number of the first message, or of the next one when there is none. -/
  firstSequence : Nat
  firstTimestamp : Option Timestamp
  /-- The highest number ever given. -/
  lastSequence : Nat
  lastTimestamp : Option Timestamp
  /-- How many subjects there are messages of. -/
  numSubjects : Nat
  /-- How many numbers between the first and the last are without message. -/
  numDeleted : Nat
  consumerCount : Nat
  /-- How many messages there are of each subject, when asked for. -/
  subjects : Option (List (String × Nat))
  deriving DecidableEq, Repr

namespace StreamState

def toJson (s : StreamState) : Json :=
  .obj [("messages", .ofNat s.messages), ("bytes", .ofNat s.bytes),
    ("first_sequence", .ofNat s.firstSequence),
    ("first_timestamp", .ofOption .ofTimestamp s.firstTimestamp),
    ("last_sequence", .ofNat s.lastSequence),
    ("last_timestamp", .ofOption .ofTimestamp s.lastTimestamp),
    ("num_subjects", .ofNat s.numSubjects), ("num_deleted", .ofNat s.numDeleted),
    ("consumer_count", .ofNat s.consumerCount),
    ("subjects", .ofOption (fun m => .obj (m.map fun e => (e.1, .ofNat e.2))) s.subjects)]

/-- Reads counts by name; of a name that is written twice the last count holds. -/
def decodeCounts : Json.Decoder (List (String × Nat))
  | .obj members => do
    let counts ← members.mapM fun m => do
      let n ← word m.2
      pure (m.1, n)
    pure (counts.foldl (fun done m => done.filter (fun e => e.1 != m.1) ++ [m]) [])
  | _ => .error .mismatch

def decode : Json.Decoder StreamState :=
  Json.record (mk
    <$> required "messages" word
    <*> required "bytes" word
    <*> required "first_sequence" word
    <*> nullable "first_timestamp" timestamp
    <*> required "last_sequence" word
    <*> nullable "last_timestamp" timestamp
    <*> required "num_subjects" word
    <*> required "num_deleted" word
    <*> required "consumer_count" word
    <*> nullable "subjects" decodeCounts)

end StreamState

/-- What a stream says about itself. -/
structure StreamInfo where
  settings : StreamSettings
  created : Timestamp
  state : StreamState
  deriving DecidableEq, Repr

namespace StreamInfo

def toJson (i : StreamInfo) : Json :=
  .obj [("config", i.settings.toJson), ("created", .ofTimestamp i.created),
    ("state", i.state.toJson)]

def decode : Json.Decoder StreamInfo :=
  Json.record (mk
    <$> required "config" StreamSettings.decode
    <*> required "created" timestamp
    <*> required "state" StreamState.decode)

end StreamInfo

end StreamBroker
