import StreamBroker.Broker.Registry
import StreamBroker.KeyValue.Settings

/-!
# Key-value buckets

A bucket is a stream in which every key is a subject and every revision of a key a message.  The
number of a revision is the number of its message.  Deletions are revisions too: messages without
payload that a header marks.

## Main definitions

* `KeyValueBucket`: a bucket and its stream.
* `KeyValueBucket.put`, `KeyValueBucket.create`, `KeyValueBucket.update`, `KeyValueBucket.delete`,
  `KeyValueBucket.purge`: a key gets a new revision.
* `KeyValueBucket.get`, `KeyValueBucket.entry`, `KeyValueBucket.keys`, `KeyValueBucket.history`:
  what a bucket holds.
* `KeyValueBucket.watch`: a feed of revisions.
-/

namespace StreamBroker

/-- A revision of a key. -/
structure KeyEntry where
  bucket : String
  key : String
  /-- The value, empty for deletions. -/
  value : Bytes
  revision : Nat
  /-- When it was written. -/
  created : Timestamp
  /-- What it records. -/
  operation : KeyOperation
  deriving DecidableEq, Repr

/-- What a bucket says about itself. -/
structure KeyValueStatus where
  bucket : String
  /-- How many revisions there are. -/
  values : Nat
  /-- How many revisions of a key are kept. -/
  history : Nat
  /-- How old a revision may be. -/
  maxAge : Option Duration
  /-- How many octets the revisions count for. -/
  bytes : Nat
  deriving DecidableEq, Repr

/-- A bucket and its stream. -/
structure KeyValueBucket where
  name : String
  stream : Nat
  deriving DecidableEq, Repr

namespace KeyValueBucket

/-! ## Creating, opening and deleting -/

/-- Creates a bucket, or finds it when it exists with the same settings. -/
def createBucket (settings : KeyValueSettings) : Action Broker KeyValueBucket := do
  let streamSettings ← settings.streamSettings
  let stream ← Broker.createStream streamSettings
  pure ⟨settings.bucket, stream⟩

def find (b : Broker) (name : String) : Except Error KeyValueBucket :=
  match b.stream? (KeyValueSettings.streamName name) with
  | some s => .ok ⟨name, s.id⟩
  | none => .error (.bucketNotFound name)

/-- The refusal of a deletion in terms of the bucket. -/
def deletionError (name : String) (e : Error) : Error :=
  if e.isNotFound then .bucketNotFound name else e

/-- Deletes a bucket with all it holds. -/
def deleteBucket (name : String) : Action Broker Unit := do
  match ← (Broker.deleteStream (KeyValueSettings.streamName name)).attempt with
  | .ok () => pure ()
  | .error e => Action.refuse (deletionError name e)

/-! ## Keys and subjects -/

def subject (k : KeyValueBucket) (key : String) : String :=
  KeyValueSettings.keyPrefix k.name ++ key

/-- The text behind another with which it begins. -/
def textBehind? (front text : String) : Option String :=
  if front.toList.isPrefixOf text.toList then
    some (String.ofList (text.toList.drop front.toList.length))
  else none

/-- What a message of a bucket records. -/
def operationOf (m : StoredMessage) : KeyOperation :=
  match m.headers.find? kvOperationHeader with
  | some marker =>
    if marker = deleteMarker then .delete else if marker = purgeMarker then .purge else .put
  | none => .put

/-- The revision that a message is. -/
def entryOf? (k : KeyValueBucket) (m : StoredMessage) : Option KeyEntry := do
  let key ← textBehind? (KeyValueSettings.keyPrefix k.name) m.subject
  some { bucket := k.name, key, value := m.payload, revision := m.sequence, created := m.timestamp
         operation := operationOf m }

/-! ## Writing -/

/-- Writes a revision and tells its number. -/
def write (k : KeyValueBucket) (m : Message) (lastRevision : Option Nat) : Action Broker Nat := do
  let ack ← Broker.publish m
    { stream := some (KeyValueSettings.streamName k.name), lastSubjectSequence := lastRevision }
  pure ack.sequence

def valueMessage (k : KeyValueBucket) (key : String) (value : Bytes) : Message :=
  ⟨k.subject key, value, []⟩

/-- The message for a deletion. -/
def markerMessage (k : KeyValueBucket) (key marker : String) : Message :=
  ⟨k.subject key, [], [(kvOperationHeader, marker)]⟩

def put (k : KeyValueBucket) (key : String) (value : Bytes) : Action Broker Nat := do
  checkKey key
  k.write (k.valueMessage key value) none

/-- Writes a value if the newest revision has a number, zero for a key without revisions. -/
def update (k : KeyValueBucket) (key : String) (value : Bytes) (revision : Nat) :
    Action Broker Nat := do
  checkKey key
  k.write (k.valueMessage key value) (some revision)

/-- The newest revision of a key. -/
def entry (k : KeyValueBucket) (key : String) : Action Broker (Option KeyEntry) := do
  checkKey key
  match ← (Broker.lastMessage k.stream (k.subject key)).attempt with
  | .ok m => pure (k.entryOf? m)
  | .error e => if e.kind = .messageNotFound then pure none else Action.refuse e

/-- Writes a value if the newest revision is a deletion. -/
def replaceDeleted (k : KeyValueBucket) (key : String) (value : Bytes) : Action Broker Nat := do
  match ← k.entry key with
  | some newest =>
    if newest.operation = .put then Action.refuse (.keyExists key k.name)
    else k.update key value newest.revision
  | none => Action.refuse (.keyExists key k.name)

/-- Writes a value if the key has none. -/
def create (k : KeyValueBucket) (key : String) (value : Bytes) : Action Broker Nat := do
  checkKey key
  match ← (k.write (k.valueMessage key value) (some 0)).attempt with
  | .ok revision => pure revision
  | .error e => if e.kind = .wrongLastSequence then k.replaceDeleted key value else Action.refuse e

def delete (k : KeyValueBucket) (key : String) : Action Broker Nat := do
  checkKey key
  k.write (k.markerMessage key deleteMarker) none

/-- Deletes a key with all its older revisions. -/
def purge (k : KeyValueBucket) (key : String) : Action Broker Nat := do
  checkKey key
  -- The marker is written first, so the key never looks as if it had never been there.
  let revision ← k.write (k.markerMessage key purgeMarker) none
  let _ ← Broker.purge k.stream { filter := some (k.subject key), keep := some 1 }
  pure revision

/-! ## Reading -/

def get (k : KeyValueBucket) (key : String) : Action Broker (Option Bytes) := do
  let newest ← k.entry key
  pure ((newest.filter fun e => decide (e.operation = .put)).map KeyEntry.value)

/-- The keys that have a value, in order. -/
def keys (k : KeyValueBucket) : Action Broker (List String) := do
  let messages ← Broker.lastPerSubject k.stream (k.subject ">")
  let live := (messages.filterMap k.entryOf?).filter fun e => decide (e.operation = .put)
  pure ((live.map KeyEntry.key).mergeSort fun a b => decide (a ≤ b))

/-- All revisions of a key, oldest first. -/
def history (k : KeyValueBucket) (key : String) : Action Broker (List KeyEntry) := do
  checkKey key
  let messages ← Broker.matchingMessages k.stream (k.subject key)
  let entries := messages.filterMap k.entryOf?
  if entries.isEmpty then Action.refuse (.keyNotFound key k.name) else pure entries

def status (k : KeyValueBucket) : Action Broker KeyValueStatus := do
  let info ← Broker.streamInfo k.stream none
  pure { bucket := k.name
         values := info.state.messages
         history := info.settings.maxMessagesPerSubject.getD 1
         maxAge := info.settings.maxAge
         bytes := info.state.bytes }

/-- A feed of the revisions of keys, which begins with the newest of every key. -/
def watch (k : KeyValueBucket) (pattern : String) : Action Broker Feed := do
  checkKeyPattern pattern
  Broker.watch k.stream (k.subject pattern) .lastPerSubject

end KeyValueBucket

end StreamBroker
