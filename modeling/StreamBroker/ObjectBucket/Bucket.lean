import StreamBroker.Broker.Registry
import StreamBroker.ObjectBucket.Settings
import StreamBroker.ObjectBucket.Description
import StreamBroker.Text.Base64
import StreamBroker.Text.Sha256

/-!
# Object buckets

A bucket is a stream that holds objects of any size.  The data of an object is cut into chunks,
which are messages of one subject; the description of an object is a message of a subject made from
its name.  An object exists when its newest description says so.

## Main definitions

* `ObjectBucket`: a bucket and its stream.
* `ObjectSource`: where the data of an object comes from.
* `ObjectBucket.put`, `ObjectBucket.updateLabel`, `ObjectBucket.delete`: objects change.
* `ObjectBucket.get`, `ObjectBucket.info`, `ObjectBucket.list`: what a bucket holds.
* `ObjectBucket.watch`: a feed of descriptions.

## Main results

* `flatten_chunksOf`: the chunks of data, put together, are the data.
-/

namespace StreamBroker

/-! ## Chunks -/

/-- Cuts octets into chunks of a size, of which only the last may be shorter. -/
def chunksOf (size : Nat) (octets : Bytes) : List Bytes :=
  if _ : octets.isEmpty ∨ size = 0 then []
  else octets.take size :: chunksOf size (octets.drop size)
termination_by octets.length
decreasing_by
  rename_i h
  simp only [not_or, List.isEmpty_iff, ← List.length_eq_zero_iff] at h
  rw [List.length_drop]
  omega

theorem flatten_chunksOf {size : Nat} (hs : 0 < size) (octets : Bytes) :
    (chunksOf size octets).flatten = octets := by
  fun_induction chunksOf size octets with
  | case1 octets h =>
    rcases h with h | h
    · simpa using h
    · omega
  | case2 octets h ih => rw [List.flatten_cons, ih, List.take_append_drop]

/-- Where the data of an object comes from: octets, and perhaps a failure behind them. -/
structure ObjectSource where
  octets : Bytes
  /-- Why there is nothing behind them, if that is not their end. -/
  failure : Option String := none
  deriving DecidableEq, Repr

/-- The source that gives octets in parts.  An empty part is read as their end; behind the last part
the source may fail. -/
def ObjectSource.ofParts (parts : List Bytes) (failure : Option String) : ObjectSource :=
  { octets := (parts.takeWhile fun p => !p.isEmpty).flatten
    failure := if parts.any List.isEmpty then none else failure }

/-- The chunks that are there before a source fails: only whole ones if it does. -/
def ObjectSource.chunks (source : ObjectSource) (size : Nat) : List Bytes :=
  let all := chunksOf size source.octets
  match source.failure with
  | some _ => all.filter fun c => decide (c.length = size)
  | none => all

def objectDigest (octets : Bytes) : String := "SHA-256=" ++ Base64.encode (Sha256.digest octets)

/-- What an object bucket says about itself. -/
structure ObjectBucketStatus where
  bucket : String
  description : Option String
  /-- How many octets the bucket holds. -/
  size : Nat
  /-- Where the bucket keeps its objects. -/
  storage : StorageType
  deriving DecidableEq, Repr

/-- A bucket and its stream. -/
structure ObjectBucket where
  name : String
  stream : Nat
  deriving DecidableEq, Repr

namespace ObjectBucket

/-! ## Creating, opening and deleting -/

/-- Creates a bucket, or finds it when it exists with the same settings. -/
def createBucket (settings : ObjectBucketSettings) : Action Broker ObjectBucket := do
  let streamSettings ← settings.streamSettings
  let stream ← Broker.createStream streamSettings
  pure ⟨settings.bucket, stream⟩

def find (b : Broker) (name : String) : Except Error ObjectBucket :=
  match b.stream? (ObjectBucketSettings.streamName name) with
  | some s => .ok ⟨name, s.id⟩
  | none => .error (.bucketNotFound name)

/-- Deletes a bucket with all it holds. -/
def deleteBucket (name : String) : Action Broker Unit := do
  match ← (Broker.deleteStream (ObjectBucketSettings.streamName name)).attempt with
  | .ok () => pure ()
  | .error e => Action.refuse (if e.isNotFound then .bucketNotFound name else e)

/-! ## Subjects -/

/-- The subject of the chunks of a version of an object. -/
def chunkSubject (o : ObjectBucket) (nuid : String) : String :=
  ObjectBucketSettings.chunkPrefix o.name ++ nuid

def descriptionSubject (o : ObjectBucket) (object : String) : String :=
  ObjectBucketSettings.descriptionPrefix o.name ++ Base64.encode (Bytes.ofText object)

/-- The pattern of the subjects of all descriptions. -/
def allDescriptions (o : ObjectBucket) : String :=
  ObjectBucketSettings.descriptionPrefix o.name ++ ">"

/-- The description that a message holds. -/
def descriptionOf? (m : StoredMessage) : Option ObjectDescription :=
  ObjectDescription.ofStored? m.payload

/-- Refuses the empty name. -/
def checkObjectName (object : String) : Except Error Unit :=
  if object.isEmpty then .error (.invalidConfig "object name cannot be empty") else .ok ()

/-! ## Messages -/

/-- Stores a message in the stream of the bucket. -/
def publish (o : ObjectBucket) (m : Message) : Action Broker Unit := do
  let _ ← Broker.publish m { stream := some (ObjectBucketSettings.streamName o.name) }
  pure ()

def publishDescription (o : ObjectBucket) (d : ObjectDescription) : Action Broker Unit :=
  o.publish ⟨o.descriptionSubject d.name, d.encode, [(contentTypeHeader, "application/json")]⟩

/-- Stores chunks one after the other. -/
def publishChunks (o : ObjectBucket) (nuid : String) : List Bytes → Action Broker Unit
  | [] => pure ()
  | c :: cs => do
    o.publish ⟨o.chunkSubject nuid, c, []⟩
    o.publishChunks nuid cs

/-- Removes the messages of a subject, all or all but the newest. -/
def purgeSubject (o : ObjectBucket) (subject : String) (keep : Option Nat) :
    Action Broker Unit := do
  let _ ← Broker.purge o.stream { filter := some subject, keep }
  pure ()

/-- Removes the chunks of a version of an object, as far as that is possible. -/
def dropChunks (o : ObjectBucket) (nuid : String) : Action Broker Unit := do
  let _ ← (o.purgeSubject (o.chunkSubject nuid) none).attempt
  pure ()

/-! ## Reading -/

/-- The newest description of an object, also of one that was deleted. -/
def newestDescription (o : ObjectBucket) (object : String) :
    Action Broker (Option ObjectDescription) := do
  checkObjectName object
  match ← (Broker.lastMessage o.stream (o.descriptionSubject object)).attempt with
  | .ok m =>
    match descriptionOf? m with
    | some d => pure (some d)
    | none => Action.refuse .serialization
  | .error e => if e.kind = .messageNotFound then pure none else Action.refuse e

/-- The description of an object that exists. -/
def info (o : ObjectBucket) (object : String) : Action Broker ObjectDescription := do
  match ← o.newestDescription object with
  | some d => if d.deleted then Action.refuse (.objectNotFound object o.name) else pure d
  | none => Action.refuse (.objectNotFound object o.name)

/-- The largest object that can be put together. -/
def maxObjectSize : Nat := wordLimit / 2

/-- The data of an object.  It is refused if it is not what the description promises. -/
def get (o : ObjectBucket) (object : String) : Action Broker Bytes := do
  let d ← o.info object
  let chunks ← Broker.matchingMessages o.stream (o.chunkSubject d.nuid)
  let octets := (chunks.map StoredMessage.payload).flatten
  let found : ObjectReading := ⟨octets.length, chunks.length, objectDigest octets⟩
  let promised : ObjectReading := ⟨d.size, d.chunks, d.digest⟩
  if maxObjectSize ≤ d.size then Action.refuse .numbersExhausted
  else if found = promised then pure octets
  else Action.refuse (.digestMismatch object found promised)

/-- The descriptions of the objects that exist, in the order of their names. -/
def list (o : ObjectBucket) : Action Broker (List ObjectDescription) := do
  let messages ← Broker.lastPerSubject o.stream o.allDescriptions
  let live := (messages.filterMap descriptionOf?).filter fun d => !d.deleted
  pure (live.mergeSort fun d e => decide (d.name ≤ e.name))

def status (o : ObjectBucket) : Action Broker ObjectBucketStatus := do
  let info ← Broker.streamInfo o.stream none
  pure { bucket := o.name
         description := info.settings.description
         size := info.state.bytes
         storage := info.settings.storage }

/-- A feed of descriptions, which may begin with the newest of every object. -/
def watch (o : ObjectBucket) (withHistory : Bool) : Action Broker Feed :=
  Broker.watch o.stream o.allDescriptions (if withHistory then .lastPerSubject else .new)

/-! ## Writing -/

def writeData (o : ObjectBucket) (nuid : String) (source : ObjectSource) (chunkSize : Nat) :
    Action Broker Unit := do
  if maxObjectSize ≤ chunkSize then Action.refuse .numbersExhausted
  else do
    o.publishChunks nuid (source.chunks chunkSize)
    match source.failure with
    | some detail => Action.refuse (.io detail)
    | none => pure ()

/-- Undoes the writing of chunks when an action is refused. -/
def orDropChunks (o : ObjectBucket) (nuid : String) (x : Action Broker Unit) :
    Action Broker Unit := do
  match ← x.attempt with
  | .ok () => pure ()
  | .error e => do
    o.dropChunks nuid
    Action.refuse e

/-- Stores an object and tells its description.  An older version of it goes. -/
def put (o : ObjectBucket) (label : ObjectLabel) (source : ObjectSource) :
    Action Broker ObjectDescription := do
  checkObjectName label.name
  let previous ← o.newestDescription label.name
  let nuid ← Action.answer Broker.freshName
  let b ← Action.read
  let chunkSize := b.settings.chunkSize
  o.orDropChunks nuid (o.writeData nuid source chunkSize)
  let d : ObjectDescription :=
    { name := label.name
      description := label.description
      bucket := o.name
      nuid
      size := source.octets.length
      chunks := (source.chunks chunkSize).length
      modified := b.clock.wall
      digest := objectDigest source.octets
      deleted := false }
  o.orDropChunks nuid (o.publishDescription d)
  -- The new version is in place; from here on the old one is only cleaned up.
  match previous with
  | some old => o.dropChunks old.nuid
  | none => pure ()
  o.purgeSubject (o.descriptionSubject d.name) (some 1)
  pure d

/-- Refuses the name of another object. -/
def checkFree (o : ObjectBucket) (object : String) : Action Broker Unit := do
  match ← o.newestDescription object with
  | some d => if d.deleted then pure () else Action.refuse (.objectExists object o.name)
  | none => pure ()

/-- Changes the name and the remark of an object. -/
def updateLabel (o : ObjectBucket) (object : String) (label : ObjectLabel) :
    Action Broker ObjectDescription := do
  checkObjectName label.name
  let current ← o.info object
  let renamed := label.name != object
  if renamed then o.checkFree label.name
  let b ← Action.read
  let d := { current with
    name := label.name, description := label.description, modified := b.clock.wall }
  o.publishDescription d
  o.purgeSubject (o.descriptionSubject object) (if renamed then none else some 1)
  pure d

/-- Deletes an object with its data. -/
def delete (o : ObjectBucket) (object : String) : Action Broker Unit := do
  let current ← o.info object
  let b ← Action.read
  o.publishDescription { current with
    deleted := true, size := 0, chunks := 0, digest := "", modified := b.clock.wall }
  o.purgeSubject (o.descriptionSubject object) (some 1)
  o.purgeSubject (o.chunkSubject current.nuid) none

end ObjectBucket

end StreamBroker
