import StreamBroker.Broker.Basic
import StreamBroker.Feed

/-!
# The streams of a broker

Streams are created, changed and deleted, and messages find their stream by their subject.  No two
streams take subjects in common, so at most one stream takes a subject.

## Main definitions

* `Broker.createStream`, `Broker.updateStream`, `Broker.upsertStream`, `Broker.deleteStream`.
* `Broker.route`: the stream that takes a subject.
* `Broker.publish`: stores a message in the stream that takes its subject.
* `Broker.message`, `Broker.lastMessage`, …: what a stream holds.
* `Broker.watch`: a feed.
-/

namespace StreamBroker.Broker

/-! ## Creating, changing and deleting -/

/-- Refuses settings under which a stream would take subjects of another. -/
def checkOverlap (b : Broker) (settings : StreamSettings) : Except Error Unit :=
  -- A stream that is changed may keep its own subjects.
  let conflict := b.streams.findSome? fun s =>
    if s.name = settings.name then none
    else s.settings.boundSubjects.findSome? fun other =>
      (settings.boundSubjects.find? (patternsOverlap · other)).map fun subject =>
        Error.subjectsOverlap subject other s.name
  match conflict with
  | some e => .error e
  | none => .ok ()

/-- The shortest ring of announcements that no memory can hold: a place in it takes `2 ^ 7` octets
or more, and memory ends below `2 ^ 63` octets. -/
def tooLongRing : Nat := Nat.pow 2 56

/-- Opens a stream of a new name. -/
def openStream (settings : StreamSettings) : Action Broker Nat := fun b =>
  let (id, b) := b.freshId
  match Stream.open? id settings b.clock b.backend with
  | (.error e, backend) => (.error e, { b with backend })
  | (.ok s, backend) =>
    if tooLongRing ≤ Feed.ringSize b.settings.watchBuffer then
      (.error .numbersExhausted, { b with backend })
    else (.ok id, { b with backend, streams := b.streams ++ [s] })

/-- Creates a stream with acceptable settings, or finds it when it has just these. -/
def createChecked (settings : StreamSettings) : Action Broker Nat := do
  let b ← Action.read
  match b.stream? settings.name with
  | some s =>
    if s.settings = settings then pure s.id else Action.refuse (.streamNameInUse settings.name)
  | none =>
    b.checkOverlap settings
    openStream settings

/-- Refuses changes of what is fixed. -/
def checkFixed (current wanted : StreamSettings) : Except Error Unit := do
  if current.storage ≠ wanted.storage then
    throw (.invalidConfig s!"storage of stream '{wanted.name}' cannot be changed")
  if current.retention ≠ wanted.retention then
    throw (.invalidConfig s!"retention of stream '{wanted.name}' cannot be changed")

/-- Changes a stream to acceptable settings. -/
def updateChecked (settings : StreamSettings) : Action Broker Nat := do
  let b ← Action.read
  let s ← b.findStream settings.name
  checkFixed s.settings settings
  b.checkOverlap settings
  onStream s.id fun s backend =>
    let (reply, s, backend) := s.changeSettings settings b.clock backend
    (reply.map fun _ => s.id, s, backend)

/-- Creates a stream, or finds it when it exists with the same settings. -/
def createStream (settings : StreamSettings) : Action Broker Nat := do
  settings.check
  createChecked settings

def updateStream (settings : StreamSettings) : Action Broker Nat := do
  settings.check
  updateChecked settings

/-- Creates a stream, or changes it when it exists. -/
def upsertStream (settings : StreamSettings) : Action Broker Nat := do
  settings.check
  let b ← Action.read
  if (b.stream? settings.name).isSome then updateChecked settings else createChecked settings

/-- Deletes a stream with its consumers and its journal. -/
def deleteStream (name : String) : Action Broker Unit := fun b =>
  match b.stream? name with
  | none => (.error (.streamNotFound name), b)
  | some s =>
    let (reply, gone, backend) := s.destroy b.backend
    (reply, { b with
      backend
      streams := b.streams.filter fun t => t.id != s.id
      formerStreams := gone :: b.formerStreams })

/-! ## Publishing -/

/-- The stream that takes a subject. -/
def route (b : Broker) (subject : String) : Except Error Stream := do
  checkLiteralSubject subject
  match b.streams.find? fun s => s.settings.takes subject with
  | some s => .ok s
  | none => .error (.noInterest subject)

/-- Stores a message in the stream that takes its subject. -/
def publish (m : Message) (e : Expectations) : Action Broker PublishAck := do
  let b ← Action.read
  let s ← b.route m.subject
  let sequence ← onStream s.id fun s backend =>
    s.publish b.settings.maxPayload b.clock e m backend
  pure ⟨s.name, sequence⟩

/-! ## What a stream holds -/

/-- The streams in the order of their names. -/
def sortedStreams (b : Broker) : List Stream :=
  b.streams.mergeSort fun s t => decide (s.name ≤ t.name)

def streamNames (b : Broker) : List String := b.sortedStreams.map Stream.name

/-- What a stream says about itself, with the counts of the subjects of a pattern. -/
def streamInfo (id : Nat) (filter : Option String) : Action Broker StreamInfo := do
  match filter with
  | some pattern => checkFilter pattern
  | none => pure ()
  inspect id (.ok ()) fun s => s.info filter

/-- What each of some streams says about itself. -/
def streamInfos : List Nat → Action Broker (List StreamInfo)
  | [] => pure []
  | id :: ids => do
    let info ← streamInfo id none
    let infos ← streamInfos ids
    pure (info :: infos)

/-- What all streams say about themselves, in the order of their names. -/
def allStreamInfos : Action Broker (List StreamInfo) := do
  let b ← Action.read
  streamInfos (b.sortedStreams.map Stream.id)

def message (id n : Nat) : Action Broker StoredMessage :=
  inspect id (.ok ()) fun s =>
    match s.index.get? n with
    | some m => .ok m
    | none => .error (.messageNotFound n)

/-- The newest message of a subject. -/
def lastMessage (id : Nat) (subject : String) : Action Broker StoredMessage :=
  inspect id (checkLiteralSubject subject) fun s =>
    match s.index.lastForSubject subject with
    | some m => .ok m
    | none => .error (.subjectNotFound subject s.name)

def matchingMessages (id : Nat) (pattern : String) : Action Broker (List StoredMessage) :=
  inspect id (checkFilter pattern) fun s => .ok (s.index.matching pattern)

/-- The newest message of every subject of a pattern. -/
def lastPerSubject (id : Nat) (pattern : String) : Action Broker (List StoredMessage) :=
  inspect id (checkFilter pattern) fun s => .ok (s.index.lastPerSubject pattern)

/-- Removes one message. -/
def deleteMessage (id n : Nat) : Action Broker Unit :=
  onStream id fun s backend => s.deleteMessage n backend

/-- Removes the messages that a request selects, and tells how many. -/
def purge (id : Nat) (r : PurgeRequest) : Action Broker Nat :=
  onStream id fun s backend => s.purge r backend

/-- A feed of the messages of a pattern. -/
def watch (id : Nat) (pattern : String) (beginning : WatchStart) : Action Broker Feed := do
  let b ← Action.read
  inspect id (checkFilter pattern) fun s =>
    .ok (Feed.start s pattern beginning b.settings.watchBuffer)

/-- Reads what there is for a feed, up to a number of items. -/
def drain {α : Type} (b : Broker) (f : Feed) (item : StoredMessage → Option α)
    (most : Option Nat) : List α × Feed :=
  let events := ((b.streamById? f.stream).map Stream.events).getD []
  f.drain events item (most.getD (f.available events))

end StreamBroker.Broker
