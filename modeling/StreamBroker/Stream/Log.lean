import StreamBroker.Stream.Basic

/-!
# The log of a stream

What publishers and administrators do with a stream: it is opened, messages are stored, looked up
and removed, settings are changed, and in the end the stream is destroyed.

## Main definitions

* `Stream.open?`: the stream that a journal holds.
* `Stream.publish`: stores a message.
* `Stream.deleteMessage`, `Stream.purge`: messages go.
* `Stream.changeSettings`, `Stream.destroy`.
* `Stream.info`: what a stream says about itself.
-/

namespace StreamBroker.Stream

/-! ## Opening -/

/-- Removes what settings do not allow. -/
def trim (settings : StreamSettings) (now : Timestamp) (x : Index) : List Nat × Index :=
  let (expired, x) := Retention.expire settings now x
  let (excess, x) := Retention.enforceLimits settings none x
  (expired ++ excess, x)

/-- Removes from the index of a stream that was just read back what its settings do not allow.  It
has no consumers yet, so a stream that keeps only what is needed keeps nothing. -/
def prune (settings : StreamSettings) (now : Timestamp) (x : Index) : List Nat × Index :=
  let (excess, x) := trim settings now x
  let (unclaimed, x) :=
    if settings.retention = .interest then Retention.releaseUnclaimed (fun _ _ => false) x
    else ([], x)
  (excess ++ unclaimed, x)

/-- What the journal of a stream holds, nothing if the stream keeps none. -/
def recovered (settings : StreamSettings) (b : Backend) :
    Except Error Journal.Recovered × Backend :=
  match settings.storage with
  | .file => Journal.recover (Journal.namespaceOf settings.name) b
  | .memory => (.ok ⟨[], 0⟩, b)

/-- The stream that a journal holds. -/
def open? (id : Nat) (settings : StreamSettings) (clock : Clock) (b : Backend) :
    Except Error Stream × Backend :=
  match recovered settings b with
  | (.error e, b) => (.error e, b)
  | (.ok r, b) =>
    -- The watermark may be above all messages: the newest ones were removed.
    let index := Index.restore r.messages r.watermark
    if wordLimit ≤ index.lastSeq + 1 then (.error .numbersExhausted, b)
    else
      let (gone, index) := prune settings clock.wall index
      let s : Stream := { id, settings, created := clock.wall, index }
      let (reply, b) := s.discard gone b
      (reply.map fun _ => s, b)

/-! ## Publishing -/

/-- What goes from an index when a message has come. -/
def makeRoom (s : Stream) (m : StoredMessage) (x : Index) : List Nat × Index :=
  let (excess, x) := Retention.enforceLimits s.settings (some m.subject) x
  let (unclaimed, x) :=
    if s.settings.retention = .interest then s.releasing [m.sequence] x else ([], x)
  (excess ++ unclaimed, x)

/-- Announces a message to feeds, if it is still there. -/
def announce (s : Stream) (m : StoredMessage) : Stream :=
  if s.index.contains m.sequence then { s with events := m :: s.events } else s

/-- The stream with a message, and the numbers that it makes go. -/
def accept (s : Stream) (m : StoredMessage) : Except Error (List Nat) × Stream :=
  let s := { s with index := s.index.commit m }
  let (gone, s) := s.reduce (s.makeRoom m)
  (gone, s.announce m)

/-- Writes a message to the journal, if the stream keeps one. -/
def write (s : Stream) (m : StoredMessage) (b : Backend) : Except Error Unit × Backend :=
  if s.isJournaled then
    match Journal.appendCall s.journal m with
    | .error e => (.error (.format e), b)
    | .ok call =>
      let (reply, b) := b.perform call
      ((reply.map fun _ => ()).mapError .storage, b)
  else (.ok (), b)

/-- Stores a message that the stream is ready for. -/
def storeMessage (s : Stream) (m : StoredMessage) (b : Backend) :
    Except Error Nat × Stream × Backend :=
  match s.write m b with
  | (.error e, b) => (.error e, s, b)
  | (.ok (), b) =>
    match s.accept m with
    | (.error e, s) => (.error e, s, b)
    | (.ok gone, s) => (.ok m.sequence, s.notifyAll, s.forget gone b)

/-- Stores a message and tells its number.  What is too old goes first, also when the message is
refused. -/
def publish (s : Stream) (maxPayload : Nat) (clock : Clock) (e : Expectations) (m : Message)
    (b : Backend) : Except Error Nat × Stream × Backend :=
  match e.stream with
  | some expected =>
    if expected = s.name then store else (.error (.streamMismatch expected s.name), s, b)
  | none => store
where
  /-- Stores the message if the stream is ready for it. -/
  store : Except Error Nat × Stream × Backend :=
    let now := clock.wall.toMicro
    -- What is too old must not count against the limits, nor as the last message of a subject.
    match s.evict now b with
    | (.error e, s, b) => (.error e, s, b)
    | (.ok (), s, b) =>
      match s.index.prepare s.settings maxPayload now e m with
      | .error e => (.error e, s, b)
      | .ok stored => s.storeMessage stored b

/-! ## Removing -/

def deleteMessage (s : Stream) (n : Nat) (b : Backend) : Except Error Unit × Stream × Backend :=
  if s.index.contains n then
    match s.reduce (·.removeAll [n]) with
    | (.error e, s) => (.error e, s, b)
    | (.ok gone, s) =>
      let (reply, b) := s.discard gone b
      (reply, s, b)
  else (.error (.messageNotFound n), s, b)

/-- Removes the messages that a request selects, and tells how many. -/
def purge (s : Stream) (r : PurgeRequest) (b : Backend) : Except Error Nat × Stream × Backend :=
  match (match r.filter with
    | some pattern => checkFilter pattern
    | none => .ok ()) with
  | .error e => (.error e, s, b)
  | .ok () =>
    match s.index.purge r with
    | .error e => (.error e, s, b)
    | .ok left =>
      match s.reduce fun _ => left with
      | (.error e, s) => (.error e, s, b)
      | (.ok gone, s) =>
        match s.discard gone b with
        | (.error e, b) => (.error e, s, b)
        | (.ok (), b) => (.ok gone.length, s.notifyAll, b)

/-! ## Settings -/

/-- Changes the settings; what they do not allow goes. -/
def changeSettings (s : Stream) (settings : StreamSettings) (clock : Clock) (b : Backend) :
    Except Error Unit × Stream × Backend :=
  match s.reduce (trim settings clock.wall) with
  | (.error e, s) => (.error e, s, b)
  | (.ok gone, s) =>
    let s := { s with settings }
    (.ok (), s.notifyAll, s.forget gone b)

/-- Destroys the stream: nothing is left in it, and its consumers are deleted. -/
def destroy (s : Stream) (b : Backend) : Except Error Unit × Stream × Backend :=
  let gone := { s with
    index := Index.empty
    consumers := []
    formerConsumers := s.consumers.map Consumer.notify ++ s.formerConsumers }
  if s.isJournaled then
    let (reply, b) := b.removeNamespace s.journal
    (reply.mapError .storage, gone, b)
  else (.ok (), gone, b)

/-! ## Looking -/

/-- What a stream says about itself, with the counts of the subjects of a pattern. -/
def info (s : Stream) (filter : Option String) : Except Error StreamInfo :=
  if s.index.isCountable then
    .ok { settings := s.settings
          created := s.created
          state := s.index.state filter s.consumers.length }
  else .error .numbersExhausted

/-- The messages of a pattern, the newest of every subject only. -/
def lastPerSubject (s : Stream) (pattern : String) : List StoredMessage :=
  s.index.lastPerSubject pattern

/-- The messages that a feed begins with. -/
def snapshot (s : Stream) (pattern : String) : WatchStart → List StoredMessage
  | .new => []
  | .lastPerSubject => s.index.lastPerSubject pattern
  | .all => s.index.matching pattern

end StreamBroker.Stream
