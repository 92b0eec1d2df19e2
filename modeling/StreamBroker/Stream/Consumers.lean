import StreamBroker.Stream.Basic

/-!
# The consumers of a stream

What consumers do with a stream: they are created, changed and deleted, they collect messages and
acknowledge them, and they are removed when they do nothing for too long.

The consumers of a work queue share its messages, so no two of them get messages of one subject.

## Main definitions

* `Stream.upsertConsumer`: creates or changes a consumer.
* `Stream.deleteConsumer`: deletes a consumer.
* `Stream.collect`: hands out messages.
* `Stream.acknowledge`: notes an acknowledgement.
* `Stream.sweep`: what is too old goes, and consumers that do nothing.
-/

namespace StreamBroker

/-- Whether a consumer may be created, changed, or both. -/
inductive UpsertMode where
  | create | update | createOrUpdate
  deriving DecidableEq, Repr

/-- Messages that are handed out at once. -/
structure Collected where
  /-- The deliveries, in order. -/
  deliveries : List Delivery
  /-- How many messages are still to be delivered. -/
  pendingCount : Nat
  /-- When the next delivery is repeated. -/
  nextDeadline : Option Instant
  deriving DecidableEq

namespace Stream

/-! ## Creating and changing -/

/-- Refuses a consumer that gets subjects which the stream does not take. -/
def checkFilterBound (s : Stream) (c : ConsumerSettings) : Except Error Unit :=
  match c.filter with
  | some filter =>
    if s.settings.holds filter then .ok () else .error (.filterNotBound filter s.name)
  | none => .ok ()

/-- Refuses a consumer that cannot share a work queue. -/
def checkWorker (s : Stream) (c : ConsumerSettings) : Except Error Unit := do
  if s.settings.retention = .workQueue then
    if c.ackPolicy = .none then
      throw (.invalidConfig "work queue consumers must acknowledge messages")
    if c.deliverPolicy ≠ .all then
      throw (.invalidConfig "work queue consumers must deliver all messages")

/-- Refuses a consumer of a work queue that would get subjects of another. -/
def checkDisjointFrom (s : Stream) (name : String) (filter : Option String) :
    Except Error Unit :=
  let filter := filter.getD ">"
  if s.settings.retention = .workQueue then
    match s.consumers.find? fun c =>
      c.name != name && patternsOverlap filter (c.cursor.settings.filter.getD ">") with
    | some c =>
      .error (.overlappingConsumer filter c.name (c.cursor.settings.filter.getD ">") s.name)
    | none => .ok ()
  else .ok ()

/-- Refuses changes of what is fixed. -/
def checkChange (name : String) (current wanted : ConsumerSettings) : Except Error Unit := do
  if wanted.maxWaiting ≠ current.maxWaiting then throw (.maxWaitingImmutable name)
  if wanted.ackPolicy ≠ current.ackPolicy ∨ wanted.deliverPolicy ≠ current.deliverPolicy
      ∨ wanted.durableName ≠ current.durableName then
    throw (.consumerUpdate name)

/-- The numbers that a consumer begins behind are used up. -/
def isBehindLast (p : DeliverPolicy) (x : Index) : Bool :=
  (p == .new || p == .last) && decide (wordLimit ≤ x.lastSeq + 1)

def addConsumer (s : Stream) (id : Nat) (name : String) (settings : ConsumerSettings)
    (clock : Clock) : Except Error (Nat × Stream) := do
  s.checkDisjointFrom name settings.filter
  if isBehindLast settings.deliverPolicy s.index then throw .numbersExhausted
  let cursor := Cursor.start settings s.index clock.elapsed
  let consumer : Consumer := { id, name, created := clock.wall, cursor }
  pure (id, { s with consumers := s.consumers ++ [consumer] })

def changeConsumer (s : Stream) (c : Consumer) (settings : ConsumerSettings) (b : Backend) :
    Except Error Unit × Stream × Backend :=
  let s := s.modifyConsumer c.id (·.mapCursor ({ · with settings }))
  match s.releaseUnclaimed b with
  | (.error e, s, b) => (.error e, s, b)
  | (.ok (), s, b) => (.ok (), s.modifyConsumer c.id Consumer.notify, b)

/-- What is refused of a consumer whatever its name. -/
def checkConsumer (s : Stream) (settings : ConsumerSettings) : Except Error Unit := do
  settings.check
  s.checkFilterBound settings
  s.checkWorker settings

/-- The settings that are wanted of a consumer that exists: the number of waiting pulls is kept
when they leave it open. -/
def wantedSettings (settings current : ConsumerSettings) (defaults : BrokerSettings) :
    ConsumerSettings :=
  { settings with maxWaiting := settings.maxWaiting.or current.maxWaiting }.withDefaults defaults

/-- Creates or changes a consumer and tells its number.  Without a name in its settings a consumer
gets the made-up name and is new. -/
def upsertConsumer (s : Stream) (mode : UpsertMode) (id : Nat) (madeUp : String)
    (defaults : BrokerSettings) (settings : ConsumerSettings) (clock : Clock) (b : Backend) :
    Except Error Nat × Stream × Backend :=
  match s.checkConsumer settings with
  | .error e => (.error e, s, b)
  | .ok () =>
    let name := settings.explicitName.getD madeUp
    let settings := { settings with name := some name }
    match s.consumer? name with
    | none =>
      if mode = .update then (.error (.consumerNotFound name), s, b)
      else match s.addConsumer id name (settings.withDefaults defaults) clock with
        | .error e => (.error e, s, b)
        | .ok (id, s) => (.ok id, s, b)
    | some c =>
      -- Settings are compared with their defaults filled in, so leaving out a default is no change.
      let current := c.cursor.settings
      let wanted := wantedSettings settings current defaults
      if wanted = current then (.ok c.id, s, b)
      else if mode = .create then (.error (.consumerNameInUse name), s, b)
      else match (do
          checkChange name current wanted
          s.checkDisjointFrom name wanted.filter) with
        | .error e => (.error e, s, b)
        | .ok () =>
          let (reply, s, b) := s.changeConsumer c wanted b
          (reply.map fun _ => c.id, s, b)

/-- Deletes a consumer; what only it needed goes. -/
def deleteConsumer (s : Stream) (name : String) (b : Backend) :
    Except Error Unit × Stream × Backend :=
  match s.consumer? name with
  | none => (.error (.consumerNotFound name), s, b)
  | some c =>
    let s := { s with
      consumers := s.consumers.filter fun d => d.name != name
      formerConsumers := c.notify :: s.formerConsumers }
    s.releaseUnclaimed b

/-! ## Handing out and acknowledging -/

/-- The refusal of a pull that a message is too large for. -/
def oversizedError (h : Cursor.Haul) : Option Error :=
  if h.deliveries.isEmpty then h.oversized.map .messageSizeExceedsMaxBytes else none

/-- Hands out what the cursor of a consumer has come to, and lets go what is settled with it and
what expired before. -/
def handOut (s : Stream) (id : Nat) (cursor : Cursor) (haul : Cursor.Haul) (expired : List Nat)
    (b : Backend) : Except Error Collected × Stream × Backend :=
  let collected : Collected := ⟨haul.deliveries, cursor.pendingCount s.index, cursor.nextDeadline⟩
  -- The cursor is put back first: whether a message is needed depends on it.
  let s := s.modifyConsumer id (·.mapCursor fun _ => cursor)
  match s.reduce (s.releasing haul.settled) with
  | (.error e, s) => (.error e, s, b)
  | (.ok settled, s) =>
    let b := s.forget (expired ++ settled) b
    match oversizedError haul with
    | some e => (.error e, s, b)
    | none => (.ok collected, s, b)

/-- Hands out messages to a consumer.  What is too old goes first, and what was settled along the
way goes if the retention policy does not keep it. -/
def collect (s : Stream) (c : Consumer) (l : Cursor.Limits) (clock : Clock) (b : Backend) :
    Except Error Collected × Stream × Backend :=
  match s.reduce (Retention.expire s.settings clock.wall) with
  | (.error e, s) => (.error e, s, b)
  | (.ok expired, s) =>
    let (cursor, haul) := c.cursor.collect s.index l clock.elapsed
    if cursor.isInRange then s.handOut c.id cursor haul expired b
    else
      let cursor := c.cursor.collectStuck s.index l clock.elapsed
      (.error .numbersExhausted, s.modifyConsumer c.id (·.mapCursor fun _ => cursor), b)

/-- What a consumer hears when its acknowledgement could not be noted: nothing, unless it waits for
it. -/
def unnotedReply (kind : AckKind) : Except Error Unit :=
  if kind = .confirmedAck then .error .ackDropped else .ok ()

/-- Notes what a consumer says about a delivery.  What was settled goes if the retention policy does
not keep it.  If it cannot go, no more acknowledgements are noted. -/
def acknowledge (s : Stream) (c : Consumer) (n : Nat) (kind : AckKind) (clock : Clock)
    (b : Backend) : Except Error Unit × Stream × Backend :=
  if s.takesAcks then
    let (settled, cursor) := c.cursor.acknowledge n kind clock.elapsed
    let s := s.modifyConsumer c.id (·.mapCursor fun _ => cursor)
    match s.reduceAll (s.releasing settled) b with
    | (.error _, s, b) => (unnotedReply kind, { s with takesAcks := false }, b)
    | (.ok (), s, b) => (.ok (), s.modifyConsumer c.id Consumer.notify, b)
  else (.error (.acksStopped s.name), s, b)

/-! ## Sweeping -/

/-- Whether a consumer has done nothing for too long and has no subscription. -/
def isAbandoned (now : Instant) (c : Consumer) : Bool := !c.bound && c.cursor.isInactive now

/-- Deletes consumers one after the other; one that is gone already is passed over. -/
def deleteConsumers (s : Stream) : List String → Backend → Except Error Unit × Stream × Backend
  | [], b => (.ok (), s, b)
  | name :: names, b =>
    match s.deleteConsumer name b with
    | (.error .numbersExhausted, s, b) => (.error .numbersExhausted, s, b)
    | (_, s, b) => s.deleteConsumers names b

/-- Removes what is too old, and then the consumers that have done nothing for too long. -/
def sweep (s : Stream) (clock : Clock) (b : Backend) : Except Error Unit × Stream × Backend :=
  match s.evict clock.wall b with
  | (.error e, s, b) => (.error e, s, b)
  | (.ok (), s, b) =>
    s.deleteConsumers ((s.consumers.filter (isAbandoned clock.elapsed)).map (·.name)) b

/-! ## Looking -/

def consumerInfo (s : Stream) (c : Consumer) : ConsumerInfo :=
  { streamName := s.name
    name := c.name
    settings := c.cursor.settings
    created := c.created
    delivered := c.cursor.delivered
    ackFloor := c.cursor.ackFloor
    numAckPending := c.cursor.pending.size
    numRedelivered := c.cursor.redeliveredCount
    numWaiting := c.cursor.waiting
    numPending := c.cursor.pendingCount s.index
    pushBound := c.bound }

end Stream

end StreamBroker
