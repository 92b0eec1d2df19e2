import StreamBroker.Action
import StreamBroker.Stream.Log
import StreamBroker.Stream.Consumers

/-!
# Brokers

A broker keeps streams under their names in one log store, and runs what waits: pulls, push
subscriptions, iterators and the sweeper.

Streams and consumers are told apart by numbers that are never used again, so who holds on to one
that was deleted does not get at another one of its name.

## Main definitions

* `Broker`: the streams, what waits, the clock and the store.
* `Pull`, `Subscription`, `MessageIterator`, `Sweeper`: what waits.
* `Broker.onStream`: an operation on a stream that exists.
-/

namespace StreamBroker

/-- A message that a consumer got. -/
structure Delivered where
  delivery : Delivery
  /-- How many messages were still to be delivered. -/
  pendingCount : Nat
  stream : Nat × String
  consumer : Nat × String
  deriving DecidableEq

/-- What a pull asks for. -/
structure PullRequest where
  batch : Nat := 1
  maxBytes : Option Nat := none
  expires : Option Duration := none
  noWait : Bool := false
  deriving DecidableEq, Repr, Inhabited

/-- A pull that waits. -/
structure Pull where
  id : Nat
  stream : Nat
  consumer : Nat
  request : PullRequest
  deadline : Instant
  /-- When it looks again on its own. -/
  wake : Instant
  /-- The signal of the consumer that it has seen. -/
  seen : Nat := 0
  /-- Its turn among all that wait. -/
  turn : Nat := 0
  /-- Whether nobody waits for it at present. -/
  parked : Bool := false
  deriving DecidableEq, Repr

/-- A pull that is over. -/
structure Outcome where
  pull : Nat
  result : Except Error (List Delivered)

/-- How many messages there are, and how many octets of payload. -/
structure Queued where
  messages : Nat := 0
  bytes : Nat := 0
  deriving DecidableEq, Repr

/-- Messages that are pulled on behalf of a subscriber. -/
structure Subscription where
  id : Nat
  stream : Nat
  consumer : Nat
  /-- How many messages are pulled at once, and how many the queue holds. -/
  batch : Nat
  /-- The messages that the subscriber can take. -/
  queue : List Delivered := []
  /-- The messages that wait for room in the queue. -/
  outbox : List Delivered := []
  /-- What was offered to the subscriber and not taken. -/
  counted : Queued := {}
  /-- Whether the message that is next to go into the queue is counted. -/
  offering : Bool := false
  pull : Option Nat := none
  /-- Whether messages are still pulled. -/
  running : Bool := true

/-- One pull after the other for a reader that takes one message at a time. -/
structure MessageIterator where
  id : Nat
  stream : Nat
  consumer : Nat
  pull : Option Nat := none
  ended : Bool := false
  deriving DecidableEq, Repr

/-- What cleans up the streams from time to time. -/
structure Sweeper where
  /-- The time between two sweeps in nanoseconds. -/
  period : Nat
  /-- The next sweep, if there will be one. -/
  next : Option Instant
  /-- Its turn among all that wait. -/
  turn : Nat
  deriving DecidableEq, Repr

/-- The streams of a broker and what waits. -/
structure Broker where
  settings : BrokerSettings
  clock : Clock
  backend : Backend
  /-- The next number to tell things apart by. -/
  nextId : Nat := 0
  /-- What made-up names begin with; chosen so that nobody else comes up with them. -/
  seed : Nat
  namesMade : Nat := 0
  streams : List Stream := []
  formerStreams : List Stream := []
  /-- The pulls that wait, in the order in which they began to. -/
  pulls : List Pull := []
  /-- The pulls that are over and that nobody has asked about. -/
  outcomes : List Outcome := []
  subscriptions : List Subscription := []
  iterators : List MessageIterator := []
  sweeper : Option Sweeper := none
  /-- How many turns were given out. -/
  turns : Nat := 0

namespace Broker

def now (b : Broker) : Instant := b.clock.elapsed

/-! ## Numbers and names -/

/-- A number that was never used. -/
def freshId (b : Broker) : Nat × Broker := (b.nextId, { b with nextId := b.nextId + 1 })

/-- How many octets the hexadecimal digits of a made-up name stand for. -/
def nameWidth : Nat := 16

/-- What leads from one made-up name to the next.  It is odd, so no name comes again before all have
been made up. -/
def nameStride : Nat := 0x9E3779B97F4A7C15F39CC0605CEDC835

/-- The made-up name with a number: hexadecimal digits. -/
def nameOf (b : Broker) (n : Nat) : String :=
  Bytes.toHex (Bytes.ofNat nameWidth (b.seed + n * nameStride))

/-- A name that was never made up before. -/
def freshName (b : Broker) : String × Broker :=
  (b.nameOf b.namesMade, { b with namesMade := b.namesMade + 1 })

/-! ## Streams and consumers -/

def stream? (b : Broker) (name : String) : Option Stream :=
  b.streams.find? fun s => s.name == name

/-- The stream that is told apart by a number, deleted or not. -/
def streamById? (b : Broker) (id : Nat) : Option Stream :=
  (b.streams ++ b.formerStreams).find? fun s => s.id == id

/-- The name of a stream, deleted or not. -/
def streamName (b : Broker) (id : Nat) : String := ((b.streamById? id).map Stream.name).getD ""

/-- The stream of a name, or the refusal when there is none. -/
def findStream (b : Broker) (name : String) : Except Error Stream :=
  match b.stream? name with
  | some s => .ok s
  | none => .error (.streamNotFound name)

/-- A stream that was not deleted, or the refusal when it was. -/
def liveStream (b : Broker) (id : Nat) : Except Error Stream :=
  match b.streams.find? fun s => s.id == id with
  | some s => .ok s
  | none => .error (.streamNotFound (b.streamName id))

/-- The broker with a stream in place of the one with its number, deleted or not. -/
def putStream (b : Broker) (s : Stream) : Broker :=
  let change := List.map fun t : Stream => if t.id == s.id then s else t
  { b with streams := change b.streams, formerStreams := change b.formerStreams }

/-- The broker with one consumer changed, deleted or not. -/
def modifyConsumer (b : Broker) (stream consumer : Nat) (f : Consumer → Consumer) : Broker :=
  match b.streamById? stream with
  | some s => b.putStream (s.modifyConsumer consumer f)
  | none => b

def consumerById? (b : Broker) (stream consumer : Nat) : Option Consumer := do
  let s ← b.streamById? stream
  s.consumerById? consumer

def consumerName (b : Broker) (stream consumer : Nat) : String :=
  ((b.consumerById? stream consumer).map Consumer.name).getD ""

/-- A stream and one of its consumers that was not deleted, or the refusal when it was. -/
def liveConsumer (b : Broker) (stream consumer : Nat) : Except Error (Stream × Consumer) :=
  match b.streamById? stream with
  | none => .error (.consumerNotFound "")
  | some s =>
    match s.consumers.find? fun c => c.id == consumer with
    | some c => .ok (s, c)
    | none => .error (.consumerNotFound (b.consumerName stream consumer))

/-- An operation on a stream that was not deleted. -/
def onStream {α : Type} (id : Nat) (f : Stream → Backend → Except Error α × Stream × Backend) :
    Action Broker α := fun b =>
  match b.liveStream id with
  | .error e => (.error e, b)
  | .ok s =>
    let (reply, s, backend) := f s b.backend
    (reply, { b with backend }.putStream s)

/-- Removes what is too old from a stream that was not deleted. -/
def evict (id : Nat) : Action Broker Unit := fun b =>
  onStream id (fun s backend => s.evict b.clock.wall backend) b

/-- What a stream that was not deleted holds after what is too old has gone, if a check succeeds
before. -/
def inspect {α : Type} (id : Nat) (check : Except Error Unit) (f : Stream → Except Error α) :
    Action Broker α := fun b =>
  match b.liveStream id, check with
  | .error e, _ => (.error e, b)
  | .ok _, .error e => (.error e, b)
  | .ok _, .ok () =>
    match evict id b with
    | (.error e, b) => (.error e, b)
    | (.ok (), b) => (b.liveStream id >>= f, b)

end Broker

end StreamBroker
