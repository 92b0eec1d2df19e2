import StreamBroker.Broker.Basic

/-!
# The consumers of a broker's streams

Consumers are created, changed, deleted and found by name, and acknowledge what they got.

## Main definitions

* `Broker.upsertConsumer`, `Broker.findConsumer`, `Broker.deleteConsumer`.
* `Broker.acknowledge`: what a consumer says about a delivery.
* `Broker.consumerInfo`, `Broker.consumerInfos`: what consumers say about themselves.
-/

namespace StreamBroker.Broker

/-- Creates or changes a consumer of a stream and tells its number. -/
def upsertConsumer (stream : Nat) (mode : UpsertMode) (settings : ConsumerSettings) :
    Action Broker Nat := do
  let id ← Action.answer freshId
  let madeUp ←
    match settings.explicitName with
    | some name => pure name
    | none => Action.answer freshName
  let b ← Action.read
  onStream stream fun s backend =>
    s.upsertConsumer mode id madeUp b.settings settings b.clock backend

def findConsumer (b : Broker) (stream : Nat) (name : String) : Except Error Consumer := do
  let s ← b.liveStream stream
  match s.consumer? name with
  | some c => .ok c
  | none => .error (.consumerNotFound name)

def deleteConsumer (stream : Nat) (name : String) : Action Broker Unit :=
  onStream stream fun s backend => s.deleteConsumer name backend

/-- Notes what a consumer says about a delivery. -/
def acknowledge (stream consumer n : Nat) (kind : AckKind) : Action Broker Unit := do
  let b ← Action.read
  let (s, c) ← b.liveConsumer stream consumer
  onStream s.id fun s backend => s.acknowledge c n kind b.clock backend

/-- The consumers of a stream in the order of their names; a stream that was deleted has none. -/
def sortedConsumers (b : Broker) (stream : Nat) : List Consumer :=
  (((b.streamById? stream).map Stream.consumers).getD []).mergeSort
    fun c d => decide (c.name ≤ d.name)

def consumerNames (b : Broker) (stream : Nat) : List String :=
  (b.sortedConsumers stream).map Consumer.name

/-- What the consumers of a stream say about themselves, in the order of their names. -/
def consumerInfos (b : Broker) (stream : Nat) : Except Error (List ConsumerInfo) := do
  let s ← b.liveStream stream
  pure ((b.sortedConsumers stream).map s.consumerInfo)

def consumerInfo (b : Broker) (stream consumer : Nat) : Except Error ConsumerInfo := do
  let (s, c) ← b.liveConsumer stream consumer
  pure (s.consumerInfo c)

end StreamBroker.Broker
