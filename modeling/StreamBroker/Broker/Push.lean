import StreamBroker.Broker.Pull

/-!
# Push subscriptions

A push subscription pulls messages on behalf of a subscriber and puts them into a queue, from which
the subscriber takes them.  The queue holds as many messages as are pulled at once; when it is full,
what was pulled waits in front of it and nothing more is pulled.  A consumer has at most one push
subscription.

## Main definitions

* `Broker.subscribe`, `Broker.subscribeFilter`: begins a subscription.
* `Broker.progress`: what was pulled goes into the queue, and the next pull begins.
* `Broker.deliver`: a subscription goes on until it has to wait.
* `Broker.takeMessage`: the subscriber takes a message.
* `Subscription.pump`: messages are counted and go into the queue, until one finds no room.
* `Subscription.pendingSize`: what was offered to the subscriber and not taken.
* `Broker.unsubscribe`, `Broker.dropSubscription`: ends a subscription.
-/

namespace StreamBroker

/-- How many messages a subscription pulls at once, unless its consumer allows less. -/
def pushBatch : Nat := 256

namespace Queued

/-- One more message. -/
def add (q : Queued) (d : Delivered) : Queued :=
  ⟨q.messages + 1, q.bytes + d.delivery.message.payload.length⟩

/-- One message less. -/
def take (q : Queued) (d : Delivered) : Queued :=
  ⟨q.messages - 1, q.bytes - d.delivery.message.payload.length⟩

end Queued

namespace Subscription

/-- How many messages, and octets of payload, were offered to the subscriber and not taken. -/
def pendingSize (u : Subscription) : Nat × Nat := (u.counted.messages, u.counted.bytes)

/-- Counts the message that is next to go into the queue, unless it is counted. -/
def count (u : Subscription) : Subscription :=
  match u.outbox with
  | d :: _ => if u.offering then u else { u with offering := true, counted := u.counted.add d }
  | [] => u

/-- Puts the message that was counted into the queue, if there is room. -/
def send (u : Subscription) : Subscription :=
  match u.outbox with
  | d :: outbox =>
    if u.offering && decide (u.queue.length < u.batch) then
      { u with queue := u.queue ++ [d], outbox, offering := false }
    else u
  | [] => u

/-- Offers messages one after the other, at most so many, until one finds no room. -/
def offer : Nat → Subscription → Subscription
  | 0, u => u
  | n + 1, u =>
    let u := u.count.send
    if u.offering then u else offer n u

/-- Fills up the queue. -/
def pump (u : Subscription) : Subscription := offer u.outbox.length u

/-- The subscriber takes the message in front of the queue. -/
def taken (u : Subscription) (d : Delivered) (queue : List Delivered) : Subscription :=
  { u with queue, counted := u.counted.take d }

/-- The subscription after its pull is over. -/
def receive (u : Subscription) : Except Error (List Delivered) → Subscription
  | .ok got => { u with pull := none, outbox := u.outbox ++ got }
  | .error _ => { u with pull := none, running := false }

/-- Whether the next pull can begin. -/
def isIdle (u : Subscription) : Bool := u.running && u.outbox.isEmpty && u.pull.isNone

/-- Whether the queue can be filled up. -/
def canPump (u : Subscription) : Bool := !u.outbox.isEmpty && decide (u.queue.length < u.batch)

end Subscription

namespace Broker

def subscription? (b : Broker) (id : Nat) : Option Subscription :=
  b.subscriptions.find? fun u => u.id == id

/-- The broker with a subscription in place of the one with its number. -/
def putSubscription (b : Broker) (u : Subscription) : Broker :=
  { b with subscriptions := b.subscriptions.map fun v => if v.id == u.id then u else v }

/-! ## Beginning -/

/-- Begins a subscription of a consumer and tells its number. -/
def subscribe (stream consumer : Nat) : Action Broker Nat := do
  let b ← Action.read
  let (s, c) ← b.liveConsumer stream consumer
  if c.bound then Action.refuse (.consumerAlreadyBound c.name)
  else do
    let id ← Action.answer freshId
    let batch := match c.cursor.settings.maxBatch with
      | some most => min most pushBatch
      | none => pushBatch
    Action.change fun b =>
      let b := b.modifyConsumer s.id c.id ({ · with bound := true })
      { b with subscriptions := b.subscriptions ++ [{ id, stream, consumer, batch }] }
    pure id

/-- The stream that takes all subjects of a pattern. -/
def streamHolding (b : Broker) (filter : String) : Except Error Stream := do
  checkFilter filter
  match b.streams.find? fun s => s.settings.holds filter with
  | some s => .ok s
  | none => .error (.noStreamHolds filter)

/-- Begins a subscription of a new ephemeral consumer of a pattern. -/
def subscribeFilter (filter : String) : Action Broker Nat := do
  let b ← Action.read
  let s ← b.streamHolding filter
  let consumer ← upsertConsumer s.id .create { filter := some filter }
  subscribe s.id consumer

/-! ## Delivering -/

def canProgress (b : Broker) (u : Subscription) : Bool :=
  u.canPump || u.isIdle ||
    match u.pull with
    | some id => b.isDone id
    | none => false

/-- Lets a subscription receive what came of its pull. -/
def receiveOutcome (u : Subscription) (b : Broker) : Subscription × Broker :=
  match u.pull with
  | none => (u, b)
  | some id =>
    match b.outcome? id with
    | some result => (u.receive result, b.forgetOutcome id)
    | none => (u, b)

/-- Begins the next pull of a subscription. -/
def beginPull (u : Subscription) (b : Broker) : Broker :=
  let (id, b) := startPull u.stream u.consumer { batch := u.batch } b
  b.putSubscription { u with pull := some id }

/-- What was pulled goes into the queue, and if all of it has found room the next pull begins. -/
def progress (u : Subscription) (b : Broker) : Broker :=
  let (u, b) := receiveOutcome u b
  let u := u.pump
  -- While anything waits in front of the queue nothing more is pulled.
  if u.isIdle then beginPull u b else b.putSubscription u

/-- Lets a subscription go on, at most so many times, until it has to wait for messages or for
room. -/
def deliverSteps (id : Nat) : Nat → Broker → Broker
  | 0, b => b
  | n + 1, b =>
    match b.subscription? id with
    | some u => if b.canProgress u then deliverSteps id n (progress u b) else b
    | none => b

/-- Lets a subscription go on until it has to wait.  Every pull but the last one brings a message
for the queue, so this is soon. -/
def deliver (u : Subscription) (b : Broker) : Broker := deliverSteps u.id (u.batch + 2) b

/-- Lets a pull that waits look again.  A subscription that it belongs to goes on at once if it is
over, so that the next pull of the subscription waits in front of all pulls that have not looked
yet. -/
def resume (p : Pull) (b : Broker) : Broker :=
  let b := lookAgain p b
  match b.subscriptions.find? fun u => u.pull == some p.id with
  | some u => deliver u b
  | none => b

/-- What a subscriber finds when it asks for a message. -/
inductive Taken where
  | message (d : Delivered)
  | nothing
  | ended

/-- The subscriber takes a message. -/
def takeMessage (id : Nat) (b : Broker) : Taken × Broker :=
  match b.subscription? id with
  | none => (.ended, b)
  | some u =>
    match u.queue with
    | d :: queue => (.message d, b.putSubscription (u.taken d queue))
    | [] => (if u.running || !u.outbox.isEmpty then .nothing else .ended, b)

/-! ## Ending -/

/-- Releases the consumer of a subscription. -/
def unbind (stream consumer : Nat) (b : Broker) : Broker :=
  b.modifyConsumer stream consumer fun c =>
    { c with bound := false, cursor := c.cursor.touch b.now }

/-- Ends a subscription; its pull is given up and its consumer is free for another one. -/
def dropSubscription (id : Nat) (b : Broker) : Broker :=
  match b.subscription? id with
  | none => b
  | some u =>
    let b := match u.pull with
      | some pull => (abortPull pull b).forgetOutcome pull
      | none => b
    let b := unbind u.stream u.consumer b
    { b with subscriptions := b.subscriptions.filter fun v => v.id != id }

/-- Ends a subscription.  A consumer that is not durable is deleted, by its name. -/
def unsubscribe (id : Nat) : Action Broker Unit := fun b =>
  match b.subscription? id with
  | none => (.ok (), b)
  | some u =>
    match b.consumerById? u.stream u.consumer with
    | none => (.ok (), dropSubscription id b)
    | some c =>
      if c.cursor.settings.isDurable then (.ok (), dropSubscription id b)
      else
        let (reply, b) := deleteConsumer u.stream c.name b
        (reply, dropSubscription id b)

end Broker

end StreamBroker
