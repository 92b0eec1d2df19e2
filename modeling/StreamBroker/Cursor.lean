import StreamBroker.Clock
import StreamBroker.Index
import StreamBroker.Settings.Consumer

/-!
# Cursors

A cursor goes through the messages of a stream in ascending order, hands them out, and keeps track
of what was handed out until it is settled.  A delivery that is not settled in time is handed out
again.  Below the floor of a cursor everything is settled.

## Main definitions

* `Cursor`: the position, the deliveries that are pending, and the floor.
* `Cursor.start`: where a cursor begins in an index.
* `Cursor.needs`: whether a message is still to be delivered or settled.
* `Cursor.collect`: hands out what is due, then what is new, within the limits of a pull.
* `Cursor.acknowledge`: what a consumer says about a delivery.
-/

namespace StreamBroker

/-- What a consumer says about a delivery. -/
inductive AckKind where
  /-- It is done. -/
  | ack
  /-- It is done, and the consumer waits until that is noted. -/
  | confirmedAck
  /-- It failed; it is to be delivered again, after a wait. -/
  | nak (delay : Option Duration)
  /-- It takes more time. -/
  | inProgress
  /-- It is never to be delivered again. -/
  | terminate
  deriving DecidableEq, Repr

/-- What a consumer says under a name, with the wait that it asks for, if any. -/
def AckKind.ofName? (name : String) (delay : Option Duration) : Option AckKind :=
  [("ack", ack), ("double_ack", confirmedAck), ("nak", nak delay), ("in_progress", inProgress),
    ("term", terminate)].lookup name

/-- A delivery that is not settled. -/
structure PendingDelivery where
  consumerSeq : Nat
  /-- How many times the message was handed out. -/
  deliveries : Nat
  /-- When it is handed out again. -/
  deadline : Instant
  deriving DecidableEq, Repr, Inhabited

/-- A message that is handed out. -/
structure Delivery where
  message : StoredMessage
  consumerSeq : Nat
  deliveries : Nat
  deriving DecidableEq, Repr

/-- Of the messages up to a number only some are delivered. -/
structure NewestOnly where
  cutoff : Nat
  /-- The messages that are delivered. -/
  sequences : SeqSet
  deriving DecidableEq, Repr

/-- The place of a consumer in its stream. -/
structure Cursor where
  settings : ConsumerSettings
  startSeq : Nat
  /-- What is left out of the messages that were there when the consumer began. -/
  newestOnly : Option NewestOnly
  /-- The number from which on nothing was looked at. -/
  nextSeq : Nat
  /-- The last new delivery. -/
  delivered : SequencePair
  /-- Up to where everything is settled. -/
  ackFloor : SequencePair
  /-- The deliveries that are not settled, under the numbers of their messages. -/
  pending : SeqMap PendingDelivery
  /-- The numbers above the floor that are settled. -/
  acked : SeqSet
  waiting : Nat
  /-- When the consumer last did something. -/
  lastActive : Instant
  deriving DecidableEq

namespace Cursor

/-- The first number that a consumer gets, by its settings. -/
def firstDelivery (settings : ConsumerSettings) (x : Index) : Nat :=
  match settings.deliverPolicy with
  | .all => x.firstSeq
  | .new => x.lastSeq + 1
  | .last =>
    match (x.toList.filter fun m => settings.gets m.subject).getLast? with
    | some m => m.sequence
    | none => x.lastSeq + 1
  | .byStartSequence n => max n 1
  | .lastPerSubject => x.firstSeq

/-- What a consumer of the newest messages of every subject leaves out. -/
def newestOf (settings : ConsumerSettings) (x : Index) : Option NewestOnly :=
  match settings.deliverPolicy with
  | .lastPerSubject =>
    some ⟨x.lastSeq,
      SeqSet.ofList ((x.lastPerSubject (settings.filter.getD ">")).map (·.sequence))⟩
  | _ => none

def start (settings : ConsumerSettings) (x : Index) (now : Instant) : Cursor :=
  let first := firstDelivery settings x
  { settings
    startSeq := first
    newestOnly := newestOf settings x
    nextSeq := first
    delivered := ⟨0, first - 1⟩
    ackFloor := ⟨0, first - 1⟩
    pending := SeqMap.empty
    acked := SeqMap.empty
    waiting := 0
    lastActive := now }

/-! ## What a consumer needs -/

/-- Whether a message is among those that a consumer gets at all. -/
def isEligible (c : Cursor) (n : Nat) (subject : String) : Bool :=
  decide (c.startSeq ≤ n) && c.settings.gets subject &&
    match c.newestOnly with
    | some newest => decide (newest.cutoff < n) || newest.sequences.contains n
    | none => true

/-- Whether a message is settled. -/
def isAcked (c : Cursor) (n : Nat) : Bool :=
  decide (n ≤ c.ackFloor.stream) || c.acked.contains n

/-- Whether a message is still to be delivered or settled. -/
def needs (c : Cursor) (n : Nat) (subject : String) : Bool :=
  c.isEligible n subject && (decide (c.nextSeq ≤ n) || !c.isAcked n)

def pendingCount (c : Cursor) (x : Index) : Nat :=
  (x.startingAt c.nextSeq).countP fun m => c.isEligible m.sequence m.subject

/-- How many deliveries are repeated ones that are not settled. -/
def redeliveredCount (c : Cursor) : Nat :=
  c.pending.values.countP fun p => decide (1 < p.deliveries)

/-- When the next delivery is repeated. -/
def nextDeadline (c : Cursor) : Option Instant := (c.pending.values.map (·.deadline)).min?

/-! ## The floor -/

/-- The floor below the first pending delivery, or at the last delivery when none is pending. -/
def lowestOpen (c : Cursor) : SequencePair :=
  match c.pending.first? with
  | some (n, p) => ⟨p.consumerSeq - 1, n - 1⟩
  | none => c.delivered

/-- Moves the floor up to the first pending delivery. -/
def advanceFloor (c : Cursor) : Cursor :=
  let floor := c.lowestOpen
  { c with ackFloor := floor, acked := c.acked.startingAt (floor.stream + 1) }

/-- Settles deliveries. -/
def settle (c : Cursor) (ns : List Nat) : Cursor :=
  if ns.isEmpty then c
  else advanceFloor { c with acked := ns.foldl SeqSet.add c.acked }

/-- Forgets the pending deliveries of messages that are gone. -/
def dropRemoved (c : Cursor) (x : Index) : Cursor :=
  let kept := c.pending.filter fun n _ => x.contains n
  if kept.size = c.pending.size then c else advanceFloor { c with pending := kept }

/-! ## Handing out -/

/-- How much a pull takes. -/
structure Limits where
  batch : Nat
  maxBytes : Option Nat := none
  deriving DecidableEq, Repr

/-- What is handed out. -/
structure Haul where
  deliveries : List Delivery := []
  /-- The messages that need no acknowledgement any more. -/
  settled : List Nat := []
  /-- The size of a message that does not fit into an empty haul. -/
  oversized : Option Nat := none
  bytes : Nat := 0
  deriving DecidableEq, Inhabited

/-- Whether the haul has all messages that it may have. -/
def Limits.isReached (l : Limits) (h : Haul) : Bool := decide (l.batch ≤ h.deliveries.length)

/-- Whether there is room for a message. -/
def Limits.fits (l : Limits) (h : Haul) (size : Nat) : Bool :=
  match l.maxBytes with
  | some most => decide (h.bytes + size ≤ most)
  | none => true

def Haul.add (h : Haul) (d : Delivery) : Haul :=
  { h with deliveries := h.deliveries ++ [d], bytes := h.bytes + d.message.size }

/-- The haul with a message that needs no acknowledgement any more. -/
def Haul.settle (h : Haul) (n : Nat) : Haul := { h with settled := h.settled ++ [n] }

/-- The haul when there is no room for a message. -/
def Haul.refuse (h : Haul) (size : Nat) : Haul :=
  if h.deliveries.isEmpty then { h with oversized := some size } else h

/-- Whether a delivery is not to be repeated any more. -/
def isExhausted (c : Cursor) (p : PendingDelivery) : Bool :=
  match c.settings.maxDeliver with
  | some most => decide (most ≤ p.deliveries)
  | none => false

/-- When a delivery that is made now is repeated. -/
def redeliveryAt (c : Cursor) (now : Instant) : Instant := now.after c.settings.ackWaitOrDefault

def giveUp (c : Cursor) (n : Nat) : Cursor :=
  { c with pending := c.pending.erase n, acked := c.acked.add n }

def repeatDelivery (c : Cursor) (now : Instant) (n : Nat) : Cursor :=
  { c with
    pending := c.pending.modify n fun p =>
      { p with deliveries := p.deliveries + 1, deadline := c.redeliveryAt now } }

/-- Hands out pending deliveries again. -/
def redeliver (x : Index) (l : Limits) (now : Instant) : List Nat → Cursor → Haul → Cursor × Haul
  | [], c, h => (c, h)
  | n :: ns, c, h =>
    if l.isReached h then (c, h)
    else match x.get? n, c.pending.get? n with
      | some m, some p =>
        if c.isExhausted p then redeliver x l now ns (c.giveUp n) (h.settle n)
        else if l.fits h m.size then
          redeliver x l now ns (c.repeatDelivery now n) (h.add ⟨m, p.consumerSeq, p.deliveries + 1⟩)
        else (c, h.refuse m.size)
      | _, _ => redeliver x l now ns c h

/-- Whether no more deliveries may be pending. -/
def isBlocked (c : Cursor) : Bool :=
  !decide (c.settings.ackPolicy = .none) &&
    match c.settings.maxAckPending with
    | some most => decide (most ≤ c.pending.size)
    | none => false

/-- The cursor after a message is handed out for the first time.  Without acknowledgements it is
settled at once. -/
def deliver (c : Cursor) (now : Instant) (n : Nat) : Cursor :=
  let number := c.delivered.consumer + 1
  let c := { c with nextSeq := n + 1, delivered := ⟨number, n⟩ }
  if c.settings.ackPolicy = .none then { c with acked := c.acked.add n }
  else { c with pending := c.pending.insert n ⟨number, 1, c.redeliveryAt now⟩ }

/-- Hands out messages for the first time. -/
def deliverNew (x : Index) (l : Limits) (now : Instant) :
    List StoredMessage → Cursor → Haul → Cursor × Haul
  | ms, c, h =>
    if l.isReached h || c.isBlocked then (c, h)
    else match ms with
      -- Nothing is left: the numbers up to the last one need not be looked at again.
      | [] => ({ c with nextSeq := max c.nextSeq (x.lastSeq + 1) }, h)
      | m :: ms =>
        if !c.isEligible m.sequence m.subject then deliverNew x l now ms c h
        else if l.fits h m.size then
          let next := c.deliver now m.sequence
          let h := h.add ⟨m, next.delivered.consumer, 1⟩
          deliverNew x l now ms next
            (if c.settings.ackPolicy = .none then h.settle m.sequence else h)
        else (c, h.refuse m.size)

def due (c : Cursor) (now : Instant) : List Nat :=
  (c.pending.filter fun _ p => decide (p.deadline ≤ now)).keys

def collectDue (c : Cursor) (x : Index) (l : Limits) (now : Instant) : Cursor × Haul :=
  let c := { c.dropRemoved x with lastActive := now }
  redeliver x l now (c.due now) c {}

/-- Hands out what is due, then what is new, within the limits of a pull. -/
def collect (c : Cursor) (x : Index) (l : Limits) (now : Instant) : Cursor × Haul :=
  let (c, h) := c.collectDue x l now
  -- A repeated delivery that fits into no haul is refused before anything new is handed out.
  let (c, h) :=
    if h.oversized.isSome then (c, h)
    else deliverNew x l now (x.startingAt c.nextSeq) c h
  (if h.settled.isEmpty then c else c.advanceFloor, h)

/-- Whether the number that a cursor goes on with exists. -/
def isInRange (c : Cursor) : Bool := decide (c.nextSeq < wordLimit)

/-- The cursor when handing out leads to a number that does not exist.  What was handed out before
stays pending, and the cursor goes on behind it. -/
def collectStuck (c : Cursor) (x : Index) (l : Limits) (now : Instant) : Cursor :=
  let (c, h) := c.collectDue x l now
  let new := (x.startingAt c.nextSeq).filter fun m => decide (m.sequence + 1 < wordLimit)
  let after := (deliverNew x l now new c h).1
  { after with
    nextSeq := if after.delivered = c.delivered then c.nextSeq else after.delivered.stream + 1 }

/-! ## Acknowledgements -/

/-- The numbers that an acknowledgement settles. -/
def settledBy (c : Cursor) (n : Nat) : AckKind → List Nat
  | .ack | .confirmedAck =>
    match c.settings.ackPolicy with
    | .none => []
    | .explicit => if c.pending.contains n then [n] else []
    | .all => c.pending.keys.filter (· ≤ n)
  | .nak _ | .inProgress => []
  | .terminate => if c.pending.contains n then [n] else []

/-- When a delivery is repeated because of what the consumer says, if that changes. -/
def newDeadline (c : Cursor) (now : Instant) : AckKind → Option Instant
  | .nak delay => some (now.after (delay.getD Duration.zero))
  | .inProgress => some (c.redeliveryAt now)
  | _ => none

/-- The numbers that an acknowledgement settles, and the cursor after it.  What is not pending is
not acknowledged. -/
def acknowledge (c : Cursor) (n : Nat) (kind : AckKind) (now : Instant) : List Nat × Cursor :=
  let settled := c.settledBy n kind
  let pending := settled.foldl SeqMap.erase c.pending
  let pending := match c.newDeadline now kind with
    | some deadline => pending.modify n fun p => { p with deadline }
    | none => pending
  (settled, { c with pending, lastActive := now }.settle settled)

/-! ## Waiting and activity -/

/-- The cursor of a consumer that did something. -/
def touch (c : Cursor) (now : Instant) : Cursor := { c with lastActive := now }

/-- Whether one more pull may wait. -/
def mayWait (c : Cursor) : Bool :=
  match c.settings.maxWaiting with
  | some most => decide (c.waiting < most)
  | none => true

def addWaiting (c : Cursor) (now : Instant) : Cursor :=
  { c with waiting := c.waiting + 1, lastActive := now }

def removeWaiting (c : Cursor) (now : Instant) : Cursor :=
  { c with waiting := c.waiting - 1, lastActive := now }

/-- Whether a consumer has done nothing for too long. -/
def isInactive (c : Cursor) (now : Instant) : Bool :=
  decide (c.waiting = 0) &&
    match c.settings.inactiveThreshold with
    | some threshold => decide (threshold.nanos ≤ now - c.lastActive)
    | none => false

end Cursor

end StreamBroker
