import StreamBroker.Broker.Consumers

/-!
# Pulls

A pull asks a consumer for messages and waits until there are some, or until it has waited long
enough.  It looks whenever its consumer is told to look again, when a delivery is due to be
repeated, and at its deadline.  While it is under way it takes one of the places for waiting pulls.

## Main definitions

* `PullRequest.check`: refuses what a consumer does not allow.
* `Broker.startPull`: begins a pull, which may be over at once.
* `Broker.lookAgain`: one look of a pull that waits.
* `Broker.abortPull`: gives up a pull.
-/

namespace StreamBroker

/-- Refuses what a consumer does not allow. -/
def PullRequest.check (r : PullRequest) (settings : ConsumerSettings) : Except Error Unit := do
  if r.batch = 0 then throw (.invalidConfig "batch must be positive")
  match settings.maxBatch with
  | some most => if most < r.batch then throw (.exceededMaxBatch r.batch most)
  | none => pure ()
  match settings.maxBytes, r.maxBytes with
  | some most, some asked =>
    if most < asked then throw (.exceededMaxRequestMaxBytes asked most)
  | _, _ => pure ()
  match settings.maxExpires, r.expires with
  | some most, some asked =>
    if !r.noWait && most.nanos < asked.nanos then throw (.exceededMaxRequestExpires asked most)
  | _, _ => pure ()

/-- How long a pull waits: as it says, or as long as the broker has it, within what the consumer
allows. -/
def PullRequest.patience (r : PullRequest) (settings : ConsumerSettings) (default : Duration) :
    Duration :=
  match r.expires, settings.maxExpires with
  | some d, _ => d
  | none, some most => most.min default
  | none, none => default

namespace Broker

/-- The messages that a pull hands to its caller. -/
def deliveredBy (s : Stream) (c : Consumer) (collected : Collected) : List Delivered :=
  collected.deliveries.map fun delivery =>
    { delivery
      pendingCount := collected.pendingCount
      stream := (s.id, s.name)
      consumer := (c.id, c.name) }

/-- Takes a place for a waiting pull. -/
def takePlace (stream consumer : Nat) (b : Broker) : Broker :=
  b.modifyConsumer stream consumer (·.mapCursor (·.addWaiting b.now))

/-- Gives back a place for a waiting pull. -/
def leavePlace (stream consumer : Nat) (b : Broker) : Broker :=
  b.modifyConsumer stream consumer (·.mapCursor (·.removeWaiting b.now))

/-- Whether a pull is over when it has got some messages or none. -/
def isOver (b : Broker) (p : Pull) (got : List Delivered) : Bool :=
  !got.isEmpty || p.request.noWait || decide (p.deadline ≤ b.now)

/-- What a look of a pull leads to. -/
inductive PullStep where
  | over (result : Except Error (List Delivered))
  | waits (p : Pull)

/-- One look of a pull. -/
def glance (p : Pull) (b : Broker) : PullStep × Broker :=
  match b.liveConsumer p.stream p.consumer with
  | .error e => (.over (.error e), b)
  | .ok (s, c) =>
    let (reply, b) := onStream s.id (fun s backend =>
      s.collect c ⟨p.request.batch, p.request.maxBytes⟩ b.clock backend) b
    match reply with
    | .error e => (.over (.error e), b)
    | .ok collected =>
      let got := deliveredBy s c collected
      if isOver b p got then (.over (.ok got), b)
      else
        -- It looks again when a delivery is due to be repeated, even if nobody tells it to.
        let wake := match collected.nextDeadline with
          | some again => min again p.deadline
          | none => p.deadline
        (.waits { p with wake, seen := c.signal }, b)

/-- Ends a pull: its place is given back, and what came of it is kept for who asks. -/
def finishPull (p : Pull) (result : Except Error (List Delivered)) (b : Broker) : Broker :=
  let b := leavePlace p.stream p.consumer b
  { b with outcomes := b.outcomes ++ [⟨p.id, result⟩] }

/-- Lets a pull wait behind all others. -/
def lineUp (p : Pull) (b : Broker) : Broker :=
  { b with pulls := b.pulls ++ [{ p with turn := b.turns }], turns := b.turns + 1 }

/-- Lets a pull that is not among those that wait look once; if it goes on waiting, it does so
behind all others. -/
def lookOnce (p : Pull) (b : Broker) : Broker :=
  match glance p b with
  | (.over result, b) => finishPull p result b
  | (.waits p, b) => lineUp p b

/-- Refuses a pull that a consumer does not allow or has no place for. -/
def checkPull (c : Consumer) (r : PullRequest) : Except Error Unit := do
  r.check c.cursor.settings
  if !c.cursor.mayWait then throw (.exceededMaxWaiting c.name)

/-- Notes that a consumer was asked, if the request itself is allowed. -/
def noteAttempt (stream : Nat) (c : Consumer) (r : PullRequest) (b : Broker) : Broker :=
  match r.check c.cursor.settings with
  | .ok () => b.modifyConsumer stream c.id (·.mapCursor (·.touch b.now))
  | .error _ => b

/-- Begins a pull and tells its number; it may be over at once. -/
def startPull (stream consumer : Nat) (r : PullRequest) (b : Broker) : Nat × Broker :=
  let (id, b) := b.freshId
  match b.consumerById? stream consumer with
  | none => (id, { b with outcomes := b.outcomes ++ [⟨id, .error (.consumerNotFound "")⟩] })
  | some c =>
    match checkPull c r with
    | .error e =>
      let b := noteAttempt stream c r b
      (id, { b with outcomes := b.outcomes ++ [⟨id, .error e⟩] })
    | .ok () =>
      let b := takePlace stream consumer b
      let deadline :=
        b.now.after (r.patience c.cursor.settings b.settings.fetchExpires)
      (id, lookOnce { id, stream, consumer, request := r, deadline, wake := deadline } b)

/-! ## While pulls wait -/

/-- Whether the timer of a pull has gone off. -/
def isDue (b : Broker) (p : Pull) : Bool := decide (p.wake.nextMilli ≤ b.now)

/-- Whether a pull that waits is to look again. -/
def isReady (b : Broker) (p : Pull) : Bool :=
  b.isDue p ||
    match b.consumerById? p.stream p.consumer with
    | some c => decide (c.signal ≠ p.seen)
    | none => true

def withoutPull (b : Broker) (id : Nat) : Broker :=
  { b with pulls := b.pulls.filter fun p => p.id != id }

/-- Lets a pull that waits look again. -/
def lookAgain (p : Pull) (b : Broker) : Broker := lookOnce p (b.withoutPull p.id)

def pull? (b : Broker) (id : Nat) : Option Pull := b.pulls.find? fun p => p.id == id

def outcome? (b : Broker) (id : Nat) : Option (Except Error (List Delivered)) :=
  (b.outcomes.find? fun o => o.pull == id).map Outcome.result

def isDone (b : Broker) (id : Nat) : Bool := (b.outcome? id).isSome

/-- The broker after somebody has asked about a pull that is over. -/
def forgetOutcome (b : Broker) (id : Nat) : Broker :=
  { b with outcomes := b.outcomes.filter fun o => o.pull != id }

def abortPull (id : Nat) (b : Broker) : Broker :=
  match b.pull? id with
  | some p => leavePlace p.stream p.consumer (b.withoutPull id)
  | none => b

/-- Lets a pull wait with or without somebody who waits for it. -/
def park (id : Nat) (parked : Bool) (b : Broker) : Broker :=
  { b with pulls := b.pulls.map fun p => if p.id == id then { p with parked } else p }

end Broker

end StreamBroker
