import StreamBroker.Broker.Push
import StreamBroker.Broker.Registry

/-!
# Running a broker

What waits is run until nothing is left to do at the present instant; then time goes on to the next
timer.  Everything that waits has its turn in the order in which it began to; only a pull that the
caller of an operation waits for looks before all others when its timer goes off.

## Main definitions

* `Broker.step?`: does one thing that is to be done now.
* `Broker.settle`: does all that is to be done now.
* `Broker.runUntil`: lets time go on until a condition holds, or up to an instant.
* `Broker.advance`, `Broker.fetch`, `Broker.join`, `Broker.nextPushed`, `Broker.nextMessage`: the
  operations that wait.
* `Broker.startSweeper`, `Broker.stopSweeper`, `Broker.restart`.
-/

namespace StreamBroker.Broker

/-! ## The sweeper -/

/-- The shortest time between two sweeps. -/
def shortestPeriod : Duration := Duration.ofMillis 10

/-- The time between two sweeps in nanoseconds: as the settings have it, but not less than the
shortest period, and cut off where every wait is. -/
def sweepPeriod (settings : BrokerSettings) : Nat :=
  min (max settings.sweepInterval.nanos shortestPeriod.nanos) Instant.longestWait.nanos

/-- Starts the sweeper; the first sweep is due at once. -/
def startSweeper (b : Broker) : Broker :=
  match b.sweeper with
  | some _ => b
  | none =>
    let sweeper := { period := sweepPeriod b.settings, next := some b.now, turn := b.turns }
    { b with sweeper := some sweeper, turns := b.turns + 1 }

def stopSweeper (b : Broker) : Broker := { b with sweeper := none }

/-- Sweeps some streams one after the other, unless it gets stuck on one. -/
def sweepStreams : List Nat → Action Broker Unit
  | [] => pure ()
  | id :: ids => do
    let b ← Action.read
    let _ ← (onStream id fun s backend => s.sweep b.clock backend).attempt
    sweepStreams ids

def nextSweep? (b : Broker) : Option Instant := do
  let w ← b.sweeper
  w.next

def dueSweeper? (b : Broker) : Option Sweeper :=
  b.sweeper.filter fun w => w.next.any fun next => decide (next.nextMilli ≤ b.now)

/-- Sweeps all streams, and sets the time of the next sweep; there is none after getting stuck. -/
def sweep (b : Broker) : Broker :=
  let (reply, b) := sweepStreams (b.streams.map Stream.id) b
  let later := fun w : Sweeper => match reply with
    | .ok () => w.next.map (· + w.period)
    | .error _ => none
  let sweeper := b.sweeper.map fun w => { w with next := later w, turn := b.turns }
  { b with sweeper, turns := b.turns + 1 }

/-! ## The present instant -/

def readyPull? (b : Broker) : Option Pull := b.pulls.find? fun p => !p.parked && b.isReady p

def readySubscription? (b : Broker) : Option Subscription := b.subscriptions.find? b.canProgress

/-- Does one thing that is to be done now.  Of a sweep and a pull, the one goes first that began to
wait first. -/
def step? (b : Broker) : Option Broker :=
  match b.dueSweeper?, b.readyPull? with
  | some w, some p => some (if p.turn < w.turn then resume p b else b.sweep)
  | some _, none => some b.sweep
  | none, some p => some (resume p b)
  | none, none => b.readySubscription?.map fun u => deliver u b

/-- Does things that are to be done now, up to a number of them. -/
def settleSteps : Nat → Broker → Broker
  | 0, b => b
  | n + 1, b =>
    match b.step? with
    | some b => settleSteps n b
    | none => b

/-- How many things can be to do at one instant: every pull looks a few times, and a subscription
goes on until its queue is full. -/
def workBound (b : Broker) : Nat :=
  4 * (b.pulls.length + 4) + b.subscriptions.length * (2 * pushBatch + 16)

/-- Does all that is to be done now. -/
def settle (b : Broker) : Broker := settleSteps b.workBound b

/-! ## Time -/

/-- When the next timer goes off. -/
def nextTimer (b : Broker) : Option Instant :=
  let wakes := (b.pulls.filter fun p => !p.parked).map fun p => p.wake.nextMilli
  let sweeps := (b.nextSweep?.map Instant.nextMilli).toList
  (wakes ++ sweeps).min?

def atInstant (b : Broker) (i : Instant) : Broker := { b with clock := b.clock.atInstant i }

/-- The next instant at which something may happen before a limit, and the limit if nothing does.
Time always goes on. -/
def nextInstant (b : Broker) (limit : Instant) : Instant :=
  match b.nextTimer with
  | some timer => min limit (max timer (b.now + Duration.nanosPerMilli))
  | none => limit

/-- Lets a pull look whose timer has gone off. -/
def lookIfDue (pull : Nat) (b : Broker) : Broker :=
  match b.pull? pull with
  | some p => if b.isDue p then lookAgain p b else b
  | none => b

/-- Lets time go on, in at most so many steps, until a condition holds or up to a limit.  A pull
that the caller waits for itself looks before all others when its timer goes off. -/
def runSteps (own : Option Nat) (stop : Broker → Bool) (limit : Instant) : Nat → Broker → Broker
  | 0, b => b
  | n + 1, b =>
    let b := own.elim b (lookIfDue · b)
    if stop b then b
    else
      -- All that is due at this instant is done before time goes on.
      let b := b.settle
      if stop b || decide (limit ≤ b.now) then b
      else runSteps own stop limit n (b.atInstant (b.nextInstant limit))

/-- Lets time go on until a condition holds or up to a limit. -/
def runUntil (own : Option Nat) (stop : Broker → Bool) (limit : Instant) (b : Broker) : Broker :=
  runSteps own stop limit ((limit - b.now) / Duration.nanosPerMilli + 2) b

/-- The instant a number of milliseconds from now. -/
def inMillis (b : Broker) (ms : Nat) : Instant := b.now + ms * Duration.nanosPerMilli

def advance (ms : Nat) (b : Broker) : Broker :=
  runUntil none (fun _ => false) (b.inMillis ms) b

/-! ## Operations that wait -/

/-- Waits until a pull is over, and takes what came of it; nothing comes of a pull that was given
up.  If the pull is the caller's own, it looks before all others. -/
def awaitPull (own : Option Nat) (pull : Nat) (b : Broker) :
    Option (Except Error (List Delivered)) × Broker :=
  let limit := match b.pull? pull with
    | some p => p.deadline.nextMilli
    | none => b.now
  let b := runUntil own (·.isDone pull) limit b
  (b.outcome? pull, b.forgetOutcome pull)

/-- Waits for a pull that goes on by itself. -/
def join (pull : Nat) (b : Broker) : Option (Except Error (List Delivered)) × Broker :=
  awaitPull none pull b

/-- Pulls messages from a consumer, waiting for them if need be. -/
def fetch (stream consumer : Nat) (r : PullRequest) : Action Broker (List Delivered) := fun b =>
  let (pull, b) := startPull stream consumer r b
  match awaitPull (some pull) pull b with
  | (some result, b) => (result, b)
  | (none, b) => (.ok [], b)

/-- Whether a subscriber does not have to wait any more. -/
def hasNews (id : Nat) (b : Broker) : Bool :=
  match (takeMessage id b).1 with
  | .nothing => false
  | _ => true

/-- Waits for the next message of a subscription.  What arrives when the wait ends is too late. -/
def nextPushed (id : Nat) (timeout : Nat) (b : Broker) : Option Delivered × Broker :=
  let limit := b.inMillis timeout
  let b := runUntil none (hasNews id) (limit - 1) b
  match takeMessage id b with
  | (.message d, b) => (some d, b)
  | (.nothing, b) => (none, b.atInstant limit)
  | (.ended, b) => (none, b)

/-! ## Iterators -/

/-- An iterator over the messages of a consumer. -/
def iterate (stream consumer : Nat) (b : Broker) : Nat × Broker :=
  let (id, b) := b.freshId
  (id, { b with iterators := b.iterators ++ [{ id, stream, consumer }] })

def putIterator (b : Broker) (i : MessageIterator) : Broker :=
  { b with iterators := b.iterators.map fun j => if j.id == i.id then i else j }

/-- What an iterator comes to. -/
inductive Iterated where
  | message (d : Delivered)
  /-- A refusal, after which it ends. -/
  | refused (e : Error)
  | timeout
  | ended

/-- Lets the pull of an iterator go on, or begins one. -/
def resumePull (i : MessageIterator) (b : Broker) : Nat × Broker :=
  match i.pull with
  -- A pull that was left waiting has missed what happened since; it looks before it waits on.
  | some id =>
    let b := park id false b
    match b.pull? id with
    | some p => (id, if b.isReady p then lookAgain p b else b)
    | none => (id, b)
  | none => startPull i.stream i.consumer {} b

/-- Waits for the next message of an iterator, with at most so many pulls. -/
def iterateSteps (i : MessageIterator) (limit : Instant) : Nat → Broker → Iterated × Broker
  | 0, b => (.timeout, b.putIterator i)
  | n + 1, b =>
    let (pull, b) := resumePull i b
    let b := if b.isDone pull then b else runUntil (some pull) (·.isDone pull) limit b
    match b.outcome? pull with
    | none => (.timeout, (park pull true b).putIterator { i with pull := some pull })
    | some result =>
      let b := b.forgetOutcome pull
      match result with
      | .error e => (.refused e, b.putIterator { i with pull := none, ended := true })
      | .ok (d :: _) => (.message d, b.putIterator { i with pull := none })
      | .ok [] => iterateSteps { i with pull := none } limit n b

def nextMessage (id : Nat) (timeout : Nat) (b : Broker) : Iterated × Broker :=
  match b.iterators.find? fun i => i.id == id with
  | none => (.ended, b)
  | some i =>
    if i.ended then (.ended, b)
    else iterateSteps i (b.inMillis timeout) (timeout + 2) b

/-- Ends an iterator; its pull is given up. -/
def dropIterator (id : Nat) (b : Broker) : Broker :=
  match b.iterators.find? fun i => i.id == id with
  | none => b
  | some i =>
    let b := match i.pull with
      | some pull => (abortPull pull b).forgetOutcome pull
      | none => b
    { b with iterators := b.iterators.filter fun j => j.id != id }

/-! ## Beginning anew -/

/-- A broker without streams, with a seed for the names that it makes up. -/
def start (settings : BrokerSettings) (seed : Nat) (clock : Clock) (backend : Backend) : Broker :=
  { settings, seed, clock, backend }

/-- A new broker on the same store, as after a crash: streams have to be created again, from what
their journals hold. -/
def restart (b : Broker) : Broker :=
  { start b.settings b.seed b.clock b.backend with nextId := b.nextId, namesMade := b.namesMade }

end StreamBroker.Broker
