import StreamBroker.Broker.Registry

/-!
# The life of a stream

A stream is opened, operated on, and opened again by a broker that starts anew.  This module puts
all that can happen to it under one roof: the operations with their arguments, and the lives that
are made of them.  What is not the stream's own doing is a parameter, namely what happens to the
backend in between.

An operation that runs out of numbers does not come to an end, and neither does a life with it: the
broker that it happens to is not consulted again.  So a life goes on with operations that are
answered or refused, at whatever point of the numbers.

## Main definitions

* `StreamOp`, `StreamReply`, `StreamOp.run`: the operations and what they are answered with
* `StreamOp.IsProper`: what a broker sees to before it calls an operation
* `StreamEvent`, `Stream.Life`: what happened to a stream, and what can happen
* `StreamEvent.assigned`: the number that an event gave to a message
-/

namespace StreamBroker

/-- A clock tells a time that the calendar has a date for. -/
def Clock.IsDated (c : Clock) : Prop := Timestamp.inCalendar c.wall.micros = true

instance (c : Clock) : Decidable c.IsDated := inferInstanceAs (Decidable (_ = true))

/-! ## Operations -/

/-- What a subscriber or a waiting pull does to a consumer besides fetching. -/
inductive Attendance where
  /-- A pull begins to wait. -/
  | arrive
  /-- A pull ends. -/
  | leave
  /-- A pull is refused. -/
  | touch
  /-- A push subscription begins. -/
  | bind
  /-- A push subscription ends. -/
  | unbind
  deriving DecidableEq, Repr

/-- What attendance changes in a consumer. -/
def Attendance.change (now : Instant) : Attendance → Consumer → Consumer
  | arrive, c => c.mapCursor (·.addWaiting now)
  | leave, c => c.mapCursor (·.removeWaiting now)
  | touch, c => c.mapCursor (·.touch now)
  | bind, c => { c with bound := true }
  | unbind, c => { c with bound := false, cursor := c.cursor.touch now }

/-- An operation on a stream. -/
inductive StreamOp where
  /-- A message is to be stored. -/
  | publish (maxPayload : Nat) (e : Expectations) (m : Message)
  /-- A message is to go. -/
  | deleteMessage (n : Nat)
  /-- The messages that a request selects are to go. -/
  | purge (r : PurgeRequest)
  /-- What is too old goes, as before every look at the stream. -/
  | evict
  /-- The settings are to change. -/
  | changeSettings (settings : StreamSettings)
  /-- A consumer is to be created or changed. -/
  | upsertConsumer (mode : UpsertMode) (id : Nat) (madeUp : String) (defaults : BrokerSettings)
      (settings : ConsumerSettings)
  /-- A consumer is to be deleted. -/
  | deleteConsumer (name : String)
  /-- Messages are to be handed out to a consumer. -/
  | collect (consumer : Nat) (limits : Cursor.Limits)
  /-- A consumer says something about a delivery. -/
  | acknowledge (consumer n : Nat) (kind : AckKind)
  /-- What is too old goes, and consumers that do nothing. -/
  | sweep
  /-- A consumer is attended to. -/
  | attend (consumer : Nat) (a : Attendance)

/-- The answer to an operation. -/
inductive StreamReply where
  /-- It is done. -/
  | done
  /-- The message is stored under a number. -/
  | stored (n : Nat)
  /-- So many messages went. -/
  | removed (count : Nat)
  /-- The consumer has a number. -/
  | consumer (id : Nat)
  /-- These messages are handed out. -/
  | collected (c : Collected)
  deriving DecidableEq

namespace StreamOp

/-- An operation with its answer in a common form. -/
def answering {α : Type} (f : α → StreamReply) (r : Except Error α × Stream × Backend) :
    Except Error StreamReply × Stream × Backend := (r.1.map f, r.2.1, r.2.2)

/-- An operation on behalf of a consumer that exists. -/
def asConsumer (s : Stream) (id : Nat) (b : Backend)
    (f : Consumer → Except Error StreamReply × Stream × Backend) :
    Except Error StreamReply × Stream × Backend :=
  match s.consumers.find? fun c => c.id == id with
  | some c => f c
  | none => (.error (.consumerNotFound ""), s, b)

/-- The answer to an acknowledgement.  One that ran out of numbers is answered as if it had not,
but nobody notes another one. -/
def acknowledged (r : Except Error Unit × Stream × Backend) :
    Except Error StreamReply × Stream × Backend :=
  if r.2.1.takesAcks then answering (fun _ => .done) r else (.error .numbersExhausted, r.2)

/-- What an operation does to a stream and its backend. -/
def run (clock : Clock) (op : StreamOp) (s : Stream) (b : Backend) :
    Except Error StreamReply × Stream × Backend :=
  match op with
  | publish maxPayload e m => answering .stored (s.publish maxPayload clock e m b)
  | deleteMessage n => answering (fun _ => .done) (s.deleteMessage n b)
  | purge r => answering .removed (s.purge r b)
  | evict => answering (fun _ => .done) (s.evict clock.wall b)
  | changeSettings settings => answering (fun _ => .done) (s.changeSettings settings clock b)
  | upsertConsumer mode id madeUp defaults settings =>
    answering .consumer (s.upsertConsumer mode id madeUp defaults settings clock b)
  | deleteConsumer name => answering (fun _ => .done) (s.deleteConsumer name b)
  | collect consumer limits =>
    asConsumer s consumer b fun c => answering .collected (s.collect c limits clock b)
  | acknowledge consumer n kind =>
    asConsumer s consumer b fun c => acknowledged (s.acknowledge c n kind clock b)
  | sweep => answering (fun _ => .done) (s.sweep clock b)
  | attend consumer a => (.ok .done, s.modifyConsumer consumer (a.change clock.elapsed), b)

/-- What a broker sees to before it calls an operation: settings are acceptable and change nothing
that is fixed, and a consumer gets a number that no other has. -/
def IsProper (s : Stream) : StreamOp → Prop
  | changeSettings settings => settings.check = .ok () ∧ settings.name = s.name ∧
      Broker.checkFixed s.settings settings = .ok ()
  | upsertConsumer _ id .. => s.consumerById? id = none
  | _ => True

end StreamOp

/-! ## Lives -/

/-- What happened to a stream. -/
inductive StreamEvent where
  /-- It was opened for the first time. -/
  | opened
  /-- An operation came to an end that began when the stream was like this. -/
  | operated (before : Stream) (op : StreamOp) (reply : Except Error StreamReply)
  /-- Its broker ended when the stream was like this, and it was opened again. -/
  | reopened (before : Stream)

/-- The number that an event gave to a message. -/
def StreamEvent.assigned : StreamEvent → Option Nat
  | operated _ _ (.ok (.stored n)) => some n
  | _ => none

theorem StreamEvent.assigned_operated {s : Stream} {op : StreamOp}
    {reply : Except Error StreamReply} {n : Nat} :
    (operated s op reply).assigned = some n ↔ reply = .ok (.stored n) := by
  cases reply with
  | error e => simp [assigned]
  | ok r => cases r <;> simp [assigned]

namespace Stream

/-- What can happen to a stream from a backend on, with what others do to the backend: it is opened,
operated on, and opened again from its journal. -/
inductive Life (others : Backend → Backend → Prop) (b₀ : Backend) :
    List StreamEvent → Stream → Backend → Prop where
  | opened {id : Nat} {settings : StreamSettings} {clock : Clock} {s : Stream} {b : Backend}
      (hcheck : settings.check = .ok ()) (hclock : clock.IsDated)
      (h : open? id settings clock b₀ = (.ok s, b)) : Life others b₀ [.opened] s b
  | operated {events : List StreamEvent} {s s' : Stream} {b b' : Backend} {op : StreamOp}
      {clock : Clock} {reply : Except Error StreamReply} (life : Life others b₀ events s b)
      (hop : op.IsProper s) (hclock : clock.IsDated) (h : op.run clock s b = (reply, s', b'))
      (hreply : reply ≠ .error .numbersExhausted) :
      Life others b₀ (events ++ [.operated s op reply]) s' b'
  | reopened {events : List StreamEvent} {s s' : Stream} {b b' : Backend} {id : Nat}
      {settings : StreamSettings} {clock : Clock} (life : Life others b₀ events s b)
      (hs : s.isJournaled = true) (hcheck : settings.check = .ok ())
      (hname : settings.name = s.name) (hstorage : settings.storage = .file)
      (hclock : clock.IsDated) (h : open? id settings clock b = (.ok s', b')) :
      Life others b₀ (events ++ [.reopened s]) s' b'
  | elsewhere {events : List StreamEvent} {s : Stream} {b b' : Backend}
      (life : Life others b₀ events s b) (h : others b b') : Life others b₀ events s b'

end Stream

end StreamBroker
