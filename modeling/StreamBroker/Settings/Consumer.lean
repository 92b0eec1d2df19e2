import StreamBroker.Settings.Broker
import StreamBroker.Settings.Stream

/-!
# Settings of a consumer

The name of a consumer, which messages it gets, how they are acknowledged, how much it may have in
hand, and how it is pulled from.

## Main definitions

* `ConsumerSettings`: the settings.
* `ConsumerSettings.check`: refuses settings that no consumer can have.
* `ConsumerSettings.withDefaults`: fills in what is left open.
* `SequencePair`, `ConsumerInfo`: what a consumer says about itself.
-/

namespace StreamBroker

open Json.Decoder Json.RecordDecoder

/-- How deliveries are acknowledged. -/
inductive AckPolicy where
  /-- Not at all; a delivery is settled at once. -/
  | none
  /-- Together with all deliveries of lower numbers. -/
  | all
  /-- Each on its own. -/
  | explicit
  deriving DecidableEq, Repr, Inhabited

/-- The names of the policies. -/
def AckPolicy.choices : List (String × AckPolicy) :=
  [("none", none), ("all", all), ("explicit", explicit)]

/-- Where a consumer begins. -/
inductive DeliverPolicy where
  /-- With the first message. -/
  | all
  /-- With the newest message that it gets. -/
  | last
  /-- With the next message. -/
  | new
  | byStartSequence (sequence : Nat)
  /-- With the newest message of every subject that it gets. -/
  | lastPerSubject
  deriving DecidableEq, Repr, Inhabited

namespace DeliverPolicy

/-- The names of the policies without a number. -/
def choices : List (String × DeliverPolicy) :=
  [("all", all), ("last", last), ("new", new), ("last_per_subject", lastPerSubject)]

def toJson : DeliverPolicy → Json
  | byStartSequence n => .obj [("by_start_sequence", .obj [("start_sequence", .ofNat n)])]
  | p => .choiceName choices p

/-- Reads a policy.  The number stands in an object of its own. -/
def decode : Json.Decoder DeliverPolicy
  | .obj [("by_start_sequence", .obj members)] =>
    Json.record (byStartSequence <$> required "start_sequence" word) (.obj members)
  | v => choice choices v

end DeliverPolicy

/-- The settings of a consumer. -/
structure ConsumerSettings where
  /-- The name of a consumer that lives until it is deleted. -/
  durableName : Option String := .none
  /-- The name of the consumer; one is made up when there is none. -/
  name : Option String := .none
  description : Option String := .none
  /-- The pattern of the subjects that the consumer gets; without, it gets all. -/
  filter : Option String := .none
  /-- Where the consumer begins. -/
  deliverPolicy : DeliverPolicy := .all
  /-- How deliveries are acknowledged. -/
  ackPolicy : AckPolicy := .explicit
  /-- How long a delivery may go unacknowledged before it is repeated. -/
  ackWait : Option Duration := .none
  maxDeliver : Option Nat := .none
  /-- How many deliveries may be unacknowledged. -/
  maxAckPending : Option Nat := .none
  maxWaiting : Option Nat := .none
  /-- How many messages a pull may ask for. -/
  maxBatch : Option Nat := .none
  /-- How many octets a pull may ask for. -/
  maxBytes : Option Nat := .none
  /-- How long a pull may ask to wait. -/
  maxExpires : Option Duration := .none
  /-- How long the consumer may be inactive before it is removed. -/
  inactiveThreshold : Option Duration := .none
  deriving DecidableEq, Repr, Inhabited

namespace ConsumerSettings

/-- Whether the consumer lives until it is deleted. -/
def isDurable (s : ConsumerSettings) : Bool := s.durableName.isSome

/-- The name that the settings give, if any. -/
def explicitName (s : ConsumerSettings) : Option String := s.durableName.or s.name

/-- Refuses durations of zero; the first is reported. -/
def checkDurations : List (String × Option Duration) → Except Error Unit
  | [] => .ok ()
  | (field, value) :: more =>
    if value = some Duration.zero then
      .error (.invalidConfig (field ++ " must be positive"))
    else checkDurations more

/-- Refuses two different names. -/
def checkNames (s : ConsumerSettings) : Except Error Unit :=
  match s.durableName, s.name with
  | some durable, some name =>
    if durable = name then .ok ()
    else .error (.invalidConfig s!"durable name '{durable}' and name '{name}' differ")
  | _, _ => .ok ()

/-- Refuses settings that no consumer can have. -/
def check (s : ConsumerSettings) : Except Error Unit := do
  s.checkNames
  match s.explicitName with
  | some name => checkName name
  | .none => pure ()
  match s.filter with
  | some filter => (checkPattern filter).mapError (.invalidFilter filter)
  | .none => pure ()
  checkPositive [("max_deliver", s.maxDeliver), ("max_ack_pending", s.maxAckPending),
    ("max_waiting", s.maxWaiting), ("max_batch", s.maxBatch), ("max_bytes", s.maxBytes)]
  checkDurations [("ack_wait", s.ackWait), ("max_expires", s.maxExpires),
    ("inactive_threshold", s.inactiveThreshold)]

/-- Fills in what the settings leave open.  A durable consumer is never too long inactive unless
it says so. -/
def withDefaults (s : ConsumerSettings) (d : BrokerSettings) : ConsumerSettings :=
  { s with
    name := s.name.or s.durableName
    ackWait := s.ackWait.or (some d.ackWait)
    maxAckPending := s.maxAckPending.or (some d.maxAckPending)
    maxWaiting := s.maxWaiting.or (some d.maxWaiting)
    inactiveThreshold :=
      if s.isDurable then s.inactiveThreshold
      else s.inactiveThreshold.or (some d.inactiveThreshold) }

/-- How long a delivery may go unacknowledged. -/
def ackWaitOrDefault (s : ConsumerSettings) : Duration :=
  s.ackWait.getD (Duration.ofSeconds 30)

/-- Whether the consumer gets messages of a subject. -/
def gets (s : ConsumerSettings) (subject : String) : Bool :=
  match s.filter with
  | some filter => subjectMatches subject filter
  | .none => true

def toJson (s : ConsumerSettings) : Json :=
  .obj [("durable_name", .ofOption .str s.durableName),
    ("name", .ofOption .str s.name),
    ("description", .ofOption .str s.description),
    ("filter_subject", .ofOption .str s.filter),
    ("deliver_policy", s.deliverPolicy.toJson),
    ("ack_policy", .choiceName AckPolicy.choices s.ackPolicy),
    ("ack_wait", .ofOption .ofDuration s.ackWait),
    ("max_deliver", .ofOption .ofNat s.maxDeliver),
    ("max_ack_pending", .ofOption .ofNat s.maxAckPending),
    ("max_waiting", .ofOption .ofNat s.maxWaiting),
    ("max_batch", .ofOption .ofNat s.maxBatch),
    ("max_bytes", .ofOption .ofNat s.maxBytes),
    ("max_expires", .ofOption .ofDuration s.maxExpires),
    ("inactive_threshold", .ofOption .ofDuration s.inactiveThreshold)]

/-- Reads settings; what a document leaves out has its default. -/
def decode : Json.Decoder ConsumerSettings :=
  let d : ConsumerSettings := {}
  Json.record (mk
    <$> defaulted "durable_name" (option text) d.durableName
    <*> defaulted "name" (option text) d.name
    <*> defaulted "description" (option text) d.description
    <*> defaulted "filter_subject" (option text) d.filter
    <*> defaulted "deliver_policy" DeliverPolicy.decode d.deliverPolicy
    <*> defaulted "ack_policy" (choice AckPolicy.choices) d.ackPolicy
    <*> defaulted "ack_wait" (option duration) d.ackWait
    <*> defaulted "max_deliver" (option word) d.maxDeliver
    <*> defaulted "max_ack_pending" (option word) d.maxAckPending
    <*> defaulted "max_waiting" (option word) d.maxWaiting
    <*> defaulted "max_batch" (option word) d.maxBatch
    <*> defaulted "max_bytes" (option word) d.maxBytes
    <*> defaulted "max_expires" (option duration) d.maxExpires
    <*> defaulted "inactive_threshold" (option duration) d.inactiveThreshold)

end ConsumerSettings

/-! ## What a consumer says about itself -/

/-- The number of a delivery of a consumer and the number of the message in its stream. -/
structure SequencePair where
  consumer : Nat
  /-- The number of the message. -/
  stream : Nat
  deriving DecidableEq, Repr, Inhabited

namespace SequencePair

def toJson (p : SequencePair) : Json :=
  .obj [("consumer_sequence", .ofNat p.consumer), ("stream_sequence", .ofNat p.stream)]

def decode : Json.Decoder SequencePair :=
  Json.record (mk <$> required "consumer_sequence" word <*> required "stream_sequence" word)

end SequencePair

/-- What a consumer says about itself. -/
structure ConsumerInfo where
  streamName : String
  name : String
  /-- Its settings, with nothing left open. -/
  settings : ConsumerSettings
  created : Timestamp
  /-- The last delivery. -/
  delivered : SequencePair
  /-- Up to where all deliveries are settled. -/
  ackFloor : SequencePair
  /-- How many deliveries are unacknowledged. -/
  numAckPending : Nat
  /-- How many of these were delivered more than once. -/
  numRedelivered : Nat
  numWaiting : Nat
  /-- How many messages are still to be delivered. -/
  numPending : Nat
  /-- Whether the consumer has a push subscription. -/
  pushBound : Bool
  deriving DecidableEq, Repr

namespace ConsumerInfo

def toJson (i : ConsumerInfo) : Json :=
  .obj [("stream_name", .str i.streamName), ("name", .str i.name),
    ("config", i.settings.toJson), ("created", .ofTimestamp i.created),
    ("delivered", i.delivered.toJson), ("ack_floor", i.ackFloor.toJson),
    ("num_ack_pending", .ofNat i.numAckPending), ("num_redelivered", .ofNat i.numRedelivered),
    ("num_waiting", .ofNat i.numWaiting), ("num_pending", .ofNat i.numPending),
    ("push_bound", .bool i.pushBound)]

def decode : Json.Decoder ConsumerInfo :=
  Json.record (mk
    <$> required "stream_name" text
    <*> required "name" text
    <*> required "config" ConsumerSettings.decode
    <*> required "created" timestamp
    <*> required "delivered" SequencePair.decode
    <*> required "ack_floor" SequencePair.decode
    <*> required "num_ack_pending" word
    <*> required "num_redelivered" word
    <*> required "num_waiting" word
    <*> required "num_pending" word
    <*> defaulted "push_bound" bool false)

end ConsumerInfo

end StreamBroker
