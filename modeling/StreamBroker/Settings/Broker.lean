import StreamBroker.Json.Record

/-!
# Settings of a broker

The settings that all streams and consumers of a broker share.  What a consumer leaves open is
filled in from the defaults here when it is created.

## Main definitions

* `BrokerSettings`: the settings.
* `BrokerSettings.chunkSize`: the size of the chunks that objects are cut into.
-/

namespace StreamBroker

open Json.Decoder Json.RecordDecoder

/-- The settings that all streams and consumers of a broker share. -/
structure BrokerSettings where
  /-- The time between two sweeps. -/
  sweepInterval : Duration := Duration.ofSeconds 1
  /-- How long a delivery may go unacknowledged, for consumers that do not say. -/
  ackWait : Duration := Duration.ofSeconds 30
  /-- How many deliveries may be unacknowledged, for consumers that do not say. -/
  maxAckPending : Nat := 1000
  /-- How many pulls may wait, for consumers that do not say. -/
  maxWaiting : Nat := 512
  /-- How long an ephemeral consumer may be inactive, for consumers that do not say. -/
  inactiveThreshold : Duration := Duration.ofSeconds 5
  /-- How long a pull waits, for pulls that do not say. -/
  fetchExpires : Duration := Duration.ofSeconds 5
  /-- How many events a feed may be behind. -/
  watchBuffer : Nat := 1024
  /-- The largest payload that is taken. -/
  maxPayload : Nat := 1048576
  /-- The size of the chunks of objects, as far as payloads may be so large. -/
  objectChunkSize : Nat := 131072
  deriving DecidableEq, Repr, Inhabited

namespace BrokerSettings

/-- The size of the chunks that objects are cut into: as set, but at least one octet and no more
than a payload may have. -/
def chunkSize (s : BrokerSettings) : Nat :=
  min (max s.objectChunkSize 1) (max s.maxPayload 1)

theorem chunkSize_pos (s : BrokerSettings) : 0 < s.chunkSize := by
  unfold chunkSize
  omega

def toJson (s : BrokerSettings) : Json :=
  .obj [("sweep_interval", .ofDuration s.sweepInterval),
    ("default_ack_wait", .ofDuration s.ackWait),
    ("default_max_ack_pending", .ofNat s.maxAckPending),
    ("default_max_waiting", .ofNat s.maxWaiting),
    ("default_inactive_threshold", .ofDuration s.inactiveThreshold),
    ("default_fetch_expires", .ofDuration s.fetchExpires),
    ("watch_buffer", .ofNat s.watchBuffer),
    ("max_payload", .ofNat s.maxPayload),
    ("object_chunk_size", .ofNat s.objectChunkSize)]

/-- Reads settings; what a document leaves out has its default. -/
def decode : Json.Decoder BrokerSettings :=
  let d : BrokerSettings := {}
  Json.record (mk
    <$> defaulted "sweep_interval" duration d.sweepInterval
    <*> defaulted "default_ack_wait" duration d.ackWait
    <*> defaulted "default_max_ack_pending" word d.maxAckPending
    <*> defaulted "default_max_waiting" word d.maxWaiting
    <*> defaulted "default_inactive_threshold" duration d.inactiveThreshold
    <*> defaulted "default_fetch_expires" duration d.fetchExpires
    <*> defaulted "watch_buffer" word d.watchBuffer
    <*> defaulted "max_payload" word d.maxPayload
    <*> defaulted "object_chunk_size" word d.objectChunkSize)

end BrokerSettings

end StreamBroker
