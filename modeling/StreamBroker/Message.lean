import StreamBroker.Text.Bytes
import StreamBroker.Text.Character
import StreamBroker.Timestamp.Basic

/-!
# Messages

A message has a subject, a payload and headers, which are pairs of names and values in order.  A
stream that accepts a message stores it with its number and the time of acceptance.

## Main definitions

* `Message`, `StoredMessage`: a message before and after it is stored.
* `Headers.find?`: the value of a header, whatever the case of its name; of several the last.
* `messageSize`: what a message counts for in limits on bytes.
-/

namespace StreamBroker

/-- Pairs of names and values, in order. -/
abbrev Headers := List (String × String)

/-- The value of the last header with a name, up to the case of ASCII letters. -/
def Headers.find? (headers : Headers) (name : String) : Option String :=
  (headers.reverse.find? fun h => Text.sameUpToCase h.1 name).map (·.2)

/-- A message to be published. -/
structure Message where
  /-- What the message is about. -/
  subject : String
  payload : Bytes
  /-- Names and values, in order. -/
  headers : Headers
  deriving DecidableEq, Repr

/-- A message as a stream holds it. -/
structure StoredMessage where
  /-- The number of the message in its stream. -/
  sequence : Nat
  subject : String
  payload : Bytes
  headers : Headers
  /-- When the stream accepted the message. -/
  timestamp : Timestamp
  deriving DecidableEq, Repr

/-- What every message counts for besides its contents. -/
def messageOverhead : Nat := 16

/-- The octets of names and values. -/
def Headers.size (headers : Headers) : Nat :=
  headers.foldl (fun n h => n + (h.1.utf8ByteSize + h.2.utf8ByteSize)) 0

/-- What a message counts for in limits on bytes: the octets of its subject, headers and payload,
and a fixed overhead. -/
def messageSize (subject : String) (headers : Headers) (payload : Bytes) : Nat :=
  subject.utf8ByteSize + headers.size + payload.length + messageOverhead

/-- What a message counts for in limits on bytes. -/
def Message.size (m : Message) : Nat := messageSize m.subject m.headers m.payload

/-- What a stored message counts for in limits on bytes. -/
def StoredMessage.size (m : StoredMessage) : Nat := messageSize m.subject m.headers m.payload

def Message.stored (m : Message) (sequence : Nat) (timestamp : Timestamp) : StoredMessage :=
  ⟨sequence, m.subject, m.payload, m.headers, timestamp⟩

/-! ## Names of headers -/

/-- The header that marks a message of a key-value bucket as a deletion. -/
def kvOperationHeader : String := "KV-Operation"

/-- The value of that header for a deletion. -/
def deleteMarker : String := "DEL"

/-- The value of that header for a deletion with all older revisions. -/
def purgeMarker : String := "PURGE"

/-- The header for the type of the payload. -/
def contentTypeHeader : String := "Content-Type"

end StreamBroker
