import StreamBroker.Message
import StreamBroker.Json.Record

/-!
# Messages as documents

The JSON form of messages.  A payload is the list of its octets; where it is read, a text stands
for its octets in UTF-8.

## Main definitions

* `Message.toJson`, `Message.decode`.
* `StoredMessage.toJson`, `StoredMessage.decode`.
-/

namespace StreamBroker

open Json.Decoder Json.RecordDecoder

/-- A payload as a document. -/
def payloadToJson (payload : Bytes) : Json := .arr (payload.map fun b => .ofNat b.toNat)

def decodePayload : Json.Decoder Bytes
  | .str s => .ok (Bytes.ofText s)
  | v => list octet v

/-- Headers as a document. -/
def headersToJson (headers : Headers) : Json :=
  .arr (headers.map fun h => .arr [.str h.1, .str h.2])

def decodeHeaders : Json.Decoder Headers := list (pair text text)

namespace Message

def toJson (m : Message) : Json :=
  .obj [("subject", .str m.subject), ("payload", payloadToJson m.payload),
    ("headers", headersToJson m.headers)]

def decode : Json.Decoder Message :=
  Json.record (mk
    <$> required "subject" text
    <*> required "payload" decodePayload
    <*> required "headers" decodeHeaders)

end Message

namespace StoredMessage

def toJson (m : StoredMessage) : Json :=
  .obj [("sequence", .ofNat m.sequence), ("subject", .str m.subject),
    ("payload", payloadToJson m.payload), ("headers", headersToJson m.headers),
    ("timestamp", .ofTimestamp m.timestamp)]

def decode : Json.Decoder StoredMessage :=
  Json.record (mk
    <$> required "sequence" word
    <*> required "subject" text
    <*> required "payload" decodePayload
    <*> required "headers" decodeHeaders
    <*> required "timestamp" Json.Decoder.timestamp)

end StoredMessage

end StreamBroker
