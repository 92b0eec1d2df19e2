import StreamBroker.Message
import StreamBroker.Text.Decimal

/-!
# Stored messages as log entries

The binary form in which a stream keeps a message in a log.  All numbers are written with the most
significant octet first; every text, header and payload is preceded by its length:

```text
version 1        one octet
timestamp        eight octets, microseconds, two's complement
sequence         eight octets
subject          two octets of length, UTF-8
headers          two octets of count, then each header:
                   one octet of kind; kind 255 is followed by a name
                   two octets of length, UTF-8 (the value)
payload          four octets of length, octets
```

The two header names that occur most are written as a kind instead of a name.

## Main definitions

* `FormatError`: why a message has no binary form or octets are none.
* `Entry.encode`: the binary form of a message.
* `Entry.decode`: the message in a binary form; octets behind it are ignored.
-/

namespace StreamBroker

/-- Why a message has no binary form, or why octets are not one. -/
inductive FormatError where
  /-- The octets end inside the named part. -/
  | bufferTooSmall (part : String)
  /-- The named part is longer than its length can say. -/
  | fieldTooLong (part : String)
  /-- No header has this kind. -/
  | invalidHeaderId (id : Nat)
  /-- No date exists for so many microseconds. -/
  | invalidTimestamp (micros : Int)
  /-- A text is not UTF-8. -/
  | invalidUtf8
  /-- The octets are of another version. -/
  | unsupportedVersion (version : Nat)
  deriving DecidableEq, Repr

namespace FormatError

def label : FormatError → String
  | bufferTooSmall _ => "BufferTooSmall"
  | fieldTooLong _ => "FieldTooLong"
  | invalidHeaderId _ => "InvalidHeaderId"
  | invalidTimestamp _ => "InvalidTimestamp"
  | invalidUtf8 => "InvalidUtf8"
  | unsupportedVersion _ => "UnsupportedVersion"

/-- The cause in words, where the words are fixed. -/
def message? : FormatError → Option String
  | bufferTooSmall part => some ("Buffer too small while reading " ++ part)
  | fieldTooLong part => some ("Field too long: " ++ part)
  | invalidHeaderId id => some ("Invalid header ID: " ++ Decimal.text id)
  | invalidTimestamp micros =>
    some ("Invalid timestamp: " ++ String.ofList (Decimal.integer micros))
  | invalidUtf8 => none
  | unsupportedVersion version => some ("Unsupported format version: " ++ Decimal.text version)

end FormatError

namespace Entry

/-- The version that is written and read. -/
def version : UInt8 := 1

/-- The kind of a header whose name is written out. -/
def namedKind : UInt8 := 0xFF

/-- The kind of a header that is not written out by name. -/
def kind? (name : String) : Option UInt8 :=
  if name = kvOperationHeader then some 1
  else if name = contentTypeHeader then some 2
  else none

/-- The name of a header that is written by its kind. -/
def name? (kind : UInt8) : Option String :=
  if kind = 1 then some kvOperationHeader
  else if kind = 2 then some contentTypeHeader
  else none

/-! ## Encoding -/

/-- A length in so many octets, if it fits. -/
def lengthPrefix (width : Nat) (part : String) (n : Nat) : Except FormatError Bytes :=
  if n < Bytes.capacity width then .ok (Bytes.ofNat width n) else .error (.fieldTooLong part)

/-- A text behind its length in two octets. -/
def encodeText (part : String) (s : String) : Except FormatError Bytes := do
  let octets := Bytes.ofText s
  let len ← lengthPrefix 2 part octets.length
  pure (len ++ octets)

def encodeHeader (h : String × String) : Except FormatError Bytes := do
  let name ← match kind? h.1 with
    | some kind => pure [kind]
    | none => do
      let name ← encodeText "header name" h.1
      pure (namedKind :: name)
  let value ← encodeText "header value" h.2
  pure (name ++ value)

def encode (m : StoredMessage) : Except FormatError Bytes := do
  let count ← lengthPrefix 2 "headers" m.headers.length
  let payloadLength ← lengthPrefix 4 "payload" m.payload.length
  let subject ← encodeText "subject" m.subject
  let headers ← m.headers.mapM encodeHeader
  pure (version :: Bytes.ofNat 8 (m.timestamp.micros % wordLimit).toNat
    ++ Bytes.ofNat 8 m.sequence ++ subject ++ count ++ headers.flatten
    ++ payloadLength ++ m.payload)

/-! ## Decoding -/

def hasAtLeast (n : Nat) (octets : Bytes) : Bool := n == 0 || !(octets.drop (n - 1)).isEmpty

/-- The first so many octets, and the octets behind them. -/
def take (part : String) (n : Nat) (octets : Bytes) : Except FormatError (Bytes × Bytes) :=
  if hasAtLeast n octets then .ok (octets.take n, octets.drop n)
  else .error (.bufferTooSmall part)

def takeLength (part : String) (width : Nat) (octets : Bytes) :
    Except FormatError (Nat × Bytes) := do
  let (len, octets) ← take part width octets
  pure (Bytes.toNat len, octets)

def takeText (part : String) (n : Nat) (octets : Bytes) : Except FormatError (String × Bytes) := do
  let (text, octets) ← take part n octets
  match Bytes.toText? text with
  | some s => pure (s, octets)
  | none => throw .invalidUtf8

def takeHeader (octets : Bytes) : Except FormatError ((String × String) × Bytes) := do
  match octets with
  | [] => throw (.bufferTooSmall "header id")
  | kind :: octets =>
    let (name, octets) ←
      if kind = namedKind then do
        let (len, octets) ← takeLength "header name length" 2 octets
        takeText "header name" len octets
      else match name? kind with
        | some name => pure (name, octets)
        | none => throw (.invalidHeaderId kind.toNat)
    let (len, octets) ← takeLength "header value length" 2 octets
    let (value, octets) ← takeText "header value" len octets
    pure ((name, value), octets)

/-- So many headers, behind those that were read before, in reverse order. -/
def takeHeaders : Nat → Headers → Bytes → Except FormatError (Headers × Bytes)
  | 0, done, octets => .ok (done.reverse, octets)
  | n + 1, done, octets =>
    match takeHeader octets with
    | .ok (h, octets) => takeHeaders n (h :: done) octets
    | .error e => .error e

/-- A number of eight octets in two's complement. -/
def signed (octets : Bytes) : Int :=
  let n := Bytes.toNat octets
  if n < wordLimit / 2 then n else (n : Int) - wordLimit

def decode (octets : Bytes) : Except FormatError StoredMessage := do
  let (front, octets) ← take "entry prefix" 17 octets
  let version' := (front.headD 0)
  if version' ≠ version then throw (.unsupportedVersion version'.toNat)
  let micros := signed ((front.drop 1).take 8)
  if !Timestamp.inCalendar micros then throw (.invalidTimestamp micros)
  let sequence := Bytes.toNat (front.drop 9)
  let (len, octets) ← takeLength "subject length" 2 octets
  let (subject, octets) ← takeText "subject" len octets
  let (count, octets) ← takeLength "header count" 2 octets
  let (headers, octets) ← takeHeaders count [] octets
  let (len, octets) ← takeLength "payload length" 4 octets
  let (payload, _) ← take "payload" len octets
  pure ⟨sequence, subject, payload, headers, Timestamp.ofMicros micros⟩

end Entry

end StreamBroker
