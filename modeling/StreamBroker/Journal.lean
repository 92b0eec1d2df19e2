import StreamBroker.Index
import StreamBroker.LogStore.Backend

/-!
# Journals

A stream that outlives its broker keeps a journal in the log store: an entry for every message under
its number, and at the bottom the watermark, the highest number that was ever given.  The watermark
is written before the entry of the highest number goes, so the numbers of a stream never start over.

## Main definitions

* `Journal.appendCall`: the call that writes a message.
* `Journal.removalCalls`: the calls that remove messages.
* `Journal.recover`: the messages and the watermark of a journal.
* `Backend.performAll`: calls one after the other, up to the first that fails.
-/

namespace StreamBroker

/-- Performs calls one after the other, up to the first that fails. -/
def Backend.performAll (b : Backend) : List LogCall → Except StorageError Unit × Backend
  | [] => (.ok (), b)
  | call :: calls =>
    match b.perform call with
    | (.ok _, b) => b.performAll calls
    | (.error e, b) => (.error e, b)

namespace Journal

/-- The namespace of the journal of a stream. -/
def namespaceOf (stream : String) : String := "stream_" ++ stream

/-- The number of the watermark; messages have higher numbers. -/
def watermarkIndex : Nat := 0

def encodeWatermark (n : Nat) : Bytes := Bytes.ofNat 8 n

/-- The watermark in octets. -/
def decodeWatermark (octets : Bytes) : Except StorageError Nat :=
  if octets.length = 8 then .ok (Bytes.toNat octets)
  else .error (.invalidValue ("watermark of " ++ Decimal.text octets.length ++ " bytes"))

/-! ## Writing -/

/-- The call that writes a message. -/
def appendCall (ns : String) (m : StoredMessage) : Except FormatError LogCall := do
  let entry ← Entry.encode m
  pure (.append ns [(m.sequence, entry)])

/-- The calls that remove messages which an index has lost: those below its first number at once,
then the watermark when it is needed, then the others one by one. -/
def removalCalls (ns : String) (x : Index) (gone : List Nat) : List LogCall :=
  let compacts := gone.any (· < x.firstSeq)
  let compaction := if compacts then [LogCall.compactBefore ns (x.firstSeq - 1)] else []
  -- Compaction takes the watermark with it, and with the newest message goes the number that stood
  -- for it.
  let watermark :=
    if compacts || gone.contains x.lastSeq then
      [LogCall.append ns [(watermarkIndex, encodeWatermark x.lastSeq)]]
    else []
  let deletions := (gone.filter (x.firstSeq ≤ ·)).map (LogCall.deleteEntry ns)
  if gone.isEmpty then [] else compaction ++ watermark ++ deletions

/-! ## Reading -/

/-- What a journal holds. -/
structure Recovered where
  /-- The messages, in ascending order of their entries. -/
  messages : List StoredMessage
  /-- The highest number that was ever given, as far as it is noted. -/
  watermark : Nat
  deriving DecidableEq, Inhabited

/-- The watermark in the entries that are read for it. -/
def watermarkOf : List (Nat × Bytes) → Except Error Nat
  | [] => .ok 0
  | e :: _ => (decodeWatermark e.2).mapError .storage

def messagesOf (entries : List (Nat × Bytes)) : Except Error (List StoredMessage) :=
  entries.mapM fun e => (Entry.decode e.2).mapError .format

/-- The largest number of sixty-four bits. -/
def lastIndex : Nat := wordLimit - 1

/-- Reads the messages above a watermark. -/
def recoverMessages (ns : String) (watermark : Nat) (b : Backend) :
    Except Error Recovered × Backend :=
  match b.bounds ns with
  | (.error e, b) => (.error (.storage e), b)
  | (.ok none, b) => (.ok ⟨[], watermark⟩, b)
  | (.ok (some (first, last)), b) =>
    match b.readRange ns (max first (watermarkIndex + 1)) (min (last + 1) lastIndex) with
    | (.error e, b) => (.error (.storage e), b)
    | (.ok entries, b) => ((messagesOf entries).map (⟨·, watermark⟩), b)

/-- Reads the messages and the watermark of a journal. -/
def recover (ns : String) (b : Backend) : Except Error Recovered × Backend :=
  match b.readRange ns watermarkIndex (watermarkIndex + 1) with
  | (.error e, b) => (.error (.storage e), b)
  | (.ok entries, b) =>
    match watermarkOf entries with
    | .error e => (.error e, b)
    | .ok watermark => recoverMessages ns watermark b

end Journal

end StreamBroker
