import StreamBroker.SeqMap
import StreamBroker.Settings.Stream

/-!
# The index of a stream

An index holds the messages of a stream under their numbers, and beside them the numbers of every
subject, the size of all messages, and the bounds of the numbers.  The last number never goes back,
whatever is removed.

## Main definitions

* `Index`: the messages and what is counted about them.
* `Index.commit`, `Index.remove`: one message comes or goes.
* `Index.prepare`: the message that a publish would store, or why it is refused.
* `Index.purge`: the messages that a request selects go.
* `Index.restore`: the index of messages that were read back.
* `Index.isStuck`: whether the first number has nowhere to go.
-/

namespace StreamBroker

/-! ## The numbers of every subject -/

/-- The numbers of the messages of every subject. -/
abbrev SubjectIndex := List (String × SeqSet)

namespace SubjectIndex

def sequences (subject : String) (x : SubjectIndex) : SeqSet := (x.lookup subject).getD SeqMap.empty

def add (subject : String) (n : Nat) : SubjectIndex → SubjectIndex
  | [] => [(subject, SeqSet.ofList [n])]
  | e :: es => if e.1 = subject then (e.1, e.2.add n) :: es else e :: add subject n es

/-- The index without a number of a subject; a subject without numbers goes. -/
def discard (subject : String) (n : Nat) : SubjectIndex → SubjectIndex
  | [] => []
  | e :: es =>
    if e.1 = subject then
      if (e.2.erase n).isEmpty then es else (e.1, e.2.erase n) :: es
    else e :: discard subject n es

def matching (pattern : String) (x : SubjectIndex) : SubjectIndex :=
  x.filter fun e => subjectMatches e.1 pattern

end SubjectIndex

/-- The messages of a stream and what is counted about them. -/
structure Index where
  messages : SeqMap StoredMessage := SeqMap.empty
  subjects : SubjectIndex := []
  /-- The lowest number, or the one after the last when there is no message. -/
  firstSeq : Nat := 1
  /-- The highest number that was ever given. -/
  lastSeq : Nat := 0
  /-- The size of all messages. -/
  bytes : Nat := 0
  /-- When the message that came last was accepted. -/
  lastTimestamp : Option Timestamp := none
  deriving Inhabited, DecidableEq

namespace Index

def empty : Index := {}

def size (x : Index) : Nat := x.messages.size

def get? (x : Index) (n : Nat) : Option StoredMessage := x.messages.get? n

def contains (x : Index) (n : Nat) : Bool := (x.get? n).isSome

/-- The messages in the order of their numbers. -/
def toList (x : Index) : List StoredMessage := x.messages.values

def startingAt (x : Index) (n : Nat) : List StoredMessage := (x.messages.startingAt n).values

/-- The message with the lowest number. -/
def first? (x : Index) : Option StoredMessage := x.messages.first?.map (·.2)

/-! ## By subject -/

def lastForSubject (x : Index) (subject : String) : Option StoredMessage := do
  let last ← (SubjectIndex.sequences subject x.subjects).last?
  x.get? last.1

/-- The numbers of a subject, in ascending order. -/
def subjectSequences (x : Index) (subject : String) : List Nat :=
  (SubjectIndex.sequences subject x.subjects).toList

/-- The numbers of the messages of a pattern, in ascending order. -/
def matchingSequences (x : Index) (pattern : String) : List Nat :=
  (SeqSet.ofList ((SubjectIndex.matching pattern x.subjects).flatMap fun e => e.2.toList)).toList

/-- The newest message of every subject of a pattern, in the order of their numbers. -/
def lastPerSubject (x : Index) (pattern : String) : List StoredMessage :=
  let newest := (SubjectIndex.matching pattern x.subjects).filterMap fun e => do
    let last ← e.2.last?
    x.get? last.1
  newest.mergeSort fun a b => decide (a.sequence ≤ b.sequence)

/-- The messages of a pattern, in the order of their numbers. -/
def matching (x : Index) (pattern : String) : List StoredMessage :=
  x.toList.filter fun m => subjectMatches m.subject pattern

/-! ## Messages come and go -/

def commit (x : Index) (m : StoredMessage) : Index :=
  { messages := x.messages.insert m.sequence m
    subjects := SubjectIndex.add m.subject m.sequence x.subjects
    firstSeq :=
      if x.messages.isEmpty = true ∧ x.lastSeq < m.sequence then m.sequence else x.firstSeq
    lastSeq := max x.lastSeq m.sequence
    bytes := x.bytes + m.size
    lastTimestamp := some m.timestamp }

/-- The lowest number, when all messages are known. -/
def lowest (messages : SeqMap StoredMessage) (lastSeq : Nat) : Nat :=
  match messages.first? with
  | some e => e.1
  | none => lastSeq + 1

def remove (x : Index) (n : Nat) : Index :=
  match x.get? n with
  | none => x
  | some m =>
    { x with
      messages := x.messages.erase n
      subjects := SubjectIndex.discard m.subject n x.subjects
      -- A gap behind the first message does not move the first number.
      firstSeq := if n = x.firstSeq then lowest (x.messages.erase n) x.lastSeq else x.firstSeq
      bytes := x.bytes - m.size }

/-- The index without the messages of some numbers, and the numbers that there were messages of. -/
def removeAll (x : Index) : List Nat → List Nat × Index
  | [] => ([], x)
  | n :: ns =>
    if x.contains n then
      let (gone, x) := (x.remove n).removeAll ns
      (n :: gone, x)
    else x.removeAll ns

/-- Whether the first message is among those that go although the number behind the last one, where
the first number would go if no message were left, does not exist. -/
def isStuck (x : Index) (gone : List Nat) : Bool :=
  decide (wordLimit ≤ x.lastSeq + 1) && gone.contains x.firstSeq

/-- The index when its first number is stuck: the first message goes and those before it in order,
but not those behind it, and the first number stays where it was. -/
def removeStuck (x : Index) (gone : List Nat) : Index :=
  { (x.removeAll (gone.takeWhile (· != x.firstSeq) ++ [x.firstSeq])).2 with firstSeq := x.firstSeq }

/-- The index of messages that were read back, with the highest number that was ever given. -/
def restore (messages : List StoredMessage) (watermark : Nat) : Index :=
  let x := messages.foldl commit empty
  let lastSeq := max x.lastSeq watermark
  { x with lastSeq, firstSeq := lowest x.messages lastSeq }

/-! ## Requests -/

/-- Refuses a message for its subject or its size. -/
def checkMessage (settings : StreamSettings) (maxPayload : Nat) (m : Message) :
    Except Error Unit := do
  checkLiteralSubject m.subject
  if !settings.takes m.subject then throw (.subjectNotBound m.subject settings.name)
  if maxPayload < m.payload.length then throw (.payloadTooLarge m.payload.length maxPayload)
  match settings.maxMessageSize with
  | some most => if most < m.size then throw (.messageTooLarge m.size most)
  | none => pure ()

/-- Refuses a message when the stream is not as its publisher expects. -/
def checkExpectations (x : Index) (e : Expectations) (subject : String) : Except Error Unit := do
  match e.lastSequence with
  | some expected =>
    if expected ≠ x.lastSeq then throw (.wrongLastSequence expected x.lastSeq)
  | none => pure ()
  match e.lastSubjectSequence with
  | some expected =>
    let current := ((x.lastForSubject subject).map (·.sequence)).getD 0
    if expected ≠ current then throw (.wrongLastSubjectSequence expected subject current)
  | none => pure ()

/-- Refuses a message that a stream that keeps its old messages has no room for. -/
def checkRoom (x : Index) (settings : StreamSettings) (size : Nat) : Except Error Unit := do
  if settings.discard = .new then
    match settings.maxMessages with
    | some most => if most ≤ x.size then throw (.maximumMessagesExceeded settings.name most)
    | none => pure ()
    match settings.maxBytes with
    | some most => if most < x.bytes + size then throw (.maximumBytesExceeded settings.name most)
    | none => pure ()

/-- The message that a publish would store, or why it is refused.  The number is given only when
the message is committed. -/
def prepare (x : Index) (settings : StreamSettings) (maxPayload : Nat) (now : Timestamp)
    (e : Expectations) (m : Message) : Except Error StoredMessage := do
  checkMessage settings maxPayload m
  x.checkExpectations e m.subject
  x.checkRoom settings m.size
  if wordLimit ≤ x.lastSeq + 1 then throw .numbersExhausted
  pure (m.stored (x.lastSeq + 1) now)

/-- The numbers that a purge selects. -/
def purgeSelection (x : Index) (r : PurgeRequest) : List Nat :=
  let candidates := match r.filter with
    | some pattern => x.matchingSequences pattern
    | none => x.messages.keys
  match r.keep, r.sequence with
  | some keep, _ => candidates.take (candidates.length - keep)
  | none, some below => candidates.filter (· < below)
  | none, none => candidates

/-- The index after a purge, and the numbers that went. -/
def purge (x : Index) (r : PurgeRequest) : Except Error (List Nat × Index) :=
  if r.keep.isSome && r.sequence.isSome then
    .error (.invalidConfig "purge accepts either keep or sequence, not both")
  else .ok (x.removeAll (x.purgeSelection r))

def isCountable (x : Index) : Bool :=
  decide (x.size = 0) || decide (x.lastSeq - x.firstSeq + 1 < wordLimit)

/-- What is counted about the messages, with the counts of the subjects of a pattern. -/
def state (x : Index) (filter : Option String) (consumerCount : Nat) : StreamState :=
  { messages := x.size
    bytes := x.bytes
    firstSequence := x.firstSeq
    firstTimestamp := x.first?.map (·.timestamp)
    lastSequence := x.lastSeq
    lastTimestamp := x.lastTimestamp
    numSubjects := x.subjects.length
    numDeleted := if x.size = 0 then 0 else x.lastSeq - x.firstSeq + 1 - x.size
    consumerCount
    subjects := filter.map fun pattern =>
      (SubjectIndex.matching pattern x.subjects).map fun e => (e.1, e.2.size) }

end Index

end StreamBroker
