import StreamBroker.Cursor
import StreamBroker.Retention
import StreamBroker.Journal

/-!
# Streams

A stream is an index of messages with the consumers that read it.  What leaves the index also
leaves the journal, if the stream keeps one; a journal that fails to let go of a message is put
right when it is read again.

When the numbers of sixty-four bits are used up, the first number of a stream cannot follow any more
when its first message goes.  The operation that would have moved it is refused, and leaves the
index as far as it had come.

## Main definitions

* `Consumer`: a cursor with its name.
* `Stream`: an index, its settings and its consumers.
* `Stream.isNeeded`: whether a consumer needs a message.
* `Stream.reduce`: what a function takes from the index goes.
* `Stream.discard`, `Stream.forget`: what went from the index goes from the journal.
* `Stream.evict`: what is too old goes.
-/

namespace StreamBroker

/-- A cursor with its name. -/
structure Consumer where
  /-- What tells the consumer apart from all others, also from former ones of its name. -/
  id : Nat
  name : String
  created : Timestamp
  /-- The place in the stream. -/
  cursor : Cursor
  /-- Whether the consumer has a push subscription. -/
  bound : Bool := false
  /-- How many times the pulls of the consumer were told to look again. -/
  signal : Nat := 0

namespace Consumer

/-- Tells the pulls of a consumer to look again. -/
def notify (c : Consumer) : Consumer := { c with signal := c.signal + 1 }

def mapCursor (f : Cursor → Cursor) (c : Consumer) : Consumer := { c with cursor := f c.cursor }

end Consumer

/-- An index of messages with the consumers that read it. -/
structure Stream where
  /-- What tells the stream apart from all others, also from former ones of its name. -/
  id : Nat
  settings : StreamSettings
  created : Timestamp
  index : Index
  consumers : List Consumer := []
  formerConsumers : List Consumer := []
  /-- The messages that were announced to feeds, newest first. -/
  events : List StoredMessage := []
  /-- Whether acknowledgements are still noted. -/
  takesAcks : Bool := true

namespace Stream

def name (s : Stream) : String := s.settings.name

/-- Whether the stream keeps a journal. -/
def isJournaled (s : Stream) : Bool := decide (s.settings.storage = .file)

def journal (s : Stream) : String := Journal.namespaceOf s.name

/-! ## Consumers -/

def consumer? (s : Stream) (name : String) : Option Consumer :=
  s.consumers.find? fun c => c.name == name

/-- The consumer that is told apart by a number, deleted or not. -/
def consumerById? (s : Stream) (id : Nat) : Option Consumer :=
  (s.consumers ++ s.formerConsumers).find? fun c => c.id == id

/-- Whether a consumer exists and was not deleted. -/
def hasConsumer (s : Stream) (id : Nat) : Bool := s.consumers.any fun c => c.id == id

/-- The stream with one consumer changed, deleted or not. -/
def modifyConsumer (s : Stream) (id : Nat) (f : Consumer → Consumer) : Stream :=
  let change := List.map fun c : Consumer => if c.id == id then f c else c
  { s with consumers := change s.consumers, formerConsumers := change s.formerConsumers }

/-- Tells the pulls of all consumers to look again. -/
def notifyAll (s : Stream) : Stream := { s with consumers := s.consumers.map Consumer.notify }

/-- Whether a consumer needs a message. -/
def isNeeded (s : Stream) (n : Nat) (subject : String) : Bool :=
  s.consumers.any fun c => c.cursor.needs n subject

/-! ## What leaves -/

/-- The stream with what a function leaves of its index, and what went. -/
def reduce (s : Stream) (f : Index → List Nat × Index) : Except Error (List Nat) × Stream :=
  let (gone, index) := f s.index
  if s.index.isStuck gone then
    (.error .numbersExhausted, { s with index := s.index.removeStuck gone })
  else (.ok gone, { s with index })

/-- Removes what went from the index from the journal. -/
def discard (s : Stream) (gone : List Nat) (b : Backend) : Except Error Unit × Backend :=
  if s.isJournaled then
    let (reply, b) := b.performAll (Journal.removalCalls s.journal s.index gone)
    (reply.mapError .storage, b)
  else (.ok (), b)

/-- Removes what went from the index from the journal; a failure is put right when the journal is
read again. -/
def forget (s : Stream) (gone : List Nat) (b : Backend) : Backend := (s.discard gone b).2

/-- The stream with what a function leaves of its index, also in the journal. -/
def reduceAll (s : Stream) (f : Index → List Nat × Index) (b : Backend) :
    Except Error Unit × Stream × Backend :=
  match s.reduce f with
  | (.error e, s) => (.error e, s, b)
  | (.ok gone, s) => (.ok (), s, s.forget gone b)

/-- Removes what is too old. -/
def evict (s : Stream) (now : Timestamp) (b : Backend) : Except Error Unit × Stream × Backend :=
  s.reduceAll (Retention.expire s.settings now) b

/-- What the retention policy keeps of messages that a consumer has settled. -/
def releasing (s : Stream) (settled : List Nat) (x : Index) : List Nat × Index :=
  Retention.release s.settings.retention s.isNeeded settled x

/-- Removes what no consumer needs, if the stream keeps only what is needed. -/
def releaseUnclaimed (s : Stream) (b : Backend) : Except Error Unit × Stream × Backend :=
  if s.settings.retention = .interest then
    s.reduceAll (Retention.releaseUnclaimed s.isNeeded) b
  else (.ok (), s, b)

end Stream

end StreamBroker
