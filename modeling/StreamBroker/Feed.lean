import StreamBroker.Stream.Log

/-!
# Feeds

A feed follows the messages of a pattern in a stream: first those that were there when it was
opened, then those that are announced.  Announcements wait in a ring of fixed size, which all feeds
of a stream share; a feed that is further behind goes on with the oldest that is left.

## Main definitions

* `Feed`: the place of a reader in the announcements of a stream.
* `Feed.unread`: the announcements that a feed has not read and can still read.
* `Feed.drain`: reads what is there, up to a number of items.
-/

namespace StreamBroker

/-- The place of a reader in the announcements of a stream. -/
structure Feed where
  stream : Nat
  /-- The pattern of the subjects that are followed. -/
  pattern : String
  /-- The messages that were there at first and are not read yet. -/
  snapshot : List StoredMessage
  /-- The number of the last message that was there at first. -/
  high : Nat
  /-- How many announcements were read or missed. -/
  position : Nat
  /-- How many announcements the ring holds. -/
  capacity : Nat
  deriving DecidableEq

namespace Feed

/-- How many announcements a ring holds: a power of two. -/
def ringSize (watchBuffer : Nat) : Nat := (max watchBuffer 1).nextPowerOfTwo

def start (s : Stream) (pattern : String) (beginning : WatchStart) (watchBuffer : Nat) : Feed :=
  { stream := s.id
    pattern
    snapshot := s.snapshot pattern beginning
    high := s.index.lastSeq
    position := s.events.length
    capacity := ringSize watchBuffer }

/-- Where a feed goes on: where it is, or at the oldest announcement that the ring holds. -/
def resume (f : Feed) (total : Nat) : Nat := max f.position (total - f.capacity)

/-- The announcements that a feed has not read and can still read, oldest first.  The events of a
stream are given newest first. -/
def unread (f : Feed) (events : List StoredMessage) : List StoredMessage :=
  (events.take (events.length - f.resume events.length)).reverse

/-- Whether a feed shows an announcement. -/
def shows (f : Feed) (m : StoredMessage) : Bool :=
  decide (f.high < m.sequence) && subjectMatches m.subject f.pattern

/-- Takes items from the front of a list, up to a number, and tells how many elements of the list
were passed on the way. -/
def takeItems {α β : Type} (item : β → Option α) : Nat → List β → List α × Nat
  | 0, _ => ([], 0)
  | _ + 1, [] => ([], 0)
  | n + 1, b :: bs =>
    match item b with
    | some a =>
      let (items, passed) := takeItems item n bs
      (a :: items, passed + 1)
    | none =>
      let (items, passed) := takeItems item (n + 1) bs
      (items, passed + 1)

/-- Reads what is there, up to a number of items. -/
def drain {α : Type} (f : Feed) (events : List StoredMessage) (item : StoredMessage → Option α)
    (most : Nat) : List α × Feed :=
  -- Nothing is announced to a reader that still has messages from the beginning to read.
  let (old, passed) := takeItems item most f.snapshot
  let news := f.unread events
  let (new, read) :=
    takeItems (fun m => if f.shows m then item m else none) (most - old.length) news
  (old ++ new,
    { f with
      snapshot := f.snapshot.drop passed
      position := f.resume events.length + read })

/-- How many items a feed can have at most. -/
def available (f : Feed) (events : List StoredMessage) : Nat :=
  f.snapshot.length + events.length

end Feed

end StreamBroker
