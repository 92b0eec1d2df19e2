import StreamBroker.Index

/-!
# Retention

Messages leave a stream when they are too old, when there are too many of them, or when no consumer
needs them any more.  Every function here removes messages from an index and returns the numbers
that went, in the order in which they went.

## Main definitions

* `Retention.expire`: what is too old goes.
* `Retention.enforceLimits`: what is too much goes, the oldest first.
* `Retention.release`: of messages that were settled, what the retention policy does not keep goes.
* `Retention.releaseUnclaimed`: what no consumer needs goes.
-/

namespace StreamBroker.Retention

/-- Whether a message is too old. -/
def isExpired (maxAge : Duration) (now : Timestamp) (m : StoredMessage) : Bool :=
  decide (m.timestamp.sinceEpoch + maxAge.nanos ≤ now.sinceEpoch)

/-- Removes messages that are too old, up to the first that is not. -/
def expire (settings : StreamSettings) (now : Timestamp) (x : Index) : List Nat × Index :=
  match settings.maxAge with
  | none => ([], x)
  | some maxAge => x.removeAll ((x.toList.takeWhile (isExpired maxAge now)).map (·.sequence))

/-- Removes the oldest messages of a subject until no more than a number are left. -/
def trimSubject (most : Nat) (x : Index) (subject : String) : List Nat × Index :=
  let sequences := x.subjectSequences subject
  x.removeAll (sequences.take (sequences.length - most))

/-- Removes the oldest messages of some subjects, one subject after the other. -/
def trimSubjects (most : Nat) : List String → Index → List Nat × Index
  | [], x => ([], x)
  | subject :: more, x =>
    let (gone, x) := trimSubject most x subject
    let (later, x) := trimSubjects most more x
    (gone ++ later, x)

/-- The subjects that a limit on messages of one subject is enforced on: one, or all of them. -/
def trimmedSubjects (x : Index) : Option String → List String
  | some subject => [subject]
  | none => (x.lastPerSubject ">").map (·.subject)

/-- Whether there is too much in a stream. -/
def isFull (settings : StreamSettings) (x : Index) : Bool :=
  (match settings.maxMessages with
    | some most => decide (most < x.size)
    | none => false) ||
  (match settings.maxBytes with
    | some most => decide (most < x.bytes)
    | none => false)

/-- Removes messages, in the given order, as long as there is too much. -/
def trimFront (settings : StreamSettings) : List Nat → Index → List Nat × Index
  | [], x => ([], x)
  | n :: ns, x =>
    if isFull settings x then
      let (gone, x) := trimFront settings ns (x.remove n)
      (n :: gone, x)
    else ([], x)

/-- Removes the oldest messages as long as there is too much. -/
def trimOldest (settings : StreamSettings) (x : Index) : List Nat × Index :=
  -- Most of the time nothing has to go, and then the numbers need not be listed.
  if isFull settings x then trimFront settings x.messages.keys x else ([], x)

/-- Removes what exceeds the limits: of one subject or of all, and of the stream if it discards
old messages. -/
def enforceLimits (settings : StreamSettings) (subject : Option String) (x : Index) :
    List Nat × Index :=
  -- The limit on a subject comes first; what it removes no longer counts for the stream.
  let (gone, x) := match settings.maxMessagesPerSubject with
    | some most => trimSubjects most (trimmedSubjects x subject) x
    | none => ([], x)
  match settings.discard with
  | .new => (gone, x)
  | .old =>
    let (front, x) := trimOldest settings x
    (gone ++ front, x)

/-- Whether consumers still need the message of a number. -/
abbrev Needed := Nat → String → Bool

/-- Of messages that a consumer has settled, removes what the policy does not keep: nothing, all,
or what no consumer needs any more. -/
def release (policy : RetentionPolicy) (needed : Needed) (candidates : List Nat) (x : Index) :
    List Nat × Index :=
  match policy with
  | .limits => ([], x)
  | .workQueue => x.removeAll candidates
  | .interest =>
    x.removeAll (candidates.filter fun n =>
      match x.get? n with
      | some m => !needed n m.subject
      | none => false)

/-- Removes all messages that no consumer needs. -/
def releaseUnclaimed (needed : Needed) (x : Index) : List Nat × Index :=
  x.removeAll ((x.toList.filter fun m => !needed m.sequence m.subject).map (·.sequence))

end StreamBroker.Retention
