import StreamBroker.LogStore.Memory
import StreamBroker.LogStore.Directory

/-!
# The backend of a broker

A broker keeps its streams in one log store, in memory or in a directory.  The backend records
every call, and failures can be scheduled, so that what a broker does when its store fails can be
rehearsed.

## Main definitions

* `LogStore`: a store of either sort.
* `Fault`: a scheduled failure.
* `Backend`: a store with its record and its faults.
* `Backend.perform`: the answer to a call and the backend after it.
* `Backend.append`, `Backend.bounds`, …: the six calls.
-/

namespace StreamBroker

/-- A log store of either sort. -/
inductive LogStore where
  | memory (store : MemoryStore)
  | directory (store : DirectoryStore)
  deriving Inhabited

namespace LogStore

def answer : LogStore → LogCall → Except StorageError LogReply × LogStore
  | memory s, call =>
    let (reply, s) := s.answer call
    (.ok reply, memory s)
  | directory s, call =>
    let (reply, s) := s.answer call
    (reply, directory s)

/-- How many namespaces in memory have entries. -/
def namespaceCount : LogStore → Nat
  | memory s => s.namespaceCount
  | directory _ => 0

end LogStore

/-- A scheduled failure: calls of a kind fail after some have passed.  One that has calls left to
let pass is not used up, even if none is to fail behind them. -/
structure Fault where
  /-- The calls that are meant. -/
  kind : LogCallKind
  /-- What they fail with. -/
  error : StorageError
  /-- How many calls still pass. -/
  skip : Nat
  /-- How many calls still fail. -/
  count : Nat
  deriving DecidableEq, Repr

/-- Whether a scheduled failure has nothing left to do. -/
def Fault.isUsedUp (f : Fault) : Bool := f.skip == 0 && f.count == 0

/-- The effect of a call on the scheduled failures: the oldest for its kind that is not used up
lets the call pass or makes it fail. -/
def Fault.trigger (kind : LogCallKind) : List Fault → Option StorageError × List Fault
  | [] => (none, [])
  | f :: fs =>
    -- Only the first failure that is not used up has a say; later ones wait their turn.
    if f.kind = kind ∧ !f.isUsedUp then
      if 0 < f.skip then (none, { f with skip := f.skip - 1 } :: fs)
      else (some f.error, { f with count := f.count - 1 } :: fs)
    else
      let (result, fs) := trigger kind fs
      (result, f :: fs)

/-- A log store with a record of the calls and scheduled failures. -/
structure Backend where
  store : LogStore
  /-- The scheduled failures, oldest first. -/
  faults : List Fault := []
  /-- The calls, newest first. -/
  calls : List LogCall := []
  deriving Inhabited

namespace Backend

/-- The answer to a call and the backend after it.  A call that is made to fail does not reach the
store. -/
def perform (b : Backend) (call : LogCall) : Except StorageError LogReply × Backend :=
  let (failure, faults) := Fault.trigger call.kind b.faults
  match failure with
  | some error => (.error error, { b with faults, calls := call :: b.calls })
  | none =>
    let (reply, store) := b.store.answer call
    (reply, { store, faults, calls := call :: b.calls })

def append (b : Backend) (ns : String) (entries : List (Nat × Bytes)) :
    Except StorageError Unit × Backend :=
  let (reply, b) := b.perform (.append ns entries)
  (reply.map fun _ => (), b)

/-- Asks for the lowest and the highest number. -/
def bounds (b : Backend) (ns : String) : Except StorageError (Option (Nat × Nat)) × Backend :=
  let (reply, b) := b.perform (.bounds ns)
  (reply.map LogReply.bounds?, b)

/-- Removes the entries up to a number. -/
def compactBefore (b : Backend) (ns : String) (index : Nat) :
    Except StorageError Unit × Backend :=
  let (reply, b) := b.perform (.compactBefore ns index)
  (reply.map fun _ => (), b)

/-- Reads the entries from a number up to below another. -/
def readRange (b : Backend) (ns : String) (start stop : Nat) :
    Except StorageError (List (Nat × Bytes)) × Backend :=
  let (reply, b) := b.perform (.readRange ns start stop)
  (reply.map LogReply.entryList, b)

def removeNamespace (b : Backend) (ns : String) : Except StorageError Unit × Backend :=
  let (reply, b) := b.perform (.removeNamespace ns)
  (reply.map fun _ => (), b)

def deleteEntry (b : Backend) (ns : String) (index : Nat) :
    Except StorageError Bool × Backend :=
  let (reply, b) := b.perform (.deleteEntry ns index)
  (reply.map LogReply.didExist, b)

end Backend

end StreamBroker
