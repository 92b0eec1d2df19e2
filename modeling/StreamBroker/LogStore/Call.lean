import StreamBroker.Text.Bytes

/-!
# Calls to a log store

A log store holds named logs, called namespaces; a log holds octets under numbers.  All that a
broker does with a store are six calls, and every store is a function from a call to its answer.

## Main definitions

* `LogCall`: the six calls.
* `LogReply`: what they are answered with.
-/

namespace StreamBroker

/-- A call to a log store. -/
inductive LogCall where
  /-- Writes entries; one that exists is replaced. -/
  | append (ns : String) (entries : List (Nat × Bytes))
  /-- Asks for the lowest and the highest number. -/
  | bounds (ns : String)
  /-- Removes the entries up to a number. -/
  | compactBefore (ns : String) (index : Nat)
  /-- Reads the entries from a number up to below another. -/
  | readRange (ns : String) (start stop : Nat)
  | removeNamespace (ns : String)
  /-- Removes one entry, and asks whether there was one. -/
  | deleteEntry (ns : String) (index : Nat)
  deriving DecidableEq, Repr

/-- The answer to a call. -/
inductive LogReply where
  | done
  /-- The lowest and the highest number, if there is any. -/
  | bounds (b : Option (Nat × Nat))
  /-- Entries in ascending order. -/
  | entries (es : List (Nat × Bytes))
  /-- Whether there was an entry. -/
  | existed (b : Bool)
  deriving DecidableEq, Repr

/-- The kinds of calls. -/
inductive LogCallKind where
  | append | bounds | compactBefore | readRange | removeNamespace | deleteEntry
  deriving DecidableEq, Repr

/-- The names of the kinds. -/
def LogCallKind.choices : List (String × LogCallKind) :=
  [("append", append), ("bounds", bounds), ("compact_before", compactBefore),
    ("read_range", readRange), ("remove_namespace", removeNamespace),
    ("delete_entry", deleteEntry)]

def LogCallKind.name (k : LogCallKind) : String :=
  ((choices.find? fun c => c.2 = k).map (·.1)).getD ""

namespace LogCall

/-- The namespace that a call is about. -/
def ns : LogCall → String
  | append ns _ | bounds ns | compactBefore ns _ | readRange ns .. | removeNamespace ns
  | deleteEntry ns _ => ns

def kind : LogCall → LogCallKind
  | append .. => .append
  | bounds _ => .bounds
  | compactBefore .. => .compactBefore
  | readRange .. => .readRange
  | removeNamespace _ => .removeNamespace
  | deleteEntry .. => .deleteEntry

end LogCall

namespace LogReply

def bounds? : LogReply → Option (Nat × Nat)
  | bounds b => b
  | _ => none

def entryList : LogReply → List (Nat × Bytes)
  | entries es => es
  | _ => []

/-- Whether an answer says that there was an entry. -/
def didExist : LogReply → Bool
  | existed b => b
  | _ => false

end LogReply

end StreamBroker
