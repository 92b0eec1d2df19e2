import StreamBroker.LogStore.Call
import StreamBroker.SeqMap

/-!
# A log store in memory

Every namespace is a map from numbers to octets.  No call fails.

## Main definitions

* `MemoryStore`: the store.
* `MemoryStore.log`: the entries of a namespace.
* `MemoryStore.answer`: the answer to a call and the store after it.
* `MemoryStore.namespaceCount`: the namespaces with entries.
-/

namespace StreamBroker

/-- The log of every namespace that was written to and not removed. -/
structure MemoryStore where
  /-- The namespaces with their entries, each namespace once. -/
  logs : List (String × SeqMap Bytes) := []
  deriving Inhabited

namespace MemoryStore

def log (s : MemoryStore) (ns : String) : SeqMap Bytes := (s.logs.lookup ns).getD SeqMap.empty

/-- The store with other entries in a namespace. -/
def setLog (s : MemoryStore) (ns : String) (log : SeqMap Bytes) : MemoryStore :=
  if s.logs.any (fun e => e.1 == ns) then
    ⟨s.logs.map fun e => if e.1 == ns then (ns, log) else e⟩
  else ⟨s.logs ++ [(ns, log)]⟩

/-- The store with the entries of a namespace changed, if it was ever written to. -/
def modifyLog (s : MemoryStore) (ns : String) (f : SeqMap Bytes → SeqMap Bytes) : MemoryStore :=
  ⟨s.logs.map fun e => if e.1 == ns then (ns, f e.2) else e⟩

/-- The store without a namespace. -/
def removeLog (s : MemoryStore) (ns : String) : MemoryStore :=
  ⟨s.logs.filter fun e => e.1 != ns⟩

def answer (s : MemoryStore) : LogCall → LogReply × MemoryStore
  | .append ns es =>
    (.done, if es.isEmpty then s
      else s.setLog ns (es.foldl (fun m e => m.insert e.1 e.2) (s.log ns)))
  | .bounds ns =>
    (.bounds (match (s.log ns).first?, (s.log ns).last? with
      | some first, some last => some (first.1, last.1)
      | _, _ => none), s)
  | .compactBefore ns index => (.done, s.modifyLog ns (·.startingAt (index + 1)))
  | .readRange ns start stop =>
    (.entries ((s.log ns).entries.filter fun e => start ≤ e.1 && e.1 < stop), s)
  | .removeNamespace ns => (.done, s.removeLog ns)
  | .deleteEntry ns index =>
    (.existed ((s.log ns).contains index), s.modifyLog ns (·.erase index))

/-- How many namespaces have entries. -/
def namespaceCount (s : MemoryStore) : Nat := s.logs.countP fun e => !e.2.isEmpty

end MemoryStore

end StreamBroker
