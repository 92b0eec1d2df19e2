import StreamBroker.Duration.Basic
import StreamBroker.LogStore.Memory
import StreamBroker.Proofs.Lookup
import StreamBroker.Proofs.SeqMap

/-!
# What a call does to a log

A namespace of a log store denotes a map from numbers to octets.  Every call has one effect on the
map it is about, whatever store performs it, and none on the maps of other namespaces.

## Main definitions

* `LogCall.effect`: the answer to a call and the log after it
* `LogCall.IsInRange`: the numbers a call writes to have sixty-four bits

## Main results

* `MemoryStore.answer_eq_effect`: a store in memory answers by the effect of a call
* `MemoryStore.log_answer_of_ne`: other logs do not change
-/

namespace StreamBroker

namespace LogCall

/-- The lowest and the highest number of a log. -/
def boundsOf (log : SeqMap Bytes) : Option (Nat × Nat) :=
  match log.first?, log.last? with
  | some first, some last => some (first.1, last.1)
  | _, _ => none

/-- The answer to a call and the log after it. -/
def effect (log : SeqMap Bytes) : LogCall → LogReply × SeqMap Bytes
  | append _ es => (.done, es.foldl (fun m e => m.insert e.1 e.2) log)
  | bounds _ => (.bounds (boundsOf log), log)
  | compactBefore _ index => (.done, log.startingAt (index + 1))
  | readRange _ start stop =>
    (.entries (log.entries.filter fun e => start ≤ e.1 && e.1 < stop), log)
  | removeNamespace _ => (.done, SeqMap.empty)
  | deleteEntry _ index => (.existed (log.contains index), log.erase index)

/-- The numbers that a call writes to have sixty-four bits. -/
def IsInRange : LogCall → Prop
  | append _ es => ∀ e ∈ es, e.1 < wordLimit
  | _ => True

theorem isInRange_append {ns : String} {e : Nat × Bytes} (h : e.1 < wordLimit) :
    (append ns [e]).IsInRange := by
  intro d hd
  rw [List.mem_singleton.1 hd]
  exact h

end LogCall

namespace MemoryStore

variable {s : MemoryStore} {ns other : String}

/-! ## The logs after a change of one -/

theorem log_modifyLog (f : SeqMap Bytes → SeqMap Bytes) (hf : f SeqMap.empty = SeqMap.empty) :
    (s.modifyLog ns f).log ns = f (s.log ns) := by
  rw [log, modifyLog, lookup_map_if, if_pos rfl, log]
  cases s.logs.lookup ns with
  | none => exact hf.symm
  | some log => rfl

theorem log_modifyLog_of_ne (h : other ≠ ns) (f : SeqMap Bytes → SeqMap Bytes) :
    (s.modifyLog ns f).log other = s.log other := by
  rw [log, modifyLog, lookup_map_if, if_neg h, log]

theorem logs_setLog (s : MemoryStore) (ns : String) (m : SeqMap Bytes) :
    (s.setLog ns m).logs = if s.logs.any (fun e => e.1 == ns)
      then s.logs.map fun e => if e.1 == ns then (ns, m) else e else s.logs ++ [(ns, m)] := by
  rw [setLog]
  split <;> rfl

theorem log_setLog (s : MemoryStore) (ns : String) (m : SeqMap Bytes) :
    (s.setLog ns m).log ns = m := by
  rw [log, logs_setLog, lookup_put, if_pos rfl, Option.getD_some]

theorem log_setLog_of_ne (h : other ≠ ns) (m : SeqMap Bytes) :
    (s.setLog ns m).log other = s.log other := by
  rw [log, logs_setLog, lookup_put, if_neg h, log]

/-! ## The answer to a call -/

/-- A store in memory answers by the effect of a call. -/
theorem answer_eq_effect (s : MemoryStore) (call : LogCall) :
    (s.answer call).1 = (call.effect (s.log call.ns)).1 ∧
      (s.answer call).2.log call.ns = (call.effect (s.log call.ns)).2 := by
  cases call with
  | append ns es =>
    refine ⟨rfl, ?_⟩
    simp only [answer, LogCall.effect, LogCall.ns]
    cases es with
    -- A namespace is not created for nothing.
    | nil => rfl
    | cons e es => exact log_setLog s ns _
  | bounds ns => exact ⟨rfl, rfl⟩
  | compactBefore ns index => exact ⟨rfl, log_modifyLog (·.startingAt (index + 1)) rfl⟩
  | readRange ns start stop => exact ⟨rfl, rfl⟩
  | removeNamespace ns =>
    refine ⟨rfl, ?_⟩
    simp only [answer, removeLog, log, LogCall.ns, lookup_filter_ne]
    rfl
  | deleteEntry ns index => exact ⟨rfl, log_modifyLog (·.erase index) rfl⟩

/-- A call to one namespace does not change the log of another. -/
theorem log_answer_of_ne {call : LogCall} (h : ns ≠ call.ns) :
    (s.answer call).2.log ns = s.log ns := by
  cases call with
  | append ns' es =>
    simp only [answer]
    split
    · rfl
    · exact log_setLog_of_ne h _
  | bounds ns' => rfl
  | compactBefore ns' index => exact log_modifyLog_of_ne h _
  | readRange ns' start stop => rfl
  | removeNamespace ns' =>
    simp only [LogCall.ns] at h
    simp only [answer, removeLog, log, lookup_filter_ne, if_neg h]
  | deleteEntry ns' index => exact log_modifyLog_of_ne h _

end MemoryStore

end StreamBroker
