import Mathlib.Logic.Relation
import StreamBroker.Proofs.Journal.Mirror

/-!
# The calls that are made

Some of what is to be known about a backend does not depend on what its calls are answered, only on
which calls were made: where all of them only read, the store is as it was, and calls about one
namespace are nothing to the log of another.  So it is told once which calls are made by those that
read a journal back, and which by the steps of a log.

## Main definitions

* `Backend.Performs`: calls of a kind are made, whatever they are answered

## Main results

* `Stream.performs_reread`: who reads a journal back reads it, and does nothing else
* `LogRun.performs`: the steps of a log are calls about its journal
* `Backend.Performs.store_eq`, `Backend.Performs.elsewhere`: what does not change by the calls
-/

namespace StreamBroker

/-! ## Calls of a kind -/

namespace Backend

variable {b b' b'' : Backend} {p q : LogCall → Prop} {call : LogCall} {ns : String}

/-- Calls of a kind are made, one after the other, whatever they are answered. -/
def Performs (p : LogCall → Prop) : Backend → Backend → Prop :=
  Relation.ReflTransGen fun b b' => ∃ call, p call ∧ b' = (b.perform call).2

theorem performs_perform (b : Backend) (h : p call) : Performs p b (b.perform call).2 :=
  .single ⟨call, h, rfl⟩

theorem performs_performAll (b : Backend) {calls : List LogCall} (h : ∀ call ∈ calls, p call) :
    Performs p b (b.performAll calls).2 := by
  induction calls generalizing b with
  | nil => exact .refl
  | cons call calls ih =>
    have hcall := performs_perform b (h call List.mem_cons_self)
    rw [performAll]
    split
    · next heq =>
      rw [heq] at hcall
      exact hcall.trans (ih _ fun c hc => h c (List.mem_cons_of_mem call hc))
    -- After a call that fails no other is made.
    · next heq => rwa [heq] at hcall

namespace Performs

theorem mono (h : Performs p b b') (hpq : ∀ call, p call → q call) : Performs q b b' :=
  Relation.ReflTransGen.mono (fun _ _ ⟨call, hcall, heq⟩ => ⟨call, hpq call hcall, heq⟩) _ _ h

/-- Where no failure is scheduled, none is afterwards. -/
theorem faults_eq (h : Performs p b b') (hb : b.faults = []) : b'.faults = [] := by
  induction h with
  | refl => exact hb
  | tail _ h ih =>
    obtain ⟨call, -, rfl⟩ := h
    rw [perform_of_faults_eq ih]

/-- Calls about other namespaces happen elsewhere. -/
theorem elsewhere (h : Performs p b b') (hp : ∀ call, p call → ns ≠ call.ns) :
    Elsewhere ns b b' := by
  intro log hb
  induction h with
  | refl => exact hb
  | tail _ h ih =>
    obtain ⟨call, hcall, rfl⟩ := h
    exact elsewhere_perform _ (hp call hcall) log ih

end Performs

end Backend

/-! ## Calls that read -/

theorem LogStore.answer_of_isReading {call : LogCall} (h : call.IsReading) (s : LogStore) :
    (s.answer call).2 = s := by
  cases call with
  | bounds ns => cases s <;> rfl
  | readRange ns start stop => cases s <;> rfl
  | _ => exact h.elim

theorem Backend.store_perform_of_isReading {call : LogCall} (h : call.IsReading) (b : Backend) :
    (b.perform call).2.store = b.store := by
  simp only [perform]
  split
  · rfl
  · exact LogStore.answer_of_isReading h b.store

/-- Where all calls only read, the store is as it was. -/
theorem Backend.Performs.store_eq {p : LogCall → Prop} {b b' : Backend} (h : Performs p b b')
    (hp : ∀ call, p call → call.IsReading) : b'.store = b.store := by
  induction h with
  | refl => rfl
  | tail _ h ih =>
    obtain ⟨call, hcall, rfl⟩ := h
    rw [store_perform_of_isReading (hp call hcall), ih]

/-- A call that reads a journal, if there is one. -/
def LogCall.Reads (journal : Option String) (call : LogCall) : Prop :=
  journal = some call.ns ∧ call.IsReading

section Reading

variable {ns : String}

open Backend

theorem Journal.performs_recoverMessages (w : Nat) (b : Backend) :
    b.Performs (LogCall.Reads (some ns)) (recoverMessages ns w b).2 := by
  have hbounds : b.Performs (LogCall.Reads (some ns)) (b.bounds ns).2 :=
    performs_perform b ⟨rfl, trivial⟩
  rw [recoverMessages]
  split
  · next heq => rwa [heq] at hbounds
  · next heq => rwa [heq] at hbounds
  · next first last b₁ heq =>
    rw [heq] at hbounds
    have hread : b₁.Performs (LogCall.Reads (some ns)) (b₁.readRange ns
        (max first (watermarkIndex + 1)) (min (last + 1) lastIndex)).2 :=
      performs_perform b₁ ⟨rfl, trivial⟩
    split
    · next heq =>
      rw [heq] at hread
      exact hbounds.trans hread
    · next heq =>
      rw [heq] at hread
      exact hbounds.trans hread

theorem Journal.performs_recover (ns : String) (b : Backend) :
    b.Performs (LogCall.Reads (some ns)) (recover ns b).2 := by
  have hread : b.Performs (LogCall.Reads (some ns))
      (b.readRange ns watermarkIndex (watermarkIndex + 1)).2 :=
    performs_perform b ⟨rfl, trivial⟩
  rw [recover]
  split
  · next heq => rwa [heq] at hread
  · next heq =>
    rw [heq] at hread
    split
    · exact hread
    · exact hread.trans (performs_recoverMessages _ _)

/-- Who reads a journal back reads it, and does nothing else. -/
theorem Stream.performs_reread (settings : StreamSettings) (b : Backend) :
    b.Performs (LogCall.Reads settings.journal?) (reread settings b).2 := by
  have hrecovered : b.Performs (LogCall.Reads settings.journal?) (recovered settings b).2 := by
    rw [recovered, StreamSettings.journal?]
    cases settings.storage with
    | file => exact Journal.performs_recover _ b
    | memory => exact .refl
  rw [reread]
  split
  · next heq => rwa [heq] at hrecovered
  · next heq =>
    rw [heq] at hrecovered
    dsimp only
    split <;> exact hrecovered

end Reading

/-! ## Steps of a log -/

/-- The steps of a log are calls about its journal. -/
theorem LogRun.performs {journal : Option String} {x y : Index} {b b' : Backend}
    {ms : List StoredMessage} (h : LogRun journal x b ms y b') :
    b.Performs (fun call => journal = some call.ns) b' := by
  induction h with
  | refl => exact .refl
  | step run h ih =>
    refine ih.trans ?_
    cases h with
    | @store _ _ m hnext hlt hkept h =>
      cases h with
      | unjournaled => exact .refl
      | journaled hencode h =>
        obtain rfl := congrArg Prod.snd h
        exact Backend.performs_perform _ rfl
    | lose h =>
      refine Backend.performs_performAll _ fun call hcall => ?_
      cases journal with
      | none => cases hcall
      | some other => rw [(Journal.removalCalls_inRange other _ _ call hcall).1]
    | fail hjournal hlt h => exact Backend.performs_perform _ hjournal

end StreamBroker
