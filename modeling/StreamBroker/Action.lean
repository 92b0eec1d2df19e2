import StreamBroker.Error

/-!
# Actions

An action changes a state and answers, or refuses with an error.  What it did before it refused
remains done.

## Main definitions

* `Action`: a change of a state with an answer or a refusal.
* `Action.attempt`: an action whose refusal is taken as an answer.

## Main results

* `Action.bind_ok`, `Action.bind_error`: the second of two actions is taken exactly when the first
  is not refused, and it starts where the first left off.
-/

namespace StreamBroker

/-- A change of a state with an answer or a refusal. -/
def Action (σ α : Type) : Type := σ → Except Error α × σ

namespace Action

variable {σ α β : Type}

def run (x : Action σ α) (s : σ) : Except Error α × σ := x s

/-- Two actions, one after the other. -/
def andThen (x : Action σ α) (f : α → Action σ β) : Action σ β := fun s =>
  match x s with
  | (.ok a, s) => f a s
  | (.error e, s) => (.error e, s)

instance : Monad (Action σ) where
  pure a := fun s => (.ok a, s)
  bind := andThen

def refuse (e : Error) : Action σ α := fun s => (.error e, s)

/-- An action that is refused if a check fails. -/
def ofExcept (r : Except Error α) : Action σ α := fun s => (r, s)

instance : MonadLift (Except Error) (Action σ) := ⟨ofExcept⟩

def read : Action σ σ := fun s => (.ok s, s)

/-- A change that is not refused. -/
def change (f : σ → σ) : Action σ Unit := fun s => (.ok (), f s)

/-- A change with an answer that is not refused. -/
def answer (f : σ → α × σ) : Action σ α := fun s =>
  let (a, s) := f s
  (.ok a, s)

/-- An action whose refusal is taken as an answer.  When the numbers are used up nothing goes on. -/
def attempt (x : Action σ α) : Action σ (Except Error α) := fun s =>
  match x s with
  | (.error .numbersExhausted, s) => (.error .numbersExhausted, s)
  | (r, s) => (.ok r, s)

@[simp] theorem run_pure (a : α) (s : σ) : (pure a : Action σ α).run s = (.ok a, s) := rfl

@[simp] theorem run_refuse (e : Error) (s : σ) :
    (refuse e : Action σ α).run s = (.error e, s) := rfl

@[simp] theorem run_read (s : σ) : (read : Action σ σ).run s = (.ok s, s) := rfl

@[simp] theorem run_change (f : σ → σ) (s : σ) : (change f).run s = (.ok (), f s) := rfl

theorem bind_ok {x : Action σ α} {f : α → Action σ β} {s s' : σ} {a : α}
    (h : x.run s = (.ok a, s')) : (x >>= f).run s = (f a).run s' := by
  show andThen x f s = _
  have h : x s = (.ok a, s') := h
  simp [andThen, h, run]

theorem bind_error {x : Action σ α} {f : α → Action σ β} {s s' : σ} {e : Error}
    (h : x.run s = (.error e, s')) : (x >>= f).run s = (.error e, s') := by
  show andThen x f s = _
  have h : x s = (.error e, s') := h
  simp [andThen, h]

end Action

end StreamBroker
