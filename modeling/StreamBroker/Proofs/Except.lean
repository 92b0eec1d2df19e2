import StreamBroker.Action

/-!
# Inversion of steps that may be refused

A chain of steps succeeds exactly when every step does, each on what the one before gave.

## Main results

* `except_bind_eq_ok`: two steps, one after the other
* `exists_ok_bind`: the same where the second does not depend on what the first gave
* `except_map_eq_ok`, `except_map_injective`, `except_mapError_eq_ok`: a step whose answer or
  refusal is rewritten
* `mapM_eq_ok`, `mem_iff_of_mapM_eq_ok`, `map_mapM_filter`: a step for every member of a list
* `action_bind_cases`: two actions, one after the other
* `action_map_cases`, `action_map_error`: an action whose answer is rewritten
* `action_check_cases`: an action that follows a check
* `action_attempt_cases`, `exists_run_of_attempt_bind`: an action whose refusal is taken as an
  answer
* `run_attempt`, `run_check_bind`: the same where the outcome is known
-/

namespace StreamBroker

variable {ε α β : Type}

/-- Two steps succeed exactly when the second succeeds on what the first gave. -/
theorem except_bind_eq_ok {x : Except ε α} {f : α → Except ε β} {b : β} :
    (x >>= f) = .ok b ↔ ∃ a, x = .ok a ∧ f a = .ok b := by
  cases x with
  | error e =>
    constructor
    · intro h
      cases h
    · rintro ⟨a, h, -⟩
      cases h
  | ok a =>
    constructor
    · exact fun h => ⟨a, rfl, h⟩
    · rintro ⟨c, h, hc⟩
      cases h
      exact hc

/-- Two steps succeed when both do, if what the first gives does not matter to the second. -/
theorem exists_ok_bind {x : Except ε α} {f : α → Except ε β} {p : Prop}
    (h : ∀ a, (∃ b, f a = .ok b) ↔ p) :
    (∃ b, (x >>= f) = .ok b) ↔ (∃ a, x = .ok a) ∧ p := by
  constructor
  · rintro ⟨b, hb⟩
    obtain ⟨a, ha, hb⟩ := except_bind_eq_ok.1 hb
    exact ⟨⟨a, ha⟩, (h a).1 ⟨b, hb⟩⟩
  · rintro ⟨⟨a, ha⟩, hp⟩
    obtain ⟨b, hb⟩ := (h a).2 hp
    exact ⟨b, except_bind_eq_ok.2 ⟨a, ha, hb⟩⟩

theorem exists_ok_pure {a : α} : (∃ b, (pure a : Except ε α) = .ok b) ↔ True :=
  iff_true_intro ⟨a, rfl⟩

theorem except_map_eq_ok {x : Except ε α} {f : α → β} {b : β} :
    x.map f = .ok b ↔ ∃ a, x = .ok a ∧ f a = b := by
  cases x <;> simp [Except.map]

/-- An answer that is rewritten without loss is told from others as before. -/
theorem except_map_injective {f : α → β} (hf : Function.Injective f) :
    Function.Injective (Except.map f : Except ε α → Except ε β) := by
  rintro (e | a) (e' | b) h
  · exact congrArg Except.error (Except.error.inj h)
  · cases h
  · cases h
  · exact congrArg Except.ok (hf (Except.ok.inj h))

theorem except_mapError_eq_ok {δ : Type} {x : Except ε α} {f : ε → δ} {a : α} :
    x.mapError f = .ok a ↔ x = .ok a := by
  cases x with
  | error e => constructor <;> rintro ⟨⟩
  | ok b =>
    constructor
    · rintro ⟨⟩
      rfl
    · rintro ⟨⟩
      rfl

/-! ## Lists of steps -/

theorem mapM_eq_ok {f : α → Except ε β} {g : α → β} {as : List α}
    (h : ∀ a ∈ as, f a = .ok (g a)) : as.mapM f = .ok (as.map g) := by
  induction as with
  | nil => rfl
  | cons a as ih =>
    rw [List.mapM_cons, h a List.mem_cons_self, ih fun b hb => h b (List.mem_cons_of_mem a hb)]
    rfl

/-- What is given for the members of a list is given for one of them. -/
theorem mem_iff_of_mapM_eq_ok {f : α → Except ε β} {as : List α} {bs : List β}
    (h : as.mapM f = .ok bs) (b : β) : b ∈ bs ↔ ∃ a ∈ as, f a = .ok b := by
  induction as generalizing bs with
  | nil =>
    cases h
    simp
  | cons a as ih =>
    rw [List.mapM_cons] at h
    obtain ⟨c, hc, h⟩ := except_bind_eq_ok.1 h
    obtain ⟨cs, hcs, h⟩ := except_bind_eq_ok.1 h
    cases h
    simp only [List.mem_cons, ih hcs, exists_eq_or_imp, hc, Except.ok.injEq]
    exact or_congr_left eq_comm

/-- What nothing is found in need not be looked at. -/
theorem map_mapM_filter {f : α → Except ε (Option β)} {p : α → Bool}
    (h : ∀ a, p a = false → f a = .ok none) (as : List α) :
    ((as.filter p).mapM f).map (List.filterMap id) = (as.mapM f).map (List.filterMap id) := by
  induction as with
  | nil => rfl
  | cons a as ih =>
    rw [List.mapM_cons]
    cases hp : p a with
    | false =>
      rw [List.filter_cons_of_neg (by simp [hp]), h a hp, ih]
      cases as.mapM f <;> rfl
    | true =>
      rw [List.filter_cons_of_pos hp, List.mapM_cons]
      cases f a with
      | error e => rfl
      | ok b =>
        -- By the hypothesis of the induction both fail, or both find the same.
        cases hfilter : (as.filter p).mapM f <;> cases hall : as.mapM f <;>
          rw [hfilter, hall] at ih
        · exact ih
        · cases ih
        · cases ih
        · next bs cs =>
          have heq : bs.filterMap id = cs.filterMap id := Except.ok.inj ih
          show Except.ok ((b :: bs).filterMap id) = Except.ok ((b :: cs).filterMap id)
          rw [List.filterMap_cons, List.filterMap_cons, heq]

/-- The second of two actions starts where the first left off, unless the first is refused. -/
theorem action_bind_cases {σ : Type} {x : Action σ α} {f : α → Action σ β} {s s' : σ}
    {reply : Except Error β} (h : (x >>= f).run s = (reply, s')) :
    (∃ e, x.run s = (.error e, s') ∧ reply = .error e) ∨
      ∃ a t, x.run s = (.ok a, t) ∧ (f a).run t = (reply, s') := by
  cases hx : x.run s with
  | mk r t =>
    cases r with
    | error e =>
      rw [Action.bind_error hx] at h
      cases h
      exact .inl ⟨e, rfl, rfl⟩
    | ok a =>
      rw [Action.bind_ok hx] at h
      exact .inr ⟨a, t, rfl, h⟩

/-- An action whose answer is rewritten. -/
theorem action_map_cases {σ : Type} {x : Action σ α} {f : α → β} {s s' : σ}
    {reply : Except Error β} (h : (x >>= fun a => pure (f a)).run s = (reply, s')) :
    ∃ r, x.run s = (r, s') ∧ reply = r.map f := by
  rcases action_bind_cases h with ⟨e, hx, rfl⟩ | ⟨a, t, hx, hpure⟩
  · exact ⟨_, hx, rfl⟩
  · cases hpure
    exact ⟨_, hx, rfl⟩

/-- An action whose answer is rewritten is refused when it was. -/
theorem action_map_error {σ : Type} {x : Action σ α} {f : α → β} {s s' : σ} {e : Error}
    (h : (x >>= fun a => pure (f a)).run s = (.error e, s')) : x.run s = (.error e, s') := by
  obtain ⟨reply, hx, hreply⟩ := action_map_cases h
  cases reply with
  | error e =>
    cases hreply
    exact hx
  | ok a => cases hreply

/-- A refusal is taken as an answer unless the numbers are used up. -/
theorem action_attempt_cases {σ : Type} {x : Action σ α} {s s' : σ}
    {reply : Except Error (Except Error α)} (h : x.attempt.run s = (reply, s')) :
    (reply = .error .numbersExhausted ∧ x.run s = (.error .numbersExhausted, s')) ∨
      ∃ r, reply = .ok r ∧ x.run s = (r, s') ∧ r ≠ .error .numbersExhausted := by
  cases hx : x.run s with
  | mk r t =>
    have hx' : x s = (r, t) := hx
    simp only [Action.run, Action.attempt, hx'] at h
    split at h
    · next heq =>
      cases heq
      cases h
      exact .inl ⟨rfl, rfl⟩
    · next hne heq =>
      cases heq
      cases h
      refine .inr ⟨r, rfl, rfl, ?_⟩
      rintro rfl
      exact hne rfl

/-- An action that follows one whose refusal is taken as an answer starts where that left off,
unless the numbers are used up. -/
theorem exists_run_of_attempt_bind {σ : Type} {x : Action σ α} {f : Except Error α → Action σ β}
    {s s' : σ} {reply : Except Error β} (h : (x.attempt >>= f).run s = (reply, s'))
    (hreply : reply ≠ .error .numbersExhausted) :
    ∃ r t, x.run s = (r, t) ∧ r ≠ .error .numbersExhausted ∧ (f r).run t = (reply, s') := by
  rcases action_bind_cases h with ⟨e, hattempt, rfl⟩ | ⟨r, t, hattempt, hrun⟩
  · rcases action_attempt_cases hattempt with ⟨he, -⟩ | ⟨r, he, -⟩
    · cases he
      exact absurd rfl hreply
    · cases he
  · rcases action_attempt_cases hattempt with ⟨he, -⟩ | ⟨r', he, hx, hr'⟩
    · cases he
    · cases he
      exact ⟨r, t, hx, hr', hrun⟩

/-- An answer or a refusal is taken as an answer. -/
theorem run_attempt {σ : Type} {x : Action σ α} {s s' : σ} {r : Except Error α}
    (h : x.run s = (r, s')) (hr : r ≠ .error .numbersExhausted) :
    x.attempt.run s = (.ok r, s') := by
  have h : x s = (r, s') := h
  simp only [Action.run, Action.attempt, h]

/-- An action that follows a check starts where the check started, if it is passed. -/
theorem run_check_bind {σ : Type} {x : Except Error α} {a : α} (hx : x = .ok a)
    (f : α → Action σ β) (s : σ) : ((liftM x : Action σ α) >>= f).run s = (f a).run s := by
  subst hx
  exact Action.bind_ok rfl

/-- An action that follows a check is refused by it, or it starts where the check started. -/
theorem action_check_cases {σ : Type} {x : Except Error α} {f : α → Action σ β} {s s' : σ}
    {reply : Except Error β} (h : ((liftM x : Action σ α) >>= f).run s = (reply, s')) :
    (∃ e, x = .error e ∧ reply = .error e ∧ s' = s) ∨
      ∃ a, x = .ok a ∧ (f a).run s = (reply, s') := by
  have hx : (liftM x : Action σ α).run s = (x, s) := rfl
  cases x with
  | error e =>
    rw [Action.bind_error hx] at h
    cases h
    exact .inl ⟨e, rfl, rfl, rfl⟩
  | ok a =>
    rw [Action.bind_ok hx] at h
    exact .inr ⟨a, rfl, h⟩

end StreamBroker
