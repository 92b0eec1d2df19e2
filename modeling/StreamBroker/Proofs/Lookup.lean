/-!
# Lists of what is kept under keys

Logs, files and the numbers of subjects are kept in lists of pairs, of which the first one with a
key is found.  Whatever the list is about, a change of what is kept under one key does not touch
the others.

## Main results

* `lookup_put`: what is found after something was put under a key
* `lookup_map_if`: and after what is there was changed
* `lookup_filter_ne`: and after it went
-/

namespace StreamBroker

variable {κ β : Type} [DecidableEq κ] {es : List (κ × β)} {k j : κ} {v : β}

theorem lookup_cons_of_ne (h : k ≠ j) : ((j, v) :: es).lookup k = es.lookup k := by
  rw [List.lookup_cons, beq_false_of_ne h]

theorem any_key_iff : (es.any fun e => e.1 == k) = true ↔ ∃ v, es.lookup k = some v := by
  rw [← Option.isSome_iff_exists, List.lookup_isSome_iff, List.any_eq_true]
  simp only [beq_iff_eq]
  exact exists_congr fun e => and_congr_right fun _ => eq_comm

theorem mem_of_lookup (h : es.lookup k = some v) : (k, v) ∈ es := by
  obtain ⟨front, back, rfl, -⟩ := List.lookup_eq_some_iff.1 h
  exact List.mem_append_right front List.mem_cons_self

/-- Without a key, what is under the others is found. -/
theorem lookup_filter_ne (es : List (κ × β)) (k j : κ) :
    (es.filter fun e => e.1 != k).lookup j = if j = k then none else es.lookup j := by
  induction es with
  | nil => simp
  | cons e es ih =>
    obtain ⟨i, v⟩ := e
    by_cases hi : i = k
    · subst hi
      rw [List.filter_cons_of_neg (by simp), ih]
      by_cases hj : j = i
      · simp [hj]
      · rw [if_neg hj, if_neg hj, lookup_cons_of_ne hj]
    · rw [List.filter_cons_of_pos (by simpa using hi)]
      by_cases hj : j = i
      · subst hj
        simp [hi]
      · rw [lookup_cons_of_ne hj, lookup_cons_of_ne hj, ih]

/-- What is changed is only what is under the key. -/
theorem lookup_map_if (f : β → β) (es : List (κ × β)) (k j : κ) :
    (es.map fun e => if e.1 == k then (k, f e.2) else e).lookup j =
      if j = k then (es.lookup j).map f else es.lookup j := by
  induction es with
  | nil => simp
  | cons e es ih =>
    obtain ⟨i, v⟩ := e
    -- The pair that is changed keeps its key, so it is found as before.
    obtain ⟨w, hw, hkey⟩ : ∃ w, (if i == k then (k, f v) else (i, v)) = (i, w) ∧
        w = if i = k then f v else v := by
      by_cases hi : i = k <;> simp [hi]
    rw [List.map_cons, hw]
    by_cases hj : j = i
    · subst hj
      by_cases hk : j = k <;> simp [hkey, hk]
    · rw [lookup_cons_of_ne hj, lookup_cons_of_ne hj, ih]

/-- What is put under a key is found there, and nothing else changes. -/
theorem lookup_put (es : List (κ × β)) (k j : κ) (v : β) :
    (if es.any (fun e => e.1 == k) then es.map fun e => if e.1 == k then (k, v) else e
      else es ++ [(k, v)]).lookup j = if j = k then some v else es.lookup j := by
  split
  · next hany =>
    obtain ⟨old, hold⟩ := any_key_iff.1 hany
    rw [lookup_map_if fun _ => v]
    split
    · next hj => rw [hj, hold, Option.map_some]
    · rfl
  · next hany =>
    have hnone : es.lookup k = none := by
      cases hl : es.lookup k with
      | none => rfl
      | some old => exact absurd (any_key_iff.2 ⟨old, hl⟩) hany
    rw [List.lookup_append]
    by_cases hj : j = k
    · simp [hj, hnone]
    · rw [lookup_cons_of_ne hj, List.lookup_nil, Option.or_none, if_neg hj]

end StreamBroker
