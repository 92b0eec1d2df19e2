import Mathlib.Data.List.Basic

/-!
# Lists in ascending order

Numbers, messages and entries are listed in ascending order.  Such a list is known by what is in it,
its last is the highest, and what is cut off at a bound is all that is on that side of it.

## Main results

* `eq_of_ascending`: lists in strict order with the same members are the same
* `getLast?_of_pairwise_le`: the last of a list in order is the highest
* `takeWhile_eq_filter_of_pairwise`, `dropWhile_eq_filter_of_pairwise`: what is cut off a list
-/

namespace StreamBroker

/-- Lists in strict order are known by what is in them. -/
theorem eq_of_ascending {α : Type} (f : α → Nat) {as bs : List α}
    (has : as.Pairwise fun a b => f a < f b) (hbs : bs.Pairwise fun a b => f a < f b)
    (h : ∀ a, a ∈ as ↔ a ∈ bs) : as = bs := by
  have hnodup {cs : List α} (hcs : cs.Pairwise fun a b => f a < f b) : cs.Nodup :=
    hcs.imp fun hlt heq => Nat.ne_of_lt hlt (congrArg f heq)
  have hperm := (List.perm_ext_iff_of_nodup (hnodup has) (hnodup hbs)).2 h
  exact hperm.eq_of_pairwise (fun a b _ _ hlt hgt => absurd hlt (Nat.lt_asymm hgt)) has hbs

/-- The last of a list in order is the highest. -/
theorem getLast?_of_pairwise_le {α : Type} (f : α → Nat) {as : List α}
    (has : as.Pairwise fun a b => f a ≤ f b) {a : α} (h : as.getLast? = some a) :
    a ∈ as ∧ ∀ b ∈ as, f b ≤ f a := by
  obtain ⟨front, rfl⟩ := List.getLast?_eq_some_iff.1 h
  rw [List.pairwise_append] at has
  refine ⟨List.mem_append_right _ (List.mem_singleton_self a), fun b hb => ?_⟩
  rcases List.mem_append.1 hb with hb | hb
  · exact has.2.2 b hb a (List.mem_singleton_self a)
  · exact Nat.le_of_eq (congrArg f (List.mem_singleton.1 hb))

theorem getLast?_of_ascending {α : Type} (f : α → Nat) {as : List α}
    (has : as.Pairwise fun a b => f a < f b) {a : α} (h : as.getLast? = some a) :
    a ∈ as ∧ ∀ b ∈ as, f b ≤ f a := getLast?_of_pairwise_le f (has.imp Nat.le_of_lt) h

section Cut

variable {α : Type} {p : α → Bool} {l : List α}

/-- What is at the front of a list is all that there is of it, if nothing of it stands behind
anything else. -/
theorem takeWhile_eq_filter_of_pairwise (h : l.Pairwise fun a b => p b = true → p a = true) :
    l.takeWhile p = l.filter p := by
  induction l with
  | nil => rfl
  | cons a l ih =>
    rw [List.pairwise_cons] at h
    by_cases ha : p a = true
    · rw [List.takeWhile_cons_of_pos ha, List.filter_cons_of_pos ha, ih h.2]
    · rw [List.takeWhile_cons_of_neg ha, eq_comm, List.filter_eq_nil_iff]
      intro b hb hp
      rcases List.mem_cons.1 hb with rfl | hb
      · exact ha hp
      · exact ha (h.1 b hb hp)

/-- What is left behind the front of such a list is all that there is of anything else. -/
theorem dropWhile_eq_filter_of_pairwise (h : l.Pairwise fun a b => p b = true → p a = true) :
    l.dropWhile p = l.filter fun a => !p a := by
  induction l with
  | nil => rfl
  | cons a l ih =>
    rw [List.pairwise_cons] at h
    by_cases ha : p a = true
    · rw [List.dropWhile_cons_of_pos ha, ih h.2, List.filter_cons_of_neg (by simp [ha])]
    · rw [List.dropWhile_cons_of_neg ha, eq_comm, List.filter_eq_self]
      intro b hb
      rcases List.mem_cons.1 hb with rfl | hb
      · simpa using ha
      · simpa using mt (h.1 b hb) ha

end Cut

/-- Numbers in ascending order, some of them perhaps more than once, that are in a range. -/
theorem range_eq_filter {ns : List Nat} (h : ns.Pairwise (· ≤ ·)) (start stop : Nat) :
    (ns.dropWhile (decide <| · < start)).takeWhile (decide <| · < stop) =
      ns.filter fun n => decide (start ≤ n) && decide (n < stop) := by
  have hbelow (bound : Nat) {ks : List Nat} (hks : ks.Pairwise (· ≤ ·)) :
      ks.Pairwise fun a b => decide (b < bound) = true → decide (a < bound) = true :=
    hks.imp fun hle hlt => decide_eq_true (Nat.lt_of_le_of_lt hle (of_decide_eq_true hlt))
  rw [dropWhile_eq_filter_of_pairwise (hbelow start h),
    takeWhile_eq_filter_of_pairwise (hbelow stop (h.filter _)), List.filter_filter]
  refine List.filter_congr fun n _ => ?_
  rw [Bool.and_comm, ← decide_not]
  simp only [Nat.not_lt]

/-- Of numbers in ascending order those below a bound are at the front. -/
theorem takeWhile_eq_filter {ns : List Nat} (h : ns.Pairwise (· < ·)) (bound : Nat) :
    ns.takeWhile (decide <| · < bound) = ns.filter (decide <| · < bound) :=
  takeWhile_eq_filter_of_pairwise <| h.imp fun hlt hb =>
    decide_eq_true (Nat.lt_trans hlt (of_decide_eq_true hb))

end StreamBroker
