import Mathlib.Algebra.GroupWithZero.Nat
import StreamBroker.SeqMap

/-!
# Laws of maps in the order of their numbers

A map is known by what it finds under every number: two maps that find the same are the same, and
every operation is described by what can be found after it.

## Main results

* `SeqMap.ext_get?`: maps that find the same are equal
* `SeqMap.get?_filter`, `SeqMap.get?_modify`: what parts and changes of a map find
* `SeqMap.first?_eq_some_iff`, `SeqMap.last?_eq_some_iff`: the lowest and the highest number
* `SeqMap.sum_values_erase`: what a sum over a map loses with a number
* `SeqSet.ext_contains`: sets with the same numbers are equal
-/

namespace StreamBroker

namespace SeqMap

variable {β : Type}

/-! ## Membership -/

theorem get?_eq_some_iff {m : SeqMap β} {k : Nat} {v : β} :
    m.get? k = some v ↔ (k, v) ∈ m.entries := m.mem_entries_iff.symm

theorem contains_iff {m : SeqMap β} {k : Nat} : m.contains k = true ↔ ∃ v, m.get? k = some v :=
  Option.isSome_iff_exists

theorem contains_eq_false_iff {m : SeqMap β} {k : Nat} :
    m.contains k = false ↔ m.get? k = none := by
  simp [contains]

theorem mem_keys_iff {m : SeqMap β} {k : Nat} : k ∈ m.keys ↔ m.contains k = true := by
  rw [contains_iff]
  simp only [keys, List.mem_map, get?_eq_some_iff]
  constructor
  · rintro ⟨⟨j, v⟩, hm, rfl⟩
    exact ⟨v, hm⟩
  · rintro ⟨v, hm⟩
    exact ⟨(k, v), hm, rfl⟩

theorem mem_values_iff {m : SeqMap β} {v : β} : v ∈ m.values ↔ ∃ k, m.get? k = some v := by
  simp only [values, List.mem_map, get?_eq_some_iff]
  constructor
  · rintro ⟨⟨k, w⟩, hm, rfl⟩
    exact ⟨k, hm⟩
  · rintro ⟨k, hm⟩
    exact ⟨(k, v), hm, rfl⟩

theorem keys_ascending (m : SeqMap β) : m.keys.Pairwise (· < ·) := by
  rw [keys, List.pairwise_map]
  exact m.ascending

theorem keys_nodup (m : SeqMap β) : m.keys.Nodup :=
  m.keys_ascending.imp fun h => Nat.ne_of_lt h

theorem entries_nodup (m : SeqMap β) : m.entries.Nodup :=
  m.ascending.imp fun {a b} (h : a.1 < b.1) (e : a = b) =>
    absurd (congrArg Prod.fst e) (Nat.ne_of_lt h)

/-- **A map is known by what it finds**: maps that find the same under every number are equal. -/
theorem ext_get? {m n : SeqMap β} (h : ∀ k, m.get? k = n.get? k) : m = n := by
  apply ext
  have hperm : m.entries.Perm n.entries := by
    rw [List.perm_ext_iff_of_nodup m.entries_nodup n.entries_nodup]
    rintro ⟨k, v⟩
    rw [mem_entries_iff, mem_entries_iff, h]
  -- Both list their entries in one order, so the same entries make the same list.
  refine hperm.eq_of_pairwise ?_ m.ascending n.ascending
  intro a b _ _ hab hba
  exact absurd (Nat.lt_trans hab hba) (Nat.lt_irrefl _)

/-! ## Parts and changes -/

/-- What a part of a map finds. -/
@[simp] theorem get?_filter (m : SeqMap β) (p : Nat → β → Bool) (k : Nat) :
    (m.filter p).get? k = (m.get? k).filter (p k) := by
  apply Option.ext
  intro v
  rw [get?_eq_some_iff, entries_filter, List.mem_filter, mem_entries_iff, Option.filter_eq_some_iff]

/-- A part that has all entries is the whole map. -/
theorem filter_eq_of_size {m : SeqMap β} {p : Nat → β → Bool} (h : (m.filter p).size = m.size) :
    m.filter p = m := by
  apply ext
  rw [entries_filter, List.filter_eq_self, ← List.length_filter_eq_length_iff]
  rw [← length_entries, ← length_entries, entries_filter] at h
  exact h

theorem lookup_map_snd {γ : Type} (f : Nat → β → γ) (k : Nat) (es : List (Nat × β)) :
    (es.map fun e => (e.1, f e.1 e.2)).lookup k = (es.lookup k).map (f k) := by
  induction es with
  | nil => rfl
  | cons e es ih =>
    obtain ⟨j, v⟩ := e
    by_cases h : k = j
    · subst h
      simp
    · have hb : (k == j) = false := by simp [h]
      simp only [List.map_cons, List.lookup_cons, hb, ih]

theorem get?_map {γ : Type} (f : Nat → β → γ) (m : SeqMap β) (k : Nat) :
    (m.map f).get? k = (m.get? k).map (f k) := lookup_map_snd f k m.backwards

/-- A change of one value is found under its number, and nothing else changes. -/
@[simp] theorem get?_modify (m : SeqMap β) (k j : Nat) (f : β → β) :
    (m.modify k f).get? j = if j = k then (m.get? j).map f else m.get? j := by
  rw [modify, get?_map]
  by_cases h : j = k <;> simp [h]

@[simp] theorem contains_insert (m : SeqMap β) (k j : Nat) (v : β) :
    (m.insert k v).contains j = (decide (j = k) || m.contains j) := by
  by_cases h : j = k <;> simp [contains, h]

@[simp] theorem contains_erase (m : SeqMap β) (k j : Nat) :
    (m.erase k).contains j = (!decide (j = k) && m.contains j) := by
  by_cases h : j = k <;> simp [contains, h]

@[simp] theorem contains_startingAt (m : SeqMap β) (k j : Nat) :
    (m.startingAt k).contains j = (decide (k ≤ j) && m.contains j) := by
  by_cases h : k ≤ j <;> simp [contains, h]

theorem contains_filter_fst (m : SeqMap β) (p : Nat → Bool) (j : Nat) :
    (m.filter fun k _ => p k).contains j = (m.contains j && p j) := by
  rw [contains, contains, get?_filter]
  cases m.get? j with
  | none => rfl
  | some v => by_cases h : p j = true <;> simp [h]

@[simp] theorem contains_modify (m : SeqMap β) (k j : Nat) (f : β → β) :
    (m.modify k f).contains j = m.contains j := by
  by_cases h : j = k <;> simp [contains, h]

theorem get?_foldl_erase (ns : List Nat) (m : SeqMap β) (k : Nat) :
    (ns.foldl erase m).get? k = if k ∈ ns then none else m.get? k := by
  induction ns generalizing m with
  | nil => simp
  | cons n ns ih =>
    rw [List.foldl_cons, ih, get?_erase]
    by_cases hk : k ∈ ns <;> by_cases hn : k = n <;> simp [hk, hn]

theorem contains_foldl_erase (ns : List Nat) (m : SeqMap β) (k : Nat) :
    (ns.foldl erase m).contains k = (!decide (k ∈ ns) && m.contains k) := by
  rw [contains, get?_foldl_erase]
  by_cases hk : k ∈ ns <;> simp [contains, hk]

/-! ## Emptiness, the lowest and the highest number -/

theorem isEmpty_iff {m : SeqMap β} : m.isEmpty = true ↔ ∀ k, m.get? k = none := by
  constructor
  · intro h k
    rw [isEmpty, List.isEmpty_iff] at h
    simp [get?, h]
  · intro h
    rw [isEmpty, List.isEmpty_iff, List.eq_nil_iff_forall_not_mem]
    rintro ⟨k, v⟩ he
    have hk := m.mem_entries_iff.1 (List.mem_reverse.2 he)
    rw [h k] at hk
    cases hk

theorem isEmpty_eq_false_iff {m : SeqMap β} :
    m.isEmpty = false ↔ ∃ k v, m.get? k = some v := by
  rw [← Bool.not_eq_true, isEmpty_iff]
  simp [Option.ne_none_iff_exists']

theorem eq_empty_of_isEmpty {m : SeqMap β} (h : m.isEmpty = true) : m = empty :=
  ext_get? fun k => by rw [isEmpty_iff.1 h k, get?_empty]

theorem first?_eq_none_iff {m : SeqMap β} : m.first? = none ↔ m.isEmpty = true := by
  rw [first?, List.getLast?_eq_none_iff, isEmpty, List.isEmpty_iff]

theorem last?_eq_none_iff {m : SeqMap β} : m.last? = none ↔ m.isEmpty = true := by
  rw [last?, List.head?_eq_none_iff, isEmpty, List.isEmpty_iff]

/-- The first entry has the lowest number. -/
theorem first?_eq_some_iff {m : SeqMap β} {k : Nat} {v : β} :
    m.first? = some (k, v) ↔ m.get? k = some v ∧ ∀ j w, m.get? j = some w → k ≤ j := by
  constructor
  · intro h
    rw [← head?_entries, List.head?_eq_some_iff] at h
    obtain ⟨es, hes⟩ := h
    have hasc := m.ascending
    rw [hes, List.pairwise_cons] at hasc
    refine ⟨by rw [get?_eq_some_iff, hes]; exact List.mem_cons_self, fun j w hj => ?_⟩
    rw [get?_eq_some_iff, hes] at hj
    -- Behind the front the numbers are higher.
    rcases List.mem_cons.1 hj with he | hj
    · exact Nat.le_of_eq (congrArg Prod.fst he).symm
    · exact Nat.le_of_lt (hasc.1 _ hj)
  · rintro ⟨hk, hle⟩
    cases hf : m.first? with
    | none =>
      rw [first?_eq_none_iff, isEmpty_iff] at hf
      rw [hf k] at hk
      cases hk
    | some e =>
      obtain ⟨j, w⟩ := e
      rw [← head?_entries, List.head?_eq_some_iff] at hf
      obtain ⟨es, hes⟩ := hf
      have hasc := m.ascending
      rw [hes, List.pairwise_cons] at hasc
      -- The front is not below the entry, and the entry is not below the front.
      have hj : m.get? j = some w := by rw [get?_eq_some_iff, hes]; exact List.mem_cons_self
      rw [get?_eq_some_iff, hes] at hk
      rcases List.mem_cons.1 hk with he | hk
      · rw [he]
      · have := hle j w hj
        have := hasc.1 _ hk
        omega

/-- The last entry has the highest number. -/
theorem last?_eq_some_iff {m : SeqMap β} {k : Nat} {v : β} :
    m.last? = some (k, v) ↔ m.get? k = some v ∧ ∀ j w, m.get? j = some w → j ≤ k := by
  have hmem (j : Nat) (w : β) : m.get? j = some w ↔ (j, w) ∈ m.backwards :=
    lookup_eq_some_iff m.descending
  have hdesc := m.descending
  simp only [hmem, last?]
  -- The entries are kept with the highest number in front.
  cases hes : m.backwards with
  | nil => simp
  | cons e es =>
    rw [hes, List.pairwise_cons] at hdesc
    simp only [List.head?_cons, Option.some.injEq, List.mem_cons]
    constructor
    · rintro rfl
      refine ⟨.inl rfl, ?_⟩
      intro j w hj
      rcases hj with hj | hj
      · exact Nat.le_of_eq (congrArg Prod.fst hj)
      · exact Nat.le_of_lt (hdesc.1 _ hj)
    · rintro ⟨hk | hk, hle⟩
      · exact hk.symm
      · have := hle e.1 e.2 (.inl rfl)
        have := hdesc.1 _ hk
        omega

/-! ## Sizes -/

theorem size_filter_le (m : SeqMap β) (p : Nat → β → Bool) : (m.filter p).size ≤ m.size :=
  List.length_filter_le ..

theorem size_erase_le (m : SeqMap β) (k : Nat) : (m.erase k).size ≤ m.size := size_filter_le ..

theorem size_modify (m : SeqMap β) (k : Nat) (f : β → β) : (m.modify k f).size = m.size :=
  List.length_map ..

/-- A value takes the place of another one or comes as one more. -/
theorem size_insert_le (m : SeqMap β) (k : Nat) (v : β) : (m.insert k v).size ≤ m.size + 1 := by
  have hentries (es : List (Nat × β)) : (insertEntry k v es).length ≤ es.length + 1 := by
    induction es with
    | nil => exact Nat.le_refl 1
    | cons e es ih =>
      rw [insertEntry]
      split
      · exact Nat.le_refl _
      · split
        · exact Nat.le_succ _
        · exact Nat.succ_le_succ ih
  exact hentries m.backwards
/-! ## Sums over a map -/

theorem sum_filter_ne (f : β → Nat) (k : Nat) (v : β) (es : List (Nat × β))
    (hes : (es.map (·.1)).Nodup) (hk : (k, v) ∈ es) :
    (es.map fun e => f e.2).sum =
      f v + ((es.filter fun e => e.1 != k).map fun e => f e.2).sum := by
  induction es with
  | nil => cases hk
  | cons e es ih =>
    rw [List.map_cons, List.nodup_cons] at hes
    rcases List.mem_cons.1 hk with rfl | hk
    · -- The number stands at the front, and nowhere behind it.
      have hrest : es.filter (fun e => e.1 != k) = es := by
        apply List.filter_eq_self.2
        intro e he
        have : e.1 ≠ k := fun h => hes.1 (List.mem_map.2 ⟨e, he, h⟩)
        simpa using this
      simp [hrest]
    · -- The number stands behind the front, which stays.
      have hne : e.1 ≠ k := fun h => hes.1 (List.mem_map.2 ⟨(k, v), hk, h.symm⟩)
      rw [List.filter_cons_of_pos (by simpa using hne)]
      simp only [List.map_cons, List.sum_cons]
      rw [ih hes.2 hk]
      omega

/-- A sum over a map loses the share of a number that is erased. -/
theorem sum_values_erase (m : SeqMap β) (f : β → Nat) {k : Nat} {v : β} (h : m.get? k = some v) :
    (m.values.map f).sum = f v + ((m.erase k).values.map f).sum := by
  have hs := sum_filter_ne f k v m.entries m.keys_nodup (get?_eq_some_iff.1 h)
  rw [values, values, erase, entries_filter, List.map_map, List.map_map]
  exact hs

/-- A sum over a map gains the share of a number above all others. -/
theorem sum_values_insert (m : SeqMap β) (f : β → Nat) {k : Nat} (v : β)
    (h : ∀ j w, m.get? j = some w → j < k) :
    ((m.insert k v).values.map f).sum = (m.values.map f).sum + f v := by
  rw [values, entries_insert_of_lt m v fun e he => h e.1 e.2 (m.mem_entries_iff.1 he)]
  simp [values]

end SeqMap

namespace SeqSet

@[simp] theorem contains_add (s : SeqSet) (k j : Nat) :
    (s.add k).contains j = (decide (j = k) || s.contains j) := SeqMap.contains_insert s k j ()

theorem contains_foldl_add (ks : List Nat) (s : SeqSet) (j : Nat) :
    (ks.foldl add s).contains j = (decide (j ∈ ks) || s.contains j) := by
  induction ks generalizing s with
  | nil => simp
  | cons k ks ih =>
    rw [List.foldl_cons, ih, contains_add]
    by_cases hk : j = k <;> by_cases hks : j ∈ ks <;> simp [hk, hks]

theorem contains_ofList (ks : List Nat) (j : Nat) :
    (ofList ks).contains j = decide (j ∈ ks) := by
  rw [ofList, contains_foldl_add]
  exact Bool.or_false _

/-- Sets with the same numbers are equal. -/
theorem ext_contains {s t : SeqSet} (h : ∀ k, s.contains k = t.contains k) : s = t := by
  apply SeqMap.ext_get?
  intro k
  have hk := h k
  rw [SeqMap.contains, SeqMap.contains] at hk
  cases hs : s.get? k with
  | none =>
    rw [hs] at hk
    exact (Option.isNone_iff_eq_none.1 (by simpa using hk.symm)).symm
  | some u =>
    rw [hs] at hk
    obtain ⟨w, hw⟩ := Option.isSome_iff_exists.1 (by simpa using hk.symm)
    rw [hw]

/-- Numbers that come may be cut off from below before they come, if they are cut off further up
afterwards. -/
theorem startingAt_foldl_add (ks : List Nat) (s : SeqSet) {i k : Nat} (hle : i ≤ k) :
    SeqMap.startingAt (ks.foldl add (SeqMap.startingAt s i)) k =
      SeqMap.startingAt (ks.foldl add s) k := by
  apply ext_contains
  intro j
  rw [SeqMap.contains_startingAt, SeqMap.contains_startingAt, contains_foldl_add,
    contains_foldl_add, SeqMap.contains_startingAt]
  by_cases hj : k ≤ j
  · rw [decide_eq_true (Nat.le_trans hle hj), Bool.true_and]
  · rw [decide_eq_false hj, Bool.false_and, Bool.false_and]

end SeqSet

end StreamBroker
