/-!
# Maps in the order of their numbers

Logs, indexes and cursors all hold things under numbers and go through them in ascending order.
Numbers mostly come in ascending order too, and what came last is what is asked for, so a map keeps
its entries with the highest number in front, each number once.

## Main definitions

* `SeqMap`: a map from numbers to values.
* `SeqMap.entries`: what the map holds, in ascending order.
* `SeqMap.get?`, `SeqMap.insert`, `SeqMap.erase`: one number.
* `SeqMap.startingAt`, `SeqMap.filter`: parts of a map.
* `SeqSet`: a set of numbers.

## Main results

* `SeqMap.get?_insert`, `SeqMap.get?_erase`: what a change does to every number.
* `SeqMap.ascending`, `SeqMap.mem_entries_iff`: the entries ascend and are what `get?` finds.
-/

namespace StreamBroker

/-- A finite map from numbers. -/
structure SeqMap (β : Type) where
  /-- The numbers with their values, the highest number first. -/
  backwards : List (Nat × β)
  /-- Every number stands before all smaller ones. -/
  descending : backwards.Pairwise fun a b => b.1 < a.1

namespace SeqMap

variable {β γ : Type}

/-- The numbers with their values, in ascending order. -/
def entries (m : SeqMap β) : List (Nat × β) := m.backwards.reverse

/-- Every number stands before all larger ones. -/
theorem ascending (m : SeqMap β) : m.entries.Pairwise fun a b => a.1 < b.1 :=
  List.pairwise_reverse.2 m.descending

theorem ext {m n : SeqMap β} (h : m.entries = n.entries) : m = n := by
  cases m; cases n; cases List.reverse_inj.1 h; rfl

instance [DecidableEq β] : DecidableEq (SeqMap β) := fun m n =>
  if h : m.backwards = n.backwards then isTrue (ext (congrArg List.reverse h))
  else isFalse fun e => h (e ▸ rfl)

instance [Repr β] : Repr (SeqMap β) := ⟨fun m => reprPrec m.entries⟩

def empty : SeqMap β := ⟨[], .nil⟩

instance : Inhabited (SeqMap β) := ⟨empty⟩

/-- The numbers, in ascending order. -/
def keys (m : SeqMap β) : List Nat := m.entries.map (·.1)

/-- The values, in the order of their numbers. -/
def values (m : SeqMap β) : List β := m.entries.map (·.2)

def size (m : SeqMap β) : Nat := m.backwards.length

def isEmpty (m : SeqMap β) : Bool := m.backwards.isEmpty

/-- The value of a number. -/
def get? (m : SeqMap β) (k : Nat) : Option β := m.backwards.lookup k

/-- Whether a number has a value. -/
def contains (m : SeqMap β) (k : Nat) : Bool := (m.get? k).isSome

/-- The entry with the lowest number. -/
def first? (m : SeqMap β) : Option (Nat × β) := m.backwards.getLast?

/-- The entry with the highest number. -/
def last? (m : SeqMap β) : Option (Nat × β) := m.backwards.head?

/-- The entries that satisfy a test. -/
def filter (p : Nat → β → Bool) (m : SeqMap β) : SeqMap β :=
  ⟨m.backwards.filter fun e => p e.1 e.2, m.descending.filter _⟩

/-- The entries with a number or a higher one. -/
def startingAt (m : SeqMap β) (k : Nat) : SeqMap β := m.filter fun n _ => decide (k ≤ n)

/-- The map without a number. -/
def erase (m : SeqMap β) (k : Nat) : SeqMap β := m.filter fun n _ => n != k

/-- The same numbers with other values. -/
def map (f : Nat → β → γ) (m : SeqMap β) : SeqMap γ :=
  ⟨m.backwards.map fun e => (e.1, f e.1 e.2), by
    rw [List.pairwise_map]
    exact m.descending⟩

/-- The map with the value of one number changed, if it has one. -/
def modify (m : SeqMap β) (k : Nat) (f : β → β) : SeqMap β :=
  m.map fun n v => if n = k then f v else v

/-- An entry in its place among entries in descending order, instead of one with its number. -/
def insertEntry (k : Nat) (v : β) : List (Nat × β) → List (Nat × β)
  | [] => [(k, v)]
  | e :: es =>
    if e.1 < k then (k, v) :: e :: es
    else if k = e.1 then (k, v) :: es
    else e :: insertEntry k v es

theorem mem_insertEntry {k : Nat} {v : β} {es : List (Nat × β)} {e : Nat × β}
    (h : e ∈ insertEntry k v es) : e = (k, v) ∨ e ∈ es := by
  induction es with
  | nil => exact .inl (by simpa [insertEntry] using h)
  | cons d es ih =>
    rw [insertEntry] at h
    split at h
    · rcases List.mem_cons.1 h with h | h
      · exact .inl h
      · exact .inr h
    · split at h
      · rcases List.mem_cons.1 h with h | h
        · exact .inl h
        · exact .inr (List.mem_cons_of_mem _ h)
      · rcases List.mem_cons.1 h with h | h
        · exact .inr (h ▸ List.mem_cons_self)
        · exact (ih h).imp id (List.mem_cons_of_mem _)

theorem pairwise_insertEntry {k : Nat} {v : β} {es : List (Nat × β)}
    (h : es.Pairwise fun a b => b.1 < a.1) :
    (insertEntry k v es).Pairwise fun a b => b.1 < a.1 := by
  induction es with
  | nil => simp [insertEntry]
  | cons e es ih =>
    have he := List.pairwise_cons.1 h
    rw [insertEntry]
    split
    · next hk =>
      refine List.pairwise_cons.2 ⟨fun a ha => ?_, h⟩
      rcases List.mem_cons.1 ha with rfl | ha
      · exact hk
      · exact Nat.lt_trans (he.1 a ha) hk
    · split
      · next hk => exact List.pairwise_cons.2 ⟨fun a ha => hk ▸ he.1 a ha, he.2⟩
      · refine List.pairwise_cons.2 ⟨fun a ha => ?_, ih he.2⟩
        rcases mem_insertEntry ha with rfl | ha
        · show k < e.1
          omega
        · exact he.1 a ha

def insert (m : SeqMap β) (k : Nat) (v : β) : SeqMap β :=
  ⟨insertEntry k v m.backwards, pairwise_insertEntry m.descending⟩

/-- The map of entries in any order; of several with one number the last counts. -/
def ofList (es : List (Nat × β)) : SeqMap β := es.foldl (fun m e => m.insert e.1 e.2) empty

/-! ## What changes do -/

@[simp] theorem get?_empty (k : Nat) : (empty : SeqMap β).get? k = none := rfl

theorem lookup_insertEntry (k j : Nat) (v : β) (es : List (Nat × β)) :
    (insertEntry k v es).lookup j = if j = k then some v else es.lookup j := by
  have ne {i : Nat} (h : j ≠ i) : (j == i) = false := by simp [h]
  induction es with
  | nil =>
    by_cases h : j = k
    · simp [insertEntry, h]
    · simp [insertEntry, List.lookup_cons, h, ne h]
  | cons e es ih =>
    obtain ⟨i, w⟩ := e
    rw [insertEntry]
    split
    · by_cases h : j = k
      · simp [h]
      · simp [List.lookup_cons, h, ne h]
    · split
      · next hk =>
        simp only at hk
        subst hk
        by_cases h : j = k
        · simp [h]
        · simp [List.lookup_cons, h, ne h]
      · next hk =>
        simp only at hk
        by_cases h : j = i
        · subst h
          have hj : j ≠ k := fun e => hk e.symm
          simp [hj]
        · simp only [List.lookup_cons, ne h, ih]

/-- A value that is put under a number is found there, and nothing else changes. -/
@[simp] theorem get?_insert (m : SeqMap β) (k j : Nat) (v : β) :
    (m.insert k v).get? j = if j = k then some v else m.get? j :=
  lookup_insertEntry k j v m.backwards

theorem lookup_filter_fst (p : Nat → Bool) (j : Nat) (es : List (Nat × β)) :
    (es.filter fun e => p e.1).lookup j = if p j then es.lookup j else none := by
  induction es with
  | nil => simp
  | cons e es ih =>
    obtain ⟨i, w⟩ := e
    by_cases hi : p i
    · rw [List.filter_cons_of_pos (by simpa using hi)]
      by_cases h : j = i
      · subst h; simp [hi]
      · have hb : (j == i) = false := by simp [h]
        simp only [List.lookup_cons, hb, ih]
    · rw [List.filter_cons_of_neg (by simpa using hi), ih]
      by_cases h : j = i
      · subst h; simp [hi]
      · have hb : (j == i) = false := by simp [h]
        simp only [List.lookup_cons, hb]

/-- A number that is erased has no value, and nothing else changes. -/
@[simp] theorem get?_erase (m : SeqMap β) (k j : Nat) :
    (m.erase k).get? j = if j = k then none else m.get? j := by
  simp only [get?, erase, filter, lookup_filter_fst (fun n => n != k)]
  by_cases h : j = k <;> simp [h]

/-- The numbers below a bound have no value any more, and nothing else changes. -/
@[simp] theorem get?_startingAt (m : SeqMap β) (k j : Nat) :
    (m.startingAt k).get? j = if k ≤ j then m.get? j else none := by
  simp only [get?, startingAt, filter, lookup_filter_fst (fun n => decide (k ≤ n)),
    decide_eq_true_eq]

theorem lookup_eq_some_iff {es : List (Nat × β)} (h : es.Pairwise fun a b => b.1 < a.1)
    {k : Nat} {v : β} : es.lookup k = some v ↔ (k, v) ∈ es := by
  induction es with
  | nil => simp
  | cons e es ih =>
    obtain ⟨i, w⟩ := e
    have he := List.pairwise_cons.1 h
    by_cases hk : k = i
    · subst hk
      simp only [List.lookup_cons, beq_self_eq_true, Option.some.injEq, List.mem_cons,
        Prod.mk.injEq, true_and]
      constructor
      · rintro rfl; exact .inl rfl
      · rintro (rfl | hm)
        · rfl
        · exact absurd (he.1 _ hm) (Nat.lt_irrefl _)
    · have hb : (k == i) = false := by simp [hk]
      simp only [List.lookup_cons, hb, ih he.2, List.mem_cons, Prod.mk.injEq, hk, false_and,
        false_or]

/-- A number has a value exactly when they are an entry. -/
theorem mem_entries_iff (m : SeqMap β) {k : Nat} {v : β} :
    (k, v) ∈ m.entries ↔ m.get? k = some v :=
  List.mem_reverse.trans (lookup_eq_some_iff m.descending).symm

/-- What a part of a map holds, in ascending order. -/
@[simp] theorem entries_filter (m : SeqMap β) (p : Nat → β → Bool) :
    (m.filter p).entries = m.entries.filter fun e => p e.1 e.2 :=
  List.filter_reverse.symm

/-- A number above all others comes last. -/
theorem entries_insert_of_lt (m : SeqMap β) {k : Nat} (v : β) (h : ∀ e ∈ m.entries, e.1 < k) :
    (m.insert k v).entries = m.entries ++ [(k, v)] := by
  obtain ⟨es, hes⟩ := m
  cases es with
  | nil => rfl
  | cons e es =>
    have he : e.1 < k := h e (List.mem_reverse.2 List.mem_cons_self)
    simp [insert, insertEntry, entries, he]

theorem length_entries (m : SeqMap β) : m.entries.length = m.size := List.length_reverse

theorem head?_entries (m : SeqMap β) : m.entries.head? = m.first? := List.head?_reverse

theorem getLast?_entries (m : SeqMap β) : m.entries.getLast? = m.last? := List.getLast?_reverse

end SeqMap

/-- A finite set of numbers, in ascending order. -/
abbrev SeqSet := SeqMap Unit

namespace SeqSet

/-- The numbers of the set, in ascending order. -/
def toList (s : SeqSet) : List Nat := s.keys

def add (s : SeqSet) (k : Nat) : SeqSet := s.insert k ()

def ofList (ks : List Nat) : SeqSet := ks.foldl add SeqMap.empty

end SeqSet

end StreamBroker
