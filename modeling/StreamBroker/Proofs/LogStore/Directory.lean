import StreamBroker.LogStore.Directory
import StreamBroker.Proofs.Except
import StreamBroker.Proofs.LogStore.Effect
import StreamBroker.Proofs.Text.Decimal

/-!
# Logs in directories

A directory holds a log when the files whose names say "entry" are just its entries, under the names
that the store gives them.  Other files may lie beside them, as long as they leave room for the
files that entries are first written to.  On such a directory no call fails, and every call has its
effect.

## Main definitions

* `DirectoryStore.Lists`: a directory holds a log

## Main results

* `DirectoryStore.parseIndex_entryName`: the number of an entry is read back from its name
* `DirectoryStore.Lists.writeEntries_eq`, `DirectoryStore.Lists.removeEntries_eq`: changes
* `DirectoryStore.Lists.indices_eq`: the entries are found in ascending order
* `DirectoryStore.Lists.readEntries_eq`: and read
-/

namespace StreamBroker

/-! ## Files under names -/

namespace DirectoryTree

variable {t : DirectoryTree} {name other : String} {node : FileNode}

theorem lookup_unset (t : DirectoryTree) (name other : String) :
    (t.unset name).lookup other = if other = name then none else t.lookup other :=
  lookup_filter_ne t name other

theorem lookup_set (t : DirectoryTree) (name other : String) (node : FileNode) :
    (t.set name node).lookup other = if other = name then some node else t.lookup other :=
  lookup_put t name other node

theorem name_mem_iff : name ∈ t.map (·.1) ↔ ∃ node, t.lookup name = some node := by
  rw [← any_key_iff, List.any_eq_true]
  simp only [List.mem_map, beq_iff_eq]

theorem nodup_unset (h : (t.map (·.1)).Nodup) (name : String) : ((t.unset name).map (·.1)).Nodup :=
  h.sublist (List.filter_sublist.map _)

/-- What is put under a name that is there stands in the place of what was there. -/
theorem names_set (t : DirectoryTree) (name : String) (node : FileNode) :
    (t.set name node).map (·.1) =
      if name ∈ t.map (·.1) then t.map (·.1) else t.map (·.1) ++ [name] := by
  rw [set]
  have hany := any_key_iff.trans (@name_mem_iff t name).symm
  split
  · next h =>
    rw [if_pos (hany.1 h), List.map_map]
    apply List.map_congr_left
    intro e _
    by_cases he : e.1 = name <;> simp [he]
  · next h => rw [if_neg (mt hany.2 h), List.map_append, List.map_singleton]

theorem nodup_set (h : (t.map (·.1)).Nodup) (name : String) (node : FileNode) :
    ((t.set name node).map (·.1)).Nodup := by
  rw [names_set]
  split
  · exact h
  · next hname =>
    refine List.nodup_append.2 ⟨h, List.pairwise_singleton .., fun a ha b hb e => hname ?_⟩
    obtain rfl : b = name := List.mem_singleton.1 hb
    exact e ▸ ha

end DirectoryTree

/-! ## Names of entries -/

namespace DirectoryStore

theorem isDigit_ne {c d : Char} (hc : c.isDigit = true) (hd : d.isDigit = false) : c ≠ d := by
  rintro rfl
  rw [hc] at hd
  cases hd

theorem ne_of_mem_padded {width k : Nat} {c d : Char} (hc : c ∈ Decimal.padded width k)
    (hd : d.isDigit = false) : c ≠ d :=
  isDigit_ne (List.all_eq_true.1 (Decimal.all_isDigit_padded width k) c hc) hd

/-- A name of digits with an extension behind a dot is cut there. -/
theorem splitExtension_padded (k : Nat) (extension : List Char) (hext : '.' ∉ extension) :
    splitExtension (String.ofList (Decimal.padded 20 k ++ '.' :: extension)) =
      (String.ofList (Decimal.padded 20 k), some (String.ofList extension)) := by
  have hne : (Decimal.padded 20 k).reverse.isEmpty = false := by
    simpa [List.isEmpty_iff] using Decimal.padded_ne_nil 20 k
  have hall : ∀ c ∈ extension.reverse, (c != '.') = true := fun c hc => by
    have : c ≠ '.' := fun h => hext (h ▸ List.mem_reverse.1 hc)
    simpa using this
  have hdot : ('.' != '.') = false := rfl
  -- A name is cut at its last dot, so it is searched from behind.
  simp only [splitExtension, String.toList_ofList, List.reverse_append, List.reverse_cons,
    List.append_assoc, List.singleton_append, List.takeWhile_append_of_pos hall,
    List.dropWhile_append_of_pos hall, List.takeWhile_cons, List.dropWhile_cons, hdot,
    Bool.false_eq_true, if_false, hne, List.append_nil, List.reverse_reverse]

theorem splitExtension_entryName (k : Nat) :
    splitExtension (entryName k) = (String.ofList (Decimal.padded 20 k), some "entry") := by
  have h : entryName k = String.ofList (Decimal.padded 20 k ++ '.' :: "entry".toList) := by
    rw [entryName, String.ofList_append]
    rfl
  rw [h, splitExtension_padded k _ (by decide)]
  rfl

theorem splitExtension_temporaryName (k : Nat) :
    splitExtension (temporaryName k) = (String.ofList (Decimal.padded 20 k), some "tmp") := by
  have h : temporaryName k = String.ofList (Decimal.padded 20 k ++ '.' :: "tmp".toList) := by
    rw [temporaryName, String.ofList_append]
    rfl
  rw [h, splitExtension_padded k _ (by decide)]
  rfl

theorem entryName_inj {k l : Nat} (h : entryName k = entryName l) : k = l := by
  have hsplit := congrArg (fun name => (splitExtension name).1) h
  simp only [splitExtension_entryName] at hsplit
  exact Decimal.padded_inj (String.ofList_injective hsplit)

theorem temporaryName_ne_entryName (k l : Nat) : temporaryName k ≠ entryName l := by
  intro h
  have hsplit := congrArg (fun name => (splitExtension name).2) h
  simp only [splitExtension_entryName, splitExtension_temporaryName] at hsplit
  exact absurd hsplit (by decide)

theorem parseWord?_padded {k : Nat} (h : k < wordLimit) :
    parseWord? (String.ofList (Decimal.padded 20 k)) = some k := by
  have hparse := Decimal.parse?_padded 20 k
  rw [parseWord?, String.toList_ofList]
  cases hd : Decimal.padded 20 k with
  | nil => exact absurd hd (Decimal.padded_ne_nil 20 k)
  | cons c cs =>
    -- A sign in front would be passed over, but the name begins with a digit.
    have hc : c ≠ '+' := ne_of_mem_padded (hd ▸ List.mem_cons_self) (by decide)
    rw [hd] at hparse
    split
    · next heq => exact absurd (List.cons.inj heq).1 hc
    · simp [hparse, h]

/-- The number of an entry is read back from its name. -/
theorem parseIndex_entryName (ns : String) {k : Nat} (h : k < wordLimit) :
    parseIndex ns (entryName k) = .ok (some k) := by
  rw [parseIndex, splitExtension_entryName]
  simp only [parseWord?_padded h]

/-- A file whose name does not say "entry" is passed over. -/
theorem parseIndex_of_foreign (ns : String) {name : String}
    (h : (splitExtension name).2 ≠ some "entry") : parseIndex ns name = .ok none := by
  rw [parseIndex]
  split
  · next heq => exact absurd (congrArg Prod.snd heq) h
  · rfl

/-! ## Directories that hold logs -/

/-- A directory holds a log. -/
structure Lists (t : DirectoryTree) (log : SeqMap Bytes) : Prop where
  /-- No name is used twice. -/
  nodup : (t.map (·.1)).Nodup
  /-- Every entry has its file. -/
  lookup_entryName_iff : ∀ k data,
    t.lookup (entryName k) = some (.file data) ↔ log.get? k = some data
  /-- The numbers have sixty-four bits. -/
  lt_wordLimit : ∀ {k data}, log.get? k = some data → k < wordLimit
  /-- A name that says "entry" is that of an entry. -/
  name_eq : ∀ name ∈ t.map (·.1), (splitExtension name).2 = some "entry" →
    ∃ k, log.contains k = true ∧ name = entryName k
  /-- The files that entries are first written to are not in the way. -/
  temporary_ne : ∀ k below, t.lookup (temporaryName k) ≠ some (.directory below)

namespace Lists

variable {t : DirectoryTree} {log : SeqMap Bytes}

theorem nil : Lists [] SeqMap.empty where
  nodup := List.nodup_nil
  lookup_entryName_iff k data := by simp
  lt_wordLimit h := by cases h
  name_eq name h := by cases h
  temporary_ne k below h := by cases h

theorem lookup_entryName (h : Lists t log) (k : Nat) :
    t.lookup (entryName k) = (log.get? k).map .file := by
  cases hl : t.lookup (entryName k) with
  | none =>
    cases hk : log.get? k with
    | none => rfl
    | some data =>
      rw [(h.lookup_entryName_iff k data).2 hk] at hl
      cases hl
  | some node =>
    have hname : entryName k ∈ t.map (·.1) := DirectoryTree.name_mem_iff.2 ⟨node, hl⟩
    -- Whatever is under the name is the file of the entry, and no directory.
    obtain ⟨l, hl', he⟩ := h.name_eq _ hname (by rw [splitExtension_entryName])
    obtain ⟨data, hdata⟩ := SeqMap.contains_iff.1 hl'
    obtain rfl := entryName_inj he
    rw [(h.lookup_entryName_iff k data).2 hdata] at hl
    rw [hdata, ← hl]
    rfl

/-- The entries of a directory without files are none. -/
theorem eq_empty (h : Lists [] log) : log = SeqMap.empty := by
  apply SeqMap.ext_get?
  intro k
  have hk := h.lookup_entryName k
  cases hl : log.get? k with
  | none => rfl
  | some data =>
    rw [hl] at hk
    cases hk

/-! ### Changes -/

theorem removeEntry_eq (h : Lists t log) (k : Nat) :
    ∃ t', removeEntry t k = .ok (log.contains k, t') ∧ Lists t' (log.erase k) := by
  rw [removeEntry, h.lookup_entryName]
  cases hk : log.get? k with
  | none =>
    refine ⟨t, by simp [SeqMap.contains, hk], ?_⟩
    -- Where no file is nothing goes, from the log neither.
    have herase : log.erase k = log := by
      apply SeqMap.ext_get?
      intro j
      rw [SeqMap.get?_erase]
      split
      · next hj => rw [hj, hk]
      · rfl
    rwa [herase]
  | some data =>
    refine ⟨t.unset (entryName k), by simp [SeqMap.contains, hk], ?_, ?_, ?_, ?_, ?_⟩
    · exact DirectoryTree.nodup_unset h.nodup _
    · intro j w
      rw [DirectoryTree.lookup_unset, SeqMap.get?_erase]
      by_cases hj : j = k
      · simp [hj]
      · have hne : entryName j ≠ entryName k := fun e => hj (entryName_inj e)
        rw [if_neg hne, if_neg hj, h.lookup_entryName_iff]
    · intro j w hj
      rw [SeqMap.get?_erase] at hj
      split at hj
      · cases hj
      · exact h.lt_wordLimit hj
    · intro name hname hext
      obtain ⟨node, hnode⟩ := DirectoryTree.name_mem_iff.1 hname
      rw [DirectoryTree.lookup_unset] at hnode
      split at hnode
      · cases hnode
      · next hne =>
        obtain ⟨j, hj, rfl⟩ := h.name_eq name (DirectoryTree.name_mem_iff.2 ⟨node, hnode⟩) hext
        refine ⟨j, ?_, rfl⟩
        -- What is left was there before, under another number.
        have hjk : j ≠ k := fun e => hne (e ▸ rfl)
        simp [hj, hjk]
    · intro j below
      rw [DirectoryTree.lookup_unset, if_neg (temporaryName_ne_entryName j k)]
      exact h.temporary_ne j below

theorem removeEntries_eq (h : Lists t log) (ks : List Nat) :
    ∃ t', removeEntries t ks = (.ok (), t') ∧ Lists t' (ks.foldl SeqMap.erase log) := by
  induction ks generalizing t log with
  | nil => exact ⟨t, rfl, h⟩
  | cons k ks ih =>
    obtain ⟨t', hk, ht'⟩ := h.removeEntry_eq k
    rw [removeEntries, hk]
    exact ih ht'

theorem writeEntry_eq (h : Lists t log) {k : Nat} (hk : k < wordLimit) (data : Bytes) :
    ∃ t', writeEntry t k data = (.ok (), t') ∧ Lists t' (log.insert k data) := by
  refine ⟨(t.unset (temporaryName k)).set (entryName k) (.file data), ?_, ?_⟩
  · have hentry := h.lookup_entryName k
    rw [writeEntry]
    -- A directory would be in the way under either name, but there is none.
    split
    · next hdir => exact absurd hdir (h.temporary_ne k _)
    · split
      · next hdir =>
        rw [hdir] at hentry
        cases hl : log.get? k <;> rw [hl] at hentry <;> cases hentry
      · rfl
  · refine ⟨?_, ?_, ?_, ?_, ?_⟩
    · exact DirectoryTree.nodup_set (DirectoryTree.nodup_unset h.nodup _) _ _
    · intro j w
      rw [DirectoryTree.lookup_set, DirectoryTree.lookup_unset, SeqMap.get?_insert]
      by_cases hj : j = k
      · simp [hj]
      · have hne : entryName j ≠ entryName k := fun e => hj (entryName_inj e)
        -- The file that is first written to is gone, and was the file of no entry.
        have htmp : entryName j ≠ temporaryName k := (temporaryName_ne_entryName k j).symm
        rw [if_neg hne, if_neg htmp, if_neg hj, h.lookup_entryName_iff]
    · intro j w hj
      rw [SeqMap.get?_insert] at hj
      split at hj
      · next e => exact e ▸ hk
      · exact h.lt_wordLimit hj
    · intro name hname hext
      obtain ⟨node, hnode⟩ := DirectoryTree.name_mem_iff.1 hname
      rw [DirectoryTree.lookup_set, DirectoryTree.lookup_unset] at hnode
      split at hnode
      · next e => exact ⟨k, by simp, e⟩
      · split at hnode
        · cases hnode
        · obtain ⟨j, hj, rfl⟩ := h.name_eq name (DirectoryTree.name_mem_iff.2 ⟨node, hnode⟩) hext
          exact ⟨j, by simp [hj], rfl⟩
    · intro j below
      rw [DirectoryTree.lookup_set, if_neg (temporaryName_ne_entryName j k),
        DirectoryTree.lookup_unset]
      split
      · simp
      · exact h.temporary_ne j below

theorem writeEntries_eq (h : Lists t log) {es : List (Nat × Bytes)}
    (hes : ∀ e ∈ es, e.1 < wordLimit) :
    ∃ t', writeEntries t es = (.ok (), t') ∧
      Lists t' (es.foldl (fun m e => m.insert e.1 e.2) log) := by
  induction es generalizing t log with
  | nil => exact ⟨t, rfl, h⟩
  | cons e es ih =>
    obtain ⟨t', he, ht'⟩ := h.writeEntry_eq (hes e List.mem_cons_self) e.2
    rw [writeEntries, he]
    exact ih ht' fun d hd => hes d (List.mem_cons_of_mem e hd)

/-! ### Reading -/

/-- The number of an entry by the name of its file; none for a file that is no entry. -/
def numberOf (name : String) : Option Nat :=
  if (splitExtension name).2 = some "entry" then parseWord? (splitExtension name).1 else none

theorem numberOf_entryName {k : Nat} (hk : k < wordLimit) : numberOf (entryName k) = some k := by
  rw [numberOf, splitExtension_entryName, if_pos rfl, parseWord?_padded hk]

theorem parseIndex_eq (h : Lists t log) (ns : String) {e : String × FileNode} (he : e ∈ t) :
    parseIndex ns e.1 = .ok (numberOf e.1) := by
  by_cases hext : (splitExtension e.1).2 = some "entry"
  · obtain ⟨k, hk, hname⟩ := h.name_eq e.1 (List.mem_map_of_mem he) hext
    obtain ⟨data, hdata⟩ := SeqMap.contains_iff.1 hk
    have hlt := h.lt_wordLimit hdata
    rw [hname, parseIndex_entryName ns hlt, numberOf_entryName hlt]
  · rw [parseIndex_of_foreign ns hext, numberOf, if_neg hext]

theorem numberOf_eq_some (h : Lists t log) {name : String} (hname : name ∈ t.map (·.1)) {k : Nat}
    (hk : numberOf name = some k) : log.contains k = true ∧ name = entryName k := by
  rw [numberOf] at hk
  split at hk
  · next hext =>
    obtain ⟨l, hl, rfl⟩ := h.name_eq name hname hext
    obtain ⟨data, hdata⟩ := SeqMap.contains_iff.1 hl
    rw [splitExtension_entryName, parseWord?_padded (h.lt_wordLimit hdata)] at hk
    cases hk
    exact ⟨hl, rfl⟩
  · cases hk

theorem mem_numbers_iff (h : Lists t log) {k : Nat} :
    k ∈ t.filterMap (fun e => numberOf e.1) ↔ k ∈ log.keys := by
  rw [SeqMap.mem_keys_iff, List.mem_filterMap]
  constructor
  · rintro ⟨e, he, hk⟩
    exact (h.numberOf_eq_some (List.mem_map_of_mem he) hk).1
  · intro hk
    obtain ⟨data, hdata⟩ := SeqMap.contains_iff.1 hk
    have hl := (h.lookup_entryName_iff k data).2 hdata
    exact ⟨_, mem_of_lookup hl, numberOf_entryName (h.lt_wordLimit hdata)⟩

theorem numbers_nodup (h : Lists t log) : (t.filterMap fun e => numberOf e.1).Nodup := by
  have hnodup : t.Pairwise fun d e => d.1 ≠ e.1 := List.pairwise_map.1 h.nodup
  have hnumbers : t.Pairwise fun d e =>
      ∀ k, numberOf d.1 = some k → ∀ l, numberOf e.1 = some l → k ≠ l := by
    apply hnodup.imp_of_mem
    intro _ _ hd he hne k hk l hl e
    have hdk := (h.numberOf_eq_some (List.mem_map_of_mem hd) hk).2
    have hel := (h.numberOf_eq_some (List.mem_map_of_mem he) hl).2
    exact hne (hdk.trans (e ▸ hel.symm))
  exact hnumbers.filterMap _ fun d e hde => hde

/-- The entries are found in ascending order. -/
theorem indices_eq (h : Lists t log) (ns : String) : indices ns t = .ok log.keys := by
  have hfound : t.mapM (fun e => parseIndex ns e.1) = .ok (t.map fun e => numberOf e.1) :=
    mapM_eq_ok fun e he => h.parseIndex_eq ns he
  rw [indices, hfound]
  apply congrArg Except.ok
  rw [List.filterMap_map]
  -- Sorted they are in ascending order, and they are the numbers of the log, each once.
  have hsorted : (List.mergeSort (t.filterMap fun e => numberOf e.1)
      fun a b => decide (a ≤ b)).Pairwise (· ≤ ·) :=
    (List.pairwise_mergeSort (by simp; omega) (by simp; omega) _).imp (by simp)
  have hperm : (List.mergeSort (t.filterMap fun e => numberOf e.1)
      fun a b => decide (a ≤ b)).Perm log.keys :=
    (List.mergeSort_perm _ _).trans
      ((List.perm_ext_iff_of_nodup h.numbers_nodup log.keys_nodup).2 fun k => h.mem_numbers_iff)
  exact hperm.eq_of_pairwise (fun a b _ _ hab hba => Nat.le_antisymm hab hba) hsorted
    (log.keys_ascending.imp Nat.le_of_lt)

theorem readEntries_eq (h : Lists t log) (ks : List Nat) :
    readEntries t ks = .ok (ks.filterMap fun k => (log.get? k).map (k, ·)) := by
  induction ks with
  | nil => rfl
  | cons k ks ih =>
    rw [readEntries, h.lookup_entryName, ih]
    cases hk : log.get? k with
    | none => simp [hk]
    | some data => simp [hk, Except.map]

end Lists

end DirectoryStore

end StreamBroker
