import Mathlib.Data.List.TakeWhile
import StreamBroker.Proofs.LogStore.Holds

/-!
# Appends that fail

A store in memory appends all entries or does not fail.  A store in a directory writes entries one
after the other, and a directory that is in the place of one of the two files of an entry stops it
there.  What was written before stays, so an append that fails need not leave the log as it was:
what can be read afterwards is what an append of the entries before the one that failed leaves.

## Main definitions

* `LogStore.ReadsAlike`: two stores cannot be told apart by reading
* `DirectoryStore.isBlocked`: an entry that cannot be written
* `DirectoryStore.written`: the entries before the first that cannot be written
* `DirectoryStore.Shows`: entries can be read already

## Main results

* `DirectoryStore.writeEntries_cases`: what is written up to an entry that is in the way
* `LogStore.append_failed`: what an append that fails leaves, and when that is what there was
-/

namespace StreamBroker

namespace DirectoryStore

variable {t t' : DirectoryTree} {s s' : DirectoryStore} {k : Nat} {data : Bytes}
  {es : List (Nat × Bytes)} {ns : String}

/-! ## Entries that cannot be written -/

def isDirectory : Option FileNode → Bool
  | some (.directory _) => true
  | _ => false

/-- Whether a directory is in the place of one of the two files of an entry. -/
def isBlocked (t : DirectoryTree) (k : Nat) : Bool :=
  isDirectory (t.lookup (temporaryName k)) || isDirectory (t.lookup (entryName k))

/-- A directory with an entry. -/
def withEntry (t : DirectoryTree) (e : Nat × Bytes) : DirectoryTree :=
  (t.unset (temporaryName e.1)).set (entryName e.1) (.file e.2)

theorem writeEntry_of_not_blocked (h : isBlocked t k = false) (data : Bytes) :
    writeEntry t k data = (.ok (), withEntry t (k, data)) := by
  rw [isBlocked, Bool.or_eq_false_iff] at h
  rw [writeEntry]
  split
  · next hdir =>
    rw [hdir] at h
    cases h.1
  · split
    · next hdir =>
      rw [hdir] at h
      cases h.2
    · rfl

/-- What cannot be written leaves at most the file that it was first written to. -/
theorem writeEntry_of_blocked (h : isBlocked t k = true) (data : Bytes) :
    ∃ t', writeEntry t k data = (.error .io, t') ∧
      (t' = t ∨ t' = t.set (temporaryName k) (.file data)) := by
  rw [writeEntry]
  split
  · exact ⟨t, rfl, .inl rfl⟩
  · next htemporary =>
    split
    · exact ⟨_, rfl, .inr rfl⟩
    · next hentry =>
      -- No directory is in the way of either file.
      have hne {name : String} (hname : ∀ below, t.lookup name ≠ some (.directory below)) :
          isDirectory (t.lookup name) = false := by
        rw [isDirectory.eq_def]
        split
        · next below heq => exact absurd heq (hname below)
        · rfl
      rw [isBlocked, hne htemporary, hne hentry] at h
      cases h

theorem isBlocked_withEntry (h : isBlocked t k = false) (data : Bytes) (j : Nat) :
    isBlocked (withEntry t (k, data)) j = isBlocked t j := by
  rw [isBlocked, Bool.or_eq_false_iff] at h
  have htemporary : isDirectory ((withEntry t (k, data)).lookup (temporaryName j)) =
      isDirectory (t.lookup (temporaryName j)) := by
    rw [withEntry, DirectoryTree.lookup_set, if_neg (temporaryName_ne_entryName j k),
      DirectoryTree.lookup_unset]
    split
    · next heq => rw [heq, h.1]; rfl
    · rfl
  have hentry : isDirectory ((withEntry t (k, data)).lookup (entryName j)) =
      isDirectory (t.lookup (entryName j)) := by
    rw [withEntry, DirectoryTree.lookup_set, DirectoryTree.lookup_unset,
      if_neg (temporaryName_ne_entryName k j).symm]
    split
    · next heq => rw [heq, h.2]; rfl
    · rfl
  rw [isBlocked, htemporary, hentry, isBlocked]

/-! ## Names that say "entry" -/

/-- The names in a directory that say "entry". -/
def entryNames (t : DirectoryTree) : List String :=
  (t.map (·.1)).filter fun name => decide ((splitExtension name).2 = some "entry")

/-- The numbers that are found in some names, in their order. -/
def numbersIn (ns : String) (names : List String) : Except StorageError (List Nat) :=
  (names.mapM (parseIndex ns)).map (List.filterMap id)

/-- The numbers of the entries are found in the names that say "entry". -/
theorem indices_eq_map (ns : String) (t : DirectoryTree) :
    indices ns t = (numbersIn ns (entryNames t)).map (List.mergeSort · (· ≤ ·)) := by
  have hforeign (name : String)
      (h : decide ((splitExtension name).2 = some "entry") = false) :
      parseIndex ns name = .ok none := parseIndex_of_foreign ns (of_decide_eq_false h)
  rw [numbersIn, entryNames, map_mapM_filter hforeign, List.mapM_map, indices]
  show _ = Except.map _ (Except.map _ (t.mapM fun e => parseIndex ns e.1))
  cases t.mapM fun e => parseIndex ns e.1 <;> rfl

theorem numbersIn_append (ns : String) {names : List String} {found ks : List Nat}
    (h : numbersIn ns names = .ok found) (hks : ∀ k ∈ ks, k < wordLimit) :
    numbersIn ns (names ++ ks.map entryName) = .ok (found ++ ks) := by
  obtain ⟨numbers, hnumbers, rfl⟩ := except_map_eq_ok.1 h
  have hnew : (ks.map entryName).mapM (parseIndex ns) = .ok (ks.map some) := by
    rw [List.mapM_map]
    exact mapM_eq_ok fun k hk => parseIndex_entryName ns (hks k hk)
  rw [numbersIn, List.mapM_append, hnumbers, hnew]
  show Except.ok ((numbers ++ ks.map some).filterMap id) = _
  rw [List.filterMap_append, List.filterMap_map]
  exact congrArg (fun ns => Except.ok (_ ++ ns)) List.filterMap_some

theorem numbersIn_append_of_error {ns : String} {names : List String} {e : StorageError}
    (h : numbersIn ns names = .error e) (more : List String) :
    numbersIn ns (names ++ more) = .error e := by
  rw [numbersIn] at h ⊢
  rw [List.mapM_append]
  cases hnames : names.mapM (parseIndex ns) with
  | error e' =>
    rw [hnames] at h
    exact h
  | ok numbers =>
    rw [hnames] at h
    cases h

theorem entryNames_set_temporaryName (t : DirectoryTree) (k : Nat) (node : FileNode) :
    entryNames (t.set (temporaryName k) node) = entryNames t := by
  rw [entryNames, DirectoryTree.names_set]
  split
  · rfl
  · rw [List.filter_append, List.filter_cons_of_neg (by simp [splitExtension_temporaryName]),
      List.filter_nil, List.append_nil, entryNames]

theorem entryNames_unset_temporaryName (t : DirectoryTree) (k : Nat) :
    entryNames (t.unset (temporaryName k)) = entryNames t := by
  rw [entryNames, entryNames, DirectoryTree.unset, List.filter_map, List.filter_map,
    List.filter_filter]
  refine congrArg _ (List.filter_congr fun e _ => ?_)
  by_cases he : e.1 = temporaryName k
  · simp [he, splitExtension_temporaryName]
  · simp [he]

theorem entryNames_withEntry (t : DirectoryTree) (e : Nat × Bytes) :
    entryNames (withEntry t e) =
      entryNames t ++ if entryName e.1 ∈ t.map (·.1) then [] else [entryName e.1] := by
  have hname : entryName e.1 ∈ (t.unset (temporaryName e.1)).map (·.1) ↔
      entryName e.1 ∈ t.map (·.1) := by
    rw [DirectoryTree.name_mem_iff, DirectoryTree.name_mem_iff, DirectoryTree.lookup_unset,
      if_neg (temporaryName_ne_entryName e.1 e.1).symm]
  rw [withEntry, entryNames, DirectoryTree.names_set, ← entryNames_unset_temporaryName t e.1]
  by_cases h : entryName e.1 ∈ t.map (·.1)
  · rw [if_pos (hname.2 h), if_pos h, List.append_nil, entryNames]
  · rw [if_neg (mt hname.1 h), if_neg h, List.filter_append,
      List.filter_cons_of_pos (by simp [splitExtension_entryName]), List.filter_nil, entryNames]

/-! ## Several entries -/

/-- A directory with entries that are written one after the other. -/
def withEntries (t : DirectoryTree) (es : List (Nat × Bytes)) : DirectoryTree :=
  es.foldl withEntry t

theorem lookup_withEntry (t : DirectoryTree) (e : Nat × Bytes) (k : Nat) :
    (withEntry t e).lookup (entryName k) =
      if k = e.1 then some (.file e.2) else t.lookup (entryName k) := by
  rw [withEntry, DirectoryTree.lookup_set, DirectoryTree.lookup_unset,
    if_neg (temporaryName_ne_entryName e.1 k).symm]
  exact if_congr ⟨entryName_inj, congrArg entryName⟩ rfl rfl

/-- Under a number stands what was written last. -/
theorem lookup_withEntries (t : DirectoryTree) (es : List (Nat × Bytes)) (k : Nat) :
    (withEntries t es).lookup (entryName k) =
      ((es.reverse.lookup k).map .file).or (t.lookup (entryName k)) := by
  induction es generalizing t with
  | nil => rfl
  | cons e es ih =>
    obtain ⟨j, data⟩ := e
    rw [withEntries, List.foldl_cons, ← withEntries, ih, lookup_withEntry, List.reverse_cons,
      List.lookup_append]
    by_cases hk : k = j
    · subst hk
      cases es.reverse.lookup k <;> simp
    · rw [if_neg hk, lookup_cons_of_ne hk, List.lookup_nil, Option.or_none]

/-- New names are those of entries that there were no files of. -/
theorem entryNames_withEntries (t : DirectoryTree) (es : List (Nat × Bytes)) :
    ∃ ks : List Nat, entryNames (withEntries t es) = entryNames t ++ ks.map entryName ∧
      ∀ k ∈ ks, k ∈ es.map (·.1) ∧ t.lookup (entryName k) = none := by
  induction es generalizing t with
  | nil => exact ⟨[], (List.append_nil _).symm, by simp⟩
  | cons e es ih =>
    obtain ⟨ks, hnames, hks⟩ := ih (withEntry t e)
    have hks' (k : Nat) (hk : k ∈ ks) :
        k ∈ (e :: es).map (·.1) ∧ t.lookup (entryName k) = none := by
      obtain ⟨hmem, hlookup⟩ := hks k hk
      -- What had no file with the first entry written had none before.
      rw [lookup_withEntry] at hlookup
      split at hlookup
      · cases hlookup
      · exact ⟨List.mem_cons_of_mem _ hmem, hlookup⟩
    rw [withEntries, List.foldl_cons, ← withEntries, hnames, entryNames_withEntry]
    split
    · exact ⟨ks, by rw [List.append_nil], hks'⟩
    · next hname =>
      refine ⟨e.1 :: ks, by rw [List.append_assoc]; rfl, fun k hk => ?_⟩
      rcases List.mem_cons.1 hk with rfl | hk
      · refine ⟨List.mem_cons_self, Option.eq_none_iff_forall_ne_some.2 fun node hnode => ?_⟩
        exact hname (DirectoryTree.name_mem_iff.2 ⟨node, hnode⟩)
      · exact hks' k hk

/-- Two directories have the same entries. -/
structure SameEntries (t t' : DirectoryTree) : Prop where
  /-- The same names say "entry". -/
  entryNames_eq : entryNames t' = entryNames t
  /-- The same is under the names of entries. -/
  lookup_eq : ∀ k, t'.lookup (entryName k) = t.lookup (entryName k)

/-- **What is written up to an entry that is in the way**: the entries before it, and of the entry
itself nothing that could be read. -/
theorem writeEntries_cases (t : DirectoryTree) (es : List (Nat × Bytes)) :
    (∀ e ∈ es, isBlocked t e.1 = false) ∧ writeEntries t es = (.ok (), withEntries t es) ∨
      ∃ t', (∃ e ∈ es, isBlocked t e.1 = true) ∧ writeEntries t es = (.error .io, t') ∧
        SameEntries (withEntries t (es.takeWhile fun e => !isBlocked t e.1)) t' := by
  induction es generalizing t with
  | nil => exact .inl ⟨by simp, rfl⟩
  | cons e es ih =>
    rw [writeEntries]
    cases he : isBlocked t e.1 with
    | true =>
      obtain ⟨t', hwrite, ht'⟩ := writeEntry_of_blocked he e.2
      refine .inr ⟨t', ⟨e, List.mem_cons_self, he⟩, by rw [hwrite], ?_⟩
      rw [List.takeWhile_cons_of_neg (by simp [he])]
      -- At most a temporary file was left, which is the file of no entry.
      rcases ht' with rfl | rfl
      · exact ⟨rfl, fun _ => rfl⟩
      · refine ⟨entryNames_set_temporaryName .., fun k => ?_⟩
        exact (DirectoryTree.lookup_set ..).trans (if_neg (temporaryName_ne_entryName e.1 k).symm)
    | false =>
      have hblocked := isBlocked_withEntry he e.2
      rw [writeEntry_of_not_blocked he, List.takeWhile_cons_of_pos (by simp [he])]
      have hih := ih (withEntry t e)
      simp only [hblocked] at hih
      rcases hih with ⟨hfree, hwrite⟩ | ⟨t', ⟨d, hd, hin⟩, hwrite, hsame⟩
      · exact .inl ⟨List.forall_mem_cons.2 ⟨he, hfree⟩, hwrite⟩
      · exact .inr ⟨t', ⟨d, List.mem_cons_of_mem e hd, hin⟩, hwrite, hsame⟩

/-! ## What can be read -/

/-- The lowest and the highest of some numbers in ascending order. -/
def ends (found : List Nat) : Option (Nat × Nat) :=
  match found.head?, found.getLast? with
  | some first, some last => some (first, last)
  | _, _ => none

/-- The entries of a directory from a number up to below another. -/
def entriesIn (ns : String) (t : DirectoryTree) (start stop : Nat) :
    Except StorageError (List (Nat × Bytes)) := do
  let found ← indices ns t
  readEntries t ((found.dropWhile (· < start)).takeWhile (· < stop))

/-- Two directories cannot be told apart by reading. -/
structure LooksLike (ns : String) (t t' : DirectoryTree) : Prop where
  /-- The bounds are the same. -/
  bounds : (indices ns t).map ends = (indices ns t').map ends
  /-- The entries of every range are the same. -/
  range : ∀ start stop, start < wordLimit → stop < wordLimit →
    entriesIn ns t start stop = entriesIn ns t' start stop

theorem LooksLike.symm (h : LooksLike ns t t') : LooksLike ns t' t :=
  ⟨h.bounds.symm, fun start stop hstart hstop => (h.range start stop hstart hstop).symm⟩

theorem LooksLike.trans {t'' : DirectoryTree} (h : LooksLike ns t t') (h' : LooksLike ns t' t'') :
    LooksLike ns t t'' :=
  ⟨h.bounds.trans h'.bounds, fun start stop hstart hstop =>
    (h.range start stop hstart hstop).trans (h'.range start stop hstart hstop)⟩

theorem readEntries_congr {ks : List Nat}
    (h : ∀ k ∈ ks, t'.lookup (entryName k) = t.lookup (entryName k)) :
    readEntries t' ks = readEntries t ks := by
  induction ks with
  | nil => rfl
  | cons k ks ih =>
    rw [readEntries, readEntries, h k List.mem_cons_self,
      ih fun j hj => h j (List.mem_cons_of_mem k hj)]

theorem SameEntries.looksLike (h : SameEntries t t') (ns : String) : LooksLike ns t' t := by
  have hindices : indices ns t' = indices ns t := by
    rw [indices_eq_map, indices_eq_map, h.entryNames_eq]
  refine ⟨congrArg (Except.map ends) hindices, fun start stop _ _ => ?_⟩
  rw [entriesIn, entriesIn, hindices]
  exact congrArg _ (funext fun found => readEntries_congr fun k _ => h.lookup_eq k)

/-- What is read of a number is in its file. -/
theorem lookup_of_mem_readEntries {ks : List Nat} {read : List (Nat × Bytes)}
    (h : readEntries t ks = .ok read) (hmem : (k, data) ∈ read) :
    t.lookup (entryName k) = some (.file data) := by
  induction ks generalizing read with
  | nil =>
    cases h
    cases hmem
  | cons j ks ih =>
    rw [readEntries] at h
    split at h
    · next w hw =>
      obtain ⟨rest, hrest, rfl⟩ := except_map_eq_ok.1 h
      rcases List.mem_cons.1 hmem with heq | hmem
      · cases heq
        exact hw
      · exact ih hrest hmem
    · cases h
    · exact ih h hmem

theorem readEntries_eq_map {ks : List Nat}
    (h : ∀ j ∈ ks, t.lookup (entryName j) = some (.file data)) :
    readEntries t ks = .ok (ks.map (·, data)) := by
  induction ks with
  | nil => rfl
  | cons j ks ih =>
    rw [readEntries, h j List.mem_cons_self, ih fun i hi => h i (List.mem_cons_of_mem j hi)]
    rfl

theorem pairwise_indices {found : List Nat} (h : indices ns t = .ok found) :
    found.Pairwise (· ≤ ·) := by
  rw [indices_eq_map] at h
  obtain ⟨numbers, -, rfl⟩ := except_map_eq_ok.1 h
  exact (List.pairwise_mergeSort (by simp; omega) (by simp; omega) _).imp (by simp)

/-- The number of an entry that there is a file of is found. -/
theorem mem_indices_of_lookup {found : List Nat} (h : indices ns t = .ok found)
    (hk : k < wordLimit) {node : FileNode} (hnode : t.lookup (entryName k) = some node) :
    k ∈ found := by
  rw [indices_eq_map] at h
  obtain ⟨_, hfound, rfl⟩ := except_map_eq_ok.1 h
  obtain ⟨numbers, hnumbers, rfl⟩ := except_map_eq_ok.1 hfound
  have hname : entryName k ∈ entryNames t :=
    List.mem_filter.2 ⟨DirectoryTree.name_mem_iff.2 ⟨node, hnode⟩,
      by simp [splitExtension_entryName]⟩
  rw [List.mem_mergeSort]
  exact List.mem_filterMap.2
    ⟨some k, (mem_iff_of_mapM_eq_ok hnumbers _).2 ⟨_, hname, parseIndex_entryName ns hk⟩, rfl⟩

theorem lt_of_parseWord? {text : String} (h : parseWord? text = some k) : k < wordLimit := by
  rw [parseWord?] at h
  obtain ⟨n, -, h⟩ := Option.bind_eq_some_iff.1 h
  split at h
  · next hn =>
    cases h
    exact hn
  · cases h

/-- Names give numbers of sixty-four bits. -/
theorem lt_of_mem_indices {found : List Nat} (h : indices ns t = .ok found) (hk : k ∈ found) :
    k < wordLimit := by
  rw [indices_eq_map] at h
  obtain ⟨_, hfound, rfl⟩ := except_map_eq_ok.1 h
  obtain ⟨numbers, hnumbers, rfl⟩ := except_map_eq_ok.1 hfound
  obtain ⟨_, hmem, rfl⟩ := List.mem_filterMap.1 (List.mem_mergeSort.1 hk)
  obtain ⟨name, -, hname⟩ := (mem_iff_of_mapM_eq_ok hnumbers _).1 hmem
  rw [parseIndex] at hname
  split at hname
  · split at hname
    · next hword =>
      cases hname
      exact lt_of_parseWord? hword
    · cases hname
  · cases hname

/-- The ends of numbers in ascending order are the lowest and the highest. -/
theorem ends_eq_some_iff {ks : List Nat} (hks : ks.Pairwise (· ≤ ·)) (a b : Nat) :
    ends ks = some (a, b) ↔
      (a ∈ ks ∧ ∀ k ∈ ks, a ≤ k) ∧ b ∈ ks ∧ ∀ k ∈ ks, k ≤ b := by
  cases ks with
  | nil => simp [ends]
  | cons c ks =>
    obtain ⟨d, hd⟩ := Option.ne_none_iff_exists'.1
      (mt List.getLast?_eq_none_iff.1 (List.cons_ne_nil c ks))
    obtain ⟨hmem, hhigh⟩ := getLast?_of_pairwise_le id hks hd
    have hlow : ∀ k ∈ c :: ks, c ≤ k :=
      List.forall_mem_cons.2 ⟨Nat.le_refl c, (List.pairwise_cons.1 hks).1⟩
    rw [ends, List.head?_cons, hd, Option.some.injEq, Prod.mk.injEq]
    constructor
    · rintro ⟨rfl, rfl⟩
      exact ⟨⟨List.mem_cons_self, hlow⟩, hmem, hhigh⟩
    · rintro ⟨⟨ha, hale⟩, hb, hbge⟩
      exact ⟨Nat.le_antisymm (hlow a ha) (hale c List.mem_cons_self),
        Nat.le_antisymm (hbge d hmem) (hhigh b hb)⟩

theorem exists_ends {ks : List Nat} (h : k ∈ ks) : ∃ p, ends ks = some p := by
  cases ks with
  | nil => cases h
  | cons c ks =>
    obtain ⟨d, hd⟩ := Option.ne_none_iff_exists'.1
      (mt List.getLast?_eq_none_iff.1 (List.cons_ne_nil c ks))
    exact ⟨(c, d), by rw [ends, List.head?_cons, hd]⟩

theorem ends_congr {ks js : List Nat} (hks : ks.Pairwise (· ≤ ·)) (hjs : js.Pairwise (· ≤ ·))
    (h : ∀ k, k ∈ ks ↔ k ∈ js) : ends ks = ends js := by
  ext ⟨a, b⟩
  simp only [ends_eq_some_iff hks, ends_eq_some_iff hjs, h]

theorem entriesIn_eq {found : List Nat} (h : indices ns t = .ok found) (start stop : Nat) :
    entriesIn ns t start stop =
      readEntries t (found.filter fun k => decide (start ≤ k) && decide (k < stop)) := by
  rw [entriesIn, h]
  exact congrArg (readEntries t) (range_eq_filter (pairwise_indices h) start stop)

/-! ## What an append leaves -/

/-- Entries can be read already.  Of the highest number of all only that it is there can be read,
since no range goes so far. -/
def Shows (t : DirectoryTree) (found : List Nat) (es : List (Nat × Bytes)) : Prop :=
  ∀ k data, es.reverse.lookup k = some data →
    if k + 1 < wordLimit then t.lookup (entryName k) = some (.file data) else k ∈ found

/-- What is found when entries have been written. -/
theorem indices_withEntries (hes : ∀ e ∈ es, e.1 < wordLimit) {found : List Nat}
    (h : indices ns t = .ok found) : ∃ ks found', indices ns (withEntries t es) = .ok found' ∧
      found'.Perm (found ++ ks) ∧ ∀ k ∈ ks, k ∈ es.map (·.1) ∧ t.lookup (entryName k) = none := by
  obtain ⟨ks, hnames, hks⟩ := entryNames_withEntries t es
  have hlt : ∀ k ∈ ks, k < wordLimit := fun k hk => by
    obtain ⟨e, he, rfl⟩ := List.mem_map.1 (hks k hk).1
    exact hes e he
  rw [indices_eq_map] at h
  obtain ⟨numbers, hnumbers, rfl⟩ := except_map_eq_ok.1 h
  refine ⟨ks, (numbers ++ ks).mergeSort (· ≤ ·), ?_, ?_, hks⟩
  · rw [indices_eq_map, hnames, numbersIn_append ns hnumbers hlt]
    rfl
  · exact (List.mergeSort_perm _ _).trans ((List.mergeSort_perm _ _).symm.append_right ks)

theorem indices_withEntries_of_error {e : StorageError} (h : indices ns t = .error e)
    (es : List (Nat × Bytes)) : indices ns (withEntries t es) = .error e := by
  obtain ⟨ks, hnames, -⟩ := entryNames_withEntries t es
  rw [indices_eq_map] at h ⊢
  cases hnumbers : numbersIn ns (entryNames t) with
  | ok numbers =>
    rw [hnumbers] at h
    cases h
  | error e' =>
    rw [hnumbers] at h
    rw [hnames, numbersIn_append_of_error hnumbers]
    exact h

/-- Entries that can be read already change nothing that can be read. -/
theorem Shows.looksLike (hes : ∀ e ∈ es, e.1 < wordLimit) {found : List Nat}
    (hfound : indices ns t = .ok found) (h : Shows t found es) :
    LooksLike ns (withEntries t es) t := by
  obtain ⟨ks, found', hfound', hperm, hks⟩ := indices_withEntries hes hfound
  have hsorted := pairwise_indices hfound
  have hsorted' := pairwise_indices hfound'
  -- Only the highest number of all can be new, and then it was found under another name.
  have hnew : ∀ k ∈ ks, k ∈ found ∧ wordLimit ≤ k + 1 := by
    intro k hk
    obtain ⟨hnumber, hnone⟩ := hks k hk
    obtain ⟨e, he, rfl⟩ := List.mem_map.1 hnumber
    obtain ⟨data, hdata⟩ := any_key_iff.1
      (List.any_eq_true.2 ⟨e, List.mem_reverse.2 he, beq_self_eq_true e.1⟩)
    have hthere := h e.1 data hdata
    split at hthere
    · rw [hnone] at hthere
      cases hthere
    · next hlt => exact ⟨hthere, Nat.le_of_not_lt hlt⟩
  have hsame (k : Nat) : k ∈ found' ↔ k ∈ found := by
    rw [hperm.mem_iff, List.mem_append, or_iff_left_iff_imp]
    exact fun hk => (hnew k hk).1
  refine ⟨?_, fun start stop _ hstop => ?_⟩
  · rw [hfound', hfound]
    exact congrArg Except.ok (ends_congr hsorted' hsorted hsame)
  · have hnone : (ks.filter fun k => decide (start ≤ k) && decide (k < stop)) = [] := by
      refine List.filter_eq_nil_iff.2 fun k hk hrange => ?_
      have hlt : k < stop := of_decide_eq_true (Bool.and_eq_true_iff.1 hrange).2
      have hle := (hnew k hk).2
      omega
    have hfilter : (found'.filter fun k => decide (start ≤ k) && decide (k < stop)) =
        found.filter fun k => decide (start ≤ k) && decide (k < stop) := by
      refine List.Perm.eq_of_pairwise (fun a b _ _ => Nat.le_antisymm) (hsorted'.filter _)
        (hsorted.filter _) ((hperm.filter _).trans (List.Perm.of_eq ?_))
      rw [List.filter_append, hnone, List.append_nil]
    rw [entriesIn_eq hfound', entriesIn_eq hfound, hfilter]
    refine readEntries_congr fun k hk => ?_
    rw [lookup_withEntries]
    cases hdata : es.reverse.lookup k with
    | none => rfl
    | some data =>
      have hthere := h k data hdata
      have hlt : k < stop :=
        of_decide_eq_true (Bool.and_eq_true_iff.1 (List.mem_filter.1 hk).2).2
      rw [if_pos (by omega)] at hthere
      exact hthere.symm

/-- What changes nothing that can be read could be read before. -/
theorem LooksLike.shows (hes : ∀ e ∈ es, e.1 < wordLimit) {found : List Nat}
    (hfound : indices ns t = .ok found) (h : LooksLike ns (withEntries t es) t) :
    Shows t found es := by
  obtain ⟨ks, found', hfound', -, -⟩ := indices_withEntries hes hfound
  intro k data hdata
  have hk : k < wordLimit := hes _ (List.mem_reverse.1 (mem_of_lookup hdata))
  have hlookup : (withEntries t es).lookup (entryName k) = some (.file data) := by
    rw [lookup_withEntries, hdata]
    rfl
  have hin := mem_indices_of_lookup hfound' hk hlookup
  split
  · next hlt =>
    -- The range of the one number is read alike.
    have hread := h.range k (k + 1) hk hlt
    have honly (j : Nat) (hj : j ∈ found'.filter
        fun j => decide (k ≤ j) && decide (j < k + 1)) : j = k := by
      obtain ⟨hle, hlt⟩ := Bool.and_eq_true_iff.1 (List.mem_filter.1 hj).2
      exact Nat.le_antisymm (Nat.le_of_lt_succ (of_decide_eq_true hlt)) (of_decide_eq_true hle)
    rw [entriesIn_eq hfound', entriesIn_eq hfound,
      readEntries_eq_map fun j hj => (honly j hj).symm ▸ hlookup] at hread
    exact lookup_of_mem_readEntries hread.symm (List.mem_map.2 ⟨k, by simpa using hin, rfl⟩)
  · next hlt =>
    -- The highest number of all is the last that was found before, too.
    have hbounds := h.bounds
    rw [hfound', hfound] at hbounds
    obtain ⟨⟨a, b⟩, hends⟩ := exists_ends hin
    have hhigh := ((ends_eq_some_iff (pairwise_indices hfound') a b).1 hends).2.2 k hin
    have hb := ((ends_eq_some_iff (pairwise_indices hfound) a b).1
      ((Except.ok.inj hbounds).symm.trans hends)).2.1
    have hlimit := lt_of_mem_indices hfound hb
    obtain rfl : b = k := by omega
    exact hb

/-- **When entries that are written cannot be told from what there was.** -/
theorem looksLike_withEntries_iff (hes : ∀ e ∈ es, e.1 < wordLimit) :
    LooksLike ns (withEntries t es) t ↔ ∀ found, indices ns t = .ok found → Shows t found es := by
  cases hfound : indices ns t with
  | error e =>
    -- A name that says "entry" but no number keeps everything from being read.
    have hfound' := indices_withEntries_of_error hfound es
    refine iff_of_true ⟨by rw [hfound, hfound'], fun start stop _ _ => ?_⟩ nofun
    rw [entriesIn, entriesIn, hfound, hfound']
    rfl
  | ok found =>
    exact ⟨fun h _ heq => Except.ok.inj heq ▸ h.shows hes hfound,
      fun h => (h found rfl).looksLike hes hfound⟩

/-! ## Stores -/

theorem answer_bounds {t : DirectoryTree} (h : s.directory? ns = .ok (some t)) :
    (s.answer (.bounds ns)).1 = ((indices ns t).map ends).map .bounds := by
  simp only [answer, namespaceIndices, h]
  show Except.map _ (indices ns t) = _
  cases indices ns t <;> rfl

theorem answer_readRange {t : DirectoryTree} (h : s.directory? ns = .ok (some t))
    (start stop : Nat) :
    (s.answer (.readRange ns start stop)).1 = (entriesIn ns t start stop).map .entries := by
  simp only [answer, readRange, h]
  rfl

/-- Entries that nothing is in the way of are written. -/
theorem append_of_not_blocked {t : DirectoryTree} (h : s.directory? ns = .ok (some t))
    (hes : ∀ e ∈ es, isBlocked t e.1 = false) :
    ∃ u, s.append ns es = (.ok (), u) ∧ u.directory? ns = .ok (some (withEntries t es)) ∧
      ∀ other, other ≠ ns → u.directory? other = s.directory? other := by
  cases es with
  | nil => exact ⟨s, rfl, h, fun _ _ => rfl⟩
  | cons e es =>
    refine ⟨s.setDirectory ns (withEntries t (e :: es)), ?_, directory?_setDirectory h _,
      fun other hne => directory?_setDirectory_of_ne hne _⟩
    rcases writeEntries_cases t (e :: es) with ⟨-, hwrite⟩ | ⟨-, ⟨d, hd, hblocked⟩, -⟩
    · simp only [append, List.isEmpty_cons, Bool.false_eq_true, if_false, h, Option.getD_some,
        hwrite]
    · rw [hes d hd] at hblocked
      cases hblocked

/-- An append that fails on the way has stopped at an entry that a directory is in the way of. -/
theorem append_cases {e : StorageError} (h : s.append ns es = (.error e, s')) :
    (s.directory? ns = .error e ∧ s' = s) ∨
      ∃ t t', s.directory? ns = .ok (some t) ∧ s' = s.setDirectory ns t' ∧
        (∃ e ∈ es, isBlocked t e.1 = true) ∧
        SameEntries (withEntries t (es.takeWhile fun e => !isBlocked t e.1)) t' := by
  rw [append] at h
  split at h
  · cases h
  · split at h
    · next error herror =>
      cases h
      exact .inl ⟨herror, rfl⟩
    · next t ht =>
      rcases writeEntries_cases (t.getD []) es with ⟨-, hwrite⟩ | ⟨t', hblocked, hwrite, hsame⟩
      · rw [hwrite] at h
        cases h
      · rw [hwrite] at h
        cases h
        cases t with
        | none =>
          -- Nothing is in the way where nothing is.
          obtain ⟨d, -, hd⟩ := hblocked
          cases hd
        | some t => exact .inr ⟨t, t', ht, rfl, hblocked, hsame⟩

/-- The entries before the first that cannot be written: none, if there is no directory for them. -/
def written (s : DirectoryStore) (ns : String) (es : List (Nat × Bytes)) : List (Nat × Bytes) :=
  match s.directory? ns with
  | .ok t => es.takeWhile fun e => !isBlocked (t.getD []) e.1
  | .error _ => []

theorem written_of_directory {t : DirectoryTree} (h : s.directory? ns = .ok (some t)) :
    s.written ns es = es.takeWhile fun e => !isBlocked t e.1 := by
  rw [written, h]
  rfl

/-- Nothing is in the way of what is written. -/
theorem not_blocked_of_mem_written {t : DirectoryTree} (h : s.directory? ns = .ok (some t))
    {e : Nat × Bytes} (he : e ∈ s.written ns es) : isBlocked t e.1 = false := by
  rw [written_of_directory h] at he
  simpa using List.mem_takeWhile_imp he

theorem written_subset : s.written ns es ⊆ es := by
  rw [written]
  split
  · exact (List.takeWhile_sublist _).subset
  · exact List.nil_subset _

/-- An append that fails has an entry that is not written. -/
theorem written_append_of_error {e : StorageError} (h : s.append ns es = (.error e, s')) :
    ∃ failed rest, es = s.written ns es ++ failed :: rest := by
  rcases append_cases h with ⟨hdir, -⟩ | ⟨t, -, hdir, -, ⟨d, hd, hin⟩, -⟩
  · rw [written, hdir]
    cases es with
    | nil => cases h
    | cons failed rest => exact ⟨failed, rest, rfl⟩
  · have hsplit : s.written ns es ++ es.dropWhile (fun e => !isBlocked t e.1) = es := by
      rw [written_of_directory hdir, List.takeWhile_append_dropWhile]
    cases hdrop : es.dropWhile fun e => !isBlocked t e.1 with
    | nil =>
      -- Then nothing would be in the way of any entry.
      rw [hdrop, List.append_nil] at hsplit
      rw [← hsplit] at hd
      rw [not_blocked_of_mem_written hdir hd] at hin
      cases hin
    | cons failed rest => exact ⟨failed, rest, by rw [← hdrop, hsplit]⟩

end DirectoryStore

namespace LogStore

open DirectoryStore

variable {s s' u : LogStore} {ns : String} {es : List (Nat × Bytes)}

/-- Two stores cannot be told apart by reading. -/
structure ReadsAlike (s s' : LogStore) : Prop where
  /-- The bounds of every namespace are the same. -/
  bounds : ∀ ns, (s.answer (.bounds ns)).1 = (s'.answer (.bounds ns)).1
  /-- The entries of every range of every namespace are the same. -/
  range : ∀ ns start stop, start < wordLimit → stop < wordLimit →
    (s.answer (.readRange ns start stop)).1 = (s'.answer (.readRange ns start stop)).1

theorem ReadsAlike.refl (s : LogStore) : ReadsAlike s s := ⟨fun _ => rfl, fun _ _ _ _ _ => rfl⟩

/-- Stores that differ in one directory read alike if the directories do. -/
theorem readsAlike_iff {d d' : DirectoryStore} {t t' : DirectoryTree}
    (h : d.directory? ns = .ok (some t)) (h' : d'.directory? ns = .ok (some t'))
    (hothers : ∀ other, other ≠ ns → d'.directory? other = d.directory? other) :
    ReadsAlike (directory d) (directory d') ↔ LooksLike ns t t' := by
  constructor
  · rintro ⟨hbounds, hrange⟩
    refine ⟨?_, fun start stop hstart hstop => ?_⟩
    · have hns := hbounds ns
      simp only [LogStore.answer, answer_bounds h, answer_bounds h'] at hns
      exact except_map_injective (fun _ _ => LogReply.bounds.inj) hns
    · have hns := hrange ns start stop hstart hstop
      simp only [LogStore.answer, answer_readRange h, answer_readRange h'] at hns
      exact except_map_injective (fun _ _ => LogReply.entries.inj) hns
  · rintro ⟨hbounds, hrange⟩
    refine ⟨fun other => ?_, fun other start stop hstart hstop => ?_⟩
    · simp only [LogStore.answer]
      by_cases hne : other = ns
      · rw [hne, answer_bounds h, answer_bounds h', hbounds]
      · simp only [DirectoryStore.answer, namespaceIndices, hothers other hne]
    · simp only [LogStore.answer]
      by_cases hne : other = ns
      · rw [hne, answer_readRange h, answer_readRange h', hrange start stop hstart hstop]
      · simp only [DirectoryStore.answer, readRange, hothers other hne]

theorem append_of_answer_error {d : DirectoryStore} {e : StorageError}
    (h : (directory d).answer (.append ns es) = (.error e, s')) :
    ∃ d', d.append ns es = (.error e, d') ∧ s' = directory d' := by
  simp only [LogStore.answer, DirectoryStore.answer] at h
  cases happend : d.append ns es with
  | mk result d' =>
    rw [happend] at h
    cases result <;> cases h
    exact ⟨d', rfl, rfl⟩

/-- **What an append that fails leaves.**  Only a store in a directory fails, and what can be read
afterwards, of any namespace, is what can be read when just the entries before the one that failed
are appended.  So the append was all or nothing exactly if these entries could be read before. -/
theorem append_failed {e : StorageError} (hes : ∀ e ∈ es, e.1 < wordLimit)
    (h : s.answer (.append ns es) = (.error e, s')) :
    ∃ d, s = directory d ∧
      (∃ failed rest, es = d.written ns es ++ failed :: rest) ∧
      (∃ u, s.answer (.append ns (d.written ns es)) = (.ok .done, u) ∧ s'.ReadsAlike u) ∧
      (s'.ReadsAlike s ↔ ∀ t found, d.directory? ns = .ok (some t) →
        indices ns t = .ok found → Shows t found (d.written ns es)) := by
  cases s with
  | memory m => cases h
  | directory d =>
    obtain ⟨d', happend, rfl⟩ := append_of_answer_error h
    refine ⟨d, rfl, written_append_of_error happend, ?_⟩
    rcases append_cases happend with ⟨hdir, rfl⟩ | ⟨t, t', hdir, rfl, -, hsame⟩
    · rw [written, hdir]
      exact ⟨⟨_, rfl, .refl _⟩, iff_of_true (.refl _) nofun⟩
    · rw [← written_of_directory hdir] at hsame
      have hfree : ∀ e ∈ d.written ns es, isBlocked t e.1 = false :=
        fun _ => not_blocked_of_mem_written hdir
      obtain ⟨u, hu, hudir, huothers⟩ := append_of_not_blocked hdir hfree
      have hset := directory?_setDirectory hdir t'
      have hothers (other : String) (hne : other ≠ ns) :
          (d.setDirectory ns t').directory? other = d.directory? other :=
        directory?_setDirectory_of_ne hne t'
      refine ⟨⟨directory u, ?_, ?_⟩, ?_⟩
      · simp only [LogStore.answer, DirectoryStore.answer, hu]
        rfl
      · refine (readsAlike_iff hset hudir fun other hne => ?_).2 (hsame.looksLike ns)
        rw [huothers other hne, hothers other hne]
      · rw [readsAlike_iff hset hdir fun other hne => (hothers other hne).symm]
        calc LooksLike ns t' t
          _ ↔ LooksLike ns (withEntries t (d.written ns es)) t :=
            ⟨(hsame.looksLike ns).symm.trans, (hsame.looksLike ns).trans⟩
          _ ↔ _ := looksLike_withEntries_iff fun e he => hes e (written_subset he)
          _ ↔ _ := by
            rw [hdir]
            exact ⟨fun hall _ found ht hfound => by cases ht; exact hall found hfound,
              fun hall found => hall t found rfl⟩

/-- Of two entries the first one is written, when a directory is in the place of a file of the
second. -/
theorem append_failed_behind_first : ∃ s s' : LogStore,
    s.answer (.append "n" [(1, [97]), (2, [98])]) = (.error .io, s') ∧ ¬s'.ReadsAlike s ∧
      ∃ u, s.answer (.append "n" [(1, [97])]) = (.ok .done, u) ∧ s'.ReadsAlike u := by
  let t : DirectoryTree := [(temporaryName 2, .directory [])]
  let d : DirectoryStore := ⟨[("n", .directory t)]⟩
  have hdir : d.directory? "n" = .ok (some t) := rfl
  have hfree : isBlocked t 1 = false := by decide +kernel
  have hin : isBlocked t 2 = true := by decide +kernel
  obtain ⟨t', hwrite⟩ : ∃ t', writeEntries t [(1, [97]), (2, [98])] = (.error .io, t') := by
    rcases writeEntries_cases t [(1, [97]), (2, [98])] with ⟨hall, -⟩ | ⟨t', -, hwrite, -⟩
    · exact absurd hin (by simp [hall (2, [98]) (by simp)])
    · exact ⟨t', hwrite⟩
  have h : (directory d).answer (.append "n" [(1, [97]), (2, [98])]) =
      (.error .io, directory (d.setDirectory "n" t')) := by
    simp only [LogStore.answer, DirectoryStore.answer, append, hdir, Option.getD_some, hwrite]
    rfl
  obtain ⟨_, heq, -, hleft, halike⟩ := append_failed (by decide) h
  cases heq
  have hwritten : d.written "n" [(1, [97]), (2, [98])] = [(1, [97])] := by
    simp [written, hdir, hfree, hin]
  rw [hwritten] at hleft halike
  refine ⟨directory d, _, h, fun hread => ?_, hleft⟩
  have hfound : indices "n" t = .ok [] := by
    have hnames : entryNames t = [] := by simp [t, entryNames, splitExtension_temporaryName]
    have hnumbers : numbersIn "n" [] = .ok [] := rfl
    rw [indices_eq_map, hnames, hnumbers, Except.map, List.mergeSort_nil]
  have hshows := halike.1 hread t [] hdir hfound 1 [97] rfl
  rw [if_pos (by decide), lookup_cons_of_ne (temporaryName_ne_entryName 2 1).symm] at hshows
  cases hshows

end LogStore

end StreamBroker
