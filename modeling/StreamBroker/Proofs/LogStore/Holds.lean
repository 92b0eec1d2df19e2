import StreamBroker.LogStore.Backend
import StreamBroker.Proofs.Ascending
import StreamBroker.Proofs.LogStore.Directory

/-!
# Stores and backends that hold logs

A store holds a log under a namespace when every call about the namespace is answered by its effect
on the log.  In memory every namespace holds one; in a directory it takes a well-formed directory,
and no call makes it less so.  A backend keeps a log when its store holds it and no failure is
scheduled: these are the backends whose calls all succeed.

## Main definitions

* `LogStore.Holds`: a store holds a log
* `Backend.Keeps`: a backend whose calls succeed holds a log
* `Backend.Elsewhere`: what happens to a backend leaves the log of a namespace as it is

## Main results

* `LogStore.Holds.answer`: a call is answered by its effect
* `Backend.Keeps.perform`: so is a call to a backend, and the log after it is kept
* `Backend.elsewhere_perform`: calls about other namespaces happen elsewhere
-/

namespace StreamBroker

theorem filterMap_fst_eq_self {β : Type} {f : Nat → Option (Nat × β)} {es : List (Nat × β)}
    (h : ∀ e ∈ es, f e.1 = some e) : (es.map (·.1)).filterMap f = es := by
  induction es with
  | nil => rfl
  | cons e es ih =>
    rw [List.map_cons, List.filterMap_cons, h e List.mem_cons_self,
      ih fun d hd => h d (List.mem_cons_of_mem e hd)]

/-! ## Directories -/

namespace DirectoryStore

variable {s : DirectoryStore} {ns other : String} {log : SeqMap Bytes}

/-- A store holds a log in the directory of a namespace, or holds an empty one without it. -/
def Holds (s : DirectoryStore) (ns : String) (log : SeqMap Bytes) : Prop :=
  ∃ t, s.directory? ns = .ok t ∧ Lists (t.getD []) log

theorem directory?_of_lookup_eq {s s' : DirectoryStore}
    (h : s'.root.lookup ns = s.root.lookup ns) : s'.directory? ns = s.directory? ns := by
  rw [directory?, directory?, h]

/-- Whether a namespace has a directory depends on its name before all. -/
theorem directory?_eq {t : Option DirectoryTree} (h : s.directory? ns = .ok t)
    (s' : DirectoryStore) :
    s'.directory? ns = match s'.root.lookup ns with
      | some (.directory t) => .ok (some t)
      | some (.file _) => .error .io
      | none => .ok none := by
  rw [directory?] at h ⊢
  obtain ⟨⟨⟩, hname, h⟩ := except_bind_eq_ok.1 h
  rw [hname]
  by_cases hlong : maxNameLength < ns.utf8ByteSize
  · rw [if_pos hlong] at h
    cases h
  · rw [if_neg hlong]
    rfl

theorem directory?_setDirectory {t : Option DirectoryTree} (h : s.directory? ns = .ok t)
    (u : DirectoryTree) : (s.setDirectory ns u).directory? ns = .ok (some u) := by
  rw [directory?_eq h, setDirectory, DirectoryTree.lookup_set, if_pos rfl]

theorem directory?_unset {t : Option DirectoryTree} (h : s.directory? ns = .ok t) :
    (⟨s.root.unset ns⟩ : DirectoryStore).directory? ns = .ok none := by
  rw [directory?_eq h, DirectoryTree.lookup_unset, if_pos rfl]

theorem directory?_setDirectory_of_ne (h : other ≠ ns) (t : DirectoryTree) :
    (s.setDirectory ns t).directory? other = s.directory? other :=
  directory?_of_lookup_eq (by rw [setDirectory, DirectoryTree.lookup_set, if_neg h])

theorem holds_setDirectory {t : Option DirectoryTree} (h : s.directory? ns = .ok t)
    {u : DirectoryTree} (hu : Lists u log) : (s.setDirectory ns u).Holds ns log :=
  ⟨some u, directory?_setDirectory h u, hu⟩

/-- The entries of some numbers that a range selects are the entries of the range. -/
theorem filterMap_range (log : SeqMap Bytes) (start stop : Nat) :
    ((log.keys.dropWhile (decide <| · < start)).takeWhile (decide <| · < stop)).filterMap
        (fun k => (log.get? k).map (k, ·)) =
      log.entries.filter fun e => start ≤ e.1 && e.1 < stop := by
  rw [range_eq_filter (log.keys_ascending.imp Nat.le_of_lt), SeqMap.keys, List.filter_map,
    filterMap_fst_eq_self fun e he => ?_]
  · rfl
  · simp [log.mem_entries_iff.1 (List.mem_filter.1 he).1]

theorem getD_map_boundsOf (log : SeqMap Bytes) :
    (match log.keys.head?, log.keys.getLast? with
      | some first, some last => some (first, last)
      | _, _ => none) = LogCall.boundsOf log := by
  rw [SeqMap.keys, List.head?_map, List.getLast?_map, SeqMap.head?_entries,
    SeqMap.getLast?_entries, LogCall.boundsOf]
  cases log.first? <;> cases log.last? <;> rfl

theorem foldl_erase_takeWhile (log : SeqMap Bytes) (index : Nat) :
    (log.keys.takeWhile (decide <| · ≤ index)).foldl SeqMap.erase log =
      log.startingAt (index + 1) := by
  have hle : (fun k => decide (k ≤ index)) = fun k => decide (k < index + 1) :=
    funext fun k => decide_eq_decide.2 Nat.lt_succ_iff.symm
  rw [hle, takeWhile_eq_filter log.keys_ascending]
  apply SeqMap.ext_get?
  intro k
  simp only [SeqMap.get?_foldl_erase, SeqMap.get?_startingAt, List.mem_filter, SeqMap.mem_keys_iff,
    decide_eq_true_eq]
  by_cases hk : index + 1 ≤ k
  · have hlt : ¬k < index + 1 := by omega
    simp [hk, hlt]
  · have hlt : k < index + 1 := by omega
    cases hl : log.get? k with
    | none => simp
    | some data => simp [hk, hlt, SeqMap.contains, hl]

/-- A store in a directory answers by the effect of a call. -/
theorem Holds.answer {call : LogCall} (h : s.Holds call.ns log) (hcall : call.IsInRange) :
    (s.answer call).1 = .ok (call.effect log).1 ∧
      (s.answer call).2.Holds call.ns (call.effect log).2 := by
  obtain ⟨t, ht, hlog⟩ := h
  cases call with
  | append ns es =>
    simp only [DirectoryStore.answer, LogCall.effect, append]
    cases es with
    | nil => exact ⟨rfl, t, ht, hlog⟩
    | cons e es =>
      -- The directory is created with the first entry.
      obtain ⟨u, hwrite, hu⟩ := hlog.writeEntries_eq hcall
      simp only [LogCall.ns] at ht ⊢
      simp only [List.isEmpty_cons, Bool.false_eq_true, if_false, ht, hwrite]
      exact ⟨rfl, holds_setDirectory ht hu⟩
  | bounds ns =>
    simp only [DirectoryStore.answer, LogCall.effect, namespaceIndices, LogCall.ns] at ht ⊢
    refine ⟨?_, t, ht, hlog⟩
    rw [ht]
    cases t with
    | none =>
      obtain rfl := hlog.eq_empty
      rfl
    | some t =>
      rw [← getD_map_boundsOf]
      refine except_map_eq_ok.2 ⟨log.keys, ?_, rfl⟩
      exact except_bind_eq_ok.2 ⟨some t, rfl, hlog.indices_eq ns⟩
  | compactBefore ns index =>
    simp only [DirectoryStore.answer, LogCall.effect, compactBefore, LogCall.ns] at ht ⊢
    rw [ht]
    cases t with
    | none =>
      obtain rfl := hlog.eq_empty
      exact ⟨rfl, none, ht, hlog⟩
    | some t =>
      -- Files go one by one, those with the lowest numbers first.
      obtain ⟨u, hremove, hu⟩ := hlog.removeEntries_eq (log.keys.takeWhile (· ≤ index))
      rw [foldl_erase_takeWhile] at hu
      simp only [Option.getD_some] at hlog hremove
      simp only [hlog.indices_eq ns, hremove]
      exact ⟨rfl, holds_setDirectory ht hu⟩
  | readRange ns start stop =>
    simp only [DirectoryStore.answer, LogCall.effect, readRange, LogCall.ns] at ht ⊢
    refine ⟨?_, t, ht, hlog⟩
    rw [ht]
    cases t with
    | none =>
      obtain rfl := hlog.eq_empty
      rfl
    | some t =>
      refine except_map_eq_ok.2 ⟨_, ?_, rfl⟩
      refine except_bind_eq_ok.2 ⟨some t, rfl, ?_⟩
      refine except_bind_eq_ok.2 ⟨_, hlog.indices_eq ns, ?_⟩
      rw [← filterMap_range]
      exact hlog.readEntries_eq _
  | removeNamespace ns =>
    simp only [DirectoryStore.answer, LogCall.effect, LogCall.ns] at ht ⊢
    rw [ht]
    exact ⟨rfl, none, directory?_unset ht, Lists.nil⟩
  | deleteEntry ns index =>
    simp only [DirectoryStore.answer, LogCall.effect, deleteEntry, LogCall.ns] at ht ⊢
    rw [ht]
    cases t with
    | none =>
      obtain rfl := hlog.eq_empty
      exact ⟨rfl, none, ht, hlog⟩
    | some t =>
      obtain ⟨u, hremove, hu⟩ := hlog.removeEntry_eq index
      simp only [Option.getD_some] at hremove
      simp only [hremove]
      exact ⟨rfl, holds_setDirectory ht hu⟩

theorem directory?_answer_of_ne {call : LogCall} (h : other ≠ call.ns) :
    (s.answer call).2.directory? other = s.directory? other := by
  have hset := directory?_setDirectory_of_ne (s := s) h
  cases call with
  | append ns es =>
    simp only [DirectoryStore.answer, append]
    split
    · rfl
    · split
      · rfl
      · exact hset _
  | bounds ns => rfl
  | compactBefore ns index =>
    simp only [DirectoryStore.answer, compactBefore]
    split
    · rfl
    · rfl
    · split
      · rfl
      · exact hset _
  | readRange ns start stop => rfl
  | removeNamespace ns =>
    simp only [DirectoryStore.answer]
    split
    · rfl
    · refine directory?_of_lookup_eq ?_
      exact (DirectoryTree.lookup_unset s.root ns other).trans (if_neg h)
  | deleteEntry ns index =>
    simp only [DirectoryStore.answer, deleteEntry]
    split
    · rfl
    · rfl
    · split
      · rfl
      · exact hset _

end DirectoryStore

/-! ## Stores of either sort -/

namespace LogStore

variable {ns : String} {log : SeqMap Bytes}

/-- A store holds a log under a namespace. -/
def Holds : LogStore → String → SeqMap Bytes → Prop
  | memory s, ns, log => s.log ns = log
  | directory s, ns, log => s.Holds ns log

/-- **A call is answered by its effect** on the log that it is about. -/
theorem Holds.answer {s : LogStore} {call : LogCall} (h : s.Holds call.ns log)
    (hcall : call.IsInRange) :
    (s.answer call).1 = .ok (call.effect log).1 ∧
      (s.answer call).2.Holds call.ns (call.effect log).2 := by
  cases s with
  | memory s =>
    obtain rfl : s.log call.ns = log := h
    have heffect := s.answer_eq_effect call
    exact ⟨congrArg Except.ok heffect.1, heffect.2⟩
  | directory s => exact DirectoryStore.Holds.answer h hcall

/-- A call about one namespace leaves the log of another as it is. -/
theorem Holds.answer_of_ne {s : LogStore} {call : LogCall} (h : s.Holds ns log)
    (hne : ns ≠ call.ns) : (s.answer call).2.Holds ns log := by
  cases s with
  | memory s => exact (MemoryStore.log_answer_of_ne hne).trans h
  | directory s =>
    obtain ⟨t, ht, hlog⟩ := h
    exact ⟨t, (DirectoryStore.directory?_answer_of_ne hne).trans ht, hlog⟩

theorem Holds.unique {s : LogStore} {log' : SeqMap Bytes} (h : s.Holds ns log)
    (h' : s.Holds ns log') : log = log' := by
  cases s with
  | memory s => exact h.symm.trans h'
  | directory s =>
    obtain ⟨t, ht, hlog⟩ := h
    obtain ⟨t', ht', hlog'⟩ := h'
    obtain rfl : t = t' := Except.ok.inj (ht.symm.trans ht')
    -- One directory lists one log, since every entry has its file.
    apply SeqMap.ext_get?
    intro k
    ext data
    exact (hlog.lookup_entryName_iff k data).symm.trans (hlog'.lookup_entryName_iff k data)

end LogStore

/-! ## Backends whose calls succeed -/

namespace Backend

variable {b b' : Backend} {ns : String} {log : SeqMap Bytes}

/-- A backend holds a log under a namespace, and no failure is scheduled. -/
structure Keeps (b : Backend) (ns : String) (log : SeqMap Bytes) : Prop where
  /-- No failure is scheduled. -/
  faults_eq : b.faults = []
  /-- The store holds the log. -/
  holds : b.store.Holds ns log

/-- What happens to a backend leaves the log of a namespace as it is. -/
def Elsewhere (ns : String) (b b' : Backend) : Prop := ∀ log, b.Keeps ns log → b'.Keeps ns log

theorem perform_of_faults_eq (h : b.faults = []) (call : LogCall) :
    b.perform call = ((b.store.answer call).1,
      { store := (b.store.answer call).2, faults := [], calls := call :: b.calls }) := by
  simp only [perform, h, Fault.trigger]

/-- A call to a backend is answered by its effect, and the log after it is kept. -/
theorem Keeps.perform (call : LogCall) (h : b.Keeps call.ns log) (hcall : call.IsInRange) :
    (b.perform call).1 = .ok (call.effect log).1 ∧
      (b.perform call).2.Keeps call.ns (call.effect log).2 := by
  have hanswer := h.holds.answer hcall
  rw [perform_of_faults_eq h.faults_eq]
  exact ⟨hanswer.1, rfl, hanswer.2⟩

/-- Calls about other namespaces happen elsewhere. -/
theorem elsewhere_perform (b : Backend) {call : LogCall} (h : ns ≠ call.ns) :
    Elsewhere ns b (b.perform call).2 := by
  intro log hb
  rw [perform_of_faults_eq hb.faults_eq]
  exact ⟨rfl, hb.holds.answer_of_ne h⟩

end Backend

end StreamBroker
