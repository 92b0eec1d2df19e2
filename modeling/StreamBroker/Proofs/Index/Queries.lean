import StreamBroker.Proofs.Ascending
import StreamBroker.Proofs.Index.Coherent

/-!
# The answers of an index

An index looks things up that a scan of its messages would find as well: the newest message of a
subject, the newest of every subject, the numbers that match a pattern, the counts of the subjects,
and how many numbers are missing.  As long as the messages are counted right the answers are those
of the scan.

Answers are lists in the order of the numbers, so it is enough that they have the same members as
the list that a scan finds.

## Main definitions

* `Index.ofSubject`, `Index.newestMatching`, `Index.missing`: what a scan finds

## Main results

* `Index.Tallied.lastForSubject_eq`, `Index.Tallied.lastPerSubject_eq`: the newest messages
* `Index.Tallied.subjectSequences_eq`, `Index.Tallied.matchingSequences_eq`: the numbers
* `Index.Tallied.mem_counts_iff`: the counts of the subjects
* `Index.Coherent.numDeleted_eq`: the numbers that are missing
-/

namespace StreamBroker

theorem SubjectIndex.sequences_of_mem {x : SubjectIndex} (hx : (x.map (·.1)).Nodup)
    {e : String × SeqSet} (he : e ∈ x) : sequences e.1 x = e.2 := by
  induction x with
  | nil => cases he
  | cons d es ih =>
    rw [List.map_cons, List.nodup_cons] at hx
    rcases List.mem_cons.1 he with rfl | he
    · exact sequences_cons_self ..
    · have hne : e.1 ≠ d.1 := fun h => hx.1 (h ▸ List.mem_map_of_mem he)
      rw [sequences_cons_of_ne hne, ih hx.2 he]

namespace Index

variable {x : Index} {m : StoredMessage} {n : Nat}

/-! ## What a scan finds -/

/-- The messages of a subject, in the order of their numbers. -/
def ofSubject (x : Index) (subject : String) : List StoredMessage :=
  x.toList.filter fun m => decide (m.subject = subject)

/-- The newest message of every subject of a pattern, as a scan finds them. -/
def newestMatching (x : Index) (pattern : String) : List StoredMessage :=
  (x.matching pattern).filter fun m =>
    (x.ofSubject m.subject).all fun w => decide (w.sequence ≤ m.sequence)

/-- The numbers between the bounds that there are no messages of. -/
def missing (x : Index) : List Nat :=
  (List.range' x.firstSeq (x.lastSeq + 1 - x.firstSeq)).filter fun n => !x.contains n

theorem Filed.mem_filter_iff (hx : x.Filed) (p : StoredMessage → Bool) :
    m ∈ x.toList.filter p ↔ x.get? m.sequence = some m ∧ p m = true := by
  rw [List.mem_filter, hx.mem_toList_iff]

/-- The numbers that a scan finds are those of messages that it selects. -/
theorem Filed.mem_map_filter_iff (hx : x.Filed) (p : StoredMessage → Bool) :
    n ∈ (x.toList.filter p).map (·.sequence) ↔ ∃ m, x.get? n = some m ∧ p m = true := by
  rw [List.mem_map]
  constructor
  · rintro ⟨m, hm, rfl⟩
    exact ⟨m, (hx.mem_filter_iff p).1 hm⟩
  · rintro ⟨m, hget, hp⟩
    obtain rfl := hx.sequence_eq hget
    exact ⟨m, (hx.mem_filter_iff p).2 ⟨hget, hp⟩, rfl⟩

theorem Filed.mem_ofSubject_iff (hx : x.Filed) {subject : String} :
    m ∈ x.ofSubject subject ↔ x.get? m.sequence = some m ∧ m.subject = subject :=
  (hx.mem_filter_iff _).trans (and_congr_right fun _ => decide_eq_true_iff)

namespace Tallied

/-! ## The subjects that are listed -/

theorem contains_of_mem_iff (hx : x.Tallied) {e : String × SeqSet} (he : e ∈ x.subjects) :
    e.2.contains n = true ↔ ∃ m, x.get? n = some m ∧ m.subject = e.1 := by
  rw [← SubjectIndex.sequences_of_mem hx.nodup_subjects he]
  exact hx.mem_sequences_iff e.1 n

/-- The subject of a message is listed with its numbers. -/
theorem mem_subjects (hx : x.Tallied) (hm : x.get? n = some m) :
    (m.subject, SubjectIndex.sequences m.subject x.subjects) ∈ x.subjects := by
  have hn := (hx.mem_sequences_iff m.subject n).2 ⟨m, hm, rfl⟩
  rw [SubjectIndex.sequences] at hn ⊢
  cases hlookup : x.subjects.lookup m.subject with
  | none =>
    rw [hlookup] at hn
    cases hn
  | some ns => exact mem_of_lookup hlookup

/-! ## Numbers -/

theorem subjectSequences_eq (hx : x.Tallied) (subject : String) :
    x.subjectSequences subject = (x.ofSubject subject).map (·.sequence) := by
  refine eq_of_ascending id (SeqMap.keys_ascending _) ?_ fun n => ?_
  · exact List.pairwise_map.2 (hx.pairwise_toList.filter _)
  · rw [ofSubject, hx.mem_map_filter_iff, subjectSequences, SeqSet.toList, SeqMap.mem_keys_iff,
      hx.mem_sequences_iff]
    simp only [decide_eq_true_eq]

theorem matchingSequences_eq (hx : x.Tallied) (pattern : String) :
    x.matchingSequences pattern = (x.matching pattern).map (·.sequence) := by
  refine eq_of_ascending id (SeqMap.keys_ascending _) ?_ fun n => ?_
  · exact List.pairwise_map.2 (hx.pairwise_toList.filter _)
  · rw [matching, hx.mem_map_filter_iff, matchingSequences, SeqSet.toList, SeqMap.mem_keys_iff,
      SeqSet.contains_ofList, decide_eq_true_eq, List.mem_flatMap]
    constructor
    · rintro ⟨e, he, hn⟩
      obtain ⟨he, hpattern⟩ := List.mem_filter.1 he
      obtain ⟨m, hm, hsubject⟩ := (hx.contains_of_mem_iff he).1 (SeqMap.mem_keys_iff.1 hn)
      exact ⟨m, hm, hsubject ▸ hpattern⟩
    · rintro ⟨m, hm, hpattern⟩
      have he := hx.mem_subjects hm
      refine ⟨_, List.mem_filter.2 ⟨he, hpattern⟩, SeqMap.mem_keys_iff.2 ?_⟩
      exact (hx.contains_of_mem_iff he).2 ⟨m, hm, rfl⟩

/-! ## The newest messages -/

theorem lastForSubject_eq (hx : x.Tallied) (subject : String) :
    x.lastForSubject subject = (x.ofSubject subject).getLast? := by
  have hlast : (SubjectIndex.sequences subject x.subjects).last?.map (·.1) =
      (x.ofSubject subject).getLast?.map (·.sequence) := by
    rw [← SeqMap.getLast?_entries, ← List.getLast?_map, ← List.getLast?_map]
    exact congrArg List.getLast? (hx.subjectSequences_eq subject)
  rw [lastForSubject]
  cases hm : (x.ofSubject subject).getLast? with
  | none =>
    rw [hm, Option.map_none, Option.map_eq_none_iff] at hlast
    rw [hlast]
    rfl
  | some m =>
    rw [hm, Option.map_some, Option.map_eq_some_iff] at hlast
    obtain ⟨e, he, hsequence⟩ := hlast
    rw [he]
    -- What is listed as the newest number is that of the message, so the message is found.
    show x.get? e.1 = some m
    rw [hsequence]
    exact (hx.mem_ofSubject_iff.1 (List.mem_of_getLast? hm)).1

theorem mem_lastPerSubject_iff (hx : x.Tallied) (pattern : String) :
    m ∈ x.lastPerSubject pattern ↔ x.get? m.sequence = some m ∧
      subjectMatches m.subject pattern = true ∧
      ∀ w, x.get? w.sequence = some w → w.subject = m.subject → w.sequence ≤ m.sequence := by
  rw [lastPerSubject, List.mem_mergeSort, List.mem_filterMap]
  constructor
  · rintro ⟨e, he, hm⟩
    obtain ⟨he, hpattern⟩ := List.mem_filter.1 he
    obtain ⟨⟨n, u⟩, hlast, hm⟩ := Option.bind_eq_some_iff.1 hm
    obtain ⟨hn, hmost⟩ := SeqMap.last?_eq_some_iff.1 hlast
    obtain ⟨w, hw, hsubject⟩ := (hx.contains_of_mem_iff he).1 (SeqMap.contains_iff.2 ⟨u, hn⟩)
    obtain rfl : w = m := Option.some.inj (hw.symm.trans hm)
    obtain rfl := hx.sequence_eq hm
    refine ⟨hm, hsubject ▸ hpattern, ?_⟩
    intro v hv heq
    obtain ⟨u, hu⟩ := SeqMap.contains_iff.1
      ((hx.contains_of_mem_iff he).2 ⟨v, hv, heq.trans hsubject⟩)
    exact hmost _ _ hu
  · rintro ⟨hm, hpattern, hmost⟩
    -- A subject that has a message is listed, with the number of the message as its last.
    have he := hx.mem_subjects hm
    obtain ⟨u, hu⟩ := SeqMap.contains_iff.1 ((hx.contains_of_mem_iff he).2 ⟨m, hm, rfl⟩)
    have hlast : (SubjectIndex.sequences m.subject x.subjects).last? = some (m.sequence, u) := by
      refine SeqMap.last?_eq_some_iff.2 ⟨hu, fun n v hn => ?_⟩
      obtain ⟨w, hw, hsubject⟩ := (hx.contains_of_mem_iff he).1 (SeqMap.contains_iff.2 ⟨v, hn⟩)
      obtain rfl := hx.sequence_eq hw
      exact hmost w hw hsubject
    refine ⟨_, List.mem_filter.2 ⟨he, hpattern⟩, ?_⟩
    exact Option.bind_eq_some_iff.2 ⟨_, hlast, hm⟩

/-- What is found for a subject that is listed is one of its messages. -/
theorem subject_eq_of_last (hx : x.Tallied) {e : String × SeqSet} (he : e ∈ x.subjects)
    (hm : (e.2.last?.bind fun last => x.get? last.1) = some m) : m.subject = e.1 := by
  obtain ⟨⟨n, u⟩, hlast, hm⟩ := Option.bind_eq_some_iff.1 hm
  have hn := (SeqMap.last?_eq_some_iff.1 hlast).1
  obtain ⟨w, hw, hsubject⟩ := (hx.contains_of_mem_iff he).1 (SeqMap.contains_iff.2 ⟨u, hn⟩)
  obtain rfl : w = m := Option.some.inj (hw.symm.trans hm)
  exact hsubject

/-- The newest messages of the subjects come in the order of their numbers, each once. -/
theorem pairwise_lastPerSubject (hx : x.Tallied) (pattern : String) :
    (x.lastPerSubject pattern).Pairwise fun a b => a.sequence < b.sequence := by
  -- They are of different subjects, so they are different messages.
  have hnodup : (x.lastPerSubject pattern).Nodup := by
    rw [lastPerSubject, (List.mergeSort_perm _ _).nodup_iff]
    refine List.pairwise_filterMap.2 ?_
    have hkeys := List.pairwise_map.1 hx.nodup_subjects
    refine (hkeys.filter _).imp_of_mem fun ha hb hne m hm w hw heq => hne ?_
    rw [← hx.subject_eq_of_last (List.mem_filter.1 ha).1 hm,
      ← hx.subject_eq_of_last (List.mem_filter.1 hb).1 hw, heq]
  have hsorted : (x.lastPerSubject pattern).Pairwise fun a b => a.sequence ≤ b.sequence := by
    refine (List.pairwise_mergeSort ?_ ?_ _).imp fun h => of_decide_eq_true h
    · simp only [decide_eq_true_eq]
      exact fun _ _ _ => Nat.le_trans
    · simp only [Bool.or_eq_true, decide_eq_true_eq]
      exact fun a b => Nat.le_total a.sequence b.sequence
  refine (hsorted.and hnodup).imp_of_mem fun ha hb h => Nat.lt_of_le_of_ne h.1 fun heq => h.2 ?_
  -- There is one message under a number.
  have hget := ((hx.mem_lastPerSubject_iff pattern).1 ha).1
  rw [heq, ((hx.mem_lastPerSubject_iff pattern).1 hb).1] at hget
  exact (Option.some.inj hget).symm

theorem lastPerSubject_eq (hx : x.Tallied) (pattern : String) :
    x.lastPerSubject pattern = x.newestMatching pattern := by
  refine eq_of_ascending (·.sequence) (hx.pairwise_lastPerSubject pattern)
    ((hx.pairwise_toList.filter _).filter _) fun m => ?_
  rw [hx.mem_lastPerSubject_iff, newestMatching, matching, List.mem_filter, hx.mem_filter_iff,
    and_assoc]
  simp only [List.all_eq_true, hx.mem_ofSubject_iff, decide_eq_true_eq, and_imp]

/-- The newest messages of the subjects of a pattern are the last of their subjects. -/
theorem mem_newestMatching_iff (hx : x.Tallied) (pattern : String) :
    m ∈ x.newestMatching pattern ↔
      subjectMatches m.subject pattern = true ∧ (x.ofSubject m.subject).getLast? = some m := by
  have hasc : (x.ofSubject m.subject).Pairwise fun a b => a.sequence < b.sequence :=
    hx.pairwise_toList.filter _
  rw [← hx.lastPerSubject_eq, hx.mem_lastPerSubject_iff]
  constructor
  · rintro ⟨hm, hpattern, hmost⟩
    refine ⟨hpattern, ?_⟩
    have hmem : m ∈ x.ofSubject m.subject := hx.mem_ofSubject_iff.2 ⟨hm, rfl⟩
    obtain ⟨w, hw⟩ := Option.ne_none_iff_exists'.1 fun hnone =>
      List.ne_nil_of_mem hmem (List.getLast?_eq_none_iff.1 hnone)
    obtain ⟨hwmem, hwmost⟩ := getLast?_of_ascending (·.sequence) hasc hw
    obtain ⟨hwget, hsubject⟩ := hx.mem_ofSubject_iff.1 hwmem
    -- Either number is at most the other, and there is one message under a number.
    have heq := Nat.le_antisymm (hmost w hwget hsubject) (hwmost m hmem)
    rw [heq, hm] at hwget
    rw [hw, hwget]
  · rintro ⟨hpattern, hlast⟩
    obtain ⟨hmem, hmost⟩ := getLast?_of_ascending (·.sequence) hasc hlast
    refine ⟨(hx.mem_ofSubject_iff.1 hmem).1, hpattern, fun w hw hsubject => ?_⟩
    exact hmost w (hx.mem_ofSubject_iff.2 ⟨hw, hsubject⟩)

/-- Of a subject that matches, the newest message is the only one that is found by the pattern. -/
theorem getLast?_newestMatching (hx : x.Tallied) {subject pattern : String}
    (hmatches : subjectMatches subject pattern = true) :
    ((x.newestMatching pattern).filter fun m => decide (m.subject = subject)).getLast? =
      (x.ofSubject subject).getLast? := by
  -- The pattern finds at most one message of the subject, and that is the newest.
  have hmem (m : StoredMessage) :
      m ∈ (x.newestMatching pattern).filter (fun m => decide (m.subject = subject)) ↔
        (x.ofSubject subject).getLast? = some m := by
    rw [List.mem_filter, hx.mem_newestMatching_iff, decide_eq_true_eq]
    constructor
    · rintro ⟨⟨-, hlast⟩, rfl⟩
      exact hlast
    · intro hlast
      obtain rfl := (hx.mem_ofSubject_iff.1 (List.mem_of_getLast? hlast)).2
      exact ⟨⟨hmatches, hlast⟩, rfl⟩
  cases hlast : (x.ofSubject subject).getLast? with
  | none =>
    rw [List.getLast?_eq_none_iff, List.eq_nil_iff_forall_not_mem]
    intro m hm
    rw [hmem, hlast] at hm
    cases hm
  | some m =>
    obtain ⟨w, hw⟩ := Option.ne_none_iff_exists'.1 fun hnone =>
      List.ne_nil_of_mem ((hmem m).2 hlast) (List.getLast?_eq_none_iff.1 hnone)
    rw [hw, ← hlast]
    exact ((hmem w).1 (List.mem_of_getLast? hw)).symm

/-! ## Counts -/

/-- The counts of the subjects are those of their messages, and a subject without messages has
none. -/
theorem mem_counts_iff (hx : x.Tallied) (pattern subject : String) (count : Nat) :
    (subject, count) ∈ (SubjectIndex.matching pattern x.subjects).map (fun e => (e.1, e.2.size)) ↔
      subjectMatches subject pattern = true ∧ count = (x.ofSubject subject).length ∧
        count ≠ 0 := by
  have hsize {e : String × SeqSet} (he : e ∈ x.subjects) :
      e.2.size = (x.ofSubject e.1).length := by
    rw [← List.length_map (·.sequence), ← hx.subjectSequences_eq, subjectSequences, SeqSet.toList,
      SubjectIndex.sequences_of_mem hx.nodup_subjects he, SeqMap.keys, List.length_map,
      SeqMap.length_entries]
  simp only [List.mem_map, Prod.mk.injEq]
  constructor
  · rintro ⟨e, he, rfl, rfl⟩
    obtain ⟨he, hpattern⟩ := List.mem_filter.1 he
    refine ⟨hpattern, hsize he, fun hzero => ?_⟩
    -- The index keeps no subject without messages.
    have hempty := hx.isEmpty_of_mem e he
    rw [SeqMap.isEmpty, List.isEmpty_eq_false_iff] at hempty
    exact hempty (List.eq_nil_of_length_eq_zero hzero)
  · rintro ⟨hpattern, rfl, hne⟩
    obtain ⟨m, hm⟩ := List.exists_mem_of_length_pos (Nat.pos_of_ne_zero hne)
    obtain ⟨hget, rfl⟩ := hx.mem_ofSubject_iff.1 hm
    have he := hx.mem_subjects hget
    exact ⟨_, List.mem_filter.2 ⟨he, hpattern⟩, rfl, hsize he⟩

end Tallied

/-! ## The numbers that are missing -/

namespace Coherent

/-- The numbers of an index are those between its bounds that it has messages of. -/
theorem keys_eq (hx : x.Coherent) : x.messages.keys =
    (List.range' x.firstSeq (x.lastSeq + 1 - x.firstSeq)).filter x.contains := by
  have hrange : (List.range' x.firstSeq (x.lastSeq + 1 - x.firstSeq)).Pairwise (· < ·) :=
    List.pairwise_lt_range'
  refine eq_of_ascending id (SeqMap.keys_ascending _) (hrange.filter _) fun n => ?_
  rw [SeqMap.mem_keys_iff, List.mem_filter, List.mem_range'_1]
  refine ⟨fun h => ⟨?_, h⟩, And.right⟩
  obtain ⟨m, hm⟩ := contains_iff.1 h
  have hfirst := hx.firstSeq_le hm
  have hlast := hx.le_lastSeq hm
  omega

theorem size_add_missing (hx : x.Coherent) :
    x.size + x.missing.length = x.lastSeq + 1 - x.firstSeq := by
  have hsize : x.size = ((List.range' x.firstSeq (x.lastSeq + 1 - x.firstSeq)).filter
      x.contains).length := by
    rw [size, ← SeqMap.length_entries, ← List.length_map (·.1), ← hx.keys_eq, SeqMap.keys]
  rw [hsize, missing, ← List.countP_eq_length_filter, ← List.countP_eq_length_filter]
  have hcount := List.length_eq_countP_add_countP x.contains
    (l := List.range' x.firstSeq (x.lastSeq + 1 - x.firstSeq))
  simp only [List.length_range', Bool.not_eq_true, Bool.decide_eq_false] at hcount
  exact hcount.symm

/-- The bounds of an index are those of its messages, or there are none. -/
theorem bounds_cases (hx : x.Coherent) :
    x.size = 0 ∧ x.firstSeq = x.lastSeq + 1 ∨ x.size ≠ 0 ∧ x.firstSeq ≤ x.lastSeq := by
  have hempty : x.size = 0 ↔ x.messages.isEmpty = true :=
    List.length_eq_zero_iff.trans List.isEmpty_iff.symm
  rw [hx.firstSeq_eq]
  rcases lowest_cases x.messages x.lastSeq with ⟨he, h⟩ | ⟨m, hm⟩
  · exact .inl ⟨hempty.2 he, h⟩
  · refine .inr ⟨fun he => ?_, hx.le_lastSeq hm⟩
    rw [SeqMap.isEmpty_iff.1 (hempty.1 he)] at hm
    cases hm

/-- The numbers that count as deleted are those that are missing. -/
theorem numDeleted_eq (hx : x.Coherent) (filter : Option String) (consumers : Nat) :
    (x.state filter consumers).numDeleted = x.missing.length := by
  have hsum := hx.size_add_missing
  show (if x.size = 0 then 0 else x.lastSeq - x.firstSeq + 1 - x.size) = _
  rcases hx.bounds_cases with ⟨hzero, hfirst⟩ | ⟨hne, hle⟩
  · rw [if_pos hzero]
    omega
  · rw [if_neg hne]
    omega

end Coherent

end Index

end StreamBroker
