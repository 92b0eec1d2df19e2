import StreamBroker.Proofs.Journal.Mirror

/-!
# A journal that is cut off

A backend may stop in the midst of an operation.  What its journal then holds are the effects of the
calls up to there, and the question is whether the highest number that was given is still known.  An
entry under the number knows it, and so does the watermark.  There is one gap: the compaction of the
front takes the watermark with it, and until the next call writes it again only an entry can know
the number.

## Main definitions

* `Journal.highest`: the highest number when calls have been performed
* `Journal.Remembers`: the highest number is known to a log
* `Journal.Halted`: what a log is like when calls were cut off

## Main results

* `Stream.reread_remembers_iff`: a number is read back where it is known
* `Journal.halted_removalCalls`: a removal forgets the highest number in the gap, and only there
* `Journal.Changes.halted`: so does everything that happens to a journal
-/

namespace StreamBroker

/-- The numbers that a call writes entries under. -/
def LogCall.written : LogCall → List Nat
  | append _ es => es.map (·.1)
  | _ => []

/-- A call that removes, or writes a number as the watermark. -/
def LogCall.IsRemoving (n : Nat) : LogCall → Prop
  | append _ es => es = [(Journal.watermarkIndex, Journal.encodeWatermark n)]
  | compactBefore .. | deleteEntry .. => True
  | _ => False

namespace Journal

variable {log log' : SeqMap Bytes} {n : Nat} {x : Index} {calls : List LogCall}

/-! ## The highest number -/

/-- The highest number that was given, when calls have been performed since another one was.  The
watermark is written under a number that is below all others. -/
def highest (n : Nat) (calls : List LogCall) : Nat := (calls.flatMap LogCall.written).foldl max n

theorem highest_append (n : Nat) (calls calls' : List LogCall) :
    highest n (calls ++ calls') = highest (highest n calls) calls' := by
  rw [highest, List.flatMap_append, List.foldl_append]
  rfl

theorem highest_eq_self (h : ∀ call ∈ calls, ∀ k ∈ call.written, k ≤ n) : highest n calls = n := by
  refine Nat.le_antisymm ?_ (Index.le_foldl_max_iff.2 (.inl (Nat.le_refl n)))
  rcases Index.le_foldl_max_iff.1 (Nat.le_refl (highest n calls)) with hle | ⟨k, hk, hle⟩
  · exact hle
  · obtain ⟨call, hcall, hk⟩ := List.mem_flatMap.1 hk
    exact Nat.le_trans hle (h call hcall k hk)

/-! ## What a log knows -/

/-- A log has no entry above a number, as far as it is read. -/
structure Upto (log : SeqMap Bytes) (n : Nat) : Prop where
  /-- The entries can be read. -/
  readable : Readable log
  /-- No entry that is read is above the number. -/
  entry : ∀ {k octets}, log.get? k = some octets → k < lastIndex → k ≤ n
  /-- The watermark is not above the number. -/
  watermark : ∀ {octets}, log.get? watermarkIndex = some octets →
    ∃ w, w ≤ n ∧ octets = encodeWatermark w

/-- An entry or the watermark of a log knows a number. -/
def Remembers (log : SeqMap Bytes) (n : Nat) : Prop :=
  n = 0 ∨ (∃ octets, log.get? n = some octets) ∨
    log.get? watermarkIndex = some (encodeWatermark n)

theorem Mirrors.upto (h : Mirrors log x) (hx : x.Sound) : Upto log x.lastSeq where
  readable := h.readable hx
  entry {k octets} hget hlt := by
    by_cases hk : k = watermarkIndex
    · exact hk ▸ Nat.zero_le _
    · obtain ⟨m, hm⟩ := Index.contains_iff.1 (h.message hget hk hlt)
      exact hx.le_lastSeq hm
  watermark := h.watermark

theorem Mirrors.remembers (h : Mirrors log x) : Remembers log x.lastSeq := by
  rcases h.covered with hzero | hcontains | hwatermark
  · exact .inl hzero
  · obtain ⟨m, hm⟩ := Index.contains_iff.1 hcontains
    obtain ⟨-, octets, hget, -⟩ := h.entry hm
    exact .inr (.inl ⟨octets, hget⟩)
  · exact .inr (.inr hwatermark)

/-- What has entries of a log only, and a watermark for the number, has no entry above it. -/
theorem Upto.of_get? (h : Upto log n) (hn : n < wordLimit)
    (hsub : ∀ {k octets}, log'.get? k = some octets →
      log.get? k = some octets ∨ k = watermarkIndex ∧ octets = encodeWatermark n) :
    Upto log' n where
  readable := by
    constructor
    · intro k octets hget hne hlt
      rcases hsub hget with hget | ⟨hk, -⟩
      · exact h.readable.message hget hne hlt
      · exact absurd hk hne
    · intro octets hget
      rcases hsub hget with hget | ⟨-, hoctets⟩
      · exact h.readable.watermark hget
      · exact ⟨n, hn, hoctets⟩
  entry hget hlt := by
    -- The watermark has the number 0, which is above none.
    rcases hsub hget with hget | ⟨rfl, -⟩
    · exact h.entry hget hlt
    · exact Nat.zero_le n
  watermark hget := by
    rcases hsub hget with hget | ⟨-, hoctets⟩
    · exact h.watermark hget
    · exact ⟨n, Nat.le_refl n, hoctets⟩

namespace Recovers

variable {r : Recovered}

theorem watermark_le (hr : Recovers log r) (h : Upto log n) (hn : n < wordLimit) :
    r.watermark ≤ n := by
  rcases hr.watermark with ⟨-, hzero⟩ | ⟨hlt, hget⟩
  · exact hzero ▸ Nat.zero_le n
  · obtain ⟨w, hw, hoctets⟩ := h.watermark hget
    exact encodeWatermark_inj hlt (Nat.lt_of_le_of_lt hw hn) hoctets ▸ hw

theorem lastSeq_le (hr : Recovers log r) (h : Upto log n) (hn : n < wordLimit) :
    (Index.restore r.messages r.watermark).lastSeq ≤ n := by
  rcases Nat.eq_zero_or_pos (Index.restore r.messages r.watermark).lastSeq with hzero | hpos
  · exact hzero ▸ Nat.zero_le n
  · rcases (Index.le_lastSeq_restore_iff hpos).1 (Nat.le_refl _) with ⟨m, hm, hle⟩ | hle
    · obtain ⟨-, hlt, octets, hget, -⟩ := (hr.mem_iff m).1 hm
      exact Nat.le_trans hle (h.entry hget hlt)
    · exact Nat.le_trans hle (hr.watermark_le h hn)

/-- What was recovered reaches the highest number exactly if the log knows it. -/
theorem le_lastSeq_iff_remembers (hr : Recovers log r) (h : Upto log n) (hn : n + 1 < wordLimit) :
    n ≤ (Index.restore r.messages r.watermark).lastSeq ↔ Remembers log n := by
  rcases Nat.eq_zero_or_pos n with rfl | hpos
  · exact ⟨fun _ => .inl rfl, fun _ => Nat.zero_le _⟩
  -- The entry of the highest number is one that is read.
  have hlast : n < lastIndex := by
    have : lastIndex = wordLimit - 1 := rfl
    omega
  rw [Index.le_lastSeq_restore_iff hpos]
  constructor
  · rintro (⟨m, hm, hle⟩ | hle)
    · obtain ⟨-, hlt, octets, hget, -⟩ := (hr.mem_iff m).1 hm
      exact .inr (.inl ⟨octets, Nat.le_antisymm hle (h.entry hget hlt) ▸ hget⟩)
    · -- The watermark reaches the number, and none is above it.
      have heq := Nat.le_antisymm hle (hr.watermark_le h (Nat.lt_of_succ_lt hn))
      rcases hr.watermark with ⟨-, hzero⟩ | ⟨-, hget⟩
      · omega
      · exact .inr (.inr (heq ▸ hget))
  · rintro (hzero | ⟨octets, hget⟩ | hget)
    · omega
    · have hne : n ≠ watermarkIndex := Nat.ne_of_gt hpos
      obtain ⟨m, rfl, hdecode⟩ := h.readable.message hget hne hlast
      exact .inl ⟨m, (hr.mem_iff m).2 ⟨hne, hlast, octets, hget, hdecode⟩, Nat.le_refl _⟩
    · rcases hr.watermark with ⟨hnone, -⟩ | ⟨hlt, hsome⟩
      · rw [hnone] at hget
        cases hget
      · have hoctets := Option.some.inj (hget.symm.trans hsome)
        exact .inr (Nat.le_of_eq (encodeWatermark_inj (Nat.lt_of_succ_lt hn) hlt hoctets))

end Recovers

end Journal

namespace Stream

open Journal

variable {settings : StreamSettings} {ns : String} {b : Backend} {log : SeqMap Bytes} {n : Nat}

/-- **The highest number is read back where it is known**, as long as the number behind it
exists. -/
theorem reread_remembers_iff (hns : settings.journal? = some ns) (hb : b.Keeps ns log)
    (hlog : Upto log n) :
    (∃ x b', reread settings b = (.ok x, b') ∧ n ≤ x.lastSeq) ↔
      n + 1 < wordLimit ∧ Remembers log n := by
  obtain ⟨r, b', hr, -, hread⟩ := reread_spec hns hb hlog.readable
  constructor
  · -- A stream that opens has a number left, so the number behind the highest one exists.
    rintro ⟨x, b'', hx, hle⟩
    have hlt : n + 1 < wordLimit :=
      Nat.lt_of_le_of_lt (Nat.succ_le_succ hle) (lastSeq_of_reread hx)
    refine ⟨hlt, (hr.le_lastSeq_iff_remembers hlog hlt).1 ?_⟩
    rw [hread] at hx
    obtain ⟨hx, -⟩ := Prod.mk.inj hx
    split at hx
    · cases hx
    · cases hx
      exact hle
  · rintro ⟨hlt, hremembers⟩
    have hlast := hr.lastSeq_le hlog (Nat.lt_of_succ_lt hlt)
    rw [if_neg (by omega)] at hread
    exact ⟨_, b', hread, (hr.le_lastSeq_iff_remembers hlog hlt).2 hremembers⟩

end Stream

namespace Journal

variable {log : SeqMap Bytes} {n : Nat} {x y : Index} {gone : List Nat}
  {calls calls' : List LogCall}

/-! ## Calls that are cut off -/

/-- Calls end with a compaction. -/
def EndsCompacting (calls : List LogCall) : Prop :=
  calls.getLast?.map LogCall.kind = some .compactBefore

/-- What a log is like when calls were cut off: the highest number is known, except in the gap
behind a compaction that leaves no entry for it. -/
structure Halted (log : SeqMap Bytes) (n : Nat) (calls : List LogCall) : Prop where
  /-- There is no entry above the highest number. -/
  upto : Upto (LogCall.effects log calls) (highest n calls)
  /-- The highest number is known, except in the gap. -/
  remembers_iff : Remembers (LogCall.effects log calls) (highest n calls) ↔
    ¬(EndsCompacting calls ∧ (LogCall.effects log calls).get? (highest n calls) = none)

/-- Where the log mirrors an index the highest number is known. -/
theorem Halted.of_mirrors (h : Mirrors (LogCall.effects log calls) x) (hx : x.Sound)
    (hn : highest n calls = x.lastSeq) (hend : ¬EndsCompacting calls) : Halted log n calls where
  upto := hn ▸ h.upto hx
  remembers_iff := by
    rw [hn]
    exact ⟨fun _ hgap => hend hgap.1, fun _ => h.remembers⟩

/-- Calls that are cut off behind others are cut off with all of them. -/
theorem Halted.append (h : Halted (LogCall.effects log calls) (highest n calls) calls')
    (hne : calls' ≠ []) : Halted log n (calls ++ calls') := by
  obtain ⟨hupto, hremembers⟩ := h
  have hend : EndsCompacting (calls ++ calls') ↔ EndsCompacting calls' := by
    obtain ⟨call, hlast⟩ := Option.isSome_iff_exists.1 (List.getLast?_isSome.2 hne)
    rw [EndsCompacting, EndsCompacting, List.getLast?_append, hlast, Option.some_or]
  constructor
  · rw [LogCall.effects_append, highest_append]
    exact hupto
  · rw [LogCall.effects_append, highest_append, hend]
    exact hremembers

/-- Calls in two turns are cut off in the first or in the second. -/
theorem halted_take_append (h : ∀ i, Halted log n (calls.take i))
    (h' : ∀ i, calls'.take i ≠ [] →
      Halted (LogCall.effects log calls) (highest n calls) (calls'.take i)) (i : Nat) :
    Halted log n ((calls ++ calls').take i) := by
  rw [List.take_append]
  by_cases hne : calls'.take (i - calls.length) = []
  · rw [hne, List.append_nil]
    exact h i
  · -- The cut is among the second calls, so all of the first ones took effect.
    have hlength : calls.length ≤ i := by
      apply Nat.le_of_not_lt
      intro hlt
      apply hne
      rw [Nat.sub_eq_zero_of_le (Nat.le_of_lt hlt), List.take_zero]
    rw [List.take_of_length_le hlength]
    exact (h' _ hne).append hne

/-- A single call that does not remove is not cut off. -/
theorem halted_take_singleton {call : LogCall}
    (h : Mirrors (LogCall.effects log (calls ++ [call])) y) (hy : y.Sound)
    (hn : highest n (calls ++ [call]) = y.lastSeq) (hkind : call.kind ≠ .compactBefore) (i : Nat)
    (hne : [call].take i ≠ []) :
    Halted (LogCall.effects log calls) (highest n calls) ([call].take i) := by
  have htake : [call].take i = [call] := by
    cases i with
    | zero => exact absurd rfl hne
    | succ i => rw [List.take_succ_cons, List.take_nil]
  rw [htake]
  rw [LogCall.effects_append] at h
  rw [highest_append] at hn
  exact .of_mirrors h hy hn fun hend => hkind (Option.some.inj hend)

/-! ## Removals that are cut off -/

/-- Calls that remove write nothing but the watermark. -/
theorem highest_of_isRemoving (h : ∀ call ∈ calls, call.IsRemoving n) : highest n calls = n := by
  apply highest_eq_self
  intro call hcall k hk
  cases call with
  | append ns es =>
    obtain rfl := h _ hcall
    obtain rfl := List.mem_singleton.1 hk
    exact Nat.zero_le n
  | _ => cases hk

/-- Behind a call that removes, an entry is one that was there before, or the watermark. -/
theorem get?_of_isRemoving {call : LogCall} (hcall : call.IsRemoving n) {k : Nat} {octets : Bytes}
    (hget : (call.effect log).2.get? k = some octets) :
    log.get? k = some octets ∨ k = watermarkIndex ∧ octets = encodeWatermark n := by
  cases call with
  | append ns es =>
    obtain rfl := hcall
    simp only [LogCall.effect, List.foldl_cons, List.foldl_nil, SeqMap.get?_insert] at hget
    split at hget
    · next hk => exact .inr ⟨hk, (Option.some.inj hget).symm⟩
    · exact .inl hget
  | compactBefore ns index =>
    simp only [LogCall.effect, SeqMap.get?_startingAt] at hget
    split at hget
    · exact .inl hget
    · cases hget
  | deleteEntry ns index =>
    simp only [LogCall.effect, SeqMap.get?_erase] at hget
    split at hget
    · cases hget
    · exact .inl hget
  -- Other calls do not remove.
  | _ => exact hcall.elim

/-- Calls that remove leave no entry above the highest number. -/
theorem Upto.effects (h : Upto log n) (hn : n < wordLimit)
    (hcalls : ∀ call ∈ calls, call.IsRemoving n) : Upto (LogCall.effects log calls) n := by
  induction calls generalizing log with
  | nil => exact h
  | cons call calls ih =>
    refine ih (h.of_get? hn fun hget => ?_) fun c hc => hcalls c (List.mem_cons_of_mem call hc)
    exact get?_of_isRemoving (hcalls call List.mem_cons_self) hget

theorem removalCalls_isRemoving (ns : String) (y : Index) (gone : List Nat) :
    ∀ call ∈ removalCalls ns y gone, call.IsRemoving y.lastSeq := by
  intro call hcall
  rw [removalCalls_eq, List.mem_append, List.mem_append, compaction, marking, deletions] at hcall
  rcases hcall with hcall | hcall | hcall
  · split at hcall
    · obtain rfl := List.mem_singleton.1 hcall
      trivial
    · cases hcall
  · split at hcall
    · obtain rfl := List.mem_singleton.1 hcall
      rfl
    · cases hcall
  · obtain ⟨n, -, rfl⟩ := List.mem_map.1 hcall
    trivial

/-- Where the calls of a removal can be cut off: before all of them, behind the compaction, or
behind the call for the watermark. -/
theorem take_removalCalls_cases (ns : String) (y : Index) (gone : List Nat) (i : Nat) :
    (removalCalls ns y gone).take i = [] ∨
      (compacts y gone = true ∧ (removalCalls ns y gone).take i = compaction ns y gone) ∨
      ∃ j, (removalCalls ns y gone).take i =
        compaction ns y gone ++ (marking ns y gone ++ (deletions ns y gone).take j) := by
  rw [removalCalls_eq, compaction, marking]
  by_cases hc : compacts y gone = true
  · -- A compaction always calls for the watermark behind it.
    have hm : marks y gone = true := by rw [marks, hc, Bool.true_or]
    simp only [hc, hm, if_true, List.singleton_append]
    cases i with
    | zero => exact .inl rfl
    | succ i =>
      cases i with
      | zero => exact .inr (.inl ⟨trivial, rfl⟩)
      | succ i => exact .inr (.inr ⟨i, rfl⟩)
  · by_cases hm : marks y gone = true
    · simp only [hc, hm, if_true, List.singleton_append]
      cases i with
      | zero => exact .inl rfl
      | succ i => exact .inr (.inr ⟨i, rfl⟩)
    · simp only [hc, hm]
      exact .inr (.inr ⟨i, rfl⟩)

/-- Deletions leave what did not go, also when they are cut off. -/
theorem get?_take_deletions (ns : String) (log : SeqMap Bytes) (j : Nat) {k : Nat}
    (hk : ¬(k ∈ gone ∧ y.firstSeq ≤ k)) :
    (LogCall.effects log ((deletions ns y gone).take j)).get? k = log.get? k := by
  have hmem : k ∉ (gone.filter (y.firstSeq ≤ ·)).take j := fun h => by
    have hfilter := List.mem_filter.1 (List.mem_of_mem_take h)
    exact hk ⟨hfilter.1, of_decide_eq_true hfilter.2⟩
  have herase := SeqMap.get?_foldl_erase ((gone.filter (y.firstSeq ≤ ·)).take j) log k
  rw [if_neg hmem] at herase
  rw [deletions, ← List.map_take, LogCall.effects, List.foldl_map]
  exact herase

/-- Behind the call for the watermark the highest number is known. -/
theorem remembers_marked (h : Mirrors log x) (hx : x.Sound) (hloses : x.Loses gone y)
    (ns : String) (j : Nat) :
    Remembers (LogCall.effects log (compaction ns y gone ++
      (marking ns y gone ++ (deletions ns y gone).take j))) x.lastSeq := by
  have hpos := (hloses.sound hx).firstSeq_pos
  rw [LogCall.effects_append, LogCall.effects_append]
  have hzero : ¬(watermarkIndex ∈ gone ∧ y.firstSeq ≤ watermarkIndex) :=
    fun h => absurd h.2 (Nat.not_le_of_lt hpos)
  by_cases hm : marks y gone = true
  · -- The watermark was written for the highest number, and deletions leave it.
    refine .inr (.inr ?_)
    rw [get?_take_deletions ns _ j hzero, get?_marked, if_pos ⟨hm, rfl⟩, hloses.lastSeq_eq]
  · -- There was no need to write it: nothing was compacted, and the highest number did not go,
    -- so what knew it before still does.
    have hc : ¬compacts y gone = true := fun hc => hm (by rw [marks, hc, Bool.true_or])
    have hlast : x.lastSeq ∉ gone := fun hn => hm (marks_of_mem (hloses.lastSeq_eq ▸ hn))
    have hcompaction : compaction ns y gone = [] := if_neg hc
    have hmarking : marking ns y gone = [] := if_neg hm
    rw [hcompaction, hmarking, LogCall.effects_nil, LogCall.effects_nil]
    rcases h.remembers with hnone | ⟨octets, hget⟩ | hget
    · exact .inl hnone
    · exact .inr (.inl ⟨octets, (get?_take_deletions ns log j fun h => hlast h.1).trans hget⟩)
    · exact .inr (.inr ((get?_take_deletions ns log j hzero).trans hget))

/-- Behind the call for the watermark no compaction is the last call. -/
theorem not_endsCompacting_marked (ns : String) (y : Index) (gone : List Nat) (j : Nat) :
    ¬EndsCompacting (compaction ns y gone ++
      (marking ns y gone ++ (deletions ns y gone).take j)) := by
  intro hend
  obtain ⟨call, hlast, hkind⟩ := Option.map_eq_some_iff.1 hend
  -- The last call is a write of the watermark or a deletion, unless there are no calls at all.
  by_cases hne : marking ns y gone ++ (deletions ns y gone).take j = []
  · have hm : ¬marks y gone = true := fun hm => by
      rw [marking, if_pos hm] at hne
      cases hne
    have hc : ¬compacts y gone = true := fun hc => hm (by rw [marks, hc, Bool.true_or])
    rw [hne, compaction, if_neg hc] at hlast
    cases hlast
  · obtain ⟨call', hlast'⟩ := Option.isSome_iff_exists.1 (List.getLast?_isSome.2 hne)
    rw [List.getLast?_append, hlast', Option.some_or] at hlast
    obtain rfl := Option.some.inj hlast
    rcases List.mem_append.1 (List.mem_of_getLast? hlast') with hmem | hmem
    · rw [marking] at hmem
      split at hmem
      · obtain rfl := List.mem_singleton.1 hmem
        cases hkind
      · cases hmem
    · obtain ⟨k, -, rfl⟩ := List.mem_map.1 (List.mem_of_mem_take hmem)
      cases hkind

/-- **A removal that is cut off forgets the highest number in the gap, and only there**: behind a
compaction that left no entry for it. -/
theorem halted_removalCalls (h : Mirrors log x) (hx : x.Sound) (hloses : x.Loses gone y)
    (ns : String) (i : Nat) : Halted log x.lastSeq ((removalCalls ns y gone).take i) := by
  have hy := hloses.sound hx
  have hremoving : ∀ call ∈ (removalCalls ns y gone).take i, call.IsRemoving x.lastSeq :=
    fun call hcall => hloses.lastSeq_eq ▸
      removalCalls_isRemoving ns y gone call (List.mem_of_mem_take hcall)
  have hn := highest_of_isRemoving hremoving
  refine ⟨hn.symm ▸ (h.upto hx).effects h.lastSeq_lt hremoving, ?_⟩
  rw [hn]
  -- No call took effect, or the compaction alone did, or the watermark was seen to.
  rcases take_removalCalls_cases ns y gone i with hq | ⟨hc, hq⟩ | ⟨j, hq⟩
  · rw [hq]
    exact ⟨fun _ hgap => (nomatch hgap.1), fun _ => h.remembers⟩
  · have hcompaction : compaction ns y gone = [.compactBefore ns (y.firstSeq - 1)] := if_pos hc
    have hwatermark : (LogCall.effects log (compaction ns y gone)).get? watermarkIndex = none := by
      rw [get?_compacted ns log hy.firstSeq_pos, if_pos ⟨hc, hy.firstSeq_pos⟩]
    rw [hq]
    constructor
    · rintro (hzero | ⟨octets, hget⟩ | hget) ⟨-, hnone⟩
      · -- A compaction follows a message that went, so a number was given.
        obtain ⟨k, hk, -⟩ := List.any_eq_true.1 hc
        obtain ⟨m, hm⟩ := Index.contains_iff.1 (hloses.contains k hk)
        exact absurd (hzero ▸ hx.le_lastSeq hm) (Nat.not_le_of_lt (hx.pos hm))
      · rw [hget] at hnone
        cases hnone
      · rw [hwatermark] at hget
        cases hget
    · intro hgap
      have hend : EndsCompacting (compaction ns y gone) := by rw [hcompaction]; rfl
      exact .inr (.inl (Option.ne_none_iff_exists'.1 fun hnone => hgap ⟨hend, hnone⟩))
  · rw [hq]
    have hend := not_endsCompacting_marked ns y gone j
    exact ⟨fun _ hgap => hend hgap.1, fun _ => remembers_marked h hx hloses ns j⟩

namespace Changes

variable {ns : String}

/-- Changes give the numbers that their calls write. -/
theorem highest_eq (h : Changes ns x calls y) : highest x.lastSeq calls = y.lastSeq := by
  induction h with
  | refl => rfl
  | @read _ _ call run hns hread ih =>
    rw [highest_append, ih]
    apply highest_eq_self
    intro c hc k hk
    obtain rfl := List.mem_singleton.1 hc
    cases c with
    | append ns es => exact hread.elim
    | _ => cases hk
  | store run hnext hlt htime hencode ih => rw [highest_append, ih]; rfl
  | @lose _ y z gone run h ih =>
    rw [highest_append, ih, ← h.lastSeq_eq]
    exact highest_of_isRemoving (removalCalls_isRemoving _ z gone)

/-- **Whatever happens to a journal, the highest number is known wherever it is cut off**, except in
the gap behind a compaction. -/
theorem halted (h : Changes ns x calls y) (hx : x.Sound) (hlog : Mirrors log x) (i : Nat) :
    Halted log x.lastSeq (calls.take i) := by
  induction h generalizing i with
  | refl =>
    rw [List.take_nil]
    exact .of_mirrors hlog hx rfl fun hend => nomatch hend
  | @read _ _ call run hns hread ih =>
    have changes := run.read hns hread
    refine halted_take_append ih (halted_take_singleton (changes.mirrors hx hlog)
      (changes.sound hx) changes.highest_eq ?_) i
    intro hkind
    -- A call that only reads is no compaction.
    cases call with
    | compactBefore ns index => exact hread
    | _ => cases hkind
  | store run hnext hlt htime hencode ih =>
    have changes := run.store hnext hlt htime hencode
    exact halted_take_append ih (halted_take_singleton (changes.mirrors hx hlog)
      (changes.sound hx) changes.highest_eq nofun) i
  | lose run h ih =>
    refine halted_take_append ih ?_ i
    intro i _
    rw [run.highest_eq]
    exact halted_removalCalls (run.mirrors hx hlog) (run.sound hx) h ns i

end Changes

end Journal

end StreamBroker
