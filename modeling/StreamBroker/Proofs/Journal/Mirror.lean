import StreamBroker.Proofs.Journal.Recovery

/-!
# Journals mirror indexes

A log mirrors an index when its entries are the messages of the index and its watermark vouches for
the last number as soon as no message does.  Storing a message keeps the mirror, and so does every
removal: whether the front is compacted, the watermark is rewritten or entries are deleted one by
one depends on where the messages that go lie, but what is left is the same each time.

A journal that mirrors an index gives it back, unless the last number is the largest of sixty-four
bits: the entry of that number is never read.

## Main definitions

* `LogCall.effects`: what calls one after the other do to a log
* `Journal.Within`: a log holds no message that an index has not
* `Journal.Mirrors`: a log mirrors an index
* `Journal.Changes`: an index changes, and its journal by calls

## Main results

* `Journal.Mirrors.store`, `Journal.Mirrors.lose`: messages come and go
* `LogRun.mirrors`, `LogRun.within`: the steps of a log keep the mirror, and what is in it within
* `Stream.reread_agrees_iff`: a mirror gives back its index below the largest number, and only there
-/

namespace StreamBroker

/-! ## Calls one after the other -/

/-- What calls one after the other do to a log. -/
def LogCall.effects (log : SeqMap Bytes) (calls : List LogCall) : SeqMap Bytes :=
  calls.foldl (fun log call => (call.effect log).2) log

@[simp] theorem LogCall.effects_nil (log : SeqMap Bytes) : effects log [] = log := rfl

@[simp] theorem LogCall.effects_cons (log : SeqMap Bytes) (call : LogCall)
    (calls : List LogCall) : effects log (call :: calls) = effects (call.effect log).2 calls := rfl

@[simp] theorem LogCall.effects_append (log : SeqMap Bytes) (calls more : List LogCall) :
    effects log (calls ++ more) = effects (effects log calls) more := List.foldl_append ..

/-- Calls about a namespace that write in range all succeed. -/
theorem Backend.Keeps.performAll {b : Backend} {ns : String} {log : SeqMap Bytes}
    (hb : b.Keeps ns log) {calls : List LogCall}
    (hcalls : ∀ call ∈ calls, call.ns = ns ∧ call.IsInRange) :
    (b.performAll calls).1 = .ok () ∧
      (b.performAll calls).2.Keeps ns (LogCall.effects log calls) := by
  induction calls generalizing b log with
  | nil => exact ⟨rfl, hb⟩
  | cons call calls ih =>
    obtain ⟨rfl, hrange⟩ := hcalls call List.mem_cons_self
    obtain ⟨hreply, hb'⟩ := hb.perform call hrange
    have hrest := ih hb' fun c hc => hcalls c (List.mem_cons_of_mem call hc)
    cases hp : b.perform call with
    | mk reply b' =>
      rw [hp] at hreply hrest
      obtain rfl : reply = _ := hreply
      simp only [Backend.performAll, hp, LogCall.effects_cons]
      exact hrest

/-- Calls that succeed may be performed in two turns. -/
theorem Backend.Keeps.performAll_append {b : Backend} {ns : String} {log : SeqMap Bytes}
    (hb : b.Keeps ns log) {calls : List LogCall}
    (hcalls : ∀ call ∈ calls, call.ns = ns ∧ call.IsInRange) (more : List LogCall) :
    b.performAll (calls ++ more) = (b.performAll calls).2.performAll more := by
  induction calls generalizing b log with
  | nil => rfl
  | cons call calls ih =>
    obtain ⟨rfl, hrange⟩ := hcalls call List.mem_cons_self
    obtain ⟨hreply, hb'⟩ := hb.perform call hrange
    have hrest := ih hb' fun c hc => hcalls c (List.mem_cons_of_mem call hc)
    cases hp : b.perform call with
    | mk reply b' =>
      rw [hp] at hreply hrest
      obtain rfl : reply = _ := hreply
      simp only [List.cons_append, Backend.performAll, hp]
      exact hrest

namespace Journal

/-! ## Mirrors -/

/-- A log holds no message that an index has not, as far as it is read. -/
def Within (log : SeqMap Bytes) (x : Index) : Prop :=
  ∀ n octets, log.get? n = some octets → n ≠ watermarkIndex → n < lastIndex →
    x.contains n = true

theorem Within.store {log : SeqMap Bytes} {x : Index} (h : Within log x) (m : StoredMessage)
    (octets : Bytes) : Within (log.insert m.sequence octets) (x.commit m) := by
  intro n octets' hget hne hlt
  rw [SeqMap.get?_insert] at hget
  rw [Index.contains, Index.get?_commit]
  split at hget
  · next hn => rw [if_pos hn]; rfl
  · next hn =>
    rw [if_neg hn]
    exact h n octets' hget hne hlt

/-- A log mirrors an index. -/
structure Mirrors (log : SeqMap Bytes) (x : Index) : Prop where
  /-- The last number has sixty-four bits. -/
  lastSeq_lt : x.lastSeq < wordLimit
  /-- Every message has its entry. -/
  entry : ∀ {n m}, x.get? n = some m →
    m.timestamp.IsKept ∧ ∃ octets, log.get? n = some octets ∧ Entry.encode m = .ok octets
  /-- Every entry that is read is that of a message. -/
  message : ∀ {n octets}, log.get? n = some octets → n ≠ watermarkIndex → n < lastIndex →
    x.contains n = true
  /-- The watermark is a number that was given. -/
  watermark : ∀ {octets}, log.get? watermarkIndex = some octets →
    ∃ w, w ≤ x.lastSeq ∧ octets = encodeWatermark w
  /-- A message or the watermark vouches for the last number. -/
  covered : x.lastSeq = 0 ∨ x.contains x.lastSeq = true ∨
    log.get? watermarkIndex = some (encodeWatermark x.lastSeq)

namespace Mirrors

variable {log : SeqMap Bytes} {x y : Index} {gone : List Nat}

theorem within (h : Mirrors log x) : Within log x := fun _ _ => h.message

/-- Every message is read back from its entry. -/
theorem decode_entry (h : Mirrors log x) (hx : x.Sound) {n : Nat} {m : StoredMessage}
    (hm : x.get? n = some m) :
    ∃ octets, log.get? n = some octets ∧ Entry.decode octets = .ok m := by
  obtain ⟨hkept, octets, hoctets, hencode⟩ := h.entry hm
  have hlt : m.sequence < wordLimit := by
    rw [hx.sequence_eq hm]
    exact Nat.lt_of_le_of_lt (hx.le_lastSeq hm) h.lastSeq_lt
  have hdecode := Entry.decode_encode hencode hkept hlt []
  rw [List.append_nil] at hdecode
  exact ⟨octets, hoctets, hdecode⟩

theorem readable (h : Mirrors log x) (hx : x.Sound) : Readable log where
  message hget hne hlt := by
    obtain ⟨m, hm⟩ := Index.contains_iff.1 (h.message hget hne hlt)
    obtain ⟨octets, hoctets, hdecode⟩ := h.decode_entry hx hm
    obtain rfl := Option.some.inj (hoctets.symm.trans hget)
    exact ⟨m, hx.sequence_eq hm, hdecode⟩
  watermark hget := by
    obtain ⟨w, hw, hoctets⟩ := h.watermark hget
    exact ⟨w, Nat.lt_of_le_of_lt hw h.lastSeq_lt, hoctets⟩

/-- The messages that are read are those of the index, up to below the largest number. -/
theorem messageAt_iff (h : Mirrors log x) (hx : x.Sound) {n : Nat} {m : StoredMessage} :
    MessageAt log n m ↔ x.get? n = some m ∧ n < lastIndex := by
  constructor
  · rintro ⟨hne, hlt, octets, hget, hm⟩
    -- The entry is that of some message, and octets are those of one message only.
    obtain ⟨w, hw⟩ := Index.contains_iff.1 (h.message hget hne hlt)
    obtain ⟨octets', hoctets, hdecode⟩ := h.decode_entry hx hw
    obtain rfl := Option.some.inj (hoctets.symm.trans hget)
    obtain rfl := Except.ok.inj (hdecode.symm.trans hm)
    exact ⟨hw, hlt⟩
  · rintro ⟨hget, hlt⟩
    obtain ⟨octets, hoctets, hdecode⟩ := h.decode_entry hx hget
    exact ⟨Nat.ne_of_gt (hx.pos hget), hlt, octets, hoctets, hdecode⟩

/-- A log without entries mirrors an index that never had a message. -/
theorem empty : Mirrors SeqMap.empty Index.empty where
  lastSeq_lt := by decide
  entry h := by cases h
  message h := by cases h
  watermark h := by cases h
  covered := .inl rfl

/-! ## Messages come and go -/

/-- A message that is stored under the next number is mirrored by its entry. -/
theorem store (h : Mirrors log x) {m : StoredMessage} {octets : Bytes}
    (hnext : m.sequence = x.lastSeq + 1) (hlt : m.sequence < wordLimit)
    (htime : m.timestamp.IsKept) (hencode : Entry.encode m = .ok octets) :
    Mirrors (log.insert m.sequence octets) (x.commit m) := by
  have hlast : (x.commit m).lastSeq = m.sequence :=
    Nat.max_eq_right (hnext ▸ Nat.le_succ x.lastSeq)
  -- The number of a message is not that of the watermark.
  have hzero : watermarkIndex ≠ m.sequence := by rw [hnext]; exact (Nat.succ_ne_zero _).symm
  refine ⟨hlast ▸ hlt, ?_, fun hget => h.within.store m octets _ _ hget, ?_, ?_⟩
  · intro n w hget
    rw [Index.get?_commit] at hget
    rw [SeqMap.get?_insert]
    split at hget
    · next hn =>
      cases hget
      exact ⟨htime, octets, if_pos hn, hencode⟩
    · next hn =>
      rw [if_neg hn]
      exact h.entry hget
  · intro octets' hget
    rw [SeqMap.get?_insert, if_neg hzero] at hget
    obtain ⟨w, hw, hoctets⟩ := h.watermark hget
    exact ⟨w, hlast ▸ hnext ▸ Nat.le_succ_of_le hw, hoctets⟩
  · refine .inr (.inl ?_)
    -- The message itself vouches for its number.
    rw [hlast, Index.contains, Index.get?_commit, if_pos rfl]
    rfl

end Mirrors

/-! ## The calls of a removal -/

/-- Whether a removal compacts the front of a journal. -/
def compacts (x : Index) (gone : List Nat) : Bool := gone.any (decide <| · < x.firstSeq)

/-- Whether a removal rewrites the watermark. -/
def marks (x : Index) (gone : List Nat) : Bool := compacts x gone || gone.contains x.lastSeq

/-- The call that compacts the front, when it is due. -/
def compaction (ns : String) (x : Index) (gone : List Nat) : List LogCall :=
  if compacts x gone then [.compactBefore ns (x.firstSeq - 1)] else []

/-- The call that rewrites the watermark, when it is due. -/
def marking (ns : String) (x : Index) (gone : List Nat) : List LogCall :=
  if marks x gone then [.append ns [(watermarkIndex, encodeWatermark x.lastSeq)]] else []

/-- The calls that delete what the compaction leaves. -/
def deletions (ns : String) (x : Index) (gone : List Nat) : List LogCall :=
  (gone.filter (x.firstSeq ≤ ·)).map (.deleteEntry ns)

theorem removalCalls_eq (ns : String) (x : Index) (gone : List Nat) :
    removalCalls ns x gone =
      compaction ns x gone ++ (marking ns x gone ++ deletions ns x gone) := by
  cases gone with
  | nil => rfl
  | cons n gone =>
    rw [removalCalls, List.append_assoc]
    rfl

theorem removalCalls_inRange (ns : String) (x : Index) (gone : List Nat) :
    ∀ call ∈ removalCalls ns x gone, call.ns = ns ∧ call.IsInRange := by
  intro call hcall
  rw [removalCalls_eq, List.mem_append, List.mem_append, compaction, marking, deletions] at hcall
  rcases hcall with hcall | hcall | hcall
  · split at hcall
    · obtain rfl := List.mem_singleton.1 hcall
      exact ⟨rfl, trivial⟩
    · cases hcall
  · split at hcall
    · obtain rfl := List.mem_singleton.1 hcall
      exact ⟨rfl, LogCall.isInRange_append (by decide : watermarkIndex < wordLimit)⟩
    · cases hcall
  · obtain ⟨n, -, rfl⟩ := List.mem_map.1 hcall
    exact ⟨rfl, trivial⟩

section Stages

variable {log : SeqMap Bytes} {x y : Index} {gone : List Nat}

theorem get?_compacted (ns : String) (log : SeqMap Bytes) (hpos : 0 < x.firstSeq)
    (gone : List Nat) (n : Nat) :
    (LogCall.effects log (compaction ns x gone)).get? n =
      if compacts x gone = true ∧ n < x.firstSeq then none else log.get? n := by
  rw [compaction]
  cases compacts x gone
  · simp
  · have hfirst : x.firstSeq - 1 + 1 = x.firstSeq := by omega
    simp only [if_true, LogCall.effects_cons, LogCall.effects_nil, LogCall.effect, hfirst,
      SeqMap.get?_startingAt, true_and]
    by_cases hn : n < x.firstSeq
    · rw [if_pos hn, if_neg (Nat.not_le_of_lt hn)]
    · rw [if_neg hn, if_pos (Nat.le_of_not_lt hn)]

theorem get?_marked (ns : String) (log : SeqMap Bytes) (x : Index) (gone : List Nat) (n : Nat) :
    (LogCall.effects log (marking ns x gone)).get? n =
      if marks x gone = true ∧ n = watermarkIndex then some (encodeWatermark x.lastSeq)
      else log.get? n := by
  rw [marking]
  cases marks x gone
  · simp
  · simp [LogCall.effect]

theorem get?_deleted (ns : String) (log : SeqMap Bytes) (x : Index) (gone : List Nat) (n : Nat) :
    (LogCall.effects log (deletions ns x gone)).get? n =
      if n ∈ gone ∧ x.firstSeq ≤ n then none else log.get? n := by
  have hmem : n ∈ gone.filter (x.firstSeq ≤ ·) ↔ n ∈ gone ∧ x.firstSeq ≤ n := by
    rw [List.mem_filter, decide_eq_true_eq]
  have herase := SeqMap.get?_foldl_erase (gone.filter (x.firstSeq ≤ ·)) log n
  rw [deletions, LogCall.effects, List.foldl_map]
  simp only [hmem] at herase
  exact herase

theorem compacts_of_mem {n : Nat} (hn : n ∈ gone) (hlt : n < x.firstSeq) :
    compacts x gone = true := List.any_eq_true.2 ⟨n, hn, decide_eq_true hlt⟩

theorem marks_of_mem (h : x.lastSeq ∈ gone) : marks x gone = true := by
  rw [marks, List.contains_iff_mem.2 h, Bool.or_true]

/-- What a removal leaves of a log: nothing of what went, nothing at the front if that is compacted,
and the watermark if it is rewritten. -/
theorem get?_effects_removalCalls (ns : String) (log : SeqMap Bytes) (hpos : 0 < x.firstSeq)
    (gone : List Nat) (n : Nat) :
    (LogCall.effects log (removalCalls ns x gone)).get? n =
      if n = watermarkIndex then
        if marks x gone = true then some (encodeWatermark x.lastSeq) else log.get? n
      else if n ∈ gone ∨ (compacts x gone = true ∧ n < x.firstSeq) then none
      else log.get? n := by
  have hwatermark : watermarkIndex = 0 := rfl
  rw [removalCalls_eq, LogCall.effects_append, LogCall.effects_append, get?_deleted, get?_marked,
    get?_compacted ns log hpos]
  by_cases hn : n = watermarkIndex
  · -- The watermark is below the first number, so it is not deleted, only compacted away.
    have hlow : ¬x.firstSeq ≤ n := by omega
    rw [if_neg fun h => hlow h.2]
    by_cases hm : marks x gone = true
    · simp [hn, hm]
    · have hc : ¬compacts x gone = true := fun hc => hm (by rw [marks, hc, Bool.true_or])
      simp [hn, hm, hc]
  · -- What went is compacted away or deleted, on whichever side of the first number it was.
    by_cases hg : n ∈ gone
    · by_cases hlow : n < x.firstSeq
      · simp [hn, hg, hlow, compacts_of_mem hg hlow]
      · simp [hn, hg, Nat.le_of_not_lt hlow]
    · simp [hn, hg]

theorem Within.lose (h : Within log x) (hloses : x.Loses gone y) (hpos : 0 < y.firstSeq)
    (ns : String) : Within (LogCall.effects log (removalCalls ns y gone)) y := by
  intro n octets hoctets hne hlt
  rw [get?_effects_removalCalls ns log hpos, if_neg hne] at hoctets
  split at hoctets
  · cases hoctets
  · next hstays =>
    rw [hloses.contains_eq, h n octets hoctets hne hlt]
    simpa using fun hn => hstays (.inl hn)

/-- A removal keeps the mirror, whatever goes. -/
theorem Mirrors.lose (h : Mirrors log x) (hx : x.Sound) (hloses : x.Loses gone y) (ns : String) :
    Mirrors (LogCall.effects log (removalCalls ns y gone)) y := by
  have hy := hloses.sound hx
  have hget := get?_effects_removalCalls ns log hy.firstSeq_pos gone
  have hlast := hloses.lastSeq_eq
  refine ⟨hlast ▸ h.lastSeq_lt, ?_,
    fun hoctets => h.within.lose hloses hy.firstSeq_pos ns _ _ hoctets, ?_, ?_⟩
  · intro n m hm
    obtain ⟨hkept, octets, hoctets, hencode⟩ := h.entry (hloses.get?_of_get? hm)
    refine ⟨hkept, octets, ?_, hencode⟩
    have hne : n ≠ watermarkIndex := Nat.ne_of_gt (hy.pos hm)
    -- A message that stays did not go, and is not below the first number either.
    have hgone : ¬(n ∈ gone ∨ (compacts y gone = true ∧ n < y.firstSeq)) := by
      rintro (hn | ⟨-, hn⟩)
      · rw [hloses.get?_eq_none hn] at hm
        cases hm
      · exact absurd (hy.firstSeq_le hm) (Nat.not_le_of_lt hn)
    rw [hget, if_neg hne, if_neg hgone, hoctets]
  · intro octets hoctets
    rw [hget, if_pos rfl] at hoctets
    split at hoctets
    · cases hoctets
      exact ⟨y.lastSeq, Nat.le_refl _, rfl⟩
    · rw [hlast]
      exact h.watermark hoctets
  · rw [hlast]
    by_cases hmarks : marks y gone = true
    · refine .inr (.inr ?_)
      rw [hget, if_pos rfl, if_pos hmarks, hlast]
    · rw [hget, if_pos rfl, if_neg hmarks]
      rcases h.covered with hzero | hcontains | hwatermark
      · exact .inl hzero
      · -- Without a new watermark the last message did not go.
        refine .inr (.inl ?_)
        have hmem : x.lastSeq ∉ gone := fun hn => hmarks (marks_of_mem (hlast ▸ hn))
        rw [hloses.contains_eq, hcontains]
        simpa using hmem
      · exact .inr (.inr hwatermark)

end Stages

end Journal

/-! ## Changes -/

/-- A call that only reads. -/
def LogCall.IsReading : LogCall → Prop
  | bounds _ | readRange .. => True
  | _ => False

theorem LogCall.effect_of_isReading {call : LogCall} (h : call.IsReading) (log : SeqMap Bytes) :
    (call.effect log).2 = log := by
  cases call with
  | bounds ns => rfl
  | readRange ns start stop => rfl
  | _ => exact h.elim

theorem LogCall.isInRange_of_isReading {call : LogCall} (h : call.IsReading) :
    call.IsInRange := by
  cases call with
  | bounds ns => trivial
  | readRange ns start stop => trivial
  | _ => exact h.elim

/-- What happens to an index while calls about its journal succeed one after the other: the journal
is read, a message is stored under the next number, or messages go. -/
inductive Journal.Changes (ns : String) (x : Index) : List LogCall → Index → Prop where
  | refl : Changes ns x [] x
  | read {calls : List LogCall} {y : Index} {call : LogCall} (run : Changes ns x calls y)
      (hns : call.ns = ns) (hread : call.IsReading) : Changes ns x (calls ++ [call]) y
  | store {calls : List LogCall} {y : Index} {m : StoredMessage} {octets : Bytes}
      (run : Changes ns x calls y) (hnext : m.sequence = y.lastSeq + 1)
      (hlt : m.sequence < wordLimit) (htime : m.timestamp.IsKept)
      (hencode : Entry.encode m = .ok octets) :
      Changes ns x (calls ++ [.append ns [(m.sequence, octets)]]) (y.commit m)
  | lose {calls : List LogCall} {y z : Index} {gone : List Nat} (run : Changes ns x calls y)
      (h : y.Loses gone z) : Changes ns x (calls ++ removalCalls ns z gone) z

namespace Journal.Changes

variable {ns : String} {x y z : Index} {log : SeqMap Bytes} {calls calls' : List LogCall}

theorem trans (h : Changes ns x calls y) (h' : Changes ns y calls' z) :
    Changes ns x (calls ++ calls') z := by
  induction h' with
  | refl => rwa [List.append_nil]
  | read run hns hread ih => rw [← List.append_assoc]; exact ih.read hns hread
  | store run hnext hlt htime hencode ih =>
    rw [← List.append_assoc]
    exact ih.store hnext hlt htime hencode
  | lose run h ih => rw [← List.append_assoc]; exact ih.lose h

theorem inRange (h : Changes ns x calls y) : ∀ call ∈ calls, call.ns = ns ∧ call.IsInRange := by
  induction h with
  | refl => simp
  | @read _ _ call run hns hread ih =>
    intro c hc
    rcases List.mem_append.1 hc with hc | hc
    · exact ih c hc
    · obtain rfl := List.mem_singleton.1 hc
      exact ⟨hns, LogCall.isInRange_of_isReading hread⟩
  | store run hnext hlt htime hencode ih =>
    intro c hc
    rcases List.mem_append.1 hc with hc | hc
    · exact ih c hc
    · obtain rfl := List.mem_singleton.1 hc
      exact ⟨rfl, LogCall.isInRange_append hlt⟩
  | lose run h ih =>
    intro c hc
    rcases List.mem_append.1 hc with hc | hc
    · exact ih c hc
    · exact removalCalls_inRange ns _ _ c hc

theorem sound (h : Changes ns x calls y) (hx : x.Sound) : y.Sound := by
  induction h with
  | refl => exact hx
  | read run hns hread ih => exact ih
  | store run hnext hlt htime hencode ih => exact ih.commit (hnext ▸ Nat.lt_succ_self _)
  | lose run h ih => exact h.sound ih

/-- **Changes keep the mirror.** -/
theorem mirrors (h : Changes ns x calls y) (hx : x.Sound) (hlog : Mirrors log x) :
    Mirrors (LogCall.effects log calls) y := by
  induction h with
  | refl => exact hlog
  | read run hns hread ih =>
    rw [LogCall.effects_append, LogCall.effects_cons, LogCall.effect_of_isReading hread]
    exact ih
  | store run hnext hlt htime hencode ih =>
    rw [LogCall.effects_append]
    exact ih.store hnext hlt htime hencode
  | lose run h ih =>
    rw [LogCall.effects_append]
    exact ih.lose (run.sound hx) h ns

/-- Changes bring nothing into the journal that is not in the index. -/
theorem within (h : Changes ns x calls y) (hx : x.Sound) (hlog : Within log x) :
    Within (LogCall.effects log calls) y := by
  induction h with
  | refl => exact hlog
  | read run hns hread ih =>
    rw [LogCall.effects_append, LogCall.effects_cons, LogCall.effect_of_isReading hread]
    exact ih
  | store run hnext hlt htime hencode ih =>
    rw [LogCall.effects_append]
    exact ih.store _ _
  | lose run h ih =>
    rw [LogCall.effects_append]
    exact ih.lose h (h.sound (run.sound hx)).firstSeq_pos ns

end Journal.Changes

section Runs

variable {ns : String} {x y : Index} {b b' : Backend} {ms : List StoredMessage}
  {log : SeqMap Bytes}

/-- The steps of a log are changes on a backend whose calls succeed. -/
theorem LogRun.exists_changes (h : LogRun (some ns) x b ms y b') (hb : b.Keeps ns log) :
    ∃ calls, Journal.Changes ns x calls y ∧ b' = (b.performAll calls).2 := by
  induction h with
  | refl => exact ⟨[], .refl, rfl⟩
  | step run h ih =>
    obtain ⟨calls, changes, rfl⟩ := ih
    have hb' := (hb.performAll changes.inRange).2
    cases h with
    | @store _ _ m hnext hlt htime h =>
      cases h with
      | @journaled _ octets _ _ reply hencode h =>
        refine ⟨_, changes.store hnext hlt htime hencode, ?_⟩
        rw [hb.performAll_append changes.inRange]
        simp only [Backend.performAll, h]
    | lose h =>
      refine ⟨_, changes.lose h, ?_⟩
      rw [hb.performAll_append changes.inRange]
      rfl
    -- A call that fails is impossible on such a backend.
    | @fail _ ns' entry e hjournal hlt h =>
      obtain rfl := Option.some.inj hjournal
      have hok := (hb'.perform (.append ns [entry]) (LogCall.isInRange_append hlt)).1
      rw [h] at hok
      cases hok

/-- The steps of a log keep the mirror on a backend whose calls succeed. -/
theorem LogRun.mirrors (h : LogRun (some ns) x b ms y b') (hx : x.Sound)
    (hb : b.Keeps ns log) (hlog : Journal.Mirrors log x) :
    y.Sound ∧ ∃ log', b'.Keeps ns log' ∧ Journal.Mirrors log' y := by
  obtain ⟨calls, changes, rfl⟩ := h.exists_changes hb
  exact ⟨changes.sound hx, _, (hb.performAll changes.inRange).2, changes.mirrors hx hlog⟩

/-- The steps of a log bring nothing into the journal that is not in the index. -/
theorem LogRun.within (h : LogRun (some ns) x b ms y b') (hx : x.Sound)
    (hb : b.Keeps ns log) (hlog : Journal.Within log x) :
    ∃ log', b'.Keeps ns log' ∧ Journal.Within log' y := by
  obtain ⟨calls, changes, rfl⟩ := h.exists_changes hb
  exact ⟨_, (hb.performAll changes.inRange).2, changes.within hx hlog⟩

end Runs

/-! ## What a mirror gives back -/

namespace Journal

variable {log : SeqMap Bytes} {x : Index} {r : Recovered}

theorem encodeWatermark_inj {v w : Nat} (hv : v < wordLimit) (hw : w < wordLimit)
    (h : encodeWatermark v = encodeWatermark w) : v = w := by
  have hdecode := decode_encodeWatermark hv
  rw [h, decode_encodeWatermark hw] at hdecode
  exact (Except.ok.inj hdecode).symm

namespace Recovers

/-- The index of what was recovered has the messages that are read. -/
theorem get?_restore_iff (hr : Recovers log r) {n : Nat} {m : StoredMessage} :
    (Index.restore r.messages r.watermark).get? n = some m ↔
      MessageAt log n m ∧ m.sequence = n := by
  rw [Index.get?_restore_eq_some_iff hr.ascending, hr.mem_iff]
  constructor
  · rintro ⟨hm, rfl⟩
    exact ⟨hm, rfl⟩
  · rintro ⟨hm, rfl⟩
    exact ⟨hm, rfl⟩

theorem restore_sound (hr : Recovers log r) : (Index.restore r.messages r.watermark).Sound :=
  Index.restore_sound hr.ascending
    (fun m hm => Nat.pos_of_ne_zero ((hr.mem_iff m).1 hm).1) r.watermark

/-- What is read of a log is in the index of what was recovered from it. -/
theorem within_restore (hr : Recovers log r) (hlog : Readable log) :
    Within log (Index.restore r.messages r.watermark) := by
  intro n octets hget hne hlt
  obtain ⟨m, rfl, hdecode⟩ := hlog.message hget hne hlt
  exact Index.contains_iff.2 ⟨m, hr.get?_restore_iff.2 ⟨⟨hne, hlt, octets, hget, hdecode⟩, rfl⟩⟩

/-- The last number of what was recovered from a mirror reaches a number exactly if a message of the
index that is read does, or the watermark. -/
theorem le_lastSeq_iff (hr : Recovers log r) (h : Mirrors log x) (hx : x.Sound) {n : Nat}
    (hn : 0 < n) :
    n ≤ (Index.restore r.messages r.watermark).lastSeq ↔
      (∃ k m, n ≤ k ∧ k < lastIndex ∧ x.get? k = some m) ∨
      ∃ w, n ≤ w ∧ w ≤ x.lastSeq ∧ log.get? watermarkIndex = some (encodeWatermark w) := by
  rw [Index.le_lastSeq_restore_iff hn]
  constructor
  · rintro (⟨m, hm, hle⟩ | hle)
    · -- The number is that of a message: the index has it.
      obtain ⟨hget, hlt⟩ := (h.messageAt_iff hx).1 ((hr.mem_iff m).1 hm)
      exact .inl ⟨m.sequence, m, hle, hlt, hget⟩
    · -- The number is the watermark: a mirror has none above the index.
      rcases hr.watermark with ⟨-, hzero⟩ | ⟨hlt, hget⟩
      · omega
      · obtain ⟨w, hw, hoctets⟩ := h.watermark hget
        obtain hwatermark := encodeWatermark_inj hlt (Nat.lt_of_le_of_lt hw h.lastSeq_lt) hoctets
        exact .inr ⟨r.watermark, hle, hwatermark ▸ hw, hget⟩
  · rintro (⟨k, m, hle, hlt, hget⟩ | ⟨w, hle, hw, hget⟩)
    · have hsequence := hx.sequence_eq hget
      have hmessage := (h.messageAt_iff hx).2 ⟨hget, hlt⟩
      exact .inl ⟨m, (hr.mem_iff m).2 (hsequence ▸ hmessage), hsequence ▸ hle⟩
    · rcases hr.watermark with ⟨hnone, -⟩ | ⟨hlt, hsome⟩
      · rw [hnone] at hget
        cases hget
      · rw [hget, Option.some.injEq] at hsome
        have hwatermark := encodeWatermark_inj (Nat.lt_of_le_of_lt hw h.lastSeq_lt) hlt hsome
        exact .inr (hwatermark ▸ hle)

/-- What was recovered from a mirror is mirrored again. -/
theorem mirrors_restore (hr : Recovers log r) (h : Mirrors log x) (hx : x.Sound)
    (hlt : (Index.restore r.messages r.watermark).lastSeq < wordLimit) :
    Mirrors log (Index.restore r.messages r.watermark) where
  lastSeq_lt := hlt
  entry hm := h.entry ((h.messageAt_iff hx).1 (hr.get?_restore_iff.1 hm).1).1
  message hget hne hread := by
    obtain ⟨m, hm⟩ := Index.contains_iff.1 (h.message hget hne hread)
    have hmessage := (h.messageAt_iff hx).2 ⟨hm, hread⟩
    exact Index.contains_iff.2 ⟨m, hr.get?_restore_iff.2 ⟨hmessage, hx.sequence_eq hm⟩⟩
  watermark hget := by
    rcases hr.watermark with ⟨hnone, -⟩ | ⟨-, hsome⟩
    · rw [hnone] at hget
      cases hget
    · refine ⟨r.watermark, Nat.le_max_right _ _, ?_⟩
      exact (Option.some.inj (hsome.symm.trans hget)).symm
  covered := by
    rcases Nat.eq_zero_or_pos (Index.restore r.messages r.watermark).lastSeq with hzero | hpos
    · exact .inl hzero
    · -- The last number is that of the last message, or the watermark itself.
      rcases (Index.le_lastSeq_restore_iff hpos).1 (Nat.le_refl _) with ⟨m, hm, hle⟩ | hle
      · have hget := hr.get?_restore_iff.2 ⟨(hr.mem_iff m).1 hm, rfl⟩
        have heq := Nat.le_antisymm hle (hr.restore_sound.le_lastSeq hget)
        exact .inr (.inl (Index.contains_iff.2 ⟨m, heq ▸ hget⟩))
      · have heq := Nat.le_antisymm hle (Nat.le_max_right _ _)
        rcases hr.watermark with ⟨-, hzero⟩ | ⟨-, hsome⟩
        · omega
        · exact .inr (.inr (by rw [heq]; exact hsome))

section BelowLargest

variable (hr : Recovers log r) (h : Mirrors log x) (hx : x.Sound) (hlt : x.lastSeq + 1 < wordLimit)

include hlt in
/-- No number of the index is at the end of what is read. -/
theorem lt_lastIndex {n : Nat} (hn : n ≤ x.lastSeq) : n < lastIndex := by
  have hlast : lastIndex = wordLimit - 1 := rfl
  omega

include hr h hx hlt

theorem messages_restore : (Index.restore r.messages r.watermark).messages = x.messages := by
  apply SeqMap.ext_get?
  intro n
  ext m
  apply hr.get?_restore_iff.trans
  rw [h.messageAt_iff hx]
  constructor
  · rintro ⟨⟨hget, -⟩, -⟩
    exact hget
  · intro hget
    exact ⟨⟨hget, lt_lastIndex hlt (hx.le_lastSeq hget)⟩, hx.sequence_eq hget⟩

/-- Nothing that is read is above the last number of the index, and what covers it is read. -/
theorem lastSeq_restore : (Index.restore r.messages r.watermark).lastSeq = x.lastSeq := by
  apply Nat.le_antisymm
  · rcases Nat.eq_zero_or_pos (Index.restore r.messages r.watermark).lastSeq with hzero | hpos
    · omega
    · rcases (hr.le_lastSeq_iff h hx hpos).1 (Nat.le_refl _) with
        ⟨k, m, hle, -, hget⟩ | ⟨w, hle, hw, -⟩
      · exact Nat.le_trans hle (hx.le_lastSeq hget)
      · exact Nat.le_trans hle hw
  · rcases Nat.eq_zero_or_pos x.lastSeq with hzero | hpos
    · omega
    · rw [hr.le_lastSeq_iff h hx hpos]
      rcases h.covered with hzero | hcontains | hwatermark
      · omega
      · obtain ⟨m, hm⟩ := Index.contains_iff.1 hcontains
        exact .inl ⟨x.lastSeq, m, Nat.le_refl _, lt_lastIndex hlt (Nat.le_refl _), hm⟩
      · exact .inr ⟨x.lastSeq, Nat.le_refl _, Nat.le_refl _, hwatermark⟩

/-- Below the largest number what was recovered from a mirror is the index. -/
theorem agrees_restore : (Index.restore r.messages r.watermark).Agrees x :=
  hr.restore_sound.agrees hx (messages_restore hr h hx hlt) (lastSeq_restore hr h hx hlt)

end BelowLargest

end Recovers

end Journal

namespace Stream

variable {settings : StreamSettings} {ns : String} {b : Backend} {log : SeqMap Bytes} {x : Index}

/-- **A mirror gives back its index below the largest number, and only there.** -/
theorem reread_agrees_iff (hns : settings.journal? = some ns) (hb : b.Keeps ns log)
    (hlog : Journal.Mirrors log x) (hx : x.Sound) :
    (∃ y b', reread settings b = (.ok y, b') ∧ y.Agrees x) ↔ x.lastSeq + 1 < wordLimit := by
  constructor
  · rintro ⟨y, b', hread, hagrees⟩
    exact hagrees.lastSeq ▸ lastSeq_of_reread hread
  · intro hlt
    obtain ⟨r, b', hr, -, hread⟩ := reread_spec hns hb (hlog.readable hx)
    have hagrees := hr.agrees_restore hlog hx hlt
    rw [if_neg (Nat.not_le_of_lt (hagrees.lastSeq ▸ hlt))] at hread
    exact ⟨_, b', hread, hagrees⟩

/-- What a mirror gives back is mirrored again, also where it is not its index. -/
theorem mirrors_of_reread {y : Index} {b' : Backend} (hns : settings.journal? = some ns)
    (hb : b.Keeps ns log) (hlog : Journal.Mirrors log x) (hx : x.Sound)
    (h : reread settings b = (.ok y, b')) :
    y.Sound ∧ b'.Keeps ns log ∧ Journal.Mirrors log y := by
  have hlt := lastSeq_of_reread h
  obtain ⟨r, b₁, hr, hb₁, hread⟩ := reread_spec hns hb (hlog.readable hx)
  rw [h] at hread
  obtain ⟨hy, rfl⟩ := Prod.mk.inj hread
  split at hy
  · cases hy
  · cases hy
    exact ⟨hr.restore_sound, hb₁, hr.mirrors_restore hlog hx (Nat.lt_of_succ_lt hlt)⟩

end Stream

end StreamBroker
