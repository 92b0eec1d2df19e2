import StreamBroker.Proofs.Entry.RoundTrip
import StreamBroker.Proofs.Index.Sound
import StreamBroker.Proofs.LogStore.Holds
import StreamBroker.Proofs.Stream.Moves

/-!
# What a journal gives back

Reading a journal takes three calls, and what they find is determined by the log: the messages of
the entries above the watermark, as far as they are read, and the watermark.  Entries are read up to
below the largest number of sixty-four bits; an entry under that number itself is never read.

## Main definitions

* `Journal.Readable`: every entry of a log that is read is one of its number
* `Journal.MessageAt`: a log holds a message where it is read

## Main results

* `Journal.recover_spec`: the messages and the watermark that a readable log gives back
* `Stream.reread_spec`: the index that it gives back
-/

namespace StreamBroker

namespace Journal

variable {b : Backend} {ns : String} {log : SeqMap Bytes}

/-- A log holds a message in an entry that is read. -/
def MessageAt (log : SeqMap Bytes) (n : Nat) (m : StoredMessage) : Prop :=
  n ≠ watermarkIndex ∧ n < lastIndex ∧ ∃ octets, log.get? n = some octets ∧
    Entry.decode octets = .ok m

/-- Every entry of a log that is read is a message of its number, and the watermark is one. -/
structure Readable (log : SeqMap Bytes) : Prop where
  /-- The entries above the watermark are messages. -/
  message : ∀ {n octets}, log.get? n = some octets → n ≠ watermarkIndex → n < lastIndex →
    ∃ m, m.sequence = n ∧ Entry.decode octets = .ok m
  /-- The watermark is a number. -/
  watermark : ∀ {octets}, log.get? watermarkIndex = some octets →
    ∃ w, w < wordLimit ∧ octets = encodeWatermark w

theorem decode_encodeWatermark {w : Nat} (h : w < wordLimit) :
    decodeWatermark (encodeWatermark w) = .ok w := by
  rw [decodeWatermark, encodeWatermark, Bytes.length_ofNat, if_pos rfl, Bytes.toNat_ofNat h]

/-! ## The entries that are read -/

/-- The watermark of a log without an entry for it is none, and else the number of the entry. -/
theorem watermarkOf_spec (hlog : Readable log) :
    ∃ w, watermarkOf (log.entries.filter fun e =>
        watermarkIndex ≤ e.1 && e.1 < watermarkIndex + 1) = .ok w ∧
      (log.get? watermarkIndex = none ∧ w = 0 ∨
        w < wordLimit ∧ log.get? watermarkIndex = some (encodeWatermark w)) := by
  cases hes : log.entries.filter fun e => watermarkIndex ≤ e.1 && e.1 < watermarkIndex + 1 with
  | nil =>
    refine ⟨0, rfl, .inl ⟨?_, rfl⟩⟩
    cases hw : log.get? watermarkIndex with
    | none => rfl
    | some octets =>
      -- An entry would have been read.
      have hmem : (watermarkIndex, octets) ∈
          log.entries.filter fun e => watermarkIndex ≤ e.1 && e.1 < watermarkIndex + 1 :=
        List.mem_filter.2 ⟨log.mem_entries_iff.2 hw, rfl⟩
      rw [hes] at hmem
      cases hmem
  | cons e es =>
    have hmem : e ∈ log.entries.filter fun e =>
        watermarkIndex ≤ e.1 && e.1 < watermarkIndex + 1 := hes ▸ List.mem_cons_self
    obtain ⟨he, hindex⟩ := List.mem_filter.1 hmem
    simp only [Bool.and_eq_true, decide_eq_true_eq] at hindex
    -- The range holds one number, so what was read is the watermark.
    have hget : log.get? watermarkIndex = some e.2 :=
      log.mem_entries_iff.1 (Nat.le_antisymm hindex.1 (Nat.le_of_lt_succ hindex.2) ▸ he)
    obtain ⟨w, hw, hoctets⟩ := hlog.watermark hget
    refine ⟨w, ?_, .inr ⟨hw, hoctets ▸ hget⟩⟩
    rw [watermarkOf, hoctets, decode_encodeWatermark hw]
    rfl

theorem messagesOf_eq_ok {es : List (Nat × Bytes)}
    (hes : ∀ e ∈ es, ∃ m, m.sequence = e.1 ∧ Entry.decode e.2 = .ok m) :
    ∃ ms, messagesOf es = .ok ms ∧ ms.map (·.sequence) = es.map (·.1) ∧
      ∀ m, m ∈ ms ↔ ∃ e ∈ es, Entry.decode e.2 = .ok m := by
  induction es with
  | nil => exact ⟨[], rfl, rfl, by simp⟩
  | cons e es ih =>
    obtain ⟨m, hsequence, hm⟩ := hes e List.mem_cons_self
    obtain ⟨ms, hms, hmap, hmem⟩ := ih fun d hd => hes d (List.mem_cons_of_mem e hd)
    refine ⟨m :: ms, ?_, by simp [hsequence, hmap], ?_⟩
    · rw [messagesOf, List.mapM_cons, hm]
      refine except_bind_eq_ok.2 ⟨m, rfl, ?_⟩
      exact except_bind_eq_ok.2 ⟨ms, hms, rfl⟩
    · intro w
      simp only [List.mem_cons, hmem, exists_eq_or_imp, hm, Except.ok.injEq]
      rw [eq_comm (a := w)]

/-- The entries between the bounds of a log that are read are those above the watermark and below
the largest number. -/
theorem mem_read_iff {first last : Nat} (h : LogCall.boundsOf log = some (first, last))
    (e : Nat × Bytes) :
    e ∈ log.entries.filter (fun e => max first (watermarkIndex + 1) ≤ e.1 &&
        e.1 < min (last + 1) lastIndex) ↔
      log.get? e.1 = some e.2 ∧ e.1 ≠ watermarkIndex ∧ e.1 < lastIndex := by
  rw [LogCall.boundsOf] at h
  cases hf : log.first? with
  | none =>
    rw [hf] at h
    cases h
  | some f =>
    cases hl : log.last? with
    | none =>
      rw [hf, hl] at h
      cases h
    | some l =>
      rw [hf, hl] at h
      cases h
      have hfirst := (SeqMap.first?_eq_some_iff.1 hf).2 e.1 e.2
      have hlast := (SeqMap.last?_eq_some_iff.1 hl).2 e.1 e.2
      -- Every entry is between the bounds, so only the watermark and the largest number are cut.
      rw [List.mem_filter, log.mem_entries_iff]
      simp only [watermarkIndex, Bool.and_eq_true, decide_eq_true_eq, Nat.max_le, Nat.lt_min]
      constructor
      · rintro ⟨he, ⟨-, hpos⟩, -, hlt⟩
        exact ⟨he, by omega, hlt⟩
      · rintro ⟨he, hne, hlt⟩
        have := hfirst he
        have := hlast he
        exact ⟨he, ⟨by omega, by omega⟩, by omega, hlt⟩

theorem boundsOf_eq_none_iff :
    LogCall.boundsOf log = none ↔ ∀ n, log.get? n = none := by
  rw [← SeqMap.isEmpty_iff, LogCall.boundsOf]
  cases hf : log.first? with
  | none => simp [SeqMap.first?_eq_none_iff.1 hf]
  | some f =>
    cases hl : log.last? with
    | none => simp [SeqMap.last?_eq_none_iff.1 hl]
    | some l =>
      have hne : ¬log.isEmpty = true := fun h => by
        rw [SeqMap.first?_eq_none_iff.2 h] at hf
        cases hf
      simp [hne]

/-! ## Recovery -/

/-- What is recovered from a log are the messages of the entries that are read, in ascending order,
and the watermark. -/
structure Recovers (log : SeqMap Bytes) (r : Recovered) : Prop where
  /-- The messages come in the order of their numbers. -/
  ascending : r.messages.Pairwise fun a b => a.sequence < b.sequence
  /-- The messages are those of the entries that are read. -/
  mem_iff : ∀ m, m ∈ r.messages ↔ MessageAt log m.sequence m
  /-- The watermark is that of the log, if it has one. -/
  watermark : log.get? watermarkIndex = none ∧ r.watermark = 0 ∨
    r.watermark < wordLimit ∧ log.get? watermarkIndex = some (encodeWatermark r.watermark)

theorem recovers_of_read {w : Nat} {es : List (Nat × Bytes)} {ms : List StoredMessage}
    (hlog : Readable log) (hw : log.get? watermarkIndex = none ∧ w = 0 ∨
      w < wordLimit ∧ log.get? watermarkIndex = some (encodeWatermark w))
    (hasc : (es.map (·.1)).Pairwise (· < ·))
    (hes : ∀ e, e ∈ es ↔ log.get? e.1 = some e.2 ∧ e.1 ≠ watermarkIndex ∧ e.1 < lastIndex)
    (hmap : ms.map (·.sequence) = es.map (·.1))
    (hmem : ∀ m, m ∈ ms ↔ ∃ e ∈ es, Entry.decode e.2 = .ok m) : Recovers log ⟨ms, w⟩ where
  ascending := by
    rw [← hmap, List.pairwise_map] at hasc
    exact hasc
  mem_iff m := by
    rw [hmem]
    constructor
    · rintro ⟨e, he, hm⟩
      obtain ⟨hget, hne, hlt⟩ := (hes e).1 he
      obtain ⟨w, hsequence, hw⟩ := hlog.message hget hne hlt
      -- An entry is read as one message, and that has its number.
      obtain rfl : w = m := Except.ok.inj (hw.symm.trans hm)
      exact ⟨hsequence ▸ hne, hsequence ▸ hlt, e.2, hsequence ▸ hget, hm⟩
    · rintro ⟨hne, hlt, octets, hget, hm⟩
      exact ⟨(m.sequence, octets), (hes _).2 ⟨hget, hne, hlt⟩, hm⟩
  watermark := hw

/-- **A readable log is recovered**, and kept as it is. -/
theorem recover_spec (hb : b.Keeps ns log) (hlog : Readable log) :
    ∃ r b', recover ns b = (.ok r, b') ∧ b'.Keeps ns log ∧ Recovers log r := by
  obtain ⟨hread, hb₁⟩ := hb.perform (.readRange ns watermarkIndex (watermarkIndex + 1)) trivial
  obtain ⟨w, hw, hwatermark⟩ := watermarkOf_spec hlog
  cases hp : b.perform (.readRange ns watermarkIndex (watermarkIndex + 1)) with
  | mk reply b₁ =>
    rw [hp] at hread hb₁
    obtain rfl : reply = _ := hread
    -- The watermark is known; the bounds say what else is to be read.
    obtain ⟨hbounds, hb₂⟩ := hb₁.perform (.bounds ns) trivial
    have hfront : recover ns b = recoverMessages ns w b₁ := by
      simp only [recover, Backend.readRange, hp, LogCall.effect, Except.map, LogReply.entryList, hw]
    rw [hfront]
    cases hp₂ : b₁.perform (.bounds ns) with
    | mk reply b₂ =>
      rw [hp₂] at hbounds hb₂
      obtain rfl : reply = _ := hbounds
      have hbound : b₁.bounds ns = (.ok (LogCall.boundsOf log), b₂) := by
        simp only [Backend.bounds, hp₂, LogCall.effect, Except.map, LogReply.bounds?]
      cases hbs : LogCall.boundsOf log with
      | none =>
        -- Without bounds the log is empty, and nothing is read.
        have hnone := boundsOf_eq_none_iff.1 hbs
        refine ⟨⟨[], w⟩, b₂, by simp only [recoverMessages, hbound, hbs], hb₂, ?_⟩
        have hes (e : Nat × Bytes) : e ∈ [] ↔
            log.get? e.1 = some e.2 ∧ e.1 ≠ watermarkIndex ∧ e.1 < lastIndex := by simp [hnone]
        exact recovers_of_read hlog hwatermark .nil hes rfl (by simp)
      | some bs =>
        obtain ⟨first, last⟩ := bs
        have hes := mem_read_iff hbs
        obtain ⟨ms, hms, hmap, hmem⟩ := messagesOf_eq_ok fun e he =>
          hlog.message ((hes e).1 he).1 ((hes e).1 he).2.1 ((hes e).1 he).2.2
        obtain ⟨hread₂, hb₃⟩ := hb₂.perform
          (.readRange ns (max first (watermarkIndex + 1)) (min (last + 1) lastIndex)) trivial
        refine ⟨⟨ms, w⟩, _, ?_, hb₃, ?_⟩
        · simp only [recoverMessages, hbound, hbs, Backend.readRange]
          rw [hread₂]
          simp only [LogCall.effect, Except.map, LogReply.entryList, hms]
        · refine recovers_of_read hlog hwatermark ?_ hes hmap hmem
          exact List.pairwise_map.2 (log.ascending.filter _)

end Journal

/-! ## The index that is read back -/

namespace Stream

variable {b : Backend} {log : SeqMap Bytes} {settings : StreamSettings} {ns : String}

/-- What is read back from a readable log is the index of its messages, unless the number behind the
last one does not exist. -/
theorem reread_spec (hns : settings.journal? = some ns) (hb : b.Keeps ns log)
    (hlog : Journal.Readable log) :
    ∃ r b', Journal.Recovers log r ∧ b'.Keeps ns log ∧
      reread settings b = (if wordLimit ≤ (Index.restore r.messages r.watermark).lastSeq + 1
        then .error .numbersExhausted else .ok (Index.restore r.messages r.watermark), b') := by
  have hfile : settings.storage = .file := by
    by_cases h : settings.storage = .file
    · exact h
    · rw [StreamSettings.journal?, if_neg h] at hns
      cases hns
  rw [StreamSettings.journal?, if_pos hfile, Option.some.injEq] at hns
  obtain ⟨r, b', hrecover, hb', hr⟩ := Journal.recover_spec hb hlog
  refine ⟨r, b', hr, hb', ?_⟩
  simp only [reread, recovered, hfile, hns, hrecover]
  split <;> rfl

end Stream

end StreamBroker
