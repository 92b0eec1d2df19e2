import StreamBroker.ObjectBucket.Description
import StreamBroker.Proofs.Json.Records
import StreamBroker.Proofs.Json.RoundTrip
import StreamBroker.Proofs.Timestamp.Text

/-!
# Descriptions are read back

The stored form of a description is the text of a document, and a description is read back from it
if its numbers have sixty-four bits and the calendar has the date of the last change.

## Main definitions

* `ObjectDescription.IsKept`: what a description has to be

## Main results

* `ObjectDescription.ofStored?_encode`: a description is read back
* `ObjectDescription.lt_of_ofStored?`: the numbers of what is read have sixty-four bits
-/

namespace StreamBroker

open Json.Decoder Json.RecordDecoder

namespace ObjectDescription

/-- A description whose numbers have sixty-four bits, and that was changed at a date of the
calendar, outside leap seconds. -/
structure IsKept (d : ObjectDescription) : Prop where
  /-- The size has sixty-four bits. -/
  size_lt : d.size < wordLimit
  /-- The number of chunks has sixty-four bits. -/
  chunks_lt : d.chunks < wordLimit
  /-- The calendar has the date. -/
  inCalendar : Timestamp.inCalendar d.modified.micros = true
  /-- The date is outside leap seconds. -/
  nanos_lt : d.modified.nanos < 1000000000

variable {d : ObjectDescription}

theorem isExact_toJson (d : ObjectDescription) : d.toJson.isExact = true := by
  cases h : d.description with
  | none => rw [toJson, h]; rfl
  | some _ => rw [toJson, h]; rfl

/-- A description is read from its document. -/
theorem decode_toJson (h : d.IsKept) : decode d.toJson = .ok d := by
  have hdescription : text.option (.ofOption .str d.description) = .ok d.description := by
    cases d.description with
    | none => rfl
    | some _ => rfl
  have hword {n : Nat} (hn : n < wordLimit) : word (.ofNat n) = .ok n := by
    have hrange : 0 ≤ (n : Int) ∧ (n : Int) < wordLimit := ⟨Int.natCast_nonneg n, Int.ofNat_lt.2 hn⟩
    rw [word, Json.ofNat, Json.toWord?, if_pos hrange]
    rfl
  have hmodified : timestamp (.ofTimestamp d.modified) = .ok d.modified := by
    show ofOption (Timestamp.parse? d.modified.render) = _
    rw [Timestamp.parse?_render h.inCalendar h.nanos_lt]
    rfl
  have hmembers : d.toJson = .obj ([("name", Json.str d.name)] ++
      [("description", Json.ofOption Json.str d.description)] ++ [("bucket", Json.str d.bucket)] ++
      [("nuid", Json.str d.nuid)] ++ [("size", Json.ofNat d.size)] ++
      [("chunks", Json.ofNat d.chunks)] ++ [("modified", Json.ofTimestamp d.modified)] ++
      [("digest", Json.str d.digest)] ++ [("deleted", Json.bool d.deleted)]) := rfl
  rw [decode, hmembers]
  have htext (s : String) : text (.str s) = .ok s := rfl
  have hdeleted : Json.Decoder.bool (.bool d.deleted) = .ok d.deleted := rfl
  refine Reads.record ?_ (by decide +kernel)
  exact (((((((((reads_required (htext _)).map mk).seq (reads_nullable hdescription)).seq
    (reads_required (htext _))).seq (reads_required (htext _))).seq
    (reads_required (hword h.size_lt))).seq (reads_required (hword h.chunks_lt))).seq
    (reads_required hmodified)).seq (reads_required (htext _))).seq (reads_defaulted hdeleted)

/-- **A description is read back from its stored form.** -/
theorem ofStored?_encode (h : d.IsKept) : ofStored? d.encode = some d := by
  rw [ofStored?, encode, Json.parseBytes?_compact d.isExact_toJson, Option.bind_eq_bind,
    Option.bind_some, decode_toJson h]
  rfl

/-- The numbers of a description that is read have sixty-four bits. -/
theorem lt_of_ofStored? {octets : Bytes} (h : ofStored? octets = some d) :
    d.size < wordLimit ∧ d.chunks < wordLimit := by
  have hword {v : Json} {n : Nat} (hn : word v = .ok n) : n < wordLimit := by
    cases v with
    | int i =>
      simp only [word, Json.toWord?] at hn
      split at hn
      · next hrange =>
        obtain ⟨hpos, hlt⟩ := hrange
        cases hn
        omega
      · cases hn
    | null | bool | decimal | str | garbled | arr | obj => cases hn
  obtain ⟨v, -, hv⟩ := Option.bind_eq_some_iff.1 h
  have hv : decode v = .ok d := by
    cases hdecode : decode v with
    | error e =>
      rw [hdecode] at hv
      cases hv
    | ok e =>
      rw [hdecode] at hv
      exact congrArg _ (Option.some.inj hv)
  -- The fields are taken off from the last to the first.
  obtain ⟨fields, h₀⟩ := exists_run_of_record hv
  obtain ⟨_, _, h₁, -, rfl⟩ := exists_run_of_seq h₀
  obtain ⟨_, _, h₂, -, rfl⟩ := exists_run_of_seq h₁
  obtain ⟨_, _, h₃, -, rfl⟩ := exists_run_of_seq h₂
  obtain ⟨_, chunks, h₄, hchunks, rfl⟩ := exists_run_of_seq h₃
  obtain ⟨_, size, h₅, hsize, rfl⟩ := exists_run_of_seq h₄
  obtain ⟨_, _, h₆, -, rfl⟩ := exists_run_of_seq h₅
  obtain ⟨_, _, h₇, -, rfl⟩ := exists_run_of_seq h₆
  obtain ⟨_, _, h₈, -, rfl⟩ := exists_run_of_seq h₇
  obtain ⟨_, -, rfl⟩ := exists_run_of_map h₈
  obtain ⟨_, hsize⟩ := exists_of_run_required hsize
  obtain ⟨_, hchunks⟩ := exists_of_run_required hchunks
  exact ⟨hword hsize, hword hchunks⟩

end ObjectDescription

end StreamBroker
