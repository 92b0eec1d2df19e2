import StreamBroker.Proofs.Entry.RoundTrip

/-!
# Which messages have a binary form

A part of a message has a binary form exactly when its length fits the octets in front of it, and a
message has one exactly when its parts do.  The names that are written as a kind have no length, so
they are no part.

## Main definitions

* `Entry.HeaderFits`, `Entry.Fits`: the lengths of a header and of a message fit their octets
* `StoredMessage.IsExact`: a message loses nothing of its number and its time in an entry

## Main results

* `Entry.exists_encode_iff`: a message has a binary form exactly when its parts fit
* `Entry.survives`: when it has one, it is read back
-/

namespace StreamBroker

/-- An entry holds the number of a message and its time exactly: the number has eight octets, and
the time is one of whole microseconds, outside a leap second, that the calendar has. -/
structure StoredMessage.IsExact (m : StoredMessage) : Prop where
  /-- The number has eight octets. -/
  sequence_lt : m.sequence < wordLimit
  /-- The calendar has the date. -/
  inCalendar : Timestamp.inCalendar m.timestamp.micros = true
  /-- The second is not a leap second. -/
  nanos_lt : m.timestamp.nanos < 1000000000
  /-- Nothing is shorter than a microsecond. -/
  nanos_mod : m.timestamp.nanos % 1000 = 0

theorem StoredMessage.IsExact.isKept {m : StoredMessage} (h : m.IsExact) : m.timestamp.IsKept where
  toMicro_eq := Timestamp.ofMicros_micros h.nanos_lt h.nanos_mod
  inCalendar := h.inCalendar

namespace Entry

/-! ## Lengths -/

/-- The longest text and the most headers that two octets of length can say. -/
def longestText : Nat := 65535

/-- The longest payload that four octets of length can say. -/
def longestPayload : Nat := 4294967295

/-- A header has a binary form: its value fits, and its name does unless it is written as a kind. -/
structure HeaderFits (h : String × String) : Prop where
  /-- A name that is written out fits. -/
  name_le : h.1 ≠ kvOperationHeader → h.1 ≠ contentTypeHeader → h.1.utf8ByteSize ≤ longestText
  /-- The value fits. -/
  value_le : h.2.utf8ByteSize ≤ longestText

/-- Every part of a message fits the length that is written in front of it. -/
structure Fits (m : StoredMessage) : Prop where
  /-- The subject fits. -/
  subject_le : m.subject.utf8ByteSize ≤ longestText
  /-- There are few enough headers. -/
  count_le : m.headers.length ≤ longestText
  /-- Every header fits. -/
  headers : ∀ h ∈ m.headers, HeaderFits h
  /-- The payload fits. -/
  payload_le : m.payload.length ≤ longestPayload

variable {part : String}

theorem exists_lengthPrefix_iff {width n : Nat} :
    (∃ octets, lengthPrefix width part n = .ok octets) ↔ n < Bytes.capacity width := by
  constructor
  · rintro ⟨octets, h⟩
    exact (lengthPrefix_eq_ok h).1
  · intro h
    exact ⟨_, if_pos h⟩

theorem lt_capacity_two_iff {n : Nat} : n < Bytes.capacity 2 ↔ n ≤ longestText := by
  rw [show Bytes.capacity 2 = 65536 from rfl, longestText]
  omega

theorem lt_capacity_four_iff {n : Nat} : n < Bytes.capacity 4 ↔ n ≤ longestPayload := by
  rw [show Bytes.capacity 4 = 4294967296 from rfl, longestPayload]
  omega

theorem exists_encodeText_iff {s : String} :
    (∃ octets, encodeText part s = .ok octets) ↔ s.utf8ByteSize ≤ longestText := by
  rw [encodeText, exists_ok_bind fun _ => exists_ok_pure, and_true, exists_lengthPrefix_iff,
    Bytes.length_ofText, lt_capacity_two_iff]

/-! ## Headers -/

theorem kind?_eq_none_iff {name : String} :
    kind? name = none ↔ name ≠ kvOperationHeader ∧ name ≠ contentTypeHeader := by
  rw [kind?]
  split
  · next h => simp [h]
  · next h =>
    split
    · next h' => simp [h']
    · next h' => simp [h, h']

theorem exists_encodeHeader_iff {h : String × String} :
    (∃ octets, encodeHeader h = .ok octets) ↔ HeaderFits h := by
  cases hkind : kind? h.1 with
  | some kind =>
    -- A name that is written as a kind asks for no length.
    have hknown : ¬(h.1 ≠ kvOperationHeader ∧ h.1 ≠ contentTypeHeader) := by
      rw [← kind?_eq_none_iff, hkind]
      simp
    simp only [encodeHeader, hkind]
    rw [exists_ok_bind fun _ => exists_ok_bind fun _ => exists_ok_pure, exists_ok_pure,
      exists_encodeText_iff, true_and, and_true]
    exact ⟨fun hv => ⟨fun h₁ h₂ => absurd ⟨h₁, h₂⟩ hknown, hv⟩, HeaderFits.value_le⟩
  | none =>
    obtain ⟨hkv, hcontent⟩ := kind?_eq_none_iff.1 hkind
    simp only [encodeHeader, hkind]
    rw [exists_ok_bind fun _ => exists_ok_bind fun _ => exists_ok_pure, exists_encodeText_iff,
      exists_encodeText_iff, and_true]
    exact ⟨fun hf => ⟨fun _ _ => hf.1, hf.2⟩, fun hf => ⟨hf.name_le hkv hcontent, hf.value_le⟩⟩

/-- Headers have a binary form exactly when each of them does. -/
theorem exists_mapM_encodeHeader_iff {hs : Headers} :
    (∃ es, hs.mapM encodeHeader = .ok es) ↔ ∀ h ∈ hs, HeaderFits h := by
  induction hs with
  | nil => simpa using exists_ok_pure
  | cons d hs ih =>
    rw [List.mapM_cons, exists_ok_bind fun _ => exists_ok_bind fun _ => exists_ok_pure,
      exists_encodeHeader_iff, ih, and_true, List.forall_mem_cons]

/-! ## Messages -/

/-- A message has a binary form exactly when its parts fit. -/
theorem exists_encode_iff {m : StoredMessage} : (∃ octets, encode m = .ok octets) ↔ Fits m := by
  rw [encode, exists_ok_bind fun _ => exists_ok_bind fun _ => exists_ok_bind fun _ =>
    exists_ok_bind fun _ => exists_ok_pure, exists_lengthPrefix_iff, exists_lengthPrefix_iff,
    exists_encodeText_iff, exists_mapM_encodeHeader_iff, lt_capacity_two_iff, lt_capacity_four_iff,
    and_true]
  constructor
  · rintro ⟨hcount, hpayload, hsubject, hheaders⟩
    exact ⟨hsubject, hcount, hheaders, hpayload⟩
  · intro h
    exact ⟨h.count_le, h.payload_le, h.subject_le, h.headers⟩

/-- **Which messages survive**: a message has a binary form exactly when its parts fit, and then it
is read back from that form, whatever octets stand behind it. -/
theorem survives {m : StoredMessage} (hm : m.IsExact) :
    ((∃ octets, encode m = .ok octets) ↔ Fits m) ∧
      ∀ octets, encode m = .ok octets → ∀ rest, decode (octets ++ rest) = .ok m :=
  ⟨exists_encode_iff, fun _ h rest => decode_encode h hm.isKept hm.sequence_lt rest⟩

/-- A message with a header twice, in two spellings. -/
def spelledTwice : StoredMessage where
  sequence := 42
  subject := "$KV.profiles.sue.color"
  payload := [98, 108, 117, 101]
  headers := [(kvOperationHeader, deleteMarker), ("X-Trace", "abc"), ("x-trace", "abc"),
    ("X-Trace", "abc")]
  timestamp := ⟨1714566600, 500000⟩

theorem spelledTwice_survives :
    ((∃ octets, encode spelledTwice = .ok octets) ↔ Fits spelledTwice) ∧
      ∀ octets, encode spelledTwice = .ok octets →
        ∀ rest, decode (octets ++ rest) = .ok spelledTwice :=
  survives ⟨by decide, by decide, by decide, by decide⟩

end Entry

end StreamBroker
