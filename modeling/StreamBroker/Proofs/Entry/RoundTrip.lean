import StreamBroker.Entry
import StreamBroker.Proofs.Except

/-!
# Messages survive their binary form

Every part of an entry is read back from the front of what follows it, so the readers compose: each
lemma leaves the octets behind its part as they are, and the round trip of an entry is that of its
parts, one after the other.

## Main definitions

* `Timestamp.IsKept`: a point in time that an entry can hold

## Main results

* `Entry.takeHeaders_append`: headers are read back
* `Entry.decode_encode`: a message is read back from its entry
-/

namespace StreamBroker

/-- The calendar has a date for a point in time, which is one of whole microseconds. -/
structure Timestamp.IsKept (t : Timestamp) : Prop where
  /-- Nothing is shorter than a microsecond. -/
  toMicro_eq : t.toMicro = t
  /-- The calendar has the date. -/
  inCalendar : Timestamp.inCalendar t.micros = true

theorem Timestamp.isKept_toMicro {t : Timestamp} (h : inCalendar t.micros = true) :
    t.toMicro.IsKept where
  toMicro_eq := by rw [toMicro, toMicro, micros_ofMicros]
  inCalendar := by rwa [toMicro, micros_ofMicros]

namespace Entry

variable {part part' : String}

/-! ## Octets and lengths -/

theorem take_append {n : Nat} {front : Bytes} (h : front.length = n) (rest : Bytes) :
    take part n (front ++ rest) = .ok (front, rest) := by
  -- The reader looks no further than it needs to, so the length is seen from the front.
  have hlong : hasAtLeast n (front ++ rest) = true := by
    cases n with
    | zero => rfl
    | succ k =>
      have hne : (front ++ rest).drop k ≠ [] := by
        rw [Ne, List.drop_eq_nil_iff, List.length_append]
        omega
      simp [hasAtLeast, hne]
  rw [take, if_pos hlong, List.take_left' h, List.drop_left' h]

theorem lengthPrefix_eq_ok {width n : Nat} {octets : Bytes}
    (h : lengthPrefix width part n = .ok octets) :
    n < Bytes.capacity width ∧ octets = Bytes.ofNat width n := by
  rw [lengthPrefix] at h
  split at h
  · next hn => exact ⟨hn, (Except.ok.inj h).symm⟩
  · cases h

/-- A length is read back. -/
theorem takeLength_append {width n : Nat} {octets : Bytes}
    (h : lengthPrefix width part n = .ok octets) (rest : Bytes) :
    takeLength part' width (octets ++ rest) = .ok (n, rest) := by
  obtain ⟨hn, rfl⟩ := lengthPrefix_eq_ok h
  rw [takeLength, take_append (Bytes.length_ofNat width n)]
  exact congrArg (fun k => Except.ok (k, rest)) (Bytes.toNat_ofNat hn)

/-! ## Texts and headers -/

theorem takeText_append (s : String) (rest : Bytes) :
    takeText part (Bytes.ofText s).length (Bytes.ofText s ++ rest) = .ok (s, rest) := by
  refine except_bind_eq_ok.2 ⟨_, take_append rfl rest, ?_⟩
  simp only [Bytes.toText?_ofText]
  rfl

theorem encodeText_eq_ok {s : String} {octets : Bytes} (h : encodeText part s = .ok octets) :
    ∃ len, lengthPrefix 2 part (Bytes.ofText s).length = .ok len ∧
      octets = len ++ Bytes.ofText s := by
  obtain ⟨len, hlen, h⟩ := except_bind_eq_ok.1 h
  exact ⟨len, hlen, (Except.ok.inj h).symm⟩

theorem name?_of_kind? {name : String} {kind : UInt8} (h : kind? name = some kind) :
    kind ≠ namedKind ∧ name? kind = some name := by
  rw [kind?] at h
  split at h
  · next hn =>
    cases h
    exact ⟨by decide, by rw [hn]; rfl⟩
  · split at h
    · next hn =>
      cases h
      exact ⟨by decide, by rw [hn]; rfl⟩
    · cases h

/-- A header is read back. -/
theorem takeHeader_append {h : String × String} {octets : Bytes}
    (he : encodeHeader h = .ok octets) (rest : Bytes) :
    takeHeader (octets ++ rest) = .ok (h, rest) := by
  obtain ⟨name, value⟩ := h
  cases hkind : kind? name with
  | some kind =>
    simp only [encodeHeader, hkind] at he
    obtain ⟨front, hfront, he⟩ := except_bind_eq_ok.1 he
    obtain ⟨back, hback, he⟩ := except_bind_eq_ok.1 he
    obtain ⟨len, hlen, rfl⟩ := encodeText_eq_ok hback
    cases hfront
    cases he
    -- A name that is known is one octet.
    obtain ⟨hne, hname⟩ := name?_of_kind? hkind
    simp only [List.cons_append, List.nil_append, List.append_assoc, takeHeader, if_neg hne,
      hname]
    refine except_bind_eq_ok.2 ⟨_, rfl, ?_⟩
    refine except_bind_eq_ok.2 ⟨_, takeLength_append hlen _, ?_⟩
    exact except_bind_eq_ok.2 ⟨_, takeText_append value rest, rfl⟩
  | none =>
    simp only [encodeHeader, hkind] at he
    obtain ⟨front, hfront, he⟩ := except_bind_eq_ok.1 he
    obtain ⟨named, hnamed, he⟩ := except_bind_eq_ok.1 he
    obtain ⟨back, hback, he⟩ := except_bind_eq_ok.1 he
    -- Any other name is written out behind an octet that says so.
    obtain ⟨nameLen, hnameLen, rfl⟩ := encodeText_eq_ok hfront
    obtain ⟨valueLen, hvalueLen, rfl⟩ := encodeText_eq_ok hback
    cases hnamed
    cases he
    simp only [List.cons_append, List.append_assoc, takeHeader, if_true]
    refine except_bind_eq_ok.2 ⟨_, takeLength_append hnameLen _, ?_⟩
    refine except_bind_eq_ok.2 ⟨_, takeText_append name _, ?_⟩
    refine except_bind_eq_ok.2 ⟨_, takeLength_append hvalueLen _, ?_⟩
    exact except_bind_eq_ok.2 ⟨_, takeText_append value rest, rfl⟩

/-- Headers are read back behind those that were read before. -/
theorem takeHeaders_append {hs : Headers} {es : List Bytes} (h : hs.mapM encodeHeader = .ok es)
    (done : Headers) (rest : Bytes) :
    takeHeaders hs.length done (es.flatten ++ rest) = .ok (done.reverse ++ hs, rest) := by
  induction hs generalizing es done with
  | nil =>
    obtain rfl : [] = es := Except.ok.inj h
    simp [takeHeaders]
  | cons d hs ih =>
    rw [List.mapM_cons] at h
    obtain ⟨e, he, h⟩ := except_bind_eq_ok.1 h
    obtain ⟨es, hes, h⟩ := except_bind_eq_ok.1 h
    cases h
    rw [List.length_cons, List.flatten_cons, List.append_assoc, takeHeaders,
      takeHeader_append he]
    -- Headers are gathered backwards, so the one that was read stands in front.
    exact (ih hes (d :: done)).trans (by simp)

/-! ## Entries -/

theorem capacity_word : Bytes.capacity 8 = wordLimit := rfl

theorem signed_ofNat {n : Int} (h : Timestamp.inCalendar n = true) :
    signed (Bytes.ofNat 8 (n % wordLimit).toNat) = n := by
  -- The calendar ends long before sixty-three bits do, so the sign is not lost.
  have hn : Timestamp.firstMicros ≤ n ∧ n ≤ Timestamp.lastMicros := by
    simpa [Timestamp.inCalendar] using h
  have hlimit : wordLimit = 18446744073709551616 := rfl
  have hlt : (n % wordLimit).toNat < Bytes.capacity 8 := by
    rw [capacity_word, hlimit]
    omega
  rw [signed, Bytes.toNat_ofNat hlt, hlimit]
  obtain ⟨hfirst, hlast⟩ := hn
  simp only [Timestamp.firstMicros, Timestamp.lastMicros] at hfirst hlast
  split <;> omega

/-- **A message is read back from its entry**, whatever octets stand behind it. -/
theorem decode_encode {m : StoredMessage} {octets : Bytes} (h : encode m = .ok octets)
    (ht : m.timestamp.IsKept) (hs : m.sequence < wordLimit) (rest : Bytes) :
    decode (octets ++ rest) = .ok m := by
  obtain ⟨count, hcount, h⟩ := except_bind_eq_ok.1 h
  obtain ⟨payloadLen, hpayload, h⟩ := except_bind_eq_ok.1 h
  obtain ⟨subject, hsubject, h⟩ := except_bind_eq_ok.1 h
  obtain ⟨headers, hheaders, h⟩ := except_bind_eq_ok.1 h
  obtain ⟨subjectLen, hsubjectLen, rfl⟩ := encodeText_eq_ok hsubject
  cases h
  generalize hmicros : Bytes.ofNat 8 (m.timestamp.micros % wordLimit).toNat = micros
  generalize hsequence : Bytes.ofNat 8 m.sequence = sequence
  have hsize : (version :: (micros ++ sequence)).length = 17 := by
    simp [← hmicros, ← hsequence]
  have htake : (micros ++ sequence).take 8 = micros := List.take_left' (by simp [← hmicros])
  have hdrop : (micros ++ sequence).drop 8 = sequence := List.drop_left' (by simp [← hmicros])
  have hsigned : signed micros = m.timestamp.micros := hmicros ▸ signed_ofNat ht.inCalendar
  have hnumber : Bytes.toNat sequence = m.sequence :=
    hsequence ▸ Bytes.toNat_ofNat (capacity_word ▸ hs)
  have htime : Timestamp.ofMicros m.timestamp.micros = m.timestamp := ht.toMicro_eq
  simp only [List.append_assoc, List.cons_append]
  rw [← List.append_assoc micros, ← List.cons_append, decode]
  -- The first seventeen octets are the version, the time and the number.
  refine except_bind_eq_ok.2 ⟨_, take_append hsize _, ?_⟩
  simp only [List.headD_cons, ne_eq, not_true, if_false, List.drop_succ_cons, List.drop_zero, htake,
    hdrop, hsigned, hnumber, ht.inCalendar, Bool.not_true, Bool.false_eq_true]
  -- The other parts follow one by one, each with its length in front.
  refine except_bind_eq_ok.2 ⟨_, takeLength_append hsubjectLen _, ?_⟩
  refine except_bind_eq_ok.2 ⟨_, takeText_append m.subject _, ?_⟩
  refine except_bind_eq_ok.2 ⟨_, takeLength_append hcount _, ?_⟩
  refine except_bind_eq_ok.2 ⟨_, takeHeaders_append hheaders [] _, ?_⟩
  refine except_bind_eq_ok.2 ⟨_, takeLength_append hpayload _, ?_⟩
  refine except_bind_eq_ok.2 ⟨_, take_append rfl rest, ?_⟩
  rw [htime]
  rfl

end Entry

end StreamBroker
