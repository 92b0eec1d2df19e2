import StreamBroker.Proofs.Entry.Capacity

/-!
# Entries that were cut off

Nothing that is written in an entry can be told from what stands in front of it, and every part has
its length there, so an entry that was cut off is found to be too short wherever the cut is: in a
length, in a text, or between two headers.  A text is only read as UTF-8 when all of it is there, so
a cut in the middle of a character is no other refusal.

A reader of a part has two laws: it reads the part back whatever follows, and it refuses the part
as too short when it is cut off.  Both go over to readers one after the other, so the entry has them
because its parts do.

The time is looked at before it is known whether the entry is all there.  An entry holds it as a
number of microseconds that knows no leap seconds, so the leap second behind the last second of the
calendar is written as a time that has no date.  An entry with that time is refused for it as soon
as the time is there, whether the entry was cut off or not.

## Main definitions

* `Entry.IsTorn`: octets are refused because they are too short
* `Entry.Reads`: a reader has the two laws for a part
* `Timestamp.IsDated`: the calendar and the clock have a point in time

## Main results

* `Entry.Reads.isTorn_bind`, `Entry.Reads.bind`: readers one after the other
* `Entry.reads_takeHeaders`: headers, however many
* `Entry.torn_refused`: an entry that was cut off
-/

namespace StreamBroker

/-! ## Points in time that have a date -/

namespace Timestamp

/-- The second that the calendar begins with. -/
def firstSecond : Int := -8334601228800

/-- The last second of the calendar.  A leap second may follow it. -/
def lastSecond : Int := 8210266876799

/-- The calendar has a date for a point in time, and the clock a time of day, which may lie in a
leap second behind the second. -/
structure IsDated (t : Timestamp) : Prop where
  /-- The calendar has begun. -/
  first_le : firstSecond ≤ t.seconds
  /-- The calendar has not ended. -/
  le_last : t.seconds ≤ lastSecond
  /-- The second and the leap second behind it have two billion nanoseconds. -/
  nanos_lt : t.nanos < 2000000000

/-- A point in time lies in the leap second at the end of the calendar. -/
def EndsCalendar (t : Timestamp) : Prop := t.seconds = lastSecond ∧ 1000000000 ≤ t.nanos

variable {t : Timestamp}

/-- A point in time that has a date keeps it in microseconds, unless it is in the leap second at the
very end. -/
theorem IsDated.inCalendar_iff (ht : t.IsDated) :
    inCalendar t.micros = true ↔ ¬t.EndsCalendar := by
  obtain ⟨hfirst, hlast, hnanos⟩ := ht
  rw [firstSecond] at hfirst
  rw [lastSecond] at hlast
  rw [inCalendar, Bool.and_eq_true, decide_eq_true_iff, decide_eq_true_iff, micros, firstMicros,
    lastMicros, EndsCalendar, lastSecond]
  omega

end Timestamp

namespace Entry

variable {α β : Type} {part : String}

/-! ## Readers of parts -/

/-- Octets are refused because they are too short. -/
def IsTorn (x : Except FormatError α) : Prop := ∃ part, x = .error (.bufferTooSmall part)

/-- A reader reads a part back, whatever follows it, and refuses it as too short if it was cut
off. -/
structure Reads (read : Bytes → Except FormatError (α × Bytes)) (octets : Bytes) (a : α) :
    Prop where
  /-- The part is read back. -/
  append : ∀ rest, read (octets ++ rest) = .ok (a, rest)
  /-- The part is refused when it was cut off. -/
  torn : ∀ n < octets.length, IsTorn (read (octets.take n))

namespace Reads

variable {read : Bytes → Except FormatError (α × Bytes)} {front back : Bytes} {a : α} {b : β}

/-- A cut lies in what is read first, or in what is read behind it. -/
theorem isTorn_bind (h : Reads read front a) {next : α × Bytes → Except FormatError β}
    (hnext : ∀ n < back.length, IsTorn (next (a, back.take n))) {n : Nat}
    (hn : n < (front ++ back).length) : IsTorn (read ((front ++ back).take n) >>= next) := by
  rw [List.take_append]
  by_cases hfront : n < front.length
  · obtain ⟨part, htorn⟩ := h.torn n hfront
    rw [Nat.sub_eq_zero_of_le (Nat.le_of_lt hfront), List.take_zero, List.append_nil, htorn]
    exact ⟨part, rfl⟩
  · rw [List.take_of_length_le (Nat.le_of_not_lt hfront), h.append]
    refine hnext (n - front.length) ?_
    rw [List.length_append] at hn
    omega

/-- Readers of two parts, one after the other. -/
theorem bind (h : Reads read front a) (next : α → Bytes → Except FormatError (β × Bytes))
    (hnext : Reads (next a) back b) :
    Reads (fun octets => read octets >>= fun r => next r.1 r.2) (front ++ back) b where
  append rest := by
    rw [List.append_assoc, h.append]
    exact hnext.append rest
  torn _ hn := h.isTorn_bind hnext.torn hn

/-- A reader whose answer is rewritten. -/
theorem map (h : Reads read front a) (f : α → β) :
    Reads (fun octets => read octets >>= fun r => pure (f r.1, r.2)) front (f a) where
  append rest := by
    rw [h.append]
    rfl
  torn n hn := by
    obtain ⟨part, htorn⟩ := h.torn n hn
    rw [htorn]
    exact ⟨part, rfl⟩

end Reads

/-! ## Lengths and texts -/

theorem take_of_length_lt {n : Nat} {octets : Bytes} (h : octets.length < n) :
    take part n octets = .error (.bufferTooSmall part) := by
  have hshort : hasAtLeast n octets = false := by
    have hzero : n ≠ 0 := Nat.ne_zero_of_lt h
    have hnil : octets.drop (n - 1) = [] := List.drop_eq_nil_of_le (by omega)
    simp [hasAtLeast, hzero, hnil]
  rw [take, hshort]
  rfl

theorem reads_take (part : String) (octets : Bytes) :
    Reads (take part octets.length) octets octets where
  append rest := take_append rfl rest
  torn n hn := ⟨part, take_of_length_lt (by rw [List.length_take]; omega)⟩

theorem reads_takeLength (part : String) {written : String} {width n : Nat} {octets : Bytes}
    (h : lengthPrefix width written n = .ok octets) : Reads (takeLength part width) octets n where
  append rest := takeLength_append h rest
  torn k hk := by
    obtain ⟨-, rfl⟩ := lengthPrefix_eq_ok h
    rw [Bytes.length_ofNat] at hk
    rw [takeLength, take_of_length_lt (by rw [List.length_take, Bytes.length_ofNat]; omega)]
    exact ⟨part, rfl⟩

/-- A text is looked at as a whole, so it does not matter where in a character it is cut. -/
theorem reads_takeText (part s : String) :
    Reads (takeText part (Bytes.ofText s).length) (Bytes.ofText s) s where
  append rest := takeText_append s rest
  torn n hn := by
    rw [takeText, take_of_length_lt (by rw [List.length_take]; omega)]
    exact ⟨part, rfl⟩

/-- A text behind its length, and what is made of it. -/
theorem reads_text (part part' : String) {written s : String} {octets : Bytes}
    (h : encodeText written s = .ok octets) (f : String → α) :
    Reads (fun octets => takeLength part 2 octets >>= fun r =>
      takeText part' r.1 r.2 >>= fun r => pure (f r.1, r.2)) octets (f s) := by
  obtain ⟨len, hlen, rfl⟩ := encodeText_eq_ok h
  exact (reads_takeLength part hlen).bind
    (fun len octets => takeText part' len octets >>= fun r => pure (f r.1, r.2))
    ((reads_takeText part' s).map f)

/-! ## Headers -/

/-- Behind the kind of a header stand its name, unless the kind says it, and its value. -/
theorem reads_takeHeader {h : String × String} {octets : Bytes}
    (he : encodeHeader h = .ok octets) : Reads takeHeader octets h where
  append := takeHeader_append he
  torn n hn := by
    obtain ⟨name, value⟩ := h
    cases n with
    | zero => exact ⟨_, rfl⟩
    | succ n =>
      -- A name of a known kind is one octet; any other is written out with its length.
      cases hkind : kind? name with
      | some kind =>
        simp only [encodeHeader, hkind] at he
        obtain ⟨front, hfront, he⟩ := except_bind_eq_ok.1 he
        obtain ⟨back, hback, he⟩ := except_bind_eq_ok.1 he
        cases hfront
        cases he
        obtain ⟨hne, hname⟩ := name?_of_kind? hkind
        simp only [List.cons_append, List.nil_append, List.take_succ_cons, takeHeader, if_neg hne,
          hname]
        have hvalue := reads_text "header value length" "header value" hback (name, ·)
        exact hvalue.torn n (Nat.lt_of_succ_lt_succ hn)
      | none =>
        simp only [encodeHeader, hkind] at he
        obtain ⟨front, hfront, he⟩ := except_bind_eq_ok.1 he
        obtain ⟨named, hnamed, he⟩ := except_bind_eq_ok.1 he
        obtain ⟨back, hback, he⟩ := except_bind_eq_ok.1 he
        obtain ⟨nameLen, hnameLen, rfl⟩ := encodeText_eq_ok hfront
        cases hnamed
        cases he
        simp only [List.cons_append, List.append_assoc] at hn
        simp only [List.cons_append, List.append_assoc, List.take_succ_cons, takeHeader, if_true]
        refine (reads_takeLength "header name length" hnameLen).isTorn_bind (fun k hk => ?_)
          (Nat.lt_of_succ_lt_succ hn)
        refine (reads_takeText "header name" name).isTorn_bind (fun k hk => ?_) hk
        exact (reads_text "header value length" "header value" hback (name, ·)).torn k hk

/-- Headers are refused when they were cut off, whichever of them the cut is in. -/
theorem reads_takeHeaders {hs : Headers} {es : List Bytes} (h : hs.mapM encodeHeader = .ok es)
    (done : Headers) :
    Reads (takeHeaders hs.length done) es.flatten (done.reverse ++ hs) where
  append := takeHeaders_append h done
  torn n hn := by
    -- Induction on the headers: a cut is in the first, or behind it.
    induction hs generalizing es done n with
    | nil =>
      obtain rfl : [] = es := Except.ok.inj h
      cases hn
    | cons d hs ih =>
      rw [List.mapM_cons] at h
      obtain ⟨e, he, h⟩ := except_bind_eq_ok.1 h
      obtain ⟨es, hes, h⟩ := except_bind_eq_ok.1 h
      cases h
      have hsteps (octets : Bytes) : takeHeaders (hs.length + 1) done octets =
          takeHeader octets >>= fun r => takeHeaders hs.length (r.1 :: done) r.2 := by
        rw [takeHeaders]
        cases takeHeader octets <;> rfl
      rw [List.flatten_cons] at hn ⊢
      rw [List.length_cons, hsteps]
      exact (reads_takeHeader he).isTorn_bind (fun k hk => ih hes (d :: done) k hk) hn

/-! ## Entries -/

/-- How long what stands in front of the subject is: the version, the time and the number. -/
def frontLength : Nat := 17

/-- What an entry has in front of the subject. -/
def front (m : StoredMessage) : Bytes :=
  version :: (Bytes.ofNat 8 (m.timestamp.micros % wordLimit).toNat ++ Bytes.ofNat 8 m.sequence)

theorem length_front (m : StoredMessage) : (front m).length = frontLength := by
  simp [front, frontLength]

/-- What stands in an entry, one part behind the other. -/
theorem encode_eq_ok {m : StoredMessage} {octets : Bytes} (h : encode m = .ok octets) :
    ∃ subject count headers payloadLen, encodeText "subject" m.subject = .ok subject ∧
      lengthPrefix 2 "headers" m.headers.length = .ok count ∧
      m.headers.mapM encodeHeader = .ok headers ∧
      lengthPrefix 4 "payload" m.payload.length = .ok payloadLen ∧
      octets =
        front m ++ (subject ++ (count ++ (headers.flatten ++ (payloadLen ++ m.payload)))) := by
  obtain ⟨count, hcount, h⟩ := except_bind_eq_ok.1 h
  obtain ⟨payloadLen, hpayload, h⟩ := except_bind_eq_ok.1 h
  obtain ⟨subject, hsubject, h⟩ := except_bind_eq_ok.1 h
  obtain ⟨headers, hheaders, h⟩ := except_bind_eq_ok.1 h
  refine ⟨subject, count, headers, payloadLen, hsubject, hcount, hheaders, hpayload, ?_⟩
  rw [← Except.ok.inj h, front]
  simp only [List.append_assoc, List.cons_append]

theorem signed_ofNat_of_lt {n : Int} (hle : -9223372036854775808 ≤ n)
    (hlt : n < 9223372036854775808) : signed (Bytes.ofNat 8 (n % wordLimit).toNat) = n := by
  have hlimit : wordLimit = 18446744073709551616 := rfl
  have hword : (n % wordLimit).toNat < Bytes.capacity 8 := by
    rw [capacity_word, hlimit]
    omega
  rw [signed, Bytes.toNat_ofNat hword, hlimit]
  split <;> omega

/-- What is read behind the front, once the number and the time are known. -/
def takeBody (sequence : Nat) (timestamp : Timestamp) (octets : Bytes) :
    Except FormatError StoredMessage := do
  let (len, octets) ← takeLength "subject length" 2 octets
  let (subject, octets) ← takeText "subject" len octets
  let (count, octets) ← takeLength "header count" 2 octets
  let (headers, octets) ← takeHeaders count [] octets
  let (len, octets) ← takeLength "payload length" 4 octets
  let (payload, _) ← take "payload" len octets
  pure ⟨sequence, subject, payload, headers, timestamp⟩

/-- What stands behind the front is looked at if the calendar has a date for the time. -/
theorem decode_front {m : StoredMessage} (ht : m.timestamp.IsDated) (rest : Bytes) :
    decode (front m ++ rest) =
      if Timestamp.inCalendar m.timestamp.micros = true then
        takeBody (Bytes.toNat (Bytes.ofNat 8 m.sequence)) (Timestamp.ofMicros m.timestamp.micros)
          rest
      else .error (.invalidTimestamp m.timestamp.micros) := by
  have htake : take "entry prefix" 17 (front m ++ rest) = .ok (front m, rest) :=
    take_append (length_front m) rest
  -- The calendar ends long before the times that eight octets can hold.
  have hsigned : signed (Bytes.ofNat 8 (m.timestamp.micros % wordLimit).toNat) =
      m.timestamp.micros := by
    obtain ⟨hfirst, hlast, hnanos⟩ := ht
    rw [Timestamp.firstSecond] at hfirst
    rw [Timestamp.lastSecond] at hlast
    refine signed_ofNat_of_lt ?_ ?_ <;> rw [Timestamp.micros] <;> omega
  have hmicros : ((front m).drop 1).take 8 =
      Bytes.ofNat 8 (m.timestamp.micros % wordLimit).toNat := by
    rw [front, List.drop_succ_cons, List.drop_zero, List.take_left' (Bytes.length_ofNat ..)]
  have hsequence : (front m).drop 9 = Bytes.ofNat 8 m.sequence := by
    rw [front, List.drop_succ_cons, List.drop_left' (Bytes.length_ofNat ..)]
  have hversion : (front m).headD 0 = version := rfl
  rw [decode, htake]
  simp only [bind, Except.bind, hversion, hmicros, hsequence, hsigned]
  cases Timestamp.inCalendar m.timestamp.micros with
  | true => rfl
  | false => rfl

/-- The body is refused as too short when it is cut off, wherever that is. -/
theorem isTorn_takeBody {m : StoredMessage} {subject count payloadLen : Bytes}
    {headers : List Bytes} (hsubject : encodeText "subject" m.subject = .ok subject)
    (hcount : lengthPrefix 2 "headers" m.headers.length = .ok count)
    (hheaders : m.headers.mapM encodeHeader = .ok headers)
    (hpayload : lengthPrefix 4 "payload" m.payload.length = .ok payloadLen)
    (sequence : Nat) (timestamp : Timestamp) {n : Nat}
    (hn : n < (subject ++ (count ++ (headers.flatten ++ (payloadLen ++ m.payload)))).length) :
    IsTorn (takeBody sequence timestamp
      ((subject ++ (count ++ (headers.flatten ++ (payloadLen ++ m.payload)))).take n)) := by
  obtain ⟨subjectLen, hsubjectLen, rfl⟩ := encodeText_eq_ok hsubject
  rw [List.append_assoc] at hn ⊢
  refine (reads_takeLength "subject length" hsubjectLen).isTorn_bind (fun n hn => ?_) hn
  refine (reads_takeText "subject" m.subject).isTorn_bind (fun n hn => ?_) hn
  refine (reads_takeLength "header count" hcount).isTorn_bind (fun n hn => ?_) hn
  refine (reads_takeHeaders hheaders []).isTorn_bind (fun n hn => ?_) hn
  refine (reads_takeLength "payload length" hpayload).isTorn_bind (fun n hn => ?_) hn
  obtain ⟨part, htorn⟩ := (reads_take "payload" m.payload).torn n hn
  exact ⟨part, by simp only [htorn]; rfl⟩

/-- **An entry that was cut off is never accepted**, wherever it was cut.  It is refused as too
short, unless its time lies in the leap second at the very end of the calendar and is all there:
then it is refused for the time, as the whole entry is. -/
theorem torn_refused {m : StoredMessage} {octets : Bytes} (h : encode m = .ok octets)
    (ht : m.timestamp.IsDated) {n : Nat} (hn : n < octets.length) :
    (¬(frontLength ≤ n ∧ m.timestamp.EndsCalendar) →
      ∃ part, decode (octets.take n) = .error (.bufferTooSmall part)) ∧
    (frontLength ≤ n → m.timestamp.EndsCalendar →
      decode (octets.take n) = .error (.invalidTimestamp m.timestamp.micros)) := by
  obtain ⟨subject, count, headers, payloadLen, hsubject, hcount, hheaders, hpayload, rfl⟩ :=
    encode_eq_ok h
  rw [List.take_append, length_front]
  by_cases hfront : frontLength ≤ n
  · rw [List.take_of_length_le (length_front m ▸ hfront), decode_front ht]
    rw [List.length_append, length_front] at hn
    by_cases hend : m.timestamp.EndsCalendar
    · rw [if_neg fun hdate => ht.inCalendar_iff.1 hdate hend]
      exact ⟨fun hnot => absurd ⟨hfront, hend⟩ hnot, fun _ _ => rfl⟩
    · rw [if_pos (ht.inCalendar_iff.2 hend)]
      refine ⟨fun _ => ?_, fun _ h => absurd h hend⟩
      exact isTorn_takeBody hsubject hcount hheaders hpayload _ _ (by omega)
  · refine ⟨fun _ => ⟨"entry prefix", ?_⟩, fun h => absurd h hfront⟩
    rw [decode, take_of_length_lt]
    · rfl
    · rw [List.length_append, List.length_take, List.length_take, length_front]
      rw [frontLength] at hfront ⊢
      omega

/-- A message with a header value of two characters, each of two octets, and no payload. -/
def accented : StoredMessage where
  sequence := 7
  subject := "s"
  payload := []
  headers := [("n", "éé")]
  timestamp := ⟨1714566600, 0⟩

/-- An entry that was cut off in the middle of a character is too short. -/
theorem torn_in_character : ∃ octets, encode accented = .ok octets ∧ accented.timestamp.IsDated ∧
    31 < octets.length ∧ ∃ part, decode (octets.take 31) = .error (.bufferTooSmall part) := by
  have hdated : accented.timestamp.IsDated := ⟨by decide, by decide, by decide⟩
  have hend : ¬(frontLength ≤ 31 ∧ accented.timestamp.EndsCalendar) := by
    rintro ⟨-, h, -⟩
    exact absurd h (by decide)
  obtain ⟨octets, hencode, hlength⟩ : ∃ octets, encode accented = .ok octets ∧ 31 < octets.length :=
    ⟨_, rfl, by decide⟩
  exact ⟨octets, hencode, hdated, hlength, (torn_refused hencode hdated hlength).1 hend⟩

/-- A message from the leap second at the very end of the calendar. -/
def lastMoment : StoredMessage where
  sequence := 42
  subject := "a.b"
  payload := [120]
  headers := []
  timestamp := ⟨8210266876799, 1500000000⟩

/-- An entry from there is not too short when it was cut off behind the time. -/
theorem torn_at_the_end : ∃ octets, lastMoment.timestamp.IsDated ∧
    lastMoment.timestamp.seconds % 60 = 59 ∧ encode lastMoment = .ok octets ∧
      17 < octets.length ∧ ¬∃ part, decode (octets.take 17) = .error (.bufferTooSmall part) := by
  refine ⟨_, ⟨by decide, by decide, by decide⟩, rfl, rfl, by decide, ?_⟩
  rintro ⟨part, h⟩
  have hdecode : decode (((encode lastMoment).toOption.getD []).take 17) =
    .error (.invalidTimestamp 8210266876800500000) := rfl
  exact absurd (hdecode.symm.trans h) (by simp)

end Entry

end StreamBroker
