import StreamBroker.Proofs.Json.Strings
import StreamBroker.Proofs.Subject.Literal
import StreamBroker.Proofs.Text.Decimal

/-!
# Documents are read back

A document of exact parts is read back from its octets.  The writer leaves no white space and puts
between two parts what neither of them can hold, so a reader finds where a part ends: behind a
number stands no digit, no point and no exponent.  The readers of nested parts have one step less at
every level, and a part has fewer levels than characters.

## Main definitions

* `Json.isExact`: documents without garbled parts and fractions

## Main results

* `Json.readValue?_write`: a document is read back from the front of a text
* `Json.parseBytes?_compact`: a document is read back from its octets
-/

namespace StreamBroker.Json

variable {c : Char} {cs : List Char}

/-! ## Exact documents -/

mutual

/-- Whether nothing in a document is garbled or a number with a fraction or an exponent. -/
def isExact : Json → Bool
  | .garbled | .decimal _ => false
  | .arr items => areExact items
  | .obj members => haveExact members
  | _ => true

/-- Whether all items are exact. -/
def areExact : List Json → Bool
  | [] => true
  | v :: vs => isExact v && areExact vs

/-- Whether all members are exact. -/
def haveExact : List (String × Json) → Bool
  | [] => true
  | (_, v) :: ms => isExact v && haveExact ms

end

/-! ## Numbers -/

/-- A text does not go on with a number. -/
def NumberEnds (cs : List Char) : Prop :=
  ∀ c ∈ cs.head?, c.isDigit = false ∧ c ≠ '.' ∧ c ≠ 'e' ∧ c ≠ 'E'

theorem NumberEnds.ends (h : NumberEnds cs) : Decimal.Ends cs := fun c hc => (h c hc).1

theorem numberEnds_cons (h : c.isDigit = false ∧ c ≠ '.' ∧ c ≠ 'e' ∧ c ≠ 'E') :
    NumberEnds (c :: cs) := by
  rintro d ⟨⟩
  exact h

theorem readFraction?_of_numberEnds (h : NumberEnds cs) : readFraction? cs = some ([], cs) := by
  cases cs with
  | nil => rfl
  | cons c cs =>
    rw [readFraction?]
    intro ds heq
    obtain ⟨rfl, -⟩ := List.cons.inj heq
    exact (h '.' rfl).2.1 rfl

theorem readExponent?_of_numberEnds (h : NumberEnds cs) : readExponent? cs = some ([], cs) := by
  cases cs with
  | nil => rfl
  | cons c cs =>
    obtain ⟨-, -, he, hE⟩ := h c rfl
    exact if_neg (not_or.2 ⟨he, hE⟩)

theorem readDigits?_digits (n : Nat) (h : Decimal.Ends cs) :
    readDigits? (Decimal.digits n ++ cs) = some (Decimal.digits n, cs) := by
  have hdigits := Decimal.all_isDigit_digits n
  have hempty : (Decimal.digits n).isEmpty = false :=
    List.isEmpty_eq_false_iff.2 (Decimal.digits_ne_nil n)
  simp only [readDigits?, Decimal.takeWhile_append hdigits h, Decimal.dropWhile_append hdigits h,
    hempty, Bool.false_eq_true, if_false]

/-- The digits of a number do not begin with a zero in front of others. -/
theorem not_leading_zero (n : Nat) :
    ¬((Decimal.digits n).head? = some '0' ∧ (Decimal.digits n).length ≠ 1) := by
  rintro ⟨hhead, hlength⟩
  rw [Decimal.head?_digits hhead] at hlength
  exact hlength (by decide +kernel)

/-- A number is read back. -/
theorem readNumber?_integer (n : Int) (h : NumberEnds cs) :
    readNumber? (Decimal.integer n ++ cs) = some (.int n, cs) := by
  have hdigits := readDigits?_digits n.natAbs h.ends
  have hzero := not_leading_zero n.natAbs
  rw [Decimal.integer]
  split
  · next hneg =>
    have hn : ¬n.natAbs = 0 := by omega
    simp only [readNumber?, List.cons_append, hdigits, Option.bind_eq_bind, Option.bind_some,
      if_neg hzero, readFraction?_of_numberEnds h, readExponent?_of_numberEnds h,
      Decimal.value_digits]
    rw [if_pos ⟨rfl, rfl, fun h => hn h.2⟩, show -(n.natAbs : Int) = n by omega]
    rfl
  · next hpos =>
    have hvalue := Decimal.value_digits n.natAbs
    have hall := Decimal.all_isDigit_digits n.natAbs
    obtain ⟨d, ds, hds⟩ := List.exists_cons_of_ne_nil (Decimal.digits_ne_nil n.natAbs)
    rw [hds] at hdigits hzero hvalue hall ⊢
    -- The first character is a digit and no sign.
    have hsign (more : List Char) : d :: ds ++ cs ≠ '-' :: more := by
      intro heq
      obtain ⟨rfl, -⟩ := List.cons.inj heq
      cases List.all_eq_true.1 hall _ List.mem_cons_self
    unfold readNumber?
    split
    · next heq =>
      split at heq
      · next h => exact absurd h (hsign _)
      · obtain ⟨rfl, rfl⟩ := Prod.mk.inj heq
        simp only [hdigits, Option.bind_eq_bind, Option.bind_some, if_neg hzero,
          readFraction?_of_numberEnds h, readExponent?_of_numberEnds h, hvalue]
        rw [if_pos ⟨rfl, rfl, fun h => h.1 rfl⟩, if_pos (show [].isEmpty = true from rfl),
          show (n.natAbs : Int) = n by omega]

/-! ## Documents -/

/-- Digits and signs are seen as they are. -/
theorem seen_integer (n : Int) : seen (Decimal.integer n) = Decimal.integer n := by
  have hascii : ((Decimal.digits n.natAbs).all fun c => decide (c.toNat < 128)) = true := by
    rw [List.all_eq_true]
    intro c hc
    rw [decide_eq_true_eq]
    have hd : c.isDigit = true := List.all_eq_true.1 (Decimal.all_isDigit_digits _) c hc
    have hrange := toNat_of_isAlphanum (show c.isAlphanum = true by simp [Char.isAlphanum, hd])
    omega
  rw [Decimal.integer]
  split
  · rw [seen_cons (by decide), seen_of_all hascii]
  · exact seen_of_all hascii

/-- An integer begins with a digit or with its sign. -/
theorem exists_integer_eq (n : Int) :
    ∃ c cs, Decimal.integer n = c :: cs ∧ (c.isDigit = true ∨ c = '-') := by
  rw [Decimal.integer]
  split
  · exact ⟨_, _, rfl, .inr rfl⟩
  · obtain ⟨c, cs, hcs⟩ := List.exists_cons_of_ne_nil (Decimal.digits_ne_nil n.natAbs)
    refine ⟨c, cs, hcs, .inl ?_⟩
    exact List.all_eq_true.1 (Decimal.all_isDigit_digits _) c (hcs ▸ List.mem_cons_self)

theorem seen_quote (s : String) :
    seen (quote s) = '"' :: (seen (s.toList.flatMap escape) ++ ['"']) := by
  rw [quote, List.cons_append, seen_cons (by decide), seen_append]
  rfl

/-- Nothing is passed over in front of a character that is no white space. -/
theorem skipSpace_cons (h : isSpace c = false) (cs : List Char) :
    skipSpace (c :: cs) = c :: cs := by
  rw [skipSpace, List.dropWhile_cons, h]
  rfl

theorem isSpace_of_isDigit (h : c.isDigit = true) : isSpace c = false := by
  have hne {d : Char} (hd : d.isDigit = false) : c ≠ d := by
    rintro rfl
    rw [h] at hd
    cases hd
  simp only [isSpace, Bool.or_eq_false_iff, beq_eq_false_iff_ne]
  exact ⟨⟨⟨hne (by decide), hne (by decide)⟩, hne (by decide)⟩, hne (by decide)⟩

/-- A document begins neither with white space nor with the end of another. -/
theorem exists_write_eq {v : Json} (h : v.isExact = true) :
    ∃ c cs, seen (write v) = c :: cs ∧ isSpace c = false ∧ c ≠ ']' := by
  cases v with
  | null => exact ⟨_, _, rfl, by decide, by decide⟩
  | bool b =>
    cases b with
    | true => exact ⟨_, _, rfl, by decide, by decide⟩
    | false => exact ⟨_, _, rfl, by decide, by decide⟩
  | int n =>
    -- A number begins with a digit or a sign.
    obtain ⟨c, cs, hcs, hc⟩ := exists_integer_eq n
    refine ⟨c, cs, (seen_integer n).trans hcs, ?_⟩
    rcases hc with hc | rfl
    · refine ⟨isSpace_of_isDigit hc, ?_⟩
      rintro rfl
      cases hc
    · exact ⟨by decide, by decide⟩
  | decimal text => cases h
  | str s => exact ⟨_, _, seen_quote s, by decide, by decide⟩
  | garbled => cases h
  | arr items =>
    exact ⟨_, _, seen_cons (by decide) _, by decide, by decide⟩
  | obj members =>
    exact ⟨_, _, seen_cons (by decide) _, by decide, by decide⟩

/-- A digit or a sign is the beginning of a number. -/
theorem readValue?_integer (n : Int) (steps : Nat) (cs : List Char) :
    readValue? (steps + 1) (Decimal.integer n ++ cs) = readNumber? (Decimal.integer n ++ cs) := by
  obtain ⟨c, ds, hcs, hc⟩ := exists_integer_eq n
  have hspace : isSpace c = false := by
    rcases hc with hc | rfl
    · exact isSpace_of_isDigit hc
    · decide
  rw [hcs, List.cons_append, readValue?, skipSpace_cons hspace]
  -- None of the other beginnings of a document is a digit or a sign.
  have hne (d : Char) (hd : d.isDigit = false ∧ d ≠ '-') {more : List Char} :
      c :: (ds ++ cs) ≠ d :: more := by
    intro heq
    obtain ⟨rfl, -⟩ := List.cons.inj heq
    rcases hc with hc | rfl
    · rw [hc] at hd
      cases hd.1
    · exact hd.2 rfl
  split
  · next h => exact absurd h (hne _ (by decide))
  · next h => exact absurd h (hne _ (by decide))
  · next h => exact absurd h (hne _ (by decide))
  · next h => exact absurd h (hne _ (by decide))
  · next h => exact absurd h (hne _ (by decide))
  · next h => exact absurd h (hne _ (by decide))
  · rfl

/-- What is behind an opening bracket are items, unless it is the end of the array. -/
theorem readValue?_bracket (h : ∃ c ds, cs = c :: ds ∧ isSpace c = false ∧ c ≠ ']') (steps : Nat) :
    readValue? (steps + 1) ('[' :: cs) =
      (readItems? steps cs).map fun (items, cs) => (.arr items, cs) := by
  obtain ⟨c, ds, rfl, hspace, hc⟩ := h
  rw [readValue?, skipSpace_cons (by decide)]
  split
  case h_5 heq =>
    cases heq
    rw [skipSpace_cons hspace]
    split
    · next hend => exact absurd (List.cons.inj hend).1 hc
    · rfl
  case h_7 hbracket _ => exact absurd rfl (hbracket _)
  all_goals next heq => cases heq

/-- What is behind an opening brace are members, if it is the quote of a name. -/
theorem readValue?_brace (steps : Nat) (cs : List Char) :
    readValue? (steps + 1) ('\x7b' :: '"' :: cs) =
      (readMembers? steps ('"' :: cs)).map fun (members, cs) => (ofMembers members, cs) := by
  rw [readValue?, skipSpace_cons (by decide)]
  rfl

theorem exists_writeItems_eq {v : Json} (h : v.isExact = true) (vs : List Json) (cs : List Char) :
    ∃ c ds, seen (writeItems (v :: vs)) ++ cs = c :: ds ∧ isSpace c = false ∧ c ≠ ']' := by
  obtain ⟨c, ds, hds, hc⟩ := exists_write_eq h
  cases vs with
  | nil => exact ⟨c, ds ++ cs, by rw [writeItems, hds, List.cons_append], hc⟩
  | cons w vs =>
    rw [writeItems, seen_append, hds]
    exact ⟨c, _, rfl, hc⟩

theorem exists_writeMembers_eq (m : String × Json) (ms : List (String × Json)) (cs : List Char) :
    ∃ ds, seen (writeMembers (m :: ms)) ++ cs = '"' :: ds := by
  obtain ⟨name, v⟩ := m
  cases ms with
  | nil =>
    rw [writeMembers, seen_append, seen_quote]
    exact ⟨_, rfl⟩
  | cons w ms =>
    rw [writeMembers, seen_append, seen_append, seen_quote]
    exact ⟨_, rfl⟩

/-- Members whose names are not garbled are those of an object. -/
theorem ofMembers_map (ms : List (String × Json)) :
    ofMembers (ms.map fun m => (some m.1, m.2)) = .obj ms := by
  have hms : (ms.map fun m => (some m.1, m.2)).mapM
      (fun m : Option String × Json => m.1.map fun name => (name, m.2)) = some ms := by
    induction ms with
    | nil => rfl
    | cons m ms ih =>
      rw [List.map_cons, List.mapM_cons, ih]
      rfl
  rw [ofMembers, hms]

mutual

/-- **A document is read back** from the front of a text that does not go on with a number. -/
theorem readValue?_write : ∀ (v : Json) (steps : Nat) (cs : List Char), v.isExact = true →
    (seen (write v)).length < steps → NumberEnds cs →
    readValue? steps (seen (write v) ++ cs) = some (v, cs)
  | _, 0, _, _, hsteps, _ => absurd hsteps (Nat.not_lt_zero _)
  | .null, steps + 1, cs, _, _, _ => by
    have hseen : seen (write null) = ['n', 'u', 'l', 'l'] := seen_of_all (by decide)
    rw [hseen, readValue?]
    rfl
  | .bool true, steps + 1, cs, _, _, _ => by
    have hseen : seen (write (bool true)) = ['t', 'r', 'u', 'e'] := seen_of_all (by decide)
    rw [hseen, readValue?]
    rfl
  | .bool false, steps + 1, cs, _, _, _ => by
    have hseen : seen (write (bool false)) = ['f', 'a', 'l', 's', 'e'] :=
      seen_of_all (by decide)
    rw [hseen, readValue?]
    rfl
  | .int n, steps + 1, cs, _, _, hcs => by
    rw [write, seen_integer, readValue?_integer, readNumber?_integer n hcs]
  | .decimal _, _ + 1, _, h, _, _ => by cases h
  | .garbled, _ + 1, _, h, _, _ => by cases h
  | .str s, steps + 1, cs, _, _, _ => by
    rw [write, seen_quote, List.cons_append, List.append_assoc, readValue?,
      skipSpace_cons (by decide)]
    show (readString? _).map _ = _
    rw [List.singleton_append, readString?_quote]
    rfl
  | .arr [], steps + 1, cs, _, _, _ => by
    have hseen : seen (write (arr [])) = ['[', ']'] := seen_of_all (by decide)
    rw [hseen, readValue?]
    rfl
  | .arr (v :: vs), steps + 1, cs, h, hsteps, _ => by
    have hseen : seen (write (arr (v :: vs))) = '[' :: (seen (writeItems (v :: vs)) ++ [']']) := by
      rw [write, List.cons_append, seen_cons (by decide), seen_append]
      rfl
    -- The two brackets are characters too, so the steps that are left are enough for the items.
    rw [hseen, List.length_cons, List.length_append, List.length_singleton] at hsteps
    have hitems := readItems?_writeItems v vs steps cs h (by omega)
    rw [isExact, areExact, Bool.and_eq_true] at h
    rw [hseen, List.cons_append, List.append_assoc, List.singleton_append,
      readValue?_bracket (exists_writeItems_eq h.1 vs _), hitems]
    rfl
  | .obj [], steps + 1, cs, _, _, _ => by
    have hseen : seen (write (obj [])) = ['\x7b', '\x7d'] := seen_of_all (by decide)
    rw [hseen, readValue?]
    rfl
  | .obj (m :: ms), steps + 1, cs, h, hsteps, _ => by
    have hseen : seen (write (obj (m :: ms))) =
        '\x7b' :: (seen (writeMembers (m :: ms)) ++ ['\x7d']) := by
      rw [write, List.cons_append, seen_cons (by decide), seen_append]
      rfl
    rw [hseen, List.length_cons, List.length_append, List.length_singleton] at hsteps
    have hmembers := readMembers?_writeMembers m ms steps cs h (by omega)
    obtain ⟨ds, hds⟩ := exists_writeMembers_eq m ms ('\x7d' :: cs)
    rw [hds] at hmembers
    rw [hseen, List.cons_append, List.append_assoc, List.singleton_append, hds, readValue?_brace,
      hmembers, Option.map_some]
    exact congrArg (fun v => some (v, cs)) (ofMembers_map (m :: ms))

/-- Items are read back up to the end of their array. -/
theorem readItems?_writeItems : ∀ (v : Json) (vs : List Json) (steps : Nat) (cs : List Char),
    areExact (v :: vs) = true → (seen (writeItems (v :: vs))).length + 1 < steps →
    readItems? steps (seen (writeItems (v :: vs)) ++ ']' :: cs) = some (v :: vs, cs)
  | _, _, 0, _, _, hsteps => absurd hsteps (Nat.not_lt_zero _)
  | v, [], steps + 1, cs, h, hsteps => by
    rw [areExact, Bool.and_eq_true] at h
    rw [writeItems] at hsteps ⊢
    have hvalue := readValue?_write v steps (']' :: cs) h.1 (by omega)
      (numberEnds_cons (by decide))
    rw [readItems?, hvalue]
    rfl
  | v, w :: vs, steps + 1, cs, h, hsteps => by
    rw [areExact, Bool.and_eq_true] at h
    rw [writeItems, seen_append, seen_cons (by decide)] at hsteps ⊢
    rw [List.length_append, List.length_cons] at hsteps
    have hvalue := readValue?_write v steps (',' :: (seen (writeItems (w :: vs)) ++ ']' :: cs)) h.1
      (by omega) (numberEnds_cons (by decide))
    have hitems := readItems?_writeItems w vs steps cs h.2 (by omega)
    rw [List.append_assoc, List.cons_append, readItems?, hvalue]
    show (readItems? _ _).map _ = _
    rw [hitems]
    rfl

/-- Members are read back up to the end of their object. -/
theorem readMembers?_writeMembers : ∀ (m : String × Json) (ms : List (String × Json))
    (steps : Nat) (cs : List Char),
    haveExact (m :: ms) = true → (seen (writeMembers (m :: ms))).length + 1 < steps →
    readMembers? steps (seen (writeMembers (m :: ms)) ++ '\x7d' :: cs) =
      some ((m :: ms).map fun m => (some m.1, m.2), cs)
  | _, _, 0, _, _, hsteps => absurd hsteps (Nat.not_lt_zero _)
  | (name, v), [], steps + 1, cs, h, hsteps => by
    rw [haveExact, Bool.and_eq_true] at h
    rw [writeMembers, seen_append, seen_cons (by decide), seen_quote] at hsteps ⊢
    simp only [List.length_append, List.length_cons] at hsteps
    have hvalue := readValue?_write v steps ('\x7d' :: cs) h.1 (by omega)
      (numberEnds_cons (by decide))
    simp only [List.append_assoc, List.cons_append, List.nil_append]
    rw [readMembers?, skipSpace_cons (by decide)]
    simp only [readString?_quote, Option.bind_eq_bind, Option.bind_some,
      skipSpace_cons (show isSpace ':' = false by decide), hvalue,
      skipSpace_cons (show isSpace '\x7d' = false by decide)]
    rfl
  | (name, v), m :: ms, steps + 1, cs, h, hsteps => by
    rw [haveExact, Bool.and_eq_true] at h
    rw [writeMembers, seen_append, seen_append, seen_cons (by decide), seen_cons (by decide),
      seen_quote] at hsteps ⊢
    simp only [List.length_append, List.length_cons] at hsteps
    have hvalue := readValue?_write v steps
      (',' :: (seen (writeMembers (m :: ms)) ++ '\x7d' :: cs)) h.1 (by omega)
      (numberEnds_cons (by decide))
    have hmembers := readMembers?_writeMembers m ms steps cs h.2 (by omega)
    simp only [List.append_assoc, List.cons_append, List.nil_append]
    rw [readMembers?, skipSpace_cons (by decide)]
    simp only [readString?_quote, Option.bind_eq_bind, Option.bind_some,
      skipSpace_cons (show isSpace ':' = false by decide), hvalue,
      skipSpace_cons (show isSpace ',' = false by decide), hmembers]
    rfl

end

/-- **A document is read back from its octets.** -/
theorem parseBytes?_compact {v : Json} (h : v.isExact = true) :
    parseBytes? (Bytes.ofText v.compact) = some v := by
  have hread := readValue?_write v ((seen (write v)).length + 1) [] h (Nat.lt_succ_self _)
    (by rintro c ⟨⟩)
  rw [List.append_nil] at hread
  rw [parseBytes?, compact, Bytes.ofText_ofList]
  show (readValue? ((seen (write v)).length + 1) (seen (write v))).bind _ = _
  rw [hread]
  rfl

end StreamBroker.Json
