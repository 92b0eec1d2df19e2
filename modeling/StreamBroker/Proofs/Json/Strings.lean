import StreamBroker.Json.Reader
import StreamBroker.Json.Writer
import StreamBroker.Proofs.Text.Utf8

/-!
# Texts in documents are read back

A reader sees a character for every octet.  So it sees a character of ASCII as it is, and any other
as characters outside ASCII, none of which ends a text or escapes another.  What is escaped is
turned into the octets that it stands for, and what is not is left alone; in the end the octets are
those of the text.

## Main definitions

* `Json.seen`: the characters that a reader sees
* `Json.pieces`: what is read of a character

## Main results

* `Json.readString?_quote`: a text is read back
-/

namespace StreamBroker.Json

variable {c : Char} {cs : List Char}

/-! ## What a reader sees -/

/-- The character that a reader sees of an octet. -/
def octetCharacter (b : UInt8) : Char := Char.ofNat b.toNat

/-- The characters that a reader sees: one for each octet. -/
def seen (cs : List Char) : List Char := (cs.flatMap String.utf8EncodeChar).map octetCharacter

theorem toNat_octetCharacter (b : UInt8) : (octetCharacter b).toNat = b.toNat := by
  have hvalid : b.toNat.isValidChar := .inl (Nat.lt_trans b.toNat_lt (by decide))
  rw [octetCharacter, Char.ofNat, dif_pos hvalid]
  rfl

@[simp] theorem seen_nil : seen [] = [] := rfl

@[simp] theorem seen_append (cs ds : List Char) : seen (cs ++ ds) = seen cs ++ seen ds := by
  rw [seen, List.flatMap_append, List.map_append]
  rfl

/-- A character of ASCII is seen as it is. -/
theorem seen_cons (h : c.toNat < 128) (cs : List Char) : seen (c :: cs) = c :: seen cs := by
  have hoctet : octetCharacter (UInt8.ofNat c.toNat) = c := by
    rw [octetCharacter, UInt8.toNat_ofNat', Nat.mod_eq_of_lt (Nat.lt_trans h (by decide)),
      Char.ofNat_toNat]
  rw [seen, List.flatMap_cons, Bytes.utf8EncodeChar_of_lt h, List.singleton_append, List.map_cons,
    hoctet]
  rfl

/-- Characters of ASCII are seen as they are. -/
theorem seen_of_all (h : (cs.all fun c => decide (c.toNat < 128)) = true) : seen cs = cs := by
  induction cs with
  | nil => rfl
  | cons c cs ih =>
    rw [List.all_cons, Bool.and_eq_true, decide_eq_true_eq] at h
    rw [seen_cons h.1, ih h.2]

/-! ## Pieces -/

/-- The control characters that an escape names by a letter. -/
def lettered : List Char := ['\n', '\r', '\t', '\x08', '\x0c']

/-- What is read of a character. -/
def pieces (c : Char) : List Piece :=
  if c.toNat < 0x20 ∧ c ∉ lettered then [.unit c.toNat]
  else (String.utf8EncodeChar c).map .octet

/-- A character that neither ends a text nor escapes another is an octet. -/
theorem readPieces?_cons (hquote : c ≠ '"') (hescape : c ≠ '\\') (hvisible : 0x20 ≤ c.toNat)
    (done : List Piece) (cs : List Char) :
    readPieces? done (c :: cs) = readPieces? (.octet (UInt8.ofNat c.toNat) :: done) cs := by
  have hread : ¬(c.toNat < 0x20 ∨ c = '\\') := by
    rintro (hlt | heq)
    · exact Nat.not_lt.2 hvisible hlt
    · exact hescape heq
  rw [readPieces?, if_neg hread]
  · exact hquote
  · exact fun _ _ _ _ _ heq => absurd heq hescape
  · exact fun _ _ heq => absurd heq hescape

/-- The octets of a character outside ASCII are left alone. -/
theorem readPieces?_octets {octets : Bytes} (h : ∀ b ∈ octets, 128 ≤ b.toNat)
    (done : List Piece) (cs : List Char) :
    readPieces? done (octets.map octetCharacter ++ cs) =
      readPieces? ((octets.map Piece.octet).reverse ++ done) cs := by
  induction octets generalizing done with
  | nil => rfl
  | cons b octets ih =>
    obtain ⟨hb, hoctets⟩ := List.forall_mem_cons.1 h
    have hnat := toNat_octetCharacter b
    have hne {d : Char} (hd : d.toNat < 128) : octetCharacter b ≠ d := by
      rintro rfl
      omega
    rw [List.map_cons, List.cons_append, readPieces?_cons (hne (by decide)) (hne (by decide))
      (by omega), ih hoctets, hnat, UInt8.ofNat_toNat, List.map_cons, List.reverse_cons,
      List.append_assoc]
    rfl

/-- The digits of a control character are read back. -/
theorem hexWord?_control {n : Nat} (h : n < 0x20) :
    hexWord? '0' '0' (Bytes.hexDigit (n / 16)) (Bytes.hexDigit (n % 16)) = some n ∧
      (Bytes.hexDigit (n / 16)).toNat < 128 ∧ (Bytes.hexDigit (n % 16)).toNat < 128 := by
  have hall : ∀ n < 0x20, hexWord? '0' '0' (Bytes.hexDigit (n / 16)) (Bytes.hexDigit (n % 16)) =
      some n ∧ (Bytes.hexDigit (n / 16)).toNat < 128 ∧ (Bytes.hexDigit (n % 16)).toNat < 128 := by
    decide
  exact hall n h

/-- **A character is read as its pieces.** -/
theorem readPieces?_escape (c : Char) (done : List Piece) (cs : List Char) :
    readPieces? done (seen (escape c) ++ cs) = readPieces? ((pieces c).reverse ++ done) cs := by
  by_cases hletter : c ∈ '"' :: '\\' :: lettered
  · -- One letter stands for the character.
    simp only [lettered, List.mem_cons, List.not_mem_nil, or_false] at hletter
    rcases hletter with rfl | rfl | rfl | rfl | rfl | rfl | rfl <;> rfl
  have hlettered : c ∉ lettered := fun h =>
    hletter (List.mem_cons_of_mem _ (List.mem_cons_of_mem _ h))
  simp only [lettered, List.mem_cons, List.not_mem_nil, or_false, not_or] at hletter
  obtain ⟨hquote, hescape, hn, hr, ht, hb, hf⟩ := hletter
  rw [escape, if_neg hquote, if_neg hescape, if_neg hn, if_neg hr, if_neg ht, if_neg hb, if_neg hf]
  split
  · next hcontrol =>
    obtain ⟨hword, hhigh, hlow⟩ := hexWord?_control hcontrol
    have hseen : seen ['\\', 'u', '0', '0', Bytes.hexDigit (c.toNat / 16),
        Bytes.hexDigit (c.toNat % 16)] = ['\\', 'u', '0', '0', Bytes.hexDigit (c.toNat / 16),
        Bytes.hexDigit (c.toNat % 16)] :=
      seen_of_all (by simp [hhigh, hlow])
    rw [hseen, pieces, if_pos ⟨hcontrol, hlettered⟩]
    simp only [List.cons_append, List.nil_append, readPieces?, hword]
    rfl
  · next hvisible =>
    rw [pieces, if_neg fun h => hvisible h.1]
    by_cases hascii : c.toNat < 128
    · rw [seen_cons hascii, Bytes.utf8EncodeChar_of_lt hascii]
      exact readPieces?_cons hquote hescape (Nat.not_lt.1 hvisible) done cs
    · rw [seen, List.flatMap_singleton]
      exact readPieces?_octets (Bytes.le_of_mem_utf8EncodeChar (Nat.not_lt.1 hascii)) done cs

/-- The pieces of a text are read up to its closing quote. -/
theorem readPieces?_flatMap (text : List Char) (done : List Piece) (cs : List Char) :
    readPieces? done (seen (text.flatMap escape) ++ '"' :: cs) =
      some (done.reverse ++ text.flatMap pieces, cs) := by
  induction text generalizing done with
  | nil => simp [readPieces?]
  | cons c text ih =>
    rw [List.flatMap_cons, seen_append, List.append_assoc, readPieces?_escape, ih,
      List.reverse_append, List.reverse_reverse, List.append_assoc, List.flatMap_cons]

/-! ## Octets -/

theorem octets?_map (octets done : Bytes) (ps : List Piece) :
    octets? done (octets.map .octet ++ ps) = octets? (octets.reverse ++ done) ps := by
  induction octets generalizing done with
  | nil => rfl
  | cons b octets ih =>
    rw [List.map_cons, List.cons_append, octets?, ih, List.reverse_cons, List.append_assoc]
    rfl

/-- Sixteen bits that are a character are no half of one. -/
theorem octets?_unit {n : Nat} (h : n < 0x20) (done : Bytes) (ps : List Piece) :
    octets? done (.unit n :: ps) = octets? (pushCharacter n done) ps := by
  have hhigh : isHighHalf n = false := by
    simp only [isHighHalf, Bool.and_eq_false_imp, decide_eq_true_eq]
    omega
  have hlow : isLowHalf n = false := by
    simp only [isLowHalf, Bool.and_eq_false_imp, decide_eq_true_eq]
    omega
  rcases ps with - | ⟨b | m, ps⟩
  · simp [octets?, hhigh, hlow]
  · simp [octets?, hhigh, hlow]
  · simp [octets?, hhigh, hlow]

/-- The pieces of a character have its octets. -/
theorem octets?_pieces (c : Char) (done : Bytes) (ps : List Piece) :
    octets? done (pieces c ++ ps) = octets? ((String.utf8EncodeChar c).reverse ++ done) ps := by
  rw [pieces]
  split
  · next h =>
    have hoctets : Bytes.ofText (String.singleton (Char.ofNat c.toNat)) =
        String.utf8EncodeChar c := by
      rw [Char.ofNat_toNat]
      exact (Bytes.ofText_ofList [c]).trans (List.flatMap_singleton ..)
    rw [List.singleton_append, octets?_unit h.1, pushCharacter, hoctets]
  · exact octets?_map _ _ _

theorem octets?_flatMap (text : List Char) (done : Bytes) :
    octets? done (text.flatMap pieces) =
      some (done.reverse ++ text.flatMap String.utf8EncodeChar) := by
  induction text generalizing done with
  | nil => simp [octets?]
  | cons c text ih =>
    rw [List.flatMap_cons, octets?_pieces, ih, List.reverse_append, List.reverse_reverse,
      List.append_assoc, List.flatMap_cons]

/-- **A text is read back from between its quotes.** -/
theorem readString?_quote (s : String) (cs : List Char) :
    readString? (seen (s.toList.flatMap escape) ++ '"' :: cs) = some (some s, cs) := by
  have htext : textOfPieces? (s.toList.flatMap pieces) = some s := by
    have hoctets := octets?_flatMap s.toList []
    rw [List.reverse_nil, List.nil_append, ← Bytes.ofText_ofList, String.ofList_toList] at hoctets
    rw [textOfPieces?, hoctets, Option.bind_eq_bind, Option.bind_some, Bytes.toText?_ofText]
  rw [readString?, readPieces?_flatMap, List.reverse_nil, List.nil_append, Option.map_some]
  exact congrArg (fun t => some (t, cs)) htext

end StreamBroker.Json
