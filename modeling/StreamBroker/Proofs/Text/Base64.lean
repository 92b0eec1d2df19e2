import StreamBroker.Proofs.Subject.Literal
import StreamBroker.Text.Base64

/-!
# Texts of base 64

No two octet strings have the same text, and the characters of a text are those of keys, so a text
of base 64 can stand as a token of a subject.

## Main results

* `Base64.encode_inj`: octets are known by their text
* `Base64.isKeyToken_encode`: the text of some octets is a literal token
-/

namespace StreamBroker.Base64

/-- The characters of the alphabet are told apart, and none of them fills up. -/
theorem character_spec {n : Nat} (h : n < 64) :
    alphabet.idxOf (character n) = n ∧ character n ≠ '=' ∧ isKeyChar (character n) = true := by
  have hall : ∀ n < 64, alphabet.idxOf (character n) = n ∧ character n ≠ '=' ∧
      isKeyChar (character n) = true := by decide +kernel
  exact hall n h

theorem character_inj {m n : Nat} (hm : m < 64) (hn : n < 64) (h : character m = character n) :
    m = n := by
  rw [← (character_spec hm).1, h, (character_spec hn).1]

/-- Octets are known by the characters of their groups. -/
theorem encodeChars_inj {as bs : Bytes} (h : encodeChars as = encodeChars bs) : as = bs := by
  -- Groups of different lengths differ where the shorter one is filled up.
  induction as using encodeChars.induct generalizing bs with
  | case1 =>
    cases bs using encodeChars.induct <;> simp [encodeChars] at h ⊢
  | case2 a =>
    have ha := a.toNat_lt
    cases bs using encodeChars.induct with
    | case1 => simp [encodeChars] at h
    | case2 b =>
      have hb := b.toNat_lt
      simp only [encodeChars, List.cons.injEq, and_true] at h
      have hhigh := character_inj (by omega) (by omega) h.1
      have hlow := character_inj (by omega) (by omega) h.2
      rw [UInt8.toNat_inj.1 (show a.toNat = b.toNat by omega)]
    | case3 b c =>
      simp only [encodeChars, List.cons.injEq] at h
      exact absurd h.2.2.1.symm (character_spec (by omega)).2.1
    | case4 b c d more =>
      simp only [encodeChars, List.cons.injEq] at h
      exact absurd h.2.2.1.symm (character_spec (by omega)).2.1
  | case3 a a' =>
    have ha := a.toNat_lt
    have ha' := a'.toNat_lt
    cases bs using encodeChars.induct with
    | case1 => simp [encodeChars] at h
    | case2 b =>
      simp only [encodeChars, List.cons.injEq] at h
      exact absurd h.2.2.1 (character_spec (by omega)).2.1
    | case3 b b' =>
      have hb := b.toNat_lt
      have hb' := b'.toNat_lt
      simp only [encodeChars, List.cons.injEq, and_true] at h
      have hhigh := character_inj (by omega) (by omega) h.1
      have hmiddle := character_inj (by omega) (by omega) h.2.1
      have hlow := character_inj (by omega) (by omega) h.2.2
      rw [UInt8.toNat_inj.1 (show a.toNat = b.toNat by omega),
        UInt8.toNat_inj.1 (show a'.toNat = b'.toNat by omega)]
    | case4 b b' b'' more =>
      simp only [encodeChars, List.cons.injEq] at h
      exact absurd h.2.2.2.1.symm (character_spec (by omega)).2.1
  | case4 a a' a'' more ih =>
    have ha := a.toNat_lt
    have ha' := a'.toNat_lt
    have ha'' := a''.toNat_lt
    cases bs using encodeChars.induct with
    | case1 => simp [encodeChars] at h
    | case2 b =>
      simp only [encodeChars, List.cons.injEq] at h
      exact absurd h.2.2.1 (character_spec (by omega)).2.1
    | case3 b b' =>
      simp only [encodeChars, List.cons.injEq] at h
      exact absurd h.2.2.2.1 (character_spec (by omega)).2.1
    | case4 b b' b'' others =>
      have hb := b.toNat_lt
      have hb' := b'.toNat_lt
      have hb'' := b''.toNat_lt
      simp only [encodeChars, List.cons.injEq] at h
      have hfirst := character_inj (by omega) (by omega) h.1
      have hsecond := character_inj (by omega) (by omega) h.2.1
      have hthird := character_inj (by omega) (by omega) h.2.2.1
      have hfourth := character_inj (by omega) (by omega) h.2.2.2.1
      rw [UInt8.toNat_inj.1 (show a.toNat = b.toNat by omega),
        UInt8.toNat_inj.1 (show a'.toNat = b'.toNat by omega),
        UInt8.toNat_inj.1 (show a''.toNat = b''.toNat by omega), ih h.2.2.2.2]

theorem encode_inj {as bs : Bytes} (h : encode as = encode bs) : as = bs :=
  encodeChars_inj (String.ofList_injective h)

/-- The characters of a text are those of keys. -/
theorem isKeyChar_of_mem {as : Bytes} {c : Char} (h : c ∈ encodeChars as) :
    isKeyChar c = true := by
  induction as using encodeChars.induct with
  | case1 => simp [encodeChars] at h
  | case2 a =>
    have ha := a.toNat_lt
    simp only [encodeChars, List.mem_cons, List.not_mem_nil, or_false] at h
    rcases h with rfl | rfl | rfl | rfl
    · exact (character_spec (by omega)).2.2
    · exact (character_spec (by omega)).2.2
    · rfl
    · rfl
  | case3 a a' =>
    have ha := a.toNat_lt
    have ha' := a'.toNat_lt
    simp only [encodeChars, List.mem_cons, List.not_mem_nil, or_false] at h
    rcases h with rfl | rfl | rfl | rfl
    · exact (character_spec (by omega)).2.2
    · exact (character_spec (by omega)).2.2
    · exact (character_spec (by omega)).2.2
    · rfl
  | case4 a a' a'' more ih =>
    have ha := a.toNat_lt
    have ha' := a'.toNat_lt
    have ha'' := a''.toNat_lt
    simp only [encodeChars, List.mem_cons] at h
    rcases h with rfl | rfl | rfl | rfl | h
    · exact (character_spec (by omega)).2.2
    · exact (character_spec (by omega)).2.2
    · exact (character_spec (by omega)).2.2
    · exact (character_spec (by omega)).2.2
    · exact ih h

/-- **The text of some octets is a literal token.** -/
theorem isKeyToken_encode {as : Bytes} (h : as ≠ []) : isKeyToken (encode as).toList = true := by
  rw [encode, String.toList_ofList, isKeyToken, Bool.and_eq_true, Bool.not_eq_true',
    List.isEmpty_eq_false_iff, List.all_eq_true]
  refine ⟨?_, fun c => isKeyChar_of_mem⟩
  cases as using encodeChars.induct with
  | case1 => exact absurd rfl h
  | case2 a => simp [encodeChars]
  | case3 a a' => simp [encodeChars]
  | case4 a a' a'' more => simp [encodeChars]

end StreamBroker.Base64
