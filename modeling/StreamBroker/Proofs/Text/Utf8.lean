import StreamBroker.Text.Bytes

/-!
# Octets of characters

A text has the octets of its characters, one after the other.  A character of ASCII is the octet of
its number, and in all other characters every octet is above those.

## Main results

* `Bytes.ofText_ofList`: the octets of a text are those of its characters
* `Bytes.ofText_inj`: a text is known by its octets
-/

namespace StreamBroker.Bytes

variable {c : Char}

/-- **The octets of a text are those of its characters.** -/
theorem ofText_ofList (cs : List Char) :
    ofText (String.ofList cs) = cs.flatMap String.utf8EncodeChar := by
  simp [ofText, List.utf8Encode]

theorem ofText_inj {s t : String} (h : ofText s = ofText t) : s = t :=
  Option.some.inj ((toText?_ofText s).symm.trans ((congrArg toText? h).trans (toText?_ofText t)))

theorem ofText_ne_nil {s : String} (h : s ≠ "") : ofText s ≠ [] :=
  fun hnil => h (ofText_inj hnil)

/-- A character of ASCII is one octet. -/
theorem utf8EncodeChar_of_lt (h : c.toNat < 128) :
    String.utf8EncodeChar c = [UInt8.ofNat c.toNat] :=
  if_pos (Nat.le_of_lt_succ h)

/-- The octets of a character outside ASCII are above those inside. -/
theorem le_of_mem_utf8EncodeChar (h : 128 ≤ c.toNat) :
    ∀ b ∈ String.utf8EncodeChar c, 128 ≤ b.toNat := by
  have hlt : ¬c.val.toNat ≤ 127 := by
    have : c.toNat = c.val.toNat := rfl
    omega
  -- Each octet is a mark of at least 128 with some bits of the character.
  have hoctet (n k : Nat) (hn : n + k < 256) (hk : 128 ≤ k) :
      128 ≤ (UInt8.ofNat (n + k)).toNat := by
    rw [UInt8.toNat_ofNat']
    omega
  simp only [String.utf8EncodeChar, if_neg hlt]
  split
  · simp only [List.forall_mem_cons, List.not_mem_nil, false_implies, implies_true, and_true]
    exact ⟨hoctet _ _ (by omega) (by decide), hoctet _ _ (by omega) (by decide)⟩
  · split
    · simp only [List.forall_mem_cons, List.not_mem_nil, false_implies, implies_true, and_true]
      exact ⟨hoctet _ _ (by omega) (by decide), hoctet _ _ (by omega) (by decide),
        hoctet _ _ (by omega) (by decide)⟩
    · simp only [List.forall_mem_cons, List.not_mem_nil, false_implies, implies_true, and_true]
      exact ⟨hoctet _ _ (by omega) (by decide), hoctet _ _ (by omega) (by decide),
        hoctet _ _ (by omega) (by decide), hoctet _ _ (by omega) (by decide)⟩

end StreamBroker.Bytes
