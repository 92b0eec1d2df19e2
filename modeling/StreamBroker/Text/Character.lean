/-!
# Character classes

The classes of characters that names, subjects and durations are checked against.  They are the
Unicode classes, not the ASCII ones of the core library: a no-break space separates words and a
C1 control is a control character.

## Main definitions

* `Text.isBlank`: the characters with the Unicode property `White_Space`.
* `Text.isControl`: the characters of the Unicode category `Cc`.
* `Text.foldCase`: the lower-case form of an ASCII letter, every other character unchanged.

## Main results

* `Text.isBlank_of_isWhitespace`: the core library's white space is blank.
-/

namespace StreamBroker.Text

/-- The code points with the Unicode property `White_Space`, as inclusive ranges in ascending
order. -/
def blankRanges : List (Nat × Nat) :=
  [(0x09, 0x0D), (0x20, 0x20), (0x85, 0x85), (0xA0, 0xA0), (0x1680, 0x1680), (0x2000, 0x200A),
    (0x2028, 0x2029), (0x202F, 0x202F), (0x205F, 0x205F), (0x3000, 0x3000)]

/-- Whether a character has the Unicode property `White_Space`. -/
def isBlank (c : Char) : Bool :=
  blankRanges.any fun r => r.1 ≤ c.toNat && c.toNat ≤ r.2

/-- Whether a character is in the Unicode category `Cc`: the C0 controls, the delete character and
the C1 controls. -/
def isControl (c : Char) : Bool :=
  c.toNat < 0x20 || (0x7F ≤ c.toNat && c.toNat < 0xA0)

/-- An ASCII capital in lower case; every other character as it is. -/
def foldCase (c : Char) : Char := c.toLower

/-- Whether two texts agree up to the case of their ASCII letters. -/
def sameUpToCase (a b : String) : Bool :=
  a.toList.map foldCase == b.toList.map foldCase

/-- Whether a character is an ASCII letter or digit. -/
def isAsciiAlphanumeric (c : Char) : Bool := c.isAlphanum

theorem isBlank_of_isWhitespace {c : Char} (h : c.isWhitespace = true) : isBlank c = true := by
  simp only [Char.isWhitespace, Bool.or_eq_true, decide_eq_true_eq] at h
  rcases h with ((rfl | rfl) | rfl) | rfl <;> decide

end StreamBroker.Text
