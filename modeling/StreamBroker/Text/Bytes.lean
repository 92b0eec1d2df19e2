/-!
# Octets and their texts

Payloads are lists of octets.  Text enters and leaves a payload as UTF-8.

## Main definitions

* `Bytes`: a list of octets.
* `Bytes.ofText`, `Bytes.toText?`: text as UTF-8, and back where the octets are valid UTF-8.
* `Bytes.toHex`: two lower-case hexadecimal digits for each octet.
* `Bytes.ofHex`: the octets with given hexadecimal digits.
* `Bytes.ofNat`, `Bytes.toNat`: numbers of a fixed width, most significant octet first.
* `Bytes.capacity`: how many numbers there are of a width.

## Main results

* `Bytes.toText?_ofText`: text survives the way into octets and back.
* `Bytes.toNat_ofNat`: a number that fits its width survives it.
-/

namespace StreamBroker

/-- A list of octets. -/
abbrev Bytes := List UInt8

namespace Bytes

/-- The UTF-8 octets of a text. -/
def ofText (s : String) : Bytes := s.toByteArray.data.toList

/-- The text that the octets encode, when they are valid UTF-8. -/
def toText? (bytes : Bytes) : Option String := String.fromUTF8? ⟨bytes.toArray⟩

@[simp] theorem toText?_ofText (s : String) : toText? (ofText s) = some s := by
  have h : (⟨(s.toByteArray.data.toList).toArray⟩ : ByteArray) = s.toByteArray := by simp
  simp only [toText?, ofText, h, String.fromUTF8?]
  split
  · next hv => simp [String.fromUTF8]
  · next hv => exact absurd s.isValidUTF8 hv

@[simp] theorem length_ofText (s : String) : (ofText s).length = s.utf8ByteSize := by
  rfl

/-- The lower-case hexadecimal digit of a number below sixteen. -/
def hexDigit (n : Nat) : Char :=
  if n < 10 then Char.ofNat (48 + n) else Char.ofNat (87 + n)

/-- The hexadecimal digits of octets, in lower case. -/
def toHex (bytes : Bytes) : String :=
  String.ofList (bytes.flatMap fun b => [hexDigit (b.toNat / 16), hexDigit (b.toNat % 16)])

/-- The value of a hexadecimal digit; other characters count as zero. -/
def hexDigitValue (c : Char) : Nat :=
  let n := c.toNat
  if c.isDigit then n - 48
  else if 97 ≤ n ∧ n < 103 then n - 87
  else if 65 ≤ n ∧ n < 71 then n - 55
  else 0

/-- The octets with given hexadecimal digits, behind those that were read before in reverse
order. -/
def ofHexDigits : List Char → Bytes → Bytes
  | a :: b :: digits, done =>
    ofHexDigits digits (UInt8.ofNat (hexDigitValue a * 16 + hexDigitValue b) :: done)
  | _, done => done.reverse

/-- The octets with given hexadecimal digits. -/
def ofHex (digits : List Char) : Bytes := ofHexDigits digits []

/-- How many numbers there are of `width` octets. -/
def capacity : (width : Nat) → Nat
  | 0 => 1
  | width + 1 => capacity width * 256

/-- The `width` octets of a number, most significant first; higher octets are lost. -/
def ofNat : (width : Nat) → Nat → Bytes
  | 0, _ => []
  | width + 1, n => UInt8.ofNat (n / capacity width) :: ofNat width n

/-- The number with the given octets, most significant first. -/
def toNat (bytes : Bytes) : Nat := bytes.foldl (fun n b => n * 256 + b.toNat) 0

@[simp] theorem length_ofNat (width n : Nat) : (ofNat width n).length = width := by
  induction width with
  | zero => rfl
  | succ width ih => simp [ofNat, ih]

theorem foldl_ofNat (width n acc : Nat) :
    (ofNat width n).foldl (fun n b => n * 256 + b.toNat) acc
      = acc * capacity width + n % capacity width := by
  induction width generalizing acc with
  | zero => simp [ofNat, capacity, Nat.mod_one]
  | succ width ih =>
    rw [ofNat, List.foldl_cons, ih, UInt8.toNat_ofNat', show (2 : Nat) ^ 8 = 256 from rfl]
    have hmod : n % (capacity width * 256) =
        n / capacity width % 256 * capacity width + n % capacity width := by
      rw [Nat.mod_mul, Nat.mul_comm (capacity width), Nat.add_comm]
    rw [capacity, hmod, Nat.add_mul, ← Nat.add_assoc, Nat.mul_assoc, Nat.mul_comm 256]

/-- A number that has `width` octets is read back from them. -/
theorem toNat_ofNat {width n : Nat} (h : n < capacity width) : toNat (ofNat width n) = n := by
  rw [toNat, foldl_ofNat, Nat.mod_eq_of_lt h]
  simp

end Bytes

end StreamBroker
