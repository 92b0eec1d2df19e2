import StreamBroker.Text.Bytes

/-!
# Base 64 with the alphabet for file names

Three octets become four characters of an alphabet of sixty-four that is safe in names and
addresses; a last group of one or two octets is filled up with `=`.

## Main definitions

* `Base64.character`: the character of a number below sixty-four.
* `Base64.encode`: the text of octets.
-/

namespace StreamBroker.Base64

/-- The sixty-four characters: capitals, small letters, digits, hyphen and underscore. -/
def alphabet : List Char :=
  "ABCDEFGHIJKLMNOPQRSTUVWXYZabcdefghijklmnopqrstuvwxyz0123456789-_".toList

/-- The character of a number below sixty-four. -/
def character (n : Nat) : Char := alphabet.getD n '='

/-- Four characters for every three octets; the last group is filled up. -/
def encodeChars : Bytes → List Char
  | [] => []
  | [a] =>
    let n := a.toNat * 16
    [character (n / 64), character (n % 64), '=', '=']
  | [a, b] =>
    let n := (a.toNat * 256 + b.toNat) * 4
    [character (n / 4096), character (n / 64 % 64), character (n % 64), '=']
  | a :: b :: c :: more =>
    let n := (a.toNat * 256 + b.toNat) * 256 + c.toNat
    character (n / 262144) :: character (n / 4096 % 64) :: character (n / 64 % 64)
      :: character (n % 64) :: encodeChars more

def encode (bytes : Bytes) : String := String.ofList (encodeChars bytes)

end StreamBroker.Base64
