/-!
# Hexadecimal text

Lower-case hexadecimal spellings of numbers and bytes, used by error messages and by quoted text.

## Main definitions

* `ClassAtlas.Text.hexOfNat` — a number without leading zeros.
* `ClassAtlas.Text.hexOfByte` — a byte as exactly two digits.
* `ClassAtlas.Text.hexOfBytes`, `ClassAtlas.Text.bytesOfHex?` — bytes as text, and back.
-/

set_option autoImplicit false

namespace ClassAtlas.Text

/-- The lower-case hexadecimal digit of a value below sixteen. -/
def hexDigit (n : Nat) : Char :=
  if n < 10 then Char.ofNat (48 + n) else Char.ofNat (87 + n)

/-- The lower-case hexadecimal spelling of a number, without leading zeros. -/
def hexOfNat (n : Nat) : String :=
  String.ofList (Nat.toDigits 16 n)

/-- A byte as exactly two lower-case hexadecimal digits. -/
def hexOfByte (b : UInt8) : String :=
  String.ofList [hexDigit (b.toNat / 16), hexDigit (b.toNat % 16)]

/-- Bytes as two digits each. -/
def hexOfBytes (bytes : List UInt8) : String :=
  bytes.foldl (fun text b => text ++ hexOfByte b) ""

/-- The value of a hexadecimal digit of either case. -/
def hexValue? (c : Char) : Option Nat :=
  if '0' ≤ c ∧ c ≤ '9' then some (c.toNat - 48)
  else if 'a' ≤ c ∧ c ≤ 'f' then some (c.toNat - 87)
  else if 'A' ≤ c ∧ c ≤ 'F' then some (c.toNat - 55)
  else none

/-- The bytes of digits behind the reversed bytes `done`. -/
def bytesOfHexOnto (done : List UInt8) : List Char → Option (List UInt8)
  | [] => some done.reverse
  | [_] => none
  | a :: b :: digits =>
    match hexValue? a, hexValue? b with
    | some high, some low => bytesOfHexOnto (UInt8.ofNat (16 * high + low) :: done) digits
    | _, _ => none

/-- The bytes that a text of digits spells; every byte has two digits. -/
def bytesOfHex? (text : String) : Option (List UInt8) :=
  bytesOfHexOnto [] text.toList

end ClassAtlas.Text
