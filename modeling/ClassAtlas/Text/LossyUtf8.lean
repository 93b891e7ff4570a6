/-!
# UTF-8 with faults

Reads bytes as UTF-8 whatever they are: where they cannot be read, the longest start of a character
that stands there counts as one character, the replacement character.

## Main definitions

* `ClassAtlas.LossyUtf8.Pending` — a character of which the first bytes were read.
* `ClassAtlas.LossyUtf8.decode` — the text that bytes spell.
-/

set_option autoImplicit false

namespace ClassAtlas.LossyUtf8

/-- A character of which the first bytes were read. -/
structure Pending where
  /-- The value of the bits that were read. -/
  value : Nat
  /-- How many bytes are left to read. -/
  left : Nat
  /-- The smallest byte that may follow. -/
  low : Nat
  /-- The largest byte that may follow. -/
  high : Nat

/-- What stands where nothing can be read. -/
def replacement : Char := '\ufffd'

/-- What the first byte of a character spells, and what is pending after it. The ranges of the second
byte leave out values that are too large, that have a shorter spelling, or that are no characters. -/
def start (byte : Nat) : List Char × Option Pending :=
  if byte < 0x80 then ([Char.ofNat byte], none)
  else if 0xC2 ≤ byte ∧ byte ≤ 0xDF then ([], some ⟨byte - 0xC0, 1, 0x80, 0xBF⟩)
  else if 0xE0 ≤ byte ∧ byte ≤ 0xEF then
    ([], some ⟨byte - 0xE0, 2, if byte = 0xE0 then 0xA0 else 0x80, if byte = 0xED then 0x9F else 0xBF⟩)
  else if 0xF0 ≤ byte ∧ byte ≤ 0xF4 then
    ([], some ⟨byte - 0xF0, 3, if byte = 0xF0 then 0x90 else 0x80, if byte = 0xF4 then 0x8F else 0xBF⟩)
  else ([replacement], none)

/-- What a byte spells, and what is pending after it. -/
def step (pending : Option Pending) (byte : Nat) : List Char × Option Pending :=
  match pending with
  | none => start byte
  | some p =>
    if p.low ≤ byte ∧ byte ≤ p.high then
      let value := p.value * 64 + (byte - 0x80)
      if p.left = 1 then ([Char.ofNat value], none) else ([], some ⟨value, p.left - 1, 0x80, 0xBF⟩)
    else
      let (chars, next) := start byte
      (replacement :: chars, next)

/-- What bytes spell behind a pending character. -/
def decodeFrom : Option Pending → List UInt8 → List Char
  | none, [] => []
  | some _, [] => [replacement]
  | pending, byte :: bytes =>
    let (chars, next) := step pending byte.toNat
    chars ++ decodeFrom next bytes

/-- The text that bytes spell. -/
def decode (bytes : List UInt8) : String :=
  String.ofList (decodeFrom none bytes)

end ClassAtlas.LossyUtf8
