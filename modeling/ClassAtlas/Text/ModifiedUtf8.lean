import ClassAtlas.ClassFile.FormatError

/-!
# Modified UTF-8

The text constants of a class file are coded in two steps: a text becomes UTF-16 units, in which a
character beyond `U+FFFF` is a pair of surrogates, and each unit becomes one, two or three bytes.
The unit zero is written in the two-byte form, so that no coded text contains a zero byte.

## Main definitions

* `ClassAtlas.Text.units`, `ClassAtlas.Text.ofUnits?` — UTF-16.
* `ClassAtlas.Text.unitBytes`, `ClassAtlas.Text.decodeUnits?` — units as bytes.
* `ClassAtlas.Text.encode`, `ClassAtlas.Text.decode` — the two steps together.

## Design

Decoding accepts the two- and three-byte forms of every unit, also of units that have a shorter
form; encoding writes the shortest form of each unit other than zero.
-/

set_option autoImplicit false

namespace ClassAtlas.Text

/-! ### UTF-16 -/

/-- The UTF-16 units of a character. -/
def charUnits (c : Char) : List UInt16 :=
  let n := c.toNat
  if n < 0x10000 then [UInt16.ofNat n]
  else [UInt16.ofNat (0xD800 + (n - 0x10000) / 0x400), UInt16.ofNat (0xDC00 + (n - 0x10000) % 0x400)]

/-- The UTF-16 units of a text. -/
def units (text : List Char) : List UInt16 :=
  text.flatMap charUnits

/-- Whether a unit is the first half of a surrogate pair. -/
def isHigh (u : UInt16) : Bool :=
  0xD800 ≤ u.toNat && u.toNat < 0xDC00

/-- Whether a unit is the second half of a surrogate pair. -/
def isLow (u : UInt16) : Bool :=
  0xDC00 ≤ u.toNat && u.toNat < 0xE000

/-- The text that UTF-16 units spell onto the reversed text `done`; nothing if a surrogate stands
alone. -/
def ofUnitsOnto? (done : List Char) : List UInt16 → Option (List Char)
  | [] => some done.reverse
  | u :: us =>
    if isHigh u then
      match us with
      | v :: rest =>
        if isLow v then
          ofUnitsOnto?
            (Char.ofNat (0x10000 + (u.toNat - 0xD800) * 0x400 + (v.toNat - 0xDC00)) :: done) rest
        else none
      | [] => none
    else if isLow u then none
    else ofUnitsOnto? (Char.ofNat u.toNat :: done) us

/-- The text that UTF-16 units spell; nothing if a surrogate stands alone. -/
def ofUnits? (us : List UInt16) : Option (List Char) :=
  ofUnitsOnto? [] us

/-! ### Units as bytes -/

/-- The bytes of a unit. -/
def unitBytes (u : UInt16) : List UInt8 :=
  let n := u.toNat
  if 0 < n ∧ n < 0x80 then [UInt8.ofNat n]
  else if n < 0x800 then [UInt8.ofNat (0xC0 + n / 0x40), UInt8.ofNat (0x80 + n % 0x40)]
  else
    [UInt8.ofNat (0xE0 + n / 0x1000), UInt8.ofNat (0x80 + n / 0x40 % 0x40),
      UInt8.ofNat (0x80 + n % 0x40)]

/-- Whether a byte continues a unit of two or three bytes. -/
def isContinuation (b : UInt8) : Bool :=
  0x80 ≤ b.toNat && b.toNat < 0xC0

/-- The units that bytes spell onto the reversed units `done`; nothing if a byte is out of place. -/
def decodeUnitsOnto? (done : List UInt16) : List UInt8 → Option (List UInt16)
  | [] => some done.reverse
  | a :: rest =>
    let n := a.toNat
    if n < 0x80 then
      if n = 0 then none else decodeUnitsOnto? (UInt16.ofNat n :: done) rest
    else if n < 0xC0 then none
    else if n < 0xE0 then
      match rest with
      | b :: rest =>
        if isContinuation b then
          decodeUnitsOnto? (UInt16.ofNat ((n - 0xC0) * 0x40 + (b.toNat - 0x80)) :: done) rest
        else none
      | [] => none
    else if n < 0xF0 then
      match rest with
      | b :: c :: rest =>
        if isContinuation b && isContinuation c then
          decodeUnitsOnto?
            (UInt16.ofNat ((n - 0xE0) * 0x1000 + (b.toNat - 0x80) * 0x40 + (c.toNat - 0x80)) :: done)
            rest
        else none
      | _ => none
    else none

/-- The units that bytes spell; nothing if a byte is out of place. -/
def decodeUnits? (bytes : List UInt8) : Option (List UInt16) :=
  decodeUnitsOnto? [] bytes

/-! ### The two steps together -/

/-- A text in modified UTF-8. -/
def encode (text : String) : List UInt8 :=
  (units text.toList).flatMap unitBytes

/-- The text that bytes in modified UTF-8 spell. -/
def decode (bytes : List UInt8) : Except FormatError String :=
  match (decodeUnits? bytes).bind ofUnits? with
  | some text => .ok (String.ofList text)
  | none => .error .badText

end ClassAtlas.Text
