/-!
# Big-endian numbers

Class files write every number with its most significant byte first. Reading is defined for byte
strings of any length, writing for any width; words of a fixed size are instances of both.

## Main definitions

* `ClassAtlas.Bytes.value` — the number that a byte string spells.
* `ClassAtlas.Bytes.digits` — the last bytes of a number, most significant first.
* `ClassAtlas.Bytes.capacity` — the number of values that some bytes can spell.
* `ClassAtlas.Bytes.u2`, `ClassAtlas.Bytes.u4`, `ClassAtlas.Bytes.u8` — words as bytes.
* `ClassAtlas.Bytes.table` — a list behind its length as a two-byte word.

## Main results

* `ClassAtlas.Bytes.value_digits` — a number below `capacity width` reads back from its digits.
-/

set_option autoImplicit false

namespace ClassAtlas.Bytes

/-- The number that bytes spell, most significant byte first. -/
def value (bytes : List UInt8) : Nat :=
  bytes.foldl (fun n b => n * 256 + b.toNat) 0

/-- The `width` least significant bytes of a number, most significant byte first. -/
def digits : Nat → Nat → List UInt8
  | 0, _ => []
  | width + 1, n => digits width (n / 256) ++ [UInt8.ofNat n]

@[simp]
theorem value_nil : value [] = 0 := rfl

@[simp]
theorem value_concat (bytes : List UInt8) (b : UInt8) :
    value (bytes ++ [b]) = value bytes * 256 + b.toNat := by
  simp [value]

@[simp]
theorem length_digits (width n : Nat) : (digits width n).length = width := by
  induction width generalizing n with
  | zero => rfl
  | succ width ih => simp [digits, ih]

/-- The number of values that `width` bytes can spell. -/
def capacity : Nat → Nat
  | 0 => 1
  | width + 1 => capacity width * 256

/-- A number that fits in `width` bytes reads back from them. -/
theorem value_digits (width n : Nat) (h : n < capacity width) : value (digits width n) = n := by
  induction width generalizing n with
  | zero => simp_all [digits, capacity]
  | succ width ih =>
    have hq : n / 256 < capacity width := by
      rw [Nat.div_lt_iff_lt_mul (by decide)]
      exact h
    simp only [digits, value_concat, ih _ hq, UInt8.toNat_ofNat']
    omega

/-- A two-byte word. -/
def u2 (n : UInt16) : List UInt8 := digits 2 n.toNat

/-- A four-byte word. -/
def u4 (n : UInt32) : List UInt8 := digits 4 n.toNat

/-- An eight-byte word. -/
def u8 (n : UInt64) : List UInt8 := digits 8 n.toNat

/-- A list behind its length, which is kept modulo `2 ^ 16`. -/
def table {α : Type} (encode : α → List UInt8) (items : List α) : List UInt8 :=
  u2 (UInt16.ofNat items.length) ++ items.flatMap encode

end ClassAtlas.Bytes
