import ClassAtlas.Bytes.Reader

/-!
# Instructions

A method body is a row of instructions. Of each instruction the offset, the opcode and the pool
index among its operands are of interest here; other operands are only skipped. Decoding stops at
the first byte that starts no complete instruction.

## Main definitions

* `ClassAtlas.Operands` — the shapes of operands, and `ClassAtlas.Operands.ofOpcode?`.
* `ClassAtlas.Instruction`, `ClassAtlas.Instruction.read` — a single instruction.
* `ClassAtlas.Listing`, `ClassAtlas.Listing.ofCode` — the instructions of a body.

## Design

The operands of a switch are padded to a multiple of four bytes from the start of the body, so a
reader of operands is told the offset at which they start, and returns how many bytes they take.
-/

set_option autoImplicit false

namespace ClassAtlas

open Bytes

/-- The shapes of the operands of an instruction. -/
inductive Operands where
  /-- Bytes without a pool index. -/
  | plain (size : Nat)
  /-- A pool index of one byte. -/
  | shortIndex
  /-- A pool index of two bytes, then further bytes. -/
  | index (extra : Nat)
  /-- An opcode and its operands in their long form. -/
  | wide
  /-- A jump table over a range of keys. -/
  | tableSwitch
  /-- A jump table of pairs. -/
  | lookupSwitch
  deriving DecidableEq, Repr

namespace Operands

/-- The opcode that increments a local variable; its long form has two words. -/
def incrementOpcode : UInt8 := 0x84

/-- The shape of the operands of an opcode; nothing if the opcode is not assigned. -/
def ofOpcode? (opcode : UInt8) : Option Operands :=
  let n := opcode.toNat
  if n = 0x12 then some shortIndex
  else if n = 0x13 ∨ n = 0x14 ∨ 0xB2 ≤ n ∧ n ≤ 0xB8 ∨ n = 0xBB ∨ n = 0xBD ∨ n = 0xC0 ∨ n = 0xC1 then
    some (index 0)
  else if n = 0xB9 ∨ n = 0xBA then some (index 2)
  else if n = 0xC5 then some (index 1)
  else if n = 0x10 ∨ 0x15 ≤ n ∧ n ≤ 0x19 ∨ 0x36 ≤ n ∧ n ≤ 0x3A ∨ n = 0xA9 ∨ n = 0xBC then
    some (plain 1)
  else if n = 0x11 ∨ n = 0x84 ∨ 0x99 ≤ n ∧ n ≤ 0xA8 ∨ n = 0xC6 ∨ n = 0xC7 then some (plain 2)
  else if n = 0xC8 ∨ n = 0xC9 then some (plain 4)
  else if n = 0xC4 then some wide
  else if n = 0xAA then some tableSwitch
  else if n = 0xAB then some lookupSwitch
  else if n ≤ 0xC3 then some (plain 0)
  else none

/-- The number of bytes that pad `offset` to a multiple of four. -/
def padding (offset : Nat) : Nat :=
  (4 - offset % 4) % 4

/-- Reads operands that start at `offset` of the body: the pool index among them, if any, and the
number of bytes that they take. -/
def read (offset : Nat) : Operands → Reader (Option UInt16 × Nat)
  | plain size => do
    let _ ← Reader.slice size
    return (none, size)
  | shortIndex => do
    return (some (← Reader.u1).toUInt16, 1)
  | index extra => do
    let i ← Reader.u2
    let _ ← Reader.slice extra
    return (some i, 2 + extra)
  | wide => do
    let opcode ← Reader.u1
    let size := if opcode = incrementOpcode then 4 else 2
    let _ ← Reader.slice size
    return (none, 1 + size)
  | tableSwitch => do
    let _ ← Reader.slice (padding offset + 4)
    let low := (← Reader.u4).toInt32
    let high := (← Reader.u4).toInt32
    let entries := (high.toInt - low.toInt + 1).toNat
    let _ ← Reader.slice (4 * entries)
    return (none, padding offset + 12 + 4 * entries)
  | lookupSwitch => do
    let _ ← Reader.slice (padding offset + 4)
    let pairs := (← Reader.u4).toNat
    let _ ← Reader.slice (8 * pairs)
    return (none, padding offset + 8 + 8 * pairs)

end Operands

/-- An instruction of a method body. -/
structure Instruction where
  /-- The distance from the start of the body. -/
  offset : Nat
  /-- The operation. -/
  opcode : UInt8
  /-- The pool index among the operands. -/
  index : Option UInt16
  deriving DecidableEq, Repr

/-- Reads the instruction at `offset`, and returns it with the number of bytes that it takes. -/
def Instruction.read (offset : Nat) : Reader (Instruction × Nat) := do
  let opcode ← Reader.u1
  match Operands.ofOpcode? opcode with
  | none => Reader.fail (.unknownOpcode opcode offset)
  | some operands =>
    let (index, size) ← operands.read (offset + 1)
    return (⟨offset, opcode, index⟩, 1 + size)

/-- The instructions of a body up to the first fault. -/
structure Listing where
  /-- The instructions, in order. -/
  instructions : List Instruction
  /-- Why the rest of the body could not be decoded; nothing if there is no rest. -/
  fault : Option FormatError
  deriving DecidableEq, Repr

namespace Listing

/-- The listing of the bytes from `offset` on, behind the reversed instructions `done`. No more
than `fuel` instructions are read; a byte string has no more instructions than bytes. -/
def ofCodeOnto : Nat → List Instruction → Nat → List UInt8 → Listing
  | 0, done, _, _ => ⟨done.reverse, none⟩
  | _ + 1, done, _, [] => ⟨done.reverse, none⟩
  | fuel + 1, done, offset, b :: bytes =>
    match Instruction.read offset (b :: bytes) with
    | .ok ((instruction, size), rest) =>
      ofCodeOnto fuel (instruction :: done) (offset + size) rest
    | .error cause => ⟨done.reverse, some cause⟩

/-- The listing of a method body. -/
def ofCode (code : List UInt8) : Listing :=
  ofCodeOnto code.length [] 0 code

end Listing

end ClassAtlas
