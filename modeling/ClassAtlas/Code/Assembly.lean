import ClassAtlas.Code.Instruction

/-!
# Assembling method bodies

Straight-line bodies are assembled from statements, each of which becomes one instruction.

## Main definitions

* `ClassAtlas.Statement` — an instruction to be written.
* `ClassAtlas.Statement.encode`, `ClassAtlas.assemble` — statements as bytes.
-/

set_option autoImplicit false

namespace ClassAtlas

open Bytes

/-- An instruction to be written. -/
inductive Statement where
  /-- An instruction without operands. -/
  | plain (opcode : UInt8)
  /-- An instruction whose operand is a pool index. -/
  | withIndex (opcode : UInt8) (index : UInt16)
  /-- The invocation of an interface method, with the number of its argument slots. -/
  | invokeInterface (index : UInt16) (slots : UInt8)
  /-- The creation of an array of several dimensions. -/
  | newArray (index : UInt16) (dimensions : UInt8)
  deriving DecidableEq, Repr

/-- A statement as bytes. An instruction that loads a constant takes its one-byte form if the index
fits; the invocation of a call site is followed by two zero bytes; the count byte of the invocation
of an interface method also counts the receiver. -/
def Statement.encode : Statement → List UInt8
  | plain opcode => [opcode]
  | withIndex opcode index =>
    if opcode = 0x12 then
      if 255 < index.toNat then 0x13 :: u2 index else [0x12, index.toUInt8]
    else if opcode = 0xBA then opcode :: u2 index ++ [0, 0]
    else opcode :: u2 index
  | invokeInterface index slots => 0xB9 :: u2 index ++ [slots + 1, 0]
  | newArray index dimensions => 0xC5 :: u2 index ++ [dimensions]

/-- The body that statements spell. -/
def assemble (statements : List Statement) : List UInt8 :=
  statements.flatMap Statement.encode

end ClassAtlas
