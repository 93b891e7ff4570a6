import ClassAtlas.Text.Hex

/-!
# What can be wrong with a class file

Every reader and editor of class files fails with one of the causes below.

## Main definitions

* `ClassAtlas.FormatError` — the causes.
* `ClassAtlas.FormatError.message` — the one wording of each cause.
-/

set_option autoImplicit false

namespace ClassAtlas

open Text

/-- The causes for which bytes are no class file, or a class cannot be edited as asked. -/
inductive FormatError where
  /-- The bytes end inside a structure. -/
  | unexpectedEnd
  /-- The first four bytes are not the class-file magic number. -/
  | badMagic
  /-- A pool entry starts with a tag that no constant has. -/
  | unknownConstantTag (tag : UInt8)
  /-- A pool index names no entry, or an entry of another kind than is needed there. -/
  | badConstantIndex (index : UInt16)
  /-- A text constant is not modified UTF-8. -/
  | badText
  /-- A text needs more than 65535 bytes, the most a text constant can hold. -/
  | textTooLong
  /-- A descriptor, or a tag that selects the shape of a structure, cannot be read. -/
  | malformedDescriptor (text : String)
  /-- A byte of a method body is no instruction. -/
  | unknownOpcode (opcode : UInt8) (offset : Nat)
  /-- The pool has no free slot. -/
  | poolFull
  /-- A structure is followed by bytes that do not belong to it. -/
  | trailingBytes (count : Nat)
  deriving DecidableEq, Repr

/-- The wording of a cause. -/
def FormatError.message : FormatError → String
  | .unexpectedEnd => "unexpected end of class file"
  | .badMagic => "invalid class file magic header"
  | .unknownConstantTag tag => "unsupported constant pool tag " ++ toString tag.toNat
  | .badConstantIndex index => "invalid constant pool index " ++ toString index.toNat
  | .badText => "invalid modified UTF-8 in constant pool"
  | .textTooLong => "string constant exceeds 65535 encoded bytes"
  | .malformedDescriptor text => "malformed descriptor: " ++ text
  | .unknownOpcode opcode offset =>
    "invalid opcode 0x" ++ hexOfByte opcode ++ " at offset " ++ toString offset
  | .poolFull => "constant pool is full"
  | .trailingBytes count => toString count ++ " trailing bytes after structure"

end ClassAtlas
