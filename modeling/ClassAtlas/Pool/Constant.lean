import ClassAtlas.Bytes.Reader
import ClassAtlas.Text.ModifiedUtf8

/-!
# Constants

The entries of a constant pool. A constant is a value, or points at other entries by their index.

## Main definitions

* `ClassAtlas.Constant` — the entries, with `isWide` and `children`.
* `ClassAtlas.Constant.encode`, `ClassAtlas.Constant.read` — constants as bytes.
-/

set_option autoImplicit false

namespace ClassAtlas

open Bytes

/-- What a reference to a member refers to. -/
inductive MemberRefKind where
  /-- A field. -/
  | field
  /-- A method of a class. -/
  | method
  /-- A method of an interface. -/
  | interfaceMethod
  deriving DecidableEq, Repr

/-- An entry of a constant pool. -/
inductive Constant where
  /-- A text. -/
  | text (value : String)
  /-- A 32-bit integer. -/
  | integer (value : Int32)
  /-- The bits of a 32-bit floating-point number. -/
  | float (bits : UInt32)
  /-- A 64-bit integer. -/
  | long (value : Int64)
  /-- The bits of a 64-bit floating-point number. -/
  | double (bits : UInt64)
  /-- A class, by the text of its name. -/
  | classRef (name : UInt16)
  /-- A string literal, by its text. -/
  | string (value : UInt16)
  /-- A field or method of a class. -/
  | memberRef (kind : MemberRefKind) (owner nameType : UInt16)
  /-- The name and the descriptor of a member, both texts. -/
  | nameAndType (name descriptor : UInt16)
  /-- A handle of a member. -/
  | methodHandle (kind : UInt8) (reference : UInt16)
  /-- The type of a method, by the text of its descriptor. -/
  | methodType (descriptor : UInt16)
  /-- A constant computed by a bootstrap method. -/
  | dynamic (bootstrap nameType : UInt16)
  /-- A call site linked by a bootstrap method. -/
  | invokeDynamic (bootstrap nameType : UInt16)
  /-- A module, by the text of its name. -/
  | moduleRef (name : UInt16)
  /-- A package, by the text of its name. -/
  | packageRef (name : UInt16)
  deriving DecidableEq, Repr

namespace Constant

/-- Whether a constant takes two slots of the pool. -/
def isWide : Constant → Bool
  | long _ | double _ => true
  | _ => false

/-- The number of slots that a constant takes. -/
def width (c : Constant) : Nat :=
  if c.isWide then 2 else 1

/-- The pool indices that a constant points at. -/
def children : Constant → List UInt16
  | classRef name | moduleRef name | packageRef name => [name]
  | string value => [value]
  | methodType descriptor => [descriptor]
  | memberRef _ owner nameType => [owner, nameType]
  | nameAndType name descriptor => [name, descriptor]
  | methodHandle _ reference => [reference]
  | dynamic _ nameType | invokeDynamic _ nameType => [nameType]
  | text _ | integer _ | float _ | long _ | double _ => []

/-- The tag of a reference to a member. -/
def memberTag : MemberRefKind → UInt8
  | .field => 9
  | .method => 10
  | .interfaceMethod => 11

/-- A constant as bytes: its tag, then its operands. The length of a text is kept modulo `2 ^ 16`. -/
def encode : Constant → List UInt8
  | text value =>
    let bytes := Text.encode value
    1 :: u2 (UInt16.ofNat bytes.length) ++ bytes
  | integer value => 3 :: u4 value.toUInt32
  | float bits => 4 :: u4 bits
  | long value => 5 :: u8 value.toUInt64
  | double bits => 6 :: u8 bits
  | classRef name => 7 :: u2 name
  | string value => 8 :: u2 value
  | memberRef kind owner nameType => memberTag kind :: u2 owner ++ u2 nameType
  | nameAndType name descriptor => 12 :: u2 name ++ u2 descriptor
  | methodHandle kind reference => 15 :: kind :: u2 reference
  | methodType descriptor => 16 :: u2 descriptor
  | dynamic bootstrap nameType => 17 :: u2 bootstrap ++ u2 nameType
  | invokeDynamic bootstrap nameType => 18 :: u2 bootstrap ++ u2 nameType
  | moduleRef name => 19 :: u2 name
  | packageRef name => 20 :: u2 name

/-- Reads the operands of the constant with the given tag. -/
def readOperands (tag : UInt8) : Reader Constant :=
  match tag with
  | 1 => do
    let bytes ← Reader.slice (← Reader.u2).toNat
    return text (← Reader.ofExcept (Text.decode bytes))
  | 3 => return integer (← Reader.u4).toInt32
  | 4 => return float (← Reader.u4)
  | 5 => return long (← Reader.u8).toInt64
  | 6 => return double (← Reader.u8)
  | 7 => return classRef (← Reader.u2)
  | 8 => return string (← Reader.u2)
  | 9 => return memberRef .field (← Reader.u2) (← Reader.u2)
  | 10 => return memberRef .method (← Reader.u2) (← Reader.u2)
  | 11 => return memberRef .interfaceMethod (← Reader.u2) (← Reader.u2)
  | 12 => return nameAndType (← Reader.u2) (← Reader.u2)
  | 15 => return methodHandle (← Reader.u1) (← Reader.u2)
  | 16 => return methodType (← Reader.u2)
  | 17 => return dynamic (← Reader.u2) (← Reader.u2)
  | 18 => return invokeDynamic (← Reader.u2) (← Reader.u2)
  | 19 => return moduleRef (← Reader.u2)
  | 20 => return packageRef (← Reader.u2)
  | tag => Reader.fail (.unknownConstantTag tag)

/-- Reads a constant. -/
def read : Reader Constant := do
  readOperands (← Reader.u1)

end Constant

end ClassAtlas
