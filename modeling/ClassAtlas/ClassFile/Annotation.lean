import ClassAtlas.Bytes.Reader
import ClassAtlas.Text.Quoted

/-!
# Annotations

An annotation names its type and assigns values to elements; the values nest.

## Main definitions

* `ClassAtlas.AnnotationUse`, `ClassAtlas.ElementPair`, `ClassAtlas.ElementValue` — the types.
* `ClassAtlas.TypeAnnotationUse` — an annotation of a use of a type.
* `ClassAtlas.AnnotationUse.encode`, `ClassAtlas.AnnotationUse.read`, … — annotations as bytes.

## Design

All indices are kept as they are read; whether they resolve is not a matter of reading. Readers of
nested values recurse on an explicit bound on the depth. Each level of nesting has a byte of its
own, so a bound above the number of unread bytes is never reached.
-/

set_option autoImplicit false

namespace ClassAtlas

open Bytes

/-- A value of an annotation's element that holds no other value. -/
inductive ElementLeaf where
  /-- A constant, with the tag of its type. -/
  | const (tag : UInt8) (index : UInt16)
  /-- A constant of an enumeration: the descriptor of its type and its name. -/
  | enumConst (type name : UInt16)
  /-- A class, by the descriptor of a result. -/
  | classInfo (descriptor : UInt16)
  deriving DecidableEq, Repr

mutual

/-- An annotation. -/
structure AnnotationUse where
  /-- The text of the descriptor of the annotation's type. -/
  type : UInt16
  /-- The values of its elements. -/
  elements : List ElementPair

/-- The value of an element of an annotation. -/
structure ElementPair where
  /-- The text of the element's name. -/
  name : UInt16
  /-- The element's value. -/
  value : ElementValue

/-- A value of an annotation's element. -/
inductive ElementValue where
  /-- A value that holds no other. -/
  | leaf (value : ElementLeaf)
  /-- An annotation. -/
  | nested (value : AnnotationUse)
  /-- An array of values. -/
  | array (values : List ElementValue)

end

/-- An annotation of a use of a type. -/
structure TypeAnnotationUse where
  /-- What kind of use is annotated. -/
  targetType : UInt8
  /-- Where the use is, as bytes whose shape depends on the kind. -/
  target : List UInt8
  /-- The annotation. -/
  use : AnnotationUse

/-! ### Equality -/

mutual

/-- Equality of annotations is decidable. -/
def AnnotationUse.decEq : (a b : AnnotationUse) → Decidable (a = b)
  | ⟨type, elements⟩, ⟨type', elements'⟩ =>
    if h : type = type' then
      match ElementPair.decEqList elements elements' with
      | isTrue h' => isTrue (by rw [h, h'])
      | isFalse h' => isFalse fun e => h' (congrArg AnnotationUse.elements e)
    else isFalse fun e => h (congrArg AnnotationUse.type e)

/-- Equality of element values with names is decidable. -/
def ElementPair.decEq : (a b : ElementPair) → Decidable (a = b)
  | ⟨name, value⟩, ⟨name', value'⟩ =>
    if h : name = name' then
      match ElementValue.decEq value value' with
      | isTrue h' => isTrue (by rw [h, h'])
      | isFalse h' => isFalse fun e => h' (congrArg ElementPair.value e)
    else isFalse fun e => h (congrArg ElementPair.name e)

/-- Equality of element values is decidable. -/
def ElementValue.decEq : (a b : ElementValue) → Decidable (a = b)
  | .leaf a, .leaf b =>
    if h : a = b then isTrue (by rw [h]) else isFalse fun e => h (by injection e)
  | .nested a, .nested b =>
    match AnnotationUse.decEq a b with
    | isTrue h => isTrue (by rw [h])
    | isFalse h => isFalse fun e => h (by injection e)
  | .array a, .array b =>
    match ElementValue.decEqList a b with
    | isTrue h => isTrue (by rw [h])
    | isFalse h => isFalse fun e => h (by injection e)
  | .leaf _, .nested _ => isFalse nofun
  | .leaf _, .array _ => isFalse nofun
  | .nested _, .leaf _ => isFalse nofun
  | .nested _, .array _ => isFalse nofun
  | .array _, .leaf _ => isFalse nofun
  | .array _, .nested _ => isFalse nofun

/-- Equality of lists of element values with names is decidable. -/
def ElementPair.decEqList : (as bs : List ElementPair) → Decidable (as = bs)
  | [], [] => isTrue rfl
  | [], _ :: _ => isFalse nofun
  | _ :: _, [] => isFalse nofun
  | a :: as, b :: bs =>
    match ElementPair.decEq a b with
    | isTrue h =>
      match ElementPair.decEqList as bs with
      | isTrue h' => isTrue (by rw [h, h'])
      | isFalse h' => isFalse fun e => h' (by injection e)
    | isFalse h => isFalse fun e => h (by injection e)

/-- Equality of lists of element values is decidable. -/
def ElementValue.decEqList : (as bs : List ElementValue) → Decidable (as = bs)
  | [], [] => isTrue rfl
  | [], _ :: _ => isFalse nofun
  | _ :: _, [] => isFalse nofun
  | a :: as, b :: bs =>
    match ElementValue.decEq a b with
    | isTrue h =>
      match ElementValue.decEqList as bs with
      | isTrue h' => isTrue (by rw [h, h'])
      | isFalse h' => isFalse fun e => h' (by injection e)
    | isFalse h => isFalse fun e => h (by injection e)

end

instance : DecidableEq AnnotationUse := AnnotationUse.decEq

instance : DecidableEq ElementPair := ElementPair.decEq

instance : DecidableEq ElementValue := ElementValue.decEq

deriving instance DecidableEq for TypeAnnotationUse

/-! ### Annotations as bytes -/

/-- A value that holds no other as bytes: its tag, then its indices. -/
def ElementLeaf.encode : ElementLeaf → List UInt8
  | const tag index => tag :: u2 index
  | enumConst type name => 0x65 :: u2 type ++ u2 name
  | classInfo descriptor => 0x63 :: u2 descriptor

mutual

/-- An annotation as bytes. -/
def AnnotationUse.encode : AnnotationUse → List UInt8
  | ⟨type, elements⟩ =>
    u2 type ++ u2 (UInt16.ofNat elements.length) ++ ElementPair.encodeList elements

/-- An element value with its name as bytes. -/
def ElementPair.encode : ElementPair → List UInt8
  | ⟨name, value⟩ => u2 name ++ value.encode

/-- An element value as bytes: its tag, then its parts. -/
def ElementValue.encode : ElementValue → List UInt8
  | .leaf value => value.encode
  | .nested value => 0x40 :: value.encode
  | .array values => 0x5B :: u2 (UInt16.ofNat values.length) ++ ElementValue.encodeList values

/-- Element values with their names as bytes, without their number. -/
def ElementPair.encodeList : List ElementPair → List UInt8
  | [] => []
  | pair :: pairs => pair.encode ++ ElementPair.encodeList pairs

/-- Element values as bytes, without their number. -/
def ElementValue.encodeList : List ElementValue → List UInt8
  | [] => []
  | value :: values => value.encode ++ ElementValue.encodeList values

end

/-- The tags of constant element values: the base types and texts. -/
def ElementLeaf.constTags : List UInt8 :=
  [0x42, 0x43, 0x44, 0x46, 0x49, 0x4A, 0x53, 0x5A, 0x73]

/-- Reads the value behind `tag`, given a reader for the values inside it. -/
def ElementValue.readTagged (inner : Reader ElementValue) (tag : UInt8) : Reader ElementValue := do
  if tag ∈ ElementLeaf.constTags then
    return .leaf (.const tag (← Reader.u2))
  else if tag = 0x65 then
    return .leaf (.enumConst (← Reader.u2) (← Reader.u2))
  else if tag = 0x63 then
    return .leaf (.classInfo (← Reader.u2))
  else if tag = 0x40 then
    return .nested ⟨← Reader.u2, ← Reader.table (do return ⟨← Reader.u2, ← inner⟩)⟩
  else if tag = 0x5B then
    return .array (← Reader.table inner)
  else
    Reader.fail (.malformedDescriptor
      ("unknown element value tag " ++ Text.quoteChar (Char.ofNat tag.toNat)))

/-- Reads an element value of at most the given depth. -/
def ElementValue.read : Nat → Reader ElementValue
  | 0 => Reader.fail .unexpectedEnd
  | depth + 1 => do ElementValue.readTagged (ElementValue.read depth) (← Reader.u1)

/-- Reads an annotation whose values have at most the given depth. -/
def AnnotationUse.read (depth : Nat) : Reader AnnotationUse := do
  return ⟨← Reader.u2, ← Reader.table (do return ⟨← Reader.u2, ← ElementValue.read depth⟩)⟩

/-- Reads the number of bytes that say where a use of a type of the given kind is: a parameter, a
supertype, a bound, a thrown or caught type, an offset, a type argument or ranges of a local
variable. -/
def TypeAnnotationUse.readTarget (targetType : UInt8) : Reader (List UInt8) :=
  let n := targetType.toNat
  if n = 0x00 ∨ n = 0x01 ∨ n = 0x16 then Reader.slice 1
  else if 0x10 ≤ n ∧ n ≤ 0x12 ∨ n = 0x17 ∨ 0x42 ≤ n ∧ n ≤ 0x46 then Reader.slice 2
  else if 0x13 ≤ n ∧ n ≤ 0x15 then return []
  else if n = 0x40 ∨ n = 0x41 then do
    let ranges ← Reader.u2
    return u2 ranges ++ (← Reader.slice (ranges.toNat * 6))
  else if 0x47 ≤ n ∧ n ≤ 0x4B then Reader.slice 3
  else
    Reader.fail (.malformedDescriptor
      ("unknown type annotation target 0x" ++ Text.hexOfByte targetType))

/-- Reads an annotation of a use of a type, whose values have at most the given depth. The path
into the type follows the place of its use. -/
def TypeAnnotationUse.read (depth : Nat) : Reader TypeAnnotationUse := do
  let targetType ← Reader.u1
  let place ← TypeAnnotationUse.readTarget targetType
  let steps ← Reader.u1
  let path ← Reader.slice (steps.toNat * 2)
  return ⟨targetType, place ++ steps :: path, ← AnnotationUse.read depth⟩

/-- An annotation of a use of a type as bytes. -/
def TypeAnnotationUse.encode (a : TypeAnnotationUse) : List UInt8 :=
  a.targetType :: a.target ++ a.use.encode

end ClassAtlas
