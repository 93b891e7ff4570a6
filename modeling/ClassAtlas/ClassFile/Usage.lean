import ClassAtlas.Code.Instruction
import ClassAtlas.ClassFile.Basic

/-!
# Constants in use

Editing a class adds constants behind the pool's last slot and leaves behind the ones that it
replaced. Trimming drops texts and name-and-type constants from the end of the pool as long as
nothing refers to them, so that an edit and its inverse restore the pool.

## Main definitions

* `ClassAtlas.Finding` — what a walk over a class finds: an index in use, or a reason to stop.
* `ClassAtlas.ClassFile.uses`, `ClassAtlas.ClassFile.indicesInUse` — the indices that a class uses.
* `ClassAtlas.ClassFile.trimInPlace`, `ClassAtlas.ClassFile.trim` — the class without the unused end
  of its pool, with what a failure leaves of it and without.

## Design

The walk is a plain list of findings in the order of the file. The first finding that is not an
index decides: a body that cannot be decoded is a failure, and an attribute whose indices are not
known makes the class one that is not trimmed at all.
-/

set_option autoImplicit false

namespace ClassAtlas

open Bytes

/-- A finding of a walk over a class. -/
inductive Finding where
  /-- An index in use. -/
  | index (value : UInt16)
  /-- An attribute whose indices are not known. -/
  | unaccounted
  /-- Something that cannot be decoded. -/
  | fault (cause : FormatError)
  deriving DecidableEq, Repr

namespace Finding

/-- The indices in use behind the reversed indices `done`; nothing if some attribute's indices are
not known. -/
def collectOnto (done : List UInt16) : List Finding → Except FormatError (Option (List UInt16))
  | [] => .ok (some done.reverse)
  | index i :: uses => collectOnto (i :: done) uses
  | unaccounted :: _ => .ok none
  | fault cause :: _ => .error cause

/-- The indices in use, unless a finding that is not an index comes first. -/
def collect (uses : List Finding) : Except FormatError (Option (List UInt16)) :=
  collectOnto [] uses

end Finding

/-- The indices in use in a value that holds no other. -/
def ElementLeaf.uses : ElementLeaf → List UInt16
  | const _ index => [index]
  | enumConst type name => [type, name]
  | classInfo descriptor => [descriptor]

mutual

/-- The indices in use in an annotation. -/
def AnnotationUse.uses : AnnotationUse → List UInt16
  | ⟨type, elements⟩ => type :: ElementPair.usesList elements

/-- The indices in use in an element value with its name. -/
def ElementPair.uses : ElementPair → List UInt16
  | ⟨name, value⟩ => name :: value.uses

/-- The indices in use in an element value. -/
def ElementValue.uses : ElementValue → List UInt16
  | .leaf value => value.uses
  | .nested value => value.uses
  | .array values => ElementValue.usesList values

/-- The indices in use in element values with their names. -/
def ElementPair.usesList : List ElementPair → List UInt16
  | [] => []
  | pair :: pairs => pair.uses ++ ElementPair.usesList pairs

/-- The indices in use in element values. -/
def ElementValue.usesList : List ElementValue → List UInt16
  | [] => []
  | value :: values => value.uses ++ ElementValue.usesList values

end

/-- Raw attributes that hold no indices, or only indices of classes. -/
def neutralAttributes : List String :=
  ["StackMapTable", "LineNumberTable", "Deprecated", "Synthetic", "SourceDebugExtension"]

/-- Reads the indices of a raw attribute of the given name, if they are known. -/
def rawIndices? (name : String) : Option (Reader (List UInt16)) :=
  if name = "SourceFile" ∨ name = "ConstantValue" then some do return [← Reader.u2]
  else if name = "MethodParameters" then
    some do
      Reader.replicate (← Reader.u1).toNat (do
        let name ← Reader.u2
        let _ ← Reader.u2
        return name)
  else none

/-- The findings in a raw attribute of the given name. -/
def rawUses (name : String) (bytes : List UInt8) : List Finding :=
  match rawIndices? name with
  | some reader =>
    match Reader.complete reader bytes with
    | .ok indices => indices.map .index
    | .error cause => [.fault cause]
  | none => if name ∈ neutralAttributes then [] else [.unaccounted]

/-- The findings in the body of an attribute without further attributes; `name` is the text index
of the attribute's name. -/
def FlatBody.uses (pool : Pool) (name : UInt16) : FlatBody → List Finding
  | signature index => [.index index]
  | annotations values => (values.flatMap AnnotationUse.uses).map .index
  | parameterAnnotations values => (values.flatten.flatMap AnnotationUse.uses).map .index
  | annotationDefault value => value.uses.map .index
  | bootstrapMethods methods => (methods.flatMap fun m => m.method :: m.arguments).map .index
  | localVariables entries => (entries.flatMap fun v => [v.name, v.descriptor]).map .index
  | enclosingMethod owner method => [.index owner, .index method]
  | classes indices => indices.map .index
  | nestHost index => [.index index]
  | innerClasses entries => (entries.flatMap fun c => [c.inner, c.outer, c.name]).map .index
  | typeAnnotations values => (values.flatMap fun a => a.use.uses).map .index
  | raw bytes =>
    match pool.text name with
    | .ok text => rawUses text bytes
    | .error cause => [.fault cause]

/-- The findings in the instructions of a method body. -/
def Listing.uses (listing : Listing) : List Finding :=
  (listing.instructions.filterMap Instruction.index).map .index ++
    (listing.fault.map Finding.fault).toList

mutual

/-- The findings in an attribute. -/
def Attribute.uses (pool : Pool) : Attribute → List Finding
  | ⟨name, body⟩ => .index name :: body.uses pool name

/-- The findings in the body of an attribute; `name` is the text index of its name. -/
def AttributeBody.uses (pool : Pool) (name : UInt16) : AttributeBody → List Finding
  | .flat body => body.uses pool name
  | .code body => body.uses pool
  | .record components => RecordComponent.usesList pool components

/-- The findings in the body of a method. -/
def CodeBody.uses (pool : Pool) : CodeBody → List Finding
  | ⟨_, _, code, handlers, attributes⟩ =>
    (Listing.ofCode code).uses ++ handlers.map (fun h => .index h.catchType) ++
      Attribute.usesList pool attributes

/-- The findings in a component of a record. -/
def RecordComponent.uses (pool : Pool) : RecordComponent → List Finding
  | ⟨name, descriptor, attributes⟩ =>
    .index name :: .index descriptor :: Attribute.usesList pool attributes

/-- The findings in attributes. -/
def Attribute.usesList (pool : Pool) : List Attribute → List Finding
  | [] => []
  | a :: attributes => a.uses pool ++ Attribute.usesList pool attributes

/-- The findings in components of a record. -/
def RecordComponent.usesList (pool : Pool) : List RecordComponent → List Finding
  | [] => []
  | c :: components => c.uses pool ++ RecordComponent.usesList pool components

end

/-- The findings in a member. -/
def Member.uses (pool : Pool) (m : Member) : List Finding :=
  .index m.name :: .index m.descriptor :: m.attributes.flatMap (Attribute.uses pool)

/-- The indices that the constants of a pool point at. -/
def Pool.childIndices (pool : Pool) : List UInt16 :=
  pool.slots.toList.flatMap fun slot => (slot.map Constant.children).getD []

namespace ClassFile

/-- The findings of a walk over a class. -/
def uses (c : ClassFile) : List Finding :=
  .index c.thisClass :: .index c.superClass :: c.interfaces.map .index ++
    c.fields.flatMap (Member.uses c.pool) ++ c.methods.flatMap (Member.uses c.pool) ++
    c.attributes.flatMap (Attribute.uses c.pool)

/-- The pool indices that a class uses outside its pool; nothing if they are not all known. -/
def indicesInUse (c : ClassFile) : Except FormatError (Option (List UInt16)) :=
  Finding.collect c.uses

/-- Drops texts and name-and-type constants from the end of the pool as long as the last slot is not
among the indices `inUse`. Dropping a constant that has children makes it necessary to count the
indices in use anew, in the class as it is then; where that fails, the class stays as it is then. No
more than `fuel` slots are dropped. -/
def trimWith : Nat → List UInt16 → ClassFile → Except FormatError Unit × ClassFile
  | 0, _, c => (.ok (), c)
  | fuel + 1, inUse, c =>
    let last := UInt16.ofNat (c.pool.size - 1)
    if c.pool.size ≤ 1 || inUse.contains last then (.ok (), c)
    else
      match c.pool.get? last with
      | some (.text _) => trimWith fuel inUse { c with pool := c.pool.pop }
      | some (.nameAndType _ _) =>
        let c := { c with pool := c.pool.pop }
        match c.indicesInUse with
        | .error cause => (.error cause, c)
        | .ok structural => trimWith fuel (structural.getD [] ++ c.pool.childIndices) c
      | _ => (.ok (), c)

/-- The class after trimming, and the number of slots dropped. Besides the indices that the class uses
outside its pool, the children of constants are in use. Nothing is dropped if not all indices are
known. After a failure the class is as the failure left it. -/
def trimInPlace (c : ClassFile) : Except FormatError Nat × ClassFile :=
  match c.indicesInUse with
  | .error cause => (.error cause, c)
  | .ok none => (.ok 0, c)
  | .ok (some structural) =>
    match trimWith c.pool.size (structural ++ c.pool.childIndices) c with
    | (.error cause, trimmed) => (.error cause, trimmed)
    | (.ok (), trimmed) => (.ok (c.pool.size - trimmed.pool.size), trimmed)

/-- The class without the unused end of its pool, and the number of slots dropped. -/
def trim (c : ClassFile) : Except FormatError (ClassFile × Nat) :=
  match c.trimInPlace with
  | (.error cause, _) => .error cause
  | (.ok n, trimmed) => .ok (trimmed, n)

end ClassFile

end ClassAtlas
