import ClassAtlas.Renaming.Revision

/-!
# Renaming a member inside a class file

A field or a method is known by its owner, its name and its descriptor. Renaming it changes the
declaration, if the class file is the owner's, every reference to exactly this member, and for a
method the enclosing method of a local class. References get a name-and-type constant of their own,
because others may share the old one.

## Main definitions

* `ClassAtlas.MemberSort` — fields or methods.
* `ClassAtlas.MemberRename` — the member and its new name.
* `ClassAtlas.MemberRename.revise` — the walk.
-/

set_option autoImplicit false

namespace ClassAtlas

/-- Fields or methods. -/
inductive MemberSort where
  /-- Fields. -/
  | field
  /-- Methods, of classes and of interfaces. -/
  | method
  deriving DecidableEq, Repr

/-- Whether references of a kind refer to members of this sort. -/
def MemberSort.covers : MemberSort → MemberRefKind → Bool
  | field, .field => true
  | method, .method | method, .interfaceMethod => true
  | _, _ => false

/-- A new name for a member. -/
structure MemberRename where
  /-- What the member is. -/
  sort : MemberSort
  /-- The name of its class. -/
  owner : String
  /-- The name to be replaced. -/
  name : String
  /-- Its descriptor. -/
  descriptor : String
  /-- The name that replaces it. -/
  newName : String
  deriving DecidableEq, Repr

namespace MemberRename

/-- Whether the texts at two indices are the name and the descriptor of the member. -/
def namesMember (r : MemberRename) (pool : Pool) (name descriptor : UInt16) :
    Except FormatError Bool := do
  let text ← pool.text name
  if text ≠ r.name then return false
  return (← pool.text descriptor) = r.descriptor

/-- Whether a class constant and a name-and-type constant name the member. -/
def refersTo (r : MemberRename) (pool : Pool) (owner nameType : UInt16) :
    Except FormatError Bool := do
  let text ← pool.className owner
  if text ≠ r.owner then return false
  return (← pool.nameAndType nameType) = (r.name, r.descriptor)

/-- Renames the declaration of the member. -/
def reviseDeclaration (r : MemberRename) (m : Member) : Revise Member :=
  Revise.edit m fun pool =>
    match r.namesMember pool m.name m.descriptor with
    | .error cause => (.error cause, pool)
    | .ok false => (.ok none, pool)
    | .ok true =>
      match Pool.internText r.newName pool with
      | (.ok name, pool) => (.ok (some { m with name }), pool)
      | (.error cause, pool) => (.error cause, pool)

/-- Whether a constant is a reference to the member. -/
def isReference (r : MemberRename) (pool : Pool) : Constant → Except FormatError Bool
  | .memberRef kind owner nameType =>
    if r.sort.covers kind then r.refersTo pool owner nameType else .ok false
  | _ => .ok false

/-- The indices of the references to the member. -/
def references (r : MemberRename) (pool : Pool) : Except FormatError (List UInt16) := do
  let found ← pool.constants.mapM fun (index, c) => do
    return if ← r.isReference pool c then some index else none
  return found.filterMap id

/-- A pool with another name-and-type constant for the reference at an index. -/
def repointMember (nameType : UInt16) (pool : Pool) (index : UInt16) : Pool :=
  match pool.get? index with
  | some (.memberRef kind owner _) => pool.set index (.memberRef kind owner nameType)
  | _ => pool

/-- Renames the references to the member. -/
def reviseReferences (r : MemberRename) : Revise Unit :=
  Revise.edit () fun pool =>
    match r.references pool with
    | .error cause => (.error cause, pool)
    | .ok [] => (.ok none, pool)
    | .ok indices =>
      match Pool.internNameAndType r.newName r.descriptor pool with
      | (.ok nameType, pool) => (.ok (some ()), indices.foldl (repointMember nameType) pool)
      | (.error cause, pool) => (.error cause, pool)

/-- Renames the method around a local class. -/
def reviseEnclosing (r : MemberRename) (a : Attribute) : Revise Attribute :=
  match a.body with
  | .flat (.enclosingMethod owner method) =>
    Revise.edit a fun pool =>
      if method = 0 then (.ok none, pool)
      else
        match r.refersTo pool owner method with
        | .error cause => (.error cause, pool)
        | .ok false => (.ok none, pool)
        | .ok true =>
          match Pool.internNameAndType r.newName r.descriptor pool with
          | (.ok method, pool) =>
            (.ok (some { a with body := .flat (.enclosingMethod owner method) }), pool)
          | (.error cause, pool) => (.error cause, pool)
  | _ => return a

/-- Renames the member in a class file; the edited pool is in the revision. -/
def revise (r : MemberRename) (c : ClassFile) : Revise ClassFile := do
  let name ← Revise.ask "" fun pool => pool.className c.thisClass
  let declare (sort : MemberSort) (members : List Member) : Revise (List Member) :=
    if name = r.owner ∧ sort = r.sort then members.mapM r.reviseDeclaration else return members
  let fields ← declare .field c.fields
  let methods ← declare .method c.methods
  r.reviseReferences
  let attributes ←
    match r.sort with
    | .field => pure c.attributes
    | .method => c.attributes.mapM r.reviseEnclosing
  return { c with fields, methods, attributes }

end MemberRename

end ClassAtlas
