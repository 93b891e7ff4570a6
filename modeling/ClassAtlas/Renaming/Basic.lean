import ClassAtlas.ClassFile.Decode
import ClassAtlas.ClassFile.Encode
import ClassAtlas.ClassFile.Usage
import ClassAtlas.Renaming.Classes
import ClassAtlas.Renaming.Members

/-!
# Renaming inside class files

## Main definitions

* `ClassAtlas.Renaming` — a new name for a class or a member, with its `inverse`.
* `ClassAtlas.Renaming.apply` — the effect on a class.
* `ClassAtlas.reviseBytes` — the effect of a list of renamings on the bytes of a class file.
-/

set_option autoImplicit false

namespace ClassAtlas

/-- A new name for a class or a member. -/
inductive Renaming where
  /-- A new name for a class. -/
  | ofClass (rename : ClassRename)
  /-- A new name for a field or a method. -/
  | ofMember (rename : MemberRename)
  deriving DecidableEq, Repr

namespace Renaming

/-- The renaming that gives the old name back. -/
def inverse : Renaming → Renaming
  | ofClass r => ofClass ⟨r.new, r.old⟩
  | ofMember r => ofMember { r with name := r.newName, newName := r.name }

/-- The walk that renames. -/
def revise : Renaming → ClassFile → Revise ClassFile
  | ofClass r => r.revise
  | ofMember r => r.revise

/-- The class after a renaming, and whether anything was renamed. After a failure the class has the
edits that were made before. -/
def apply (r : Renaming) (c : ClassFile) : Except FormatError Bool × ClassFile :=
  match r.revise c ⟨c.pool, false, none⟩ with
  | (c, s) =>
    (match s.fault with
      | some cause => .error cause
      | none => .ok s.changed, { c with pool := s.pool })

/-- The class after renamings in turn, and whether any of them renamed anything. -/
def applyAll : List Renaming → ClassFile → Except FormatError (ClassFile × Bool)
  | [], c => .ok (c, false)
  | r :: renamings, c =>
    match r.apply c with
    | (.error cause, _) => .error cause
    | (.ok changed, c) =>
      match applyAll renamings c with
      | .error cause => .error cause
      | .ok (c, more) => .ok (c, changed || more)

end Renaming

/-- The bytes of a class file after renamings in turn, without the unused end of its pool; nothing
if there was nothing to rename. The result is checked to be a class file. -/
def reviseBytes (bytes : List UInt8) (renamings : List Renaming) :
    Except FormatError (Option (List UInt8)) := do
  let c ← ClassFile.decode bytes
  let (c, changed) ← Renaming.applyAll renamings c
  if changed then
    let (c, _) ← c.trim
    let bytes := c.encode
    let _ ← ClassFile.decode bytes
    return some bytes
  else return none

end ClassAtlas
