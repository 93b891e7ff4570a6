import ClassAtlas.ClassFile.Basic

/-!
# Revisions

Renaming walks over a class and replaces pool indices, interning new texts as it goes. A revision
is the state of such a walk: the pool so far, whether anything was replaced, and the first fault.
Once there is a fault the walk goes on without changing anything, so that the class it returns is
the one with the edits before the fault.

## Main definitions

* `ClassAtlas.Revision`, `ClassAtlas.Revise` — the state and the walks.
* `ClassAtlas.Revise.ask` — a question to the pool.
* `ClassAtlas.Revise.edit` — a possible replacement.
* `ClassAtlas.Revise.repoint` — the replacement of a text.
-/

set_option autoImplicit false

namespace ClassAtlas

/-- The state of a walk that edits a class. -/
structure Revision where
  /-- The pool so far. -/
  pool : Pool
  /-- Whether something was replaced. -/
  changed : Bool
  /-- The first fault. -/
  fault : Option FormatError

/-- A walk that edits a class. -/
abbrev Revise (α : Type) := StateM Revision α

namespace Revise

variable {α : Type}

/-- The answer of the pool, or `fallback` from the first fault on. -/
def ask (fallback : α) (question : Pool → Except FormatError α) : Revise α := fun s =>
  match s.fault with
  | some _ => (fallback, s)
  | none =>
    match question s.pool with
    | .ok a => (a, s)
    | .error cause => (fallback, { s with fault := some cause })

/-- The replacement that an edit of the pool yields, or `fallback` if it yields none and from the
first fault on. -/
def edit (fallback : α) (replacement : Pool.Edit (Option α)) : Revise α := fun s =>
  match s.fault with
  | some _ => (fallback, s)
  | none =>
    match replacement s.pool with
    | (.ok (some a), pool) => (a, ⟨pool, true, none⟩)
    | (.ok none, pool) => (fallback, { s with pool })
    | (.error cause, pool) => (fallback, { s with pool, fault := some cause })

/-- The index of the text that `f` makes of the text at an index; the index itself if `f` makes
none. -/
def repoint (f : String → Option String) (index : UInt16) : Revise UInt16 :=
  edit index do
    match f (← liftExcept ((← getThe Pool).text index)) with
    | some text => return some (← Pool.internText text)
    | none => return none
where
  /-- A computation that may fail as an edit that changes nothing. -/
  liftExcept {β : Type} : Except FormatError β → Pool.Edit β
    | .ok b => pure b
    | .error cause => throw cause

end Revise

end ClassAtlas
