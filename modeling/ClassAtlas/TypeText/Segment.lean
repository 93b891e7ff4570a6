/-!
# Type text in segments

Descriptors and generic signatures are texts in which class names stand between other characters.
Both are cut into *segments*: a class name is one segment, every other character is a segment of
its own. Collecting the classes that a text names and replacing one of them are then operations on
segments that do not depend on which grammar cut the text.

## Main definitions

* `ClassAtlas.Segment` — a character or a class name.
* `ClassAtlas.Segment.render` — the text that segments spell.
* `ClassAtlas.Segment.classNames` — the class names in order of appearance.
* `ClassAtlas.Segment.renameClass?` — the text with one class name replaced, if it occurs.

## Main results

* `ClassAtlas.Segment.render_append` — the text of concatenated segments.
* `ClassAtlas.Segment.classNames_map_rename` — renaming acts on the class names pointwise.
* `ClassAtlas.Segment.renameClass?_eq_none_iff` — nothing is replaced exactly when the name does
  not occur.
-/

set_option autoImplicit false

namespace ClassAtlas

/-- A piece of type text: a character that is not part of a class name, or a class name. -/
inductive Segment where
  /-- A character outside class names. -/
  | char (c : Char)
  /-- A class name. -/
  | className (name : List Char)
  deriving DecidableEq, Repr

namespace Segment

/-- The characters that a segment stands for. -/
def chars : Segment → List Char
  | char c => [c]
  | className name => name

/-- The text that a list of segments spells. -/
def render (segments : List Segment) : List Char :=
  segments.flatMap chars

/-- The class name of a segment, if it is one. -/
def className? : Segment → Option (List Char)
  | char _ => none
  | className name => some name

/-- The class names of a text, in order of appearance and with repetitions. -/
def classNames (segments : List Segment) : List (List Char) :=
  segments.filterMap className?

/-- One class name replaced by another in a single segment. -/
def rename (old new : List Char) : Segment → Segment
  | char c => char c
  | className name => className (if name = old then new else name)

/-- The text with every class name `old` replaced by `new`, or nothing if `old` does not occur. -/
def renameClass? (segments : List Segment) (old new : List Char) : Option (List Char) :=
  if old ∈ classNames segments then some (render (segments.map (rename old new))) else none

@[simp]
theorem render_nil : render [] = [] := rfl

@[simp]
theorem render_cons (s : Segment) (segments : List Segment) :
    render (s :: segments) = s.chars ++ render segments := rfl

@[simp]
theorem render_append (a b : List Segment) : render (a ++ b) = render a ++ render b := by
  simp [render]

@[simp]
theorem render_map_char (cs : List Char) : render (cs.map char) = cs := by
  induction cs with
  | nil => rfl
  | cons c cs ih => simp [chars, ih]

@[simp]
theorem classNames_nil : classNames [] = [] := rfl

@[simp]
theorem classNames_char_cons (c : Char) (segments : List Segment) :
    classNames (char c :: segments) = classNames segments := rfl

@[simp]
theorem classNames_className_cons (name : List Char) (segments : List Segment) :
    classNames (className name :: segments) = name :: classNames segments := rfl

@[simp]
theorem classNames_append (a b : List Segment) :
    classNames (a ++ b) = classNames a ++ classNames b := by
  simp [classNames]

/-- Renaming acts on the class names pointwise. -/
theorem classNames_map_rename (segments : List Segment) (old new : List Char) :
    classNames (segments.map (rename old new)) =
      (classNames segments).map fun name => if name = old then new else name := by
  induction segments with
  | nil => rfl
  | cons s segments ih =>
    cases s with
    | char c => simpa [rename] using ih
    | className name => simpa [rename] using ih

/-- Nothing is replaced exactly when the old name does not occur. -/
theorem renameClass?_eq_none_iff (segments : List Segment) (old new : List Char) :
    renameClass? segments old new = none ↔ old ∉ classNames segments := by
  simp [renameClass?]

end Segment

end ClassAtlas
