import ClassAtlas.Text.SlashPath

/-!
# Names of classes

A class is named by its package and its simple name, with slashes between the segments. Dots are
read as slashes.

## Main definitions

* `ClassAtlas.ClassName.slashed` — a name with slashes for dots.
* `ClassAtlas.ClassName.package?`, `ClassAtlas.ClassName.simpleName` — the parts of a name.
* `ClassAtlas.ClassName.isLegal` — whether a class may have a name.
* `ClassAtlas.ClassName.qualify` — a requested name in the package of another one.
-/

set_option autoImplicit false

namespace ClassAtlas.ClassName

/-- A name with slashes for dots. -/
def slashed (name : String) : String :=
  String.ofList (name.toList.map fun c => if c = '.' then '/' else c)

/-- The package of a class: the name before the last slash, if there is one. -/
def package? (name : String) : Option String :=
  SlashPath.parent? name

/-- The name of a class without its package. -/
def simpleName (name : String) : String :=
  SlashPath.lastSegment name

/-- Whether every segment of a name is non-empty and without the marks `;` and `[` of
descriptors. -/
def isLegal (name : String) : Bool :=
  (SlashPath.segments name.toList).all fun segment =>
    !segment.isEmpty && segment.all fun c => c != ';' && c != '['

/-- A requested name with slashes for dots, in the package of the old name if the request names no
package. -/
def qualify (old requested : String) : String :=
  let name := slashed requested
  if '/' ∈ name.toList then name
  else
    match package? old with
    | some package => package ++ "/" ++ name
    | none => name

end ClassAtlas.ClassName
