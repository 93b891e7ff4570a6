/-!
# Texts with slashes

Paths of files and names of classes are segments with slashes between them.

## Main definitions

* `ClassAtlas.SlashPath.segments` — the segments.
* `ClassAtlas.SlashPath.lastSegment`, `parent?` — the last segment, and what stands before it.
* `ClassAtlas.SlashPath.withLastSegment` — a text with another last segment.
-/

set_option autoImplicit false

namespace ClassAtlas.SlashPath

/-- The segments of a text between slashes. -/
def segments : List Char → List (List Char)
  | [] => [[]]
  | c :: cs =>
    if c = '/' then [] :: segments cs
    else
      match segments cs with
      | [] => [[c]]
      | segment :: rest => (c :: segment) :: rest

/-- The text behind the last slash. -/
def lastSegment (path : String) : String :=
  String.ofList (path.toList.reverse.takeWhile (· != '/')).reverse

/-- The text before the last slash, if there is one. -/
def parent? (path : String) : Option String :=
  if '/' ∈ path.toList then
    some (String.ofList ((path.toList.reverse.dropWhile (· != '/')).drop 1).reverse)
  else none

/-- The text with another last segment. -/
def withLastSegment (path name : String) : String :=
  String.ofList (path.toList.reverse.dropWhile (· != '/')).reverse ++ name

end ClassAtlas.SlashPath
