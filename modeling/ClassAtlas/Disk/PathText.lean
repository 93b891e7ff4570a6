import ClassAtlas.Disk.Fault
import ClassAtlas.Text.SlashPath

/-!
# Paths as texts

A path is written as names with slashes between them. It starts at the root of the disk if it starts
with a slash, and at the current directory otherwise. The name `.` stands for the directory where it
stands and `..` for the one above; slashes may be repeated.

## Main definitions

* `ClassAtlas.PathText.segments` — the names.
* `ClassAtlas.PathText.join` — a path that starts in a directory.
* `ClassAtlas.PathText.parent?`, `ancestors` — the path without its last name, and so on.
* `ClassAtlas.PathText.check` — refuses texts that are no paths.
-/

set_option autoImplicit false

namespace ClassAtlas.PathText

/-- The names of a path. An empty one stands before a slash at the start, between two slashes, and
behind a slash at the end. -/
def segments (path : String) : List String :=
  (SlashPath.segments path.toList).map String.ofList

/-- Names with slashes between them. -/
def ofSegments (segments : List String) : String :=
  String.intercalate "/" segments

/-- Whether a path starts at the root of the disk. -/
def isAbsolute (path : String) : Bool :=
  path.toList.head? == some '/'

/-- Whether a path ends in a slash. -/
def endsInSlash (path : String) : Bool :=
  path.toList.getLast? == some '/'

/-- A path that starts in a directory; one that starts at the root of the disk stays as it is. -/
def join (directory path : String) : String :=
  if isAbsolute path then path
  else if directory.isEmpty || endsInSlash directory then directory ++ path
  else directory ++ "/" ++ path

/-- Whether a name leads nowhere: it is empty, or stands for the directory where it stands. -/
def isIdle (segment : String) : Bool :=
  segment == "" || segment == "."

/-- Whether a name stands for a directory that is known without it. -/
def isDots (segment : String) : Bool :=
  segment == "." || segment == ".."

/-- Names without those at the end that lead nowhere. -/
def trimEnd (segments : List String) : List String :=
  (segments.reverse.dropWhile isIdle).reverse

/-- The path without its last name; nothing if there is none. A dot at the very start counts as a
name. -/
def parent? (path : String) : Option String :=
  let (start, names) :=
    match segments path with
    | "" :: names => (if isAbsolute path then [""] else [], names)
    | "." :: names => (["."], names)
    | names => ([], names)
  match trimEnd names with
  | [] => if start = ["."] then some "" else none
  | names =>
    match start ++ trimEnd names.dropLast with
    | [""] => some "/"
    | names => some (ofSegments names)

/-- A path, the path without its last name, and so on, at most `fuel` of them, as long as there is a
name. -/
def ancestorsWithin : Nat → String → List String
  | 0, _ => []
  | fuel + 1, path =>
    match parent? path with
    | some parent => path :: ancestorsWithin fuel parent
    | none => []

/-- A path, the path without its last name, and so on, as long as there is a name. -/
def ancestors (path : String) : List String :=
  ancestorsWithin (path.length + 1) path

/-- The number of bytes from which on a path is too long. -/
def sizeLimit : Nat := 4096

/-- The number of bytes that a name has at most. -/
def nameLimit : Nat := 255

/-- Refuses texts that are no paths: those without a character, and those with one that ends
texts. -/
def check (path : String) : Except DiskFault Unit :=
  if path.toList.contains (Char.ofNat 0) then .error .endOfText
  else if path.isEmpty then .error .missing
  else .ok ()

/-- Refuses texts that are no paths, and paths that are too long. -/
def checkSize (path : String) : Except DiskFault Unit := do
  check path
  if sizeLimit ≤ path.utf8ByteSize then .error .nameTooLong else .ok ()

end ClassAtlas.PathText
