import ClassAtlas.Store.Snapshot

/-!
# Trees of files

Files and directories form a tree: a directory holds files and directories under names.

## Main definitions

* `ClassAtlas.FileBody` — what a file is.
* `ClassAtlas.Node` — a file, or a directory with all that is below it.
* `ClassAtlas.Node.at?`, `put`, `erase` — what stands at a place, and a tree with something else there,
  or with nothing.
* `ClassAtlas.Node.items` — all that is below a directory.
-/

set_option autoImplicit false

namespace ClassAtlas

/-- A place in a tree: the names that lead to it from the root. -/
abbrev DiskPath := List String

/-- What a file is. -/
inductive FileBody where
  /-- A file with a content. -/
  | plain (content : Content)
  /-- A file that holds the tables of a workspace. -/
  | tables (file : TablesFile)
  deriving DecidableEq, Repr

namespace FileBody

/-- What a file holds. -/
def content : FileBody → Content
  | plain content => content
  | tables file => .sealed .tables file.toBytes

/-- The tables in a file, if it holds tables, or what was once read from such a file. -/
def tables? : FileBody → Option TablesFile
  | tables file => some file
  | plain (.sealed .tables image) => TablesFile.ofBytes? image
  | plain _ => none

end FileBody

/-- A file, or a directory with all that is below it. -/
inductive Node where
  /-- A directory. -/
  | directory (entries : List (String × Node))
  /-- A file. -/
  | file (body : FileBody)
  deriving Repr

namespace Node

/-- A directory with nothing in it. -/
def emptyDirectory : Node := directory []

/-- Whether it is a directory. -/
def isDirectory : Node → Bool
  | directory _ => true
  | file _ => false

/-- What a file holds; a directory holds nothing. -/
def content? : Node → Option Content
  | directory _ => none
  | file body => some body.content

/-- What a directory holds; a file holds nothing. -/
def entries : Node → List (String × Node)
  | directory entries => entries
  | file _ => []

/-- What a directory holds under a name. -/
def child? (node : Node) (name : String) : Option Node :=
  node.entries.lookup name

/-- What stands at a place. -/
def at? (node : Node) (place : DiskPath) : Option Node :=
  place.foldlM child? node

/-- Entries with something under a name, where it takes the place of what was there. -/
def setEntry (name : String) (node : Node) : List (String × Node) → List (String × Node)
  | [] => [(name, node)]
  | entry :: rest =>
    if entry.1 = name then (name, node) :: rest else entry :: setEntry name node rest

/-- A tree with something at a place. Directories on the way to it are made. -/
def put (new : Node) : DiskPath → Node → Node
  | [], _ => new
  | name :: place, node =>
    directory (setEntry name (put new place ((node.child? name).getD emptyDirectory)) node.entries)

/-- Entries without what is under a name. -/
def eraseEntry (name : String) (entries : List (String × Node)) : List (String × Node) :=
  entries.filter fun entry => entry.1 != name

/-- A tree without what stands at a place. -/
def erase : DiskPath → Node → Node
  | [], node => node
  | [name], node => if node.isDirectory then directory (eraseEntry name node.entries) else node
  | name :: place, node =>
    match node.child? name with
    | some child => directory (setEntry name (erase place child) node.entries)
    | none => node

mutual

/-- All that is below a directory, with the places from there. A directory has no body. -/
def items : Node → List (DiskPath × Option FileBody)
  | directory entries => itemsOf entries
  | file _ => []

/-- Entries with all that is below them. -/
def itemsOf : List (String × Node) → List (DiskPath × Option FileBody)
  | [] => []
  | (name, directory entries) :: rest =>
    ([name], none) :: ((itemsOf entries).map fun item => (name :: item.1, item.2)) ++ itemsOf rest
  | (name, file body) :: rest => ([name], some body) :: itemsOf rest

end

/-- The files below a directory, with the places from there. -/
def files (node : Node) : List (DiskPath × FileBody) :=
  node.items.filterMap fun item => item.2.map fun body => (item.1, body)

end Node

end ClassAtlas
