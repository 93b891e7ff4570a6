import ClassAtlas.Disk.PathText
import ClassAtlas.Disk.Tree

/-!
# Disks

A disk is a tree of files, seen from a current directory. Whatever is done with it follows a path
name by name, and every name but the last one has to lead to a directory.

## Main definitions

* `ClassAtlas.Trail` — a place, with all that stands on the way to it.
* `ClassAtlas.Disk`, `ClassAtlas.Disk.locate` — a disk, and where a path leads.
* `ClassAtlas.Disk.put`, `erase`, `makeDirectory`, `writeFile` — changes at one place.
* `ClassAtlas.DiskAction` — changes that keep what was done before a failure.
* `ClassAtlas.Disk.makeDirectories`, `provide` — a directory with those above it, and a file with its
  directory.
-/

set_option autoImplicit false

namespace ClassAtlas

/-! ### Following paths -/

/-- A place, with all that stands on the way to it. -/
structure Trail where
  /-- What stands at the place. -/
  node : Node
  /-- The names that lead to the place, the last one first. -/
  names : List String
  /-- What stands at the places above, the nearest one first. -/
  above : List Node

namespace Trail

/-- The root of a tree. -/
def ofRoot (root : Node) : Trail := ⟨root, [], []⟩

/-- The place. -/
def place (trail : Trail) : DiskPath := trail.names.reverse

/-- The directory above; above the root is the root. -/
def up (trail : Trail) : Trail :=
  match trail.names, trail.above with
  | _ :: names, node :: above => ⟨node, names, above⟩
  | _, _ => trail

/-- Goes where a name leads. -/
def enter (trail : Trail) (segment : String) : Except DiskFault Trail :=
  if !trail.node.isDirectory then .error .notDirectory
  else if PathText.isIdle segment then .ok trail
  else if segment == ".." then .ok trail.up
  else if PathText.nameLimit < segment.utf8ByteSize then .error .nameTooLong
  else
    match trail.node.child? segment with
    | some node => .ok ⟨node, segment :: trail.names, trail.node :: trail.above⟩
    | none => .error .missing

/-- Goes where names lead. -/
def follow (trail : Trail) (segments : List String) : Except DiskFault Trail :=
  segments.foldlM enter trail

end Trail

/-- A tree of files, seen from a current directory. -/
structure Disk where
  /-- The current directory. -/
  here : DiskPath
  /-- The tree. -/
  root : Node

namespace Disk

/-- Nothing but the current directory. -/
def empty (here : DiskPath) : Disk := ⟨here, Node.emptyDirectory.put here Node.emptyDirectory⟩

/-- What stands at a place. -/
def node? (disk : Disk) (place : DiskPath) : Option Node :=
  disk.root.at? place

/-- The disk with something at a place. -/
def put (disk : Disk) (place : DiskPath) (node : Node) : Disk :=
  { disk with root := node.put place disk.root }

/-- The disk without what stands at a place. -/
def erase (disk : Disk) (place : DiskPath) : Disk :=
  { disk with root := disk.root.erase place }

/-- What the file at a place holds, if there is one. -/
def content? (disk : Disk) (place : DiskPath) : Option Content :=
  (disk.node? place).bind Node.content?

/-- Whether a directory stands at a place. -/
def hasDirectory (disk : Disk) (place : DiskPath) : Bool :=
  (disk.node? place).any Node.isDirectory

/-- Whether a file can be written at a place in a directory: its name is not too long, and no directory
has that name. -/
def canHold (disk : Disk) (place : DiskPath) : Bool :=
  (place.getLastD "").utf8ByteSize ≤ PathText.nameLimit && !disk.hasDirectory place

/-- Where a path starts. -/
def start (disk : Disk) (path : String) : Except DiskFault Trail :=
  (Trail.ofRoot disk.root).follow (if PathText.isAbsolute path then [] else disk.here)

/-- Where a path leads. It is followed name by name, so it may have any length. -/
def locate (disk : Disk) (path : String) : Except DiskFault Trail := do
  PathText.check path
  (← disk.start path).follow (PathText.segments path)

/-- Where a path leads that is not too long, if there is something. -/
def trail? (disk : Disk) (path : String) : Option Trail := do
  (PathText.checkSize path).toOption
  (disk.locate path).toOption

/-- What the file to which a path leads holds, if there is one. -/
def fileAt? (disk : Disk) (path : String) : Option Content :=
  (disk.trail? path).bind (·.node.content?)

/-- Whether a path leads to a directory. -/
def leadsToDirectory (disk : Disk) (path : String) : Bool :=
  (disk.trail? path).any (·.node.isDirectory)

/-- The files below the directory to which a path leads, in the order of their paths from there; none
if there is no directory. -/
def listing (disk : Disk) (path : String) : List (String × Content) :=
  let files := ((disk.trail? path).map (·.node.files)).getD []
  (files.map fun (place, body) => (PathText.ofSegments place, body.content)).mergeSort
    fun a b => decide (a.1 ≤ b.1)

/-- The directory in which the last name of a path stands, and that name. Slashes behind the name are
left out; the root stands in itself. -/
def split (disk : Disk) (path : String) : Except DiskFault (Trail × String) := do
  PathText.checkSize path
  let segments := ((PathText.segments path).reverse.dropWhile (· == "")).reverse
  let directory ← (← disk.start path).follow segments.dropLast
  if directory.node.isDirectory then .ok (directory, segments.getLast?.getD ".")
  else .error .notDirectory

/-! ### Changes -/

/-- Makes a directory. -/
def makeDirectory (disk : Disk) (path : String) : Except DiskFault Disk := do
  let (directory, name) ← disk.split path
  if PathText.isDots name then .error .occupied
  else if PathText.nameLimit < name.utf8ByteSize then .error .nameTooLong
  else if (directory.node.child? name).isSome then .error .occupied
  else .ok (disk.put (directory.place ++ [name]) .emptyDirectory)

/-- Makes a directory unless it is there. -/
def ensureDirectory (disk : Disk) (path : String) : Except DiskFault Disk :=
  match disk.makeDirectory path with
  | .error .occupied => if disk.leadsToDirectory path then .ok disk else .error .occupied
  | result => result

/-- Writes a file. -/
def writeFile (disk : Disk) (path : String) (content : Content) : Except DiskFault Disk := do
  let (directory, name) ← disk.split path
  if PathText.endsInSlash path || PathText.isDots name then .error .isDirectory
  else if PathText.nameLimit < name.utf8ByteSize then .error .nameTooLong
  else if (directory.node.child? name).any Node.isDirectory then .error .isDirectory
  else .ok (disk.put (directory.place ++ [name]) (.file (.plain content)))

end Disk

/-- Changes of a disk. A failure keeps what was done before it. -/
abbrev DiskAction (α : Type) := ExceptT DiskFault (StateM Disk) α

namespace Disk

/-- A change that is made as a whole. -/
def change (f : Disk → Except DiskFault Disk) : DiskAction Unit := fun disk =>
  match f disk with
  | .ok disk => (.ok (), disk)
  | .error fault => (.error fault, disk)

/-- Makes the first one of some directories, each of which stands in the next one, with all that are
missing. -/
def makeMissing : List String → DiskAction Unit
  | [] => pure ()
  | path :: above => fun disk =>
    match disk.ensureDirectory path with
    | .error .missing => (do makeMissing above; change (·.ensureDirectory path)) disk
    | result => change (fun _ => result) disk

/-- Makes a directory with all directories above it that are missing. -/
def makeDirectories (path : String) : DiskAction Unit :=
  makeMissing (PathText.ancestors path)

/-- Writes a file, for which a directory is made if there is none. -/
def provide (path : String) (content : Content) : DiskAction Unit := do
  (PathText.parent? path).forM makeDirectories
  change (·.writeFile path content)

end Disk

end ClassAtlas
