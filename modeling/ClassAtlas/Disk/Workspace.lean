import ClassAtlas.Disk.OpenTables
import ClassAtlas.Settings.Basic
import ClassAtlas.Workspace.Transfer

/-!
# Workspaces on a disk

A workspace is a directory. Its tables are kept in a file in a directory of their own there, and its
settings may be written to one of two files. Files are imported from everywhere on the disk, and
exported to everywhere.

## Main definitions

* `ClassAtlas.Disk.settings` — the settings of a workspace.
* `ClassAtlas.Disk.openWorkspace` — the tables of a workspace, which are made if there are none.
* `ClassAtlas.Disk.sources` — what is imported with a path.
* `ClassAtlas.Disk.exportFiles` — writing the files of a workspace.
-/

set_option autoImplicit false

namespace ClassAtlas.Disk

/-! ### Settings -/

/-- The files in which the settings of a workspace are looked for; the first one counts. -/
def settingsFiles : List String := [".jvmap/config.toml", "jvmap.toml"]

/-- The settings in a file. -/
def loadSettings (path : String) (content : Content) : Except Error Settings :=
  match content.text? with
  | some document => (Settings.parse document).mapError fun fault => .config (fault.inFile path)
  | none => .error (.disk .notText)

/-- The settings of the workspace in a directory. A named file has to exist. -/
def settings (disk : Disk) (workspace : String) (named : Option String) :
    Except Error Settings :=
  match named with
  | some path =>
    match disk.fileAt? path with
    | some content => loadSettings path content
    | none => .error (.config (.refused ("config file " ++ path ++ " does not exist")))
  | none =>
    let found := settingsFiles.findSome? fun name =>
      let path := PathText.join workspace name
      (disk.fileAt? path).map fun content => (path, content)
    match found with
    | some (path, content) => loadSettings path content
    | none => .ok Settings.standard

/-! ### Tables -/

/-- The directory of a workspace in which its tables are kept. -/
def tablesDirectory : String := ".jvmap"

/-- The file that holds the tables. -/
def tablesFile : String := "index.db"

/-- Opens the workspace in a directory, which is made if there is none. The path of the file with the
tables counts as an address. -/
def openWorkspace (root : String) : ExceptT Error (StateM Disk) OpenTables := do
  let directory := PathText.join root tablesDirectory
  (makeDirectories directory).adapt Error.disk
  (OpenTables.ofAddress (PathText.join directory tablesFile)).adapt Error.store

/-! ### Import and export -/

/-- The files that are imported with a path, with the paths under which they are stored: the file, or
the files of the directory. Files inside the directory of the workspace are stored by their path from
there, others by their path from the parent of what is imported. -/
def sources (disk : Disk) (root : DiskPath) (path : String) :
    Except DiskFault (List (String × Content)) := do
  let source ← disk.locate path
  let base := if root.isPrefixOf source.place then root else source.place.dropLast
  let stored (place : DiskPath) : String := PathText.ofSegments (place.drop base.length)
  match source.node.content? with
  | some content => return [(stored source.place, content)]
  | none =>
    let files := source.node.files.filter fun file => (file.1.getLast?).any FileName.isImportable
    let named := files.map fun (place, body) => (stored (source.place ++ place), body.content)
    return named.mergeSort fun a b => decide (a.1 ≤ b.1)

/-- Writes files below a directory, up to the first one that cannot be written, or that can no longer
be read from the open tables. -/
def exportFiles (tables : OpenTables) (destination : String) :
    List (String × Content) → ExceptT Error (StateM Disk) Unit
  | [] => pure ()
  | (path, content) :: files => do
    (tables.lost? (← get)).forM fun fault => throw (.store fault)
    (provide (PathText.join destination path) content).adapt Error.disk
    exportFiles tables destination files

end ClassAtlas.Disk
