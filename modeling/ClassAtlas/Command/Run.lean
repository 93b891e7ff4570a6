import ClassAtlas.Command.Arguments
import ClassAtlas.Command.Basic
import ClassAtlas.Disk.Workspace

/-!
# Running command lines

## Main definitions

* `ClassAtlas.CommandLine.run` — the effect of a command line on the disk, and its report.
-/

set_option autoImplicit false

namespace ClassAtlas

namespace Command

variable {α : Type}

/-- Works on open tables, which are closed afterwards, also after a failure. -/
def onIndex (tables : OpenTables) (action : CommandAction Index α) : CommandAction Disk α := fun disk =>
  let (result, index) := action ⟨tables.store, IdentityCache.empty⟩
  (result, tables.close index.store disk)

/-- Works on the disk, and closes open tables afterwards, also after a failure. -/
def onDisk (tables : OpenTables) (action : CommandAction Disk α) : CommandAction Disk α := fun disk =>
  let (result, disk) := action disk
  (result, tables.close tables.store disk)

/-- How commands change open tables. -/
def editing (tables : OpenTables) : Editing :=
  .ofRefusal tables.refusal

/-- Imports what is imported with a path. The files are those that the disk has while the tables are
open. -/
def importPath (tables : OpenTables) (disk : Disk) (root : DiskPath) (path : String) :
    Session (List RowId) := do
  let disk ← Index.query fun store => .ok (tables.during store disk)
  match disk.sources root path with
  | .error fault => throw (.disk fault)
  | .ok files => files.mapM fun (path, content) => (editing tables).importFile path content

/-- Imports files and directories. -/
def importAll (tables : OpenTables) (disk : Disk) (root : DiskPath) (paths : List String) :
    CommandAction Index (List RowId) := do
  let ids ← paths.mapM fun path =>
    doing ("Failed to import " ++ path) (importPath tables disk root path)
  return ids.flatten

/-- Imports files and directories, and maps them unless told not to. -/
def importPaths (tables : OpenTables) (disk : Disk) (root : DiskPath) (settings : QueueSettings)
    (paths : List String) (noMap : Bool) : CommandAction Index Report := do
  let ids ← importAll tables disk root paths
  if noMap then return .ofImport ids.length
  let report ← doing "Failed to map imported files" (Index.mapFiles settings ids)
  return .ofMapping ids.length report

/-- Writes the files of the workspace to a directory. -/
def exportTo (tables : OpenTables) (destination : String) : CommandAction Disk Report := do
  let files := tables.store.exported
  doing ("Failed to export workspace to " ++ destination) (Disk.exportFiles tables destination files)
  return .ofExport files.length destination

end Command

namespace CommandLine

/-- Runs a command in a workspace with open tables. -/
def perform (workspace : String) (tables : OpenTables) (settings : QueueSettings) :
    Invocation → CommandAction Disk Report
  | .importPaths paths noMap => do
    let disk ← get
    let root := ((disk.locate workspace).toOption.map Trail.place).getD []
    Command.onIndex tables (Command.importPaths tables disk root settings paths noMap)
  | .map => Command.onIndex tables (Command.map (Command.editing tables) settings)
  | .symbols kind file declaredOnly =>
    Command.onIndex tables (Command.symbols kind file declaredOnly)
  | .references identity => Command.onIndex tables (Command.references ⟨identity⟩)
  | .rename identity newName =>
    Command.onIndex tables (Command.rename (Command.editing tables) ⟨identity⟩ newName)
  | .exportTo destination => Command.onDisk tables (Command.exportTo tables destination)
  | .summary => Command.onIndex tables Command.summary

/-- Runs a command line: the settings are read, the workspace is opened, and the command is run. -/
def run (line : CommandLine) : CommandAction Disk Report := do
  match (← get).settings line.workspace line.config with
  | .error cause => throw (.direct cause)
  | .ok settings =>
    let tables ← Command.doing ("Failed to open workspace at " ++ line.workspace)
      (Disk.openWorkspace line.workspace)
    perform line.workspace tables settings.queue line.command

end CommandLine

end ClassAtlas
