import ClassAtlas.Mapping.Run
import ClassAtlas.Workspace.Rename
import ClassAtlas.Workspace.Transfer

/-!
# Editing a workspace

A command changes an index in one of three ways: a file is stored, all files are mapped, or a symbol is
renamed. If the tables cannot be changed, what is read before the first change is read nevertheless,
and may fail; then the change is refused.

## Main definitions

* `ClassAtlas.Editing` — ways to change an index.
* `ClassAtlas.Editing.direct` — those that change it.
* `ClassAtlas.Editing.refused` — those that are refused.
-/

set_option autoImplicit false

namespace ClassAtlas

/-- Ways to change an index. -/
structure Editing where
  /-- Stores a file. -/
  importFile : String → Content → Session RowId
  /-- Maps all files. -/
  mapAll : QueueSettings → Session MapReport
  /-- Renames a symbol. -/
  rename : Identity → String → Session RenameOutcome

namespace Editing

/-- Changes an index. -/
def direct : Editing where
  importFile := Index.importFile
  mapAll := Index.mapAll
  rename := Index.rename

/-- Refuses to store a file. An archive is read before. -/
def refuseFile (fault : StoreFault) (path : String) (content : Content) : Session RowId :=
  Index.query fun _ =>
    match content with
    | .packed _ => .error (.store fault)
    | .bytes _ | .sealed _ _ =>
      .error (if FileName.isArchive path then .archive else .store fault)

/-- Refuses to map files, unless there are none. -/
def refuseMapping (fault : StoreFault) (settings : QueueSettings) : Session MapReport := do
  if (← Index.query fun store => .ok store.topLevelFiles).isEmpty then Index.mapAll settings
  else throw (.store fault)

/-- Refuses to rename a symbol. The rename is planned before. -/
def refuseRename (fault : StoreFault) (identity : Identity) (newName : String) :
    Session RenameOutcome :=
  Index.query fun store => do
    let plan ← store.planRename identity newName
    let _ ← plan.revisions store
    .error (.store fault)

/-- Refuses all changes. -/
def refused (fault : StoreFault) : Editing where
  importFile := refuseFile fault
  mapAll := refuseMapping fault
  rename := refuseRename fault

/-- Changes an index, unless there is a reason to refuse that. -/
def ofRefusal (refusal : Option StoreFault) : Editing :=
  match refusal with
  | some fault => refused fault
  | none => direct

end Editing

end ClassAtlas
