import ClassAtlas.Command.Report
import ClassAtlas.Workspace.Editing

/-!
# Commands on an index

The commands that need nothing but the index of a workspace.

## Main definitions

* `ClassAtlas.CommandError` — why a command fails.
* `ClassAtlas.CommandAction` — a command on a state.
* `ClassAtlas.Command.map`, `symbols`, `references`, `rename`, `summary` — the commands.
-/

set_option autoImplicit false

namespace ClassAtlas

/-- Why a command fails. -/
inductive CommandError where
  /-- The arguments make no sense in this workspace. -/
  | refused (message : String)
  /-- Something that the command was about to do fails. -/
  | failed (doing : String) (cause : Error)
  /-- Nothing was done yet. -/
  | direct (cause : Error)
  deriving DecidableEq, Repr

/-- A command on a state, which keeps what was done before a failure. -/
abbrev CommandAction (σ α : Type) := ExceptT CommandError (StateM σ) α

namespace Command

variable {σ α : Type}

/-- Does something of which a failure is reported. -/
def doing (what : String) (action : ExceptT Error (StateM σ) α) : CommandAction σ α := fun state =>
  match action state with
  | (.ok a, state) => (.ok a, state)
  | (.error cause, state) => (.error (.failed what cause), state)

/-- The store of the index. -/
def store : CommandAction Index Store := fun index => (.ok index.store, index)

/-- The path of a file. -/
def pathOf? (store : Store) (id : RowId) : Option String :=
  (store.file? id).map FileRow.path

/-- Maps every file of the workspace. -/
def map (editing : Editing) (settings : QueueSettings) : CommandAction Index Report := do
  return .ofMapping 0 (← doing "Failed to map workspace" (editing.mapAll settings))

/-- Lists symbols: of a kind, declared by the file at a path, or declared at all. -/
def symbols (kind file : Option String) (declaredOnly : Bool) : CommandAction Index Report := do
  let kind ← kind.mapM fun word =>
    match SymbolKind.ofText? word with
    | some kind => pure kind
    | none => throw (.refused ("unknown symbol kind: " ++ word))
  let store ← store
  let file ← file.mapM fun path =>
    match store.fileAt? path with
    | some file => pure file.id
    | none => throw (.refused ("File not found in workspace: " ++ path))
  return .ofSymbols ((store.symbolsWhere ⟨kind, file, declaredOnly⟩).map fun s =>
    ⟨s.symbol.kind, s.symbol.identity, s.symbol.name, s.symbol.file.bind (pathOf? store),
      s.symbol.access⟩)

/-- Lists the uses of a symbol. -/
def references (identity : Identity) : CommandAction Index Report := do
  let target ← doing ("Symbol not found in workspace: " ++ identity.text) (Index.lookup identity)
  let store ← store
  return .ofReferences identity ((store.referencesTo target).map fun r =>
    ⟨r.reference.kind, (pathOf? store r.reference.file).getD ("#" ++ toString r.reference.file),
      r.reference.owner, r.reference.location⟩)

/-- Renames a symbol. -/
def rename (editing : Editing) (identity : Identity) (newName : String) :
    CommandAction Index Report := do
  return .ofRename (← doing ("Failed to rename " ++ identity.text ++ " to " ++ newName)
    (editing.rename identity newName))

/-- Counts what is in the workspace. -/
def summary : CommandAction Index Report := do
  return .ofSummary (← store).summary

end Command

end ClassAtlas
