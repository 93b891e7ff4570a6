import ClassAtlas.Store.Index
import ClassAtlas.Workspace.RenamePlan

/-!
# Renaming across a workspace

A rename changes every class file that the plan reaches, gives files that are named after a renamed
class their new name, and moves the identities. All of that happens, or nothing.

## Main definitions

* `ClassAtlas.RenamePlan.revisions` — the new contents of the files that the plan reaches.
* `ClassAtlas.RenamePlan.commit` — the changes of the store.
* `ClassAtlas.RenameOutcome` — what was changed.
* `ClassAtlas.Index.rename` — planning, revising and committing.
-/

set_option autoImplicit false

namespace ClassAtlas

/-- Something that was there before, and what is there instead. -/
structure Change (α : Type) where
  /-- What was there before. -/
  before : α
  /-- What is there now. -/
  after : α
  deriving DecidableEq, Repr

/-- What a rename changed. -/
structure RenameOutcome where
  /-- The identity of the renamed symbol before. -/
  oldIdentity : Identity
  /-- The identity of the renamed symbol now. -/
  newIdentity : Identity
  /-- The paths, before the rename, of the files whose content changed. -/
  revisedFiles : List String
  /-- The paths of files that got another name. -/
  renamedFiles : List (Change String)
  /-- The identities that moved. -/
  migratedIdentities : List (Change Identity)
  /-- The call sites that keep the old name, as they were before. -/
  dynamicReferences : List StoredReference
  deriving DecidableEq, Repr

namespace RenamePlan

/-- The bytes of a file of which a class is read. Archives and tables do not start like one. -/
def classBytes (file : FileRow) : Except FormatError (List UInt8) :=
  match file.content with
  | none => .ok []
  | some (.bytes value) => .ok value
  | some _ => .error .badMagic

/-- A file with its content after the rename; nothing if the content does not change. -/
def reviseFile (plan : RenamePlan) (store : Store) (id : RowId) :
    Except Error (Option (FileRow × List UInt8)) := do
  let file ← store.requireFile id
  match (classBytes file).bind fun bytes => reviseBytes bytes [plan.edit] with
  | .ok content => return content.map fun bytes => (file, bytes)
  | .error cause => throw (.revisionRejected file.path cause)

/-- The files whose content changes, in the order of their numbers, with their new contents. -/
def revisions (plan : RenamePlan) (store : Store) : Except Error (List (FileRow × List UInt8)) := do
  return (← (plan.files store).mapM (plan.reviseFile store)).filterMap id

/-- Gives a class file the name of the renamed class, unless it has that name. -/
def renameFile (name : String) (id : RowId) : Transaction (Option (Change String)) := do
  let before ← (← get).requireFile id
  if !(".class".toList.isSuffixOf before.name.toList) || before.name == name then return none
  let after ← Store.renameFile id name
  return some ⟨before.path, after.path⟩

/-- Moves a symbol and returns the number of its new identity. -/
def migrate (migration : Migration) : Transaction RowId := do
  let symbol := migration.symbol.id
  migration.name.forM (Store.setSymbolName symbol)
  let id ← Store.moveSymbol symbol migration.identity
  migration.signature.forM (Store.setSymbolSignature symbol)
  return id

/-- Changes the store as planned and returns the files that got another name, and the numbers of the
identities that moved. -/
def apply (plan : RenamePlan) (revisions : List (FileRow × List UInt8)) :
    Transaction (List (Change String) × List RowId) := do
  let named := plan.renamedFiles (← get)
  revisions.forM fun (file, content) => Store.setContent file.id content
  let renamed ←
    match plan.fileName with
    | some name => named.mapM (renameFile name)
    | none => pure []
  let ids ← plan.migrations.mapM migrate
  plan.resignatures.forM fun (symbol, signature) => Store.setSymbolSignature symbol signature
  return (renamed.filterMap id, ids)

/-- Refuses to change anything if the renamed symbol is no longer where the plan found it. -/
def requirePrimary (plan : RenamePlan) : Transaction Unit := do
  let planned := plan.primary.symbol
  if ((← get).symbolOf? planned.symbol.identity).any (·.id == planned.id) then return ()
  else throw (.unknownIdentity planned.symbol.identity.text)

/-- Changes the store as planned and reports that, with the numbers of the identities that moved. -/
def commit (plan : RenamePlan) (revisions : List (FileRow × List UInt8)) :
    Transaction (RenameOutcome × List RowId) := do
  plan.requirePrimary
  let dynamicReferences := plan.dynamicReferences (← get)
  let (renamedFiles, ids) ← plan.apply revisions
  return (⟨plan.primary.symbol.symbol.identity, plan.primary.identity,
    revisions.map fun (file, _) => file.path, renamedFiles,
    plan.migrations.map fun m => ⟨m.symbol.symbol.identity, m.identity⟩, dynamicReferences⟩, ids)

end RenamePlan

/-- The cache after identities moved: the old ones are forgotten, and the new ones have the given
numbers. -/
def IdentityCache.migrate (cache : IdentityCache) (moves : List (Change Identity × RowId)) :
    IdentityCache :=
  moves.foldl (fun cache move => (cache.forget move.1.before).remember move.1.after move.2) cache

/-- Gives the symbol with an identity a new name throughout the workspace. -/
def Index.rename (identity : Identity) (newName : String) : Session RenameOutcome := do
  let plan ← query (·.planRename identity newName)
  let revisions ← query plan.revisions
  let (outcome, ids) ← transact (plan.commit revisions)
  updateCache (·.migrate (outcome.migratedIdentities.zip ids))
  return outcome

end ClassAtlas
