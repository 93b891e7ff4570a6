import ClassAtlas.Renaming.Basic
import ClassAtlas.Store.Files
import ClassAtlas.Store.References
import ClassAtlas.Text.Quoted

/-!
# Planning a rename

To rename a symbol across a workspace, first everything that has to change is found: the identities
that move, the signatures that name a renamed class, and the files to revise. Nothing is changed by
that. A plan is refused if the symbol cannot be renamed, if the new name is illegal, or if an
identity would move to where another symbol is declared.

## Main definitions

* `ClassAtlas.targetClassName` — the full new name of a class.
* `ClassAtlas.checkMemberName` — refuses names that no member may have.
* `ClassAtlas.StoredSymbol.movedIdentity?` — the identity of a member after a class got another name.
* `ClassAtlas.Migration`, `ClassAtlas.RenamePlan` — what has to change.
* `ClassAtlas.Store.planRename` — the plan for a symbol and a new name.
* `ClassAtlas.RenamePlan.files`, `renamedFiles`, `dynamicReferences` — the files and uses that the
  plan reaches.
-/

set_option autoImplicit false

namespace ClassAtlas

/-! ### New names -/

/-- The full new name of the class `old` with the given identity; it stays in its package. -/
def targetClassName (identity : Identity) (old requested : String) : Except Error String :=
  let new := ClassName.qualify old requested
  if !ClassName.isLegal new then
    .error (.cannotRename identity.text ("illegal class name " ++ Text.quote new))
  else if ClassName.package? old ≠ ClassName.package? new then .error (.crossPackage old new)
  else if new = old then .error (.cannotRename identity.text "new name equals the old one")
  else .ok new

/-- Whether a character cannot be part of the name of a member of a sort; names of methods have no
angle brackets either. -/
def isIllegalIn (sort : MemberSort) (c : Char) : Bool :=
  ['.', ';', '[', '/'].contains c || (sort == .method && ['<', '>'].contains c)

/-- Refuses a name that no member of a sort may have. -/
def checkMemberName (identity : Identity) (sort : MemberSort) (name : String) : Except Error Unit :=
  if name.isEmpty || name.toList.any (isIllegalIn sort) then
    .error (.cannotRename identity.text ("illegal member name " ++ Text.quote name))
  else .ok ()

/-! ### Moved identities -/

/-- The parts of a member after the class `old` got the name `new`. -/
def MemberPath.renameClass (path : MemberPath) (r : ClassRename) : MemberPath where
  owner := if path.owner.className = r.old then .ofClass r.new else path.owner
  name := path.name
  descriptor := (r.descriptor? path.descriptor).getD path.descriptor

/-- The identity of a member with the given parts. -/
def MemberPath.identity (path : MemberPath) : MemberSort → Identity
  | .field => .ofField path.owner path.name path.descriptor
  | .method => .ofMethod path.owner path.name path.descriptor

/-- The parts of the identity of a member. -/
def Identity.split (identity : Identity) : MemberSort → Except Error MemberPath
  | .field => identity.splitField
  | .method => identity.splitMethod

/-- The sort of a member; a class is none. -/
def SymbolKind.memberSort? : SymbolKind → Option MemberSort
  | .classSymbol => none
  | .fieldSymbol => some .field
  | .methodSymbol => some .method

/-- The identity that a member gets when a class gets another name; nothing if the identity names
the class neither as owner nor in its descriptor. -/
def StoredSymbol.movedIdentity? (s : StoredSymbol) (r : ClassRename) :
    Except Error (Option Identity) :=
  match s.symbol.kind.memberSort? with
  | none => .ok none
  | some sort => do
    let moved := ((← s.symbol.identity.split sort).renameClass r).identity sort
    return if moved = s.symbol.identity then none else some moved

/-! ### Plans -/

/-- A symbol that gets another identity. -/
structure Migration where
  /-- The symbol. -/
  symbol : StoredSymbol
  /-- Its new identity. -/
  identity : Identity
  /-- Its new name, if it gets one. -/
  name : Option String
  /-- Its new signature, if it gets one. -/
  signature : Option String
  deriving DecidableEq, Repr

/-- What has to change for a rename. -/
structure RenamePlan where
  /-- What happens inside class files. -/
  edit : Renaming
  /-- The symbol that is renamed. -/
  primary : Migration
  /-- The symbols whose identity names the renamed one. -/
  dependents : List Migration
  /-- The symbols that keep their identity and get a new signature. -/
  resignatures : List (RowId × String)
  /-- The new name of files that are named after the renamed class. -/
  fileName : Option String
  deriving DecidableEq, Repr

namespace Store

/-- Refuses an identity at which another symbol is declared. -/
def ensureFree (store : Store) (identity target : Identity) : Except Error Unit :=
  match store.symbolOf? target with
  | some occupant =>
    if occupant.symbol.isPlaceholder then .ok ()
    else .error (.cannotRename identity.text (target.text ++ " is already declared"))
  | none => .ok ()

/-- What happens to the symbols that mention a renamed class: those that move, and those that only
get a new signature. -/
def planDependents (store : Store) (identity : Identity) (r : ClassRename) :
    List StoredSymbol → Except Error (List Migration × List (RowId × String))
  | [] => .ok ([], [])
  | dependent :: rest => do
    let signature := dependent.symbol.signature.bind r.signature?
    match ← dependent.movedIdentity? r with
    | none =>
      let (migrations, resignatures) ← planDependents store identity r rest
      return (migrations, (signature.map fun s => (dependent.id, s)).toList ++ resignatures)
    | some moved =>
      store.ensureFree identity moved
      let (migrations, resignatures) ← planDependents store identity r rest
      return (⟨dependent, moved, none, signature⟩ :: migrations, resignatures)

/-- The plan for a class. -/
def planClass (store : Store) (symbol : StoredSymbol) (newName : String) :
    Except Error RenamePlan := do
  let identity := symbol.symbol.identity
  let old := identity.className
  let new ← targetClassName identity old newName
  let r : ClassRename := ⟨old, new⟩
  let target := Identity.ofClass new
  store.ensureFree identity target
  let (dependents, resignatures) ←
    store.planDependents identity r (store.symbolsMentioning symbol.identityId old)
  let primary : Migration :=
    ⟨symbol, target, some new, symbol.symbol.signature.bind r.signature?⟩
  return ⟨.ofClass r, primary, dependents, resignatures,
    some (ClassName.simpleName new ++ ".class")⟩

/-- The plan for a member. -/
def planMember (store : Store) (symbol : StoredSymbol) (sort : MemberSort) (newName : String) :
    Except Error RenamePlan := do
  let identity := symbol.symbol.identity
  checkMemberName identity sort newName
  let path ← identity.split sort
  let target := { path with name := newName }.identity sort
  store.ensureFree identity target
  return ⟨.ofMember ⟨sort, path.owner.className, path.name, path.descriptor, newName⟩,
    ⟨symbol, target, some newName, none⟩, [], [], none⟩

/-- The plan for giving the symbol with an identity a new name. For a class this is a simple name or
a full name in the same package. -/
def planRename (store : Store) (identity : Identity) (newName : String) :
    Except Error RenamePlan :=
  match store.symbolOf? identity with
  | none => .error (.unknownIdentity identity.text)
  | some symbol =>
    if symbol.symbol.isPlaceholder then
      .error (.cannotRename identity.text "not declared in the workspace")
    else if symbol.symbol.isInitializer then
      .error (.cannotRename identity.text "constructors and static initializers keep their names")
    else
      match symbol.symbol.kind.memberSort? with
      | none => store.planClass symbol newName
      | some sort => store.planMember symbol sort newName

end Store

namespace RenamePlan

/-- Numbers in ascending order, each of them once. -/
def sorted (ids : List RowId) : List RowId :=
  (ids.mergeSort fun a b => decide (a ≤ b)).eraseDups

/-- The identities that move, that of the renamed symbol first. -/
def migrations (plan : RenamePlan) : List Migration :=
  plan.primary :: plan.dependents

/-- The uses of the symbols that move. -/
def references (plan : RenamePlan) (store : Store) : List StoredReference :=
  plan.migrations.flatMap fun migration => store.referencesTo migration.symbol.identityId

/-- The files that declare or use a symbol that moves. -/
def files (plan : RenamePlan) (store : Store) : List RowId :=
  sorted (plan.migrations.filterMap (·.symbol.symbol.file) ++
    (plan.references store).map (·.reference.file))

/-- The files that are named after the renamed class. -/
def renamedFiles (plan : RenamePlan) (store : Store) : List RowId :=
  sorted (((store.referencesTo plan.primary.symbol.identityId).filter
    (·.reference.kind.renamesFile)).map (·.reference.file))

/-- The call sites that keep the old name. -/
def dynamicReferences (plan : RenamePlan) (store : Store) : List StoredReference :=
  (plan.references store).filter (·.reference.kind.isDynamic)

end RenamePlan

end ClassAtlas
