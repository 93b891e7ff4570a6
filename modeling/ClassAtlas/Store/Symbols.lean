import ClassAtlas.Store.Basic

/-!
# Symbols in the store

A symbol has one row, whoever declares or mentions it. A mention never takes anything away from a
declaration, the first declaration stays, and access flags and signature are those of the write that
brought the declaring file.

## Main definitions

* `ClassAtlas.StoredSymbol` — a symbol as the store shows it.
* `ClassAtlas.Store.insertSymbol`, `ClassAtlas.Store.declareSymbol` — declaring or mentioning a
  symbol.
* `ClassAtlas.Store.symbolOf?`, `ClassAtlas.Store.symbolsWhere`, `ClassAtlas.Store.symbolsMentioning`.
* `ClassAtlas.Store.moveSymbol` — giving a symbol another identity.

## Design

Moving a symbol is a row of changes of single tables. Each of them is refused where the tables would
break a rule after it: two identities with one text, two symbols with one identity, or a number that
names no row.
-/

set_option autoImplicit false

namespace ClassAtlas

/-- A symbol as the store shows it. -/
structure StoredSymbol where
  /-- The number of the symbol. -/
  id : RowId
  /-- The number of its identity. -/
  identityId : RowId
  /-- The symbol. -/
  symbol : Symbol
  deriving DecidableEq, Repr

/-- A choice of symbols. -/
structure SymbolFilter where
  /-- Only symbols of this kind. -/
  kind : Option SymbolKind
  /-- Only symbols that this file declares. -/
  file : Option RowId
  /-- Only declared symbols. -/
  declaredOnly : Bool
  deriving DecidableEq, Repr

namespace Store

/-! ### Looking up -/

/-- A row as a symbol, if its identity is known. -/
def showSymbol? (store : Store) (row : SymbolRow) : Option StoredSymbol := do
  let identity ← store.identity? row.identity
  return ⟨row.id, row.identity,
    ⟨row.kind, identity, row.name, row.file, row.owner.bind store.identity?, row.access,
      row.signature⟩⟩

/-- Symbols in the order of their identities. -/
def byIdentity (symbols : List StoredSymbol) : List StoredSymbol :=
  symbols.mergeSort fun a b => decide (a.symbol.identity.text ≤ b.symbol.identity.text)

/-- The symbol with an identity. -/
def symbolOf? (store : Store) (identity : Identity) : Option StoredSymbol :=
  (store.symbols.filterMap store.showSymbol?).find? (·.symbol.identity == identity)

/-- The symbols that a filter lets through, in the order of their identities. -/
def symbolsWhere (store : Store) (filter : SymbolFilter) : List StoredSymbol :=
  byIdentity ((store.symbols.filterMap store.showSymbol?).filter fun s =>
    filter.kind.all (· == s.symbol.kind) && filter.file.all (some · == s.symbol.file) &&
      (!filter.declaredOnly || !s.symbol.isPlaceholder))

/-- Whether a text occurs in another. -/
def occursIn (part : List Char) : List Char → Bool
  | [] => part.isEmpty
  | c :: cs => part.isPrefixOf (c :: cs) || occursIn part cs

/-- The other symbols that mention a class: its members, symbols with a descriptor that names it and
symbols with a signature that seems to name it, in the order of their identities. -/
def symbolsMentioning (store : Store) (classId : RowId) (className : String) : List StoredSymbol :=
  let closed := 'L' :: className.toList ++ [';']
  let generic := 'L' :: className.toList ++ ['<']
  let mentions (row : SymbolRow) (s : StoredSymbol) : Bool :=
    row.identity != classId &&
      (row.owner == some classId || occursIn closed s.symbol.identity.text.toList ||
        row.signature.any fun signature =>
          occursIn closed signature.toList || occursIn generic signature.toList)
  byIdentity (store.symbols.filterMap fun row =>
    (store.showSymbol? row).bind fun s => if mentions row s then some s else none)

/-! ### Declaring and mentioning -/

/-- Changes the row of a symbol. -/
def modifySymbol (store : Store) (symbol : RowId) (f : SymbolRow → SymbolRow) : Store :=
  { store with symbols := store.symbols.map fun row => if row.id = symbol then f row else row }

/-- A row after a further write to the same symbol. -/
def mergeSymbol (row incoming : SymbolRow) : SymbolRow :=
  let declares := row.file.isNone && incoming.file.isSome
  { row with
    access := if declares then incoming.access else row.access
    signature := if declares then incoming.signature else row.signature
    owner := row.owner.or incoming.owner
    file := row.file.or incoming.file }

/-- Whether the file that a row names exists. -/
def hasFile (store : Store) (file : Option RowId) : Bool :=
  file.all fun id => store.files.any (·.id == id)

/-- Declares or mentions a symbol, whose identity and owner have to be known, and returns the number
of its row. -/
def insertSymbol (symbol : Symbol) : Transaction RowId := do
  let identity ← requireIdentity symbol.identity
  let owner ← symbol.owner.mapM requireIdentity
  let store ← get
  let id := nextId (store.symbols.map SymbolRow.id)
  let incoming : SymbolRow :=
    ⟨id, identity, symbol.kind, symbol.name, symbol.file, owner, symbol.access, symbol.signature⟩
  match store.symbols.find? (·.identity == identity) with
  | some row =>
    let merged := mergeSymbol row incoming
    if store.hasFile merged.file then
      set (store.modifySymbol row.id fun _ => merged)
      return row.id
    else throw (.store .foreignKey)
  | none =>
    if store.hasFile symbol.file then
      set { store with symbols := store.symbols ++ [incoming] }
      return id
    else throw (.store .foreignKey)

/-- Declares or mentions a symbol whose identity and owner need not be known yet. -/
def declareSymbol (symbol : Symbol) : Transaction RowId := do
  let _ ← internIdentity symbol.identity
  let _ ← symbol.owner.mapM internIdentity
  insertSymbol symbol

/-! ### Changing rows -/

/-- Gives a symbol another name. -/
def setSymbolName (symbol : RowId) (name : String) : Transaction Unit :=
  modify (·.modifySymbol symbol fun row => { row with name })

/-- Gives a symbol another signature. -/
def setSymbolSignature (symbol : RowId) (signature : String) : Transaction Unit :=
  modify (·.modifySymbol symbol fun row => { row with signature := some signature })

/-! ### Moving symbols -/

/-- Nothing happens, unless the tables break a rule. -/
def refuseIf (broken : Store → Bool) (fault : StoreFault) : Transaction Unit := do
  if broken (← get) then throw (.store fault)

/-- Whether the identity with a number exists. -/
def hasIdentity (store : Store) (id : RowId) : Bool :=
  store.identities.any (·.id == id)

/-- Whether a symbol or a reference names the identity with a number. -/
def isNamed (store : Store) (id : RowId) : Bool :=
  (store.symbols.any fun row => row.identity == id || row.owner == some id) ||
    store.references.any fun row => row.target == id || row.owner == id

/-- Renames the identity with a number. -/
def renameIdentity (store : Store) (id : RowId) (identity : Identity) : Store :=
  { store with
    identities := store.identities.map fun row => if row.id = id then { row with identity } else row }

/-- Renames the identity with a number; no other one may have the new text. -/
def setIdentity (id : RowId) (identity : Identity) : Transaction Unit := do
  refuseIf (fun store => store.hasIdentity id &&
    store.identities.any fun row => row.id != id && row.identity == identity) .duplicateIdentity
  modify (·.renameIdentity id identity)

/-- Deletes the identity with a number, which nothing may name. -/
def deleteIdentity (id : RowId) : Transaction Unit := do
  refuseIf (fun store => store.hasIdentity id && store.isNamed id) .foreignKey
  modify fun store => { store with identities := store.identities.filter (·.id != id) }

/-- Deletes the symbol with a number. -/
def deleteSymbol (symbol : RowId) : Transaction Unit :=
  modify fun store => { store with symbols := store.symbols.filter (·.id != symbol) }

/-- The number `new` where a row named the number `old`. -/
def redirect (old new id : RowId) : RowId :=
  if id = old then new else id

/-- References to the identity `old` become references to the identity `new`, which has to exist if
there are any. -/
def redirectTargets (old new : RowId) : Transaction Unit := do
  refuseIf (fun store => store.references.any (·.target == old) && !store.hasIdentity new) .foreignKey
  modify fun store =>
    { store with
      references := store.references.map fun row => { row with target := redirect old new row.target } }

/-- References in the identity `old` become references in the identity `new`, which has to exist if
there are any. -/
def redirectUsers (old new : RowId) : Transaction Unit := do
  refuseIf (fun store => store.references.any (·.owner == old) && !store.hasIdentity new) .foreignKey
  modify fun store =>
    { store with
      references := store.references.map fun row => { row with owner := redirect old new row.owner } }

/-- What the identity `old` owns becomes owned by the identity `new`, which has to exist if there is
anything. -/
def redirectMembers (old new : RowId) : Transaction Unit := do
  refuseIf (fun store => store.symbols.any (·.owner == some old) && !store.hasIdentity new) .foreignKey
  modify fun store =>
    { store with
      symbols := store.symbols.map fun row => { row with owner := row.owner.map (redirect old new) } }

/-- Gives a symbol another identity, which has to exist and may not have another symbol. -/
def setSymbolIdentity (symbol identity : RowId) : Transaction Unit := do
  let changes (store : Store) := store.symbols.any (·.id == symbol)
  let taken (store : Store) :=
    store.symbols.any fun row => row.id != symbol && row.identity == identity
  refuseIf (fun store => changes store && taken store) .duplicateSymbol
  refuseIf (fun store => changes store && !store.hasIdentity identity) .foreignKey
  modify (·.modifySymbol symbol fun row => { row with identity })

/-- Frees the identity with a number of its symbol: a mention gives way, a declaration does not. -/
def vacate (id : RowId) (identity : Identity) : Transaction Unit := do
  match (← get).symbols.find? (·.identity == id) with
  | none => return
  | some occupant =>
    if occupant.file.isSome then
      throw (.cannotRename identity.text "target identity is already declared")
    else deleteSymbol occupant.id

/-- Makes everything that is known under the identity `old` known under the identity `new`, moves
the symbol there and forgets `old`. -/
def mergeInto (symbol old new : RowId) : Transaction Unit := do
  redirectTargets old new
  redirectUsers old new
  redirectMembers old new
  setSymbolIdentity symbol new
  deleteIdentity old

/-- Moves a symbol to another identity and returns the number of that identity. If nothing has the
new identity, the old one is renamed. Otherwise the mention that has it gives way, and everything
that is known under the old identity moves too; a declaration does not give way. -/
def moveSymbol (symbol : RowId) (identity : Identity) : Transaction RowId := do
  let store ← get
  match store.symbols.find? (·.id == symbol) with
  | none => throw (.store .noRow)
  | some row =>
    match store.identityId? identity with
    | none =>
      setIdentity row.identity identity
      return row.identity
    | some existing =>
      if existing = row.identity then return existing
      else
        vacate existing identity
        mergeInto symbol row.identity existing
        return existing

end Store

end ClassAtlas
