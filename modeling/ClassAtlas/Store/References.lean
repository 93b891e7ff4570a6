import ClassAtlas.Store.Symbols

/-!
# References in the store

## Main definitions

* `ClassAtlas.StoredReference` — a reference as the store shows it.
* `ClassAtlas.Store.insertReference` — recording a use.
* `ClassAtlas.Store.referencesTo`, `ClassAtlas.Store.referencesIn` — the uses of a symbol, and by a
  file.
-/

set_option autoImplicit false

namespace ClassAtlas

/-- A reference as the store shows it. -/
structure StoredReference where
  /-- The number of the reference. -/
  id : RowId
  /-- The reference. -/
  reference : Reference
  deriving DecidableEq, Repr

namespace Store

/-- A row as a reference, if its identities are known. -/
def showReference? (store : Store) (row : ReferenceRow) : Option StoredReference := do
  let target ← store.identity? row.target
  let owner ← store.identity? row.owner
  return ⟨row.id, ⟨row.kind, row.file, target, owner, row.location⟩⟩

/-- The references to the identity with a number, in the order of their numbers. -/
def referencesTo (store : Store) (target : RowId) : List StoredReference :=
  (store.references.filter (·.target == target)).filterMap store.showReference?

/-- The references by a file, in the order of their numbers. -/
def referencesIn (store : Store) (file : RowId) : List StoredReference :=
  (store.references.filter (·.file == file)).filterMap store.showReference?

/-- Records a use, whose target and owner have to be known, and returns its number. -/
def insertReference (reference : Reference) : Transaction RowId := do
  let target ← requireIdentity reference.target
  let owner ← requireIdentity reference.owner
  let store ← get
  if store.hasFile (some reference.file) then
    let id := nextId (store.references.map ReferenceRow.id)
    let row : ReferenceRow :=
      ⟨id, reference.kind, reference.file, target, owner, reference.location⟩
    set { store with references := store.references ++ [row] }
    return id
  else throw (.store .foreignKey)

end Store

end ClassAtlas
