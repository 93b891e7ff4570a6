import ClassAtlas.Store.Content
import ClassAtlas.Symbol.Basic

/-!
# The store

A workspace keeps its files, and what mapping found in them, in four tables: files, identities,
symbols and references. Rows are numbered; a new row gets the number after the largest one in its
table. As new rows come last, every table is in the order of its numbers.

## Main definitions

* `ClassAtlas.FileRow`, `ClassAtlas.IdentityRow`, `ClassAtlas.SymbolRow`, `ClassAtlas.ReferenceRow`.
* `ClassAtlas.Store` — the four tables.
* `ClassAtlas.Store.nextId` — the number of a new row.
* `ClassAtlas.Transaction` — a change of the store that may fail, and then changes nothing.

## Design

Symbols and references name identities by number, so that renaming an identity moves everything
that is known under it. The tables keep these rules: paths are unique, identities are unique, an
identity has at most one symbol, and numbers of other rows are numbers of existing rows.
-/

set_option autoImplicit false

namespace ClassAtlas

/-- A file of the workspace. -/
structure FileRow where
  /-- The number of the file. -/
  id : RowId
  /-- The path; the path of an entry of an archive starts with the path of the archive. -/
  path : String
  /-- The last segment of the path. -/
  name : String
  /-- The archive of which the file is an entry. -/
  archive : Option RowId
  /-- Whether the file is a directory of an archive. -/
  isDirectory : Bool
  /-- What the file holds; nothing if that was not stored. -/
  content : Option Content
  deriving DecidableEq, Repr

/-- The bytes of a file; none if none were stored. -/
def FileRow.bytes (file : FileRow) : List UInt8 :=
  (file.content.map Content.plain).getD []

/-- An identity that is in use. -/
structure IdentityRow where
  /-- The number of the identity. -/
  id : RowId
  /-- The identity. -/
  identity : Identity
  deriving DecidableEq, Repr

/-- A symbol. -/
structure SymbolRow where
  /-- The number of the symbol. -/
  id : RowId
  /-- The number of its identity. -/
  identity : RowId
  /-- What it is. -/
  kind : SymbolKind
  /-- The full name of a class, the plain name of a member. -/
  name : String
  /-- The file that declares it. -/
  file : Option RowId
  /-- The number of its owner's identity. -/
  owner : Option RowId
  /-- The access flags of the declaration. -/
  access : UInt16
  /-- The generic signature of the declaration. -/
  signature : Option String
  deriving DecidableEq, Repr

/-- A reference. -/
structure ReferenceRow where
  /-- The number of the reference. -/
  id : RowId
  /-- How the target is used. -/
  kind : ReferenceKind
  /-- The file that uses it. -/
  file : RowId
  /-- The number of the target's identity. -/
  target : RowId
  /-- The number of the owner's identity. -/
  owner : RowId
  /-- The offset of the use in the body of a method. -/
  location : Option Nat
  deriving DecidableEq, Repr

/-- The tables of a workspace. -/
structure Store where
  /-- The files. -/
  files : List FileRow
  /-- The identities. -/
  identities : List IdentityRow
  /-- The symbols. -/
  symbols : List SymbolRow
  /-- The references. -/
  references : List ReferenceRow
  deriving DecidableEq, Repr

/-- A change of the store. A failing change leaves the store as it was. -/
abbrev Transaction (α : Type) := StateT Store (Except Error) α

namespace Store

/-- The store of an empty workspace. -/
def empty : Store := ⟨[], [], [], []⟩

/-- The number of a new row: one more than the largest number in use. -/
def nextId (ids : List RowId) : RowId :=
  ids.foldl max 0 + 1

/-! ### Identities -/

/-- The number of an identity, if it is known. -/
def identityId? (store : Store) (identity : Identity) : Option RowId :=
  (store.identities.find? (·.identity == identity)).map IdentityRow.id

/-- The identity with a number. -/
def identity? (store : Store) (id : RowId) : Option Identity :=
  (store.identities.find? (·.id == id)).map IdentityRow.identity

/-- The number of an identity, which is added if it is not known. -/
def internIdentity (identity : Identity) : Transaction RowId := do
  let store ← get
  match store.identityId? identity with
  | some id => return id
  | none =>
    let id := nextId (store.identities.map IdentityRow.id)
    set { store with identities := store.identities ++ [IdentityRow.mk id identity] }
    return id

/-- The number of an identity that has to be known. -/
def requireIdentity (identity : Identity) : Transaction RowId := do
  match (← get).identityId? identity with
  | some id => return id
  | none => throw (.unknownIdentity identity.text)

end Store

end ClassAtlas
