import ClassAtlas.Store.Basic
import ClassAtlas.Text.SlashPath

/-!
# Files in the store

A file is known by its path. Storing a file again replaces its content and keeps its number and its
archive. Deleting a file also deletes the entries of the archive that it is, the symbols that it
declares and the references by it.

## Main definitions

* `ClassAtlas.Store.file?`, `fileAt?`, `allFiles`, `topLevelFiles`, `entriesOf` — looking up.
* `ClassAtlas.Store.insertFile`, `setContent`, `renameFile`, `deleteFile` — changing files.
* `ClassAtlas.Store.clearMappings` — forgetting what mapping a file found.
* `ClassAtlas.Summary`, `ClassAtlas.Store.summary` — the sizes of the tables.
-/

set_option autoImplicit false

namespace ClassAtlas.Store

/-! ### Looking up -/

/-- The file with a number. -/
def file? (store : Store) (id : RowId) : Option FileRow :=
  store.files.find? (·.id == id)

/-- The file with a number, which has to exist. -/
def requireFile (store : Store) (id : RowId) : Except Error FileRow :=
  match store.file? id with
  | some file => .ok file
  | none => .error (.unknownFile id)

/-- The file at a path. -/
def fileAt? (store : Store) (path : String) : Option FileRow :=
  store.files.find? (·.path == path)

/-- Files in the order of their paths. -/
def byPath (files : List FileRow) : List FileRow :=
  files.mergeSort fun a b => decide (a.path ≤ b.path)

/-- All files, in the order of their paths. -/
def allFiles (store : Store) : List FileRow :=
  byPath store.files

/-- The files that are no entries of an archive, in the order of their paths. -/
def topLevelFiles (store : Store) : List FileRow :=
  byPath (store.files.filter (·.archive.isNone))

/-- The entries of an archive, in the order of their numbers. -/
def entriesOf (store : Store) (archive : RowId) : List FileRow :=
  store.files.filter (·.archive == some archive)

/-- The bytes of a file; none if none were stored. -/
def content (store : Store) (id : RowId) : Except Error (List UInt8) :=
  (store.requireFile id).map FileRow.bytes

/-! ### Changing files -/

/-- Changes the row of a file. -/
def modifyFile (store : Store) (id : RowId) (f : FileRow → FileRow) : Store :=
  { store with files := store.files.map fun file => if file.id = id then f file else file }

/-- Stores a file and returns its number. A file that is there already gets the new content. -/
def insertFile (path : String) (archive : Option RowId) (isDirectory : Bool)
    (content : Option Content) : Transaction RowId := do
  let store ← get
  match store.fileAt? path with
  | some file =>
    set (store.modifyFile file.id fun f => { f with content, isDirectory })
    return file.id
  | none =>
    let id := nextId (store.files.map FileRow.id)
    let row : FileRow := ⟨id, path, SlashPath.lastSegment path, archive, isDirectory, content⟩
    let files := store.files ++ [row]
    if archive.all fun a => files.any (·.id == a) then
      set { store with files }
      return id
    else throw (.store .foreignKey)

/-- Replaces the content of a file by bytes. -/
def setContent (id : RowId) (bytes : List UInt8) : Transaction Unit := do
  let store ← get
  let _ ← store.requireFile id
  set (store.modifyFile id fun f => { f with content := some (.bytes bytes) })

/-- Replaces the last segment of the path of a file and returns the file. -/
def renameFile (id : RowId) (name : String) : Transaction FileRow := do
  let store ← get
  let file ← store.requireFile id
  let path := SlashPath.withLastSegment file.path name
  if store.files.any fun f => f.id != id && f.path == path then throw (.store .duplicatePath)
  else
    set (store.modifyFile id fun f => { f with path, name })
    return { file with path, name }

/-- The numbers of the files that are, directly or not, entries of one of the given files, and the
given files themselves. In each round entries of files found so far are added. -/
def withEntries (files : List FileRow) : Nat → List RowId → List RowId
  | 0, ids => ids
  | rounds + 1, ids =>
    match (files.filter fun f => !ids.contains f.id && f.archive.any ids.contains).map FileRow.id with
    | [] => ids
    | more => withEntries files rounds (ids ++ more)

/-- Deletes a file with everything that depends on it. -/
def deleteFile (id : RowId) : Transaction Unit :=
  modify fun store =>
    let gone := withEntries store.files store.files.length [id]
    { store with
      files := store.files.filter fun f => !gone.contains f.id
      symbols := store.symbols.filter fun s => !s.file.any gone.contains
      references := store.references.filter fun r => !gone.contains r.file }

/-- Forgets what mapping found in a file: what it declares is only mentioned from now on, and its
references are dropped. -/
def clearMappings (id : RowId) : Transaction Unit :=
  modify fun store =>
    { store with
      symbols := store.symbols.map fun s =>
        if s.file = some id then { s with file := none, access := 0, signature := none } else s
      references := store.references.filter (·.file != id) }

end ClassAtlas.Store

namespace ClassAtlas

/-- The sizes of the tables. -/
structure Summary where
  /-- Files that are no directories. -/
  files : Nat
  /-- Archives with entries. -/
  archives : Nat
  /-- Identities. -/
  identities : Nat
  /-- Symbols that are classes. -/
  classes : Nat
  /-- Symbols that are fields. -/
  fields : Nat
  /-- Symbols that are methods. -/
  methods : Nat
  /-- Symbols with a declaring file. -/
  declared : Nat
  /-- Symbols without one. -/
  placeholders : Nat
  /-- References. -/
  references : Nat
  deriving DecidableEq, Repr

/-- The sizes of the tables of a store. -/
def Store.summary (store : Store) : Summary where
  files := store.files.countP (!·.isDirectory)
  archives := (store.files.filterMap FileRow.archive).eraseDups.length
  identities := store.identities.length
  classes := store.symbols.countP (·.kind == .classSymbol)
  fields := store.symbols.countP (·.kind == .fieldSymbol)
  methods := store.symbols.countP (·.kind == .methodSymbol)
  declared := store.symbols.countP (·.file.isSome)
  placeholders := store.symbols.countP (·.file.isNone)
  references := store.references.length

end ClassAtlas
