import ClassAtlas.Store.Index
import ClassAtlas.Workspace.FileName

/-!
# Import and export

Files are stored as they are. An archive is stored as a file with its entries as files of their own,
whose paths start with the path of the archive; importing it again replaces its entries. On export
the archives are packed from their entries.

## Main definitions

* `ClassAtlas.Index.importFile` — storing a file.
* `ClassAtlas.Store.exported` — the files of the workspace as they are written.
-/

set_option autoImplicit false

namespace ClassAtlas

/-! ### Import -/

namespace Store

/-- Stores an entry of an archive and returns its path. -/
def insertEntry (path : String) (archive : RowId) (entry : PackedEntry) : Transaction String := do
  let path := path ++ "/" ++ entry.trimmedName
  let _ ← insertFile path (some archive) entry.isDirectory (some (.bytes entry.payload))
  return path

/-- Deletes the entries of an archive with other paths than the given ones. What they declare is
only mentioned from then on. -/
def deleteOtherEntries (archive : RowId) (paths : List String) : Transaction Unit := do
  let stale := ((← get).entriesOf archive).filter fun entry => !paths.contains entry.path
  stale.forM fun entry => do
    clearMappings entry.id
    deleteFile entry.id

/-- Stores an archive with its entries; entries without a name are left out. -/
def insertArchive (path : String) (entries : List PackedEntry) : Transaction RowId := do
  let archive ← insertFile path none false (some (.packed entries))
  let named := entries.filter fun entry => !entry.trimmedName.isEmpty
  let paths ← named.mapM (insertEntry path archive)
  deleteOtherEntries archive paths
  return archive

/-- Stores a file: one that is named like an archive has to be one. -/
def importFile (path : String) (content : Content) : Transaction RowId :=
  if FileName.isArchive path then
    match content with
    | .packed entries => insertArchive path entries
    | .bytes _ | .sealed _ _ => throw .archive
  else insertFile path none false (some content)

end Store

/-- Stores a file and returns its number. -/
def Index.importFile (path : String) (content : Content) : Session RowId :=
  transact (Store.importFile path content)

/-! ### Export -/

namespace Store

/-- The name of an entry of an archive at a path. -/
def entryName (archivePath : String) (entry : FileRow) : String :=
  let start := archivePath.toList ++ ['/']
  let name :=
    if start.isPrefixOf entry.path.toList then String.ofList (entry.path.toList.drop start.length)
    else entry.path
  if entry.isDirectory && !PackedEntry.endsInSeparator name then name ++ "/" else name

/-- An entry of an archive as it is packed. -/
def packEntry (archivePath : String) (entry : FileRow) : PackedEntry :=
  ⟨entryName archivePath entry, if entry.isDirectory then [] else entry.bytes⟩

/-- A file as it is written. -/
def exportFile (store : Store) (file : FileRow) : Content :=
  let entries := store.entriesOf file.id
  if entries.isEmpty && !FileName.isArchive file.name then
    file.content.getD (.bytes [])
  else .packed (entries.map (packEntry file.path))

/-- The files of the workspace with their paths, in the order of the paths, as they are written. -/
def exported (store : Store) : List (String × Content) :=
  store.topLevelFiles.map fun file => (file.path, store.exportFile file)

end Store

end ClassAtlas
