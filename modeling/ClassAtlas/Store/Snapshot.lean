import ClassAtlas.Bytes.Reader
import ClassAtlas.Store.Basic

/-!
# Files with tables

Between two commands the tables of a workspace are kept in a file. Its bytes are a mark, how the
tables are kept, and the rows. A row is its fields in order: numbers have eight bytes, texts and byte
strings stand behind their length, and a field that may be absent stands behind a byte that says
whether it is there.

## Main definitions

* `ClassAtlas.TablesFile` — a file with tables.
* `ClassAtlas.TablesFile.toBytes` — such a file as bytes.
* `ClassAtlas.TablesFile.ofBytes?` — the file that bytes make up.
-/

set_option autoImplicit false

namespace ClassAtlas

/-- A file with tables. -/
structure TablesFile where
  /-- The tables. -/
  store : Store
  /-- Whether changes go to a log before they go to the tables. -/
  isLogged : Bool
  /-- Whether the tables were laid out; otherwise the file has nothing but a head. -/
  isLaidOut : Bool
  deriving DecidableEq, Repr

namespace Snapshot

variable {α : Type}

/-! ### Writing -/

/-- A number. -/
def number (n : Int) : List UInt8 :=
  Bytes.u8 (Int64.ofInt n).toUInt64

/-- A byte string. -/
def block (bytes : List UInt8) : List UInt8 :=
  number bytes.length ++ bytes

/-- A text. -/
def text (value : String) : List UInt8 :=
  block value.toUTF8.toList

/-- A value that may be absent. -/
def optional (write : α → List UInt8) : Option α → List UInt8
  | some a => 1 :: write a
  | none => [0]

/-- Rows. -/
def rows (write : α → List UInt8) (items : List α) : List UInt8 :=
  number items.length ++ items.flatMap write

/-- A flag. -/
def flag (value : Bool) : List UInt8 :=
  [if value then 1 else 0]

/-- An entry of an archive. -/
def entry (e : PackedEntry) : List UInt8 :=
  text e.name ++ block e.content

/-- A content, behind a number that says of which kind it is. -/
def content : Content → List UInt8
  | .bytes value => number 0 ++ block value
  | .packed entries => number 1 ++ rows entry entries
  | .sealed .tables image => number 2 ++ block image
  | .sealed .log image => number 3 ++ block image
  | .sealed .logIndex image => number 4 ++ block image

/-- A file. -/
def fileRow (f : FileRow) : List UInt8 :=
  number f.id ++ text f.path ++ text f.name ++ optional number f.archive ++ flag f.isDirectory ++
    optional content f.content

/-- An identity. -/
def identityRow (i : IdentityRow) : List UInt8 :=
  number i.id ++ text i.identity.text

/-- A symbol. -/
def symbolRow (s : SymbolRow) : List UInt8 :=
  number s.id ++ number s.identity ++ text s.kind.tag ++ text s.name ++ optional number s.file ++
    optional number s.owner ++ number s.access.toNat ++ optional text s.signature

/-- A reference. -/
def referenceRow (r : ReferenceRow) : List UInt8 :=
  number r.id ++ text r.kind.tag ++ number r.file ++ number r.target ++ number r.owner ++
    optional number (r.location.map Int.ofNat)

/-- The tables. -/
def store (s : Store) : List UInt8 :=
  rows fileRow s.files ++ rows identityRow s.identities ++ rows symbolRow s.symbols ++
    rows referenceRow s.references

/-! ### Reading -/

open Bytes (Reader)

/-- Reads a number. -/
def readNumber : Reader Int := do
  return (← Reader.u8).toInt64.toInt

/-- Reads a byte string. -/
def readBlock : Reader (List UInt8) := do
  Reader.slice (← readNumber).toNat

/-- Reads a text. -/
def readText : Reader String := do
  match String.fromUTF8? (ByteArray.mk (← readBlock).toArray) with
  | some value => return value
  | none => Reader.fail .badText

/-- Reads a value that may be absent. -/
def readOptional (read : Reader α) : Reader (Option α) := do
  if (← Reader.u1) = 0 then return none
  return some (← read)

/-- Reads rows. -/
def readRows (read : Reader α) : Reader (List α) := do
  Reader.replicate (← readNumber).toNat read

/-- Reads a tag of a kind. -/
def readTag (ofTag? : String → Option α) : Reader α := do
  match ofTag? (← readText) with
  | some kind => return kind
  | none => Reader.fail .badText

/-- Reads a flag. -/
def readFlag : Reader Bool := do
  return (← Reader.u1) ≠ 0

/-- Reads an entry of an archive. -/
def readEntry : Reader PackedEntry := do
  return ⟨← readText, ← readBlock⟩

/-- Reads a content. -/
def readContent : Reader Content := do
  let kind ← readNumber
  if kind = 0 then return .bytes (← readBlock)
  if kind = 1 then return .packed (← readRows readEntry)
  if kind = 2 then return .sealed .tables (← readBlock)
  if kind = 3 then return .sealed .log (← readBlock)
  return .sealed .logIndex (← readBlock)

/-- Reads a file. -/
def readFileRow : Reader FileRow := do
  return ⟨← readNumber, ← readText, ← readText, ← readOptional readNumber, ← readFlag,
    ← readOptional readContent⟩

/-- Reads an identity. -/
def readIdentityRow : Reader IdentityRow := do
  return ⟨← readNumber, ⟨← readText⟩⟩

/-- Reads a symbol. -/
def readSymbolRow : Reader SymbolRow := do
  return ⟨← readNumber, ← readNumber, ← readTag SymbolKind.ofTag?, ← readText,
    ← readOptional readNumber, ← readOptional readNumber, UInt16.ofNat (← readNumber).toNat,
    ← readOptional readText⟩

/-- Reads a reference. -/
def readReferenceRow : Reader ReferenceRow := do
  return ⟨← readNumber, ← readTag ReferenceKind.ofTag?, ← readNumber, ← readNumber, ← readNumber,
    (← readOptional readNumber).map Int.toNat⟩

/-- Reads the tables. -/
def readStore : Reader Store := do
  return ⟨← readRows readFileRow, ← readRows readIdentityRow, ← readRows readSymbolRow,
    ← readRows readReferenceRow⟩

/-- Reads a file with tables behind its mark. -/
def readTablesFile : Reader TablesFile := do
  let isLogged ← readFlag
  let isLaidOut ← readFlag
  return ⟨← readStore, isLogged, isLaidOut⟩

end Snapshot

namespace TablesFile

/-- The first bytes of a file with tables. -/
def mark : List UInt8 := "class atlas tables 2\n".toUTF8.toList

/-- A file with tables as bytes. -/
def toBytes (file : TablesFile) : List UInt8 :=
  mark ++ Snapshot.flag file.isLogged ++ Snapshot.flag file.isLaidOut ++ Snapshot.store file.store

/-- The file with tables that bytes make up, if they do. -/
def ofBytes? (bytes : List UInt8) : Option TablesFile :=
  if mark.isPrefixOf bytes then
    (Snapshot.readTablesFile.complete (bytes.drop mark.length)).toOption
  else none

end TablesFile

end ClassAtlas
