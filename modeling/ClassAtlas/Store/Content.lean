/-!
# Contents of files

A file holds bytes, or it holds an archive, which is a list of entries in an order. The files in which
a workspace keeps its tables are a third thing: nobody but the tables reads them.

## Main definitions

* `ClassAtlas.PackedEntry` — an entry of an archive.
* `ClassAtlas.TablesPart` — what a file is for that only the tables read.
* `ClassAtlas.Content` — the content of a file.
* `ClassAtlas.Content.plain`, `ClassAtlas.Content.text?` — a content as bytes, and as a text.

## Design

Neither archives nor tables are given as bytes, because nothing depends on which bytes they are. What
does depend on it is said here: they have more than one byte, the first one is not zero, they are no
class file, and they are no text — but for the archive without entries, which has a fixed form.
-/

set_option autoImplicit false

namespace ClassAtlas

/-- An entry of an archive. The name of a directory ends in a separator. -/
structure PackedEntry where
  /-- The name. -/
  name : String
  /-- The bytes. -/
  content : List UInt8
  deriving DecidableEq, Repr

namespace PackedEntry

/-- Whether a name ends in a separator. -/
def endsInSeparator (name : String) : Bool :=
  name.toList.getLast?.any fun c => c == '/' || c == '\\'

/-- Whether the entry is a directory. -/
def isDirectory (entry : PackedEntry) : Bool :=
  endsInSeparator entry.name

/-- The bytes that are packed; a directory has none. -/
def payload (entry : PackedEntry) : List UInt8 :=
  if entry.isDirectory then [] else entry.content

/-- The name of an entry without the slashes at its end. -/
def trimmedName (entry : PackedEntry) : String :=
  String.ofList (entry.name.toList.reverse.dropWhile (· == '/')).reverse

end PackedEntry

/-- What a file is for that only the tables of a workspace read. -/
inductive TablesPart where
  /-- It holds the tables. -/
  | tables
  /-- It holds changes that are not in the tables yet. -/
  | log
  /-- It says where in the log a change is. -/
  | logIndex
  deriving DecidableEq, Repr

/-- The content of a file. -/
inductive Content where
  /-- Bytes. -/
  | bytes (value : List UInt8)
  /-- An archive with its entries. -/
  | packed (entries : List PackedEntry)
  /-- Something that only the tables read, as they wrote it. -/
  | sealed (part : TablesPart) (image : List UInt8)
  deriving DecidableEq, Repr

namespace Content

/-- The bytes of a file that is neither an archive nor a part of tables. -/
def plain : Content → List UInt8
  | bytes value => value
  | packed _ | sealed _ _ => []

/-- Whether there is not a single byte. -/
def isEmpty : Content → Bool
  | bytes value => value.isEmpty
  | packed _ | sealed _ _ => false

/-- Whether there is at most one byte. -/
def isBlank : Content → Bool
  | bytes value => value.length ≤ 1
  | packed _ | sealed _ _ => false

/-- Whether the first byte is zero. -/
def startsWithZero : Content → Bool
  | bytes value => value.head? == some 0
  | packed _ | sealed _ _ => false

/-- The text of an archive without entries: a mark, and the number zero wherever it counts
something. -/
def emptyArchiveText : String :=
  "PK\x05\x06" ++ String.ofList (List.replicate 18 (Char.ofNat 0))

/-- The text of a file, if it holds one. -/
def text? : Content → Option String
  | bytes value => String.fromUTF8? (ByteArray.mk value.toArray)
  | packed [] => some emptyArchiveText
  | packed _ | sealed _ _ => none

end Content

end ClassAtlas
