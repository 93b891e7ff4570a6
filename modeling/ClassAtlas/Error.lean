import ClassAtlas.ClassFile.FormatError
import ClassAtlas.Disk.Fault

/-!
# Failures of the workspace

Mapping, renaming, the store and the configuration fail with one of the causes below. A class file
that cannot be read is one of them, and so is a failure of the file system: `ClassAtlas.FormatError`
and `ClassAtlas.DiskFault` embed.

## Main definitions

* `ClassAtlas.StoreFault` — the ways in which the tables refuse a change.
* `ClassAtlas.ConfigFault` — the ways in which settings are refused.
* `ClassAtlas.Error` — the causes.
* `ClassAtlas.Error.message` — the one wording of each cause.
-/

set_option autoImplicit false

namespace ClassAtlas

/-- The ways in which the tables refuse a change or a question. -/
inductive StoreFault where
  /-- A row names a row of another table that does not exist. -/
  | foreignKey
  /-- Two files would have the same path. -/
  | duplicatePath
  /-- Two identities would have the same text. -/
  | duplicateIdentity
  /-- An identity would have two symbols. -/
  | duplicateSymbol
  /-- A row that has to exist does not. -/
  | noRow
  /-- A file that has to hold tables does not. -/
  | noTables
  /-- The file that has to hold the tables cannot be opened. -/
  | closed (path : String)
  /-- A companion of the file that has to hold the tables cannot be opened. -/
  | blocked
  /-- A companion of the file that has to hold the tables cannot be read or deleted. -/
  | deviceFault
  /-- The tables cannot be changed. -/
  | readOnly
  /-- The file with the tables was overwritten while they were open. -/
  | overwritten
  /-- A log that nobody can index stays locked. -/
  | lockedLog
  /-- The address of the tables is one on another machine. -/
  | foreignHost (name : String)
  /-- An option in the address of the tables has a value that is none of its modes. -/
  | unknownMode (option value : String)
  /-- The address of the tables asks for a right that it gave up before. -/
  | forbiddenMode (value : String)
  /-- The address of the tables names no known way to reach files. -/
  | unknownDriver (name : String)
  deriving DecidableEq, Repr

/-- The wording of a refusal by the tables. -/
def StoreFault.message : StoreFault → String
  | .foreignKey => "FOREIGN KEY constraint failed"
  | .duplicatePath => "UNIQUE constraint failed: files.path"
  | .duplicateIdentity => "UNIQUE constraint failed: identities.identifier"
  | .duplicateSymbol => "UNIQUE constraint failed: symbols.identity_id"
  | .noRow => "Query returned no rows"
  | .noTables => "file is not a database"
  | .closed path => "unable to open database file: " ++ path
  | .blocked => "unable to open database file"
  | .deviceFault => "disk I/O error"
  | .readOnly => "attempt to write a readonly database"
  | .overwritten => "database disk image is malformed"
  | .lockedLog => "locking protocol"
  | .foreignHost name => "invalid uri authority: " ++ name
  | .unknownMode option value => "no such " ++ option ++ " mode: " ++ value
  | .forbiddenMode value => "access mode not allowed: " ++ value
  | .unknownDriver name => "no such vfs: " ++ name

/-- The ways in which settings are refused. -/
inductive ConfigFault where
  /-- The text is no TOML document of settings: bad grammar, an unknown key or a value of the wrong
  type. -/
  | unreadable (text : String)
  /-- The document is well-formed, and a value or the document itself is refused. -/
  | refused (text : String)
  deriving DecidableEq, Repr

/-- The wording of a refusal of settings. -/
def ConfigFault.message : ConfigFault → String
  | .unreadable text => text
  | .refused text => text

/-- The same refusal, said of the settings file at `path`. -/
def ConfigFault.inFile (path : String) : ConfigFault → ConfigFault
  | .unreadable text => .unreadable (path ++ ": " ++ text)
  | .refused text => .refused (path ++ ": " ++ text)

/-- The causes for which an operation on a workspace fails. -/
inductive Error where
  /-- An identity lacks the separators of its kind. -/
  | malformedIdentity (text : String)
  /-- No row of the store has this identity. -/
  | unknownIdentity (text : String)
  /-- A symbol cannot get the name that is asked for. -/
  | cannotRename (identity reason : String)
  /-- A class would move to another package. -/
  | crossPackage (source target : String)
  /-- A class file cannot be read. -/
  | classFormat (cause : FormatError)
  /-- A revised class file is no class file. -/
  | revisionRejected (path : String) (cause : FormatError)
  /-- No file of the workspace has this number. -/
  | unknownFile (id : Int)
  /-- Nobody takes events any more. -/
  | brokerClosed
  /-- The settings are refused. -/
  | config (fault : ConfigFault)
  /-- The tables refuse a change. -/
  | store (fault : StoreFault)
  /-- An archive cannot be read. -/
  | archive
  /-- A directory cannot be walked. -/
  | walk
  /-- The file system refuses something. -/
  | disk (fault : DiskFault)
  deriving DecidableEq, Repr

/-- The wording of a cause. -/
def Error.message : Error → String
  | .malformedIdentity text => "malformed identity: " ++ text
  | .unknownIdentity text => "unknown identity: " ++ text
  | .cannotRename identity reason => "symbol " ++ identity ++ " cannot be renamed: " ++ reason
  | .crossPackage source target =>
    "cannot move " ++ source ++ " to " ++ target ++
      ": classes may only be renamed within their package"
  | .classFormat cause => "class parse error: " ++ cause.message
  | .revisionRejected path cause =>
    "rewritten class " ++ path ++ " failed validation: " ++ cause.message
  | .unknownFile id => "no file with id " ++ toString id ++ " in workspace"
  | .brokerClosed => "mapping event broker is closed"
  | .config fault => "invalid configuration: " ++ fault.message
  | .store fault => "database error: " ++ fault.message
  | .archive => "archive error: not an archive"
  | .walk => "error walking directory: not a directory"
  | .disk fault => "I/O error: " ++ fault.message

end ClassAtlas
