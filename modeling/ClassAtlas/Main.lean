import ClassAtlas.Command.Run

/-!
# The command line

Reads the files below the current directory, runs one command line on them, writes what the command
has made and written, and prints the report. An archive is kept unpacked, as a directory with the
name of an archive.

## Main definitions

* `ClassAtlas.Terminal.load` — the files below the current directory.
* `ClassAtlas.Terminal.save` — writing what has changed.
* `main` — one run.
-/

set_option autoImplicit false

namespace ClassAtlas

/-- What is printed when a command line is refused, or asks for something else than a command. -/
def UsageError.message : UsageError → String
  | .noArguments | .help =>
    "Cross-reference index and safe renaming for JVM class files\n\n" ++
      "Commands: import, map, symbols, references, rename, export, summary\n" ++
      "Options:  --workspace, --config, --format, --log-level"
  | .noCommand => "error: a command is required"
  | .unknownCommand => "error: there is no such command"
  | .missingOperand => "error: a required argument is missing"
  | .unknownArgument => "error: there is an unexpected argument"
  | .badValue => "error: an option has no value, or one that it cannot have"
  | .repeatedOption => "error: an option is given twice"
  | .unwantedValue => "error: an option takes no value"
  | .version => "0.1.0"

/-- What is printed when a command fails. -/
def CommandError.message : CommandError → String
  | .refused message => "Error: " ++ message
  | .failed doing cause => "Error: " ++ doing ++ "\n\nCaused by:\n    " ++ cause.message
  | .direct cause => "Error: " ++ cause.message

namespace Terminal

/-- The text of the path to a place. -/
def textOf (place : DiskPath) : String :=
  "/" ++ PathText.ofSegments place

/-- The bytes of a file. -/
def readBytes (place : DiskPath) : IO (List UInt8) := do
  return (← IO.FS.readBinFile (textOf place)).toList

/-- The names in a directory, each with whether it is one of a directory. -/
def names (place : DiskPath) : IO (List (String × Bool)) := do
  let here ← IO.currentDir
  (← (here / textOf place).readDir).toList.mapM fun entry => do
    return (entry.fileName, ← entry.path.isDir)

/-- The entries of an unpacked archive. -/
partial def packed (archive place : DiskPath) : IO (List PackedEntry) := do
  let found ← (← names place).mapM fun (name, isDirectory) => do
    let next := place ++ [name]
    let path := PathText.ofSegments (next.drop archive.length)
    if isDirectory then return ⟨path ++ "/", []⟩ :: (← packed archive next)
    else return [⟨path, ← readBytes next⟩]
  return found.flatten

/-- The file that bytes make up. -/
def bodyOf (bytes : List UInt8) : FileBody :=
  match TablesFile.ofBytes? bytes with
  | some file => .tables file
  | none => .plain (.bytes bytes)

/-- What a directory holds. -/
partial def walk (place : DiskPath) : IO Node := do
  let found ← (← names place).mapM fun (name, isDirectory) => do
    let next := place ++ [name]
    if !isDirectory then return (name, Node.file (bodyOf (← readBytes next)))
    else if FileName.isArchive name then
      return (name, Node.file (.plain (.packed (← packed next next))))
    else return (name, ← walk next)
  return .directory found

/-- What stands below the current directory. -/
def load : IO Disk := do
  let here := (PathText.segments (← IO.currentDir).toString).filter (!·.isEmpty)
  return (Disk.empty here).put here (← walk here)

/-- Writes the bytes of a file. -/
def writeBytes (place : DiskPath) (bytes : List UInt8) : IO Unit :=
  IO.FS.writeBinFile (textOf place) (ByteArray.mk bytes.toArray)

/-- Writes a file. -/
def writeFile (place : DiskPath) : FileBody → IO Unit
  | .tables file => writeBytes place file.toBytes
  | .plain (.bytes value) | .plain (.sealed _ value) => writeBytes place value
  | .plain (.packed entries) => do
    IO.FS.createDirAll (textOf place)
    for entry in entries do
      let target := place ++ PathText.trimEnd (PathText.segments entry.name)
      if entry.isDirectory then IO.FS.createDirAll (textOf target)
      else
        IO.FS.createDirAll (textOf target.dropLast)
        writeBytes target entry.payload

/-- Deletes the files that are gone, makes the directories and writes the files that are not as they
were before. -/
def save (before after : Disk) : IO Unit := do
  let known := before.root.items
  for (place, body) in known do
    if body.isSome && (after.node? place).isNone then IO.FS.removeFile (textOf place)
  for (place, body) in after.root.items do
    if !known.contains (place, body) then
      match body with
      | some body => writeFile place body
      | none => IO.FS.createDirAll (textOf place)

end Terminal

end ClassAtlas

open ClassAtlas in
/-- Runs one command line. -/
def main (arguments : List String) : IO UInt32 := do
  match CommandLine.parse arguments with
  | .error .help => IO.println UsageError.help.message; return 0
  | .error .version => IO.println UsageError.version.message; return 0
  | .error e => IO.eprintln e.message; return 2
  | .ok line =>
    let before ← Terminal.load
    let (result, after) := line.run before
    Terminal.save before after
    match result with
    | .ok report => IO.println (report.render line.format); return 0
    | .error e => IO.eprintln e.message; return 1
