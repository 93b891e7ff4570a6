import ClassAtlas.Disk.Basic
import ClassAtlas.Disk.TablesAddress

/-!
# Open tables

The file with the tables of a workspace is opened for one command. Three other files may stand beside
it. A journal that was left behind belongs to a change that did not come to its end; the change is
taken back. A log has changes that did not go to the tables yet. An index says where in the log they
are. While tables are open, changes go to the log; when they are closed, the changes go to the tables,
and log and index are deleted. Where there can be no log, each change goes to the tables at once, and
there is a journal as long as that takes.

## Main definitions

* `ClassAtlas.Disk.resolve` — the place of the file to which a path leads.
* `ClassAtlas.OpenTables` — tables that were opened.
* `ClassAtlas.OpenTables.ofAddress` — opening the tables at an address.
* `ClassAtlas.OpenTables.during`, `ClassAtlas.OpenTables.close` — the disk while they are open, and
  afterwards.
-/

set_option autoImplicit false

namespace ClassAtlas

/-! ### Places -/

namespace Disk

/-- The number of bytes that a path from the root has at most while it is looked for. -/
def searchLimit : Nat := 511

/-- The number of bytes that the path from the root to tables has at most, so that there is room for
the names of the other files. -/
def tablesPathLimit : Nat := 504

/-- The number of bytes of the path from the root to a place. -/
def pathSize (place : DiskPath) : Nat :=
  place.foldl (fun size name => size + 1 + name.utf8ByteSize) 0

/-- Goes from a place where a name leads. What is above a name is known without a look at the disk, but
names may not go on behind a file. -/
def resolveName (disk : Disk) (place : DiskPath) (name : String) : Option DiskPath :=
  if PathText.isIdle name then some place
  else if name == ".." then some place.dropLast
  else if searchLimit < pathSize (place ++ [name]) then none
  else
    match disk.node? place with
    | none => some (place ++ [name])
    | some (.file _) => none
    | some (.directory _) =>
      if PathText.nameLimit < name.utf8ByteSize then none else some (place ++ [name])

/-- The place of the tables to which a path leads. -/
def resolve (disk : Disk) (path : String) : Option DiskPath := do
  let start := if PathText.isAbsolute path then [] else disk.here
  let place ← (PathText.segments path).foldlM disk.resolveName start
  if place.isEmpty || tablesPathLimit < pathSize place then none else some place

/-- The place of a file whose name is that of another file with an ending. -/
def beside (place : DiskPath) (ending : String) : DiskPath :=
  place.dropLast ++ [place.getLastD "" ++ ending]

/-- The place of the journal of tables. -/
def journalOf (place : DiskPath) : DiskPath := beside place "-journal"

/-- The place of the log of tables. -/
def logOf (place : DiskPath) : DiskPath := beside place "-wal"

/-- The place of the index of the log. -/
def logIndexOf (place : DiskPath) : DiskPath := beside place "-shm"

end Disk

/-- Where changes go before they go to the tables. -/
inductive TablesLog where
  /-- Nowhere. -/
  | absent
  /-- To a log with an index in a file. -/
  | indexed
  /-- To a log with an index that is in no file. -/
  | unindexed
  /-- There is a log, but no index can be written, and so nothing can be changed. -/
  | stuck
  deriving DecidableEq, Repr

/-- Tables that were opened. -/
structure OpenTables where
  /-- The place of their file. Without one, they are kept nowhere. -/
  place : Option DiskPath
  /-- What is in the file until the tables are closed. -/
  file : TablesFile
  /-- The tables. -/
  store : Store
  /-- Where changes go. -/
  log : TablesLog
  /-- Why nothing can be changed; nothing if changes are possible. -/
  refusal : Option StoreFault

/-- Opening tables. A failure keeps what was done to the disk before it. -/
abbrev TablesAction (α : Type) := ExceptT StoreFault (StateM Disk) α

namespace TablesOpening

/-- Whether there can be a log. -/
def allowsLog (opening : TablesOpening) : Bool :=
  match opening.driver with
  | .standard | .exclusive => true
  | .lockFile | .lockless | .nowhere => false

/-- Whether the tables are kept nowhere. -/
def isNowhere (opening : TablesOpening) : Bool :=
  opening.path == "" || opening.path == ":memory:" || opening.rights == .memory

/-- Whether the file is only read. -/
def isReading (opening : TablesOpening) : Bool :=
  opening.rights == .read

end TablesOpening

namespace OpenTables

open Disk

/-- New tables that are kept nowhere. -/
def nowhere : OpenTables := ⟨none, ⟨Store.empty, false, true⟩, Store.empty, .absent, none⟩

/-! ### Steps of opening -/

/-- Makes a journal, and deletes it when the change has come to its end. -/
def useJournal (place : DiskPath) : TablesAction Unit := do
  if (← get).canHold (journalOf place) then modify (·.erase (journalOf place))
  else throw .blocked

/-- Takes back what a journal that was left behind says. An empty one, and one that starts with zero,
says nothing. One beside a file without tables cannot belong to it. -/
def settleJournal (opening : TablesOpening) (place : DiskPath) (isBlank : Bool) :
    TablesAction Unit := do
  let disk ← get
  let journal := journalOf place
  let drop : TablesAction Unit := set (disk.erase journal)
  if opening.driver == .lockFile then return
  if disk.hasDirectory journal then
    if !isBlank then throw .deviceFault
  else
    match disk.content? journal with
    | none => return
    | some content =>
      if content.isEmpty then return
      else if isBlank then
        if !opening.isReading || opening.driver == .lockless then drop
      else if content.startsWithZero then return
      else if opening.isReading then throw .readOnly
      else drop

/-- Opens a log with its index. Each of them is made if there is none. -/
def openLog (opening : TablesOpening) (place : DiskPath) : TablesAction TablesLog := do
  let log := logOf place
  let index := logIndexOf place
  if !opening.allowsLog || !(← get).canHold log then throw .blocked
  if ((← get).content? log).isNone then modify (·.put log (.file (.plain (.bytes []))))
  let disk ← get
  if opening.driver == .exclusive && !opening.isReading then return .unindexed
  else if disk.hasDirectory index then
    if ((disk.content? log).all Content.isEmpty) then return .stuck else throw .lockedLog
  else if opening.readsLogIndex then
    if (disk.content? index).isSome then return .stuck else throw .blocked
  else
    set (disk.put index (.file (.plain (.sealed .logIndex []))))
    return .indexed

/-- Opens a log that was left behind, unless it is empty. One beside a file without tables is
deleted. -/
def findLog (opening : TablesOpening) (place : DiskPath) (isBlank : Bool) :
    TablesAction TablesLog := do
  let disk ← get
  let log := logOf place
  if disk.hasDirectory log then throw (if isBlank then .deviceFault else .blocked)
  else if (disk.content? log).all Content.isEmpty then return .absent
  else if isBlank then
    set (disk.erase log)
    return .absent
  else openLog opening place

/-- The tables that a log that was left behind makes up. -/
def logged? (disk : Disk) (place : DiskPath) : Option Store :=
  match disk.content? (logOf place) with
  | some (.sealed .log image) => (TablesFile.ofBytes? image).map TablesFile.store
  | _ => none

/-- Deletes the log and its index. -/
def dropLog (place : DiskPath) (log : TablesLog) (disk : Disk) : Disk :=
  match log with
  | .absent | .stuck => disk
  | .unindexed => disk.erase (logOf place)
  | .indexed => (disk.erase (logOf place)).erase (logIndexOf place)

/-- Writes a file with tables. -/
def keep (place : DiskPath) (file : TablesFile) (disk : Disk) : Disk :=
  disk.put place (.file (.tables file))

/-- Opens a log for a file with tables, which is told so if it does not know it yet. -/
def startLog (opening : TablesOpening) (place : DiskPath) (file : TablesFile) :
    TablesAction (TablesLog × TablesFile) := do
  if file.isLogged then return (← openLog opening place, file)
  else if !opening.allowsLog then return (.absent, file)
  else if opening.isReading then throw .readOnly
  else
    useJournal place
    let file := { file with isLogged := true }
    modify (keep place file)
    return (← openLog opening place, file)

/-- Lays out new tables in a file that has none. With a log, that is a change that goes to the log. -/
def layOut (opening : TablesOpening) (place : DiskPath) (log : TablesLog) (file : TablesFile) :
    TablesAction TablesFile := do
  if opening.isReading || log == .stuck then throw .readOnly
  else if log == .absent then
    useJournal place
    let file := { file with isLaidOut := true }
    modify (keep place file)
    return file
  else return file

/-- Opens a file of which it is taken for granted that nobody changes it. -/
def openFrozen (place : DiskPath) (body : FileBody) : Except StoreFault OpenTables :=
  match body.tables? with
  | some file =>
    if file.isLaidOut then .ok ⟨some place, file, file.store, .absent, some .readOnly⟩
    else .error .readOnly
  | none => .error (if body.content.isBlank then .readOnly else .noTables)

/-- Why open tables cannot be changed. -/
def refusal? (opening : TablesOpening) (disk : Disk) (place : DiskPath) (log : TablesLog) :
    Option StoreFault :=
  if opening.isReading || log == .stuck then some .readOnly
  else if log == .absent && !disk.canHold (journalOf place) then some .blocked
  else none

/-- Opens a file: what was left behind is settled, changes get their log, and a file without tables
gets new ones. -/
def openBody (opening : TablesOpening) (place : DiskPath) (body : FileBody) :
    TablesAction OpenTables := do
  let isBlank := body.content.isBlank
  settleJournal opening place isBlank
  let found ← findLog opening place isBlank
  if body.tables?.isNone && !isBlank then
    if !opening.isReading then modify (dropLog place found)
    throw .noTables
  body.tables?.forM fun file => modify (keep place file)
  let file := body.tables?.getD ⟨Store.empty, false, false⟩
  let (log, file) ← if found == .absent then startLog opening place file else pure (found, file)
  let logged := logged? (← get) place
  let file ←
    if logged.isSome || file.isLaidOut then pure file else layOut opening place log file
  return ⟨some place, file, logged.getD file.store, log, refusal? opening (← get) place log⟩

/-! ### Opening -/

/-- The file at a place, which is made if that is allowed and there is none; `closed` says that it
cannot be opened. -/
def bodyAt (opening : TablesOpening) (place : DiskPath) (closed : StoreFault) :
    TablesAction FileBody := do
  let disk ← get
  match disk.node? place with
  | some (.file body) => return body
  | some (.directory _) => throw (if opening.isReading then .deviceFault else closed)
  | none =>
    if opening.rights == .create && disk.hasDirectory place.dropLast then
      set (disk.put place (.file (.plain (.bytes []))))
      return .plain (.bytes [])
    else throw closed

/-- Opens the tables at an address. -/
def ofAddress (text : String) : TablesAction OpenTables := do
  let opening ← (do (← TablesAddress.ofText text).opening : Except StoreFault TablesOpening)
  let closed : StoreFault := .closed text
  if opening.isNowhere then
    if opening.isReading then throw .readOnly else return nowhere
  else if opening.driver == .nowhere then
    if opening.isReading || opening.isFrozen then throw .readOnly else return nowhere
  else
    let disk ← get
    let some place := disk.resolve opening.path | throw closed
    if opening.model.any fun path => (disk.locate path).toOption.isNone then throw .deviceFault
    let body ← bodyAt opening place closed
    if opening.isFrozen then openFrozen place body else openBody opening place body

/-! ### Use and closing -/

/-- The file after the tables were changed. -/
def changed (tables : OpenTables) (store : Store) : TablesFile :=
  { tables.file with store, isLaidOut := true }

/-- Where open tables were changed: their place, unless nothing is to be kept. -/
def changedAt? (tables : OpenTables) (store : Store) : Option DiskPath :=
  if tables.refusal.isSome || tables.changed store = tables.file then none else tables.place

/-- The index of a log with changes. It says whether the log began with laying out the tables. -/
def filledIndex (tables : OpenTables) : Content :=
  .sealed .logIndex [if tables.file.isLaidOut then 1 else 0]

/-- The disk while tables are open that have become `store`. -/
def during (tables : OpenTables) (store : Store) (disk : Disk) : Disk :=
  match tables.changedAt? store with
  | none => disk
  | some place =>
    let image := (tables.changed store).toBytes
    match tables.log with
    | .absent => keep place (tables.changed store) disk
    | .unindexed | .stuck => disk.put (logOf place) (.file (.plain (.sealed .log image)))
    | .indexed =>
      (disk.put (logOf place) (.file (.plain (.sealed .log image)))).put (logIndexOf place)
        (.file (.plain tables.filledIndex))

/-- Why nothing more can be read from open tables if the index of another log was written over theirs.
It says that there are changes, but their log has none: not the first part of the tables, or not the
part in which they have grown since. -/
def indexFault? (tables : OpenTables) (disk : Disk) : Option StoreFault := do
  let place ← tables.place
  match tables.log, disk.content? (logIndexOf place) with
  | .indexed, some (.sealed .logIndex [0]) => some .deviceFault
  | .indexed, some (.sealed .logIndex [_]) => some .overwritten
  | _, _ => none

/-- Why nothing more can be read from open tables if files were written over theirs. -/
def lost? (tables : OpenTables) (disk : Disk) : Option StoreFault := do
  let place ← tables.place
  if tables.log = .absent then none
  else
    match disk.node? place with
    | some (.file (.tables _)) => tables.indexFault? disk
    | _ => some .overwritten

/-- The disk after tables were closed that have become `store`. -/
def close (tables : OpenTables) (store : Store) (disk : Disk) : Disk :=
  let disk :=
    match tables.changedAt? store with
    | none => disk
    | some place =>
      let disk := keep place (tables.changed store) disk
      if tables.log = .absent then disk.erase (journalOf place) else disk
  match tables.place with
  | some place =>
    if tables.refusal.isSome || (tables.indexFault? disk).isSome then disk
    else dropLog place tables.log disk
  | none => disk

end OpenTables

end ClassAtlas
