import ClassAtlas.ClassFile.Decode
import ClassAtlas.Mapping.Delivery
import ClassAtlas.Mapping.Job
import ClassAtlas.Mapping.Sync
import ClassAtlas.Mapping.Walk

/-!
# Mapping files

Mapping a file starts a job: it forgets what was found in the file before, walks over the file, or
over each entry if the file is an archive with entries, and sends what it finds into the index. A
file that is no class file, or that cannot be read to its end, is skipped; what was found before the
fault stays.

## Main definitions

* `ClassAtlas.FileRow.findings` — what is found in one file, and how that ended.
* `ClassAtlas.MapReport` — the counts of a run.
* `ClassAtlas.Mapping.runJob` — one job.
* `ClassAtlas.Index.mapFiles`, `ClassAtlas.Index.mapAll` — jobs for some files, and for all.

## Design

Jobs, and the walks over the files of a job, may take place at the same time. What runs here is one
order among those that are possible: jobs and walks one after the other, and batches of equal size.
`ClassAtlas.Index.Maps` covers every order, and memory that does not suffice.
-/

set_option autoImplicit false

namespace ClassAtlas

/-- How the walk over a file ended. -/
inductive FileOutcome where
  /-- The whole class was walked over. -/
  | mapped
  /-- There was nothing to walk over. -/
  | empty
  /-- The file is no class file. -/
  | notAClass
  /-- The class cannot be read, or not to its end. -/
  | unreadable (cause : FormatError)
  deriving DecidableEq, Repr

/-- What is found in a file, and how that ended. -/
def FileRow.findings (file : FileRow) : List Event × FileOutcome :=
  if file.isDirectory || file.content.all Content.isEmpty then ([], .empty)
  else if !hasMagic file.bytes then ([], .notAClass)
  else
    match ClassFile.decode file.bytes with
    | .error cause => ([], .unreadable cause)
    | .ok c =>
      let outcome := c.visit file.id
      (outcome.events,
        match outcome.fault with
        | none => .mapped
        | some cause => .unreadable cause)

/-- The counts of a run of mapping jobs. -/
structure MapReport where
  /-- Jobs. -/
  jobs : Nat
  /-- Files that were walked over. -/
  filesMapped : Nat
  /-- Files that are no class files, or that cannot be read. -/
  filesSkipped : Nat
  /-- Symbols that were sent. -/
  symbols : Nat
  /-- References that were sent. -/
  references : Nat
  /-- The files that cannot be read, with the cause. -/
  parseErrors : List String
  deriving DecidableEq, Repr

namespace MapReport

/-- The report of no job. -/
def empty : MapReport := ⟨0, 0, 0, 0, 0, []⟩

/-- Two reports in one. -/
def append (a b : MapReport) : MapReport where
  jobs := a.jobs + b.jobs
  filesMapped := a.filesMapped + b.filesMapped
  filesSkipped := a.filesSkipped + b.filesSkipped
  symbols := a.symbols + b.symbols
  references := a.references + b.references
  parseErrors := a.parseErrors ++ b.parseErrors

/-- The report with the outcome of one more file. -/
def note (report : MapReport) (path : String) : FileOutcome → MapReport
  | .mapped => { report with filesMapped := report.filesMapped + 1 }
  | .empty => report
  | .notAClass => { report with filesSkipped := report.filesSkipped + 1 }
  | .unreadable cause =>
    { report with
      filesSkipped := report.filesSkipped + 1
      parseErrors := report.parseErrors ++ [path ++ ": " ++ cause.message] }

end MapReport

namespace Mapping

/-! ### Batches -/

/-- Cuts a list into parts of `size` items; `room` items fit into the current part. -/
def batchesFrom {α : Type} (size : Nat) : Nat → List α → List α → List (List α)
  | _, current, [] => if current.isEmpty then [] else [current.reverse]
  | 0, current, item :: items => current.reverse :: batchesFrom size (size - 1) [item] items
  | room + 1, current, item :: items => batchesFrom size room (item :: current) items

/-- Cuts a list into parts of `size` items, of which the last one may be shorter. -/
def batches {α : Type} (size : Nat) (items : List α) : List (List α) :=
  batchesFrom size size [] items

/-! ### Jobs -/

/-- The observer that stores events. -/
def storing : Observer Index := fun events index =>
  (index.sync events).map Prod.snd

/-- The files over which the job of a file walks, after everything that was found in them before is
forgotten. -/
def prepare (file : FileRow) : Transaction (List FileRow) := do
  let entries := (← get).entriesOf file.id
  Store.clearMappings file.id
  entries.forM fun entry => Store.clearMappings entry.id
  return if entries.isEmpty then [file] else entries

/-- Runs the job with a number: its report or the failure that its flush reports. -/
def runJob (batchSize : Nat) (number : JobId) (file : FileRow) (consumer : Consumer Index) :
    Except Error MapReport × Consumer Index :=
  match Index.transact (prepare file) consumer.state with
  | (.error e, index) => (.error e, { consumer with state := index })
  | (.ok files, index) =>
    let walks := files.map fun f => (f.path, f.findings)
    let (events, job) := (Job.start file.name).reportAll (walks.flatMap fun walk => walk.2.1)
    let messages := events.map (Message.event number) ++ [.flush number]
    let (replies, consumer) :=
      { consumer with state := index }.processAll [storing] (batches batchSize messages)
    match replies.findSome? Reply.failure with
    | some e => (.error e, consumer)
    | none =>
      let report := { MapReport.empty with
        jobs := 1, symbols := job.symbols, references := job.references }
      (.ok (walks.foldl (fun report walk => report.note walk.1 walk.2.2) report), consumer)

/-- Runs the jobs of files one after the other, whether or not one of them fails; the first failure
is reported. -/
def runJobs (batchSize : Nat) : JobId → List FileRow → Consumer Index →
    Except Error MapReport × Consumer Index
  | _, [], consumer => (.ok MapReport.empty, consumer)
  | number, file :: files, consumer =>
    let (report, consumer) := runJob batchSize number file consumer
    let (reports, consumer) := runJobs batchSize (number + 1) files consumer
    (do return (← report).append (← reports), consumer)

end Mapping

namespace Index

/-- Maps files; entries of archives are mapped with their archives only. -/
def mapRows (settings : QueueSettings) (files : List FileRow) : Session MapReport := fun index =>
  match settings.validate with
  | .error e => (.error e, index)
  | .ok () =>
    let (report, consumer) :=
      Mapping.runJobs settings.batchSize 1 (files.filter (·.archive.isNone)) (Consumer.start index)
    (report, consumer.state)

/-- Maps every file that is no entry of an archive, in the order of the paths. -/
def mapAll (settings : QueueSettings) : Session MapReport := do
  mapRows settings (← query fun store => .ok store.topLevelFiles)

/-- Maps the files with these numbers, all of which have to exist. -/
def mapFiles (settings : QueueSettings) (ids : List RowId) : Session MapReport := do
  mapRows settings (← query fun store => ids.mapM store.requireFile)

end Index

end ClassAtlas
