import ClassAtlas.Mapping.Run

/-!
# Crews

A mapping run is the work of a crew: a job for every file that is mapped, walkers over the files of each
job, and one consumer. All of them work at the same time. Each step below is taken at once, but nothing
says which step comes next: a run is any row of steps.

A job forgets what was found in its files before and then has all of its files walked over at the same
time. The walkers share what the job has announced: the first walker that names an identity announces
it, and no other one goes on with the identity before the announcement is in the queue. When all walkers
are through, the job sends a flush and waits for the answer. A full queue holds up everybody who wants
to send. The consumer takes one message after the other until the batch is full or the queue is empty,
and then works the batch off, slice by slice. Whenever it takes a message or has done with a slice, jobs
may forget, walk and send.

## Main definitions

* `ClassAtlas.Duty`, `ClassAtlas.Consumer.perform` — a batch is worked off duty by duty.
* `ClassAtlas.Walker`, `ClassAtlas.Stage`, `ClassAtlas.Worker` — jobs at work.
* `ClassAtlas.Stage.Step` — what a job does next.
* `ClassAtlas.Crew`, with `Step` and `Run` — a crew, its steps and its runs.
* `ClassAtlas.Index.Maps` — mapping files, in any order of the steps.

## Design

`ClassAtlas.Index.mapRows` takes the steps in one fixed order: one job after the other, one file after
the other, and a batch whenever there are enough messages for one. Every statement about what mapping
leaves behind is about `ClassAtlas.Index.Maps`, and `ClassAtlas.Index.maps_mapRows` says that the fixed
order is one of those that it covers.

The number of a job is its place in the crew. It tells the messages of the jobs apart, and nothing else
depends on it.

`ClassAtlas.Memory` says which sizes of queues and batches can be allocated. If the queue cannot be, the
program ends before the run starts. If a batch cannot be, the consumer ends at its first message; from
then on nobody takes messages, and everybody who sends or waits for an answer fails. That memory runs out
later, which ends the program at any point, is left out.
-/

set_option autoImplicit false

namespace ClassAtlas

/-- What there is memory for. -/
structure Memory where
  /-- Whether there is memory for a queue that holds so many messages. -/
  queue : Nat → Bool
  /-- Whether there is memory for a batch of so many messages. -/
  batch : Nat → Bool

/-- Memory for queues and batches of all sizes. -/
def Memory.ample : Memory := ⟨fun _ => true, fun _ => true⟩

/-! ### Duties of the consumer -/

/-- What the consumer has to do for a batch. -/
inductive Duty where
  /-- It has to hand over a slice of a job. -/
  | deliver (job : JobId) (events : List Event)
  /-- It has to answer the flush of a job. -/
  | answer (job : JobId)
  deriving DecidableEq, Repr

namespace Duty

/-- The duties for pending events. -/
def ofPending (pending : Pending) : List Duty :=
  pending.map fun slice => .deliver slice.1 slice.2

/-- The duties for the messages of a batch behind the events that are pending. -/
def ofBatchOnto (pending : Pending) : List Message → List Duty
  | [] => ofPending pending
  | .event job event :: batch => ofBatchOnto (pending.push job event) batch
  | .flush job :: batch => ofPending pending ++ .answer job :: ofBatchOnto [] batch

/-- The duties for a batch. -/
def ofBatch (batch : List Message) : List Duty :=
  ofBatchOnto [] batch

end Duty

namespace Consumer

variable {σ : Type}

/-- Does one duty. -/
def perform (handing : Handing σ) (consumer : Consumer σ) : Duty → Deed × Consumer σ
  | .deliver job events =>
    let (fate, consumer) := consumer.deliver handing (job, events)
    (.slice job events fate, consumer)
  | .answer job =>
    let (reply, consumer) := consumer.answer job
    (.reply reply, consumer)

end Consumer

/-! ### Jobs at work -/

namespace Job

/-- What a walker asks its job for to report a finding: the identities that it names, and then the
finding itself. -/
def calls (finding : Event) : List Event :=
  (named finding).map .identifier ++ payload finding

/-- Whether the job has nothing to send for a call, as the identity was announced before. -/
def isKnown (job : Job) : Event → Bool
  | .identifier identity => job.announced.contains identity
  | .symbol _ | .reference _ => false

/-- The job after it has sent what a call asks for. -/
def sent (job : Job) : Event → Job
  | .identifier identity => { job with announced := identity :: job.announced }
  | event => job.count event

end Job

/-- A walker over one of the files of a job. -/
inductive Walker where
  /-- It still has to read the file. -/
  | unread (file : FileRow)
  /-- It has read the file at a path, knows how the walk will end, and has these calls left. -/
  | reporting (path : String) (outcome : FileOutcome) (calls : List Event)
  deriving DecidableEq

namespace Walker

/-- The walker that has read the content of its file. -/
def reading (file : FileRow) (content : Option Content) : Walker :=
  let found := { file with content }.findings
  .reporting file.path found.2 (found.1.flatMap Job.calls)

/-- Whether the walker is through. -/
def isThrough : Walker → Bool
  | .reporting _ _ [] => true
  | .reporting _ _ (_ :: _) | .unread _ => false

/-- The report with the outcome of the walk. -/
def note (report : MapReport) : Walker → MapReport
  | .reporting path outcome _ => report.note path outcome
  | .unread _ => report

end Walker

/-- The reports of some jobs in one, or the first failure among them. -/
def MapReport.join : List (Except Error MapReport) → Except Error MapReport
  | [] => .ok empty
  | report :: reports => do return (← report).append (← join reports)

/-- The report of a job whose walkers are through. -/
def Job.reportOf (job : Job) (walkers : List Walker) : MapReport :=
  walkers.foldl Walker.note
    { MapReport.empty with jobs := 1, symbols := job.symbols, references := job.references }

/-- How far a job has come. -/
inductive Stage where
  /-- It has not started. -/
  | waiting
  /-- It has forgotten what was found before, and these files are to be walked over. -/
  | prepared (files : List FileRow)
  /-- Its files are walked over. The first failure of a walker is kept. -/
  | walking (job : Job) (fault : Option Error) (walkers : List Walker)
  /-- It has sent its flush. This is what it reports if nothing was refused. -/
  | flushing (report : MapReport)
  /-- It has ended. -/
  | ended (result : Except Error MapReport)

/-- How a job ended, if it has. -/
def Stage.result? : Stage → Option (Except Error MapReport)
  | .ended result => some result
  | .waiting | .prepared _ | .walking .. | .flushing _ => none

/-- A job of a crew. -/
structure Worker where
  /-- The number of the job. -/
  number : JobId
  /-- The file for which it runs. -/
  file : FileRow
  /-- How far it has come. -/
  stage : Stage

/-- The jobs for some files, none of which has started, with ascending numbers. -/
def Worker.waitingFrom : JobId → List FileRow → List Worker
  | _, [] => []
  | number, file :: files => ⟨number, file, .waiting⟩ :: waitingFrom (number + 1) files

/-- A crew at work. -/
structure Crew where
  /-- The jobs. -/
  workers : List Worker
  /-- The messages that wait, in the order in which they were sent. -/
  queue : List Message
  /-- The messages that the consumer has taken for its next batch. -/
  batch : List Message
  /-- What the consumer has to do for its last batch. -/
  duties : List Duty
  /-- The consumer with the index. -/
  consumer : Consumer Index
  /-- Whether there still is a consumer. -/
  isOpen : Bool
  /-- The answers that were given. -/
  replies : List Reply

/-- What happens in a step, as far as the index and the jobs notice. -/
inductive Act where
  /-- The job with a number, for a file, forgets what was found before. -/
  | prepared (number : JobId) (file : FileRow)
  /-- The consumer does something. -/
  | did (deed : Deed)
  /-- Nothing that they notice. -/
  | quiet

namespace Crew

/-- The index on which a crew works. -/
def index (crew : Crew) : Index :=
  crew.consumer.state

/-- A crew that has not started. -/
def start (index : Index) (files : List FileRow) : Crew where
  workers := Worker.waitingFrom 1 files
  queue := []
  batch := []
  duties := []
  consumer := Consumer.start index
  isOpen := true
  replies := []

/-- A message can be sent: there is a consumer, and the queue is not full. -/
def Accepts (settings : QueueSettings) (crew : Crew) : Prop :=
  crew.isOpen = true ∧ crew.queue.length < settings.queueCapacity

end Crew

/-- What the job with a number, for a file, can do next: what happens, the index and the messages that
it leaves, and how far it has come then. -/
inductive Stage.Step (settings : QueueSettings) (crew : Crew) (number : JobId) (file : FileRow) :
    Stage → Act → Index → List Message → Stage → Prop where
  /-- It forgets what was found in its files. -/
  | prepare {files : List FileRow} {index : Index}
    (h : Index.transact (Mapping.prepare file) crew.index = (.ok files, index)) :
    Step settings crew number file .waiting (.prepared number file) index [] (.prepared files)
  /-- It cannot do so. -/
  | refuse {cause : Error} {index : Index}
    (h : Index.transact (Mapping.prepare file) crew.index = (.error cause, index)) :
    Step settings crew number file .waiting .quiet index [] (.ended (.error cause))
  /-- The walkers start. -/
  | walk {files : List FileRow} :
    Step settings crew number file (.prepared files) .quiet crew.index []
      (.walking (Job.start file.name) none (files.map .unread))
  /-- A walker reads its file. -/
  | read {job : Job} {fault : Option Error} {before after : List Walker} {walked row : FileRow}
    (h : crew.index.store.requireFile walked.id = .ok row) :
    Step settings crew number file (.walking job fault (before ++ .unread walked :: after)) .quiet
      crew.index [] (.walking job fault (before ++ .reading walked row.content :: after))
  /-- The file is gone, and the walker fails. -/
  | miss {job : Job} {fault : Option Error} {before after : List Walker} {walked : FileRow}
    {cause : Error} (h : crew.index.store.requireFile walked.id = .error cause) :
    Step settings crew number file (.walking job fault (before ++ .unread walked :: after)) .quiet
      crew.index [] (.walking job (fault.or (some cause)) (before ++ after))
  /-- As another walker has failed, a walker does not start. -/
  | skip {job : Job} {cause : Error} {before after : List Walker} {walked : FileRow} :
    Step settings crew number file (.walking job (some cause) (before ++ .unread walked :: after)) .quiet
      crew.index [] (.walking job (some cause) (before ++ after))
  /-- A walker names an identity that was announced before. -/
  | pass {job : Job} {fault : Option Error} {before after : List Walker} {path : String}
    {outcome : FileOutcome} {call : Event} {calls : List Event} (h : job.isKnown call = true) :
    Step settings crew number file
      (.walking job fault (before ++ .reporting path outcome (call :: calls) :: after)) .quiet crew.index []
      (.walking job fault (before ++ .reporting path outcome calls :: after))
  /-- A walker announces an identity, or sends a finding. -/
  | send {job : Job} {fault : Option Error} {before after : List Walker} {path : String}
    {outcome : FileOutcome} {call : Event} {calls : List Event} (h : job.isKnown call = false)
    (hsend : crew.Accepts settings) :
    Step settings crew number file
      (.walking job fault (before ++ .reporting path outcome (call :: calls) :: after)) .quiet crew.index
      [.event number call]
      (.walking (job.sent call) fault (before ++ .reporting path outcome calls :: after))
  /-- A walker cannot send, as there is no consumer, and fails. -/
  | lose {job : Job} {fault : Option Error} {before after : List Walker} {path : String}
    {outcome : FileOutcome} {call : Event} {calls : List Event} (h : job.isKnown call = false)
    (hclosed : crew.isOpen = false) :
    Step settings crew number file
      (.walking job fault (before ++ .reporting path outcome (call :: calls) :: after)) .quiet crew.index []
      (.walking job (fault.or (some .brokerClosed)) (before ++ after))
  /-- All walkers are through, and the flush is sent. -/
  | flush {job : Job} {walkers : List Walker} (hthrough : walkers.all Walker.isThrough = true)
    (hsend : crew.Accepts settings) :
    Step settings crew number file (.walking job none walkers) .quiet crew.index [.flush number]
      (.flushing (job.reportOf walkers))
  /-- All walkers are through, and the flush cannot be sent. -/
  | unsent {job : Job} {walkers : List Walker} (hthrough : walkers.all Walker.isThrough = true)
    (hclosed : crew.isOpen = false) :
    Step settings crew number file (.walking job none walkers) .quiet crew.index []
      (.ended (.error .brokerClosed))
  /-- All walkers are through or have failed. -/
  | fail {job : Job} {cause : Error} {walkers : List Walker}
    (hthrough : walkers.all Walker.isThrough = true) :
    Step settings crew number file (.walking job (some cause) walkers) .quiet crew.index []
      (.ended (.error cause))
  /-- The flush was answered. -/
  | join {report : MapReport} {reply : Reply}
    (h : crew.replies.find? (·.job == number) = some reply) :
    Step settings crew number file (.flushing report) .quiet crew.index []
      (.ended (reply.failure.elim (.ok report) .error))
  /-- The flush is not answered any more. -/
  | abandon {report : MapReport} (hclosed : crew.isOpen = false)
    (h : crew.replies.find? (·.job == number) = none) :
    Step settings crew number file (.flushing report) .quiet crew.index []
      (.ended (.error .brokerClosed))

namespace Crew

/-- The crew after one of its jobs has taken a step. -/
def worked (crew : Crew) (before after : List Worker) (worker : Worker) (index : Index)
    (messages : List Message) (stage : Stage) : Crew :=
  { crew with
    workers := before ++ { worker with stage } :: after
    queue := crew.queue ++ messages
    consumer := { crew.consumer with state := index } }

/-- The crew after the consumer has done the first of its duties. -/
def performed (crew : Crew) (duty : Duty) (duties : List Duty) : Deed × Crew :=
  let (deed, consumer) := crew.consumer.perform (Consumer.hand [Mapping.storing]) duty
  (deed, { crew with duties, consumer, replies := crew.replies ++ deed.reply?.toList })

/-- What a crew can do next. -/
inductive Step (memory : Memory) (settings : QueueSettings) (crew : Crew) : Act → Crew → Prop where
  /-- A job takes a step. -/
  | work {before after : List Worker} {worker : Worker} {act : Act} {index : Index}
    {messages : List Message} {stage : Stage} (hworkers : crew.workers = before ++ worker :: after)
    (h : worker.stage.Step settings crew worker.number worker.file act index messages stage) :
    Step memory settings crew act (crew.worked before after worker index messages stage)
  /-- The consumer takes a message. It needs memory for a batch before it takes the first one. -/
  | receive {message : Message} {queue : List Message} (hopen : crew.isOpen = true)
    (hduties : crew.duties = []) (hqueue : crew.queue = message :: queue)
    (hroom : crew.batch.length < settings.batchSize)
    (hmemory : crew.batch = [] → memory.batch settings.batchSize = true) :
    Step memory settings crew .quiet { crew with queue, batch := crew.batch ++ [message] }
  /-- There is no memory for a batch. The consumer ends, and the queue with it. -/
  | close (hopen : crew.isOpen = true) (hduties : crew.duties = []) (hbatch : crew.batch = [])
    (hqueue : crew.queue ≠ []) (hmemory : memory.batch settings.batchSize = false) :
    Step memory settings crew .quiet { crew with queue := [], isOpen := false }
  /-- The batch is full, or no message waits. -/
  | begin (hduties : crew.duties = []) (hbatch : crew.batch ≠ [])
    (hfull : crew.batch.length = settings.batchSize ∨ crew.queue = []) :
    Step memory settings crew .quiet { crew with batch := [], duties := Duty.ofBatch crew.batch }
  /-- The consumer does one of its duties. -/
  | perform {duty : Duty} {duties : List Duty} (hduties : crew.duties = duty :: duties) :
    Step memory settings crew (.did (crew.performed duty duties).1) (crew.performed duty duties).2

/-- A crew takes steps, one after the other. -/
inductive Run (memory : Memory) (settings : QueueSettings) (crew : Crew) : List Act → Crew → Prop where
  /-- No step is taken yet. -/
  | refl : Run memory settings crew [] crew
  /-- One more step is taken. -/
  | step {acts : List Act} {act : Act} {crew' crew'' : Crew} (h : Run memory settings crew acts crew')
    (hstep : crew'.Step memory settings act crew'') : Run memory settings crew (acts ++ [act]) crew''

/-- How a run ended, if it has: all jobs have ended, and the consumer has nothing left to do. -/
def result? (crew : Crew) : Option (Except Error MapReport) :=
  if crew.queue.isEmpty && crew.batch.isEmpty && crew.duties.isEmpty then
    (crew.workers.mapM fun worker : Worker => worker.stage.result?).map MapReport.join
  else none

end Crew

/-- Mapping files leads to a result and an index, in some order of the steps, in which these acts
happen. Entries of archives are mapped with their archives only. -/
inductive Index.Maps (memory : Memory) (settings : QueueSettings) (files : List FileRow) (index : Index) :
    List Act → Except Error MapReport → Index → Prop where
  /-- The sizes are refused. -/
  | refused {cause : Error} (h : settings.validate = .error cause) :
    Maps memory settings files index [] (.error cause) index
  /-- There is memory for the queue, and the crew has done all of its work. -/
  | run {acts : List Act} {crew : Crew} {result : Except Error MapReport}
    (hsettings : settings.validate = .ok ()) (hqueue : memory.queue settings.queueCapacity = true)
    (hrun : (Crew.start index (files.filter (·.archive.isNone))).Run memory settings acts crew)
    (hresult : crew.result? = some result) : Maps memory settings files index acts result crew.index

end ClassAtlas
