import ClassAtlas.Error
import ClassAtlas.Mapping.Trace

/-!
# Delivery of events

Jobs send events, and from time to time a flush, into one queue. The queue is worked off in batches;
of each batch every job's events are handed to the observers as one slice. A flush is answered after
everything that was sent before it has been handed over. If an observer refuses a slice, the rest of
the job's events are dropped until its next flush, which reports the refusal.

## Main definitions

* `ClassAtlas.Message` — what jobs send.
* `ClassAtlas.Observer` — what is done with a slice.
* `ClassAtlas.Handing` — the same for all observers together, whatever they do before they refuse.
* `ClassAtlas.Pending` — the events of a batch, job by job.
* `ClassAtlas.Deed` — what a consumer does with a slice or a flush.
* `ClassAtlas.Consumer.work`, `workAll` — working off a batch, and batch after batch.
* `ClassAtlas.Consumer.process`, `processAll` — the same for a row of observers, with the answers only.
* `ClassAtlas.QueueSettings`, with `validate` — the sizes of queue and batches.

## Design

What the observers do is a change of a state of some type, so that the same consumer writes to an
index, records what it sees, or both. A consumer tells what it does deed by deed; nobody but the jobs
that flush hears of it, and they hear the answers. Here the batches are given; how the queue is filled
and cut into batches while jobs are at work is said by `ClassAtlas.Crew`.
-/

set_option autoImplicit false

namespace ClassAtlas

/-- The number of a job. -/
abbrev JobId := Nat

/-- What a job sends. -/
inductive Message where
  /-- An event of a job. -/
  | event (job : JobId) (value : Event)
  /-- A job asks whether everything that it sent was taken. -/
  | flush (job : JobId)
  deriving DecidableEq, Repr

/-- What an observer does with a slice of events: it changes a state, or refuses the slice. -/
abbrev Observer (σ : Type) := List Event → σ → Except Error σ

/-- What becomes of a slice that is handed over: a change of a state, which may also happen before
the slice is refused, and the cause if it is refused. -/
abbrev Handing (σ : Type) := List Event → σ → Option Error × σ

/-- The answer to a flush. -/
structure Reply where
  /-- The job that asked. -/
  job : JobId
  /-- Why a slice of the job was refused; nothing if all were taken. -/
  failure : Option Error
  deriving DecidableEq, Repr

/-- What became of a slice. -/
inductive Fate where
  /-- It was handed over and taken. -/
  | taken
  /-- It was handed over and refused. -/
  | refused (cause : Error)
  /-- It was not handed over, as a slice of the job was refused before. -/
  | dropped
  deriving DecidableEq, Repr

/-- What a consumer does. -/
inductive Deed where
  /-- It hands over a slice of a job, or drops it. -/
  | slice (job : JobId) (events : List Event) (fate : Fate)
  /-- It answers a flush. -/
  | reply (value : Reply)
  deriving DecidableEq, Repr

/-- The answer that is given, if one is. -/
def Deed.reply? : Deed → Option Reply
  | .slice .. => none
  | .reply value => some value

/-- The refusal of a slice of a job that has not flushed since. -/
structure JobFailure where
  /-- The job. -/
  job : JobId
  /-- Why the slice was refused. -/
  cause : Error
  /-- How many events were dropped since. -/
  dropped : Nat
  deriving DecidableEq, Repr

/-- The events of a batch that are not handed over yet, job by job, in the order in which the jobs
came up. -/
abbrev Pending := List (JobId × List Event)

/-- One more event of a job. -/
def Pending.push (pending : Pending) (job : JobId) (event : Event) : Pending :=
  match pending with
  | [] => [(job, [event])]
  | (other, events) :: rest =>
    if other = job then (other, events ++ [event]) :: rest
    else (other, events) :: Pending.push rest job event

/-- The working-off of a queue: the state of the observers, and the jobs with a refused slice. -/
structure Consumer (σ : Type) where
  /-- The state of the observers. -/
  state : σ
  /-- The refusals that were not reported yet. -/
  failures : List JobFailure

namespace Consumer

variable {σ : Type}

/-- A consumer that has seen nothing. -/
def start (state : σ) : Consumer σ := ⟨state, []⟩

/-- The refusal of a slice of a job. -/
def failure? (consumer : Consumer σ) (job : JobId) : Option JobFailure :=
  consumer.failures.find? (·.job == job)

/-- Hands a slice to one observer after the other, up to the first refusal. -/
def hand (observers : List (Observer σ)) (events : List Event) (state : σ) : Option Error × σ :=
  match observers with
  | [] => (none, state)
  | observer :: rest =>
    match observer events state with
    | .ok state => hand rest events state
    | .error cause => (some cause, state)

/-- Hands over a slice of a job, or drops it if a slice was refused before. -/
def deliver (handing : Handing σ) (consumer : Consumer σ) (slice : JobId × List Event) :
    Fate × Consumer σ :=
  match consumer.failure? slice.1 with
  | some _ =>
    (.dropped, { consumer with failures := consumer.failures.map fun f =>
        if f.job = slice.1 then { f with dropped := f.dropped + slice.2.length } else f })
  | none =>
    match handing slice.2 consumer.state with
    | (none, state) => (.taken, { consumer with state })
    | (some cause, state) => (.refused cause, ⟨state, consumer.failures ++ [⟨slice.1, cause, 0⟩]⟩)

/-- Hands over everything that is pending. -/
def deliverAll (handing : Handing σ) (consumer : Consumer σ) : Pending → List Deed × Consumer σ
  | [] => ([], consumer)
  | slice :: pending =>
    let (fate, consumer) := consumer.deliver handing slice
    let (deeds, consumer) := deliverAll handing consumer pending
    (.slice slice.1 slice.2 fate :: deeds, consumer)

/-- The answer to a flush, after which the job starts anew. -/
def answer (consumer : Consumer σ) (job : JobId) : Reply × Consumer σ :=
  (⟨job, (consumer.failure? job).map JobFailure.cause⟩,
    { consumer with failures := consumer.failures.filter (·.job != job) })

/-- Works off the messages of a batch behind the events that are pending. -/
def workOnto (handing : Handing σ) (pending : Pending) (consumer : Consumer σ) :
    List Message → List Deed × Consumer σ
  | [] => consumer.deliverAll handing pending
  | .event job event :: batch => workOnto handing (pending.push job event) consumer batch
  | .flush job :: batch =>
    let (deeds, consumer) := consumer.deliverAll handing pending
    let (reply, consumer) := consumer.answer job
    let (more, consumer) := workOnto handing [] consumer batch
    (deeds ++ .reply reply :: more, consumer)

/-- Works off a batch: what is done, in order, and the consumer after it. -/
def work (handing : Handing σ) (consumer : Consumer σ) (batch : List Message) :
    List Deed × Consumer σ :=
  workOnto handing [] consumer batch

/-- Works off one batch after the other. -/
def workAll (handing : Handing σ) (consumer : Consumer σ) :
    List (List Message) → List Deed × Consumer σ
  | [] => ([], consumer)
  | batch :: batches =>
    let (deeds, consumer) := consumer.work handing batch
    let (more, consumer) := workAll handing consumer batches
    (deeds ++ more, consumer)

/-- Works off a batch: the answers to its flushes, in order, and the consumer after it. -/
def process (observers : List (Observer σ)) (consumer : Consumer σ) (batch : List Message) :
    List Reply × Consumer σ :=
  let (deeds, consumer) := consumer.work (hand observers) batch
  (deeds.filterMap Deed.reply?, consumer)

/-- Works off one batch after the other: the answers to all flushes, and the consumer after them. -/
def processAll (observers : List (Observer σ)) (consumer : Consumer σ)
    (batches : List (List Message)) : List Reply × Consumer σ :=
  let (deeds, consumer) := consumer.workAll (hand observers) batches
  (deeds.filterMap Deed.reply?, consumer)

end Consumer

/-! ### Sizes -/

/-- The sizes of a queue of events. -/
structure QueueSettings where
  /-- How many messages wait at most. -/
  queueCapacity : Nat
  /-- How many messages are worked off together at most. -/
  batchSize : Nat
  deriving DecidableEq, Repr

/-- The sizes that are used unless others are set. -/
def QueueSettings.standard : QueueSettings := ⟨4096, 256⟩

/-- Refuses a queue that holds nothing and batches without messages. -/
def QueueSettings.validate (settings : QueueSettings) : Except Error Unit :=
  if settings.queueCapacity = 0 ∨ settings.batchSize = 0 then
    .error (.config (.refused "broker queue_capacity and batch_size must be >= 1"))
  else .ok ()

end ClassAtlas
