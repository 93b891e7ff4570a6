import ClassAtlas.Mapping.Crew
import ClassAtlas.Proofs.Mapping.Stretches

/-!
# What becomes of the messages of a crew

A message waits in the queue, then it is in a batch, then it is a part of a duty, and then the duty is
done. Other jobs send at the same time, and nobody knows where batches end. Still the messages of one job
stay in order: what was done of them, followed by what is on its way, is what the job has sent.

## Main definitions

* `ClassAtlas.messagesOf` — the messages of a job that slices and answers stand for.
* `ClassAtlas.Crew.history` — what a job has sent.
* `ClassAtlas.Consumer.performAll` — duties, one after the other.

## Main results

* `ClassAtlas.Consumer.performAll_ofBatch` — to do the duties of a batch is to work off the batch.
* `ClassAtlas.messagesOf_ofBatch` — the duties of a batch stand for its messages.
* `ClassAtlas.Crew.history_worked`, `ClassAtlas.Crew.history_receive`, `ClassAtlas.Crew.history_begin`,
  `ClassAtlas.Crew.history_performed` — what steps do to the history of a job.
-/

set_option autoImplicit false

namespace ClassAtlas

/-! ### Duties -/

/-- What a duty is about: a slice of a job, or an answer to it. -/
def Duty.outline : Duty → JobId × (List Event ⊕ Unit)
  | .deliver job events => (job, .inl events)
  | .answer job => (job, .inr ())

namespace Consumer

variable {σ : Type} (handing : Handing σ) (consumer : Consumer σ)

/-- Does duties, one after the other. -/
def performAll (consumer : Consumer σ) : List Duty → List Deed × Consumer σ
  | [] => ([], consumer)
  | duty :: duties =>
    let (deed, consumer) := consumer.perform handing duty
    let (deeds, consumer) := performAll consumer duties
    (deed :: deeds, consumer)

theorem outline_perform (duty : Duty) : (consumer.perform handing duty).1.outline = duty.outline := by
  cases duty <;> rfl

theorem performAll_append (duties more : List Duty) : consumer.performAll handing (duties ++ more) =
    ((consumer.performAll handing duties).1 ++
        ((consumer.performAll handing duties).2.performAll handing more).1,
      ((consumer.performAll handing duties).2.performAll handing more).2) := by
  induction duties generalizing consumer with
  | nil => rfl
  | cons duty duties ih => simp only [List.cons_append, performAll, ih]

theorem performAll_ofPending (pending : Pending) :
    consumer.performAll handing (Duty.ofPending pending) = consumer.deliverAll handing pending := by
  induction pending generalizing consumer with
  | nil => rfl
  | cons slice pending ih => exact congrArg (fun rest => (_ :: rest.1, rest.2)) (ih _)

theorem performAll_ofBatchOnto (pending : Pending) (batch : List Message) :
    consumer.performAll handing (Duty.ofBatchOnto pending batch) =
      consumer.workOnto handing pending batch := by
  induction batch generalizing pending consumer with
  | nil => exact performAll_ofPending handing consumer pending
  | cons message batch ih =>
    cases message with
    | event job event => exact ih _ _
    | flush job =>
      rw [Duty.ofBatchOnto, performAll_append, performAll_ofPending, performAll, workOnto]
      simp only [ih]
      rfl

/-- **To do the duties of a batch is to work off the batch.** -/
theorem performAll_ofBatch (batch : List Message) :
    consumer.performAll handing (Duty.ofBatch batch) = consumer.work handing batch :=
  performAll_ofBatchOnto handing consumer [] batch

end Consumer

/-! ### Messages behind duties and deeds -/

/-- The messages of a job that a slice or an answer stands for. -/
def messagesOf? (job : JobId) : JobId × (List Event ⊕ Unit) → List (Event ⊕ Unit)
  | (other, .inl events) => if other = job then events.map .inl else []
  | (other, .inr ()) => if other = job then [.inr ()] else []

/-- The messages of a job that slices and answers stand for. -/
def messagesOf (job : JobId) (outlines : List (JobId × (List Event ⊕ Unit))) : List (Event ⊕ Unit) :=
  outlines.flatMap (messagesOf? job)

/-- The events among some messages. -/
def eventsIn (messages : List (Event ⊕ Unit)) : List Event :=
  messages.filterMap Sum.getLeft?

section Messages

variable {job : JobId}

theorem messagesOf_append (outlines more : List (JobId × (List Event ⊕ Unit))) :
    messagesOf job (outlines ++ more) = messagesOf job outlines ++ messagesOf job more :=
  List.flatMap_append

theorem messagesOf_cons (outline : JobId × (List Event ⊕ Unit))
    (outlines : List (JobId × (List Event ⊕ Unit))) :
    messagesOf job (outline :: outlines) = messagesOf? job outline ++ messagesOf job outlines :=
  List.flatMap_cons

theorem eventsIn_append (messages more : List (Event ⊕ Unit)) :
    eventsIn (messages ++ more) = eventsIn messages ++ eventsIn more :=
  List.filterMap_append

theorem eventsIn_map_inl (events : List Event) : eventsIn (events.map .inl) = events := by
  rw [eventsIn, List.filterMap_map]
  exact List.filterMap_some

theorem mem_eventsIn {event : Event} {messages : List (Event ⊕ Unit)} :
    event ∈ eventsIn messages ↔ .inl event ∈ messages := by
  simp [eventsIn]

theorem eventsIn_messagesOf? (job other : JobId) (events : List Event) :
    eventsIn (messagesOf? job (other, .inl events)) = if other = job then events else [] := by
  rw [messagesOf?]
  split
  · exact eventsIn_map_inl events
  · rfl

@[simp]
theorem inl_mem_messagesOf?_inl {other : JobId} {event : Event} {events : List Event} :
    .inl event ∈ messagesOf? job (other, .inl events) ↔ other = job ∧ event ∈ events := by
  by_cases h : other = job <;> simp [messagesOf?, h]

@[simp]
theorem inr_mem_messagesOf?_inl {other : JobId} {events : List Event} :
    .inr () ∈ messagesOf? job (other, .inl events) ↔ False := by
  by_cases h : other = job <;> simp [messagesOf?, h]

@[simp]
theorem inl_mem_messagesOf?_inr {other : JobId} {event : Event} :
    .inl event ∈ messagesOf? job (other, .inr ()) ↔ False := by
  by_cases h : other = job <;> simp [messagesOf?, h]

@[simp]
theorem inr_mem_messagesOf?_inr {other : JobId} :
    .inr () ∈ messagesOf? job (other, .inr ()) ↔ other = job := by
  by_cases h : other = job <;> simp [messagesOf?, h]

theorem messagesOf_ofPending (pending : Pending) :
    messagesOf job ((Duty.ofPending pending).map Duty.outline) = (pending.eventsOf job).map .inl := by
  induction pending with
  | nil => rfl
  | cons slice pending ih =>
    have hslice : messagesOf? job (slice.1, .inl slice.2) =
        (if slice.1 = job then slice.2 else []).map .inl := by
      rw [messagesOf?]
      split <;> rfl
    rw [Pending.eventsOf, List.flatMap_cons, List.map_append, ← hslice]
    exact congrArg _ ih

/-- The duties for the messages of a batch behind pending events stand for these messages.

**Proof sketch.** Induction on the batch. One more event comes behind the pending events of its job. -/
theorem messagesOf_ofBatchOnto {pending : Pending} (hp : pending.Keyed) (batch : List Message) :
    messagesOf job ((Duty.ofBatchOnto pending batch).map Duty.outline) =
      (pending.eventsOf job).map .inl ++ batch.filterMap (Message.sent? job) := by
  induction batch generalizing pending with
  | nil => exact (messagesOf_ofPending pending).trans (List.append_nil _).symm
  | cons message batch ih =>
    cases message with
    | event other event =>
      rw [Duty.ofBatchOnto, ih (hp.push other event), hp.eventsOf_push, List.map_append,
        List.append_assoc, List.filterMap_cons, Message.sent?]
      by_cases h : other = job <;> simp [h]
    | flush other =>
      have hnil : Pending.eventsOf job [] = [] := rfl
      rw [Duty.ofBatchOnto, List.map_append, messagesOf_append, messagesOf_ofPending, List.map_cons,
        messagesOf_cons, ih Pending.keyed_nil, hnil, List.map_nil, List.nil_append, List.filterMap_cons,
        Message.sent?, Duty.outline, messagesOf?]
      by_cases h : other = job <;> simp [h]

/-- **The duties of a batch stand for its messages.** -/
theorem messagesOf_ofBatch (batch : List Message) :
    messagesOf job ((Duty.ofBatch batch).map Duty.outline) = batch.filterMap (Message.sent? job) :=
  messagesOf_ofBatchOnto Pending.keyed_nil batch

end Messages

/-! ### Acts -/

/-- What an act of the consumer is about. -/
def Act.outline? : Act → Option (JobId × (List Event ⊕ Unit))
  | .did deed => some deed.outline
  | .prepared .. | .quiet => none

/-- The events that are stored in an act. -/
def Act.stored : Act → List Event
  | .did (.slice _ events .taken) => events
  | .did (.slice _ _ (.refused _)) | .did (.slice _ _ .dropped) | .did (.reply _) => []
  | .prepared .. | .quiet => []

/-- The events that are stored in some acts. -/
def storedIn (acts : List Act) : List Event :=
  acts.flatMap Act.stored

theorem storedIn_append (acts more : List Act) :
    storedIn (acts ++ more) = storedIn acts ++ storedIn more :=
  List.flatMap_append

theorem storedIn_concat (acts : List Act) (act : Act) :
    storedIn (acts ++ [act]) = storedIn acts ++ act.stored := by
  rw [storedIn_append, storedIn, storedIn, List.flatMap_singleton]

/-- What was done of the messages of a job. -/
def doneFor (job : JobId) (acts : List Act) : List (Event ⊕ Unit) :=
  messagesOf job (acts.filterMap Act.outline?)

namespace Crew

variable {crew : Crew} {acts : List Act} {job : JobId} {message : Message} {queue : List Message}
  {duty : Duty} {duties : List Duty}

/-- The messages of a job that are on their way. -/
def onTheWay (crew : Crew) (job : JobId) : List (Event ⊕ Unit) :=
  messagesOf job (crew.duties.map Duty.outline) ++
    (crew.batch ++ crew.queue).filterMap (Message.sent? job)

/-- What a job has sent until now: what was done after these acts, and what is on its way. -/
def history (crew : Crew) (acts : List Act) (job : JobId) : List (Event ⊕ Unit) :=
  doneFor job acts ++ crew.onTheWay job

theorem doneFor_append_of_outline?_eq_none {act : Act} (h : act.outline? = none) :
    doneFor job (acts ++ [act]) = doneFor job acts := by
  rw [doneFor, List.filterMap_append, List.filterMap_cons_none h]
  exact congrArg _ (List.append_nil _)

theorem doneFor_append_did (acts : List Act) (deed : Deed) :
    doneFor job (acts ++ [.did deed]) = doneFor job acts ++ messagesOf? job deed.outline := by
  rw [doneFor, List.filterMap_append, messagesOf_append]
  exact congrArg _ (List.append_nil _)

/-- If nothing is on its way, then all that a job has sent was done. -/
theorem history_eq_doneFor (hqueue : crew.queue = []) (hbatch : crew.batch = []) (hduties : crew.duties = [])
    (acts : List Act) (job : JobId) : crew.history acts job = doneFor job acts := by
  rw [history, onTheWay, hqueue, hbatch, hduties]
  exact List.append_nil _

/-- The slice that is handed over next comes behind what was handed over before. -/
theorem exists_eventsIn_history (acts : List Act) {events : List Event}
    (hduties : crew.duties = .deliver job events :: duties) :
    ∃ later, eventsIn (crew.history acts job) = eventsIn (doneFor job acts) ++ events ++ later := by
  refine ⟨eventsIn (messagesOf job (duties.map Duty.outline) ++
    (crew.batch ++ crew.queue).filterMap (Message.sent? job)), ?_⟩
  rw [history, onTheWay, hduties, List.map_cons, messagesOf_cons, Duty.outline, List.append_assoc,
    eventsIn_append, eventsIn_append, eventsIn_messagesOf?, if_pos rfl, List.append_assoc]

/-- A job sends messages. -/
theorem history_worked {act : Act} (h : act.outline? = none) (before after : List Worker)
    (worker : Worker) (index : Index) (messages : List Message) (stage : Stage) :
    (crew.worked before after worker index messages stage).history (acts ++ [act]) job =
      crew.history acts job ++ messages.filterMap (Message.sent? job) := by
  rw [history, doneFor_append_of_outline?_eq_none h, history, onTheWay, onTheWay, worked,
    ← List.append_assoc crew.batch, List.filterMap_append (l := crew.batch ++ crew.queue)]
  simp only [List.append_assoc]

/-- The consumer takes a message. -/
theorem history_receive (hqueue : crew.queue = message :: queue) :
    ({ crew with queue, batch := crew.batch ++ [message] } : Crew).history (acts ++ [.quiet]) job =
      crew.history acts job := by
  rw [history, doneFor_append_of_outline?_eq_none rfl, history, onTheWay, onTheWay, hqueue,
    List.append_assoc, List.singleton_append]

/-- The consumer starts to work off a batch. -/
theorem history_begin (hduties : crew.duties = []) :
    ({ crew with batch := [], duties := Duty.ofBatch crew.batch } : Crew).history (acts ++ [.quiet]) job =
      crew.history acts job := by
  rw [history, doneFor_append_of_outline?_eq_none rfl, history, onTheWay, onTheWay, messagesOf_ofBatch,
    hduties, List.filterMap_append (l := crew.batch)]
  rfl

/-- The consumer does a duty. -/
theorem history_performed (hduties : crew.duties = duty :: duties) :
    (crew.performed duty duties).2.history (acts ++ [.did (crew.performed duty duties).1]) job =
      crew.history acts job := by
  have houtline : (crew.performed duty duties).1.outline = duty.outline :=
    Consumer.outline_perform _ _ duty
  rw [history, doneFor_append_did, houtline, history, onTheWay, onTheWay, hduties, List.map_cons,
    messagesOf_cons, List.append_assoc, List.append_assoc]
  rfl

end Crew

end ClassAtlas
