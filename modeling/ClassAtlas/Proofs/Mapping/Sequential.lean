import ClassAtlas.Proofs.Mapping.Handled
import ClassAtlas.Proofs.Mapping.Recorded

/-!
# The fixed order of the steps

`ClassAtlas.Index.mapRows` does all work in one fixed order. A crew can take its steps in that order: the
jobs start one after the other, the walkers of a job take turns file by file, and the consumer takes each
message at once, but works a batch off only when it is full or when the job waits for its answer. So what
is true after every run of a crew is true after `ClassAtlas.Index.mapRows`.

## Main definitions

* `ClassAtlas.Job.sendAll` — what a job sends for a row of calls.
* `ClassAtlas.Crew.Reaches` — a crew gets from one state to another one.
* `ClassAtlas.Crew.AtRest` — a crew in which no message waits.
* `ClassAtlas.Crew.afterwards` — what the consumer will have done after some more messages.

## Main results

* `ClassAtlas.Crew.AtRest.exists_reaches_take` — a message is sent and taken.
* `ClassAtlas.Crew.AtRest.exists_reaches_job` — a job from its start to its end.
* `ClassAtlas.Index.maps_mapRows` — the fixed order is one of the orders of a crew.
-/

set_option autoImplicit false

namespace ClassAtlas

/-! ### Calls, one after the other -/

namespace Job

/-- What a job sends for a row of calls: those that it does not know when they come. -/
def sendAll (job : Job) : List Event → List Event × Job
  | [] => ([], job)
  | call :: calls =>
    if job.isKnown call then sendAll job calls
    else
      let (events, job) := sendAll (job.sent call) calls
      (call :: events, job)

theorem sendAll_append (job : Job) (calls more : List Event) : job.sendAll (calls ++ more) =
    ((job.sendAll calls).1 ++ ((job.sendAll calls).2.sendAll more).1,
      ((job.sendAll calls).2.sendAll more).2) := by
  induction calls generalizing job with
  | nil => rfl
  | cons call calls ih =>
    rw [List.cons_append, sendAll, sendAll]
    split
    · exact ih job
    · simp only [ih, List.cons_append]

theorem sendAll_map_identifier (job : Job) (identities : List Identity) :
    job.sendAll (identities.map .identifier) = job.announceAll identities := by
  induction identities generalizing job with
  | nil => rfl
  | cons identity identities ih =>
    rw [List.map_cons, sendAll, announceAll, announce, isKnown]
    split
    · rw [ih]
      rfl
    · rw [ih]
      rfl

theorem sendAll_calls (job : Job) (finding : Event) : job.sendAll (calls finding) = job.report finding := by
  rw [calls, sendAll_append, sendAll_map_identifier, report]
  cases finding <;> rfl

/-- A job that is called finding by finding sends what a job reports. -/
theorem sendAll_flatMap_calls (job : Job) (findings : List Event) :
    job.sendAll (findings.flatMap calls) = job.reportAll findings := by
  induction findings generalizing job with
  | nil => rfl
  | cons finding findings ih =>
    rw [List.flatMap_cons, sendAll_append, sendAll_calls, ih, reportAll_cons]

theorem reportAll_append (job : Job) (findings more : List Event) : job.reportAll (findings ++ more) =
    ((job.reportAll findings).1 ++ ((job.reportAll findings).2.reportAll more).1,
      ((job.reportAll findings).2.reportAll more).2) := by
  simp only [← sendAll_flatMap_calls, List.flatMap_append, sendAll_append]

end Job

/-! ### Batches, one after the other -/

theorem Mapping.flatten_batchesFrom {α : Type} (size room : Nat) (current items : List α) :
    (batchesFrom size room current items).flatten = current.reverse ++ items := by
  induction items generalizing room current with
  | nil =>
    rw [batchesFrom]
    cases current <;> simp
  | cons item items ih =>
    cases room with
    | zero => rw [batchesFrom, List.flatten_cons, ih, List.reverse_singleton, List.singleton_append]
    | succ room => rw [batchesFrom, ih, List.reverse_cons, List.append_assoc, List.singleton_append]

namespace Consumer

variable {σ : Type} (observers : List (Observer σ)) (handing : Handing σ) (consumer : Consumer σ)

theorem processAll_cons (batch : List Message) (batches : List (List Message)) :
    consumer.processAll observers (batch :: batches) =
      ((consumer.process observers batch).1 ++
          ((consumer.process observers batch).2.processAll observers batches).1,
        ((consumer.process observers batch).2.processAll observers batches).2) :=
  congrArg (·, _) List.filterMap_append

/-- The job that asks with a message, if it is a flush. -/
def asks? : Message → Option JobId
  | .event _ _ => none
  | .flush job => some job

theorem filterMap_reply?_deliverAll (pending : Pending) :
    (consumer.deliverAll handing pending).1.filterMap Deed.reply? = [] := by
  induction pending generalizing consumer with
  | nil => rfl
  | cons slice pending ih => exact ih _

theorem map_job_workOnto (pending : Pending) (batch : List Message) :
    ((consumer.workOnto handing pending batch).1.filterMap Deed.reply?).map Reply.job =
      batch.filterMap asks? := by
  induction batch generalizing pending consumer with
  | nil => rw [workOnto, filterMap_reply?_deliverAll]; rfl
  | cons message batch ih =>
    cases message with
    | event job event => exact ih _ _
    | flush job =>
      rw [workOnto]
      dsimp only
      rw [List.filterMap_append, filterMap_reply?_deliverAll]
      exact congrArg (job :: ·) (ih _ _)

/-- Every flush is answered, and nothing else is. -/
theorem map_job_processAll (batches : List (List Message)) :
    (consumer.processAll observers batches).1.map Reply.job = batches.flatten.filterMap asks? := by
  induction batches generalizing consumer with
  | nil => rfl
  | cons batch batches ih =>
    rw [processAll_cons, List.map_append, ih, List.flatten_cons, List.filterMap_append]
    exact congrArg (· ++ _) (map_job_workOnto ..)

end Consumer

namespace Crew

variable {memory : Memory} {settings : QueueSettings} {crew crew' crew'' : Crew} {act : Act}
  {acts more : List Act}

/-! ### Steps, one after the other -/

theorem Run.trans (h : crew.Run memory settings acts crew') (h' : crew'.Run memory settings more crew'') :
    crew.Run memory settings (acts ++ more) crew'' := by
  induction h' with
  | refl => rwa [List.append_nil]
  | step _ hstep ih =>
    rw [← List.append_assoc]
    exact ih.step hstep

/-- A crew gets from one state to another one. -/
def Reaches (memory : Memory) (settings : QueueSettings) (crew crew' : Crew) : Prop :=
  ∃ acts, crew.Run memory settings acts crew'

theorem Reaches.refl : crew.Reaches memory settings crew :=
  ⟨[], .refl⟩

theorem Reaches.trans (h : crew.Reaches memory settings crew') (h' : crew'.Reaches memory settings crew'') :
    crew.Reaches memory settings crew'' := by
  obtain ⟨acts, hrun⟩ := h
  obtain ⟨more, hmore⟩ := h'
  exact ⟨acts ++ more, hrun.trans hmore⟩

theorem Step.reaches (h : crew.Step memory settings act crew') : crew.Reaches memory settings crew' :=
  ⟨[] ++ [act], .step .refl h⟩

/-- The consumer does all that it has to do. -/
theorem reaches_performAll (duties : List Duty) (hduties : crew.duties = duties) :
    crew.Reaches memory settings
      { crew with
        duties := []
        consumer := (crew.consumer.performAll (Consumer.hand [Mapping.storing]) duties).2
        replies := crew.replies ++
          (crew.consumer.performAll (Consumer.hand [Mapping.storing]) duties).1.filterMap Deed.reply? } := by
  induction duties generalizing crew with
  | nil =>
    rw [Consumer.performAll, List.filterMap_nil, List.append_nil, ← hduties]
    exact .refl
  | cons duty duties ih =>
    refine (Step.perform hduties).reaches.trans ?_
    have hrest := @ih (crew.performed duty duties).2 rfl
    have hreplies (deed : Deed) (deeds : List Deed) : crew.replies ++ (deed :: deeds).filterMap Deed.reply? =
        crew.replies ++ deed.reply?.toList ++ deeds.filterMap Deed.reply? := by
      cases h : deed.reply? <;> simp [h]
    rw [Consumer.performAll]
    dsimp only
    rw [hreplies]
    exact hrest

/-! ### Messages, one after the other -/

/-- A crew in which no message waits, and whose consumer waits for messages. -/
structure AtRest (settings : QueueSettings) (crew : Crew) : Prop where
  /-- There is a consumer. -/
  isOpen : crew.isOpen = true
  /-- No message waits. -/
  queue : crew.queue = []
  /-- The last batch is worked off. -/
  duties : crew.duties = []
  /-- The next batch is not too long. -/
  room : crew.batch.length ≤ settings.batchSize

/-- What the consumer will have done after some more messages, if it works batches off when they are
full and after the last message: all answers, and the consumer then. -/
def afterwards (settings : QueueSettings) (crew : Crew) (messages : List Message) :
    List Reply × Consumer Index :=
  let (replies, consumer) := crew.consumer.processAll [Mapping.storing]
    (Mapping.batchesFrom settings.batchSize (settings.batchSize - crew.batch.length) crew.batch.reverse
      messages)
  (crew.replies ++ replies, consumer)

/-- The consumer works a batch off. -/
theorem reaches_work (hduties : crew.duties = []) (hbatch : crew.batch ≠ [])
    (hfull : crew.batch.length = settings.batchSize ∨ crew.queue = []) :
    crew.Reaches memory settings
      { crew with
        batch := []
        duties := []
        consumer := (crew.consumer.process [Mapping.storing] crew.batch).2
        replies := crew.replies ++ (crew.consumer.process [Mapping.storing] crew.batch).1 } := by
  have hperform : ({ crew with batch := [], duties := Duty.ofBatch crew.batch } : Crew).Reaches memory
    settings _ := reaches_performAll _ rfl
  rw [Consumer.performAll_ofBatch] at hperform
  exact (Step.begin hduties hbatch hfull).reaches.trans hperform

/-- The consumer takes the only message that waits. If its batch is full, it works it off before. -/
theorem exists_reaches_receive (hf : memory.Suffices settings) {message : Message} (hopen : crew.isOpen = true)
    (hqueue : crew.queue = [message]) (hduties : crew.duties = [])
    (hroom : crew.batch.length ≤ settings.batchSize) :
    ∃ crew', crew.Reaches memory settings crew' ∧ crew'.AtRest settings ∧ crew'.workers = crew.workers ∧
      ∀ messages, crew'.afterwards settings messages = crew.afterwards settings (message :: messages) := by
  rcases Nat.lt_or_eq_of_le hroom with hroom | hfull
  · refine ⟨_, (Step.receive hopen hduties hqueue hroom fun _ => hf.memory).reaches,
      ⟨hopen, rfl, hduties, ?_⟩, rfl, fun messages => ?_⟩
    · rw [List.length_append]
      exact hroom
    · have hsize : settings.batchSize - crew.batch.length =
          settings.batchSize - (crew.batch ++ [message]).length + 1 := by
        rw [List.length_append, List.length_singleton]
        omega
      rw [afterwards, afterwards, hsize, Mapping.batchesFrom, List.reverse_append]
      rfl
  · let worked : Crew :=
      { crew with
        batch := []
        duties := []
        consumer := (crew.consumer.process [Mapping.storing] crew.batch).2
        replies := crew.replies ++ (crew.consumer.process [Mapping.storing] crew.batch).1 }
    have hreceive : worked.Step memory settings .quiet { worked with queue := [], batch := [message] } :=
      .receive hopen rfl hqueue hf.batchSize fun _ => hf.memory
    refine ⟨_, (reaches_work hduties (hf.ne_nil hfull) (.inl hfull)).trans hreceive.reaches,
      ⟨hopen, rfl, rfl, hf.batchSize⟩, rfl, fun messages => ?_⟩
    rw [afterwards, afterwards, hfull, Nat.sub_self, Mapping.batchesFrom, List.reverse_reverse,
      Consumer.processAll_cons]
    exact congrArg (·, _) (List.append_assoc ..)

/-- The last batch is worked off. -/
theorem AtRest.exists_reaches_end (h : crew.AtRest settings) :
    ∃ crew', crew.Reaches memory settings crew' ∧ crew'.AtRest settings ∧ crew'.batch = [] ∧
      crew'.workers = crew.workers ∧ (crew'.replies, crew'.consumer) = crew.afterwards settings [] := by
  by_cases hbatch : crew.batch = []
  · refine ⟨crew, .refl, h, hbatch, rfl, ?_⟩
    rw [afterwards, hbatch]
    exact congrArg (·, crew.consumer) (List.append_nil _).symm
  · refine ⟨_, reaches_work h.duties hbatch (.inr h.queue), ⟨h.isOpen, h.queue, rfl, Nat.zero_le _⟩, rfl,
      rfl, ?_⟩
    have hreverse : crew.batch.reverse.isEmpty = false := by simpa using hbatch
    rw [afterwards, Mapping.batchesFrom, hreverse, if_neg Bool.false_ne_true, List.reverse_reverse,
      Consumer.processAll_cons]
    exact congrArg (crew.replies ++ ·, _) (List.append_nil _).symm

/-! ### Jobs, one after the other -/

section Worker

variable {before after : List Worker} {worker : Worker} {stage : Stage} {message : Message}
  {number : JobId} {file : FileRow} {job : Job} {walkers done rest : List Walker} {path : String}
  {outcome : FileOutcome} {calls : List Event} {files : List FileRow}

/-- A job goes on without a message. -/
theorem AtRest.exists_reaches_quiet (h : crew.AtRest settings)
    (hworkers : crew.workers = before ++ worker :: after)
    (hstep : worker.stage.Step settings crew worker.number worker.file .quiet crew.index [] stage) :
    ∃ crew', crew.Reaches memory settings crew' ∧ crew'.AtRest settings ∧
      crew'.workers = before ++ { worker with stage } :: after ∧ crew'.index = crew.index ∧
      ∀ messages, crew'.afterwards settings messages = crew.afterwards settings messages :=
  ⟨_, (Step.work hworkers hstep).reaches,
    ⟨h.isOpen, (List.append_nil _).trans h.queue, h.duties, h.room⟩, rfl, rfl, fun _ => rfl⟩

/-- **A message is sent and taken.** -/
theorem AtRest.exists_reaches_take (h : crew.AtRest settings) (hf : memory.Suffices settings)
    (hworkers : crew.workers = before ++ worker :: after)
    (hstep : worker.stage.Step settings crew worker.number worker.file .quiet crew.index [message] stage) :
    ∃ crew', crew.Reaches memory settings crew' ∧ crew'.AtRest settings ∧
      crew'.workers = before ++ { worker with stage } :: after ∧
      ∀ messages, crew'.afterwards settings messages = crew.afterwards settings (message :: messages) := by
  let sent := crew.worked before after worker crew.index [message] stage
  have hqueue : sent.queue = [message] := by
    change crew.queue ++ [message] = _
    rw [h.queue, List.nil_append]
  obtain ⟨crew', hreaches, hrest, hworkers', hafterwards⟩ :=
    exists_reaches_receive hf (show sent.isOpen = true from h.isOpen) hqueue h.duties h.room
  exact ⟨crew', (Step.work hworkers hstep).reaches.trans hreaches, hrest, hworkers', hafterwards⟩

/-- A message can be sent while no other one waits. -/
theorem AtRest.accepts (h : crew.AtRest settings) (hf : memory.Suffices settings) : crew.Accepts settings := by
  refine ⟨h.isOpen, ?_⟩
  rw [h.queue]
  exact hf.capacity

/-- A walker goes through its calls. -/
theorem AtRest.exists_reaches_calls (h : crew.AtRest settings) (hf : memory.Suffices settings)
    (hworkers : crew.workers = before ++
      ⟨number, file, .walking job none (done ++ .reporting path outcome calls :: rest)⟩ :: after) :
    ∃ crew', crew.Reaches memory settings crew' ∧ crew'.AtRest settings ∧
      crew'.workers = before ++ ⟨number, file, .walking (job.sendAll calls).2 none
        (done ++ .reporting path outcome [] :: rest)⟩ :: after ∧
      ∀ messages, crew'.afterwards settings messages =
        crew.afterwards settings ((job.sendAll calls).1.map (.event number) ++ messages) := by
  induction calls generalizing crew job with
  | nil => exact ⟨crew, .refl, h, hworkers, fun _ => rfl⟩
  | cons call calls ih =>
    cases hknown : job.isKnown call with
    | true =>
      obtain ⟨crew₁, hfirst, hrest₁, hworkers₁, -, hafter₁⟩ :=
        h.exists_reaches_quiet hworkers (.pass hknown)
      obtain ⟨crew₂, hmore, hrest₂, hworkers₂, hafter₂⟩ := ih hrest₁ hworkers₁
      rw [Job.sendAll, if_pos hknown]
      exact ⟨crew₂, hfirst.trans hmore, hrest₂, hworkers₂, fun messages => by rw [hafter₂, hafter₁]⟩
    | false =>
      obtain ⟨crew₁, hfirst, hrest₁, hworkers₁, hafter₁⟩ :=
        h.exists_reaches_take hf hworkers (.send hknown (h.accepts hf))
      obtain ⟨crew₂, hmore, hrest₂, hworkers₂, hafter₂⟩ := ih hrest₁ hworkers₁
      rw [Job.sendAll, if_neg (by simp [hknown])]
      exact ⟨crew₂, hfirst.trans hmore, hrest₂, hworkers₂, fun messages => by rw [hafter₂, hafter₁]; rfl⟩

/-- The walker over a file that was read and reported. -/
def through (file : FileRow) : Walker :=
  .reporting file.path file.findings.2 []

/-- The walkers go through their calls, one walker after the other. -/
theorem AtRest.exists_reaches_walkers (h : crew.AtRest settings) (hf : memory.Suffices settings)
    (hworkers : crew.workers = before ++
      ⟨number, file, .walking job none (done ++ files.map fun f => .reading f f.content)⟩ :: after) :
    ∃ crew', crew.Reaches memory settings crew' ∧ crew'.AtRest settings ∧
      crew'.workers = before ++ ⟨number, file, .walking (job.reportAll (files.flatMap (·.findings.1))).2 none
        (done ++ files.map through)⟩ :: after ∧
      ∀ messages, crew'.afterwards settings messages = crew.afterwards settings
        ((job.reportAll (files.flatMap (·.findings.1))).1.map (.event number) ++ messages) := by
  induction files generalizing crew job done with
  | nil => exact ⟨crew, .refl, h, hworkers, fun _ => rfl⟩
  | cons f files ih =>
    obtain ⟨crew₁, hfirst, hrest₁, hworkers₁, hafter₁⟩ := h.exists_reaches_calls hf
      (show crew.workers = before ++ ⟨number, file, .walking job none (done ++ .reporting f.path f.findings.2
        (f.findings.1.flatMap Job.calls) :: files.map fun f => .reading f f.content)⟩ :: after from hworkers)
    rw [List.append_cons done, Job.sendAll_flatMap_calls] at hworkers₁
    obtain ⟨crew₂, hmore, hrest₂, hworkers₂, hafter₂⟩ := ih hrest₁ hworkers₁
    rw [List.flatMap_cons, Job.reportAll_append, List.map_cons, List.append_cons done]
    refine ⟨crew₂, hfirst.trans hmore, hrest₂, hworkers₂, fun messages => ?_⟩
    rw [hafter₂, hafter₁, Job.sendAll_flatMap_calls, List.map_append, List.append_assoc]

/-- The walkers read their files, one after the other. -/
theorem AtRest.exists_reaches_read (h : crew.AtRest settings) (hworkers : crew.workers = before ++
      ⟨number, file, .walking job none (done ++ files.map .unread)⟩ :: after)
    (hthere : ∀ f ∈ files, crew.index.store.requireFile f.id = .ok f) :
    ∃ crew', crew.Reaches memory settings crew' ∧ crew'.AtRest settings ∧
      crew'.workers = before ++
        ⟨number, file, .walking job none (done ++ files.map fun f => .reading f f.content)⟩ :: after ∧
      ∀ messages, crew'.afterwards settings messages = crew.afterwards settings messages := by
  induction files generalizing crew done with
  | nil => exact ⟨crew, .refl, h, hworkers, fun _ => rfl⟩
  | cons f files ih =>
    obtain ⟨hf, hfiles⟩ := List.forall_mem_cons.mp hthere
    obtain ⟨crew₁, hfirst, hrest₁, hworkers₁, hindex₁, hafter₁⟩ :=
      h.exists_reaches_quiet hworkers (.read hf)
    rw [List.append_cons done] at hworkers₁
    obtain ⟨crew₂, hmore, hrest₂, hworkers₂, hafter₂⟩ := ih hrest₁ hworkers₁ (hindex₁ ▸ hfiles)
    rw [List.map_cons, List.append_cons done]
    exact ⟨crew₂, hfirst.trans hmore, hrest₂, hworkers₂, fun messages => by rw [hafter₂, hafter₁]⟩

theorem reportOf_map_through (job : Job) (files : List FileRow) : job.reportOf (files.map through) =
    files.foldl (fun report f => report.note f.path f.findings.2)
      { MapReport.empty with jobs := 1, symbols := job.symbols, references := job.references } :=
  List.foldl_map

/-- What a job sends, with its flush. -/
def messagesFor (number : JobId) (name : String) (files : List FileRow) : List Message :=
  ((Job.start name).reportAll (files.flatMap (·.findings.1))).1.map (.event number) ++ [.flush number]

theorem runJob_eq_of_error {batchSize : Nat} {consumer : Consumer Index} {index : Index} {cause : Error}
    (hprepare : Index.transact (Mapping.prepare file) consumer.state = (.error cause, index)) :
    Mapping.runJob batchSize number file consumer = (.error cause, { consumer with state := index }) := by
  rw [Mapping.runJob, hprepare]

/-- What becomes of a job that has prepared its files. -/
theorem runJob_eq (number : JobId) (batchSize : Nat) {consumer : Consumer Index} {index : Index}
    (hprepare : Index.transact (Mapping.prepare file) consumer.state = (.ok files, index)) :
    ∃ reply, reply.job = number ∧
      (({ consumer with state := index } : Consumer Index).processAll [Mapping.storing]
        (Mapping.batches batchSize (messagesFor number file.name files))).1 = [reply] ∧
      Mapping.runJob batchSize number file consumer =
        (reply.failure.elim (.ok (((Job.start file.name).reportAll
            (files.flatMap (·.findings.1))).2.reportOf (files.map through))) .error,
          (({ consumer with state := index } : Consumer Index).processAll [Mapping.storing]
            (Mapping.batches batchSize (messagesFor number file.name files))).2) := by
  have hjobs := Consumer.map_job_processAll [Mapping.storing] { consumer with state := index }
    (Mapping.batches batchSize (messagesFor number file.name files))
  have hflush : (messagesFor number file.name files).filterMap Consumer.asks? = [number] := by
    rw [messagesFor, List.filterMap_append, List.filterMap_map]
    exact congrArg (· ++ [number]) (List.filterMap_eq_nil_iff.mpr fun _ _ => rfl)
  rw [Mapping.batches, Mapping.flatten_batchesFrom, List.reverse_nil, List.nil_append, hflush,
    ← Mapping.batches] at hjobs
  obtain ⟨reply, hreply, hnumber⟩ := List.map_eq_singleton_iff.mp hjobs
  refine ⟨reply, hnumber, hreply, ?_⟩
  rw [messagesFor] at hreply ⊢
  rw [reportOf_map_through, Mapping.runJob, hprepare]
  dsimp only
  rw [List.flatMap_map, List.foldl_map, hreply, List.findSome?_singleton]
  cases reply.failure <;> rfl

/-- The walkers of a job do their work, and its flush is answered at the end of the last batch. -/
theorem AtRest.exists_reaches_flush (h : crew.AtRest settings) (hf : memory.Suffices settings)
    (hworkers : crew.workers = before ++ ⟨number, file, .prepared files⟩ :: after)
    (hthere : ∀ f ∈ files, crew.index.store.requireFile f.id = .ok f) :
    ∃ crew', crew.Reaches memory settings crew' ∧ crew'.AtRest settings ∧ crew'.batch = [] ∧
      crew'.workers = before ++ ⟨number, file, .flushing (((Job.start file.name).reportAll
        (files.flatMap (·.findings.1))).2.reportOf (files.map through))⟩ :: after ∧
      (crew'.replies, crew'.consumer) =
        crew.afterwards settings (messagesFor number file.name files) := by
  obtain ⟨crew₁, h₁, hrest₁, hworkers₁, hindex₁, hafter₁⟩ := h.exists_reaches_quiet hworkers .walk
  obtain ⟨crew₂, h₂, hrest₂, hworkers₂, hafter₂⟩ :=
    hrest₁.exists_reaches_read (show crew₁.workers = before ++ ⟨number, file,
      .walking (Job.start file.name) none ([] ++ files.map .unread)⟩ :: after from hworkers₁)
      (hindex₁ ▸ hthere)
  obtain ⟨crew₃, h₃, hrest₃, hworkers₃, hafter₃⟩ := hrest₂.exists_reaches_walkers hf hworkers₂
  have hthrough : (files.map through).all Walker.isThrough = true :=
    List.all_eq_true.mpr (List.forall_mem_map.mpr fun _ _ => rfl)
  obtain ⟨crew₄, h₄, hrest₄, hworkers₄, hafter₄⟩ :=
    hrest₃.exists_reaches_take hf hworkers₃ (.flush hthrough (hrest₃.accepts hf))
  obtain ⟨crew₅, h₅, hrest₅, hbatch₅, hworkers₅, hend⟩ := hrest₄.exists_reaches_end
  refine ⟨crew₅, (((h₁.trans h₂).trans h₃).trans h₄).trans h₅, hrest₅, hbatch₅,
    hworkers₅.trans hworkers₄, ?_⟩
  rw [hend, hafter₄, hafter₃, hafter₂, hafter₁]
  rfl

/-- **A job from its start to its end**, in the fixed order. -/
theorem AtRest.exists_reaches_job (h : crew.AtRest settings) (hf : memory.Suffices settings)
    (hbatch : crew.batch = []) (hc : crew.index.store.Consistent) (hfile : file ∈ crew.index.store.files)
    (hworkers : crew.workers = before ++ ⟨number, file, .waiting⟩ :: after)
    (hreplies : ∀ reply ∈ crew.replies, reply.job ≠ number) :
    ∃ crew', crew.Reaches memory settings crew' ∧ crew'.AtRest settings ∧ crew'.batch = [] ∧
      crew'.workers = before ++ ⟨number, file,
        .ended (Mapping.runJob settings.batchSize number file crew.consumer).1⟩ :: after ∧
      crew'.consumer = (Mapping.runJob settings.batchSize number file crew.consumer).2 ∧
      ∀ reply ∈ crew'.replies, reply ∈ crew.replies ∨ reply.job = number := by
  rcases hprepare : Index.transact (Mapping.prepare file) crew.index with ⟨cause | files, index⟩
  · rw [runJob_eq_of_error hprepare]
    exact ⟨_, (Step.work hworkers (.refuse hprepare)).reaches,
      ⟨h.isOpen, (List.append_nil _).trans h.queue, h.duties, h.room⟩, hbatch, rfl, rfl, fun _ => .inl⟩
  · obtain ⟨hwalked, hc', hgains⟩ := Mapping.gains_of_prepare hc (Index.eq_ok_of_transact hprepare)
    have hthere : ∀ f ∈ files, index.store.requireFile f.id = .ok f := fun f hmem => by
      refine hc'.requireFile_eq_ok ?_
      rw [hgains.files]
      exact Store.mem_of_mem_walkedFor hfile (hwalked ▸ hmem)
    obtain ⟨reply, hnumber, hprocess, hrun⟩ := runJob_eq number settings.batchSize hprepare
    let prepared := crew.worked before after ⟨number, file, .waiting⟩ index [] (.prepared files)
    have hprepared : prepared.AtRest settings :=
      ⟨h.isOpen, (List.append_nil _).trans h.queue, h.duties, h.room⟩
    obtain ⟨crew₁, h₁, hrest₁, hbatch₁, hworkers₁, hend⟩ := hprepared.exists_reaches_flush hf rfl hthere
    have hafterwards : prepared.afterwards settings (messagesFor number file.name files) =
        (crew.replies ++ [reply], (Mapping.runJob settings.batchSize number file crew.consumer).2) := by
      have hempty : prepared.batch = [] := hbatch
      rw [hrun, ← hprocess, afterwards, hempty]
      rfl
    obtain ⟨hreplies₁, hconsumer₁⟩ := Prod.mk.inj (hend.trans hafterwards)
    -- the answer is the only one for the job
    have hfind : crew₁.replies.find? (·.job == number) = some reply := by
      have hnone : crew.replies.find? (·.job == number) = none :=
        List.find?_eq_none.mpr fun other ho => by simpa using hreplies other ho
      rw [hreplies₁, List.find?_append, hnone]
      simp [hnumber]
    refine ⟨_, ((Step.work hworkers (.prepare hprepare)).reaches.trans h₁).trans
        (Step.work hworkers₁ (.join hfind)).reaches,
      ⟨hrest₁.isOpen, (List.append_nil _).trans hrest₁.queue, hrest₁.duties, hrest₁.room⟩, hbatch₁, ?_,
      hconsumer₁, fun other ho => ?_⟩
    · rw [hrun]
      rfl
    · rcases List.mem_append.mp (hreplies₁ ▸ ho) with ho | ho
      · exact .inl ho
      · exact .inr (List.mem_singleton.mp ho ▸ hnumber)

/-- What a crew does keeps the tables consistent and the files as they are. -/
theorem Reaches.consistent {index : Index} (h : (start index files).Reaches memory settings crew)
    (hc : index.store.Consistent) :
    crew.index.store.Consistent ∧ crew.index.store.files = index.store.files := by
  have hprepare (file : FileRow) : Transaction.Keeps
      (fun s => s.Consistent ∧ s.files = index.store.files) (Mapping.prepare file) := by
    intro s walked s' hrun hs
    obtain ⟨-, hc', hgains⟩ := Mapping.gains_of_prepare hs.1 hrun
    exact ⟨hc', hgains.files.trans hs.2⟩
  have hkeep : Mapping.JobsKeep (fun other => other.store.Consistent ∧ other.store.files = index.store.files)
      (fun _ => True) :=
    { prepare file other hs := Index.transact_keeps (hprepare file) hs
      storing events other other' _ hstoring hs := by
        obtain ⟨hc', hgains, -⟩ := Mapping.gains_of_storing hs.1 hstoring
        exact ⟨hc', hgains.files.trans hs.2⟩
      announced _ := trivial
      found _ _ _ := trivial }
  obtain ⟨acts, hrun⟩ := h
  exact (hrun.keeps hkeep (carries_start _ index files) ⟨hc, rfl⟩).2

/-- **One job after the other**, in the fixed order. -/
theorem AtRest.exists_reaches_jobs {index : Index} {all : List FileRow}
    (hstart : (start index all).Reaches memory settings crew) (hc : index.store.Consistent)
    (hf : memory.Suffices settings) (h : crew.AtRest settings) (hbatch : crew.batch = [])
    (hfiles : ∀ file ∈ files, file ∈ index.store.files)
    (hworkers : crew.workers = before ++ Worker.waitingFrom number files)
    (hreplies : ∀ reply ∈ crew.replies, reply.job < number) :
    ∃ crew' results, crew.Reaches memory settings crew' ∧ crew'.AtRest settings ∧ crew'.batch = [] ∧
      crew'.workers.map Worker.stage = before.map Worker.stage ++ results.map .ended ∧
      (MapReport.join results, crew'.consumer) =
        Mapping.runJobs settings.batchSize number files crew.consumer := by
  induction files generalizing crew before number with
  | nil =>
    refine ⟨crew, [], .refl, h, hbatch, ?_, rfl⟩
    rw [hworkers, Worker.waitingFrom, List.append_nil, List.map_nil, List.append_nil]
  | cons file files ih =>
    obtain ⟨hfile, hfiles⟩ := List.forall_mem_cons.mp hfiles
    obtain ⟨hc', hsame⟩ := hstart.consistent hc
    obtain ⟨crew₁, h₁, hrest₁, hbatch₁, hworkers₁, hconsumer₁, hreplies₁⟩ :=
      h.exists_reaches_job hf hbatch hc' (hsame ▸ hfile) hworkers
        fun reply hreply => Nat.ne_of_lt (hreplies reply hreply)
    rw [← List.singleton_append, ← List.append_assoc] at hworkers₁
    obtain ⟨crew₂, results, h₂, hrest₂, hbatch₂, hstages, hend⟩ :=
      ih (hstart.trans h₁) hrest₁ hbatch₁ hfiles hworkers₁ fun reply hreply => by
        rcases hreplies₁ reply hreply with hold | hnew
        · exact Nat.lt_succ_of_lt (hreplies reply hold)
        · exact Nat.lt_succ_of_le hnew.le
    obtain ⟨hjoin, hconsumer₂⟩ := Prod.mk.inj hend
    refine ⟨crew₂, (Mapping.runJob settings.batchSize number file crew.consumer).1 :: results,
      h₁.trans h₂, hrest₂, hbatch₂, ?_, ?_⟩
    · rw [hstages, List.map_append, List.append_assoc]
      rfl
    · rw [MapReport.join, hjoin, hconsumer₂, hconsumer₁]
      rfl

end Worker

end Crew

/-! ### Runs -/

namespace Index

variable {memory : Memory} {settings : QueueSettings} {files : List FileRow} {index : Index}

/-- **The fixed order is one of the orders of a crew**, if there is memory for the queue and for a
batch. -/
theorem maps_mapRows (hc : index.store.Consistent) (hfiles : ∀ file ∈ files, file ∈ index.store.files)
    (hqueue : memory.queue settings.queueCapacity = true)
    (hbatch : memory.batch settings.batchSize = true) :
    ∃ acts, Maps memory settings files index acts (mapRows settings files index).1
      (mapRows settings files index).2 := by
  rw [mapRows]
  cases hsettings : settings.validate with
  | error cause => exact ⟨[], .refused hsettings⟩
  | ok _ =>
    obtain ⟨hcapacity, hsize⟩ := QueueSettings.validate_eq_ok_iff.mp hsettings
    have hrest : (Crew.start index (files.filter (·.archive.isNone))).AtRest settings :=
      ⟨rfl, rfl, rfl, Nat.zero_le _⟩
    obtain ⟨crew, results, ⟨acts, hrun⟩, hrest', hbatch', hstages, hend⟩ :=
      hrest.exists_reaches_jobs .refl hc ⟨hcapacity, hsize, hbatch⟩ rfl
        (fun file hfile => hfiles file (List.mem_of_mem_filter hfile)) (List.nil_append _).symm
        (List.forall_mem_nil _)
    obtain ⟨hjoin, hconsumer⟩ := Prod.mk.inj hend
    have hresult : crew.result? = some (MapReport.join results) :=
      Crew.result?_eq_some_iff.mpr ⟨⟨hrest'.queue, hbatch', hrest'.duties⟩, results, hstages, rfl⟩
    have hmaps := Maps.run hsettings hqueue hrun hresult
    rw [hjoin, Crew.index, hconsumer] at hmaps
    exact ⟨acts, hmaps⟩

/-- All files are mapped in the fixed order. -/
theorem maps_mapAll (hc : index.store.Consistent) (hqueue : memory.queue settings.queueCapacity = true)
    (hbatch : memory.batch settings.batchSize = true) :
    ∃ acts, Maps memory settings index.store.topLevelFiles index acts (mapAll settings index).1
      (mapAll settings index).2 :=
  maps_mapRows hc (fun _ hfile => (Store.mem_topLevelFiles.mp hfile).1) hqueue hbatch

/-- Files are mapped by number, in the fixed order, unless one of them is not there. -/
theorem eq_or_maps_mapFiles (settings : QueueSettings) (ids : List RowId) (hc : index.store.Consistent) :
    (mapFiles settings ids index).2 = index ∨
      ∃ files acts, (∀ file ∈ files, file ∈ index.store.files) ∧
        Maps .ample settings files index acts (mapFiles settings ids index).1
          (mapFiles settings ids index).2 := by
  rw [mapFiles, Session.bind_apply, query]
  cases hfiles : ids.mapM index.store.requireFile with
  | error cause => exact .inl rfl
  | ok files =>
    have hmem : ∀ file ∈ files, file ∈ index.store.files := fun file hfile => by
      obtain ⟨id, -, hid⟩ := Except.exists_of_forall₂ (Except.mapM_eq_ok_iff.mp hfiles).flip hfile
      exact List.mem_of_find?_eq_some (Store.requireFile_eq_ok_iff.mp hid)
    have hmaps : ∃ acts, Maps .ample settings files index acts _ _ := maps_mapRows hc hmem rfl rfl
    obtain ⟨acts, hmaps⟩ := hmaps
    exact .inr ⟨files, acts, hmem, hmaps⟩

end Index

end ClassAtlas
