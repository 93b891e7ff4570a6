import ClassAtlas.Proofs.Mapping.Sharing

/-!
# What a mapping run keeps

Whatever the order of the steps of a crew, the index changes in two ways only: a job forgets what was
found in its files, and a slice of events is stored that walkers have sent. So a property of indexes that
both keep is kept by the whole run, whether or not it succeeds. The symbols that are sent have identities
made of their owners' and their names. So a mapping run keeps every rule that these obey.

## Main definitions

* `ClassAtlas.Mapping.JobsKeep` — a property of indexes that jobs keep.
* `ClassAtlas.Crew.Carries` — a crew all of whose events have a property.

## Main results

* `ClassAtlas.Crew.Step.keeps`, `ClassAtlas.Crew.Run.keeps` — what jobs keep, a crew keeps.
* `ClassAtlas.Index.Maps.keeps` — what jobs keep, a mapping run keeps.
* `ClassAtlas.Index.Maps.obeys`, `ClassAtlas.Index.Maps.sound` — it keeps the rules for symbols.
-/

set_option autoImplicit false

namespace ClassAtlas

/-! ### Slices -/

namespace Store

open Transaction (Keeps)

variable {rule : SymbolRule}

theorem keeps_obeys_applyEvents (hrule : rule.Steady) {events : List Event}
    (he : ∀ event ∈ events, event.Obeys rule) : Keeps (Obeys rule) (applyEvents events) := by
  refine (Keeps.mapM _ fun identity _ => ?_).bind fun numbers => ?_
  · exact (keeps_obeys_internIdentity identity).bind fun id => Keeps.pure _
  · refine (Keeps.forM _ fun event hmem => ?_).bind fun _ => Keeps.pure _
    cases event with
    | identifier identity => exact Keeps.pure ()
    | symbol value =>
      exact (keeps_obeys_insertSymbol hrule (he _ hmem)).bind fun _ => Keeps.pure ()
    | reference value => exact (keeps_obeys_insertReference value).bind fun _ => Keeps.pure ()

end Store

/-- A slice of events is applied to the store, and the numbers that it yields are remembered. -/
theorem Index.sync_eq_ok_iff {index index' : Index} {events : List Event}
    {numbers : List (Identity × RowId)} :
    index.sync events = .ok (numbers, index') ↔
      Store.applyEvents events index.store = .ok (numbers, index'.store) ∧
        index'.cache = index.cache.rememberAll numbers := by
  rw [sync, Except.bind_eq_ok_iff]
  constructor
  · rintro ⟨⟨numbers', store⟩, happly, hend⟩
    cases hend
    exact ⟨happly, rfl⟩
  · rintro ⟨happly, hcache⟩
    obtain ⟨store, cache⟩ := index'
    obtain rfl : cache = index.cache.rememberAll numbers := hcache
    exact ⟨_, happly, rfl⟩

namespace Mapping

open Store
open Transaction (Keeps)

variable {rule : SymbolRule}

theorem storing_eq_ok_iff {index index' : Index} {events : List Event} :
    storing events index = .ok index' ↔
      ∃ numbers, applyEvents events index.store = .ok (numbers, index'.store) ∧
        index'.cache = index.cache.rememberAll numbers := by
  simp only [storing, Except.map_eq_ok_iff, Prod.exists, Index.sync_eq_ok_iff, exists_eq_right]

/-- A slice that cannot be stored changes nothing. -/
theorem hand_storing (events : List Event) (index : Index) :
    Consumer.hand [storing] events index = match storing events index with
      | .ok index' => (none, index')
      | .error cause => (some cause, index) := by
  rw [Consumer.hand]
  cases storing events index <;> rfl

theorem hand_storing_of_eq_ok {events : List Event} {index index' : Index}
    (h : storing events index = .ok index') :
    Consumer.hand [storing] events index = (none, index') := by
  rw [hand_storing, h]

theorem keeps_obeys_prepare (file : FileRow) : Keeps (Obeys rule) (prepare file) := by
  refine Keeps.get_bind fun m => keeps_obeys_clearMappings.bind fun _ => ?_
  exact (Keeps.forM _ fun entry _ => keeps_obeys_clearMappings).bind fun _ => Keeps.pure _

end Mapping

/-! ### Sessions -/

/-- Work in two parts: the second part is done if the first one succeeds. -/
theorem Session.bind_apply {α β : Type} (x : Session α) (f : α → Session β) (index : Index) :
    (x >>= f) index =
      match x index with
      | (.ok a, index) => f a index
      | (.error e, index) => (.error e, index) := by
  change (match x index with | (r, index) => ExceptT.bindCont f r index) = _
  rcases x index with ⟨_ | _, _⟩ <;> rfl

/-- What a transaction keeps, it keeps whether or not it fails. -/
theorem Index.transact_keeps {α : Type} {index : Index} {P : Store → Prop} {change : Transaction α}
    (hc : Transaction.Keeps P change) (h : P index.store) : P (transact change index).2.store := by
  rw [transact]
  split
  · rename_i a store hstore
    exact hc _ _ _ hstore h
  · exact h

/-- A transaction that can be carried out on the store succeeds. -/
theorem Index.transact_of_eq_ok {α : Type} {index : Index} {s : Store} {change : Transaction α} {a : α}
    (h : change index.store = .ok (a, s)) : transact change index = (.ok a, ⟨s, index.cache⟩) := by
  rw [transact, h]

/-- A transaction that succeeds was carried out on the store. -/
theorem Index.eq_ok_of_transact {α : Type} {index index' : Index} {change : Transaction α} {a : α}
    (h : transact change index = (.ok a, index')) : change index.store = .ok (a, index'.store) := by
  rw [transact] at h
  split at h
  · rename_i b store hstore
    cases h
    exact hstore
  · cases h

/-! ### Events on their way -/

section Carries

variable {Q : Event → Prop}

/-- A message that is a flush or an event with a property. -/
def Message.Carries (Q : Event → Prop) : Message → Prop
  | .event _ value => Q value
  | .flush _ => True

/-- A duty whose events have a property. -/
def Duty.Carries (Q : Event → Prop) : Duty → Prop
  | .deliver _ events => ∀ event ∈ events, Q event
  | .answer _ => True

/-- A walker whose calls have a property. -/
def Walker.Carries (Q : Event → Prop) : Walker → Prop
  | .reporting _ _ calls => ∀ call ∈ calls, Q call
  | .unread _ => True

/-- A job the calls of whose walkers have a property. -/
def Stage.Carries (Q : Event → Prop) : Stage → Prop
  | .walking _ _ walkers => ∀ walker ∈ walkers, walker.Carries Q
  | .waiting | .prepared _ | .flushing _ | .ended _ => True

/-- A crew all of whose events have a property. -/
structure Crew.Carries (Q : Event → Prop) (crew : Crew) : Prop where
  /-- Those that the walkers are about to send. -/
  workers : ∀ worker ∈ crew.workers, worker.stage.Carries Q
  /-- Those that wait. -/
  queue : ∀ message ∈ crew.queue, message.Carries Q
  /-- Those that were taken. -/
  batch : ∀ message ∈ crew.batch, message.Carries Q
  /-- Those that are going to be handed over. -/
  duties : ∀ duty ∈ crew.duties, duty.Carries Q

/-- Every event of every slice has a property. -/
def Pending.Carries (Q : Event → Prop) (pending : Pending) : Prop :=
  ∀ slice ∈ pending, ∀ event ∈ slice.2, Q event

theorem Pending.Carries.push {pending : Pending} (h : pending.Carries Q) (job : JobId) {event : Event}
    (he : Q event) : (pending.push job event).Carries Q := by
  induction pending with
  | nil => simpa [Pending.push, Carries] using he
  | cons slice pending ih =>
    obtain ⟨hslice, hpending⟩ := List.forall_mem_cons.mp h
    obtain ⟨other, events⟩ := slice
    rw [Pending.push]
    split
    · refine List.forall_mem_cons.mpr ⟨fun e hmem => ?_, hpending⟩
      rcases List.mem_append.mp hmem with hmem | hmem
      · exact hslice e hmem
      · exact List.mem_singleton.mp hmem ▸ he
    · exact List.forall_mem_cons.mpr ⟨hslice, ih hpending⟩

/-- A batch is worked off with the events of its messages. -/
theorem Duty.carries_ofBatchOnto {pending : Pending} {batch : List Message} (hp : pending.Carries Q)
    (hb : ∀ message ∈ batch, message.Carries Q) : ∀ duty ∈ ofBatchOnto pending batch, duty.Carries Q := by
  have hpending {pending : Pending} (hp : pending.Carries Q) :
      ∀ duty ∈ ofPending pending, duty.Carries Q :=
    List.forall_mem_map.mpr hp
  induction batch generalizing pending with
  | nil => exact hpending hp
  | cons message batch ih =>
    obtain ⟨hmessage, hbatch⟩ := List.forall_mem_cons.mp hb
    cases message with
    | event job event => exact ih (hp.push job hmessage) hbatch
    | flush job =>
      refine List.forall_mem_append.mpr ⟨hpending hp, List.forall_mem_cons.mpr ⟨trivial, ?_⟩⟩
      exact ih (List.forall_mem_nil _) hbatch

end Carries

/-! ### Sizes -/

theorem QueueSettings.validate_eq_ok_iff {settings : QueueSettings} :
    settings.validate = .ok () ↔ 1 ≤ settings.queueCapacity ∧ 1 ≤ settings.batchSize := by
  rw [validate]
  split <;> simp <;> omega

/-- A message fits into the queue and into a batch, and there is memory for a batch. -/
structure Memory.Suffices (memory : Memory) (settings : QueueSettings) : Prop where
  /-- A message fits into the queue. -/
  capacity : 1 ≤ settings.queueCapacity
  /-- A message fits into a batch. -/
  batchSize : 1 ≤ settings.batchSize
  /-- There is memory for a batch. -/
  memory : memory.batch settings.batchSize = true

/-- A batch that is full is not empty. -/
theorem Memory.Suffices.ne_nil {memory : Memory} {settings : QueueSettings} (h : memory.Suffices settings)
    {batch : List Message} (hfull : batch.length = settings.batchSize) : batch ≠ [] := by
  rw [← List.length_pos_iff, hfull]
  exact h.batchSize

/-! ### Crews -/

namespace Worker

variable {number : JobId} {files : List FileRow} {worker : Worker}

/-- No job has started at first. -/
theorem stage_of_mem_waitingFrom (h : worker ∈ waitingFrom number files) : worker.stage = .waiting := by
  induction files generalizing number with
  | nil => cases h
  | cons file files ih =>
    rcases List.mem_cons.mp h with rfl | h
    · rfl
    · exact ih h

theorem map_file_waitingFrom (number : JobId) (files : List FileRow) :
    (waitingFrom number files).map file = files := by
  induction files generalizing number with
  | nil => rfl
  | cons file files ih => exact congrArg _ (ih (number + 1))

theorem map_number_waitingFrom (number : JobId) (files : List FileRow) :
    (waitingFrom number files).map Worker.number = List.range' number files.length := by
  induction files generalizing number with
  | nil => rfl
  | cons file files ih => exact congrArg _ (ih (number + 1))

end Worker

theorem Stage.result?_eq_some_iff {stage : Stage} {result : Except Error MapReport} :
    stage.result? = some result ↔ stage = .ended result := by
  cases stage <;> simp [result?]

theorem Worker.mapM_result?_eq_some_iff {workers : List Worker} {results : List (Except Error MapReport)} :
    workers.mapM (·.stage.result?) = some results ↔ workers.map stage = results.map .ended := by
  induction workers generalizing results with
  | nil => cases results <;> simp
  | cons worker workers ih =>
    simp only [List.mapM_cons, Option.bind_eq_bind, Option.bind_eq_some_iff, Stage.result?_eq_some_iff, ih]
    constructor
    · rintro ⟨first, hfirst, rest, hrest, hend⟩
      cases hend
      rw [List.map_cons, List.map_cons, hfirst, hrest]
    · intro h
      cases results with
      | nil => cases h
      | cons first rest =>
        obtain ⟨hfirst, hrest⟩ := List.cons.inj h
        exact ⟨first, hfirst, rest, hrest, rfl⟩

/-- A crew is done if nothing is on its way and all jobs have ended. -/
theorem Crew.result?_eq_some_iff {crew : Crew} {result : Except Error MapReport} :
    crew.result? = some result ↔ (crew.queue = [] ∧ crew.batch = [] ∧ crew.duties = []) ∧
      ∃ results, crew.workers.map Worker.stage = results.map .ended ∧ MapReport.join results = result := by
  rw [result?]
  split
  · rename_i hempty
    simp only [Bool.and_eq_true, List.isEmpty_iff, and_assoc] at hempty
    rw [Option.map_eq_some_iff]
    simp only [Worker.mapM_result?_eq_some_iff, hempty, true_and]
  · rename_i hempty
    simp only [Bool.and_eq_true, List.isEmpty_iff, and_assoc] at hempty
    simp [hempty]

namespace Mapping

variable {P : Index → Prop} {Q : Event → Prop} {index : Index}

/-- A property of indexes that jobs keep, as long as the events that they send have a property. -/
structure JobsKeep (P : Index → Prop) (Q : Event → Prop) : Prop where
  /-- Preparing a job keeps it. -/
  prepare : ∀ file index, P index → P (Index.transact (prepare file) index).2
  /-- Storing events keeps it. -/
  storing : ∀ events index index', (∀ event ∈ events, Q event) → storing events index = .ok index' →
    P index → P index'
  /-- Announcements have the property of events. -/
  announced : ∀ identity, Q (.identifier identity)
  /-- What is found in files has it. -/
  found : ∀ file : FileRow, ∀ event ∈ file.findings.1, Q event

/-- What a walker asks for has the property of events. -/
theorem JobsKeep.carries_reading (hk : JobsKeep P Q) (file : FileRow) (content : Option Content) :
    (Walker.reading file content).Carries Q := by
  intro call hcall
  obtain ⟨finding, hfinding, hcall⟩ := List.mem_flatMap.mp hcall
  rcases List.mem_append.mp hcall with hcall | hcall
  · obtain ⟨identity, -, rfl⟩ := List.mem_map.mp hcall
    exact hk.announced identity
  · have hfound := hk.found _ finding hfinding
    cases finding with
    | identifier identity => cases hcall
    | symbol value => exact List.mem_singleton.mp hcall ▸ hfound
    | reference value => exact List.mem_singleton.mp hcall ▸ hfound

theorem JobsKeep.hand (hk : JobsKeep P Q) {events : List Event} (he : ∀ event ∈ events, Q event)
    (h : P index) : P (Consumer.hand [Mapping.storing] events index).2 := by
  rw [hand_storing]
  split
  · rename_i index' hindex
    exact hk.storing events index index' he hindex h
  · exact h

theorem JobsKeep.perform (hk : JobsKeep P Q) {consumer : Consumer Index} {duty : Duty}
    (hduty : duty.Carries Q) (h : P consumer.state) :
    P (consumer.perform (Consumer.hand [Mapping.storing]) duty).2.state := by
  cases duty with
  | answer job => exact h
  | deliver job events =>
    have hhand := hk.hand hduty h
    change P (consumer.deliver (Consumer.hand [Mapping.storing]) (job, events)).2.state
    rw [Consumer.deliver]
    split
    · exact h
    · split
      · rename_i state hstate
        rw [hstate] at hhand
        exact hhand
      · rename_i cause state hstate
        rw [hstate] at hhand
        exact hhand

end Mapping

section Keeps

variable {P : Index → Prop} {Q : Event → Prop} {memory : Memory} {settings : QueueSettings}

/-- **What jobs keep, a step of a job keeps**: the index has the property, and the messages and the calls
of the walkers carry that of events. -/
theorem Stage.Step.keeps (hk : Mapping.JobsKeep P Q) {crew : Crew} {number : JobId} {file : FileRow}
    {stage stage' : Stage} {act : Act} {index : Index} {messages : List Message}
    (h : Stage.Step settings crew number file stage act index messages stage') (hs : stage.Carries Q)
    (hp : P crew.index) : P index ∧ (∀ message ∈ messages, message.Carries Q) ∧ stage'.Carries Q := by
  have hprepared := hk.prepare file crew.index hp
  cases h with
  | prepare h =>
    rw [h] at hprepared
    exact ⟨hprepared, List.forall_mem_nil _, trivial⟩
  | refuse h =>
    rw [h] at hprepared
    exact ⟨hprepared, List.forall_mem_nil _, trivial⟩
  | walk => exact ⟨hp, List.forall_mem_nil _, List.forall_mem_map.mpr fun _ _ => trivial⟩
  | read _ => exact ⟨hp, List.forall_mem_nil _, forall_mem_replace hs (hk.carries_reading _ _)⟩
  | miss _ => exact ⟨hp, List.forall_mem_nil _, forall_mem_drop hs⟩
  | skip => exact ⟨hp, List.forall_mem_nil _, forall_mem_drop hs⟩
  | @pass job fault before after path outcome call calls _ =>
    have hcalls : ∀ c ∈ call :: calls, Q c := hs (.reporting path outcome (call :: calls)) (by simp)
    exact ⟨hp, List.forall_mem_nil _, forall_mem_replace hs (List.forall_mem_cons.mp hcalls).2⟩
  | @send job fault before after path outcome call calls _ _ =>
    have hcalls : ∀ c ∈ call :: calls, Q c := hs (.reporting path outcome (call :: calls)) (by simp)
    obtain ⟨hcall, hcalls⟩ := List.forall_mem_cons.mp hcalls
    exact ⟨hp, List.forall_mem_singleton.mpr hcall, forall_mem_replace hs hcalls⟩
  | lose _ _ => exact ⟨hp, List.forall_mem_nil _, forall_mem_drop hs⟩
  | flush _ _ => exact ⟨hp, List.forall_mem_singleton.mpr trivial, trivial⟩
  | unsent _ _ => exact ⟨hp, List.forall_mem_nil _, trivial⟩
  | fail _ => exact ⟨hp, List.forall_mem_nil _, trivial⟩
  | join _ => exact ⟨hp, List.forall_mem_nil _, trivial⟩
  | abandon _ _ => exact ⟨hp, List.forall_mem_nil _, trivial⟩

namespace Crew

variable {crew crew' : Crew} {act : Act} {acts : List Act}

theorem carries_start (Q : Event → Prop) (index : Index) (files : List FileRow) :
    (start index files).Carries Q := by
  refine ⟨fun worker hworker => ?_, List.forall_mem_nil _, List.forall_mem_nil _, List.forall_mem_nil _⟩
  rw [Worker.stage_of_mem_waitingFrom hworker]
  trivial

/-- **What jobs keep, a step of a crew keeps.** -/
theorem Step.keeps (hk : Mapping.JobsKeep P Q) (h : crew.Step memory settings act crew')
    (hc : crew.Carries Q) (hp : P crew.index) : crew'.Carries Q ∧ P crew'.index := by
  cases h with
  | @work before after worker act index messages stage hworkers h =>
    have hall := hworkers ▸ hc.workers
    obtain ⟨hindex, hmessages, hstage⟩ := h.keeps hk (hall worker (by simp)) hp
    refine ⟨⟨forall_mem_replace hall hstage, ?_, hc.batch, hc.duties⟩, hindex⟩
    exact List.forall_mem_append.mpr ⟨hc.queue, hmessages⟩
  | receive _ _ hqueue _ _ =>
    obtain ⟨hmessage, hrest⟩ := List.forall_mem_cons.mp (hqueue ▸ hc.queue)
    refine ⟨⟨hc.workers, hrest, ?_, hc.duties⟩, hp⟩
    exact List.forall_mem_append.mpr ⟨hc.batch, List.forall_mem_singleton.mpr hmessage⟩
  | close _ _ _ _ _ => exact ⟨⟨hc.workers, List.forall_mem_nil _, hc.batch, hc.duties⟩, hp⟩
  | begin _ _ _ =>
    refine ⟨⟨hc.workers, hc.queue, List.forall_mem_nil _, ?_⟩, hp⟩
    exact Duty.carries_ofBatchOnto (List.forall_mem_nil _) hc.batch
  | perform hduties =>
    obtain ⟨hduty, hrest⟩ := List.forall_mem_cons.mp (hduties ▸ hc.duties)
    exact ⟨⟨hc.workers, hc.queue, hc.batch, hrest⟩, hk.perform hduty hp⟩

/-- **What jobs keep, a run of a crew keeps**, whatever the order of its steps. -/
theorem Run.keeps (hk : Mapping.JobsKeep P Q) (h : crew.Run memory settings acts crew')
    (hc : crew.Carries Q) (hp : P crew.index) : crew'.Carries Q ∧ P crew'.index := by
  induction h with
  | refl => exact ⟨hc, hp⟩
  | step _ hstep ih => exact hstep.keeps hk ih.1 ih.2

end Crew

namespace Index

variable {index index' : Index} {files : List FileRow} {acts : List Act}
  {result : Except Error MapReport} {rule : SymbolRule}

/-- **What jobs keep, a mapping run keeps**, whether or not it succeeds. -/
theorem Maps.keeps (hk : Mapping.JobsKeep P Q) (h : Maps memory settings files index acts result index')
    (hp : P index) : P index' := by
  cases h with
  | refused _ => exact hp
  | run _ _ hrun _ => exact (hrun.keeps hk (Crew.carries_start Q index _) hp).2

open Store

/-- Jobs keep a rule that all symbols obey that they can report. -/
theorem jobsKeep_obeys (hrule : rule.Steady) (hreported : rule.Reported) :
    Mapping.JobsKeep (fun index => index.store.Obeys rule) (Event.Obeys rule) where
  prepare file _ h := transact_keeps (Mapping.keeps_obeys_prepare file) h
  storing events index index' he h hs := by
    obtain ⟨numbers, happly, -⟩ := Mapping.storing_eq_ok_iff.mp h
    exact keeps_obeys_applyEvents hrule he _ _ _ happly hs
  announced _ := trivial
  found f event he := hreported f.id _ f.resolvable_findings event he

theorem Maps.obeys (hrule : rule.Steady) (hreported : rule.Reported)
    (h : Maps memory settings files index acts result index') (hs : index.store.Obeys rule) :
    index'.store.Obeys rule :=
  h.keeps (jobsKeep_obeys hrule hreported) hs

theorem Maps.sound (h : Maps memory settings files index acts result index') (hs : index.store.Sound) :
    index'.store.Sound :=
  sound_iff_obeys.mpr (h.obeys steady_isNamed reported_isNamed (sound_iff_obeys.mp hs))

end Index

end Keeps

end ClassAtlas
