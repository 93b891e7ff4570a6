import ClassAtlas.Proofs.Mapping.Handled
import ClassAtlas.Proofs.Mapping.Prepared
import ClassAtlas.Proofs.Mapping.Sharing

/-!
# Crews in good health

If there is memory for its batches, nothing goes wrong in a crew, whatever the files hold and in
whatever order the steps come. The files over which the walkers walk are there. A job announces every
identity before it uses it, and what it has sent arrives in order, so no slice is refused. So every flush
is answered with success, and every job reports what is found in its files.

## Main definitions

* `ClassAtlas.Store.Gathers` — a store before and after events were stored, whatever was forgotten.
* `ClassAtlas.Stage.Accounts` — how far a job has come, and what it has sent.
* `ClassAtlas.Crew.Healthy` — a crew in good health.

## Main results

* `ClassAtlas.Stage.Step.proceeds` — what a job does in a crew in good health.
* `ClassAtlas.Crew.Healthy.exists_storing` — no slice is refused.
* `ClassAtlas.Crew.Healthy.step`, `ClassAtlas.Crew.Healthy.run` — a crew stays in good health.
-/

set_option autoImplicit false

namespace ClassAtlas

/-! ### What is gathered -/

namespace Store

variable {s s' s'' : Store} {done events : List Event} {gone : RowId → Prop}

/-- A store before and after events were stored, whatever was forgotten in between. -/
structure Gathers (done : List Event) (s s' : Store) : Prop where
  /-- Files, identities and symbols stay. -/
  gains : s.Gains s'
  /-- New identities were announced. -/
  identities : ∀ row ∈ s'.identities, row ∈ s.identities ∨ .identifier row.identity ∈ done
  /-- What was announced is known. -/
  announced : ∀ identity, .identifier identity ∈ done → (s'.identityId? identity).isSome
  /-- The symbols of the events are stored. -/
  symbols : ∀ symbol, .symbol symbol ∈ done → s'.Records (.symbol symbol)

theorem Gathers.refl : s.Gathers [] s :=
  ⟨.refl, fun _ h => .inl h, by simp, by simp⟩

/-- What was found in some files is forgotten. -/
theorem Gathers.clear (h : s.Gathers done s') (hcleared : s'.Cleared gone s'') (hgains : s'.Gains s'')
    (hc' : s'.Consistent) (hc'' : s''.Consistent) : s.Gathers done s'' where
  gains := h.gains.trans hgains
  identities row hrow := h.identities row (hcleared.identities ▸ hrow)
  announced identity hi := by
    rw [identityId?, hcleared.identities]
    exact h.announced identity hi
  symbols symbol hmem := hgains.records hc' hc'' (h.symbols symbol hmem)

/-- A slice of events is stored. -/
theorem Gathers.store (h : s.Gathers done s') (hstored : Stored events s' s'') (hgains : s'.Gains s'')
    (hsymbols : ∀ symbol, .symbol symbol ∈ events → s''.Records (.symbol symbol))
    (hc' : s'.Consistent) (hc'' : s''.Consistent) : s.Gathers (done ++ events) s'' where
  gains := h.gains.trans hgains
  identities row hrow := by
    obtain ⟨added, hadded, hnew⟩ := hstored.identities
    rw [hadded] at hrow
    rcases List.mem_append.mp hrow with hrow | hrow
    · exact (h.identities row hrow).imp_right (List.mem_append_left _)
    · exact .inr (List.mem_append_right _ (hnew row hrow))
  announced identity hi := by
    rcases List.mem_append.mp hi with hi | hi
    · exact hstored.known (h.announced identity hi)
    · exact hstored.announced identity hi
  symbols symbol hmem := by
    rcases List.mem_append.mp hmem with hmem | hmem
    · exact hgains.records hc' hc'' (h.symbols symbol hmem)
    · exact hsymbols symbol hmem

/-- If all identities that were announced belong to symbols that were stored, then every identity belongs
to a symbol. -/
theorem Gathers.rooted (h : s.Gathers done s') (hc' : s'.Consistent)
    (hsymbols : ∀ identity, .identifier identity ∈ done →
      ∃ symbol, .symbol symbol ∈ done ∧ symbol.identity = identity)
    (hs : s.Rooted) : s'.Rooted := by
  intro row hrow
  rcases h.identities row hrow with hold | hnew
  · obtain ⟨symbol, hsymbol, hid⟩ := List.mem_map.mp (hs row hold)
    obtain ⟨symbol', hsymbol', hid'⟩ := h.gains.symbols symbol hsymbol
    exact List.mem_map.mpr ⟨symbol', hsymbol', hid'.trans hid⟩
  · obtain ⟨value, hvalue, he⟩ := hsymbols _ hnew
    obtain ⟨symbol, hsymbol, hidentity⟩ := h.symbols value hvalue
    refine List.mem_map.mpr ⟨symbol, hsymbol, hc'.eq_of_identity? hidentity ?_⟩
    exact hc'.identity?_eq_some_iff.mpr (he ▸ hrow)

theorem Gathers.isHome (h : s.Gathers done s') : s'.IsHome = s.IsHome :=
  isHome_congr h.gains.files

end Store

/-! ### Jobs -/

/-- How far a job that walks over some files has come if nothing went wrong, and what it has sent. -/
inductive Stage.Accounts (files : List FileRow) : Stage → List (Event ⊕ Unit) → Prop where
  /-- It has not started. -/
  | waiting : Accounts files .waiting []
  /-- It knows its files. -/
  | prepared : Accounts files (.prepared files) []
  /-- Its walkers are at work. -/
  | walking {job : Job} {walkers : List Walker} {sent : List Event} (h : job.Progress files walkers sent) :
    Accounts files (.walking job none walkers) (sent.map .inl)
  /-- It has sent everything, and then its flush. -/
  | flushing {sent : List Event} (h : Job.Reports files sent) :
    Accounts files (.flushing (.ofFiles files)) (sent.map .inl ++ [.inr ()])
  /-- Its flush was answered. -/
  | ended {sent : List Event} (h : Job.Reports files sent) :
    Accounts files (.ended (.ok (.ofFiles files))) (sent.map .inl ++ [.inr ()])

/-- What a job has sent, however far it has come. -/
theorem Stage.Accounts.sends {files : List FileRow} {stage : Stage} {messages : List (Event ⊕ Unit)}
    (h : stage.Accounts files messages) : Job.Sends files (eventsIn messages) := by
  have hnone : Job.Sends files [] := ⟨trivial, by simp, by simp⟩
  have hflushed (sent : List Event) : eventsIn (sent.map .inl ++ [.inr ()]) = sent := by
    rw [eventsIn_append, eventsIn_map_inl]
    exact List.append_nil sent
  cases h with
  | waiting => exact hnone
  | prepared => exact hnone
  | walking h =>
    rw [eventsIn_map_inl]
    exact h.sends
  | flushing h =>
    rw [hflushed]
    exact h.toSends
  | ended h =>
    rw [hflushed]
    exact h.toSends

/-! ### Crews -/

namespace Crew

open Store

variable {memory : Memory} {settings : QueueSettings} {s : Store} {acts : List Act} {act : Act}
  {crew crew' : Crew} {job : JobId}

/-- A crew in good health, on an index whose tables were those of a store before these acts. -/
structure Healthy (settings : QueueSettings) (s : Store) (acts : List Act) (crew : Crew) : Prop where
  /-- There is a consumer. -/
  isOpen : crew.isOpen = true
  /-- No slice was refused. -/
  failures : crew.consumer.failures = []
  /-- Every answer reports success. -/
  replies : ∀ reply ∈ crew.replies, reply.failure = none
  /-- Every flush that was worked off was answered. -/
  answered : ∀ job, .inr () ∈ doneFor job acts → ∃ reply ∈ crew.replies, reply.job = job
  /-- No batch is too long. -/
  room : crew.batch.length ≤ settings.batchSize
  /-- Mapping can go on. -/
  mappable : crew.index.store.Mappable
  /-- Events were stored, and what was found in some files was forgotten. -/
  gathers : s.Gathers (storedIn acts) crew.index.store
  /-- What was handed over was stored. -/
  stored : ∀ event, event ∈ storedIn acts ↔ ∃ job, .inl event ∈ doneFor job acts
  /-- Each job has its own number. -/
  numbers : (crew.workers.map Worker.number).Nodup
  /-- The jobs are for files that are no entries. -/
  files : ∀ worker ∈ crew.workers, worker.file ∈ s.files ∧ worker.file.archive = none
  /-- No job has failed. -/
  accounts : ∀ worker ∈ crew.workers,
    worker.stage.Accounts (s.walkedFor worker.file) (crew.history acts worker.number)
  /-- Nobody else sends. -/
  others : ∀ job, job ∉ crew.workers.map Worker.number → crew.history acts job = []

namespace Healthy

variable (h : crew.Healthy settings s acts)

include h

/-- What is sent is sent by a job of the crew. -/
theorem exists_worker {event : Event} (he : event ∈ eventsIn (crew.history acts job)) :
    ∃ worker ∈ crew.workers, worker.number = job ∧
      (event.announced? = none → event ∈ s.found worker.file) ∧
      ∀ identity, event = .identifier identity →
        ∃ finding ∈ s.found worker.file, identity ∈ Job.named finding := by
  by_cases hjob : job ∈ crew.workers.map Worker.number
  · obtain ⟨worker, hworker, rfl⟩ := List.mem_map.mp hjob
    have hsends := (h.accounts worker hworker).sends
    exact ⟨worker, hworker, rfl, hsends.found event he, fun identity hi => hsends.named identity (hi ▸ he)⟩
  · rw [h.others job hjob] at he
    cases he

theorem announced (job : JobId) : Announced [] (eventsIn (crew.history acts job)) := by
  by_cases hjob : job ∈ crew.workers.map Worker.number
  · obtain ⟨worker, hworker, rfl⟩ := List.mem_map.mp hjob
    exact (h.accounts worker hworker).sends.announced
  · rw [h.others job hjob]
    trivial

/-- Nothing was done for a job that has not started. -/
theorem doneFor_eq_nil {number : JobId} {file : FileRow}
    (hworker : ⟨number, file, .waiting⟩ ∈ crew.workers) : doneFor number acts = [] := by
  have hhistory : crew.history acts number = [] := by
    have haccounts := h.accounts _ hworker
    dsimp only at haccounts
    generalize crew.history acts number = sent at haccounts
    cases haccounts
    rfl
  exact (List.append_eq_nil_iff.mp hhistory).1

/-- What is sent is about files that mapping covers. -/
theorem isHome {event : Event} (he : event ∈ eventsIn (crew.history acts job)) :
    ∀ id ∈ event.file?, crew.index.store.IsHome id := by
  obtain ⟨worker, hworker, -, hfound, -⟩ := h.exists_worker he
  rw [h.gathers.isHome]
  intro id hid
  obtain ⟨f, hf, -, hids⟩ := exists_of_mem_found (hfound (Event.announced?_of_file_mem hid))
  rw [hids id hid]
  exact ⟨worker.file, (h.files worker hworker).1, (h.files worker hworker).2, forgets_of_mem_walkedFor hf⟩

/-- **No slice is refused**, as every identity that it names was announced before. -/
theorem exists_storing {events : List Event} {duties : List Duty}
    (hduties : crew.duties = .deliver job events :: duties) :
    ∃ index, Mapping.storing events crew.index = .ok index ∧ index.store.Mappable ∧
      Stored events crew.index.store index.store := by
  obtain ⟨later, hhistory⟩ := exists_eventsIn_history acts hduties
  have hhome : ∀ event ∈ events, ∀ id ∈ event.file?, crew.index.store.IsHome id := by
    intro event he
    have hmem : event ∈ eventsIn (crew.history acts job) := by
      rw [hhistory]
      exact List.mem_append_left _ (List.mem_append_right _ he)
    exact h.isHome hmem
  refine Mapping.exists_storing_slice h.mappable hhome (hhistory ▸ h.announced job) fun identity hi => ?_
  exact h.gathers.announced identity ((h.stored _).mpr ⟨job, mem_eventsIn.mp hi⟩)

/-- The files over which a job walks are there. -/
theorem requireFile_eq_ok {file walked : FileRow} {job : Job} {walkers : List Walker} {sent : List Event}
    (hfile : file ∈ s.files) (hp : job.Progress (s.walkedFor file) walkers sent)
    (hmem : .unread walked ∈ walkers) : crew.index.store.requireFile walked.id = .ok walked := by
  obtain ⟨f, hf, hover⟩ := Except.exists_of_forall₂ hp.walkers hmem
  obtain rfl : walked = f := hover
  refine h.mappable.consistent.requireFile_eq_ok ?_
  rw [h.gathers.gains.files]
  exact mem_of_mem_walkedFor hfile hf

end Healthy

end Crew

/-! ### What jobs do -/

/-- The job that sends a message. -/
def Message.job : Message → JobId
  | .event job _ | .flush job => job

theorem Message.filterMap_sent?_eq_nil {messages : List Message} {number job : JobId}
    (h : ∀ message ∈ messages, message.job = number) (hne : number ≠ job) :
    messages.filterMap (sent? job) = [] := by
  refine List.filterMap_eq_nil_iff.mpr fun message hmem => ?_
  have hjob := h message hmem
  cases message with
  | event other event => exact if_neg fun he => hne (hjob.symm.trans he)
  | flush other => exact if_neg fun he => hne (hjob.symm.trans he)

section Stage

open Store

variable {settings : QueueSettings} {s : Store} {acts : List Act} {act : Act} {crew : Crew}
  {number : JobId} {file : FileRow} {stage stage' : Stage} {index : Index} {messages : List Message}
  {sent : List (Event ⊕ Unit)}

/-- What a job can do next in a crew in good health, if it has sent these messages. -/
inductive Stage.Proceeds (s : Store) (crew : Crew) (number : JobId) (file : FileRow)
    (sent : List (Event ⊕ Unit)) : Stage → Act → Index → List Message → Stage → Prop where
  /-- It forgets what was found in its files. -/
  | starts {index : Index} (hs : index.store.Mappable)
    (hcleared : crew.index.store.Cleared (s.Forgets file) index.store)
    (hgains : crew.index.store.Gains index.store) :
    Proceeds s crew number file sent .waiting (.prepared number file) index [] (.prepared (s.walkedFor file))
  /-- It leaves the index alone, and may send something. -/
  | sends {stage stage' : Stage} {messages : List Message} (hstarted : stage ≠ .waiting)
    (hstarted' : stage' ≠ .waiting) (hmine : ∀ message ∈ messages, message.job = number)
    (haccounts : stage'.Accounts (s.walkedFor file) (sent ++ messages.filterMap (Message.sent? number))) :
    Proceeds s crew number file sent stage .quiet crew.index messages stage'

/-- **What a job does in a crew in good health.**

**Proof sketch.** One case for each step of a job. The steps at which something fails are not possible:
the job can start, its files are there, there is a consumer, and every answer reports success. -/
theorem Stage.Step.proceeds (h : Stage.Step settings crew number file stage act index messages stage')
    (hc : crew.Healthy settings s acts) (hfile : file ∈ s.files)
    (ha : stage.Accounts (s.walkedFor file) sent) :
    Stage.Proceeds s crew number file sent stage act index messages stage' := by
  have hwalked : crew.index.store.walkedFor file = s.walkedFor file := hc.gathers.gains.walkedFor
  obtain ⟨index', hprepared, hs', hcleared, hgains⟩ := Index.exists_prepare hc.mappable file
  rw [hwalked] at hprepared
  have hopen : crew.isOpen ≠ false := by simp [hc.isOpen]
  -- nothing but a change of the stage, without messages
  have hquiet {stage stage' : Stage} (hstarted : stage ≠ .waiting) (hstarted' : stage' ≠ .waiting)
      (ha : stage'.Accounts (s.walkedFor file) sent) :
      Stage.Proceeds s crew number file sent stage .quiet crew.index [] stage' :=
    .sends hstarted hstarted' (List.forall_mem_nil _) ((List.append_nil sent).symm ▸ ha)
  cases h with
  | prepare h =>
    obtain ⟨hfiles, rfl⟩ := Prod.mk.inj (hprepared.symm.trans h)
    obtain rfl := Except.ok.inj hfiles
    exact .starts hs' (hcleared.congr fun id => hc.gathers.gains.forgets_iff) hgains
  | refuse h =>
    rw [hprepared] at h
    cases h
  | walk =>
    cases ha with
    | prepared => exact hquiet (by simp) (by simp) (.walking (.start file.name _))
  | @read job fault before after walked row h =>
    cases ha with
    | walking hp =>
      obtain rfl := Except.ok.inj ((hc.requireFile_eq_ok hfile hp (by simp)).symm.trans h)
      exact hquiet (by simp) (by simp) (.walking hp.read)
  | miss h =>
    cases ha with
    | walking hp =>
      rw [hc.requireFile_eq_ok hfile hp (by simp)] at h
      cases h
  | skip => cases ha
  | pass h =>
    cases ha with
    | walking hp => exact hquiet (by simp) (by simp) (.walking (hp.pass h))
  | @send job fault before after path outcome call calls _ _ =>
    cases ha with
    | walking hp =>
      refine .sends (by simp) (by simp) (List.forall_mem_singleton.mpr rfl) ?_
      have hsent : [Message.event number call].filterMap (Message.sent? number) = [.inl call] := by
        simp [Message.sent?]
      rw [hsent]
      have hnext := Stage.Accounts.walking hp.send
      rwa [List.map_append] at hnext
  | lose _ hclosed => exact absurd hclosed hopen
  | flush hthrough _ =>
    cases ha with
    | walking hp =>
      refine .sends (by simp) (by simp) (List.forall_mem_singleton.mpr rfl) ?_
      have hsent : [Message.flush number].filterMap (Message.sent? number) = [.inr ()] := by
        simp [Message.sent?]
      obtain ⟨hreports, hreport⟩ := hp.reports hthrough
      rw [hsent, hreport]
      exact .flushing hreports
  | unsent _ hclosed => exact absurd hclosed hopen
  | fail _ => cases ha
  | @join report reply h =>
    cases ha with
    | flushing hreports =>
      rw [hc.replies reply (List.mem_of_find?_eq_some h)]
      exact hquiet (by simp) (by simp) (.ended hreports)
  | abandon hclosed _ => exact absurd hclosed hopen

end Stage

/-! ### What crews do -/

namespace Crew

open Store

variable {memory : Memory} {settings : QueueSettings} {s : Store} {acts : List Act} {act : Act}
  {crew crew' : Crew} {job : JobId} {before after : List Worker} {worker : Worker} {index : Index}
  {messages : List Message} {stage : Stage} {duty : Duty} {duties : List Duty} {events : List Event}

theorem workers_worked (hworkers : crew.workers = before ++ worker :: after) {β : Type} (f : Worker → β)
    (hf : ∀ (worker : Worker) (stage : Stage), f { worker with stage } = f worker) :
    (crew.worked before after worker index messages stage).workers.map f = crew.workers.map f := by
  rw [hworkers, worked, List.map_append, List.map_append, List.map_cons, List.map_cons, hf]

namespace Healthy

theorem number_ne (h : crew.Healthy settings s acts) (hworkers : crew.workers = before ++ worker :: after)
    {other : Worker} (ho : other ∈ before ++ after) : worker.number ≠ other.number := by
  have hnodup := h.numbers
  rw [hworkers, List.map_append, List.map_cons, List.nodup_middle, List.nodup_cons,
    ← List.map_append] at hnodup
  exact fun he => hnodup.1 (he ▸ List.mem_map_of_mem ho)

/-- One of the jobs takes a step. -/
theorem worked (h : crew.Healthy settings s acts) (hworkers : crew.workers = before ++ worker :: after)
    (hp : Stage.Proceeds s crew worker.number worker.file (crew.history acts worker.number) worker.stage
      act index messages stage) :
    (crew.worked before after worker index messages stage).Healthy settings s (acts ++ [act]) := by
  obtain ⟨hnone, hstored, hmappable, hgathers, hmine, haccounts⟩ : act.outline? = none ∧
      act.stored = [] ∧ index.store.Mappable ∧ s.Gathers (storedIn acts) index.store ∧
      (∀ message ∈ messages, message.job = worker.number) ∧
      stage.Accounts (s.walkedFor worker.file)
        (crew.history acts worker.number ++ messages.filterMap (Message.sent? worker.number)) := by
    have haccounts := h.accounts worker (by simp [hworkers])
    revert haccounts
    generalize crew.history acts worker.number = sent at hp ⊢
    generalize worker.stage = stage at hp ⊢
    intro haccounts
    cases hp with
    | starts hs hcleared hgains =>
      cases haccounts
      exact ⟨rfl, rfl, hs, h.gathers.clear hcleared hgains h.mappable.consistent hs.consistent,
        List.forall_mem_nil _, .prepared⟩
    | sends _ _ hmine haccounts => exact ⟨rfl, rfl, h.mappable, h.gathers, hmine, haccounts⟩
  have hdone (job : JobId) : doneFor job (acts ++ [act]) = doneFor job acts :=
    doneFor_append_of_outline?_eq_none hnone
  have hevents : storedIn (acts ++ [act]) = storedIn acts := by
    rw [storedIn_concat, hstored, List.append_nil]
  have hhistory (job : JobId) : (crew.worked before after worker index messages stage).history
      (acts ++ [act]) job = crew.history acts job ++ messages.filterMap (Message.sent? job) :=
    history_worked hnone before after worker index messages stage
  have hothers : ∀ job, worker.number ≠ job → (crew.worked before after worker index messages
      stage).history (acts ++ [act]) job = crew.history acts job := by
    intro job hne
    rw [hhistory, Message.filterMap_sent?_eq_nil hmine hne, List.append_nil]
  have hnumbers : (crew.worked before after worker index messages stage).workers.map Worker.number =
      crew.workers.map Worker.number :=
    workers_worked hworkers Worker.number fun _ _ => rfl
  refine ⟨h.isOpen, h.failures, h.replies, fun job => hdone job ▸ h.answered job, h.room, hmappable,
    hevents ▸ hgathers, fun event => ?_, hnumbers ▸ h.numbers, ?_, ?_, fun job hjob => ?_⟩
  · simp only [hevents, hdone, h.stored]
  · have hworker := h.files worker (by simp [hworkers])
    exact forall_mem_replace (hworkers ▸ h.files) hworker
  · refine forall_mem_insert (fun other ho => ?_) ?_
    · rw [hothers _ (h.number_ne hworkers ho)]
      exact forall_mem_drop (hworkers ▸ h.accounts) other ho
    · rw [hhistory]
      exact haccounts
  · rw [hnumbers] at hjob
    have hne : worker.number ≠ job := fun he => hjob (he ▸ List.mem_map_of_mem (by simp [hworkers]))
    rw [hothers job hne]
    exact h.others job hjob

/-- Messages move on, and nothing else changes. -/
theorem moved (h : crew.Healthy settings s acts) {queue batch : List Message}
    (hroom : batch.length ≤ settings.batchSize)
    (hhistory : ∀ job, ({ crew with queue, batch, duties } : Crew).history (acts ++ [.quiet]) job =
      crew.history acts job) :
    ({ crew with queue, batch, duties } : Crew).Healthy settings s (acts ++ [.quiet]) := by
  have hdone (job : JobId) : doneFor job (acts ++ [.quiet]) = doneFor job acts :=
    doneFor_append_of_outline?_eq_none rfl
  have hevents : storedIn (acts ++ [.quiet]) = storedIn acts := by
    rw [storedIn_concat, Act.stored, List.append_nil]
  refine ⟨h.isOpen, h.failures, h.replies, fun job => hdone job ▸ h.answered job, hroom, h.mappable,
    hevents ▸ h.gathers, fun event => ?_, h.numbers, h.files, fun worker hworker => ?_, fun job hjob => ?_⟩
  · simp only [hevents, hdone, h.stored]
  · rw [hhistory]
    exact h.accounts worker hworker
  · rw [hhistory]
    exact h.others job hjob

/-- A slice is handed over, and taken. -/
theorem performed_deliver (h : crew.Healthy settings s acts)
    (hstoring : Mapping.storing events crew.index = .ok index) :
    crew.performed (.deliver job events) duties =
      (.slice job events .taken, { crew with duties, consumer := { crew.consumer with state := index } }) := by
  have hfree : crew.consumer.failure? job = none := by rw [Consumer.failure?, h.failures]; rfl
  have hhand : Consumer.hand [Mapping.storing] events crew.consumer.state = (none, index) :=
    Mapping.hand_storing_of_eq_ok hstoring
  rw [performed, Consumer.perform, Consumer.deliver, hfree]
  dsimp only
  rw [hhand]
  simp [Deed.reply?]

/-- A flush is answered, with success. -/
theorem performed_answer (h : crew.Healthy settings s acts) :
    crew.performed (.answer job) duties =
      (.reply ⟨job, none⟩, { crew with duties, replies := crew.replies ++ [⟨job, none⟩] }) := by
  have hanswer : crew.consumer.answer job = (⟨job, none⟩, crew.consumer) := by
    have hconsumer := h.failures
    rcases hc : crew.consumer with ⟨state, failures⟩
    rw [hc] at hconsumer
    subst hconsumer
    rfl
  rw [performed, Consumer.perform, hanswer]
  rfl

/-- **The consumer does one of its duties**, and it succeeds. -/
theorem performed (h : crew.Healthy settings s acts) (hduties : crew.duties = duty :: duties) :
    (crew.performed duty duties).2.Healthy settings s
      (acts ++ [.did (crew.performed duty duties).1]) := by
  have hhistory (job : JobId) : (crew.performed duty duties).2.history
      (acts ++ [.did (crew.performed duty duties).1]) job = crew.history acts job :=
    history_performed hduties
  cases duty with
  | deliver job events =>
    obtain ⟨index, hstoring, hmappable, hstored⟩ := h.exists_storing hduties
    obtain ⟨hconsistent, hgains, hsymbols⟩ :=
      Mapping.gains_of_storing h.mappable.consistent hstoring
    have hgathers := h.gathers.store hstored hgains hsymbols h.mappable.consistent hconsistent
    rw [h.performed_deliver hstoring] at hhistory ⊢
    have hevents : storedIn (acts ++ [.did (.slice job events .taken)]) = storedIn acts ++ events :=
      storedIn_concat _ _
    refine ⟨h.isOpen, h.failures, h.replies, fun other ho => ?_, h.room, hmappable, hevents ▸ hgathers,
      fun event => ?_, h.numbers, h.files, fun worker hworker => ?_, fun other ho => ?_⟩
    · rw [doneFor_append_did, List.mem_append] at ho
      exact h.answered other (ho.resolve_right inr_mem_messagesOf?_inl.mp)
    · rw [hevents, List.mem_append, h.stored]
      simp [doneFor_append_did, Deed.outline, exists_or]
    · rw [hhistory]
      exact h.accounts worker hworker
    · rw [hhistory]
      exact h.others other ho
  | answer job =>
    rw [h.performed_answer] at hhistory ⊢
    have hevents : storedIn (acts ++ [.did (.reply ⟨job, none⟩)]) = storedIn acts := by
      rw [storedIn_concat, Act.stored, List.append_nil]
    refine ⟨h.isOpen, h.failures, ?_, fun other ho => ?_, h.room, h.mappable, hevents ▸ h.gathers,
      fun event => ?_, h.numbers, h.files, fun worker hworker => ?_, fun other ho => ?_⟩
    · exact List.forall_mem_append.mpr ⟨h.replies, List.forall_mem_singleton.mpr rfl⟩
    · rw [doneFor_append_did, List.mem_append] at ho
      rcases ho with ho | ho
      · obtain ⟨reply, hreply, hjob⟩ := h.answered other ho
        exact ⟨reply, List.mem_append_left _ hreply, hjob⟩
      · exact ⟨⟨job, none⟩, by simp, inr_mem_messagesOf?_inr.mp ho⟩
    · rw [hevents, h.stored]
      simp [doneFor_append_did, Deed.outline]
    · rw [hhistory]
      exact h.accounts worker hworker
    · rw [hhistory]
      exact h.others other ho

/-- **A crew stays in good health**, whatever step it takes, if there is memory for a batch. -/
theorem step (h : crew.Healthy settings s acts) (hmemory : memory.batch settings.batchSize = true)
    (hstep : crew.Step memory settings act crew') : crew'.Healthy settings s (acts ++ [act]) := by
  cases hstep with
  | @work before after worker act index messages stage hworkers hstage =>
    have hworker : worker ∈ crew.workers := by simp [hworkers]
    exact h.worked hworkers (hstage.proceeds h (h.files worker hworker).1 (h.accounts worker hworker))
  | receive _ _ hqueue hroom _ =>
    exact h.moved (List.length_append.trans_le hroom) fun _ => history_receive hqueue
  | close _ _ _ _ hnone => exact absurd (hmemory.symm.trans hnone) nofun
  | begin hduties _ _ => exact h.moved (Nat.zero_le _) fun _ => history_begin hduties
  | perform hduties => exact h.performed hduties

/-- **A crew is in good health throughout its runs.** -/
theorem run (h : crew.Healthy settings s []) (hmemory : memory.batch settings.batchSize = true)
    (hrun : crew.Run memory settings acts crew') : crew'.Healthy settings s acts := by
  induction hrun with
  | refl => exact h
  | step _ hstep ih => exact ih.step hmemory hstep

end Healthy

end Crew

end ClassAtlas
