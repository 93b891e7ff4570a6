import ClassAtlas.Proofs.Mapping.Tabulated

/-!
# Every run comes to an end

A crew in good health is never stuck: as long as it is not done, somebody can take a step. A full queue
only waits for the consumer, the consumer waits for nobody, and a job that waits for an answer has its
flush on the way. Once nothing is on its way, every job that has not ended can go on by itself, so it does
not matter how many of them can be at work at a time. And a crew cannot go on for ever, since every step
brings some message, file or call closer to its end.

## Main definitions

* `ClassAtlas.Crew.weight` — a bound for the steps that a crew can still take.

## Main results

* `ClassAtlas.Crew.Healthy.exists_step_work` — while nothing is on its way, each job can go on.
* `ClassAtlas.Crew.Healthy.exists_step` — a crew that is not done can take a step.
* `ClassAtlas.Crew.Healthy.weight_lt` — every step makes the bound smaller.
* `ClassAtlas.Crew.Healthy.length_le` — the length of a run is bounded.
* `ClassAtlas.Index.exists_bound` — every run comes to an end.
-/

set_option autoImplicit false

namespace ClassAtlas

open Store

variable {memory : Memory} {settings : QueueSettings} {s : Store} {acts more : List Act} {act : Act}
  {crew crew' : Crew}

/-! ### Nobody is stuck -/

/-- A walker that is not through can go on, if its file is there. -/
theorem Stage.exists_step_walking (haccepts : crew.Accepts settings) {number : JobId} {file : FileRow}
    {job : Job} {walkers : List Walker}
    (hthere : ∀ walked, .unread walked ∈ walkers → crew.index.store.requireFile walked.id = .ok walked) :
    ∃ messages stage, Stage.Step settings crew number file (.walking job none walkers) .quiet crew.index
      messages stage := by
  cases hthrough : walkers.all Walker.isThrough with
  | true => exact ⟨_, _, .flush hthrough haccepts⟩
  | false =>
    obtain ⟨walker, hmem, hwalker⟩ := List.all_eq_false.mp hthrough
    obtain ⟨before, after, rfl⟩ := List.append_of_mem hmem
    match walker with
    | .unread walked => exact ⟨_, _, .read (hthere walked (by simp))⟩
    | .reporting path outcome [] => exact absurd rfl hwalker
    | .reporting path outcome (call :: calls) =>
      cases hknown : job.isKnown call with
      | true => exact ⟨_, _, .pass hknown⟩
      | false => exact ⟨_, _, .send hknown haccepts⟩

/-- While nothing is on its way, a job that has not ended can take a step. -/
theorem Crew.Healthy.exists_step_work (h : crew.Healthy settings s acts) (hf : memory.Suffices settings)
    (hqueue : crew.queue = []) (hbatch : crew.batch = []) (hduties : crew.duties = [])
    {worker : Worker} (hworker : worker ∈ crew.workers) (hnone : worker.stage.result? = none) :
    ∃ act index messages stage,
      worker.stage.Step settings crew worker.number worker.file act index messages stage := by
  have haccepts : crew.Accepts settings := by
    refine ⟨h.isOpen, ?_⟩
    rw [hqueue]
    exact hf.capacity
  have haccounts := h.accounts worker hworker
  rw [history_eq_doneFor hqueue hbatch hduties] at haccounts
  have hanswered := h.answered worker.number
  obtain ⟨number, file, stage⟩ := worker
  dsimp only at hnone haccounts hanswered ⊢
  generalize doneFor number acts = sent at haccounts hanswered
  cases haccounts with
  | waiting =>
    obtain ⟨index', hprepared, -⟩ := Index.exists_prepare h.mappable file
    exact ⟨_, _, _, _, .prepare hprepared⟩
  | prepared => exact ⟨_, _, _, _, .walk⟩
  | walking hp =>
    obtain ⟨messages, stage, hstep⟩ := Stage.exists_step_walking haccepts fun walked hwalked =>
      h.requireFile_eq_ok (h.files _ hworker).1 hp hwalked
    exact ⟨_, _, messages, stage, hstep⟩
  | flushing _ =>
    -- its flush was worked off, so it was answered
    obtain ⟨reply, hreply, hjob⟩ := hanswered (List.mem_append_right _ (List.mem_singleton_self _))
    have hfound : (crew.replies.find? (·.job == number)).isSome :=
      List.find?_isSome.mpr ⟨reply, hreply, beq_iff_eq.mpr hjob⟩
    obtain ⟨found, hfound⟩ := Option.isSome_iff_exists.mp hfound
    exact ⟨_, _, _, _, .join hfound⟩
  | ended _ => cases hnone

/-- If not all jobs have ended, then one of them has not. -/
theorem Worker.exists_of_mapM_result?_eq_none {workers : List Worker}
    (h : (workers.mapM fun worker : Worker => worker.stage.result?) = none) :
    ∃ worker ∈ workers, worker.stage.result? = none := by
  induction workers with
  | nil => cases h
  | cons worker workers ih =>
    cases hfirst : worker.stage.result? with
    | none => exact ⟨worker, List.mem_cons_self, hfirst⟩
    | some result =>
      cases hrest : workers.mapM fun worker : Worker => worker.stage.result? with
      | none =>
        obtain ⟨other, hother, hnone⟩ := ih hrest
        exact ⟨other, List.mem_cons_of_mem _ hother, hnone⟩
      | some results =>
        rw [List.mapM_cons, hfirst, hrest] at h
        cases h

/-- **A crew in good health is never stuck**: if it is not done, it can take a step. -/
theorem Crew.Healthy.exists_step (h : crew.Healthy settings s acts) (hf : memory.Suffices settings)
    (hresult : crew.result? = none) : ∃ act crew', crew.Step memory settings act crew' := by
  cases hduties : crew.duties with
  | cons duty duties => exact ⟨_, _, .perform hduties⟩
  | nil =>
    cases hqueue : crew.queue with
    | cons message queue =>
      rcases Nat.lt_or_eq_of_le h.room with hroom | hfull
      · exact ⟨_, _, .receive h.isOpen hduties hqueue hroom fun _ => hf.memory⟩
      · exact ⟨_, _, .begin hduties (hf.ne_nil hfull) (.inl hfull)⟩
    | nil =>
      by_cases hbatch : crew.batch = []
      · -- nothing is on its way, so some job has not ended
        rw [result?, hqueue, hbatch, hduties] at hresult
        obtain ⟨worker, hworker, hnone⟩ :=
          Worker.exists_of_mapM_result?_eq_none (Option.map_eq_none_iff.mp hresult)
        obtain ⟨act, index, messages, stage, hstep⟩ :=
          h.exists_step_work hf hqueue hbatch hduties hworker hnone
        obtain ⟨before, after, hworkers⟩ := List.append_of_mem hworker
        exact ⟨act, _, .work hworkers hstep⟩
      · exact ⟨_, _, .begin hduties hbatch (.inr hqueue)⟩

/-! ### Nobody goes on for ever -/

/-- A bound for the steps for the messages that a walker still sends. -/
def Walker.weight : Walker → Nat
  | .unread file => 4 * (file.findings.1.flatMap Job.calls).length + 1
  | .reporting _ _ calls => 4 * calls.length

/-- A bound for the steps of some walkers. -/
def Walker.weights (walkers : List Walker) : Nat :=
  (walkers.map weight).sum

/-- A bound for the steps of a job that walks over some files. -/
def Stage.weight (files : List FileRow) : Stage → Nat
  | .waiting => Walker.weights (files.map .unread) + 7
  | .prepared files => Walker.weights (files.map .unread) + 6
  | .walking _ _ walkers => Walker.weights walkers + 5
  | .flushing _ => 1
  | .ended _ => 0

/-- A bound for the steps that a crew can still take. -/
def Crew.weight (s : Store) (crew : Crew) : Nat :=
  (crew.workers.map fun worker => worker.stage.weight (s.walkedFor worker.file)).sum +
    3 * crew.queue.length + 2 * crew.batch.length + crew.duties.length

/-- A walker among others adds its own weight. -/
theorem Walker.weights_append_cons (before after : List Walker) (walker : Walker) :
    weights (before ++ walker :: after) = weights (before ++ after) + walker.weight := by
  simp only [weights, List.map_append, List.map_cons, List.sum_append, List.sum_cons]
  omega

/-- A step of a job brings it closer to its end, with the messages that it sends. -/
theorem Stage.Step.weight_lt {number : JobId} {file : FileRow} {stage stage' : Stage} {index : Index}
    {messages : List Message} {sent : List (Event ⊕ Unit)}
    (h : Stage.Step settings crew number file stage act index messages stage')
    (hc : crew.Healthy settings s acts) (hfile : file ∈ s.files)
    (ha : stage.Accounts (s.walkedFor file) sent) :
    stage'.weight (s.walkedFor file) + 3 * messages.length < stage.weight (s.walkedFor file) := by
  cases h with
  | prepare hprepare =>
    obtain ⟨rfl, -⟩ :=
      Mapping.gains_of_prepare hc.mappable.consistent (Index.eq_ok_of_transact hprepare)
    rw [hc.gathers.gains.walkedFor, weight, weight, List.length_nil]
    omega
  | refuse _ | unsent _ _ | fail _ | join _ | abandon _ _ => simp [weight]
  | walk =>
    rw [weight, weight, List.length_nil]
    omega
  | @read job fault before after walked row hread =>
    cases ha with
    | walking hp =>
      obtain rfl := Except.ok.inj ((hc.requireFile_eq_ok hfile hp (by simp)).symm.trans hread)
      simp only [Walker.reading_self, weight, Walker.weights_append_cons, Walker.weight, List.length_nil]
      omega
  | miss _ | skip | pass _ | send _ _ | lose _ _ =>
    simp only [weight, Walker.weights_append_cons, Walker.weight, List.length_nil, List.length_cons]
    omega
  | flush _ _ =>
    rw [weight, weight, List.length_singleton]
    omega

/-- There are at most as many duties as messages. -/
theorem Duty.length_ofBatchOnto_le (pending : Pending) (batch : List Message) :
    (ofBatchOnto pending batch).length ≤ pending.length + batch.length := by
  have hpush (pending : Pending) (job : JobId) (event : Event) :
      (pending.push job event).length ≤ pending.length + 1 := by
    induction pending with
    | nil => exact Nat.le_refl _
    | cons slice pending ih =>
      rw [Pending.push]
      split
      · exact Nat.le_succ _
      · exact Nat.succ_le_succ ih
  induction batch generalizing pending with
  | nil => simp [ofBatchOnto, ofPending]
  | cons message batch ih =>
    cases message with
    | event job event =>
      have hrest := ih (pending.push job event)
      have hone := hpush pending job event
      rw [ofBatchOnto, List.length_cons]
      omega
    | flush job =>
      have hrest := ih []
      rw [List.length_nil] at hrest
      rw [ofBatchOnto, List.length_append, List.length_cons, List.length_cons, ofPending, List.length_map]
      omega

/-- **Every step of a crew in good health makes the bound smaller.** -/
theorem Crew.Healthy.weight_lt (h : crew.Healthy settings s acts)
    (hstep : crew.Step memory settings act crew') : crew'.weight s < crew.weight s := by
  cases hstep with
  | @work before after worker act index messages stage hworkers hstage =>
    have hworker : worker ∈ crew.workers := by simp [hworkers]
    have hless := hstage.weight_lt h (h.files worker hworker).1 (h.accounts worker hworker)
    rw [weight, weight, Crew.worked, hworkers, List.map_append, List.map_append, List.map_cons, List.map_cons,
      List.sum_append, List.sum_append, List.sum_cons, List.sum_cons, List.length_append]
    dsimp only
    omega
  | receive _ _ hqueue _ _ =>
    rw [weight, weight, hqueue, List.length_append, List.length_singleton, List.length_cons]
    dsimp only
    omega
  | close _ _ _ hqueue _ =>
    have hlength := List.length_pos_iff.mpr hqueue
    rw [weight, weight, List.length_nil]
    dsimp only
    omega
  | begin hduties hbatch _ =>
    have hlength := List.length_pos_iff.mpr hbatch
    have hle := Duty.length_ofBatchOnto_le [] crew.batch
    rw [List.length_nil] at hle
    rw [weight, weight, hduties, List.length_nil, Duty.ofBatch]
    dsimp only
    omega
  | perform hduties =>
    rw [weight, weight, hduties, List.length_cons]
    exact Nat.lt_succ_self _

/-- **The length of a run is bounded.** -/
theorem Crew.Healthy.length_le (h : crew.Healthy settings s [])
    (hmemory : memory.batch settings.batchSize = true) (hrun : crew.Run memory settings acts crew') :
    acts.length + crew'.weight s ≤ crew.weight s := by
  induction hrun with
  | refl => simp
  | step hrun hstep ih =>
    have hless := (h.run hmemory hrun).weight_lt hstep
    rw [List.length_append, List.length_singleton]
    omega

/-- **Every run comes to an end**: the lengths of runs are bounded, and none is stuck before it is
done. -/
theorem Index.exists_bound {index : Index} {files : List FileRow} (hs : index.store.Mappable)
    (hfiles : ∀ file ∈ files, file ∈ index.store.files ∧ file.archive = none)
    (hf : memory.Suffices settings) :
    ∃ bound, ∀ acts crew, (Crew.start index files).Run memory settings acts crew →
      acts.length ≤ bound ∧
        (crew.result? = none → ∃ act crew', crew.Step memory settings act crew') := by
  have hstart := Crew.healthy_start settings hs hfiles
  refine ⟨(Crew.start index files).weight index.store, fun acts crew hrun => ⟨?_, fun hresult => ?_⟩⟩
  · exact le_of_add_le_left (hstart.length_le hf.memory hrun)
  · exact (hstart.run hf.memory hrun).exists_step hf hresult

end ClassAtlas
