import ClassAtlas.Proofs.Mapping.Health

/-!
# Tables while a crew is at work

Other jobs forget and store other things, in any order. Still the uses by each file of a job are those
that were stored for the job: no other job forgets or stores uses by this file. A declaration is
different: it stays until its file is forgotten, so what is stored before that does not count.

## Main definitions

* `ClassAtlas.Store.sinceForgotten?` — what happens after a file is forgotten.
* `ClassAtlas.Store.redeclared` — a declaration after some acts.
* `ClassAtlas.Crew.Tabulates` — what the tables show while a crew is at work.

## Main results

* `ClassAtlas.Crew.Tabulates.step`, `ClassAtlas.Crew.Tabulates.run` — each step does to the tables what it
  does to the files, and so does a run.
* `ClassAtlas.Crew.healthy_start`, `ClassAtlas.Crew.tabulates_start` — how a crew starts.
-/

set_option autoImplicit false

namespace ClassAtlas

/-! ### Declarations after acts -/

namespace Store

variable {s : Store} {id : RowId} {t : Identity} {acts more : List Act} {act : Act} {file : FileRow}
  {number : JobId}

/-- What happens after the job starts that forgets the file with a number, if it starts. -/
def sinceForgotten? (store : Store) (id : RowId) : List Act → Option (List Act)
  | [] => none
  | .prepared _ file :: acts => if store.Forgets file id then some acts else sinceForgotten? store id acts
  | .did _ :: acts | .quiet :: acts => sinceForgotten? store id acts

/-- The declaration of a symbol after some acts: the one that was there, until its file is forgotten, and
then the first one that is stored. -/
def redeclared (store : Store) (t : Identity) (acts : List Act) : Option Declaration :=
  match store.declaration? t with
  | none => (storedIn acts).findSome? (Event.declares? t)
  | some d =>
    match store.sinceForgotten? d.file acts with
    | none => some d
    | some later => (storedIn later).findSome? (Event.declares? t)

theorem sinceForgotten?_append (s : Store) (id : RowId) (acts more : List Act) :
    s.sinceForgotten? id (acts ++ more) =
      ((s.sinceForgotten? id acts).map (· ++ more)).or (s.sinceForgotten? id more) := by
  induction acts with
  | nil => rfl
  | cons act acts ih =>
    cases act with
    | prepared number file =>
      rw [List.cons_append, sinceForgotten?, sinceForgotten?]
      split
      · rfl
      · exact ih
    | did deed => exact ih
    | quiet => exact ih

/-- Whatever happens next happens after a file was forgotten. -/
theorem sinceForgotten?_concat {later : List Act} (h : s.sinceForgotten? id acts = some later) (act : Act) :
    s.sinceForgotten? id (acts ++ [act]) = some (later ++ [act]) := by
  rw [sinceForgotten?_append, h]
  rfl

/-- What happens since a file was forgotten is a part of what happens. -/
theorem storedIn_subset_of_sinceForgotten? {later : List Act} (h : s.sinceForgotten? id acts = some later) :
    storedIn later ⊆ storedIn acts := by
  induction acts with
  | nil => cases h
  | cons act acts ih =>
    have hcons : storedIn acts ⊆ storedIn (act :: acts) := List.subset_append_right _ _
    cases act with
    | prepared number file =>
      rw [sinceForgotten?] at h
      split at h
      · cases h
        exact hcons
      · exact List.Subset.trans (ih h) hcons
    | did deed => exact List.Subset.trans (ih h) hcons
    | quiet => exact List.Subset.trans (ih h) hcons

/-- An act at which no job starts: what is stored counts if nothing is declared. -/
theorem redeclared_concat (hact : ∀ id, s.sinceForgotten? id [act] = none) :
    s.redeclared t (acts ++ [act]) = (s.redeclared t acts).or (act.stored.findSome? (Event.declares? t)) := by
  rw [redeclared, redeclared]
  cases s.declaration? t with
  | none => rw [storedIn_concat, List.findSome?_append]
  | some d =>
    dsimp only
    rw [sinceForgotten?_append, hact, Option.or_none]
    cases s.sinceForgotten? d.file acts with
    | none => rfl
    | some later =>
      rw [Option.map_some]
      dsimp only
      rw [storedIn_concat, List.findSome?_append]

/-- A job starts: the declaration that was there goes if its file is forgotten. What was stored before
stays, as it was found in other files. -/
theorem redeclared_concat_prepared
    (hstored : ∀ event ∈ storedIn acts, ∀ d, event.declares? t = some d → ¬s.Forgets file d.file) :
    s.redeclared t (acts ++ [.prepared number file]) =
      (s.redeclared t acts).filter fun d => !decide (s.Forgets file d.file) := by
  have hkept {events : List Event} (hsub : events ⊆ storedIn acts) :
      (events.findSome? (Event.declares? t)).filter (fun d => !decide (s.Forgets file d.file)) =
        events.findSome? (Event.declares? t) := by
    cases hfound : events.findSome? (Event.declares? t) with
    | none => rfl
    | some d =>
      obtain ⟨event, he, hdeclares⟩ := List.exists_of_findSome?_eq_some hfound
      simp [hstored event (hsub he) d hdeclares]
  have hsame (acts : List Act) : storedIn (acts ++ [.prepared number file]) = storedIn acts := by
    rw [storedIn_concat, Act.stored, List.append_nil]
  rw [redeclared, redeclared]
  cases s.declaration? t with
  | none =>
    dsimp only
    rw [hsame, hkept (List.Subset.refl _)]
  | some d =>
    dsimp only
    rw [sinceForgotten?_append]
    cases hsince : s.sinceForgotten? d.file acts with
    | some later =>
      rw [Option.map_some, Option.some_or]
      dsimp only
      rw [hsame, hkept (storedIn_subset_of_sinceForgotten? hsince)]
    | none =>
      rw [Option.map_none, Option.none_or, sinceForgotten?, sinceForgotten?]
      by_cases hforgets : s.Forgets file d.file
      · simp [hforgets, storedIn, Option.filter]
      · simp [hforgets, Option.filter]

end Store

/-! ### Tables while a crew is at work -/

namespace Crew

open Store

variable {memory : Memory} {settings : QueueSettings} {s : Store} {acts : List Act} {act : Act}
  {crew crew' : Crew} {job : JobId} {worker other : Worker}

/-- What the tables show while a crew is at work whose jobs are for different files. -/
structure Tabulates (s : Store) (acts : List Act) (crew : Crew) : Prop where
  /-- The jobs are for different files. -/
  distinct : (crew.workers.map Worker.file).Nodup
  /-- The uses by a file of a job that has started are those that were stored for the job. -/
  uses : ∀ worker ∈ crew.workers, worker.stage ≠ .waiting → ∀ id, s.Forgets worker.file id →
    crew.index.store.usesIn id =
      (eventsIn (doneFor worker.number acts)).filterMap (Event.useIn? id)
  /-- They were stored after the file was forgotten. -/
  since : ∀ worker ∈ crew.workers, worker.stage ≠ .waiting → ∀ id, s.Forgets worker.file id →
    ∃ later, s.sinceForgotten? id acts = some later ∧
      eventsIn (doneFor worker.number acts) ⊆ storedIn later
  /-- Declarations stay until they are forgotten. -/
  declared : ∀ t, crew.index.store.declaration? t = s.redeclared t acts

namespace Healthy

variable (h : crew.Healthy settings s acts) (hd : (crew.workers.map Worker.file).Nodup)
  (hs : s.Consistent)

include h hd hs

/-- The jobs of a crew forget different files. -/
theorem eq_of_forgets (hworker : worker ∈ crew.workers) (hother : other ∈ crew.workers) {id : RowId}
    (hid : s.Forgets worker.file id) (hid' : s.Forgets other.file id) : worker = other := by
  obtain ⟨hfile, hnone⟩ := h.files worker hworker
  obtain ⟨hfile', hnone'⟩ := h.files other hother
  exact List.inj_on_of_nodup_map hd hworker hother
    (Store.eq_of_forgets hs hfile hnone hfile' hnone' hid hid')

/-- What was stored for a job that forgets a file is what was stored about the file. -/
theorem number_eq_of_file {event : Event} (he : event ∈ eventsIn (crew.history acts job))
    (hworker : worker ∈ crew.workers) {id : RowId} (hid : id ∈ event.file?)
    (hforgets : s.Forgets worker.file id) : worker.number = job := by
  obtain ⟨other, hother, rfl, hfound, -⟩ := h.exists_worker he
  obtain ⟨f, hf, -, hids⟩ := exists_of_mem_found (hfound (Event.announced?_of_file_mem hid))
  have hforgets' : s.Forgets other.file id := hids id hid ▸ forgets_of_mem_walkedFor hf
  rw [h.eq_of_forgets hd hs hworker hother hforgets hforgets']

end Healthy

namespace Tabulates

variable {before after : List Worker} {index : Index} {messages : List Message} {stage : Stage}
  {duty : Duty} {duties : List Duty} {events : List Event}

/-- More is stored after a file was forgotten. -/
theorem since_concat {number : JobId} {id : RowId} (hdone : eventsIn (doneFor number (acts ++ [act])) ⊆
      eventsIn (doneFor number acts) ++ act.stored)
    (h : ∃ later, s.sinceForgotten? id acts = some later ∧
      eventsIn (doneFor number acts) ⊆ storedIn later) :
    ∃ later, s.sinceForgotten? id (acts ++ [act]) = some later ∧
      eventsIn (doneFor number (acts ++ [act])) ⊆ storedIn later := by
  obtain ⟨later, hlater, hsub⟩ := h
  refine ⟨later ++ [act], sinceForgotten?_concat hlater act, List.Subset.trans hdone ?_⟩
  rw [storedIn_concat]
  exact List.append_subset.mpr
    ⟨List.Subset.trans hsub (List.subset_append_left _ _), List.subset_append_right _ _⟩

/-- Nothing happens that the index notices. -/
theorem quiet (ht : crew.Tabulates s acts) (hworkers : crew'.workers = crew.workers)
    (hindex : crew'.index = crew.index) : crew'.Tabulates s (acts ++ [.quiet]) := by
  have hdone (job : JobId) : doneFor job (acts ++ [.quiet]) = doneFor job acts :=
    doneFor_append_of_outline?_eq_none rfl
  refine ⟨hworkers ▸ ht.distinct, fun worker hworker hstage id hid => ?_,
    fun worker hworker hstage id hid => ?_, fun t => ?_⟩
  · rw [hindex, hdone]
    exact ht.uses worker (hworkers ▸ hworker) hstage id hid
  · refine since_concat ?_ (ht.since worker (hworkers ▸ hworker) hstage id hid)
    rw [hdone]
    exact List.subset_append_left _ _
  · rw [hindex, redeclared_concat fun _ => rfl, Act.stored, List.findSome?_nil, Option.or_none]
    exact ht.declared t

/-- A job starts: it forgets its own files, and nothing was stored about them before. -/
theorem starts (ht : crew.Tabulates s acts) (h : crew.Healthy settings s acts) (hs : s.Consistent)
    {number : JobId} {file : FileRow} {files : List FileRow}
    (hworkers : crew.workers = before ++ ⟨number, file, .waiting⟩ :: after)
    (hcleared : crew.index.store.Cleared (s.Forgets file) index.store) :
    (crew.worked before after ⟨number, file, .waiting⟩ index [] (.prepared files)).Tabulates s
      (acts ++ [.prepared number file]) := by
  have hmem : ⟨number, file, .waiting⟩ ∈ crew.workers := by simp [hworkers]
  have hothers : ∀ other ∈ before ++ after, other ∈ crew.workers :=
    hworkers ▸ forall_mem_drop (a := ⟨number, file, .waiting⟩) fun _ ho => ho
  have hdistinct : ((crew.worked before after ⟨number, file, .waiting⟩ index []
      (.prepared files)).workers.map Worker.file).Nodup := by
    rw [workers_worked hworkers Worker.file fun _ _ => rfl]
    exact ht.distinct
  have hnone : doneFor number acts = [] := h.doneFor_eq_nil hmem
  have hdone (job : JobId) : doneFor job (acts ++ [.prepared number file]) = doneFor job acts :=
    doneFor_append_of_outline?_eq_none rfl
  refine ⟨hdistinct, forall_mem_insert (fun other ho hstage id hid => ?_) fun _ id hid => ?_,
    forall_mem_insert (fun other ho hstage id hid => ?_) fun _ id hid => ?_, fun t => ?_⟩
  · have hkept : ¬s.Forgets file id := fun hforgets => by
      obtain rfl := h.eq_of_forgets ht.distinct hs hmem (hothers other ho) hforgets hid
      exact h.number_ne hworkers ho rfl
    rw [hdone]
    exact (hcleared.kept id hkept).trans (ht.uses other (hothers other ho) hstage id hid)
  · rw [hdone, hnone]
    exact hcleared.dropped id hid
  · refine since_concat ?_ (ht.since other (hothers other ho) hstage id hid)
    rw [hdone]
    exact List.subset_append_left _ _
  · rw [hdone, hnone]
    cases hsince : s.sinceForgotten? id acts with
    | some later => exact ⟨_, sinceForgotten?_concat hsince _, List.nil_subset _⟩
    | none =>
      refine ⟨[], ?_, List.nil_subset _⟩
      rw [sinceForgotten?_append, hsince, sinceForgotten?, if_pos hid]
      rfl
  · have hfilter : index.store.declaration? t =
        (crew.index.store.declaration? t).filter fun d => !decide (s.Forgets file d.file) := by
      refine Option.ext fun d => ?_
      rw [hcleared.declared, Option.filter_eq_some_iff]
      simp
    rw [redeclared_concat_prepared fun event he d hdeclares hforgets => ?_, ← ht.declared]
    · exact hfilter
    · obtain ⟨job, hjob⟩ := (h.stored event).mp he
      have hsent : event ∈ eventsIn (crew.history acts job) :=
        mem_eventsIn.mpr (List.mem_append_left _ hjob)
      obtain rfl : number = job := h.number_eq_of_file ht.distinct hs hsent hmem
        (Event.file_mem_of_declares hdeclares) hforgets
      rw [hnone] at hjob
      cases hjob

/-- One of the jobs takes a step. -/
theorem worked (ht : crew.Tabulates s acts) (h : crew.Healthy settings s acts) (hs : s.Consistent)
    (hworkers : crew.workers = before ++ worker :: after)
    (hp : Stage.Proceeds s crew worker.number worker.file (crew.history acts worker.number) worker.stage
      act index messages stage) :
    (crew.worked before after worker index messages stage).Tabulates s (acts ++ [act]) := by
  obtain ⟨number, file, old⟩ := worker
  cases hp with
  | starts _ hcleared _ => exact ht.starts h hs hworkers hcleared
  | sends hstarted _ _ _ =>
    have hquiet : crew.Tabulates s (acts ++ [.quiet]) := ht.quiet rfl rfl
    have hmem : ⟨number, file, old⟩ ∈ crew.workers := by simp [hworkers]
    have hothers : ∀ other ∈ before ++ after, other ∈ crew.workers :=
      hworkers ▸ forall_mem_drop (a := ⟨number, file, old⟩) fun _ ho => ho
    refine ⟨?_, forall_mem_insert (fun other ho => hquiet.uses other (hothers other ho))
        fun _ => hquiet.uses ⟨number, file, old⟩ hmem hstarted,
      forall_mem_insert (fun other ho => hquiet.since other (hothers other ho))
        fun _ => hquiet.since ⟨number, file, old⟩ hmem hstarted,
      hquiet.declared⟩
    rw [workers_worked hworkers Worker.file fun _ _ => rfl]
    exact ht.distinct

/-- **The consumer does one of its duties.** -/
theorem performed (ht : crew.Tabulates s acts) (h : crew.Healthy settings s acts) (hs : s.Consistent)
    (hduties : crew.duties = duty :: duties) :
    (crew.performed duty duties).2.Tabulates s (acts ++ [.did (crew.performed duty duties).1]) := by
  cases duty with
  | answer job =>
    rw [h.performed_answer]
    have hdone (number : JobId) : eventsIn (doneFor number (acts ++ [.did (.reply ⟨job, none⟩)])) =
        eventsIn (doneFor number acts) := by
      have hevents : eventsIn (messagesOf? number (job, .inr ())) = [] := by
        rw [messagesOf?]
        split <;> rfl
      rw [doneFor_append_did, Deed.outline, eventsIn_append, hevents, List.append_nil]
    refine ⟨ht.distinct, fun worker hworker hstage id hid => ?_, fun worker hworker hstage id hid => ?_,
      fun t => ?_⟩
    · rw [hdone]
      exact ht.uses worker hworker hstage id hid
    · refine since_concat ?_ (ht.since worker hworker hstage id hid)
      rw [hdone]
      exact List.subset_append_left _ _
    · rw [redeclared_concat fun _ => rfl, Act.stored, List.findSome?_nil, Option.or_none]
      exact ht.declared t
  | deliver job events =>
    obtain ⟨index, hstoring, -, hstored⟩ := h.exists_storing hduties
    rw [h.performed_deliver hstoring]
    refine ⟨ht.distinct, fun worker hworker hstage id hid => ?_, fun worker hworker hstage id hid => ?_,
      fun t => ?_⟩
    · rw [doneFor_append_did, Deed.outline, eventsIn_append, eventsIn_messagesOf?, List.filterMap_append,
        ← ht.uses worker hworker hstage id hid]
      refine (hstored.uses id).trans (congrArg _ ?_)
      split
      · rfl
      · rename_i hne
        refine List.filterMap_eq_nil_iff.mpr fun event he => Option.eq_none_iff_forall_ne_some.mpr
          fun value huse => hne ?_
        obtain ⟨later, hhistory⟩ := exists_eventsIn_history acts hduties
        have hsent : event ∈ eventsIn (crew.history acts job) := by
          rw [hhistory]
          exact List.mem_append_left _ (List.mem_append_right _ he)
        exact (h.number_eq_of_file ht.distinct hs hsent hworker (Event.file_mem_of_useIn? huse) hid).symm
    · refine since_concat ?_ (ht.since worker hworker hstage id hid)
      rw [doneFor_append_did, Deed.outline, eventsIn_append, eventsIn_messagesOf?]
      split
      · exact List.Subset.refl _
      · rw [List.append_nil]
        exact List.subset_append_left _ _
    · rw [redeclared_concat fun _ => rfl, ← ht.declared]
      exact hstored.declared t

/-- **Each step of a crew does to the tables what it does to the files.** -/
theorem step (ht : crew.Tabulates s acts) (h : crew.Healthy settings s acts) (hs : s.Consistent)
    (hmemory : memory.batch settings.batchSize = true) (hstep : crew.Step memory settings act crew') :
    crew'.Tabulates s (acts ++ [act]) := by
  cases hstep with
  | @work before after worker act index messages stage hworkers hstage =>
    have hworker : worker ∈ crew.workers := by simp [hworkers]
    exact ht.worked h hs hworkers
      (hstage.proceeds h (h.files worker hworker).1 (h.accounts worker hworker))
  | receive _ _ _ _ _ => exact ht.quiet rfl rfl
  | close _ _ _ _ hnone => exact absurd (hmemory.symm.trans hnone) nofun
  | begin _ _ _ => exact ht.quiet rfl rfl
  | perform hduties => exact ht.performed h hs hduties

/-- **What the tables show throughout a run.** -/
theorem run (ht : crew.Tabulates s []) (h : crew.Healthy settings s []) (hs : s.Consistent)
    (hmemory : memory.batch settings.batchSize = true) (hrun : crew.Run memory settings acts crew') :
    crew'.Tabulates s acts := by
  induction hrun with
  | refl => exact ht
  | step hrun hstep ih => exact ih.step (h.run hmemory hrun) hs hmemory hstep

end Tabulates

/-! ### The start of a run -/

/-- A crew is in good health at first. -/
theorem healthy_start (settings : QueueSettings) {index : Index} {files : List FileRow}
    (hs : index.store.Mappable)
    (hfiles : ∀ file ∈ files, file ∈ index.store.files ∧ file.archive = none) :
    (start index files).Healthy settings index.store [] where
  isOpen := rfl
  failures := rfl
  replies := List.forall_mem_nil _
  answered _ h := nomatch h
  room := Nat.zero_le _
  mappable := hs
  gathers := .refl
  stored event := by simp [storedIn, doneFor, messagesOf]
  numbers := by
    rw [start, Worker.map_number_waitingFrom]
    exact List.nodup_range'
  files worker hworker := by
    refine hfiles worker.file ?_
    rw [← Worker.map_file_waitingFrom 1 files]
    exact List.mem_map_of_mem hworker
  accounts worker hworker := by
    rw [Worker.stage_of_mem_waitingFrom hworker]
    exact .waiting
  others _ _ := rfl

theorem tabulates_start {index : Index} {files : List FileRow} (hfiles : files.Nodup) :
    (start index files).Tabulates index.store [] where
  distinct := by
    rw [start, Worker.map_file_waitingFrom]
    exact hfiles
  uses worker hworker hstage := absurd (Worker.stage_of_mem_waitingFrom hworker) hstage
  since worker hworker hstage := absurd (Worker.stage_of_mem_waitingFrom hworker) hstage
  declared t := by
    rw [redeclared]
    cases h : index.store.declaration? t with
    | none => exact h
    | some d => exact h

end Crew

end ClassAtlas
