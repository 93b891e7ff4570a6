import ClassAtlas.Proofs.Mapping.Tabulated

/-!
# Mapping again

A run that has memory for its batches succeeds, whatever the files hold and in whatever order its steps
come, and its report depends on the files alone. Afterwards the uses by each file of a job are those that
are found in it, and every symbol that was found is there. A run without that memory stores nothing, and
fails if there is anything to map. Either way mapping can go on.

## Main definitions

* `ClassAtlas.Store.reportFor` — what a run reports.
* `ClassAtlas.Store.Remapped` — a store before and after a run that succeeds.
* `ClassAtlas.Crew.Cramped` — a crew without memory for a batch.

## Main results

* `ClassAtlas.Index.Maps.eq_ok` — a run with memory for its batches succeeds.
* `ClassAtlas.Index.Maps.remapped` — what a run that succeeds does.
* `ClassAtlas.Index.Maps.recorded` — what it finds is recorded.
* `ClassAtlas.Index.Maps.kept` — mapping can go on after every run.
-/

set_option autoImplicit false

namespace ClassAtlas

/-! ### Reports -/

theorem MapReport.join_map_ok (reports : List MapReport) :
    join (reports.map .ok) = .ok (reports.foldr append empty) := by
  induction reports with
  | nil => rfl
  | cons report reports ih =>
    rw [List.map_cons, join, ih]
    rfl

theorem MapReport.filesSkipped_note_eq_zero_iff {report : MapReport} {path : String} {outcome : FileOutcome} :
    (report.note path outcome).filesSkipped = 0 ↔
      report.filesSkipped = 0 ∧ (outcome = .mapped ∨ outcome = .empty) := by
  cases outcome <;> simp [note]

theorem MapReport.filesSkipped_ofFiles_eq_zero_iff {files : List FileRow} :
    (ofFiles files).filesSkipped = 0 ↔ ∀ file ∈ files, file.IsWhole := by
  have hnotes : ∀ report : MapReport,
      (files.foldl (fun report file => report.note file.path file.findings.2) report).filesSkipped = 0 ↔
        report.filesSkipped = 0 ∧ ∀ file ∈ files, file.IsWhole := by
    induction files with
    | nil => simp
    | cons file files ih =>
      intro report
      rw [List.foldl_cons, ih, filesSkipped_note_eq_zero_iff, List.forall_mem_cons, and_assoc]
      rfl
  rw [ofFiles, hnotes]
  exact and_iff_right rfl

theorem MapReport.filesSkipped_foldr_append_eq_zero_iff {reports : List MapReport} :
    (reports.foldr append empty).filesSkipped = 0 ↔ ∀ report ∈ reports, report.filesSkipped = 0 := by
  induction reports with
  | nil => simp [empty]
  | cons report reports ih =>
    rw [List.foldr_cons, append, Nat.add_eq_zero_iff, ih, List.forall_mem_cons]

namespace Store

/-- What a run reports whose jobs are for some files. -/
def reportFor (store : Store) (tops : List FileRow) : MapReport :=
  (tops.map fun top => MapReport.ofFiles (store.walkedFor top)).foldr MapReport.append .empty

/-- Nothing is skipped if every file is walked over to its end. -/
theorem filesSkipped_reportFor_eq_zero_iff {s : Store} {tops : List FileRow} :
    (s.reportFor tops).filesSkipped = 0 ↔ ∀ top ∈ tops, ∀ file ∈ s.walkedFor top, file.IsWhole := by
  rw [reportFor, MapReport.filesSkipped_foldr_append_eq_zero_iff, List.forall_mem_map]
  simp only [MapReport.filesSkipped_ofFiles_eq_zero_iff]

/-- A store before and after a run that succeeds, whose jobs are for some files. -/
structure Remapped (tops : List FileRow) (acts : List Act) (s s' : Store) : Prop where
  /-- The files stay. -/
  files : s'.files = s.files
  /-- Mapping can go on. -/
  mappable : s'.Mappable
  /-- The symbols that the jobs find are there. -/
  symbols : ∀ top ∈ tops, ∀ symbol, .symbol symbol ∈ s.found top → s'.Records (.symbol symbol)
  /-- All that the jobs find was stored, and nothing else. -/
  stored : ∀ event, event.announced? = none →
    (event ∈ storedIn acts ↔ ∃ top ∈ tops, event ∈ s.found top)
  /-- What a job finds was stored after it had forgotten its files. -/
  since : ∀ top ∈ tops, ∀ id, s.Forgets top id →
    ∃ later, s.sinceForgotten? id acts = some later ∧ s.found top ⊆ storedIn later
  /-- The uses by a file of a job are those that the job finds. -/
  uses : ∀ top ∈ tops, ∀ id, s.Forgets top id →
    s'.usesIn id = (s.found top).filterMap (Event.useIn? id)
  /-- Declarations stay until they are forgotten. -/
  declared : ∀ t, s'.declaration? t = s.redeclared t acts

namespace Remapped

variable {s s' : Store} {tops : List FileRow} {acts : List Act} {t : Identity}

/-- If a job forgets the file in which a symbol was declared before, then what is stored after that
counts, and the first declaration among it is taken. -/
theorem exists_counting (h : s.Remapped tops acts s')
    (hforgotten : ∀ d, s.declaration? t = some d → ∃ top ∈ tops, s.Forgets top d.file) :
    ∃ counting : List Event, s'.declaration? t = counting.findSome? (Event.declares? t) ∧
      counting ⊆ storedIn acts ∧
      ∀ event ∈ storedIn acts, event ∈ counting ↔ ∀ d, s.declaration? t = some d →
        ∃ later, s.sinceForgotten? d.file acts = some later ∧ event ∈ storedIn later := by
  rw [h.declared, redeclared]
  cases hd : s.declaration? t with
  | none => exact ⟨_, rfl, List.Subset.refl _, fun event he => iff_of_true he (by simp)⟩
  | some d =>
    obtain ⟨top, htop, hforgets⟩ := hforgotten d hd
    obtain ⟨later, hlater, -⟩ := h.since top htop d.file hforgets
    dsimp only
    rw [hlater]
    refine ⟨_, rfl, storedIn_subset_of_sinceForgotten? hlater, fun event _ => ?_⟩
    simp [hlater]

/-- A declaration that was stored was found in its file. -/
theorem exists_found (h : s.Remapped tops acts s') {event : Event} {d : Declaration}
    (he : event ∈ storedIn acts) (hd : event.declares? t = some d) :
    ∃ top ∈ tops, ∃ file ∈ s.walkedFor top, event ∈ file.findings.1 ∧ file.id = d.file := by
  obtain ⟨top, htop, hfound⟩ := (h.stored event (Event.announced?_of_declares hd)).mp he
  obtain ⟨file, hfile, hevent, hids⟩ := exists_of_mem_found hfound
  exact ⟨top, htop, file, hfile, hevent, (hids d.file (Event.file_mem_of_declares hd)).symm⟩

end Remapped

end Store

/-! ### Crews that are done -/

section Ended

open Store

variable {memory : Memory} {settings : QueueSettings} {s : Store} {acts : List Act} {crew : Crew}
  {result : Except Error MapReport}

/-- What a job has stored about one of its files is what it finds there. -/
theorem Job.Reports.filterMap_useIn? {files : List FileRow} {sent : List Event}
    (h : Job.Reports files sent) (hids : (files.map FileRow.id).Nodup) (id : RowId) :
    sent.filterMap (Event.useIn? id) = (files.flatMap (·.findings.1)).filterMap (Event.useIn? id) := by
  have hfindings := filterMap_filter_announced (f := Event.useIn? id) (fun _ => rfl) sent
  have hrows := h.interleaves.filterMap (Event.useIn? id)
  rw [List.map_map] at hrows
  rw [← hfindings, List.flatMap_def, List.filterMap_flatten, List.map_map]
  refine hrows.eq_flatten (List.pairwise_map.mpr ((List.pairwise_map.mp hids).imp fun {a b} hne => ?_))
  by_cases ha : a.id = id
  · exact .inr (filterMap_useIn?_findings_eq_nil fun hb => hne (ha.trans hb.symm))
  · exact .inl (filterMap_useIn?_findings_eq_nil ha)

/-- What a job finds it has sent. -/
theorem Job.Reports.subset {files : List FileRow} {sent : List Event} (h : Job.Reports files sent) :
    files.flatMap (·.findings.1) ⊆ sent := by
  intro event he
  obtain ⟨file, hfile, hevent⟩ := List.mem_flatMap.mp he
  exact List.mem_of_mem_filter (h.interleaves.mem_iff.mpr ⟨_, List.mem_map_of_mem hfile, hevent⟩)

/-- When a crew in good health is done, every job has sent what it found, and it was stored. -/
theorem Crew.Healthy.of_result? (h : crew.Healthy settings s acts) (hresult : crew.result? = some result) :
    result = .ok (s.reportFor (crew.workers.map Worker.file)) ∧
      ∀ worker ∈ crew.workers, worker.stage ≠ .waiting ∧
        Job.Reports (s.walkedFor worker.file) (eventsIn (doneFor worker.number acts)) := by
  obtain ⟨⟨hqueue, hbatch, hduties⟩, results, hstages, rfl⟩ := Crew.result?_eq_some_iff.mp hresult
  have hended : ∀ worker ∈ crew.workers,
      worker.stage = .ended (.ok (.ofFiles (s.walkedFor worker.file))) ∧
        Job.Reports (s.walkedFor worker.file) (eventsIn (doneFor worker.number acts)) := by
    intro worker hworker
    have haccounts := h.accounts worker hworker
    obtain ⟨result, -, he⟩ := List.mem_map.mp (hstages ▸ List.mem_map_of_mem (f := Worker.stage) hworker)
    rw [Crew.history_eq_doneFor hqueue hbatch hduties, ← he] at haccounts
    generalize doneFor worker.number acts = sent at haccounts ⊢
    cases haccounts with
    | @ended sent hreports =>
      rw [eventsIn_append, eventsIn_map_inl]
      exact ⟨he.symm, (List.append_nil sent).symm ▸ hreports⟩
  refine ⟨?_, fun worker hworker => ⟨?_, (hended worker hworker).2⟩⟩
  · have hall : crew.workers.map Worker.stage =
        ((crew.workers.map fun worker => MapReport.ofFiles (s.walkedFor worker.file)).map .ok).map .ended := by
      rw [List.map_map, List.map_map]
      exact List.map_congr_left fun worker hworker => (hended worker hworker).1
    have hresults := List.map_injective_iff.mpr (fun _ _ => Stage.ended.inj) (hstages.symm.trans hall)
    rw [hresults, MapReport.join_map_ok, reportFor, List.map_map]
    rfl
  · rw [(hended worker hworker).1]
    simp

/-- All that the jobs find was stored, and nothing else but announcements. -/
theorem Crew.Healthy.mem_storedIn_iff (h : crew.Healthy settings s acts)
    (hresult : crew.result? = some result) {event : Event} (hnone : event.announced? = none) :
    event ∈ storedIn acts ↔ ∃ top ∈ crew.workers.map Worker.file, event ∈ s.found top := by
  rw [h.stored]
  constructor
  · rintro ⟨job, hjob⟩
    obtain ⟨worker, hworker, -, hfound, -⟩ :=
      h.exists_worker (mem_eventsIn.mpr (List.mem_append_left _ hjob))
    exact ⟨worker.file, List.mem_map_of_mem hworker, hfound hnone⟩
  · rintro ⟨_, htop, hfound⟩
    obtain ⟨worker, hworker, rfl⟩ := List.mem_map.mp htop
    exact ⟨worker.number, mem_eventsIn.mp (((h.of_result? hresult).2 worker hworker).2.subset hfound)⟩

/-- Every identity belongs to a symbol, as the jobs announce none without a symbol. -/
theorem Crew.Healthy.rooted (h : crew.Healthy settings s acts) (hresult : crew.result? = some result)
    (hs : s.Rooted) : crew.index.store.Rooted := by
  refine h.gathers.rooted h.mappable.consistent (fun identity hi => ?_) hs
  obtain ⟨job, hjob⟩ := (h.stored _).mp hi
  obtain ⟨worker, hworker, -, -, hnamed⟩ :=
    h.exists_worker (mem_eventsIn.mpr (List.mem_append_left _ hjob))
  obtain ⟨finding, hfinding, hidentity⟩ := hnamed identity rfl
  obtain ⟨symbol, hsymbol, he⟩ := exists_symbol_of_found hfinding hidentity
  exact ⟨symbol, (h.mem_storedIn_iff hresult rfl).mpr
    ⟨worker.file, List.mem_map_of_mem hworker, hsymbol⟩, he⟩

theorem Crew.Tabulates.remapped (ht : crew.Tabulates s acts) (h : crew.Healthy settings s acts)
    (hs : s.Consistent) (hresult : crew.result? = some result) :
    s.Remapped (crew.workers.map Worker.file) acts crew.index.store := by
  have hstored {event : Event} (hnone : event.announced? = none) := h.mem_storedIn_iff hresult hnone
  have hended := (h.of_result? hresult).2
  refine ⟨h.gathers.gains.files, h.mappable, List.forall_mem_map.mpr fun worker hworker symbol hsymbol => ?_,
    fun _ => hstored, List.forall_mem_map.mpr fun worker hworker id hid => ?_,
    List.forall_mem_map.mpr fun worker hworker id hid => ?_, ht.declared⟩
  · exact h.gathers.symbols symbol ((hstored rfl).mpr ⟨_, List.mem_map_of_mem hworker, hsymbol⟩)
  · obtain ⟨hstarted, hreports⟩ := hended worker hworker
    obtain ⟨later, hlater, hsub⟩ := ht.since worker hworker hstarted id hid
    exact ⟨later, hlater, List.Subset.trans hreports.subset hsub⟩
  · obtain ⟨hstarted, hreports⟩ := hended worker hworker
    rw [ht.uses worker hworker hstarted id hid]
    exact hreports.filterMap_useIn? (hs.nodup_walkedFor worker.file) id

end Ended

/-! ### Crews without memory -/

namespace Crew

open Store

variable {memory : Memory} {settings : QueueSettings} {s : Store} {acts : List Act} {act : Act}
  {crew crew' : Crew} {index : Index} {files : List FileRow} {result : Except Error MapReport}
  {report : MapReport}

/-- The files of the jobs stay the same. -/
theorem Step.map_file (h : crew.Step memory settings act crew') :
    crew'.workers.map Worker.file = crew.workers.map Worker.file := by
  cases h with
  | work hworkers _ => exact workers_worked hworkers Worker.file fun _ _ => rfl
  | receive _ _ _ _ _ => rfl
  | close _ _ _ _ _ => rfl
  | begin _ _ _ => rfl
  | perform _ => rfl

theorem Run.map_file (h : crew.Run memory settings acts crew') :
    crew'.workers.map Worker.file = crew.workers.map Worker.file := by
  induction h with
  | refl => rfl
  | step _ hstep ih => exact hstep.map_file.trans ih

/-- A crew without memory for a batch: nothing was stored, and no job has succeeded. -/
structure Cramped (s : Store) (crew : Crew) : Prop where
  /-- No message was taken. -/
  batch : crew.batch = []
  /-- There is nothing to do. -/
  duties : crew.duties = []
  /-- No flush was answered. -/
  replies : crew.replies = []
  /-- No job has succeeded. -/
  unended : ∀ worker ∈ crew.workers, ∀ report, worker.stage ≠ .ended (.ok report)
  /-- Mapping can go on. -/
  mappable : crew.index.store.Mappable
  /-- Nothing was stored, and what was found in some files was forgotten. -/
  gathers : s.Gathers [] crew.index.store

theorem cramped_start (hs : index.store.Mappable) : (start index files).Cramped index.store where
  batch := rfl
  duties := rfl
  replies := rfl
  unended worker hworker report := by
    rw [Worker.stage_of_mem_waitingFrom hworker]
    nofun
  mappable := hs
  gathers := .refl

/-- What a job can do in a crew without memory for a batch: it does not succeed, and nothing is stored. -/
theorem Cramped.worked (h : crew.Cramped s) {number : JobId} {file : FileRow} {stage stage' : Stage}
    {messages : List Message}
    (hstep : Stage.Step settings crew number file stage act index messages stage') :
    (∀ report, stage' ≠ .ended (.ok report)) ∧ index.store.Mappable ∧ s.Gathers [] index.store := by
  have hquiet (hstage : ∀ report, stage' ≠ .ended (.ok report)) : (∀ report, stage' ≠ .ended (.ok report)) ∧
      crew.index.store.Mappable ∧ s.Gathers [] crew.index.store :=
    ⟨hstage, h.mappable, h.gathers⟩
  obtain ⟨index', hprepared, hs', hcleared, hgains⟩ := Index.exists_prepare h.mappable file
  cases hstep with
  | prepare hrun =>
    obtain ⟨-, rfl⟩ := Prod.mk.inj (hprepared.symm.trans hrun)
    exact ⟨by simp, hs', h.gathers.clear hcleared hgains h.mappable.consistent hs'.consistent⟩
  | refuse hrun =>
    rw [hprepared] at hrun
    cases hrun
  | join hreply =>
    rw [h.replies] at hreply
    cases hreply
  | walk | read _ | miss _ | skip | pass _ | send _ _ | lose _ _ | flush _ _ | unsent _ _ | fail _
  | abandon _ _ => exact hquiet (by simp)

/-- Without memory for a batch no message is ever taken. -/
theorem Cramped.step (h : crew.Cramped s) (hmemory : memory.batch settings.batchSize = false)
    (hstep : crew.Step memory settings act crew') : crew'.Cramped s := by
  cases hstep with
  | work hworkers hstage =>
    obtain ⟨hunended, hmappable, hgathers⟩ := h.worked hstage
    exact ⟨h.batch, h.duties, h.replies, forall_mem_replace (hworkers ▸ h.unended) hunended, hmappable,
      hgathers⟩
  | receive _ _ _ _ hbatch => exact absurd ((hbatch h.batch).symm.trans hmemory) nofun
  | close _ _ _ _ _ => exact ⟨h.batch, h.duties, h.replies, h.unended, h.mappable, h.gathers⟩
  | begin _ hbatch _ => exact absurd h.batch hbatch
  | perform hduties =>
    rw [h.duties] at hduties
    cases hduties

theorem Cramped.run (h : crew.Cramped s) (hmemory : memory.batch settings.batchSize = false)
    (hrun : crew.Run memory settings acts crew') : crew'.Cramped s := by
  induction hrun with
  | refl => exact h
  | step _ hstep ih => exact ih.step hmemory hstep

/-- A crew without memory for a batch succeeds only if it has no jobs. -/
theorem Cramped.eq_nil_of_result? (h : crew.Cramped s) (hresult : crew.result? = some (.ok report)) :
    crew.workers = [] := by
  obtain ⟨-, results, hstages, hjoin⟩ := result?_eq_some_iff.mp hresult
  cases results with
  | nil => exact List.map_eq_nil_iff.mp hstages
  | cons first results =>
    obtain ⟨worker, workers, hworkers, hfirst, -⟩ := List.map_eq_cons_iff.mp hstages
    cases first with
    | ok report => exact absurd hfirst (h.unended worker (hworkers ▸ List.mem_cons_self) report)
    | error cause => cases hjoin

/-- With memory for the batches a step is one that is possible with memory for everything. -/
theorem Step.ample (h : crew.Step memory settings act crew')
    (hmemory : memory.batch settings.batchSize = true) : crew.Step .ample settings act crew' := by
  cases h with
  | work hworkers hstage => exact .work hworkers hstage
  | receive hopen hduties hqueue hroom _ => exact .receive hopen hduties hqueue hroom fun _ => rfl
  | close _ _ _ _ hnone => exact absurd (hmemory.symm.trans hnone) nofun
  | begin hduties hbatch hfull => exact .begin hduties hbatch hfull
  | perform hduties => exact .perform hduties

theorem Run.ample (h : crew.Run memory settings acts crew')
    (hmemory : memory.batch settings.batchSize = true) : crew.Run .ample settings acts crew' := by
  induction h with
  | refl => exact .refl
  | step _ hstep ih => exact ih.step (hstep.ample hmemory)

/-- A crew without jobs does nothing. -/
theorem Run.eq_of_nil (h : (start index []).Run memory settings acts crew) :
    acts = [] ∧ crew = start index [] := by
  induction h with
  | refl => exact ⟨rfl, rfl⟩
  | step _ hstep ih =>
    obtain ⟨-, rfl⟩ := ih
    cases hstep with
    | work hworkers _ => simp [start, Worker.waitingFrom] at hworkers
    | receive _ _ hqueue _ _ => cases hqueue
    | close _ _ _ hqueue _ => exact absurd rfl hqueue
    | begin _ hbatch _ => exact absurd rfl hbatch
    | perform hduties => cases hduties

end Crew

/-! ### Runs -/

namespace Index

open Store

variable {memory : Memory} {settings : QueueSettings} {index index' : Index} {files : List FileRow}
  {acts : List Act} {result : Except Error MapReport} {report : MapReport}

/-- The files for which there are jobs. -/
theorem forall_mem_filter_archive (hfiles : ∀ file ∈ files, file ∈ index.store.files) :
    ∀ file ∈ files.filter (·.archive.isNone), file ∈ index.store.files ∧ file.archive = none := by
  intro file hfile
  obtain ⟨hmem, hnone⟩ := List.mem_filter.mp hfile
  exact ⟨hfiles file hmem, Option.isNone_iff_eq_none.mp hnone⟩

/-- A run with memory for its batches ends with a crew in good health. -/
theorem Maps.exists_healthy (h : Maps memory settings files index acts result index')
    (hs : index.store.Mappable) (hfiles : ∀ file ∈ files, file ∈ index.store.files)
    (hsettings : settings.validate = .ok ()) (hmemory : memory.batch settings.batchSize = true) :
    ∃ crew : Crew, (Crew.start index (files.filter (·.archive.isNone))).Run memory settings acts crew ∧
      crew.result? = some result ∧ crew.index = index' ∧ crew.Healthy settings index.store acts ∧
      crew.workers.map Worker.file = files.filter (·.archive.isNone) := by
  cases h with
  | refused hrefused =>
    rw [hsettings] at hrefused
    cases hrefused
  | @run acts crew result _ _ hrun hresult =>
    have hhealthy := Crew.healthy_start settings hs (forall_mem_filter_archive hfiles)
    refine ⟨crew, hrun, hresult, rfl, hhealthy.run hmemory hrun, ?_⟩
    rw [hrun.map_file, Crew.start, Worker.map_file_waitingFrom]

/-- **A run with memory for its batches succeeds**, and its report depends on the files alone. -/
theorem Maps.eq_ok (h : Maps memory settings files index acts result index')
    (hs : index.store.Mappable) (hfiles : ∀ file ∈ files, file ∈ index.store.files)
    (hsettings : settings.validate = .ok ()) (hmemory : memory.batch settings.batchSize = true) :
    result = .ok (index.store.reportFor (files.filter (·.archive.isNone))) := by
  obtain ⟨crew, -, hresult, -, hhealthy, hworkers⟩ := h.exists_healthy hs hfiles hsettings hmemory
  rw [← hworkers]
  exact (hhealthy.of_result? hresult).1

/-- A run that succeeds is one that is possible with memory for everything: without memory for a batch
there was nothing to map. -/
theorem Maps.ample (h : Maps memory settings files index acts (.ok report) index')
    (hs : index.store.Mappable) :
    settings.validate = .ok () ∧ Maps .ample settings files index acts (.ok report) index' := by
  cases h with
  | @run acts crew result hsettings _ hrun hresult =>
    refine ⟨hsettings, .run hsettings rfl ?_ hresult⟩
    cases hmemory : memory.batch settings.batchSize with
    | true => exact hrun.ample hmemory
    | false =>
      have hnone := ((Crew.cramped_start hs).run hmemory hrun).eq_nil_of_result? hresult
      have hfiles : files.filter (·.archive.isNone) = [] := by
        rw [← Worker.map_file_waitingFrom 1 (files.filter _)]
        exact hrun.map_file.symm.trans (by rw [hnone, List.map_nil])
      rw [hfiles] at hrun ⊢
      obtain ⟨rfl, rfl⟩ := hrun.eq_of_nil
      exact .refl

/-- **What a run does that succeeds**, if its jobs are for different files. -/
theorem Maps.remapped (h : Maps memory settings files index acts (.ok report) index')
    (hs : index.store.Mappable) (hfiles : ∀ file ∈ files, file ∈ index.store.files)
    (hnodup : files.Nodup) :
    report = index.store.reportFor (files.filter (·.archive.isNone)) ∧
      index.store.Remapped (files.filter (·.archive.isNone)) acts index'.store := by
  obtain ⟨hsettings, h⟩ := h.ample hs
  refine ⟨Except.ok.inj (h.eq_ok hs hfiles hsettings rfl), ?_⟩
  obtain ⟨crew, hrun, hresult, rfl, hhealthy, hworkers⟩ := h.exists_healthy hs hfiles hsettings rfl
  have htabulates := (Crew.tabulates_start (hnodup.filter _)).run
    (Crew.healthy_start settings hs (forall_mem_filter_archive hfiles)) hs.consistent rfl hrun
  rw [← hworkers]
  exact htabulates.remapped hhealthy hs.consistent hresult

/-- **What a run finds is recorded**, if it skips no file. -/
theorem Maps.recorded (h : Maps memory settings files index acts (.ok report) index')
    (hs : index.store.Mappable) (hfiles : ∀ file ∈ files, file ∈ index.store.files)
    (hnodup : files.Nodup) (hskipped : report.filesSkipped = 0) {top file : FileRow}
    (htop : top ∈ files.filter (·.archive.isNone)) (hfile : file ∈ index.store.walkedFor top) :
    file.Recorded index'.store := by
  obtain ⟨rfl, hremapped⟩ := h.remapped hs hfiles hnodup
  have hfound {event : Event} (he : event ∈ file.findings.1) : event ∈ index.store.found top :=
    List.mem_flatMap.mpr ⟨file, hfile, he⟩
  refine ⟨filesSkipped_reportFor_eq_zero_iff.mp hskipped top htop file hfile, fun event he hown => ?_⟩
  cases event with
  | identifier identity => trivial
  | symbol value => exact hremapped.symbols top htop value (hfound he)
  | reference value =>
    have huse : value ∈ index'.store.usesIn file.id := by
      rw [hremapped.uses top htop file.id (forgets_of_mem_walkedFor hfile)]
      exact List.mem_filterMap.mpr ⟨_, hfound he, if_pos (hown value rfl)⟩
    obtain ⟨shown, hshown, rfl⟩ := List.mem_map.mp huse
    obtain ⟨row, hrow, hshow⟩ := List.mem_filterMap.mp hshown
    refine ⟨row, List.mem_of_mem_filter hrow, ?_⟩
    obtain ⟨target, owner, -, -, rfl⟩ := showReference?_eq_some_iff.mp hshow
    exact hshow

/-- **Mapping can go on after every run**, whether or not it succeeds; the files stay, and every identity
still belongs to a symbol. -/
theorem Maps.kept (h : Maps memory settings files index acts result index')
    (hs : index.store.Mappable) (hfiles : ∀ file ∈ files, file ∈ index.store.files) :
    index'.store.Mappable ∧ index'.store.files = index.store.files ∧
      (index.store.Rooted → index'.store.Rooted) := by
  cases h with
  | refused _ => exact ⟨hs, rfl, id⟩
  | @run acts crew result _ _ hrun hresult =>
    cases hmemory : memory.batch settings.batchSize with
    | true =>
      have hhealthy := (Crew.healthy_start settings hs (forall_mem_filter_archive hfiles)).run hmemory hrun
      exact ⟨hhealthy.mappable, hhealthy.gathers.gains.files, hhealthy.rooted hresult⟩
    | false =>
      have hcramped := (Crew.cramped_start hs).run hmemory hrun
      exact ⟨hcramped.mappable, hcramped.gathers.gains.files,
        hcramped.gathers.rooted hcramped.mappable.consistent nofun⟩

end Index

end ClassAtlas
