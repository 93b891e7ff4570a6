import ClassAtlas.Proofs.ClassFile.Codec
import ClassAtlas.Proofs.Mapping.Ending
import ClassAtlas.Proofs.Mapping.Places
import ClassAtlas.Proofs.Workspace.Orderly

/-!
# What a workspace knows after mapping

A run for all files never fails on contents, in whatever order its steps come, and no run gets stuck or
goes on for ever. Afterwards the uses by a file are those that the walk over its content reports,
whatever was known before and whatever other files hold. A symbol that is declared is declared as some
content says. But a content that declares a symbol is not enough: if the symbol was declared in a file
before, then what is found before that file is forgotten does not count, and the symbol can be left
undeclared.

Two things are needed for this. There has to be memory for a batch: if there is none, the run fails. And
only top-level archives are walked over entry by entry: an entry is walked over as a file, also if it has
entries of its own.

## Main definitions

* `ClassAtlas.Store.usesFound` — the uses by a file that a run has to record.

## Main results

* `ClassAtlas.Index.references_of_maps` — every run succeeds and records exactly these uses.
* `ClassAtlas.Index.exists_brokerClosed` — a run without memory for a batch.
* `ClassAtlas.Index.exists_nested_and_closed` — what the two conditions are needed for.
* `ClassAtlas.Index.declaration?_of_maps` — what is declared after a run.
* `ClassAtlas.Index.exists_undeclared` — a declaration that is left out.
-/

set_option autoImplicit false

namespace ClassAtlas

open Bytes

/-! ### Findings by content -/

/-- What can be read starts like a class file. -/
theorem ClassFile.hasMagic_of_decode {bytes : List UInt8} {c : ClassFile} (h : decode bytes = .ok c) :
    hasMagic bytes = true := by
  simp only [decode, Except.bind_eq_ok_iff, Reader.complete_eq_ok_iff] at h
  obtain ⟨_, h, -⟩ := h
  simp only [read, Reader.bind_eq_ok_iff, Reader.slice_eq_ok_iff] at h
  obtain ⟨start, _, ⟨hlength, rfl⟩, h⟩ := h
  split_ifs at h with hm
  · exact absurd h Reader.fail_ne_ok
  · rw [hasMagic, ← hlength, List.take_left, not_not.mp hm]
    rfl

/-- What is found in a file is what the walk over its class reports. -/
theorem FileRow.findings_eq (file : FileRow) : file.findings.1 =
    if file.isDirectory then [] else
      match ClassFile.decode file.bytes with
      | .ok c => (c.visit file.id).events
      | .error _ => [] := by
  rw [findings]
  cases file.isDirectory with
  | true => rfl
  | false =>
    rw [Bool.false_or, if_neg Bool.false_ne_true]
    cases hdecode : ClassFile.decode file.bytes with
    | error cause => split_ifs <;> rfl
    | ok c =>
      have hne : ¬file.content.all Content.isEmpty = true := fun hempty => by
        rw [bytes_eq_nil hempty] at hdecode
        cases hdecode
      rw [if_neg hne, ClassFile.hasMagic_of_decode hdecode]
      rfl

/-- The use that an event reports. -/
def Event.reference? : Event → Option Reference
  | .reference value => some value
  | .identifier _ | .symbol _ => none

namespace Store

variable {s s' : Store} {file top f : FileRow} {t : Identity}

/-- The uses by a file that a run has to record: those that the walk over its class reports, up to the
fault if it has one. There are none if the file is a directory or cannot be read as a class, and none by
a top-level archive that has entries. -/
def usesFound (store : Store) (file : FileRow) : List Reference :=
  if file.archive = none ∧ store.entriesOf file.id ≠ [] ∨ file.isDirectory then []
  else
    match ClassFile.decode file.bytes with
    | .ok c => (c.visit file.id).events.filterMap Event.reference?
    | .error _ => []

/-- A list of lists, all of them empty but one. -/
theorem flatMap_eq_of_forall {α β : Type} {g : α → List β} {as : List α} {a : α} (hn : as.Nodup)
    (ha : a ∈ as) (h : ∀ other ∈ as, other ≠ a → g other = []) : as.flatMap g = g a := by
  obtain ⟨before, after, rfl⟩ := List.append_of_mem ha
  rw [List.nodup_middle, List.nodup_cons, List.mem_append, not_or] at hn
  have hnone {part : List α} (hsub : part ⊆ before ++ a :: after) (hp : a ∉ part) :
      part.flatMap g = [] :=
    List.flatMap_eq_nil_iff.mpr fun other ho => h other (hsub ho) fun he => hp (he ▸ ho)
  rw [List.flatMap_append, List.flatMap_cons, hnone (List.subset_append_left _ _) hn.1.1,
    hnone (fun x hx => by simp [hx]) hn.1.2, List.nil_append, List.append_nil]

/-- The uses by a file among the findings in a file. -/
theorem filterMap_useIn?_findings (f : FileRow) (id : RowId) :
    f.findings.1.filterMap (Event.useIn? id) =
      if f.id = id then f.findings.1.filterMap Event.reference? else [] := by
  have hfile {value : Reference} (hv : .reference value ∈ f.findings.1) : value.file = f.id :=
    (f.resolvable_findings.follows hv).file?_eq _ rfl
  split
  · rename_i he
    refine List.filterMap_congr fun event hevent => ?_
    cases event with
    | reference value => exact if_pos ((hfile hevent).trans he)
    | identifier identity => rfl
    | symbol value => rfl
  · rename_i hne
    exact filterMap_useIn?_findings_eq_nil hne

/-- A job walks over the entries of its file, or over the file if it has none. -/
theorem mem_walkedFor_iff :
    f ∈ s.walkedFor top ↔ s.entriesOf top.id = [] ∧ f = top ∨ f ∈ s.entriesOf top.id := by
  rw [walkedFor]
  cases h : s.entriesOf top.id <;> simp

/-- The files of a job are its file and the entries of that. -/
theorem eq_or_mem_of_forgets (hc : s.Consistent) (htop : top ∈ s.files) (hfile : file ∈ s.files)
    (h : s.Forgets top file.id) : file = top ∨ file ∈ s.entriesOf top.id := by
  obtain ⟨other, ho, he⟩ := List.mem_map.mp h
  have hmem : other ∈ s.files := by
    rcases List.mem_cons.mp ho with rfl | ho
    · exact htop
    · exact (mem_entriesOf.mp ho).1
  rw [← List.inj_on_of_nodup_map hc.files.ids hmem hfile he]
  exact List.mem_cons.mp ho

/-- What a job finds in one of its files. -/
theorem filterMap_found (hc : s.Consistent) (htop : top ∈ s.files) (hnone : top.archive = none)
    (hfile : file ∈ s.files) (h : s.Forgets top file.id) :
    (s.found top).filterMap (Event.useIn? file.id) = s.usesFound file := by
  have hids : (s.walkedFor top).Nodup := by
    rw [walkedFor]
    split
    · exact List.nodup_singleton _
    · exact hc.files.ids.of_map.filter _
  have hother : ∀ other ∈ s.walkedFor top, other ≠ file →
      other.findings.1.filterMap (Event.useIn? file.id) = [] := by
    intro other ho hne
    have hmem : other ∈ s.files := by
      rcases eq_or_of_mem_walkedFor ho with rfl | ⟨hmem, -⟩
      · exact htop
      · exact hmem
    rw [filterMap_useIn?_findings, if_neg fun he => hne ?_]
    exact List.inj_on_of_nodup_map hc.files.ids hmem hfile he
  rw [found, List.filterMap_flatMap]
  by_cases hwalked : file ∈ s.walkedFor top
  · have hplain : ¬(file.archive = none ∧ s.entriesOf file.id ≠ []) := by
      rintro ⟨hplain, hentries⟩
      rcases mem_walkedFor_iff.mp hwalked with ⟨hempty, rfl⟩ | hentry
      · exact hentries hempty
      · have harchive := (mem_entriesOf.mp hentry).2
        simp [hplain] at harchive
    rw [flatMap_eq_of_forall hids hwalked hother, filterMap_useIn?_findings, if_pos rfl,
      FileRow.findings_eq, usesFound]
    simp only [hplain, false_or]
    split
    · rfl
    · split <;> rfl
  · have harchive : file.archive = none ∧ s.entriesOf file.id ≠ [] := by
      rcases eq_or_mem_of_forgets hc htop hfile h with rfl | hentry
      · exact ⟨hnone, fun hempty => hwalked (mem_walkedFor_iff.mpr (.inl ⟨hempty, rfl⟩))⟩
      · exact absurd (mem_walkedFor_iff.mpr (.inr hentry)) hwalked
    rw [usesFound, if_pos (.inl harchive)]
    exact List.flatMap_eq_nil_iff.mpr fun other ho =>
      hother other ho fun he => hwalked (he ▸ ho)

/-- Every use by a file is shown. -/
theorem map_id_referencesIn (hc : s.Consistent) (id : RowId) :
    (s.referencesIn id).map StoredReference.id =
      (s.references.filter (·.file == id)).map ReferenceRow.id := by
  rw [referencesIn]
  have hshown : ∀ row ∈ s.references.filter (·.file == id),
      (s.showReference? row).map StoredReference.id = some row.id := by
    intro row hr
    have hr := List.mem_of_mem_filter hr
    obtain ⟨target, htarget⟩ := hc.exists_identity? (hc.references.target_mem row hr)
    obtain ⟨owner, howner⟩ := hc.exists_identity? (hc.references.owner_mem row hr)
    rw [showReference?_eq_some_iff.mpr ⟨target, owner, htarget, howner, rfl⟩]
    rfl
  rw [List.map_filterMap, List.filterMap_congr hshown, List.filterMap_eq_map']

end Store

namespace Index

open Store

variable {memory : Memory} {settings : QueueSettings} {index index' : Index} {acts : List Act}
  {report : MapReport} {t : Identity}

/-- A run for all files in the fixed order succeeds. -/
theorem exists_mapAll_eq_ok (h : index.Reachable) (hf : memory.Suffices settings)
    (hqueue : memory.queue settings.queueCapacity = true) :
    ∃ acts report, (mapAll settings index).1 = .ok report ∧
      Maps memory settings index.store.topLevelFiles index acts (.ok report) (mapAll settings index).2 := by
  have hs := h.orderly.mappable
  obtain ⟨acts, hmaps⟩ := maps_mapAll hs.consistent hqueue hf.memory
  have hok := hmaps.eq_ok hs (fun _ hfile => (mem_topLevelFiles.mp hfile).1)
    (QueueSettings.validate_eq_ok_iff.mpr ⟨hf.capacity, hf.batchSize⟩) hf.memory
  exact ⟨acts, _, hok, hok ▸ hmaps⟩

/-- There is memory for the sizes that are set by default. -/
theorem suffices_standard : Memory.ample.Suffices .standard :=
  ⟨by decide, by decide, rfl⟩

/-- **Every run succeeds and records exactly what it walks over**, in whatever order its steps come. The
sizes have to be allowed, and there has to be memory for the queue and for a batch. Then there is a run
that succeeds; no run gets stuck or goes on for ever; and whenever a run is done, it has succeeded,
whatever the files hold. Afterwards the uses by every top-level file and by every entry of one are those
that the walk over its content reports, in order; the numbers of their rows ascend.

**Proof sketch.** Every job forgets what was found in its files, walks over them and sends the findings,
with every identity announced before it is used, by whichever of its walkers. The messages of a job stay
in order, however they are cut into batches and whatever other jobs send in between. So no slice is
refused, and the findings in a file come in the order of the walk. Other jobs forget and find nothing in
these files. -/
theorem references_of_maps (h : index.Reachable) (hcapacity : 1 ≤ settings.queueCapacity)
    (hbatch : 1 ≤ settings.batchSize) (hqueue : memory.queue settings.queueCapacity = true)
    (hmemory : memory.batch settings.batchSize = true) :
    (∃ acts report index', Maps memory settings index.store.topLevelFiles index acts (.ok report) index') ∧
    (∃ bound, ∀ acts crew,
      (Crew.start index index.store.topLevelFiles).Run memory settings acts crew →
        acts.length ≤ bound ∧
          (crew.result? = none → ∃ act crew', crew.Step memory settings act crew')) ∧
    ∀ acts result index', Maps memory settings index.store.topLevelFiles index acts result index' →
      (∃ report, result = .ok report) ∧ index'.store.files = index.store.files ∧
        ∀ file ∈ index.store.files, (file.archive = none ∨
            ∃ top ∈ index.store.files, top.archive = none ∧ file.archive = some top.id) →
          ((index'.store.referencesIn file.id).map StoredReference.id).Pairwise (· < ·) ∧
          (index'.store.referencesIn file.id).map StoredReference.id =
            (index'.store.references.filter (·.file == file.id)).map ReferenceRow.id ∧
          (index'.store.referencesIn file.id).map StoredReference.reference =
            index.store.usesFound file := by
  have hs := h.orderly.mappable
  have hthere : ∀ file ∈ index.store.topLevelFiles, file ∈ index.store.files ∧ file.archive = none :=
    fun file hfile => mem_topLevelFiles.mp hfile
  have hfiles : ∀ file ∈ index.store.topLevelFiles, file ∈ index.store.files :=
    fun file hfile => (hthere file hfile).1
  have hf : memory.Suffices settings := ⟨hcapacity, hbatch, hmemory⟩
  refine ⟨?_, exists_bound hs hthere hf, fun acts result index' hmaps => ?_⟩
  · obtain ⟨acts, report, -, hmaps⟩ := exists_mapAll_eq_ok h hf hqueue
    exact ⟨acts, report, _, hmaps⟩
  · have hsettings := QueueSettings.validate_eq_ok_iff.mpr ⟨hcapacity, hbatch⟩
    obtain ⟨report, rfl⟩ : ∃ report, result = .ok report :=
      ⟨_, hmaps.eq_ok hs hfiles hsettings hmemory⟩
    have hremapped := (hmaps.remapped hs hfiles hs.consistent.nodup_topLevelFiles).2
    rw [filter_topLevelFiles] at hremapped
    have hs' := hremapped.mappable
    refine ⟨⟨report, rfl⟩, hremapped.files, fun file hfile harchive => ⟨?_, ?_, ?_⟩⟩
    · rw [map_id_referencesIn hs'.consistent]
      exact hs'.ascending.sublist (List.filter_sublist.map _)
    · exact map_id_referencesIn hs'.consistent file.id
    · obtain ⟨top, htop, hnone, hforgets⟩ := isHome_iff.mpr ⟨file, hfile, rfl, harchive⟩
      exact (hremapped.uses top (mem_topLevelFiles.mpr ⟨htop, hnone⟩) file.id hforgets).trans
        (filterMap_found hs.consistent htop hnone hfile hforgets)

/-- The workspace into which the file of `A` was imported. -/
def selfTakingImport : Index :=
  (importFile "A.class" (.bytes selfTaking.encode) empty).2

/-- Every run over the file of `A` succeeds and records that it holds the class and that the method takes
an `A`. -/
theorem references_of_maps_selfTaking :
    (∃ acts report index',
      Maps .ample .standard selfTakingImport.store.topLevelFiles selfTakingImport acts (.ok report) index') ∧
    ∀ acts result index',
      Maps .ample .standard selfTakingImport.store.topLevelFiles selfTakingImport acts result index' →
      (∃ report, result = .ok report) ∧ (index'.store.referencesIn 1).map StoredReference.reference =
        [⟨.classFile, 1, ⟨"A"⟩, ⟨"A"⟩, none⟩, ⟨.parameterType, 1, ⟨"A"⟩, ⟨"A::m(LA;)V"⟩, none⟩] := by
  obtain ⟨hexists, -, hall⟩ :=
    references_of_maps (.importFile "A.class" (.bytes selfTaking.encode) .empty)
      (show 1 ≤ QueueSettings.standard.queueCapacity by decide)
      (show 1 ≤ QueueSettings.standard.batchSize by decide)
      (show Memory.ample.queue _ = true from rfl) (show Memory.ample.batch _ = true from rfl)
  let file : FileRow := ⟨1, "A.class", "A.class", none, false, some (.bytes selfTaking.encode)⟩
  have hfile : file ∈ selfTakingImport.store.files := by decide +kernel
  have hfound : selfTakingImport.store.usesFound file =
      [⟨.classFile, 1, ⟨"A"⟩, ⟨"A"⟩, none⟩, ⟨.parameterType, 1, ⟨"A"⟩, ⟨"A::m(LA;)V"⟩, none⟩] := by
    decide +kernel
  refine ⟨hexists, fun acts result index' hmaps => ?_⟩
  obtain ⟨hok, -, hfiles⟩ := hall acts result index' hmaps
  exact ⟨hok, (hfiles file hfile (.inl rfl)).2.2.trans hfound⟩

/-- A workspace in which an entry of an archive has entries of its own: it was an archive for a while,
and now it holds a class. -/
def nestedImport : Index :=
  (importFile "a.jar" (.packed [⟨"x.jar", selfTaking.encode⟩])
    (importFile "a.jar/x.jar" (.packed [⟨"y", []⟩])
      (importFile "a.jar" (.packed [⟨"x.jar", selfTaking.encode⟩]) empty).2).2).2

theorem reachable_nestedImport : nestedImport.Reachable :=
  .importFile _ _ (.importFile _ _ (.importFile _ _ .empty))

/-- A workspace with an empty file. -/
def emptyImport : Index :=
  (importFile "a" (.bytes []) empty).2

/-- Memory for less than `2 ^ 63` bytes in a piece; a message takes at least eight, for the number of its
job. -/
def addressableMemory : Memory :=
  ⟨fun size => decide (8 * size < 2 ^ 63), fun size => decide (8 * size < 2 ^ 63)⟩

/-- **A run without memory for a batch fails.** The only job forgets, walks over its empty file and sends
its flush; the consumer ends when it is about to take that, and the flush is never answered. -/
theorem exists_brokerClosed : ∃ acts index',
    Maps addressableMemory ⟨1, 2 ^ 60⟩ emptyImport.store.topLevelFiles emptyImport acts
      (.error .brokerClosed) index' := by
  let file : FileRow := ⟨1, "a", "a", none, false, some (.bytes [])⟩
  have hfiles : emptyImport.store.files.filter (·.archive.isNone) = [file] := by decide +kernel
  have htop : emptyImport.store.topLevelFiles = [file] := by
    rw [topLevelFiles, hfiles, byPath]
    cbv
  have hwalked : emptyImport.store.walkedFor file = [file] := by decide +kernel
  have hreachable : emptyImport.Reachable := .importFile _ _ .empty
  obtain ⟨index', hprepared, hs', -, hgains⟩ := exists_prepare hreachable.orderly.mappable file
  rw [hwalked] at hprepared
  have hread : index'.store.requireFile file.id = .ok file := by
    refine hs'.consistent.requireFile_eq_ok ?_
    rw [hgains.files]
    exact List.mem_of_mem_filter (hfiles ▸ List.mem_singleton_self file)
  let report := (Job.start file.name).reportOf [.reading file file.content]
  let prepared := (Crew.start emptyImport [file]).worked [] [] ⟨1, file, .waiting⟩ index' []
    (.prepared [file])
  let walking := prepared.worked [] [] ⟨1, file, .prepared [file]⟩ index' []
    (.walking (Job.start file.name) none [.unread file])
  let walked := walking.worked [] [] ⟨1, file, .walking (Job.start file.name) none [.unread file]⟩ index' []
    (.walking (Job.start file.name) none [.reading file file.content])
  let flushed := walked.worked [] []
    ⟨1, file, .walking (Job.start file.name) none [.reading file file.content]⟩ index' [.flush 1]
    (.flushing report)
  let closed : Crew := { flushed with queue := [], isOpen := false }
  have hprepare : (Crew.start emptyImport [file]).Step addressableMemory ⟨1, 2 ^ 60⟩ (.prepared 1 file)
      prepared := .work rfl (.prepare hprepared)
  have hwalk : prepared.Step addressableMemory ⟨1, 2 ^ 60⟩ .quiet walking := .work rfl .walk
  have hreading : walking.Step addressableMemory ⟨1, 2 ^ 60⟩ .quiet walked :=
    .work rfl (show Stage.Step ⟨1, 2 ^ 60⟩ walking 1 file
      (.walking (Job.start file.name) none ([] ++ .unread file :: [])) .quiet index' []
      (.walking (Job.start file.name) none ([] ++ .reading file file.content :: [])) from .read hread)
  have hflush : walked.Step addressableMemory ⟨1, 2 ^ 60⟩ .quiet flushed :=
    .work rfl (.flush (by decide +kernel) ⟨rfl, Nat.one_pos⟩)
  have hclose : flushed.Step addressableMemory ⟨1, 2 ^ 60⟩ .quiet closed :=
    .close rfl rfl rfl (List.cons_ne_nil _ _) (by decide)
  have habandon : closed.Step addressableMemory ⟨1, 2 ^ 60⟩ .quiet
      (closed.worked [] [] ⟨1, file, .flushing report⟩ index' [] (.ended (.error .brokerClosed))) :=
    .work rfl (.abandon rfl rfl)
  have hrun := ((((((Crew.Run.refl.step hprepare).step hwalk).step hreading).step hflush).step
    hclose).step habandon)
  rw [htop]
  exact ⟨_, _, .run rfl (by decide) hrun rfl⟩

/-- **What is needed besides sizes that are allowed.** An entry that has entries is an archive, but only
top-level archives are walked over entry by entry, so the uses by its own content are recorded. And a run
without memory for a batch fails. -/
theorem exists_nested_and_closed :
    (∃ acts report index' file, nestedImport.Reachable ∧
      Maps .ample .standard nestedImport.store.topLevelFiles nestedImport acts (.ok report) index' ∧
      file ∈ nestedImport.store.files ∧ file.archive = some 1 ∧
      (∃ top ∈ nestedImport.store.files, top.id = 1 ∧ top.archive = none) ∧
      nestedImport.store.entriesOf file.id ≠ [] ∧ index'.store.referencesIn file.id ≠ []) ∧
    ∃ (settings : QueueSettings) (acts : List Act) (index' : Index), emptyImport.Reachable ∧
      1 ≤ settings.queueCapacity ∧ 1 ≤ settings.batchSize ∧
      Maps addressableMemory settings emptyImport.store.topLevelFiles emptyImport acts
        (.error .brokerClosed) index' := by
  obtain ⟨acts, index', hclosed⟩ := exists_brokerClosed
  refine ⟨?_, ⟨1, 2 ^ 60⟩, acts, index', .importFile _ _ .empty, by decide, by decide, hclosed⟩
  have hrecorded : (mapAll .standard nestedImport).2.store.referencesIn 2 ≠ [] := by decide +kernel
  have htop : ∃ top ∈ nestedImport.store.files, top.id = 1 ∧ top.archive = none := by decide +kernel
  let file : FileRow := ⟨2, "a.jar/x.jar", "x.jar", some 1, false, some (.bytes selfTaking.encode)⟩
  have hfile : file ∈ nestedImport.store.files := by decide +kernel
  obtain ⟨acts, report, -, hmaps⟩ :=
    exists_mapAll_eq_ok reachable_nestedImport suffices_standard rfl
  exact ⟨acts, report, _, file, reachable_nestedImport, hmaps, hfile, rfl, htop, by decide +kernel,
    hrecorded⟩

/-! ### Declarations -/

/-- **What is declared after a run**, in whatever order its steps came.

* A symbol is declared if and only if some content declares it and, if the symbol was declared before,
  that was stored after the file that declared it was forgotten.
* The declaration is one of those that the contents have.
* A content counts whatever the order if the symbol was not declared before, or in a file that is
  forgotten by the same job.

**Proof sketch.** The first declaration that is stored counts while none is known, and what is known is
forgotten by the job of its file only. -/
theorem declaration?_of_maps (h : index.Reachable)
    (hmaps : Maps memory settings index.store.topLevelFiles index acts (.ok report) index')
    (t : Identity) :
    ((index'.store.declaration? t).isSome ↔ ∃ top ∈ index.store.topLevelFiles,
      ∃ file ∈ index.store.walkedFor top, ∃ event ∈ file.findings.1, (event.declares? t).isSome ∧
        ∀ d, index.store.declaration? t = some d →
          ∃ later, index.store.sinceForgotten? d.file acts = some later ∧ event ∈ storedIn later) ∧
    (∀ d, index'.store.declaration? t = some d → ∃ top ∈ index.store.topLevelFiles,
      ∃ file ∈ index.store.walkedFor top, file.id = d.file ∧
        ∃ event ∈ file.findings.1, event.declares? t = some d) ∧
    ∀ top ∈ index.store.topLevelFiles, ∀ file ∈ index.store.walkedFor top,
      (∃ event ∈ file.findings.1, (event.declares? t).isSome) →
      (∀ d, index.store.declaration? t = some d → index.store.Forgets top d.file) →
        (index'.store.declaration? t).isSome := by
  have hs := h.orderly.mappable
  have hremapped := (hmaps.remapped hs (fun _ hfile => (mem_topLevelFiles.mp hfile).1)
    hs.consistent.nodup_topLevelFiles).2
  rw [filter_topLevelFiles] at hremapped
  have hforgotten : ∀ d, index.store.declaration? t = some d →
      ∃ top ∈ index.store.topLevelFiles, index.store.Forgets top d.file := by
    intro d hd
    obtain ⟨row, hr, -, hdeclaration⟩ := hs.consistent.declaration?_eq_some_iff.mp hd
    obtain ⟨file, hfile, rfl⟩ := Option.map_eq_some_iff.mp hdeclaration
    obtain ⟨top, htop, hnone, hforgets⟩ := hs.homes row hr file hfile
    exact ⟨top, mem_topLevelFiles.mpr ⟨htop, hnone⟩, hforgets⟩
  obtain ⟨counting, hdeclared, hsub, hcounts⟩ := hremapped.exists_counting hforgotten
  have hiff : (index'.store.declaration? t).isSome ↔ ∃ top ∈ index.store.topLevelFiles,
      ∃ file ∈ index.store.walkedFor top, ∃ event ∈ file.findings.1, (event.declares? t).isSome ∧
        ∀ d, index.store.declaration? t = some d →
          ∃ later, index.store.sinceForgotten? d.file acts = some later ∧ event ∈ storedIn later := by
    rw [hdeclared, List.findSome?_isSome_iff]
    constructor
    · rintro ⟨event, he, hdeclares⟩
      obtain ⟨d, hd⟩ := Option.isSome_iff_exists.mp hdeclares
      obtain ⟨top, htop, file, hfile, hevent, -⟩ := hremapped.exists_found (hsub he) hd
      exact ⟨top, htop, file, hfile, event, hevent, hdeclares, (hcounts event (hsub he)).mp he⟩
    · rintro ⟨top, htop, file, hfile, event, hevent, hdeclares, hsince⟩
      obtain ⟨d, hd⟩ := Option.isSome_iff_exists.mp hdeclares
      have hstored := (hremapped.stored event (Event.announced?_of_declares hd)).mpr
        ⟨top, htop, List.mem_flatMap.mpr ⟨file, hfile, hevent⟩⟩
      exact ⟨event, (hcounts event hstored).mpr hsince, hdeclares⟩
  refine ⟨hiff, fun d hd => ?_, fun top htop file hfile hdeclares hown => ?_⟩
  · rw [hdeclared] at hd
    obtain ⟨event, he, hd⟩ := List.exists_of_findSome?_eq_some hd
    obtain ⟨top, htop, file, hfile, hevent, hid⟩ := hremapped.exists_found (hsub he) hd
    exact ⟨top, htop, file, hfile, hid, event, hevent, hd⟩
  · obtain ⟨event, hevent, hdeclares⟩ := hdeclares
    refine hiff.mpr ⟨top, htop, file, hfile, event, hevent, hdeclares, fun d hd => ?_⟩
    obtain ⟨later, hlater, hfound⟩ := hremapped.since top htop d.file (hown d hd)
    exact ⟨later, hlater, hfound (List.mem_flatMap.mpr ⟨file, hfile, hevent⟩)⟩

/-- A workspace in which a file declared `A`, and now it declares `B` instead. -/
def replacedImport : Index :=
  (importFile "b.class" (.bytes (bareClass "B").encode)
    (mapAll .standard (importFile "b.class" (.bytes (bareClass "A").encode) empty).2).2).2

theorem reachable_replacedImport : replacedImport.Reachable :=
  .importFile _ _ (.mapAll _ (.importFile _ _ .empty))

/-- Mapping the file again takes the declaration of `A` back and declares `B`, in whatever order the
steps come. -/
theorem declaration?_of_maps_replaced :
    (replacedImport.store.declaration? ⟨"A"⟩).isSome ∧
      (∃ acts report index', Maps .ample .standard replacedImport.store.topLevelFiles replacedImport acts
        (.ok report) index') ∧
      ∀ acts report index', Maps .ample .standard replacedImport.store.topLevelFiles replacedImport acts
          (.ok report) index' →
        index'.store.declaration? ⟨"A"⟩ = none ∧ (index'.store.declaration? ⟨"B"⟩).isSome := by
  let file : FileRow := ⟨1, "b.class", "b.class", none, false, some (.bytes (bareClass "B").encode)⟩
  have hfiles : replacedImport.store.files = [file] := by decide +kernel
  have hwalked : replacedImport.store.walkedFor file = [file] := by decide +kernel
  have hmem {top : FileRow} (htop : top ∈ replacedImport.store.topLevelFiles) : top = file := by
    have hmem := (mem_topLevelFiles.mp htop).1
    rw [hfiles] at hmem
    exact List.mem_singleton.mp hmem
  have htop : file ∈ replacedImport.store.topLevelFiles :=
    mem_topLevelFiles.mpr ⟨hfiles ▸ List.mem_singleton_self file, rfl⟩
  refine ⟨by decide +kernel, ?_, fun acts report index' hmaps => ?_⟩
  · obtain ⟨acts, report, -, hmaps⟩ :=
      exists_mapAll_eq_ok reachable_replacedImport suffices_standard rfl
    exact ⟨acts, report, _, hmaps⟩
  · obtain ⟨-, hdeclared, -⟩ := declaration?_of_maps reachable_replacedImport hmaps ⟨"A"⟩
    obtain ⟨-, -, hcounts⟩ := declaration?_of_maps reachable_replacedImport hmaps ⟨"B"⟩
    have hnone : ∀ event ∈ file.findings.1, event.declares? ⟨"A"⟩ = none := by decide +kernel
    have hnew : replacedImport.store.declaration? ⟨"B"⟩ = none := by decide +kernel
    refine ⟨Option.eq_none_iff_forall_ne_some.mpr fun d hd => ?_, hcounts file htop file ?_ ?_ ?_⟩
    · obtain ⟨top, htop, f, hf, -, event, hevent, hdeclares⟩ := hdeclared d hd
      rw [hmem htop, hwalked, List.mem_singleton] at hf
      rw [hnone event (hf ▸ hevent)] at hdeclares
      cases hdeclares
    · exact hwalked ▸ List.mem_singleton_self file
    · decide +kernel
    · intro d hd
      rw [hnew] at hd
      cases hd

/-- A workspace in which `A` was declared in one file, and now another one, whose path comes first,
declares it instead. -/
def movedImport : Index :=
  (importFile "b.class" (.bytes (bareClass "B").encode)
    (importFile "a.class" (.bytes (bareClass "A").encode)
      (mapAll .standard (importFile "b.class" (.bytes (bareClass "A").encode) empty).2).2).2).2

theorem reachable_movedImport : movedImport.Reachable :=
  .importFile _ _ (.importFile _ _ (.mapAll _ (.importFile _ _ .empty)))

/-- **A declaration that is left out.** A run succeeds and the file `a.class` declares `A`, but `A` is
not declared afterwards: in the order of this run what the job of `a.class` finds is stored while
`b.class` still counts as the file of `A`, and then the job of `b.class` forgets that. -/
theorem exists_undeclared : ∃ acts report index' file, movedImport.Reachable ∧
    mapAll .standard movedImport = (.ok report, index') ∧
    Maps .ample .standard movedImport.store.topLevelFiles movedImport acts (.ok report) index' ∧
      file ∈ movedImport.store.files ∧ file.archive = none ∧
      (∃ event ∈ file.findings.1, event.declares? ⟨"A"⟩ = some ⟨file.id, 0, none⟩) ∧
      index'.store.declaration? ⟨"A"⟩ = none := by
  let fileA : FileRow := ⟨2, "a.class", "a.class", none, false, some (.bytes (bareClass "A").encode)⟩
  let fileB : FileRow := ⟨1, "b.class", "b.class", none, false, some (.bytes (bareClass "B").encode)⟩
  have hfiles : movedImport.store.files.filter (·.archive.isNone) = [fileB, fileA] := by
    decide +kernel
  have hsorted : movedImport.store.topLevelFiles = [fileA, fileB] := by
    rw [topLevelFiles, hfiles, byPath]
    cbv
  have hmap : mapAll .standard movedImport = mapRows .standard [fileA, fileB] movedImport := by
    rw [← hsorted]
    rfl
  have hnone : (mapRows .standard [fileA, fileB] movedImport).2.store.declaration? ⟨"A"⟩ = none := by
    decide +kernel
  have hfile : fileA ∈ movedImport.store.files := by decide +kernel
  rw [← hmap] at hnone
  obtain ⟨acts, report, hreport, hmaps⟩ :=
    exists_mapAll_eq_ok reachable_movedImport suffices_standard rfl
  exact ⟨acts, report, _, fileA, reachable_movedImport, Prod.ext hreport rfl, hmaps, hfile, rfl,
    by decide +kernel, hnone⟩

end Index

end ClassAtlas
