import ClassAtlas.Proofs.Renaming.Again
import ClassAtlas.Proofs.Workspace.Orderly
import ClassAtlas.Proofs.Workspace.Reached

/-!
# Class files after a rename

After a mapping run that skipped nothing, a rename edits every class file that names the renamed symbol
at a place that mapping covers, and the files that declare what moves. An edited class file has nothing
left to rename, and one that had nothing to rename stays so. A class file that names a method as nothing but a bootstrap method is not edited: what
a bootstrap method is called with is mapped, and the bootstrap method is not.

## Main results

* `ClassAtlas.RenamePlan.lasting` — the renamings that are planned last.
* `ClassAtlas.RenamePlan.apply_of_commit` — nothing is left to rename in the files that a plan reaches.
* `ClassAtlas.RenamePlan.apply_of_describes` — nothing comes up in a file without anything to rename.
* `ClassAtlas.Index.rename_complete` — a rename after a mapping run.
* `ClassAtlas.Index.exists_rename_bootstrapped` — bootstrap methods keep their old name.
-/

set_option autoImplicit false

namespace ClassAtlas

/-! ### Planned renamings -/

namespace RenamePlan

open Store

variable {s s' : Store} {identity : Identity} {newName : String} {plan : RenamePlan}
  {revisions : List (FileRow × List UInt8)} {outcome : RenameOutcome} {file : FileRow}

/-- The renamings that are planned last, unless a class gets a name that a signature cuts or a member
gets its own name. -/
theorem lasting (hs : s.Sound) (hplan : s.planRename identity newName = .ok plan)
    (hclass : ∀ r, plan.edit = .ofClass r → '<' ∉ r.new.toList)
    (hmember : ∀ r, plan.edit = .ofMember r → r.name ≠ r.newName) : plan.edit.Lasting := by
  cases hedit : plan.edit with
  | ofMember r => exact hmember r hedit
  | ofClass r =>
    obtain ⟨hplans, hlegal⟩ := plansClass_of_edit hs hplan hedit
    refine ⟨hplans.proper.ne, fun c hc hmark => ?_⟩
    simp only [List.mem_cons, List.not_mem_nil, or_false] at hmark
    rcases hmark with rfl | rfl | rfl | rfl
    · exact hplans.proper.semicolon hc
    · exact ClassName.notMem_of_isLegal hlegal (.inr rfl) hc
    · exact hclass r hedit hc
    · exact hplans.proper.dot_notMem hc

/-- Every file that a plan reaches is revised: its new content is listed if there is one. -/
theorem exists_of_mem_files (hs : s.Consistent) (hrevisions : plan.revisions s = .ok revisions)
    (hfile : file ∈ s.files) (hmem : file.id ∈ plan.files s) :
    ∃ old result, classBytes file = .ok old ∧ reviseBytes old [plan.edit] = .ok result ∧
      ∀ new, result = some new → (file, new) ∈ revisions := by
  obtain ⟨results, hresults, he⟩ := Except.bind_eq_ok_iff.mp hrevisions
  cases he
  obtain ⟨revised, hrevised, hid⟩ := Except.exists_of_forall₂ (Except.mapM_eq_ok_iff.mp hresults) hmem
  obtain ⟨found, hfound, hrevise⟩ := Except.bind_eq_ok_iff.mp hid
  have hrow : s.file? file.id = some file := (find?_key_eq_some_iff hs.files.ids).mpr ⟨hfile, rfl⟩
  obtain rfl := Option.some.inj (hrow.symm.trans (requireFile_eq_ok_iff.mp hfound))
  split at hrevise
  · rename_i content hcontent
    obtain ⟨old, hold, hresult⟩ := Except.bind_eq_ok_iff.mp hcontent
    refine ⟨old, content, hold, hresult, fun new hnew => ?_⟩
    refine List.mem_filterMap.mpr ⟨revised, hrevised, ?_⟩
    rw [← Except.ok.inj hrevise, hnew]
    rfl
  · cases hrevise

/-- The bytes of which a class is read are those of the file. -/
theorem bytes_of_classBytes {bytes : List UInt8} (h : classBytes file = .ok bytes) :
    file.bytes = bytes := by
  rw [classBytes] at h
  rw [FileRow.bytes]
  split at h
  · rename_i hcontent
    rw [hcontent, ← Except.ok.inj h]
    rfl
  · rename_i value hcontent
    rw [hcontent, ← Except.ok.inj h]
    rfl
  · cases h

/-- **Nothing is left to rename in the files that a plan reaches.** Such a file was edited, and then it
has nothing left to rename, or there was nothing to rename before. -/
theorem apply_of_commit (hs : s.Consistent) (hplan : s.planRename identity newName = .ok plan)
    (hlasting : plan.edit.Lasting) (hrevisions : plan.revisions s = .ok revisions)
    {numbers : List RowId} (h : plan.commit revisions s = .ok ((outcome, numbers), s'))
    (hfile : file ∈ s.files) (hmem : file.id ∈ plan.files s) :
    ∃ file' ∈ s'.files, file'.id = file.id ∧
      ∃ c, ClassFile.decode file'.bytes = .ok c ∧ (plan.edit.apply c).1 = .ok false := by
  have hd := describes_of_commit hs hplan hrevisions h
  have hlisted : outcome.revisedFiles = revisions.map (·.1.path) := by
    obtain ⟨_, _, _, _, -, -, -, -, rfl⟩ := exists_of_commit h
    rfl
  obtain ⟨old, result, hold, hresult, hnew⟩ := exists_of_mem_files hs hrevisions hfile hmem
  obtain ⟨file', hfile', hrevised⟩ := Except.exists_of_forall₂ hd.files hfile
  refine ⟨file', hfile', hrevised.id, ?_⟩
  by_cases hpath : file.path ∈ outcome.revisedFiles
  · obtain ⟨_, new, -, hnew, hcontent⟩ := hrevised.revised hpath
    have hbytes : file'.bytes = new := by
      rw [FileRow.bytes, hcontent]
      rfl
    rw [hbytes]
    exact Renaming.apply_again hlasting hnew
  · have hnone : result = none := by
      refine Option.eq_none_iff_forall_ne_some.mpr fun new he => hpath ?_
      rw [hlisted]
      exact List.mem_map.mpr ⟨_, hnew new he, rfl⟩
    have hbytes : file'.bytes = old := by
      rw [FileRow.bytes, hrevised.kept hpath]
      exact bytes_of_classBytes hold
    rw [hbytes]
    obtain ⟨c, changed, after, hdecode, happly, ⟨rfl, -⟩ | ⟨-, _, _, _, -, -, hsome⟩⟩ :=
      reviseBytes_single_eq_ok_iff.mp hresult
    · exact ⟨c, hdecode, by rw [happly]⟩
    · rw [hnone] at hsome
      cases hsome

/-- **A file without anything to rename keeps its content**, so nothing comes up in it. -/
theorem apply_of_describes (hd : outcome.Describes plan s s') {c : ClassFile} (hfile : file ∈ s.files)
    (hdecode : ClassFile.decode file.bytes = .ok c) (hidle : (plan.edit.apply c).1 = .ok false) :
    ∃ file' ∈ s'.files, file'.id = file.id ∧
      ∃ c', ClassFile.decode file'.bytes = .ok c' ∧ (plan.edit.apply c').1 = .ok false := by
  obtain ⟨file', hfile', hrevised⟩ := Except.exists_of_forall₂ hd.files hfile
  have hkept : file.path ∉ outcome.revisedFiles := by
    intro hpath
    obtain ⟨old, new, hold, hnew, -⟩ := hrevised.revised hpath
    obtain ⟨c', changed, after, hdecode', happly, ⟨-, hnone⟩ | ⟨rfl, -⟩⟩ :=
      reviseBytes_single_eq_ok_iff.mp hnew
    · cases hnone
    · obtain rfl := Except.ok.inj ((bytes_of_classBytes hold ▸ hdecode).symm.trans hdecode')
      rw [happly] at hidle
      cases hidle
  refine ⟨file', hfile', hrevised.id, c, ?_, hidle⟩
  rw [FileRow.bytes, hrevised.kept hkept]
  exact hdecode

end RenamePlan

/-! ### Renames after mapping -/

/-- A file over which a run walks is a file of the store. -/
theorem Store.IsWalked.mem {s : Store} {file : FileRow} (h : s.IsWalked file) : file ∈ s.files := by
  obtain ⟨-, top, htop, hmem⟩ := h
  exact mem_of_mem_walkedFor (mem_topLevelFiles.mp htop).1 hmem

namespace Index

variable {memory : Memory} {settings : QueueSettings} {index mapped index' : Index} {acts : List Act}
  {report : MapReport} {identity : Identity} {newName : String} {plan : RenamePlan} {outcome : RenameOutcome}

/-- **A rename after a mapping run that skipped nothing leaves nothing to rename** in the class files
that name the renamed symbol at a place that mapping covers, or that declare what moves with it, or that
had nothing to rename before. The steps of the mapping run may come in any order.

**Proof sketch.** The mapping run recorded what it found in the file. So the plan finds the file among
the uses or the declarations of the symbols that move, and the rename revises it. What it revised has
nothing left to rename. -/
theorem rename_complete (h : index.Reachable)
    (hmap : Maps memory settings index.store.topLevelFiles index acts (.ok report) mapped)
    (hskipped : report.filesSkipped = 0)
    (hplan : mapped.store.planRename identity newName = .ok plan)
    (hclass : ∀ r, plan.edit = .ofClass r → '<' ∉ r.new.toList)
    (hmember : ∀ r, plan.edit = .ofMember r → r.name ≠ r.newName)
    (hrun : rename identity newName mapped = (.ok outcome, index')) {file : FileRow} {c : ClassFile}
    (hfile : mapped.store.IsWalked file) (hdecode : ClassFile.decode file.bytes = .ok c)
    (hnames : c.Names identity plan.edit ∨ mapped.store.Declares file.id identity plan.edit ∨
      (plan.edit.apply c).1 = .ok false) :
    ∃ file' ∈ index'.store.files, file'.id = file.id ∧
      ∃ c', ClassFile.decode file'.bytes = .ok c' ∧ (plan.edit.apply c').1 = .ok false := by
  have hs : mapped.store.Sound := hmap.sound h.sound
  have hmappable := h.orderly.mappable
  have hthere : ∀ f ∈ index.store.topLevelFiles, f ∈ index.store.files := fun f hf =>
    (Store.mem_topLevelFiles.mp hf).1
  have hnodup := hmappable.consistent.nodup_topLevelFiles
  have hrecorded : file.Recorded mapped.store := by
    have hsame := (hmap.kept hmappable hthere).2.1
    obtain ⟨-, top, htop, hwalked⟩ := (Store.isWalked_congr hsame).mp hfile
    rw [← Store.filter_topLevelFiles] at htop
    exact hmap.recorded hmappable hthere hnodup hskipped htop hwalked
  obtain ⟨e, he⟩ | ⟨plan', revisions, outcome', numbers, store, hplan', hrevisions, hcommit, he⟩ :=
    rename_cases mapped identity newName
  · rw [he] at hrun
    cases hrun
  · rw [he] at hrun
    cases hrun
    obtain rfl := Except.ok.inj (hplan.symm.trans hplan')
    have hreached (hmem : file.id ∈ plan.files mapped.store) := RenamePlan.apply_of_commit hs.consistent
      hplan (RenamePlan.lasting hs hplan hclass hmember) hrevisions hcommit hfile.mem hmem
    rcases hnames with hnames | hdeclares | hidle
    · exact hreached (RenamePlan.mem_files_of_names hs hplan hrecorded hfile.1 hdecode hnames)
    · exact hreached (RenamePlan.mem_files_of_declares hs hplan hdeclares)
    · exact RenamePlan.apply_of_describes
        (RenamePlan.describes_of_commit hs.consistent hplan hrevisions hcommit) hfile.mem hdecode hidle

/-- After the rename of `A` to `B` nothing is left to rename in the class file of `A`. -/
theorem rename_complete_selfTaking : ∃ outcome index',
    rename ⟨"A"⟩ "B" selfTakingIndex = (.ok outcome, index') ∧
      ∃ file' ∈ index'.store.files, file'.id = 1 ∧ ∃ c', ClassFile.decode file'.bytes = .ok c' ∧
        ((Renaming.ofClass ⟨"A", "B"⟩).apply c').1 = .ok false := by
  obtain ⟨outcome, index', hrun⟩ := exists_rename_selfTaking
  have hreachable : (importFile "A.class" (.bytes selfTaking.encode) empty).2.Reachable :=
    .importFile _ _ .empty
  have hreport : (mapAll .standard
      (importFile "A.class" (.bytes selfTaking.encode) empty).2).1.map MapReport.filesSkipped =
        .ok 0 := by
    decide +kernel
  obtain ⟨report, hreport, hskipped⟩ := Except.map_eq_ok_iff.mp hreport
  have hmaps : ∃ acts, Maps .ample .standard _ _ acts _ _ := maps_mapAll hreachable.sound.consistent rfl rfl
  obtain ⟨acts, hmaps⟩ := hmaps
  rw [hreport] at hmaps
  let file : FileRow := ⟨1, "A.class", "A.class", none, false, some (.bytes selfTaking.encode)⟩
  have htop : file ∈ selfTakingIndex.store.topLevelFiles :=
    Store.mem_topLevelFiles.mpr (by decide +kernel)
  have hwalked : selfTakingIndex.store.IsWalked file := ⟨rfl, file, htop, by decide +kernel⟩
  have hdecode : ClassFile.decode file.bytes = .ok selfTaking := by decide +kernel
  have hnames : selfTaking.Names ⟨"A"⟩ selfTakingPlan.edit :=
    .ofClass ⟨.className, 2, ["A"], .this, by decide +kernel, List.mem_cons_self⟩ (by decide +kernel)
  refine ⟨outcome, index', hrun, rename_complete hreachable hmaps hskipped
    planRename_selfTaking (fun r hr => ?_) (fun r hr => ?_) hrun hwalked hdecode (.inl hnames)⟩
  · obtain rfl := Renaming.ofClass.inj hr
    decide +kernel
  · cases hr

/-! ### Bootstrap methods -/

/-- A class `A` with a method `b`. -/
def callee : ClassFile :=
  { ClassFile.blank with
    pool := ⟨#[none, some (.text "A"), some (.classRef 1), some (.text "b"), some (.text "()V")]⟩
    thisClass := 2
    methods := [⟨9, 3, 4, []⟩] }

/-- A class `B` with a call site whose bootstrap method is the method `b` of `A`. -/
def bootstrapped : ClassFile :=
  { ClassFile.blank with
    pool := ⟨#[none, some (.text "B"), some (.classRef 1), some (.text "A"), some (.classRef 3),
      some (.text "b"), some (.text "()V"), some (.nameAndType 5 6), some (.memberRef .method 4 7),
      some (.methodHandle 6 8), some (.invokeDynamic 0 7), some (.text "Code"),
      some (.text "BootstrapMethods"), some (.text "m")]⟩
    thisClass := 2
    methods := [⟨0, 13, 6, [⟨11, .code ⟨0, 0, [0xBA, 0, 10, 0, 0, 0xB1], [], []⟩⟩]⟩]
    attributes := [⟨12, .flat (.bootstrapMethods [⟨9, []⟩])⟩] }

/-- The workspace into which an archive with both classes was imported. -/
def bootstrappedImport : Index :=
  (importFile "a.jar"
    (.packed [⟨"A.class", callee.encode⟩, ⟨"B.class", bootstrapped.encode⟩]) empty).2

/-- That workspace after it was mapped. -/
def bootstrappedIndex : Index :=
  (mapAll .standard bootstrappedImport).2

/-- What has to change if the method `b` of `A` is renamed to `c`. -/
def bootstrappedPlan : RenamePlan where
  edit := .ofMember ⟨.method, "A", "b", "()V", "c"⟩
  primary := ⟨⟨2, 2, ⟨.methodSymbol, ⟨"A::b()V"⟩, "b", some 2, some ⟨"A"⟩, 9, none⟩⟩, ⟨"A::c()V"⟩,
    some "c", none⟩
  dependents := []
  resignatures := []
  fileName := none

/-- **A bootstrap method keeps its old name.** Nothing is skipped when the classes are mapped, and the
method `b` of `A` is renamed; but `B` still names it, so there is something left to rename. -/
theorem exists_rename_bootstrapped : ∃ report outcome index',
    bootstrappedImport.Reachable ∧
      mapAll .standard bootstrappedImport = (.ok report, bootstrappedIndex) ∧
      report.filesSkipped = 0 ∧ report.parseErrors = [] ∧
      bootstrappedIndex.store.planRename ⟨"A::b()V"⟩ "c" = .ok bootstrappedPlan ∧
      rename ⟨"A::b()V"⟩ "c" bootstrappedIndex = (.ok outcome, index') ∧
      ∃ file ∈ index'.store.files, ∃ c, ClassFile.decode file.bytes = .ok c ∧
        (bootstrappedPlan.edit.apply c).1 = .ok true := by
  have hreport : (mapAll .standard bootstrappedImport).1 = .ok ⟨1, 2, 0, 4, 2, []⟩ := by
    decide +kernel
  have hplan : bootstrappedIndex.store.planRename ⟨"A::b()V"⟩ "c" = .ok bootstrappedPlan := by
    decide +kernel
  have hok : (rename ⟨"A::b()V"⟩ "c" bootstrappedIndex).1.isOk = true := by
    decide +kernel
  have hfiles : ⟨3, "a.jar/B.class", "B.class", some 1, false, some (.bytes bootstrapped.encode)⟩ ∈
      (rename ⟨"A::b()V"⟩ "c" bootstrappedIndex).2.store.files := by
    decide +kernel
  have hdecode : ClassFile.decode bootstrapped.encode = .ok bootstrapped := by
    decide +kernel
  have hchanged : (bootstrappedPlan.edit.apply bootstrapped).1 = .ok true := by
    decide +kernel
  rcases hrun : rename ⟨"A::b()V"⟩ "c" bootstrappedIndex with ⟨_ | outcome, index'⟩
  · rw [hrun] at hok
    cases hok
  · rw [hrun] at hfiles
    exact ⟨_, outcome, index', .importFile _ _ .empty, Prod.ext hreport rfl, rfl, rfl, hplan, rfl, _,
      hfiles, bootstrapped, hdecode, hchanged⟩

end Index

end ClassAtlas
