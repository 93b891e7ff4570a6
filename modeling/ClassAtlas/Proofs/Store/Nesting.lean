import ClassAtlas.Proofs.Store.Changes

/-!
# Archives in archives

An entry of an archive may be an archive itself, and so on. When a file is deleted, the files that are
in it go with it, however deep they are, and no other file does. So the archive of a file that stays,
stays as well.

## Main definitions

* `ClassAtlas.Store.Within` — a file is, directly or not, an entry of an archive.
* `ClassAtlas.Store.GoesWith` — a file is among some files or in one of them.
* `ClassAtlas.Store.withoutFiles` — a store without some files.
* `ClassAtlas.Store.Filed` — every file has its archive and the name at the end of its path.

## Main results

* `ClassAtlas.Store.goesWith_of_mem_withEntries` — only what is within a file goes with it.
* `ClassAtlas.Store.mem_withEntries_of_archive` — what is within a file goes with it.
* `ClassAtlas.Store.keeps_filed_insertFile`, `keeps_filed_deleteFile` — changes keep the files in order.
-/

set_option autoImplicit false

namespace ClassAtlas

/-- A symbol after what some files declare was forgotten. -/
def SymbolRow.undeclaredBy (ids : List RowId) (row : SymbolRow) : SymbolRow :=
  if row.file.any ids.contains then { row with file := none, access := 0, signature := none } else row

@[simp]
theorem SymbolRow.identity_undeclaredBy (ids : List RowId) (row : SymbolRow) :
    (row.undeclaredBy ids).identity = row.identity := by
  unfold undeclaredBy
  split <;> rfl

namespace Store

open Transaction (Keeps)

variable {s s' : Store} {files files' : List FileRow} {file : FileRow} {id root x : RowId}
  {ids : List RowId} {rounds : Nat}

/-! ### Entries of entries -/

/-- The file is, directly or not, an entry of the archive with a number. -/
inductive Within (files : List FileRow) (root : RowId) : FileRow → Prop where
  /-- An entry of the archive. -/
  | entry {file : FileRow} (hfile : file ∈ files) (h : file.archive = some root) :
    Within files root file
  /-- An entry of a file that is in the archive. -/
  | nested {outer file : FileRow} (houter : Within files root outer) (hfile : file ∈ files)
    (h : file.archive = some outer.id) : Within files root file

theorem Within.mem (h : Within files root file) : file ∈ files := by
  cases h with
  | entry hfile => exact hfile
  | nested _ hfile => exact hfile

theorem Within.archive_ne_none (h : Within files root file) : file.archive ≠ none := by
  cases h with
  | entry _ h => exact h ▸ Option.some_ne_none _
  | nested _ _ h => exact h ▸ Option.some_ne_none _

/-- What is in a file of an archive is in the archive. -/
theorem Within.trans {outer : FileRow} (houter : Within files root outer)
    (h : Within files outer.id file) : Within files root file := by
  induction h with
  | entry hfile h => exact houter.nested hfile h
  | nested _ hfile h ih => exact ih.nested hfile h

theorem Within.mono (h : Within files root file) (hsub : files ⊆ files') : Within files' root file := by
  induction h with
  | entry hfile h => exact .entry (hsub hfile) h
  | nested _ hfile h ih => exact ih.nested (hsub hfile) h

/-! ### What goes with a file -/

/-- The number is one of some files, or that of a file in one of them. -/
def GoesWith (files : List FileRow) (ids : List RowId) (x : RowId) : Prop :=
  x ∈ ids ∨ ∃ root ∈ ids, ∃ file, Within files root file ∧ file.id = x

theorem subset_withEntries (files : List FileRow) (rounds : Nat) (ids : List RowId) :
    ids ⊆ withEntries files rounds ids := by
  induction rounds generalizing ids with
  | zero => exact List.Subset.refl _
  | succ rounds ih =>
    rw [withEntries]
    split
    · exact List.Subset.refl _
    · exact List.Subset.trans (List.subset_append_left _ _) (ih _)

/-- **Only what is in a file goes with it.** -/
theorem goesWith_of_mem_withEntries (h : x ∈ withEntries files rounds ids) : GoesWith files ids x := by
  induction rounds generalizing ids with
  | zero => exact .inl h
  | succ rounds ih =>
    rw [withEntries] at h
    split at h
    · exact .inl h
    · -- a number that this round adds is that of an entry of a file found before
      have hadded : ∀ id ∈ (files.filter fun f => !ids.contains f.id && f.archive.any ids.contains).map
          FileRow.id, ∃ root ∈ ids, ∃ file, Within files root file ∧ file.id = id := by
        intro id hid
        obtain ⟨file, hfile, rfl⟩ := List.mem_map.mp hid
        obtain ⟨hfile, hcond⟩ := List.mem_filter.mp hfile
        rw [Bool.and_eq_true, Option.any_eq_true] at hcond
        obtain ⟨-, root, harchive, hroot⟩ := hcond
        exact ⟨root, List.contains_iff_mem.mp hroot, file, .entry hfile harchive, rfl⟩
      rcases ih h with hmem | ⟨root, hroot, file, hwithin, rfl⟩
      · exact (List.mem_append.mp hmem).imp_right (hadded x)
      · rcases List.mem_append.mp hroot with hroot | hroot
        · exact .inr ⟨root, hroot, file, hwithin, rfl⟩
        · obtain ⟨top, htop, outer, houter, rfl⟩ := hadded root hroot
          exact .inr ⟨top, htop, file, houter.trans hwithin, rfl⟩

/-- A round that finds something leaves fewer files to be found. -/
theorem countP_notMem_append_lt (hfile : file ∈ files) (hid : file.id ∉ ids) {more : List RowId}
    (hmore : file.id ∈ more) :
    files.countP (fun f => !(ids ++ more).contains f.id) <
      files.countP (fun f => !ids.contains f.id) := by
  let missing := files.filter fun f => !ids.contains f.id
  have hmissing : file ∈ missing := List.mem_filter.mpr ⟨hfile, by simpa using hid⟩
  calc files.countP (fun f => !(ids ++ more).contains f.id)
    _ = missing.countP fun f => !(ids ++ more).contains f.id := by
      rw [List.countP_filter]
      refine List.countP_congr fun f _ => ?_
      simp only [Bool.and_eq_true, Bool.not_eq_true', List.contains_eq_mem, List.mem_append,
        decide_eq_false_iff_not, not_or]
      tauto
    _ < missing.length := List.countP_lt_length_iff.mpr ⟨file, hmissing, by simp [hmore]⟩
    _ = files.countP (fun f => !ids.contains f.id) := List.countP_eq_length_filter.symm

/-- **What is in a file goes with it**, if there are as many rounds as files that may go.

**Proof sketch.** A round that finds something leaves fewer files to be found, and after one that finds
nothing every entry of what was found is among it. -/
theorem mem_withEntries_of_archive {a : RowId}
    (hrounds : files.countP (fun f => !ids.contains f.id) ≤ rounds) (hfile : file ∈ files)
    (harchive : file.archive = some a) (h : a ∈ withEntries files rounds ids) :
    file.id ∈ withEntries files rounds ids := by
  induction rounds generalizing ids with
  | zero =>
    have hnone := List.countP_eq_zero.mp (Nat.le_zero.mp hrounds) file hfile
    simpa [withEntries] using hnone
  | succ rounds ih =>
    rw [withEntries] at h ⊢
    generalize hfound : (files.filter fun f => !ids.contains f.id && f.archive.any ids.contains).map
      FileRow.id = more at h ⊢
    cases more with
    | nil =>
      by_contra hid
      have hmem : file ∈ files.filter fun f => !ids.contains f.id && f.archive.any ids.contains := by
        refine List.mem_filter.mpr ⟨hfile, ?_⟩
        rw [harchive, Option.any_some, List.contains_iff_mem.mpr h]
        simpa using hid
      exact List.ne_nil_of_mem (List.mem_map_of_mem hmem) hfound
    | cons first more =>
      have hfirst : first ∈ first :: more := List.mem_cons_self
      rw [← hfound] at hfirst
      obtain ⟨found, hmem, rfl⟩ := List.mem_map.mp hfirst
      obtain ⟨hmem, hcond⟩ := List.mem_filter.mp hmem
      have hnew : found.id ∉ ids := by simpa using (Bool.and_eq_true_iff.mp hcond).1
      refine ih ?_ h
      exact Nat.le_of_lt_succ (lt_of_lt_of_le
        (countP_notMem_append_lt hmem hnew List.mem_cons_self) hrounds)

/-! ### Stores without files -/

/-- A store after what the files `entries` declare was forgotten and the files `gone` went. -/
def withoutFiles (s : Store) (entries gone : List RowId) : Store :=
  { s with
    files := s.files.filter fun file => !gone.contains file.id
    symbols := s.symbols.map (SymbolRow.undeclaredBy entries)
    references := s.references.filter fun reference => !gone.contains reference.file }

theorem mem_files_withoutFiles {entries gone : List RowId} :
    file ∈ (s.withoutFiles entries gone).files ↔ file ∈ s.files ∧ file.id ∉ gone := by
  rw [withoutFiles, List.mem_filter]
  simp

/-- What a file that stays uses is the same. -/
theorem filter_references_withoutFiles {entries gone : List RowId} (h : id ∉ gone) :
    (s.withoutFiles entries gone).references.filter (·.file == id) =
      s.references.filter (·.file == id) := by
  rw [withoutFiles, List.filter_filter]
  refine List.filter_congr fun reference _ => ?_
  by_cases he : reference.file = id
  · simp [he, h]
  · simp [he]

theorem undeclaredBy_undeclaredBy (ids ids' : List RowId) (row : SymbolRow) :
    (row.undeclaredBy ids).undeclaredBy ids' = row.undeclaredBy (ids ++ ids') := by
  cases hfile : row.file with
  | none => simp [SymbolRow.undeclaredBy, hfile]
  | some id => by_cases hid : id ∈ ids <;> simp [SymbolRow.undeclaredBy, hfile, hid]

theorem undeclaredBy_nil (row : SymbolRow) : row.undeclaredBy [] = row := by
  cases hfile : row.file <;> simp [SymbolRow.undeclaredBy, hfile]

theorem undeclaredBy_congr {ids' : List RowId} (h : ∀ x, x ∈ ids ↔ x ∈ ids') (row : SymbolRow) :
    row.undeclaredBy ids = row.undeclaredBy ids' := by
  cases hfile : row.file <;> simp [SymbolRow.undeclaredBy, hfile, h]

/-- Files may go one after the other or at once. -/
theorem withoutFiles_withoutFiles (s : Store) (entries entries' gone gone' : List RowId) :
    (s.withoutFiles entries gone).withoutFiles entries' gone' =
      s.withoutFiles (entries ++ entries') (gone ++ gone') := by
  simp only [withoutFiles, List.filter_filter, List.map_map, Store.mk.injEq, true_and]
  refine ⟨List.filter_congr fun file _ => ?_, ?_, List.filter_congr fun reference _ => ?_⟩
  · simp [Bool.and_comm]
  · exact List.map_congr_left fun row _ => undeclaredBy_undeclaredBy _ _ row
  · simp [Bool.and_comm]

theorem withoutFiles_nil (s : Store) : s.withoutFiles [] [] = s := by
  simp [withoutFiles, funext undeclaredBy_nil]

/-! ### Files in order -/

/-- A store whose files are in order. -/
structure Filed (s : Store) : Prop where
  /-- The archive of an entry exists. -/
  archives : ∀ file ∈ s.files, ∀ a ∈ file.archive, a ∈ s.files.map FileRow.id
  /-- The name of a file is the last segment of its path. -/
  names : ∀ file ∈ s.files, file.name = SlashPath.lastSegment file.path

theorem filed_empty : Filed Store.empty :=
  ⟨List.forall_mem_nil _, List.forall_mem_nil _⟩

/-- Files stay in order while they keep their numbers and archives, and names that fit. -/
theorem Filed.of_forall₂ (hs : s.Filed) (h : List.Forall₂ (fun file file' : FileRow =>
    file'.id = file.id ∧ file'.archive = file.archive ∧
      (file.name = SlashPath.lastSegment file.path →
        file'.name = SlashPath.lastSegment file'.path)) s.files s'.files) : s'.Filed := by
  have hids : s'.files.map FileRow.id = s.files.map FileRow.id := by
    rw [← List.forall₂_eq_eq_eq, List.forall₂_map_left_iff, List.forall₂_map_right_iff]
    exact h.flip.imp fun _ _ he => he.1
  constructor
  · intro file' hfile' a ha
    obtain ⟨file, hfile, -, harchive, -⟩ := Except.exists_of_forall₂ h.flip hfile'
    exact hids ▸ hs.archives file hfile a (harchive ▸ ha)
  · intro file' hfile'
    obtain ⟨file, hfile, -, -, hname⟩ := Except.exists_of_forall₂ h.flip hfile'
    exact hname (hs.names file hfile)

theorem keeps_filed_insertFile (path : String) (archive : Option RowId) (isDirectory : Bool)
    (content : Option Content) : Keeps Filed (insertFile path archive isDirectory content) := by
  intro s id s' h hs
  rw [insertFile, Transaction.get_bind_apply] at h
  cases hfile : s.fileAt? path with
  | some found =>
    simp only [hfile] at h
    cases h
    refine hs.of_forall₂ (List.forall₂_map_right_iff.mpr (List.forall₂_same.mpr fun file _ => ?_))
    split <;> exact ⟨rfl, rfl, id⟩
  | none =>
    simp only [hfile] at h
    split at h
    · rename_i hexists
      cases h
      refine ⟨List.forall_mem_append.mpr ⟨fun file hfile a ha => ?_, ?_⟩,
        List.forall_mem_append.mpr ⟨hs.names, ?_⟩⟩
      · rw [List.map_append]
        exact List.mem_append_left _ (hs.archives file hfile a ha)
      · refine List.forall_mem_singleton.mpr fun a ha => ?_
        obtain ⟨row, hrow, hid⟩ := List.any_eq_true.mp ((Option.all_eq_true _ _).mp hexists a ha)
        exact List.mem_map.mpr ⟨row, hrow, beq_iff_eq.mp hid⟩
      · exact List.forall_mem_singleton.mpr rfl
    · cases h

theorem keeps_filed_deleteFile : Keeps Filed (deleteFile id) := by
  refine Keeps.modify fun s hs => ⟨fun file hfile a ha => ?_, fun file hfile => ?_⟩
  · obtain ⟨hfile, hstays⟩ := List.mem_filter.mp hfile
    obtain ⟨other, hother, rfl⟩ := List.mem_map.mp (hs.archives file hfile a ha)
    refine List.mem_map_of_mem (List.mem_filter.mpr ⟨hother, ?_⟩)
    -- if the archive went, its entry would have gone with it
    have hgone (h : other.id ∈ withEntries s.files s.files.length [id]) :
        file.id ∈ withEntries s.files s.files.length [id] :=
      mem_withEntries_of_archive List.countP_le_length hfile ha h
    simp only [Bool.not_eq_true', List.contains_eq_mem, decide_eq_false_iff_not] at hstays ⊢
    exact fun h => hstays (hgone h)
  · exact hs.names file (List.mem_of_mem_filter hfile)

theorem keeps_filed_clearMappings : Keeps Filed (clearMappings id) :=
  Keeps.modify fun _ hs => ⟨hs.archives, hs.names⟩

end Store

end ClassAtlas
