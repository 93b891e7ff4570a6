import ClassAtlas.Proofs.Store.Nesting

/-!
# Storing files at paths

Storing a file puts it at its path and touches no file at another path. A file that is at the path
already keeps its number and its archive, so that the path says what is stored only if the file there
belongs to the same archive. Files that are stored at different paths, one after the other, are all
there in the end.

## Main definitions

* `ClassAtlas.Filing` — what a file is stored with.
* `ClassAtlas.Store.Places` — a store before and after some files were stored.

## Main results

* `ClassAtlas.Store.exists_insertFile` — storing a file succeeds and places it.
* `ClassAtlas.Store.Places.trans` — files at different paths are placed one after the other.
* `ClassAtlas.Store.Places.within` — nothing gets into an archive that way but what is placed there.
-/

set_option autoImplicit false

namespace ClassAtlas

/-- What a file is stored with. -/
structure Filing where
  /-- The path. -/
  path : String
  /-- The archive of which the file is an entry. -/
  archive : Option RowId
  /-- Whether the file is a directory of an archive. -/
  isDirectory : Bool
  /-- What the file holds. -/
  content : Option Content
  deriving DecidableEq, Repr

/-- What a file was stored with. -/
def FileRow.filing (row : FileRow) : Filing :=
  ⟨row.path, row.archive, row.isDirectory, row.content⟩

namespace Store

variable {s s' s'' : Store} {filing : Filing} {filings filings' : List Filing} {row : FileRow}
  {id root : RowId}

/-- The store before and after files were stored. -/
structure Places (filings : List Filing) (s s' : Store) : Prop where
  /-- Only files change. -/
  only : s' = { s with files := s'.files }
  /-- Every file is there afterwards. -/
  placed : ∀ filing ∈ filings, ∃ row ∈ s'.files, row.filing = filing
  /-- The files at other paths are the same. -/
  others : ∀ row : FileRow, row.path ∉ filings.map Filing.path → (row ∈ s'.files ↔ row ∈ s.files)
  /-- No file goes or changes its number, its path or its archive. -/
  kept : ∀ row ∈ s.files, ∃ row' ∈ s'.files, row'.id = row.id ∧ row'.path = row.path ∧
    row'.archive = row.archive

theorem places_nil (s : Store) : s.Places [] s :=
  ⟨rfl, List.forall_mem_nil _, fun _ _ => Iff.rfl, fun row hrow => ⟨row, hrow, rfl, rfl, rfl⟩⟩

/-- Files at different paths are placed one after the other. -/
theorem Places.trans (h : s.Places filings s') (h' : s'.Places filings' s'')
    (hpaths : ∀ filing ∈ filings, filing.path ∉ filings'.map Filing.path) :
    s.Places (filings ++ filings') s'' where
  only := by rw [h'.only, h.only]
  placed := by
    refine List.forall_mem_append.mpr ⟨fun filing hfiling => ?_, h'.placed⟩
    obtain ⟨row, hrow, rfl⟩ := h.placed filing hfiling
    exact ⟨row, (h'.others row (hpaths _ hfiling)).mpr hrow, rfl⟩
  others row hrow := by
    rw [List.map_append, List.mem_append, not_or] at hrow
    exact (h'.others row hrow.2).trans (h.others row hrow.1)
  kept row hrow := by
    obtain ⟨row', hrow', hid, hpath, harchive⟩ := h.kept row hrow
    obtain ⟨row'', hrow'', hid', hpath', harchive'⟩ := h'.kept row' hrow'
    exact ⟨row'', hrow'', hid'.trans hid, hpath'.trans hpath, harchive'.trans harchive⟩

theorem Places.ids (h : s.Places filings s') : s.files.map FileRow.id ⊆ s'.files.map FileRow.id := by
  intro id hid
  obtain ⟨row, hrow, rfl⟩ := List.mem_map.mp hid
  obtain ⟨row', hrow', he, -⟩ := h.kept row hrow
  exact List.mem_map.mpr ⟨row', hrow', he⟩

/-- What is at the path of a file that was placed is that file. -/
theorem Places.filing_of_path (h : s.Places filings s') (hs' : s'.Consistent) (hfiling : filing ∈ filings)
    (hrow : row ∈ s'.files) (hpath : row.path = filing.path) : row.filing = filing := by
  obtain ⟨other, ho, rfl⟩ := h.placed filing hfiling
  rw [List.inj_on_of_nodup_map hs'.files.paths hrow ho hpath]

/-- **Storing a file succeeds and places it**, if a file that is at the path already belongs to the same
archive, which exists. -/
theorem exists_insertFile (filing : Filing) (hs : s.Consistent)
    (hheld : ∀ row ∈ s.files, row.path = filing.path → row.archive = filing.archive)
    (harchive : ∀ a ∈ filing.archive, a ∈ s.files.map FileRow.id) :
    ∃ id s', insertFile filing.path filing.archive filing.isDirectory filing.content s =
        .ok (id, s') ∧ s.Places [filing] s' ∧
      (∃ row ∈ s'.files, row.id = id ∧ row.filing = filing) ∧
      ∀ row ∈ s.files, row.path = filing.path → row.id = id := by
  cases hfile : s.fileAt? filing.path with
  | some found =>
    obtain ⟨hfound, hpath⟩ := (find?_key_eq_some_iff hs.files.paths).mp hfile
    let update (file : FileRow) : FileRow :=
      { file with content := filing.content, isDirectory := filing.isDirectory }
    have hupdated : update found ∈ (s.modifyFile found.id update).files :=
      List.mem_map.mpr ⟨found, hfound, if_pos rfl⟩
    have hfiling : (update found).filing = filing := by
      change Filing.mk found.path found.archive filing.isDirectory filing.content = filing
      rw [hpath, hheld found hfound hpath]
    refine ⟨found.id, s.modifyFile found.id update, ?_, ⟨rfl, ?_, fun row hrow => ?_, fun row hrow => ?_⟩,
      ⟨_, hupdated, rfl, hfiling⟩, fun row hrow he => ?_⟩
    · rw [insertFile, Transaction.get_bind_apply, hfile]
      rfl
    · exact List.forall_mem_singleton.mpr ⟨_, hupdated, hfiling⟩
    · have hne : row.path ≠ found.path := fun he => hrow (List.mem_singleton.mpr (he.trans hpath))
      constructor
      · intro hmem
        obtain ⟨before, hbefore, rfl⟩ := List.mem_map.mp hmem
        by_cases hid : before.id = found.id
        · rw [List.inj_on_of_nodup_map hs.files.ids hbefore hfound hid, if_pos rfl] at hne
          exact absurd rfl hne
        · rwa [if_neg hid]
      · intro hmem
        refine List.mem_map.mpr ⟨row, hmem, if_neg fun hid => hne ?_⟩
        rw [List.inj_on_of_nodup_map hs.files.ids hmem hfound hid]
    · refine ⟨_, List.mem_map_of_mem hrow, ?_⟩
      split <;> exact ⟨rfl, rfl, rfl⟩
    · rw [List.inj_on_of_nodup_map hs.files.paths hrow hfound (he.trans hpath.symm)]
  | none =>
    have hnew := find?_key_eq_none_iff.mp hfile
    let row : FileRow := ⟨nextId (s.files.map FileRow.id), filing.path,
      SlashPath.lastSegment filing.path, filing.archive, filing.isDirectory, filing.content⟩
    have hrow : row ∈ s.files ++ [row] := List.mem_append_right _ (List.mem_singleton_self _)
    have hexists : filing.archive.all fun a => (s.files ++ [row]).any (·.id == a) := by
      refine (Option.all_eq_true _ _).mpr fun a ha => ?_
      obtain ⟨file, hmem, rfl⟩ := List.mem_map.mp (harchive a ha)
      exact List.any_eq_true.mpr ⟨file, List.mem_append_left _ hmem, beq_self_eq_true _⟩
    refine ⟨row.id, { s with files := s.files ++ [row] }, ?_, ⟨rfl, ?_, fun other ho => ?_,
      fun other ho => ?_⟩, ⟨row, hrow, rfl, rfl⟩, fun other ho he => ?_⟩
    · rw [insertFile, Transaction.get_bind_apply, hfile]
      dsimp only
      rw [if_pos hexists]
      rfl
    · exact List.forall_mem_singleton.mpr ⟨row, hrow, rfl⟩
    · have hne : other ≠ row := fun he => ho (List.mem_singleton.mpr (congrArg FileRow.path he))
      simp [hne]
    · exact ⟨other, List.mem_append_left _ ho, rfl, rfl, rfl⟩
    · exact absurd (List.mem_map.mpr ⟨other, ho, he⟩) hnew

/-- **What is in an archive after files were stored was in it before**, unless it is new: a new file is
stored with an archive, and no other file gets one. -/
theorem Places.within (h : s.Places filings s') (hs : s'.Consistent) (hf : s.Filed)
    {file : FileRow} (hwithin : Within s'.files root file) (hrow : row ∈ s.files)
    (hid : row.id = file.id) : Within s.files root row := by
  have hsame {row file : FileRow} (hrow : row ∈ s.files) (hfile : file ∈ s'.files)
      (hid : row.id = file.id) : row.archive = file.archive := by
    obtain ⟨row', hrow', hid', -, harchive⟩ := h.kept row hrow
    rw [← harchive, List.inj_on_of_nodup_map hs.files.ids hrow' hfile (hid'.trans hid)]
  induction hwithin generalizing row with
  | entry hfile harchive => exact .entry hrow ((hsame hrow hfile hid).trans harchive)
  | nested _ hfile harchive ih =>
    have hrowArchive := (hsame hrow hfile hid).trans harchive
    obtain ⟨outer, houter, he⟩ := List.mem_map.mp (hf.archives row hrow _ hrowArchive)
    exact (ih houter he).nested hrow (he ▸ hrowArchive)

end Store

end ClassAtlas
