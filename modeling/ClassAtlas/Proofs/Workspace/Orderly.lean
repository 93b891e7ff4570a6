import ClassAtlas.Proofs.Mapping.Remapped
import ClassAtlas.Proofs.Store.Nesting
import ClassAtlas.Proofs.Workspace.Reachable

/-!
# Workspaces in order

Between two operations a workspace is in order: only files that mapping covers declare symbols, the
references are in the order of their numbers, and every identity belongs to a symbol. Imports, mapping
runs and renames keep it so, whether or not they fail. When an archive is imported again and entries of
it are gone, no symbol goes with them, because what they declared is forgotten first.

## Main definitions

* `ClassAtlas.Store.Orderly` — a store in order.

## Main results

* `ClassAtlas.Store.keeps_orderly_importFile` — imports keep the order.
* `ClassAtlas.Index.Reachable.orderly` — every workspace is in order.
-/

set_option autoImplicit false

namespace ClassAtlas

namespace Store

open Transaction (Keeps bind_eq_ok_iff)

variable {s s' : Store} {id x : RowId} {ids : List RowId} {files : List FileRow}

/-- A store in order. -/
structure Orderly (s : Store) : Prop where
  /-- Mapping can go on. -/
  mappable : s.Mappable
  /-- Every identity belongs to a symbol. -/
  rooted : s.Rooted

theorem orderly_empty : Orderly Store.empty :=
  ⟨⟨consistent_empty, by simp [Homes, Store.empty], by simp [Store.empty]⟩,
    by simp [Rooted, Store.empty]⟩

/-! ### Covered files -/

/-- A covered file is a top-level file or an entry of one. -/
theorem isHome_iff : s.IsHome id ↔ ∃ file ∈ s.files, file.id = id ∧
    (file.archive = none ∨ ∃ top ∈ s.files, top.archive = none ∧ file.archive = some top.id) := by
  constructor
  · rintro ⟨top, htop, harchive, hmem⟩
    obtain ⟨file, hfile, rfl⟩ := List.mem_map.mp hmem
    rcases List.mem_cons.mp hfile with rfl | hfile
    · exact ⟨file, htop, rfl, .inl harchive⟩
    · obtain ⟨hfile, hentry⟩ := mem_entriesOf.mp hfile
      exact ⟨file, hfile, rfl, .inr ⟨top, htop, harchive, hentry⟩⟩
  · rintro ⟨file, hfile, rfl, harchive | ⟨top, htop, harchive, hentry⟩⟩
    · exact ⟨file, hfile, harchive, List.mem_cons_self⟩
    · refine ⟨top, htop, harchive, List.mem_map_of_mem (List.mem_cons_of_mem _ ?_)⟩
      exact mem_entriesOf.mpr ⟨hfile, hentry⟩

/-- Covered files stay so while files keep their numbers and archives. -/
theorem IsHome.of_files (h : s.IsHome id)
    (hfiles : ∀ file ∈ s.files, ∃ file' ∈ s'.files, file'.id = file.id ∧ file'.archive = file.archive) :
    s'.IsHome id := by
  obtain ⟨file, hfile, rfl, harchive⟩ := isHome_iff.mp h
  obtain ⟨file', hfile', hid, he⟩ := hfiles file hfile
  refine isHome_iff.mpr ⟨file', hfile', hid, he ▸ harchive.imp_right ?_⟩
  rintro ⟨top, htop, hnone, hentry⟩
  obtain ⟨top', htop', hid', he'⟩ := hfiles top htop
  exact ⟨top', htop', he' ▸ hnone, hid' ▸ hentry⟩

theorem keeps_orderly_insertFile (path : String) (archive : Option RowId) (isDirectory : Bool)
    (content : Option Content) : Keeps Orderly (insertFile path archive isDirectory content) := by
  intro s id s' h hs
  have hc := keeps_insertFile _ _ _ _ _ _ _ h hs.mappable.consistent
  have hkept {s' : Store} (hc : s'.Consistent) (hidentities : s'.identities = s.identities)
      (hsymbols : s'.symbols = s.symbols) (hreferences : s'.references = s.references)
      (hfiles : ∀ file ∈ s.files, ∃ file' ∈ s'.files, file'.id = file.id ∧
        file'.archive = file.archive) : s'.Orderly := by
    refine ⟨⟨hc, fun row hr id hid => ?_, hreferences ▸ hs.mappable.ascending⟩, ?_⟩
    · exact (hs.mappable.homes row (hsymbols ▸ hr) id hid).of_files hfiles
    · rw [Rooted, hidentities, hsymbols]
      exact hs.rooted
  obtain ⟨file, -, -, rfl⟩ | ⟨-, -, rfl⟩ := eq_or_of_insertFile h
  · refine hkept hc rfl rfl rfl fun f hf => ⟨_, List.mem_map_of_mem hf, ?_⟩
    split <;> exact ⟨rfl, rfl⟩
  · exact hkept hc rfl rfl rfl fun f hf => ⟨f, List.mem_append_left _ hf, rfl, rfl⟩

/-! ### Files that go -/

/-- No top-level file has the number. -/
def IsEntry (s : Store) (id : RowId) : Prop :=
  ∀ file ∈ s.files, file.id = id → file.archive ≠ none

/-- Only entries go with an entry. -/
theorem IsEntry.of_mem_withEntries {rounds : Nat} (hs : s.Consistent) (hentry : s.IsEntry id)
    (h : x ∈ withEntries s.files rounds [id]) : s.IsEntry x := by
  rcases goesWith_of_mem_withEntries h with hx | ⟨root, -, inner, hwithin, rfl⟩
  · exact List.mem_singleton.mp hx ▸ hentry
  · intro file hfile hid
    rw [List.inj_on_of_nodup_map hs.files.ids hfile hwithin.mem hid]
    exact hwithin.archive_ne_none

/-- No other file that mapping covers goes with an entry: it would be in an entry, and its archive is
none. -/
theorem IsHome.notMem_withEntries {rounds : Nat} (h : s.IsHome x) (hs : s.Consistent)
    (hentry : s.IsEntry id) (hne : x ≠ id) : x ∉ withEntries s.files rounds [id] := by
  intro hgone
  obtain ⟨file, hfile, rfl, hnone | ⟨top, htop, hnone, harchive⟩⟩ := isHome_iff.mp h
  · exact hentry.of_mem_withEntries hs hgone file hfile rfl hnone
  · rcases goesWith_of_mem_withEntries hgone with hid | ⟨root, hroot, inner, hwithin, hid⟩
    · exact hne (List.mem_singleton.mp hid)
    · obtain rfl := List.mem_singleton.mp hroot
      obtain rfl := List.inj_on_of_nodup_map hs.files.ids hwithin.mem hfile hid
      cases hwithin with
      | entry _ he => exact hentry top htop (Option.some.inj (harchive.symm.trans he)) hnone
      | nested houter _ he =>
        obtain rfl := List.inj_on_of_nodup_map hs.files.ids htop houter.mem
          (Option.some.inj (harchive.symm.trans he))
        exact houter.archive_ne_none hnone

/-- **No symbol goes with an entry** if what the entry declares is forgotten first. -/
theorem dropEntry_apply (hs : s.Mappable) (hentry : s.IsEntry id) :
    (do clearMappings id; deleteFile id : Transaction Unit) s =
      .ok ((), s.withoutFiles [id] (withEntries s.files s.files.length [id])) := by
  let gone := withEntries s.files s.files.length [id]
  have hcleared (row : SymbolRow) : (if row.file = some id then
      { row with file := none, access := 0, signature := none } else row) = row.undeclaredBy [id] := by
    cases hfile : row.file <;> simp [SymbolRow.undeclaredBy, hfile, eq_comm]
  have hkept : ∀ row ∈ s.symbols, (row.undeclaredBy [id]).file.any gone.contains = false := by
    intro row hrow
    rw [← Bool.not_eq_true, Option.any_eq_true]
    rintro ⟨y, hy, hgone⟩
    rw [← hcleared] at hy
    split at hy
    · cases hy
    · rename_i hne
      have hhome := hs.homes row hrow y hy
      refine hhome.notMem_withEntries hs.consistent hentry ?_ (List.contains_iff_mem.mp hgone)
      exact fun he => hne (he ▸ hy)
  have hsymbols : ((s.symbols.map fun row => if row.file = some id then
      { row with file := none, access := 0, signature := none } else row).filter fun row =>
        !row.file.any gone.contains) = s.symbols.map (SymbolRow.undeclaredBy [id]) := by
    rw [funext hcleared]
    refine List.filter_eq_self.mpr (List.forall_mem_map.mpr fun row hrow => ?_)
    rw [hkept row hrow]
    rfl
  have hreferences : ((s.references.filter (·.file != id)).filter fun reference =>
      !gone.contains reference.file) =
        s.references.filter fun reference => !gone.contains reference.file := by
    have hgone : id ∈ gone := subset_withEntries _ _ _ (List.mem_singleton_self id)
    rw [List.filter_filter]
    refine List.filter_congr fun reference _ => ?_
    by_cases he : reference.file = id
    · simp [he, hgone]
    · simp [he]
  change Except.ok ((), Store.mk _ _ _ _) = _
  rw [hsymbols, hreferences]
  rfl

/-- Dropping an entry keeps the order. -/
theorem orderly_withoutFiles (hs : s.Orderly) (hentry : s.IsEntry id) :
    (s.withoutFiles [id] (withEntries s.files s.files.length [id])).Orderly := by
  let gone := withEntries s.files s.files.length [id]
  have hconsistent := hs.mappable.consistent
  have hkeeps : Keeps Consistent (do clearMappings id; deleteFile id : Transaction Unit) :=
    keeps_clearMappings.bind fun _ => keeps_deleteFile
  have hc := hkeeps _ _ _ (dropEntry_apply hs.mappable hentry) hconsistent
  refine ⟨⟨hc, List.forall_mem_map.mpr fun row hrow y hy => ?_, ?_⟩, fun row hrow => ?_⟩
  · rw [SymbolRow.undeclaredBy] at hy
    split at hy
    · cases hy
    · rename_i hne
      have hhome := hs.mappable.homes row hrow y hy
      have hother : y ≠ id := fun he => hne (by simp [Option.mem_def.mp hy, he])
      have hkept : y ∉ gone := hhome.notMem_withEntries hconsistent hentry hother
      obtain ⟨file, hfile, rfl, harchive⟩ := isHome_iff.mp hhome
      refine isHome_iff.mpr ⟨file, mem_files_withoutFiles.mpr ⟨hfile, hkept⟩, rfl, harchive.imp_right ?_⟩
      rintro ⟨top, htop, hnone, he⟩
      refine ⟨top, mem_files_withoutFiles.mpr ⟨htop, fun hgone => ?_⟩, hnone, he⟩
      exact hentry.of_mem_withEntries hconsistent hgone top htop rfl hnone
  · exact hs.mappable.ascending.sublist (List.filter_sublist.map _)
  · obtain ⟨symbol, hsymbol, hid⟩ := List.mem_map.mp (hs.rooted row hrow)
    refine List.mem_map.mpr ⟨_, List.mem_map_of_mem hsymbol, ?_⟩
    rw [SymbolRow.identity_undeclaredBy, hid]

/-- **Entries are dropped with what is in them.** The symbols that they declare become mentions, and
what uses something in a file that goes is dropped. -/
theorem exists_dropEntries {entries : List FileRow} (hs : s.Orderly)
    (hentries : ∀ entry ∈ entries, s.IsEntry entry.id) :
    ∃ gone, (entries.forM fun entry => do clearMappings entry.id; deleteFile entry.id) s =
        .ok ((), s.withoutFiles (entries.map FileRow.id) gone) ∧
      (s.withoutFiles (entries.map FileRow.id) gone).Orderly ∧ entries.map FileRow.id ⊆ gone ∧
      ∀ x ∈ gone, GoesWith s.files (entries.map FileRow.id) x := by
  induction entries generalizing s with
  | nil => exact ⟨[], by rw [List.map_nil, withoutFiles_nil]; rfl, by rwa [List.map_nil, withoutFiles_nil],
      List.Subset.refl _, List.forall_mem_nil _⟩
  | cons entry entries ih =>
    have hentry := hentries entry List.mem_cons_self
    let gone := withEntries s.files s.files.length [entry.id]
    have hfiles : (s.withoutFiles [entry.id] gone).files ⊆ s.files := List.filter_subset_self _
    obtain ⟨gone', hrest, horderly, hsub, hwithin⟩ := ih (orderly_withoutFiles hs hentry)
      fun other ho file hfile => hentries other (List.mem_cons_of_mem _ ho) file (hfiles hfile)
    rw [withoutFiles_withoutFiles] at hrest horderly
    refine ⟨gone ++ gone', ?_, horderly, ?_, fun x hx => ?_⟩
    · exact bind_eq_ok_iff.mpr ⟨(), _, dropEntry_apply hs.mappable hentry, hrest⟩
    · refine List.cons_subset.mpr ⟨List.mem_append_left _ ?_, ?_⟩
      · exact subset_withEntries _ _ _ (List.mem_singleton_self _)
      · exact List.Subset.trans hsub (List.subset_append_right _ _)
    · rcases List.mem_append.mp hx with hx | hx
      · rcases goesWith_of_mem_withEntries hx with hx | ⟨root, hroot, file, hfile, rfl⟩
        · exact .inl (List.mem_cons.mpr (.inl (List.mem_singleton.mp hx)))
        · obtain rfl := List.mem_singleton.mp hroot
          exact .inr ⟨entry.id, List.mem_cons_self, file, hfile, rfl⟩
      · rcases hwithin x hx with hx | ⟨root, hroot, file, hfile, rfl⟩
        · exact .inl (List.mem_cons_of_mem _ hx)
        · exact .inr ⟨root, List.mem_cons_of_mem _ hroot, file, hfile.mono hfiles, rfl⟩

/-! ### Imports -/

/-- Entries of an archive. -/
theorem isEntry_of_mem_entriesOf {entry : FileRow} {archive : RowId} (hs : s.Consistent)
    (h : entry ∈ s.entriesOf archive) : s.IsEntry entry.id := by
  intro file hfile hid
  obtain ⟨hentry, harchive⟩ := mem_entriesOf.mp h
  rw [List.inj_on_of_nodup_map hs.files.ids hfile hentry hid, harchive]
  exact Option.some_ne_none _

/-- The entries of an archive with other paths than the given ones. -/
def otherEntries (s : Store) (archive : RowId) (paths : List String) : List FileRow :=
  (s.entriesOf archive).filter fun entry => !paths.contains entry.path

theorem mem_otherEntries {entry : FileRow} {archive : RowId} {paths : List String} :
    entry ∈ s.otherEntries archive paths ↔
      entry ∈ s.files ∧ entry.archive = some archive ∧ entry.path ∉ paths := by
  rw [otherEntries, List.mem_filter, mem_entriesOf, and_assoc]
  simp

theorem exists_deleteOtherEntries (hs : s.Orderly) (archive : RowId) (paths : List String) :
    let stale := (s.otherEntries archive paths).map FileRow.id
    ∃ gone, deleteOtherEntries archive paths s = .ok ((), s.withoutFiles stale gone) ∧
      (s.withoutFiles stale gone).Orderly ∧ stale ⊆ gone ∧ ∀ x ∈ gone, GoesWith s.files stale x :=
  exists_dropEntries hs fun _ he =>
    isEntry_of_mem_entriesOf hs.mappable.consistent (List.mem_of_mem_filter he)

theorem keeps_orderly_deleteOtherEntries (archive : RowId) (paths : List String) :
    Keeps Orderly (deleteOtherEntries archive paths) := by
  intro s u s' h hs
  obtain ⟨gone, hdropped, hs', -⟩ := exists_deleteOtherEntries hs archive paths
  rw [hdropped] at h
  cases h
  exact hs'

theorem keeps_orderly_importFile (path : String) (content : Content) :
    Keeps Orderly (importFile path content) :=
  keeps_importFile keeps_orderly_insertFile keeps_orderly_deleteOtherEntries path content

/-! ### Renames -/

/-- A rename keeps the order: rows keep their numbers and files, and identities go with their
symbols. -/
theorem orderly_of_describes {plan : RenamePlan} {outcome : RenameOutcome} (hs : s.Orderly)
    (hd : outcome.Describes plan s s') (hc : s'.Consistent) : s'.Orderly := by
  have hfiles : ∀ file ∈ s.files, ∃ file' ∈ s'.files, file'.id = file.id ∧
      file'.archive = file.archive := by
    intro file hfile
    obtain ⟨file', hfile', hrevised⟩ := Except.exists_of_forall₂ hd.files hfile
    exact ⟨file', hfile', hrevised.id, hrevised.archive⟩
  refine ⟨⟨hc, fun row' hr' id hid => ?_, ?_⟩, fun row' hr' => ?_⟩
  · obtain ⟨row, hr, hf⟩ := hd.migrated.origin row' hr'
    exact (hs.mappable.homes row hr id (hf.file ▸ hid)).of_files hfiles
  · have hids : s.references.map ReferenceRow.id = s'.references.map ReferenceRow.id := by
      rw [← List.forall₂_eq_eq_eq, List.forall₂_map_left_iff, List.forall₂_map_right_iff]
      exact hd.migrated.references.imp fun _ _ hf => hf.id.symm
    exact hids ▸ hs.mappable.ascending
  · obtain ⟨row, hr, he⟩ := hd.migrated.identities row' hr'
    obtain ⟨symbol, hsymbol, hid⟩ := List.mem_map.mp (hs.rooted row hr)
    have htext : s.identity? symbol.identity = some row.identity :=
      hs.mappable.consistent.identity?_eq_some_iff.mpr (hid ▸ hr)
    have htext' : s'.identity? row'.id = some row'.identity :=
      hc.identity?_eq_some_iff.mpr hr'
    have hfound {other : SymbolRow} (ho : other ∈ s'.symbols)
        (hother : s'.identity? other.identity = (s.identity? symbol.identity).map
          (destination outcome.migratedIdentities)) : row'.id ∈ s'.symbols.map SymbolRow.identity := by
      refine List.mem_map.mpr ⟨other, ho, hc.eq_of_identity? ?_ htext'⟩
      rw [hother, htext, he]
      rfl
    rcases hd.migrated.symbols symbol hsymbol with ⟨symbol', hs', hf⟩ | ⟨-, -, other, ho, hother⟩
    · exact hfound hs' hf.identity
    · exact hfound ho hother

end Store

namespace Index

open Store

variable {index : Index}

/-- **Every workspace is in order.** -/
theorem Reachable.orderly (h : index.Reachable) : index.store.Orderly := by
  induction h with
  | empty => exact orderly_empty
  | importFile path content _ ih => exact transact_keeps (keeps_orderly_importFile path content) ih
  | map _ hfiles hmaps ih =>
    obtain ⟨hmappable, -, hrooted⟩ := hmaps.kept ih.mappable hfiles
    exact ⟨hmappable, hrooted ih.rooted⟩
  | rename identity newName _ ih =>
    exact rename_keeps ih.mappable.consistent ih fun _ _ _ _ hd hc => orderly_of_describes ih hd hc

end Index

end ClassAtlas
