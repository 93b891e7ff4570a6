import ClassAtlas.Proofs.Store.Placing
import ClassAtlas.Proofs.Workspace.Closed
import ClassAtlas.Proofs.Workspace.Filed

/-!
# Imported archives

Importing an archive stores it with its entries and drops the entries that it had before and no longer
has, with all that is in them. What these declared is only mentioned from then on; nothing else goes.
Packing the archive again gives the entries that were imported.

An entry is stored at a path, and a file that is at that path already keeps its archive. So the paths
of the entries have to be free, or those of entries that the archive had before. This also excludes
paths of files deeper in the archive: such a file goes with the entry in which it is, even if the
archive that is imported lists it.

## Main definitions

* `ClassAtlas.PackedEntry.filing` — what an entry is stored with.
* `ClassAtlas.PackedEntry.item` — what an entry says.
* `ClassAtlas.Store.Refiled` — a store before and after an archive was stored with its entries.
* `ClassAtlas.Store.Unpacked` — a store before and after an archive was imported.

## Main results

* `ClassAtlas.Store.item_packEntry` — an entry that was stored is packed with what it says.
* `ClassAtlas.Store.exists_insertArchive` — an archive is imported.
* `ClassAtlas.Index.unpacked_of_importFile` — importing an archive replaces it.
* `ClassAtlas.Index.exists_unlisted` — an entry that is lost because its path is that of a file deeper
  in the archive.
-/

set_option autoImplicit false

namespace ClassAtlas

namespace FileName

/-- What stands before a character does not change if what stands behind another one is cut off. -/
theorem takeWhile_takeWhile_of_notMem {c d : Char} (hne : c ≠ d) {cs : List Char} (hc : c ∈ cs)
    (hd : d ∉ cs.takeWhile (· != c)) : c ∈ cs.takeWhile (· != d) ∧
      (cs.takeWhile (· != d)).takeWhile (· != c) = cs.takeWhile (· != c) := by
  induction cs with
  | nil => cases hc
  | cons x cs ih =>
    by_cases hx : x = c
    · simp [hx, hne]
    · have hcs := (List.mem_cons.mp hc).resolve_left (Ne.symm hx)
      rw [List.takeWhile_cons, if_pos (bne_iff_ne.mpr hx), List.mem_cons, not_or] at hd
      simpa [List.takeWhile_cons, hx, Ne.symm hd.1, Ne.symm hx] using ih hcs hd.2

/-- The last segment of the path of an archive is named like one: no extension of archives has a
slash. -/
theorem isArchive_lastSegment {path : String} (h : isArchive path) :
    isArchive (SlashPath.lastSegment path) := by
  have hslashes : ∀ extension ∈ archiveExtensions, '/' ∉ extension.toList := by decide
  obtain ⟨extension, hextension, hmem⟩ := (Option.any_eq_true _ _).mp h
  rw [extension?, afterLast?] at hextension
  split at hextension
  · rename_i hdot
    have hslash : '/' ∉ path.toList.reverse.takeWhile (· != '.') := fun hslash => by
      refine hslashes extension (List.contains_iff_mem.mp hmem) ?_
      rw [← Option.some.inj hextension, String.toList_ofList]
      exact List.mem_map.mpr ⟨'/', List.mem_reverse.mpr hslash, rfl⟩
    obtain ⟨hdot', hsame⟩ := takeWhile_takeWhile_of_notMem (by decide : '.' ≠ '/')
      (List.mem_reverse.mpr hdot) hslash
    refine (Option.any_eq_true _ _).mpr ⟨extension, ?_, hmem⟩
    rw [← hextension]
    simp [extension?, afterLast?, SlashPath.lastSegment, hdot', hsame]
  · cases hextension

end FileName

/-- What an archive is stored with. -/
def Filing.ofArchive (path : String) (entries : List PackedEntry) : Filing :=
  ⟨path, none, false, some (.packed entries)⟩

/-! ### Entries of archives -/

namespace PackedEntry

variable {archivePath : String} {entry entry' : PackedEntry}

/-- The path at which an entry of an archive is stored. -/
def pathIn (archivePath : String) (entry : PackedEntry) : String :=
  archivePath ++ "/" ++ entry.trimmedName

/-- What an entry of an archive is stored with. -/
def filing (archivePath : String) (archive : RowId) (entry : PackedEntry) : Filing :=
  ⟨entry.pathIn archivePath, some archive, entry.isDirectory, some (.bytes entry.payload)⟩

/-- What an entry says: its name without slashes at the end, whether it is a directory, and its
bytes. -/
def item (entry : PackedEntry) : String × Bool × List UInt8 :=
  (entry.trimmedName, entry.isDirectory, entry.payload)

theorem pathIn_ne (archivePath : String) (entry : PackedEntry) :
    entry.pathIn archivePath ≠ archivePath := by
  intro h
  have hlength := congrArg String.length h
  rw [pathIn, String.length_append, String.length_append] at hlength
  have hslash : "/".length = 1 := rfl
  omega

/-- Entries with different names are stored at different paths. -/
theorem pathIn_injective (h : entry.pathIn archivePath = entry'.pathIn archivePath) :
    entry.trimmedName = entry'.trimmedName := by
  have htext := congrArg String.toList h
  simp only [pathIn, String.toList_append] at htext
  exact String.toList_inj.mp (List.append_cancel_left htext)

/-- Nothing is left to drop from a name without slashes at its end. -/
theorem trimmedName_trimmedName (entry : PackedEntry) (content : List UInt8) :
    (mk entry.trimmedName content).trimmedName = entry.trimmedName := by
  simp [trimmedName, List.dropWhile_idempotent]

theorem trimmedName_trimmedName_slash (entry : PackedEntry) (content : List UInt8) :
    (mk (entry.trimmedName ++ "/") content).trimmedName = entry.trimmedName := by
  simp [trimmedName, List.dropWhile_idempotent]

theorem endsInSeparator_slash (name : String) : endsInSeparator (name ++ "/") := by
  simp [endsInSeparator]

/-- A name that does not end in a separator has no slashes to drop. -/
theorem trimmedName_of_not_isDirectory (h : entry.isDirectory = false) :
    entry.trimmedName = entry.name := by
  have hdrop : entry.name.toList.reverse.dropWhile (· == '/') = entry.name.toList.reverse := by
    rw [isDirectory, endsInSeparator, List.getLast?_eq_head?_reverse] at h
    cases hlast : entry.name.toList.reverse with
    | nil => rfl
    | cons c cs =>
      simp only [hlast, List.head?_cons, Option.any_some, Bool.or_eq_false_iff] at h
      rw [List.dropWhile_cons, h.1, if_neg Bool.false_ne_true]
  rw [trimmedName, hdrop, List.reverse_reverse, String.ofList_toList]

/-- Directories say the same if their names are the same without slashes at the end. -/
theorem item_eq (h : entry.isDirectory = true) (h' : entry'.isDirectory = true)
    (hname : entry'.trimmedName = entry.trimmedName) : entry'.item = entry.item := by
  rw [item, item, payload, payload, h, h', if_pos rfl, if_pos rfl, hname]

end PackedEntry

namespace Store

open PackedEntry
open Transaction (Keeps bind_eq_ok_iff)

variable {s s' : Store} {path : String} {archive : RowId} {entry : PackedEntry}
  {entries : List PackedEntry} {row : FileRow} {gone : List RowId}

/-! ### Packing entries -/

/-- The name of an entry comes back from its path, with a slash if it is needed to tell a directory. -/
theorem entryName_of_pathIn (h : row.path = entry.pathIn path) : entryName path row =
    if row.isDirectory && !endsInSeparator entry.trimmedName then entry.trimmedName ++ "/"
    else entry.trimmedName := by
  have htext : row.path.toList = (path.toList ++ ['/']) ++ entry.trimmedName.toList := by
    simp [h, pathIn]
  simp only [entryName, htext, List.isPrefixOf_iff_prefix.mpr (List.prefix_append _ _), if_true,
    List.drop_left, String.ofList_toList]

/-- **An entry that was stored is packed with what it says.** -/
theorem item_packEntry (archive : RowId) (h : row.filing = entry.filing path archive) :
    (packEntry path row).item = entry.item := by
  obtain ⟨hpath, -, hdirectory, hcontent⟩ := Filing.mk.inj h
  have hbytes : row.bytes = entry.payload := by
    rw [FileRow.bytes, hcontent]
    rfl
  rw [packEntry, entryName_of_pathIn hpath, hdirectory, hbytes]
  cases hd : entry.isDirectory with
  | false =>
    rw [trimmedName_of_not_isDirectory hd, payload, hd]
    rfl
  | true =>
    cases hends : endsInSeparator entry.trimmedName with
    | false => exact item_eq hd (endsInSeparator_slash _) (trimmedName_trimmedName_slash entry [])
    | true => exact item_eq hd hends (trimmedName_trimmedName entry [])

/-! ### Storing the entries -/

/-- **The entries are stored** at their paths, if these are different and no file that is there belongs
elsewhere. -/
theorem exists_mapM_insertEntry (hs : s.Consistent) (harchive : archive ∈ s.files.map FileRow.id)
    (hdistinct : (entries.map (pathIn path)).Nodup)
    (hheld : ∀ row ∈ s.files, ∀ entry ∈ entries, row.path = entry.pathIn path →
      row.archive = some archive) :
    ∃ s', entries.mapM (insertEntry path archive) s = .ok (entries.map (pathIn path), s') ∧
      s.Places (entries.map (filing path archive)) s' := by
  induction entries generalizing s with
  | nil => exact ⟨s, rfl, places_nil s⟩
  | cons entry entries ih =>
    rw [List.map_cons, List.nodup_cons] at hdistinct
    obtain ⟨id, s₁, hinsert, hplaces, -⟩ := exists_insertFile (entry.filing path archive) hs
      (fun row hrow he => hheld row hrow entry List.mem_cons_self he)
      fun a ha => Option.some.inj ha ▸ harchive
    have hs₁ := keeps_insertFile _ _ _ _ _ _ _ hinsert hs
    have hpaths : ∀ placed ∈ [entry.filing path archive],
        placed.path ∉ (entries.map (filing path archive)).map Filing.path := by
      rw [List.forall_mem_singleton, List.map_map]
      exact hdistinct.1
    obtain ⟨s₂, hrest, hplaces'⟩ := ih hs₁ (hplaces.ids harchive) hdistinct.2
      fun row hrow other ho he => by
        refine hheld row ((hplaces.others row ?_).mp hrow) other (List.mem_cons_of_mem _ ho) he
        rw [List.map_singleton, List.mem_singleton, he]
        exact fun hsame => hdistinct.1 (List.mem_map.mpr ⟨other, ho, hsame⟩)
    refine ⟨s₂, ?_, hplaces.trans hplaces' hpaths⟩
    rw [List.mapM_cons]
    refine bind_eq_ok_iff.mpr ⟨entry.pathIn path, s₁, ?_, bind_eq_ok_iff.mpr ⟨_, s₂, hrest, rfl⟩⟩
    exact bind_eq_ok_iff.mpr ⟨id, s₁, hinsert, rfl⟩

/-- A store before and after an archive was stored with its entries, and before other entries are
dropped. -/
structure Refiled (path : String) (entries : List PackedEntry) (archive : RowId) (s s' : Store) :
    Prop where
  /-- What was at the path is no entry of an archive. -/
  top : ∀ row ∈ s.files, row.path = path → row.archive = none
  /-- What was at the path of an entry is an entry of the archive. -/
  held : ∀ row ∈ s.files, ∀ entry ∈ entries, row.path = entry.pathIn path → row.archive = some archive
  /-- If a file was at the path, it has kept its number. -/
  number : ∀ row ∈ s.files, row.path = path → row.id = archive
  /-- The file at the path holds the archive. -/
  file : ∃ row ∈ s'.files, row.id = archive ∧ row.filing = .ofArchive path entries
  /-- The archive and its entries are placed. -/
  places : s.Places (.ofArchive path entries :: entries.map (filing path archive)) s'

/-- **An archive is stored with its entries.** -/
theorem exists_refiled (hs : s.Consistent)
    (htop : ∀ row ∈ s.files, row.path = path → row.archive = none)
    (hdistinct : (entries.map (pathIn path)).Nodup)
    (hheld : ∀ row ∈ s.files, ∀ entry ∈ entries, row.path = entry.pathIn path →
      ∃ a ∈ s.files, a.path = path ∧ row.archive = some a.id) :
    ∃ archive s₁ s₂, insertFile path none false (some (.packed entries)) s = .ok (archive, s₁) ∧
      entries.mapM (insertEntry path archive) s₁ = .ok (entries.map (pathIn path), s₂) ∧
      s.Refiled path entries archive s₂ := by
  obtain ⟨archive, s₁, hinsert, hplaces, ⟨file, hfile, hid, hfiling⟩, hnumber⟩ :=
    exists_insertFile (.ofArchive path entries) hs htop (by simp [Filing.ofArchive])
  have hs₁ := keeps_insertFile _ _ _ _ _ _ _ hinsert hs
  have hheld₁ : ∀ row ∈ s.files, ∀ entry ∈ entries, row.path = entry.pathIn path →
      row.archive = some archive := by
    intro row hrow entry hentry hpath
    obtain ⟨a, ha, hapath, harchive⟩ := hheld row hrow entry hentry hpath
    rw [harchive, hnumber a ha hapath]
  obtain ⟨s₂, hinserts, hplaces'⟩ := exists_mapM_insertEntry hs₁ (List.mem_map.mpr ⟨file, hfile, hid⟩)
    hdistinct fun row hrow entry hentry hpath => by
      refine hheld₁ row ((hplaces.others row ?_).mp hrow) entry hentry hpath
      rw [List.map_singleton, List.mem_singleton, hpath]
      exact pathIn_ne path entry
  have hpath : path ∉ (entries.map (filing path archive)).map Filing.path := by
    rw [List.map_map, List.mem_map]
    rintro ⟨entry, -, he⟩
    exact pathIn_ne path entry he
  refine ⟨archive, s₁, s₂, hinsert, hinserts, htop, hheld₁, hnumber, ⟨file, ?_, hid, hfiling⟩,
    hplaces.trans hplaces' (List.forall_mem_singleton.mpr hpath)⟩
  refine (hplaces'.others file ?_).mpr hfile
  rwa [(Filing.mk.inj hfiling).1]

/-! ### Dropping the other entries -/

/-- What goes with the entries that are dropped is in the archive. -/
theorem GoesWith.exists_within {paths : List String} {x : RowId}
    (h : GoesWith s.files ((s.otherEntries archive paths).map FileRow.id) x) :
    ∃ file, Within s.files archive file ∧ file.id = x := by
  have hentry {entry : FileRow} (h : entry ∈ s.otherEntries archive paths) :
      Within s.files archive entry :=
    .entry (mem_otherEntries.mp h).1 (mem_otherEntries.mp h).2.1
  rcases h with hstale | ⟨root, hroot, file, hwithin, hid⟩
  · obtain ⟨entry, hstale, hid⟩ := List.mem_map.mp hstale
    exact ⟨entry, hentry hstale, hid⟩
  · obtain ⟨entry, hstale, rfl⟩ := List.mem_map.mp hroot
    exact ⟨file, (hentry hstale).trans hwithin, hid⟩

/-- No entry at one of the given paths goes with the entries at other paths, if the archive is no entry
itself. -/
theorem not_goesWith_of_path {paths : List String} {file row : FileRow} (hs : s.Consistent)
    (hfile : file ∈ s.files) (htop : file.archive = none) (hrow : row ∈ s.files)
    (harchive : row.archive = some file.id) (hpath : row.path ∈ paths) :
    ¬GoesWith s.files ((s.otherEntries file.id paths).map FileRow.id) row.id := by
  have heq {row row' : FileRow} (hrow : row ∈ s.files) (hrow' : row' ∈ s.files)
      (h : row.id = row'.id) : row = row' :=
    List.inj_on_of_nodup_map hs.files.ids hrow hrow' h
  rintro (hstale | ⟨root, hroot, inner, hwithin, hid⟩)
  · obtain ⟨entry, hstale, hid⟩ := List.mem_map.mp hstale
    obtain ⟨hentry, -, hother⟩ := mem_otherEntries.mp hstale
    exact hother (heq hentry hrow hid ▸ hpath)
  · obtain ⟨entry, hstale, rfl⟩ := List.mem_map.mp hroot
    obtain ⟨hentry, he, -⟩ := mem_otherEntries.mp hstale
    obtain rfl := heq hwithin.mem hrow hid
    cases hwithin with
    | entry _ h =>
      rw [heq hentry hfile (Option.some.inj (h.symm.trans harchive)), htop] at he
      cases he
    | nested houter _ h =>
      rw [heq hfile houter.mem (Option.some.inj (harchive.symm.trans h))] at htop
      exact houter.archive_ne_none htop

namespace Refiled

/-- The files at other paths are the same. -/
theorem others (h : s.Refiled path entries archive s') (hne : row.path ≠ path)
    (hpath : row.path ∉ entries.map (pathIn path)) : row ∈ s'.files ↔ row ∈ s.files := by
  refine h.places.others row ?_
  rw [List.map_cons, List.map_map, List.mem_cons, not_or]
  exact ⟨hne, hpath⟩

/-- The other entries are those that the archive had before at other paths. -/
theorem mem_otherEntries_iff (h : s.Refiled path entries archive s') (hs' : s'.Consistent) :
    row ∈ s'.otherEntries archive (entries.map (pathIn path)) ↔
      row ∈ s.otherEntries archive (entries.map (pathIn path)) := by
  rw [mem_otherEntries, mem_otherEntries]
  constructor
  · rintro ⟨hrow, harchive, hpath⟩
    refine ⟨(h.others (fun he => ?_) hpath).mp hrow, harchive, hpath⟩
    have hfiling := h.places.filing_of_path hs' List.mem_cons_self hrow he
    cases harchive.symm.trans (Filing.mk.inj hfiling).2.1
  · rintro ⟨hrow, harchive, hpath⟩
    refine ⟨(h.others (fun he => ?_) hpath).mpr hrow, harchive, hpath⟩
    cases harchive.symm.trans (h.top row hrow he)

/-- A file at the path of an entry is that entry. -/
theorem exists_entry (h : s.Refiled path entries archive s') (hs' : s'.Consistent)
    (hrow : row ∈ s'.files) (hpath : row.path ∈ entries.map (pathIn path)) :
    ∃ entry ∈ entries, row.filing = entry.filing path archive := by
  obtain ⟨entry, hentry, he⟩ := List.mem_map.mp hpath
  exact ⟨entry, hentry, h.places.filing_of_path hs'
    (List.mem_cons_of_mem _ (List.mem_map_of_mem hentry)) hrow he.symm⟩

/-- A file that was in no archive or in another one is there still. -/
theorem mem_of_outside (h : s.Refiled path entries archive s') (hrow : row ∈ s.files)
    (hne : row.path ≠ path) (hother : row.archive ≠ some archive) : row ∈ s'.files := by
  refine (h.others hne fun hentry => hother ?_).mpr hrow
  obtain ⟨entry, hentry, he⟩ := List.mem_map.mp hentry
  exact h.held row hrow entry hentry he.symm

/-- Only the archive and its entries are new. -/
theorem mem_of_other (h : s.Refiled path entries archive s') (hs' : s'.Consistent)
    (hrow : row ∈ s'.files) (hid : row.id ≠ archive) (hother : row.archive ≠ some archive) :
    row ∈ s.files := by
  refine (h.others (fun hpath => hid ?_) fun hentry => hother ?_).mp hrow
  · obtain ⟨file, hfile, rfl, hfiling⟩ := h.file
    have he := hpath.trans (Filing.mk.inj hfiling).1.symm
    rw [List.inj_on_of_nodup_map hs'.files.paths hrow hfile he]
  · obtain ⟨entry, -, he⟩ := h.exists_entry hs' hrow hentry
    exact (Filing.mk.inj he).2.1

/-- **The entries of the archive are the listed ones** after the others are dropped. -/
theorem perm_entriesOf (h : s.Refiled path entries archive s') (hs' : s'.Consistent)
    (hdistinct : (entries.map (pathIn path)).Nodup) {stale : List RowId}
    (hstale : stale = (s'.otherEntries archive (entries.map (pathIn path))).map FileRow.id)
    (hsub : stale ⊆ gone) (hgone : ∀ x ∈ gone, GoesWith s'.files stale x) :
    (((s'.withoutFiles stale gone).entriesOf archive).map FileRow.filing).Perm
      (entries.map (filing path archive)) := by
  have hmem {row : FileRow} : row ∈ (s'.withoutFiles stale gone).entriesOf archive ↔
      row ∈ s'.files ∧ row.id ∉ gone ∧ row.archive = some archive := by
    rw [mem_entriesOf, mem_files_withoutFiles, and_assoc]
  refine (List.perm_ext_iff_of_nodup (.of_map Filing.path ?_) (.of_map Filing.path ?_)).mpr
    fun placed => ⟨fun hplaced => ?_, fun hplaced => ?_⟩
  · rw [List.map_map]
    exact hs'.files.paths.sublist ((List.filter_sublist.trans List.filter_sublist).map _)
  · rw [List.map_map]
    exact hdistinct
  · obtain ⟨row, hrow, rfl⟩ := List.mem_map.mp hplaced
    obtain ⟨hrow, hstays, harchive⟩ := hmem.mp hrow
    have hpath : row.path ∈ entries.map (pathIn path) := by
      by_contra hpath
      have hother := mem_otherEntries.mpr ⟨hrow, harchive, hpath⟩
      exact hstays (hsub (hstale ▸ List.mem_map_of_mem hother))
    obtain ⟨entry, hentry, he⟩ := h.exists_entry hs' hrow hpath
    exact he ▸ List.mem_map_of_mem hentry
  · obtain ⟨entry, hentry, rfl⟩ := List.mem_map.mp hplaced
    obtain ⟨row, hrow, hfiling⟩ := h.places.placed _ (List.mem_cons_of_mem _ hplaced)
    obtain ⟨file, hfile, rfl, htop⟩ := h.file
    obtain ⟨hpath, harchive, -⟩ := Filing.mk.inj hfiling
    refine List.mem_map.mpr ⟨row, hmem.mpr ⟨hrow, fun hgoes => ?_, harchive⟩, hfiling⟩
    refine not_goesWith_of_path hs' hfile (Filing.mk.inj htop).2.1 hrow harchive ?_
      (hstale ▸ hgone _ hgoes)
    exact hpath ▸ List.mem_map_of_mem hentry

end Refiled

/-- **An archive with the listed entries is packed with what these say.** -/
theorem exists_exported {file : FileRow} (hs : s.Consistent) (hfile : file ∈ s.files)
    (hfiling : file.filing = .ofArchive path entries)
    (hname : file.name = SlashPath.lastSegment file.path) (harchive : FileName.isArchive path)
    (hlisted : ((s.entriesOf file.id).map FileRow.filing).Perm (entries.map (filing path file.id))) :
    ∃ packed, (∀ content, (path, content) ∈ s.exported ↔ content = .packed packed) ∧
      (packed.map item).Perm (entries.map item) := by
  obtain ⟨rfl, htop, -⟩ := Filing.mk.inj hfiling
  have hexport : s.exportFile file = .packed ((s.entriesOf file.id).map (packEntry file.path)) := by
    rw [exportFile, hname, FileName.isArchive_lastSegment harchive, Bool.not_true, Bool.and_false,
      if_neg Bool.false_ne_true]
  refine ⟨(s.entriesOf file.id).map (packEntry file.path), fun content => ⟨fun hmem => ?_, ?_⟩, ?_⟩
  · obtain ⟨row, hrow, he⟩ := List.mem_map.mp hmem
    obtain ⟨hpath, rfl⟩ := Prod.mk.inj he
    rw [List.inj_on_of_nodup_map hs.files.paths (mem_topLevelFiles.mp hrow).1 hfile hpath, hexport]
  · rintro rfl
    exact List.mem_map.mpr ⟨file, mem_topLevelFiles.mpr ⟨hfile, htop⟩, by rw [hexport]⟩
  · -- what an entry is packed with depends on what it was stored with only
    let pack (placed : Filing) := (packEntry file.path
      ⟨0, placed.path, "", placed.archive, placed.isDirectory, placed.content⟩).item
    have hpacked : ((s.entriesOf file.id).map (packEntry file.path)).map item =
        ((s.entriesOf file.id).map FileRow.filing).map pack := by
      rw [List.map_map, List.map_map]
      rfl
    have hitems : (entries.map (filing file.path file.id)).map pack = entries.map item := by
      rw [List.map_map]
      exact List.map_congr_left fun entry _ => item_packEntry file.id rfl
    rw [hpacked, ← hitems]
    exact hlisted.map pack

/-! ### What an import does -/

/-- A store before and after an archive was imported. -/
structure Unpacked (path : String) (entries : List PackedEntry) (archive : RowId) (s s' : Store) :
    Prop where
  /-- The file at the path holds the archive. -/
  file : ∃ row ∈ s'.files, row.id = archive ∧ row.filing = .ofArchive path entries
  /-- If a file was there before, it has kept its number. -/
  number : ∀ row ∈ s.files, row.path = path → row.id = archive
  /-- The entries of the archive are those that are listed, whatever entries there were before. -/
  listed : ((s'.entriesOf archive).map FileRow.filing).Perm (entries.map (filing path archive))
  /-- A file that is not in the archive stays as it is. -/
  outside : ∀ row ∈ s.files, row.path ≠ path → ¬Within s.files archive row → row ∈ s'.files
  /-- No other file comes or changes. -/
  others : ∀ row ∈ s'.files, row.id ≠ archive → row.archive ≠ some archive → row ∈ s.files
  /-- The uses by a file that is not in the archive stay as they are. -/
  references : ∀ row ∈ s.files, ¬Within s.files archive row →
    s'.references.filter (·.file == row.id) = s.references.filter (·.file == row.id)
  /-- What a file uses has a symbol. -/
  targets : ∀ reference ∈ s'.references, ∃ row ∈ s'.symbols, row.identity = reference.target
  /-- No symbol goes. Those that an entry declared that is not listed any more are mentions, and the
  others stay as they are. -/
  symbols : s'.symbols = s.symbols.map (SymbolRow.undeclaredBy
    ((s.otherEntries archive (entries.map (pathIn path))).map FileRow.id))
  /-- No identity comes or goes. -/
  identities : s'.identities = s.identities
  /-- On export the archive is packed with what the listed entries say. -/
  exported : ∃ packed, (∀ content, (path, content) ∈ s'.exported ↔ content = .packed packed) ∧
    (packed.map item).Perm (entries.map item)

/-- **An archive is unpacked** when it was stored with its entries and the others are dropped. -/
theorem Refiled.unpacked (h : s.Refiled path entries archive s') (hs : s.Filed) (hs' : s'.Consistent)
    (hf' : s'.Filed) (harchive : FileName.isArchive path)
    (hdistinct : (entries.map (pathIn path)).Nodup) {stale : List RowId}
    (hstale : stale = (s'.otherEntries archive (entries.map (pathIn path))).map FileRow.id)
    (hsub : stale ⊆ gone) (hgone : ∀ x ∈ gone, GoesWith s'.files stale x)
    (horderly : (s'.withoutFiles stale gone).Orderly) :
    s.Unpacked path entries archive (s'.withoutFiles stale gone) := by
  have hstays {row : FileRow} (hrow : row ∈ s.files) (hout : ¬Within s.files archive row) :
      row.id ∉ gone := by
    intro hgoes
    obtain ⟨file, hwithin, hid⟩ := GoesWith.exists_within (hstale ▸ hgone _ hgoes)
    exact hout (h.places.within hs' hs hwithin hrow hid.symm)
  have hlisted := h.perm_entriesOf hs' hdistinct hstale hsub hgone
  obtain ⟨file, hfile, rfl, hfiling⟩ := h.file
  have hkept : file ∈ (s'.withoutFiles stale gone).files := by
    refine mem_files_withoutFiles.mpr ⟨hfile, fun hgoes => ?_⟩
    obtain ⟨inner, hwithin, hid⟩ := GoesWith.exists_within (hstale ▸ hgone _ hgoes)
    obtain rfl := List.inj_on_of_nodup_map hs'.files.ids hwithin.mem hfile hid
    exact hwithin.archive_ne_none (Filing.mk.inj hfiling).2.1
  constructor
  case file => exact ⟨file, hkept, rfl, hfiling⟩
  case number => exact h.number
  case listed => exact hlisted
  case outside =>
    intro row hrow hpath hout
    have hrow' := h.mem_of_outside hrow hpath fun harchive => hout (.entry hrow harchive)
    exact mem_files_withoutFiles.mpr ⟨hrow', hstays hrow hout⟩
  case others =>
    exact fun row hrow => h.mem_of_other hs' (mem_files_withoutFiles.mp hrow).1
  case references =>
    intro row hrow hout
    rw [filter_references_withoutFiles (hstays hrow hout), h.places.only]
  case targets =>
    exact fun reference hmem => horderly.rooted.exists_symbol
      (horderly.mappable.consistent.references.target_mem reference hmem)
  case symbols =>
    have hsame : s'.symbols = s.symbols := by rw [h.places.only]
    rw [withoutFiles, hsame, hstale]
    refine List.map_congr_left fun row _ => undeclaredBy_congr (fun x => ?_) row
    simp only [List.mem_map, h.mem_otherEntries_iff hs']
  case identities =>
    rw [withoutFiles, h.places.only]
  case exported =>
    exact exists_exported horderly.mappable.consistent hkept hfiling (hf'.names file hfile) harchive
      hlisted

/-- **An archive is imported**, if the file at its path is no entry of an archive, its entries have
different names that are not empty, and what is at their paths are entries of the archive. -/
theorem exists_insertArchive (hs : s.Orderly) (hf : s.Filed) (harchive : FileName.isArchive path)
    (htop : ∀ row ∈ s.files, row.path = path → row.archive = none)
    (hnames : ∀ entry ∈ entries, entry.trimmedName ≠ "")
    (hdistinct : (entries.map trimmedName).Nodup)
    (hheld : ∀ row ∈ s.files, ∀ entry ∈ entries, row.path = entry.pathIn path →
      ∃ a ∈ s.files, a.path = path ∧ row.archive = some a.id) :
    ∃ archive s', insertArchive path entries s = .ok (archive, s') ∧
      s.Unpacked path entries archive s' := by
  have hpaths : (entries.map (pathIn path)).Nodup :=
    (hdistinct.of_map _).map_on fun _ hentry _ hentry' he =>
      List.inj_on_of_nodup_map hdistinct hentry hentry' (pathIn_injective he)
  have hnamed : entries.filter (fun entry => !entry.trimmedName.isEmpty) = entries :=
    List.filter_eq_self.mpr fun entry hentry => by simpa using hnames entry hentry
  obtain ⟨archive, s₁, s₂, hinsert, hinserts, hrefiled⟩ :=
    exists_refiled hs.mappable.consistent htop hpaths hheld
  have hkept {P : Store → Prop} (h : ∀ path archive isDirectory content,
      Keeps P (insertFile path archive isDirectory content)) (hP : P s) : P s₂ :=
    Keeps.mapM _ (fun _ _ => (h _ _ _ _).bind fun _ => Keeps.pure _) _ _ _ hinserts
      (h _ _ _ _ _ _ _ hinsert hP)
  have hs₂ := hkept keeps_orderly_insertFile hs
  obtain ⟨gone, hdropped, horderly, hsub, hgone⟩ :=
    exists_deleteOtherEntries hs₂ archive (entries.map (pathIn path))
  refine ⟨archive, _, ?_, hrefiled.unpacked hf hs₂.mappable.consistent
    (hkept keeps_filed_insertFile hf) harchive hpaths rfl hsub hgone horderly⟩
  refine bind_eq_ok_iff.mpr ⟨archive, s₁, hinsert, bind_eq_ok_iff.mpr
    ⟨entries.map (pathIn path), s₂, ?_, ?_⟩⟩
  · rw [hnamed]
    exact hinserts
  · exact bind_eq_ok_iff.mpr ⟨(), _, hdropped, rfl⟩

end Store

namespace Index

open Store PackedEntry

variable {index : Index} {path : String} {entries : List PackedEntry}

/-- **Importing an archive replaces it.** In every workspace, an archive whose path is not that of an
entry of an archive is imported, if its entries have different names that are not empty and the files
at their paths, if there are any, are entries that the archive had before. -/
theorem unpacked_of_importFile (h : index.Reachable) (harchive : FileName.isArchive path)
    (htop : ∀ row ∈ index.store.files, row.path = path → row.archive = none)
    (hnames : ∀ entry ∈ entries, entry.trimmedName ≠ "")
    (hdistinct : (entries.map trimmedName).Nodup)
    (hheld : ∀ row ∈ index.store.files, ∀ entry ∈ entries, row.path = entry.pathIn path →
      ∃ a ∈ index.store.files, a.path = path ∧ row.archive = some a.id) :
    ∃ archive index', importFile path (.packed entries) index = (.ok archive, index') ∧
      index'.cache = index.cache ∧ index.store.Unpacked path entries archive index'.store := by
  obtain ⟨archive, s', himport, hunpacked⟩ :=
    exists_insertArchive h.orderly h.filed harchive htop hnames hdistinct hheld
  refine ⟨archive, ⟨s', index.cache⟩, ?_, rfl, hunpacked⟩
  rw [importFile, transact, Store.importFile, if_pos harchive, himport]

/-- An archive with the class `A`, after it was mapped. -/
def packedIndex : Index :=
  (mapAll .standard
    (importFile "a.jar" (.packed [⟨"A.class", selfTaking.encode⟩, ⟨"text/", []⟩]) empty).2).2

/-- The entries of that archive without the class, and with a text. -/
def textEntries : List PackedEntry :=
  [⟨"text/", []⟩, ⟨"text/B", [1]⟩]

/-- The archive is imported without the class. What it declared is only mentioned then. -/
theorem unpacked_of_importFile_selfTaking : ∃ index',
    importFile "a.jar" (.packed textEntries) packedIndex = (.ok 1, index') ∧
      packedIndex.store.Unpacked "a.jar" textEntries 1 index'.store ∧
      packedIndex.store.symbols.map SymbolRow.file = [some 2, some 2] ∧
      index'.store.symbols.map SymbolRow.file = [none, none] := by
  have hreachable : packedIndex.Reachable := .mapAll _ (.importFile _ _ .empty)
  have hnames : ∀ entry ∈ textEntries, entry.trimmedName ≠ "" := by decide +kernel
  have htop : ∀ row ∈ packedIndex.store.files, row.path = "a.jar" → row.archive = none := by
    decide +kernel
  obtain ⟨archive, index', hrun, -, hunpacked⟩ := unpacked_of_importFile hreachable (by decide +kernel)
    htop hnames (by decide +kernel) (by decide +kernel)
  have hfile : ⟨1, "a.jar", "a.jar", none, false,
      some (.packed [⟨"A.class", selfTaking.encode⟩, ⟨"text/", []⟩])⟩ ∈ packedIndex.store.files := by
    decide +kernel
  obtain rfl : 1 = archive := hunpacked.number _ hfile rfl
  refine ⟨index', hrun, hunpacked, by decide +kernel, ?_⟩
  rw [hunpacked.symbols]
  decide +kernel

/-- An archive in an archive. -/
def nestedArchives : Index :=
  (importFile "a.jar/x.jar" (.packed [⟨"y", []⟩])
    (importFile "a.jar" (.packed [⟨"x.jar", []⟩]) empty).2).2

/-- **An entry may be lost**: the file at its path is in the archive, but it is an entry of an entry
that is not listed any more. It gets the content of the new entry, and then it goes with the file that
it is in. -/
theorem exists_unlisted : ∃ index',
    nestedArchives.Reachable ∧ FileName.isArchive "a.jar" ∧
      (∀ row ∈ nestedArchives.store.files, row.path = "a.jar" → row.id = 1 ∧ row.archive = none) ∧
      (∀ row ∈ nestedArchives.store.files, row.path = pathIn "a.jar" ⟨"x.jar/y", [1]⟩ →
        Within nestedArchives.store.files 1 row) ∧
      importFile "a.jar" (.packed [⟨"x.jar/y", [1]⟩]) nestedArchives = (.ok 1, index') ∧
      index'.store.entriesOf 1 = [] ∧ index'.store.exported = [("a.jar", .packed [])] := by
  let inner : FileRow := ⟨2, "a.jar/x.jar", "x.jar", some 1, false, some (.packed [⟨"y", []⟩])⟩
  let held : FileRow := ⟨3, "a.jar/x.jar/y", "y", some 2, false, some (.bytes [])⟩
  have hinner : inner ∈ nestedArchives.store.files := by decide +kernel
  have hheld : held ∈ nestedArchives.store.files := by decide +kernel
  have hpath : ∀ row ∈ nestedArchives.store.files,
      row.path = pathIn "a.jar" ⟨"x.jar/y", [1]⟩ → row = held := by decide +kernel
  refine ⟨(importFile "a.jar" (.packed [⟨"x.jar/y", [1]⟩]) nestedArchives).2,
    .importFile _ _ (.importFile _ _ .empty), by decide +kernel, by decide +kernel,
    fun row hrow he => ?_, ?_, by decide +kernel, by decide +kernel⟩
  · rw [hpath row hrow he]
    exact .nested (.entry hinner rfl) hheld rfl
  · refine Prod.ext ?_ rfl
    decide +kernel

end Index

end ClassAtlas
