import ClassAtlas.Proofs.Store.Nesting
import ClassAtlas.Proofs.Workspace.Orderly

/-!
# The files of a workspace

In every workspace the files are in order: the archive of an entry exists, and the name of a file is the
last segment of its path. Imports add entries to archives that exist and delete archives with their
entries, and a rename changes the path of a file together with its name.

## Main results

* `ClassAtlas.Index.Reachable.filed` — the files of every workspace are in order.
-/

set_option autoImplicit false

namespace ClassAtlas

namespace SlashPath

theorem takeWhile_dropWhile_slash (cs : List Char) :
    (cs.dropWhile (· != '/')).takeWhile (· != '/') = [] := by
  induction cs with
  | nil => rfl
  | cons c cs ih =>
    rw [List.dropWhile_cons]
    split
    · exact ih
    · rename_i hc
      rw [List.takeWhile_cons, if_neg hc]

/-- A name without slashes is the last segment where it replaces one. -/
theorem lastSegment_withLastSegment {path name : String} (h : '/' ∉ name.toList) :
    lastSegment (withLastSegment path name) = name := by
  have hname : ∀ c ∈ name.toList.reverse, (c != '/') = true := fun c hc =>
    bne_iff_ne.mpr fun he => h (he ▸ List.mem_reverse.mp hc)
  have htext : (withLastSegment path name).toList.reverse =
      name.toList.reverse ++ path.toList.reverse.dropWhile (· != '/') := by
    simp [withLastSegment]
  rw [lastSegment, htext, List.takeWhile_append_of_pos hname, takeWhile_dropWhile_slash,
    List.append_nil, List.reverse_reverse, String.ofList_toList]

end SlashPath

namespace Store

open Transaction (Keeps)

variable {s s' : Store}

theorem keeps_filed_deleteOtherEntries (archive : RowId) (paths : List String) :
    Keeps Filed (deleteOtherEntries archive paths) :=
  Keeps.get_bind fun _ => Keeps.forM _ fun _ _ =>
    keeps_filed_clearMappings.bind fun _ => keeps_filed_deleteFile

theorem keeps_filed_importFile (path : String) (content : Content) :
    Keeps Filed (importFile path content) :=
  keeps_importFile keeps_filed_insertFile keeps_filed_deleteOtherEntries path content

/-- A rename gives a file a path that ends in its name. -/
theorem filed_of_commit {identity : Identity} {newName : String} {plan : RenamePlan}
    {revisions : List (FileRow × List UInt8)} {outcome : RenameOutcome} {numbers : List RowId}
    (hs : s.Consistent) (hf : s.Filed) (hplan : s.planRename identity newName = .ok plan)
    (h : plan.commit revisions s = .ok ((outcome, numbers), s')) : s'.Filed := by
  obtain ⟨changes, s₁, s₂, s₃, hcontents, hnames, hmigrate, hsignatures, -⟩ :=
    RenamePlan.exists_of_commit h
  have hs₁ := Keeps.forM _ (fun p _ => keeps_setContent p.2) _ _ _ hcontents hs
  have hf₁ : s₁.Filed := hf.of_forall₂
    ((RenamePlan.rewritten_of_setContents hcontents).2.imp fun file file' hr => by
      rw [hr.1]
      exact ⟨rfl, rfl, id⟩)
  have hf₂ : s₂.Filed ∧ s₂.Consistent := by
    obtain ⟨-, -, rfl⟩ | ⟨name, hname, hrenamed⟩ := hnames
    · exact ⟨hf₁, hs₁⟩
    · have hslash := RenamePlan.slash_notMem_fileName hplan hname
      refine ⟨hf₁.of_forall₂ ((RenamePlan.renamed_of_renameFiles hs₁ hrenamed).2.1.imp
        fun file file' hr => ⟨by rw [hr.1], by rw [hr.1], fun hlast => ?_⟩),
        Keeps.mapM _ (fun id _ => RenamePlan.keeps_renameFile name id) _ _ _ hrenamed hs₁⟩
      obtain ⟨hpath, hsame⟩ | ⟨-, hnamed, hpath, -⟩ := hr.2
      · rw [hsame, hpath, hlast]
      · rw [hpath, hnamed, SlashPath.lastSegment_withLastSegment hslash]
  have hresigned : Migrated id plan.primary.symbol.id s₃ s' ∧ s'.files = s₃.files :=
    RenamePlan.migrated_resignatures hsignatures
  have hfiles := hresigned.2.trans (RenamePlan.files_of_mapM_migrate hf₂.2 hmigrate)
  exact ⟨hfiles ▸ hf₂.1.archives, hfiles ▸ hf₂.1.names⟩

end Store

namespace Index

open Store

variable {index : Index}

/-- **The files of every workspace are in order.** -/
theorem Reachable.filed (h : index.Reachable) : index.store.Filed := by
  induction h with
  | empty => exact filed_empty
  | importFile path content _ ih => exact transact_keeps (keeps_filed_importFile path content) ih
  | map hreachable hfiles hmaps ih =>
    obtain ⟨-, hsame, -⟩ := hmaps.kept hreachable.orderly.mappable hfiles
    exact ⟨hsame ▸ ih.archives, hsame ▸ ih.names⟩
  | @rename index identity newName hreachable ih =>
    obtain ⟨e, he⟩ | ⟨plan, revisions, outcome, numbers, store, hplan, -, hcommit, he⟩ :=
      rename_cases index identity newName
    · rw [he]
      exact ih
    · rw [he]
      exact filed_of_commit hreachable.sound.consistent ih hplan hcommit

end Index

end ClassAtlas
