import ClassAtlas.Proofs.Workspace.Migration
import ClassAtlas.Proofs.Workspace.Planning

/-!
# What a rename changes

Committing a rename replaces the contents of the revised files, gives the files that are named after a
renamed class their new name and moves the identities. The outcome lists all of that, and what it does
not list stays as it is.

## Main definitions

* `ClassAtlas.FileRow.Revised` — a file before and after.
* `ClassAtlas.RenameOutcome.Describes` — the tables before and after are what the outcome says.

## Main results

* `ClassAtlas.RenamePlan.describes_of_commit` — the outcome of a commit describes it.
-/

set_option autoImplicit false

namespace ClassAtlas

/-! ### Paths -/

namespace SlashPath

variable {path name : String}

theorem mem_dropWhile_iff {cs : List Char} : '/' ∈ cs.dropWhile (· != '/') ↔ '/' ∈ cs := by
  induction cs with
  | nil => simp
  | cons c cs ih =>
    rw [List.dropWhile_cons]
    split
    · rename_i hc
      have hc : c ≠ '/' := by simpa using hc
      simp [ih, hc.symm]
    · rfl

/-- The path before the last segment does not change with that segment. -/
theorem parent?_withLastSegment (h : '/' ∉ name.toList) :
    parent? (withLastSegment path name) = parent? path := by
  have hname : ∀ c ∈ name.toList.reverse, (c != '/') = true := fun c hc =>
    bne_iff_ne.mpr fun he => h (he ▸ List.mem_reverse.mp hc)
  have htext : (withLastSegment path name).toList =
      (path.toList.reverse.dropWhile (· != '/')).reverse ++ name.toList := by
    simp [withLastSegment]
  rw [parent?, parent?, htext, List.reverse_append, List.reverse_reverse,
    List.dropWhile_append_of_pos hname, List.dropWhile_idempotent]
  refine if_congr ?_ rfl rfl
  simp [h, mem_dropWhile_iff]

theorem slash_notMem_lastSegment : '/' ∉ (lastSegment path).toList := by
  intro h
  have h : '/' ∈ path.toList.reverse.takeWhile (· != '/') := by simpa [lastSegment] using h
  simpa using List.mem_takeWhile_imp h

end SlashPath

/-! ### Files before and after -/

/-- A file before and after a rename: listed files hold what the renaming makes of their content, the
others keep theirs, and a path that changes is listed and differs in its last segment only. -/
structure FileRow.Revised (edit : Renaming) (outcome : RenameOutcome) (row row' : FileRow) :
    Prop where
  /-- The number is kept. -/
  id : row'.id = row.id
  /-- The archive is kept. -/
  archive : row'.archive = row.archive
  /-- A directory stays one. -/
  isDirectory : row'.isDirectory = row.isDirectory
  /-- The content of a file that is not listed is kept. -/
  kept : row.path ∉ outcome.revisedFiles → row'.content = row.content
  /-- A listed file holds its old content with the renaming made in it. -/
  revised : row.path ∈ outcome.revisedFiles → ∃ old new, RenamePlan.classBytes row = .ok old ∧
    reviseBytes old [edit] = .ok (some new) ∧ row'.content = some (.bytes new)
  /-- A path that changes is listed and changes in its last segment only. -/
  path : row'.path ≠ row.path → ⟨row.path, row'.path⟩ ∈ outcome.renamedFiles ∧
    row'.path = SlashPath.withLastSegment row.path row'.name ∧
    SlashPath.parent? row'.path = SlashPath.parent? row.path

namespace RenamePlan

open Store
open Transaction (Keeps bind_eq_ok_iff)

variable {s s' : Store} {files : List FileRow} {revisions : List (FileRow × List UInt8)} {name : String}
  {changes : List (Option (Change String))}

/-- Only the files of a store changed. -/
def OnlyFiles (before after : Store) : Prop :=
  after = { before with files := after.files }

theorem OnlyFiles.identities_eq (h : OnlyFiles s s') : s'.identities = s.identities := by
  rw [OnlyFiles] at h
  rw [h]

theorem OnlyFiles.symbols_eq (h : OnlyFiles s s') : s'.symbols = s.symbols := by
  rw [OnlyFiles] at h
  rw [h]

theorem OnlyFiles.trans {s'' : Store} (h : OnlyFiles s s') (h' : OnlyFiles s' s'') :
    OnlyFiles s s'' := by
  rw [OnlyFiles] at h h' ⊢
  rw [h', h]

/-- A file after contents were replaced. -/
def Rewritten (revisions : List (FileRow × List UInt8)) (row row' : FileRow) : Prop :=
  row' = { row with content := row'.content } ∧
    ((∀ p ∈ revisions, p.1.id ≠ row.id) ∧ row'.content = row.content ∨
      ∃ p ∈ revisions, p.1.id = row.id ∧ row'.content = some (.bytes p.2))

/-- Replacing contents one after the other leaves every file with its own or with a new one. -/
theorem rewritten_of_setContents {u : Unit}
    (h : revisions.forM (fun p : FileRow × List UInt8 => setContent p.1.id p.2) s = .ok (u, s')) :
    OnlyFiles s s' ∧ List.Forall₂ (Rewritten revisions) s.files s'.files := by
  induction revisions generalizing s with
  | nil =>
    cases h
    exact ⟨rfl, List.forall₂_same.mpr fun row _ => ⟨rfl, .inl ⟨by simp, rfl⟩⟩⟩
  | cons p revisions ih =>
    obtain ⟨_, s₁, hfirst, hrest⟩ := bind_eq_ok_iff.mp h
    obtain ⟨-, rfl⟩ := eq_of_setContent hfirst
    obtain ⟨honly, hfiles⟩ := ih hrest
    refine ⟨honly, (List.forall₂_map_left_iff.mp hfiles).imp fun row row' hr => ?_⟩
    by_cases hid : row.id = p.1.id
    · rw [if_pos hid] at hr
      refine ⟨hr.1, .inr ?_⟩
      rcases hr.2 with ⟨-, hcontent⟩ | ⟨q, hq, he, hcontent⟩
      · exact ⟨p, List.mem_cons_self, hid.symm, hcontent⟩
      · exact ⟨q, List.mem_cons_of_mem _ hq, he, hcontent⟩
    · rw [if_neg hid] at hr
      refine ⟨hr.1, hr.2.imp (And.imp_left fun hall => ?_) ?_⟩
      · exact List.forall_mem_cons.mpr ⟨fun he => hid he.symm, hall⟩
      · exact fun ⟨q, hq, hrest⟩ => ⟨q, List.mem_cons_of_mem _ hq, hrest⟩

/-- A file after files got a name. -/
def Renamed (name : String) (changes : List (Option (Change String))) (row row' : FileRow) : Prop :=
  row' = { row with path := row'.path, name := row'.name } ∧
    (row'.path = row.path ∧ row'.name = row.name ∨
      row.name ≠ name ∧ row'.name = name ∧ row'.path = SlashPath.withLastSegment row.path name ∧
        some ⟨row.path, row'.path⟩ ∈ changes)

/-- A file is left alone, or it gets a path with another last segment. -/
theorem eq_or_of_renameFile {id : RowId} {change : Option (Change String)}
    (h : renameFile name id s = .ok (change, s')) :
    change = none ∧ s' = s ∨
      ∃ file, s.file? id = some file ∧ file.name ≠ name ∧
        change = some ⟨file.path, SlashPath.withLastSegment file.path name⟩ ∧
        s' = s.modifyFile id fun f =>
          { f with path := SlashPath.withLastSegment file.path name, name } := by
  rw [renameFile, Transaction.get_bind_apply] at h
  obtain ⟨before, s₁, hbefore, hrest⟩ := bind_eq_ok_iff.mp h
  obtain ⟨hfound, rfl⟩ := Transaction.lift_eq_ok_iff.mp hbefore
  split at hrest
  · cases hrest
    exact .inl ⟨rfl, rfl⟩
  · rename_i hname
    obtain ⟨after, s₂, hrename, hend⟩ := bind_eq_ok_iff.mp hrest
    obtain ⟨file, hfile, rfl, -, rfl⟩ := eq_of_renameFile hrename
    cases hend
    obtain rfl := Option.some.inj (hfile.symm.trans (requireFile_eq_ok_iff.mp hfound))
    refine .inr ⟨_, hfile, ?_, rfl, rfl⟩
    simp only [Bool.or_eq_true, not_or, beq_iff_eq] at hname
    exact hname.2

theorem keeps_renameFile (name : String) (id : RowId) : Keeps Consistent (renameFile name id) := by
  refine Keeps.get_bind fun m => (Keeps.lift _).bind fun before => ?_
  split
  · exact Keeps.pure none
  · exact (Store.keeps_renameFile name).bind fun after => Keeps.pure _

/-- Giving files a name one after the other changes the paths that are reported, and no other. -/
theorem renamed_of_renameFiles {ids : List RowId} (hs : s.Consistent)
    (h : ids.mapM (renameFile name) s = .ok (changes, s')) :
    OnlyFiles s s' ∧ List.Forall₂ (Renamed name changes) s.files s'.files ∧
      ∀ c, some c ∈ changes → ∃ row ∈ s.files, row.name ≠ name ∧ row.path = c.before ∧
        ∃ row' ∈ s'.files, row'.id = row.id ∧ row'.path = c.after := by
  induction ids generalizing s changes with
  | nil =>
    cases h
    exact ⟨rfl, List.forall₂_same.mpr fun row _ => ⟨rfl, .inl ⟨rfl, rfl⟩⟩, by simp⟩
  | cons id ids ih =>
    rw [List.mapM_cons] at h
    obtain ⟨change, s₁, hfirst, hrest⟩ := bind_eq_ok_iff.mp h
    obtain ⟨later, s₂, hrest, hend⟩ := bind_eq_ok_iff.mp hrest
    cases hend
    obtain ⟨honly, hfiles, hreported⟩ := ih (keeps_renameFile _ _ _ _ _ hfirst hs) hrest
    obtain ⟨rfl, rfl⟩ | ⟨file, hfile, hne, rfl, rfl⟩ := eq_or_of_renameFile hfirst
    · refine ⟨honly, hfiles.imp fun row row' hr => ?_, fun c hc => ?_⟩
      · refine ⟨hr.1, hr.2.imp_right ?_⟩
        exact fun ⟨hne, hname, hpath, hmem⟩ => ⟨hne, hname, hpath, List.mem_cons_of_mem _ hmem⟩
      · exact hreported c (by simpa using hc)
    · obtain ⟨hmem, hid⟩ := (find?_key_eq_some_iff hs.files.ids).mp hfile
      have hfiles := List.forall₂_map_left_iff.mp hfiles
      refine ⟨honly, Except.forall₂_imp_of_mem hfiles fun row row' hrow _ hr => ?_, fun c hc => ?_⟩
      · by_cases he : row.id = id
        · rw [if_pos he] at hr
          obtain rfl := List.inj_on_of_nodup_map hs.files.ids hrow hmem (he.trans hid.symm)
          refine ⟨hr.1, .inr ?_⟩
          rcases hr.2 with ⟨hpath, hname⟩ | ⟨hne, -⟩
          · exact ⟨hne, hname, hpath, hpath ▸ List.mem_cons_self⟩
          · exact absurd rfl hne
        · rw [if_neg he] at hr
          refine ⟨hr.1, hr.2.imp_right ?_⟩
          exact fun ⟨hne, hname, hpath, hmem⟩ => ⟨hne, hname, hpath, List.mem_cons_of_mem _ hmem⟩
      · rcases List.mem_cons.mp hc with hc | hc
        · cases hc
          obtain ⟨row', hrow', hr⟩ := Except.exists_of_forall₂ hfiles hmem
          rw [if_pos hid] at hr
          refine ⟨file, hmem, hne, rfl, row', hrow', by rw [hr.1], ?_⟩
          rcases hr.2 with ⟨hpath, -⟩ | ⟨hne, -⟩
          · exact hpath
          · exact absurd rfl hne
        · obtain ⟨row₁, hrow₁, hne₁, hbefore, hafter⟩ := hreported c hc
          obtain ⟨row, hrow, rfl⟩ := List.mem_map.mp hrow₁
          split at hne₁
          · exact absurd rfl hne₁
          · rename_i he
            rw [if_neg he] at hbefore hafter
            exact ⟨row, hrow, hne₁, hbefore, hafter⟩

/-- The new contents are what the renaming makes of the old ones. -/
theorem spec_of_revisions {plan : RenamePlan} (h : plan.revisions s = .ok revisions) :
    ∀ p ∈ revisions, p.1 ∈ s.files ∧ ∃ old, classBytes p.1 = .ok old ∧
      reviseBytes old [plan.edit] = .ok (some p.2) := by
  intro p hp
  obtain ⟨results, hresults, he⟩ := Except.bind_eq_ok_iff.mp h
  cases he
  obtain ⟨_, hmem, rfl⟩ := List.mem_filterMap.mp hp
  obtain ⟨id, -, hid⟩ := Except.exists_of_forall₂ (Except.mapM_eq_ok_iff.mp hresults).flip hmem
  obtain ⟨file, hfile, hrevise⟩ := Except.bind_eq_ok_iff.mp hid
  split at hrevise
  · rename_i content hcontent
    obtain ⟨new, rfl, rfl⟩ := Option.map_eq_some_iff.mp (Except.pure_eq_ok_iff.mp hrevise)
    refine ⟨?_, Except.bind_eq_ok_iff.mp hcontent⟩
    exact List.mem_of_find?_eq_some (requireFile_eq_ok_iff.mp hfile)
  · cases hrevise

/-- Migrations leave files alone. -/
theorem files_of_mapM_migrate {ms : List Migration} {numbers : List RowId} (hs : s.Consistent)
    (h : ms.mapM migrate s = .ok (numbers, s')) : s'.files = s.files := by
  have hkeeps (m : Migration) : Keeps (fun t => t.Consistent ∧ t.files = s.files) (migrate m) := by
    intro t number t' ht hc
    refine ⟨keeps_migrate m t number t' ht hc.1, ?_⟩
    obtain ⟨t₁, t₂, h₁, hmove, g, rfl, -⟩ := exists_of_migrate (fun _ => rfl) ht
    have hmoved : t₂.files = t₁.files := by
      obtain ⟨row, -, -, ⟨-, -, rfl⟩ | ⟨-, -, rfl⟩ | ⟨-, -, -, rfl⟩⟩ :=
        eq_or_of_moveSymbol (h₁.consistent hc.1) hmove <;> rfl
    obtain ⟨f, rfl, -⟩ := h₁
    exact hmoved.trans hc.2
  exact (Keeps.mapM ms (fun m _ => hkeeps m) s numbers s' h ⟨hs, rfl⟩).2

theorem migrated_resignatures {primary : RowId} {resignatures : List (RowId × String)} {u : Unit}
    (h : resignatures.forM (fun p : RowId × String => setSymbolSignature p.1 p.2) s =
      .ok (u, s')) : Migrated id primary s s' ∧ s'.files = s.files := by
  induction resignatures generalizing s with
  | nil =>
    cases h
    exact ⟨Migrated.refl, rfl⟩
  | cons p resignatures ih =>
    obtain ⟨_, s₁, hfirst, hrest⟩ := bind_eq_ok_iff.mp h
    cases hfirst
    obtain ⟨hmigrated, hfiles⟩ := ih hrest
    have hretitled : Retitled primary s (s.modifySymbol p.1 fun row =>
        { row with signature := some p.2 }) :=
      Retitled.modifySymbol (fun _ => rfl) fun _ _ _ => rfl
    exact ⟨hretitled.migrated.trans hmigrated, hfiles⟩

/-! ### The name of the renamed symbol -/

/-- The symbol with a number has a name. -/
def Titled (σ : RowId) (name : String) (s : Store) : Prop :=
  s.Consistent ∧ ∀ row ∈ s.symbols, row.id = σ → row.name = name

variable {σ : RowId}

theorem keeps_titled_moveSymbol {symbol : RowId} {identity : Identity} :
    Keeps (Titled σ name) (moveSymbol symbol identity) := by
  intro s number s' h hs
  refine ⟨keeps_moveSymbol _ _ _ h hs.1, ?_⟩
  obtain ⟨row, -, -, ⟨-, -, rfl⟩ | ⟨-, -, rfl⟩ | ⟨-, -, -, rfl⟩⟩ := eq_or_of_moveSymbol hs.1 h
  · exact hs.2
  · exact hs.2
  · exact List.forall_mem_map.mpr fun r hr => hs.2 r (List.mem_of_mem_filter hr)

theorem keeps_titled_setSymbolSignature {symbol : RowId} (signature : String) :
    Keeps (Titled σ name) (setSymbolSignature symbol signature) := by
  intro s u s' h hs
  refine ⟨keeps_setSymbolSignature _ _ _ _ h hs.1, ?_⟩
  cases h
  refine List.forall_mem_map.mpr fun r hr => ?_
  split
  · exact hs.2 r hr
  · exact hs.2 r hr

/-- The renamed symbol, whose migration comes first, has its new name in the end. -/
theorem titled_of_migrations {plan : RenamePlan} {numbers : List RowId} {s₃ : Store} {u : Unit}
    (hs : s.Consistent) (hprimary : plan.primary.name ≠ none)
    (hdependents : ∀ m ∈ plan.dependents, m.name = none)
    (h : plan.migrations.mapM migrate s = .ok (numbers, s₃))
    (hsignatures : plan.resignatures.forM
      (fun p : RowId × String => setSymbolSignature p.1 p.2) s₃ = .ok (u, s')) :
    ∀ row ∈ s'.symbols, row.id = plan.primary.symbol.id → some row.name = plan.primary.name := by
  obtain ⟨name, hname⟩ := Option.ne_none_iff_exists'.mp hprimary
  rw [hname]
  have hkeeps (m : Migration) : Keeps (Titled plan.primary.symbol.id name) (do
      let id ← moveSymbol m.symbol.id m.identity
      m.signature.forM (setSymbolSignature m.symbol.id)
      return id) :=
    keeps_titled_moveSymbol.bind fun id =>
      (Keeps.optionForM _ keeps_titled_setSymbolSignature).bind fun _ => Keeps.pure id
  rw [migrations, List.mapM_cons] at h
  obtain ⟨number, s₁, hfirst, hrest⟩ := bind_eq_ok_iff.mp h
  obtain ⟨later, s₂, hrest, hend⟩ := bind_eq_ok_iff.mp hrest
  cases hend
  obtain ⟨_, s₀, htitle, hmove⟩ := bind_eq_ok_iff.mp hfirst
  rw [hname] at htitle
  cases htitle
  have h₀ : Titled plan.primary.symbol.id name (s.modifySymbol plan.primary.symbol.id fun row =>
      { row with name }) := by
    refine ⟨keeps_setSymbolName name _ _ _ rfl hs, List.forall_mem_map.mpr fun r hr => ?_⟩
    split
    · exact fun _ => rfl
    · exact fun hid => absurd hid ‹_›
  have h₁ := hkeeps plan.primary _ _ _ hmove h₀
  have hlater (m : Migration) (hm : m ∈ plan.dependents) :
      Keeps (Titled plan.primary.symbol.id name) (migrate m) := by
    rw [migrate, hdependents m hm]
    exact (Keeps.pure ()).bind fun _ => hkeeps m
  have h₃ := Keeps.mapM plan.dependents hlater _ _ _ hrest h₁
  have h' := Keeps.forM _ (fun p _ => keeps_titled_setSymbolSignature p.2) _ _ _ hsignatures h₃
  exact fun row hr hid => congrArg some (h'.2 row hr hid)

end RenamePlan

/-! ### The outcome -/

/-- The tables before and after a rename are what its outcome says: identities go where the list of
moves sends them, and files are as listed. -/
structure RenameOutcome.Describes (outcome : RenameOutcome) (plan : RenamePlan)
    (before after : Store) : Prop where
  /-- The old identity is that of the renamed symbol. -/
  oldIdentity : outcome.oldIdentity = plan.primary.symbol.symbol.identity
  /-- The listed moves are those of the plan. -/
  migratedIdentities : outcome.migratedIdentities = plan.migrations.map Migration.change
  /-- The new identity is where the old one goes. -/
  newIdentity : destination outcome.migratedIdentities outcome.oldIdentity = outcome.newIdentity
  /-- Every identity goes where the list sends it, in all tables. -/
  migrated :
    before.Migrated (destination outcome.migratedIdentities) plan.primary.symbol.id after
  /-- The renamed symbol has its new name. -/
  name : ∀ row ∈ after.symbols, row.id = plan.primary.symbol.id → some row.name = plan.primary.name
  /-- Every listed move is made. -/
  moved : ∀ c ∈ outcome.migratedIdentities,
    destination outcome.migratedIdentities c.before = c.after
  /-- Every file is as listed. -/
  files : List.Forall₂ (FileRow.Revised plan.edit outcome) before.files after.files
  /-- Every listed content is that of a file. -/
  revised_mem : ∀ path ∈ outcome.revisedFiles, ∃ row ∈ before.files, row.path = path
  /-- Every listed path is that of a file, and changed as listed. -/
  renamed_mem : ∀ c ∈ outcome.renamedFiles, ∃ row ∈ before.files, row.path = c.before ∧
    ∃ row' ∈ after.files, row'.id = row.id ∧ row'.path = c.after

namespace RenamePlan

open Store
open Transaction (Keeps bind_eq_ok_iff)

variable {s s' : Store} {identity : Identity} {newName : String} {plan : RenamePlan}
  {revisions : List (FileRow × List UInt8)} {outcome : RenameOutcome} {numbers : List RowId}

/-- The new name of files has one segment. -/
theorem slash_notMem_fileName (h : s.planRename identity newName = .ok plan) {name : String}
    (hname : plan.fileName = some name) : '/' ∉ name.toList := by
  obtain ⟨symbol, -, -, ⟨-, h⟩ | ⟨sort, -, h⟩⟩ := plans_of_planRename h
  · obtain ⟨new, ms, rs, -, -, rfl⟩ := eq_of_planClass h
    obtain rfl := Option.some.inj hname
    rw [String.toList_append, List.mem_append, not_or]
    exact ⟨SlashPath.slash_notMem_lastSegment, by decide⟩
  · obtain ⟨path, -, rfl⟩ := eq_of_planMember h
    cases hname

/-- A commit replaces contents, renames files, moves symbols and changes signatures, in this order. -/
theorem exists_of_commit (h : plan.commit revisions s = .ok ((outcome, numbers), s')) :
    ∃ changes s₁ s₂ s₃,
      revisions.forM (fun p : FileRow × List UInt8 => setContent p.1.id p.2) s = .ok ((), s₁) ∧
      (plan.fileName = none ∧ changes = [] ∧ s₂ = s₁ ∨
        ∃ name, plan.fileName = some name ∧
          (plan.renamedFiles s).mapM (renameFile name) s₁ = .ok (changes, s₂)) ∧
      plan.migrations.mapM migrate s₂ = .ok (numbers, s₃) ∧
      plan.resignatures.forM (fun p : RowId × String => setSymbolSignature p.1 p.2) s₃ =
        .ok ((), s') ∧
      outcome = ⟨plan.primary.symbol.symbol.identity, plan.primary.identity,
        revisions.map (·.1.path), changes.filterMap id, plan.migrations.map Migration.change,
        plan.dynamicReferences s⟩ := by
  obtain ⟨_, s₀, hprimary, hrest⟩ := bind_eq_ok_iff.mp h
  have hs₀ : s₀ = s := by
    rw [requirePrimary, Transaction.get_bind_apply] at hprimary
    split at hprimary
    · cases hprimary
      rfl
    · cases hprimary
  subst hs₀
  rw [Transaction.get_bind_apply] at hrest
  obtain ⟨⟨renamed, ids⟩, s'', happly, hend⟩ := bind_eq_ok_iff.mp hrest
  cases hend
  rw [RenamePlan.apply, Transaction.get_bind_apply] at happly
  obtain ⟨_, s₁, hcontents, happly⟩ := bind_eq_ok_iff.mp happly
  have hnames : ∃ changes s₂, (plan.fileName = none ∧ changes = [] ∧ s₂ = s₁ ∨
        ∃ name, plan.fileName = some name ∧
          (plan.renamedFiles s₀).mapM (renameFile name) s₁ = .ok (changes, s₂)) ∧
      (do
        let ids ← plan.migrations.mapM migrate
        plan.resignatures.forM fun p => setSymbolSignature p.1 p.2
        return (changes.filterMap id, ids) : Transaction _) s₂ = .ok ((renamed, numbers), s') := by
    cases hname : plan.fileName with
    | none =>
      rw [hname] at happly
      exact ⟨[], s₁, .inl ⟨rfl, rfl, rfl⟩, happly⟩
    | some name =>
      rw [hname] at happly
      obtain ⟨changes, s₂, hnames, hrest⟩ := bind_eq_ok_iff.mp happly
      exact ⟨changes, s₂, .inr ⟨name, rfl, hnames⟩, hrest⟩
  obtain ⟨changes, s₂, hnames, hrest⟩ := hnames
  obtain ⟨ids, s₃, hmigrate, hrest⟩ := bind_eq_ok_iff.mp hrest
  obtain ⟨_, s₄, hsignatures, hend⟩ := bind_eq_ok_iff.mp hrest
  cases hend
  exact ⟨changes, s₁, s₂, s₃, hcontents, hnames, hmigrate, hsignatures, rfl⟩

/-- Before its migrations a commit changes files only. -/
theorem exists_onlyFiles_of_commit (hs : s.Consistent)
    (h : plan.commit revisions s = .ok ((outcome, numbers), s')) :
    ∃ s₂ s₃, OnlyFiles s s₂ ∧ s₂.Consistent ∧
      plan.migrations.mapM migrate s₂ = .ok (numbers, s₃) ∧
      plan.resignatures.forM (fun p : RowId × String => setSymbolSignature p.1 p.2) s₃ =
        .ok ((), s') := by
  obtain ⟨changes, s₁, s₂, s₃, hcontents, hnames, hmigrate, hsignatures, -⟩ := exists_of_commit h
  have hs₁ := Keeps.forM _ (fun p _ => keeps_setContent p.2) _ _ _ hcontents hs
  obtain ⟨honly₁, -⟩ := rewritten_of_setContents hcontents
  obtain ⟨-, -, rfl⟩ | ⟨name, -, hnames⟩ := hnames
  · exact ⟨s₂, s₃, honly₁, hs₁, hmigrate, hsignatures⟩
  · obtain ⟨honly₂, -⟩ := renamed_of_renameFiles hs₁ hnames
    have hs₂ := Keeps.mapM _ (fun id _ => keeps_renameFile name id) _ _ _ hnames hs₁
    exact ⟨s₂, s₃, honly₁.trans honly₂, hs₂, hmigrate, hsignatures⟩

theorem keeps_commit (plan : RenamePlan) (revisions : List (FileRow × List UInt8)) :
    Keeps Consistent (plan.commit revisions) := by
  intro s p s' h hs
  obtain ⟨s₂, s₃, -, hs₂, hmigrate, hsignatures⟩ := exists_onlyFiles_of_commit hs h
  have hs₃ := Keeps.mapM _ (fun m _ => keeps_migrate m) _ _ _ hmigrate hs₂
  exact Keeps.forM _ (fun p _ => keeps_setSymbolSignature p.2) _ _ _ hsignatures hs₃

/-- Changes of files move nothing. -/
theorem OnlyFiles.migrated {primary : RowId} (h : OnlyFiles s s') : Migrated id primary s s' := by
  rw [OnlyFiles] at h
  rw [h]
  exact migrated_id rfl rfl (List.map_id _).symm (fun _ => rfl) fun _ _ => rfl

/-- A file after files got a name of one segment: a path that changes is listed. -/
def Repathed (changes : List (Option (Change String))) (row row' : FileRow) : Prop :=
  row' = { row with path := row'.path, name := row'.name } ∧
    (row'.path ≠ row.path → some ⟨row.path, row'.path⟩ ∈ changes ∧
      row'.path = SlashPath.withLastSegment row.path row'.name ∧ '/' ∉ row'.name.toList)

/-- Only files named after a renamed class get another path. -/
theorem repathed_of_renameFiles {changes : List (Option (Change String))} (hs : s.Consistent)
    {ids : List RowId}
    (h : plan.fileName = none ∧ changes = [] ∧ s' = s ∨
      ∃ name, '/' ∉ name.toList ∧ ids.mapM (renameFile name) s = .ok (changes, s')) :
    OnlyFiles s s' ∧ s'.Consistent ∧ List.Forall₂ (Repathed changes) s.files s'.files ∧
      ∀ c, some c ∈ changes → ∃ row ∈ s.files, row.path = c.before ∧
        ∃ row' ∈ s'.files, row'.id = row.id ∧ row'.path = c.after := by
  obtain ⟨-, rfl, rfl⟩ | ⟨name, hslash, h⟩ := h
  · exact ⟨rfl, hs, List.forall₂_same.mpr fun row _ => ⟨rfl, fun h => absurd rfl h⟩, by simp⟩
  · obtain ⟨honly, hfiles, hreported⟩ := renamed_of_renameFiles hs h
    refine ⟨honly, Keeps.mapM _ (fun id _ => keeps_renameFile name id) _ _ _ h hs, ?_, ?_⟩
    · refine hfiles.imp fun row row' hr => ⟨hr.1, fun hne => ?_⟩
      obtain ⟨hpath, -⟩ | ⟨-, hn, hpath, hmem⟩ := hr.2
      · exact absurd hpath hne
      · exact ⟨hmem, hn ▸ hpath, hn ▸ hslash⟩
    · intro c hc
      obtain ⟨row, hrow, -, hrest⟩ := hreported c hc
      exact ⟨row, hrow, hrest⟩

/-- A file whose content and path may have been replaced is as the outcome says. -/
theorem revised_of_rewritten (hs : s.Consistent) (hrevisions : plan.revisions s = .ok revisions)
    (hrevised : outcome.revisedFiles = revisions.map (·.1.path))
    {changes : List (Option (Change String))} (hrenamed : outcome.renamedFiles = changes.filterMap id)
    {row row₁ row' : FileRow} (hrow : row ∈ s.files) (hr : Rewritten revisions row row₁)
    (hr' : Repathed changes row₁ row') : row.Revised plan.edit outcome row' := by
  have hspec := spec_of_revisions hrevisions
  have hsame (p : FileRow × List UInt8) (hp : p ∈ revisions) (hid : p.1.id = row.id) : p.1 = row :=
    List.inj_on_of_nodup_map hs.files.ids (hspec p hp).1 hrow hid
  obtain ⟨hkept₁, hcontent⟩ := hr
  obtain ⟨hkept', hpath⟩ := hr'
  have hid : row₁.id = row.id := by rw [hkept₁]
  have hpath₁ : row₁.path = row.path := by rw [hkept₁]
  constructor
  · rw [hkept', hid]
  · rw [hkept', hkept₁]
  · rw [hkept', hkept₁]
  · intro hnot
    rw [hkept']
    obtain ⟨-, hc⟩ | ⟨p, hp, hid, -⟩ := hcontent
    · exact hc
    · exact absurd (hrevised ▸ List.mem_map.mpr ⟨p, hp, congrArg _ (hsame p hp hid)⟩) hnot
  · intro hmem
    rw [hkept']
    obtain ⟨hnone, -⟩ | ⟨p, hp, hid, hc⟩ := hcontent
    · obtain ⟨p, hp, hpath⟩ := List.mem_map.mp (hrevised ▸ hmem)
      have he := List.inj_on_of_nodup_map hs.files.paths (hspec p hp).1 hrow hpath
      exact absurd (congrArg FileRow.id he) (hnone p hp)
    · obtain ⟨-, old, hold, hnew⟩ := hspec p hp
      exact ⟨old, p.2, hsame p hp hid ▸ hold, hnew, hc⟩
  · intro hne
    obtain ⟨hmem, hlast, hslash⟩ := hpath (hpath₁ ▸ hne)
    rw [hpath₁] at hmem hlast
    refine ⟨?_, hlast, ?_⟩
    · rw [hrenamed]
      exact List.mem_filterMap.mpr ⟨_, hmem, rfl⟩
    · rw [hlast, SlashPath.parent?_withLastSegment hslash]

/-- The identities that a plan moves are different. -/
theorem nodup_sources (hs : s.Consistent) (hplan : s.planRename identity newName = .ok plan) :
    ((plan.migrations.map Migration.change).map Change.before).Nodup := by
  obtain ⟨hrows, hnodup, -, -⟩ := migrations_of_planRename hs hplan
  rw [List.map_map]
  refine List.pairwise_map.mpr ((List.pairwise_map.mp hnodup).imp_of_mem fun hm hm' hne he => hne ?_)
  obtain ⟨row, hrow, hshown⟩ := hrows _ hm
  obtain ⟨row', hrow', hshown'⟩ := hrows _ hm'
  obtain ⟨text, htext, hsymbol⟩ := showSymbol?_eq_some_iff.mp hshown
  obtain ⟨text', htext', hsymbol'⟩ := showSymbol?_eq_some_iff.mp hshown'
  simp only [Function.comp_apply, Migration.change, hsymbol, hsymbol'] at he
  have hidentity := hs.eq_of_identity? htext (he ▸ htext')
  rw [hsymbol, hsymbol', List.inj_on_of_nodup_map hs.symbols.identities hrow hrow' hidentity]

/-- Only the renamed symbol gets a new name. -/
theorem eq_primary_of_name (hs : s.Consistent) (hplan : s.planRename identity newName = .ok plan) :
    ∀ m ∈ plan.migrations, m.name ≠ none → m.symbol.id = plan.primary.symbol.id :=
  List.forall_mem_cons.mpr ⟨fun _ => rfl, fun m hm hname =>
    absurd ((migrations_of_planRename hs hplan).2.2.2 m hm) hname⟩

/-- The tables are ready for the migrations of a plan, as long as only files change. -/
theorem ready_of_planRename (hs : s.Consistent) (hplan : s.planRename identity newName = .ok plan)
    (honly : OnlyFiles s s') (hs' : s'.Consistent) : Ready s' plan.migrations := by
  refine ⟨hs', (migrations_of_planRename hs hplan).2.1, fun m hm => ?_⟩
  obtain ⟨row, hrow, hshown⟩ := (migrations_of_planRename hs hplan).1 m hm
  obtain ⟨text, htext, hsymbol⟩ := showSymbol?_eq_some_iff.mp hshown
  rw [OnlyFiles] at honly
  rw [honly, hsymbol]
  exact ⟨row, hrow, rfl, htext⟩

/-- **What a rename changes.** The outcome of a commit describes the tables before and after it. -/
theorem describes_of_commit (hs : s.Consistent) (hplan : s.planRename identity newName = .ok plan)
    (hrevisions : plan.revisions s = .ok revisions)
    (h : plan.commit revisions s = .ok ((outcome, numbers), s')) : outcome.Describes plan s s' := by
  obtain ⟨-, -, hprimary, hdependents⟩ := migrations_of_planRename hs hplan
  obtain ⟨changes, s₁, s₂, s₃, hcontents, hnames, hmigrate, hsignatures, rfl⟩ := exists_of_commit h
  obtain ⟨honly₁, hfiles₁⟩ := rewritten_of_setContents hcontents
  have hs₁ := Keeps.forM _ (fun p _ => keeps_setContent p.2) _ _ _ hcontents hs
  obtain ⟨honly₂, hs₂, hfiles₂, hreported⟩ := repathed_of_renameFiles hs₁ (hnames.imp_right
    fun ⟨name, hname, h⟩ => ⟨name, slash_notMem_fileName hplan hname, h⟩)
  obtain ⟨hresigned, hfiles₄⟩ := migrated_resignatures hsignatures
  have hfiles : s'.files = s₂.files := hfiles₄.trans (files_of_mapM_migrate hs₂ hmigrate)
  have honly : OnlyFiles s s₂ := honly₁.trans honly₂
  have hsame : Migrated id plan.primary.symbol.id s s₂ := honly.migrated
  have hmigrated := migrated_mapM_migrate (ready_of_planRename hs hplan honly hs₂)
    (eq_primary_of_name hs hplan) hmigrate
  refine
    { oldIdentity := rfl
      migratedIdentities := rfl
      newIdentity := destination_cons_self
      name := titled_of_migrations hs₂ hprimary hdependents hmigrate hsignatures
      migrated := (hsame.trans hmigrated).trans hresigned
      moved := fun c hc => destination_of_mem (nodup_sources hs hplan) hc
      files := ?_
      revised_mem := ?_
      renamed_mem := ?_ }
  · rw [hfiles]
    exact Except.forall₂_trans hfiles₁ hfiles₂ fun row row₁ row' hrow hr hr' =>
      revised_of_rewritten hs hrevisions rfl rfl hrow hr hr'
  · refine List.forall_mem_map.mpr fun p hp => ⟨p.1, ?_, rfl⟩
    exact (spec_of_revisions hrevisions p hp).1
  · intro c hc
    obtain ⟨_, hmem, rfl⟩ := List.mem_filterMap.mp hc
    obtain ⟨row₁, hrow₁, hbefore, row', hrow', hid, hafter⟩ := hreported c hmem
    obtain ⟨row, hrow, hr⟩ := Except.exists_of_forall₂ hfiles₁.flip hrow₁
    have hid₁ : row₁.id = row.id := by rw [hr.1]
    have hpath₁ : row₁.path = row.path := by rw [hr.1]
    exact ⟨row, hrow, hpath₁ ▸ hbefore, row', hfiles ▸ hrow', hid.trans hid₁, hafter⟩

end RenamePlan

end ClassAtlas
