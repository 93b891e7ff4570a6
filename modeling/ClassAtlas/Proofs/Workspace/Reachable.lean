import ClassAtlas.Proofs.Mapping.Sequential
import ClassAtlas.Proofs.Workspace.Renamed
import ClassAtlas.Workspace.Transfer

/-!
# Workspaces that can be reached

A workspace is empty at first and changes by imports, by mapping and by renames, each of which may
fail. The steps of a mapping run may come in any order. Whatever happens, its store stays sound. A rename that fails changes nothing, and one that
succeeds changes exactly what it reports; after the rename of a class nothing has the old name.

## Main definitions

* `ClassAtlas.Index.Reachable` — the states of a workspace.

## Main results

* `ClassAtlas.Index.Reachable.sound` — the tables of every workspace are sound.
* `ClassAtlas.Index.rename_eq_or_describes` — a rename is all or nothing.
* `ClassAtlas.Index.rename_class_complete` — the rename of a class reaches every identity.
-/

set_option autoImplicit false

namespace ClassAtlas

/-! ### Imports -/

namespace Store

open Transaction (Keeps)

variable {rule : SymbolRule} {P : Store → Prop}

/-- What storing files and deleting stale entries keeps, an import keeps. -/
theorem keeps_importFile
    (hinsert : ∀ path archive isDirectory content,
      Keeps P (insertFile path archive isDirectory content))
    (hdelete : ∀ archive paths, Keeps P (deleteOtherEntries archive paths)) (path : String)
    (content : Content) : Keeps P (importFile path content) := by
  unfold importFile
  split
  · split
    · refine (hinsert _ _ _ _).bind fun archive => ?_
      refine (Keeps.mapM _ fun entry _ => (hinsert _ _ _ _).bind fun _ => Keeps.pure _).bind
        fun paths => ?_
      exact (hdelete archive paths).bind fun _ => Keeps.pure _
    · exact Keeps.throw _
    · exact Keeps.throw _
  · exact hinsert _ _ _ _

theorem keeps_obeys_deleteOtherEntries (archive : RowId) (paths : List String) :
    Keeps (Obeys rule) (deleteOtherEntries archive paths) :=
  Keeps.get_bind fun _ => Keeps.forM _ fun _ _ =>
    keeps_obeys_clearMappings.bind fun _ => keeps_obeys_deleteFile

/-- An import keeps every rule for symbols. -/
theorem keeps_obeys_importFile (path : String) (content : Content) :
    Keeps (Obeys rule) (importFile path content) :=
  keeps_importFile keeps_obeys_insertFile keeps_obeys_deleteOtherEntries path content

end Store

namespace Index

variable {index index' : Index} {identity : Identity} {newName : String} {outcome : RenameOutcome}

/-! ### Renames -/

/-- A rename that is planned, whose contents are revised and which is committed, succeeds. -/
theorem rename_eq_ok {plan : RenamePlan} {revisions : List (FileRow × List UInt8)}
    {numbers : List RowId} {store : Store}
    (hplan : index.store.planRename identity newName = .ok plan)
    (hrevisions : plan.revisions index.store = .ok revisions)
    (hcommit : plan.commit revisions index.store = .ok ((outcome, numbers), store)) :
    rename identity newName index = (.ok outcome,
      ⟨store, index.cache.migrate (outcome.migratedIdentities.zip numbers)⟩) := by
  simp only [rename, Session.bind_apply, query, hplan, hrevisions, transact, hcommit]
  rfl

/-- A rename that fails changes nothing. A rename that succeeds follows its plan: it commits the
revised contents and then lets the cache know. -/
theorem rename_cases (index : Index) (identity : Identity) (newName : String) :
    (∃ e, rename identity newName index = (.error e, index)) ∨
      ∃ plan revisions outcome numbers store, index.store.planRename identity newName = .ok plan ∧
        plan.revisions index.store = .ok revisions ∧
        plan.commit revisions index.store = .ok ((outcome, numbers), store) ∧
        rename identity newName index = (.ok outcome,
          ⟨store, index.cache.migrate (outcome.migratedIdentities.zip numbers)⟩) := by
  cases hplan : index.store.planRename identity newName with
  | error e => exact .inl ⟨e, by rw [rename, Session.bind_apply, query, hplan]⟩
  | ok plan =>
    cases hrevisions : plan.revisions index.store with
    | error e =>
      left
      refine ⟨e, ?_⟩
      simp only [rename, Session.bind_apply, query, hplan, hrevisions]
    | ok revisions =>
      cases hcommit : plan.commit revisions index.store with
      | error e =>
        left
        refine ⟨e, ?_⟩
        simp only [rename, Session.bind_apply, query, hplan, hrevisions, transact, hcommit]
      | ok result =>
        right
        obtain ⟨⟨outcome, numbers⟩, store⟩ := result
        exact ⟨plan, revisions, outcome, numbers, store, rfl, hrevisions, hcommit,
          rename_eq_ok hplan hrevisions hcommit⟩

/-- A rename that succeeds was planned and committed. -/
theorem exists_of_rename (h : rename identity newName index = (.ok outcome, index')) :
    ∃ plan revisions numbers, index.store.planRename identity newName = .ok plan ∧
      plan.revisions index.store = .ok revisions ∧
      plan.commit revisions index.store = .ok ((outcome, numbers), index'.store) := by
  obtain ⟨e, he⟩ | ⟨plan, revisions, outcome₁, numbers, store, hplan, hrevisions, hcommit, he⟩ :=
    rename_cases index identity newName
  · rw [he] at h
    cases h
  · rw [he] at h
    cases h
    exact ⟨plan, revisions, numbers, hplan, hrevisions, hcommit⟩

/-- The files that a plan reaches, not yet in order. -/
def filesOf (plan : RenamePlan) (store : Store) : List RowId :=
  plan.migrations.filterMap (·.symbol.symbol.file) ++ (plan.references store).map (·.reference.file)

theorem files_eq_of_filesOf {plan : RenamePlan} {store : Store} {ids files : List RowId}
    (hids : filesOf plan store = ids) (hsorted : RenamePlan.sorted ids = files) :
    plan.files store = files := by
  rw [← hsorted, ← hids]
  rfl

/-- The commit of a plan with the revisions of given files. -/
def commitFiles (plan : RenamePlan) (files : List RowId) (store : Store) :
    Except Error ((RenameOutcome × List RowId) × Store) :=
  (files.mapM (plan.reviseFile store)).bind fun revised => plan.commit (revised.filterMap id) store

/-- A rename whose plan and files are known is computed. -/
theorem exists_rename_of_files {plan : RenamePlan} {files : List RowId}
    (p : RenameOutcome → Store → Bool) (hplan : index.store.planRename identity newName = .ok plan)
    (hfiles : plan.files index.store = files)
    (hrun : (commitFiles plan files index.store).toOption.any
      (fun result => p result.1.1 result.2) = true) :
    ∃ outcome index', rename identity newName index = (.ok outcome, index') ∧
      p outcome index'.store = true := by
  obtain ⟨⟨⟨outcome, numbers⟩, store⟩, hcommit, hp⟩ := (Option.any_eq_true _ _).mp hrun
  rw [commitFiles] at hcommit
  cases hrevised : files.mapM (plan.reviseFile index.store) with
  | error e =>
    rw [hrevised] at hcommit
    cases hcommit
  | ok revised =>
    have hrevisions : plan.revisions index.store = .ok (revised.filterMap id) := by
      rw [RenamePlan.revisions, hfiles, hrevised]
      rfl
    rw [hrevised] at hcommit
    change (plan.commit (revised.filterMap id) index.store).toOption = some _ at hcommit
    cases hresult : plan.commit (revised.filterMap id) index.store with
    | error e =>
      rw [hresult] at hcommit
      cases hcommit
    | ok result =>
      rw [hresult] at hcommit
      cases hcommit
      exact ⟨outcome, _, rename_eq_ok hplan hrevisions hresult, hp⟩

/-! ### States of a workspace -/

/-- The states of a workspace: it is empty at first, and imports, mapping runs and renames change it,
whether or not they fail. -/
inductive Reachable : Index → Prop where
  /-- A workspace is empty at first. -/
  | empty : Reachable Index.empty
  /-- A file or an archive is imported. -/
  | importFile {index : Index} (path : String) (content : Content) (h : Reachable index) :
    Reachable (Index.importFile path content index).2
  /-- Files are mapped, in any order of the steps. -/
  | map {memory : Memory} {settings : QueueSettings} {files : List FileRow} {acts : List Act}
    {result : Except Error MapReport} {index index' : Index} (h : Reachable index)
    (hfiles : ∀ file ∈ files, file ∈ index.store.files)
    (hmaps : Maps memory settings files index acts result index') : Reachable index'
  /-- A symbol is renamed. -/
  | rename {index : Index} (identity : Identity) (newName : String) (h : Reachable index) :
    Reachable (Index.rename identity newName index).2

/-- A property of tables lasts through a rename, if it lasts through what an outcome describes. -/
theorem rename_keeps {P : Store → Prop} (hc : index.store.Consistent) (h : P index.store)
    (hdescribed : ∀ plan (outcome : RenameOutcome) store,
      index.store.planRename identity newName = .ok plan →
      outcome.Describes plan index.store store → store.Consistent → P store) :
    P (rename identity newName index).2.store := by
  obtain ⟨e, he⟩ | ⟨plan, revisions, outcome, numbers, store, hplan, hrevisions, hcommit, he⟩ :=
    rename_cases index identity newName
  · rw [he]
    exact h
  · rw [he]
    exact hdescribed plan outcome store hplan
      (RenamePlan.describes_of_commit hc hplan hrevisions hcommit)
      (RenamePlan.keeps_commit plan revisions _ _ _ hcommit hc)

theorem sound_rename (hs : index.store.Sound) :
    (rename identity newName index).2.store.Sound :=
  rename_keeps hs.consistent hs fun _ _ _ hplan hd hc => RenamePlan.sound_of_describes hs hplan hd hc

/-- **The tables of every workspace are sound.** -/
theorem Reachable.sound (h : index.Reachable) : index.store.Sound := by
  induction h with
  | empty => exact Store.sound_iff_obeys.mpr Store.obeys_empty
  | importFile path content _ ih =>
    exact Store.sound_iff_obeys.mpr
      (transact_keeps (Store.keeps_obeys_importFile path content) (Store.sound_iff_obeys.mp ih))
  | map _ _ hmaps ih => exact hmaps.sound ih
  | rename identity newName _ ih => exact sound_rename ih

/-- All files are mapped, in the fixed order. -/
theorem Reachable.mapAll (settings : QueueSettings) (h : index.Reachable) :
    (Index.mapAll settings index).2.Reachable := by
  have hmaps : ∃ acts, Maps .ample settings index.store.topLevelFiles index acts _ _ :=
    maps_mapAll h.sound.consistent rfl rfl
  obtain ⟨acts, hmaps⟩ := hmaps
  exact .map h (fun _ hfile => (Store.mem_topLevelFiles.mp hfile).1) hmaps

/-- Some files are mapped, in the fixed order. -/
theorem Reachable.mapFiles (settings : QueueSettings) (ids : List RowId) (h : index.Reachable) :
    (Index.mapFiles settings ids index).2.Reachable := by
  rcases eq_or_maps_mapFiles settings ids h.sound.consistent with he | ⟨files, acts, hfiles, hmaps⟩
  · rwa [he]
  · exact .map h hfiles hmaps

/-! ### A small workspace -/

/-- A class without members. -/
def bareClass (name : String) : ClassFile :=
  { ClassFile.blank with
    pool := ⟨#[none, some (.text name), some (.classRef 1)]⟩
    thisClass := 2 }

/-- A class `A` with a method that takes an `A`. -/
def selfTaking : ClassFile :=
  { ClassFile.blank with
    pool := ⟨#[none, some (.text "A"), some (.classRef 1), some (.text "m"), some (.text "(LA;)V")]⟩
    thisClass := 2
    methods := [⟨0, 3, 4, []⟩] }

/-- The workspace with the file of that class, after it was mapped. -/
def selfTakingIndex : Index :=
  (mapAll .standard (importFile "A.class" (.bytes selfTaking.encode) empty).2).2

theorem reachable_selfTakingIndex : selfTakingIndex.Reachable :=
  .mapAll _ (.importFile _ _ .empty)

/-- What has to change if `A` is renamed to `B`. -/
def selfTakingPlan : RenamePlan where
  edit := .ofClass ⟨"A", "B"⟩
  primary := ⟨⟨1, 1, ⟨.classSymbol, ⟨"A"⟩, "A", some 1, none, 0, none⟩⟩, ⟨"B"⟩, some "B", none⟩
  dependents := [⟨⟨2, 2, ⟨.methodSymbol, ⟨"A::m(LA;)V"⟩, "m", some 1, some ⟨"A"⟩, 0, none⟩⟩,
    ⟨"B::m(LB;)V"⟩, none, none⟩]
  resignatures := []
  fileName := some "B.class"

theorem planRename_selfTaking :
    selfTakingIndex.store.planRename ⟨"A"⟩ "B" = .ok selfTakingPlan := by decide +kernel

theorem files_selfTaking : selfTakingPlan.files selfTakingIndex.store = [1] := by
  have hids : filesOf selfTakingPlan selfTakingIndex.store = [1, 1, 1, 1] := by decide +kernel
  exact files_eq_of_filesOf hids (by cbv)

theorem exists_rename_selfTaking :
    ∃ outcome index', rename ⟨"A"⟩ "B" selfTakingIndex = (.ok outcome, index') := by
  obtain ⟨outcome, index', hrun, -⟩ := exists_rename_of_files (fun _ _ => true) planRename_selfTaking
    files_selfTaking (by decide +kernel)
  exact ⟨outcome, index', hrun⟩

/-! ### What a rename does -/

/-- **A rename is all or nothing, and does what it reports.** If it fails, tables and cache are as they
were. If it succeeds, the tables before and after are what its outcome says of the plan. -/
theorem rename_eq_or_describes (h : index.Reachable) (identity : Identity) (newName : String) :
    match rename identity newName index with
    | (.error _, index') => index' = index
    | (.ok outcome, index') =>
      index.store.Consistent ∧ index'.store.Consistent ∧
        ∃ plan, index.store.planRename identity newName = .ok plan ∧
          index.store.symbolOf? identity = some plan.primary.symbol ∧
          outcome.Describes plan index.store index'.store := by
  have hs := h.sound
  obtain ⟨e, he⟩ | ⟨plan, revisions, outcome, numbers, store, hplan, hrevisions, hcommit, he⟩ :=
    rename_cases index identity newName
  · rw [he]
  · rw [he]
    exact ⟨hs.consistent, RenamePlan.keeps_commit plan revisions _ _ _ hcommit hs.consistent, plan,
      hplan, (Store.primary_of_planRename hplan).1,
      RenamePlan.describes_of_commit hs.consistent hplan hrevisions hcommit⟩

/-- The class `A` is renamed to `B`, and the outcome describes that. -/
theorem exists_describes_selfTaking : ∃ outcome index',
    rename ⟨"A"⟩ "B" selfTakingIndex = (.ok outcome, index') ∧
      outcome.Describes selfTakingPlan selfTakingIndex.store index'.store := by
  obtain ⟨outcome, index', hrun⟩ := exists_rename_selfTaking
  have h := rename_eq_or_describes reachable_selfTakingIndex ⟨"A"⟩ "B"
  rw [hrun] at h
  obtain ⟨-, -, plan, hplan, -, hd⟩ := h
  obtain rfl := Except.ok.inj (hplan.symm.trans planRename_selfTaking)
  exact ⟨outcome, index', hrun, hd⟩

/-- **The rename of a class reaches every identity.** Afterwards the old name has no identity. The new
one is that of the same symbol, which is declared where it was and has the new name. No other symbol
is owned by a class of the old name, the parts of no identity mention it, and so none would move
again. (The only other identity that a symbol could get keeps its parts: a method whose descriptor
does not start with its parenthesis has an identity that is not spelled as its parts are.)

**Proof sketch.** The identities that mention the old name are among those that the store finds by the
number of the owner or by the descriptor, and all of these move. What moves does not mention the old
name again, and nothing else mentions it. -/
theorem rename_class_complete (h : index.Reachable) {symbol : StoredSymbol}
    (hsymbol : index.store.symbolOf? identity = some symbol)
    (hkind : symbol.symbol.kind = .classSymbol)
    (hrun : rename identity newName index = (.ok outcome, index')) :
    ∃ new, targetClassName identity identity.className newName = .ok new ∧
      outcome.newIdentity = .ofClass new ∧
      index'.store.identityId? (.ofClass identity.className) = none ∧
      (∃ shown, index'.store.symbolOf? (.ofClass new) = some shown ∧ shown.id = symbol.id ∧
        shown.symbol.file = symbol.symbol.file ∧ shown.symbol.name = new) ∧
      symbol.symbol.isPlaceholder = false ∧
      ∀ row ∈ index'.store.symbols, ∀ shown, index'.store.showSymbol? row = some shown →
        shown.symbol.identity ≠ .ofClass identity.className ∧
        shown.symbol.owner ≠ some (.ofClass identity.className) ∧
        (∀ sort path, shown.symbol.kind.memberSort? = some sort →
          shown.symbol.identity.split sort = .ok path →
            path.owner.className ≠ identity.className ∧
            ClassRename.descriptor? ⟨identity.className, new⟩ path.descriptor = none) ∧
        ∀ moved, shown.movedIdentity? ⟨identity.className, new⟩ = .ok (some moved) →
          ∃ owner name descriptor path,
            shown.symbol.identity = .ofMethod (.ofClass owner) name descriptor ∧
            descriptor.toList.head? ≠ some '(' ∧ shown.symbol.identity.splitMethod = .ok path ∧
            moved = .ofMethod path.owner path.name path.descriptor := by
  obtain ⟨e, he⟩ | ⟨plan, revisions, outcome', numbers, store, hplan, hrevisions, hcommit, he⟩ :=
    rename_cases index identity newName
  · rw [he] at hrun
    cases hrun
  · rw [he] at hrun
    cases hrun
    have hs := h.sound
    have hd := RenamePlan.describes_of_commit hs.consistent hplan hrevisions hcommit
    have hc := RenamePlan.keeps_commit plan revisions _ _ _ hcommit hs.consistent
    obtain ⟨symbol', hsymbol', hfile, ⟨-, hclass⟩ | ⟨sort, hsort, -⟩⟩ := Store.plans_of_planRename hplan
    · obtain rfl : symbol' = symbol := Option.some.inj (hsymbol'.symm.trans hsymbol)
      have hidentity := (Store.exists_of_symbolOf? hsymbol).1
      obtain ⟨new, hnew, hprimary, htarget, hname, hplans⟩ :=
        Store.plansClass_of_planClass hs hsymbol (by rw [hkind]; rfl) hclass
      rw [hidentity] at hnew hplans
      have hmoves : outcome.migratedIdentities = _ :=
        hd.migratedIdentities.trans (RenamePlan.moves_of_plansClass hplans hprimary htarget)
      have hmigrated := hd.migrated
      rw [hmoves] at hmigrated
      have hgone := hplans.forall_ne_of_migrated hs hmigrated
      have hne {id : RowId} {text : Identity} (ht : store.identity? id = some text) :
          text ≠ .ofClass identity.className :=
        hgone _ (hc.identity?_eq_some_iff.mp ht)
      refine ⟨new, hnew, ?_, Store.Consistent.identityId?_eq_none_iff.mpr hgone, ?_,
        by simpa [Symbol.isPlaceholder] using Option.isSome_iff_ne_none.mpr hfile, ?_⟩
      · rw [← hd.newIdentity, hd.oldIdentity, hmoves, hprimary, hplans.identity]
        exact Store.PlansClass.destination_old _ _
      · have htitle := hd.name
        rw [hprimary, hname] at htitle
        rw [hprimary] at hmigrated
        exact hplans.exists_renamed_of_migrated hfile hc hmigrated htitle
      · intro row' hrow' shown hshown
        obtain ⟨text, htext, rfl⟩ := Store.showSymbol?_eq_some_iff.mp hshown
        obtain ⟨row, hrow, hf⟩ := hmigrated.origin row' hrow'
        have hsound : store.Sound := RenamePlan.sound_of_describes hs hplan hd hc
        have hfree {sort : MemberSort} {path : MemberPath} (hsort : row'.kind.memberSort? = some sort)
            (hpath : text.split sort = .ok path) : ¬path.Mentions ⟨identity.className, new⟩ :=
          hplans.not_mentions_of_follows hs hrow hf hsort htext hpath
        refine ⟨hne htext, fun howner => ?_, fun sort path hsort hpath => ?_, fun moved hmoved => ?_⟩
        · obtain ⟨id, -, hid⟩ := Option.bind_eq_some_iff.mp howner
          exact hne hid rfl
        · have hfree := hfree hsort hpath
          rw [MemberPath.Mentions, not_or, not_not] at hfree
          exact hfree
        · exact Store.respelled_of_movedIdentity? hsound hrow' hshown (fun _ _ => hfree) hmoved
    · have hkind' : symbol'.symbol.kind = .classSymbol := by
        rw [Option.some.inj (hsymbol'.symm.trans hsymbol), hkind]
      rw [hkind'] at hsort
      cases hsort

/-- After the rename of `A` to `B` nothing is known of `A`, and `B` is the class. -/
theorem rename_class_complete_selfTaking : ∃ outcome index',
    rename ⟨"A"⟩ "B" selfTakingIndex = (.ok outcome, index') ∧
      index'.store.identityId? ⟨"A"⟩ = none ∧
      (∃ shown, index'.store.symbolOf? ⟨"B"⟩ = some shown ∧ shown.id = 1 ∧
        shown.symbol.file = some 1 ∧ shown.symbol.name = "B") ∧
      ∀ row ∈ index'.store.symbols, ∀ shown, index'.store.showSymbol? row = some shown →
        shown.symbol.identity ≠ ⟨"A"⟩ ∧ shown.symbol.owner ≠ some ⟨"A"⟩ := by
  obtain ⟨outcome, index', hrun⟩ := exists_rename_selfTaking
  have hsymbol : selfTakingIndex.store.symbolOf? ⟨"A"⟩ = some selfTakingPlan.primary.symbol := by
    decide +kernel
  obtain ⟨new, hnew, -, hgone, hshown, -, hall⟩ :=
    rename_class_complete reachable_selfTakingIndex hsymbol rfl hrun
  have htarget : targetClassName ⟨"A"⟩ "A" "B" = .ok "B" := by decide +kernel
  obtain rfl : "B" = new := Except.ok.inj (htarget.symm.trans hnew)
  exact ⟨outcome, index', hrun, hgone, hshown, fun row hrow shown h =>
    ⟨(hall row hrow shown h).1, (hall row hrow shown h).2.1⟩⟩

/-! ### An identity that is spelled anew -/

/-- A class `C` with a method `m` whose descriptor has a separator before its parenthesis. -/
def misdescribed : ClassFile :=
  { ClassFile.blank with
    pool := ⟨#[none, some (.text "C"), some (.classRef 1), some (.text "m"), some (.text "x:()V")]⟩
    thisClass := 2
    methods := [⟨9, 3, 4, []⟩] }

/-- The workspace with an archive of the classes `A` and `C`, after it was mapped. -/
def misdescribedIndex : Index :=
  (mapAll .standard (importFile "a.jar"
    (.packed [⟨"A.class", (bareClass "A").encode⟩, ⟨"C.class", misdescribed.encode⟩]) empty).2).2

theorem reachable_misdescribedIndex : misdescribedIndex.Reachable :=
  .mapAll _ (.importFile _ _ .empty)

/-- What has to change if `A` is renamed to `D`: nothing in `C`. -/
def misdescribedPlan : RenamePlan where
  edit := .ofClass ⟨"A", "D"⟩
  primary := ⟨⟨1, 1, ⟨.classSymbol, ⟨"A"⟩, "A", some 2, none, 0, none⟩⟩, ⟨"D"⟩, some "D", none⟩
  dependents := []
  resignatures := []
  fileName := some "D.class"

/-- **An identity that would be spelled anew.** The method of `C` is left alone by the rename of `A` to
`D`, as it mentions neither of them; but once more through that rename it would get another identity. -/
theorem exists_respelled : ∃ outcome index', misdescribedIndex.Reachable ∧
    misdescribedIndex.store.symbolOf? ⟨"A"⟩ = some misdescribedPlan.primary.symbol ∧
    rename ⟨"A"⟩ "D" misdescribedIndex = (.ok outcome, index') ∧
      ∃ row ∈ index'.store.symbols, ∃ shown, index'.store.showSymbol? row = some shown ∧
        shown.symbol.identity = ⟨"C::mx:()V"⟩ ∧
        shown.movedIdentity? ⟨"A", "D"⟩ = .ok (some ⟨"C::mx\\:()V"⟩) := by
  let row : SymbolRow := ⟨3, 3, .methodSymbol, "m", some 3, some 2, 9, none⟩
  let shown : StoredSymbol :=
    ⟨3, 3, ⟨.methodSymbol, ⟨"C::mx:()V"⟩, "m", some 3, some ⟨"C"⟩, 9, none⟩⟩
  have hplan : misdescribedIndex.store.planRename ⟨"A"⟩ "D" = .ok misdescribedPlan := by
    decide +kernel
  have hids : filesOf misdescribedPlan misdescribedIndex.store = [2, 2] := by decide +kernel
  have hsorted : RenamePlan.sorted [2, 2] = [2] := by cbv
  obtain ⟨outcome, index', hrun, hrow⟩ := exists_rename_of_files
    (fun _ store => store.symbols.contains row && decide (store.showSymbol? row = some shown))
    hplan (files_eq_of_filesOf hids hsorted) (by decide +kernel)
  obtain ⟨hmem, hshown⟩ := Bool.and_eq_true_iff.mp hrow
  have hmoved : shown.movedIdentity? ⟨"A", "D"⟩ = .ok (some ⟨"C::mx\\:()V"⟩) := by decide +kernel
  exact ⟨outcome, index', reachable_misdescribedIndex, by decide +kernel, hrun, row,
    List.contains_iff_mem.mp hmem, shown, of_decide_eq_true hshown, rfl, hmoved⟩

end Index

end ClassAtlas
