import ClassAtlas.Proofs.Workspace.Parts

/-!
# Renaming back

In a workspace that was only filled and mapped, every symbol has the identity of its name. If such a
symbol gets a new name that nothing has, and then its old name again, the tables of the identities, the
symbols and the references are as they were. There is one exception: a signature that names a class with
a `.` after it may be found by the first rename, because of something else in it, and not by the second.

## Main definitions

* `ClassAtlas.Index.Gathered` — the states of a workspace without renames.
* `ClassAtlas.Store.MethodsFit` — a store in which the descriptors of methods start with their
  parenthesis.
* `ClassAtlas.Store.Fresh` — a new name of a class that nothing mentions.
* `ClassAtlas.RenamePlan.Moved` — the tables before and after a rename in place.

## Main results

* `ClassAtlas.Index.Gathered.spelled` — every symbol has the identity of its name.
* `ClassAtlas.ClassRename.signature_back` — the signature of a symbol comes back.
* `ClassAtlas.Index.tables_of_rename_back` — the tables come back.
* `ClassAtlas.Index.exists_changed` — a signature that does not come back.
-/

set_option autoImplicit false

namespace ClassAtlas

/-! ### Workspaces without renames -/

namespace Index

variable {index : Index}

/-- The states of a workspace that was only filled and mapped, whether or not that failed. -/
inductive Gathered : Index → Prop where
  /-- A workspace is empty at first. -/
  | empty : Gathered Index.empty
  /-- A file or an archive is imported. -/
  | importFile {index : Index} (path : String) (content : Content) (h : Gathered index) :
    Gathered (Index.importFile path content index).2
  /-- Files are mapped, in any order of the steps. -/
  | map {memory : Memory} {settings : QueueSettings} {files : List FileRow} {acts : List Act}
    {result : Except Error MapReport} {index index' : Index} (h : Gathered index)
    (hfiles : ∀ file ∈ files, file ∈ index.store.files)
    (hmaps : Maps memory settings files index acts result index') : Gathered index'

theorem Gathered.reachable (h : index.Gathered) : index.Reachable := by
  induction h with
  | empty => exact .empty
  | importFile path content _ ih => exact .importFile path content ih
  | map _ hfiles hmaps ih => exact .map ih hfiles hmaps

/-- All files are mapped, in the fixed order. -/
theorem Gathered.mapAll (settings : QueueSettings) (h : index.Gathered) :
    (Index.mapAll settings index).2.Gathered := by
  have hmaps : ∃ acts, Maps .ample settings index.store.topLevelFiles index acts _ _ :=
    maps_mapAll h.reachable.sound.consistent rfl rfl
  obtain ⟨acts, hmaps⟩ := hmaps
  exact .map h (fun _ hfile => (Store.mem_topLevelFiles.mp hfile).1) hmaps

/-- Some files are mapped, in the fixed order. -/
theorem Gathered.mapFiles (settings : QueueSettings) (ids : List RowId) (h : index.Gathered) :
    (Index.mapFiles settings ids index).2.Gathered := by
  rcases eq_or_maps_mapFiles settings ids h.reachable.sound.consistent with
    he | ⟨files, acts, hfiles, hmaps⟩
  · rwa [he]
  · exact .map h hfiles hmaps

/-- **Every symbol has the identity of its name**, as long as nothing was renamed. -/
theorem Gathered.spelled (h : index.Gathered) : index.store.Obeys IsSpelled := by
  induction h with
  | empty => exact Store.obeys_empty
  | importFile path content _ ih => exact transact_keeps (Store.keeps_obeys_importFile path content) ih
  | map _ _ hmaps ih => exact hmaps.obeys steady_isSpelled reported_isSpelled ih

end Index

/-! ### Parts with the name of the symbol -/

namespace Store

variable {s : Store} {row : SymbolRow} {sort : MemberSort} {r : ClassRename}

/-- The descriptors of methods start with their parenthesis. -/
def MethodsFit (s : Store) : Prop :=
  ∀ row ∈ s.symbols, row.kind = .methodSymbol → ∀ owner descriptor,
    s.identity? row.identity = some (.ofMethod (.ofClass owner) row.name descriptor) →
      descriptor.toList.head? = some '('

/-- A member has parts with its own name. -/
theorem MethodsFit.exists_hasParts (h : s.MethodsFit) (hs : s.Obeys IsSpelled) (hrow : row ∈ s.symbols)
    (hsort : row.kind.memberSort? = some sort) : ∃ owner descriptor,
      SymbolRow.HasParts s row sort ⟨.ofClass owner, row.name, descriptor⟩ := by
  have hspelled := hs.symbols row hrow
  rw [SymbolRow.Obeys, IsSpelled, hsort] at hspelled
  obtain ⟨owner, descriptor, howner, hidentity⟩ := hspelled
  refine ⟨owner, descriptor, hsort, ⟨⟨owner, rfl⟩, fun hmethod => ?_⟩, howner, hidentity⟩
  subst hmethod
  have hkind : row.kind = .methodSymbol := by
    cases hkind : row.kind <;> rw [hkind] at hsort <;> cases hsort
  exact h row hrow hkind owner descriptor hidentity

/-- A class without dots in its name has the name that its identity says. -/
theorem name_eq_className (hs : s.Obeys IsSpelled) {symbol : StoredSymbol} {identity : Identity}
    (hsymbol : s.symbolOf? identity = some symbol) (hkind : symbol.symbol.kind.memberSort? = none)
    (hdot : '.' ∉ symbol.symbol.name.toList) : symbol.symbol.name = identity.className := by
  obtain ⟨hidentity, row, hrow, hshown⟩ := exists_of_symbolOf? hsymbol
  have hspelled := hs.symbols row hrow
  rw [memberSort?_of_shown hshown] at hkind
  obtain ⟨text, htext, rfl⟩ := showSymbol?_eq_some_iff.mp hshown
  rw [SymbolRow.Obeys, IsSpelled, hkind, htext] at hspelled
  have hidentity : text = identity := hidentity
  rw [← hidentity, Option.some.inj hspelled, Identity.className_ofClass,
    ClassName.slashed_of_dot_notMem hdot]

/-- A new name of a class that no member and no signature mentions. -/
structure Fresh (s : Store) (r : ClassRename) : Prop where
  /-- The new name does not look like one with type arguments. -/
  opening : '<' ∉ r.new.toList
  /-- No member has an owner of the new name or a descriptor that names it. -/
  members : ∀ row ∈ s.symbols, ∀ sort owner descriptor, row.kind.memberSort? = some sort →
    s.identity? row.identity =
        some (MemberPath.identity ⟨.ofClass owner, row.name, descriptor⟩ sort) →
      ClassName.slashed owner ≠ r.new ∧ r.back.descriptor? descriptor = none
  /-- No signature names the new class. -/
  signatures : ∀ row ∈ s.symbols, ∀ signature ∈ row.signature, ∀ names,
    Signature.classes? signature = some names → r.new ∉ names

/-- No signature names a class with a `.` after it. -/
def NamesNoOuter (s : Store) (name : String) : Prop :=
  ∀ row ∈ s.symbols, ∀ signature ∈ row.signature, ¬ 'L' :: name.toList ++ ['.'] <:+: signature.toList

theorem Fresh.vacant (h : s.Fresh r) (hs : s.Obeys IsSpelled) (hfit : s.MethodsFit)
    (hfresh : s.identityId? (.ofClass r.new) = none) : s.Vacant r := by
  refine ⟨Consistent.identityId?_eq_none_iff.mp hfresh, fun row hrow sort path hp => ?_⟩
  obtain ⟨owner, descriptor, hp'⟩ := hfit.exists_hasParts hs hrow hp.kind
  obtain ⟨-, rfl⟩ := hp.legible.eq_of_identity hp'.legible
    (Option.some.inj (hp.identity.symm.trans hp'.identity))
  obtain ⟨howner, hdescriptor⟩ := h.members row hrow sort owner descriptor hp.kind hp.identity
  rw [MemberPath.Mentions, not_or, not_not]
  exact ⟨by rwa [Identity.className_ofClass], hdescriptor⟩

end Store

theorem Index.Gathered.legible {index : Index} (h : index.Gathered) (hfit : index.store.MethodsFit) :
    index.store.Legible := by
  refine ⟨h.reachable.sound, h.reachable.orderly.rooted, fun row hrow sort hsort => ?_⟩
  obtain ⟨owner, descriptor, hp⟩ := hfit.exists_hasParts h.spelled hrow hsort
  exact ⟨_, hp⟩

/-! ### Names that come back -/

/-- A class stays in its package. -/
theorem package?_of_targetClassName {identity : Identity} {old new requested : String}
    (h : targetClassName identity old requested = .ok new) :
    ClassName.package? old = ClassName.package? new := by
  rw [targetClassName] at h
  split at h
  · cases h
  · split at h
    · cases h
    · rename_i hpackage
      split at h
      · cases h
      · obtain rfl := Except.ok.inj h
        exact not_not.mp hpackage

/-- A class that asks for its old name gets it. -/
theorem qualify_of_targetClassName {identity : Identity} {old new requested : String}
    (hdot : '.' ∉ old.toList) (h : targetClassName identity old requested = .ok new) :
    ClassName.qualify new old = old := by
  rw [ClassName.qualify, ClassName.slashed_of_dot_notMem hdot]
  split
  · rfl
  · rename_i hslash
    have hnone : ClassName.package? new = none := by
      rw [← package?_of_targetClassName h, ClassName.package?, SlashPath.parent?, if_neg hslash]
    rw [hnone]

/-! ### Signatures that come back -/

/-- **The signature comes back**, if it did not name the new class and does not name the old one with a
`.` after it.

**Proof sketch.** A signature in which the class is replaced has the new name where it had the old one,
with the same mark after it. This is not a `.`, so the rename back finds it. -/
theorem ClassRename.signature_back {r : ClassRename} {before between after : Option String}
    (hplain : Signature.Plain r.new.toList) (h : r.Resigns before between)
    (h' : r.back.Resigns between after)
    (hnew : ∀ text ∈ before, r.back.signature? text = none)
    (houter : ∀ text ∈ before, ¬ 'L' :: r.old.toList ++ ['.'] <:+: text.toList) : after = before := by
  cases before with
  | none =>
    have hbetween : between = none := h.elim (fun he => he) (fun he => he.1)
    subst hbetween
    exact h'.elim (fun he => he) (fun he => he.1)
  | some text =>
    have hunnamed := hnew text rfl
    have hstay (hbetween : between = some text) : after = some text := by
      subst hbetween
      rcases h' with he | ⟨he, -⟩
      · rwa [Option.map_some, hunnamed] at he
      · exact he
    rcases h with hreplaced | ⟨hkept, -⟩
    · cases hrenamed : r.signature? text with
      | none => exact hstay (by rw [hreplaced, Option.map_some, hrenamed, Option.getD_none])
      | some renamed =>
        rw [Option.map_some, hrenamed, Option.getD_some] at hreplaced
        subst hreplaced
        rcases h' with he | ⟨-, hmarks⟩
        · have hback : r.back.signature? renamed = some text :=
            Signature.cut_segments?.rename_back hplain hunnamed hrenamed
          rwa [Option.map_some, hback, Option.getD_some] at he
        · obtain ⟨c, hc, hold, hafter⟩ := Signature.mark_of_rename? hrenamed
          obtain ⟨hclosed, hgeneric⟩ := hmarks renamed rfl
          simp only [List.mem_cons, List.not_mem_nil, or_false] at hc
          rcases hc with rfl | rfl | rfl
          · exact absurd hafter hgeneric
          · exact absurd hold (houter text rfl)
          · exact absurd hafter hclosed
    · exact hstay hkept

/-! ### Two renames that undo each other -/

/-- A rename that writes no signature keeps all. -/
theorem SymbolRow.Resigned.signature_eq {row row' : SymbolRow} (h : row.Resigned [] row') :
    row'.signature = row.signature :=
  h.signature.elim And.right fun ⟨_, hmem, _⟩ => absurd hmem (List.not_mem_nil)

/-- A move to a new identity and back. -/
theorem destination_single_back {source target identity : Identity} (h : identity ≠ target) :
    destination [⟨target, source⟩] (destination [⟨source, target⟩] identity) = identity := by
  by_cases he : source = identity
  · rw [he, destination_single, destination_single]
  · have hstay : destination [⟨source, target⟩] identity = identity := destination_single_of_ne he
    rw [hstay, destination_single_of_ne h.symm]

/-- A move to another identity leaves the old one vacant. -/
theorem Store.InPlace.forall_ne_source {s s' : Store} {primary : RowId} {source target : Identity}
    (h : s.InPlace (destination [⟨source, target⟩]) primary s') (hne : target ≠ source) :
    ∀ other ∈ s'.identities, other.identity ≠ source := by
  intro other ho hsame
  obtain ⟨before, -, hgone⟩ := h.mem_identities_iff.mp ⟨other, ho, hsame⟩
  by_cases he : source = before.identity
  · rw [← he, destination_single] at hgone
    exact hne hgone
  · rw [destination_single_of_ne he] at hgone
    exact he hgone.symm

namespace RenamePlan

open Store

variable {s s₁ s₂ : Store} {identity : Identity} {newName : String} {plan plan' : RenamePlan}
  {symbol symbol' : StoredSymbol} {r : ClassRename} {sort : MemberSort} {outcome : RenameOutcome}
  {revisions : List (FileRow × List UInt8)} {numbers : List RowId}

/-- The tables before and after a rename in place. -/
structure Moved (plan : RenamePlan) (before after : Store) : Prop where
  /-- Every identity keeps its number. -/
  place : before.InPlace (destination (plan.migrations.map Migration.change)) plan.primary.symbol.id
    after
  /-- The renamed symbol has its new name. -/
  name : ∀ row ∈ after.symbols, row.id = plan.primary.symbol.id → some row.name = plan.primary.name
  /-- The signatures are those that the plan writes. -/
  signatures : before.Resigned plan.newSignatures after

/-- Two renames of a symbol bring the tables back, if they bring back the identities, the signatures and
the name of the symbol. -/
theorem Moved.eq_of_back (hs : s.Consistent) (h : plan.Moved s s₁) (h' : plan'.Moved s₁ s₂)
    (hsymbol : ∃ row ∈ s.symbols, s.showSymbol? row = some plan.primary.symbol)
    (hid : plan'.primary.symbol.id = plan.primary.symbol.id)
    (hname : plan'.primary.name = some plan.primary.symbol.symbol.name)
    (hidentities : ∀ row ∈ s.identities, destination (plan'.migrations.map Migration.change)
      (destination (plan.migrations.map Migration.change) row.identity) = row.identity)
    (hsignatures : ∀ row ∈ s.symbols, ∀ row₁ ∈ s₁.symbols, ∀ row₂ : SymbolRow,
      row.Resigned plan.newSignatures row₁ → row₁.Resigned plan'.newSignatures row₂ →
        row₂.signature = row.signature) :
    s₂.identities = s.identities ∧ s₂.symbols = s.symbols ∧ s₂.references = s.references := by
  refine InPlace.eq_of_back h.place (hid ▸ h'.place) hidentities fun row hrow row₂ hrow₂ he =>
    ⟨fun hprimary => ?_, ?_⟩
  · obtain ⟨row₀, hrow₀, hshown⟩ := hsymbol
    obtain ⟨text, -, hshown⟩ := showSymbol?_eq_some_iff.mp hshown
    have hsame : row₀ = row := List.inj_on_of_nodup_map hs.symbols.ids hrow₀ hrow
      (by rw [hprimary, hshown])
    have htitle := h'.name row₂ hrow₂ (he.trans (hprimary.trans hid.symm))
    rw [hname, hshown, hsame] at htitle
    exact Option.some.inj htitle
  · obtain ⟨row₁, hrow₁, hback⟩ := h'.signatures row₂ hrow₂
    obtain ⟨row₀, hrow₀, hthere⟩ := h.signatures row₁ hrow₁
    have hsame : row₀ = row := List.inj_on_of_nodup_map hs.symbols.ids hrow₀ hrow
      (hthere.id.symm.trans (hback.id.symm.trans he))
    exact hsignatures row hrow row₁ hrow₁ row₂ (hsame ▸ hthere) hback

/-! ### Classes -/

/-- The rename of a class to a vacant name is in place. -/
theorem RenamesClass.moved (h : plan.RenamesClass s symbol r) (hs : s.Legible) (hv : s.Vacant r)
    (hplan : s.planRename identity newName = .ok plan) (hrevisions : plan.revisions s = .ok revisions)
    (hcommit : plan.commit revisions s = .ok ((outcome, numbers), s₁)) : plan.Moved s s₁ := by
  have hc := hs.sound.consistent
  obtain rfl := h.primary
  exact ⟨inPlace_of_vacant hs hplan h.moves h.target hv hcommit,
    (describes_of_commit hc hplan hrevisions hcommit).name, resigned_of_commit hc hcommit⟩

/-- The new identity is that of the new name. -/
theorem RenamesClass.newIdentity_eq (h : plan.RenamesClass s symbol r)
    (hd : outcome.Describes plan s s₁) : outcome.newIdentity = .ofClass r.new := by
  rw [← hd.newIdentity, hd.oldIdentity, hd.migratedIdentities, h.changes_eq, h.primary,
    h.moves.identity]
  exact PlansClass.destination_old _ _

/-- Afterwards the symbol with the new identity is the class. -/
theorem RenamesClass.exists_symbolOf? (h : plan.RenamesClass s symbol r)
    (hplan : s.planRename identity newName = .ok plan) (hd : outcome.Describes plan s s₁)
    (hs₁ : s₁.Sound) : ∃ shown, s₁.symbolOf? (.ofClass r.new) = some shown ∧ shown.id = symbol.id ∧
      shown.symbol.kind.memberSort? = none := by
  have hmigrated := hd.migrated
  rw [hd.migratedIdentities, h.changes_eq, h.primary] at hmigrated
  have htitle := hd.name
  rw [h.primary, h.name] at htitle
  have hfile : symbol.symbol.file ≠ none := h.primary ▸ (primary_of_planRename hplan).2
  obtain ⟨shown, hshown, hid, -⟩ :=
    h.moves.exists_renamed_of_migrated hfile hs₁.consistent hmigrated htitle
  refine ⟨shown, hshown, hid, ?_⟩
  obtain ⟨hidentity, row, hrow, hrowShown⟩ := Store.exists_of_symbolOf? hshown
  rw [memberSort?_of_shown hrowShown]
  obtain ⟨text, htext, rfl⟩ := showSymbol?_eq_some_iff.mp hrowShown
  by_contra hsort
  obtain ⟨sort, hsort⟩ := Option.ne_none_iff_exists'.mp hsort
  exact hs₁.ne_ofClass hrow hsort htext r.new hidentity

/-- **The rename of a class and the rename back** bring the tables back. -/
theorem RenamesClass.eq_of_back (h : plan.RenamesClass s symbol r) (hm : plan.Moved s s₁)
    (h' : plan'.RenamesClass s₁ symbol' r.back) (hm' : plan'.Moved s₁ s₂) (hs : s.Legible)
    (hs₁ : s₁.Sound) (hv : s.Vacant r) (hr : s.Fresh r) (houter : s.NamesNoOuter r.old)
    (hid : symbol'.id = symbol.id) (hname : symbol.symbol.name = r.old) :
    s₂.identities = s.identities ∧ s₂.symbols = s.symbols ∧ s₂.references = s.references := by
  obtain rfl := h.primary
  obtain rfl := h'.primary
  obtain ⟨requested, hplan⟩ := h.planned
  obtain ⟨requested', hplan'⟩ := h'.planned
  refine hm.eq_of_back hs.sound.consistent hm' h.moves.row hid (by rw [h'.name, hname]; rfl) ?_ ?_
  · have hplace := hm.place
    rw [h.changes_eq] at hplace ⊢
    rw [h'.changes_eq]
    exact fun row hrow => h.moves.destination_back hs hv hs₁ hplace h'.moves hrow
  · intro row hrow row₁ hrow₁ row₂ hthere hback
    exact ClassRename.signature_back (h.moves.proper.plain hr.opening)
      (resigns_of_resigned hs.sound.consistent hplan h.edit h.moves.row hrow hthere)
      (resigns_of_resigned hs₁.consistent hplan' h'.edit h'.moves.row hrow₁ hback)
      (fun signature hmem => Signature.rename?_eq_none_iff.mpr (hr.signatures row hrow signature hmem))
      (houter row hrow)

/-! ### Members -/

/-- What the plan for the symbol with a member's identity consists of. -/
theorem eq_of_planRename_member (hsymbol : s.symbolOf? identity = some symbol)
    (hsort : symbol.symbol.kind.memberSort? = some sort)
    (hplan : s.planRename identity newName = .ok plan) :
    ∃ path, identity.split sort = .ok path ∧
      plan = ⟨.ofMember ⟨sort, path.owner.className, path.name, path.descriptor, newName⟩,
        ⟨symbol, { path with name := newName }.identity sort, some newName, none⟩, [], [], none⟩ := by
  obtain ⟨symbol', hsymbol', -, ⟨hkind, -⟩ | ⟨sort', hsort', hmember⟩⟩ := plans_of_planRename hplan
  · rw [Option.some.inj (hsymbol'.symm.trans hsymbol), hsort] at hkind
    cases hkind
  · obtain rfl : symbol' = symbol := Option.some.inj (hsymbol'.symm.trans hsymbol)
    obtain rfl : sort' = sort := Option.some.inj (hsort'.symm.trans hsort)
    rw [← (exists_of_symbolOf? hsymbol).1]
    exact eq_of_planMember hmember

/-- The rename of a member to a vacant identity is in place. -/
theorem moved_of_member {edit : Renaming} {target : Identity} {name : Option String} (hs : s.Consistent)
    (he : plan = ⟨edit, ⟨symbol, target, name, none⟩, [], [], none⟩)
    (hplan : s.planRename identity newName = .ok plan)
    (hfree : ∀ other ∈ s.identities, other.identity ≠ target)
    (hrevisions : plan.revisions s = .ok revisions)
    (hcommit : plan.commit revisions s = .ok ((outcome, numbers), s₁)) : plan.Moved s s₁ := by
  subst he
  exact ⟨inPlace_of_commit hs hplan (by simpa [migrations] using hfree) (by simp [migrations]) hcommit,
    (describes_of_commit hs hplan hrevisions hcommit).name, resigned_of_commit hs hcommit⟩

end RenamePlan

namespace Index

open Store RenamePlan

variable {index index₁ index₂ : Index} {identity : Identity} {newName : String}
  {outcome outcome' : RenameOutcome} {symbol : StoredSymbol}

/-- The rename of a class and the rename back. -/
theorem tables_of_rename_class_back (h : index.Gathered) (hfit : index.store.MethodsFit)
    (hsymbol : index.store.symbolOf? identity = some symbol)
    (hkind : symbol.symbol.kind.memberSort? = none) (hdot : '.' ∉ symbol.symbol.name.toList)
    (hclass : ∀ new, targetClassName identity identity.className newName = .ok new →
      index.store.Fresh ⟨identity.className, new⟩)
    (houter : index.store.NamesNoOuter identity.className)
    (hrun : rename identity newName index = (.ok outcome, index₁))
    (hfresh : index.store.identityId? outcome.newIdentity = none)
    (hback : rename outcome.newIdentity symbol.symbol.name index₁ = (.ok outcome', index₂)) :
    index₂.store.identities = index.store.identities ∧ index₂.store.symbols = index.store.symbols ∧
      index₂.store.references = index.store.references := by
  obtain ⟨plan, revisions, numbers, hplan, hrevisions, hcommit⟩ := exists_of_rename hrun
  obtain ⟨plan', revisions', numbers', hplan', hrevisions', hcommit'⟩ := exists_of_rename hback
  have hs := h.legible hfit
  have hc := hs.sound.consistent
  have hd := describes_of_commit hc hplan hrevisions hcommit
  have hs₁ : index₁.store.Sound := sound_of_describes hs.sound hplan hd
    (keeps_commit plan revisions _ _ _ hcommit hc)
  obtain ⟨new, hnew, hrenames⟩ := renamesClass_of_planRename hs.sound hsymbol hkind hplan
  have hname := name_eq_className h.spelled hsymbol hkind hdot
  rw [hrenames.newIdentity_eq hd] at hfresh hplan'
  have hr := hclass new hnew
  have hv := hr.vacant h.spelled hfit hfresh
  have hm := hrenames.moved hs hv hplan hrevisions hcommit
  have hplace := hm.place
  rw [hrenames.changes_eq] at hplace
  -- the class asks for its old name and gets it
  obtain ⟨shown, hshown, hid, hkind'⟩ := hrenames.exists_symbolOf? hplan hd hs₁
  obtain ⟨new', hnew', hrenames'⟩ := renamesClass_of_planRename hs₁ hshown hkind' hplan'
  rw [Identity.className_ofClass, hrenames.moves.proper.slashed_new] at hnew' hrenames'
  have hold : new' = identity.className := by
    rw [(checked_of_targetClassName hnew').1, hname]
    exact qualify_of_targetClassName (hname ▸ hdot) hnew
  rw [hold] at hrenames'
  have hm' := hrenames'.moved (hrenames.moves.legible_of_inPlace hs hs₁ hplace)
    (hrenames.moves.vacant_of_inPlace hs hplace) hplan' hrevisions' hcommit'
  exact hrenames.eq_of_back hm hrenames' hm' hs hs₁ hv hr houter hid hname

/-- The rename of a member and the rename back. -/
theorem tables_of_rename_member_back {sort : MemberSort} (h : index.Gathered)
    (hfit : index.store.MethodsFit) (hsymbol : index.store.symbolOf? identity = some symbol)
    (hsort : symbol.symbol.kind.memberSort? = some sort)
    (hrun : rename identity newName index = (.ok outcome, index₁))
    (hfresh : index.store.identityId? outcome.newIdentity = none)
    (hback : rename outcome.newIdentity symbol.symbol.name index₁ = (.ok outcome', index₂)) :
    index₂.store.identities = index.store.identities ∧ index₂.store.symbols = index.store.symbols ∧
      index₂.store.references = index.store.references := by
  obtain ⟨plan, revisions, numbers, hplan, hrevisions, hcommit⟩ := exists_of_rename hrun
  obtain ⟨plan', revisions', numbers', hplan', hrevisions', hcommit'⟩ := exists_of_rename hback
  have hs := h.reachable.sound
  have hc := hs.consistent
  have hd := describes_of_commit hc hplan hrevisions hcommit
  have hc₁ : index₁.store.Consistent := keeps_commit plan revisions _ _ _ hcommit hc
  -- the parts of the member
  obtain ⟨hidentity, row, hrow, hshown⟩ := exists_of_symbolOf? hsymbol
  have hkind := memberSort?_of_shown hshown
  obtain ⟨owner, descriptor, hp⟩ := hfit.exists_hasParts h.spelled hrow (hkind.symm.trans hsort)
  obtain ⟨path, hpath, he⟩ := eq_of_planRename_member hsymbol hsort hplan
  obtain ⟨text, htext, rfl⟩ := showSymbol?_eq_some_iff.mp hshown
  obtain rfl : text = identity := hidentity
  have hmade := Option.some.inj (htext.symm.trans hp.identity)
  obtain rfl := hp.legible.eq_of_split (hmade ▸ hpath)
  have hlegible : MemberPath.Legible ⟨.ofClass owner, newName, descriptor⟩ sort :=
    ⟨hp.legible.owner, hp.legible.head⟩
  have hnew : outcome.newIdentity = MemberPath.identity ⟨.ofClass owner, newName, descriptor⟩ sort := by
    rw [← hd.newIdentity, hd.oldIdentity, hd.migratedIdentities, he]
    exact destination_cons_self
  rw [hnew] at hfresh hplan'
  have hfree := Consistent.identityId?_eq_none_iff.mp hfresh
  have hm := moved_of_member hc he hplan hfree hrevisions hcommit
  subst he
  have hplace : index.store.InPlace (destination [⟨text, _⟩]) row.id index₁.store := hm.place
  -- the symbol with the new identity is the member
  obtain ⟨row', hrow', hf⟩ := hplace.exists_after hrow
  have htext' := hf.identity
  rw [htext, Option.map_some, destination_single] at htext'
  have hshown' := showSymbol?_eq_some_iff.mpr ⟨_, htext', rfl⟩
  have hsymbol' := symbolOf?_of_mem hc₁ hrow' hshown'
  obtain ⟨path', hpath', he'⟩ := eq_of_planRename_member hsymbol'
    ((congrArg SymbolKind.memberSort? hf.kind).trans hsort) hplan'
  obtain rfl := hlegible.eq_of_split hpath'
  have hfree' := hplace.forall_ne_source (hfree _ (hc.identity?_eq_some_iff.mp htext)).symm
  rw [hmade] at hfree'
  have hm' := moved_of_member hc₁ he' hplan' hfree' hrevisions' hcommit'
  subst he'
  refine hm.eq_of_back hc hm' ⟨row, hrow, hshown⟩ hf.id rfl (fun x hx => ?_) ?_
  · change destination [⟨_, MemberPath.identity ⟨.ofClass owner, row.name, descriptor⟩ sort⟩]
      (destination [⟨text, _⟩] x.identity) = x.identity
    rw [← hmade]
    exact destination_single_back (hfree x hx)
  · intro row₀ _ row₁ _ row₂ hthere hreturned
    exact hreturned.signature_eq.trans hthere.signature_eq

/-- **Renaming back restores the tables.** The workspace was only filled and mapped. The symbol gets an
identity that is not there; if it is a class, then nothing mentions the new name, and no signature names
the old class with a `.` after it. If the rename back succeeds, the identities, the symbols and the
references are those from before.

**Proof sketch.** Different parts make different identities, so nothing is merged and every row keeps its
number. The second rename moves just what the first one moved, because the parts that mention the new
name are those that mentioned the old one. -/
theorem tables_of_rename_back (h : index.Gathered) (hfit : index.store.MethodsFit)
    (hsymbol : index.store.symbolOf? identity = some symbol)
    (hclass : symbol.symbol.kind = .classSymbol → '.' ∉ symbol.symbol.name.toList ∧
      index.store.NamesNoOuter identity.className ∧
        ∀ new, targetClassName identity identity.className newName = .ok new →
          index.store.Fresh ⟨identity.className, new⟩)
    (hrun : rename identity newName index = (.ok outcome, index₁))
    (hfresh : index.store.identityId? outcome.newIdentity = none)
    (hback : rename outcome.newIdentity symbol.symbol.name index₁ = (.ok outcome', index₂)) :
    index₂.store.identities = index.store.identities ∧ index₂.store.symbols = index.store.symbols ∧
      index₂.store.references = index.store.references := by
  cases hsort : symbol.symbol.kind.memberSort? with
  | none =>
    have hkind : symbol.symbol.kind = .classSymbol := by
      cases hkind : symbol.symbol.kind <;> rw [hkind] at hsort <;> cases hsort
    obtain ⟨hdot, houter, hnew⟩ := hclass hkind
    exact tables_of_rename_class_back h hfit hsymbol hsort hdot hnew houter hrun hfresh hback
  | some sort => exact tables_of_rename_member_back h hfit hsymbol hsort hrun hfresh hback

/-! ### The small workspace -/

theorem gathered_selfTakingIndex : selfTakingIndex.Gathered :=
  .mapAll _ (.importFile _ _ .empty)

/-- A rename and a rename back whose plans and files are known are computed. -/
theorem exists_rename_and_back {plan : RenamePlan} {files ids files' : List RowId} (back : RenamePlan)
    (target : Identity) (name : String) (p : Store → Bool)
    (hplan : index.store.planRename identity newName = .ok plan)
    (hfiles : plan.files index.store = files) (hsorted : RenamePlan.sorted ids = files')
    (hrun : (commitFiles plan files index.store).toOption.any (fun result =>
      decide (result.1.1.newIdentity = target) &&
        decide (result.2.planRename target name = .ok back) && decide (filesOf back result.2 = ids) &&
        (commitFiles back files' result.2).toOption.any fun result => p result.2) = true) :
    ∃ outcome index₁ outcome' index₂, rename identity newName index = (.ok outcome, index₁) ∧
      outcome.newIdentity = target ∧ rename target name index₁ = (.ok outcome', index₂) ∧
      p index₂.store = true := by
  obtain ⟨outcome, index₁, hthere, hnext⟩ := exists_rename_of_files (fun outcome store =>
    decide (outcome.newIdentity = target) && decide (store.planRename target name = .ok back) &&
      decide (filesOf back store = ids) &&
      (commitFiles back files' store).toOption.any fun result => p result.2) hplan hfiles hrun
  simp only [Bool.and_eq_true, decide_eq_true_eq] at hnext
  obtain ⟨⟨⟨hidentity, hplan'⟩, hids⟩, hcommit⟩ := hnext
  obtain ⟨outcome', index₂, hback, hp⟩ := exists_rename_of_files (fun _ store => p store) hplan'
    (files_eq_of_filesOf hids hsorted) hcommit
  exact ⟨outcome, index₁, outcome', index₂, hthere, hidentity, hback, hp⟩

/-- What has to change if `B` is renamed back to `A`. -/
def selfTakingReturn : RenamePlan where
  edit := .ofClass ⟨"B", "A"⟩
  primary := ⟨⟨1, 1, ⟨.classSymbol, ⟨"B"⟩, "B", some 1, none, 0, none⟩⟩, ⟨"A"⟩, some "A", none⟩
  dependents := [⟨⟨2, 2, ⟨.methodSymbol, ⟨"B::m(LB;)V"⟩, "m", some 1, some ⟨"B"⟩, 0, none⟩⟩,
    ⟨"A::m(LA;)V"⟩, none, none⟩]
  resignatures := []
  fileName := some "A.class"

/-- The only member is the method `m` of `A`, which takes an `A`. -/
theorem parts_selfTaking : ∀ row ∈ selfTakingIndex.store.symbols, ∀ sort owner descriptor,
    row.kind.memberSort? = some sort →
    selfTakingIndex.store.identity? row.identity =
        some (MemberPath.identity ⟨.ofClass owner, row.name, descriptor⟩ sort) →
      ClassName.slashed owner = "A" ∧ descriptor = "(LA;)V" := by
  have hsymbols : selfTakingIndex.store.symbols =
      [⟨1, 1, .classSymbol, "A", some 1, none, 0, none⟩,
        ⟨2, 2, .methodSymbol, "m", some 1, some 1, 0, none⟩] := by decide +kernel
  have hidentity : selfTakingIndex.store.identity? 2 =
      some (MemberPath.identity ⟨.ofClass "A", "m", "(LA;)V"⟩ .method) := by decide +kernel
  rw [hsymbols]
  intro row hrow sort owner descriptor hsort htext
  simp only [List.mem_cons, List.not_mem_nil, or_false] at hrow
  rcases hrow with rfl | rfl
  · cases hsort
  · cases hsort
    rw [hidentity] at htext
    obtain ⟨howner, hrest⟩ := MemberPath.parts_of_identity_eq (Option.some.inj htext)
    exact ⟨(Identity.ofClass_eq_iff.mp howner).symm,
      (MemberPath.tail_inj (List.append_cancel_left hrest)).symm⟩

/-- The class `A` is renamed to `B` and back, and the tables are as before. -/
theorem tables_of_rename_back_selfTaking : ∃ outcome index₁ outcome' index₂,
    rename ⟨"A"⟩ "B" selfTakingIndex = (.ok outcome, index₁) ∧
      rename ⟨"B"⟩ "A" index₁ = (.ok outcome', index₂) ∧
      index₂.store.identities = selfTakingIndex.store.identities ∧
      index₂.store.symbols = selfTakingIndex.store.symbols ∧
      index₂.store.references = selfTakingIndex.store.references := by
  have hsorted : RenamePlan.sorted [1, 1, 1, 1] = [1] := by cbv
  obtain ⟨outcome, index₁, outcome', index₂, hrun, hidentity, hback, -⟩ :=
    exists_rename_and_back selfTakingReturn ⟨"B"⟩ "A" (fun _ => true) planRename_selfTaking
      files_selfTaking hsorted (by decide +kernel)
  have hsymbol : selfTakingIndex.store.symbolOf? ⟨"A"⟩ = some selfTakingPlan.primary.symbol := by
    decide +kernel
  have htarget : targetClassName ⟨"A"⟩ "A" "B" = .ok "B" := by decide +kernel
  have hunsigned : ∀ row ∈ selfTakingIndex.store.symbols, row.signature = none := by decide +kernel
  have hsigned {row : SymbolRow} (hrow : row ∈ selfTakingIndex.store.symbols) {signature : String}
      (hsignature : signature ∈ row.signature) : False := by
    rw [hunsigned row hrow] at hsignature
    cases hsignature
  have hfresh : selfTakingIndex.store.Fresh ⟨"A", "B"⟩ := by
    refine ⟨by decide, fun row hrow sort owner descriptor hsort htext => ?_,
      fun row hrow signature hsignature => (hsigned hrow hsignature).elim⟩
    obtain ⟨howner, rfl⟩ := parts_selfTaking row hrow sort owner descriptor hsort htext
    exact ⟨by rw [howner]; decide, by decide +kernel⟩
  refine ⟨outcome, index₁, outcome', index₂, hrun, hback, ?_⟩
  refine tables_of_rename_back gathered_selfTakingIndex (fun row hrow hkind owner descriptor htext => ?_)
    hsymbol (fun _ => ⟨by decide, fun row hrow signature hsignature => (hsigned hrow hsignature).elim,
      fun new hnew => ?_⟩) hrun (by rw [hidentity]; decide +kernel) (hidentity ▸ hback)
  · obtain ⟨-, rfl⟩ := parts_selfTaking row hrow .method owner descriptor (by rw [hkind]; rfl) htext
    decide
  · obtain rfl : "B" = new := Except.ok.inj (htarget.symm.trans hnew)
    exact hfresh

/-! ### A signature that does not come back -/

/-- A class `C` with a field whose signature names the class `LA` and a member class of `A`. -/
def pairing : ClassFile :=
  { ClassFile.blank with
    pool := ⟨#[none, some (.text "C"), some (.classRef 1), some (.text "f"), some (.text "LPair;"),
      some (.text "Signature"), some (.text "LPair<LLA;LA.I;>;")]⟩
    thisClass := 2
    fields := [⟨0, 3, 4, [⟨5, .flat (.signature 6)⟩]⟩] }

/-- The workspace with an archive of the classes `A` and `C`, after it was mapped. -/
def pairingIndex : Index :=
  (mapAll .standard (importFile "a.jar"
    (.packed [⟨"A.class", (bareClass "A").encode⟩, ⟨"C.class", pairing.encode⟩]) empty).2).2

theorem gathered_pairingIndex : pairingIndex.Gathered :=
  .mapAll _ (.importFile _ _ .empty)

/-- What has to change if `A` is renamed to `B`. -/
def pairingPlan : RenamePlan where
  edit := .ofClass ⟨"A", "B"⟩
  primary := ⟨⟨1, 1, ⟨.classSymbol, ⟨"A"⟩, "A", some 2, none, 0, none⟩⟩, ⟨"B"⟩, some "B", none⟩
  dependents := []
  resignatures := [(3, "LPair<LLA;LB.I;>;")]
  fileName := some "B.class"

/-- What has to change if `B` is renamed back to `A`: the signature is not found. -/
def pairingReturn : RenamePlan where
  edit := .ofClass ⟨"B", "A"⟩
  primary := ⟨⟨1, 1, ⟨.classSymbol, ⟨"B"⟩, "B", some 2, none, 0, none⟩⟩, ⟨"A"⟩, some "A", none⟩
  dependents := []
  resignatures := []
  fileName := some "A.class"

theorem symbols_pairing : pairingIndex.store.symbols =
    [⟨1, 1, .classSymbol, "A", some 2, none, 0, none⟩, ⟨2, 2, .classSymbol, "C", some 3, none, 0, none⟩,
      ⟨3, 3, .fieldSymbol, "f", some 3, some 2, 0, some "LPair<LLA;LA.I;>;"⟩,
      ⟨4, 4, .classSymbol, "Pair", none, none, 0, none⟩,
      ⟨5, 5, .classSymbol, "LA", none, none, 0, none⟩] := by decide +kernel

/-- Nothing in the workspace mentions `B`. -/
theorem fresh_pairing : pairingIndex.store.Fresh ⟨"A", "B"⟩ := by
  have hidentity : pairingIndex.store.identity? 3 =
      some (MemberPath.identity ⟨.ofClass "C", "f", "LPair;"⟩ .field) := by decide +kernel
  have hnames : Signature.classes? "LPair<LLA;LA.I;>;" = some ["Pair", "LA", "A"] := by decide +kernel
  refine ⟨by decide, fun row hrow sort owner descriptor hsort htext => ?_,
    fun row hrow signature hsignature names h => ?_⟩ <;>
    simp only [symbols_pairing, List.mem_cons, List.not_mem_nil, or_false] at hrow
  · rcases hrow with rfl | rfl | rfl | rfl | rfl <;> cases hsort
    rw [hidentity] at htext
    obtain ⟨howner, hrest⟩ := MemberPath.parts_of_identity_eq (Option.some.inj htext)
    rw [← Identity.ofClass_eq_iff.mp howner, ← MemberPath.tail_inj (List.append_cancel_left hrest)]
    decide +kernel
  · rcases hrow with rfl | rfl | rfl | rfl | rfl <;> cases hsignature
    rw [hnames] at h
    cases h
    decide

/-- **A signature that does not come back.** `B` is fresh and both renames succeed, but a signature still
names `B` afterwards: the first rename found it by the name of `LA`, and the second one does not. -/
theorem exists_changed : ∃ outcome index₁ outcome' index₂, pairingIndex.Gathered ∧
    pairingIndex.store.symbolOf? ⟨"A"⟩ = some pairingPlan.primary.symbol ∧
    (∀ row ∈ pairingIndex.store.symbols, '.' ∉ row.name.toList) ∧
    pairingIndex.store.Fresh ⟨"A", "B"⟩ ∧ pairingIndex.store.identityId? ⟨"B"⟩ = none ∧
    rename ⟨"A"⟩ "B" pairingIndex = (.ok outcome, index₁) ∧ outcome.newIdentity = ⟨"B"⟩ ∧
    rename ⟨"B"⟩ "A" index₁ = (.ok outcome', index₂) ∧
    index₂.store.symbols ≠ pairingIndex.store.symbols := by
  have hplan : pairingIndex.store.planRename ⟨"A"⟩ "B" = .ok pairingPlan := by decide +kernel
  have hsorted : RenamePlan.sorted [2, 2, 3] = [2, 3] := by cbv
  have hids : filesOf pairingPlan pairingIndex.store = [2, 2, 3] := by decide +kernel
  obtain ⟨outcome, index₁, outcome', index₂, hrun, hidentity, hback, hsymbols⟩ :=
    exists_rename_and_back pairingReturn ⟨"B"⟩ "A"
      (fun store => decide (store.symbols ≠ pairingIndex.store.symbols)) hplan
      (files_eq_of_filesOf hids hsorted) hsorted (by decide +kernel)
  exact ⟨outcome, index₁, outcome', index₂, gathered_pairingIndex, by decide +kernel,
    by rw [symbols_pairing]; decide, fresh_pairing, by decide +kernel, hrun, hidentity, hback,
    of_decide_eq_true hsymbols⟩

end Index

end ClassAtlas
