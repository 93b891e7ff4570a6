import ClassAtlas.Proofs.Workspace.Commit
import ClassAtlas.Proofs.Workspace.Mentions

/-!
# Names after a rename

A rename of a class moves every member whose identity mentions the class, and its owner with it. So
afterwards every identity is still made of its owner's, and no identity mentions the old name.

## Main definitions

* `ClassAtlas.Store.PlansClass` — the symbols that move with a class.
* `ClassAtlas.RenamePlan.RenamesClass` — a plan for a class.

## Main results

* `ClassAtlas.Store.PlansClass.not_mentions_of_follows` — no identity mentions a renamed class.
* `ClassAtlas.Store.PlansClass.exists_renamed_of_migrated` — the renamed class has the new name.
* `ClassAtlas.RenamePlan.sound_of_describes` — a rename keeps the store sound.
-/

set_option autoImplicit false

namespace ClassAtlas

namespace Store

variable {s : Store} {symbol : StoredSymbol} {r : ClassRename} {dependents : List Migration}
  {row : SymbolRow} {sort : MemberSort} {text : Identity} {path : MemberPath} {owner : String}

/-! ### Planning a class -/

/-- The symbols that move when a class gets a new name. -/
structure PlansClass (s : Store) (symbol : StoredSymbol) (r : ClassRename)
    (dependents : List Migration) : Prop where
  /-- The names are proper. -/
  proper : r.IsProper
  /-- The class is a symbol of the store. -/
  row : ∃ row ∈ s.symbols, s.showSymbol? row = some symbol
  /-- The class has the identity of the old name. -/
  identity : symbol.symbol.identity = .ofClass r.old
  /-- The dependents are those that the store finds. -/
  planned : ∃ resignatures, s.planDependents symbol.symbol.identity r
    (s.symbolsMentioning symbol.identityId r.old) = .ok (dependents, resignatures)

theorem memberSort?_of_shown {shown : StoredSymbol} (h : s.showSymbol? row = some shown) :
    shown.symbol.kind.memberSort? = row.kind.memberSort? := by
  obtain ⟨text, -, rfl⟩ := showSymbol?_eq_some_iff.mp h
  rfl

/-- The plan for a class is one. -/
theorem plansClass_of_planClass (hs : s.Sound) {identity : Identity} {newName : String}
    {plan : RenamePlan} (hsymbol : s.symbolOf? identity = some symbol)
    (hkind : symbol.symbol.kind.memberSort? = none) (h : s.planClass symbol newName = .ok plan) :
    ∃ new, targetClassName symbol.symbol.identity symbol.symbol.identity.className newName = .ok new ∧
      plan.primary.symbol = symbol ∧ plan.primary.identity = .ofClass new ∧
      plan.primary.name = some new ∧
      s.PlansClass symbol ⟨symbol.symbol.identity.className, new⟩ plan.dependents := by
  obtain ⟨new, ms, rs, hnew, hplanned, rfl⟩ := eq_of_planClass h
  obtain ⟨-, row, hrow, hshown⟩ := exists_of_symbolOf? hsymbol
  have hnamed := hs.wellNamed row hrow
  obtain ⟨text, htext, hsymbol⟩ := showSymbol?_eq_some_iff.mp hshown
  rw [memberSort?_of_shown hshown] at hkind
  rw [SymbolRow.WellNamed, IsNamed, hkind] at hnamed
  obtain ⟨name, hname⟩ := hnamed
  have hidentity : symbol.symbol.identity = .ofClass name := by
    rw [hsymbol]
    exact Option.some.inj (htext.symm.trans hname)
  have hold : symbol.symbol.identity.className = ClassName.slashed name := by
    rw [hidentity, Identity.className_ofClass]
  refine ⟨new, hnew, rfl, rfl, rfl, ?_, ⟨row, hrow, hshown⟩, ?_, rs, hplanned⟩
  · exact isProper_of_targetClassName (hold ▸ ClassName.dot_notMem_slashed name) hnew
  · rw [hold, hidentity, Identity.ofClass_slashed]

/-- A member moves where renaming the class in its parts leads, if that is somewhere else. -/
theorem movedIdentity?_eq_ok_iff {shown : StoredSymbol} {moved? : Option Identity}
    (hsort : shown.symbol.kind.memberSort? = some sort) :
    shown.movedIdentity? r = .ok moved? ↔ ∃ path, shown.symbol.identity.split sort = .ok path ∧
      moved? = if (path.renameClass r).identity sort = shown.symbol.identity then none
        else some ((path.renameClass r).identity sort) := by
  rw [StoredSymbol.movedIdentity?, hsort]
  refine Except.bind_eq_ok_iff.trans (exists_congr fun path => and_congr_right fun _ => ?_)
  rw [Except.pure_eq_ok_iff, eq_comm]

/-- A member whose parts do not mention a class keeps them. At most its identity gets another spelling,
and then it is that of a method whose descriptor does not start with its parenthesis. -/
theorem respelled_of_movedIdentity? (hs : s.Sound) {shown : StoredSymbol} {moved : Identity}
    (hrow : row ∈ s.symbols) (hshown : s.showSymbol? row = some shown)
    (hfree : ∀ sort path, shown.symbol.kind.memberSort? = some sort →
      shown.symbol.identity.split sort = .ok path → ¬path.Mentions r)
    (h : shown.movedIdentity? r = .ok (some moved)) :
    ∃ owner name descriptor path, shown.symbol.identity = .ofMethod (.ofClass owner) name descriptor ∧
      descriptor.toList.head? ≠ some '(' ∧ shown.symbol.identity.splitMethod = .ok path ∧
      moved = .ofMethod path.owner path.name path.descriptor := by
  cases hsort : shown.symbol.kind.memberSort? with
  | none =>
    rw [StoredSymbol.movedIdentity?, hsort] at h
    cases h
  | some sort =>
    obtain ⟨path, hpath, hend⟩ := (movedIdentity?_eq_ok_iff hsort).mp h
    rw [MemberPath.renameClass_eq_of_not_mentions (hfree sort path hsort hpath)] at hend
    split at hend
    · cases hend
    · rename_i hne
      obtain rfl := Option.some.inj hend
      have hnamed := hs.wellNamed row hrow
      rw [memberSort?_of_shown hshown] at hsort
      obtain ⟨text, htext, rfl⟩ := showSymbol?_eq_some_iff.mp hshown
      rw [SymbolRow.WellNamed, IsNamed, hsort, htext] at hnamed
      obtain ⟨owner, name, descriptor, -, he⟩ := hnamed
      obtain rfl := Option.some.inj he
      -- the parts of an identity that is spelled as its parts say are found again
      have hodd : ¬(sort = .method → descriptor.toList.head? = some '(') := fun hd =>
        hne (congrArg (MemberPath.identity · sort) (MemberPath.eq_of_split hd hpath))
      rw [Classical.not_imp] at hodd
      obtain ⟨rfl, hhead⟩ := hodd
      exact ⟨owner, name, descriptor, path, rfl, hhead, hpath, rfl⟩

namespace PlansClass

/-- The number of the class is that of its identity. -/
theorem identity?_identityId (h : s.PlansClass symbol r dependents) :
    s.identity? symbol.identityId = some (.ofClass r.old) := by
  obtain ⟨row, -, hshown⟩ := h.row
  obtain ⟨text, htext, hsymbol⟩ := showSymbol?_eq_some_iff.mp hshown
  rw [← h.identity, hsymbol]
  exact htext

/-- A dependent is a member whose identity becomes the one with the class renamed in its parts. -/
theorem exists_of_mem (h : s.PlansClass symbol r dependents) {m : Migration} (hm : m ∈ dependents) :
    ∃ row ∈ s.symbols, ∃ sort path, row.kind.memberSort? = some sort ∧
      s.identity? row.identity = some m.symbol.symbol.identity ∧
      m.symbol.symbol.identity.split sort = .ok path ∧
      m.identity = (path.renameClass r).identity sort := by
  obtain ⟨resignatures, hplanned⟩ := h.planned
  obtain ⟨hsub, hmoved, -⟩ := spec_of_planDependents hplanned
  obtain ⟨row, hrow, hshown, -⟩ :=
    mem_symbolsMentioning_iff.mp (hsub.subset (List.mem_map_of_mem hm))
  have hmoved := (hmoved m hm).1
  cases hsort : m.symbol.symbol.kind.memberSort? with
  | none =>
    rw [StoredSymbol.movedIdentity?, hsort] at hmoved
    cases hmoved
  | some sort =>
    obtain ⟨path, hpath, hend⟩ := (movedIdentity?_eq_ok_iff hsort).mp hmoved
    rw [memberSort?_of_shown hshown] at hsort
    obtain ⟨text, htext, hsymbol⟩ := showSymbol?_eq_some_iff.mp hshown
    refine ⟨row, hrow, sort, path, hsort, by rw [hsymbol]; exact htext, hpath, ?_⟩
    split at hend
    · cases hend
    · exact Option.some.inj hend

/-- A member that is found to mention the class moves, or renaming the class in its parts gives the
same identity. -/
theorem exists_or_of_mentioning (h : s.PlansClass symbol r dependents) {shown : StoredSymbol}
    (hshown : shown ∈ s.symbolsMentioning symbol.identityId r.old)
    (hsort : shown.symbol.kind.memberSort? = some sort) :
    ∃ path, shown.symbol.identity.split sort = .ok path ∧
      ((∃ m ∈ dependents, m.symbol = shown) ∨
        (path.renameClass r).identity sort = shown.symbol.identity) := by
  obtain ⟨resignatures, hplanned⟩ := h.planned
  obtain ⟨-, hmoved, hall⟩ := spec_of_planDependents hplanned
  rcases hall shown hshown with ⟨m, hm, rfl⟩ | hstay
  · obtain ⟨path, hpath, -⟩ := (movedIdentity?_eq_ok_iff hsort).mp (hmoved m hm).1
    exact ⟨path, hpath, .inl ⟨m, hm, rfl⟩⟩
  · obtain ⟨path, hpath, hend⟩ := (movedIdentity?_eq_ok_iff hsort).mp hstay
    refine ⟨path, hpath, .inr ?_⟩
    split at hend
    · assumption
    · cases hend

/-- Every member whose identity mentions the class moves. -/
theorem exists_mem_of_mentions (h : s.PlansClass symbol r dependents) (hs : s.Sound)
    (hrow : row ∈ s.symbols) (hsort : row.kind.memberSort? = some sort)
    (htext : s.identity? row.identity = some text) (hpath : text.split sort = .ok path)
    (hm : path.Mentions r) : ∃ m ∈ dependents, m.symbol.symbol.identity = text := by
  obtain ⟨owner, howner, -⟩ := hs.exists_owner hrow hsort htext hpath
  have hshown := showSymbol?_eq_some_iff.mpr ⟨text, htext, rfl⟩
  have hfound := mem_symbolsMentioning hs h.proper h.identity?_identityId hrow hshown hsort hpath hm
  obtain ⟨path', hpath', ⟨m, hm, he⟩ | hsame⟩ := h.exists_or_of_mentioning hfound hsort
  · exact ⟨m, hm, by rw [he]⟩
  · obtain rfl : path' = path := Except.ok.inj (hpath'.symm.trans hpath)
    -- the identity keeps its parts, so the parts do not mention the class
    have hsame : (path'.renameClass r).identity sort = text := hsame
    have hfixed := MemberPath.eq_renameClass_of_split hpath howner (hsame ▸ hpath)
    exact absurd hm ((MemberPath.renameClass_eq_iff h.proper).mp hfixed.symm)

/-- Every member of the class moves. -/
theorem exists_mem_of_owner (h : s.PlansClass symbol r dependents) (hs : s.Sound)
    (hrow : row ∈ s.symbols) (hsort : row.kind.memberSort? = some sort)
    (htext : s.identity? row.identity = some text)
    (howner : row.owner.bind s.identity? = some (.ofClass r.old)) :
    ∃ m ∈ dependents, m.symbol.symbol.identity = text := by
  obtain ⟨id, hid, hlookup⟩ := Option.bind_eq_some_iff.mp howner
  have hclass : id = symbol.identityId :=
    hs.consistent.eq_of_identity? hlookup h.identity?_identityId
  have hne : row.identity ≠ symbol.identityId := fun he =>
    hs.ne_ofClass hrow hsort htext r.old
      (Option.some.inj (htext.symm.trans (he ▸ h.identity?_identityId)))
  have hfound : _ ∈ s.symbolsMentioning symbol.identityId r.old :=
    mem_symbolsMentioning_iff.mpr ⟨row, hrow, showSymbol?_eq_some_iff.mpr ⟨text, htext, rfl⟩, hne,
      .inl (hid.trans (congrArg some hclass))⟩
  obtain ⟨path, hpath, -⟩ := h.exists_or_of_mentioning hfound hsort
  refine h.exists_mem_of_mentions hs hrow hsort htext hpath (.inl ?_)
  obtain ⟨class', hclass', howner'⟩ := hs.exists_owner hrow hsort htext hpath
  rw [hclass', Option.some.inj (howner'.symm.trans howner), Identity.className_ofClass,
    h.proper.slashed_old]

/-! ### Where identities go -/

/-- The moves of the plan. -/
def moves (r : ClassRename) (dependents : List Migration) : List (Change Identity) :=
  ⟨.ofClass r.old, .ofClass r.new⟩ :: dependents.map Migration.change

theorem destination_old (r : ClassRename) (dependents : List Migration) :
    destination (moves r dependents) (.ofClass r.old) = .ofClass r.new := by
  rw [moves]
  exact destination_cons_self

/-- Only the renamed class moves among the classes. -/
theorem destination_ofClass (h : s.PlansClass symbol r dependents) (hs : s.Sound) (name : String) :
    destination (moves r dependents) (.ofClass name) =
      .ofClass (if ClassName.slashed name = r.old then r.new else name) := by
  split
  · rename_i hold
    have he : Identity.ofClass r.old = .ofClass name :=
      Identity.ofClass_eq_iff.mpr (h.proper.slashed_old.trans hold.symm)
    rw [← he, destination_old]
  · rename_i hne
    refine destination_of_forall_ne (List.forall_mem_cons.mpr ⟨fun he => hne ?_, ?_⟩)
    · exact (Identity.ofClass_eq_iff.mp he).symm.trans h.proper.slashed_old
    · refine List.forall_mem_map.mpr fun m hm he => ?_
      obtain ⟨row, hrow, sort, path, hsort, htext, -, -⟩ := h.exists_of_mem hm
      exact hs.ne_ofClass hrow hsort htext name he

/-- A member of a class goes where renaming the class in its parts leads, or it stays because its
parts do not mention the class. -/
theorem destination_member (h : s.PlansClass symbol r dependents) (hs : s.Sound)
    (hrow : row ∈ s.symbols) (hsort : row.kind.memberSort? = some sort)
    (htext : s.identity? row.identity = some text) :
    (∃ path, text.split sort = .ok path ∧
        destination (moves r dependents) text = (path.renameClass r).identity sort) ∨
      destination (moves r dependents) text = text ∧
        (∀ path, text.split sort = .ok path → ¬path.Mentions r) ∧
        row.owner.bind s.identity? ≠ some (.ofClass r.old) := by
  obtain ⟨c, hc, hbefore, hd⟩ | ⟨hnone, hd⟩ := destination_eq_or (moves r dependents) text
  · left
    rcases List.mem_cons.mp hc with rfl | hc
    · exact absurd hbefore.symm (hs.ne_ofClass hrow hsort htext r.old)
    · obtain ⟨m, hm, rfl⟩ := List.mem_map.mp hc
      obtain ⟨row', hrow', sort', path, hsort', htext', hpath, hidentity⟩ := h.exists_of_mem hm
      have hbefore : m.symbol.symbol.identity = text := hbefore
      have hsame : row' = row := List.inj_on_of_nodup_map hs.consistent.symbols.identities hrow' hrow
        (hs.consistent.eq_of_identity? htext' (hbefore ▸ htext))
      rw [hsame, hsort] at hsort'
      obtain rfl := Option.some.inj hsort'
      exact ⟨path, hbefore ▸ hpath, hd.trans hidentity⟩
  · have hstay : ¬∃ m ∈ dependents, m.symbol.symbol.identity = text := fun ⟨m, hm, he⟩ =>
      hnone _ (List.mem_cons_of_mem _ (List.mem_map_of_mem hm)) he
    refine .inr ⟨hd, fun path hpath hm => hstay ?_, fun howner => hstay ?_⟩
    · exact h.exists_mem_of_mentions hs hrow hsort htext hpath hm
    · exact h.exists_mem_of_owner hs hrow hsort htext howner

/-- After the rename every symbol has an identity made of its owner's. -/
theorem wellNamed_of_follows (h : s.PlansClass symbol r dependents) (hs : s.Sound) {s' : Store}
    {primary : RowId} {row' : SymbolRow} (hrow : row ∈ s.symbols)
    (hf : row.Follows (destination (moves r dependents)) primary s s' row') : row'.WellNamed s' := by
  have hnamed := hs.wellNamed row hrow
  rw [SymbolRow.WellNamed, IsNamed] at hnamed
  rw [SymbolRow.WellNamed, IsNamed, hf.kind, hf.identity, hf.owner]
  split at hnamed
  · obtain ⟨name, hname⟩ := hnamed
    rw [hname, Option.map_some, h.destination_ofClass hs]
    exact ⟨_, rfl⟩
  · rename_i sort hsort
    obtain ⟨owner, name, descriptor, howner, htext⟩ := hnamed
    rw [howner, htext, Option.map_some, Option.map_some, h.destination_ofClass hs]
    obtain ⟨path, hpath, hd⟩ | ⟨hd, -, hne⟩ := h.destination_member hs hrow hsort htext
    · have hrenamed : (path.renameClass r).owner = _ :=
        MemberPath.owner_renameClass (MemberPath.owner_of_split hpath)
      exact ⟨_, path.name, (path.renameClass r).descriptor, rfl, by rw [hd, ← hrenamed]; rfl⟩
    · rw [if_neg fun hold => hne ?_, hd]
      · exact ⟨owner, name, descriptor, rfl, rfl⟩
      · rw [howner, Identity.ofClass_eq_iff.mpr (hold.trans h.proper.slashed_old.symm)]

/-- After the rename the parts of no identity mention the class. -/
theorem not_mentions_of_follows (h : s.PlansClass symbol r dependents) (hs : s.Sound) {s' : Store}
    {primary : RowId} {row' : SymbolRow} {text' : Identity} (hrow : row ∈ s.symbols)
    (hf : row.Follows (destination (moves r dependents)) primary s s' row')
    (hsort : row'.kind.memberSort? = some sort) (htext' : s'.identity? row'.identity = some text')
    (hpath : text'.split sort = .ok path) : ¬path.Mentions r := by
  rw [hf.kind] at hsort
  obtain ⟨text, htext⟩ := hs.consistent.exists_identity? (hs.consistent.symbols.identity_mem row hrow)
  rw [hf.identity, htext, Option.map_some] at htext'
  obtain rfl := Option.some.inj htext'
  obtain ⟨before, hbefore, hd⟩ | ⟨hd, hnone, -⟩ := h.destination_member hs hrow hsort htext
  · obtain ⟨owner, howner, -⟩ := hs.exists_owner hrow hsort htext hbefore
    rw [hd] at hpath
    rw [MemberPath.eq_renameClass_of_split hbefore howner hpath]
    exact MemberPath.not_mentions_renameClass h.proper
  · exact hnone path (hd ▸ hpath)

/-- After the rename no identity is that of the old name. -/
theorem ne_ofClass_old (h : s.PlansClass symbol r dependents) (hs : s.Sound) (identity : Identity) :
    destination (moves r dependents) identity ≠ .ofClass r.old := by
  obtain ⟨c, hc, hbefore, hd⟩ | ⟨hnone, hd⟩ := destination_eq_or (moves r dependents) identity
  · rw [hd]
    rcases List.mem_cons.mp hc with rfl | hc
    · intro he
      have hslashed := Identity.ofClass_eq_iff.mp he
      rw [h.proper.slashed_old, h.proper.slashed_new] at hslashed
      exact h.proper.ne hslashed.symm
    · obtain ⟨m, hm, rfl⟩ := List.mem_map.mp hc
      obtain ⟨row, hrow, sort, path, hsort, htext, hpath, hidentity⟩ := h.exists_of_mem hm
      obtain ⟨owner, howner, -⟩ := hs.exists_owner hrow hsort htext hpath
      have hmember : m.identity.isMember = true :=
        hidentity ▸ MemberPath.isMember_of_owner (MemberPath.owner_renameClass howner)
      intro he
      rw [show m.identity = .ofClass r.old from he] at hmember
      simp at hmember
  · rw [hd]
    exact fun he => hnone _ List.mem_cons_self he.symm

/-- After the rename the old name has no identity. -/
theorem forall_ne_of_migrated (h : s.PlansClass symbol r dependents) (hs : s.Sound) {s' : Store}
    {primary : RowId} (hm : s.Migrated (destination (moves r dependents)) primary s') :
    ∀ row ∈ s'.identities, row.identity ≠ .ofClass r.old := by
  intro row hrow
  obtain ⟨before, -, he⟩ := hm.identities row hrow
  exact he ▸ h.ne_ofClass_old hs before.identity

/-- After the rename the declared class has the identity of the new name. -/
theorem exists_renamed_of_migrated (h : s.PlansClass symbol r dependents)
    (hfile : symbol.symbol.file ≠ none) {s' : Store} (hc : s'.Consistent)
    (hm : s.Migrated (destination (moves r dependents)) symbol.id s')
    (hname : ∀ row ∈ s'.symbols, row.id = symbol.id → some row.name = some r.new) :
    ∃ shown, s'.symbolOf? (.ofClass r.new) = some shown ∧ shown.id = symbol.id ∧
      shown.symbol.file = symbol.symbol.file ∧ shown.symbol.name = r.new := by
  have htext := h.identity?_identityId
  obtain ⟨row, hrow, hshown⟩ := h.row
  obtain ⟨text, -, rfl⟩ := showSymbol?_eq_some_iff.mp hshown
  obtain ⟨row', hrow', hf⟩ | ⟨hnone, -⟩ := hm.symbols row hrow
  · have htext' : s'.identity? row'.identity = some (.ofClass r.new) := by
      rw [hf.identity, show s.identity? row.identity = _ from htext, Option.map_some, destination_old]
    obtain ⟨shown, hshown'⟩ : ∃ shown, s'.showSymbol? row' = some shown :=
      ⟨_, showSymbol?_eq_some_iff.mpr ⟨_, htext', rfl⟩⟩
    have hfound := symbolOf?_of_mem hc hrow' hshown'
    obtain ⟨text, hlookup, rfl⟩ := showSymbol?_eq_some_iff.mp hshown'
    rw [Option.some.inj (hlookup.symm.trans htext')] at hfound
    exact ⟨_, hfound, hf.id, hf.file, Option.some.inj (hname row' hrow' hf.id)⟩
  · exact absurd hnone hfile

end PlansClass

end Store

namespace RenamePlan

open Store

variable {s s' : Store} {identity : Identity} {newName : String} {plan : RenamePlan}
  {outcome : RenameOutcome}

/-- No class moves when a member gets another name. -/
theorem destination_ofClass_of_planMember (hs : s.Sound) {symbol : StoredSymbol} {sort : MemberSort}
    (hsymbol : s.symbolOf? identity = some symbol)
    (hsort : symbol.symbol.kind.memberSort? = some sort)
    (h : s.planMember symbol sort newName = .ok plan) (name : String) :
    destination (plan.migrations.map Migration.change) (.ofClass name) = .ofClass name := by
  obtain ⟨path, -, rfl⟩ := eq_of_planMember h
  obtain ⟨-, row, hrow, hshown⟩ := exists_of_symbolOf? hsymbol
  rw [memberSort?_of_shown hshown] at hsort
  obtain ⟨text, htext, rfl⟩ := showSymbol?_eq_some_iff.mp hshown
  exact destination_single_of_ne (hs.ne_ofClass hrow hsort htext name)

/-- A member keeps its owner when it gets another name, and no other symbol moves. -/
theorem wellNamed_of_planMember (hs : s.Sound) {symbol : StoredSymbol} {sort : MemberSort}
    (hsymbol : s.symbolOf? identity = some symbol)
    (hsort : symbol.symbol.kind.memberSort? = some sort)
    (h : s.planMember symbol sort newName = .ok plan) {primary : RowId} {row row' : SymbolRow}
    (hrow : row ∈ s.symbols)
    (hf : row.Follows (destination (plan.migrations.map Migration.change)) primary s s' row') :
    row'.WellNamed s' := by
  have hclass := destination_ofClass_of_planMember hs hsymbol hsort h
  obtain ⟨path, hpath, rfl⟩ := eq_of_planMember h
  obtain ⟨-, row₀, hrow₀, hshown⟩ := exists_of_symbolOf? hsymbol
  rw [memberSort?_of_shown hshown] at hsort
  obtain ⟨text₀, htext₀, rfl⟩ := showSymbol?_eq_some_iff.mp hshown
  obtain ⟨class', hclass', howner₀⟩ := hs.exists_owner hrow₀ hsort htext₀ hpath
  have hnamed := hs.wellNamed row hrow
  rw [SymbolRow.WellNamed, IsNamed] at hnamed
  rw [SymbolRow.WellNamed, IsNamed, hf.kind, hf.identity, hf.owner]
  simp only [migrations, List.map_cons, List.map_nil, Migration.change] at hclass ⊢
  split at hnamed
  · obtain ⟨name, hname⟩ := hnamed
    rw [hname, Option.map_some, hclass]
    exact ⟨name, rfl⟩
  · rename_i sort' hsort'
    obtain ⟨owner, name, descriptor, howner, htext⟩ := hnamed
    rw [howner, Option.map_some, hclass]
    by_cases he : text₀ = MemberPath.identity ⟨.ofClass owner, name, descriptor⟩ sort'
    · obtain rfl : row₀ = row := List.inj_on_of_nodup_map hs.consistent.symbols.identities hrow₀ hrow
        (hs.consistent.eq_of_identity? htext₀ (he ▸ htext))
      obtain rfl : sort = sort' := Option.some.inj (hsort.symm.trans hsort')
      have hclass' : path.owner = .ofClass owner := by
        rw [hclass', Option.some.inj (howner₀.symm.trans howner)]
      rw [htext₀, Option.map_some, destination_single]
      exact ⟨owner, newName, path.descriptor, rfl, by rw [← hclass']⟩
    · rw [htext, Option.map_some, destination_single_of_ne he]
      exact ⟨owner, name, descriptor, rfl, rfl⟩

/-- The moves of the plan for a class. -/
theorem moves_of_plansClass {symbol : StoredSymbol} {r : ClassRename}
    (h : s.PlansClass symbol r plan.dependents) (hprimary : plan.primary.symbol = symbol)
    (hidentity : plan.primary.identity = .ofClass r.new) :
    plan.migrations.map Migration.change = PlansClass.moves r plan.dependents := by
  rw [migrations, List.map_cons, PlansClass.moves, Migration.change, hprimary, h.identity, hidentity]

variable {symbol : StoredSymbol} {r : ClassRename}

/-- A plan for a class. -/
structure RenamesClass (plan : RenamePlan) (s : Store) (symbol : StoredSymbol) (r : ClassRename) :
    Prop where
  /-- The plan is made for the class. -/
  planned : ∃ requested, s.planClass symbol requested = .ok plan
  /-- The plan gives the class its new name. -/
  edit : plan.edit = .ofClass r
  /-- The class is the symbol that is renamed. -/
  primary : plan.primary.symbol = symbol
  /-- The class gets the identity of its new name. -/
  target : plan.primary.identity = .ofClass r.new
  /-- The class gets its new name. -/
  name : plan.primary.name = some r.new
  /-- The members that mention the class move. -/
  moves : s.PlansClass symbol r plan.dependents

theorem renamesClass_of_planRename (hs : s.Sound) (hsymbol : s.symbolOf? identity = some symbol)
    (hkind : symbol.symbol.kind.memberSort? = none)
    (hplan : s.planRename identity newName = .ok plan) :
    ∃ new, targetClassName identity identity.className newName = .ok new ∧
      plan.RenamesClass s symbol ⟨identity.className, new⟩ := by
  obtain ⟨symbol', hsymbol', -, ⟨-, hclass⟩ | ⟨sort, hsort, -⟩⟩ := plans_of_planRename hplan
  · obtain rfl : symbol' = symbol := Option.some.inj (hsymbol'.symm.trans hsymbol)
    obtain ⟨hidentity, -⟩ := exists_of_symbolOf? hsymbol
    obtain ⟨new, hnew, hprimary, htarget, hname, hplans⟩ := plansClass_of_planClass hs hsymbol hkind hclass
    have hedit : plan.edit = .ofClass ⟨symbol'.symbol.identity.className, new⟩ := by
      obtain ⟨new', _, _, hnew', -, rfl⟩ := eq_of_planClass hclass
      rw [Except.ok.inj (hnew'.symm.trans hnew)]
    rw [hidentity] at hnew hplans hedit
    exact ⟨new, hnew, ⟨newName, hclass⟩, hedit, hprimary, htarget, hname, hplans⟩
  · rw [Option.some.inj (hsymbol'.symm.trans hsymbol), hkind] at hsort
    cases hsort

/-- The identities go where the plan sends them. -/
theorem RenamesClass.changes_eq (h : plan.RenamesClass s symbol r) :
    plan.migrations.map Migration.change = PlansClass.moves r plan.dependents :=
  moves_of_plansClass h.moves h.primary h.target

/-- Classes go to classes. -/
theorem exists_destination_ofClass (hs : s.Sound) (hplan : s.planRename identity newName = .ok plan)
    (name : String) :
    ∃ name', destination (plan.migrations.map Migration.change) (.ofClass name) = .ofClass name' := by
  obtain ⟨symbol, hsymbol, -, ⟨hsort, h⟩ | ⟨sort, hsort, h⟩⟩ := plans_of_planRename hplan
  · obtain ⟨new, -, hprimary, hidentity, -, hclass⟩ := plansClass_of_planClass hs hsymbol hsort h
    rw [moves_of_plansClass hclass hprimary hidentity]
    exact ⟨_, hclass.destination_ofClass hs name⟩
  · exact ⟨name, destination_ofClass_of_planMember hs hsymbol hsort h name⟩

/-- **A rename keeps the store sound**: every symbol still has an identity made of its owner's. -/
theorem sound_of_describes (hs : s.Sound) (hplan : s.planRename identity newName = .ok plan)
    (hd : outcome.Describes plan s s') (hc : s'.Consistent) : s'.Sound := by
  refine ⟨hc, fun row' hrow' => ?_⟩
  obtain ⟨row, hrow, hf⟩ := hd.migrated.origin row' hrow'
  rw [hd.migratedIdentities] at hf
  obtain ⟨symbol, hsymbol, -, ⟨hsort, h⟩ | ⟨sort, hsort, h⟩⟩ := plans_of_planRename hplan
  · obtain ⟨new, -, hprimary, hidentity, -, hclass⟩ := plansClass_of_planClass hs hsymbol hsort h
    rw [moves_of_plansClass hclass hprimary hidentity] at hf
    exact hclass.wellNamed_of_follows hs hrow hf
  · exact wellNamed_of_planMember hs hsymbol hsort h hrow hf

end RenamePlan

end ClassAtlas
