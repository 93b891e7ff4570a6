import ClassAtlas.Proofs.Workspace.InPlace
import ClassAtlas.Proofs.Workspace.Orderly
import ClassAtlas.Proofs.Workspace.Reached

/-!
# Members by their parts

If the descriptor of every method starts with its parenthesis, then the parts of a member can be read off
its identity, and different parts make different identities. The rename of a class then does to the
identities what it does to the parts. If nothing has the new name, no two identities meet, so the rename
is in place; afterwards nothing has the old name, and the rename back brings every identity back.

## Main definitions

* `ClassAtlas.ClassRename.back` — the rename back.
* `ClassAtlas.Store.Legible` — a store whose members have such parts.
* `ClassAtlas.Store.Vacant` — a store in which no identity has the new name.

## Main results

* `ClassAtlas.MemberPath.Legible.renameClass_back` — renaming the parts back gives the old ones.
* `ClassAtlas.Store.PlansClass.destination_of_hasParts` — where the rename of a class sends a member.
* `ClassAtlas.Store.PlansClass.destination_back` — the rename back brings every identity back.
* `ClassAtlas.RenamePlan.inPlace_of_vacant` — the rename to a vacant name is in place.
-/

set_option autoImplicit false

namespace ClassAtlas

/-- The rename back. -/
def ClassRename.back (r : ClassRename) : ClassRename :=
  ⟨r.new, r.old⟩

@[simp] theorem ClassRename.back_old (r : ClassRename) : r.back.old = r.new := rfl

@[simp] theorem ClassRename.back_new (r : ClassRename) : r.back.new = r.old := rfl

@[simp] theorem ClassRename.back_back (r : ClassRename) : r.back.back = r := rfl

/-! ### Parts -/

namespace MemberPath

variable {r : ClassRename} {path : MemberPath} {sort : MemberSort}

theorem name_renameClass (path : MemberPath) (r : ClassRename) :
    (path.renameClass r).name = path.name :=
  rfl

namespace Legible

theorem renameClass (h : path.Legible sort) (r : ClassRename) : (path.renameClass r).Legible sort := by
  obtain ⟨name, howner⟩ := h.owner
  refine ⟨⟨_, owner_renameClass howner⟩, fun hsort => ?_⟩
  have hhead := h.head hsort
  rw [MemberPath.renameClass]
  cases hd : r.descriptor? path.descriptor with
  | none => exact hhead
  | some new => exact Descriptor.head?_rename (by decide) hd hhead

/-- **Renaming back** gives the old parts, if these did not mention the new name. -/
theorem renameClass_back (h : path.Legible sort) (hr : r.IsProper) (hfree : ¬path.Mentions r.back) :
    (path.renameClass r).renameClass r.back = path := by
  rw [Mentions, not_or, not_not] at hfree
  obtain ⟨hnew, hunnamed⟩ := hfree
  have howner : ((path.renameClass r).renameClass r.back).owner = path.owner := by
    obtain ⟨name, hname⟩ := h.owner
    rw [hname, Identity.className_ofClass] at hnew
    rw [owner_renameClass (owner_renameClass hname), hname]
    by_cases hold : ClassName.slashed name = r.old
    · rw [if_pos hold, hr.slashed_new, ClassRename.back_old, if_pos rfl]
      exact Identity.ofClass_eq_iff.mpr (hr.slashed_old.trans hold.symm)
    · rw [if_neg hold, if_neg hnew]
  have hdescriptor : ((path.renameClass r).renameClass r.back).descriptor = path.descriptor := by
    rw [MemberPath.renameClass, MemberPath.renameClass]
    cases hd : r.descriptor? path.descriptor with
    | none => exact congrArg (Option.getD · path.descriptor) hunnamed
    | some new =>
      have hback : r.back.descriptor? new = some path.descriptor :=
        Descriptor.cut_segments.rename_back hr.semicolon hunnamed hd
      exact congrArg (Option.getD · new) hback
  exact MemberPath.ext howner (by rw [name_renameClass, name_renameClass]) hdescriptor

/-- Renamed parts mention the new name. -/
theorem mentions_back (h : path.Legible sort) (hr : r.IsProper) (hfree : ¬path.Mentions r.back)
    (hm : path.Mentions r) : (path.renameClass r).Mentions r.back := by
  by_contra hnot
  have hback := h.renameClass_back hr hfree
  rw [renameClass_eq_of_not_mentions hnot] at hback
  exact (renameClass_eq_iff hr).mp hback hm

end Legible

end MemberPath

/-! ### Identities before and after -/

/-- Where the rename of a class sends an identity that does not have the new name. -/
inductive ClassRename.Sends (r : ClassRename) : Identity → Identity → Prop where
  /-- A class. -/
  | ofClass {name : String} (hname : ClassName.slashed name ≠ r.new) :
    Sends r (.ofClass name) (.ofClass (if ClassName.slashed name = r.old then r.new else name))
  /-- A member. -/
  | ofMember {path : MemberPath} {sort : MemberSort} (hpath : path.Legible sort)
    (hfree : ¬path.Mentions r.back) :
    Sends r (path.identity sort) ((path.renameClass r).identity sort)

namespace ClassRename.Sends

variable {r : ClassRename} {x x' y z : Identity}

theorem ofClass_ne_identity {name : String} {path : MemberPath} {sort : MemberSort}
    (hp : path.Legible sort) : Identity.ofClass name ≠ path.identity sort := by
  obtain ⟨owner, howner⟩ := hp.owner
  intro he
  have hmember := congrArg Identity.isMember he
  rw [Identity.isMember_ofClass, MemberPath.isMember_of_owner howner] at hmember
  cases hmember

/-- An identity is sent to one place only. -/
theorem unique (h : r.Sends x y) (h' : r.Sends x' z) (he : x = x') : y = z := by
  cases h with
  | @ofClass name hname =>
    cases h' with
    | @ofClass name' hname' =>
      have hslashed := Identity.ofClass_eq_iff.mp he
      rw [hslashed]
      split
      · rfl
      · exact he
    | ofMember hpath' hfree' => exact absurd he (ofClass_ne_identity hpath')
  | ofMember hpath hfree =>
    cases h' with
    | ofClass hname' => exact absurd he.symm (ofClass_ne_identity hpath)
    | ofMember hpath' hfree' =>
      obtain ⟨rfl, rfl⟩ := hpath.eq_of_identity hpath' he
      rfl

/-- **The rename back** sends an identity where it came from. -/
theorem back (hr : r.IsProper) (h : r.Sends x y) : r.back.Sends y x := by
  cases h with
  | @ofClass name hname =>
    by_cases hold : ClassName.slashed name = r.old
    · have hsends : r.back.Sends (.ofClass r.new) _ := .ofClass (by rw [hr.slashed_new]; exact hr.ne.symm)
      rw [hr.slashed_new, back_old, if_pos rfl, back_new,
        Identity.ofClass_eq_iff.mpr (hr.slashed_old.trans hold.symm)] at hsends
      rwa [if_pos hold]
    · have hsends : r.back.Sends (.ofClass name) _ := .ofClass hold
      rw [back_old, if_neg hname] at hsends
      rwa [if_neg hold]
  | @ofMember path sort hpath hfree =>
    have hsends : r.back.Sends _ _ :=
      .ofMember (hpath.renameClass r) (MemberPath.not_mentions_renameClass hr)
    rwa [hpath.renameClass_back hr hfree] at hsends

/-- Different identities are sent to different ones. -/
theorem injective (hr : r.IsProper) (h : r.Sends x z) (h' : r.Sends x' z) : x = x' :=
  (h.back hr).unique (h'.back hr) rfl

/-- What an identity is sent to has the new name, or the identity stays. -/
theorem eq_of_sends (hr : r.IsProper) (h : r.Sends x y) (h' : r.Sends x' z) (he : y = x') : x = y := by
  cases h with
  | @ofClass name hname =>
    cases h' with
    | @ofClass name' hname' =>
      split at he
      · rw [Identity.ofClass_eq_iff, hr.slashed_new] at he
        exact absurd he.symm hname'
      · rw [if_neg ‹_›]
    | ofMember hpath' hfree' => exact absurd he (ofClass_ne_identity hpath')
  | @ofMember path sort hpath hfree =>
    cases h' with
    | ofClass hname' => exact absurd he.symm (ofClass_ne_identity (hpath.renameClass r))
    | ofMember hpath' hfree' =>
      obtain ⟨rfl, rfl⟩ := (hpath.renameClass r).eq_of_identity hpath' he
      by_cases hm : path.Mentions r
      · exact absurd (hpath.mentions_back hr hfree hm) hfree'
      · rw [MemberPath.renameClass_eq_of_not_mentions hm]

end ClassRename.Sends

/-! ### Members -/

/-- A member with the parts of its identity. -/
structure SymbolRow.HasParts (s : Store) (row : SymbolRow) (sort : MemberSort) (path : MemberPath) :
    Prop where
  /-- The symbol is a member of the sort. -/
  kind : row.kind.memberSort? = some sort
  /-- The parts can be read off the identity. -/
  legible : path.Legible sort
  /-- The owner of the symbol is that of the parts. -/
  owner : row.owner.bind s.identity? = some path.owner
  /-- The identity is made of the parts. -/
  identity : s.identity? row.identity = some (path.identity sort)

namespace Store

variable {s s' : Store} {symbol symbol' : StoredSymbol} {r : ClassRename}
  {dependents dependents' : List Migration} {row row' : SymbolRow} {sort : MemberSort}
  {path : MemberPath} {ρ : Identity → Identity} {primary : RowId}

/-- A sound store in which every identity belongs to a symbol and every member has parts. -/
structure Legible (s : Store) : Prop where
  /-- Identities are made of their owners'. -/
  sound : s.Sound
  /-- Every identity belongs to a symbol. -/
  rooted : s.Rooted
  /-- Every member has parts. -/
  parts : ∀ row ∈ s.symbols, ∀ sort, row.kind.memberSort? = some sort →
    ∃ path, SymbolRow.HasParts s row sort path

/-- A store in which nothing has the new name of a class: no identity is that of the new name, and no
member mentions it. -/
structure Vacant (s : Store) (r : ClassRename) : Prop where
  /-- No identity is that of the new name. -/
  identities : ∀ row ∈ s.identities, row.identity ≠ .ofClass r.new
  /-- No member mentions the new name. -/
  members : ∀ row ∈ s.symbols, ∀ sort path, SymbolRow.HasParts s row sort path →
    ¬path.Mentions r.back

/-- An identity is that of a class, or that of a member with parts. -/
theorem Legible.exists_of_mem (hs : s.Legible) {identity : IdentityRow}
    (h : identity ∈ s.identities) : (∃ name, identity.identity = .ofClass name) ∨
      ∃ row ∈ s.symbols, ∃ sort path, SymbolRow.HasParts s row sort path ∧
        identity.identity = path.identity sort := by
  obtain ⟨row, hrow, hid⟩ := List.mem_map.mp (hs.rooted identity h)
  have htext : s.identity? row.identity = some identity.identity :=
    hs.sound.consistent.identity?_eq_some_iff.mpr (hid ▸ h)
  cases hsort : row.kind.memberSort? with
  | none =>
    have hnamed := hs.sound.wellNamed row hrow
    rw [SymbolRow.WellNamed, IsNamed, hsort, htext] at hnamed
    obtain ⟨name, hname⟩ := hnamed
    exact .inl ⟨name, Option.some.inj hname⟩
  | some sort =>
    obtain ⟨path, hp⟩ := hs.parts row hrow sort hsort
    exact .inr ⟨row, hrow, sort, path, hp, Option.some.inj (htext.symm.trans hp.identity)⟩

/-! ### Rows that moved in place -/

namespace InPlace

theorem identity?_eq (h : s.InPlace ρ primary s') (id : RowId) :
    s'.identity? id = (s.identity? id).map ρ := by
  rw [identity?, identity?, h.identities, List.find?_map, Option.map_map, Option.map_map]
  rfl

theorem follows (h : s.InPlace ρ primary s') {f : SymbolRow → SymbolRow}
    (hf : ∀ row, f row = { row with name := (f row).name, signature := (f row).signature })
    (hname : ∀ row, row.id ≠ primary → (f row).name = row.name) (row : SymbolRow) :
    row.Follows ρ primary s s' (f row) := by
  have howner : (row.owner.bind s'.identity?) = (row.owner.bind s.identity?).map ρ := by
    rw [Option.map_bind]
    exact congrArg row.owner.bind (funext h.identity?_eq)
  constructor
  · rw [hf]
  · rw [hf]
  · rw [hf]
  · rw [hf]
  · exact hname row
  · rw [hf]
    exact h.identity?_eq row.identity
  · rw [hf]
    exact howner

/-- Every symbol is there afterwards. -/
theorem exists_after (h : s.InPlace ρ primary s') (hrow : row ∈ s.symbols) :
    ∃ row' ∈ s'.symbols, row.Follows ρ primary s s' row' := by
  obtain ⟨f, hsymbols, hf, hname⟩ := h.symbols
  exact ⟨f row, hsymbols ▸ List.mem_map_of_mem hrow, h.follows hf hname row⟩

/-- Every symbol was there before. -/
theorem exists_before (h : s.InPlace ρ primary s') (hrow : row' ∈ s'.symbols) :
    ∃ row ∈ s.symbols, row.Follows ρ primary s s' row' := by
  obtain ⟨f, hsymbols, hf, hname⟩ := h.symbols
  obtain ⟨row, hmem, rfl⟩ := List.mem_map.mp (hsymbols ▸ hrow)
  exact ⟨row, hmem, h.follows hf hname row⟩

theorem rooted (h : s.InPlace ρ primary s') (hs : s.Rooted) : s'.Rooted := by
  obtain ⟨f, hsymbols, hf, -⟩ := h.symbols
  intro row hrow
  obtain ⟨before, hbefore, rfl⟩ := List.mem_map.mp (h.identities ▸ hrow)
  obtain ⟨symbol, hsymbol, hid⟩ := List.mem_map.mp (hs before hbefore)
  refine List.mem_map.mpr ⟨f symbol, hsymbols ▸ List.mem_map_of_mem hsymbol, ?_⟩
  rw [hf]
  exact hid

end InPlace

/-! ### The rename of a class -/

namespace PlansClass

/-- **Where the rename of a class sends a member.** It does to the identity what it does to the parts. -/
theorem destination_of_hasParts (h : s.PlansClass symbol r dependents) (hs : s.Sound)
    (hrow : row ∈ s.symbols) (hp : SymbolRow.HasParts s row sort path) :
    destination (moves r dependents) (path.identity sort) = (path.renameClass r).identity sort := by
  obtain ⟨found, hfound, hd⟩ | ⟨hd, hfree, howner⟩ := h.destination_member hs hrow hp.kind hp.identity
  · rw [hd, hp.legible.eq_of_split hfound]
  · have hnot : ¬path.Mentions r := by
      rintro (hold | hdescriptor)
      · obtain ⟨name, hname⟩ := hp.legible.owner
        rw [hname, Identity.className_ofClass] at hold
        rw [hp.owner, hname] at howner
        exact howner (congrArg some (Identity.ofClass_eq_iff.mpr (hold.trans h.proper.slashed_old.symm)))
      · obtain ⟨found, hfound⟩ := h.exists_split_of_descriptor hs hrow hp.kind hp.identity
          (MemberPath.suffix_identity path sort) hdescriptor
        exact hfree found hfound (hp.legible.eq_of_split hfound ▸ .inr hdescriptor)
    rw [hd, MemberPath.renameClass_eq_of_not_mentions hnot]

theorem hasParts_of_follows (h : s.PlansClass symbol r dependents) (hs : s.Sound)
    (hrow : row ∈ s.symbols) (hp : SymbolRow.HasParts s row sort path)
    (hf : row.Follows (destination (moves r dependents)) primary s s' row') :
    SymbolRow.HasParts s' row' sort (path.renameClass r) := by
  obtain ⟨name, hname⟩ := hp.legible.owner
  refine ⟨hf.kind ▸ hp.kind, hp.legible.renameClass r, ?_, ?_⟩
  · rw [hf.owner, hp.owner, MemberPath.owner_renameClass hname, hname, Option.map_some,
      h.destination_ofClass hs]
  · rw [hf.identity, hp.identity, Option.map_some, h.destination_of_hasParts hs hrow hp]

/-- The rename of a class sends every identity where the parts say, if nothing has the new name. -/
theorem sends_destination (h : s.PlansClass symbol r dependents) (hs : s.Legible) (hv : s.Vacant r)
    {identity : IdentityRow} (hmem : identity ∈ s.identities) :
    r.Sends identity.identity (destination (moves r dependents) identity.identity) := by
  rcases hs.exists_of_mem hmem with ⟨name, hname⟩ | ⟨row, hrow, sort, path, hp, hpath⟩
  · rw [hname, h.destination_ofClass hs.sound]
    refine .ofClass fun hnew => hv.identities identity hmem ?_
    rw [hname, Identity.ofClass_eq_iff, hnew, h.proper.slashed_new]
  · rw [hpath, h.destination_of_hasParts hs.sound hrow hp]
    exact .ofMember hp.legible (hv.members row hrow sort path hp)

/-- What moves goes elsewhere. -/
theorem identity_ne_of_mem (h : s.PlansClass symbol r dependents) {m : Migration}
    (hm : m ∈ dependents) : m.symbol.symbol.identity ≠ m.identity := by
  obtain ⟨resignatures, hplanned⟩ := h.planned
  have hmoved := ((spec_of_planDependents hplanned).2.1 m hm).1
  cases hsort : m.symbol.symbol.kind.memberSort? with
  | none =>
    rw [StoredSymbol.movedIdentity?, hsort] at hmoved
    cases hmoved
  | some sort =>
    obtain ⟨path, -, hend⟩ := (movedIdentity?_eq_ok_iff hsort).mp hmoved
    split at hend
    · cases hend
    · rename_i hne
      exact Option.some.inj hend ▸ Ne.symm hne

/-- The store has parts after the rename as well. -/
theorem legible_of_inPlace (h : s.PlansClass symbol r dependents) (hs : s.Legible) (hs' : s'.Sound)
    (hplace : s.InPlace (destination (moves r dependents)) primary s') : s'.Legible := by
  refine ⟨hs', hplace.rooted hs.rooted, fun row' hrow' sort hsort => ?_⟩
  obtain ⟨row, hrow, hf⟩ := hplace.exists_before hrow'
  obtain ⟨path, hp⟩ := hs.parts row hrow sort (hf.kind ▸ hsort)
  exact ⟨_, h.hasParts_of_follows hs.sound hrow hp hf⟩

/-- After the rename nothing has the old name. -/
theorem vacant_of_inPlace (h : s.PlansClass symbol r dependents) (hs : s.Legible)
    (hplace : s.InPlace (destination (moves r dependents)) primary s') : s'.Vacant r.back := by
  refine ⟨fun row' hrow' => ?_, fun row' hrow' sort path' hp' => ?_⟩
  · obtain ⟨row, -, he⟩ := hplace.mem_identities_iff.mp ⟨row', hrow', rfl⟩
    exact he ▸ h.ne_ofClass_old hs.sound row.identity
  · obtain ⟨row, hrow, hf⟩ := hplace.exists_before hrow'
    obtain ⟨path, hp⟩ := hs.parts row hrow sort (hf.kind ▸ hp'.kind)
    have hsame := (h.hasParts_of_follows hs.sound hrow hp hf).identity
    obtain ⟨-, rfl⟩ := hp'.legible.eq_of_identity (hp.legible.renameClass r)
      (Option.some.inj (hp'.identity.symm.trans hsame))
    exact MemberPath.not_mentions_renameClass h.proper

/-- **The rename back** sends every identity where it came from. -/
theorem destination_back (h : s.PlansClass symbol r dependents) (hs : s.Legible) (hv : s.Vacant r)
    (hs' : s'.Sound) (hplace : s.InPlace (destination (moves r dependents)) primary s')
    (h' : s'.PlansClass symbol' r.back dependents') {row : IdentityRow} (hrow : row ∈ s.identities) :
    destination (moves r.back dependents') (destination (moves r dependents) row.identity) =
      row.identity := by
  obtain ⟨row', hrow', he⟩ := hplace.mem_identities_iff.mpr ⟨row, hrow, rfl⟩
  have hthere := h.sends_destination hs hv hrow
  have hback := h'.sends_destination (h.legible_of_inPlace hs hs' hplace)
    (h.vacant_of_inPlace hs hplace) hrow'
  rw [← he] at hthere ⊢
  exact hback.unique (hthere.back h.proper) rfl

end PlansClass

end Store

/-! ### Committing the rename of a class -/

namespace RenamePlan

open Store

variable {s s' : Store} {identity : Identity} {newName : String} {plan : RenamePlan} {r : ClassRename}
  {revisions : List (FileRow × List UInt8)} {outcome : RenameOutcome} {numbers : List RowId}

/-- **The rename of a class to a vacant name is in place.**

**Proof sketch.** Different identities are sent to different ones, so the targets are different. What is
sent elsewhere has the new name afterwards, and nothing that is there has it, so the targets are free. -/
theorem inPlace_of_vacant (hs : s.Legible) (hplan : s.planRename identity newName = .ok plan)
    (hclass : s.PlansClass plan.primary.symbol r plan.dependents)
    (htarget : plan.primary.identity = .ofClass r.new) (hv : s.Vacant r)
    (h : plan.commit revisions s = .ok ((outcome, numbers), s')) :
    s.InPlace (destination (plan.migrations.map Migration.change)) plan.primary.symbol.id s' := by
  have hc := hs.sound.consistent
  have hpresent (m : Migration) (hm : m ∈ plan.migrations) :
      ⟨m.symbol.identityId, m.symbol.symbol.identity⟩ ∈ s.identities :=
    hc.identity?_eq_some_iff.mp (identity?_of_mem hc hplan hm)
  have hsends (m : Migration) (hm : m ∈ plan.migrations) :
      r.Sends m.symbol.symbol.identity m.identity := by
    have hd := destination_of_mem (nodup_sources hc hplan) (List.mem_map_of_mem hm)
    rw [moves_of_plansClass hclass rfl htarget] at hd
    have hsends := hclass.sends_destination hs hv (hpresent m hm)
    rwa [show destination _ m.symbol.symbol.identity = m.identity from hd] at hsends
  have htargets : (plan.migrations.map Migration.identity).Nodup := by
    have hsources := nodup_sources hc hplan
    rw [List.map_map] at hsources
    refine List.pairwise_map.mpr ((List.pairwise_map.mp hsources).imp_of_mem ?_)
    intro m m' hm hm' hne he
    have hsent := hsends m' hm'
    rw [← he] at hsent
    exact hne ((hsends m hm).injective hclass.proper hsent)
  have hfree : ∀ m ∈ plan.migrations, ∀ other ∈ s.identities, other.identity ≠ m.identity := by
    intro m hm other ho he
    have hstay := (hsends m hm).eq_of_sends hclass.proper (hclass.sends_destination hs hv ho) he.symm
    rcases List.mem_cons.mp hm with rfl | hm
    · rw [hclass.identity, htarget, Identity.ofClass_eq_iff, hclass.proper.slashed_old,
        hclass.proper.slashed_new] at hstay
      exact hclass.proper.ne hstay
    · exact hclass.identity_ne_of_mem hm hstay
  exact inPlace_of_commit hc hplan hfree htargets h

end RenamePlan

end ClassAtlas
