import ClassAtlas.Proofs.Workspace.Resigned

/-!
# Moving identities in place

If no move goes to an identity that is there already, then nothing is merged: every identity keeps its
number and gets a new text, and the rows of the other tables stay as they are, but for the names and the
signatures of symbols.

## Main definitions

* `ClassAtlas.Store.InPlace` — the tables before and after identities moved in place.

## Main results

* `ClassAtlas.RenamePlan.inPlace_mapM_migrate` — moves to new identities are in place.
* `ClassAtlas.RenamePlan.inPlace_of_commit` — a rename whose moves go to new identities.
* `ClassAtlas.Store.InPlace.eq_of_back` — two renames in place that undo each other.
-/

set_option autoImplicit false

namespace ClassAtlas

variable {ρ ρ' : Identity → Identity} {primary : RowId} {s s' s₁ s₂ s₃ : Store}

namespace Store

/-- The tables before and after identities moved in place. -/
structure InPlace (ρ : Identity → Identity) (primary : RowId) (before after : Store) : Prop where
  /-- Every identity keeps its number. -/
  identities : after.identities =
    before.identities.map fun row => { row with identity := ρ row.identity }
  /-- Every symbol keeps all but its name and its signature; only the renamed one gets a name. -/
  symbols : ∃ f : SymbolRow → SymbolRow, after.symbols = before.symbols.map f ∧
    (∀ row, f row = { row with name := (f row).name, signature := (f row).signature }) ∧
    ∀ row, row.id ≠ primary → (f row).name = row.name
  /-- The references stay. -/
  references : after.references = before.references

namespace InPlace

theorem trans (h : s₁.InPlace ρ primary s₂) (h' : s₂.InPlace ρ' primary s₃) :
    s₁.InPlace (ρ' ∘ ρ) primary s₃ := by
  obtain ⟨f, hsymbols, hf, hname⟩ := h.symbols
  obtain ⟨f', hsymbols', hf', hname'⟩ := h'.symbols
  refine ⟨?_, ⟨f' ∘ f, ?_, fun row => ?_, fun row hne => ?_⟩, h'.references.trans h.references⟩
  · rw [h'.identities, h.identities, List.map_map]
    rfl
  · rw [hsymbols', hsymbols, List.map_map]
  · rw [Function.comp_apply, hf', hf row]
  · have hid : (f row).id = row.id := by rw [hf]
    exact (hname' _ (hid ▸ hne)).trans (hname row hne)

/-- Changes of titles move nothing. -/
theorem of_retitled (h : Retitled primary s s') : s.InPlace id primary s' := by
  obtain ⟨f, rfl, hf, hname⟩ := h
  exact ⟨(List.map_id _).symm, ⟨f, rfl, hf, hname⟩, rfl⟩

/-- Changes of files move nothing. -/
theorem of_onlyFiles (h : RenamePlan.OnlyFiles s s') : s.InPlace id primary s' := by
  rw [RenamePlan.OnlyFiles] at h
  rw [h]
  exact ⟨(List.map_id _).symm, ⟨id, (List.map_id _).symm, fun _ => rfl, fun _ _ => rfl⟩, rfl⟩

/-- The identities afterwards are those to which the identities went. -/
theorem mem_identities_iff (h : s.InPlace ρ primary s') {identity : Identity} :
    (∃ row ∈ s'.identities, row.identity = identity) ↔
      ∃ row ∈ s.identities, ρ row.identity = identity := by
  rw [h.identities]
  simp

end InPlace

/-- Renaming an identity to one that is not there is in place. -/
theorem inPlace_renameIdentity (hs : s.Consistent) {old : RowId} {current identity : Identity}
    (hcurrent : s.identity? old = some current) :
    s.InPlace (destination [⟨current, identity⟩]) primary (s.renameIdentity old identity) := by
  refine ⟨?_, ⟨id, (List.map_id _).symm, fun _ => rfl, fun _ _ => rfl⟩, rfl⟩
  refine List.map_congr_left fun row hrow => ?_
  rw [← identity_renamed hs hcurrent hrow]
  split <;> rfl

end Store

namespace RenamePlan

open Store
open Transaction (Keeps bind_eq_ok_iff mapM_cons_eq_ok_iff)

variable {m : Migration} {ms : List Migration} {number : RowId} {numbers : List RowId}

/-- A migration to an identity that is not there is in place. -/
theorem inPlace_migrate (hs : s.Consistent) (hp : m.name ≠ none → m.symbol.id = primary)
    {row : SymbolRow} (hrow : row ∈ s.symbols) (hid : row.id = m.symbol.id)
    (hcurrent : s.identity? row.identity = some m.symbol.symbol.identity)
    (hfree : ∀ other ∈ s.identities, other.identity ≠ m.identity)
    (h : migrate m s = .ok (number, s')) : s.InPlace (destination [m.change]) primary s' := by
  obtain ⟨s₁, s₂, h₁, hmove, h₂⟩ := exists_of_migrate hp h
  have hs₁ := h₁.consistent hs
  obtain ⟨row₁, hrow₁, hid₁, hcase⟩ := eq_or_of_moveSymbol hs₁ hmove
  have hnone : s₁.identityId? m.identity = none := by
    refine Consistent.identityId?_eq_none_iff.mpr fun other ho => hfree other ?_
    obtain ⟨f, rfl, -⟩ := h₁
    exact ho
  obtain ⟨-, -, rfl⟩ | ⟨hsome, -⟩ | ⟨hsome, -⟩ := hcase
  · obtain ⟨row', hrow', hid', he⟩ := h₁.exists_mem_iff.mp ⟨row₁, hrow₁, hid₁, rfl⟩
    obtain rfl := List.inj_on_of_nodup_map hs.symbols.ids hrow hrow' (hid.trans hid'.symm)
    have hcurrent₁ : s₁.identity? row₁.identity = some m.symbol.symbol.identity := by
      rw [h₁.identity?_eq, ← he, hcurrent]
    exact ((InPlace.of_retitled h₁).trans (inPlace_renameIdentity hs₁ hcurrent₁)).trans
      (InPlace.of_retitled h₂)
  · rw [hnone] at hsome
    cases hsome
  · rw [hnone] at hsome
    cases hsome

/-- **Moves to new identities are in place.** The targets are different, and none of them is there.

**Proof sketch.** By induction on the list. The first move is in place. The later symbols still have the
identities that the list names, because these are not that of the first symbol; and the later targets
are still free, because the first target is not one of them. -/
theorem inPlace_mapM_migrate (hready : Ready s ms)
    (hp : ∀ m ∈ ms, m.name ≠ none → m.symbol.id = primary)
    (hfree : ∀ m ∈ ms, ∀ other ∈ s.identities, other.identity ≠ m.identity)
    (htargets : (ms.map Migration.identity).Nodup)
    (h : ms.mapM migrate s = .ok (numbers, s')) :
    s.InPlace (destination (ms.map Migration.change)) primary s' := by
  induction ms generalizing s numbers with
  | nil =>
    cases h
    exact InPlace.of_retitled Retitled.refl
  | cons m ms ih =>
    obtain ⟨number, s₁, more, hfirst, hrest, rfl⟩ := mapM_cons_eq_ok_iff.mp h
    obtain ⟨hother, htargets⟩ := List.nodup_cons.mp htargets
    obtain ⟨row, hrow, hid, hcurrent⟩ := hready.exists_row m List.mem_cons_self
    have hplace := inPlace_migrate hready.consistent (hp m List.mem_cons_self) hrow hid hcurrent
      (hfree m List.mem_cons_self) hfirst
    have hfree₁ : ∀ later ∈ ms, ∀ other ∈ s₁.identities, other.identity ≠ later.identity := by
      intro later hl other ho he
      obtain ⟨before, hb, hd⟩ := hplace.mem_identities_iff.mp ⟨other, ho, he⟩
      obtain ⟨c, hc, -, hd'⟩ | ⟨-, hd'⟩ := destination_eq_or [m.change] before.identity
      · obtain rfl := List.mem_singleton.mp hc
        exact hother (List.mem_map.mpr ⟨later, hl, (hd.symm.trans hd')⟩)
      · exact hfree later (List.mem_cons_of_mem _ hl) before hb (hd'.symm.trans hd)
    have hstay : ∀ c ∈ ms.map Migration.change, c.before ≠ m.change.after := by
      refine List.forall_mem_map.mpr fun later hl he => ?_
      obtain ⟨other, ho, -, hotext⟩ := hready.exists_row later (List.mem_cons_of_mem _ hl)
      exact hfree m List.mem_cons_self _ (hready.consistent.identity?_eq_some_iff.mp hotext) he
    rw [List.map_cons, destination_cons hstay]
    exact hplace.trans (ih (hready.tail hfirst hrest)
      (fun later hl => hp later (List.mem_cons_of_mem _ hl)) hfree₁ htargets hrest)

theorem inPlace_resignatures {resignatures : List (RowId × String)} {u : Unit}
    (h : resignatures.forM (fun p : RowId × String => setSymbolSignature p.1 p.2) s = .ok (u, s')) :
    s.InPlace id primary s' := by
  induction resignatures generalizing s with
  | nil =>
    cases h
    exact InPlace.of_retitled Retitled.refl
  | cons p resignatures ih =>
    obtain ⟨_, s₁, hfirst, hrest⟩ := bind_eq_ok_iff.mp h
    cases hfirst
    have hretitled : Retitled primary s (s.modifySymbol p.1 fun row =>
        { row with signature := some p.2 }) :=
      Retitled.modifySymbol (fun _ => rfl) fun _ _ _ => rfl
    exact (InPlace.of_retitled hretitled).trans (ih hrest)

/-- **A rename whose moves go to new identities is in place.** -/
theorem inPlace_of_commit {identity : Identity} {newName : String} {plan : RenamePlan}
    {revisions : List (FileRow × List UInt8)} {outcome : RenameOutcome} (hs : s.Consistent)
    (hplan : s.planRename identity newName = .ok plan)
    (hfree : ∀ m ∈ plan.migrations, ∀ other ∈ s.identities, other.identity ≠ m.identity)
    (htargets : (plan.migrations.map Migration.identity).Nodup)
    (h : plan.commit revisions s = .ok ((outcome, numbers), s')) :
    s.InPlace (destination (plan.migrations.map Migration.change)) plan.primary.symbol.id s' := by
  obtain ⟨s₂, s₃, honly, hs₂, hmigrate, hsignatures⟩ := exists_onlyFiles_of_commit hs h
  have hplace : s.InPlace id plan.primary.symbol.id s₂ := InPlace.of_onlyFiles honly
  have hfree₂ : ∀ m ∈ plan.migrations, ∀ other ∈ s₂.identities, other.identity ≠ m.identity :=
    fun m hm other ho => hfree m hm other (honly.identities_eq ▸ ho)
  have hmoves := inPlace_mapM_migrate (ready_of_planRename hs hplan honly hs₂)
    (eq_primary_of_name hs hplan) hfree₂ htargets hmigrate
  exact (hplace.trans hmoves).trans (inPlace_resignatures hsignatures)

end RenamePlan

namespace Store.InPlace

/-- **Two renames in place that undo each other** leave the tables as they were: each identity comes back,
the renamed symbol gets its name back, and each symbol its signature. -/
theorem eq_of_back (h : s.InPlace ρ primary s₁) (h' : s₁.InPlace ρ' primary s₂)
    (hidentities : ∀ row ∈ s.identities, ρ' (ρ row.identity) = row.identity)
    (htitles : ∀ row ∈ s.symbols, ∀ row₂ ∈ s₂.symbols, row₂.id = row.id →
      (row.id = primary → row₂.name = row.name) ∧ row₂.signature = row.signature) :
    s₂.identities = s.identities ∧ s₂.symbols = s.symbols ∧ s₂.references = s.references := by
  have hboth := h.trans h'
  refine ⟨?_, ?_, hboth.references⟩
  · rw [hboth.identities]
    refine (List.map_congr_left fun row hrow => ?_).trans (List.map_id' _)
    rw [Function.comp_apply, hidentities row hrow]
  · obtain ⟨f, hsymbols, hf, hname⟩ := hboth.symbols
    rw [hsymbols]
    refine (List.map_congr_left fun row hrow => ?_).trans (List.map_id' _)
    obtain ⟨hprimary, hsignature⟩ := htitles row hrow (f row) (hsymbols ▸ List.mem_map_of_mem hrow)
      (by rw [hf])
    have htitle : (f row).name = row.name := by
      by_cases he : row.id = primary
      · exact hprimary he
      · exact hname row he
    rw [hf, htitle, hsignature]

end Store.InPlace

end ClassAtlas
