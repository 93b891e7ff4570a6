import ClassAtlas.Proofs.Store.Changes
import ClassAtlas.Workspace.Rename

/-!
# Moving identities one after the other

A rename moves several symbols, one after the other, over tables that they share. Each move sends one
identity to another one, wherever it is named, and a mention that is in the way is dropped. If all
moves succeed, together they do what the list of moves says: every identity in it goes to its new one,
and all others stay.

## Main definitions

* `ClassAtlas.destination` — where a list of changes sends an identity.
* `ClassAtlas.SymbolRow.Follows`, `ClassAtlas.ReferenceRow.Follows` — a row before and after.
* `ClassAtlas.Store.Migrated` — the tables before and after identities went somewhere.

## Main results

* `ClassAtlas.Store.Migrated.trans` — one migration after the other.
* `ClassAtlas.Store.migrated_moveSymbol` — moving one symbol.
* `ClassAtlas.RenamePlan.migrated_mapM_migrate` — moving one symbol after the other.
-/

set_option autoImplicit false

namespace ClassAtlas

/-! ### Where identities go -/

/-- Where a list of changes sends an identity; one that it does not name stays. -/
def destination (changes : List (Change Identity)) (identity : Identity) : Identity :=
  ((changes.find? (·.before == identity)).map Change.after).getD identity

section Destination

variable {change : Change Identity} {changes : List (Change Identity)} {identity : Identity}

@[simp]
theorem destination_cons_self : destination (change :: changes) change.before = change.after := by
  simp [destination]

theorem destination_single (source target : Identity) :
    destination [⟨source, target⟩] source = target :=
  destination_cons_self

theorem destination_cons_of_ne (h : change.before ≠ identity) :
    destination (change :: changes) identity = destination changes identity := by
  simp [destination, h]

theorem destination_of_forall_ne (h : ∀ c ∈ changes, c.before ≠ identity) :
    destination changes identity = identity := by
  rw [destination, List.find?_eq_none.mpr fun c hc => by simpa using h c hc]
  rfl

/-- One change leaves every identity but its source alone. -/
theorem destination_single_of_ne (h : change.before ≠ identity) :
    destination [change] identity = identity :=
  destination_of_forall_ne fun _ hc => List.mem_singleton.mp hc ▸ h

/-- The target of a change stays. -/
theorem destination_single_target (source target : Identity) :
    destination [⟨source, target⟩] target = target := by
  by_cases h : source = target
  · exact h ▸ destination_single source target
  · exact destination_single_of_ne h

/-- A change that goes nowhere. -/
theorem destination_single_self (source : Identity) : destination [⟨source, source⟩] = id := by
  funext identity
  by_cases h : source = identity
  · exact h ▸ destination_single source source
  · exact destination_single_of_ne h

/-- Changes with different sources send each source to its target. -/
theorem destination_of_mem (hn : (changes.map Change.before).Nodup) (hc : change ∈ changes) :
    destination changes change.before = change.after := by
  rw [destination, (find?_key_eq_some_iff hn).mpr ⟨hc, rfl⟩]
  rfl

/-- An identity that moves goes to the target of one of the changes. -/
theorem destination_eq_or (changes : List (Change Identity)) (identity : Identity) :
    (∃ c ∈ changes, c.before = identity ∧ destination changes identity = c.after) ∨
      (∀ c ∈ changes, c.before ≠ identity) ∧ destination changes identity = identity := by
  rw [destination]
  cases hf : changes.find? (·.before == identity) with
  | none => exact .inr ⟨fun c hc => by simpa using List.find?_eq_none.mp hf c hc, rfl⟩
  | some c =>
    exact .inl ⟨c, List.mem_of_find?_eq_some hf, by simpa using List.find?_some hf, rfl⟩

/-- If no later change starts where the first one ends, all changes at once are the first one
followed by the others. -/
theorem destination_cons (h : ∀ c ∈ changes, c.before ≠ change.after) :
    destination (change :: changes) = destination changes ∘ destination [change] := by
  funext identity
  by_cases hi : change.before = identity
  · subst hi
    simp [destination_of_forall_ne h]
  · rw [destination_cons_of_ne hi, Function.comp_apply, destination_single_of_ne hi]

end Destination

/-! ### Rows before and after -/

variable {ρ ρ' : Identity → Identity} {primary : RowId} {s s' s₁ s₂ s₃ : Store}

/-- A symbol before and after identities went somewhere: its identity and its owner went there, and
its name is kept, unless it is the symbol that is renamed. -/
structure SymbolRow.Follows (ρ : Identity → Identity) (primary : RowId) (before after : Store)
    (row row' : SymbolRow) : Prop where
  /-- The number is kept. -/
  id : row'.id = row.id
  /-- The kind is kept. -/
  kind : row'.kind = row.kind
  /-- The declaring file is kept. -/
  file : row'.file = row.file
  /-- The access flags are kept. -/
  access : row'.access = row.access
  /-- The name is kept, unless the symbol is the one that is renamed. -/
  name : row.id ≠ primary → row'.name = row.name
  /-- The identity goes where it is sent. -/
  identity : after.identity? row'.identity = (before.identity? row.identity).map ρ
  /-- The owner goes where it is sent. -/
  owner : row'.owner.bind after.identity? = (row.owner.bind before.identity?).map ρ

/-- A reference before and after identities went somewhere. -/
structure ReferenceRow.Follows (ρ : Identity → Identity) (before after : Store)
    (row row' : ReferenceRow) : Prop where
  /-- The number is kept. -/
  id : row'.id = row.id
  /-- The kind is kept. -/
  kind : row'.kind = row.kind
  /-- The file is kept. -/
  file : row'.file = row.file
  /-- The location is kept. -/
  location : row'.location = row.location
  /-- The target goes where it is sent. -/
  target : after.identity? row'.target = (before.identity? row.target).map ρ
  /-- The owner goes where it is sent. -/
  owner : after.identity? row'.owner = (before.identity? row.owner).map ρ

theorem SymbolRow.Follows.trans {row row' row'' : SymbolRow}
    (h : row.Follows ρ primary s₁ s₂ row') (h' : row'.Follows ρ' primary s₂ s₃ row'') :
    row.Follows (ρ' ∘ ρ) primary s₁ s₃ row'' where
  id := h'.id.trans h.id
  kind := h'.kind.trans h.kind
  file := h'.file.trans h.file
  access := h'.access.trans h.access
  name hne := (h'.name (h.id ▸ hne)).trans (h.name hne)
  identity := by rw [h'.identity, h.identity, Option.map_map]
  owner := by rw [h'.owner, h.owner, Option.map_map]

theorem ReferenceRow.Follows.trans {row row' row'' : ReferenceRow}
    (h : row.Follows ρ s₁ s₂ row') (h' : row'.Follows ρ' s₂ s₃ row'') :
    row.Follows (ρ' ∘ ρ) s₁ s₃ row'' where
  id := h'.id.trans h.id
  kind := h'.kind.trans h.kind
  file := h'.file.trans h.file
  location := h'.location.trans h.location
  target := by rw [h'.target, h.target, Option.map_map]
  owner := by rw [h'.owner, h.owner, Option.map_map]

/-! ### Stores before and after -/

namespace Store

/-- The tables before and after identities went somewhere. The references are the same, in the same
order; every symbol is there afterwards, or it was a mention and another symbol has the identity to
which its own went; and there is nothing else. -/
structure Migrated (ρ : Identity → Identity) (primary : RowId) (before after : Store) : Prop where
  /-- Every reference follows. -/
  references :
    List.Forall₂ (ReferenceRow.Follows ρ before after) before.references after.references
  /-- Every symbol follows or gives way. -/
  symbols : ∀ row ∈ before.symbols,
    (∃ row' ∈ after.symbols, row.Follows ρ primary before after row') ∨
      row.file = none ∧ row.id ∉ after.symbols.map SymbolRow.id ∧
        ∃ other ∈ after.symbols,
          after.identity? other.identity = (before.identity? row.identity).map ρ
  /-- Every symbol was there before. -/
  origin : ∀ row' ∈ after.symbols, ∃ row ∈ before.symbols, row.Follows ρ primary before after row'
  /-- Every identity is one to which an identity went. -/
  identities : ∀ row' ∈ after.identities, ∃ row ∈ before.identities, row'.identity = ρ row.identity

/-- Changes of files, and of names and signatures of symbols, move nothing. -/
theorem migrated_id {f : SymbolRow → SymbolRow} (hidentities : s₂.identities = s₁.identities)
    (hreferences : s₂.references = s₁.references) (hsymbols : s₂.symbols = s₁.symbols.map f)
    (hf : ∀ row, f row = { row with name := (f row).name, signature := (f row).signature })
    (hname : ∀ row, row.id ≠ primary → (f row).name = row.name) : Migrated id primary s₁ s₂ := by
  have hlookup : s₂.identity? = s₁.identity? := by
    funext id
    rw [identity?, hidentities, identity?]
  have hfollows (row : SymbolRow) : row.Follows id primary s₁ s₂ (f row) :=
    { id := by rw [hf]
      kind := by rw [hf]
      file := by rw [hf]
      access := by rw [hf]
      name := hname row
      identity := by rw [hlookup, hf, Option.map_id, id_eq]
      owner := by rw [hlookup, hf, Option.map_id, id_eq] }
  refine ⟨?_, fun row hr => .inl ⟨f row, ?_, hfollows row⟩, ?_, fun row hr => ⟨row, ?_, rfl⟩⟩
  · rw [hreferences]
    refine List.forall₂_same.mpr fun row _ => ⟨rfl, rfl, rfl, rfl, ?_, ?_⟩
    · rw [hlookup, Option.map_id, id_eq]
    · rw [hlookup, Option.map_id, id_eq]
  · exact hsymbols ▸ List.mem_map_of_mem hr
  · rw [hsymbols]
    exact List.forall_mem_map.mpr fun row hr => ⟨row, hr, hfollows row⟩
  · exact hidentities ▸ hr

/-- Some names and signatures changed, the names only of the symbol that is renamed. -/
def Retitled (primary : RowId) (before after : Store) : Prop :=
  ∃ f : SymbolRow → SymbolRow, after = { before with symbols := before.symbols.map f } ∧
    (∀ row, f row = { row with name := (f row).name, signature := (f row).signature }) ∧
    ∀ row, row.id ≠ primary → (f row).name = row.name

namespace Retitled

theorem refl : Retitled primary s s :=
  ⟨fun row => row, by rw [List.map_id'], fun _ => rfl, fun _ _ => rfl⟩

theorem modifySymbol {σ : RowId} {f : SymbolRow → SymbolRow}
    (hf : ∀ row, f row = { row with name := (f row).name, signature := (f row).signature })
    (hname : ∀ row, row.id = σ → row.id ≠ primary → (f row).name = row.name) :
    Retitled primary s (s.modifySymbol σ f) := by
  refine ⟨_, rfl, fun row => ?_, fun row hne => ?_⟩
  · split
    · exact hf row
    · rfl
  · split
    · exact hname row ‹_› hne
    · rfl

theorem migrated (h : Retitled primary s s') : Migrated id primary s s' := by
  obtain ⟨f, rfl, hf, hname⟩ := h
  exact migrated_id rfl rfl rfl hf hname

theorem consistent (h : Retitled primary s s') (hs : s.Consistent) : s'.Consistent := by
  obtain ⟨f, rfl, hf, -⟩ := h
  refine ⟨hs.files, hs.identities, ?_, hs.references⟩
  refine hs.symbols.map (fun row _ => by rw [hf]) (fun row _ => by rw [hf]) fun row hr => ?_
  rw [hf]
  exact hs.symbols.owner_mem row hr

theorem map_id_eq (h : Retitled primary s s') :
    s'.symbols.map SymbolRow.id = s.symbols.map SymbolRow.id := by
  obtain ⟨f, rfl, hf, -⟩ := h
  exact map_key_map fun row _ => by rw [hf]

/-- The symbols have the identities that they had. -/
theorem exists_mem_iff (h : Retitled primary s s') {id identity : RowId} :
    (∃ row ∈ s'.symbols, row.id = id ∧ row.identity = identity) ↔
      ∃ row ∈ s.symbols, row.id = id ∧ row.identity = identity := by
  obtain ⟨f, rfl, hf, -⟩ := h
  constructor
  · rintro ⟨_, hr', rfl, rfl⟩
    obtain ⟨row, hr, rfl⟩ := List.mem_map.mp hr'
    exact ⟨row, hr, by rw [hf], by rw [hf]⟩
  · rintro ⟨row, hr, rfl, rfl⟩
    exact ⟨f row, List.mem_map_of_mem hr, by rw [hf], by rw [hf]⟩

theorem identity?_eq (h : Retitled primary s s') : s'.identity? = s.identity? := by
  obtain ⟨f, rfl, -⟩ := h
  rfl

end Retitled

/-- Moving identities one after the other moves them along both ways. -/
theorem Migrated.trans (h : Migrated ρ primary s₁ s₂) (h' : Migrated ρ' primary s₂ s₃) :
    Migrated (ρ' ∘ ρ) primary s₁ s₃ where
  references :=
    Except.forall₂_trans h.references h'.references fun _ _ _ _ hf hf' => hf.trans hf'
  symbols row hr := by
    rcases h.symbols row hr with ⟨row', hr', hf⟩ | ⟨hfile, hgone, other, ho, hi⟩
    · rcases h'.symbols row' hr' with ⟨row'', hr'', hf'⟩ | ⟨hfile, hgone, other, ho, hi⟩
      · exact .inl ⟨row'', hr'', hf.trans hf'⟩
      · refine .inr ⟨hf.file ▸ hfile, hf.id ▸ hgone, other, ho, ?_⟩
        rw [hi, hf.identity, Option.map_map]
    · refine .inr ⟨hfile, fun hmem => hgone ?_, ?_⟩
      · obtain ⟨last, hl, hid⟩ := List.mem_map.mp hmem
        obtain ⟨middle, hm, hf⟩ := h'.origin last hl
        exact List.mem_map.mpr ⟨middle, hm, hf.id.symm.trans hid⟩
      · rcases h'.symbols other ho with ⟨other', ho', hf'⟩ | ⟨-, -, last, hl, hi'⟩
        · exact ⟨other', ho', by rw [hf'.identity, hi, Option.map_map]⟩
        · exact ⟨last, hl, by rw [hi', hi, Option.map_map]⟩
  origin row'' hr := by
    obtain ⟨row', hr', hf'⟩ := h'.origin row'' hr
    obtain ⟨row, hr, hf⟩ := h.origin row' hr'
    exact ⟨row, hr, hf.trans hf'⟩
  identities row'' hr := by
    obtain ⟨row', hr', he'⟩ := h'.identities row'' hr
    obtain ⟨row, hr, he⟩ := h.identities row' hr'
    exact ⟨row, hr, by rw [he', he, Function.comp_apply]⟩

theorem Migrated.refl : Migrated id primary s s :=
  migrated_id rfl rfl (List.map_id _).symm (fun _ => rfl) fun _ _ => rfl

/-! ### Moving one symbol -/

section Moving

variable {σ : RowId} {identity current : Identity} {row : SymbolRow}

/-- Renaming the identity with a number sends every identity where it has to go. -/
theorem identity_renamed (hs : s.Consistent) {old : RowId} (hcurrent : s.identity? old = some current)
    {row : IdentityRow} (hrow : row ∈ s.identities) :
    (if row.id = old then { row with identity } else row).identity =
      destination [⟨current, identity⟩] row.identity := by
  have hfound := hs.identity?_eq_some_iff.mpr hrow
  split
  · rename_i he
    subst he
    rw [Option.some.inj (hfound.symm.trans hcurrent), destination_single]
  · rename_i hne
    refine (destination_single_of_ne ?_).symm
    rintro (rfl : current = row.identity)
    exact hne (hs.eq_of_identity? hfound hcurrent)

/-- Where a renamed identity was found, the new one is found. -/
theorem identity?_renameIdentity (hs : s.Consistent) {old : RowId}
    (hcurrent : s.identity? old = some current) (id : RowId) :
    (s.renameIdentity old identity).identity? id =
      (s.identity? id).map (destination [⟨current, identity⟩]) := by
  have hkey : (fun row : IdentityRow => (if row.id = old then { row with identity } else row).id ==
      id) = fun row => row.id == id := by
    funext row
    split <;> rfl
  rw [identity?, identity?, renameIdentity, List.find?_map, Function.comp_def, hkey, Option.map_map,
    Option.map_map]
  refine Option.map_congr fun row hr => ?_
  exact identity_renamed hs hcurrent (List.mem_of_find?_eq_some hr)

/-- Where a merged identity was found, the one that it was merged into is found. -/
theorem identity?_mergeIdentity (hs : s.Consistent) {old new : RowId}
    (hcurrent : s.identity? old = some current) (hnew : s.identity? new = some identity)
    (hne : new ≠ old) (id : RowId) :
    (s.mergeIdentity σ old new).identity? (redirect old new id) =
      (s.identity? id).map (destination [⟨current, identity⟩]) := by
  have hkept {id : RowId} (h : id ≠ old) :
      (s.mergeIdentity σ old new).identity? id = s.identity? id := by
    rw [identity?, identity?, mergeIdentity, List.find?_filter]
    congr 2
    funext row
    by_cases he : row.id = id
    · simp [he, h]
    · simp [he]
  by_cases he : id = old
  · subst he
    rw [redirect, if_pos rfl, hkept hne, hcurrent, hnew, Option.map_some]
    exact congrArg some (destination_single _ _).symm
  · rw [redirect, if_neg he, hkept he]
    cases hid : s.identity? id with
    | none => rfl
    | some other =>
      rw [Option.map_some, destination_single_of_ne]
      rintro (rfl : current = other)
      exact he (hs.eq_of_identity? hid hcurrent)

/-- Renaming the identity of a symbol sends the old identity to the new one. -/
theorem migrated_renameIdentity (hs : s.Consistent) {old : RowId}
    (hcurrent : s.identity? old = some current) :
    Migrated (destination [⟨current, identity⟩]) primary s (s.renameIdentity old identity) := by
  have hlookup (id : RowId) : (s.renameIdentity old identity).identity? id =
      (s.identity? id).map (destination [⟨current, identity⟩]) :=
    identity?_renameIdentity hs hcurrent id
  have hfollows (r : SymbolRow) : r.Follows (destination [⟨current, identity⟩]) primary s
      (s.renameIdentity old identity) r :=
    { id := rfl
      kind := rfl
      file := rfl
      access := rfl
      name := fun _ => rfl
      identity := hlookup _
      owner := by
        rw [Option.map_bind]
        exact congrArg _ (funext hlookup) }
  refine ⟨?_, fun r hr => .inl ⟨r, hr, hfollows r⟩, fun r hr => ⟨r, hr, hfollows r⟩,
    List.forall_mem_map.mpr fun r hr => ⟨r, hr, identity_renamed hs hcurrent hr⟩⟩
  exact List.forall₂_same.mpr fun r _ => ⟨rfl, rfl, rfl, rfl, hlookup _, hlookup _⟩

/-- Moving a symbol to an identity that has no symbol sends the old identity there. -/
theorem migrated_mergeIdentity (hs : s.Consistent) {new : RowId}
    (hrow : row ∈ (s.withoutSymbolOf new).symbols)
    (hcurrent : s.identity? row.identity = some current) (hnew : s.identity? new = some identity)
    (hfile : ∀ occupant ∈ s.symbols, occupant.identity = new → occupant.file = none) :
    Migrated (destination [⟨current, identity⟩]) primary s
      ((s.withoutSymbolOf new).mergeIdentity row.id row.identity new) := by
  obtain ⟨hmem, hne⟩ := List.mem_filter.mp hrow
  have hne : new ≠ row.identity := (bne_iff_ne.mp hne).symm
  have hlookup (id : RowId) :
      ((s.withoutSymbolOf new).mergeIdentity row.id row.identity new).identity?
          (redirect row.identity new id) =
        (s.identity? id).map (destination [⟨current, identity⟩]) :=
    identity?_mergeIdentity (hs.withoutSymbolOf new) hcurrent hnew hne id
  -- the moved symbol is the only one with the old identity, so all identities are redirected alike
  have hredirect (r : SymbolRow) (hr : r ∈ s.symbols) :
      (if r.id = row.id then new else r.identity) = redirect row.identity new r.identity := by
    rw [redirect]
    refine if_congr ⟨fun he => ?_, fun he => ?_⟩ rfl rfl
    · rw [List.inj_on_of_nodup_map hs.symbols.ids hr hmem he]
    · rw [List.inj_on_of_nodup_map hs.symbols.identities hr hmem he]
  have hfollows (r : SymbolRow) (hr : r ∈ s.symbols) :
      r.Follows (destination [⟨current, identity⟩]) primary s
        ((s.withoutSymbolOf new).mergeIdentity row.id row.identity new)
        { r with
          owner := r.owner.map (redirect row.identity new)
          identity := if r.id = row.id then new else r.identity } :=
    { id := rfl
      kind := rfl
      file := rfl
      access := rfl
      name := fun _ => rfl
      identity := by rw [hredirect r hr, hlookup]
      owner := by
        rw [Option.bind_map, Option.map_bind]
        exact congrArg _ (funext hlookup) }
  constructor
  · rw [mergeIdentity, List.forall₂_map_right_iff]
    exact List.forall₂_same.mpr fun r _ => ⟨rfl, rfl, rfl, rfl, hlookup _, hlookup _⟩
  · intro r hr
    by_cases he : r.identity = new
    · refine .inr ⟨hfile r hr he, fun hgone => ?_, _, List.mem_map_of_mem hrow, ?_⟩
      · obtain ⟨_, hmoved, hid⟩ := List.mem_map.mp hgone
        obtain ⟨other, ho, rfl⟩ := List.mem_map.mp hmoved
        obtain ⟨ho, hother⟩ := List.mem_filter.mp ho
        rw [List.inj_on_of_nodup_map hs.symbols.ids ho hr hid] at hother
        exact bne_iff_ne.mp hother he
      · rw [(hfollows row hmem).identity, hcurrent, he, hnew, Option.map_some, Option.map_some,
          destination_single, destination_single_target]
    · exact .inl ⟨_, List.mem_map_of_mem (List.mem_filter.mpr ⟨hr, bne_iff_ne.mpr he⟩),
        hfollows r hr⟩
  · refine List.forall_mem_map.mpr fun r hr => ?_
    have hr := List.mem_of_mem_filter hr
    exact ⟨r, hr, hfollows r hr⟩
  · intro r hr
    obtain ⟨hr, hne⟩ := List.mem_filter.mp hr
    refine ⟨r, hr, (destination_single_of_ne ?_).symm⟩
    rintro (rfl : current = r.identity)
    exact bne_iff_ne.mp hne (hs.eq_of_identity? (hs.identity?_eq_some_iff.mpr hr) hcurrent)

/-- **Moving one symbol.** The identity of the symbol goes to the new one, wherever it is named. -/
theorem migrated_moveSymbol {number : RowId} (hs : s.Consistent)
    (h : moveSymbol σ identity s = .ok (number, s')) :
    ∃ row ∈ s.symbols, row.id = σ ∧ ∀ current, s.identity? row.identity = some current →
      Migrated (destination [⟨current, identity⟩]) primary s s' := by
  obtain ⟨row, hrow, rfl, hcase⟩ := eq_or_of_moveSymbol hs h
  refine ⟨row, hrow, rfl, fun current hcurrent => ?_⟩
  obtain ⟨hnone, -, rfl⟩ | ⟨hid, -, rfl⟩ | ⟨hid, hne, hfile, rfl⟩ := hcase
  · exact migrated_renameIdentity hs hcurrent
  · have he : current = identity := Option.some.inj (hcurrent.symm.trans
      (hs.identity?_eq_some_iff.mpr (hs.identityId?_eq_some_iff.mp hid)))
    rw [he, destination_single_self]
    exact Migrated.refl
  · exact migrated_mergeIdentity hs (List.mem_filter.mpr ⟨hrow, bne_iff_ne.mpr hne.symm⟩) hcurrent
      (hs.identity?_eq_some_iff.mpr (hs.identityId?_eq_some_iff.mp hid)) hfile

/-- A mention that is in the way of a move is gone afterwards. -/
theorem notMem_of_moveSymbol {number : RowId} (hs : s.Consistent)
    (h : moveSymbol σ identity s = .ok (number, s')) (hrow : row ∈ s.symbols) (hne : row.id ≠ σ)
    (hidentity : s.identity? row.identity = some identity) : row.id ∉ s'.symbols.map SymbolRow.id := by
  have hfound : s.identityId? identity = some row.identity :=
    hs.identityId?_eq_some_iff.mpr (hs.identity?_eq_some_iff.mp hidentity)
  obtain ⟨moving, hmoving, rfl, ⟨hnone, -⟩ | ⟨hid, -⟩ | ⟨hid, -, -, rfl⟩⟩ := eq_or_of_moveSymbol hs h
  · rw [hnone] at hfound
    cases hfound
  · have he : row.identity = moving.identity := Option.some.inj (hfound.symm.trans hid)
    rw [List.inj_on_of_nodup_map hs.symbols.identities hrow hmoving he] at hne
    exact absurd rfl hne
  · intro hmem
    obtain ⟨_, hkept, hid'⟩ := List.mem_map.mp hmem
    obtain ⟨other, ho, rfl⟩ := List.mem_map.mp hkept
    obtain ⟨ho, hother⟩ := List.mem_filter.mp ho
    rw [List.inj_on_of_nodup_map hs.symbols.ids ho hrow hid'] at hother
    exact bne_iff_ne.mp hother (Option.some.inj (hfound.symm.trans hid))

end Moving

end Store

/-! ### Moving one symbol after the other -/

/-- Where a migration sends which identity. -/
def Migration.change (m : Migration) : Change Identity :=
  ⟨m.symbol.symbol.identity, m.identity⟩

namespace RenamePlan

open Store
open Transaction (Keeps bind_eq_ok_iff mapM_cons_eq_ok_iff)

variable {m : Migration} {ms : List Migration} {number : RowId} {numbers : List RowId}

/-- A migration is a move between two changes of titles. -/
theorem exists_of_migrate (hp : m.name ≠ none → m.symbol.id = primary)
    (h : migrate m s = .ok (number, s')) :
    ∃ s₁ s₂, Retitled primary s s₁ ∧ moveSymbol m.symbol.id m.identity s₁ = .ok (number, s₂) ∧
      Retitled primary s₂ s' := by
  obtain ⟨_, s₁, hname, hrest⟩ := bind_eq_ok_iff.mp h
  obtain ⟨_, s₂, hmove, hrest⟩ := bind_eq_ok_iff.mp hrest
  obtain ⟨_, s₃, hsignature, hend⟩ := bind_eq_ok_iff.mp hrest
  cases hend
  refine ⟨s₁, s₂, ?_, hmove, ?_⟩
  · cases hn : m.name with
    | none =>
      rw [hn] at hname
      cases hname
      exact Retitled.refl
    | some name =>
      rw [hn] at hname
      cases hname
      refine Retitled.modifySymbol (fun _ => rfl) fun row he hne => absurd ?_ hne
      exact he.trans (hp (by simp [hn]))
  · cases hn : m.signature with
    | none =>
      rw [hn] at hsignature
      cases hsignature
      exact Retitled.refl
    | some signature =>
      rw [hn] at hsignature
      cases hsignature
      exact Retitled.modifySymbol (fun _ => rfl) fun _ _ _ => rfl

theorem keeps_migrate (m : Migration) : Keeps Consistent (migrate m) := by
  refine (Keeps.optionForM _ fun name => keeps_setSymbolName name).bind fun _ => ?_
  refine keeps_moveSymbol.bind fun number => ?_
  exact (Keeps.optionForM _ fun signature => keeps_setSymbolSignature signature).bind fun _ =>
    Keeps.pure number

/-- A migration sends the identity of its symbol to the new one. -/
theorem migrated_migrate (hs : s.Consistent) (hp : m.name ≠ none → m.symbol.id = primary)
    (h : migrate m s = .ok (number, s')) :
    ∃ row ∈ s.symbols, row.id = m.symbol.id ∧ ∀ current, s.identity? row.identity = some current →
      Migrated (destination [⟨current, m.identity⟩]) primary s s' := by
  obtain ⟨s₁, s₂, h₁, hmove, h₂⟩ := exists_of_migrate hp h
  obtain ⟨row₁, hr₁, hid, hmigrated⟩ := migrated_moveSymbol (h₁.consistent hs) hmove
  obtain ⟨row, hr, hid', hidentity⟩ := h₁.exists_mem_iff.mp ⟨row₁, hr₁, hid, rfl⟩
  refine ⟨row, hr, hid', fun current hcurrent => ?_⟩
  rw [hidentity, ← h₁.identity?_eq] at hcurrent
  exact (h₁.migrated.trans (hmigrated current hcurrent)).trans h₂.migrated

/-- A mention that is in the way of a migration is gone afterwards. -/
theorem notMem_of_migrate (hs : s.Consistent) (h : migrate m s = .ok (number, s')) {row : SymbolRow}
    (hrow : row ∈ s.symbols) (hne : row.id ≠ m.symbol.id)
    (hidentity : s.identity? row.identity = some m.identity) :
    row.id ∉ s'.symbols.map SymbolRow.id := by
  obtain ⟨s₁, s₂, h₁, hmove, h₂⟩ := exists_of_migrate (fun _ => rfl) h
  obtain ⟨row₁, hr₁, hid, he⟩ := h₁.exists_mem_iff.mpr ⟨row, hrow, rfl, rfl⟩
  rw [← h₁.identity?_eq, ← he] at hidentity
  rw [h₂.map_id_eq, ← hid]
  exact notMem_of_moveSymbol (h₁.consistent hs) hmove hr₁ (hid ▸ hne) hidentity

/-- Every symbol that is moved in a row of migrations is there at the start. -/
theorem mem_of_mapM_migrate (hs : s.Consistent) (h : ms.mapM migrate s = .ok (numbers, s'))
    (hm : m ∈ ms) : m.symbol.id ∈ s.symbols.map SymbolRow.id := by
  induction ms generalizing s numbers with
  | nil => simp at hm
  | cons first ms ih =>
    obtain ⟨number, s₁, more, hfirst, hrest, rfl⟩ := mapM_cons_eq_ok_iff.mp h
    obtain ⟨row, hr, hid, hmigrated⟩ := migrated_migrate hs (fun _ => rfl) hfirst
    rcases List.mem_cons.mp hm with rfl | hm
    · exact List.mem_map.mpr ⟨row, hr, hid⟩
    · obtain ⟨later, hl, hid⟩ := List.mem_map.mp (ih (keeps_migrate _ _ _ _ hfirst hs) hrest hm)
      obtain ⟨current, hcurrent⟩ := hs.exists_identity? (hs.symbols.identity_mem row hr)
      obtain ⟨row', hr', hf⟩ := (hmigrated current hcurrent).origin later hl
      exact List.mem_map.mpr ⟨row', hr', hf.id.symm.trans hid⟩

/-- A row of migrations that the tables are ready for: its symbols are different ones, and each of them
has the identity that is to be moved. -/
structure Ready (s : Store) (ms : List Migration) : Prop where
  /-- The tables are consistent. -/
  consistent : s.Consistent
  /-- No symbol is moved twice. -/
  nodup : (ms.map fun m => m.symbol.id).Nodup
  /-- Each symbol is there, with the identity to be moved. -/
  exists_row : ∀ m ∈ ms, ∃ row ∈ s.symbols, row.id = m.symbol.id ∧
    s.identity? row.identity = some m.symbol.symbol.identity

namespace Ready

theorem ne_of_mem (h : Ready s (m :: ms)) {later : Migration} (hl : later ∈ ms) :
    later.symbol.id ≠ m.symbol.id := fun he =>
  (List.nodup_cons.mp h.nodup).1 (List.mem_map.mpr ⟨later, hl, he⟩)

/-- The first migration sends the identity of its symbol to the new one. -/
theorem migrated (h : Ready s (m :: ms)) (hp : m.name ≠ none → m.symbol.id = primary)
    (hfirst : migrate m s = .ok (number, s')) : Migrated (destination [m.change]) primary s s' := by
  obtain ⟨row, hrow, hid, hcurrent⟩ := h.exists_row m List.mem_cons_self
  obtain ⟨row', hrow', hid', hmigrated⟩ := migrated_migrate h.consistent hp hfirst
  rw [← List.inj_on_of_nodup_map h.consistent.symbols.ids hrow hrow' (hid.trans hid'.symm)] at hmigrated
  exact hmigrated _ hcurrent

/-- After the first of some migrations the tables are ready for the others, if these succeed: no later
symbol gave way to the first one, as its own move does not fail. -/
theorem tail (h : Ready s (m :: ms)) (hfirst : migrate m s = .ok (number, s₁))
    (hrest : ms.mapM migrate s₁ = .ok (numbers, s')) : Ready s₁ ms := by
  have hs₁ := keeps_migrate _ _ _ _ hfirst h.consistent
  refine ⟨hs₁, (List.nodup_cons.mp h.nodup).2, fun later hl => ?_⟩
  obtain ⟨row, hr, hid, hcurrent⟩ := h.exists_row m List.mem_cons_self
  obtain ⟨other, ho, hoid, hother⟩ := h.exists_row later (List.mem_cons_of_mem _ hl)
  rcases (h.migrated (fun _ => rfl) hfirst).symbols other ho with ⟨other', ho', hf⟩ | ⟨-, hgone, -⟩
  · refine ⟨other', ho', hf.id.trans hoid, ?_⟩
    rw [hf.identity, hother, Option.map_some, destination_single_of_ne]
    intro (he : m.symbol.symbol.identity = later.symbol.symbol.identity)
    have hsame := h.consistent.eq_of_identity? hcurrent (he ▸ hother)
    refine h.ne_of_mem hl ?_
    rw [← hoid, ← hid, List.inj_on_of_nodup_map h.consistent.symbols.identities hr ho hsame]
  · exact absurd (hoid ▸ mem_of_mapM_migrate hs₁ hrest hl) hgone

end Ready

/-- **Moving one symbol after the other.** If all moves succeed, every identity goes where the list of
moves sends it.

**Proof sketch.** By induction on the list. A move changes the identity of its own symbol only, so the
later symbols still have the identities that the list names. None of them has the target of the first
move: it would have given way and could not be moved later. So nothing that the first move sends
somewhere is sent on by a later one. -/
theorem migrated_mapM_migrate (hready : Ready s ms)
    (hp : ∀ m ∈ ms, m.name ≠ none → m.symbol.id = primary)
    (h : ms.mapM migrate s = .ok (numbers, s')) :
    Migrated (destination (ms.map Migration.change)) primary s s' := by
  induction ms generalizing s numbers with
  | nil =>
    cases h
    exact Migrated.refl
  | cons m ms ih =>
    obtain ⟨number, s₁, more, hfirst, hrest, rfl⟩ := mapM_cons_eq_ok_iff.mp h
    have hready₁ := hready.tail hfirst hrest
    have hmigrated := hready.migrated (hp m List.mem_cons_self) hfirst
    have hfree : ∀ c ∈ ms.map Migration.change, c.before ≠ m.change.after := by
      refine List.forall_mem_map.mpr fun later hl he => ?_
      obtain ⟨other, ho, hoid, hother⟩ := hready.exists_row later (List.mem_cons_of_mem _ hl)
      refine notMem_of_migrate hready.consistent hfirst ho (hoid ▸ hready.ne_of_mem hl) ?_ ?_
      · rw [hother]
        exact congrArg some he
      · exact hoid ▸ mem_of_mapM_migrate hready₁.consistent hrest hl
    rw [List.map_cons, destination_cons hfree]
    exact hmigrated.trans
      (ih hready₁ (fun later hl => hp later (List.mem_cons_of_mem _ hl)) hrest)

end RenamePlan

end ClassAtlas
