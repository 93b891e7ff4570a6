import ClassAtlas.Proofs.Outcome
import ClassAtlas.Proofs.Store.Consistent
import ClassAtlas.Workspace.RenamePlan

/-!
# What a plan says

A plan names symbols as the store shows them, each of them once. Only the renamed symbol gets a new
name. Of the symbols that mention a renamed class, exactly those move whose identity names the class.

## Main results

* `ClassAtlas.Store.symbolOf?_of_mem` — every symbol is found by its identity.
* `ClassAtlas.Store.mem_symbolsMentioning_iff` — the symbols that mention a class.
* `ClassAtlas.Store.spec_of_planDependents` — those of them that move.
* `ClassAtlas.Store.plans_of_planRename`, `ClassAtlas.Store.migrations_of_planRename` — the symbols of
  a plan.
-/

set_option autoImplicit false

namespace ClassAtlas.Store

variable {store : Store} {identity : Identity} {newName : String} {plan : RenamePlan}
  {r : ClassRename} {symbols : List StoredSymbol} {migrations : List Migration}
  {resignatures : List (RowId × String)}

/-! ### Symbols as the store shows them -/

/-- A row is shown as it is, with the texts of its identity and its owner. -/
theorem showSymbol?_eq_some_iff {row : SymbolRow} {shown : StoredSymbol} :
    store.showSymbol? row = some shown ↔
      ∃ text, store.identity? row.identity = some text ∧
        shown = ⟨row.id, row.identity, ⟨row.kind, text, row.name, row.file,
          row.owner.bind store.identity?, row.access, row.signature⟩⟩ := by
  rw [showSymbol?, Option.bind_eq_bind, Option.bind_eq_some_iff]
  simp [eq_comm]

/-- A symbol that is found by its identity is one of the rows. -/
theorem exists_of_symbolOf? {shown : StoredSymbol} (h : store.symbolOf? identity = some shown) :
    shown.symbol.identity = identity ∧
      ∃ row ∈ store.symbols, store.showSymbol? row = some shown := by
  refine ⟨by simpa using List.find?_some h, ?_⟩
  exact List.mem_filterMap.mp (List.mem_of_find?_eq_some h)

/-- Every row is found by its identity. -/
theorem symbolOf?_of_mem (hs : store.Consistent) {row : SymbolRow} {shown : StoredSymbol}
    (hrow : row ∈ store.symbols) (hshown : store.showSymbol? row = some shown) :
    store.symbolOf? shown.symbol.identity = some shown := by
  obtain ⟨found, hfound⟩ := Option.isSome_iff_exists.mp (List.find?_isSome
    (p := fun s : StoredSymbol => s.symbol.identity == shown.symbol.identity).mpr
      ⟨shown, List.mem_filterMap.mpr ⟨row, hrow, hshown⟩, by simp⟩)
  obtain ⟨hidentity, row', hrow', hshown'⟩ := exists_of_symbolOf? hfound
  obtain ⟨text, htext, rfl⟩ := showSymbol?_eq_some_iff.mp hshown
  obtain ⟨text', htext', rfl⟩ := showSymbol?_eq_some_iff.mp hshown'
  obtain rfl : text' = text := hidentity
  have he := List.inj_on_of_nodup_map hs.symbols.identities hrow' hrow
    (hs.eq_of_identity? htext' htext)
  rw [symbolOf?, hfound, he]

/-! ### Symbols that mention a class -/

theorem occursIn_eq_true_iff {part cs : List Char} : occursIn part cs = true ↔ part <:+: cs := by
  induction cs with
  | nil => simp [occursIn]
  | cons c cs ih => rw [occursIn, Bool.or_eq_true, ih, List.isPrefixOf_iff_prefix, List.infix_cons_iff]

theorem mem_byIdentity {shown : StoredSymbol} : shown ∈ byIdentity symbols ↔ shown ∈ symbols :=
  (List.mergeSort_perm _ _).mem_iff

/-- The symbols that mention a class are its members and those with a text that seems to name it. -/
theorem mem_symbolsMentioning_iff {classId : RowId} {name : String} {shown : StoredSymbol} :
    shown ∈ store.symbolsMentioning classId name ↔
      ∃ row ∈ store.symbols, store.showSymbol? row = some shown ∧ row.identity ≠ classId ∧
        (row.owner = some classId ∨ 'L' :: name.toList ++ [';'] <:+: shown.symbol.identity.text.toList ∨
          ∃ signature ∈ row.signature, 'L' :: name.toList ++ [';'] <:+: signature.toList ∨
            'L' :: name.toList ++ ['<'] <:+: signature.toList) := by
  have hany (signature : Option String) (p : String → Bool) :
      signature.any p = true ↔ ∃ s ∈ signature, p s = true := by
    cases signature <;> simp
  rw [symbolsMentioning, mem_byIdentity, List.mem_filterMap]
  refine exists_congr fun row => and_congr_right fun _ => ?_
  simp only [Option.bind_eq_some_iff, Option.ite_none_right_eq_some, Option.some.injEq,
    Bool.and_eq_true, Bool.or_eq_true, bne_iff_ne, beq_iff_eq, hany, occursIn_eq_true_iff, or_assoc]
  constructor
  · rintro ⟨s, hs, hm, rfl⟩
    exact ⟨hs, hm⟩
  · rintro ⟨hs, hm⟩
    exact ⟨shown, hs, hm, rfl⟩

/-- What is picked from a list has its keys in the order of the list. -/
theorem map_filterMap_sublist {α β γ : Type} {f : α → Option β} {g : β → γ} {key : α → γ}
    {as : List α} (h : ∀ a b, f a = some b → g b = key a) :
    ((as.filterMap f).map g).Sublist (as.map key) := by
  induction as with
  | nil => exact List.Sublist.refl _
  | cons a as ih =>
    rw [List.filterMap_cons]
    split
    · exact ih.cons _
    · rename_i b hb
      rw [List.map_cons, List.map_cons, h a b hb]
      exact ih.cons_cons _

/-- The symbols that mention a class are different rows. -/
theorem nodup_symbolsMentioning (h : store.Consistent) (classId : RowId) (name : String) :
    ((store.symbolsMentioning classId name).map StoredSymbol.id).Nodup := by
  rw [symbolsMentioning, byIdentity, ((List.mergeSort_perm _ _).map _).nodup_iff]
  refine h.symbols.ids.sublist (map_filterMap_sublist fun row shown hshown => ?_)
  obtain ⟨s, hs, hm⟩ := Option.bind_eq_some_iff.mp hshown
  obtain ⟨text, -, rfl⟩ := showSymbol?_eq_some_iff.mp hs
  split at hm
  · cases hm
    rfl
  · cases hm

/-! ### Dependents -/

/-- The dependents of a renamed class: those that move are among the given symbols, in their order,
and each goes where the class name in its identity sends it; all others do not move. -/
theorem spec_of_planDependents (h : store.planDependents identity r symbols =
      .ok (migrations, resignatures)) :
    (migrations.map Migration.symbol).Sublist symbols ∧
      (∀ m ∈ migrations, m.symbol.movedIdentity? r = .ok (some m.identity) ∧ m.name = none) ∧
      ∀ s ∈ symbols, (∃ m ∈ migrations, m.symbol = s) ∨ s.movedIdentity? r = .ok none := by
  induction symbols generalizing migrations resignatures with
  | nil =>
    cases h
    simp
  | cons s symbols ih =>
    rw [planDependents] at h
    obtain ⟨moved?, hmoved, h⟩ := Except.bind_eq_ok_iff.mp h
    cases moved? with
    | none =>
      obtain ⟨⟨ms, rs⟩, hrest, h⟩ := Except.bind_eq_ok_iff.mp h
      cases h
      obtain ⟨hsub, hms, hss⟩ := ih hrest
      refine ⟨hsub.cons s, hms, List.forall_mem_cons.mpr ⟨.inr hmoved, hss⟩⟩
    | some moved =>
      obtain ⟨_, hfree, h⟩ := Except.bind_eq_ok_iff.mp h
      obtain ⟨⟨ms, rs⟩, hrest, h⟩ := Except.bind_eq_ok_iff.mp h
      cases h
      obtain ⟨hsub, hms, hss⟩ := ih hrest
      refine ⟨hsub.cons_cons s, List.forall_mem_cons.mpr ⟨⟨hmoved, rfl⟩, hms⟩,
        List.forall_mem_cons.mpr ⟨.inl ⟨_, List.mem_cons_self, rfl⟩, fun s' hs' => ?_⟩⟩
      exact (hss s' hs').imp_left fun ⟨m, hm, he⟩ => ⟨m, List.mem_cons_of_mem _ hm, he⟩

/-! ### Plans -/

/-- What the plan for a class consists of. -/
theorem eq_of_planClass {symbol : StoredSymbol} (h : store.planClass symbol newName = .ok plan) :
    ∃ new migrations resignatures,
      targetClassName symbol.symbol.identity symbol.symbol.identity.className newName = .ok new ∧
      store.planDependents symbol.symbol.identity ⟨symbol.symbol.identity.className, new⟩
        (store.symbolsMentioning symbol.identityId symbol.symbol.identity.className) =
          .ok (migrations, resignatures) ∧
      plan = ⟨.ofClass ⟨symbol.symbol.identity.className, new⟩,
        ⟨symbol, .ofClass new, some new, symbol.symbol.signature.bind
          (ClassRename.signature? ⟨symbol.symbol.identity.className, new⟩)⟩,
        migrations, resignatures, some (ClassName.simpleName new ++ ".class")⟩ := by
  obtain ⟨new, hnew, h⟩ := Except.bind_eq_ok_iff.mp h
  obtain ⟨_, -, h⟩ := Except.bind_eq_ok_iff.mp h
  obtain ⟨⟨migrations, resignatures⟩, hdependents, h⟩ := Except.bind_eq_ok_iff.mp h
  cases h
  exact ⟨new, migrations, resignatures, hnew, hdependents, rfl⟩

/-- What the plan for a member consists of. -/
theorem eq_of_planMember {symbol : StoredSymbol} {sort : MemberSort}
    (h : store.planMember symbol sort newName = .ok plan) :
    ∃ path, symbol.symbol.identity.split sort = .ok path ∧
      plan = ⟨.ofMember ⟨sort, path.owner.className, path.name, path.descriptor, newName⟩,
        ⟨symbol, { path with name := newName }.identity sort, some newName, none⟩, [], [], none⟩ := by
  obtain ⟨_, -, h⟩ := Except.bind_eq_ok_iff.mp h
  obtain ⟨path, hpath, h⟩ := Except.bind_eq_ok_iff.mp h
  obtain ⟨_, -, h⟩ := Except.bind_eq_ok_iff.mp h
  cases h
  exact ⟨path, hpath, rfl⟩

/-- A plan is one for a declared class or a declared member. -/
theorem plans_of_planRename (h : store.planRename identity newName = .ok plan) :
    ∃ symbol, store.symbolOf? identity = some symbol ∧ symbol.symbol.file ≠ none ∧
      (symbol.symbol.kind.memberSort? = none ∧ store.planClass symbol newName = .ok plan ∨
        ∃ sort, symbol.symbol.kind.memberSort? = some sort ∧
          store.planMember symbol sort newName = .ok plan) := by
  rw [planRename] at h
  split at h
  · cases h
  · rename_i symbol hsymbol
    split at h
    · cases h
    · rename_i hfile
      split at h
      · cases h
      · refine ⟨symbol, hsymbol, by simpa [Symbol.isPlaceholder] using hfile, ?_⟩
        split at h
        · rename_i hsort
          exact .inl ⟨hsort, h⟩
        · rename_i sort hsort
          exact .inr ⟨sort, hsort, h⟩

theorem primary_of_planRename (h : store.planRename identity newName = .ok plan) :
    store.symbolOf? identity = some plan.primary.symbol ∧ plan.primary.symbol.symbol.file ≠ none := by
  obtain ⟨symbol, hsymbol, hfile, ⟨-, h⟩ | ⟨sort, -, h⟩⟩ := plans_of_planRename h
  · obtain ⟨new, ms, rs, -, -, rfl⟩ := eq_of_planClass h
    exact ⟨hsymbol, hfile⟩
  · obtain ⟨path, -, rfl⟩ := eq_of_planMember h
    exact ⟨hsymbol, hfile⟩

/-- The symbols of a plan are rows of the store, each of them once, and only the renamed symbol gets
a new name. -/
theorem migrations_of_planRename (hs : store.Consistent)
    (h : store.planRename identity newName = .ok plan) :
    (∀ m ∈ plan.migrations, ∃ row ∈ store.symbols, store.showSymbol? row = some m.symbol) ∧
      (plan.migrations.map fun m => m.symbol.id).Nodup ∧ plan.primary.name ≠ none ∧
      ∀ m ∈ plan.dependents, m.name = none := by
  obtain ⟨symbol, hsymbol, -, ⟨-, h⟩ | ⟨sort, -, h⟩⟩ := plans_of_planRename h
  · obtain ⟨new, ms, rs, -, hdependents, rfl⟩ := eq_of_planClass h
    obtain ⟨-, row, hrow, hshown⟩ := exists_of_symbolOf? hsymbol
    obtain ⟨hsub, hms, -⟩ := spec_of_planDependents hdependents
    have hmem (m : Migration) (hm : m ∈ ms) : m.symbol ∈
        store.symbolsMentioning symbol.identityId symbol.symbol.identity.className :=
      hsub.subset (List.mem_map_of_mem hm)
    refine ⟨List.forall_mem_cons.mpr ⟨⟨row, hrow, hshown⟩, fun m hm => ?_⟩, ?_,
      Option.some_ne_none new, fun m hm => (hms m hm).2⟩
    · obtain ⟨row, hrow, hshown, -⟩ := mem_symbolsMentioning_iff.mp (hmem m hm)
      exact ⟨row, hrow, hshown⟩
    · refine List.nodup_cons.mpr ⟨fun hin => ?_, ?_⟩
      · obtain ⟨m, hm, hid⟩ := List.mem_map.mp hin
        obtain ⟨row', hrow', hshown', hne, -⟩ := mem_symbolsMentioning_iff.mp (hmem m hm)
        obtain ⟨text, -, rfl⟩ := showSymbol?_eq_some_iff.mp hshown
        obtain ⟨text', -, hs'⟩ := showSymbol?_eq_some_iff.mp hshown'
        have hid : row'.id = row.id := by simpa [hs'] using hid
        exact hne (congrArg _ (List.inj_on_of_nodup_map hs.symbols.ids hrow' hrow hid))
      · have hn := (nodup_symbolsMentioning hs _ _).sublist (hsub.map StoredSymbol.id)
        rwa [List.map_map] at hn
  · obtain ⟨path, -, rfl⟩ := eq_of_planMember h
    obtain ⟨-, hrow⟩ := exists_of_symbolOf? hsymbol
    simp [RenamePlan.migrations, hrow]

end ClassAtlas.Store
