import ClassAtlas.Proofs.Workspace.Orderly

/-!
# Rows that lead to symbols

The tables only ask that a number in a row is the number of an identity. In a workspace more holds:
there is a symbol behind each such number, and behind that of an owner a class. Mapping reports the
class before its members and stores all that a file reports; what goes when a file is imported or mapped
again is a declaration, never the symbol; and a rename that drops a mention puts another symbol into its
place.

## Main definitions

* `ClassAtlas.Store.Closed` — a store in which every number of an identity leads to a symbol.

## Main results

* `ClassAtlas.Index.Reachable.owned` — every owner has the identity of a class.
* `ClassAtlas.Index.closed_of_reachable` — the store of every workspace is closed.
-/

set_option autoImplicit false

namespace ClassAtlas

namespace Store

variable {s s' : Store}

/-- A store in which every number of an identity leads to a symbol. -/
structure Closed (s : Store) : Prop where
  /-- The target of every reference has a symbol. -/
  targets : ∀ reference ∈ s.references, ∃ row ∈ s.symbols, row.identity = reference.target
  /-- What uses it has a symbol. -/
  users : ∀ reference ∈ s.references, ∃ row ∈ s.symbols, row.identity = reference.owner
  /-- The owner of every symbol has a symbol, which is a class. -/
  owners : ∀ row ∈ s.symbols, ∀ owner ∈ row.owner,
    ∃ class' ∈ s.symbols, class'.identity = owner ∧ class'.kind = .classSymbol
  /-- The symbols have the identities of the store, all of them and each of them once. -/
  identities : (s.symbols.map SymbolRow.identity).Perm s.known
  /-- No number of an identity is repeated. -/
  distinct : s.known.Nodup
  /-- Every file that declares a symbol exists. -/
  files : s.HasFiles

/-- Every number of an identity is that of a symbol. -/
theorem Rooted.exists_symbol (h : s.Rooted) {id : RowId} (hid : id ∈ s.known) :
    ∃ row ∈ s.symbols, row.identity = id := by
  obtain ⟨identity, hmem, rfl⟩ := List.mem_map.mp hid
  exact List.mem_map.mp (h identity hmem)

/-- A symbol with the identity of a class is one. -/
theorem Sound.kind_eq_classSymbol (hs : s.Sound) {row : SymbolRow} (hrow : row ∈ s.symbols)
    {name : String} (htext : s.identity? row.identity = some (.ofClass name)) :
    row.kind = .classSymbol := by
  have hmember {sort : MemberSort} : row.kind.memberSort? ≠ some sort := fun hsort =>
    hs.ne_ofClass hrow hsort htext name rfl
  cases hkind : row.kind with
  | classSymbol => rfl
  | fieldSymbol => exact absurd (congrArg SymbolKind.memberSort? hkind) hmember
  | methodSymbol => exact absurd (congrArg SymbolKind.memberSort? hkind) hmember

/-- A store in order whose owners are classes is closed. -/
theorem Sound.closed (hs : s.Sound) (ho : s.Orderly) (howned : s.Obeys IsOwned) : s.Closed where
  targets reference hmem := ho.rooted.exists_symbol (hs.consistent.references.target_mem reference hmem)
  users reference hmem := ho.rooted.exists_symbol (hs.consistent.references.owner_mem reference hmem)
  owners row hrow owner hmem := by
    have hknown := hs.consistent.symbols.owner_mem row hrow owner hmem
    obtain ⟨text, htext⟩ := hs.consistent.exists_identity? hknown
    have howner : row.owner.bind s.identity? = some text := by
      rw [Option.mem_def.mp hmem]
      exact htext
    obtain ⟨name, rfl⟩ := howned.symbols row hrow text howner
    obtain ⟨class', hclass, rfl⟩ := ho.rooted.exists_symbol hknown
    exact ⟨class', hclass, rfl, hs.kind_eq_classSymbol hclass htext⟩
  identities := by
    refine (List.perm_ext_iff_of_nodup hs.consistent.symbols.identities
      hs.consistent.identities.ids).mpr fun id => ⟨fun hid => ?_, fun hid => ?_⟩
    · obtain ⟨row, hrow, rfl⟩ := List.mem_map.mp hid
      exact hs.consistent.symbols.identity_mem row hrow
    · exact List.mem_map.mpr (ho.rooted.exists_symbol hid)
  distinct := hs.consistent.identities.ids
  files := ho.mappable.hasFiles

/-- A rename sends owners to classes. -/
theorem owned_of_describes {identity : Identity} {newName : String} {plan : RenamePlan}
    {outcome : RenameOutcome} (hs : s.Sound) (howned : s.Obeys IsOwned)
    (hplan : s.planRename identity newName = .ok plan) (hd : outcome.Describes plan s s')
    (hc : s'.Consistent) : s'.Obeys IsOwned := by
  refine ⟨hc, fun row' hrow' text htext => ?_⟩
  obtain ⟨row, hrow, hf⟩ := hd.migrated.origin row' hrow'
  rw [hf.owner, hd.migratedIdentities] at htext
  obtain ⟨before, hbefore, rfl⟩ := Option.map_eq_some_iff.mp htext
  obtain ⟨name, rfl⟩ := howned.symbols row hrow before hbefore
  exact RenamePlan.exists_destination_ofClass hs hplan name

end Store

namespace Index

open Store

variable {index : Index}

/-- Every owner has the identity of a class. -/
theorem Reachable.owned (h : index.Reachable) : index.store.Obeys IsOwned := by
  induction h with
  | empty => exact obeys_empty
  | importFile path content _ ih => exact transact_keeps (keeps_obeys_importFile path content) ih
  | map _ _ hmaps ih => exact hmaps.obeys steady_isOwned reported_isOwned ih
  | rename identity newName hreachable ih =>
    have hs := hreachable.sound
    exact rename_keeps hs.consistent ih fun _ _ _ hplan hd hc => owned_of_describes hs ih hplan hd hc

/-- **Every row leads to a symbol**, after any imports, mapping runs and renames, whether or not they
failed: there are a symbol for the target of every reference and one for what uses it, the owner of
every symbol is a class that has a symbol, and symbols and identities correspond one to one. Files that
declare symbols exist. -/
theorem closed_of_reachable (h : index.Reachable) : index.store.Closed :=
  h.sound.closed h.orderly h.owned

/-- The workspace with the class `A` after its rename to `B`. -/
theorem closed_of_reachable_selfTaking : ∃ outcome index',
    rename ⟨"A"⟩ "B" selfTakingIndex = (.ok outcome, index') ∧ index'.Reachable ∧
      index'.store.Closed := by
  obtain ⟨outcome, index', hrun⟩ := exists_rename_selfTaking
  have hreachable : (rename ⟨"A"⟩ "B" selfTakingIndex).2.Reachable :=
    .rename _ _ reachable_selfTakingIndex
  rw [hrun] at hreachable
  exact ⟨outcome, index', hrun, hreachable, closed_of_reachable hreachable⟩

end Index

end ClassAtlas
