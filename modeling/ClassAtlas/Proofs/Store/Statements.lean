import ClassAtlas.Proofs.Store.Consistent
import ClassAtlas.Proofs.Store.Transaction

/-!
# Moving symbols

Moving a symbol to another identity is a row of changes of single tables, and each of them is refused
where the tables would break a rule after it. On tables that keep the rules none is refused: when a
number is written, its row exists, and when a row is deleted, nothing names it any more.

## Main definitions

* `ClassAtlas.Store.mergeIdentity` — the tables after all that is known under an identity became known
  under another one.
* `ClassAtlas.Store.MoveOutcome` — the ways in which moving a symbol can end.

## Main results

* `ClassAtlas.Store.mergeInto_apply` — the changes of single tables, one after the other, merge an
  identity into another one.
* `ClassAtlas.Store.moveOutcome_moveSymbol` — how moving a symbol ends.
-/

set_option autoImplicit false

namespace ClassAtlas.Store

variable {s : Store} {σ old new : RowId} {identity : Identity}

/-! ### Changes of single tables -/

/-- A change is made where no rule would be broken. -/
lemma refuseIf_bind_apply {α : Type} {broken : Store → Bool} {fault : StoreFault}
    {f : Unit → Transaction α} (h : broken s = false) : (refuseIf broken fault >>= f) s = f () s := by
  refine Transaction.bind_apply_of_eq_ok (a := ()) ?_
  rw [refuseIf, Transaction.get_bind_apply]
  simp [h]

lemma hasIdentity_iff : s.hasIdentity σ ↔ σ ∈ s.known := by
  simp [hasIdentity, known]

/-- A text that no identity has can be given to any of them. -/
lemma setIdentity_apply (hnew : s.identityId? identity = none) :
    setIdentity old identity s = .ok ((), s.renameIdentity old identity) := by
  have hfree := Consistent.identityId?_eq_none_iff.mp hnew
  refine refuseIf_bind_apply ?_
  simp only [Bool.and_eq_false_iff, List.any_eq_false]
  exact .inr fun row hr => by simp [hfree row hr]

lemma deleteIdentity_apply (hsymbols : ∀ row ∈ s.symbols, row.identity ≠ old ∧ row.owner ≠ some old)
    (hreferences : ∀ row ∈ s.references, row.target ≠ old ∧ row.owner ≠ old) :
    deleteIdentity old s =
      .ok ((), { s with identities := s.identities.filter (·.id != old) }) := by
  refine refuseIf_bind_apply ?_
  simp only [isNamed, Bool.and_eq_false_iff, Bool.or_eq_false_iff, List.any_eq_false]
  exact .inr ⟨fun row hr => by simpa using hsymbols row hr,
    fun row hr => by simpa using hreferences row hr⟩

lemma redirectTargets_apply (hnew : new ∈ s.known) :
    redirectTargets old new s =
      .ok ((), { s with
        references := s.references.map fun row =>
          { row with target := redirect old new row.target } }) :=
  refuseIf_bind_apply (by simp [hasIdentity_iff.mpr hnew])

lemma redirectUsers_apply (hnew : new ∈ s.known) :
    redirectUsers old new s =
      .ok ((), { s with
        references := s.references.map fun row => { row with owner := redirect old new row.owner } }) :=
  refuseIf_bind_apply (by simp [hasIdentity_iff.mpr hnew])

lemma redirectMembers_apply (hnew : new ∈ s.known) :
    redirectMembers old new s =
      .ok ((), { s with
        symbols := s.symbols.map fun row => { row with owner := row.owner.map (redirect old new) } }) :=
  refuseIf_bind_apply (by simp [hasIdentity_iff.mpr hnew])

lemma setSymbolIdentity_apply (hnew : new ∈ s.known) (hfree : ∀ row ∈ s.symbols, row.identity ≠ new) :
    setSymbolIdentity σ new s = .ok ((), s.modifySymbol σ fun row => { row with identity := new }) := by
  have htaken : (s.symbols.any fun row => row.id != σ && row.identity == new) = false :=
    List.any_eq_false.mpr fun row hr => by simp [hfree row hr]
  have hfirst : (fun store : Store => (store.symbols.any (·.id == σ)) &&
      store.symbols.any fun row => row.id != σ && row.identity == new) s = false := by
    simp only [htaken, Bool.and_false]
  exact (refuseIf_bind_apply hfirst).trans
    (refuseIf_bind_apply (by simp [hasIdentity_iff.mpr hnew]))

/-! ### Merging identities -/

/-- The tables after everything that is known under the identity `old` became known under the identity
`new`, the symbol moved there and `old` is forgotten. -/
def mergeIdentity (store : Store) (symbol old new : RowId) : Store where
  files := store.files
  identities := store.identities.filter (·.id != old)
  symbols := store.symbols.map fun row =>
    { row with
      owner := row.owner.map (redirect old new)
      identity := if row.id = symbol then new else row.identity }
  references := store.references.map fun row =>
    { row with target := redirect old new row.target, owner := redirect old new row.owner }

lemma redirect_ne (hne : new ≠ old) (id : RowId) : redirect old new id ≠ old := by
  rw [redirect]
  split
  · exact hne
  · assumption

/-- Nothing names an identity that was merged into another one. -/
lemma ne_of_mem_mergeIdentity (hs : s.Consistent) {row : SymbolRow} (hrow : row ∈ s.symbols)
    (hne : new ≠ row.identity) :
    (∀ other ∈ (s.mergeIdentity row.id row.identity new).symbols,
        other.identity ≠ row.identity ∧ other.owner ≠ some row.identity) ∧
      ∀ r ∈ (s.mergeIdentity row.id row.identity new).references,
        r.target ≠ row.identity ∧ r.owner ≠ row.identity := by
  constructor
  · refine List.forall_mem_map.mpr fun other ho => ⟨?_, fun h => ?_⟩
    · dsimp only
      split
      · exact hne
      · rename_i hid
        exact fun he => hid (by rw [List.inj_on_of_nodup_map hs.symbols.identities ho hrow he])
    · obtain ⟨owner, -, he⟩ := Option.map_eq_some_iff.mp h
      exact redirect_ne hne owner he
  · exact List.forall_mem_map.mpr fun r _ => ⟨redirect_ne hne r.target, redirect_ne hne r.owner⟩

/-- The changes of single tables, one after the other, merge an identity into one that exists and has no
symbol. -/
theorem mergeInto_apply (hs : s.Consistent) {row : SymbolRow} (hrow : row ∈ s.symbols)
    (hfree : ∀ other ∈ s.symbols, other.identity ≠ new) (hnew : new ∈ s.known)
    (hne : new ≠ row.identity) :
    mergeInto row.id row.identity new s = .ok ((), s.mergeIdentity row.id row.identity new) := by
  have hsymbols : (s.symbols.map fun other =>
      { other with owner := other.owner.map (redirect row.identity new) }).map
        (fun other => if other.id = row.id then { other with identity := new } else other) =
      (s.mergeIdentity row.id row.identity new).symbols := by
    rw [mergeIdentity, List.map_map]
    refine List.map_congr_left fun other _ => ?_
    by_cases h : other.id = row.id <;> simp [h]
  have hreferences : (s.references.map fun r =>
      { r with target := redirect row.identity new r.target }).map
        (fun r => { r with owner := redirect row.identity new r.owner }) =
      (s.mergeIdentity row.id row.identity new).references := by
    rw [mergeIdentity, List.map_map]
    rfl
  have hunnamed := ne_of_mem_mergeIdentity hs hrow hne
  refine (Transaction.bind_apply_of_eq_ok (redirectTargets_apply hnew)).trans ?_
  refine (Transaction.bind_apply_of_eq_ok (redirectUsers_apply ?_)).trans ?_
  · exact hnew
  refine (Transaction.bind_apply_of_eq_ok (redirectMembers_apply ?_)).trans ?_
  · exact hnew
  refine (Transaction.bind_apply_of_eq_ok (setSymbolIdentity_apply ?_ ?_)).trans ?_
  · exact hnew
  · exact List.forall_mem_map.mpr fun other ho => hfree other ho
  simp only [modifySymbol, hsymbols, hreferences]
  exact deleteIdentity_apply hunnamed.1 hunnamed.2

/-! ### How moving a symbol ends -/

/-- The store without the symbol of an identity. -/
def withoutSymbolOf (store : Store) (identity : RowId) : Store :=
  { store with symbols := store.symbols.filter (·.identity != identity) }

theorem Consistent.withoutSymbolOf (hs : s.Consistent) (id : RowId) :
    (s.withoutSymbolOf id).Consistent :=
  ⟨hs.files, hs.identities, hs.symbols.filter _, hs.references⟩

/-- A mention gives way. -/
lemma vacate_eq_ok (hs : s.Consistent)
    (hmention : ∀ occupant ∈ s.symbols, occupant.identity = new → occupant.file = none) :
    vacate new identity s = .ok ((), s.withoutSymbolOf new) := by
  rw [vacate, Transaction.get_bind_apply]
  cases hfind : s.symbols.find? (·.identity == new) with
  | none =>
    have hfree := find?_key_eq_none_iff.mp hfind
    have hall : s.symbols.filter (·.identity != new) = s.symbols :=
      List.filter_eq_self.mpr fun row hr =>
        bne_iff_ne.mpr fun he => hfree (List.mem_map.mpr ⟨row, hr, he⟩)
    simp [withoutSymbolOf, hall]
  | some occupant =>
    obtain ⟨hmem, rfl⟩ := (find?_key_eq_some_iff hs.symbols.identities).mp hfind
    -- the occupant is found by its identity and deleted by its number: both are its own
    have hkeys : s.symbols.filter (·.id != occupant.id) =
        s.symbols.filter (·.identity != occupant.identity) := by
      refine List.filter_congr fun other hother => ?_
      rw [Bool.eq_iff_iff, bne_iff_ne, bne_iff_ne]
      exact not_congr ⟨fun he => by rw [List.inj_on_of_nodup_map hs.symbols.ids hother hmem he],
        fun he => by rw [List.inj_on_of_nodup_map hs.symbols.identities hother hmem he]⟩
    simp [hmention occupant hmem rfl, deleteSymbol, withoutSymbolOf, hkeys]

/-- A declaration does not give way. -/
lemma vacate_eq_error (hs : s.Consistent) {occupant : SymbolRow} (hmem : occupant ∈ s.symbols)
    (hfile : occupant.file.isSome) :
    vacate occupant.identity identity s =
      .error (.cannotRename identity.text "target identity is already declared") := by
  have hfind : s.symbols.find? (·.identity == occupant.identity) = some occupant :=
    (find?_key_eq_some_iff hs.symbols.identities).mpr ⟨hmem, rfl⟩
  rw [vacate, Transaction.get_bind_apply]
  simp [hfind, hfile]

/-- The ways in which moving a symbol to an identity can end. -/
inductive MoveOutcome (s : Store) (σ : RowId) (identity : Identity) :
    Except Error (RowId × Store) → Prop
  /-- There is no such symbol. -/
  | noRow (h : ∀ row ∈ s.symbols, row.id ≠ σ) : MoveOutcome s σ identity (.error (.store .noRow))
  /-- The identity is new, and the one of the symbol gets its text. -/
  | renamed {row : SymbolRow} (hrow : row ∈ s.symbols) (hσ : row.id = σ)
      (hnew : s.identityId? identity = none) :
      MoveOutcome s σ identity (.ok (row.identity, s.renameIdentity row.identity identity))
  /-- The symbol has the identity already. -/
  | same {row : SymbolRow} (hrow : row ∈ s.symbols) (hσ : row.id = σ)
      (hid : s.identityId? identity = some row.identity) :
      MoveOutcome s σ identity (.ok (row.identity, s))
  /-- Another symbol has the identity, and a file declares it. -/
  | declared {row occupant : SymbolRow} (hrow : row ∈ s.symbols) (hσ : row.id = σ)
      (hoccupant : occupant ∈ s.symbols) (hid : s.identityId? identity = some occupant.identity)
      (hne : occupant.identity ≠ row.identity) (hfile : occupant.file.isSome) :
      MoveOutcome s σ identity
        (.error (.cannotRename identity.text "target identity is already declared"))
  /-- The identity is known, and no file declares a symbol with it. -/
  | merged {row : SymbolRow} {id : RowId} (hrow : row ∈ s.symbols) (hσ : row.id = σ)
      (hid : s.identityId? identity = some id) (hne : id ≠ row.identity)
      (hmention : ∀ occupant ∈ s.symbols, occupant.identity = id → occupant.file = none) :
      MoveOutcome s σ identity (.ok (id, (s.withoutSymbolOf id).mergeIdentity σ row.identity id))

/-- **How moving a symbol ends**, on tables that keep the rules.

**Proof sketch.** The cases are those of the definition. In the last one the identity of the symbol is
merged into an identity that has no symbol any more, so no change of a table is refused. -/
theorem moveOutcome_moveSymbol (hs : s.Consistent) (σ : RowId) (identity : Identity) :
    MoveOutcome s σ identity (moveSymbol σ identity s) := by
  rw [moveSymbol, Transaction.get_bind_apply]
  cases hfind : s.symbols.find? (·.id == σ) with
  | none =>
    exact .noRow fun row hr he => find?_key_eq_none_iff.mp hfind (List.mem_map.mpr ⟨row, hr, he⟩)
  | some row =>
    obtain ⟨hrow, rfl⟩ := (find?_key_eq_some_iff hs.symbols.ids).mp hfind
    cases hid : s.identityId? identity with
    | none =>
      simp only
      rw [Transaction.bind_apply_of_eq_ok (setIdentity_apply hid)]
      exact .renamed hrow rfl hid
    | some id =>
      simp only
      split
      · rename_i he
        subst he
        exact .same hrow rfl hid
      · rename_i hne
        by_cases hmention : ∀ occupant ∈ s.symbols, occupant.identity = id → occupant.file = none
        · have hmem : row ∈ (s.withoutSymbolOf id).symbols :=
            List.mem_filter.mpr ⟨hrow, bne_iff_ne.mpr (Ne.symm hne)⟩
          have hfree : ∀ other ∈ (s.withoutSymbolOf id).symbols, other.identity ≠ id :=
            fun other ho => bne_iff_ne.mp (List.mem_filter.mp ho).2
          have hknown : id ∈ (s.withoutSymbolOf id).known :=
            List.mem_map.mpr ⟨_, hs.identityId?_eq_some_iff.mp hid, rfl⟩
          rw [Transaction.bind_apply_of_eq_ok (vacate_eq_ok hs hmention),
            Transaction.bind_apply_of_eq_ok
              (mergeInto_apply (hs.withoutSymbolOf id) hmem hfree hknown hne)]
          exact .merged hrow rfl hid hne hmention
        · push Not at hmention
          obtain ⟨occupant, hmem, rfl, hfile⟩ := hmention
          have hfile := Option.isSome_iff_ne_none.mpr hfile
          have herror : vacate occupant.identity identity s = _ := vacate_eq_error hs hmem hfile
          rw [Transaction.bind_apply_of_eq_error herror]
          exact .declared hrow rfl hmem hid hne hfile

end ClassAtlas.Store
