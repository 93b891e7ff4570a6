import ClassAtlas.Proofs.Store.Changes

/-!
# Moving a symbol loses nothing

The tables are declared with more rules than looking up needs: every file that a row names exists, too.
On tables that keep all of them, moving a symbol never runs into a rule. It fails if there is no such
symbol or if a file declares another symbol with the new identity; otherwise everything that was known
under the old identity of the symbol is known under the new one, and nothing else has changed but for
the mention that gave way.

## Main definitions

* `ClassAtlas.Store.Schema` — all rules of the tables.
* `ClassAtlas.Store.CannotMove` — the causes for which a symbol cannot be moved.
* `ClassAtlas.Store.Relocated` — the tables before and after a symbol moved.

## Main results

* `ClassAtlas.Store.moveSymbol_eq_error_iff` — moving a symbol fails for these causes only.
* `ClassAtlas.Store.relocated_moveSymbol` — the failures of moving a symbol, and what it does.
-/

set_option autoImplicit false

namespace ClassAtlas.Store

variable {s s' : Store} {σ old new : RowId} {identity : Identity} {row : SymbolRow}

/-! ### All rules -/

/-- The rules that the tables are declared with: no key is repeated, and every number of another row is
the number of a row that exists. -/
structure Schema (store : Store) : Prop where
  /-- The rules of looking up. -/
  consistent : store.Consistent
  /-- No reference has the number of another one. -/
  references : (store.references.map ReferenceRow.id).Nodup
  /-- The archive of an entry exists. -/
  archive_mem : ∀ file ∈ store.files, store.hasFile file.archive
  /-- The file that declares a symbol exists. -/
  declaring_mem : ∀ row ∈ store.symbols, store.hasFile row.file
  /-- The file that uses something exists. -/
  using_mem : ∀ row ∈ store.references, store.hasFile (some row.file)

/-- Only the identities have to be looked at when only their texts change. -/
lemma Schema.renameIdentity (hs : s.Schema) (hnew : s.identityId? identity = none) :
    (s.renameIdentity old identity).Schema :=
  ⟨hs.consistent.renameIdentity hnew, hs.references, hs.archive_mem, hs.declaring_mem, hs.using_mem⟩

lemma Schema.withoutSymbolOf (hs : s.Schema) (id : RowId) : (s.withoutSymbolOf id).Schema :=
  ⟨hs.consistent.withoutSymbolOf id, hs.references, hs.archive_mem,
    fun row hr => hs.declaring_mem row (List.mem_of_mem_filter hr), hs.using_mem⟩

lemma Schema.mergeIdentity (hs : s.Schema) (hrow : row ∈ s.symbols)
    (hfree : ∀ other ∈ s.symbols, other.identity ≠ new) (hnew : new ∈ s.known)
    (hne : new ≠ row.identity) : (s.mergeIdentity row.id row.identity new).Schema where
  consistent := hs.consistent.mergeIdentity hrow hfree hnew hne
  references := by
    rw [Store.mergeIdentity, map_key_map]
    · exact hs.references
    · exact fun _ _ => rfl
  archive_mem := hs.archive_mem
  declaring_mem := List.forall_mem_map.mpr hs.declaring_mem
  using_mem := List.forall_mem_map.mpr hs.using_mem

/-! ### The failures -/

/-- The causes for which the symbol with the number `σ` cannot be moved to an identity. -/
inductive CannotMove (s : Store) (σ : RowId) (identity : Identity) : Error → Prop
  /-- There is no such symbol. -/
  | noRow (h : ∀ row ∈ s.symbols, row.id ≠ σ) : CannotMove s σ identity (.store .noRow)
  /-- Another row has the identity, and a file declares its symbol. -/
  | declared {row occupant : SymbolRow} (hrow : row ∈ s.symbols) (hσ : row.id = σ)
      (hoccupant : occupant ∈ s.symbols)
      (hid : IdentityRow.mk occupant.identity identity ∈ s.identities)
      (hne : occupant.identity ≠ row.identity) (hfile : occupant.file.isSome) :
      CannotMove s σ identity
        (.cannotRename identity.text "target identity is already declared")

/-- **Moving a symbol fails for these causes only**, and no rule of the tables is among them. -/
theorem moveSymbol_eq_error_iff (hs : s.Consistent) {e : Error} :
    moveSymbol σ identity s = .error e ↔ s.CannotMove σ identity e := by
  have hsame {a b : SymbolRow} (ha : a ∈ s.symbols) (hb : b ∈ s.symbols) (h : a.id = b.id) : a = b :=
    List.inj_on_of_nodup_map hs.symbols.ids ha hb h
  have houtcome := moveOutcome_moveSymbol hs σ identity
  constructor
  · intro h
    rw [h] at houtcome
    cases houtcome with
    | noRow hnone => exact .noRow hnone
    | declared hrow hσ hoccupant hid hne hfile =>
      exact .declared hrow hσ hoccupant (hs.identityId?_eq_some_iff.mp hid) hne hfile
  · intro h
    generalize moveSymbol σ identity s = result at houtcome ⊢
    cases h with
    | noRow h =>
      cases houtcome with
      | noRow _ => rfl
      | renamed hrow hσ | same hrow hσ | declared hrow hσ | merged hrow hσ =>
        exact absurd hσ (h _ hrow)
    | declared hrow hσ hoccupant hmem hne hfile =>
      have hid := hs.identityId?_eq_some_iff.mpr hmem
      cases houtcome with
      | noRow h => exact absurd hσ (h _ hrow)
      | declared => rfl
      | renamed _ _ hnew => exact absurd (hnew.symm.trans hid) nofun
      | same hrow' hσ' hid' =>
        obtain rfl := hsame hrow hrow' (hσ.trans hσ'.symm)
        exact absurd (Option.some.inj (hid.symm.trans hid')) hne
      | merged _ _ hid' _ hmention =>
        have hnone := hmention _ hoccupant (Option.some.inj (hid.symm.trans hid'))
        exact absurd hfile (by simp [hnone])

/-! ### The tables after a move -/

/-- A symbol after the symbol with the number `σ` moved from the identity `old` to `new`. -/
def movedSymbol (σ old new : RowId) (row : SymbolRow) : SymbolRow :=
  { row with
    owner := row.owner.map (redirect old new)
    identity := if row.id = σ then new else row.identity }

/-- A reference after everything that was known under the identity `old` moved to `new`. -/
def movedReference (old new : RowId) (row : ReferenceRow) : ReferenceRow :=
  { row with target := redirect old new row.target, owner := redirect old new row.owner }

/-- The tables before and after the symbol `row` moved to an identity, whose number is `id`. -/
structure Relocated (s : Store) (row : SymbolRow) (identity : Identity) (id : RowId) (s' : Store) :
    Prop where
  /-- The identity exists. -/
  identity_mem : IdentityRow.mk id identity ∈ s'.identities
  /-- The symbol has it. -/
  symbol_mem : movedSymbol row.id row.identity id row ∈ s'.symbols
  /-- The old identity is forgotten, if it was another one. -/
  forgotten : ∀ text, IdentityRow.mk row.identity text ∈ s.identities → text ≠ identity →
    ∀ other ∈ s'.identities, other.identity ≠ text
  /-- The other identities stay. -/
  identities : ∀ other : IdentityRow, other.id ≠ row.identity →
    (other ∈ s'.identities ↔ other ∈ s.identities)
  /-- Every reference stays; what it named by the old number it names by the new one. -/
  references : s'.references = s.references.map (movedReference row.identity id)
  /-- Every other symbol without the new identity stays; it has its owner by the new number. -/
  symbols : s'.symbols = (s.symbols.filter fun other => other.id == row.id || other.identity != id).map
    (movedSymbol row.id row.identity id)
  /-- A symbol that is gone was a mention, and it had the new identity. -/
  gone : ∀ other ∈ s.symbols, (∀ kept ∈ s'.symbols, kept.id ≠ other.id) →
    IdentityRow.mk other.identity identity ∈ s.identities ∧ other.file = none
  /-- No file changes. -/
  files : s'.files = s.files
  /-- All rules are kept. -/
  schema : s'.Schema

@[simp]
lemma redirect_self (id : RowId) : redirect old old id = id := by
  rw [redirect]
  split
  · exact Eq.symm ‹_›
  · rfl

lemma map_movedReference_self (references : List ReferenceRow) :
    references.map (movedReference old old) = references :=
  List.map_id'' (fun r => by simp [movedReference]) references

lemma movedSymbol_self (hs : s.Consistent) (hrow : row ∈ s.symbols) {other : SymbolRow}
    (hother : other ∈ s.symbols) : movedSymbol row.id row.identity row.identity other = other := by
  have howner : other.owner.map (redirect row.identity row.identity) = other.owner := by
    cases other.owner <;> simp
  have hidentity : (if other.id = row.id then row.identity else other.identity) = other.identity := by
    split
    · rw [List.inj_on_of_nodup_map hs.symbols.ids hother hrow ‹_›]
    · rfl
  rw [movedSymbol, howner, hidentity]

/-- A symbol that has the identity of another one is that one. -/
lemma filter_moved_self (hs : s.Consistent) (hrow : row ∈ s.symbols) :
    s.symbols = (s.symbols.filter fun other =>
        other.id == row.id || other.identity != row.identity).map
      (movedSymbol row.id row.identity row.identity) := by
  have hall : (s.symbols.filter fun other =>
      other.id == row.id || other.identity != row.identity) = s.symbols := by
    refine List.filter_eq_self.mpr fun other ho => ?_
    by_cases he : other.identity = row.identity
    · simp [List.inj_on_of_nodup_map hs.symbols.identities ho hrow he]
    · simp [he]
  rw [hall]
  exact (List.map_id _).symm.trans
    (List.map_congr_left fun other ho => (movedSymbol_self hs hrow ho).symm)

/-- The identity of the symbol is renamed. -/
lemma relocated_renameIdentity (hs : s.Schema) (hrow : row ∈ s.symbols)
    (hnew : s.identityId? identity = none) :
    s.Relocated row identity row.identity (s.renameIdentity row.identity identity) where
  identity_mem := by
    obtain ⟨current, hcurrent, hid⟩ := List.mem_map.mp (hs.consistent.symbols.identity_mem row hrow)
    refine List.mem_map.mpr ⟨current, hcurrent, ?_⟩
    rw [if_pos hid, ← hid]
  symbol_mem := by
    rw [movedSymbol_self hs.consistent hrow hrow]
    exact hrow
  forgotten := by
    intro text htext hne
    refine List.forall_mem_map.mpr fun other ho he => ?_
    split at he
    · exact hne he.symm
    · rename_i hid
      have hsame := List.inj_on_of_nodup_map hs.consistent.identities.texts ho htext he
      exact hid (congrArg IdentityRow.id hsame)
  identities := by
    intro other hne
    constructor
    · intro ho
      obtain ⟨before, hb, rfl⟩ := List.mem_map.mp ho
      by_cases hid : before.id = row.identity
      · exact absurd (by simp [hid]) hne
      · simpa [hid] using hb
    · exact fun ho => List.mem_map.mpr ⟨other, ho, if_neg hne⟩
  references := (map_movedReference_self s.references).symm
  symbols := filter_moved_self (s := s) hs.consistent hrow
  gone := fun other ho hgone => absurd rfl (hgone other ho)
  files := rfl
  schema := hs.renameIdentity hnew

/-- The symbol has the identity already. -/
lemma relocated_self (hs : s.Schema) (hrow : row ∈ s.symbols)
    (hid : s.identityId? identity = some row.identity) :
    s.Relocated row identity row.identity s where
  identity_mem := hs.consistent.identityId?_eq_some_iff.mp hid
  symbol_mem := by
    rw [movedSymbol_self hs.consistent hrow hrow]
    exact hrow
  forgotten := by
    intro text htext hne
    have hmem := hs.consistent.identityId?_eq_some_iff.mp hid
    have hsame := List.inj_on_of_nodup_map hs.consistent.identities.ids htext hmem rfl
    exact absurd (congrArg IdentityRow.identity hsame) hne
  identities := fun _ _ => Iff.rfl
  references := (map_movedReference_self s.references).symm
  symbols := filter_moved_self hs.consistent hrow
  gone := fun other ho hgone => absurd rfl (hgone other ho)
  files := rfl
  schema := hs

/-- What was known under the identity of the symbol becomes known under another one. -/
lemma relocated_mergeIdentity (hs : s.Schema) (hrow : row ∈ s.symbols)
    (hid : s.identityId? identity = some new) (hne : new ≠ row.identity)
    (hmention : ∀ occupant ∈ s.symbols, occupant.identity = new → occupant.file = none) :
    s.Relocated row identity new
      ((s.withoutSymbolOf new).mergeIdentity row.id row.identity new) := by
  have hmem := hs.consistent.identityId?_eq_some_iff.mp hid
  have hkept : row ∈ (s.withoutSymbolOf new).symbols :=
    List.mem_filter.mpr ⟨hrow, bne_iff_ne.mpr hne.symm⟩
  have hsymbols : (s.withoutSymbolOf new).symbols =
      s.symbols.filter fun other => other.id == row.id || other.identity != new := by
    refine List.filter_congr fun other ho => ?_
    by_cases he : other.id = row.id
    · rw [List.inj_on_of_nodup_map hs.consistent.symbols.ids ho hrow he]
      simp [hne.symm]
    · simp [he]
  exact {
    identity_mem := List.mem_filter.mpr ⟨hmem, bne_iff_ne.mpr hne⟩
    symbol_mem := List.mem_map.mpr ⟨row, hkept, rfl⟩
    forgotten := fun text htext _ other ho he => by
      obtain ⟨ho, hold⟩ := List.mem_filter.mp ho
      have hsame := List.inj_on_of_nodup_map hs.consistent.identities.texts ho htext he
      exact bne_iff_ne.mp hold (congrArg IdentityRow.id hsame)
    identities := fun other hother =>
      ⟨List.mem_of_mem_filter, fun ho => List.mem_filter.mpr ⟨ho, bne_iff_ne.mpr hother⟩⟩
    references := rfl
    symbols := by rw [← hsymbols]; rfl
    gone := fun other ho hgone => by
      have hnew : other.identity = new := by
        by_contra hother
        exact hgone (movedSymbol row.id row.identity new other)
          (List.mem_map.mpr ⟨other, List.mem_filter.mpr ⟨ho, bne_iff_ne.mpr hother⟩, rfl⟩) rfl
      exact ⟨hnew ▸ hmem, hmention other ho hnew⟩
    files := rfl
    schema := (hs.withoutSymbolOf new).mergeIdentity hkept
      (fun other ho => bne_iff_ne.mp (List.mem_filter.mp ho).2)
      (List.mem_map.mpr ⟨_, hmem, rfl⟩) hne }

/-- **Moving a symbol loses no rows and runs into no rule.** On tables that keep all rules it fails only if
there is no such symbol, or if a file declares another symbol with the new identity. Otherwise everything
that was known under the old identity is known under the new one, and all rules are kept. -/
theorem relocated_moveSymbol (hs : s.Schema) (σ : RowId) (identity : Identity) :
    (∀ e, moveSymbol σ identity s = .error e ↔ s.CannotMove σ identity e) ∧
      ∀ id s', moveSymbol σ identity s = .ok (id, s') →
        ∃ row ∈ s.symbols, row.id = σ ∧ s.Relocated row identity id s' := by
  refine ⟨fun e => moveSymbol_eq_error_iff hs.consistent, fun id s' h => ?_⟩
  have houtcome := moveOutcome_moveSymbol hs.consistent σ identity
  rw [h] at houtcome
  cases houtcome with
  | renamed hrow hσ hnew => exact ⟨_, hrow, hσ, relocated_renameIdentity hs hrow hnew⟩
  | same hrow hσ hid => exact ⟨_, hrow, hσ, relocated_self hs hrow hid⟩
  | merged hrow hσ hid hne hmention =>
    subst hσ
    exact ⟨_, hrow, rfl, relocated_mergeIdentity hs hrow hid hne hmention⟩

/-- A class that refers to itself, with a field and with a method that refers to a class which is only
mentioned. -/
def selfReferring : Store where
  files := [⟨1, "A.class", "A.class", none, false, none⟩]
  identities := [⟨1, .ofClass "A"⟩, ⟨2, .ofField (.ofClass "A") "f" "I"⟩, ⟨3, .ofClass "B"⟩,
    ⟨4, .ofMethod (.ofClass "A") "m" "()V"⟩]
  symbols := [⟨1, 1, .classSymbol, "A", some 1, none, 33, none⟩,
    ⟨2, 2, .fieldSymbol, "f", some 1, some 1, 2, none⟩, ⟨3, 3, .classSymbol, "B", none, none, 0, none⟩,
    ⟨4, 4, .methodSymbol, "m", some 1, some 1, 1, none⟩]
  references := [⟨1, .classFile, 1, 1, 1, none⟩, ⟨2, .typeInstruction, 1, 3, 4, some 0⟩]

/-- The same tables after the class took the place of the one that is only mentioned. -/
def selfReferringMoved : Store where
  files := [⟨1, "A.class", "A.class", none, false, none⟩]
  identities := [⟨2, .ofField (.ofClass "A") "f" "I"⟩, ⟨3, .ofClass "B"⟩,
    ⟨4, .ofMethod (.ofClass "A") "m" "()V"⟩]
  symbols := [⟨1, 3, .classSymbol, "A", some 1, none, 33, none⟩,
    ⟨2, 2, .fieldSymbol, "f", some 1, some 3, 2, none⟩, ⟨4, 4, .methodSymbol, "m", some 1, some 3, 1, none⟩]
  references := [⟨1, .classFile, 1, 3, 3, none⟩, ⟨2, .typeInstruction, 1, 3, 4, some 0⟩]

/-- The reference of the class to itself, its members and the reference to the other class move with it. -/
theorem relocated_selfReferring :
    selfReferring.Schema ∧
      moveSymbol 1 (.ofClass "B") selfReferring = .ok (3, selfReferringMoved) ∧
      ∃ row ∈ selfReferring.symbols, row.id = 1 ∧
        selfReferring.Relocated row (.ofClass "B") 3 selfReferringMoved := by
  have hs : selfReferring.Schema := by
    refine ⟨⟨⟨?_, ?_⟩, ⟨?_, ?_⟩, ⟨?_, ?_, ?_, ?_⟩, ⟨?_, ?_⟩⟩, ?_, ?_, ?_, ?_⟩ <;> decide +kernel
  have hmove : moveSymbol 1 (.ofClass "B") selfReferring = .ok (3, selfReferringMoved) := by
    decide +kernel
  exact ⟨hs, hmove, (relocated_moveSymbol hs 1 (.ofClass "B")).2 3 selfReferringMoved hmove⟩

end ClassAtlas.Store
