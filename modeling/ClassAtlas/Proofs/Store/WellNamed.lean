import ClassAtlas.Proofs.Store.Changes
import ClassAtlas.Proofs.Symbol.Identity

/-!
# Identities, names and owners

Imports and mapping never change the kind, the name or the identity of a symbol that is there, and they
give it an owner at most once. So a rule about these that holds of every symbol that mapping reports
holds of every symbol in the store. The identity of a class is that of its name. The identity of a member
is made of its owner's, its name and a descriptor. A rename keeps less: the owner, but not always the
name.

## Main definitions

* `ClassAtlas.SymbolRule`, `ClassAtlas.Store.Obeys` — a rule for symbols, and stores that obey it.
* `ClassAtlas.Symbol.WellNamed`, `ClassAtlas.SymbolRow.WellNamed` — symbols with identities made of their
  owners'.
* `ClassAtlas.Symbol.Spelled`, `ClassAtlas.SymbolRow.Spelled` — symbols with identities made of their
  owners' and their names.
* `ClassAtlas.IsOwned` — the rule that owners are classes.
* `ClassAtlas.Store.Sound` — a consistent store with well named symbols.

## Main results

* `ClassAtlas.Store.keeps_obeys_internIdentity`, `keeps_obeys_insertSymbol` and others — changes keep a
  rule.
-/

set_option autoImplicit false

namespace ClassAtlas

/-! ### Rules for symbols -/

/-- What is asked of a symbol: of its kind, its name, its identity and the identity of its owner. -/
abbrev SymbolRule := SymbolKind → String → Option Identity → Option Identity → Prop

/-- A rule that a symbol still obeys when it gets the owner of a symbol with its identity that obeys
the rule. -/
def SymbolRule.Steady (rule : SymbolRule) : Prop :=
  ∀ kind name kind' name' identity owner other, rule kind name identity owner →
    rule kind' name' identity other → rule kind name identity (owner.or other)

/-- A symbol that obeys a rule. -/
def Symbol.Obeys (rule : SymbolRule) (s : Symbol) : Prop :=
  rule s.kind s.name (some s.identity) s.owner

/-- A row that obeys a rule. -/
def SymbolRow.Obeys (rule : SymbolRule) (store : Store) (row : SymbolRow) : Prop :=
  rule row.kind row.name (store.identity? row.identity) (row.owner.bind store.identity?)

/-- A consistent store in which every symbol obeys a rule. -/
structure Store.Obeys (rule : SymbolRule) (store : Store) : Prop where
  /-- The tables keep their rules. -/
  consistent : store.Consistent
  /-- Every symbol obeys the rule. -/
  symbols : ∀ row ∈ store.symbols, row.Obeys rule store

/-! ### Identities made of others -/

/-- A class has the identity of its name, and a member has an identity made of its owner's. -/
def IsNamed (kind : SymbolKind) (identity owner : Option Identity) : Prop :=
  match kind.memberSort? with
  | none => ∃ name, identity = some (.ofClass name)
  | some sort => ∃ class' name descriptor, owner = some (.ofClass class') ∧
    identity = some (MemberPath.identity ⟨.ofClass class', name, descriptor⟩ sort)

/-- A class has the identity of its name, and a member has an identity made of its owner's and its
name. -/
def IsSpelled : SymbolRule := fun kind name identity owner =>
  match kind.memberSort? with
  | none => identity = some (.ofClass name)
  | some sort => ∃ class' descriptor, owner = some (.ofClass class') ∧
    identity = some (MemberPath.identity ⟨.ofClass class', name, descriptor⟩ sort)

/-- A symbol that has an owner is owned by a class. -/
def IsOwned : SymbolRule := fun _ _ _ owner => ∀ identity ∈ owner, ∃ name, identity = .ofClass name

theorem IsSpelled.isNamed {kind : SymbolKind} {name : String} {identity owner : Option Identity}
    (h : IsSpelled kind name identity owner) : IsNamed kind identity owner := by
  rw [IsSpelled] at h
  rw [IsNamed]
  split at h
  · exact ⟨name, h⟩
  · obtain ⟨class', descriptor, howner, hidentity⟩ := h
    exact ⟨class', name, descriptor, howner, hidentity⟩

/-- A symbol with an identity made of its owner's. -/
def Symbol.WellNamed (s : Symbol) : Prop :=
  IsNamed s.kind (some s.identity) s.owner

/-- A row with an identity made of its owner's. -/
def SymbolRow.WellNamed (store : Store) (row : SymbolRow) : Prop :=
  IsNamed row.kind (store.identity? row.identity) (row.owner.bind store.identity?)

/-- A symbol with an identity made of its owner's and its name. -/
def Symbol.Spelled (s : Symbol) : Prop :=
  s.Obeys IsSpelled

/-- A row with an identity made of its owner's and its name. -/
def SymbolRow.Spelled (store : Store) (row : SymbolRow) : Prop :=
  row.Obeys IsSpelled store

/-- An owner that is there does not change. -/
theorem steady_isNamed : SymbolRule.Steady fun kind _ identity owner => IsNamed kind identity owner := by
  intro kind name _ _ identity owner other h _
  rw [IsNamed] at h ⊢
  split at h
  · exact h
  · obtain ⟨class', name, descriptor, rfl, hidentity⟩ := h
    exact ⟨class', name, descriptor, rfl, hidentity⟩

theorem steady_isSpelled : SymbolRule.Steady IsSpelled := by
  intro kind name _ _ identity owner other h _
  rw [IsSpelled] at h ⊢
  split at h
  · exact h
  · obtain ⟨class', descriptor, rfl, hidentity⟩ := h
    exact ⟨class', descriptor, rfl, hidentity⟩

theorem steady_isOwned : SymbolRule.Steady IsOwned := by
  intro _ _ _ _ _ owner other h hother identity hmem
  rcases Option.or_eq_some_iff.mp hmem with hmem | ⟨-, hmem⟩
  · exact h identity hmem
  · exact hother identity hmem

namespace Symbol

theorem spelled_ofClass (name : String) : (ofClass name).Spelled :=
  congrArg some (Identity.ofClass_slashed name).symm

theorem spelled_ofField (owner name descriptor : String) : (ofField owner name descriptor).Spelled :=
  ⟨owner, descriptor, rfl, rfl⟩

theorem spelled_ofMethod (owner name descriptor : String) :
    (ofMethod owner name descriptor).Spelled :=
  ⟨owner, descriptor, rfl, rfl⟩

end Symbol

namespace Store

open Transaction (Keeps)

variable {store : Store} {id : RowId}

/-- A consistent store in which every symbol has an identity made of its owner's. -/
structure Sound (store : Store) : Prop where
  /-- The tables keep their rules. -/
  consistent : store.Consistent
  /-- Every symbol has an identity made of its owner's. -/
  wellNamed : ∀ row ∈ store.symbols, row.WellNamed store

/-- The identity of a member is not that of a class. -/
theorem Sound.ne_ofClass (hs : store.Sound) {row : SymbolRow} {sort : MemberSort} {text : Identity}
    (hrow : row ∈ store.symbols) (hsort : row.kind.memberSort? = some sort)
    (htext : store.identity? row.identity = some text) (name : String) : text ≠ .ofClass name := by
  have hnamed := hs.wellNamed row hrow
  rw [SymbolRow.WellNamed, IsNamed, hsort, htext] at hnamed
  obtain ⟨class', member, descriptor, -, he⟩ := hnamed
  intro hclass
  have hmember := congrArg Identity.isMember (hclass.symm.trans (Option.some.inj he))
  simp at hmember

/-- The owner in the identity of a member is the owner of the member. -/
theorem Sound.exists_owner (hs : store.Sound) {row : SymbolRow} {sort : MemberSort}
    {text : Identity} {path : MemberPath} (hrow : row ∈ store.symbols)
    (hsort : row.kind.memberSort? = some sort) (htext : store.identity? row.identity = some text)
    (hpath : text.split sort = .ok path) :
    ∃ class', path.owner = .ofClass class' ∧
      row.owner.bind store.identity? = some (.ofClass class') := by
  have hnamed := hs.wellNamed row hrow
  rw [SymbolRow.WellNamed, IsNamed, hsort, htext] at hnamed
  obtain ⟨class', name, descriptor, howner, he⟩ := hnamed
  exact ⟨class', MemberPath.owner_of_split (Option.some.inj he ▸ hpath), howner⟩

theorem sound_iff_obeys :
    store.Sound ↔ store.Obeys fun kind _ identity owner => IsNamed kind identity owner :=
  ⟨fun h => ⟨h.consistent, h.wellNamed⟩, fun h => ⟨h.consistent, h.symbols⟩⟩

/-! ### Changes that keep a rule -/

variable {rule : SymbolRule}

theorem obeys_empty : Store.empty.Obeys rule :=
  ⟨consistent_empty, by simp [Store.empty]⟩

/-- Symbols obey a rule if their names, identities and owners are found as before. -/
theorem obeys_congr {store' : Store} {row row' : SymbolRow} (hkind : row'.kind = row.kind)
    (hname : row'.name = row.name)
    (hidentity : store'.identity? row'.identity = store.identity? row.identity)
    (howner : row'.owner.bind store'.identity? = row.owner.bind store.identity?)
    (h : row.Obeys rule store) : row'.Obeys rule store' := by
  rwa [SymbolRow.Obeys, hkind, hname, hidentity, howner]

/-- Changes that leave the identities alone, and kind, name, identity and owner of every symbol. -/
theorem Obeys.of_symbols {store' : Store} (hs : store.Obeys rule) (hc : store'.Consistent)
    (hidentities : store'.identities = store.identities)
    (hsymbols : ∀ row' ∈ store'.symbols, ∃ row ∈ store.symbols, row'.kind = row.kind ∧
      row'.name = row.name ∧ row'.identity = row.identity ∧ row'.owner = row.owner) :
    store'.Obeys rule := by
  have hlookup : store'.identity? = store.identity? := by
    funext id
    rw [identity?, hidentities, identity?]
  refine ⟨hc, fun row' hr' => ?_⟩
  obtain ⟨row, hr, hkind, hname, hidentity, howner⟩ := hsymbols row' hr'
  exact obeys_congr hkind hname (by rw [hlookup, hidentity]) (by rw [hlookup, howner])
    (hs.symbols row hr)

/-- Where an identity was found, it is found after others are added. -/
theorem identity?_append (h : id ∈ store.known) (added : List IdentityRow) :
    Store.identity? { store with identities := store.identities ++ added } id = store.identity? id := by
  obtain ⟨row, hrow, rfl⟩ := List.mem_map.mp h
  have hsome : (store.identities.find? (·.id == row.id)).isSome :=
    List.find?_isSome.mpr ⟨row, hrow, by simp⟩
  rw [identity?, identity?, List.find?_append, Option.or_of_isSome hsome]

theorem keeps_obeys_internIdentity (identity : Identity) :
    Keeps (Obeys rule) (internIdentity identity) := by
  intro s id s' h hs
  refine ⟨keeps_internIdentity _ _ _ _ h hs.consistent, fun row hr => ?_⟩
  obtain ⟨-, rfl⟩ | ⟨-, -, rfl⟩ := eq_or_of_internIdentity h
  · exact hs.symbols row hr
  · refine obeys_congr rfl rfl (identity?_append (hs.consistent.symbols.identity_mem row hr) _) ?_
      (hs.symbols row hr)
    cases ho : row.owner with
    | none => rfl
    | some owner => exact identity?_append (hs.consistent.symbols.owner_mem row hr owner ho) _

/-- A further write to a symbol keeps its name and its identity, and its owner if it has one. -/
theorem obeys_mergeSymbol (hrule : rule.Steady) {row incoming : SymbolRow}
    (hknown : ∀ owner ∈ row.owner, ∃ text, store.identity? owner = some text)
    (hsame : incoming.identity = row.identity) (h : row.Obeys rule store)
    (hincoming : incoming.Obeys rule store) : (mergeSymbol row incoming).Obeys rule store := by
  have howner : (row.owner.or incoming.owner).bind store.identity? =
      (row.owner.bind store.identity?).or (incoming.owner.bind store.identity?) := by
    cases ho : row.owner with
    | none => simp
    | some owner =>
      obtain ⟨text, htext⟩ := hknown owner ho
      simp [htext]
  rw [SymbolRow.Obeys] at h hincoming ⊢
  rw [hsame] at hincoming
  change rule row.kind row.name (store.identity? row.identity)
    ((row.owner.or incoming.owner).bind store.identity?)
  rw [howner]
  exact hrule _ _ _ _ _ _ _ h hincoming

/-- A row made for a symbol says of it what the symbol says. -/
theorem Consistent.obeys_of_symbol (hc : store.Consistent) {symbol : Symbol}
    (hsymbol : symbol.Obeys rule) {row : SymbolRow} (hkind : row.kind = symbol.kind)
    (hname : row.name = symbol.name) (hidentity : store.identityId? symbol.identity = some row.identity)
    (howner : row.owner.map some = symbol.owner.map store.identityId?) : row.Obeys rule store := by
  have htext : store.identity? row.identity = some symbol.identity :=
    hc.identity?_eq_some_iff.mpr (hc.identityId?_eq_some_iff.mp hidentity)
  have howner : row.owner.bind store.identity? = symbol.owner := by
    cases ho : symbol.owner with
    | none =>
      rw [ho] at howner
      rw [Option.map_eq_none_iff.mp howner]
      rfl
    | some o =>
      rw [ho] at howner
      obtain ⟨id, hrow, hid⟩ := Option.map_eq_some_iff.mp howner
      rw [hrow]
      exact hc.identity?_eq_some_iff.mpr (hc.identityId?_eq_some_iff.mp hid.symm)
  rw [SymbolRow.Obeys, hkind, hname, htext, howner]
  exact hsymbol

theorem keeps_obeys_insertSymbol (hrule : rule.Steady) {symbol : Symbol} (hsymbol : symbol.Obeys rule) :
    Keeps (Obeys rule) (insertSymbol symbol) := by
  intro s id s' h hs
  refine ⟨keeps_insertSymbol _ _ _ _ h hs.consistent, ?_⟩
  obtain ⟨identity, owner, hidentity, howner, hcase⟩ := eq_or_of_insertSymbol h
  have hc := hs.consistent
  obtain ⟨row, hrow, rfl⟩ | ⟨-, rfl⟩ := hcase
  · obtain ⟨hmem, hsame⟩ := (find?_key_eq_some_iff hc.symbols.identities).mp hrow
    refine List.forall_mem_map.mpr fun other ho => ?_
    split
    · exact obeys_mergeSymbol hrule
        (fun owner ho => hc.exists_identity? (hc.symbols.owner_mem row hmem owner ho)) hsame.symm
        (hs.symbols row hmem) (hc.obeys_of_symbol hsymbol rfl rfl hidentity howner.symm)
    · exact hs.symbols other ho
  · refine fun row hr => ?_
    rcases List.mem_append.mp hr with hr | hr
    · exact hs.symbols row hr
    · obtain rfl := List.mem_singleton.mp hr
      exact hc.obeys_of_symbol hsymbol rfl rfl hidentity howner.symm

theorem keeps_obeys_insertReference (reference : Reference) :
    Keeps (Obeys rule) (insertReference reference) := by
  intro s id s' h hs
  refine hs.of_symbols (keeps_insertReference _ _ _ _ h hs.consistent) ?_ ?_
  · obtain ⟨target, owner, -, -, rfl⟩ := eq_of_insertReference h
    rfl
  · obtain ⟨target, owner, -, -, rfl⟩ := eq_of_insertReference h
    exact fun row hr => ⟨row, hr, rfl, rfl, rfl, rfl⟩

theorem keeps_obeys_insertFile (path : String) (archive : Option RowId) (isDirectory : Bool)
    (content : Option Content) : Keeps (Obeys rule) (insertFile path archive isDirectory content) := by
  intro s id s' h hs
  have hc := keeps_insertFile _ _ _ _ _ _ _ h hs.consistent
  obtain ⟨file, -, -, rfl⟩ | ⟨-, -, rfl⟩ := eq_or_of_insertFile h
  · exact hs.of_symbols hc rfl fun row hr => ⟨row, hr, rfl, rfl, rfl, rfl⟩
  · exact hs.of_symbols hc rfl fun row hr => ⟨row, hr, rfl, rfl, rfl, rfl⟩

theorem keeps_obeys_deleteFile : Keeps (Obeys rule) (deleteFile id) := by
  intro s u s' h hs
  have hc := keeps_deleteFile _ _ _ h hs.consistent
  cases h
  exact hs.of_symbols hc rfl fun row hr => ⟨row, List.mem_of_mem_filter hr, rfl, rfl, rfl, rfl⟩

theorem keeps_obeys_clearMappings : Keeps (Obeys rule) (clearMappings id) := by
  intro s u s' h hs
  have hc := keeps_clearMappings _ _ _ h hs.consistent
  cases h
  refine hs.of_symbols hc rfl (List.forall_mem_map.mpr fun row hr => ⟨row, hr, ?_⟩)
  split <;> exact ⟨rfl, rfl, rfl, rfl⟩

end Store

end ClassAtlas
