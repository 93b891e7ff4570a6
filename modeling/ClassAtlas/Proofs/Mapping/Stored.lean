import ClassAtlas.Proofs.Mapping.Recorded
import ClassAtlas.Proofs.Workspace.Planning

/-!
# What storing events does

Events are stored one after the other. A use comes behind the uses that are known, and a declaration
counts if no other one is known. Nothing else is known of a file or a symbol afterwards. If all
identities are announced before they are used, and the files exist, nothing is refused.

## Main definitions

* `ClassAtlas.Store.usesIn`, `ClassAtlas.Store.declaration?` — what a store knows of a file and of a
  symbol.
* `ClassAtlas.Store.Stored` — a store before and after events were stored.
* `ClassAtlas.Store.IsHome` — the files that mapping covers.

## Main results

* `ClassAtlas.Store.exists_applyEvents` — a slice that names known identities is stored.
* `ClassAtlas.Mapping.exists_storing_slice` — a slice of a job is stored.
-/

set_option autoImplicit false

namespace ClassAtlas

/-! ### What is known of a file and of a symbol -/

/-- Where and how a symbol is declared. -/
structure Declaration where
  /-- The declaring file. -/
  file : RowId
  /-- The access flags. -/
  access : UInt16
  /-- The generic signature. -/
  signature : Option String
  deriving DecidableEq, Repr

/-- The declaration of a symbol, unless it is a placeholder. -/
def Symbol.declaration? (s : Symbol) : Option Declaration :=
  s.file.map fun file => ⟨file, s.access, s.signature⟩

/-- The declaration of a symbol in its row. -/
def SymbolRow.declaration? (row : SymbolRow) : Option Declaration :=
  row.file.map fun file => ⟨file, row.access, row.signature⟩

namespace Event

/-- The use by a file that an event reports. -/
def useIn? (file : RowId) : Event → Option Reference
  | .reference value => if value.file = file then some value else none
  | .identifier _ | .symbol _ => none

/-- The declaration of a symbol that an event reports. -/
def declares? (identity : Identity) : Event → Option Declaration
  | .symbol value => if value.identity = identity then value.declaration? else none
  | .identifier _ | .reference _ => none

/-- The file that an event names. -/
def file? : Event → Option RowId
  | .symbol value => value.file
  | .reference value => some value.file
  | .identifier _ => none

/-- The declaring file is the file that the event names. -/
theorem file_mem_of_declares {event : Event} {identity : Identity} {d : Declaration}
    (h : event.declares? identity = some d) : d.file ∈ event.file? := by
  cases event with
  | symbol value =>
    rw [declares?] at h
    split at h
    · obtain ⟨file, hfile, rfl⟩ := Option.map_eq_some_iff.mp h
      exact hfile
    · cases h
  | identifier identity => cases h
  | reference value => cases h

/-- A declaration is no announcement. -/
theorem announced?_of_declares {event : Event} {identity : Identity} {d : Declaration}
    (h : event.declares? identity = some d) : event.announced? = none := by
  cases event with
  | identifier identity => cases h
  | symbol value => rfl
  | reference value => rfl

/-- What names a file is no announcement. -/
theorem announced?_of_file_mem {event : Event} {id : RowId} (h : id ∈ event.file?) :
    event.announced? = none := by
  cases event with
  | identifier identity => cases h
  | symbol value => rfl
  | reference value => rfl

/-- The file of a use is the file that the event names. -/
theorem file_mem_of_useIn? {event : Event} {id : RowId} {value : Reference}
    (h : event.useIn? id = some value) : id ∈ event.file? := by
  cases event with
  | reference value =>
    rw [useIn?] at h
    split at h
    · rename_i he
      exact congrArg some he
    · cases h
  | identifier identity => cases h
  | symbol value => cases h

theorem Follows.file?_eq {file : RowId} {seen : List Event} {event : Event}
    (h : event.Follows file seen) : ∀ id ∈ event.file?, id = file := by
  cases event with
  | identifier identity => cases h
  | symbol value => exact h.2.1
  | reference value => simpa [file?] using h.1

end Event

namespace Store

variable {s s' s'' : Store} {events more : List Event} {identity t : Identity} {id : RowId}

/-- The uses by a file, in the order of their numbers. -/
def usesIn (store : Store) (file : RowId) : List Reference :=
  (store.referencesIn file).map StoredReference.reference

/-- The declaration of the symbol with an identity, if it is declared. -/
def declaration? (store : Store) (identity : Identity) : Option Declaration :=
  (store.symbolOf? identity).bind (·.symbol.declaration?)

/-- A symbol is declared as its row says. -/
theorem Consistent.declaration?_eq_some_iff (hc : s.Consistent) {d : Declaration} :
    s.declaration? t = some d ↔
      ∃ row ∈ s.symbols, s.identity? row.identity = some t ∧ row.declaration? = some d := by
  rw [declaration?, Option.bind_eq_some_iff]
  constructor
  · rintro ⟨shown, hshown, hd⟩
    obtain ⟨rfl, row, hrow, hs⟩ := exists_of_symbolOf? hshown
    obtain ⟨text, htext, rfl⟩ := showSymbol?_eq_some_iff.mp hs
    exact ⟨row, hrow, htext, hd⟩
  · rintro ⟨row, hrow, htext, hd⟩
    have hshown := showSymbol?_eq_some_iff.mpr ⟨t, htext, rfl⟩
    exact ⟨_, symbolOf?_of_mem hc hrow hshown, hd⟩

/-- A declaration is found by the number of the identity. -/
theorem Consistent.declaration?_eq (hc : s.Consistent) (t : Identity) :
    s.declaration? t = (s.identityId? t).bind fun id =>
      (s.symbols.find? (·.identity == id)).bind SymbolRow.declaration? := by
  refine Option.ext fun d => ?_
  simp only [hc.declaration?_eq_some_iff, Option.bind_eq_some_iff, hc.identityId?_eq_some_iff,
    find?_key_eq_some_iff hc.symbols.identities, hc.identity?_eq_some_iff]
  constructor
  · rintro ⟨row, hrow, htext, hd⟩
    exact ⟨_, htext, row, ⟨hrow, rfl⟩, hd⟩
  · rintro ⟨_, htext, row, ⟨hrow, rfl⟩, hd⟩
    exact ⟨row, hrow, htext, hd⟩

/-! ### Before and after -/

/-- A store before and after events were stored. -/
structure Stored (events : List Event) (s s' : Store) : Prop where
  /-- The files stay. -/
  files : s'.files = s.files
  /-- New identities come last. -/
  identities : ∃ added, s'.identities = s.identities ++ added ∧
    ∀ row ∈ added, .identifier row.identity ∈ events
  /-- What was announced is known. -/
  announced : ∀ identity, .identifier identity ∈ events → (s'.identityId? identity).isSome
  /-- The uses come behind those that were known. -/
  uses : ∀ id, s'.usesIn id = s.usesIn id ++ events.filterMap (Event.useIn? id)
  /-- The first declaration counts, unless one was known. -/
  declared : ∀ t, s'.declaration? t = (s.declaration? t).or (events.findSome? (Event.declares? t))

theorem isSome_identityId?_append (h : (s.identityId? identity).isSome) {added : List IdentityRow}
    (ha : s'.identities = s.identities ++ added) : (s'.identityId? identity).isSome := by
  rw [identityId?, Option.isSome_map] at h ⊢
  rw [ha, List.find?_append, Option.isSome_or, h, Bool.true_or]

theorem Stored.known (h : Stored events s s') (hk : (s.identityId? identity).isSome) :
    (s'.identityId? identity).isSome := by
  obtain ⟨added, ha, -⟩ := h.identities
  exact isSome_identityId?_append hk ha

theorem Stored.refl : Stored [] s s where
  files := rfl
  identities := ⟨[], by simp⟩
  announced := by simp
  uses := by simp
  declared := by simp

theorem Stored.trans (h : Stored events s s') (h' : Stored more s' s'') :
    Stored (events ++ more) s s'' where
  files := h'.files.trans h.files
  identities := by
    obtain ⟨added, ha, hadded⟩ := h.identities
    obtain ⟨added', ha', hadded'⟩ := h'.identities
    refine ⟨added ++ added', by rw [ha', ha, List.append_assoc], fun row hr => ?_⟩
    rcases List.mem_append.mp hr with hr | hr
    · exact List.mem_append_left _ (hadded row hr)
    · exact List.mem_append_right _ (hadded' row hr)
  announced identity hmem := by
    rcases List.mem_append.mp hmem with hmem | hmem
    · exact h'.known (h.announced identity hmem)
    · exact h'.announced identity hmem
  uses id := by rw [h'.uses, h.uses, List.filterMap_append, List.append_assoc]
  declared t := by rw [h'.declared, h.declared, List.findSome?_append, Option.or_assoc]

/-- Only identities came, and they came last. -/
theorem stored_identities (added : List IdentityRow) (hc : s.Consistent) (hc' : s'.Consistent)
    (h : s' = { s with identities := s.identities ++ added })
    (hmem : ∀ row ∈ added, .identifier row.identity ∈ events)
    (hannounced : ∀ identity, .identifier identity ∈ events → (s'.identityId? identity).isSome)
    (hevents : ∀ event ∈ events, event.announced? ≠ none) : Stored events s s' := by
  have hlookup {id : RowId} (hid : id ∈ s.known) : s'.identity? id = s.identity? id :=
    h ▸ identity?_append hid added
  have huse (id : RowId) : events.filterMap (Event.useIn? id) = [] := by
    refine List.filterMap_eq_nil_iff.mpr fun event he => ?_
    cases event with
    | reference value => exact absurd rfl (hevents _ he)
    | identifier identity => rfl
    | symbol value => rfl
  have hdeclares (t : Identity) : events.findSome? (Event.declares? t) = none := by
    refine List.findSome?_eq_none_iff.mpr fun event he => ?_
    cases event with
    | symbol value => exact absurd rfl (hevents _ he)
    | identifier identity => rfl
    | reference value => rfl
  refine ⟨by rw [h], ⟨added, by rw [h], hmem⟩, hannounced, fun id => ?_, fun t => ?_⟩
  · have hshow : ∀ row ∈ s.references.filter (·.file == id),
        s'.showReference? row = s.showReference? row := fun row hr => by
      have hr := List.mem_of_mem_filter hr
      rw [showReference?, showReference?, hlookup (hc.references.target_mem row hr),
        hlookup (hc.references.owner_mem row hr)]
    have hreferences : s'.references = s.references := by rw [h]
    rw [huse, List.append_nil, usesIn, usesIn, referencesIn, referencesIn, hreferences,
      List.filterMap_congr hshow]
  · rw [hdeclares, Option.or_none]
    refine Option.ext fun d => ?_
    have hsymbols : s'.symbols = s.symbols := by rw [h]
    rw [hc.declaration?_eq_some_iff, hc'.declaration?_eq_some_iff, hsymbols]
    refine exists_congr fun row => and_congr_right fun hr => ?_
    rw [hlookup (hc.symbols.identity_mem row hr)]

/-! ### Identities -/

open Transaction (Keeps bind_eq_ok_iff bind_apply_of_eq_ok mapM_cons_eq_ok_iff)

/-- What was announced is known. -/
theorem isSome_of_internIdentity (h : internIdentity identity s = .ok (id, s')) :
    (s'.identityId? identity).isSome := by
  obtain ⟨hknown, rfl⟩ | ⟨-, -, rfl⟩ := eq_or_of_internIdentity h
  · exact Option.isSome_iff_exists.mpr ⟨id, hknown⟩
  · rw [identityId?, Option.isSome_map, List.find?_append, Option.isSome_or]
    simp

theorem stored_of_internIdentity (hc : s.Consistent) (h : internIdentity identity s = .ok (id, s')) :
    Stored [.identifier identity] s s' := by
  have hc' := keeps_internIdentity _ _ _ _ h hc
  have hid : ∀ other, Event.identifier other ∈ [Event.identifier identity] →
      (s'.identityId? other).isSome := by
    intro other hmem
    obtain rfl := Event.identifier.inj (List.mem_singleton.mp hmem)
    exact isSome_of_internIdentity h
  obtain ⟨-, rfl⟩ | ⟨-, -, rfl⟩ := eq_or_of_internIdentity h
  · exact stored_identities [] hc hc' (by simp) (by simp) hid (by simp [Event.announced?])
  · exact stored_identities _ hc hc' rfl (by simp) hid (by simp [Event.announced?])

theorem exists_internIdentity (identity : Identity) (s : Store) :
    ∃ id s', internIdentity identity s = .ok (id, s') := by
  rw [internIdentity, Transaction.get_bind_apply]
  cases s.identityId? identity with
  | some id => exact ⟨id, s, rfl⟩
  | none => exact ⟨_, _, rfl⟩

/-- Announced identities are stored, whatever is known. -/
theorem exists_internAll (hc : s.Consistent) (identities : List Identity) :
    ∃ numbers s', internAll identities s = .ok (numbers, s') ∧ s'.Consistent ∧
      s'.symbols = s.symbols ∧ s'.references = s.references ∧
      Stored (identities.map .identifier) s s' := by
  induction identities generalizing s with
  | nil => exact ⟨[], s, rfl, hc, rfl, rfl, .refl⟩
  | cons identity identities ih =>
    obtain ⟨id, s₁, hfirst⟩ := exists_internIdentity identity s
    have hc₁ := keeps_internIdentity _ _ _ _ hfirst hc
    have hsame : s₁.symbols = s.symbols ∧ s₁.references = s.references := by
      obtain ⟨-, rfl⟩ | ⟨-, -, rfl⟩ := eq_or_of_internIdentity hfirst <;> exact ⟨rfl, rfl⟩
    obtain ⟨numbers, s₂, hrest, hc₂, hsymbols, hreferences, hstored⟩ := ih hc₁
    refine ⟨(identity, id) :: numbers, s₂, ?_, hc₂, hsymbols.trans hsame.1,
      hreferences.trans hsame.2, (stored_of_internIdentity hc hfirst).trans hstored⟩
    exact mapM_cons_eq_ok_iff.mpr
      ⟨_, s₁, numbers, bind_eq_ok_iff.mpr ⟨id, s₁, hfirst, rfl⟩, hrest, rfl⟩

/-! ### Symbols and uses -/

/-- Every declaring file has a property. -/
def Homes (P : RowId → Prop) (s : Store) : Prop :=
  ∀ row ∈ s.symbols, ∀ id ∈ row.file, P id

theorem keeps_homes_insertSymbol {P : RowId → Prop} {symbol : Symbol}
    (hfile : ∀ id ∈ symbol.file, P id) : Keeps (Homes P) (insertSymbol symbol) := by
  intro s id s' h hs
  obtain ⟨identity, owner, -, -, ⟨row, hrow, rfl⟩ | ⟨-, rfl⟩⟩ := eq_or_of_insertSymbol h
  · refine List.forall_mem_map.mpr fun other ho => ?_
    split
    · intro id hid
      rcases Option.or_eq_some_iff.mp hid with hid | ⟨-, hid⟩
      · exact hs row (List.mem_of_find?_eq_some hrow) id hid
      · exact hfile id hid
    · exact hs other ho
  · intro other ho
    rcases List.mem_append.mp ho with ho | ho
    · exact hs other ho
    · exact List.mem_singleton.mp ho ▸ hfile

theorem declaration?_mergeSymbol (row incoming : SymbolRow) :
    (mergeSymbol row incoming).declaration? = row.declaration?.or incoming.declaration? := by
  cases hrow : row.file <;> cases hincoming : incoming.file <;>
    simp [SymbolRow.declaration?, mergeSymbol, hrow, hincoming]

/-- Every row but one stays, and that one is merged with what comes in. -/
theorem modifySymbol_mergeSymbol (hc : s.Consistent) {row : SymbolRow} (hrow : row ∈ s.symbols)
    (incoming : SymbolRow) : (s.modifySymbol row.id fun _ => mergeSymbol row incoming).symbols =
      s.symbols.map fun other => if other.id = row.id then mergeSymbol other incoming else other := by
  refine List.map_congr_left fun other ho => ?_
  split
  · rename_i he
    rw [List.inj_on_of_nodup_map hc.symbols.ids ho hrow he]
  · rfl

/-- The row of an identity after a write to a symbol. -/
theorem bind_declaration?_of_insertSymbol {symbol : Symbol} (hc : s.Consistent)
    (h : insertSymbol symbol s = .ok (id, s')) :
    ∃ identity, s.identityId? symbol.identity = some identity ∧ s'.identities = s.identities ∧
      ∀ number, (s'.symbols.find? (·.identity == number)).bind SymbolRow.declaration? =
        ((s.symbols.find? (·.identity == number)).bind SymbolRow.declaration?).or
          (if identity = number then symbol.declaration? else none) := by
  obtain ⟨identity, owner, hidentity, -, ⟨row, hrow, rfl⟩ | ⟨hnone, rfl⟩⟩ := eq_or_of_insertSymbol h
  · obtain ⟨hmem, rfl⟩ := (find?_key_eq_some_iff hc.symbols.identities).mp hrow
    refine ⟨_, hidentity, rfl, fun number => ?_⟩
    have hkey (incoming : SymbolRow) : (fun other : SymbolRow => (if other.id = row.id then
        mergeSymbol other incoming else other).identity == number) =
          fun other => other.identity == number := by
      funext other
      split <;> rfl
    rw [modifySymbol_mergeSymbol hc hmem, List.find?_map, Function.comp_def, hkey]
    cases hfound : s.symbols.find? (·.identity == number) with
    | none =>
      have hne : row.identity ≠ number := fun he =>
        find?_key_eq_none_iff.mp hfound (he ▸ List.mem_map_of_mem hmem)
      simp [hne]
    | some other =>
      obtain ⟨ho, rfl⟩ := (find?_key_eq_some_iff hc.symbols.identities).mp hfound
      by_cases he : other.id = row.id
      · obtain rfl := List.inj_on_of_nodup_map hc.symbols.ids ho hmem he
        rw [Option.map_some, Option.bind_some, Option.bind_some, if_pos rfl, if_pos rfl,
          declaration?_mergeSymbol]
        rfl
      · have hne : row.identity ≠ other.identity := fun hi =>
          he (congrArg _ (List.inj_on_of_nodup_map hc.symbols.identities ho hmem hi.symm))
        simp [he, hne]
  · refine ⟨_, hidentity, rfl, fun number => ?_⟩
    rw [List.find?_append]
    by_cases he : identity = number
    · subst he
      simp [hnone, SymbolRow.declaration?, Symbol.declaration?]
    · simp [he]

/-- A further write to a symbol brings its declaration if none is known. -/
theorem declaration?_of_insertSymbol {symbol : Symbol} (hc : s.Consistent)
    (h : insertSymbol symbol s = .ok (id, s')) (t : Identity) :
    s'.declaration? t = (s.declaration? t).or (Event.declares? t (.symbol symbol)) := by
  obtain ⟨identity, hidentity, hidentities, hrows⟩ := bind_declaration?_of_insertSymbol hc h
  have hsame : s'.identityId? t = s.identityId? t := by rw [identityId?, hidentities, identityId?]
  rw [hc.declaration?_eq, (keeps_insertSymbol _ _ _ _ h hc).declaration?_eq, hsame, Event.declares?]
  cases ht : s.identityId? t with
  | none =>
    have hne : symbol.identity ≠ t := fun he => by simp [he ▸ hidentity] at ht
    simp [hne]
  | some number =>
    have hiff : identity = number ↔ symbol.identity = t := by
      have hmem := hc.identityId?_eq_some_iff.mp hidentity
      have hnumber := hc.identityId?_eq_some_iff.mp ht
      constructor
      · rintro rfl
        exact congrArg IdentityRow.identity
          (List.inj_on_of_nodup_map hc.identities.ids hmem hnumber rfl)
      · rintro rfl
        exact congrArg IdentityRow.id (List.inj_on_of_nodup_map hc.identities.texts hmem hnumber rfl)
    rw [Option.bind_some, Option.bind_some, hrows, if_congr hiff rfl rfl]

/-- What is known of a use does not depend on symbols and files. -/
theorem usesIn_congr (hidentities : s'.identities = s.identities)
    (hreferences : s'.references = s.references) (id : RowId) : s'.usesIn id = s.usesIn id := by
  have hshow : s'.showReference? = s.showReference? := by
    funext row
    simp only [showReference?, identity?, hidentities]
  rw [usesIn, usesIn, referencesIn, referencesIn, hreferences, hshow]

theorem stored_of_insertSymbol {symbol : Symbol} (hc : s.Consistent)
    (h : insertSymbol symbol s = .ok (id, s')) : Stored [.symbol symbol] s s' := by
  obtain ⟨identity, owner, -, -, hcase⟩ := eq_or_of_insertSymbol h
  have hsame : s'.files = s.files ∧ s'.identities = s.identities ∧ s'.references = s.references := by
    obtain ⟨row, hrow, rfl⟩ | ⟨-, rfl⟩ := hcase <;> exact ⟨rfl, rfl, rfl⟩
  obtain ⟨hfiles, hidentities, hreferences⟩ := hsame
  refine ⟨hfiles, ⟨[], by simp [hidentities]⟩, by simp, fun id => ?_, fun t => ?_⟩
  · rw [usesIn_congr hidentities hreferences]
    exact (List.append_nil _).symm
  · rw [declaration?_of_insertSymbol hc h, List.findSome?_singleton]

/-- A recorded use comes behind the others. -/
theorem stored_of_insertReference {reference : Reference} (hc : s.Consistent)
    (h : insertReference reference s = .ok (id, s')) : Stored [.reference reference] s s' := by
  obtain ⟨target, owner, htarget, howner, rfl⟩ := eq_of_insertReference h
  refine ⟨rfl, ⟨[], by simp⟩, by simp, fun id => ?_, fun t => ?_⟩
  · have hshown (number : RowId) : s.showReference? ⟨number, reference.kind, reference.file, target,
        owner, reference.location⟩ = some ⟨number, reference⟩ :=
      showReference?_eq_some_iff.mpr ⟨_, _, hc.identity?_of_identityId? htarget,
        hc.identity?_of_identityId? howner, rfl⟩
    have hshow (row : List ReferenceRow) :
        showReference? { s with references := row } = s.showReference? := rfl
    rw [usesIn, usesIn, referencesIn, referencesIn, hshow, List.filter_append, List.filterMap_append,
      List.map_append]
    by_cases he : reference.file = id
    · subst he
      simp [Event.useIn?, hshown]
    · simp [Event.useIn?, he]
  · have hsame : declaration? { s with references := s.references ++ [⟨nextId
        (s.references.map ReferenceRow.id), reference.kind, reference.file, target, owner,
        reference.location⟩] } t = s.declaration? t := rfl
    rw [hsame]
    simp [Event.declares?]

/-! ### Slices -/

/-- The files that mapping covers: top-level files and the entries of top-level archives. -/
def IsHome (store : Store) (id : RowId) : Prop :=
  ∃ top ∈ store.files, top.archive = none ∧ store.Forgets top id

theorem IsHome.hasFile (h : s.IsHome id) : s.hasFile (some id) := by
  obtain ⟨top, htop, -, hmem⟩ := h
  obtain ⟨file, hfile, rfl⟩ := List.mem_map.mp hmem
  have hfile : file ∈ s.files := by
    rcases List.mem_cons.mp hfile with rfl | hfile
    · exact htop
    · exact (mem_entriesOf.mp hfile).1
  simpa [hasFile] using ⟨file, hfile, rfl⟩

theorem isHome_congr (h : s'.files = s.files) : s'.IsHome = s.IsHome := by
  funext id
  simp only [IsHome, Forgets, entriesOf, h]

/-- A store with which mapping can go on: its tables are consistent, only files that mapping covers
declare symbols, and references are in the order of their numbers. -/
structure Mappable (s : Store) : Prop where
  /-- The tables keep their rules. -/
  consistent : s.Consistent
  /-- Every declaring file is covered. -/
  homes : Homes s.IsHome s
  /-- The numbers of references ascend. -/
  ascending : (s.references.map ReferenceRow.id).Pairwise (· < ·)

/-- Changes of identities and symbols that keep the rules, by which no other file declares symbols. -/
theorem Mappable.of_references (hs : s.Mappable) (hc : s'.Consistent) (hfiles : s'.files = s.files)
    (hhomes : Homes s.IsHome s') (hreferences : s'.references = s.references) : s'.Mappable :=
  ⟨hc, isHome_congr hfiles ▸ hhomes, hreferences ▸ hs.ascending⟩

theorem exists_requireIdentity (h : (s.identityId? identity).isSome) :
    ∃ id, requireIdentity identity s = .ok (id, s) := by
  obtain ⟨id, hid⟩ := Option.isSome_iff_exists.mp h
  exact ⟨id, requireIdentity_eq_ok_iff.mpr ⟨hid, rfl⟩⟩

/-- Every file that declares a symbol exists, as the tables ask. -/
def HasFiles (s : Store) : Prop :=
  ∀ row ∈ s.symbols, s.hasFile row.file

theorem Mappable.hasFiles (hs : s.Mappable) : s.HasFiles := by
  intro row hrow
  cases hfile : row.file with
  | none => rfl
  | some id => exact (hs.homes row hrow id hfile).hasFile

theorem hasFile_mergeSymbol {row incoming : SymbolRow} (hrow : s.hasFile row.file)
    (hincoming : s.hasFile incoming.file) : s.hasFile (mergeSymbol row incoming).file := by
  change s.hasFile (row.file.or incoming.file)
  cases hfile : row.file with
  | none => exact hincoming
  | some id =>
    rw [hfile] at hrow
    exact hrow

/-- A symbol with known identities, which no file declares or one that exists, is stored. -/
theorem exists_insertSymbol {symbol : Symbol} (hs : s.HasFiles) (hfile : s.hasFile symbol.file)
    (hknown : ∀ identity ∈ Job.named (.symbol symbol), (s.identityId? identity).isSome) :
    ∃ id s', insertSymbol symbol s = .ok (id, s') := by
  obtain ⟨identity, hidentity⟩ := exists_requireIdentity (hknown _ List.mem_cons_self)
  have howner : ∃ owner, symbol.owner.mapM requireIdentity s = .ok (owner, s) := by
    cases ho : symbol.owner with
    | none => exact ⟨none, rfl⟩
    | some owner =>
      obtain ⟨id, hid⟩ := exists_requireIdentity (hknown owner (by simp [Job.named, ho]))
      exact ⟨some id, Transaction.map_eq_ok_iff.mpr ⟨id, hid, rfl⟩⟩
  obtain ⟨owner, howner⟩ := howner
  rw [insertSymbol, bind_apply_of_eq_ok hidentity, bind_apply_of_eq_ok howner,
    Transaction.get_bind_apply]
  cases hrow : s.symbols.find? (·.identity == identity) with
  | some row =>
    dsimp only
    rw [if_pos (hasFile_mergeSymbol (hs row (List.mem_of_find?_eq_some hrow)) (by exact hfile))]
    exact ⟨_, _, rfl⟩
  | none =>
    dsimp only
    rw [if_pos hfile]
    exact ⟨_, _, rfl⟩

/-- A use by a file that exists, with known identities, is stored. -/
theorem exists_insertReference {reference : Reference} (hfile : s.hasFile (some reference.file))
    (hknown : ∀ identity ∈ Job.named (.reference reference), (s.identityId? identity).isSome) :
    ∃ id s', insertReference reference s = .ok (id, s') := by
  obtain ⟨target, htarget⟩ := exists_requireIdentity (hknown _ List.mem_cons_self)
  obtain ⟨owner, howner⟩ :=
    exists_requireIdentity (hknown _ (List.mem_cons_of_mem _ List.mem_cons_self))
  rw [insertReference, bind_apply_of_eq_ok htarget, bind_apply_of_eq_ok howner,
    Transaction.get_bind_apply, if_pos hfile]
  exact ⟨_, _, rfl⟩

/-- An event in files that are covered, with known identities, is stored. -/
theorem exists_applyEvent {event : Event} (hs : s.Mappable)
    (hfile : ∀ id ∈ event.file?, s.IsHome id)
    (hknown : event.announced? = none → ∀ identity ∈ Job.named event,
      (s.identityId? identity).isSome) :
    ∃ s', applyEvent event s = .ok ((), s') ∧ s'.Mappable ∧
      Stored ([event].filter (·.announced?.isNone)) s s' := by
  cases event with
  | identifier identity => exact ⟨s, rfl, hs, .refl⟩
  | symbol value =>
    have hexists : s.hasFile value.file := by
      cases hdeclared : value.file with
      | none => rfl
      | some id => exact (hfile id hdeclared).hasFile
    obtain ⟨id, s', h⟩ := exists_insertSymbol hs.hasFiles hexists (hknown rfl)
    have hstored := stored_of_insertSymbol hs.consistent h
    have hreferences : s'.references = s.references := by
      obtain ⟨_, _, -, -, ⟨row, hrow, rfl⟩ | ⟨-, rfl⟩⟩ := eq_or_of_insertSymbol h <;> rfl
    refine ⟨s', bind_eq_ok_iff.mpr ⟨id, s', h, rfl⟩, ?_, hstored⟩
    exact hs.of_references (keeps_insertSymbol _ _ _ _ h hs.consistent) hstored.files
      (keeps_homes_insertSymbol hfile _ _ _ h hs.homes) hreferences
  | reference value =>
    obtain ⟨id, s', h⟩ := exists_insertReference (hfile _ rfl).hasFile (hknown rfl)
    have hstored := stored_of_insertReference hs.consistent h
    have hc := keeps_insertReference _ _ _ _ h hs.consistent
    obtain ⟨target, owner, -, -, rfl⟩ := eq_of_insertReference h
    refine ⟨_, bind_eq_ok_iff.mpr ⟨id, _, h, rfl⟩, ⟨hc, ?_, ?_⟩, hstored⟩
    · rw [isHome_congr rfl]
      exact hs.homes
    · rw [List.map_append, List.pairwise_append]
      refine ⟨hs.ascending, List.pairwise_singleton _ _, fun a ha b hb => ?_⟩
      rw [List.map_singleton, List.mem_singleton] at hb
      exact hb ▸ Int.lt_add_one_of_le ((le_foldl_max _ 0).2 a ha)

theorem exists_forM_applyEvent (events : List Event) (hs : s.Mappable)
    (hfile : ∀ event ∈ events, ∀ id ∈ event.file?, s.IsHome id)
    (hknown : ∀ event ∈ events, event.announced? = none → ∀ identity ∈ Job.named event,
      (s.identityId? identity).isSome) :
    ∃ s', events.forM applyEvent s = .ok ((), s') ∧ s'.Mappable ∧
      Stored (events.filter (·.announced?.isNone)) s s' := by
  induction events generalizing s with
  | nil => exact ⟨s, rfl, hs, .refl⟩
  | cons event events ih =>
    obtain ⟨hfile, hfiles⟩ := List.forall_mem_cons.mp hfile
    obtain ⟨hevent, hevents⟩ := List.forall_mem_cons.mp hknown
    obtain ⟨s₁, hfirst, hs₁, hstored⟩ := exists_applyEvent hs hfile hevent
    obtain ⟨s₂, hrest, hs₂, hstored'⟩ := ih hs₁
      (fun e he id hid => isHome_congr hstored.files ▸ hfiles e he id hid)
      (fun e he hnone i hi => hstored.known (hevents e he hnone i hi))
    refine ⟨s₂, bind_eq_ok_iff.mpr ⟨(), s₁, hfirst, hrest⟩, hs₂, ?_⟩
    have hboth := hstored.trans hstored'
    rwa [← List.filter_append, List.singleton_append] at hboth

/-- What is taken from events but announcements does not depend on the announcements. -/
lemma filterMap_filter_announced {β : Type} {f : Event → Option β}
    (hf : ∀ identity, f (.identifier identity) = none) (events : List Event) :
    (events.filter (·.announced?.isNone)).filterMap f = events.filterMap f := by
  have hsame : (fun event : Event => if event.announced?.isNone then f event else none) = f := by
    funext event
    cases event with
    | identifier identity => exact (hf identity).symm
    | symbol value => rfl
    | reference value => rfl
  rw [List.filterMap_filter, hsame]

/-- It does not matter whether announcements come first or in between. -/
theorem Stored.interleave (h : Stored ((events.filterMap Event.announced?).map .identifier ++
    events.filter (·.announced?.isNone)) s s') : Stored events s s' := by
  have hmem (identity : Identity) : Event.identifier identity ∈
      (events.filterMap Event.announced?).map .identifier ++ events.filter (·.announced?.isNone) ↔
        .identifier identity ∈ events := by
    simp
  have hkept {β : Type} {f : Event → Option β} (hf : ∀ identity, f (.identifier identity) = none) :
      List.filterMap f ((events.filterMap Event.announced?).map Event.identifier ++
        events.filter (·.announced?.isNone)) = events.filterMap f := by
    rw [List.filterMap_append, filterMap_filter_announced hf, List.filterMap_map]
    simp [hf]
  obtain ⟨added, ha, hadded⟩ := h.identities
  refine ⟨h.files, ⟨added, ha, fun row hr => (hmem _).mp (hadded row hr)⟩,
    fun identity hi => h.announced identity ((hmem identity).mpr hi), fun id => ?_, fun t => ?_⟩
  · rw [h.uses, hkept (f := Event.useIn? id) fun _ => rfl]
  · rw [h.declared, ← List.head?_filterMap, hkept (f := Event.declares? t) fun _ => rfl,
      List.head?_filterMap]

/-- **A slice that names known identities is stored.** An identity may also be known because the slice
announces it, wherever it does so. -/
theorem exists_applyEvents {events : List Event} (hs : s.Mappable)
    (hfile : ∀ event ∈ events, ∀ id ∈ event.file?, s.IsHome id)
    (hknown : ∀ event ∈ events, event.announced? = none → ∀ identity ∈ Job.named event,
      (s.identityId? identity).isSome ∨ .identifier identity ∈ events) :
    ∃ numbers s', applyEvents events s = .ok (numbers, s') ∧ s'.Mappable ∧ Stored events s s' := by
  obtain ⟨numbers, s₁, hinterned, hc₁, hsymbols, hreferences, hstored⟩ :=
    exists_internAll hs.consistent (events.filterMap Event.announced?)
  have hhome : s₁.IsHome = s.IsHome := isHome_congr hstored.files
  have hs₁ : s₁.Mappable := by
    refine hs.of_references hc₁ hstored.files ?_ hreferences
    rw [Homes, hsymbols]
    exact hs.homes
  obtain ⟨s₂, hevents, hs₂, hstored'⟩ := exists_forM_applyEvent events hs₁
    (fun event he id hid => hhome ▸ hfile event he id hid) fun event he hnone identity hi => by
      rcases hknown event he hnone identity hi with hk | hk
      · exact hstored.known hk
      · exact hstored.announced identity (by simpa using hk)
  refine ⟨numbers, s₂, bind_eq_ok_iff.mpr ⟨_, _, hinterned, ?_⟩, hs₂,
    (hstored.trans hstored').interleave⟩
  exact bind_eq_ok_iff.mpr ⟨(), s₂, hevents, rfl⟩

end Store

namespace Mapping

open Store

variable {index : Index} {events taken slice later : List Event}

theorem exists_storing (hs : index.store.Mappable)
    (hfile : ∀ event ∈ events, ∀ id ∈ event.file?, index.store.IsHome id)
    (hknown : ∀ event ∈ events, event.announced? = none → ∀ identity ∈ Job.named event,
      (index.store.identityId? identity).isSome ∨ .identifier identity ∈ events) :
    ∃ index', storing events index = .ok index' ∧ index'.store.Mappable ∧
      Stored events index.store index'.store := by
  obtain ⟨numbers, s', happly, hs', hstored⟩ := exists_applyEvents hs hfile hknown
  exact ⟨⟨s', index.cache.rememberAll numbers⟩,
    storing_eq_ok_iff.mpr ⟨numbers, happly, rfl⟩, hs', hstored⟩

/-- **A slice of a job is stored** once the announcements before it are, as every identity is announced
before it is used. -/
theorem exists_storing_slice (hs : index.store.Mappable)
    (hfile : ∀ event ∈ slice, ∀ id ∈ event.file?, index.store.IsHome id)
    (hannounced : Announced [] (taken ++ slice ++ later))
    (hknown : ∀ identity, .identifier identity ∈ taken → (index.store.identityId? identity).isSome) :
    ∃ index', storing slice index = .ok index' ∧ index'.store.Mappable ∧
      Stored slice index.store index'.store := by
  refine exists_storing hs hfile fun event he hnone identity hi => ?_
  obtain ⟨before, after, rfl⟩ := List.append_of_mem he
  have hsplit : taken ++ (before ++ event :: after) ++ later =
      (taken ++ before) ++ event :: (after ++ later) := by simp
  rw [hsplit] at hannounced
  rcases hannounced.known_or hnone hi with hk | hk
  · cases hk
  · rcases List.mem_append.mp hk with hk | hk
    · exact .inl (hknown identity hk)
    · exact .inr (List.mem_append_left _ hk)

end Mapping

end ClassAtlas
