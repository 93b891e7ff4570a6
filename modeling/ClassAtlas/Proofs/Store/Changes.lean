import ClassAtlas.Proofs.Store.Statements

/-!
# The rules under changes

Every change of the store keeps the rules of the tables. For each change, what it does to the tables
when it succeeds is stated first, with all that is known about the rows it found.

## Main results

* `ClassAtlas.Store.eq_or_of_insertSymbol` — what declaring or mentioning a symbol does.
* `ClassAtlas.Store.eq_or_of_moveSymbol` — what moving a symbol does.
* `ClassAtlas.Store.keeps_internIdentity`, `keeps_insertSymbol`, `keeps_moveSymbol`,
  `keeps_insertReference`, `keeps_insertFile`, `keeps_renameFile` and others — every change keeps the
  rules.
-/

set_option autoImplicit false

namespace ClassAtlas.Store

open Transaction (Keeps)

/-! ### Identities -/

/-- A new identity comes last. -/
theorem eq_or_of_internIdentity {identity : Identity} {s s' : Store} {id : RowId}
    (h : internIdentity identity s = .ok (id, s')) :
    s.identityId? identity = some id ∧ s' = s ∨
      s.identityId? identity = none ∧ id = nextId s.known ∧
        s' = { s with identities := s.identities ++ [⟨nextId s.known, identity⟩] } := by
  rw [internIdentity, Transaction.get_bind_apply] at h
  cases hid : s.identityId? identity with
  | some known =>
    rw [hid] at h
    cases h
    exact .inl ⟨rfl, rfl⟩
  | none =>
    rw [hid] at h
    cases h
    exact .inr ⟨rfl, rfl, rfl⟩

theorem keeps_internIdentity (identity : Identity) : Keeps Consistent (internIdentity identity) := by
  intro s id s' h hs
  obtain ⟨-, rfl⟩ | ⟨hnew, -, rfl⟩ := eq_or_of_internIdentity h
  · exact hs
  · have hk : s.known ⊆
        (s.identities ++ [IdentityRow.mk (nextId s.known) identity]).map IdentityRow.id := by
      rw [List.map_append]
      exact List.subset_append_left _ _
    refine ⟨hs.files, ⟨?_, ?_⟩, hs.symbols.mono hk, hs.references.mono hk⟩
    · exact nodup_key_append hs.identities.ids (nextId_notMem s.known)
    · refine nodup_key_append hs.identities.texts fun hm => ?_
      obtain ⟨row, hr, he⟩ := List.mem_map.mp hm
      exact Consistent.identityId?_eq_none_iff.mp hnew row hr he

/-- An identity that has to be known is known. -/
theorem requireIdentity_eq_ok_iff {identity : Identity} {s s' : Store} {id : RowId} :
    requireIdentity identity s = .ok (id, s') ↔ s.identityId? identity = some id ∧ s' = s := by
  rw [requireIdentity, Transaction.get_bind_apply]
  cases hid : s.identityId? identity with
  | some known =>
    constructor
    · intro h
      cases h
      exact ⟨rfl, rfl⟩
    · rintro ⟨hknown, rfl⟩
      cases hknown
      rfl
  | none => exact iff_of_false nofun nofun

theorem identityId?_of_mapM_requireIdentity {identity : Option Identity} {s s' : Store}
    {id : Option RowId} (h : identity.mapM requireIdentity s = .ok (id, s')) :
    identity.map s.identityId? = id.map some ∧ s' = s := by
  cases identity with
  | none =>
    cases h
    exact ⟨rfl, rfl⟩
  | some i =>
    obtain ⟨a, ha, rfl⟩ := Transaction.map_eq_ok_iff.mp h
    obtain ⟨hi, rfl⟩ := requireIdentity_eq_ok_iff.mp ha
    exact ⟨by simp [hi], rfl⟩

/-! ### Symbols -/

section Symbols

variable {store : Store} {σ : RowId}

theorem Consistent.modifySymbol (h : store.Consistent) {f : SymbolRow → SymbolRow}
    (hid : ∀ row ∈ store.symbols, row.id = σ → (f row).id = row.id)
    (hidentity : ∀ row ∈ store.symbols, row.id = σ → (f row).identity = row.identity)
    (howner : ∀ row ∈ store.symbols, row.id = σ → ∀ owner ∈ (f row).owner, owner ∈ store.known) :
    (store.modifySymbol σ f).Consistent where
  files := h.files
  identities := h.identities
  references := h.references
  symbols := by
    refine h.symbols.map (fun row hr => ?_) (fun row hr => ?_) fun row hr => ?_
    · split
      · exact hid row hr ‹_›
      · rfl
    · split
      · exact hidentity row hr ‹_›
      · rfl
    · split
      · exact howner row hr ‹_›
      · exact h.symbols.owner_mem row hr

/-- A symbol is merged into the row of its identity, or it gets a row of its own at the end. -/
theorem eq_or_of_insertSymbol {symbol : Symbol} {s s' : Store} {id : RowId}
    (h : insertSymbol symbol s = .ok (id, s')) :
    ∃ identity owner, s.identityId? symbol.identity = some identity ∧
      symbol.owner.map s.identityId? = owner.map some ∧
      let incoming : SymbolRow := ⟨nextId (s.symbols.map SymbolRow.id), identity, symbol.kind,
        symbol.name, symbol.file, owner, symbol.access, symbol.signature⟩
      (∃ row, s.symbols.find? (·.identity == identity) = some row ∧
          s' = s.modifySymbol row.id fun _ => mergeSymbol row incoming) ∨
        s.symbols.find? (·.identity == identity) = none ∧
          s' = { s with symbols := s.symbols ++ [incoming] } := by
  obtain ⟨identity, m, hidentity, hrest⟩ := Transaction.bind_eq_ok_iff.mp h
  obtain ⟨hidentity, rfl⟩ := requireIdentity_eq_ok_iff.mp hidentity
  obtain ⟨owner, m', howner, hset⟩ := Transaction.bind_eq_ok_iff.mp hrest
  obtain ⟨howner, rfl⟩ := identityId?_of_mapM_requireIdentity howner
  refine ⟨identity, owner, hidentity, howner, ?_⟩
  rw [Transaction.get_bind_apply] at hset
  cases hrow : m'.symbols.find? (·.identity == identity) with
  | some row =>
    simp only [hrow] at hset
    split at hset
    · cases hset
      exact .inl ⟨row, rfl, rfl⟩
    · cases hset
  | none =>
    simp only [hrow] at hset
    split at hset
    · cases hset
      exact .inr ⟨rfl, rfl⟩
    · cases hset

/-- The owners that a write to a symbol brings are known. -/
theorem mem_known_of_owner {s : Store} {owner : Option Identity} {id : Option RowId} {o : RowId}
    (hs : s.Consistent) (h : owner.map s.identityId? = id.map some) (ho : o ∈ id) : o ∈ s.known := by
  obtain rfl := Option.mem_def.mp ho
  obtain ⟨identity, -, hid⟩ := Option.map_eq_some_iff.mp h
  exact hs.mem_known_of_identity? (hs.identity?_eq_some_iff.mpr (hs.identityId?_eq_some_iff.mp hid))

theorem keeps_insertSymbol (symbol : Symbol) : Keeps Consistent (insertSymbol symbol) := by
  intro s id s' h hs
  obtain ⟨identity, owner, hidentity, howner, ⟨row, hrow, rfl⟩ | ⟨hnone, rfl⟩⟩ :=
    eq_or_of_insertSymbol h
  · obtain ⟨hm, rfl⟩ := (find?_key_eq_some_iff hs.symbols.identities).mp hrow
    refine hs.modifySymbol (fun other ho he => ?_) (fun other ho he => ?_) fun other ho he o hmem => ?_
    · exact he.symm
    · rw [List.inj_on_of_nodup_map hs.symbols.ids ho hm he]
      rfl
    · rcases Option.or_eq_some_iff.mp hmem with hmem | ⟨-, hmem⟩
      · exact hs.symbols.owner_mem row hm o hmem
      · exact mem_known_of_owner hs howner hmem
  · refine ⟨hs.files, hs.identities, ⟨?_, ?_, ?_, ?_⟩, hs.references⟩
    · exact nodup_key_append hs.symbols.ids (nextId_notMem _)
    · exact nodup_key_append hs.symbols.identities (find?_key_eq_none_iff.mp hnone)
    · intro row hr
      rcases List.mem_append.mp hr with hr | hr
      · exact hs.symbols.identity_mem row hr
      · obtain rfl := List.mem_singleton.mp hr
        exact List.mem_map.mpr ⟨_, hs.identityId?_eq_some_iff.mp hidentity, rfl⟩
    · intro row hr o ho
      rcases List.mem_append.mp hr with hr | hr
      · exact hs.symbols.owner_mem row hr o ho
      · obtain rfl := List.mem_singleton.mp hr
        exact mem_known_of_owner (s := s) hs howner ho

theorem keeps_setSymbolName (name : String) : Keeps Consistent (setSymbolName σ name) :=
  Keeps.modify fun _ hs => hs.modifySymbol (fun _ _ _ => rfl) (fun _ _ _ => rfl)
    fun row hr _ => hs.symbols.owner_mem row hr

theorem keeps_setSymbolSignature (signature : String) :
    Keeps Consistent (setSymbolSignature σ signature) :=
  Keeps.modify fun _ hs => hs.modifySymbol (fun _ _ _ => rfl) (fun _ _ _ => rfl)
    fun row hr _ => hs.symbols.owner_mem row hr

end Symbols

/-! ### Moving symbols -/

section Moving

variable {store : Store} {σ old new : RowId} {identity : Identity}

/-- An identity is renamed, the symbol has the identity already, or a mention gives way. -/
theorem eq_or_of_moveSymbol {s s' : Store} {id : RowId} (hs : s.Consistent)
    (h : moveSymbol σ identity s = .ok (id, s')) :
    ∃ row ∈ s.symbols, row.id = σ ∧
      (s.identityId? identity = none ∧ id = row.identity ∧
          s' = s.renameIdentity row.identity identity ∨
        s.identityId? identity = some row.identity ∧ id = row.identity ∧ s' = s ∨
        s.identityId? identity = some id ∧ id ≠ row.identity ∧
          (∀ occupant ∈ s.symbols, occupant.identity = id → occupant.file = none) ∧
          s' = (s.withoutSymbolOf id).mergeIdentity σ row.identity id) := by
  have houtcome := moveOutcome_moveSymbol hs σ identity
  rw [h] at houtcome
  cases houtcome with
  | renamed hrow hσ hnew => exact ⟨_, hrow, hσ, .inl ⟨hnew, rfl, rfl⟩⟩
  | same hrow hσ hid => exact ⟨_, hrow, hσ, .inr (.inl ⟨hid, rfl, rfl⟩)⟩
  | merged hrow hσ hid hne hmention => exact ⟨_, hrow, hσ, .inr (.inr ⟨hid, hne, hmention, rfl⟩)⟩

theorem known_renameIdentity : (store.renameIdentity old identity).known = store.known :=
  map_key_map fun row _ => by split <;> rfl

/-- An identity that is not known can replace one. -/
theorem Consistent.renameIdentity (hs : store.Consistent)
    (hnew : store.identityId? identity = none) : (store.renameIdentity old identity).Consistent where
  files := hs.files
  symbols := known_renameIdentity.symm ▸ hs.symbols
  references := known_renameIdentity.symm ▸ hs.references
  identities := by
    refine ⟨(known_renameIdentity.symm ▸ hs.identities.ids :
      (store.renameIdentity old identity).known.Nodup), ?_⟩
    have hfree := identityId?_eq_none_iff.mp hnew
    refine nodup_key_update (i := old) (k := identity) hs.identities.ids hs.identities.texts
      (fun row _ => ?_) fun row hr he => absurd he (hfree row hr)
    split <;> rfl

theorem mem_known_mergeIdentity {id : RowId} :
    id ∈ (store.mergeIdentity σ old new).known ↔ id ∈ store.known ∧ id ≠ old := by
  simp only [known, mergeIdentity, List.mem_map, List.mem_filter, bne_iff_ne]
  constructor
  · rintro ⟨row, ⟨hr, hne⟩, rfl⟩
    exact ⟨⟨row, hr, rfl⟩, hne⟩
  · rintro ⟨⟨row, hr, rfl⟩, hne⟩
    exact ⟨row, ⟨hr, hne⟩, rfl⟩

/-- Where the old number was named, the new one is known. -/
theorem redirect_mem_known (hnew : new ∈ store.known) (hne : new ≠ old) {id : RowId}
    (hid : id ∈ store.known) : redirect old new id ∈ (store.mergeIdentity σ old new).known := by
  rw [mem_known_mergeIdentity, redirect]
  split
  · exact ⟨hnew, hne⟩
  · exact ⟨hid, ‹_›⟩

/-- What was known under the identity of a symbol can become known under another identity that has
no symbol. -/
theorem Consistent.mergeIdentity (hs : store.Consistent) {row : SymbolRow} (hrow : row ∈ store.symbols)
    (hfree : ∀ other ∈ store.symbols, other.identity ≠ new) (hnew : new ∈ store.known)
    (hne : new ≠ row.identity) : (store.mergeIdentity row.id row.identity new).Consistent where
  files := hs.files
  identities := ⟨nodup_key_filter _ hs.identities.ids, nodup_key_filter _ hs.identities.texts⟩
  references :=
    ⟨List.forall_mem_map.mpr fun r hr => redirect_mem_known hnew hne (hs.references.target_mem r hr),
      List.forall_mem_map.mpr fun r hr => redirect_mem_known hnew hne (hs.references.owner_mem r hr)⟩
  symbols := by
    refine ⟨?_, ?_, List.forall_mem_map.mpr fun r hr => ?_, List.forall_mem_map.mpr fun r hr => ?_⟩
    · rw [Store.mergeIdentity, map_key_map]
      · exact hs.symbols.ids
      · exact fun _ _ => rfl
    · exact nodup_key_update hs.symbols.ids hs.symbols.identities (fun _ _ => rfl)
        fun other ho he => absurd he (hfree other ho)
    · split
      · exact mem_known_mergeIdentity.mpr ⟨hnew, hne⟩
      · rename_i h
        refine mem_known_mergeIdentity.mpr ⟨hs.symbols.identity_mem r hr, fun he => h ?_⟩
        rw [List.inj_on_of_nodup_map hs.symbols.identities hr hrow he]
    · intro owner howner
      obtain ⟨o, ho, rfl⟩ := Option.map_eq_some_iff.mp howner
      exact redirect_mem_known hnew hne (hs.symbols.owner_mem r hr o ho)

theorem keeps_moveSymbol : Keeps Consistent (moveSymbol σ identity) := by
  intro s id s' h hs
  obtain ⟨row, hrow, rfl, ⟨hnone, -, rfl⟩ | ⟨-, -, rfl⟩ | ⟨hid, hne, -, rfl⟩⟩ :=
    eq_or_of_moveSymbol hs h
  · exact hs.renameIdentity hnone
  · exact hs
  · have hmem : row ∈ (s.withoutSymbolOf id).symbols := by
      refine List.mem_filter.mpr ⟨hrow, bne_iff_ne.mpr hne.symm⟩
    refine (hs.withoutSymbolOf id).mergeIdentity hmem (fun other ho => ?_) ?_ hne
    · exact bne_iff_ne.mp (List.mem_filter.mp ho).2
    · exact List.mem_map.mpr ⟨_, hs.identityId?_eq_some_iff.mp hid, rfl⟩

end Moving

/-! ### References -/

/-- A reference comes last, and its target and owner are known. -/
theorem eq_of_insertReference {reference : Reference} {s s' : Store} {id : RowId}
    (h : insertReference reference s = .ok (id, s')) :
    ∃ target owner, s.identityId? reference.target = some target ∧
      s.identityId? reference.owner = some owner ∧
      s' = { s with references := s.references ++
        [⟨nextId (s.references.map ReferenceRow.id), reference.kind, reference.file, target, owner,
          reference.location⟩] } := by
  obtain ⟨target, m, htarget, hrest⟩ := Transaction.bind_eq_ok_iff.mp h
  obtain ⟨htarget, rfl⟩ := requireIdentity_eq_ok_iff.mp htarget
  obtain ⟨owner, m', howner, hset⟩ := Transaction.bind_eq_ok_iff.mp hrest
  obtain ⟨howner, rfl⟩ := requireIdentity_eq_ok_iff.mp howner
  rw [Transaction.get_bind_apply] at hset
  split at hset
  · cases hset
    exact ⟨target, owner, htarget, howner, rfl⟩
  · cases hset

theorem keeps_insertReference (reference : Reference) :
    Keeps Consistent (insertReference reference) := by
  intro s id s' h hs
  obtain ⟨target, owner, htarget, howner, rfl⟩ := eq_of_insertReference h
  have hk {id : RowId} {identity : Identity} (h : s.identityId? identity = some id) : id ∈ s.known :=
    List.mem_map.mpr ⟨_, hs.identityId?_eq_some_iff.mp h, rfl⟩
  refine ⟨hs.files, hs.identities, hs.symbols, ⟨fun row hr => ?_, fun row hr => ?_⟩⟩
  · rcases List.mem_append.mp hr with hr | hr
    · exact hs.references.target_mem row hr
    · obtain rfl := List.mem_singleton.mp hr
      exact hk htarget
  · rcases List.mem_append.mp hr with hr | hr
    · exact hs.references.owner_mem row hr
    · obtain rfl := List.mem_singleton.mp hr
      exact hk howner

/-! ### Files -/

section Files

variable {store : Store} {id : RowId} {files : List FileRow}

/-- Only the files have to be looked at when only they change. -/
theorem Consistent.withFiles (hs : store.Consistent) (hf : FilesKeyed files) :
    Consistent { store with files } :=
  ⟨hf, hs.identities, hs.symbols, hs.references⟩

theorem Consistent.modifyFile (hs : store.Consistent) {f : FileRow → FileRow}
    (hid : ∀ file, (f file).id = file.id) (hpath : ∀ file, (f file).path = file.path) :
    (store.modifyFile id f).Consistent := by
  refine hs.withFiles (hs.files.map (fun file => ?_) fun file => ?_)
  · split
    · exact hid file
    · rfl
  · split
    · exact hpath file
    · rfl

/-- A stored file gets the content, or a new row comes last. -/
theorem eq_or_of_insertFile {path : String} {archive : Option RowId} {isDirectory : Bool}
    {content : Option Content} {s s' : Store} (h : insertFile path archive isDirectory content s =
      .ok (id, s')) :
    (∃ file, s.fileAt? path = some file ∧ id = file.id ∧
        s' = s.modifyFile file.id fun f => { f with content, isDirectory }) ∨
      s.fileAt? path = none ∧ id = nextId (s.files.map FileRow.id) ∧
        s' = { s with files := s.files ++
          [⟨id, path, SlashPath.lastSegment path, archive, isDirectory, content⟩] } := by
  rw [insertFile, Transaction.get_bind_apply] at h
  cases hfile : s.fileAt? path with
  | some file =>
    simp only [hfile] at h
    cases h
    exact .inl ⟨file, rfl, rfl, rfl⟩
  | none =>
    simp only [hfile] at h
    split at h
    · cases h
      exact .inr ⟨rfl, rfl, rfl⟩
    · cases h

theorem keeps_insertFile (path : String) (archive : Option RowId) (isDirectory : Bool)
    (content : Option Content) :
    Keeps Consistent (insertFile path archive isDirectory content) := by
  intro s id s' h hs
  obtain ⟨file, -, -, rfl⟩ | ⟨hnone, rfl, rfl⟩ := eq_or_of_insertFile h
  · exact hs.modifyFile (fun _ => rfl) fun _ => rfl
  · refine hs.withFiles ⟨?_, ?_⟩
    · exact nodup_key_append hs.files.ids (nextId_notMem _)
    · exact nodup_key_append hs.files.paths (find?_key_eq_none_iff.mp hnone)

theorem requireFile_eq_ok_iff {s : Store} {file : FileRow} :
    s.requireFile id = .ok file ↔ s.file? id = some file := by
  rw [requireFile]
  cases s.file? id <;> simp

/-- The content of a file that exists is replaced. -/
theorem eq_of_setContent {bytes : List UInt8} {s s' : Store} {u : Unit}
    (h : setContent id bytes s = .ok (u, s')) :
    (∃ file, s.file? id = some file) ∧
      s' = s.modifyFile id fun f => { f with content := some (.bytes bytes) } := by
  rw [setContent, Transaction.get_bind_apply] at h
  obtain ⟨file, m, hfile, hset⟩ := Transaction.bind_eq_ok_iff.mp h
  obtain ⟨hfound, rfl⟩ := Transaction.lift_eq_ok_iff.mp hfile
  cases hset
  exact ⟨⟨_, requireFile_eq_ok_iff.mp hfound⟩, rfl⟩

theorem keeps_setContent (bytes : List UInt8) : Keeps Consistent (setContent id bytes) := by
  intro s u s' h hs
  obtain ⟨-, rfl⟩ := eq_of_setContent h
  exact hs.modifyFile (fun _ => rfl) fun _ => rfl

/-- A file that exists gets a path that no other file has. -/
theorem eq_of_renameFile {name : String} {renamed : FileRow} {s s' : Store}
    (h : renameFile id name s = .ok (renamed, s')) :
    ∃ file, s.file? id = some file ∧
      renamed = { file with path := SlashPath.withLastSegment file.path name, name } ∧
      (∀ other ∈ s.files, other.path = renamed.path → other.id = id) ∧
      s' = s.modifyFile id fun f => { f with path := renamed.path, name } := by
  rw [renameFile, Transaction.get_bind_apply] at h
  obtain ⟨file, m, hfile, hset⟩ := Transaction.bind_eq_ok_iff.mp h
  obtain ⟨hfound, rfl⟩ := Transaction.lift_eq_ok_iff.mp hfile
  split at hset
  · cases hset
  · rename_i hfree
    cases hset
    refine ⟨_, requireFile_eq_ok_iff.mp hfound, rfl, fun other ho hp => ?_, rfl⟩
    by_contra hne
    exact hfree (List.any_eq_true.mpr ⟨other, ho, by simp [hne, hp]⟩)

theorem keeps_renameFile (name : String) : Keeps Consistent (renameFile id name) := by
  intro s renamed s' h hs
  obtain ⟨file, hfile, -, hfree, rfl⟩ := eq_of_renameFile h
  refine hs.withFiles ⟨?_, ?_⟩
  · rw [map_key_map]
    · exact hs.files.ids
    · intro row _
      split <;> rfl
  · refine nodup_key_update hs.files.ids hs.files.paths (fun row _ => ?_) hfree
    split <;> rfl

theorem keeps_deleteFile : Keeps Consistent (deleteFile id) :=
  Keeps.modify fun _ hs =>
    ⟨hs.files.filter _, hs.identities, hs.symbols.filter _, hs.references.filter _⟩

theorem keeps_clearMappings : Keeps Consistent (clearMappings id) := by
  refine Keeps.modify fun s hs => ⟨hs.files, hs.identities, ?_, hs.references.filter _⟩
  refine hs.symbols.map (fun row _ => ?_) (fun row _ => ?_) fun row hr => ?_
  · split <;> rfl
  · split <;> rfl
  · split
    · exact hs.symbols.owner_mem row hr
    · exact hs.symbols.owner_mem row hr

end Files

end ClassAtlas.Store
