import Mathlib
import ClassAtlas.Store.Files
import ClassAtlas.Store.References

/-!
# The rules of the tables

The tables keep some rules: numbers and keys are not repeated, an identity has at most one symbol, and
symbols and references name only identities that exist. So a row is found under each of its keys, and
it is the only one.

## Main definitions

* `ClassAtlas.Store.Consistent` — the rules, table by table.

## Main results

* `ClassAtlas.find?_key_eq_some_iff` — looking a key up among rows with different keys.
* `ClassAtlas.nodup_key_update` — giving a row another key.
* `ClassAtlas.Store.Consistent.identity?_eq_some_iff`, `identityId?_eq_some_iff` — looking identities
  up.
* `ClassAtlas.Store.nextId_notMem` — a new number is new.
-/

set_option autoImplicit false

namespace ClassAtlas

/-! ### Rows with keys -/

section Keys

variable {α β : Type} {key : α → β} {rows : List α} {row : α} {k : β}

/-- If no two rows share a key, looking a key up finds the row that has it. -/
theorem find?_key_eq_some_iff [BEq β] [LawfulBEq β] (h : (rows.map key).Nodup) :
    rows.find? (fun row => key row == k) = some row ↔ row ∈ rows ∧ key row = k := by
  constructor
  · intro hf
    exact ⟨List.mem_of_find?_eq_some hf, by simpa using List.find?_some hf⟩
  · rintro ⟨hm, rfl⟩
    obtain ⟨found, hf⟩ := Option.isSome_iff_exists.mp
      (List.find?_isSome (p := fun other => key other == key row).mpr ⟨row, hm, by simp⟩)
    have hk : key found = key row := by simpa using List.find?_some hf
    rw [hf, List.inj_on_of_nodup_map h (List.mem_of_find?_eq_some hf) hm hk]

/-- Looking a key up finds nothing if and only if no row has it. -/
theorem find?_key_eq_none_iff [BEq β] [LawfulBEq β] :
    rows.find? (fun row => key row == k) = none ↔ k ∉ rows.map key := by
  simp [List.find?_eq_none]

/-- Rows keep their keys when they are changed otherwise. -/
theorem map_key_map {f : α → α} (hf : ∀ row ∈ rows, key (f row) = key row) :
    (rows.map f).map key = rows.map key := by
  rw [List.map_map]
  exact List.map_congr_left hf

theorem nodup_key_append (h : (rows.map key).Nodup) (hn : key row ∉ rows.map key) :
    ((rows ++ [row]).map key).Nodup := by
  rw [List.map_append]
  exact h.append (List.nodup_singleton _) (by simpa using hn)

theorem nodup_key_filter (p : α → Bool) (h : (rows.map key).Nodup) :
    ((rows.filter p).map key).Nodup :=
  h.sublist (List.filter_sublist.map key)

/-- The row with a number can get a key that no other row has. -/
theorem nodup_key_update {number : α → RowId} {i : RowId} {f : α → α}
    (hnumbers : (rows.map number).Nodup) (hkeys : (rows.map key).Nodup)
    (hf : ∀ row ∈ rows, key (f row) = if number row = i then k else key row)
    (hfree : ∀ row ∈ rows, key row = k → number row = i) : ((rows.map f).map key).Nodup := by
  rw [List.map_map]
  refine hnumbers.of_map.map_on fun a ha b hb he => ?_
  rw [Function.comp_apply, Function.comp_apply, hf a ha, hf b hb] at he
  split at he <;> split at he
  · rename_i hi hj
    exact List.inj_on_of_nodup_map hnumbers ha hb (hi.trans hj.symm)
  · exact absurd (hfree b hb he.symm) ‹_›
  · exact absurd (hfree a ha he) ‹_›
  · exact List.inj_on_of_nodup_map hkeys ha hb he

end Keys

namespace Store

/-! ### New numbers -/

theorem le_foldl_max (ids : List RowId) (start : RowId) :
    start ≤ ids.foldl max start ∧ ∀ id ∈ ids, id ≤ ids.foldl max start := by
  induction ids generalizing start with
  | nil => simp
  | cons id ids ih =>
    obtain ⟨hs, hi⟩ := ih (max start id)
    refine ⟨le_trans (le_max_left _ _) hs, fun other ho => ?_⟩
    rcases List.mem_cons.mp ho with rfl | ho
    · exact le_trans (le_max_right _ _) hs
    · exact hi other ho

/-- A new number is larger than every number in use. -/
theorem nextId_notMem (ids : List RowId) : nextId ids ∉ ids := by
  intro h
  have hle : nextId ids ≤ ids.foldl max 0 := (le_foldl_max ids 0).2 _ h
  exact (Int.lt_succ (ids.foldl max 0)).not_ge hle

/-! ### The rules -/

/-- The files have different numbers and different paths. -/
structure FilesKeyed (files : List FileRow) : Prop where
  /-- No number is repeated. -/
  ids : (files.map FileRow.id).Nodup
  /-- No path is repeated. -/
  paths : (files.map FileRow.path).Nodup

/-- The identities have different numbers and different texts. -/
structure IdentitiesKeyed (identities : List IdentityRow) : Prop where
  /-- No number is repeated. -/
  ids : (identities.map IdentityRow.id).Nodup
  /-- No identity is repeated. -/
  texts : (identities.map IdentityRow.identity).Nodup

/-- The symbols have different numbers and different identities, and their identities and those of
their owners have known numbers. -/
structure SymbolsLinked (known : List RowId) (symbols : List SymbolRow) : Prop where
  /-- No number is repeated. -/
  ids : (symbols.map SymbolRow.id).Nodup
  /-- An identity has at most one symbol. -/
  identities : (symbols.map SymbolRow.identity).Nodup
  /-- Every symbol has an identity. -/
  identity_mem : ∀ row ∈ symbols, row.identity ∈ known
  /-- Every owner has an identity. -/
  owner_mem : ∀ row ∈ symbols, ∀ owner ∈ row.owner, owner ∈ known

/-- The targets and owners of references have known numbers. -/
structure ReferencesLinked (known : List RowId) (references : List ReferenceRow) : Prop where
  /-- Every target has an identity. -/
  target_mem : ∀ row ∈ references, row.target ∈ known
  /-- Every owner has an identity. -/
  owner_mem : ∀ row ∈ references, row.owner ∈ known

/-- The numbers of the identities of a store. -/
def known (store : Store) : List RowId :=
  store.identities.map IdentityRow.id

/-- The rules that the tables of a store keep. -/
structure Consistent (store : Store) : Prop where
  /-- The rules of the files. -/
  files : FilesKeyed store.files
  /-- The rules of the identities. -/
  identities : IdentitiesKeyed store.identities
  /-- The rules of the symbols. -/
  symbols : SymbolsLinked store.known store.symbols
  /-- The rules of the references. -/
  references : ReferencesLinked store.known store.references

theorem consistent_empty : Consistent Store.empty where
  files := ⟨List.nodup_nil, List.nodup_nil⟩
  identities := ⟨List.nodup_nil, List.nodup_nil⟩
  symbols := ⟨List.nodup_nil, List.nodup_nil, by simp [Store.empty], by simp [Store.empty]⟩
  references := ⟨by simp [Store.empty], by simp [Store.empty]⟩

/-! ### Looking up -/

namespace Consistent

variable {store : Store} {id : RowId} {identity : Identity}

theorem identity?_eq_some_iff (h : store.Consistent) :
    store.identity? id = some identity ↔ IdentityRow.mk id identity ∈ store.identities := by
  rw [identity?, Option.map_eq_some_iff]
  constructor
  · rintro ⟨⟨_, _⟩, hf, rfl⟩
    obtain ⟨hm, rfl⟩ := (find?_key_eq_some_iff h.identities.ids).mp hf
    exact hm
  · exact fun hm => ⟨_, (find?_key_eq_some_iff h.identities.ids).mpr ⟨hm, rfl⟩, rfl⟩

theorem identityId?_eq_some_iff (h : store.Consistent) :
    store.identityId? identity = some id ↔ IdentityRow.mk id identity ∈ store.identities := by
  rw [identityId?, Option.map_eq_some_iff]
  constructor
  · rintro ⟨⟨_, _⟩, hf, rfl⟩
    obtain ⟨hm, rfl⟩ := (find?_key_eq_some_iff h.identities.texts).mp hf
    exact hm
  · exact fun hm => ⟨_, (find?_key_eq_some_iff h.identities.texts).mpr ⟨hm, rfl⟩, rfl⟩

theorem identityId?_eq_none_iff :
    store.identityId? identity = none ↔ ∀ row ∈ store.identities, row.identity ≠ identity := by
  rw [identityId?, Option.map_eq_none_iff, find?_key_eq_none_iff]
  simp

/-- Every known number has an identity. -/
theorem exists_identity? (h : store.Consistent) (hid : id ∈ store.known) :
    ∃ identity, store.identity? id = some identity := by
  obtain ⟨row, hm, rfl⟩ := List.mem_map.mp hid
  exact ⟨row.identity, h.identity?_eq_some_iff.mpr hm⟩

theorem mem_known_of_identity? (h : store.Consistent) (hid : store.identity? id = some identity) :
    id ∈ store.known :=
  List.mem_map.mpr ⟨_, h.identity?_eq_some_iff.mp hid, rfl⟩

/-- Two numbers of one identity are the same. -/
theorem eq_of_identity? (h : store.Consistent) {id' : RowId} (hid : store.identity? id = some identity)
    (hid' : store.identity? id' = some identity) : id = id' := by
  have he := List.inj_on_of_nodup_map h.identities.texts (h.identity?_eq_some_iff.mp hid)
    (h.identity?_eq_some_iff.mp hid') rfl
  exact congrArg IdentityRow.id he

end Consistent

/-! ### Changes of one table -/

section Tables

variable {known known' : List RowId} {files : List FileRow} {symbols : List SymbolRow}
  {references : List ReferenceRow}

theorem FilesKeyed.map (h : FilesKeyed files) {f : FileRow → FileRow}
    (hid : ∀ row, (f row).id = row.id) (hpath : ∀ row, (f row).path = row.path) :
    FilesKeyed (files.map f) :=
  ⟨(map_key_map fun row _ => hid row).symm ▸ h.ids,
    (map_key_map fun row _ => hpath row).symm ▸ h.paths⟩

theorem FilesKeyed.filter (h : FilesKeyed files) (p : FileRow → Bool) :
    FilesKeyed (files.filter p) :=
  ⟨nodup_key_filter p h.ids, nodup_key_filter p h.paths⟩

theorem SymbolsLinked.map (h : SymbolsLinked known symbols) {f : SymbolRow → SymbolRow}
    (hid : ∀ row ∈ symbols, (f row).id = row.id)
    (hidentity : ∀ row ∈ symbols, (f row).identity = row.identity)
    (howner : ∀ row ∈ symbols, ∀ owner ∈ (f row).owner, owner ∈ known) :
    SymbolsLinked known (symbols.map f) where
  ids := (map_key_map hid).symm ▸ h.ids
  identities := (map_key_map hidentity).symm ▸ h.identities
  identity_mem := List.forall_mem_map.mpr fun row hr => hidentity row hr ▸ h.identity_mem row hr
  owner_mem := List.forall_mem_map.mpr howner

theorem SymbolsLinked.filter (h : SymbolsLinked known symbols) (p : SymbolRow → Bool) :
    SymbolsLinked known (symbols.filter p) where
  ids := nodup_key_filter p h.ids
  identities := nodup_key_filter p h.identities
  identity_mem row hr := h.identity_mem row (List.mem_of_mem_filter hr)
  owner_mem row hr := h.owner_mem row (List.mem_of_mem_filter hr)

theorem SymbolsLinked.mono (h : SymbolsLinked known symbols) (hk : known ⊆ known') :
    SymbolsLinked known' symbols :=
  ⟨h.ids, h.identities, fun row hr => hk (h.identity_mem row hr),
    fun row hr owner ho => hk (h.owner_mem row hr owner ho)⟩

theorem ReferencesLinked.filter (h : ReferencesLinked known references) (p : ReferenceRow → Bool) :
    ReferencesLinked known (references.filter p) :=
  ⟨fun row hr => h.target_mem row (List.mem_of_mem_filter hr),
    fun row hr => h.owner_mem row (List.mem_of_mem_filter hr)⟩

theorem ReferencesLinked.mono (h : ReferencesLinked known references) (hk : known ⊆ known') :
    ReferencesLinked known' references :=
  ⟨fun row hr => hk (h.target_mem row hr), fun row hr => hk (h.owner_mem row hr)⟩

end Tables

end Store

end ClassAtlas
