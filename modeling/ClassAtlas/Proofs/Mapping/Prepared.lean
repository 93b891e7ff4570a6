import ClassAtlas.Proofs.Mapping.Stored

/-!
# How a job starts

A job starts by forgetting what was found in its files before: the uses by them, and the declarations in
them. Everything else stays. What the job finds in them now depends on the files alone.

## Main definitions

* `ClassAtlas.Store.Cleared` — a store before and after files were forgotten.
* `ClassAtlas.Store.found` — what the job of a file finds.
* `ClassAtlas.Store.Rooted` — a store in which every identity belongs to a symbol.

## Main results

* `ClassAtlas.Store.exists_prepare`, `ClassAtlas.Index.exists_prepare` — a job starts, whatever is known
  of its files.
* `ClassAtlas.Store.exists_symbol_of_found` — what a job comes across belongs to a symbol.
-/

set_option autoImplicit false

namespace ClassAtlas

namespace Store

variable {s s' s'' : Store} {gone gone' : RowId → Prop} {id : RowId} {t : Identity} {file : FileRow}
  {d : Declaration}

/-! ### Forgetting -/

/-- A store before and after what was found in some files was forgotten. -/
structure Cleared (gone : RowId → Prop) (s s' : Store) : Prop where
  /-- The files stay. -/
  files : s'.files = s.files
  /-- The identities stay. -/
  identities : s'.identities = s.identities
  /-- The symbols keep their identities. -/
  symbols : s'.symbols.map SymbolRow.identity = s.symbols.map SymbolRow.identity
  /-- No use by these files is known. -/
  dropped : ∀ id, gone id → s'.usesIn id = []
  /-- The other uses stay. -/
  kept : ∀ id, ¬gone id → s'.usesIn id = s.usesIn id
  /-- The declarations in other files stay. -/
  declared : ∀ t d, s'.declaration? t = some d ↔ s.declaration? t = some d ∧ ¬gone d.file

theorem Cleared.refl : s.Cleared (fun _ => False) s :=
  ⟨rfl, rfl, rfl, fun _ h => h.elim, fun _ _ => rfl, by simp⟩

theorem Cleared.trans (h : s.Cleared gone s') (h' : s'.Cleared gone' s'') :
    s.Cleared (fun id => gone id ∨ gone' id) s'' where
  files := h'.files.trans h.files
  identities := h'.identities.trans h.identities
  symbols := h'.symbols.trans h.symbols
  dropped id hid := by
    by_cases hlater : gone' id
    · exact h'.dropped id hlater
    · rw [h'.kept id hlater, h.dropped id (hid.resolve_right hlater)]
  kept id hid := by
    rw [not_or] at hid
    rw [h'.kept id hid.2, h.kept id hid.1]
  declared t d := by rw [h'.declared, h.declared, not_or, and_assoc]

theorem Cleared.congr (h : s.Cleared gone s') (hg : ∀ id, gone id ↔ gone' id) :
    s.Cleared gone' s' := by
  obtain rfl : gone = gone' := funext fun id => propext (hg id)
  exact h

open Transaction (Keeps bind_eq_ok_iff bind_apply_of_eq_ok)

/-- Forgetting what was found in a file. -/
theorem cleared_clearMappings (hs : s.Mappable) (id : RowId) :
    ∃ s', clearMappings id s = .ok ((), s') ∧ s'.Mappable ∧ s.Cleared (· = id) s' := by
  refine ⟨_, rfl, ?_⟩
  have hkeeps : Keeps Consistent (clearMappings id) := keeps_clearMappings
  have hc := hkeeps _ _ _ rfl hs.consistent
  refine ⟨⟨hc, ?_, ?_⟩, rfl, rfl, ?_, fun other hother => ?_, fun other hother => ?_, fun t d => ?_⟩
  · rw [isHome_congr rfl]
    refine List.forall_mem_map.mpr fun row hr => ?_
    split
    · simp
    · exact hs.homes row hr
  · exact hs.ascending.sublist (List.filter_sublist.map _)
  · exact map_key_map fun row _ => by split <;> rfl
  · simp [usesIn, referencesIn, List.filter_filter, hother]
  · have hfilter : (s.references.filter (·.file != id)).filter (·.file == other) =
        s.references.filter (·.file == other) := by
      rw [List.filter_filter]
      refine List.filter_congr fun row _ => ?_
      by_cases he : row.file = other
      · simp [he, hother]
      · simp [he]
    rw [usesIn, usesIn, referencesIn, referencesIn, hfilter]
    rfl
  · rw [hs.consistent.declaration?_eq_some_iff, hc.declaration?_eq_some_iff]
    constructor
    · rintro ⟨_, hr', htext, hd⟩
      obtain ⟨row, hr, rfl⟩ := List.mem_map.mp hr'
      split at hd
      · simp [SymbolRow.declaration?] at hd
      · rename_i hne
        rw [if_neg hne] at htext
        refine ⟨⟨row, hr, htext, hd⟩, fun he => hne ?_⟩
        obtain ⟨file, hfile, rfl⟩ := Option.map_eq_some_iff.mp hd
        exact hfile.trans (congrArg some he)
    · rintro ⟨⟨row, hr, htext, hd⟩, hne⟩
      obtain ⟨file, hfile, rfl⟩ := Option.map_eq_some_iff.mp hd
      have hne : row.file ≠ some id := fun he => hne (Option.some.inj (hfile.symm.trans he))
      refine ⟨_, List.mem_map_of_mem hr, ?_⟩
      rw [if_neg hne]
      exact ⟨htext, hd⟩

theorem cleared_forM_clearMappings (hs : s.Mappable) (files : List FileRow) :
    ∃ s', (files.forM fun f => clearMappings f.id) s = .ok ((), s') ∧ s'.Mappable ∧
      s.Cleared (· ∈ files.map FileRow.id) s' := by
  induction files generalizing s with
  | nil => exact ⟨s, rfl, hs, Cleared.refl.congr (by simp)⟩
  | cons file files ih =>
    obtain ⟨s₁, hfirst, hs₁, hcleared⟩ := cleared_clearMappings hs file.id
    obtain ⟨s₂, hrest, hs₂, hcleared'⟩ := ih hs₁
    refine ⟨s₂, bind_eq_ok_iff.mpr ⟨(), s₁, hfirst, hrest⟩, hs₂, ?_⟩
    exact (hcleared.trans hcleared').congr (by simp [eq_comm])

/-- A job starts by forgetting what was found in its files. -/
theorem exists_prepare (hs : s.Mappable) (file : FileRow) :
    ∃ s', Mapping.prepare file s = .ok (s.walkedFor file, s') ∧ s'.Mappable ∧
      s.Cleared (s.Forgets file) s' := by
  obtain ⟨s₁, hfirst, hs₁, hcleared⟩ := cleared_clearMappings hs file.id
  obtain ⟨s₂, hrest, hs₂, hcleared'⟩ := cleared_forM_clearMappings hs₁ (s.entriesOf file.id)
  refine ⟨s₂, ?_, hs₂, (hcleared.trans hcleared').congr (by simp [Forgets, eq_comm])⟩
  rw [Mapping.prepare, Transaction.get_bind_apply]
  exact bind_eq_ok_iff.mpr ⟨(), s₁, hfirst, bind_eq_ok_iff.mpr ⟨(), s₂, hrest, rfl⟩⟩

/-! ### Jobs -/

/-- What the job of a file finds. -/
def found (store : Store) (file : FileRow) : List Event :=
  (store.walkedFor file).flatMap (·.findings.1)

/-- What a job finds, it finds in the files over which it walks. -/
theorem exists_of_mem_found {event : Event} (h : event ∈ s.found file) :
    ∃ f ∈ s.walkedFor file, event ∈ f.findings.1 ∧ ∀ id ∈ event.file?, id = f.id := by
  obtain ⟨f, hf, he⟩ := List.mem_flatMap.mp h
  exact ⟨f, hf, he, (f.resolvable_findings.follows he).file?_eq⟩

/-- No use by another file is found in a file. -/
theorem filterMap_useIn?_findings_eq_nil {f : FileRow} (h : f.id ≠ id) :
    f.findings.1.filterMap (Event.useIn? id) = [] := by
  refine List.filterMap_eq_nil_iff.mpr fun event he => Option.eq_none_iff_forall_ne_some.mpr
    fun value huse => h ?_
  exact ((f.resolvable_findings.follows he).file?_eq _ (Event.file_mem_of_useIn? huse)).symm

/-- The files of a job have different numbers. -/
theorem Consistent.nodup_walkedFor (hc : s.Consistent) (file : FileRow) :
    ((s.walkedFor file).map FileRow.id).Nodup := by
  rw [walkedFor]
  split
  · exact List.nodup_singleton _
  · exact nodup_key_filter _ hc.files.ids

/-- Every identity that a job comes across belongs to a symbol that it comes across. -/
theorem exists_symbol_of_found {event : Event} (h : event ∈ s.found file)
    (hi : t ∈ Job.named event) : ∃ value, .symbol value ∈ s.found file ∧ value.identity = t := by
  obtain ⟨f, hf, he, -⟩ := exists_of_mem_found h
  obtain ⟨value, hmem, hv⟩ := (f.resolvable_findings.follows he).exists_symbol hi
  rw [List.append_nil] at hmem
  refine ⟨value, List.mem_flatMap.mpr ⟨f, hf, ?_⟩, hv⟩
  rcases List.mem_cons.mp hmem with hmem | hmem
  · exact hmem ▸ he
  · exact hmem

/-- Every identity belongs to a symbol. -/
def Rooted (store : Store) : Prop :=
  ∀ row ∈ store.identities, row.id ∈ store.symbols.map SymbolRow.identity

instance (store : Store) (file : FileRow) (id : RowId) : Decidable (store.Forgets file id) :=
  inferInstanceAs (Decidable (id ∈ (file :: store.entriesOf file.id).map FileRow.id))

end Store

/-- A job starts, and nothing else than what was found in its files is lost. -/
theorem Index.exists_prepare {index : Index} (hs : index.store.Mappable)
    (file : FileRow) : ∃ index', Index.transact (Mapping.prepare file) index =
      (.ok (index.store.walkedFor file), index') ∧ index'.store.Mappable ∧
      index.store.Cleared (index.store.Forgets file) index'.store ∧ index.store.Gains index'.store := by
  obtain ⟨s', hprepare, hs', hcleared⟩ := Store.exists_prepare hs file
  exact ⟨⟨s', index.cache⟩, Index.transact_of_eq_ok hprepare, hs', hcleared,
    (Mapping.gains_of_prepare hs.consistent hprepare).2.2⟩

end ClassAtlas
