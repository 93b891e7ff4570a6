import ClassAtlas.Proofs.Mapping.Runs

/-!
# What stays and what comes

What a mapping run does to the tables takes no file, no identity and no symbol away: a symbol that is
stored once stays. What is recorded of a file is in the store.

## Main definitions

* `ClassAtlas.Store.Gains` — a change of the store that takes no file, identity or symbol away.
* `ClassAtlas.FileRow.IsWhole` — a file that is walked over to its end.
* `ClassAtlas.FileRow.Recorded` — a file whose findings are in the store.
* `ClassAtlas.Store.walkedFor`, `ClassAtlas.Store.Forgets` — the files of a job.
* `ClassAtlas.Store.IsWalked` — the files over which a run for all files walks.

## Main results

* `ClassAtlas.Mapping.gains_of_storing` — the symbols of a slice are stored.
* `ClassAtlas.Mapping.gains_of_prepare` — what is there when a job starts stays.
* `ClassAtlas.Store.eq_of_forgets` — the jobs of different files forget different files.
-/

set_option autoImplicit false

namespace ClassAtlas

/-! ### What is gained -/

namespace Store

variable {s s' s'' : Store}

/-- A change that keeps the files, every identity, and a row for every symbol. -/
structure Gains (s s' : Store) : Prop where
  /-- The files stay. -/
  files : s'.files = s.files
  /-- Every identity keeps its number. -/
  identities : s.identities ⊆ s'.identities
  /-- Every identity with a symbol still has one. -/
  symbols : ∀ row ∈ s.symbols, ∃ row' ∈ s'.symbols, row'.identity = row.identity

theorem Gains.refl : s.Gains s :=
  ⟨rfl, fun _ h => h, fun row hr => ⟨row, hr, rfl⟩⟩

theorem Gains.trans (h : s.Gains s') (h' : s'.Gains s'') : s.Gains s'' where
  files := h'.files.trans h.files
  identities := List.Subset.trans h.identities h'.identities
  symbols row hr := by
    obtain ⟨row', hr', he⟩ := h.symbols row hr
    obtain ⟨row'', hr'', he'⟩ := h'.symbols row' hr'
    exact ⟨row'', hr'', he'.trans he⟩

/-- What was found under a number is still found under it. -/
theorem Gains.identity? (h : s.Gains s') (hc : s.Consistent) (hc' : s'.Consistent) {id : RowId}
    {identity : Identity} (hid : s.identity? id = some identity) : s'.identity? id = some identity :=
  hc'.identity?_eq_some_iff.mpr (h.identities (hc.identity?_eq_some_iff.mp hid))

/-! ### Events -/

/-- The symbol or the reference of an event is in the store. -/
def Records (store : Store) : Event → Prop
  | .identifier _ => True
  | .symbol value => ∃ row ∈ store.symbols, store.identity? row.identity = some value.identity
  | .reference value => ∃ row ∈ store.references, store.showReference? row = some ⟨row.id, value⟩

/-- A row is shown as it is, with the texts of its identities. -/
theorem showReference?_eq_some_iff {row : ReferenceRow} {shown : StoredReference} :
    s.showReference? row = some shown ↔
      ∃ target owner, s.identity? row.target = some target ∧ s.identity? row.owner = some owner ∧
        shown = ⟨row.id, ⟨row.kind, row.file, target, owner, row.location⟩⟩ := by
  simp only [showReference?, Option.bind_eq_bind, Option.bind_eq_some_iff]
  constructor
  · rintro ⟨target, ht, owner, ho, he⟩
    exact ⟨target, owner, ht, ho, (Option.some.inj he).symm⟩
  · rintro ⟨target, owner, ht, ho, rfl⟩
    exact ⟨target, ht, owner, ho, rfl⟩

/-- A symbol that is stored stays. -/
theorem Gains.records (h : s.Gains s') (hc : s.Consistent) (hc' : s'.Consistent) {symbol : Symbol}
    (hsymbol : s.Records (.symbol symbol)) : s'.Records (.symbol symbol) := by
  obtain ⟨row, hr, hid⟩ := hsymbol
  obtain ⟨row', hr', hrow⟩ := h.symbols row hr
  exact ⟨row', hr', hrow ▸ h.identity? hc hc' hid⟩

/-! ### Changes -/

open Transaction (Keeps bind_eq_ok_iff)

theorem gains_of_internIdentity {identity : Identity} {id : RowId}
    (h : internIdentity identity s = .ok (id, s')) : s.Gains s' := by
  obtain ⟨-, rfl⟩ | ⟨-, -, rfl⟩ := eq_or_of_internIdentity h
  · exact .refl
  · exact { (Gains.refl : s.Gains s) with identities := List.subset_append_left _ _ }

/-- A number that an identity is known under shows the identity. -/
theorem Consistent.identity?_of_identityId? (hc : s.Consistent) {id : RowId} {identity : Identity}
    (h : s.identityId? identity = some id) : s.identity? id = some identity :=
  hc.identity?_eq_some_iff.mpr (hc.identityId?_eq_some_iff.mp h)

/-- Declaring or mentioning a symbol. -/
theorem gains_of_insertSymbol {symbol : Symbol} {id : RowId} (hc : s.Consistent)
    (h : insertSymbol symbol s = .ok (id, s')) : s.Gains s' ∧ s'.Records (.symbol symbol) := by
  obtain ⟨identity, owner, hidentity, -, ⟨row, hrow, rfl⟩ | ⟨-, rfl⟩⟩ := eq_or_of_insertSymbol h
  · obtain ⟨hm, rfl⟩ := (find?_key_eq_some_iff hc.symbols.identities).mp hrow
    -- the merged row keeps its identity, and so does every other row
    have hmerged (incoming : SymbolRow) : ∀ other ∈ s.symbols,
        (if other.id = row.id then mergeSymbol row incoming else other).identity = other.identity := by
      intro other ho
      split
      · rename_i he
        rw [List.inj_on_of_nodup_map hc.symbols.ids ho hm he]
        rfl
      · rfl
    refine ⟨{ (Gains.refl : s.Gains s) with symbols := fun other ho => ?_ }, ?_⟩
    · exact ⟨_, List.mem_map_of_mem ho, hmerged _ other ho⟩
    · refine ⟨_, List.mem_map_of_mem hm, ?_⟩
      exact (hmerged _ row hm).symm ▸ hc.identity?_of_identityId? hidentity
  · refine ⟨{ (Gains.refl : s.Gains s) with symbols := fun other ho => ?_ }, ?_⟩
    · exact ⟨other, List.mem_append_left _ ho, rfl⟩
    · refine ⟨_, List.mem_append_right _ (List.mem_singleton.mpr rfl), ?_⟩
      exact hc.identity?_of_identityId? hidentity

/-- Recording a use. -/
theorem gains_of_insertReference {reference : Reference} {id : RowId}
    (h : insertReference reference s = .ok (id, s')) : s.Gains s' := by
  obtain ⟨_, _, -, -, rfl⟩ := eq_of_insertReference h
  exact ⟨rfl, fun _ hr => hr, fun row hr => ⟨row, hr, rfl⟩⟩

/-- Forgetting what was found in a file. -/
theorem gains_of_clearMappings {id : RowId} {u : Unit} (h : clearMappings id s = .ok (u, s')) :
    s.Gains s' := by
  cases h
  refine ⟨rfl, fun _ hr => hr, fun row hr => ⟨_, List.mem_map_of_mem hr, ?_⟩⟩
  split <;> rfl

/-! ### Slices -/

theorem gains_of_applyEvent {event : Event} {u : Unit} (hc : s.Consistent)
    (h : applyEvent event s = .ok (u, s')) :
    s'.Consistent ∧ s.Gains s' ∧ ∀ symbol, event = .symbol symbol → s'.Records (.symbol symbol) := by
  cases event with
  | identifier identity =>
    cases h
    exact ⟨hc, .refl, fun _ he => nomatch he⟩
  | symbol value =>
    obtain ⟨id, s₁, hinsert, hend⟩ := bind_eq_ok_iff.mp h
    cases hend
    obtain ⟨hgains, hsymbol⟩ := gains_of_insertSymbol hc hinsert
    exact ⟨keeps_insertSymbol value _ _ _ hinsert hc, hgains, fun _ he => Event.symbol.inj he ▸ hsymbol⟩
  | reference value =>
    obtain ⟨id, s₁, hinsert, hend⟩ := bind_eq_ok_iff.mp h
    cases hend
    exact ⟨keeps_insertReference value _ _ _ hinsert hc, gains_of_insertReference hinsert,
      fun _ he => nomatch he⟩

/-- What is stored stays while more events are stored. -/
theorem gains_of_forM_applyEvent {events : List Event} {u : Unit} (hc : s.Consistent)
    (h : events.forM applyEvent s = .ok (u, s')) :
    s'.Consistent ∧ s.Gains s' ∧ ∀ symbol, .symbol symbol ∈ events → s'.Records (.symbol symbol) := by
  induction events generalizing s with
  | nil =>
    cases h
    exact ⟨hc, .refl, fun _ hmem => nomatch hmem⟩
  | cons event events ih =>
    obtain ⟨_, s₁, hfirst, hrest⟩ := bind_eq_ok_iff.mp h
    obtain ⟨hc₁, hgains, hevent⟩ := gains_of_applyEvent hc hfirst
    obtain ⟨hc', hgains', hevents⟩ := ih hc₁ hrest
    refine ⟨hc', hgains.trans hgains', fun symbol hmem => ?_⟩
    rcases List.mem_cons.mp hmem with he | hmem
    · exact hgains'.records hc₁ hc' (hevent symbol he.symm)
    · exact hevents symbol hmem

theorem gains_of_applyEvents {events : List Event} {numbers : List (Identity × RowId)}
    (hc : s.Consistent) (h : applyEvents events s = .ok (numbers, s')) :
    s'.Consistent ∧ s.Gains s' ∧ ∀ symbol, .symbol symbol ∈ events → s'.Records (.symbol symbol) := by
  have hkeeps (identity : Identity) : Keeps (fun t => t.Consistent ∧ s.Gains t)
      (do return (identity, ← internIdentity identity)) := by
    intro t a t' ht hstart
    obtain ⟨id, t₁, hintern, hend⟩ := bind_eq_ok_iff.mp ht
    cases hend
    exact ⟨keeps_internIdentity identity _ _ _ hintern hstart.1,
      hstart.2.trans (gains_of_internIdentity hintern)⟩
  obtain ⟨_, s₁, hinterned, hrest⟩ := bind_eq_ok_iff.mp h
  obtain ⟨_, s₂, hevents, hend⟩ := bind_eq_ok_iff.mp hrest
  cases hend
  obtain ⟨hc₁, hgains⟩ := Keeps.mapM _ (fun identity _ => hkeeps identity) _ _ _ hinterned ⟨hc, .refl⟩
  obtain ⟨hc', hgains', hrecords⟩ := gains_of_forM_applyEvent hc₁ hevents
  exact ⟨hc', hgains.trans hgains', hrecords⟩

end Store

namespace Mapping

open Store

variable {index index' : Index} {events : List Event}

theorem gains_of_storing (hc : index.store.Consistent) (h : storing events index = .ok index') :
    index'.store.Consistent ∧ index.store.Gains index'.store ∧
      ∀ symbol, .symbol symbol ∈ events → index'.store.Records (.symbol symbol) := by
  obtain ⟨numbers, happly, -⟩ := storing_eq_ok_iff.mp h
  exact gains_of_applyEvents hc happly

end Mapping

/-! ### Files -/

/-- The walk over a file reached its end, or there was nothing to walk over. -/
def FileRow.IsWhole (file : FileRow) : Prop :=
  file.findings.2 = .mapped ∨ file.findings.2 = .empty

/-- What mapping finds in a file is in the store. -/
structure FileRow.Recorded (store : Store) (file : FileRow) : Prop where
  /-- The file was walked over to its end. -/
  whole : file.IsWhole
  /-- The symbols that it came across and the uses by the file are stored. -/
  records : ∀ event ∈ file.findings.1,
    (∀ value, event = .reference value → value.file = file.id) → store.Records event

namespace Store

variable {s s' : Store} {file other f : FileRow}

theorem Gains.entriesOf (h : s.Gains s') (id : RowId) : s'.entriesOf id = s.entriesOf id := by
  rw [Store.entriesOf, Store.entriesOf, h.files]

/-- The files over which the job of a file walks: its entries, or the file if it has none. -/
def walkedFor (store : Store) (file : FileRow) : List FileRow :=
  if (store.entriesOf file.id).isEmpty then [file] else store.entriesOf file.id

/-- The files of which the job of a file forgets what was found before. -/
def Forgets (store : Store) (file : FileRow) (id : RowId) : Prop :=
  id ∈ (file :: store.entriesOf file.id).map FileRow.id

/-- A file over which a run for all files walks. -/
def IsWalked (store : Store) (file : FileRow) : Prop :=
  file.isDirectory = false ∧ ∃ top ∈ store.topLevelFiles, file ∈ store.walkedFor top

/-- The files that are no entries. -/
theorem mem_topLevelFiles : file ∈ s.topLevelFiles ↔ file ∈ s.files ∧ file.archive = none := by
  rw [topLevelFiles, byPath, (List.mergeSort_perm _ _).mem_iff]
  simp

/-- Each of them comes once. -/
theorem Consistent.nodup_topLevelFiles (hc : s.Consistent) : s.topLevelFiles.Nodup :=
  (List.mergeSort_perm _ _).nodup_iff.mpr (hc.files.ids.of_map.filter _)

theorem filter_topLevelFiles (s : Store) : s.topLevelFiles.filter (·.archive.isNone) = s.topLevelFiles :=
  List.filter_eq_self.mpr fun file hfile => by
    rw [(mem_topLevelFiles.mp hfile).2]
    rfl

theorem walkedFor_congr (h : s'.files = s.files) : s'.walkedFor file = s.walkedFor file := by
  rw [Store.walkedFor, Store.walkedFor, Store.entriesOf, Store.entriesOf, h]

/-- Whether a run walks over a file does not depend on symbols and references. -/
theorem isWalked_congr (h : s'.files = s.files) : s'.IsWalked file ↔ s.IsWalked file := by
  simp only [IsWalked, topLevelFiles, walkedFor_congr h, h]

theorem Gains.walkedFor (h : s.Gains s') : s'.walkedFor file = s.walkedFor file :=
  walkedFor_congr h.files

theorem Gains.forgets_iff (h : s.Gains s') {id : RowId} :
    s'.Forgets file id ↔ s.Forgets file id := by
  rw [Forgets, Forgets, h.entriesOf]

theorem mem_entriesOf {id : RowId} : f ∈ s.entriesOf id ↔ f ∈ s.files ∧ f.archive = some id := by
  simp [entriesOf]

/-- The job of a file walks over the file or over entries of it. -/
theorem eq_or_of_mem_walkedFor (h : f ∈ s.walkedFor file) :
    f = file ∨ f ∈ s.files ∧ f.archive = some file.id := by
  rw [walkedFor] at h
  split at h
  · exact .inl (List.mem_singleton.mp h)
  · exact .inr (mem_entriesOf.mp h)

theorem mem_of_mem_walkedFor (hfile : file ∈ s.files) (h : f ∈ s.walkedFor file) : f ∈ s.files := by
  rcases eq_or_of_mem_walkedFor h with rfl | ⟨hmem, -⟩
  · exact hfile
  · exact hmem

/-- A file is found by its number. -/
theorem Consistent.requireFile_eq_ok (hc : s.Consistent) (h : f ∈ s.files) :
    s.requireFile f.id = .ok f :=
  requireFile_eq_ok_iff.mpr ((find?_key_eq_some_iff hc.files.ids).mpr ⟨h, rfl⟩)

/-- The files over which a job walks are among those that it forgets. -/
theorem forgets_of_mem_walkedFor (h : f ∈ s.walkedFor file) : s.Forgets file f.id := by
  rw [walkedFor] at h
  split at h
  · exact List.mem_singleton.mp h ▸ List.mem_cons_self
  · exact List.mem_map_of_mem (List.mem_cons_of_mem _ h)

/-- The jobs of different files forget different files. -/
theorem eq_of_forgets (hc : s.Consistent) (hfile : file ∈ s.files) (htop : file.archive = none)
    (hother : other ∈ s.files) (htop' : other.archive = none) {id : RowId} (h : s.Forgets file id)
    (h' : s.Forgets other id) : file = other := by
  have hsame {a b : FileRow} (ha : a ∈ s.files) (hb : b ∈ s.files) (he : a.id = b.id) : a = b :=
    List.inj_on_of_nodup_map hc.files.ids ha hb he
  obtain ⟨f, hf, rfl⟩ := List.mem_map.mp h
  obtain ⟨g, hg, he⟩ := List.mem_map.mp h'
  rcases List.mem_cons.mp hf with rfl | hf <;> rcases List.mem_cons.mp hg with rfl | hg
  · exact hsame hfile hother he.symm
  · obtain ⟨hg, harchive⟩ := mem_entriesOf.mp hg
    rw [hsame hg hfile he, htop] at harchive
    cases harchive
  · obtain ⟨hf, harchive⟩ := mem_entriesOf.mp hf
    rw [← hsame hother hf he, htop'] at harchive
    cases harchive
  · obtain ⟨hf, harchive⟩ := mem_entriesOf.mp hf
    obtain ⟨hg, harchive'⟩ := mem_entriesOf.mp hg
    rw [hsame hg hf he, harchive] at harchive'
    exact hsame hfile hother (Option.some.inj harchive')

end Store

namespace Mapping

open Store
open Transaction (Keeps bind_eq_ok_iff)

variable {s s' : Store} {file : FileRow} {files : List FileRow}

/-- The job of a file walks over its files, and what is there when it starts stays. -/
theorem gains_of_prepare (hc : s.Consistent) (h : prepare file s = .ok (files, s')) :
    files = s.walkedFor file ∧ s'.Consistent ∧ s.Gains s' := by
  have hkeeps (id : RowId) : Keeps (fun t => t.Consistent ∧ s.Gains t) (clearMappings id) := by
    intro t u t' ht hstart
    exact ⟨keeps_clearMappings _ _ _ ht hstart.1, hstart.2.trans (gains_of_clearMappings ht)⟩
  rw [prepare, Transaction.get_bind_apply] at h
  obtain ⟨_, s₁, hfirst, hrest⟩ := bind_eq_ok_iff.mp h
  obtain ⟨_, s₂, hentries, hend⟩ := bind_eq_ok_iff.mp hrest
  cases hend
  refine ⟨rfl, ?_⟩
  exact Keeps.forM _ (fun entry _ => hkeeps entry.id) _ _ _ hentries (hkeeps _ _ _ _ hfirst ⟨hc, .refl⟩)

end Mapping

end ClassAtlas
