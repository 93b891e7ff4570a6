import ClassAtlas.Proofs.Mapping.Recorded
import ClassAtlas.Proofs.Workspace.Resigned

/-!
# The cache and the tables

A number that is cached is never asked for again, so it has to stay right: whatever happens to the
tables later, each cached identity has to have the cached number there. Most changes of the tables only
add identities. A rename moves identities to other numbers and deletes some rows, whose numbers can be
given away again. It lets the cache know, move after move, and does so only after it was committed.

## Main definitions

* `ClassAtlas.Store.Knows` — a consistent store in which some identities have given numbers.
* `ClassAtlas.Index.Coherent` — an index in which each cached identity has the cached number.
* `ClassAtlas.Index.WorkStep` — a step of work on a workspace.

## Main results

* `ClassAtlas.RenamePlan.knows_of_migrate`, `ClassAtlas.RenamePlan.knows_of_mapM_migrate` — one move,
  and one move after the other.
* `ClassAtlas.Index.WorkStep.coherent`, `ClassAtlas.Index.coherent_afterSteps` — work on a workspace keeps
  the cache coherent.
* `ClassAtlas.Index.lookup_iff_afterSteps` — so looking up is the same as asking the tables.
-/

set_option autoImplicit false

namespace ClassAtlas

/-- The row of an identity and its number. -/
def IdentityRow.ofPair (pair : Identity × RowId) : IdentityRow :=
  ⟨pair.2, pair.1⟩

/-! ### Known numbers -/

namespace Store

open Transaction (Keeps bind_eq_ok_iff)

variable {known known' : List IdentityRow} {s s' : Store} {numbers : List (Identity × RowId)}

/-- A consistent store in which some identities have given numbers. -/
structure Knows (known : List IdentityRow) (s : Store) : Prop where
  /-- The tables keep their rules. -/
  consistent : s.Consistent
  /-- The identities have the numbers. -/
  rows : known ⊆ s.identities

lemma Knows.mono (hs : s.Knows known) (h : known' ⊆ known) : s.Knows known' :=
  ⟨hs.consistent, List.Subset.trans h hs.rows⟩

/-- Numbers stay known while the table of identities grows. -/
lemma Knows.of_subset (hs : s.Knows known) (hc : s'.Consistent)
    (h : s.identities ⊆ s'.identities) : s'.Knows known :=
  ⟨hc, List.Subset.trans hs.rows h⟩

/-- The number that an identity gets is known then. -/
lemma knows_of_internIdentity {identity : Identity} {id : RowId} (hs : s.Knows known)
    (h : internIdentity identity s = .ok (id, s')) : s'.Knows (⟨id, identity⟩ :: known) := by
  have hkept := hs.of_subset (keeps_internIdentity _ _ _ _ h hs.consistent)
    (gains_of_internIdentity h).identities
  refine ⟨hkept.consistent, List.cons_subset.mpr ⟨?_, hkept.rows⟩⟩
  obtain ⟨hid, rfl⟩ | ⟨-, rfl, rfl⟩ := eq_or_of_internIdentity h
  · exact hs.consistent.identityId?_eq_some_iff.mp hid
  · exact List.mem_append_right _ (List.mem_singleton.mpr rfl)

lemma knows_of_internAll {identities : List Identity} (hs : s.Knows known)
    (h : internAll identities s = .ok (numbers, s')) :
    s'.Knows (numbers.map .ofPair ++ known) := by
  induction identities generalizing s numbers known with
  | nil =>
    cases h
    exact hs
  | cons identity identities ih =>
    rw [internAll, List.mapM_cons] at h
    obtain ⟨pair, s₁, hfirst, hrest⟩ := bind_eq_ok_iff.mp h
    obtain ⟨id, s₂, hintern, hpair⟩ := bind_eq_ok_iff.mp hfirst
    cases hpair
    obtain ⟨more, s₃, hrest, hend⟩ := bind_eq_ok_iff.mp hrest
    cases hend
    refine (ih (knows_of_internIdentity hs hintern) hrest).mono fun row hrow => ?_
    rw [List.map_cons, List.cons_append, List.mem_cons] at hrow
    rw [List.mem_append, List.mem_cons]
    rcases hrow with rfl | hrow
    · exact .inr (.inl rfl)
    · exact (List.mem_append.mp hrow).imp_right .inr

/-- The numbers that a slice of events announces are known when the slice is stored. -/
lemma knows_of_applyEvents {events : List Event} (hs : s.Knows known)
    (h : applyEvents events s = .ok (numbers, s')) : s'.Knows (numbers.map .ofPair ++ known) := by
  obtain ⟨numbers', s₁, hintern, hrest⟩ := bind_eq_ok_iff.mp h
  obtain ⟨_, s₂, hevents, hend⟩ := bind_eq_ok_iff.mp hrest
  cases hend
  have hs₁ := knows_of_internAll hs hintern
  obtain ⟨hc, hgains, -⟩ := gains_of_forM_applyEvent hs₁.consistent hevents
  exact hs₁.of_subset hc hgains.identities

lemma keeps_knows_insertFile (path : String) (archive : Option RowId) (isDirectory : Bool)
    (content : Option Content) : Keeps (Knows known) (insertFile path archive isDirectory content) := by
  intro s id s' h hs
  have hc := keeps_insertFile _ _ _ _ _ _ _ h hs.consistent
  obtain ⟨file, -, -, rfl⟩ | ⟨-, -, rfl⟩ := eq_or_of_insertFile h
  · exact ⟨hc, hs.rows⟩
  · exact ⟨hc, hs.rows⟩

lemma keeps_knows_clearMappings {id : RowId} : Keeps (Knows known) (clearMappings id) := by
  intro s u s' h hs
  have hc := keeps_clearMappings _ _ _ h hs.consistent
  cases h
  exact ⟨hc, hs.rows⟩

lemma keeps_knows_deleteOtherEntries (archive : RowId) (paths : List String) :
    Keeps (Knows known) (deleteOtherEntries archive paths) := by
  refine Keeps.get_bind fun _ => Keeps.forM _ fun entry _ => keeps_knows_clearMappings.bind fun _ => ?_
  intro s u s' h hs
  have hc := keeps_deleteFile _ _ _ h hs.consistent
  cases h
  exact ⟨hc, hs.rows⟩

lemma keeps_knows_prepare (file : FileRow) : Keeps (Knows known) (Mapping.prepare file) := by
  refine Keeps.get_bind fun _ => keeps_knows_clearMappings.bind fun _ => ?_
  exact (Keeps.forM _ fun _ _ => keeps_knows_clearMappings).bind fun _ => Keeps.pure _

/-! ### Moves -/

/-- Moving a symbol gives its new identity the returned number. Of all others, only the number that its
old identity had may be gone or given away. -/
lemma identities_of_moveSymbol {σ number : RowId} {identity : Identity} (hs : s.Consistent)
    (h : moveSymbol σ identity s = .ok (number, s')) :
    ∃ row ∈ s.symbols, row.id = σ ∧ ⟨number, identity⟩ ∈ s'.identities ∧
      ∀ other ∈ s.identities, other.id ≠ row.identity → other ∈ s'.identities := by
  obtain ⟨row, hrow, hσ, hcase⟩ := eq_or_of_moveSymbol hs h
  refine ⟨row, hrow, hσ, ?_⟩
  obtain ⟨-, rfl, rfl⟩ | ⟨hid, rfl, rfl⟩ | ⟨hid, hne, -, rfl⟩ := hcase
  · obtain ⟨old, hold, he⟩ := List.mem_map.mp (hs.symbols.identity_mem row hrow)
    refine ⟨List.mem_map.mpr ⟨old, hold, ?_⟩, fun other ho hother => List.mem_map.mpr ⟨other, ho, ?_⟩⟩
    · rw [if_pos he, ← he]
    · rw [if_neg hother]
  · exact ⟨hs.identityId?_eq_some_iff.mp hid, fun other ho _ => ho⟩
  · have hkept {other : IdentityRow} (ho : other ∈ s.identities) (hother : other.id ≠ row.identity) :
        other ∈ ((s.withoutSymbolOf number).mergeIdentity σ row.identity number).identities :=
      List.mem_filter.mpr ⟨ho, bne_iff_ne.mpr hother⟩
    exact ⟨hkept (hs.identityId?_eq_some_iff.mp hid) hne, fun other ho hother => hkept ho hother⟩

end Store

/-! ### The cache -/

namespace IdentityCache

variable {cache : IdentityCache} {identity : Identity} {id : RowId} {row : IdentityRow}

/-- The rows that cached numbers stand for. -/
def rows (cache : IdentityCache) : List IdentityRow :=
  cache.entries.map .ofPair

/-- The cache with fewer identities. -/
def evict (cache : IdentityCache) (keep : Identity → Bool) : IdentityCache :=
  ⟨cache.entries.filter (keep ·.1)⟩

lemma mem_rows_evict_iff {keep : Identity → Bool} :
    row ∈ (cache.evict keep).rows ↔ row ∈ cache.rows ∧ keep row.identity = true := by
  simp only [rows, evict, List.mem_map, List.mem_filter]
  constructor
  · rintro ⟨pair, ⟨hp, hk⟩, rfl⟩
    exact ⟨⟨pair, hp, rfl⟩, hk⟩
  · rintro ⟨⟨pair, hp, rfl⟩, hk⟩
    exact ⟨pair, ⟨hp, hk⟩, rfl⟩

lemma mem_rows_forget_iff :
    row ∈ (cache.forget identity).rows ↔ row ∈ cache.rows ∧ row.identity ≠ identity :=
  (@mem_rows_evict_iff cache row (· != identity)).trans (and_congr_right' bne_iff_ne)

lemma mem_rows_remember_iff : row ∈ (cache.remember identity id).rows ↔
    row = ⟨id, identity⟩ ∨ row ∈ cache.rows ∧ row.identity ≠ identity := by
  rw [← mem_rows_forget_iff, remember, rows, List.map_cons, List.mem_cons]
  rfl

lemma rows_remember_subset : (cache.remember identity id).rows ⊆ ⟨id, identity⟩ :: cache.rows :=
  fun _ hrow => List.mem_cons.mpr ((mem_rows_remember_iff.mp hrow).imp_right And.left)

lemma rows_rememberAll_subset (numbers : List (Identity × RowId)) :
    (cache.rememberAll numbers).rows ⊆ numbers.map .ofPair ++ cache.rows := by
  induction numbers generalizing cache with
  | nil => exact List.Subset.refl _
  | cons pair numbers ih =>
    intro row hrow
    rw [List.map_cons, List.cons_append, List.mem_cons, List.mem_append]
    rcases List.mem_append.mp (ih hrow) with hrow | hrow
    · exact .inr (.inl hrow)
    · exact (mem_rows_remember_iff.mp hrow).imp id fun h => .inr h.1

/-- What the cache answers is a cached row. -/
lemma mem_rows_of_get? (h : cache.get? identity = some id) : ⟨id, identity⟩ ∈ cache.rows := by
  obtain ⟨before, after, he, -⟩ := List.lookup_eq_some_iff.mp h
  rw [rows, he, List.map_append, List.map_cons]
  exact List.mem_append_right _ List.mem_cons_self

end IdentityCache

/-! ### Renames -/

namespace RenamePlan

open Store
open Transaction (Keeps bind_eq_ok_iff mapM_cons_eq_ok_iff)

variable {s s' : Store} {cache : IdentityCache} {m : Migration} {ms : List Migration} {number : RowId}
  {numbers : List RowId}

/-- A migration changes the numbers as its move does. -/
lemma identities_of_migrate (hs : s.Consistent) (h : migrate m s = .ok (number, s')) :
    ∃ row ∈ s.symbols, row.id = m.symbol.id ∧ ⟨number, m.identity⟩ ∈ s'.identities ∧
      ∀ other ∈ s.identities, other.id ≠ row.identity → other ∈ s'.identities := by
  obtain ⟨s₁, s₂, h₁, hmove, h₂⟩ := exists_of_migrate (fun _ => rfl) h
  obtain ⟨row₁, hrow₁, hid₁, hnumber, hothers⟩ := identities_of_moveSymbol (h₁.consistent hs) hmove
  obtain ⟨row, hrow, hid, he⟩ := h₁.exists_mem_iff.mp ⟨row₁, hrow₁, hid₁, rfl⟩
  obtain ⟨f, rfl, -⟩ := h₁
  obtain ⟨g, rfl, -⟩ := h₂
  exact ⟨row, hrow, hid, hnumber, fun other ho hother => hothers other ho (he ▸ hother)⟩

/-- **One move.** The cache forgets the old identity of the symbol, and learns the number of the new
one.

**Proof sketch.** The only number that may be gone, or be given to the new identity, is that of the old
identity, and as that has one number only, nothing else in the cache has it. -/
theorem knows_of_migrate (hs : s.Knows cache.rows) {row : SymbolRow} (hrow : row ∈ s.symbols)
    (hid : row.id = m.symbol.id)
    (hcurrent : s.identity? row.identity = some m.symbol.symbol.identity)
    (h : migrate m s = .ok (number, s')) :
    s'.Knows ((cache.forget m.symbol.symbol.identity).remember m.identity number).rows := by
  have hc := hs.consistent
  obtain ⟨row', hrow', hid', hnumber, hothers⟩ := identities_of_migrate hc h
  obtain rfl := List.inj_on_of_nodup_map hc.symbols.ids hrow hrow' (hid.trans hid'.symm)
  refine ⟨keeps_migrate _ _ _ _ h hc, fun other ho => ?_⟩
  rcases IdentityCache.mem_rows_remember_iff.mp ho with rfl | ⟨ho, -⟩
  · exact hnumber
  · obtain ⟨ho, hne⟩ := IdentityCache.mem_rows_forget_iff.mp ho
    -- a cached row with the number of the old identity is the row of the old identity
    refine hothers other (hs.rows ho) fun he => hne ?_
    have hfound := hc.identity?_eq_some_iff.mpr (hs.rows ho)
    exact Option.some.inj (hfound.symm.trans (he ▸ hcurrent))

/-- **One move after the other.** By induction on the list: a later symbol still has the identity that
the list names when its turn comes, so each move forgets what it makes wrong. -/
theorem knows_of_mapM_migrate (hs : s.Knows cache.rows) (hready : Ready s ms)
    (h : ms.mapM migrate s = .ok (numbers, s')) :
    s'.Knows (cache.migrate ((ms.map Migration.change).zip numbers)).rows := by
  induction ms generalizing s numbers cache with
  | nil =>
    cases h
    exact hs
  | cons m ms ih =>
    obtain ⟨number, s₁, more, hfirst, hrest, rfl⟩ := mapM_cons_eq_ok_iff.mp h
    obtain ⟨row, hrow, hid, hcurrent⟩ := hready.exists_row m List.mem_cons_self
    exact ih (knows_of_migrate hs hrow hid hcurrent hfirst) (hready.tail hfirst hrest) hrest

lemma keeps_knows_setSymbolSignature {known : List IdentityRow} (p : RowId × String) :
    Keeps (Knows known) (setSymbolSignature p.1 p.2) := by
  intro s u s' h hs
  have hc := keeps_setSymbolSignature _ _ _ _ h hs.consistent
  cases h
  exact ⟨hc, hs.rows⟩

/-- A commit makes the moves that its outcome lists, and returns their numbers. -/
theorem knows_of_commit {identity : Identity} {newName : String} {plan : RenamePlan}
    {revisions : List (FileRow × List UInt8)} {outcome : RenameOutcome} (hs : s.Knows cache.rows)
    (hplan : s.planRename identity newName = .ok plan)
    (hrevisions : plan.revisions s = .ok revisions)
    (h : plan.commit revisions s = .ok ((outcome, numbers), s')) :
    s'.Knows (cache.migrate (outcome.migratedIdentities.zip numbers)).rows := by
  have hc := hs.consistent
  obtain ⟨s₂, s₃, honly, hs₂, hmigrate, hsignatures⟩ := exists_onlyFiles_of_commit hc h
  have hmoved := knows_of_mapM_migrate ⟨hs₂, honly.identities_eq ▸ hs.rows⟩
    (ready_of_planRename hc hplan honly hs₂) hmigrate
  rw [(describes_of_commit hc hplan hrevisions h).migratedIdentities]
  exact Keeps.forM _ (fun p _ => keeps_knows_setSymbolSignature p) _ _ _ hsignatures hmoved

end RenamePlan

/-! ### Work on a workspace -/

namespace Index

open Store

variable {index index' : Index} {α : Type}

/-- An index in which each cached identity has the cached number. -/
def Coherent (index : Index) : Prop :=
  index.store.Knows index.cache.rows

/-- A step of work on a workspace leads from one index to another one, whether or not it fails. -/
inductive WorkStep (index : Index) : Index → Prop where
  /-- Asking for the number of an identity, which is added if it is not known. -/
  | intern (identity : Identity) : WorkStep index (intern identity index).2
  /-- The same for many identities. -/
  | internAll (identities : List Identity) : WorkStep index (internAll identities index).2
  /-- Looking up the number of an identity. -/
  | lookup (identity : Identity) : WorkStep index (lookup identity index).2
  /-- Forgetting a cached number. -/
  | invalidate (identity : Identity) : WorkStep index (updateCache (·.forget identity) index).2
  /-- The cache drops numbers on its own. -/
  | evict (keep : Identity → Bool) : WorkStep index (updateCache (·.evict keep) index).2
  /-- An import. -/
  | importFile (path : String) (content : Content) : WorkStep index (importFile path content index).2
  /-- A mapping run, for any files and in any order of its steps. -/
  | map {memory : Memory} {settings : QueueSettings} {files : List FileRow} {acts : List Act}
    {result : Except Error MapReport} {index' : Index}
    (hmaps : Maps memory settings files index acts result index') : WorkStep index index'
  /-- A rename. -/
  | rename (identity : Identity) (newName : String) : WorkStep index (rename identity newName index).2

lemma coherent_transact {change : Transaction α}
    (hc : ∀ known, Transaction.Keeps (Knows known) change) (h : index.Coherent) :
    (transact change index).2.Coherent := by
  have hstore := transact_keeps (hc index.cache.rows) h
  have hcache : (transact change index).2.cache = index.cache := by
    rw [transact]
    split <;> rfl
  rw [Coherent, hcache]
  exact hstore

lemma coherent_intern (identity : Identity) (h : index.Coherent) :
    (intern identity index).2.Coherent := by
  rw [intern, Session.bind_apply, transact]
  cases hrun : Store.internIdentity identity index.store with
  | error e => exact h
  | ok result => exact (knows_of_internIdentity h hrun).mono IdentityCache.rows_remember_subset

lemma coherent_internAll (identities : List Identity) (h : index.Coherent) :
    (internAll identities index).2.Coherent := by
  rw [internAll, Session.bind_apply, transact]
  cases hrun : Store.internAll identities index.store with
  | error e => exact h
  | ok result => exact (knows_of_internAll h hrun).mono (IdentityCache.rows_rememberAll_subset _)

lemma coherent_lookup (identity : Identity) (h : index.Coherent) :
    (lookup identity index).2.Coherent := by
  rw [lookup]
  split
  · exact h
  · split
    · rename_i id hid
      refine Knows.mono ⟨h.consistent, List.cons_subset.mpr ⟨?_, h.rows⟩⟩
        IdentityCache.rows_remember_subset
      exact h.consistent.identityId?_eq_some_iff.mp hid
    · exact h

lemma coherent_evict (keep : Identity → Bool) (h : index.Coherent) :
    Coherent { index with cache := index.cache.evict keep } :=
  Knows.mono h fun _ hrow => (IdentityCache.mem_rows_evict_iff.mp hrow).1

lemma jobsKeep_coherent : Mapping.JobsKeep Coherent fun _ => True where
  prepare file _ h := coherent_transact (fun _ => keeps_knows_prepare file) h
  announced _ := trivial
  found _ _ _ := trivial
  storing events index index' _ h hs := by
    obtain ⟨numbers, happly, hcache⟩ := Mapping.storing_eq_ok_iff.mp h
    rw [Coherent, hcache]
    exact (knows_of_applyEvents hs happly).mono (IdentityCache.rows_rememberAll_subset _)

lemma coherent_rename (identity : Identity) (newName : String) (h : index.Coherent) :
    (rename identity newName index).2.Coherent := by
  obtain ⟨e, he⟩ | ⟨plan, revisions, outcome, numbers, store, hplan, hrevisions, hcommit, he⟩ :=
    rename_cases index identity newName
  · rw [he]
    exact h
  · rw [he]
    exact RenamePlan.knows_of_commit h hplan hrevisions hcommit

/-- **A step** keeps the cache coherent, whether or not it fails. -/
theorem WorkStep.coherent (hstep : index.WorkStep index') (h : index.Coherent) : index'.Coherent := by
  cases hstep with
  | intern identity => exact coherent_intern identity h
  | internAll identities => exact coherent_internAll identities h
  | lookup identity => exact coherent_lookup identity h
  | invalidate identity => exact coherent_evict (· != identity) h
  | evict keep => exact coherent_evict keep h
  | importFile path content =>
    refine coherent_transact (fun _ => ?_) h
    exact keeps_importFile keeps_knows_insertFile keeps_knows_deleteOtherEntries path content
  | map hmaps => exact hmaps.keeps jobsKeep_coherent h
  | rename identity newName => exact coherent_rename identity newName h

/-- **Work on a workspace** keeps the cache coherent, whichever of its steps fail. -/
theorem coherent_afterSteps (hsteps : Relation.ReflTransGen WorkStep index index') (h : index.Coherent) :
    index'.Coherent := by
  induction hsteps with
  | refl => exact h
  | tail _ hstep ih => exact hstep.coherent ih

/-- With a coherent cache, looking up is asking the tables. -/
lemma Coherent.lookup_eq (h : index.Coherent) (identity : Identity) :
    (lookup identity index).1 = match index.store.identityId? identity with
      | some id => .ok id
      | none => .error (.unknownIdentity identity.text) := by
  rw [lookup]
  cases hget : index.cache.get? identity with
  | some id =>
    rw [h.consistent.identityId?_eq_some_iff.mpr (h.rows (IdentityCache.mem_rows_of_get? hget))]
  | none => cases index.store.identityId? identity <;> rfl

lemma store_lookup (identity : Identity) (index : Index) :
    (lookup identity index).2.store = index.store := by
  rw [lookup]
  split
  · rfl
  · split <;> rfl

/-- **The cache is in step with the tables.** Work starts over any tables that keep their rules, with
nothing cached. After any steps, of which any may have failed, each cached pair is a row. So an identity
has the number that is looked up if and only if the tables say so. Looking up fails for those that have
none, comes to the same with an empty cache, and leaves the tables alone. -/
theorem lookup_iff_afterSteps {store : Store} (hs : store.Consistent) {index : Index}
    (hsteps : Relation.ReflTransGen WorkStep ⟨store, .empty⟩ index) :
    (∀ pair ∈ index.cache.entries, ⟨pair.2, pair.1⟩ ∈ index.store.identities) ∧
      ∀ identity,
        (∀ id, (lookup identity index).1 = .ok id ↔ ⟨id, identity⟩ ∈ index.store.identities) ∧
        ((lookup identity index).1 = .error (.unknownIdentity identity.text) ↔
          ∀ id, ⟨id, identity⟩ ∉ index.store.identities) ∧
        (lookup identity index).1 = (lookup identity ⟨index.store, .empty⟩).1 ∧
        (lookup identity index).2.store = index.store := by
  have hstart : Coherent ⟨store, .empty⟩ := ⟨hs, List.nil_subset _⟩
  have h : index.Coherent := coherent_afterSteps hsteps hstart
  have hc := h.consistent
  have huncached : Coherent ⟨index.store, .empty⟩ := ⟨hc, List.nil_subset _⟩
  refine ⟨fun pair hp => h.rows (List.mem_map_of_mem hp), fun identity => ⟨fun id => ?_, ?_, ?_,
    store_lookup identity index⟩⟩
  · rw [h.lookup_eq, ← hc.identityId?_eq_some_iff]
    cases index.store.identityId? identity with
    | none => simp
    | some found => simp
  · rw [h.lookup_eq]
    cases hid : index.store.identityId? identity with
    | none =>
      refine iff_of_true rfl fun id hmem => ?_
      rw [hc.identityId?_eq_some_iff.mpr hmem] at hid
      cases hid
    | some found =>
      exact iff_of_false nofun fun hnone => hnone found (hc.identityId?_eq_some_iff.mp hid)
  · rw [h.lookup_eq, huncached.lookup_eq]

/-- A class `A` is imported, mapped and looked up, and renamed to `B`. Then `B` has the number of `A`, and
`A` has none, although it was cached. -/
theorem lookup_iff_afterSteps_selfTaking : ∃ outcome index,
    (lookup ⟨"A"⟩ selfTakingIndex).1 = .ok 1 ∧
      rename ⟨"A"⟩ "B" (lookup ⟨"A"⟩ selfTakingIndex).2 = (.ok outcome, index) ∧
      Relation.ReflTransGen WorkStep ⟨Store.empty, .empty⟩ index ∧
      (lookup ⟨"B"⟩ index).1 = .ok 1 ∧
      (lookup ⟨"A"⟩ index).1 = .error (.unknownIdentity "A") := by
  have hget : selfTakingIndex.cache.get? ⟨"A"⟩ = some 1 := by decide +kernel
  have hcached : lookup ⟨"A"⟩ selfTakingIndex = (.ok 1, selfTakingIndex) := by rw [lookup, hget]
  obtain ⟨outcome, index, hrun, hrows⟩ := exists_rename_of_files
    (fun _ store => decide (store.identities = [⟨1, ⟨"B"⟩⟩, ⟨2, ⟨"B::m(LB;)V"⟩⟩]))
    planRename_selfTaking files_selfTaking (by decide +kernel)
  have hrows := of_decide_eq_true hrows
  have himported : (importFile "A.class" (.bytes selfTaking.encode) empty).2.Reachable :=
    .importFile _ _ .empty
  have hmaps : ∃ acts, Maps .ample .standard _ _ acts _ selfTakingIndex :=
    maps_mapAll himported.sound.consistent rfl rfl
  obtain ⟨acts, hmaps⟩ := hmaps
  have hrename : selfTakingIndex.WorkStep (rename ⟨"A"⟩ "B" selfTakingIndex).2 := .rename _ _
  rw [hrun] at hrename
  have hlooked : selfTakingIndex.WorkStep (lookup ⟨"A"⟩ selfTakingIndex).2 := .lookup _
  rw [hcached] at hlooked
  have hsteps : Relation.ReflTransGen WorkStep ⟨Store.empty, .empty⟩ index :=
    (((Relation.ReflTransGen.single (.importFile _ _)).tail (.map hmaps)).tail hlooked).tail hrename
  obtain ⟨-, hlookup⟩ := lookup_iff_afterSteps consistent_empty hsteps
  refine ⟨outcome, index, by rw [hcached], by rw [hcached, hrun], hsteps, ((hlookup ⟨"B"⟩).1 1).mpr ?_,
    (hlookup ⟨"A"⟩).2.1.mpr ?_⟩
  · rw [hrows]
    exact List.mem_cons_self
  · intro id
    rw [hrows]
    simp

end Index

end ClassAtlas
