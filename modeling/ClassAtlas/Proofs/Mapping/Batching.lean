import ClassAtlas.Proofs.Mapping.Reported
import ClassAtlas.Proofs.Mapping.Stored

/-!
# Batches leave no trace

Within a slice all identities are stored before the symbols and the references, so slices that are cut
elsewhere store things in another order. Nobody can tell afterwards. Symbols and references do not touch
the identities, and an identity that is known keeps its number when others come behind it. So the
identities of later events may as well be stored first. As a job announces each identity before it uses
it, a slice of its events is stored wherever it is cut.

## Main definitions

* `ClassAtlas.Index.syncAll` — slice after slice.
* `ClassAtlas.Store.withIdentities` — a store with more identities.

## Main results

* `ClassAtlas.Index.sync_append` — two slices are stored as one.
* `ClassAtlas.Index.syncAll_eq_sync` — the slices of a job are stored as all of its events at once.
-/

set_option autoImplicit false

namespace ClassAtlas

namespace Store

open Transaction (bind_apply_of_eq_ok)

variable {s s' : Store} {identity : Identity} {added : List IdentityRow} {id : RowId}
  {events more : List Event} {numbers : List (Identity × RowId)}

/-! ### More identities -/

/-- The store with more identities behind its own. -/
def withIdentities (s : Store) (added : List IdentityRow) : Store :=
  { s with identities := s.identities ++ added }

theorem withIdentities_nil (s : Store) : s.withIdentities [] = s := by
  rw [withIdentities, List.append_nil]

theorem withIdentities_append (s : Store) (added more : List IdentityRow) :
    s.withIdentities (added ++ more) = (s.withIdentities added).withIdentities more := by
  rw [withIdentities, withIdentities, withIdentities, List.append_assoc]

/-- An identity that is known keeps its number. -/
theorem identityId?_withIdentities (h : s.identityId? identity = some id) (added : List IdentityRow) :
    (s.withIdentities added).identityId? identity = some id := by
  rw [identityId?, Option.map_eq_some_iff] at h ⊢
  obtain ⟨row, hrow, hid⟩ := h
  exact ⟨row, by rw [withIdentities, List.find?_append, hrow]; rfl, hid⟩

/-- What an identity is numbered depends on the other identities only. -/
theorem exists_internIdentity_eq (identity : Identity) (s : Store) :
    ∃ id added, ∀ t : Store, t.identities = s.identities →
      internIdentity identity t = .ok (id, t.withIdentities added) := by
  have hcongr (t : Store) (ht : t.identities = s.identities) :
      t.identityId? identity = s.identityId? identity := by
    rw [identityId?, ht, identityId?]
  cases hid : s.identityId? identity with
  | some id =>
    refine ⟨id, [], fun t ht => ?_⟩
    rw [internIdentity, Transaction.get_bind_apply, hcongr t ht, hid, withIdentities_nil]
    rfl
  | none =>
    refine ⟨nextId s.known, [⟨nextId s.known, identity⟩], fun t ht => ?_⟩
    rw [internIdentity, Transaction.get_bind_apply, hcongr t ht, hid, withIdentities, known, ht]
    rfl

theorem exists_internAll_eq (identities : List Identity) (s : Store) :
    ∃ numbers added, ∀ t : Store, t.identities = s.identities →
      internAll identities t = .ok (numbers, t.withIdentities added) := by
  induction identities generalizing s with
  | nil => exact ⟨[], [], fun t _ => by rw [withIdentities_nil]; rfl⟩
  | cons identity identities ih =>
    obtain ⟨id, added, hfirst⟩ := exists_internIdentity_eq identity s
    obtain ⟨numbers, more, hrest⟩ := ih (s.withIdentities added)
    refine ⟨(identity, id) :: numbers, added ++ more, fun t ht => ?_⟩
    have hsame : (t.withIdentities added).identities = (s.withIdentities added).identities := by
      rw [withIdentities, withIdentities, ht]
    rw [internAll, List.mapM_cons, bind_apply_of_eq_ok
      (bind_apply_of_eq_ok (hfirst t ht)), withIdentities_append]
    exact bind_apply_of_eq_ok (hrest _ hsame)

/-! ### Symbols and references with more identities around -/

theorem requireIdentity_withIdentities (h : requireIdentity identity s = .ok (id, s'))
    (added : List IdentityRow) :
    requireIdentity identity (s.withIdentities added) = .ok (id, s.withIdentities added) := by
  have hid := identityId?_withIdentities (requireIdentity_eq_ok_iff.mp h).1 added
  exact requireIdentity_eq_ok_iff.mpr ⟨hid, rfl⟩

theorem mapM_requireIdentity_withIdentities {owner : Option Identity} {id : Option RowId}
    (h : owner.mapM requireIdentity s = .ok (id, s')) (added : List IdentityRow) :
    owner.mapM requireIdentity (s.withIdentities added) = .ok (id, s.withIdentities added) := by
  cases owner with
  | none =>
    cases h
    rfl
  | some identity =>
    obtain ⟨found, hfound, rfl⟩ := Transaction.map_eq_ok_iff.mp h
    exact Transaction.map_eq_ok_iff.mpr ⟨found, requireIdentity_withIdentities hfound added, rfl⟩

theorem insertSymbol_withIdentities {symbol : Symbol} (h : insertSymbol symbol s = .ok (id, s'))
    (added : List IdentityRow) :
    insertSymbol symbol (s.withIdentities added) = .ok (id, s'.withIdentities added) ∧
      s'.identities = s.identities := by
  obtain ⟨identity, m, hidentity, hrest⟩ := Transaction.bind_eq_ok_iff.mp h
  obtain ⟨-, rfl⟩ := requireIdentity_eq_ok_iff.mp hidentity
  obtain ⟨owner, m', howner, hset⟩ := Transaction.bind_eq_ok_iff.mp hrest
  obtain ⟨-, rfl⟩ := identityId?_of_mapM_requireIdentity howner
  rw [insertSymbol, bind_apply_of_eq_ok (requireIdentity_withIdentities hidentity added),
    bind_apply_of_eq_ok (mapM_requireIdentity_withIdentities howner added)]
  rw [Transaction.get_bind_apply] at hset ⊢
  have hsymbols : (m'.withIdentities added).symbols = m'.symbols := rfl
  have hfiles : (m'.withIdentities added).hasFile = m'.hasFile := rfl
  rw [hsymbols, hfiles]
  cases hrow : m'.symbols.find? (·.identity == identity) with
  | some row =>
    simp only [hrow] at hset
    split at hset
    · rename_i hfile
      cases hset
      refine ⟨?_, rfl⟩
      dsimp only
      rw [if_pos hfile]
      rfl
    · cases hset
  | none =>
    simp only [hrow] at hset
    split at hset
    · rename_i hfile
      cases hset
      refine ⟨?_, rfl⟩
      dsimp only
      rw [if_pos hfile]
      rfl
    · cases hset

theorem insertReference_withIdentities {reference : Reference}
    (h : insertReference reference s = .ok (id, s')) (added : List IdentityRow) :
    insertReference reference (s.withIdentities added) = .ok (id, s'.withIdentities added) ∧
      s'.identities = s.identities := by
  obtain ⟨target, m, htarget, hrest⟩ := Transaction.bind_eq_ok_iff.mp h
  obtain ⟨-, rfl⟩ := requireIdentity_eq_ok_iff.mp htarget
  obtain ⟨owner, m', howner, hset⟩ := Transaction.bind_eq_ok_iff.mp hrest
  obtain ⟨-, rfl⟩ := requireIdentity_eq_ok_iff.mp howner
  rw [insertReference, bind_apply_of_eq_ok (requireIdentity_withIdentities htarget added),
    bind_apply_of_eq_ok (requireIdentity_withIdentities howner added)]
  rw [Transaction.get_bind_apply] at hset ⊢
  have hfiles : (m'.withIdentities added).hasFile = m'.hasFile := rfl
  rw [hfiles]
  split at hset
  · rename_i hfile
    cases hset
    refine ⟨?_, rfl⟩
    rw [if_pos hfile]
    rfl
  · cases hset

/-- What can be stored can also be stored when more identities are known, with the same numbers. -/
theorem applyEvent_withIdentities {event : Event} (h : applyEvent event s = .ok ((), s'))
    (added : List IdentityRow) :
    applyEvent event (s.withIdentities added) = .ok ((), s'.withIdentities added) ∧
      s'.identities = s.identities := by
  cases event with
  | identifier identity =>
    cases h
    exact ⟨rfl, rfl⟩
  | symbol value =>
    obtain ⟨id, m, hinsert, hend⟩ := Transaction.bind_eq_ok_iff.mp h
    cases hend
    obtain ⟨hmore, hsame⟩ := insertSymbol_withIdentities hinsert added
    exact ⟨bind_apply_of_eq_ok hmore, hsame⟩
  | reference value =>
    obtain ⟨id, m, hinsert, hend⟩ := Transaction.bind_eq_ok_iff.mp h
    cases hend
    obtain ⟨hmore, hsame⟩ := insertReference_withIdentities hinsert added
    exact ⟨bind_apply_of_eq_ok hmore, hsame⟩

theorem forM_applyEvent_withIdentities (h : events.forM applyEvent s = .ok ((), s'))
    (added : List IdentityRow) :
    events.forM applyEvent (s.withIdentities added) = .ok ((), s'.withIdentities added) ∧
      s'.identities = s.identities := by
  induction events generalizing s with
  | nil =>
    cases h
    exact ⟨rfl, rfl⟩
  | cons event events ih =>
    obtain ⟨u, m, hevent, hevents⟩ := Transaction.bind_eq_ok_iff.mp h
    obtain ⟨hfirst, hsame⟩ := applyEvent_withIdentities hevent added
    obtain ⟨hrest, hsame'⟩ := ih hevents
    exact ⟨(bind_apply_of_eq_ok hfirst).trans hrest, hsame'.trans hsame⟩

/-! ### Two slices -/

theorem internAll_append (identities others : List Identity) :
    internAll (identities ++ others) = do
      let numbers ← internAll identities
      let more ← internAll others
      return numbers ++ more :=
  List.mapM_append

theorem forM_applyEvent_append (h : events.forM applyEvent s = .ok ((), s')) (more : List Event) :
    (events ++ more).forM applyEvent s = more.forM applyEvent s' := by
  induction events generalizing s with
  | nil =>
    cases h
    rfl
  | cons event events ih =>
    obtain ⟨u, m, hevent, hevents⟩ := Transaction.bind_eq_ok_iff.mp h
    exact (bind_apply_of_eq_ok hevent).trans (ih hevents)

/-- **Two slices are stored as one**: the identities of the second one may be stored before the symbols
and references of the first. -/
theorem applyEvents_append (h : applyEvents events s = .ok (numbers, s')) (more : List Event) :
    applyEvents (events ++ more) s = (applyEvents more s').map fun p => (numbers ++ p.1, p.2) := by
  obtain ⟨numbers', s₁, hintern, hrest⟩ := Transaction.bind_eq_ok_iff.mp h
  obtain ⟨u, s₂, hevents, hend⟩ := Transaction.bind_eq_ok_iff.mp hrest
  cases hend
  obtain ⟨numbers₂, added, hadded⟩ := exists_internAll_eq (more.filterMap Event.announced?) s₁
  obtain ⟨hmoved, hsame⟩ := forM_applyEvent_withIdentities hevents added
  have hboth : internAll ((events ++ more).filterMap Event.announced?) s =
      .ok (numbers ++ numbers₂, s₁.withIdentities added) := by
    rw [List.filterMap_append, internAll_append, bind_apply_of_eq_ok hintern,
      bind_apply_of_eq_ok (hadded s₁ rfl)]
    rfl
  have hmore := forM_applyEvent_append hmoved more
  rw [applyEvents, applyEvents, bind_apply_of_eq_ok hboth, bind_apply_of_eq_ok (hadded s' hsame)]
  change ((events ++ more).forM applyEvent (s₁.withIdentities added) >>= _) =
    (more.forM applyEvent (s'.withIdentities added) >>= _).map _
  rw [hmore]
  cases more.forM applyEvent (s'.withIdentities added) <;> rfl

/-! ### One event -/

theorem hasFiles_of_insertSymbol {symbol : Symbol} (h : insertSymbol symbol s = .ok (id, s'))
    (hs : s.HasFiles) (hfile : s.hasFile symbol.file) : s'.HasFiles ∧ s'.files = s.files := by
  obtain ⟨identity, owner, -, -, ⟨row, hrow, rfl⟩ | ⟨-, rfl⟩⟩ := eq_or_of_insertSymbol h
  · refine ⟨List.forall_mem_map.mpr fun other hother => ?_, rfl⟩
    split
    · exact hasFile_mergeSymbol (hs row (List.mem_of_find?_eq_some hrow)) hfile
    · exact hs other hother
  · exact ⟨List.forall_mem_append.mpr ⟨hs, List.forall_mem_singleton.mpr hfile⟩, rfl⟩

theorem applyEvents_singleton {event : Event} (hnone : event.announced? = none)
    (h : applyEvent event s = .ok ((), s')) : applyEvents [event] s = .ok ([], s') := by
  have hall : internAll ([event].filterMap Event.announced?) s = .ok ([], s) := by
    rw [List.filterMap_cons, hnone]
    rfl
  have hforM : [event].forM applyEvent s = .ok ((), s') := bind_apply_of_eq_ok h
  exact (bind_apply_of_eq_ok hall).trans (bind_apply_of_eq_ok hforM)

/-- An event whose files exist is stored if the identities that it names are known. -/
theorem exists_applyEvents_singleton {event : Event} (hs : s.HasFiles)
    (hfile : ∀ id ∈ event.file?, s.hasFile (some id))
    (hknown : event.announced? = none → ∀ identity ∈ Job.named event,
      (s.identityId? identity).isSome) :
    ∃ numbers s', applyEvents [event] s = .ok (numbers, s') ∧ s'.HasFiles ∧ s'.files = s.files ∧
      ∀ identity, (s.identityId? identity).isSome ∨ event.announced? = some identity →
        (s'.identityId? identity).isSome := by
  cases event with
  | identifier announced =>
    obtain ⟨id, added, hadded⟩ := exists_internIdentity_eq announced s
    have hintern := hadded s rfl
    have hall : internAll [announced] s = .ok ([(announced, id)], s.withIdentities added) := by
      rw [internAll, List.mapM_cons, bind_apply_of_eq_ok (bind_apply_of_eq_ok hintern)]
      rfl
    refine ⟨_, _, bind_apply_of_eq_ok hall, hs, rfl, fun identity hidentity => ?_⟩
    rcases hidentity with hidentity | hidentity
    · exact isSome_identityId?_append hidentity rfl
    · exact Option.some.inj hidentity ▸ isSome_of_internIdentity hintern
  | symbol value =>
    have hexists : s.hasFile value.file := by
      cases hdeclared : value.file with
      | none => rfl
      | some id => exact hfile id hdeclared
    obtain ⟨id, s', h⟩ := exists_insertSymbol hs hexists (hknown rfl)
    obtain ⟨hs', hfiles⟩ := hasFiles_of_insertSymbol h hs hexists
    have hidentities := (insertSymbol_withIdentities h []).2
    refine ⟨[], s', ?_, hs', hfiles, fun identity hidentity => ?_⟩
    · exact applyEvents_singleton rfl (bind_apply_of_eq_ok h)
    · rw [identityId?, hidentities]
      exact hidentity.resolve_right fun h => by cases h
  | reference value =>
    obtain ⟨id, s', h⟩ := exists_insertReference (hfile _ rfl) (hknown rfl)
    have happly : applyEvents [.reference value] s = .ok ([], s') :=
      applyEvents_singleton rfl (bind_apply_of_eq_ok h)
    obtain ⟨target, owner, -, -, rfl⟩ := eq_of_insertReference h
    exact ⟨[], _, happly, hs, rfl, fun identity hidentity =>
      hidentity.resolve_right fun h => by cases h⟩

end Store

namespace Index

open Store

variable {index index' : Index} {events : List Event} {numbers : List (Identity × RowId)}

/-! ### Slice after slice -/

/-- The index after slice after slice, and the numbers of the identities that they announce. -/
def syncAll (index : Index) : List (List Event) → Except Error (List (Identity × RowId) × Index)
  | [] => .ok ([], index)
  | slice :: slices => do
    let (numbers, index) ← index.sync slice
    let (more, index) ← syncAll index slices
    return (numbers ++ more, index)

/-- **Two slices are stored as one**, if the first one can be stored. -/
theorem sync_append (h : index.sync events = .ok (numbers, index')) (more : List Event) :
    index.sync (events ++ more) = (index'.sync more).map fun p => (numbers ++ p.1, p.2) := by
  obtain ⟨happly, hcache⟩ := sync_eq_ok_iff.mp h
  have hremember (numbers' : List (Identity × RowId)) :
      index.cache.rememberAll (numbers ++ numbers') = index'.cache.rememberAll numbers' := by
    rw [hcache, IdentityCache.rememberAll, List.foldl_append]
    rfl
  rw [sync, sync, applyEvents_append happly]
  cases applyEvents more index'.store with
  | error e => rfl
  | ok p =>
    change Except.ok (numbers ++ p.1, (⟨p.2, index.cache.rememberAll (numbers ++ p.1)⟩ : Index)) =
      .ok (numbers ++ p.1, ⟨p.2, index'.cache.rememberAll p.1⟩)
    rw [hremember]

theorem syncAll_cons_eq_ok_iff {slice : List Event} {slices : List (List Event)}
    {r : List (Identity × RowId) × Index} : index.syncAll (slice :: slices) = .ok r ↔
      ∃ numbers middle more, index.sync slice = .ok (numbers, middle) ∧
        middle.syncAll slices = .ok (more, r.2) ∧ r.1 = numbers ++ more := by
  rw [syncAll, Except.bind_eq_ok_iff]
  constructor
  · rintro ⟨⟨numbers, middle⟩, hslice, hrest⟩
    obtain ⟨⟨more, last⟩, hslices, hend⟩ := Except.bind_eq_ok_iff.mp hrest
    cases hend
    exact ⟨numbers, middle, more, hslice, hslices, rfl⟩
  · rintro ⟨numbers, middle, more, hslice, hslices, hnumbers⟩
    obtain ⟨all, last⟩ := r
    obtain rfl : all = numbers ++ more := hnumbers
    exact ⟨(numbers, middle), hslice, Except.bind_eq_ok_iff.mpr ⟨_, hslices, rfl⟩⟩

theorem exists_of_syncAll_append {slices others : List (List Event)}
    {r : List (Identity × RowId) × Index} (h : index.syncAll (slices ++ others) = .ok r) :
    ∃ numbers middle more, index.syncAll slices = .ok (numbers, middle) ∧
      middle.syncAll others = .ok (more, r.2) ∧ r.1 = numbers ++ more := by
  induction slices generalizing index r with
  | nil => exact ⟨[], index, r.1, rfl, h, rfl⟩
  | cons slice slices ih =>
    obtain ⟨numbers, middle, rest, hslice, hrest, hnumbers⟩ := syncAll_cons_eq_ok_iff.mp h
    obtain ⟨more, last, others', hslices, hothers, hmore⟩ := ih hrest
    refine ⟨numbers ++ more, last, others', ?_, hothers, ?_⟩
    · exact syncAll_cons_eq_ok_iff.mpr ⟨numbers, middle, more, hslice, hslices, rfl⟩
    · rw [hnumbers, List.append_assoc]
      exact congrArg (numbers ++ ·) hmore

/-- Events that can be stored one by one are stored the same way in one slice. -/
theorem sync_of_syncAll_singletons {r : List (Identity × RowId) × Index}
    (h : index.syncAll (events.map fun event => [event]) = .ok r) : index.sync events = .ok r := by
  induction events generalizing index r with
  | nil =>
    cases h
    rfl
  | cons event events ih =>
    obtain ⟨numbers, middle, more, hfirst, hrest, hnumbers⟩ := syncAll_cons_eq_ok_iff.mp h
    have hboth := sync_append hfirst events
    rw [ih hrest] at hboth
    exact hboth.trans (congrArg Except.ok (Prod.ext hnumbers.symm rfl))

/-- Events that can be stored one by one are stored the same way in slices, wherever these are cut. -/
theorem syncAll_of_syncAll_singletons {slices : List (List Event)}
    {r : List (Identity × RowId) × Index}
    (h : index.syncAll (slices.flatten.map fun event => [event]) = .ok r) :
    index.syncAll slices = .ok r := by
  induction slices generalizing index r with
  | nil => exact h
  | cons slice slices ih =>
    rw [List.flatten_cons, List.map_append] at h
    obtain ⟨numbers, middle, more, hslice, hslices, hnumbers⟩ := exists_of_syncAll_append h
    exact syncAll_cons_eq_ok_iff.mpr
      ⟨numbers, middle, more, sync_of_syncAll_singletons hslice, ih hslices, hnumbers⟩

/-- Events of which each names identities that are known or announced before are stored one by one. -/
theorem exists_syncAll_singletons (index : Index) {known : List Identity} (hs : index.store.HasFiles)
    (hfile : ∀ event ∈ events, ∀ id ∈ event.file?, index.store.hasFile (some id))
    (hannounced : Announced known events)
    (hknown : ∀ identity ∈ known, (index.store.identityId? identity).isSome) :
    ∃ r, index.syncAll (events.map fun event => [event]) = .ok r := by
  induction events generalizing index known with
  | nil => exact ⟨_, rfl⟩
  | cons event events ih =>
    obtain ⟨hfirst, hrest⟩ := List.forall_mem_cons.mp hfile
    obtain ⟨numbers, s', happly, hs', hfiles, hkept⟩ := exists_applyEvents_singleton hs hfirst
      fun hnone identity hi => hknown identity (hannounced.1 hnone identity hi)
    have hsame : s'.hasFile = index.store.hasFile := by
      funext file
      rw [hasFile, hfiles, hasFile]
    have hsync : index.sync [event] = .ok (numbers, ⟨s', index.cache.rememberAll numbers⟩) :=
      sync_eq_ok_iff.mpr ⟨happly, rfl⟩
    obtain ⟨r, hr⟩ := ih ⟨s', index.cache.rememberAll numbers⟩ hs' (hsame ▸ hrest) hannounced.2
      fun identity hi => by
        rcases List.mem_append.mp hi with hi | hi
        · exact hkept identity (.inr (Option.mem_toList.mp hi))
        · exact hkept identity (.inl (hknown identity hi))
    exact ⟨(numbers ++ r.1, r.2), syncAll_cons_eq_ok_iff.mpr ⟨_, _, _, hsync, hr, rfl⟩⟩

/-- **Batches leave no trace**: wherever the events of a job are cut, the slices are stored one after the
other, and tables, cache and numbers are those that all events leave when they are stored at once. -/
theorem syncAll_eq_sync {name : String} {findings : List Event} {slices : List (List Event)}
    (hslices : slices.flatten = ((Job.start name).reportAll findings).1)
    (hs : index.store.HasFiles)
    (hfile : ∀ finding ∈ findings, ∀ id ∈ finding.file?, index.store.hasFile (some id)) :
    ∃ r, index.syncAll slices = .ok r ∧ index.sync slices.flatten = .ok r := by
  have hsent : ∀ event ∈ slices.flatten, ∀ id ∈ event.file?, index.store.hasFile (some id) := by
    intro event hmem id hid
    rw [hslices] at hmem
    obtain ⟨identity, rfl⟩ | hmem := Job.eq_or_mem_of_mem_reportAll hmem
    · cases hid
    · exact hfile event hmem id hid
  have hannounced : Announced [] slices.flatten :=
    hslices ▸ (Job.start name).announced_reportAll findings
  obtain ⟨r, hr⟩ := exists_syncAll_singletons index hs hsent hannounced (List.forall_mem_nil _)
  exact ⟨r, syncAll_of_syncAll_singletons hr, sync_of_syncAll_singletons hr⟩

/-- The symbols of two classes and a use, cut between the announcement of the second class and its
symbol. -/
theorem syncAll_eq_sync_two :
    let index : Index := ⟨⟨[⟨1, "A.class", "A.class", none, false, none⟩], [], [], []⟩, .empty⟩
    let findings : List Event := [.symbol { Symbol.ofClass "A" with file := some 1 },
      .symbol (.ofClass "B"), .reference ⟨.superclass, 1, .ofClass "B", .ofClass "A", none⟩]
    let events := ((Job.start "A.class").reportAll findings).1
    index.store.HasFiles ∧
      (∀ finding ∈ findings, ∀ id ∈ finding.file?, index.store.hasFile (some id)) ∧
      ∃ r, index.syncAll [events.take 3, events.drop 3] = .ok r ∧
        index.sync [events.take 3, events.drop 3].flatten = .ok r := by
  intro index findings events
  have hs : index.store.HasFiles := List.forall_mem_nil _
  have hfile : ∀ finding ∈ findings, ∀ id ∈ finding.file?, index.store.hasFile (some id) := by
    simp [findings, Event.file?, Symbol.ofClass, hasFile, index]
  have hslices : [events.take 3, events.drop 3].flatten = ((Job.start "A.class").reportAll findings).1 := by
    simp [events]
  exact ⟨hs, hfile, syncAll_eq_sync hslices hs hfile⟩

end Index

end ClassAtlas
