import ClassAtlas.Proofs.Store.Changes

/-!
# Writing to one symbol again and again

A symbol is written by whoever declares it and by whoever mentions it, in any order. All writes go to
one row: the first of them fixes kind and name, the first one that declares fixes the declaring file,
the access flags and the signature, and the first one that has an owner fixes the owner. If only one
declaration is among the writes, and they agree on the rest, then their order does not matter.

## Main definitions

* `ClassAtlas.Store.incoming`, `ClassAtlas.Store.withSymbol` — the row that a write brings, and a store
  with one more row.
* `ClassAtlas.Store.settled` — the row after a first write and further ones.
* `ClassAtlas.Store.Settles` — what such writes do.

## Main results

* `ClassAtlas.Store.insertSymbol_eq_ok_iff` — when a write succeeds, and what it does.
* `ClassAtlas.Store.foldl_mergeSymbol` — a row of merges, column by column.
* `ClassAtlas.Store.settles_insertSymbol` — the row after writes in turn, and in any order.
-/

set_option autoImplicit false

namespace ClassAtlas.Store

variable {s s' : Store} {number id : RowId}

/-! ### One write -/

/-- The row that a write to the symbol of the identity `number` brings. -/
def incoming (s : Store) (number : RowId) (symbol : Symbol) : SymbolRow where
  id := nextId (s.symbols.map SymbolRow.id)
  identity := number
  kind := symbol.kind
  name := symbol.name
  file := symbol.file
  owner := symbol.owner.bind s.identityId?
  access := symbol.access
  signature := symbol.signature

/-- Whether the owner that a write names is known. -/
def OwnerKnown (s : Store) (symbol : Symbol) : Prop :=
  ∀ owner ∈ symbol.owner, (s.identityId? owner).isSome

lemma mapM_requireIdentity_eq_ok_iff {symbol : Symbol} {owner : Option RowId} :
    symbol.owner.mapM requireIdentity s = .ok (owner, s') ↔
      s.OwnerKnown symbol ∧ owner = symbol.owner.bind s.identityId? ∧ s' = s := by
  unfold OwnerKnown
  cases symbol.owner with
  | none =>
    constructor
    · intro h
      cases h
      exact ⟨nofun, rfl, rfl⟩
    · rintro ⟨-, rfl, rfl⟩
      rfl
  | some identity =>
    have hmap : (some identity).mapM requireIdentity s = .ok (owner, s') ↔
        ∃ id, requireIdentity identity s = .ok (id, s') ∧ some id = owner :=
      Transaction.map_eq_ok_iff
    rw [hmap]
    constructor
    · rintro ⟨id, hid, rfl⟩
      obtain ⟨hid, rfl⟩ := requireIdentity_eq_ok_iff.mp hid
      exact ⟨fun _ h => by rw [← Option.mem_some_iff.mp h, hid]; rfl, hid.symm, rfl⟩
    · rintro ⟨hknown, rfl, rfl⟩
      obtain ⟨id, hid⟩ := Option.isSome_iff_exists.mp (hknown identity rfl)
      exact ⟨id, requireIdentity_eq_ok_iff.mpr ⟨hid, rfl⟩, hid.symm⟩

/-- A write of the tables that a rule guards. -/
lemma write_eq_ok_iff {rule : Bool} {fault : Error} {written : Store} {result : RowId} :
    (if rule then do set written; return result else throw fault : Transaction RowId) s =
        .ok (id, s') ↔ rule ∧ id = result ∧ s' = written := by
  cases rule with
  | true =>
    constructor
    · intro h
      cases h
      exact ⟨rfl, rfl, rfl⟩
    · rintro ⟨-, rfl, rfl⟩
      rfl
  | false => exact iff_of_false nofun nofun

/-- **A write succeeds** if the owner is known and the file that the row names then exists. -/
theorem insertSymbol_eq_ok_iff {symbol : Symbol}
    (hknown : s.identityId? symbol.identity = some number) :
    insertSymbol symbol s = .ok (id, s') ↔ s.OwnerKnown symbol ∧
      match s.symbols.find? (·.identity == number) with
      | some row => s.hasFile (row.file.or symbol.file) ∧ id = row.id ∧
          s' = s.modifySymbol row.id fun _ => mergeSymbol row (s.incoming number symbol)
      | none => s.hasFile symbol.file ∧ id = nextId (s.symbols.map SymbolRow.id) ∧
          s' = { s with symbols := s.symbols ++ [s.incoming number symbol] } := by
  rw [insertSymbol, Transaction.bind_apply_of_eq_ok (requireIdentity_eq_ok_iff.mpr ⟨hknown, rfl⟩)]
  by_cases howner : s.OwnerKnown symbol
  · rw [Transaction.bind_apply_of_eq_ok
      (mapM_requireIdentity_eq_ok_iff.mpr ⟨howner, rfl, rfl⟩), Transaction.get_bind_apply,
      and_iff_right howner]
    cases s.symbols.find? (·.identity == number) with
    | some row => exact write_eq_ok_iff
    | none => exact write_eq_ok_iff
  · refine iff_of_false (fun h => howner ?_) fun h => howner h.1
    obtain ⟨owner, m, hmap, -⟩ := Transaction.bind_eq_ok_iff.mp h
    exact (mapM_requireIdentity_eq_ok_iff.mp hmap).1

/-! ### Writes in turn -/

/-- The row of the symbol after a first write and further ones. -/
def settled (s : Store) (number : RowId) (first : Symbol) (rest : List Symbol) : SymbolRow :=
  let writes := first :: rest
  -- the first declaration, or the first mention if nothing declares
  let source := (writes.find? (·.file.isSome)).getD first
  { id := nextId (s.symbols.map SymbolRow.id)
    identity := number
    kind := first.kind
    name := first.name
    file := writes.findSome? Symbol.file
    owner := (writes.findSome? Symbol.owner).bind s.identityId?
    access := source.access
    signature := source.signature }

/-- A store with one more symbol. -/
def withSymbol (s : Store) (row : SymbolRow) : Store :=
  { s with symbols := s.symbols ++ [row] }

/-- **A write to the last symbol** is merged into its row. -/
lemma insertSymbol_withSymbol_eq_ok_iff {row : SymbolRow} {symbol : Symbol}
    (hknown : s.identityId? symbol.identity = some row.identity)
    (hnew : ∀ other ∈ s.symbols, other.identity ≠ row.identity ∧ other.id ≠ row.id) :
    insertSymbol symbol (s.withSymbol row) = .ok (id, s') ↔
      s.OwnerKnown symbol ∧ s.hasFile (row.file.or symbol.file) ∧ id = row.id ∧
        s' = s.withSymbol (mergeSymbol row (s.incoming row.identity symbol)) := by
  have hknown' : (s.withSymbol row).identityId? symbol.identity = some row.identity := hknown
  have hfind : (s.withSymbol row).symbols.find? (·.identity == row.identity) = some row := by
    have hnone : s.symbols.find? (·.identity == row.identity) = none :=
      List.find?_eq_none.mpr fun other ho => by simpa using (hnew other ho).1
    simp [withSymbol, hnone]
  have hmodify (f : SymbolRow → SymbolRow) :
      (s.withSymbol row).modifySymbol row.id f = s.withSymbol (f row) := by
    have hsame : s.symbols.map (fun other => if other.id = row.id then f other else other) =
        s.symbols := by
      conv_rhs => rw [← List.map_id s.symbols]
      exact List.map_congr_left fun other ho => if_neg (hnew other ho).2
    simp [modifySymbol, withSymbol, hsame]
  rw [insertSymbol_eq_ok_iff hknown', hfind]
  dsimp only
  rw [hmodify]
  rfl

/-- A file that was there first stays, and only the first one has to exist. -/
lemma hasFile_or_iff {file file' : Option RowId} :
    s.hasFile file ∧ s.hasFile (file.or file') ↔ s.hasFile (file.or file') := by
  cases file with
  | none => simp [hasFile]
  | some _ => simp

/-- The first result of a list is that of the head, or else that of the tail. -/
lemma findSome?_cons_eq_or {α β : Type} {f : α → Option β} {a : α} {as : List α} :
    (a :: as).findSome? f = (f a).or (as.findSome? f) := by
  rw [List.findSome?_cons]
  cases f a <;> rfl

/-- Writes to the last symbol are merged into its row one after the other. -/
lemma mapM_insertSymbol_withSymbol {row : SymbolRow} {identity : Identity} {writes : List Symbol}
    {ids : List RowId} (hknown : s.identityId? identity = some row.identity)
    (hnew : ∀ other ∈ s.symbols, other.identity ≠ row.identity ∧ other.id ≠ row.id)
    (hsame : ∀ write ∈ writes, write.identity = identity) (hfile : s.hasFile row.file) :
    writes.mapM insertSymbol (s.withSymbol row) = .ok (ids, s') ↔
      (∀ write ∈ writes, s.OwnerKnown write) ∧
        s.hasFile (row.file.or (writes.findSome? Symbol.file)) ∧
        ids = List.replicate writes.length row.id ∧
        s' = s.withSymbol (writes.foldl
          (fun row write => mergeSymbol row (s.incoming row.identity write)) row) := by
  induction writes generalizing row ids with
  | nil =>
    rw [List.mapM_nil, Transaction.pure_apply]
    constructor
    · intro h
      cases h
      exact ⟨by simp, by simpa using hfile, rfl, rfl⟩
    · rintro ⟨-, -, rfl, rfl⟩
      rfl
  | cons write writes ih =>
    let row₁ := mergeSymbol row (s.incoming row.identity write)
    have hhead := hsame write List.mem_cons_self
    have htail := fun w hw => hsame w (List.mem_cons_of_mem write hw)
    have hfirst {a : RowId} {m : Store} : insertSymbol write (s.withSymbol row) = .ok (a, m) ↔ _ :=
      insertSymbol_withSymbol_eq_ok_iff (hhead ▸ hknown) hnew
    -- the row after the first of the writes is again the last one
    have hrest {bs : List RowId} (h₁ : s.hasFile row₁.file) :
        writes.mapM insertSymbol (s.withSymbol row₁) = .ok (bs, s') ↔ _ :=
      ih hknown hnew htail h₁
    have hwhole : s.hasFile (row.file.or ((write :: writes).findSome? Symbol.file)) ↔
        s.hasFile row₁.file ∧ s.hasFile (row₁.file.or (writes.findSome? Symbol.file)) := by
      rw [hasFile_or_iff, findSome?_cons_eq_or, ← Option.or_assoc]
      rfl
    rw [hwhole, Transaction.mapM_cons_eq_ok_iff, List.forall_mem_cons]
    constructor
    · rintro ⟨a, m, bs, ha, hbs, rfl⟩
      obtain ⟨howner, hfile₁, rfl, rfl⟩ := hfirst.mp ha
      obtain ⟨howners, hfiles, rfl, rfl⟩ := (hrest hfile₁).mp hbs
      exact ⟨⟨howner, howners⟩, ⟨hfile₁, hfiles⟩, rfl, rfl⟩
    · rintro ⟨⟨howner, howners⟩, ⟨hfile₁, hfiles⟩, rfl, rfl⟩
      exact ⟨row.id, _, _, hfirst.mpr ⟨howner, hfile₁, rfl, rfl⟩,
        (hrest hfile₁).mpr ⟨howners, hfiles, rfl, rfl⟩, rfl⟩

/-- **Merging writes into a row**, column by column: the first declaration brings file, access flags and
signature, and the first owner stays. -/
lemma foldl_mergeSymbol (s : Store) (row : SymbolRow) (writes : List Symbol) :
    writes.foldl (fun row write => mergeSymbol row (s.incoming row.identity write)) row =
      { row with
        file := row.file.or (writes.findSome? Symbol.file)
        owner := row.owner.or (writes.findSome? fun write => write.owner.bind s.identityId?)
        access := if row.file.isSome then row.access
          else ((writes.find? (·.file.isSome)).map Symbol.access).getD row.access
        signature := if row.file.isSome then row.signature
          else ((writes.find? (·.file.isSome)).map Symbol.signature).getD row.signature } := by
  induction writes generalizing row with
  | nil => simp
  | cons write writes ih =>
    rw [List.foldl_cons, ih]
    cases hrow : row.file <;> cases hwrite : write.file <;>
      simp [mergeSymbol, incoming, hrow, hwrite, Option.or_assoc, findSome?_cons_eq_or]

/-- The first owner that is named is the first one that is known, if all of them are. -/
lemma findSome?_bind_identityId? {writes : List Symbol} (h : ∀ write ∈ writes, s.OwnerKnown write) :
    (writes.findSome? fun write => write.owner.bind s.identityId?) =
      (writes.findSome? Symbol.owner).bind s.identityId? := by
  induction writes with
  | nil => rfl
  | cons write writes ih =>
    obtain ⟨hwrite, hwrites⟩ := List.forall_mem_cons.mp h
    rw [findSome?_cons_eq_or, findSome?_cons_eq_or, ih hwrites]
    cases howner : write.owner with
    | none => rfl
    | some owner =>
      obtain ⟨id, hid⟩ := Option.isSome_iff_exists.mp (hwrite owner howner)
      simp [hid]

/-- The first write adds a row, and the further ones are merged into it. -/
lemma foldl_incoming {first : Symbol} {rest : List Symbol}
    (h : ∀ write ∈ first :: rest, s.OwnerKnown write) :
    rest.foldl (fun row write => mergeSymbol row (s.incoming row.identity write))
      (s.incoming number first) = s.settled number first rest := by
  have howner : (s.incoming number first).owner.or
      (rest.findSome? fun write => write.owner.bind s.identityId?) =
        ((first :: rest).findSome? Symbol.owner).bind s.identityId? := by
    rw [← findSome?_bind_identityId? h, findSome?_cons_eq_or]
    rfl
  rw [foldl_mergeSymbol, howner]
  cases hfile : first.file with
  | some file => simp [settled, incoming, hfile]
  | none =>
    cases hfind : rest.find? (·.file.isSome) <;> simp [settled, incoming, hfile, hfind]

/-- **Writes to a new symbol** succeed if the owners are known and the first declaring file exists. They all
return the same number, and the store has one more row. -/
theorem mapM_insertSymbol_eq_ok_iff {identity : Identity} {first : Symbol} {rest : List Symbol}
    {ids : List RowId} (hknown : s.identityId? identity = some number)
    (hnew : ∀ row ∈ s.symbols, row.identity ≠ number)
    (hsame : ∀ write ∈ first :: rest, write.identity = identity) :
    (first :: rest).mapM insertSymbol s = .ok (ids, s') ↔
      (∀ write ∈ first :: rest, s.OwnerKnown write) ∧
        s.hasFile ((first :: rest).findSome? Symbol.file) ∧
        ids = List.replicate (rest.length + 1) (nextId (s.symbols.map SymbolRow.id)) ∧
        s' = s.withSymbol (s.settled number first rest) := by
  obtain ⟨hfirst, hrest⟩ := List.forall_mem_cons.mp hsame
  have hnone : s.symbols.find? (·.identity == number) = none :=
    List.find?_eq_none.mpr fun row hr => by simpa using hnew row hr
  have hhead {a : RowId} {m : Store} : insertSymbol first s = .ok (a, m) ↔ _ :=
    insertSymbol_eq_ok_iff (hfirst.symm ▸ hknown)
  simp only [hnone] at hhead
  have htail {bs : List RowId} (hfile : s.hasFile first.file) :
      rest.mapM insertSymbol (s.withSymbol (s.incoming number first)) = .ok (bs, s') ↔ _ :=
    mapM_insertSymbol_withSymbol hknown
      (fun row hr => ⟨hnew row hr, fun he => nextId_notMem _ (List.mem_map.mpr ⟨row, hr, he⟩)⟩)
      hrest hfile
  rw [Transaction.mapM_cons_eq_ok_iff, findSome?_cons_eq_or, ← hasFile_or_iff]
  constructor
  · rintro ⟨a, m, bs, ha, hbs, rfl⟩
    obtain ⟨howner, hfile, rfl, rfl⟩ := hhead.mp ha
    obtain ⟨howners, hfiles, rfl, rfl⟩ := (htail hfile).mp hbs
    have hall := List.forall_mem_cons.mpr ⟨howner, howners⟩
    exact ⟨hall, ⟨hfile, hfiles⟩, rfl, congrArg s.withSymbol (foldl_incoming hall)⟩
  · rintro ⟨hall, ⟨hfile, hfiles⟩, rfl, rfl⟩
    obtain ⟨howner, howners⟩ := List.forall_mem_cons.mp hall
    have hmerged : s.withSymbol _ = s.withSymbol (s.settled number first rest) :=
      congrArg s.withSymbol (foldl_incoming hall)
    exact ⟨_, _, _, hhead.mpr ⟨howner, hfile, rfl, rfl⟩,
      (htail hfile).mpr ⟨howners, hfiles, rfl, hmerged.symm⟩, rfl⟩

/-! ### Writes in any order -/

/-- The first result of a list is the only one. -/
lemma findSome?_eq_of_forall {α β : Type} {f : α → Option β} {as : List α} {a : α} (ha : a ∈ as)
    (h : ∀ other ∈ as, (f other).isSome → f other = f a) : as.findSome? f = f a := by
  cases hfound : as.findSome? f with
  | none => exact (List.findSome?_eq_none_iff.mp hfound a ha).symm
  | some b =>
    obtain ⟨other, hother, hb⟩ := List.exists_of_findSome?_eq_some hfound
    rw [← hb]
    exact h other hother (by rw [hb]; rfl)

/-- If all writes agree but for one declaration, then the row is the one that the declaration brings. -/
lemma settled_eq_incoming {first declaration : Symbol} {rest : List Symbol}
    (hmem : declaration ∈ first :: rest) (hfile : declaration.file.isSome)
    (hagree : ∀ write ∈ first :: rest, write.kind = declaration.kind ∧
      write.name = declaration.name ∧ write.owner = declaration.owner ∧
      (write.file.isSome → write = declaration)) :
    s.settled number first rest = s.incoming number declaration := by
  have hfind : (first :: rest).find? (·.file.isSome) = some declaration := by
    obtain ⟨write, hwrite⟩ := Option.isSome_iff_exists.mp
      (List.find?_isSome (p := fun write : Symbol => write.file.isSome).mpr
        ⟨declaration, hmem, hfile⟩)
    have hs : write.file.isSome :=
      List.find?_some (p := fun write : Symbol => write.file.isSome) hwrite
    rw [hwrite, (hagree write (List.mem_of_find?_eq_some hwrite)).2.2.2 hs]
  have hfiles : (first :: rest).findSome? Symbol.file = declaration.file :=
    findSome?_eq_of_forall hmem fun write hw hs => congrArg Symbol.file ((hagree write hw).2.2.2 hs)
  have howners : (first :: rest).findSome? Symbol.owner = declaration.owner :=
    findSome?_eq_of_forall hmem fun write hw _ => (hagree write hw).2.2.1
  obtain ⟨hkind, hname, -⟩ := hagree first List.mem_cons_self
  simp only [settled, incoming, hfind, hfiles, howners, hkind, hname, Option.getD_some]

/-- What writes to one symbol do, one after the other: which of them succeed, what they return, the row
that they leave, and how little of it depends on their order. -/
structure Settles (s : Store) (number : RowId) (first : Symbol) (rest : List Symbol) : Prop where
  /-- The writes succeed if all owners are known and the first declaring file exists. -/
  succeeds_iff : (∃ result, (first :: rest).mapM insertSymbol s = .ok result) ↔
    (∀ write ∈ first :: rest, s.OwnerKnown write) ∧
      s.hasFile ((first :: rest).findSome? Symbol.file)
  /-- They all return the same number, and the store has one more row. -/
  result_eq : ∀ result, (first :: rest).mapM insertSymbol s = .ok result →
    result = (List.replicate (rest.length + 1) (s.settled number first rest).id,
      s.withSymbol (s.settled number first rest))
  /-- A mention and a declaration that agree on kind, name and owner can come in any order. -/
  perm : ∀ declaration ∈ first :: rest, declaration.file.isSome →
    (∀ write ∈ first :: rest, write.kind = declaration.kind ∧ write.name = declaration.name ∧
      write.owner = declaration.owner ∧ (write.file.isSome → write = declaration)) →
    ∀ writes : List Symbol, writes.Perm (first :: rest) →
      ∀ result, (first :: rest).mapM insertSymbol s = .ok result →
        writes.mapM insertSymbol s = .ok result

/-- **A declaration wins, in any order.** Writes to a known identity without a symbol leave one row. Kind and
name are those of the first write; file, access flags and signature are those of the first declaration,
if there is one; the owner is the first one that is named.

**Proof sketch.** The first write adds a row at the end, and every further one finds it there and is
merged into it. The merges are a fold over the writes, which is computed column by column. -/
theorem settles_insertSymbol {identity : Identity} {first : Symbol} {rest : List Symbol}
    (hknown : s.identityId? identity = some number)
    (hnew : ∀ row ∈ s.symbols, row.identity ≠ number)
    (hsame : ∀ write ∈ first :: rest, write.identity = identity) :
    s.Settles number first rest where
  succeeds_iff := by
    simp only [Prod.exists, mapM_insertSymbol_eq_ok_iff hknown hnew hsame]
    simp
  result_eq := by
    rintro ⟨ids, s'⟩ h
    obtain ⟨-, -, rfl, rfl⟩ := (mapM_insertSymbol_eq_ok_iff hknown hnew hsame).mp h
    rfl
  perm := by
    rintro declaration hmem hfile hagree writes hperm ⟨ids, s'⟩ h
    obtain ⟨howners, hexists, rfl, rfl⟩ :=
      (mapM_insertSymbol_eq_ok_iff hknown hnew hsame).mp h
    cases writes with
    | nil => exact absurd hperm.length_eq (by simp)
    | cons first' rest' =>
      have hmem' := hperm.mem_iff.mpr hmem
      have hagree' := fun write hw => hagree write (hperm.mem_iff.mp hw)
      have hsettled : s.settled number first rest = s.incoming number declaration :=
        settled_eq_incoming hmem hfile hagree
      have hsettled' : s.settled number first' rest' = s.incoming number declaration :=
        settled_eq_incoming hmem' hfile hagree'
      have hfiles : (first' :: rest').findSome? Symbol.file =
          (first :: rest).findSome? Symbol.file :=
        congrArg SymbolRow.file (hsettled'.trans hsettled.symm)
      refine (mapM_insertSymbol_eq_ok_iff hknown hnew
        fun write hw => hsame write (hperm.mem_iff.mp hw)).mpr ⟨fun write hw => ?_, ?_, ?_, ?_⟩
      · exact howners write (hperm.mem_iff.mp hw)
      · rwa [hfiles]
      · rw [Nat.succ.inj hperm.length_eq]
      · rw [hsettled, hsettled']

/-- A store with two files, and with the identities of a class and of a field of it. -/
def twoFiles : Store where
  files := [⟨1, "A.class", "A.class", none, false, none⟩, ⟨2, "B.class", "B.class", none, false, none⟩]
  identities := [⟨1, .ofClass "A"⟩, ⟨2, .ofField (.ofClass "A") "f" "I"⟩]
  symbols := [⟨4, 1, .classSymbol, "A", some 1, none, 33, none⟩]
  references := []

/-- A write to the field of the class. -/
def fieldWrite (file : Option RowId) (owner : Option Identity) (access : UInt16) : Symbol :=
  ⟨.fieldSymbol, .ofField (.ofClass "A") "f" "I", "f", file, owner, access, none⟩

/-- A mention without an owner comes first, then two declarations: the first of these wins, and the owner
comes from it. -/
theorem settles_twoFiles :
    twoFiles.Settles 2 (fieldWrite none none 0)
        [fieldWrite (some 2) (some (.ofClass "A")) 2, fieldWrite (some 1) none 1] ∧
      [fieldWrite none none 0, fieldWrite (some 2) (some (.ofClass "A")) 2,
        fieldWrite (some 1) none 1].mapM insertSymbol twoFiles =
        .ok ([5, 5, 5], twoFiles.withSymbol ⟨5, 2, .fieldSymbol, "f", some 2, some 1, 2, none⟩) := by
  have hsame : ∀ write ∈ [fieldWrite none none 0, fieldWrite (some 2) (some (.ofClass "A")) 2,
      fieldWrite (some 1) none 1], write.identity = .ofField (.ofClass "A") "f" "I" := by
    simp [fieldWrite]
  refine ⟨settles_insertSymbol ?_ ?_ hsame, ?_⟩ <;> decide +kernel

end ClassAtlas.Store
