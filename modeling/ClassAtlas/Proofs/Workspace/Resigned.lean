import ClassAtlas.Proofs.TypeText.Marks
import ClassAtlas.Proofs.Workspace.Reachable

/-!
# Signatures after a rename

A rename of a class writes a new signature to some symbols, and the others keep theirs. The class itself
and the symbols that the store finds to mention it are those that are looked at, and in their signatures
the class is replaced wherever it is named. But the store finds a signature only by a `;` or a `<` after
the name. A signature that names the class only with a `.` after it, as the class of which a member class
is meant, is missed.

## Main definitions

* `ClassAtlas.RenamePlan.newSignatures` — the signatures that a plan writes.
* `ClassAtlas.Store.Resigned` — the tables before and after signatures were written.
* `ClassAtlas.ClassRename.Resigns` — a signature before and after the rename of a class.

## Main results

* `ClassAtlas.RenamePlan.resigned_of_commit` — the signatures after a commit.
* `ClassAtlas.Store.mem_newSignatures_iff` — the signatures that the plan for a class writes.
* `ClassAtlas.RenamePlan.resigns_of_resigned` — the signature of a symbol after the rename of a class.
* `ClassAtlas.Index.mark_of_rename_class` — the signatures that still name a renamed class.
* `ClassAtlas.Index.exists_unresigned` — a signature that is missed.
-/

set_option autoImplicit false

namespace ClassAtlas

/-! ### Written signatures -/

/-- The signature that a migration writes, with the number of the symbol. -/
def Migration.newSignature? (m : Migration) : Option (RowId × String) :=
  m.signature.map fun signature => (m.symbol.id, signature)

/-- The signatures that a plan writes, with the numbers of the symbols. -/
def RenamePlan.newSignatures (plan : RenamePlan) : List (RowId × String) :=
  plan.migrations.filterMap Migration.newSignature? ++ plan.resignatures

variable {written written' : List (RowId × String)} {s s' s₁ s₂ s₃ : Store}

/-- A symbol before and after signatures were written: it has one of those that were written to it, or
none was and it has its own. -/
structure SymbolRow.Resigned (written : List (RowId × String)) (row row' : SymbolRow) : Prop where
  /-- The number is kept. -/
  id : row'.id = row.id
  /-- The signature is kept or written. -/
  signature : (∀ p ∈ written, p.1 ≠ row.id) ∧ row'.signature = row.signature ∨
    ∃ p ∈ written, p.1 = row.id ∧ row'.signature = some p.2

theorem SymbolRow.Resigned.trans {row row' row'' : SymbolRow} (h : row.Resigned written row')
    (h' : row'.Resigned written' row'') : row.Resigned (written ++ written') row'' := by
  refine ⟨h'.id.trans h.id, ?_⟩
  rcases h'.signature with ⟨hnone', he'⟩ | ⟨p, hp, hid, he'⟩
  · rw [h.id] at hnone'
    rcases h.signature with ⟨hnone, he⟩ | ⟨p, hp, hid, he⟩
    · refine .inl ⟨fun p hp => ?_, he'.trans he⟩
      rcases List.mem_append.mp hp with hp | hp
      · exact hnone p hp
      · exact hnone' p hp
    · exact .inr ⟨p, List.mem_append_left _ hp, hid, he'.trans he⟩
  · exact .inr ⟨p, List.mem_append_right _ hp, hid.trans h.id, he'⟩

namespace Store

open Transaction (bind_eq_ok_iff)

/-- The tables before and after signatures were written: every symbol was there before. -/
def Resigned (written : List (RowId × String)) (before after : Store) : Prop :=
  ∀ row' ∈ after.symbols, ∃ row ∈ before.symbols, row.Resigned written row'

theorem Resigned.trans (h : s₁.Resigned written s₂) (h' : s₂.Resigned written' s₃) :
    s₁.Resigned (written ++ written') s₃ := by
  intro row'' hrow''
  obtain ⟨row', hrow', hr'⟩ := h' row'' hrow''
  obtain ⟨row, hrow, hr⟩ := h row' hrow'
  exact ⟨row, hrow, hr.trans hr'⟩

/-- A change that keeps the signatures of the symbols writes none. -/
theorem resigned_nil (h : ∀ row' ∈ s'.symbols, ∃ row ∈ s.symbols, row'.id = row.id ∧
    row'.signature = row.signature) : s.Resigned [] s' := by
  intro row' hrow'
  obtain ⟨row, hrow, hid, he⟩ := h row' hrow'
  exact ⟨row, hrow, hid, .inl ⟨by simp, he⟩⟩

theorem resigned_of_symbols_eq (h : s'.symbols = s.symbols) : s.Resigned [] s' :=
  resigned_nil fun row' hrow' => ⟨row', h ▸ hrow', rfl, rfl⟩

theorem resigned_setSymbolName {symbol : RowId} {name : String} {u : Unit}
    (h : setSymbolName symbol name s = .ok (u, s')) : s.Resigned [] s' := by
  cases h
  refine resigned_nil (List.forall_mem_map.mpr fun row hrow => ⟨row, hrow, ?_⟩)
  split <;> exact ⟨rfl, rfl⟩

theorem resigned_setSymbolSignature {symbol : RowId} {signature : String} {u : Unit}
    (h : setSymbolSignature symbol signature s = .ok (u, s')) :
    s.Resigned [(symbol, signature)] s' := by
  cases h
  refine List.forall_mem_map.mpr fun row hrow => ⟨row, hrow, ?_⟩
  split
  · rename_i hid
    exact ⟨rfl, .inr ⟨_, List.mem_cons_self, hid.symm, rfl⟩⟩
  · rename_i hne
    refine ⟨rfl, .inl ⟨fun p hp => ?_, rfl⟩⟩
    rw [List.mem_singleton.mp hp]
    exact Ne.symm hne

theorem resigned_moveSymbol {symbol number : RowId} {identity : Identity} (hs : s.Consistent)
    (h : moveSymbol symbol identity s = .ok (number, s')) : s.Resigned [] s' := by
  obtain ⟨row, -, -, ⟨-, -, rfl⟩ | ⟨-, -, rfl⟩ | ⟨-, -, -, rfl⟩⟩ := eq_or_of_moveSymbol hs h
  · exact resigned_of_symbols_eq rfl
  · exact resigned_of_symbols_eq rfl
  · refine resigned_nil (List.forall_mem_map.mpr fun row hrow => ?_)
    exact ⟨row, List.mem_of_mem_filter hrow, rfl, rfl⟩

end Store

namespace RenamePlan

open Store
open Transaction (Keeps bind_eq_ok_iff mapM_cons_eq_ok_iff)

variable {m : Migration} {ms : List Migration} {number : RowId} {numbers : List RowId}

theorem resigned_migrate (hs : s.Consistent) (h : migrate m s = .ok (number, s')) :
    s.Resigned m.newSignature?.toList s' := by
  obtain ⟨_, s₁, hname, hrest⟩ := bind_eq_ok_iff.mp h
  obtain ⟨_, s₂, hmove, hrest⟩ := bind_eq_ok_iff.mp hrest
  obtain ⟨_, s₃, hsignature, hend⟩ := bind_eq_ok_iff.mp hrest
  cases hend
  have hs₁ : s₁.Consistent :=
    Keeps.optionForM m.name (fun name => keeps_setSymbolName name) _ _ _ hname hs
  have h₁ : s.Resigned [] s₁ := by
    cases hn : m.name with
    | none =>
      rw [hn] at hname
      cases hname
      exact resigned_of_symbols_eq rfl
    | some name =>
      rw [hn] at hname
      exact resigned_setSymbolName hname
  have h₃ : s₂.Resigned m.newSignature?.toList s' := by
    rw [Migration.newSignature?]
    cases hn : m.signature with
    | none =>
      rw [hn] at hsignature
      cases hsignature
      exact resigned_of_symbols_eq rfl
    | some signature =>
      rw [hn] at hsignature
      exact resigned_setSymbolSignature hsignature
  exact (h₁.trans (resigned_moveSymbol hs₁ hmove)).trans h₃

theorem resigned_mapM_migrate (hs : s.Consistent) (h : ms.mapM migrate s = .ok (numbers, s')) :
    s.Resigned (ms.filterMap Migration.newSignature?) s' := by
  induction ms generalizing s numbers with
  | nil =>
    cases h
    exact resigned_of_symbols_eq rfl
  | cons m ms ih =>
    obtain ⟨number, s₁, more, hfirst, hrest, rfl⟩ := mapM_cons_eq_ok_iff.mp h
    have hresigned := (resigned_migrate hs hfirst).trans (ih (keeps_migrate _ _ _ _ hfirst hs) hrest)
    rw [List.filterMap_cons]
    cases hm : m.newSignature? with
    | none => simpa [hm] using hresigned
    | some p => simpa [hm] using hresigned

theorem resigned_resignatures {resignatures : List (RowId × String)} {u : Unit}
    (h : resignatures.forM (fun p : RowId × String => setSymbolSignature p.1 p.2) s = .ok (u, s')) :
    s.Resigned resignatures s' := by
  induction resignatures generalizing s with
  | nil =>
    cases h
    exact resigned_of_symbols_eq rfl
  | cons p resignatures ih =>
    obtain ⟨_, s₁, hfirst, hrest⟩ := bind_eq_ok_iff.mp h
    exact (resigned_setSymbolSignature hfirst).trans (ih hrest)

/-- **The signatures after a commit** are those that the plan writes, and the others stay. -/
theorem resigned_of_commit {plan : RenamePlan} {revisions : List (FileRow × List UInt8)}
    {outcome : RenameOutcome} (hs : s.Consistent)
    (h : plan.commit revisions s = .ok ((outcome, numbers), s')) :
    s.Resigned plan.newSignatures s' := by
  obtain ⟨s₂, s₃, honly, hs₂, hmigrate, hsignatures⟩ := exists_onlyFiles_of_commit hs h
  have hfiles : s.Resigned [] s₂ := resigned_of_symbols_eq honly.symbols_eq
  exact (hfiles.trans (resigned_mapM_migrate hs₂ hmigrate)).trans (resigned_resignatures hsignatures)

end RenamePlan

/-! ### Planned signatures -/

namespace Store

variable {identity : Identity} {newName : String} {plan : RenamePlan} {r : ClassRename}
  {symbols : List StoredSymbol} {migrations : List Migration} {resignatures : List (RowId × String)}

theorem mem_toList_map_iff {text? : Option String} {id : RowId} {p : RowId × String} :
    p ∈ (text?.map fun text => (id, text)).toList ↔ id = p.1 ∧ text? = some p.2 := by
  rw [Option.mem_toList, Option.map_eq_some_iff]
  constructor
  · rintro ⟨text, htext, rfl⟩
    exact ⟨rfl, htext⟩
  · rintro ⟨rfl, htext⟩
    exact ⟨p.2, htext, rfl⟩

/-- The signatures of symbols in which a class is replaced. -/
theorem newSignatures_of_planDependents (h : s.planDependents identity r symbols =
      .ok (migrations, resignatures)) (p : RowId × String) :
    p ∈ migrations.filterMap Migration.newSignature? ++ resignatures ↔
      ∃ shown ∈ symbols, shown.id = p.1 ∧ shown.symbol.signature.bind r.signature? = some p.2 := by
  induction symbols generalizing migrations resignatures with
  | nil =>
    cases h
    simp
  | cons shown symbols ih =>
    have hown : p ∈ ((shown.symbol.signature.bind r.signature?).map fun text =>
          (shown.id, text)).toList ↔
        shown.id = p.1 ∧ shown.symbol.signature.bind r.signature? = some p.2 :=
      mem_toList_map_iff
    rw [planDependents] at h
    obtain ⟨moved?, -, h⟩ := Except.bind_eq_ok_iff.mp h
    rw [List.exists_mem_cons_iff, ← hown]
    cases moved? with
    | none =>
      obtain ⟨⟨ms, rs⟩, hrest, h⟩ := Except.bind_eq_ok_iff.mp h
      cases h
      rw [← ih hrest]
      simp only [List.mem_append]
      exact or_left_comm
    | some moved =>
      obtain ⟨_, -, h⟩ := Except.bind_eq_ok_iff.mp h
      obtain ⟨⟨ms, rs⟩, hrest, h⟩ := Except.bind_eq_ok_iff.mp h
      cases h
      rw [← ih hrest, List.mem_append, List.mem_append, ← or_assoc, List.filterMap_cons]
      refine or_congr_left ?_
      rw [Migration.newSignature?]
      cases (shown.symbol.signature.bind r.signature?).map fun text => (shown.id, text) with
      | none => simp
      | some q => simp [eq_comm]

/-- **The signatures that the plan for a class writes** are those of the class and of the symbols that
are found to mention it, with the class replaced. -/
theorem mem_newSignatures_iff {symbol : StoredSymbol} (h : s.planClass symbol newName = .ok plan)
    (hr : plan.edit = .ofClass r) (p : RowId × String) :
    p ∈ plan.newSignatures ↔
      ∃ shown, (shown = symbol ∨ shown ∈ s.symbolsMentioning symbol.identityId r.old) ∧
        shown.id = p.1 ∧ shown.symbol.signature.bind r.signature? = some p.2 := by
  obtain ⟨new, ms, rs, -, hdependents, rfl⟩ := eq_of_planClass h
  obtain rfl := Renaming.ofClass.inj hr
  have hrest := newSignatures_of_planDependents hdependents p
  have hprimary : p ∈ ((symbol.symbol.signature.bind (ClassRename.signature?
        ⟨symbol.symbol.identity.className, new⟩)).map fun text => (symbol.id, text)).toList ↔
      symbol.id = p.1 ∧ symbol.symbol.signature.bind (ClassRename.signature?
        ⟨symbol.symbol.identity.className, new⟩) = some p.2 :=
    mem_toList_map_iff
  simp only [or_and_right, exists_or, exists_eq_left]
  rw [← hrest, ← hprimary, RenamePlan.newSignatures, RenamePlan.migrations, List.filterMap_cons,
    Migration.newSignature?]
  cases (symbol.symbol.signature.bind (ClassRename.signature?
    ⟨symbol.symbol.identity.className, new⟩)).map fun text => (symbol.id, text) with
  | none => simp
  | some q => simp [eq_comm]

end Store

/-! ### Signatures that still name a renamed class -/

namespace ClassRename

/-- A signature before and after the rename of a class: the class is replaced in it, or it stays because
the name is not found in it between an `L` and a `;` or a `<`. -/
def Resigns (r : ClassRename) (before after : Option String) : Prop :=
  after = before.map (fun text => (r.signature? text).getD text) ∨
    after = before ∧ ∀ text ∈ before,
      ¬ 'L' :: r.old.toList ++ [';'] <:+: text.toList ∧ ¬ 'L' :: r.old.toList ++ ['<'] <:+: text.toList

/-- No mark can stand in a new name without a `<`. -/
theorem IsProper.plain {r : ClassRename} (h : r.IsProper) (hopen : '<' ∉ r.new.toList) :
    Signature.Plain r.new.toList := by
  intro c hc hmark
  simp only [List.mem_cons, List.not_mem_nil, or_false] at hmark
  rcases hmark with rfl | rfl | rfl
  · exact hopen hc
  · exact h.dot_notMem hc
  · exact h.semicolon hc

end ClassRename

namespace RenamePlan

open Store

variable {symbol : StoredSymbol} {plan : RenamePlan} {r : ClassRename} {newName : String}
  {row row' : SymbolRow}

/-- A signature that the plan writes is that of its symbol, with the class replaced. -/
theorem signature_of_mem_newSignatures (hs : s.Consistent) (hplan : s.planClass symbol newName = .ok plan)
    (hedit : plan.edit = .ofClass r) (hsymbol : ∃ row ∈ s.symbols, s.showSymbol? row = some symbol)
    (hrow : row ∈ s.symbols) {p : RowId × String} (hp : p ∈ plan.newSignatures) (hid : p.1 = row.id) :
    some p.2 = row.signature.map fun text => (r.signature? text).getD text := by
  obtain ⟨shown, hlooked, hid', hrenamed⟩ := (mem_newSignatures_iff hplan hedit p).mp hp
  obtain ⟨row₁, hrow₁, hshown⟩ : ∃ row₁ ∈ s.symbols, s.showSymbol? row₁ = some shown := by
    rcases hlooked with rfl | hlooked
    · exact hsymbol
    · obtain ⟨row₁, hrow₁, hshown, -⟩ := mem_symbolsMentioning_iff.mp hlooked
      exact ⟨row₁, hrow₁, hshown⟩
  obtain ⟨_, -, rfl⟩ := showSymbol?_eq_some_iff.mp hshown
  obtain rfl : row₁ = row :=
    List.inj_on_of_nodup_map hs.symbols.ids hrow₁ hrow (hid'.trans hid)
  obtain ⟨text, htext, hrenamed⟩ := Option.bind_eq_some_iff.mp hrenamed
  have htext : row₁.signature = some text := htext
  rw [htext, Option.map_some, hrenamed, Option.getD_some]

/-- **The signature of a symbol after the rename of a class.** Where the class is not replaced, it is
not found. -/
theorem resigns_of_resigned (hs : s.Consistent) (hplan : s.planClass symbol newName = .ok plan)
    (hedit : plan.edit = .ofClass r) (hsymbol : ∃ row ∈ s.symbols, s.showSymbol? row = some symbol)
    (hrow : row ∈ s.symbols) (hresigned : row.Resigned plan.newSignatures row') :
    r.Resigns row.signature row'.signature := by
  obtain ⟨text, htext⟩ := hs.exists_identity? (hs.symbols.identity_mem row hrow)
  obtain ⟨shown, hshown⟩ : ∃ shown, s.showSymbol? row = some shown :=
    ⟨_, showSymbol?_eq_some_iff.mpr ⟨text, htext, rfl⟩⟩
  have hid : shown.id = row.id ∧ shown.symbol.signature = row.signature := by
    obtain ⟨_, -, rfl⟩ := showSymbol?_eq_some_iff.mp hshown
    exact ⟨rfl, rfl⟩
  rcases hresigned.signature with ⟨hnone, hkept⟩ | ⟨p, hp, hwritten, he⟩
  · by_cases hseen : shown = symbol ∨ shown ∈ s.symbolsMentioning symbol.identityId r.old
    · left
      rw [hkept]
      cases hsignature : row.signature with
      | none => rfl
      | some text =>
        -- what is looked at and not written does not name the class
        cases hrenamed : r.signature? text with
        | none => rw [Option.map_some, hrenamed, Option.getD_none]
        | some renamed =>
          refine absurd rfl (hnone (row.id, renamed) ((mem_newSignatures_iff hplan hedit _).mpr
            ⟨shown, hseen, hid.1, ?_⟩))
          rw [hid.2, hsignature]
          exact hrenamed
    · right
      rw [not_or] at hseen
      have hidentity : row.identity ≠ symbol.identityId := by
        obtain ⟨row₀, hrow₀, hshown₀⟩ := hsymbol
        intro he
        refine hseen.1 (Option.some.inj (hshown.symm.trans ?_))
        have hid₀ : symbol.identityId = row₀.identity := by
          obtain ⟨_, -, rfl⟩ := showSymbol?_eq_some_iff.mp hshown₀
          rfl
        rwa [List.inj_on_of_nodup_map hs.symbols.identities hrow hrow₀ (he.trans hid₀)]
      have hmention (text : String) (htext : text ∈ row.signature)
          (h : 'L' :: r.old.toList ++ [';'] <:+: text.toList ∨
            'L' :: r.old.toList ++ ['<'] <:+: text.toList) : False :=
        hseen.2 (mem_symbolsMentioning_iff.mpr
          ⟨row, hrow, hshown, hidentity, .inr (.inr ⟨text, htext, h⟩)⟩)
      exact ⟨hkept, fun text htext =>
        ⟨fun h => hmention text htext (.inl h), fun h => hmention text htext (.inr h)⟩⟩
  · left
    rw [he]
    exact signature_of_mem_newSignatures hs hplan hedit hsymbol hrow hp hwritten

/-- In a signature that still names the class, nothing was found. -/
theorem mark_of_resigned (hs : s.Consistent) (hplan : s.planClass symbol newName = .ok plan)
    (hedit : plan.edit = .ofClass r) (hr : r.IsProper) (hopen : '<' ∉ r.new.toList)
    (hsymbol : ∃ row ∈ s.symbols, s.showSymbol? row = some symbol) (hrow : row ∈ s.symbols)
    (hresigned : row.Resigned plan.newSignatures row') {signature : String}
    (hsignature : row'.signature = some signature) {names : List String}
    (hnames : Signature.classes? signature = some names) (hold : r.old ∈ names) :
    row.signature = some signature ∧
      'L' :: r.old.toList ++ ['.'] <:+: signature.toList ∧
      ¬ 'L' :: r.old.toList ++ [';'] <:+: signature.toList ∧
      ¬ 'L' :: r.old.toList ++ ['<'] <:+: signature.toList := by
  rcases resigns_of_resigned hs hplan hedit hsymbol hrow hresigned with hreplaced | ⟨hkept, hmarks⟩
  · rw [hsignature] at hreplaced
    obtain ⟨text, -, he⟩ := Option.map_eq_some_iff.mp hreplaced.symm
    have hunnamed : r.signature? signature = none := by
      cases hrenamed : r.signature? text with
      | none => rwa [← he, hrenamed]
      | some renamed =>
        rw [hrenamed, Option.getD_some] at he
        exact he ▸ Signature.cut_segments?.rename_again (hr.plain hopen) hr.ne hrenamed
    exact absurd hold (Signature.rename?_eq_none_iff.mp hunnamed names hnames)
  · have hkept : row.signature = some signature := hkept.symm.trans hsignature
    obtain ⟨hclosed, hgeneric⟩ := hmarks signature hkept
    obtain ⟨c, hc, hmark⟩ := Signature.exists_mark_of_mem_classes hnames hold
    simp only [List.mem_cons, List.not_mem_nil, or_false] at hc
    rcases hc with rfl | rfl | rfl
    · exact absurd hmark hgeneric
    · exact ⟨hkept, hmark, hclosed, hgeneric⟩
    · exact absurd hmark hclosed

end RenamePlan

namespace Index

open Store

variable {index index' : Index} {identity : Identity} {newName new : String} {outcome : RenameOutcome}

/-- **Signatures follow a rename where they are found.** The class gets a name without a `<`. If a
signature names the old class afterwards, then it is one from before that names the class with a `.`
after it, and nowhere does a `;` or a `<` stand after the `L` and the name.

**Proof sketch.** In the signatures that are looked at the class is replaced wherever it is named, and
what comes out does not name it again. All signatures are looked at that have the name between an `L`
and a `;` or a `<`, and there are only three marks that can stand after a name. -/
theorem mark_of_rename_class (h : index.Reachable) {symbol : StoredSymbol}
    (hsymbol : index.store.symbolOf? identity = some symbol)
    (hkind : symbol.symbol.kind = .classSymbol)
    (htarget : targetClassName identity identity.className newName = .ok new)
    (hopen : '<' ∉ new.toList)
    (hrun : rename identity newName index = (.ok outcome, index')) :
    ∀ row' ∈ index'.store.symbols, ∀ signature, row'.signature = some signature →
      ∀ names, Signature.classes? signature = some names → identity.className ∈ names →
        (∃ row ∈ index.store.symbols, row.id = row'.id ∧ row.signature = some signature) ∧
        'L' :: identity.className.toList ++ ['.'] <:+: signature.toList ∧
        ¬ 'L' :: identity.className.toList ++ [';'] <:+: signature.toList ∧
        ¬ 'L' :: identity.className.toList ++ ['<'] <:+: signature.toList := by
  obtain ⟨plan, revisions, numbers, hplan, -, hcommit⟩ := exists_of_rename hrun
  have hs := h.sound
  obtain ⟨new', hnew', hrenames⟩ :=
    RenamePlan.renamesClass_of_planRename hs hsymbol (by rw [hkind]; rfl) hplan
  obtain rfl := Except.ok.inj (hnew'.symm.trans htarget)
  obtain ⟨requested, hclass⟩ := hrenames.planned
  intro row' hrow' signature hsignature names hnames hold
  obtain ⟨row, hmem, hresigned⟩ := RenamePlan.resigned_of_commit hs.consistent hcommit row' hrow'
  obtain ⟨hkept, hmarks⟩ := RenamePlan.mark_of_resigned hs.consistent hclass hrenames.edit
    hrenames.moves.proper hopen hrenames.moves.row hmem hresigned hsignature hnames hold
  exact ⟨⟨row, hmem, hresigned.id.symm, hkept⟩, hmarks⟩

/-! ### A signature that is missed -/

/-- A class `C` with a field whose signature names a member class of `A`, and with a field of lists of
`A`. -/
def generic : ClassFile :=
  { ClassFile.blank with
    pool := ⟨#[none, some (.text "C"), some (.classRef 1), some (.text "f"), some (.text "LA$I;"),
      some (.text "Signature"), some (.text "LA.I;"), some (.text "g"), some (.text "LList;"),
      some (.text "LList<LA;>;")]⟩
    thisClass := 2
    fields := [⟨0, 3, 4, [⟨5, .flat (.signature 6)⟩]⟩, ⟨0, 7, 8, [⟨5, .flat (.signature 9)⟩]⟩] }

/-- The workspace with an archive of the classes `A` and `C`, after it was mapped. -/
def genericIndex : Index :=
  (mapAll .standard (importFile "a.jar"
    (.packed [⟨"A.class", (bareClass "A").encode⟩, ⟨"C.class", generic.encode⟩]) empty).2).2

theorem reachable_genericIndex : genericIndex.Reachable :=
  .mapAll _ (.importFile _ _ .empty)

/-- What has to change if `A` is renamed to `D`. -/
def genericPlan : RenamePlan where
  edit := .ofClass ⟨"A", "D"⟩
  primary := ⟨⟨1, 1, ⟨.classSymbol, ⟨"A"⟩, "A", some 2, none, 0, none⟩⟩, ⟨"D"⟩, some "D", none⟩
  dependents := []
  resignatures := [(4, "LList<LD;>;")]
  fileName := some "D.class"

theorem exists_rename_generic : ∃ outcome index',
    rename ⟨"A"⟩ "D" genericIndex = (.ok outcome, index') ∧
      ⟨3, 3, .fieldSymbol, "f", some 3, some 2, 0, some "LA.I;"⟩ ∈ index'.store.symbols := by
  have hplan : genericIndex.store.planRename ⟨"A"⟩ "D" = .ok genericPlan := by decide +kernel
  have hids : filesOf genericPlan genericIndex.store = [2, 2, 3, 3] := by decide +kernel
  have hsorted : RenamePlan.sorted [2, 2, 3, 3] = [2, 3] := by cbv
  obtain ⟨outcome, index', hrun, hrow⟩ := exists_rename_of_files
    (fun _ store => store.symbols.contains ⟨3, 3, .fieldSymbol, "f", some 3, some 2, 0, some "LA.I;"⟩)
    hplan (files_eq_of_filesOf hids hsorted) (by decide +kernel)
  exact ⟨outcome, index', hrun, List.contains_iff_mem.mp hrow⟩

/-- After the rename of `A` to `D` a signature that names `A` names it with a `.` after it. -/
theorem mark_of_rename_class_generic : ∃ outcome index',
    rename ⟨"A"⟩ "D" genericIndex = (.ok outcome, index') ∧
      ∀ row' ∈ index'.store.symbols, ∀ signature, row'.signature = some signature →
        ∀ names, Signature.classes? signature = some names → "A" ∈ names →
          ['L', 'A', '.'] <:+: signature.toList := by
  obtain ⟨outcome, index', hrun, -⟩ := exists_rename_generic
  have hsymbol : genericIndex.store.symbolOf? ⟨"A"⟩ = some genericPlan.primary.symbol := by
    decide +kernel
  have htarget : targetClassName ⟨"A"⟩ "A" "D" = .ok "D" := by decide +kernel
  refine ⟨outcome, index', hrun, fun row' hrow' signature hsignature names hnames hold => ?_⟩
  exact (mark_of_rename_class reachable_genericIndex hsymbol rfl htarget (by decide) hrun row' hrow'
    signature hsignature names hnames hold).2.1

/-- **A signature that is missed.** After the rename of `A` to `D` the signature of a field still names
`A`. -/
theorem exists_unresigned : ∃ outcome index', genericIndex.Reachable ∧
    rename ⟨"A"⟩ "D" genericIndex = (.ok outcome, index') ∧
      ∃ row' ∈ index'.store.symbols, ∃ signature ∈ row'.signature, ∃ names,
        Signature.classes? signature = some names ∧ "A" ∈ names := by
  obtain ⟨outcome, index', hrun, hrow⟩ := exists_rename_generic
  have hnames : Signature.classes? "LA.I;" = some ["A"] := by decide +kernel
  exact ⟨outcome, index', reachable_genericIndex, hrun, _, hrow, "LA.I;", rfl, ["A"], hnames,
    List.mem_cons_self⟩

end Index

end ClassAtlas
