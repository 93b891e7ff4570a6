import ClassAtlas.Proofs.Mapping.Places
import ClassAtlas.Proofs.Mapping.Recorded
import ClassAtlas.Proofs.Symbol.Codec
import ClassAtlas.Proofs.Workspace.Renamed

/-!
# The files that a rename reaches

A plan reaches the files that declare or use a symbol that moves. If what mapping found in a class file
is in the store, the plan reaches the file as soon as the class file names the renamed symbol at one
of the places that a walk covers, or the store knows the file as the one that declares it.

## Main definitions

* `ClassAtlas.MemberSort.Fits` — the descriptors of the members of a sort.
* `ClassAtlas.ClassFile.Names` — a class file names what a rename moves.
* `ClassAtlas.Store.Declares` — a file is the one that declares something that a rename moves.

## Main results

* `ClassAtlas.Store.PlansClass.exists_mem_of_identity` — a member that mentions a renamed class moves.
* `ClassAtlas.RenamePlan.mem_files_of_names`, `mem_files_of_declares` — the files that are reached.
-/

set_option autoImplicit false

namespace ClassAtlas

/-! ### Members of two sorts -/

/-- The descriptors of the members of a sort: that of a method starts with its parenthesis, and that
of a field has none. -/
def MemberSort.Fits : MemberSort → String → Prop
  | .field, descriptor => '(' ∉ descriptor.toList
  | .method, descriptor => descriptor.toList.head? = some '('

namespace MemberPath

variable {owner name descriptor : String} {found : MemberPath}

/-- The identity of a field is not split as that of a method. -/
theorem split_method_ne (hd : '(' ∉ descriptor.toList) :
    (identity ⟨.ofClass owner, name, descriptor⟩ .field).split .method ≠ .ok found := by
  intro h
  obtain ⟨member, first, howner, hmember, -, -⟩ := exists_of_split h
  rw [splitOwner?_identity] at howner
  split at howner
  · cases howner
  · obtain ⟨-, rfl⟩ := Prod.mk.inj (Option.some.inj howner)
    rw [stop, Identity.splitUnescaped?_escape rfl] at hmember
    obtain ⟨⟨before, after⟩, hsplit, -⟩ := Option.map_eq_some_iff.mp hmember
    obtain ⟨happend, hparen, -⟩ := Identity.append_of_splitUnescaped? hsplit
    have hmem : '(' ∈ tail descriptor .field := by
      rw [← happend]
      exact List.mem_append_right _ (hparen.subset List.mem_cons_self)
    rcases List.mem_cons.mp hmem with he | hmem
    · exact absurd he (by decide)
    · exact hd hmem

theorem suffix_identity (path : MemberPath) (sort : MemberSort) :
    path.descriptor.toList <:+ (path.identity sort).text.toList := by
  have htail : path.descriptor.toList <:+ tail path.descriptor sort := by
    cases sort with
    | field => exact List.suffix_cons _ _
    | method => exact List.suffix_rfl
  rw [toList_identity]
  exact htail.trans ⟨path.owner.text.toList ++ ':' :: ':' :: Identity.escape path.name.toList, by simp⟩

end MemberPath

/-! ### What a rename moves -/

/-- A class file names what a rename moves, at a place that a walk covers. -/
inductive ClassFile.Names (c : ClassFile) (identity : Identity) (edit : Renaming) : Prop where
  /-- It names the class that is renamed. -/
  | ofClass {name : String} (h : c.NamesClass name) (hidentity : Identity.ofClass name = identity)
  /-- It names the member that is renamed. -/
  | ofMember {sort : MemberSort} {owner name descriptor : String}
    (h : c.NamesMember sort owner name descriptor)
    (hidentity : MemberPath.identity ⟨.ofClass owner, name, descriptor⟩ sort = identity)
  /-- It names a member of the class that is renamed. -/
  | ofOwner {r : ClassRename} {sort : MemberSort} {owner name descriptor : String}
    (hedit : edit = .ofClass r) (h : c.NamesMember sort owner name descriptor)
    (howner : ClassName.slashed owner = r.old)
  /-- It names a member with a descriptor that names the class that is renamed. -/
  | ofDescriptor {r : ClassRename} {sort : MemberSort} {owner name descriptor : String}
    (hedit : edit = .ofClass r) (h : c.NamesMember sort owner name descriptor)
    (hfits : sort.Fits descriptor) (hdescriptor : r.descriptor? descriptor ≠ none)

/-- A file is the one that declares something that a rename moves: the renamed symbol, or a member
whose identity mentions the class that is renamed. -/
inductive Store.Declares (s : Store) (file : RowId) (identity : Identity) (edit : Renaming) : Prop where
  /-- It declares the renamed symbol. -/
  | ofSymbol {row : SymbolRow} (hrow : row ∈ s.symbols) (hfile : row.file = some file)
    (hidentity : s.identity? row.identity = some identity)
  /-- It declares a member that mentions the class that is renamed. -/
  | ofMember {r : ClassRename} {row : SymbolRow} {sort : MemberSort} {text : Identity}
    {path : MemberPath} (hedit : edit = .ofClass r) (hrow : row ∈ s.symbols)
    (hfile : row.file = some file) (hsort : row.kind.memberSort? = some sort)
    (htext : s.identity? row.identity = some text) (hpath : text.split sort = .ok path)
    (hm : path.Mentions r)

namespace Store

variable {s : Store} {symbol : StoredSymbol} {r : ClassRename} {dependents : List Migration}
  {row : SymbolRow} {sort : MemberSort} {owner name descriptor : String}

/-- A member with a descriptor that names the class is found, so there is no plan if its identity has no
parts. -/
theorem PlansClass.exists_split_of_descriptor (h : s.PlansClass symbol r dependents) (hs : s.Sound)
    {text : Identity} (hrow : row ∈ s.symbols) (hsort : row.kind.memberSort? = some sort)
    (htext : s.identity? row.identity = some text) (hsuffix : descriptor.toList <:+ text.text.toList)
    (hdescriptor : r.descriptor? descriptor ≠ none) : ∃ path, text.split sort = .ok path := by
  have hne : row.identity ≠ symbol.identityId := fun he =>
    hs.ne_ofClass hrow hsort htext r.old
      (Option.some.inj (htext.symm.trans (he ▸ h.identity?_identityId)))
  have hfound : _ ∈ s.symbolsMentioning symbol.identityId r.old :=
    mem_symbolsMentioning_iff.mpr ⟨row, hrow, showSymbol?_eq_some_iff.mpr ⟨_, htext, rfl⟩, hne,
      .inr (.inl ((ClassRename.isInfix_of_descriptor? hdescriptor).trans hsuffix.isInfix))⟩
  obtain ⟨path, hpath, -⟩ := h.exists_or_of_mentioning hfound hsort
  exact ⟨path, hpath⟩

/-- A member that mentions a renamed class moves, by whatever sort of member the store knows it.

**Proof sketch.** The store finds the member by the number of its owner, or by its descriptor. What it
finds is split as its sort says, or else there is no plan. If that is another sort than the one of the
descriptor, either the identity is not spelled like this, or it is not split like this. -/
theorem PlansClass.exists_mem_of_identity (h : s.PlansClass symbol r dependents) (hs : s.Sound)
    (hrow : row ∈ s.symbols)
    (htext : s.identity? row.identity =
      some (MemberPath.identity ⟨.ofClass owner, name, descriptor⟩ sort))
    (hm : ClassName.slashed owner = r.old ∨
      sort.Fits descriptor ∧ r.descriptor? descriptor ≠ none) :
    ∃ m ∈ dependents,
      m.symbol.symbol.identity = MemberPath.identity ⟨.ofClass owner, name, descriptor⟩ sort := by
  have hnamed := hs.wellNamed row hrow
  rw [SymbolRow.WellNamed, IsNamed, htext] at hnamed
  cases hsort : row.kind.memberSort? with
  | none =>
    rw [hsort] at hnamed
    obtain ⟨class', he⟩ := hnamed
    have hmember := congrArg Identity.isMember (Option.some.inj he)
    simp at hmember
  | some sort' =>
    rw [hsort] at hnamed
    obtain ⟨owner', name', descriptor', howner, he⟩ := hnamed
    obtain ⟨hsame, -⟩ := MemberPath.parts_of_identity_eq (Option.some.inj he)
    rcases hm with hold | ⟨hfits, hdescriptor⟩
    · refine h.exists_mem_of_owner hs hrow hsort htext ?_
      rw [howner, ← hsame, Identity.ofClass_eq_iff.mpr (hold.trans h.proper.slashed_old.symm)]
    · obtain ⟨path, hpath⟩ := h.exists_split_of_descriptor hs hrow hsort htext
        (MemberPath.suffix_identity ⟨_, _, _⟩ sort) hdescriptor
      obtain rfl : sort' = sort := by
        cases sort with
        | field =>
          cases sort' with
          | field => rfl
          | method => exact absurd hpath (MemberPath.split_method_ne hfits)
        | method =>
          cases sort' with
          | field => exact absurd (Option.some.inj he) (MemberPath.identity_method_ne_field hfits)
          | method => rfl
      have hparts : path = ⟨.ofClass owner, name, descriptor⟩ := by
        refine MemberPath.eq_of_split (fun hmethod => ?_) hpath
        subst hmethod
        exact hfits
      exact h.exists_mem_of_mentions hs hrow hsort htext hpath (.inr (hparts ▸ hdescriptor))

/-- A plan that renames a class moves the symbols that move with the class, and the new name is
legal. -/
theorem plansClass_of_edit (hs : s.Sound) {identity : Identity} {newName : String} {plan : RenamePlan}
    (h : s.planRename identity newName = .ok plan) (hedit : plan.edit = .ofClass r) :
    s.PlansClass plan.primary.symbol r plan.dependents ∧ ClassName.isLegal r.new = true := by
  obtain ⟨symbol, hsymbol, -, ⟨hkind, h⟩ | ⟨sort, -, h⟩⟩ := plans_of_planRename h
  · obtain ⟨new, hnew, hprimary, -, -, hplans⟩ := plansClass_of_planClass hs hsymbol hkind h
    obtain ⟨new', _, _, hnew', -, rfl⟩ := eq_of_planClass h
    obtain rfl := Except.ok.inj (hnew.symm.trans hnew')
    obtain rfl := Renaming.ofClass.inj hedit
    exact ⟨hplans, (checked_of_targetClassName hnew).2.1⟩
  · obtain ⟨path, -, rfl⟩ := eq_of_planMember h
    cases hedit

end Store

/-! ### Files -/

namespace RenamePlan

open Store

variable {s : Store} {identity : Identity} {newName : String} {plan : RenamePlan} {m : Migration}
  {id : RowId}

theorem mem_sorted {ids : List RowId} : id ∈ sorted ids ↔ id ∈ ids := by
  rw [sorted, List.mem_eraseDups, (List.mergeSort_perm _ _).mem_iff]

/-- A plan reaches the files that declare symbols that move. -/
theorem mem_files_of_file (hm : m ∈ plan.migrations) (hfile : m.symbol.symbol.file = some id) :
    id ∈ plan.files s :=
  mem_sorted.mpr (List.mem_append_left _ (List.mem_filterMap.mpr ⟨m, hm, hfile⟩))

/-- The number of a symbol of a plan is that of its identity. -/
theorem identity?_of_mem (hs : s.Consistent) (hplan : s.planRename identity newName = .ok plan)
    (hm : m ∈ plan.migrations) :
    s.identity? m.symbol.identityId = some m.symbol.symbol.identity := by
  obtain ⟨row, -, hshown⟩ := (migrations_of_planRename hs hplan).1 m hm
  obtain ⟨text, htext, hsymbol⟩ := showSymbol?_eq_some_iff.mp hshown
  rw [hsymbol]
  exact htext

/-- A plan reaches the files that use symbols that move. -/
theorem mem_files_of_records (hs : s.Consistent) (hplan : s.planRename identity newName = .ok plan)
    (hm : m ∈ plan.migrations) {value : Reference} (hrecords : s.Records (.reference value))
    (htarget : value.target = m.symbol.symbol.identity) : value.file ∈ plan.files s := by
  obtain ⟨row, hrow, hshown⟩ := hrecords
  obtain ⟨target, owner, ht, -, hvalue⟩ := showReference?_eq_some_iff.mp hshown
  have htarget' : target = m.symbol.symbol.identity := by
    rw [← htarget]
    exact (congrArg (·.reference.target) hvalue).symm
  have hid : row.target = m.symbol.identityId :=
    hs.eq_of_identity? (htarget' ▸ ht) (identity?_of_mem hs hplan hm)
  refine mem_sorted.mpr (List.mem_append_right _ (List.mem_map.mpr ⟨⟨row.id, value⟩, ?_, rfl⟩))
  refine List.mem_flatMap.mpr ⟨m, hm, List.mem_filterMap.mpr ⟨row, ?_, hshown⟩⟩
  exact List.mem_filter.mpr ⟨hrow, beq_iff_eq.mpr hid⟩

/-- The renamed symbol is the first that moves. -/
theorem primary_mem (plan : RenamePlan) : plan.primary ∈ plan.migrations :=
  List.mem_cons_self

theorem identity_primary (hplan : s.planRename identity newName = .ok plan) :
    plan.primary.symbol.symbol.identity = identity :=
  (exists_of_symbolOf? (primary_of_planRename hplan).1).1

/-- **A plan reaches the files that declare what moves.** -/
theorem mem_files_of_declares (hs : s.Sound) (hplan : s.planRename identity newName = .ok plan)
    (h : s.Declares id identity plan.edit) : id ∈ plan.files s := by
  -- the symbol with the identity of a row is that row
  have hfile {m : Migration} {row : SymbolRow} (hm : m ∈ plan.migrations) (hrow : row ∈ s.symbols)
      (hfile : row.file = some id)
      (htext : s.identity? row.identity = some m.symbol.symbol.identity) : id ∈ plan.files s := by
    obtain ⟨row', hrow', hshown⟩ := (migrations_of_planRename hs.consistent hplan).1 m hm
    obtain ⟨text, htext', hsymbol⟩ := showSymbol?_eq_some_iff.mp hshown
    have hidentity : m.symbol.symbol.identity = text := by rw [hsymbol]
    obtain rfl : row' = row := List.inj_on_of_nodup_map hs.consistent.symbols.identities hrow' hrow
      (hs.consistent.eq_of_identity? htext' (hidentity ▸ htext))
    exact mem_files_of_file hm (by rw [hsymbol]; exact hfile)
  cases h with
  | ofSymbol hrow hrowFile hidentity =>
    exact hfile plan.primary_mem hrow hrowFile (identity_primary hplan ▸ hidentity)
  | ofMember hedit hrow hrowFile hsort htext hpath hm =>
    obtain ⟨hplans, -⟩ := plansClass_of_edit hs hplan hedit
    obtain ⟨m, hm, he⟩ := hplans.exists_mem_of_mentions hs hrow hsort htext hpath hm
    exact hfile (List.mem_cons_of_mem _ hm) hrow hrowFile (he ▸ htext)

/-- **A plan reaches the files that name what moves**, if what mapping found in them is in the store. -/
theorem mem_files_of_names (hs : s.Sound) (hplan : s.planRename identity newName = .ok plan)
    {file : FileRow} {c : ClassFile} (hfile : file.Recorded s) (hdirectory : file.isDirectory = false)
    (hdecode : ClassFile.decode file.bytes = .ok c) (h : c.Names identity plan.edit) :
    file.id ∈ plan.files s := by
  obtain ⟨name, hname, hreported⟩ := FileRow.exists_reported hdirectory hdecode hfile.whole
  have huse {m : Migration} (hm : m ∈ plan.migrations)
      (h : Walk.Uses ⟨c, name, file.id⟩ file.findings.1 m.symbol.symbol.identity) :
      file.id ∈ plan.files s := by
    obtain ⟨kind, owner, location, hevent⟩ := h
    have hrecords := hfile.records _ hevent fun value he => (Event.reference.inj he) ▸ rfl
    exact mem_files_of_records hs.consistent hplan hm hrecords rfl
  have hmember {r : ClassRename} {sort : MemberSort} {owner name' descriptor : String}
      (hedit : plan.edit = .ofClass r) (h : c.NamesMember sort owner name' descriptor)
      (hm : ClassName.slashed owner = r.old ∨
        sort.Fits descriptor ∧ r.descriptor? descriptor ≠ none) : file.id ∈ plan.files s := by
    obtain ⟨⟨symbol, hsymbol, hevent⟩, hreference⟩ := Walk.usesMember_of_namesMember hreported h
    obtain ⟨row, hrow, htext⟩ := hfile.records _ hevent fun value he => nomatch he
    obtain ⟨hplans, -⟩ := plansClass_of_edit hs hplan hedit
    obtain ⟨m, hm, he⟩ := hplans.exists_mem_of_identity hs hrow (hsymbol ▸ htext) hm
    exact huse (List.mem_cons_of_mem _ hm) (he.symm ▸ hreference)
  cases h with
  | ofClass h hidentity =>
    obtain ⟨naming, index, names, hplace, hnames, hmem⟩ := h
    obtain ⟨names', hnames', huses⟩ := Walk.covers_of_place hname hreported hplace
    obtain rfl := Except.ok.inj (hnames.symm.trans hnames')
    refine huse plan.primary_mem ?_
    rw [identity_primary hplan, ← hidentity]
    exact huses _ hmem
  | ofMember h hidentity =>
    refine huse plan.primary_mem ?_
    rw [identity_primary hplan, ← hidentity]
    exact (Walk.usesMember_of_namesMember hreported h).2
  | ofOwner hedit h howner => exact hmember hedit h (.inl howner)
  | ofDescriptor hedit h hfits hdescriptor => exact hmember hedit h (.inr ⟨hfits, hdescriptor⟩)

end RenamePlan

end ClassAtlas
