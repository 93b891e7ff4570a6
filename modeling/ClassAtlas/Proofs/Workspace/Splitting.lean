import ClassAtlas.Proofs.Mapping.Origins
import ClassAtlas.Proofs.Symbol.Codec
import ClassAtlas.Proofs.TypeText.Descriptor
import ClassAtlas.Proofs.Workspace.Reachable

/-!
# Identities that cannot be split

The plan for a rename splits the identities of the members that mention the renamed class, and one that
cannot be split is enough to refuse the rename. The walk over a class file makes the identities of members
of what it finds in the pool. It asks for a descriptor with parts where a method is declared and not where
a member is only mentioned, and it asks for no names. So the parts of a reported member are found again if
and only if none of them is missing, and a rename is refused for a member with a missing part only.

## Main definitions

* `ClassAtlas.StoredSymbol.IsUnsplit` — a stored member whose identity cannot be split.

## Main results

* `ClassAtlas.Store.exists_of_planRename_malformed` — plans that are refused for a malformed identity.
* `ClassAtlas.Index.split_of_visit_and_planRename` — which reported members can be split, and for which
  of them a rename is refused.
* `ClassAtlas.Index.exists_unsplit` — a mentioned method that cannot be split.
-/

set_option autoImplicit false

namespace ClassAtlas

/-! ### Refused plans -/

/-- A member as the store shows it whose identity cannot be split. -/
def StoredSymbol.IsUnsplit (shown : StoredSymbol) : Prop :=
  ∃ sort, shown.symbol.kind.memberSort? = some sort ∧
    shown.symbol.identity.split sort = .error (.malformedIdentity shown.symbol.identity.text)

namespace Store

variable {store : Store} {identity target : Identity} {newName text : String} {r : ClassRename}
  {symbols : List StoredSymbol}

theorem isUnsplit_of_split {shown : StoredSymbol} {sort : MemberSort}
    (hsort : shown.symbol.kind.memberSort? = some sort)
    (h : shown.symbol.identity.split sort = .error (.malformedIdentity text)) :
    shown.symbol.identity.text = text ∧ shown.IsUnsplit := by
  obtain rfl := Error.malformedIdentity.inj (MemberPath.eq_of_split_error h)
  exact ⟨rfl, sort, hsort, h⟩

/-! No other step of a plan reports a malformed identity. -/

theorem ensureFree_ne_malformed :
    store.ensureFree identity target ≠ .error (.malformedIdentity text) := by
  rw [ensureFree]
  split
  · split <;> simp
  · simp

theorem targetClassName_ne_malformed {old : String} :
    targetClassName identity old newName ≠ .error (.malformedIdentity text) := by
  rw [targetClassName]
  repeat' split
  all_goals simp

theorem checkMemberName_ne_malformed {sort : MemberSort} :
    checkMemberName identity sort newName ≠ .error (.malformedIdentity text) := by
  rw [checkMemberName]
  split <;> simp

/-- A member has no new identity after the rename of a class only if it cannot be split. -/
theorem isUnsplit_of_movedIdentity? {shown : StoredSymbol}
    (h : shown.movedIdentity? r = .error (.malformedIdentity text)) :
    shown.symbol.identity.text = text ∧ shown.IsUnsplit := by
  rw [StoredSymbol.movedIdentity?] at h
  split at h
  · cases h
  · rename_i sort hsort
    rcases Except.bind_eq_error_iff.mp h with hsplit | ⟨_, -, hpure⟩
    · exact isUnsplit_of_split hsort hsplit
    · cases hpure

/-- The dependents of a renamed class are refused for one of them that cannot be split. -/
theorem exists_of_planDependents_malformed
    (h : store.planDependents identity r symbols = .error (.malformedIdentity text)) :
    ∃ shown ∈ symbols, shown.symbol.identity.text = text ∧ shown.IsUnsplit := by
  induction symbols with
  | nil => cases h
  | cons s symbols ih =>
    rw [planDependents] at h
    rcases Except.bind_eq_error_iff.mp h with hmoved | ⟨moved?, -, h⟩
    · exact ⟨s, List.mem_cons_self, isUnsplit_of_movedIdentity? hmoved⟩
    have hrest : store.planDependents identity r symbols = .error (.malformedIdentity text) := by
      cases moved? with
      | none =>
        rcases Except.bind_eq_error_iff.mp h with hrest | ⟨_, -, hpure⟩
        · exact hrest
        · cases hpure
      | some moved =>
        rcases Except.bind_eq_error_iff.mp h with hfree | ⟨_, -, h⟩
        · exact absurd hfree ensureFree_ne_malformed
        rcases Except.bind_eq_error_iff.mp h with hrest | ⟨_, -, hpure⟩
        · exact hrest
        · cases hpure
    obtain ⟨shown, hmem, hshown⟩ := ih hrest
    exact ⟨shown, List.mem_cons_of_mem _ hmem, hshown⟩

theorem exists_of_planClass_malformed {renamed : StoredSymbol}
    (h : store.planClass renamed newName = .error (.malformedIdentity text)) :
    ∃ shown ∈ store.symbolsMentioning renamed.identityId renamed.symbol.identity.className,
      shown.symbol.identity.text = text ∧ shown.IsUnsplit := by
  rcases Except.bind_eq_error_iff.mp h with htarget | ⟨new, -, h⟩
  · exact absurd htarget targetClassName_ne_malformed
  rcases Except.bind_eq_error_iff.mp h with hfree | ⟨_, -, h⟩
  · exact absurd hfree ensureFree_ne_malformed
  rcases Except.bind_eq_error_iff.mp h with hdependents | ⟨_, -, hpure⟩
  · exact exists_of_planDependents_malformed hdependents
  · cases hpure

theorem isUnsplit_of_planMember_malformed {renamed : StoredSymbol} {sort : MemberSort}
    (hsort : renamed.symbol.kind.memberSort? = some sort)
    (h : store.planMember renamed sort newName = .error (.malformedIdentity text)) :
    renamed.symbol.identity.text = text ∧ renamed.IsUnsplit := by
  rcases Except.bind_eq_error_iff.mp h with hname | ⟨_, -, h⟩
  · exact absurd hname checkMemberName_ne_malformed
  rcases Except.bind_eq_error_iff.mp h with hsplit | ⟨_, -, h⟩
  · exact isUnsplit_of_split hsort hsplit
  rcases Except.bind_eq_error_iff.mp h with hfree | ⟨_, -, hpure⟩
  · exact absurd hfree ensureFree_ne_malformed
  · cases hpure

/-- A plan that is refused for a malformed identity is refused for that of a member, which is the renamed
one or mentions the renamed class. -/
theorem exists_of_planRename_malformed
    (h : store.planRename identity newName = .error (.malformedIdentity text)) :
    ∃ renamed shown, store.symbolOf? identity = some renamed ∧
      (shown = renamed ∨
        shown ∈ store.symbolsMentioning renamed.identityId renamed.symbol.identity.className) ∧
      shown.symbol.identity.text = text ∧ shown.IsUnsplit := by
  rw [planRename] at h
  split at h
  · cases h
  · rename_i renamed hrenamed
    split at h
    · cases h
    split at h
    · cases h
    split at h
    · obtain ⟨shown, hmem, hshown⟩ := exists_of_planClass_malformed h
      exact ⟨renamed, shown, hrenamed, .inr hmem, hshown⟩
    · rename_i sort hsort
      exact ⟨renamed, renamed, hrenamed, .inl rfl, isUnsplit_of_planMember_malformed hsort h⟩

/-- A member of a sound store that cannot be split has a missing part. -/
theorem Sound.exists_incomplete (hs : store.Sound) {row : SymbolRow} {shown : StoredSymbol}
    (hrow : row ∈ store.symbols) (hshown : store.showSymbol? row = some shown) (h : shown.IsUnsplit) :
    ∃ sort, ∃ path : MemberPath, shown.symbol.kind.memberSort? = some sort ∧
      shown.symbol.owner = some path.owner ∧ shown.symbol.identity = path.identity sort ∧
      ¬ path.Complete sort := by
  obtain ⟨sort, hsort, hsplit⟩ := h
  obtain ⟨found, hfound, rfl⟩ := showSymbol?_eq_some_iff.mp hshown
  have hnamed := hs.wellNamed row hrow
  rw [SymbolRow.WellNamed, IsNamed, hsort, hfound] at hnamed
  obtain ⟨class', name, descriptor, howner, hidentity⟩ := hnamed
  obtain rfl := Option.some.inj hidentity
  let path : MemberPath := ⟨.ofClass class', name, descriptor⟩
  have howned : path.owner = .ofClass class' := rfl
  refine ⟨sort, path, hsort, howner, rfl, fun hcomplete => ?_⟩
  have hread := (MemberPath.split_identity_eq_iff howned).mpr hcomplete
  cases hread.symm.trans hsplit

end Store

namespace Index

/-- **Which members can be split.** A walk that reaches its end reports each member with its owner, its
name and an identity made of both and a descriptor. These are found again in the identity if and only if
none of them is missing, and no declared method has a missing descriptor. A rename is refused for a
malformed identity only if the renamed member has a missing part, or one that mentions the renamed
class. -/
theorem split_of_visit_and_planRename {c : ClassFile} {file : RowId} {index : Index}
    (hwhole : (c.visit file).fault = none) (h : index.Reachable) :
    (∀ value sort, .symbol value ∈ (c.visit file).events → value.kind.memberSort? = some sort →
      ∃ path : MemberPath, value.owner = some path.owner ∧ value.name = path.name ∧
        value.identity = path.identity sort ∧
        (value.identity.split sort = .ok path ↔ path.Complete sort) ∧
        (value.kind = .methodSymbol → value.file ≠ none → sort.Describes path.descriptor)) ∧
    ∀ identity newName text,
      index.store.planRename identity newName = .error (.malformedIdentity text) →
        ∃ renamed shown sort, ∃ path : MemberPath, index.store.symbolOf? identity = some renamed ∧
          (shown = renamed ∨ shown ∈
            index.store.symbolsMentioning renamed.identityId renamed.symbol.identity.className) ∧
          shown.symbol.kind.memberSort? = some sort ∧ shown.symbol.owner = some path.owner ∧
          shown.symbol.identity = path.identity sort ∧ shown.symbol.identity.text = text ∧
          ¬ path.Complete sort := by
  constructor
  · intro value sort hmem hsort
    have hspelled := reported_isSpelled file _ (c.resolvable_visit file) _ hmem
    change IsSpelled value.kind value.name _ value.owner at hspelled
    rw [IsSpelled, hsort] at hspelled
    obtain ⟨class', descriptor, howner, hidentity⟩ := hspelled
    have hidentity := Option.some.inj hidentity
    refine ⟨⟨.ofClass class', value.name, descriptor⟩, howner, rfl, hidentity, ?_, ?_⟩
    · rw [hidentity]
      exact MemberPath.split_identity_eq_iff rfl
    · intro hkind hfile
      obtain rfl : sort = .method := by
        rw [hkind] at hsort
        exact (Option.some.inj hsort).symm
      obtain ⟨name, declared, parts, hparts, -, hdeclared⟩ :=
        ClassFile.exists_of_declared hwhole hmem hkind hfile
      have hrest := (MemberPath.parts_of_identity_eq (hidentity.symm.trans hdeclared)).2
      obtain rfl := MemberPath.tail_inj (List.append_cancel_left hrest)
      exact Descriptor.parenthesized_of_methodParts hparts
  · intro identity newName text hplan
    obtain ⟨renamed, shown, hrenamed, hshown, htext, hunsplit⟩ :=
      Store.exists_of_planRename_malformed hplan
    obtain ⟨row, hrow, hrowShown⟩ : ∃ row ∈ index.store.symbols,
        index.store.showSymbol? row = some shown := by
      rcases hshown with rfl | hmentions
      · exact (Store.exists_of_symbolOf? hrenamed).2
      · obtain ⟨row, hrow, hrowShown, -⟩ := Store.mem_symbolsMentioning_iff.mp hmentions
        exact ⟨row, hrow, hrowShown⟩
    obtain ⟨sort, path, hsort, howner, hidentity, hmissing⟩ :=
      h.sound.exists_incomplete hrow hrowShown hunsplit
    exact ⟨renamed, shown, sort, path, hrenamed, hshown, hsort, howner, hidentity, htext, hmissing⟩

/-- A class `B` that calls a method `m` of `A` with the descriptor `V`. -/
def miscalling : ClassFile :=
  { ClassFile.blank with
    pool := ⟨#[none, some (.text "B"), some (.classRef 1), some (.text "A"), some (.classRef 3),
      some (.text "m"), some (.text "V"), some (.nameAndType 5 6), some (.memberRef .method 4 7),
      some (.text "()V"), some (.text "Code")]⟩
    thisClass := 2
    methods := [⟨9, 5, 9, [⟨10, .code ⟨0, 0, [0xB8, 0, 8, 0xB1], [], []⟩⟩]⟩] }

/-- The workspace into which an archive with the classes `A` and `B` was imported. -/
def miscallingImport : Index :=
  (importFile "a.jar"
    (.packed [⟨"A.class", (bareClass "A").encode⟩, ⟨"B.class", miscalling.encode⟩]) empty).2

/-- That workspace after it was mapped. -/
def miscallingIndex : Index :=
  (mapAll .standard miscallingImport).2

theorem reachable_miscallingIndex : miscallingIndex.Reachable :=
  .mapAll _ (.importFile _ _ .empty)

theorem planRename_miscalling :
    miscallingIndex.store.planRename ⟨"A"⟩ "D" = .error (.malformedIdentity "A::mV") := by
  decide +kernel

/-- The class `A` cannot be renamed for a member with a missing part, and the declared method of `B` has
a descriptor. -/
theorem split_of_visit_and_planRename_miscalling : (miscalling.visit 3).fault = none ∧
    (∃ path : MemberPath, path.owner = ⟨"B"⟩ ∧ path.name = "m" ∧
      MemberSort.method.Describes path.descriptor) ∧
    ∃ sort, ∃ path : MemberPath, (path.identity sort).text = "A::mV" ∧ ¬ path.Complete sort := by
  have hwhole : (miscalling.visit 3).fault = none := by decide +kernel
  have hdeclared : .symbol ⟨.methodSymbol, ⟨"B::m()V"⟩, "m", some 3, some ⟨"B"⟩, 9, none⟩ ∈
      (miscalling.visit 3).events := by
    decide +kernel
  obtain ⟨hreported, hplanned⟩ := split_of_visit_and_planRename hwhole reachable_miscallingIndex
  obtain ⟨path, howner, hname, -, -, hdescribes⟩ := hreported _ .method hdeclared rfl
  obtain ⟨-, _, sort, path', -, -, -, -, hidentity, htext, hmissing⟩ :=
    hplanned _ _ _ planRename_miscalling
  rw [hidentity] at htext
  exact ⟨hwhole, ⟨path, (Option.some.inj howner).symm, hname.symm,
    hdescribes rfl (Option.some_ne_none 3)⟩, sort, path', htext, hmissing⟩

/-- **A mentioned method that cannot be split.** The walk over `B` reaches its end, and nothing is skipped
when the classes are mapped; but the method that `B` calls cannot be split, and `A` cannot be renamed. -/
theorem exists_unsplit : ∃ value report,
    ClassFile.decode miscalling.encode = .ok miscalling ∧ (miscalling.visit 3).fault = none ∧
      .symbol value ∈ (miscalling.visit 3).events ∧ value.kind = .methodSymbol ∧
      value.identity.split .method = .error (.malformedIdentity "A::mV") ∧
      mapAll .standard miscallingImport = (.ok report, miscallingIndex) ∧
      report.filesSkipped = 0 ∧ report.parseErrors = [] ∧
      (rename ⟨"A"⟩ "D" miscallingIndex).1 = .error (.malformedIdentity "A::mV") := by
  have hdecode : ClassFile.decode miscalling.encode = .ok miscalling := by decide +kernel
  have hwhole : (miscalling.visit 3).fault = none := by decide +kernel
  have hmentioned : .symbol (.ofMethod "A" "m" "V") ∈ (miscalling.visit 3).events := by
    decide +kernel
  have hsplit : (Symbol.ofMethod "A" "m" "V").identity.split .method =
      .error (.malformedIdentity "A::mV") := by
    decide +kernel
  have hreport : (mapAll .standard miscallingImport).1 = .ok ⟨1, 2, 0, 5, 3, []⟩ := by
    decide +kernel
  have hrename : (rename ⟨"A"⟩ "D" miscallingIndex).1 = .error (.malformedIdentity "A::mV") := by
    rw [rename, Session.bind_apply, query, planRename_miscalling]
  exact ⟨_, _, hdecode, hwhole, hmentioned, rfl, hsplit, Prod.ext hreport rfl, rfl, rfl, hrename⟩

end Index

end ClassAtlas
