import ClassAtlas.Proofs.Store.WellNamed
import ClassAtlas.Proofs.TypeText.Renaming
import ClassAtlas.Proofs.Workspace.Planning

/-!
# Identities that mention a class

The identity of a member mentions a class as its owner or in its descriptor. Renaming the class in the
parts of the identity gives parts that no longer mention it, and the identity made of them has just
these parts. The symbols that a store finds to mention a class contain all those that do.

## Main definitions

* `ClassAtlas.ClassRename.IsProper` — a new name that a class may get.
* `ClassAtlas.MemberPath.Mentions` — parts that mention a class.

## Main results

* `ClassAtlas.isProper_of_targetClassName` — the names that are accepted are proper.
* `ClassAtlas.MemberPath.renameClass_eq_iff`, `not_mentions_renameClass` — renaming the parts.
* `ClassAtlas.MemberPath.eq_renameClass_of_split` — the parts are found again.
* `ClassAtlas.Store.mem_symbolsMentioning` — the search misses no mention.
-/

set_option autoImplicit false

namespace ClassAtlas

/-! ### New names of classes -/

/-- A rename of a class between two different names without dots, to a name without `;`. -/
structure ClassRename.IsProper (r : ClassRename) : Prop where
  /-- The names are different. -/
  ne : r.old ≠ r.new
  /-- The old name has no dots. -/
  slashed_old : ClassName.slashed r.old = r.old
  /-- The new name has no dots. -/
  slashed_new : ClassName.slashed r.new = r.new
  /-- The new name ends no descriptor. -/
  semicolon : ';' ∉ r.new.toList

theorem ClassName.dot_notMem_slashed (name : String) : '.' ∉ (slashed name).toList := by
  rw [slashed, String.toList_ofList, List.mem_map]
  rintro ⟨c, -, hc⟩
  split_ifs at hc with hdot
  · exact absurd hc (by decide)
  · exact hdot hc

/-- The new name has no dots. -/
theorem ClassRename.IsProper.dot_notMem {r : ClassRename} (h : r.IsProper) : '.' ∉ r.new.toList :=
  h.slashed_new ▸ ClassName.dot_notMem_slashed r.new

/-- Every character but the slashes is in one of the segments. -/
theorem SlashPath.exists_mem_segments {cs : List Char} {c : Char} (hc : c ∈ cs) (hne : c ≠ '/') :
    ∃ segment ∈ segments cs, c ∈ segment := by
  induction cs with
  | nil => simp at hc
  | cons d cs ih =>
    rw [segments]
    rcases List.mem_cons.mp hc with rfl | hc
    · rw [if_neg hne]
      split
      · exact ⟨[c], List.mem_cons_self, List.mem_cons_self⟩
      · exact ⟨_, List.mem_cons_self, List.mem_cons_self⟩
    · obtain ⟨segment, hs, hmem⟩ := ih hc
      split
      · exact ⟨segment, List.mem_cons_of_mem _ hs, hmem⟩
      · split
        · rename_i hnil
          rw [hnil] at hs
          simp at hs
        · rename_i first rest hcons
          rw [hcons] at hs
          rcases List.mem_cons.mp hs with rfl | hs
          · exact ⟨_, List.mem_cons_self, List.mem_cons_of_mem _ hmem⟩
          · exact ⟨segment, List.mem_cons_of_mem _ hs, hmem⟩

/-- A name that is asked for has no dots in the end. -/
theorem ClassName.dot_notMem_qualify {old : String} (hold : '.' ∉ old.toList) (requested : String) :
    '.' ∉ (qualify old requested).toList := by
  rw [qualify]
  split
  · exact dot_notMem_slashed requested
  · split
    · rename_i package hpackage
      rw [package?, SlashPath.parent?] at hpackage
      split at hpackage
      · obtain rfl := Option.some.inj hpackage
        simp only [String.toList_append, String.toList_ofList, List.mem_append, List.mem_reverse,
          not_or]
        refine ⟨⟨fun hm => hold ?_, by decide⟩, dot_notMem_slashed requested⟩
        exact List.mem_reverse.mp ((List.dropWhile_suffix _).mem (List.mem_of_mem_drop hm))
      · cases hpackage
    · exact dot_notMem_slashed requested

/-- A legal name has none of the marks of descriptors. -/
theorem ClassName.notMem_of_isLegal {name : String} {c : Char} (h : isLegal name = true)
    (hc : c = ';' ∨ c = '[') : c ∉ name.toList := by
  intro hm
  have hslash : c ≠ '/' := by
    rcases hc with rfl | rfl <;> decide
  obtain ⟨segment, hs, hmem⟩ := SlashPath.exists_mem_segments hm hslash
  rw [isLegal, List.all_eq_true] at h
  have hall := h segment hs
  simp only [Bool.and_eq_true, List.all_eq_true, bne_iff_ne] at hall
  obtain ⟨hsemicolon, hbracket⟩ := hall.2 c hmem
  exact hc.elim hsemicolon hbracket

/-- What is checked of the name that a class may get. -/
theorem checked_of_targetClassName {identity : Identity} {old new requested : String}
    (h : targetClassName identity old requested = .ok new) :
    new = ClassName.qualify old requested ∧ ClassName.isLegal new = true ∧ old ≠ new := by
  rw [targetClassName] at h
  split at h
  · cases h
  · rename_i hlegal
    split at h
    · cases h
    · split at h
      · cases h
      · rename_i hne
        obtain rfl := Except.ok.inj h
        exact ⟨rfl, by simpa using hlegal, fun he => hne he.symm⟩

/-- The names that a class may get are proper. -/
theorem isProper_of_targetClassName {identity : Identity} {old new requested : String}
    (hold : '.' ∉ old.toList) (h : targetClassName identity old requested = .ok new) :
    ClassRename.IsProper ⟨old, new⟩ := by
  obtain ⟨hnew, hlegal, hne⟩ := checked_of_targetClassName h
  have hdot : '.' ∉ new.toList := hnew ▸ ClassName.dot_notMem_qualify hold requested
  exact ⟨hne, ClassName.slashed_of_dot_notMem hold, ClassName.slashed_of_dot_notMem hdot,
    ClassName.notMem_of_isLegal hlegal (.inl rfl)⟩

/-! ### Parts that mention a class -/

namespace MemberPath

variable {r : ClassRename} {path found : MemberPath} {sort : MemberSort} {owner : String}
  {identity : Identity}

/-- Parts that mention the class that is renamed, as the owner or in the descriptor. -/
def Mentions (path : MemberPath) (r : ClassRename) : Prop :=
  path.owner.className = r.old ∨ r.descriptor? path.descriptor ≠ none

/-- Parts that do not mention the class stay as they are. -/
theorem renameClass_eq_of_not_mentions (h : ¬path.Mentions r) : path.renameClass r = path := by
  rw [Mentions, not_or, not_not] at h
  rw [renameClass, if_neg h.1, h.2]
  rfl

/-- Renamed parts do not mention the class again. -/
theorem not_mentions_renameClass (hr : r.IsProper) : ¬(path.renameClass r).Mentions r := by
  rw [Mentions, not_or, not_not]
  refine ⟨?_, ?_⟩
  · rw [renameClass]
    split
    · rw [Identity.className_ofClass, hr.slashed_new]
      exact hr.ne.symm
    · assumption
  · rw [renameClass]
    cases hd : r.descriptor? path.descriptor with
    | none => exact hd
    | some new =>
      exact Descriptor.cut_segments.rename_again hr.semicolon hr.ne hd

/-- Exactly the parts that mention the class change. -/
theorem renameClass_eq_iff (hr : r.IsProper) : path.renameClass r = path ↔ ¬path.Mentions r :=
  ⟨fun h => h ▸ not_mentions_renameClass hr, renameClass_eq_of_not_mentions⟩

/-- The owner of renamed parts is a class again. -/
theorem owner_renameClass (h : path.owner = .ofClass owner) :
    (path.renameClass r).owner =
      .ofClass (if ClassName.slashed owner = r.old then r.new else owner) := by
  rw [renameClass, h, Identity.className_ofClass]
  split <;> rfl

/-- The parts of a renamed identity are the renamed parts. -/
theorem eq_renameClass_of_split (hpath : identity.split sort = .ok path)
    (howner : path.owner = .ofClass owner)
    (h : ((path.renameClass r).identity sort).split sort = .ok found) :
    found = path.renameClass r := by
  have hmk : path.renameClass r = ⟨.ofClass (if ClassName.slashed owner = r.old then r.new else owner),
      path.name, (path.renameClass r).descriptor⟩ := by
    rw [← owner_renameClass howner]
    rfl
  rw [hmk] at h ⊢
  refine eq_of_split (fun hsort => ?_) h
  subst hsort
  have hhead := head?_of_split hpath
  rw [renameClass]
  cases hd : r.descriptor? path.descriptor with
  | none => exact hhead
  | some new => exact Descriptor.head?_rename (by decide) hd hhead

end MemberPath

/-! ### Symbols that mention a class -/

/-- A descriptor in which a class is renamed holds the name between its marks. -/
theorem ClassRename.isInfix_of_descriptor? {r : ClassRename} {descriptor : String}
    (h : r.descriptor? descriptor ≠ none) :
    'L' :: r.old.toList ++ [';'] <:+: descriptor.toList := by
  obtain ⟨new, hnew⟩ := Option.ne_none_iff_exists'.mp h
  rw [ClassRename.descriptor?, Descriptor.rename?_eq] at hnew
  obtain ⟨segments, hsegments, hmem, -⟩ := Segment.renameText?_eq_some_iff.mp hnew
  obtain rfl := Option.some.inj hsegments
  exact Descriptor.isInfix_of_mem_segments hmem

namespace Store

variable {store : Store} {r : ClassRename} {classId : RowId} {row : SymbolRow} {shown : StoredSymbol}
  {sort : MemberSort} {path : MemberPath}

/-- **The search misses no mention.** A member whose identity mentions a class is found by the number
of the class, or by its descriptor. -/
theorem mem_symbolsMentioning (hs : store.Sound) (hr : r.IsProper)
    (hclass : store.identity? classId = some (.ofClass r.old)) (hrow : row ∈ store.symbols)
    (hshown : store.showSymbol? row = some shown) (hsort : row.kind.memberSort? = some sort)
    (hpath : shown.symbol.identity.split sort = .ok path) (hm : path.Mentions r) :
    shown ∈ store.symbolsMentioning classId r.old := by
  obtain ⟨text, htext, rfl⟩ := showSymbol?_eq_some_iff.mp hshown
  obtain ⟨owner, hpathOwner, howner⟩ := hs.exists_owner hrow hsort htext hpath
  refine mem_symbolsMentioning_iff.mpr ⟨row, hrow, hshown, fun he => ?_, ?_⟩
  · exact hs.ne_ofClass hrow hsort htext r.old (Option.some.inj (htext.symm.trans (he ▸ hclass)))
  · rcases hm with hold | hdescriptor
    · left
      rw [hpathOwner, Identity.className_ofClass] at hold
      obtain ⟨o, ho, hlookup⟩ := Option.bind_eq_some_iff.mp howner
      have he : Identity.ofClass owner = .ofClass r.old :=
        Identity.ofClass_eq_iff.mpr (hold.trans hr.slashed_old.symm)
      have hid : o = classId := hs.consistent.eq_of_identity? (he ▸ hlookup) hclass
      rw [ho, hid]
    · right
      left
      exact (ClassRename.isInfix_of_descriptor? hdescriptor).trans
        (MemberPath.suffix_of_split hpath).isInfix

end Store

end ClassAtlas
