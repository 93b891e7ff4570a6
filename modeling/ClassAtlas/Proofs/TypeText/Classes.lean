import ClassAtlas.Proofs.TypeText.Signature

/-!
# The classes that a signature names

A class can be replaced in a signature if and only if the signature names it. The new signature names the
same classes in the same order, with the new class for the old one, if the new name has no character that
ends a class name; and the old signature comes back when the old class is put in the place of the new one,
if the new one was not named before.

## Main results

* `ClassAtlas.Signature.rename?_eq_none_iff` — when there is nothing to replace.
* `ClassAtlas.Signature.classes?_of_rename?` — the classes that the new signature names.
* `ClassAtlas.Signature.rename?_agrees` — collecting and replacing classes agree.
-/

set_option autoImplicit false

namespace ClassAtlas.Signature

open Segment

variable {signature signature' old new : String} {names : List String}

lemma classes?_eq_some_iff :
    classes? signature = some names ↔ ∃ segments, segments? signature.toList = some segments ∧
      names = (classNames segments).map String.ofList := by
  rw [classes?, Option.map_eq_some_iff]
  exact exists_congr fun segments => and_congr_right fun _ => eq_comm

/-- A class is named in a signature if its name is one of the segments. -/
lemma mem_classes_iff {segments : List Segment} :
    old ∈ (classNames segments).map String.ofList ↔ old.toList ∈ classNames segments := by
  rw [List.mem_map]
  constructor
  · rintro ⟨name, hname, rfl⟩
    rwa [String.toList_ofList]
  · exact fun h => ⟨_, h, String.ofList_toList⟩

/-- Renaming a class finds nothing in a signature that does not name the class. -/
theorem rename?_eq_none_iff :
    rename? signature old new = none ↔ ∀ names, classes? signature = some names → old ∉ names := by
  rw [rename?_eq_renameText?, renameText?_eq_none_iff]
  constructor
  · rintro h names hnames
    obtain ⟨segments, hsegments, rfl⟩ := classes?_eq_some_iff.mp hnames
    exact fun hold => h segments hsegments (mem_classes_iff.mp hold)
  · exact fun h segments hsegments hold =>
      h _ (classes?_eq_some_iff.mpr ⟨segments, hsegments, rfl⟩) (mem_classes_iff.mpr hold)

/-- The classes that renamed segments name. -/
lemma map_ofList_classNames_rename (segments : List Segment) :
    (classNames (segments.map (rename old.toList new.toList))).map String.ofList =
      ((classNames segments).map String.ofList).map fun name => if name = old then new else name := by
  rw [classNames_map_rename, List.map_map, List.map_map]
  refine List.map_congr_left fun name _ => ?_
  have hname : String.ofList name = old ↔ name = old.toList := by
    rw [← String.toList_inj, String.toList_ofList]
  by_cases h : name = old.toList
  · simp [h]
  · simp [h, hname]

/-- **The new signature names the same classes**, with the new class for the old one. -/
theorem classes?_of_rename? (hplain : Plain new.toList)
    (hnames : classes? signature = some names) (h : rename? signature old new = some signature') :
    classes? signature' = some (names.map fun name => if name = old then new else name) := by
  rw [rename?_eq_renameText?] at h
  obtain ⟨segments, hsegments, -, hrendered⟩ := renameText?_eq_some_iff.mp h
  obtain ⟨segments', hsegments', rfl⟩ := classes?_eq_some_iff.mp hnames
  obtain rfl := Option.some.inj (hsegments.symm.trans hsegments')
  refine classes?_eq_some_iff.mpr ⟨segments.map (rename old.toList new.toList), ?_, ?_⟩
  · rw [hrendered]
    exact cut_segments?.stable hsegments hplain
  · exact (map_ofList_classNames_rename segments).symm

/-- **Collecting and replacing classes agree.** There is nothing to replace if and only if the text is no
signature or does not name the class. Otherwise the new signature names the new class wherever the old
signature named the old one, and replacing back gives the old signature, if it did not name the new class. -/
theorem rename?_agrees (signature old new : String) :
    (rename? signature old new = none ↔
        classes? signature = none ∨ ∃ names, classes? signature = some names ∧ old ∉ names) ∧
      ∀ signature', rename? signature old new = some signature' → Plain new.toList →
        ∃ names, classes? signature = some names ∧
          classes? signature' = some (names.map fun name => if name = old then new else name) ∧
          (new ∉ names → rename? signature' new old = some signature) := by
  constructor
  · rw [rename?_eq_none_iff]
    cases classes? signature <;> simp
  · intro signature' h hplain
    obtain ⟨names, hnames, -⟩ : ∃ names, classes? signature = some names ∧ old ∈ names := by
      by_contra hnone
      push Not at hnone
      rw [rename?_eq_none_iff.mpr hnone] at h
      contradiction
    refine ⟨names, hnames, classes?_of_rename? hplain hnames h, fun hnew => ?_⟩
    refine cut_segments?.rename_back hplain (rename?_eq_none_iff.mpr fun other hother => ?_) h
    rwa [← Option.some.inj (hnames.symm.trans hother)]

/-- The signature of a generic method, in which a class is named as a bound, as an argument and in an
array, and as a member class' outer class. -/
theorem rename?_agrees_method :
    rename? "<T:LA;>(LB<LA;>.A;[LA.I;TA;)V^LE;" "A" "x/C" =
        some "<T:Lx/C;>(LB<Lx/C;>.A;[Lx/C.I;TA;)V^LE;" ∧
      Plain "x/C".toList ∧
      ∃ names, classes? "<T:LA;>(LB<LA;>.A;[LA.I;TA;)V^LE;" = some names ∧ "x/C" ∉ names ∧
        classes? "<T:Lx/C;>(LB<Lx/C;>.A;[Lx/C.I;TA;)V^LE;" =
          some (names.map fun name => if name = "A" then "x/C" else name) ∧
        rename? "<T:Lx/C;>(LB<Lx/C;>.A;[Lx/C.I;TA;)V^LE;" "x/C" "A" =
          some "<T:LA;>(LB<LA;>.A;[LA.I;TA;)V^LE;" := by
  have hrename : rename? "<T:LA;>(LB<LA;>.A;[LA.I;TA;)V^LE;" "A" "x/C" =
      some "<T:Lx/C;>(LB<Lx/C;>.A;[Lx/C.I;TA;)V^LE;" := by decide +kernel
  have hplain : Plain "x/C".toList := by simp [Plain]
  have hclasses : classes? "<T:LA;>(LB<LA;>.A;[LA.I;TA;)V^LE;" = some ["A", "B", "A", "A", "E"] := by
    decide +kernel
  obtain ⟨names, hnames, hafter, hback⟩ := (rename?_agrees _ _ _).2 _ hrename hplain
  obtain rfl := Option.some.inj (hclasses.symm.trans hnames)
  exact ⟨hrename, hplain, _, hnames, by decide, hafter, hback (by decide)⟩

end ClassAtlas.Signature
