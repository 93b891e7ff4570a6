import ClassAtlas.Proofs.Workspace.Resigned

/-!
# Accepted names in signatures

The name that a class may get is checked for the marks of descriptors. Signatures have one mark more, the
`<` before type arguments, and a name with a `<` in it is accepted. A signature that named the old class
names the new one after the rename if and only if the new name has no `<`. Otherwise its text is no
signature any more, or one that names other classes.

## Main results

* `ClassAtlas.Signature.open_notMem_of_mem_classes` — the names that a signature can hold.
* `ClassAtlas.Signature.classes_of_accepted` — which accepted names keep signatures.
* `ClassAtlas.Signature.exists_accepted_unnamed` — an accepted name that breaks a signature.
-/

set_option autoImplicit false

namespace ClassAtlas.Signature

variable {identity : Identity} {signature old new requested : String} {names : List String}

/-- No signature names a class with a `<` in its name. -/
lemma open_notMem_of_mem_classes (h : classes? signature = some names) (hnew : new ∈ names) :
    '<' ∉ new.toList :=
  fun hopen => plain_of_mem_classes h hnew '<' hopen (by simp)

/-- A name that a class of a signature may get has no marks if it has no `<`. -/
lemma plain_of_targetClassName (hclasses : classes? signature = some names) (hold : old ∈ names)
    (h : targetClassName identity old requested = .ok new) (hopen : '<' ∉ new.toList) :
    Plain new.toList := by
  have hdot : '.' ∉ old.toList := fun hdot => plain_of_mem_classes hclasses hold '.' hdot (by simp)
  exact (isProper_of_targetClassName hdot h).plain hopen

/-- **Which accepted names keep signatures.** A signature that names a class is changed by giving the
class an accepted name. It then names the same classes, with the new name for the old one, if and only
if the new name has no `<`. -/
theorem classes_of_accepted (h : targetClassName identity old requested = .ok new)
    (hclasses : classes? signature = some names) (hold : old ∈ names) :
    ∃ signature', rename? signature old new = some signature' ∧
      (classes? signature' = some (names.map fun name => if name = old then new else name) ↔
        '<' ∉ new.toList) := by
  have hnamed : rename? signature old new ≠ none := fun hnone =>
    rename?_eq_none_iff.mp hnone names hclasses hold
  obtain ⟨signature', hrename⟩ := Option.ne_none_iff_exists'.mp hnamed
  refine ⟨signature', hrename, fun hafter => ?_, fun hopen => ?_⟩
  · have hnew : new ∈ names.map fun name => if name = old then new else name :=
      List.mem_map.mpr ⟨old, hold, if_pos rfl⟩
    exact open_notMem_of_mem_classes hafter hnew
  · exact classes?_of_rename? (plain_of_targetClassName hclasses hold h hopen) hclasses hrename

/-- A class that stands as a type argument gets an accepted name, and its signature names it. -/
theorem classes_of_accepted_argument :
    targetClassName ⟨"A"⟩ "A" "B" = .ok "B" ∧ classes? "LList<LA;>;" = some ["List", "A"] ∧
      "A" ∈ ["List", "A"] ∧
      ∃ signature', rename? "LList<LA;>;" "A" "B" = some signature' ∧
        classes? signature' = some ["List", "B"] := by
  have haccepted : targetClassName ⟨"A"⟩ "A" "B" = .ok "B" := by decide +kernel
  have hclasses : classes? "LList<LA;>;" = some ["List", "A"] := by decide +kernel
  obtain ⟨signature', hrename, hafter⟩ := classes_of_accepted haccepted hclasses (by decide)
  exact ⟨haccepted, hclasses, by decide, signature', hrename, hafter.mpr (by decide)⟩

/-- The name `B<` is accepted, and with it a signature that named the class is no signature any more. -/
theorem exists_accepted_unnamed :
    ∃ old requested new signature names signature',
      targetClassName ⟨"A"⟩ old requested = .ok new ∧ classes? signature = some names ∧ old ∈ names ∧
        rename? signature old new = some signature' ∧
        classes? signature' ≠ some (names.map fun name => if name = old then new else name) :=
  ⟨"A", "B<", "B<", "LList<LA;>;", ["List", "A"], "LList<LB<;>;", by decide +kernel, by decide +kernel,
    by decide, by decide +kernel, by decide +kernel⟩

end ClassAtlas.Signature
