import ClassAtlas.Proofs.TypeText.Renaming

/-!
# The grammar of descriptors

A field type is any number of `[`, then the letter of a base type or a class name between `L` and `;`. A
method descriptor is a row of field types in parentheses, and then a field type or `V`. Reading a method
descriptor follows this grammar from the front, while replacing a class looks for the next `L` and the next
`;` and knows no grammar. Both cut a method descriptor at the same places.

## Main definitions

* `ClassAtlas.Descriptor.IsFieldType`, `IsResult` — the texts of field types and of results.
* `ClassAtlas.MethodParts.IsProper` — parts that make up a method descriptor, which is their `text`.
* `ClassAtlas.Descriptor.renamePart`, `ClassAtlas.MethodParts.rename` — parts with a class replaced.

## Main results

* `ClassAtlas.Descriptor.methodParts_eq_ok_iff` — exactly the descriptors of the grammar have parts.
* `ClassAtlas.Descriptor.segments_append` — the cut of a text that starts with a field type.
* `ClassAtlas.Descriptor.methodParts_and_rename?` — reading a descriptor and replacing a class in it agree.
-/

set_option autoImplicit false

namespace ClassAtlas

namespace Descriptor

open Segment

variable {descriptor old new : String} {parts : MethodParts} {cs taken rest : List Char}

/-! ### Field types -/

/-- The text of a field type. -/
inductive IsFieldType : List Char → Prop where
  /-- A base type. -/
  | base {c : Char} (hc : c ∈ baseTypes) : IsFieldType [c]
  /-- A class. -/
  | object {name : List Char} (hname : ';' ∉ name) : IsFieldType ('L' :: (name ++ [';']))
  /-- An array. -/
  | array {element : List Char} (helement : IsFieldType element) : IsFieldType ('[' :: element)

/-- The text of a result: `V` or a field type. -/
def IsResult (cs : List Char) : Prop :=
  cs = ['V'] ∨ IsFieldType cs

/-- Splitting through a stop character takes the characters up to the first one. -/
lemma splitThrough?_eq_some_iff {stop : Char} :
    splitThrough? stop cs = some (taken, rest) ↔
      ∃ name, stop ∉ name ∧ taken = name ++ [stop] ∧ taken ++ rest = cs := by
  induction cs generalizing taken with
  | nil =>
    refine iff_of_false (by simp [splitThrough?]) ?_
    rintro ⟨name, -, rfl, h⟩
    simp at h
  | cons c cs ih =>
    rw [splitThrough?]
    split_ifs with hc
    · subst hc
      constructor
      · intro h
        obtain ⟨rfl, rfl⟩ := Prod.mk.inj (Option.some.inj h)
        exact ⟨[], List.not_mem_nil, rfl, rfl⟩
      · rintro ⟨name, hname, rfl, h⟩
        cases name with
        | nil =>
          obtain ⟨-, rfl⟩ := List.cons.inj h
          rfl
        | cons d name => exact absurd ((List.cons.inj h).1 ▸ List.mem_cons_self) hname
    · constructor
      · intro h
        obtain ⟨⟨through, _⟩, hthrough, he⟩ := Option.map_eq_some_iff.mp h
        obtain ⟨rfl, rfl⟩ := Prod.mk.inj he
        obtain ⟨name, hname, rfl, rfl⟩ := ih.mp hthrough
        exact ⟨c :: name, by simpa [Ne.symm hc] using hname, rfl, rfl⟩
      · rintro ⟨name, hname, rfl, h⟩
        cases name with
        | nil => exact absurd (List.cons.inj h).1.symm hc
        | cons d name =>
          obtain ⟨rfl, hrest⟩ := List.cons.inj h
          rw [ih.mpr ⟨name, fun hm => hname (List.mem_cons_of_mem _ hm), rfl, hrest⟩]
          rfl

/-- The base types are told apart from the other types by their character. -/
lemma ne_of_mem_baseTypes {c d : Char} (hc : c ∈ baseTypes) (hd : d ∉ baseTypes) : c ≠ d := by
  rintro rfl
  exact hd hc

/-- The character of a base type is no part of a class name. -/
lemma segments_base {c : Char} (hc : c ∈ baseTypes) (cs : List Char) :
    segments (c :: cs) = .char c :: segments cs :=
  segments_char_cons (ne_of_mem_baseTypes hc (by decide)) cs

/-- **Splitting off a field type** takes the one field type that the text starts with. -/
theorem splitField?_eq_some_iff :
    splitField? cs = some (taken, rest) ↔ IsFieldType taken ∧ taken ++ rest = cs := by
  constructor
  · intro h
    refine ⟨?_, append_of_splitField? h⟩
    induction cs generalizing taken with
    | nil => simp [splitField?] at h
    | cons c cs ih =>
      rw [splitField?] at h
      split_ifs at h with harray hobject hbase
      · obtain ⟨⟨element, _⟩, helement, he⟩ := Option.map_eq_some_iff.mp h
        obtain ⟨rfl, rfl⟩ := Prod.mk.inj he
        subst harray
        exact .array (ih helement)
      · obtain ⟨⟨through, _⟩, hthrough, he⟩ := Option.map_eq_some_iff.mp h
        obtain ⟨rfl, rfl⟩ := Prod.mk.inj he
        obtain ⟨name, hname, rfl, -⟩ := splitThrough?_eq_some_iff.mp hthrough
        subst hobject
        exact .object hname
      · obtain ⟨rfl, -⟩ := Prod.mk.inj (Option.some.inj h)
        exact .base hbase
  · rintro ⟨htype, rfl⟩
    induction htype with
    | @base c hc =>
      have harray := ne_of_mem_baseTypes hc (show '[' ∉ baseTypes by decide)
      have hobject := ne_of_mem_baseTypes hc (show 'L' ∉ baseTypes by decide)
      rw [List.singleton_append, splitField?, if_neg harray, if_neg hobject, if_pos hc]
    | @object name hname =>
      have hthrough : splitThrough? ';' ((name ++ [';']) ++ rest) = some (name ++ [';'], rest) :=
        splitThrough?_eq_some_iff.mpr ⟨name, hname, rfl, rfl⟩
      rw [List.cons_append, splitField?, if_neg (by decide), if_pos rfl, hthrough]
      rfl
    | array _ ih =>
      rw [List.cons_append, splitField?, if_pos rfl, ih]
      rfl

/-- A field type is not empty, and it does not start with the end of the parameters. -/
lemma IsFieldType.exists_cons (h : IsFieldType cs) : ∃ c tail, cs = c :: tail ∧ c ≠ ')' := by
  cases h with
  | @base c hc => exact ⟨c, [], rfl, ne_of_mem_baseTypes hc (by decide)⟩
  | object => exact ⟨_, _, rfl, by decide⟩
  | array => exact ⟨_, _, rfl, by decide⟩

lemma isResult_eq_true_iff : isResult cs = true ↔ IsResult cs := by
  simp only [isResult, IsResult, Bool.or_eq_true, beq_iff_eq, Option.any_eq_true, Prod.exists,
    List.isEmpty_iff, splitField?_eq_some_iff]
  refine or_congr_right ⟨?_, fun h => ⟨cs, [], ⟨h, List.append_nil cs⟩, rfl⟩⟩
  rintro ⟨taken, _, ⟨htype, rfl⟩, rfl⟩
  rwa [List.append_nil]

/-! ### Method descriptors -/

/-- The parameters are field types, and the first closing parenthesis that is not in one of them ends the
row. -/
lemma splitParameters?_eq_some_iff {parameters : List (List Char)} :
    splitParameters? cs = some (parameters, rest) ↔
      (∀ part ∈ parameters, IsFieldType part) ∧ parameters.flatten ++ ')' :: rest = cs := by
  induction parameters generalizing cs with
  | nil =>
    rw [splitParameters?.eq_def]
    split
    · rename_i more
      simp [eq_comm]
    · rename_i hne
      refine iff_of_false ?_ fun h => hne rest h.2.symm
      split <;> simp
  | cons part parameters ih =>
    rw [splitParameters?.eq_def]
    split
    · rename_i more
      refine iff_of_false (by simp) ?_
      rintro ⟨htypes, h⟩
      obtain ⟨c, tail, rfl, hc⟩ := (htypes part List.mem_cons_self).exists_cons
      exact hc (List.cons.inj h).1
    · rw [List.forall_mem_cons, List.flatten_cons, List.append_assoc]
      constructor
      · intro h
        split at h
        · cases h
        · rename_i first more hfirst
          obtain ⟨⟨parameters', rest'⟩, hrest, he⟩ := Option.map_eq_some_iff.mp h
          obtain ⟨hparts, rfl⟩ := Prod.mk.inj he
          obtain ⟨rfl, rfl⟩ := List.cons.inj hparts
          obtain ⟨htype, rfl⟩ := splitField?_eq_some_iff.mp hfirst
          obtain ⟨htypes, rfl⟩ := ih.mp hrest
          exact ⟨⟨htype, htypes⟩, rfl⟩
      · rintro ⟨⟨htype, htypes⟩, h⟩
        have hfirst := splitField?_eq_some_iff.mpr ⟨htype, h⟩
        have hrest := ih.mpr ⟨htypes, rfl⟩
        split
        · rename_i hnone
          cases hnone.symm.trans hfirst
        · rename_i first more hsome
          obtain ⟨rfl, rfl⟩ := Prod.mk.inj (Option.some.inj (hsome.symm.trans hfirst))
          rw [hrest]
          rfl

end Descriptor

namespace MethodParts

open Descriptor

variable {parts other : MethodParts}

/-- Parts that make up a method descriptor: the parameters are field types, and so is the result, unless
it is `V`. -/
structure IsProper (parts : MethodParts) : Prop where
  /-- The parameters are field types. -/
  parameters : ∀ part ∈ parts.parameters, IsFieldType part.toList
  /-- The result is `V` or a field type. -/
  result : IsResult parts.result.toList

/-- The method descriptor that is made of parts. -/
def text (parts : MethodParts) : String :=
  "(" ++ String.join parts.parameters ++ ")" ++ parts.result

lemma toList_text (parts : MethodParts) :
    parts.text.toList =
      '(' :: ((parts.parameters.map String.toList).flatten ++ ')' :: parts.result.toList) := by
  simp [text, List.flatMap_def]

end MethodParts

namespace Descriptor

open Segment

variable {descriptor old new : String} {parts : MethodParts} {cs taken rest : List Char}

/-- **Exactly the descriptors of the grammar have parts**, and they are made of their parts. -/
theorem methodParts_eq_ok_iff :
    methodParts descriptor = .ok parts ↔ parts.IsProper ∧ parts.text = descriptor := by
  have hrow (texts : List (List Char)) : (texts.map String.ofList).map String.toList = texts := by
    simp [Function.comp_def]
  constructor
  · intro h
    rw [methodParts] at h
    split at h
    · rename_i found hfound
      obtain rfl := Except.ok.inj h
      split at hfound
      · rename_i cs hcs
        split at hfound
        · rename_i parameters result hsplit
          split_ifs at hfound with hresult
          obtain rfl := Option.some.inj hfound
          obtain ⟨htypes, hflat⟩ := splitParameters?_eq_some_iff.mp hsplit
          refine ⟨⟨?_, ?_⟩, ?_⟩
          · simpa using htypes
          · simpa using isResult_eq_true_iff.mp hresult
          · rw [← String.toList_inj, MethodParts.toList_text, hrow, String.toList_ofList, hflat, hcs]
        · cases hfound
      · cases hfound
    · cases h
  · rintro ⟨⟨hparameters, hresult⟩, rfl⟩
    have hsplit : splitParameters?
        ((parts.parameters.map String.toList).flatten ++ ')' :: parts.result.toList) =
          some (parts.parameters.map String.toList, parts.result.toList) :=
      splitParameters?_eq_some_iff.mpr ⟨by simpa using hparameters, rfl⟩
    simp [methodParts, MethodParts.toList_text, hsplit, isResult_eq_true_iff.mpr hresult,
      Function.comp_def]

/-- A descriptor with parts starts with a parenthesis, which is closed. -/
lemma parenthesized_of_methodParts (h : methodParts descriptor = .ok parts) :
    descriptor.toList.head? = some '(' ∧ ')' ∈ descriptor.toList := by
  obtain ⟨-, rfl⟩ := methodParts_eq_ok_iff.mp h
  simp [MethodParts.toList_text]

/-- A text without parts is reported as a whole. -/
theorem methodParts_eq_error (h : ∀ parts : MethodParts, parts.IsProper → parts.text ≠ descriptor) :
    methodParts descriptor = .error (.malformedDescriptor descriptor) := by
  cases hparts : methodParts descriptor with
  | ok parts =>
    obtain ⟨hproper, htext⟩ := methodParts_eq_ok_iff.mp hparts
    exact absurd htext (h parts hproper)
  | error cause =>
    rw [methodParts] at hparts
    split at hparts
    · cases hparts
    · exact congrArg Except.error (Except.error.inj hparts).symm

/-! ### Replacing a class -/

/-- A part with class `old` replaced by `new` if it names it: the array dimensions stay. -/
def renamePart (old new part : String) : String :=
  if fieldClass? part = some old then
    String.ofList (part.toList.takeWhile (· == '[')) ++ "L" ++ new ++ ";"
  else part

/-- **A text that starts with a field type** is cut where the field type ends. -/
theorem segments_append (h : IsFieldType cs) (rest : List Char) :
    segments (cs ++ rest) = segments cs ++ segments rest := by
  induction h with
  | @base c hc =>
    rw [List.singleton_append, segments_base hc, segments_base hc, segments, List.singleton_append]
  | @object name hname =>
    rw [List.cons_append, List.append_assoc, List.singleton_append, segments_className hname,
      segments_className hname, segments]
    rfl
  | array _ ih =>
    rw [List.cons_append, segments_char_cons (by decide), segments_char_cons (by decide), ih]
    rfl

/-- An array type names the class of its elements. -/
lemma fieldClass?_array (cs : List Char) :
    fieldClass? (String.ofList ('[' :: cs)) = fieldClass? (String.ofList cs) := by
  simp [fieldClass?]

lemma fieldClass?_object (name : List Char) :
    fieldClass? (String.ofList ('L' :: (name ++ [';']))) =
      if name = [] then none else some (String.ofList name) := by
  by_cases hname : name = [] <;> simp [fieldClass?, hname]

lemma fieldClass?_base {c : Char} (hc : c ∈ baseTypes) :
    fieldClass? (String.ofList [c]) = none := by
  revert hc
  simp only [baseTypes, List.mem_cons, List.not_mem_nil, or_false]
  rintro (rfl | rfl | rfl | rfl | rfl | rfl | rfl | rfl) <;> decide

/-- No descriptor names the nameless class. -/
lemma ne_empty_of_fieldClass? {text name : String} (h : fieldClass? text = some name) : name ≠ "" := by
  rw [fieldClass?] at h
  split at h
  · split_ifs at h with hlong
    obtain rfl := Option.some.inj h
    rw [Bool.and_eq_true, decide_eq_true_eq, decide_eq_true_eq] at hlong
    intro he
    have hlength := congrArg (List.length ∘ String.toList) he
    simp at hlength
    omega
  · cases h

/-- A class other than the nameless one is named by a field type if and only if it is one of its segments. -/
lemma mem_classNames_iff (h : IsFieldType cs) (hold : old ≠ "") :
    old.toList ∈ classNames (segments cs) ↔ fieldClass? (String.ofList cs) = some old := by
  induction h with
  | @base c hc =>
    rw [fieldClass?_base hc, segments_base hc, segments]
    simp
  | @object name hname =>
    have hsegments := segments_className hname []
    rw [hsegments, segments, fieldClass?_object]
    have hnonempty : old.toList ≠ [] := fun he => hold (String.toList_eq_nil_iff.mp he)
    by_cases he : name = []
    · simpa [he] using hnonempty
    · rw [if_neg he, Option.some.injEq, ← String.toList_inj, String.toList_ofList]
      simp [eq_comm]
  | array _ ih =>
    rw [fieldClass?_array, segments_char_cons (by decide), classNames_char_cons, ih]

/-- The renamed segments of a field type spell the renamed field type. -/
lemma render_map_rename (h : IsFieldType cs) (hold : old ≠ "") (new : String) :
    render ((segments cs).map (rename old.toList new.toList)) =
      (renamePart old new (String.ofList cs)).toList := by
  rw [renamePart]
  induction h with
  | @base c hc =>
    rw [fieldClass?_base hc, segments_base hc, segments]
    simp [rename, chars]
  | @object name hname =>
    have hsegments := segments_className hname []
    rw [hsegments, segments, fieldClass?_object]
    have hnonempty : old.toList ≠ [] := fun he => hold (String.toList_eq_nil_iff.mp he)
    have hnames : String.ofList name = old ↔ name = old.toList := by
      rw [← String.toList_inj, String.toList_ofList]
    by_cases he : name = []
    · simp [he, rename, chars, Ne.symm hnonempty]
    · by_cases ho : name = old.toList
      · simp [ho, hold, rename, chars]
      · simp [he, ho, hnames, rename, chars]
  | array _ ih =>
    rw [fieldClass?_array, segments_char_cons (by decide), List.map_cons, render_cons, ih]
    split_ifs <;> simp [rename, chars]

/-- A renamed field type is a field type, if the new name does not end early. -/
lemma isFieldType_renamePart (old : String) (h : IsFieldType cs) (hnew : ';' ∉ new.toList) :
    IsFieldType (renamePart old new (String.ofList cs)).toList := by
  rw [renamePart]
  induction h with
  | @base c hc =>
    rw [fieldClass?_base hc, if_neg (by simp), String.toList_ofList]
    exact .base hc
  | @object name hname =>
    split_ifs
    · simpa using IsFieldType.object hnew
    · rw [String.toList_ofList]
      exact .object hname
  | array helement ih =>
    rw [fieldClass?_array]
    split_ifs at ih ⊢
    · simpa using IsFieldType.array ih
    · simpa using IsFieldType.array helement

/-! ### Results -/

namespace IsResult

lemma segments_result : segments ['V'] = [.char 'V'] := by
  rw [segments_char_cons (by decide), segments]

lemma mem_classNames_iff (h : IsResult cs) (hold : old ≠ "") :
    old.toList ∈ classNames (segments cs) ↔ fieldClass? (String.ofList cs) = some old := by
  rcases h with rfl | h
  · simp [segments_result, fieldClass?]
  · exact Descriptor.mem_classNames_iff h hold

lemma render_map_rename (h : IsResult cs) (hold : old ≠ "") (new : String) :
    render ((segments cs).map (rename old.toList new.toList)) =
      (renamePart old new (String.ofList cs)).toList := by
  rcases h with rfl | h
  · simp [segments_result, renamePart, fieldClass?, rename, chars]
  · exact Descriptor.render_map_rename h hold new

/-- Replacing a class in a single type finds it if the type names it. -/
theorem rename?_eq_none_iff {text : String} (h : IsResult text.toList) (hold : old ≠ "") :
    rename? text old new = none ↔ fieldClass? text ≠ some old := by
  rw [rename?, Option.map_eq_none_iff, renameClass?_eq_none_iff, h.mem_classNames_iff hold,
    String.ofList_toList]

lemma isResult_renamePart (old : String) (h : IsResult cs) (hnew : ';' ∉ new.toList) :
    IsResult (renamePart old new (String.ofList cs)).toList := by
  rcases h with rfl | h
  · exact .inl (by simp [renamePart, fieldClass?])
  · exact .inr (isFieldType_renamePart old h hnew)

end IsResult

/-- Replacing a class in the name of a class constant finds it if the constant denotes it. -/
theorem renameConstant?_ne_none {name : String}
    (harray : name.toList.head? = some '[' → IsFieldType name.toList)
    (h : constantClass? name = some old) (new : String) : renameConstant? name old new ≠ none := by
  rw [renameConstant?]
  split_ifs with he hhead
  · simp
  · obtain ⟨rest, hrest⟩ := List.head?_eq_some_iff.mp hhead
    rw [constantClass?, hrest] at h
    exact fun hnone => (IsResult.rename?_eq_none_iff (.inr (harray hhead))
      (ne_empty_of_fieldClass? h)).mp hnone h
  · rw [constantClass?] at h
    split at h
    · rename_i hrest
      exact absurd (by rw [hrest]; rfl) hhead
    · exact absurd (Option.some.inj h) he

end Descriptor

/-! ### Parts -/

namespace MethodParts

open Segment Descriptor

variable {parts other : MethodParts} {old new : String}

/-- The parts with class `old` replaced by `new` in those that name it. -/
def rename (old new : String) (parts : MethodParts) : MethodParts :=
  ⟨parts.parameters.map (renamePart old new), renamePart old new parts.result⟩

/-- Some part names a class. -/
def Names (parts : MethodParts) (name : String) : Prop :=
  ∃ part ∈ parts.result :: parts.parameters, fieldClass? part = some name

namespace IsProper

variable (h : parts.IsProper)
include h

/-- The row of parameters is cut into its parts. -/
lemma segments_text :
    segments parts.text.toList =
      .char '(' :: (parts.parameters.flatMap (fun part => segments part.toList) ++
        .char ')' :: segments parts.result.toList) := by
  have hrow (texts : List String) (htexts : ∀ part ∈ texts, IsFieldType part.toList)
      (rest : List Char) : segments ((texts.map String.toList).flatten ++ rest) =
        texts.flatMap (fun part => segments part.toList) ++ segments rest := by
    induction texts with
    | nil => rfl
    | cons part texts ih =>
      obtain ⟨hpart, htexts⟩ := List.forall_mem_cons.mp htexts
      rw [List.map_cons, List.flatten_cons, List.append_assoc, segments_append hpart, ih htexts,
        List.flatMap_cons, List.append_assoc]
  rw [toList_text, segments_char_cons (by decide), hrow _ h.parameters,
    segments_char_cons (by decide)]

lemma mem_classNames_iff (hold : old ≠ "") :
    old.toList ∈ classNames (segments parts.text.toList) ↔ parts.Names old := by
  have hpart (part : String) (hpart : IsResult part.toList) :
      old.toList ∈ classNames (segments part.toList) ↔ fieldClass? part = some old := by
    rw [hpart.mem_classNames_iff hold, String.ofList_toList]
  have hparameters : old.toList ∈
      classNames (parts.parameters.flatMap fun part => segments part.toList) ↔
        ∃ part ∈ parts.parameters, fieldClass? part = some old := by
    simp only [classNames, List.filterMap_flatMap, List.mem_flatMap]
    exact exists_congr fun part => and_congr_right fun hmem => hpart part (.inr (h.parameters part hmem))
  rw [h.segments_text, classNames_char_cons, classNames_append, classNames_char_cons, List.mem_append,
    hparameters, hpart _ h.result, Names, List.exists_mem_cons_iff, or_comm]

lemma render_map_rename (hold : old ≠ "") (new : String) :
    render ((segments parts.text.toList).map (Segment.rename old.toList new.toList)) =
      (parts.rename old new).text.toList := by
  have hpart (part : String) (hpart : IsResult part.toList) :
      render ((segments part.toList).map (Segment.rename old.toList new.toList)) =
        (renamePart old new part).toList := by
    rw [hpart.render_map_rename hold, String.ofList_toList]
  have hparameters (texts : List String) (htexts : ∀ part ∈ texts, IsFieldType part.toList) :
      render ((texts.flatMap fun part => segments part.toList).map
        (Segment.rename old.toList new.toList)) =
          ((texts.map (renamePart old new)).map String.toList).flatten := by
    induction texts with
    | nil => rfl
    | cons part texts ih =>
      obtain ⟨htype, htexts⟩ := List.forall_mem_cons.mp htexts
      rw [List.flatMap_cons, List.map_append, render_append, hpart part (.inr htype), ih htexts]
      rfl
  rw [h.segments_text, toList_text, List.map_cons, List.map_append, List.map_cons, render_cons,
    render_append, render_cons, hparameters _ h.parameters, hpart _ h.result]
  rfl

/-- Renamed parts make up a method descriptor, if the new name does not end early. -/
lemma rename (hnew : ';' ∉ new.toList) : (parts.rename old new).IsProper := by
  refine ⟨?_, ?_⟩
  · intro part hmem
    obtain ⟨part, hpart, rfl⟩ := List.mem_map.mp hmem
    simpa using isFieldType_renamePart old (h.parameters part hpart) hnew
  · simpa [MethodParts.rename] using h.result.isResult_renamePart old hnew

/-- **Replacing a class in a method descriptor** replaces it in the parts that name it. -/
theorem rename?_text (new : String) (hold : old ≠ "") :
    (rename? parts.text old new = none ↔ ¬ parts.Names old) ∧
      ∀ text', rename? parts.text old new = some text' → text' = (parts.rename old new).text := by
  constructor
  · rw [rename?, Option.map_eq_none_iff, renameClass?_eq_none_iff, h.mem_classNames_iff hold]
  · intro text' ht
    obtain ⟨cs, hcs, rfl⟩ := Option.map_eq_some_iff.mp ht
    obtain ⟨-, rfl⟩ := renameClass?_eq_some_iff.mp hcs
    rw [h.render_map_rename hold, String.ofList_toList]

end IsProper

end MethodParts

namespace Descriptor

/-- **Reading a method descriptor and replacing a class in it agree.** The descriptors that can be read are
those of the grammar, and the parts are the only ones that make up the descriptor; any other text is
reported as a whole. A class is replaced if and only if a part names it, and then in exactly these parts,
which are read again if the new name has no `;`.

**Proof sketch.** Splitting off a field type takes the one field type that the text starts with, and the
cut into segments of a text that starts with a field type ends where the field type does. So the two scans
go from part to part together. -/
theorem methodParts_and_rename? (descriptor : String) :
    (∀ parts, methodParts descriptor = .ok parts ↔
      (parts.IsProper ∧ parts.text = descriptor) ∧
        ∀ other : MethodParts, other.IsProper → other.text = descriptor → other = parts) ∧
    ((∀ parts, methodParts descriptor ≠ .ok parts) →
      methodParts descriptor = .error (.malformedDescriptor descriptor)) ∧
    ∀ parts old new, methodParts descriptor = .ok parts → old ≠ "" →
      (rename? descriptor old new = none ↔ ¬ parts.Names old) ∧
      ∀ renamed, rename? descriptor old new = some renamed →
        renamed = (parts.rename old new).text ∧
          (';' ∉ new.toList → methodParts renamed = .ok (parts.rename old new)) := by
  refine ⟨fun parts => ⟨fun h => ⟨methodParts_eq_ok_iff.mp h, fun other hother htext => ?_⟩,
    fun h => methodParts_eq_ok_iff.mpr h.1⟩, fun h => ?_, fun parts old new hparts hold => ?_⟩
  · have hread := methodParts_eq_ok_iff.mpr ⟨hother, htext⟩
    exact Except.ok.inj (hread.symm.trans h)
  · exact methodParts_eq_error fun parts hproper htext =>
      h parts (methodParts_eq_ok_iff.mpr ⟨hproper, htext⟩)
  · obtain ⟨hproper, rfl⟩ := methodParts_eq_ok_iff.mp hparts
    obtain ⟨hnone, hsome⟩ := hproper.rename?_text new hold
    refine ⟨hnone, fun renamed hrenamed => ⟨hsome renamed hrenamed, fun hnew => ?_⟩⟩
    rw [hsome renamed hrenamed]
    exact methodParts_eq_ok_iff.mpr ⟨hproper.rename hnew, rfl⟩

/-- The class `LA` is not the class `A`, whose name can be found inside it. -/
theorem methodParts_and_rename?_nested :
    methodParts "(I[LA;LLA;[[D)LA;" = .ok ⟨["I", "[LA;", "LLA;", "[[D"], "LA;"⟩ ∧
      rename? "(I[LA;LLA;[[D)LA;" "A" "(é" = some "(I[L(é;LLA;[[D)L(é;" ∧
      methodParts "(I[L(é;LLA;[[D)L(é;" = .ok ⟨["I", "[L(é;", "LLA;", "[[D"], "L(é;"⟩ := by
  obtain ⟨-, -, hrename⟩ := methodParts_and_rename? "(I[LA;LLA;[[D)LA;"
  have hparts : methodParts "(I[LA;LLA;[[D)LA;" = .ok ⟨["I", "[LA;", "LLA;", "[[D"], "LA;"⟩ := by
    decide +kernel
  have hrenamed : rename? "(I[LA;LLA;[[D)LA;" "A" "(é" = some "(I[L(é;LLA;[[D)L(é;" := by
    decide +kernel
  refine ⟨hparts, hrenamed, ?_⟩
  rw [((hrename _ "A" "(é" hparts (by decide)).2 _ hrenamed).2 (by decide)]
  decide +kernel

end Descriptor

end ClassAtlas
