import Mathlib
import ClassAtlas.TypeText.Signature

/-!
# Renaming a class in type texts

A text is cut into segments, and a class name in it is replaced by another one. If the new name has
none of the characters at which the grammar ends a class name, then the new text is cut at the same
places. So renaming back gives the old text, and renaming again finds nothing.

## Main definitions

* `ClassAtlas.Segment.Cut` — a way to cut texts that survives renaming.
* `ClassAtlas.Segment.renameText?` — renaming with a way to cut texts.

## Main results

* `ClassAtlas.Segment.Cut.rename_back`, `Cut.rename_again` — renaming back and again.
* `ClassAtlas.Descriptor.cut_segments` — descriptors are cut that way.
* `ClassAtlas.Descriptor.renameConstant?_inverse`, `renameConstant?_again` — names of class
  constants.
-/

set_option autoImplicit false

namespace ClassAtlas

namespace Segment

variable {old new : List Char} {segments : List Segment}

/-! ### Segments -/

/-- A class name in a text is a part of the text. -/
lemma isInfix_of_mem_classNames {name : List Char} (h : name ∈ classNames segments) :
    name <:+: render segments := by
  induction segments with
  | nil => simp at h
  | cons s segments ih =>
    have hrest {l : List Char} (h : name <:+: render segments) : name <:+: l ++ render segments :=
      h.trans (List.suffix_append _ _).isInfix
    cases s with
    | char c => exact hrest (ih h)
    | className other =>
      rw [classNames_className_cons, List.mem_cons] at h
      rcases h with rfl | h
      · exact (List.prefix_append _ _).isInfix
      · exact hrest (ih h)

@[simp]
lemma classNames_map_char (cs : List Char) : classNames (cs.map .char) = [] := by
  simp [classNames, List.filterMap_map, Function.comp_def, className?]

/-- Renaming back undoes renaming if the new name did not occur. -/
lemma map_rename_map_rename (h : new ∉ classNames segments) :
    (segments.map (rename old new)).map (rename new old) = segments := by
  induction segments with
  | nil => rfl
  | cons s segments ih =>
    cases s with
    | char c => simp only [List.map_cons, rename, ih h]
    | className name =>
      rw [classNames_className_cons, List.mem_cons, not_or] at h
      simp only [List.map_cons, rename, ih h.2]
      by_cases hn : name = old
      · simp [hn]
      · simp [hn, Ne.symm h.1]

/-- The old name does not occur after renaming. -/
lemma not_mem_classNames_map_rename (hne : old ≠ new) :
    old ∉ classNames (segments.map (rename old new)) := by
  rw [classNames_map_rename, List.mem_map]
  rintro ⟨name, -, h⟩
  split_ifs at h with hn
  · exact hne h.symm
  · exact hn h

/-- The new name occurs after renaming if the old one did before. -/
lemma mem_classNames_map_rename (h : old ∈ classNames segments) :
    new ∈ classNames (segments.map (rename old new)) := by
  rw [classNames_map_rename, List.mem_map]
  exact ⟨old, h, if_pos rfl⟩

lemma renameClass?_eq_some_iff {text : List Char} :
    renameClass? segments old new = some text ↔
      old ∈ classNames segments ∧ text = render (segments.map (rename old new)) := by
  unfold renameClass?
  split_ifs with h
  · simp [h, eq_comm]
  · simp [h]

/-! ### Cutting texts -/

/-- A text with a class replaced, where `cut` tells the segments. -/
def renameText? (cut : List Char → Option (List Segment)) (text old new : String) :
    Option String :=
  (cut text.toList).bind fun segments =>
    (renameClass? segments old.toList new.toList).map String.ofList

/-- A way to cut texts that loses nothing, and that cuts a renamed text at the same places if the new
name has the property `plain`. -/
structure Cut (cut : List Char → Option (List Segment)) (plain : List Char → Prop) : Prop where
  /-- The segments spell the text. -/
  render_eq : ∀ {cs segments}, cut cs = some segments → render segments = cs
  /-- Renaming keeps the cut. -/
  stable : ∀ {cs segments old new}, cut cs = some segments → plain new →
    cut (render (segments.map (rename old new))) = some (segments.map (rename old new))

variable {cut : List Char → Option (List Segment)} {plain : List Char → Prop}
  {text text' old new : String}

lemma renameText?_eq_some_iff :
    renameText? cut text old new = some text' ↔
      ∃ segments, cut text.toList = some segments ∧ old.toList ∈ classNames segments ∧
        text'.toList = render (segments.map (rename old.toList new.toList)) := by
  simp only [renameText?, Option.bind_eq_some_iff, Option.map_eq_some_iff,
    renameClass?_eq_some_iff]
  refine exists_congr fun segments => and_congr_right fun _ => ?_
  constructor
  · rintro ⟨cs, ⟨ho, rfl⟩, rfl⟩
    exact ⟨ho, String.toList_ofList⟩
  · rintro ⟨ho, ht⟩
    exact ⟨_, ⟨ho, rfl⟩, by rw [← ht, String.ofList_toList]⟩

lemma renameText?_eq_none_iff :
    renameText? cut text old new = none ↔
      ∀ segments, cut text.toList = some segments → old.toList ∉ classNames segments := by
  simp only [renameText?, Option.bind_eq_none_iff, Option.map_eq_none_iff,
    renameClass?_eq_none_iff]

namespace Cut

/-- A text with no trace of a name has nothing to rename. -/
lemma rename_eq_none (h : Cut cut plain) (hn : ¬ new.toList <:+: text.toList) :
    renameText? cut text new old = none := by
  refine renameText?_eq_none_iff.mpr fun segments hs hm => hn ?_
  rw [← h.render_eq hs]
  exact isInfix_of_mem_classNames hm

/-- **Renaming back** gives the old text, if the text did not name the new class. -/
theorem rename_back (h : Cut cut plain) (hp : plain new.toList)
    (hn : renameText? cut text new old = none) (ht : renameText? cut text old new = some text') :
    renameText? cut text' new old = some text := by
  obtain ⟨segments, hs, ho, ht'⟩ := renameText?_eq_some_iff.mp ht
  refine renameText?_eq_some_iff.mpr
    ⟨_, by rw [ht']; exact h.stable hs hp, mem_classNames_map_rename ho, ?_⟩
  rw [map_rename_map_rename (renameText?_eq_none_iff.mp hn segments hs), h.render_eq hs]

/-- Renaming back gives the old text, if the new name was no part of it. -/
theorem rename_inverse (h : Cut cut plain) (hp : plain new.toList)
    (hn : ¬ new.toList <:+: text.toList) (ht : renameText? cut text old new = some text') :
    renameText? cut text' new old = some text :=
  h.rename_back hp (h.rename_eq_none hn) ht

/-- **Renaming again** finds nothing. -/
theorem rename_again (h : Cut cut plain) (hp : plain new.toList) (hne : old ≠ new)
    (ht : renameText? cut text old new = some text') : renameText? cut text' old new = none := by
  obtain ⟨segments, hs, -, ht'⟩ := renameText?_eq_some_iff.mp ht
  refine renameText?_eq_none_iff.mpr fun segments' hs' => ?_
  rw [ht', h.stable hs hp] at hs'
  obtain rfl := Option.some.inj hs'
  exact not_mem_classNames_map_rename fun he => hne (String.toList_inj.mp he)

end Cut

/-- A renamed text has the new name as a part. -/
lemma isInfix_of_renameText? (ht : renameText? cut text old new = some text') :
    new.toList <:+: text'.toList := by
  obtain ⟨segments, -, ho, ht'⟩ := renameText?_eq_some_iff.mp ht
  rw [ht']
  exact isInfix_of_mem_classNames (mem_classNames_map_rename ho)

end Segment

/-! ### Descriptors -/

namespace Descriptor

open Segment

variable {text text' old new : String}

lemma segments_char_cons {c : Char} (hc : c ≠ 'L') (cs : List Char) :
    segments (c :: cs) = .char c :: segments cs := by
  rw [segments, if_pos hc]

/-- What is left after the characters before a `;` starts with it. -/
lemma exists_dropWhile_eq {cs : List Char} (hs : ';' ∈ cs) :
    ∃ rest, cs.dropWhile (· != ';') = ';' :: rest := by
  have hne : cs.dropWhile (· != ';') ≠ [] := by
    rw [Ne, List.dropWhile_eq_nil_iff]
    exact fun h => absurd (h _ hs) (by simp)
  obtain ⟨d, rest, hd⟩ := List.exists_cons_of_ne_nil hne
  have hhead := List.head_dropWhile_not (· != ';') hne
  simp only [hd, List.head_cons, bne_eq_false_iff_eq] at hhead
  exact ⟨rest, by rw [hd, hhead]⟩

/-- A class name stands between an `L` and a `;`. -/
lemma segments_className {name : List Char} (hn : ';' ∉ name) (cs : List Char) :
    segments ('L' :: (name ++ ';' :: cs)) =
      .char 'L' :: .className name :: .char ';' :: segments cs := by
  have htake : (name ++ ';' :: cs).takeWhile (· != ';') = name := by
    rw [List.takeWhile_append_of_pos (by
      intro c hc
      exact bne_iff_ne.mpr fun he => hn (he ▸ hc))]
    simp
  have hdrop : (name ++ ';' :: cs).dropWhile (· != ';') = ';' :: cs := by
    rw [List.dropWhile_append_of_pos (by
      intro c hc
      exact bne_iff_ne.mpr fun he => hn (he ▸ hc))]
    simp
  rw [segments, if_neg (by simp), if_pos (by simp), htake, hdrop,
    segments_char_cons (by decide)]

/-- **Descriptors are cut at the same places** after renaming to a name without a `;`. -/
theorem cut_segments : Cut (fun cs => some (segments cs)) fun new => ';' ∉ new := by
  refine ⟨fun {cs segs} h => ?_, fun {cs segs old new} h hp => ?_⟩
  · rw [← Option.some.inj h, render_segments]
  · obtain rfl := Option.some.inj h
    congr 1
    clear h
    fun_induction segments cs with
    | case1 => simp [segments]
    | case2 c cs hc ih =>
      rw [List.map_cons, render_cons, rename, chars, List.singleton_append,
        segments_char_cons hc, ih]
    | case3 c cs hc hs this ih =>
      obtain rfl := not_not.mp hc
      obtain ⟨rest, hrest⟩ := exists_dropWhile_eq hs
      have hname : ';' ∉ (if cs.takeWhile (· != ';') = old then new else cs.takeWhile (· != ';')) := by
        split_ifs
        · exact hp
        · intro hm
          simpa using List.mem_takeWhile_imp hm
      rw [hrest, segments_char_cons (by decide)] at ih ⊢
      simp only [List.map_cons, rename, render_cons, chars, List.singleton_append,
        segments_char_cons (show ';' ≠ 'L' by decide), List.cons.injEq, true_and] at ih ⊢
      rw [segments_className hname, ih]
    | case4 c cs hc hs =>
      obtain rfl := not_not.mp hc
      have hmap : (cs.map Segment.char).map (rename old new) = cs.map Segment.char := by
        rw [List.map_map]
        rfl
      rw [List.map_cons, hmap, rename, render_cons, render_map_char, chars, List.singleton_append,
        segments, if_neg (by simp), if_neg hs]

lemma rename?_eq (text old new : String) :
    rename? text old new = renameText? (fun cs => some (segments cs)) text old new := rfl

/-- A class name in a descriptor has no `;`, and a `;` follows it. -/
lemma not_mem_of_mem_classNames {cs name : List Char} (h : name ∈ classNames (segments cs)) :
    ';' ∉ name ∧ ';' ∈ cs := by
  fun_induction segments cs with
  | case1 => simp at h
  | case2 c cs hc ih => exact (ih h).imp_right (List.mem_cons_of_mem c)
  | case3 c cs hc hs this ih =>
    refine ⟨?_, List.mem_cons_of_mem c hs⟩
    rw [classNames_char_cons, classNames_className_cons, List.mem_cons] at h
    rcases h with rfl | h
    · intro hm
      simpa using List.mem_takeWhile_imp hm
    · exact (ih h).1
  | case4 c cs hc hs =>
    rw [classNames_char_cons, classNames_map_char] at h
    simp at h

/-- A descriptor with a class in it stands between an `L` and a `;`. -/
lemma isInfix_of_mem_segments {cs name : List Char} (h : name ∈ classNames (segments cs)) :
    'L' :: name ++ [';'] <:+: cs := by
  fun_induction segments cs with
  | case1 => simp at h
  | case2 c cs hc ih => exact (ih h).trans (List.suffix_cons c cs).isInfix
  | case3 c cs hc hs this ih =>
    obtain rfl := not_not.mp hc
    rw [classNames_char_cons, classNames_className_cons, List.mem_cons] at h
    rcases h with rfl | h
    · obtain ⟨rest, hrest⟩ := exists_dropWhile_eq hs
      refine ⟨[], rest, ?_⟩
      conv_rhs => rw [← List.takeWhile_append_dropWhile (p := (· != ';')) (l := cs), hrest]
      simp
    · exact (ih h).trans ((List.dropWhile_suffix _).trans (List.suffix_cons _ _)).isInfix
  | case4 c cs hc hs =>
    rw [classNames_char_cons, classNames_map_char] at h
    simp at h

/-- A descriptor starts as before after renaming, unless it is that of a class. -/
lemma head?_rename {c : Char} (hc : c ≠ 'L') (ht : rename? text old new = some text')
    (hhead : text.toList.head? = some c) : text'.toList.head? = some c := by
  rw [rename?_eq] at ht
  obtain ⟨segs, hs, -, ht'⟩ := renameText?_eq_some_iff.mp ht
  obtain rfl := Option.some.inj hs
  obtain ⟨rest, hrest⟩ := List.head?_eq_some_iff.mp hhead
  rw [ht', hrest, segments_char_cons hc]
  rfl

/-- A renamed array type is not the name that was replaced. -/
lemma ne_of_rename? (hp : ';' ∉ new.toList) (ht : rename? text old new = some text') :
    text' ≠ old := by
  rintro rfl
  rw [rename?_eq] at ht
  obtain ⟨segs, hs, ho, ht'⟩ := renameText?_eq_some_iff.mp ht
  obtain rfl := Option.some.inj hs
  have hcut : some (segments (render _)) = some ((segments text.toList).map
    (rename text'.toList new.toList)) := cut_segments.stable rfl hp
  have hnew : new.toList ∈ classNames ((segments text.toList).map
    (rename text'.toList new.toList)) := mem_classNames_map_rename ho
  rw [← Option.some.inj hcut, ← ht'] at hnew
  exact (not_mem_of_mem_classNames ho).1 (not_mem_of_mem_classNames hnew).2

/-- **The name of a class constant is renamed back** to what it was. -/
theorem renameConstant?_inverse (hp : ';' ∉ new.toList) (hb : '[' ∉ new.toList)
    (hn : ¬ new.toList <:+: text.toList) (ht : renameConstant? text old new = some text') :
    renameConstant? text' new old = some text := by
  unfold renameConstant? at ht ⊢
  split_ifs at ht with heq harray
  · obtain rfl := Option.some.inj ht
    rw [if_pos rfl, heq]
  · have hhead := head?_rename (by decide) ht harray
    have hne : text' ≠ new := by
      rintro rfl
      obtain ⟨rest, hrest⟩ := List.head?_eq_some_iff.mp hhead
      exact hb (by rw [hrest]; exact List.mem_cons_self)
    rw [if_neg hne, if_pos hhead, rename?_eq]
    exact cut_segments.rename_inverse hp hn ht

/-- The name of a class constant with no trace of a name has nothing to rename. -/
lemma renameConstant?_eq_none (hn : ¬ new.toList <:+: text.toList) :
    renameConstant? text new old = none := by
  unfold renameConstant?
  split_ifs with heq
  · exact absurd (heq ▸ List.infix_refl _) hn
  · exact cut_segments.rename_eq_none hn
  · rfl

/-- **The name of a class constant is not renamed again.** -/
theorem renameConstant?_again (hp : ';' ∉ new.toList) (hb : '[' ∉ new.toList) (hne : old ≠ new)
    (ht : renameConstant? text old new = some text') : renameConstant? text' old new = none := by
  unfold renameConstant? at ht ⊢
  split_ifs at ht with heq harray
  · obtain rfl := Option.some.inj ht
    rw [if_neg (Ne.symm hne), if_neg]
    intro hhead
    obtain ⟨rest, hrest⟩ := List.head?_eq_some_iff.mp hhead
    exact hb (by rw [hrest]; exact List.mem_cons_self)
  · rw [if_neg (ne_of_rename? hp ht), if_pos (head?_rename (by decide) ht harray), rename?_eq]
    exact cut_segments.rename_again hp hne ht

/-- A renamed class constant has the new name as a part. -/
lemma isInfix_of_renameConstant? (ht : renameConstant? text old new = some text') :
    new.toList <:+: text'.toList := by
  unfold renameConstant? at ht
  split_ifs at ht
  · obtain rfl := Option.some.inj ht
    exact List.infix_refl _
  · rw [rename?_eq] at ht
    exact isInfix_of_renameText? ht

end Descriptor

end ClassAtlas
