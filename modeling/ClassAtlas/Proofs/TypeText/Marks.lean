import ClassAtlas.Proofs.TypeText.Classes

/-!
# Marks around class names

In a signature every class name stands between an `L` and a mark: a `;`, a `<` if the class has type
arguments, or a `.` if a member class of it is meant. The name itself has no marks in it. Renaming a
class leaves the marks as they are, so the new name stands between the marks of the old one.

## Main definitions

* `ClassAtlas.Signature.Marked` — segments in which every class name stands between marks.

## Main results

* `ClassAtlas.Signature.marked_segments?` — signatures are cut into such segments.
* `ClassAtlas.Signature.exists_mark_of_mem_classes` — the marks around a class in a signature.
* `ClassAtlas.Signature.plain_of_mem_classes` — no marks in the name of a class in a signature.
* `ClassAtlas.Signature.mark_of_rename?` — the marks around the new name of a class.
-/

set_option autoImplicit false

namespace ClassAtlas

/-- The segments of a larger text spell a part of it. -/
lemma Segment.isInfix_render {part segments : List Segment} (h : part <:+: segments) :
    render part <:+: render segments := by
  obtain ⟨before, after, rfl⟩ := h
  exact ⟨render before, render after, by simp⟩

namespace Signature

open Segment
open Descriptor (baseTypes)

/-- Segments in which every class name stands between an `L` and a mark, and has no mark in it. -/
inductive Marked : List Segment → Prop
  | nil : Marked []
  | char {segments : List Segment} (c : Char) : Marked segments → Marked (.char c :: segments)
  | className {segments : List Segment} {c : Char} {name : List Char} : Plain name →
      c ∈ ['<', '.', ';'] → Marked (.char c :: segments) →
        Marked (.char 'L' :: .className name :: .char c :: segments)

/-- Whatever a scanner reads has its class names between marks. -/
def Marks (scan : Scan) : Prop :=
  ∀ ⦃cs segments rest⦄, scan cs = some (segments, rest) → Marked segments

variable {cs rest name : List Char} {segments : List Segment} {fuel : Nat}

namespace Marked

theorem append {a b : List Segment} (ha : Marked a) (hb : Marked b) : Marked (a ++ b) := by
  induction ha with
  | nil => exact hb
  | char c _ ih => exact ih.char c
  | className hplain hc _ ih => exact ih.className hplain hc

theorem map_char (cs : List Char) : Marked (cs.map .char) := by
  induction cs with
  | nil => exact .nil
  | cons c cs ih => exact ih.char c

/-- The marks around a class name. -/
theorem exists_mark (h : Marked segments) (hn : name ∈ classNames segments) :
    ∃ c ∈ ['<', '.', ';'], [.char 'L', .className name, .char c] <:+: segments := by
  induction h with
  | nil => simp at hn
  | char c _ ih =>
    obtain ⟨d, hd, hin⟩ := ih hn
    exact ⟨d, hd, hin.trans (List.suffix_cons _ _).isInfix⟩
  | @className segments c other _ hc _ ih =>
    rw [classNames_char_cons, classNames_className_cons, List.mem_cons] at hn
    rcases hn with rfl | hn
    · exact ⟨c, hc, (List.prefix_append [Segment.char 'L', .className name, .char c] segments).isInfix⟩
    · obtain ⟨d, hd, hin⟩ := ih hn
      exact ⟨d, hd, hin.trans (List.suffix_append [Segment.char 'L', .className other] _).isInfix⟩

/-- The class names have no marks in them. -/
theorem plain (h : Marked segments) (hn : name ∈ classNames segments) : Plain name := by
  induction h with
  | nil => simp at hn
  | char c _ ih => exact ih hn
  | className hplain _ _ ih =>
    rw [classNames_char_cons, classNames_className_cons, List.mem_cons] at hn
    exact hn.elim (· ▸ hplain) ih

end Marked

/-! ### The scanners of types -/

/-- Whatever a scanner reads has its class names between marks and starts with the mark after a class
name. -/
def Closes (scan : Scan) : Prop :=
  ∀ ⦃cs segments rest⦄, scan cs = some (segments, rest) →
    Marked segments ∧ ∃ c ∈ ['<', '.', ';'], ∃ more, segments = .char c :: more

lemma marks_referenceType_succ (htype : Marks (typeSignature? fuel))
    (hsuffix : Closes (classSuffix? fuel)) : Marks (referenceType? (fuel + 1)) := by
  intro cs segments rest h
  cases cs with
  | nil => simp [referenceType?] at h
  | cons c cs =>
    rw [referenceType?] at h
    split_ifs at h with hL hT hA
    · obtain ⟨⟨name, cs₁⟩, hname, h⟩ := Option.bind_eq_some_iff.mp h
      obtain ⟨⟨more, cs₂⟩, hmore, h⟩ := Option.bind_eq_some_iff.mp h
      obtain ⟨rfl, -⟩ := Prod.mk.inj (Option.some.inj h)
      obtain ⟨hmarked, d, hd, tail, rfl⟩ := hsuffix hmore
      exact hL ▸ hmarked.className (splitBefore?_eq_some_iff.mp hname).2.1 hd
    · obtain ⟨⟨name, cs₁⟩, -, h⟩ := Option.bind_eq_some_iff.mp h
      obtain ⟨rfl, -⟩ := Prod.mk.inj (Option.some.inj h)
      exact (Marked.map_char name).char c
    · obtain ⟨⟨more, cs₁⟩, hmore, h⟩ := Option.bind_eq_some_iff.mp h
      obtain ⟨rfl, -⟩ := Prod.mk.inj (Option.some.inj h)
      exact (htype hmore).char c

lemma marks_typeSignature_succ (hreference : Marks (referenceType? fuel)) :
    Marks (typeSignature? (fuel + 1)) := by
  intro cs segments rest h
  cases cs with
  | nil => simp [typeSignature?] at h
  | cons c cs =>
    rw [typeSignature?] at h
    split_ifs at h
    · obtain ⟨rfl, -⟩ := Prod.mk.inj (Option.some.inj h)
      exact Marked.nil.char c
    · exact hreference h

lemma marks_typeArguments_succ (hreference : Marks (referenceType? fuel))
    (harguments : Marks (typeArguments? fuel)) : Marks (typeArguments? (fuel + 1)) := by
  intro cs segments rest h
  cases cs with
  | nil => simp [typeArguments?] at h
  | cons c cs =>
    rw [typeArguments?] at h
    split_ifs at h
    · obtain ⟨rfl, -⟩ := Prod.mk.inj (Option.some.inj h)
      exact Marked.nil.char c
    · obtain ⟨⟨more, cs₁⟩, hmore, h⟩ := Option.bind_eq_some_iff.mp h
      obtain ⟨rfl, -⟩ := Prod.mk.inj (Option.some.inj h)
      exact (harguments hmore).char c
    · obtain ⟨⟨bound, cs₁⟩, hbound, h⟩ := Option.bind_eq_some_iff.mp h
      obtain ⟨⟨more, cs₂⟩, hmore, h⟩ := Option.bind_eq_some_iff.mp h
      obtain ⟨rfl, -⟩ := Prod.mk.inj (Option.some.inj h)
      exact ((hreference hbound).append (harguments hmore)).char c
    · obtain ⟨⟨argument, cs₁⟩, hargument, h⟩ := Option.bind_eq_some_iff.mp h
      obtain ⟨⟨more, cs₂⟩, hmore, h⟩ := Option.bind_eq_some_iff.mp h
      obtain ⟨rfl, -⟩ := Prod.mk.inj (Option.some.inj h)
      exact (hreference hargument).append (harguments hmore)

/-- What follows the name of a class type starts with the mark after it. -/
lemma closes_classSuffix_succ (harguments : Marks (typeArguments? fuel))
    (hsuffix : Closes (classSuffix? fuel)) : Closes (classSuffix? (fuel + 1)) := by
  intro cs segments rest h
  cases cs with
  | nil => simp [classSuffix?] at h
  | cons c cs =>
    rw [classSuffix?] at h
    split_ifs at h with hopen hdot hend
    · obtain ⟨⟨arguments, cs₁⟩, hargs, h⟩ := Option.bind_eq_some_iff.mp h
      obtain ⟨⟨more, cs₂⟩, hmore, h⟩ := Option.bind_eq_some_iff.mp h
      obtain ⟨rfl, -⟩ := Prod.mk.inj (Option.some.inj h)
      exact ⟨((harguments hargs).append (hsuffix hmore).1).char c, c, by simp [hopen], _, rfl⟩
    · obtain ⟨⟨inner, cs₁⟩, -, h⟩ := Option.bind_eq_some_iff.mp h
      obtain ⟨⟨more, cs₂⟩, hmore, h⟩ := Option.bind_eq_some_iff.mp h
      obtain ⟨rfl, -⟩ := Prod.mk.inj (Option.some.inj h)
      exact ⟨((Marked.map_char inner).append (hsuffix hmore).1).char c, c, by simp [hdot], _, rfl⟩
    · obtain ⟨rfl, -⟩ := Prod.mk.inj (Option.some.inj h)
      exact ⟨Marked.nil.char c, c, by simp [hend], _, rfl⟩

/-- **What the scanners of types read has its class names between marks.** By induction on the bound,
for all four at once: each calls the others with a smaller bound only. -/
theorem marks_scanners (fuel : Nat) :
    Marks (referenceType? fuel) ∧ Marks (typeSignature? fuel) ∧ Marks (typeArguments? fuel) ∧
      Closes (classSuffix? fuel) := by
  induction fuel with
  | zero =>
    refine ⟨?_, ?_, ?_, ?_⟩ <;> intro cs segments rest h
    · simp [referenceType?] at h
    · simp [typeSignature?] at h
    · simp [typeArguments?] at h
    · simp [classSuffix?] at h
  | succ fuel ih =>
    obtain ⟨hreference, htype, harguments, hsuffix⟩ := ih
    exact ⟨marks_referenceType_succ htype hsuffix, marks_typeSignature_succ hreference,
      marks_typeArguments_succ hreference harguments, closes_classSuffix_succ harguments hsuffix⟩

theorem marks_referenceType (fuel : Nat) : Marks (referenceType? fuel) :=
  (marks_scanners fuel).1

theorem marks_typeSignature (fuel : Nat) : Marks (typeSignature? fuel) :=
  (marks_scanners fuel).2.1

/-! ### The parts of a signature -/

theorem marks_bounds (fuel : Nat) : Marks (bounds? fuel) := by
  induction fuel with
  | zero =>
    intro cs segments rest h
    simp [bounds?] at h
  | succ fuel ih =>
    intro cs segments rest h
    unfold bounds? at h
    split at h
    · contradiction
    next c cs heq =>
      obtain rfl := Nat.succ.inj heq
      split_ifs at h
      · obtain ⟨⟨bound, cs₁⟩, hbound, h⟩ := Option.bind_eq_some_iff.mp h
        obtain ⟨⟨more, cs₂⟩, hmore, h⟩ := Option.bind_eq_some_iff.mp h
        obtain ⟨rfl, -⟩ := Prod.mk.inj (Option.some.inj h)
        exact ((marks_referenceType _ hbound).append (ih hmore)).char ':'
      · obtain ⟨⟨more, cs₁⟩, hmore, h⟩ := Option.bind_eq_some_iff.mp h
        obtain ⟨rfl, -⟩ := Prod.mk.inj (Option.some.inj h)
        exact (ih hmore).char ':'
    · split_ifs at h
      obtain ⟨rfl, -⟩ := Prod.mk.inj (Option.some.inj h)
      exact .nil

theorem marks_typeParameters (fuel : Nat) : Marks (typeParameters? fuel) := by
  induction fuel with
  | zero =>
    intro cs segments rest h
    simp [typeParameters?] at h
  | succ fuel ih =>
    intro cs segments rest h
    cases cs with
    | nil => simp [typeParameters?] at h
    | cons c cs =>
      rw [typeParameters?] at h
      split_ifs at h
      · obtain ⟨rfl, -⟩ := Prod.mk.inj (Option.some.inj h)
        exact Marked.nil.char c
      · obtain ⟨⟨name, cs₁⟩, -, h⟩ := Option.bind_eq_some_iff.mp h
        obtain ⟨⟨bounds, cs₂⟩, hbounds, h⟩ := Option.bind_eq_some_iff.mp h
        obtain ⟨⟨more, cs₃⟩, hmore, h⟩ := Option.bind_eq_some_iff.mp h
        obtain ⟨rfl, -⟩ := Prod.mk.inj (Option.some.inj h)
        exact ((Marked.map_char name).append (marks_bounds _ hbounds)).append (ih hmore)

theorem marks_referenceTypes (fuel : Nat) : Marks (referenceTypes? fuel) := by
  induction fuel with
  | zero =>
    intro cs segments rest h
    simp [referenceTypes?] at h
  | succ fuel ih =>
    intro cs segments rest h
    cases cs with
    | nil =>
      obtain ⟨rfl, -⟩ := Prod.mk.inj (Option.some.inj h)
      exact .nil
    | cons c cs =>
      obtain ⟨⟨type, cs₁⟩, htype, h⟩ := Option.bind_eq_some_iff.mp h
      obtain ⟨⟨more, cs₂⟩, hmore, h⟩ := Option.bind_eq_some_iff.mp h
      obtain ⟨rfl, -⟩ := Prod.mk.inj (Option.some.inj h)
      exact (marks_referenceType _ htype).append (ih hmore)

theorem marks_parameters (fuel : Nat) : Marks (parameters? fuel) := by
  induction fuel with
  | zero =>
    intro cs segments rest h
    simp [parameters?] at h
  | succ fuel ih =>
    intro cs segments rest h
    cases cs with
    | nil => simp [parameters?] at h
    | cons c cs =>
      rw [parameters?] at h
      split_ifs at h
      · obtain ⟨rfl, -⟩ := Prod.mk.inj (Option.some.inj h)
        exact Marked.nil.char c
      · obtain ⟨⟨type, cs₁⟩, htype, h⟩ := Option.bind_eq_some_iff.mp h
        obtain ⟨⟨more, cs₂⟩, hmore, h⟩ := Option.bind_eq_some_iff.mp h
        obtain ⟨rfl, -⟩ := Prod.mk.inj (Option.some.inj h)
        exact (marks_typeSignature _ htype).append (ih hmore)

theorem marks_throws (fuel : Nat) : Marks (throws? fuel) := by
  induction fuel with
  | zero =>
    intro cs segments rest h
    simp [throws?] at h
  | succ fuel ih =>
    intro cs segments rest h
    unfold throws? at h
    split at h
    · contradiction
    next cs heq =>
      obtain rfl := Nat.succ.inj heq
      obtain ⟨⟨type, cs₁⟩, htype, h⟩ := Option.bind_eq_some_iff.mp h
      obtain ⟨⟨more, cs₂⟩, hmore, h⟩ := Option.bind_eq_some_iff.mp h
      obtain ⟨rfl, -⟩ := Prod.mk.inj (Option.some.inj h)
      exact ((marks_referenceType _ htype).append (ih hmore)).char '^'
    · obtain ⟨rfl, -⟩ := Prod.mk.inj (Option.some.inj h)
      exact .nil

theorem marks_result (fuel : Nat) : Marks (result? fuel) := by
  intro cs segments rest h
  unfold result? at h
  split at h
  · obtain ⟨rfl, -⟩ := Prod.mk.inj (Option.some.inj h)
    exact Marked.nil.char 'V'
  · exact marks_typeSignature _ h

theorem marks_body (fuel : Nat) : Marks (body? fuel) := by
  intro cs segments rest h
  unfold body? at h
  split at h
  · obtain ⟨⟨parameters, cs₁⟩, hparameters, h⟩ := Option.bind_eq_some_iff.mp h
    obtain ⟨⟨result, cs₂⟩, hresult, h⟩ := Option.bind_eq_some_iff.mp h
    obtain ⟨⟨thrown, cs₃⟩, hthrown, h⟩ := Option.bind_eq_some_iff.mp h
    obtain ⟨rfl, -⟩ := Prod.mk.inj (Option.some.inj h)
    have htypes := (marks_parameters _ hparameters).append (marks_result _ hresult)
    exact (htypes.append (marks_throws _ hthrown)).char '('
  · exact marks_referenceTypes _ h

/-- **Signatures have their class names between marks.** -/
theorem marked_segments? (h : segments? cs = some segments) : Marked segments := by
  unfold segments? segmentsWithin? at h
  dsimp only at h
  split at h
  · obtain ⟨⟨parameters, cs₁⟩, hparameters, h⟩ := Option.bind_eq_some_iff.mp h
    obtain ⟨⟨types, cs₂⟩, htypes, h⟩ := Option.bind_eq_some_iff.mp h
    obtain ⟨⟨more, cs₃⟩, hmore, he⟩ := Option.map_eq_some_iff.mp hparameters
    obtain ⟨rfl, -⟩ := Prod.mk.inj he
    split_ifs at h
    obtain rfl := Option.some.inj h
    exact ((marks_typeParameters _ hmore).char '<').append (marks_body _ htypes)
  · rw [Option.bind_eq_bind, Option.bind_some] at h
    obtain ⟨⟨types, cs₁⟩, htypes, h⟩ := Option.bind_eq_some_iff.mp h
    split_ifs at h
    obtain rfl := Option.some.inj h
    exact marks_body _ htypes

/-! ### Classes in a signature -/

variable {signature signature' old new : String} {names : List String}

/-- The marks around a class that a signature names. -/
theorem exists_mark_of_mem_classes (h : classes? signature = some names) (hold : old ∈ names) :
    ∃ c ∈ ['<', '.', ';'], 'L' :: old.toList ++ [c] <:+: signature.toList := by
  obtain ⟨segments, hsegments, rfl⟩ := classes?_eq_some_iff.mp h
  obtain ⟨c, hc, hin⟩ := (marked_segments? hsegments).exists_mark (mem_classes_iff.mp hold)
  refine ⟨c, hc, ?_⟩
  have hin := isInfix_render hin
  rw [cut_segments?.render_eq hsegments] at hin
  simpa [chars] using hin

/-- A class that a signature names has no marks in its name. -/
theorem plain_of_mem_classes (h : classes? signature = some names) (hold : old ∈ names) :
    Plain old.toList := by
  obtain ⟨segments, hsegments, rfl⟩ := classes?_eq_some_iff.mp h
  exact (marked_segments? hsegments).plain (mem_classes_iff.mp hold)

/-- **The marks stay.** The new name of a class stands between the marks between which the old one
stood. -/
theorem mark_of_rename? (h : rename? signature old new = some signature') :
    ∃ c ∈ ['<', '.', ';'], 'L' :: old.toList ++ [c] <:+: signature.toList ∧
      'L' :: new.toList ++ [c] <:+: signature'.toList := by
  rw [rename?_eq_renameText?] at h
  obtain ⟨segments, hsegments, hold, hrendered⟩ := renameText?_eq_some_iff.mp h
  obtain ⟨c, hc, hin⟩ := (marked_segments? hsegments).exists_mark hold
  have hbefore := isInfix_render hin
  have hafter := isInfix_render (hin.map (rename old.toList new.toList))
  rw [cut_segments?.render_eq hsegments] at hbefore
  rw [← hrendered] at hafter
  exact ⟨c, hc, by simpa [chars] using hbefore, by simpa [chars, rename] using hafter⟩

end Signature

end ClassAtlas
