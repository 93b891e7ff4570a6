import Mathlib
import ClassAtlas.Proofs.TypeText.Renaming

/-!
# Renaming a class in generic signatures

A signature is read by scanners that call each other on an explicit bound. Each of them is shown to
read a renamed text at the same places as the text it came from: the segments that it read, renamed,
are what it reads again, for every text that follows them and every bound that is large enough.

## Main definitions

* `ClassAtlas.Signature.Plain` — a name without the characters that end a class name.
* `ClassAtlas.Signature.Reads` — what a scanner reads, and reads again after renaming.
* `ClassAtlas.Signature.inRow` — two scanners, one after the other.

## Main results

* `ClassAtlas.Signature.reads_scanners` — the mutually recursive scanners of types.
* `ClassAtlas.Signature.cut_segments?` — signatures are cut at the same places after renaming.
* `ClassAtlas.Signature.segments?_eq_some_iff` — the bound of the scanners cuts nothing off.
-/

set_option autoImplicit false

namespace ClassAtlas.Signature

open Segment
open Descriptor (baseTypes splitThrough?)

/-! ### Splitting at a stop character -/

/-- Splitting before a stop character takes the characters up to the first one. -/
lemma splitBefore?_eq_some_iff {stops cs name rest : List Char} :
    splitBefore? stops cs = some (name, rest) ↔
      cs = name ++ rest ∧ (∀ c ∈ name, c ∉ stops) ∧ ∃ c more, rest = c :: more ∧ c ∈ stops := by
  have hsplit := List.takeWhile_append_dropWhile (p := fun c => !stops.contains c) (l := cs)
  unfold splitBefore?
  constructor
  · intro h
    split at h
    · contradiction
    next hrest =>
      obtain ⟨rfl, rfl⟩ := Prod.mk.inj (Option.some.inj h)
      refine ⟨hsplit.symm, fun c hc => ?_, ?_⟩
      · simpa using List.mem_takeWhile_imp hc
      · obtain ⟨c, more, hcm⟩ := List.exists_cons_of_ne_nil hrest
        have hhead := List.head_dropWhile_not (fun c => !stops.contains c) hrest
        refine ⟨c, more, hcm, ?_⟩
        simp only [hcm, List.head_cons] at hhead
        simpa using hhead
  · rintro ⟨rfl, hname, c, more, rfl, hc⟩
    have htake : (name ++ c :: more).takeWhile (fun c => !stops.contains c) = name := by
      rw [List.takeWhile_append_of_pos (by simpa using hname)]
      simp [hc]
    have hdrop : (name ++ c :: more).dropWhile (fun c => !stops.contains c) = c :: more := by
      rw [List.dropWhile_append_of_pos (by simpa using hname)]
      simp [hc]
    rw [hdrop, htake]

/-- Splitting through a stop character does not look at what follows it. -/
lemma splitThrough?_append {stop : Char} {cs taken rest : List Char}
    (h : splitThrough? stop cs = some (taken, rest)) (rest' : List Char) :
    splitThrough? stop (taken ++ rest') = some (taken, rest') := by
  induction cs generalizing taken with
  | nil => simp [splitThrough?] at h
  | cons c cs ih =>
    rw [splitThrough?] at h
    split_ifs at h with hc
    · obtain ⟨rfl, -⟩ := Prod.mk.inj (Option.some.inj h)
      rw [List.singleton_append, splitThrough?, if_pos hc]
    · obtain ⟨⟨t, r⟩, ht, he⟩ := Option.map_eq_some_iff.mp h
      obtain ⟨rfl, rfl⟩ := Prod.mk.inj he
      rw [List.cons_append, splitThrough?, if_neg hc, ih ht]
      rfl

/-! ### What a scanner reads -/

/-- A name without the characters that end a class name in a signature. -/
def Plain (name : List Char) : Prop := ∀ c ∈ name, c ∉ ['<', '.', ';']

/-- Segments with a class replaced. -/
def renamed (old new : List Char) (segments : List Segment) : List Segment :=
  segments.map (rename old new)

/-- The scanner reads `segments` off the front of `cs` and leaves `rest`. It reads the renamed
segments off any text that starts with them, given a bound of twice their length and `slack`. -/
structure Reads (old new : List Char) (scan : Nat → Scan) (slack : Nat) (cs : List Char)
    (segments : List Segment) (rest : List Char) : Prop where
  /-- Nothing is lost. -/
  render_eq : render segments ++ rest = cs
  /-- The first character is no part of a class name. -/
  starts : ∃ c more, segments = .char c :: more
  /-- Reading again after renaming. -/
  again : ∀ fuel rest', 2 * (render (renamed old new segments)).length + slack ≤ fuel →
    scan fuel (render (renamed old new segments) ++ rest') = some (renamed old new segments, rest')

/-- Whatever the scanner reads with the bound `fuel`, it reads again after renaming. -/
def Repeats (old new : List Char) (scan : Nat → Scan) (slack fuel : Nat) : Prop :=
  ∀ ⦃cs segments rest⦄, scan fuel cs = some (segments, rest) →
    Reads old new scan slack cs segments rest

variable {old new cs rest : List Char} {segments : List Segment} {scan : Nat → Scan}
  {slack fuel : Nat}

@[simp]
lemma renamed_nil : renamed old new [] = [] := rfl

@[simp]
lemma renamed_char_cons (c : Char) (segments : List Segment) :
    renamed old new (.char c :: segments) = .char c :: renamed old new segments := rfl

@[simp]
lemma renamed_className_cons (name : List Char) (segments : List Segment) :
    renamed old new (.className name :: segments) =
      .className (if name = old then new else name) :: renamed old new segments := rfl

@[simp]
lemma renamed_append (a b : List Segment) :
    renamed old new (a ++ b) = renamed old new a ++ renamed old new b := by
  simp [renamed]

@[simp]
lemma renamed_map_char (cs : List Char) :
    renamed old new (cs.map .char) = cs.map .char := by
  rw [renamed, List.map_map]
  rfl

lemma Reads.length_pos (h : Reads old new scan slack cs segments rest) :
    0 < (render (renamed old new segments)).length := by
  obtain ⟨c, more, rfl⟩ := h.starts
  simp [chars]

/-- The text and the renamed text start with the same character. -/
lemma Reads.exists_head (h : Reads old new scan slack cs segments rest) :
    ∃ c tail tail', cs = c :: tail ∧ render (renamed old new segments) = c :: tail' := by
  obtain ⟨c, more, rfl⟩ := h.starts
  exact ⟨c, render more ++ rest, render (renamed old new more), h.render_eq.symm, rfl⟩

lemma plain_nil : Plain [] := by simp [Plain]

lemma plain_ite (old : List Char) (hp : Plain new) {name : List Char} (hn : Plain name) :
    Plain (if name = old then new else name) := by
  split_ifs
  · exact hp
  · exact hn

/-! ### Readings put together -/

/-- What a scanner reads, with a character before it. -/
def prepend (c : Char) (found : List Segment × List Char) : List Segment × List Char :=
  (.char c :: found.1, found.2)

/-- Two scanners, one after the other. -/
def inRow (first second : Nat → Scan) (fuel : Nat) : Scan := fun cs => do
  let (a, cs) ← first fuel cs
  let (b, cs) ← second fuel cs
  return (a ++ b, cs)

lemma inRow_eq_some_iff {first second : Nat → Scan} :
    inRow first second fuel cs = some (segments, rest) ↔
      ∃ a middle b, first fuel cs = some (a, middle) ∧ second fuel middle = some (b, rest) ∧
        segments = a ++ b := by
  constructor
  · intro h
    obtain ⟨⟨a, middle⟩, ha, h⟩ := Option.bind_eq_some_iff.mp h
    obtain ⟨⟨b, _⟩, hb, h⟩ := Option.bind_eq_some_iff.mp h
    obtain ⟨rfl, rfl⟩ := Prod.mk.inj (Option.some.inj h)
    exact ⟨a, middle, b, ha, hb, rfl⟩
  · rintro ⟨a, middle, b, ha, hb, rfl⟩
    simp [inRow, ha, hb]

section Combining

variable {c : Char} {inner first second : Nat → Scan} {a b more : List Segment}
  {middle : List Char} {slack₁ slack₂ : Nat}

/-- A character that is read on its own is read again. -/
lemma Reads.single (rest : List Char)
    (heq : ∀ fuel rest, scan (fuel + 1) (c :: rest) = some ([.char c], rest)) :
    Reads old new scan slack (c :: rest) [.char c] rest := by
  refine ⟨rfl, ⟨c, [], rfl⟩, fun fuel rest' hf => ?_⟩
  simp only [renamed_char_cons, renamed_nil, render_cons, chars, List.length_cons,
    List.singleton_append] at hf
  obtain ⟨fuel, rfl⟩ : ∃ f, fuel = f + 1 := ⟨fuel - 1, by omega⟩
  exact heq fuel rest'

/-- A character and what is read after it are read again. -/
lemma Reads.cons (hr : Reads old new inner slack₁ cs more rest) (hs : slack₁ ≤ 1)
    (heq : ∀ fuel rest, scan (fuel + 1) (c :: rest) = (inner fuel rest).map (prepend c)) :
    Reads old new scan 0 (c :: cs) (.char c :: more) rest := by
  refine ⟨by simp [chars, ← hr.render_eq], ⟨c, more, rfl⟩, fun fuel rest' hf => ?_⟩
  simp only [renamed_char_cons, render_cons, chars, List.length_cons, List.singleton_append] at hf
  obtain ⟨fuel, rfl⟩ : ∃ f, fuel = f + 1 := ⟨fuel - 1, by omega⟩
  have hagain := hr.again fuel rest' (by omega)
  simp [chars, heq, hagain, prepend]

/-- Two readings in a row are repeated with a bound of almost twice their length: each of them is
shorter than the two together. -/
lemma Reads.inRow_again (ha : Reads old new first slack₁ cs a middle)
    (hb : Reads old new second slack₂ middle b rest) (hs₁ : slack₁ ≤ 1) (hs₂ : slack₂ ≤ 1)
    (hf : 2 * (render (renamed old new (a ++ b))).length ≤ fuel + 1) (rest' : List Char) :
    inRow first second fuel (render (renamed old new (a ++ b)) ++ rest') =
      some (renamed old new (a ++ b), rest') := by
  have hposa := ha.length_pos
  have hposb := hb.length_pos
  simp only [renamed_append, render_append, List.length_append] at hf
  have ha' := ha.again fuel (render (renamed old new b) ++ rest') (by omega)
  have hb' := hb.again fuel rest' (by omega)
  refine inRow_eq_some_iff.mpr ⟨_, _, _, ?_, hb', renamed_append a b⟩
  rw [renamed_append, render_append, List.append_assoc, ha']

lemma Reads.starts_append (ha : Reads old new first slack₁ cs a middle) (b : List Segment) :
    ∃ c more, a ++ b = .char c :: more := by
  obtain ⟨c, more, rfl⟩ := ha.starts
  exact ⟨c, more ++ b, rfl⟩

/-- Two readings in a row are read again. -/
lemma Reads.inRow (ha : Reads old new first slack₁ cs a middle)
    (hb : Reads old new second slack₂ middle b rest) (hs₁ : slack₁ ≤ 1) (hs₂ : slack₂ ≤ 1) :
    Reads old new (inRow first second) 0 cs (a ++ b) rest :=
  ⟨by simp [← ha.render_eq, ← hb.render_eq], ha.starts_append b,
    fun _ rest' hf => ha.inRow_again hb hs₁ hs₂ (by omega) rest'⟩

/-- Two readings in a row, of which the first one decides how to go on by its first character. -/
lemma Reads.append (ha : Reads old new first slack₁ (c :: cs) a middle)
    (hb : Reads old new second slack₂ middle b rest) (hs₁ : slack₁ ≤ 1) (hs₂ : slack₂ ≤ 1)
    (heq : ∀ fuel rest, scan (fuel + 1) (c :: rest) = Signature.inRow first second fuel (c :: rest)) :
    Reads old new scan 0 (c :: cs) (a ++ b) rest := by
  refine ⟨by simp [← ha.render_eq, ← hb.render_eq], ha.starts_append b, fun fuel rest' hf => ?_⟩
  have hpos := ha.length_pos
  obtain ⟨d, tail, tail', hcs, hrender⟩ := ha.exists_head
  obtain rfl := (List.cons.inj hcs).1
  obtain ⟨fuel, rfl⟩ : ∃ f, fuel = f + 1 := by
    rw [renamed_append, render_append, List.length_append] at hf
    exact ⟨fuel - 1, by omega⟩
  have hagain := ha.inRow_again hb hs₁ hs₂ (by omega) rest'
  rw [renamed_append, render_append, hrender, List.cons_append, List.cons_append] at hagain ⊢
  rw [heq, hagain]

end Combining

/-! ### One step of a scanner -/

lemma referenceType?_array (fuel : Nat) (cs : List Char) :
    referenceType? (fuel + 1) ('[' :: cs) = (typeSignature? fuel cs).map (prepend '[') := by
  rw [referenceType?, if_neg (by decide), if_neg (by decide), if_pos rfl]
  exact (Option.map_eq_bind ..).symm

lemma typeSignature?_base {c : Char} (hc : c ∈ baseTypes) (fuel : Nat) (cs : List Char) :
    typeSignature? (fuel + 1) (c :: cs) = some ([.char c], cs) := by
  rw [typeSignature?, if_pos hc]

lemma typeSignature?_reference {c : Char} (hc : c ∉ baseTypes) (fuel : Nat) (cs : List Char) :
    typeSignature? (fuel + 1) (c :: cs) = referenceType? fuel (c :: cs) := by
  rw [typeSignature?, if_neg hc]

lemma classSuffix?_arguments (fuel : Nat) (cs : List Char) :
    classSuffix? (fuel + 1) ('<' :: cs) =
      (inRow typeArguments? classSuffix? fuel cs).map (prepend '<') := by
  simp [classSuffix?, inRow, prepend, Option.map_bind, Function.comp_def]

lemma classSuffix?_end (fuel : Nat) (cs : List Char) :
    classSuffix? (fuel + 1) (';' :: cs) = some ([.char ';'], cs) := by
  simp [classSuffix?]

lemma typeArguments?_end (fuel : Nat) (cs : List Char) :
    typeArguments? (fuel + 1) ('>' :: cs) = some ([.char '>'], cs) := by
  simp [typeArguments?]

lemma typeArguments?_any (fuel : Nat) (cs : List Char) :
    typeArguments? (fuel + 1) ('*' :: cs) = (typeArguments? fuel cs).map (prepend '*') := by
  simp [typeArguments?, prepend, Option.map_eq_bind, Function.comp_def]

lemma typeArguments?_bounded {c : Char} (hc : c = '+' ∨ c = '-') (fuel : Nat) (cs : List Char) :
    typeArguments? (fuel + 1) (c :: cs) =
      (inRow referenceType? typeArguments? fuel cs).map (prepend c) := by
  rcases hc with rfl | rfl <;>
    simp [typeArguments?, inRow, prepend, Option.map_bind, Function.comp_def]

lemma typeArguments?_cons {c : Char} (hend : c ≠ '>') (hany : c ≠ '*') (hbound : ¬(c = '+' ∨ c = '-'))
    (fuel : Nat) (cs : List Char) :
    typeArguments? (fuel + 1) (c :: cs) = inRow referenceType? typeArguments? fuel (c :: cs) := by
  rw [typeArguments?, if_neg hend, if_neg hany, if_neg hbound]
  rfl

lemma typeParameters?_end (fuel : Nat) (cs : List Char) :
    typeParameters? (fuel + 1) ('>' :: cs) = some ([.char '>'], cs) := by
  simp [typeParameters?]

lemma parameters?_end (fuel : Nat) (cs : List Char) :
    parameters? (fuel + 1) (')' :: cs) = some ([.char ')'], cs) := by
  simp [parameters?]

lemma parameters?_cons {c : Char} (hend : c ≠ ')') (fuel : Nat) (cs : List Char) :
    parameters? (fuel + 1) (c :: cs) = inRow typeSignature? parameters? fuel (c :: cs) := by
  rw [parameters?, if_neg hend]
  rfl

/-! ### The scanners of types -/

/-- A reference type is read again if what nests in it is. -/
lemma repeats_referenceType (hp : Plain new) (hsuffix : Repeats old new classSuffix? 0 fuel)
    (htype : Repeats old new typeSignature? 1 fuel) :
    Repeats old new referenceType? 0 (fuel + 1) := by
  intro cs segments rest h
  cases cs with
  | nil => simp [referenceType?] at h
  | cons c cs =>
    rw [referenceType?] at h
    split_ifs at h with hL hT hA
    · obtain ⟨⟨name, cs₁⟩, hname, h⟩ := Option.bind_eq_some_iff.mp h
      obtain ⟨⟨more, cs₂⟩, hmore, h⟩ := Option.bind_eq_some_iff.mp h
      obtain ⟨rfl, rfl⟩ := Prod.mk.inj (Option.some.inj h)
      obtain ⟨rfl, hplain, d, tail, rfl, hd⟩ := splitBefore?_eq_some_iff.mp hname
      have hr := hsuffix hmore
      refine ⟨by simp [chars, ← hr.render_eq], ⟨c, _, rfl⟩, fun fuel' rest' hf => ?_⟩
      obtain ⟨d', tail', tail'', hcs, hrender⟩ := hr.exists_head
      obtain rfl := (List.cons.inj hcs).1
      simp only [renamed_char_cons, renamed_className_cons, render_cons, chars,
        List.length_append, List.length_cons, List.singleton_append] at hf
      obtain ⟨fuel', rfl⟩ : ∃ f, fuel' = f + 1 := ⟨fuel' - 1, by omega⟩
      have hname' := splitBefore?_eq_some_iff.mpr ⟨rfl, plain_ite old hp hplain, d,
        tail'' ++ rest', by rw [← List.cons_append, ← hrender], hd⟩
      have hmore' := hr.again fuel' rest' (by omega)
      simp [chars, referenceType?, hL, hname', hmore']
    · obtain ⟨⟨name, cs₁⟩, hname, h⟩ := Option.bind_eq_some_iff.mp h
      obtain ⟨rfl, rfl⟩ := Prod.mk.inj (Option.some.inj h)
      refine ⟨by simp [chars, Descriptor.append_of_splitThrough? hname], ⟨c, _, rfl⟩,
        fun fuel' rest' hf => ?_⟩
      simp only [renamed_char_cons, render_cons, chars, List.length_cons,
        List.singleton_append] at hf
      obtain ⟨fuel', rfl⟩ : ∃ f, fuel' = f + 1 := ⟨fuel' - 1, by omega⟩
      have hname' := splitThrough?_append hname rest'
      simp [chars, referenceType?, hT, hname']
    · obtain rfl := hA
      obtain ⟨⟨more, cs₁⟩, hmore, h⟩ := Option.bind_eq_some_iff.mp h
      obtain ⟨rfl, rfl⟩ := Prod.mk.inj (Option.some.inj h)
      exact (htype hmore).cons le_rfl referenceType?_array

/-- A type is read again if its reference types are. -/
lemma repeats_typeSignature (hreference : Repeats old new referenceType? 0 fuel) :
    Repeats old new typeSignature? 1 (fuel + 1) := by
  intro cs segments rest h
  cases cs with
  | nil => simp [typeSignature?] at h
  | cons c cs =>
    rw [typeSignature?] at h
    split_ifs at h with hbase
    · obtain ⟨rfl, rfl⟩ := Prod.mk.inj (Option.some.inj h)
      exact .single cs (typeSignature?_base hbase)
    · have hr := hreference h
      refine ⟨hr.render_eq, hr.starts, fun fuel' rest' hf => ?_⟩
      obtain ⟨fuel', rfl⟩ : ∃ f, fuel' = f + 1 := ⟨fuel' - 1, by omega⟩
      obtain ⟨d, tail, tail', hcs, hrender⟩ := hr.exists_head
      obtain rfl := (List.cons.inj hcs).1
      have hagain := hr.again fuel' rest' (by omega)
      rw [hrender, List.cons_append] at hagain ⊢
      rw [typeSignature?_reference hbase, hagain]

/-- The end of a class type is read again if its parts are. -/
lemma repeats_classSuffix (harguments : Repeats old new typeArguments? 0 fuel)
    (hsuffix : Repeats old new classSuffix? 0 fuel) :
    Repeats old new classSuffix? 0 (fuel + 1) := by
  intro cs segments rest h
  cases cs with
  | nil => simp [classSuffix?] at h
  | cons c cs =>
    rw [classSuffix?] at h
    split_ifs at h with hopen hdot hend
    · obtain rfl := hopen
      obtain ⟨⟨arguments, cs₁⟩, hargs, h⟩ := Option.bind_eq_some_iff.mp h
      obtain ⟨⟨more, cs₂⟩, hmore, h⟩ := Option.bind_eq_some_iff.mp h
      obtain ⟨rfl, rfl⟩ := Prod.mk.inj (Option.some.inj h)
      have hboth := (harguments hargs).inRow (hsuffix hmore) zero_le_one zero_le_one
      exact hboth.cons zero_le_one classSuffix?_arguments
    · obtain ⟨⟨inner, cs₁⟩, hinner, h⟩ := Option.bind_eq_some_iff.mp h
      obtain ⟨⟨more, cs₂⟩, hmore, h⟩ := Option.bind_eq_some_iff.mp h
      obtain ⟨rfl, rfl⟩ := Prod.mk.inj (Option.some.inj h)
      obtain ⟨rfl, hplain, d, tail, rfl, hd⟩ := splitBefore?_eq_some_iff.mp hinner
      have hr := hsuffix hmore
      refine ⟨by simp [chars, ← hr.render_eq], ⟨c, _, rfl⟩, fun fuel' rest' hf => ?_⟩
      obtain ⟨d', tail', tail'', hcs, hrender⟩ := hr.exists_head
      obtain rfl := (List.cons.inj hcs).1
      simp only [List.cons_append, renamed_char_cons, renamed_append, renamed_map_char,
        render_cons, render_append, render_map_char, chars, List.length_append,
        List.length_cons] at hf
      obtain ⟨fuel', rfl⟩ : ∃ f, fuel' = f + 1 := ⟨fuel' - 1, by omega⟩
      have hinner' := splitBefore?_eq_some_iff.mpr ⟨rfl, hplain, d, tail'' ++ rest',
        by rw [← List.cons_append, ← hrender], hd⟩
      have hmore' := hr.again fuel' rest' (by omega)
      simp [chars, classSuffix?, hdot, hinner', hmore']
    · obtain rfl := hend
      obtain ⟨rfl, rfl⟩ := Prod.mk.inj (Option.some.inj h)
      exact .single cs classSuffix?_end

/-- Type arguments are read again if reference types are. -/
lemma repeats_typeArguments (hreference : Repeats old new referenceType? 0 fuel)
    (harguments : Repeats old new typeArguments? 0 fuel) :
    Repeats old new typeArguments? 0 (fuel + 1) := by
  intro cs segments rest h
  cases cs with
  | nil => simp [typeArguments?] at h
  | cons c cs =>
    rw [typeArguments?] at h
    split_ifs at h with hend hany hbound
    · obtain rfl := hend
      obtain ⟨rfl, rfl⟩ := Prod.mk.inj (Option.some.inj h)
      exact .single cs typeArguments?_end
    · obtain rfl := hany
      obtain ⟨⟨more, cs₁⟩, hmore, h⟩ := Option.bind_eq_some_iff.mp h
      obtain ⟨rfl, rfl⟩ := Prod.mk.inj (Option.some.inj h)
      exact (harguments hmore).cons zero_le_one typeArguments?_any
    · obtain ⟨⟨bound, cs₁⟩, hb, h⟩ := Option.bind_eq_some_iff.mp h
      obtain ⟨⟨more, cs₂⟩, hmore, h⟩ := Option.bind_eq_some_iff.mp h
      obtain ⟨rfl, rfl⟩ := Prod.mk.inj (Option.some.inj h)
      have hboth := (hreference hb).inRow (harguments hmore) zero_le_one zero_le_one
      exact hboth.cons zero_le_one (typeArguments?_bounded hbound)
    · obtain ⟨⟨argument, cs₁⟩, ha, h⟩ := Option.bind_eq_some_iff.mp h
      obtain ⟨⟨more, cs₂⟩, hmore, h⟩ := Option.bind_eq_some_iff.mp h
      obtain ⟨rfl, rfl⟩ := Prod.mk.inj (Option.some.inj h)
      exact (hreference ha).append (harguments hmore) zero_le_one zero_le_one
        (typeArguments?_cons hend hany hbound)

/-- **The scanners of types read a renamed text at the same places.**

**Proof sketch.** Induction on the bound, for all four scanners at once: each calls the others with
a smaller bound only. -/
theorem reads_scanners (hp : Plain new) (fuel : Nat) :
    Repeats old new referenceType? 0 fuel ∧ Repeats old new typeSignature? 1 fuel ∧
      Repeats old new classSuffix? 0 fuel ∧ Repeats old new typeArguments? 0 fuel := by
  induction fuel with
  | zero =>
    refine ⟨?_, ?_, ?_, ?_⟩ <;> intro cs segments rest h
    · simp [referenceType?] at h
    · simp [typeSignature?] at h
    · simp [classSuffix?] at h
    · simp [typeArguments?] at h
  | succ fuel ih =>
    obtain ⟨hreference, htype, hsuffix, harguments⟩ := ih
    exact ⟨repeats_referenceType hp hsuffix htype, repeats_typeSignature hreference,
      repeats_classSuffix harguments hsuffix, repeats_typeArguments hreference harguments⟩

/-! ### The parts of a signature -/

/-- What a scanner reads up to the end of a text, it reads again after renaming. -/
structure ReadsAll (old new : List Char) (scan : Nat → Scan) (cs : List Char)
    (segments : List Segment) : Prop where
  /-- Nothing is lost. -/
  render_eq : render segments = cs
  /-- The first character stays. -/
  head_eq : (render (renamed old new segments)).head? = cs.head?
  /-- Reading again after renaming. -/
  again : ∀ fuel, 2 * (render (renamed old new segments)).length + 1 ≤ fuel →
    scan fuel (render (renamed old new segments)) = some (renamed old new segments, [])

/-- Segments that start with a character keep the first character of a text. -/
lemma head?_append {rest' : List Char}
    (h : segments = [] ∨ ∃ c more, segments = .char c :: more) (hr : rest'.head? = rest.head?) :
    (render (renamed old new segments) ++ rest').head? = (render segments ++ rest).head? := by
  rcases h with rfl | ⟨c, more, rfl⟩
  · exact hr
  · rfl

/-- The bounds of a type parameter are read again if the text after them starts with the same
character. -/
lemma bounds_again (old : List Char) (hp : Plain new) (h : bounds? fuel cs = some (segments, rest)) :
    render segments ++ rest = cs ∧
      ((∃ more, segments = .char ':' :: more) ∨ segments = [] ∧ cs.head? ≠ some ':') ∧
      ∀ fuel' rest', 2 * (render (renamed old new segments)).length + 1 ≤ fuel' →
        rest'.head? = rest.head? →
        bounds? fuel' (render (renamed old new segments) ++ rest') =
          some (renamed old new segments, rest') := by
  induction fuel generalizing cs segments rest with
  | zero => simp [bounds?] at h
  | succ fuel ih =>
    unfold bounds? at h
    split at h
    · contradiction
    next c cs heq =>
      obtain rfl := Nat.succ.inj heq
      split_ifs at h with hc
      · obtain ⟨⟨bound, cs₁⟩, hb, h⟩ := Option.bind_eq_some_iff.mp h
        obtain ⟨⟨more, cs₂⟩, hmore, h⟩ := Option.bind_eq_some_iff.mp h
        obtain ⟨rfl, rfl⟩ := Prod.mk.inj (Option.some.inj h)
        have hbr : Reads old new referenceType? 0 _ _ _ := (reads_scanners hp _).1 hb
        obtain ⟨hrender, -, hagain⟩ := ih hmore
        refine ⟨by simp [chars, ← hbr.render_eq, ← hrender], .inl ⟨_, rfl⟩,
          fun fuel' rest' hf hhead => ?_⟩
        obtain ⟨d, tail, tail', hcs, hr⟩ := hbr.exists_head
        obtain rfl := (List.cons.inj hcs).1
        simp only [List.cons_append, renamed_char_cons, renamed_append, render_cons,
          render_append, chars, List.length_append, List.length_cons] at hf
        obtain ⟨fuel', rfl⟩ : ∃ f, fuel' = f + 1 := ⟨fuel' - 1, by omega⟩
        have hb' := hbr.again fuel' (render (renamed old new more) ++ rest') (by omega)
        have hmore' := hagain fuel' rest' (by omega) hhead
        rw [hr, List.cons_append] at hb'
        simp [chars, hr, bounds?, hc, hb', hmore']
      · obtain ⟨⟨more, cs₁⟩, hmore, h⟩ := Option.bind_eq_some_iff.mp h
        obtain ⟨rfl, rfl⟩ := Prod.mk.inj (Option.some.inj h)
        obtain ⟨hrender, hstarts, hagain⟩ := ih hmore
        refine ⟨by simp [chars, ← hrender], .inl ⟨_, rfl⟩, fun fuel' rest' hf hhead => ?_⟩
        have hstart : (render (renamed old new more) ++ rest').head? = some c := by
          have hchar : more = [] ∨ ∃ d tail, more = .char d :: tail := by
            rcases hstarts with ⟨tail, ht⟩ | ⟨hnil, -⟩
            · exact .inr ⟨_, tail, ht⟩
            · exact .inl hnil
          rw [head?_append hchar hhead, hrender]
          rfl
        simp only [renamed_char_cons, render_cons, chars, List.length_append,
          List.length_cons] at hf
        obtain ⟨fuel', rfl⟩ : ∃ f, fuel' = f + 1 := ⟨fuel' - 1, by omega⟩
        have hmore' := hagain fuel' rest' (by omega) hhead
        obtain ⟨tail, htail⟩ := List.head?_eq_some_iff.mp hstart
        rw [htail] at hmore'
        simp [chars, htail, bounds?, hc, hmore']
    next cs _ _ _ _ hnot =>
      split_ifs at h with hlone
      obtain ⟨rfl, rfl⟩ := Prod.mk.inj (Option.some.inj h)
      have hcolon : cs.head? ≠ some ':' := by
        intro hhead
        obtain ⟨tail, rfl⟩ := List.head?_eq_some_iff.mp hhead
        cases tail with
        | nil => exact hlone rfl
        | cons d tail => exact hnot d tail rfl
      refine ⟨rfl, .inr ⟨rfl, hcolon⟩, fun fuel' rest' hf hhead => ?_⟩
      obtain ⟨fuel', rfl⟩ : ∃ f, fuel' = f + 1 := ⟨fuel' - 1, by omega⟩
      rw [← hhead] at hcolon
      rw [renamed_nil, render_nil, List.nil_append]
      unfold bounds?
      split
      · contradiction
      · simp at hcolon
      · rw [if_neg]
        rintro rfl
        simp at hcolon

/-- Type parameters are read again. -/
lemma repeats_typeParameters (hp : Plain new) : Repeats old new typeParameters? 0 fuel := by
  induction fuel with
  | zero =>
    intro cs segments rest h
    simp [typeParameters?] at h
  | succ fuel ih =>
    intro cs segments rest h
    cases cs with
    | nil => simp [typeParameters?] at h
    | cons c cs =>
      rw [typeParameters?] at h
      split_ifs at h with hend
      · obtain rfl := hend
        obtain ⟨rfl, rfl⟩ := Prod.mk.inj (Option.some.inj h)
        exact .single cs typeParameters?_end
      · obtain ⟨⟨name, cs₁⟩, hname, h⟩ := Option.bind_eq_some_iff.mp h
        obtain ⟨⟨bounds, cs₂⟩, hbounds, h⟩ := Option.bind_eq_some_iff.mp h
        obtain ⟨⟨more, cs₃⟩, hmore, h⟩ := Option.bind_eq_some_iff.mp h
        obtain ⟨rfl, rfl⟩ := Prod.mk.inj (Option.some.inj h)
        obtain ⟨hsplit, hstop, d, tail, rfl, hd⟩ := splitBefore?_eq_some_iff.mp hname
        obtain rfl := List.mem_singleton.mp hd
        have hr := ih hmore
        obtain ⟨hrender, hstarts, hagain⟩ := bounds_again old hp hbounds
        -- a bound stands after every name
        obtain ⟨more', rfl⟩ : ∃ more', bounds = .char ':' :: more' :=
          hstarts.resolve_right fun h => h.2 rfl
        refine ⟨?_, ?_, fun fuel' rest' hf => ?_⟩
        · rw [hsplit, ← hrender, ← hr.render_eq]
          simp
        · cases name with
          | nil => exact ⟨':', _, rfl⟩
          | cons d name => exact ⟨d, _, rfl⟩
        · have hpos := hr.length_pos
          obtain ⟨d, m, m', hcs, hm⟩ := hr.exists_head
          simp only [renamed_append, renamed_map_char, renamed_char_cons, render_append,
            render_map_char, render_cons, chars, List.length_append, List.length_cons] at hf
          obtain ⟨fuel', rfl⟩ : ∃ f, fuel' = f + 1 := ⟨fuel' - 1, by omega⟩
          have hmore' := hr.again fuel' rest' (by omega)
          have hbounds' := hagain fuel' (render (renamed old new more) ++ rest')
            (by simp [chars]; omega) (by rw [hcs, hm]; rfl)
          generalize htail : render (renamed old new (.char ':' :: more')) ++
            (render (renamed old new more) ++ rest') = text at hbounds'
          obtain ⟨tail', htext⟩ : ∃ tail', text = ':' :: tail' := ⟨_, htail.symm⟩
          have hname' := splitBefore?_eq_some_iff.mpr
            (⟨rfl, hstop, ':', tail', htext, hd⟩ : name ++ text = name ++ text ∧ _)
          obtain ⟨X, hX⟩ : ∃ X, name ++ text = c :: X := by
            cases name with
            | nil => exact ⟨tail', by rw [htext, (List.cons.inj hsplit).1]; rfl⟩
            | cons d name => exact ⟨name ++ text, by rw [(List.cons.inj hsplit).1]; rfl⟩
          have hwhole : render (renamed old new (name.map .char ++ .char ':' :: more' ++ more)) ++
              rest' = c :: X := by
            rw [← hX, ← htail]
            simp
          rw [hwhole, typeParameters?, if_neg hend, ← hX, hname']
          simp [hbounds', hmore']

/-- Reference types up to the end of the text are read again. -/
lemma readsAll_referenceTypes (hp : Plain new)
    (h : referenceTypes? fuel cs = some (segments, rest)) :
    rest = [] ∧ ReadsAll old new referenceTypes? cs segments := by
  induction fuel generalizing cs segments with
  | zero => simp [referenceTypes?] at h
  | succ fuel ih =>
    cases cs with
    | nil =>
      rw [referenceTypes?] at h
      obtain ⟨rfl, rfl⟩ := Prod.mk.inj (Option.some.inj h)
      refine ⟨rfl, rfl, rfl, fun fuel' hf => ?_⟩
      obtain ⟨fuel', rfl⟩ : ∃ f, fuel' = f + 1 := ⟨fuel' - 1, by omega⟩
      rfl
    | cons c cs =>
      obtain ⟨⟨type, cs₁⟩, htype, h⟩ := Option.bind_eq_some_iff.mp h
      obtain ⟨⟨more, cs₂⟩, hmore, h⟩ := Option.bind_eq_some_iff.mp h
      obtain ⟨rfl, rfl⟩ := Prod.mk.inj (Option.some.inj h)
      have ht : Reads old new referenceType? 0 _ _ _ := (reads_scanners hp _).1 htype
      obtain ⟨rfl, hr⟩ := ih hmore
      obtain ⟨d, tail, tail', hcs, hrender⟩ := ht.exists_head
      obtain rfl := (List.cons.inj hcs).1
      refine ⟨rfl, by rw [render_append, hr.render_eq, ht.render_eq],
        by rw [renamed_append, render_append, hrender]; rfl, fun fuel' hf => ?_⟩
      have hpos := ht.length_pos
      rw [renamed_append, render_append] at hf ⊢
      rw [List.length_append] at hf
      obtain ⟨fuel', rfl⟩ : ∃ f, fuel' = f + 1 := ⟨fuel' - 1, by omega⟩
      have htype' := ht.again fuel' (render (renamed old new more)) (by omega)
      have hmore' := hr.again fuel' (by omega)
      rw [hrender, List.cons_append] at htype' ⊢
      simp [referenceTypes?, htype', hmore']

/-- The parameters of a method are read again. -/
lemma repeats_parameters (hp : Plain new) : Repeats old new parameters? 0 fuel := by
  induction fuel with
  | zero =>
    intro cs segments rest h
    simp [parameters?] at h
  | succ fuel ih =>
    intro cs segments rest h
    cases cs with
    | nil => simp [parameters?] at h
    | cons c cs =>
      rw [parameters?] at h
      split_ifs at h with hend
      · obtain rfl := hend
        obtain ⟨rfl, rfl⟩ := Prod.mk.inj (Option.some.inj h)
        exact .single cs parameters?_end
      · obtain ⟨⟨type, cs₁⟩, htype, h⟩ := Option.bind_eq_some_iff.mp h
        obtain ⟨⟨more, cs₂⟩, hmore, h⟩ := Option.bind_eq_some_iff.mp h
        obtain ⟨rfl, rfl⟩ := Prod.mk.inj (Option.some.inj h)
        have ht : Reads old new typeSignature? 1 _ _ _ := (reads_scanners hp _).2.1 htype
        exact ht.append (ih hmore) le_rfl zero_le_one (parameters?_cons hend)

/-- The types that a method throws are read again, up to the end of the text. -/
lemma readsAll_throws (hp : Plain new) (h : throws? fuel cs = some (segments, [])) :
    ReadsAll old new throws? cs segments := by
  induction fuel generalizing cs segments with
  | zero => simp [throws?] at h
  | succ fuel ih =>
    unfold throws? at h
    split at h
    · contradiction
    next cs heq =>
      obtain rfl := Nat.succ.inj heq
      obtain ⟨⟨type, cs₁⟩, htype, h⟩ := Option.bind_eq_some_iff.mp h
      obtain ⟨⟨more, cs₂⟩, hmore, h⟩ := Option.bind_eq_some_iff.mp h
      obtain ⟨rfl, rfl⟩ := Prod.mk.inj (Option.some.inj h)
      have ht : Reads old new referenceType? 0 _ _ _ := (reads_scanners hp _).1 htype
      have hr := ih hmore
      refine ⟨by simp [chars, ← ht.render_eq, ← hr.render_eq], rfl, fun fuel' hf => ?_⟩
      simp only [List.cons_append, renamed_char_cons, renamed_append, render_cons,
        render_append, chars, List.length_append, List.length_cons] at hf
      obtain ⟨fuel', rfl⟩ : ∃ f, fuel' = f + 1 := ⟨fuel' - 1, by omega⟩
      have htype' := ht.again fuel' (render (renamed old new more)) (by omega)
      have hmore' := hr.again fuel' (by omega)
      simp [chars, throws?, htype', hmore']
    · obtain ⟨rfl, rfl⟩ := Prod.mk.inj (Option.some.inj h)
      refine ⟨rfl, rfl, fun fuel' hf => ?_⟩
      obtain ⟨fuel', rfl⟩ : ∃ f, fuel' = f + 1 := ⟨fuel' - 1, by omega⟩
      rfl

/-- The result type of a method is read again. -/
lemma repeats_result (hp : Plain new) : Repeats old new result? 1 fuel := by
  intro cs segments rest h
  unfold result? at h
  split at h
  · obtain ⟨rfl, rfl⟩ := Prod.mk.inj (Option.some.inj h)
    exact ⟨rfl, ⟨'V', _, rfl⟩, fun fuel' rest' hf => rfl⟩
  next hvoid =>
    have ht : Reads old new typeSignature? 1 _ _ _ := (reads_scanners hp _).2.1 h
    refine ⟨ht.render_eq, ht.starts, fun fuel' rest' hf => ?_⟩
    obtain ⟨c, tail, tail', rfl, hrender⟩ := ht.exists_head
    have hagain := ht.again fuel' rest' hf
    rw [hrender, List.cons_append] at hagain ⊢
    unfold result?
    split
    next hcons => exact (hvoid tail (by rw [(List.cons.inj hcons).1])).elim
    · exact hagain

/-- What follows the type parameters is read again, up to the end of the text. -/
lemma readsAll_body (hp : Plain new) (h : body? fuel cs = some (segments, [])) :
    ReadsAll old new body? cs segments := by
  unfold body? at h
  split at h
  next cs =>
    obtain ⟨⟨parameters, cs₁⟩, hparameters, h⟩ := Option.bind_eq_some_iff.mp h
    obtain ⟨⟨result, cs₂⟩, hresult, h⟩ := Option.bind_eq_some_iff.mp h
    obtain ⟨⟨thrown, cs₃⟩, hthrown, h⟩ := Option.bind_eq_some_iff.mp h
    obtain ⟨rfl, rfl⟩ := Prod.mk.inj (Option.some.inj h)
    have hps : Reads old new parameters? 0 _ _ _ := repeats_parameters hp hparameters
    have hr : Reads old new result? 1 _ _ _ := repeats_result hp hresult
    have ht : ReadsAll old new throws? _ _ := readsAll_throws hp hthrown
    refine ⟨by simp [chars, ← hps.render_eq, ← hr.render_eq, ← ht.render_eq], rfl,
      fun fuel' hf => ?_⟩
    simp only [List.cons_append, renamed_char_cons, renamed_append, render_cons,
      render_append, chars, List.length_append, List.length_cons] at hf
    have hparameters' := hps.again fuel'
      (render (renamed old new result) ++ render (renamed old new thrown)) (by omega)
    have hresult' := hr.again fuel' (render (renamed old new thrown)) (by omega)
    have hthrown' := ht.again fuel' (by omega)
    simp [chars, body?, hparameters', hresult', hthrown']
  next hparen =>
    have hr : ReadsAll old new referenceTypes? cs segments := (readsAll_referenceTypes hp h).2
    refine ⟨hr.render_eq, hr.head_eq, fun fuel' hf => ?_⟩
    have hagain := hr.again fuel' hf
    unfold body?
    split
    next cs' hcons =>
      have hhead := hr.head_eq
      rw [hcons] at hhead
      obtain ⟨tail, htail⟩ := List.head?_eq_some_iff.mp hhead.symm
      exact (hparen tail htail).elim
    · exact hagain

/-- What is read as a signature with some bound is read again after renaming, with every bound that is
large enough.

**Proof sketch.** The type parameters, if the text starts with a `<`, and the rest of the text are
read again by the lemmas above. -/
theorem segmentsWithin?_again (old : List Char) (hp : Plain new)
    (h : segmentsWithin? fuel cs = some segments) :
    render segments = cs ∧
      ∀ fuel', 2 * (render (renamed old new segments)).length + 2 ≤ fuel' →
        segmentsWithin? fuel' (render (renamed old new segments)) =
          some (renamed old new segments) := by
  unfold segmentsWithin? at h
  dsimp only at h
  split at h
  next cs =>
    obtain ⟨⟨parameters, cs₁⟩, hparameters, h⟩ := Option.bind_eq_some_iff.mp h
    obtain ⟨⟨types, cs₂⟩, htypes, h⟩ := Option.bind_eq_some_iff.mp h
    split_ifs at h with hempty
    obtain rfl := Option.some.inj h
    obtain rfl := List.isEmpty_iff.mp hempty
    obtain ⟨⟨more, cs₂⟩, hmore, he⟩ := Option.map_eq_some_iff.mp hparameters
    obtain ⟨rfl, rfl⟩ := Prod.mk.inj he
    have hb : ReadsAll old new body? cs₂ types := readsAll_body hp htypes
    have hr : Reads old new typeParameters? 0 cs more cs₂ := repeats_typeParameters hp hmore
    refine ⟨by simp [chars, ← hr.render_eq, hb.render_eq], fun fuel' hf => ?_⟩
    simp only [List.cons_append, renamed_char_cons, renamed_append, render_cons, render_append,
      chars, List.length_append, List.length_cons, List.nil_append] at hf ⊢
    have hmore' := hr.again fuel' (render (renamed old new types)) (by omega)
    have htypes' := hb.again fuel' (by omega)
    simp only [segmentsWithin?, hmore', Option.map_some, Option.bind_eq_bind, Option.bind_some,
      htypes', List.isEmpty_nil, if_true, List.cons_append]
  next hopen =>
    rw [Option.bind_eq_bind, Option.bind_some] at h
    obtain ⟨⟨types, cs₂⟩, htypes, h⟩ := Option.bind_eq_some_iff.mp h
    split_ifs at h with hempty
    obtain rfl := Option.some.inj h
    obtain rfl := List.isEmpty_iff.mp hempty
    have hb : ReadsAll old new body? cs types := readsAll_body hp htypes
    refine ⟨hb.render_eq, fun fuel' hf => ?_⟩
    simp only [List.nil_append] at hf ⊢
    have htypes' := hb.again fuel' (by omega)
    unfold segmentsWithin?
    split
    next cs' hcons =>
      have hhead := hb.head_eq
      rw [hcons] at hhead
      obtain ⟨tail, htail⟩ := List.head?_eq_some_iff.mp hhead.symm
      exact (hopen tail htail).elim
    · simp [htypes']

/-- **Signatures are cut at the same places** after renaming to a name without a character that ends
a class name; the bound grows with the text. -/
theorem cut_segments? : Cut segments? Plain where
  render_eq h := (segmentsWithin?_again [] plain_nil h).1
  stable h hp := (segmentsWithin?_again _ hp h).2 _ le_rfl

lemma renamed_self (name : List Char) (segments : List Segment) :
    renamed name name segments = segments := by
  induction segments with
  | nil => rfl
  | cons s segments ih =>
    cases s with
    | char c => rw [renamed_char_cons, ih]
    | className other =>
      rw [renamed_className_cons, ih]
      split_ifs with h
      · rw [h]
      · rfl

/-- **The bound is large enough**: what any bound reads as a signature is read. -/
theorem segments?_eq_some_iff :
    segments? cs = some segments ↔ ∃ fuel, segmentsWithin? fuel cs = some segments := by
  refine ⟨fun h => ⟨_, h⟩, fun ⟨fuel, h⟩ => ?_⟩
  obtain ⟨hrender, hagain⟩ := segmentsWithin?_again [] plain_nil h
  rw [renamed_self, hrender] at hagain
  exact hagain _ le_rfl

lemma rename?_eq_renameText? (text old new : String) :
    rename? text old new = renameText? segments? text old new := rfl

end ClassAtlas.Signature
