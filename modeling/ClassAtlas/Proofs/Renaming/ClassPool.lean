import ClassAtlas.Proofs.Renaming.Revision
import ClassAtlas.Renaming.Classes

/-!
# The constants of a class renaming

A class renaming first repoints the constants that name the class: class constants at another name,
and name-and-type and method-type constants at another descriptor. The edits are planned before any
of them is made. Texts are only added, so the plan stays right while it is carried out.

## Main definitions

* `ClassAtlas.ClassRename.newConstantText` — the new text for a constant.
* `ClassAtlas.ClassRename.Repoints` — what a row of edits of constants does.
* `ClassAtlas.ClassRename.RevisesPool` — what they do to a pool, constant by constant.

## Main results

* `ClassAtlas.ClassRename.plan_spec` — the plan lists each constant with a new text once.
* `ClassAtlas.ClassRename.reviseConstants_spec` — edits that end without a fault.
* `ClassAtlas.ClassRename.revisePool_spec` — the edits of constants together.
* `ClassAtlas.ClassRename.fault_revisePool` — edits for texts that the pool holds already.
-/

set_option autoImplicit false

namespace ClassAtlas.ClassRename

variable {r : ClassRename} {s s' : Revision}

/-! ### The plan -/

/-- A constant that a class renaming may repoint. -/
def IsTyped : Constant → Prop
  | .classRef _ | .nameAndType _ _ | .methodType _ => True
  | _ => False

/-- The new text for a constant, if there is one: the new name of a class, or the new descriptor. -/
def newConstantText (r : ClassRename) (pool : Pool) : Constant → Except FormatError (Option String)
  | .classRef name => (pool.text name).map r.constant?
  | .nameAndType _ descriptor | .methodType descriptor =>
    (pool.text descriptor).map r.descriptor?
  | _ => .ok none

/-- Only constants that can be repointed have new texts. -/
lemma isTyped_of_newConstantText {pool : Pool} {c : Constant} {text : String}
    (h : r.newConstantText pool c = .ok (some text)) : IsTyped c := by
  cases c <;> first | trivial | cases h

lemma not_isText_of_isTyped {c : Constant} (h : IsTyped c) : ¬ c.IsText := by
  rintro ⟨value, rfl⟩
  exact h

lemma isTyped_repointed {c : Constant} (index : UInt16) (h : IsTyped c) :
    IsTyped (repointed index c) := by
  cases c <;> trivial

/-- The new text for a constant is that of a class or that of a descriptor. -/
lemma newConstantText_eq_ok_iff {pool : Pool} {c : Constant} {text : Option String} :
    r.newConstantText pool c = .ok text ↔
      ∃ name descriptor, r.newClassText pool c = .ok name ∧
        r.newDescriptorText pool c = .ok descriptor ∧ text = name.or descriptor := by
  cases c <;> simp [newConstantText, newClassText, newDescriptorText, eq_comm]

/-- No constant has both. -/
lemma newClassText_or_newDescriptorText (r : ClassRename) (pool : Pool) (c : Constant) :
    r.newClassText pool c = .ok none ∨ r.newDescriptorText pool c = .ok none := by
  cases c <;> simp [newClassText, newDescriptorText]

/-- A constant has a new text if and only if one of its two texts is new. -/
lemma newConstantText_eq_some_iff {pool : Pool} {c : Constant} {name descriptor : Option String}
    {text : String} (hn : r.newClassText pool c = .ok name)
    (hd : r.newDescriptorText pool c = .ok descriptor) :
    r.newClassText pool c = .ok (some text) ∨ r.newDescriptorText pool c = .ok (some text) ↔
      r.newConstantText pool c = .ok (some text) := by
  rw [newConstantText_eq_ok_iff]
  have hone := newClassText_or_newDescriptorText r pool c
  simp only [hn, hd, Except.ok.injEq] at hone ⊢
  constructor
  · rintro (rfl | rfl)
    · exact ⟨_, _, rfl, rfl, rfl⟩
    · obtain rfl : name = none := by simpa using hone
      exact ⟨_, _, rfl, rfl, rfl⟩
  · rintro ⟨_, _, rfl, rfl, he⟩
    rcases hone with rfl | rfl
    · exact .inr he.symm
    · exact .inl (by simpa using he.symm)

/-- A part of the plan lists the new text of a constant under its index, if there is one. -/
def Lists {τ : Type} (part : τ → Option (UInt16 × String))
    (newText : Constant → Except FormatError (Option String)) (e : UInt16 × Constant) (t : τ) : Prop :=
  ∃ text, newText e.2 = .ok text ∧ part t = text.map (e.1, ·)

section Lists

variable {τ : Type} {part : τ → Option (UInt16 × String)}
  {newText : Constant → Except FormatError (Option String)} {es : List (UInt16 × Constant)}
  {ts : List τ}

/-- The indices of a part of the plan are those of some constants, in order. -/
lemma sublist_of_lists (h : List.Forall₂ (Lists part newText) es ts) :
    List.Sublist ((ts.filterMap part).map Prod.fst) (es.map Prod.fst) := by
  induction h with
  | nil => exact .slnil
  | @cons e t es ts he _ ih =>
    obtain ⟨text, -, hpart⟩ := he
    rw [List.filterMap_cons, hpart]
    cases text with
    | none => exact ih.cons _
    | some text => exact ih.cons_cons _

/-- A part of the plan lists the constants with new texts. -/
lemma mem_iff_of_lists (h : List.Forall₂ (Lists part newText) es ts) {i : UInt16} {text : String} :
    (i, text) ∈ ts.filterMap part ↔ ∃ c, (i, c) ∈ es ∧ newText c = .ok (some text) := by
  rw [List.mem_filterMap]
  constructor
  · rintro ⟨t, ht, he⟩
    obtain ⟨⟨j, c⟩, hc, n, hn, hpart⟩ := Except.exists_of_forall₂ h.flip ht
    obtain ⟨_, rfl, he⟩ := Option.map_eq_some_iff.mp (hpart.symm.trans he)
    cases he
    exact ⟨c, hc, hn⟩
  · rintro ⟨c, hc, hn⟩
    obtain ⟨t, ht, n, hn', hpart⟩ := Except.exists_of_forall₂ h hc
    obtain rfl := Except.ok.inj (hn.symm.trans hn')
    exact ⟨t, ht, hpart⟩

end Lists

/-- What a plan does: it edits no constant twice, and it gives a constant the new text that it has.
-/
structure Plans (r : ClassRename) (pool : Pool) (edits : List (UInt16 × String)) : Prop where
  /-- No constant is edited twice. -/
  nodup : (edits.map Prod.fst).Nodup
  /-- The texts of all constants resolve. -/
  resolves : ∀ {i c}, pool.get? i = some c → ∃ text, r.newConstantText pool c = .ok text
  /-- The edits are the new texts. -/
  mem_iff : ∀ {i text}, (i, text) ∈ edits ↔
    ∃ c, pool.get? i = some c ∧ r.newConstantText pool c = .ok (some text)

/-- **The plan** lists each constant with a new text once. -/
theorem plan_spec {pool : Pool} {classes descriptors : List (UInt16 × String)}
    (hs : pool.size ≤ Pool.maxSize) (h : r.plan pool = .ok (classes, descriptors)) :
    Plans r pool (classes ++ descriptors) := by
  simp only [plan, Except.bind_eq_ok_iff, Except.pure_eq_ok_iff, Except.mapM_eq_ok_iff,
    Prod.mk.injEq] at h
  obtain ⟨texts, hf, rfl, rfl⟩ := h
  have hclasses : List.Forall₂ (Lists Prod.fst (r.newClassText pool)) pool.constants texts := by
    refine hf.imp fun e t ht => ?_
    obtain ⟨n, hn, d, -, he⟩ := ht
    exact ⟨n, hn, by rw [← he]⟩
  have hdescriptors : List.Forall₂ (Lists Prod.snd (r.newDescriptorText pool)) pool.constants texts := by
    refine hf.imp fun e t ht => ?_
    obtain ⟨n, -, d, hd, he⟩ := ht
    exact ⟨d, hd, by rw [← he]⟩
  have hresolves {i : UInt16} {c : Constant} (hc : pool.get? i = some c) :
      ∃ name descriptor, r.newClassText pool c = .ok name ∧
        r.newDescriptorText pool c = .ok descriptor := by
    obtain ⟨t, -, n, hn, d, hd, -⟩ :=
      Except.exists_of_forall₂ hf ((Pool.mem_constants_iff hs).mpr hc)
    exact ⟨n, d, hn, hd⟩
  refine ⟨?_, fun {i c} hc => ?_, fun {i text} => ?_⟩
  · have hnodup := Pool.nodup_constants hs
    rw [List.map_append]
    refine (hnodup.sublist (sublist_of_lists hclasses)).append
      (hnodup.sublist (sublist_of_lists hdescriptors)) fun i hi hi' => ?_
    -- no constant has both a new class name and a new descriptor
    obtain ⟨⟨_, text⟩, hm, rfl⟩ := List.mem_map.mp hi
    obtain ⟨⟨_, text'⟩, hm', he⟩ := List.mem_map.mp hi'
    obtain rfl : _ = _ := he
    obtain ⟨c, hc, hn⟩ := (mem_iff_of_lists hclasses).mp hm
    obtain ⟨c', hc', hd⟩ := (mem_iff_of_lists hdescriptors).mp hm'
    rw [Pool.mem_constants_iff hs] at hc hc'
    obtain rfl := Option.some.inj (hc.symm.trans hc')
    rcases newClassText_or_newDescriptorText r pool c with h | h
    · cases hn.symm.trans h
    · cases hd.symm.trans h
  · obtain ⟨n, d, hn, hd⟩ := hresolves hc
    exact ⟨_, newConstantText_eq_ok_iff.mpr ⟨n, d, hn, hd, rfl⟩⟩
  · rw [List.mem_append, mem_iff_of_lists hclasses, mem_iff_of_lists hdescriptors, ← exists_or]
    refine exists_congr fun c => ?_
    rw [← and_or_left, Pool.mem_constants_iff hs]
    refine and_congr_right fun hc => ?_
    obtain ⟨n, d, hn, hd⟩ := hresolves hc
    exact newConstantText_eq_some_iff hn hd

/-! ### Carrying out a plan -/

/-- The edits of a plan, one after the other. -/
def reviseConstants (edits : List (UInt16 × String)) : Revise Unit := edits.forM reviseConstant

lemma reviseConstants_cons (e : UInt16 × String) (edits : List (UInt16 × String)) (s : Revision) :
    reviseConstants (e :: edits) s = reviseConstants edits (reviseConstant e s).2 := rfl

lemma reviseConstants_append (edits edits' : List (UInt16 × String)) (s : Revision) :
    reviseConstants (edits ++ edits') s = reviseConstants edits' (reviseConstants edits s).2 := by
  induction edits generalizing s with
  | nil => rfl
  | cons e edits ih => exact ih _

/-- From the first fault on, no constant is edited. -/
lemma reviseConstants_of_fault (edits : List (UInt16 × String)) (h : s.fault ≠ none) :
    reviseConstants edits s = ((), s) := by
  induction edits with
  | nil => rfl
  | cons e edits ih => rw [reviseConstants_cons, reviseConstant, Revise.edit_of_fault h, ih]

/-- An edit of a constant that ends without a fault. -/
lemma reviseConstant_spec {e : UInt16 × String} (h : reviseConstant e s = ((), s'))
    (hf : s'.fault = none) : s.fault = none ∧ ∃ index pool c,
      Pool.internText e.2 s.pool = (.ok index, pool) ∧ pool.get? e.1 = some c ∧
        s' = ⟨pool.set e.1 (repointed index c), true, none⟩ := by
  obtain ⟨hs, hedit⟩ := Revise.edit_spec h hf
  clear h
  refine ⟨hs, ?_⟩
  rcases hi : Pool.internText e.2 s.pool with ⟨cause | index, pool⟩
  · simp only [hi] at hedit
    rcases hedit with ⟨_, h, -⟩ | ⟨_, h, -⟩ <;> cases (Prod.mk.inj h).1
  · simp only [hi] at hedit
    rcases hc : pool.get? e.1 with _ | c
    · simp only [hc] at hedit
      rcases hedit with ⟨_, h, -⟩ | ⟨_, h, -⟩ <;> cases (Prod.mk.inj h).1
    · simp only [hc] at hedit
      rcases hedit with ⟨_, h, -⟩ | ⟨pool', h, rfl⟩
      · cases (Prod.mk.inj h).1
      · obtain ⟨-, rfl⟩ := Prod.mk.inj h
        exact ⟨index, pool, c, rfl, hc, rfl⟩

/-- What a row of edits without a fault does: the constants that are edited point at their new
texts, all others stay, and the pool gains the new texts that it lacked. -/
structure Repoints (edits : List (UInt16 × String)) (s s' : Revision) : Prop where
  /-- There was no fault before. -/
  fault : s.fault = none
  /-- There is none afterwards. -/
  fault' : s'.fault = none
  /-- The pool gains new texts. -/
  grows : Pool.Grows Constant.IsText (fun c => ∃ e ∈ edits, c = .text e.2 ∧ c.Fits) s.pool s'.pool
  /-- Other constants stay. -/
  kept : ∀ {i : UInt16}, i.toNat < s.pool.size → i ∉ edits.map Prod.fst →
    s'.pool.get? i = s.pool.get? i
  /-- Edited constants point at their new texts. -/
  edited : ∀ {e}, e ∈ edits → ∀ {c}, s.pool.get? e.1 = some c →
    ∃ index, s'.pool.find? (.text e.2) = some index ∧
      s'.pool.get? e.1 = some (repointed index c)
  /-- Something is replaced if and only if there is an edit. -/
  changed_iff : s'.changed = true ↔ s.changed = true ∨ edits ≠ []

/-- **A row of edits of different constants that ends without a fault.**

**Proof sketch.** Induction on the edits. An edit changes one constant, which is no text, and no later
edit changes it again; the text that it points at stays the first one of its kind. -/
theorem reviseConstants_spec {edits : List (UInt16 × String)} (hmax : s.pool.size ≤ Pool.maxSize)
    (hnodup : (edits.map Prod.fst).Nodup)
    (htyped : ∀ e ∈ edits, ∃ c, s.pool.get? e.1 = some c ∧ IsTyped c)
    (h : reviseConstants edits s = ((), s')) (hf : s'.fault = none) : Repoints edits s s' := by
  induction edits generalizing s with
  | nil =>
    obtain rfl : s = s' := (Prod.mk.inj h).2
    exact ⟨hf, hf, .refl hmax, fun _ _ => rfl, by simp, by simp⟩
  | cons e edits ih =>
    rw [reviseConstants_cons] at h
    rcases hstep : reviseConstant e s with ⟨_, m⟩
    rw [hstep] at h
    have hm : m.fault = none := by
      by_contra hm
      rw [reviseConstants_of_fault edits hm] at h
      obtain rfl : m = s' := (Prod.mk.inj h).2
      exact hm hf
    obtain ⟨hs, index, pool, c', hi, hc', rfl⟩ := reviseConstant_spec hstep hm
    obtain ⟨c, hc, hty⟩ := htyped e List.mem_cons_self
    obtain ⟨hfind, hgrows⟩ := Pool.internText_spec hmax hi
    obtain rfl : c' = c := Option.some.inj (hc'.symm.trans (hgrows.get? trivial hc))
    have hlt := Pool.lt_size_of_get? hc
    have hlt' := Pool.lt_size_of_get? hc'
    rw [List.map_cons, List.nodup_cons] at hnodup
    have hset : Pool.Grows Constant.IsText (fun _ => False) pool
        (pool.set e.1 (repointed index c')) :=
      (Pool.Grows.refl hgrows.size_le_max).set hlt' hc' (not_isText_of_isTyped hty)
        (not_isText_of_isTyped (isTyped_repointed index hty))
    have hgrows' : Pool.Grows Constant.IsText (fun c => c = .text e.2 ∧ c.Fits) s.pool
        (pool.set e.1 (repointed index c')) :=
      (hgrows.weaken (fun _ _ => trivial) fun c hc => ⟨⟨_, hc.1⟩, hc⟩).trans
        (hset.widen fun _ => False.elim)
    have hget : ∀ {i : UInt16}, i.toNat < s.pool.size → i ≠ e.1 →
        (pool.set e.1 (repointed index c')).get? i = s.pool.get? i := by
      intro i hi hne
      rw [Pool.get?_set hlt', if_neg hne, hgrows.get?_eq hi]
    have hne : ∀ e' ∈ edits, e'.1 ≠ e.1 := fun e' he' he =>
      hnodup.1 (he ▸ List.mem_map_of_mem he')
    have hr := ih hgrows'.size_le_max hnodup.2 (fun e' he' => ?_) h
    · refine ⟨hs, hf, (hgrows'.widen ?_).trans (hr.grows.widen ?_), fun {i} hi hn => ?_,
        fun {e'} he' {d} hd => ?_, by simp [hr.changed_iff]⟩
      · exact fun c hc => ⟨e, List.mem_cons_self, hc⟩
      · rintro c ⟨e', he', hc⟩
        exact ⟨e', List.mem_cons_of_mem _ he', hc⟩
      · rw [List.map_cons, List.mem_cons, not_or] at hn
        rw [hr.kept (hi.trans_le hgrows'.size_le) hn.2, hget hi hn.1]
      · rcases List.mem_cons.mp he' with rfl | he'
        · obtain rfl := Option.some.inj (hc.symm.trans hd)
          refine ⟨index, hr.grows.find? ⟨_, rfl⟩ (hset.find? ⟨_, rfl⟩ hfind), ?_⟩
          rw [hr.kept (hlt.trans_le hgrows'.size_le) hnodup.1, Pool.get?_set hlt', if_pos rfl]
        · refine hr.edited he' ?_
          rw [hget (Pool.lt_size_of_get? hd) (hne e' he'), hd]
    · obtain ⟨d, hd, hdt⟩ := htyped e' (List.mem_cons_of_mem _ he')
      exact ⟨d, by rw [hget (Pool.lt_size_of_get? hd) (hne e' he'), hd], hdt⟩

/-- Edits of different constants whose new texts the pool holds already end without a fault. -/
lemma fault_reviseConstants {edits : List (UInt16 × String)} (hs : s.fault = none)
    (hmax : s.pool.size ≤ Pool.maxSize) (hnodup : (edits.map Prod.fst).Nodup)
    (htyped : ∀ e ∈ edits, ∃ c, s.pool.get? e.1 = some c ∧ IsTyped c)
    (hheld : ∀ e ∈ edits, s.pool.Holds e.2) :
    (reviseConstants edits s).2.fault = none := by
  induction edits generalizing s with
  | nil => exact hs
  | cons e edits ih =>
    obtain ⟨c, hc, hty⟩ := htyped e List.mem_cons_self
    obtain ⟨index, hi⟩ := (hheld e List.mem_cons_self).internText
    have hlt := Pool.lt_size_of_get? hc
    rw [List.map_cons, List.nodup_cons] at hnodup
    have hstep : reviseConstant e s = ((), ⟨s.pool.set e.1 (repointed index c), true, none⟩) := by
      simp only [reviseConstant, Revise.edit, hs, hi, hc]
    rw [reviseConstants_cons, hstep]
    have hset : Pool.Grows Constant.IsText (fun _ => False) s.pool
        (s.pool.set e.1 (repointed index c)) :=
      (Pool.Grows.refl hmax).set hlt hc (not_isText_of_isTyped hty)
        (not_isText_of_isTyped (isTyped_repointed index hty))
    refine ih rfl hset.size_le_max hnodup.2 (fun e' he' => ?_) fun e' he' => ?_
    · obtain ⟨d, hd, hdt⟩ := htyped e' (List.mem_cons_of_mem _ he')
      have hne : e'.1 ≠ e.1 := fun he => hnodup.1 (he ▸ List.mem_map_of_mem he')
      exact ⟨d, by rw [Pool.get?_set hlt, if_neg hne, hd], hdt⟩
    · exact (hheld e' (List.mem_cons_of_mem _ he')).grow hset fun value => ⟨value, rfl⟩

/-! ### The constants together -/

/-- What the edits of constants without a fault do: a constant with a new text points at it, all
others stay, and the pool gains the new texts that it lacked. -/
structure RevisesPool (r : ClassRename) (s s' : Revision) : Prop where
  /-- There was no fault before. -/
  fault : s.fault = none
  /-- There is none afterwards. -/
  fault' : s'.fault = none
  /-- The texts of all constants resolve. -/
  resolves : ∀ {i c}, s.pool.get? i = some c → ∃ text, r.newConstantText s.pool c = .ok text
  /-- The pool gains new texts of constants. -/
  grows : Pool.Grows Constant.IsText (fun c => ∃ i d text, s.pool.get? i = some d ∧
    r.newConstantText s.pool d = .ok (some text) ∧ c = .text text ∧ c.Fits) s.pool s'.pool
  /-- Constants without new texts stay. -/
  stays : ∀ {i c}, s.pool.get? i = some c → r.newConstantText s.pool c = .ok none →
    s'.pool.get? i = some c
  /-- Constants with new texts point at them. -/
  edited : ∀ {i c text}, s.pool.get? i = some c → r.newConstantText s.pool c = .ok (some text) →
    ∃ index, s'.pool.find? (.text text) = some index ∧ s'.pool.get? i = some (repointed index c)
  /-- Slots that cannot be used stay so. -/
  unusable : ∀ {i : UInt16}, i.toNat < s.pool.size → s.pool.get? i = none → s'.pool.get? i = none
  /-- Something is replaced if and only if some constant has a new text. -/
  changed_iff : s'.changed = true ↔ s.changed = true ∨
    ∃ i c text, s.pool.get? i = some c ∧ r.newConstantText s.pool c = .ok (some text)

/-- The edits of constants are those of a plan. -/
lemma revisePool_run {classes descriptors : List (UInt16 × String)} (hs : s.fault = none)
    (hp : r.plan s.pool = .ok (classes, descriptors)) :
    r.revisePool s = reviseConstants (classes ++ descriptors) s := by
  rw [reviseConstants_append, revisePool, Revise.bind_run, Revise.ask_of_ok hs hp]
  rfl

/-- **The edits of the constants of a pool that end without a fault** do to each constant what its
new text asks for. -/
theorem revisePool_spec (hmax : s.pool.size ≤ Pool.maxSize) (h : r.revisePool s = ((), s'))
    (hf : s'.fault = none) : RevisesPool r s s' := by
  rcases hask : Revise.ask ([], []) r.plan s with ⟨⟨classes, descriptors⟩, m⟩
  have hm : m.fault = none := by
    by_contra hm
    rw [revisePool, Revise.bind_run, hask] at h
    have hcs := reviseConstants_of_fault (classes ++ descriptors) hm
    rw [reviseConstants_append] at hcs
    obtain rfl : m = s' := (Prod.mk.inj (hcs.symm.trans h)).2
    exact hm hf
  obtain ⟨hs, hp, rfl⟩ := Revise.ask_spec hask hm
  have hplan := plan_spec hmax hp
  rw [revisePool_run hs hp] at h
  have htyped : ∀ e ∈ classes ++ descriptors, ∃ c, m.pool.get? e.1 = some c ∧ IsTyped c := by
    rintro ⟨i, text⟩ he
    obtain ⟨c, hc, ht⟩ := hplan.mem_iff.mp he
    exact ⟨c, hc, isTyped_of_newConstantText ht⟩
  have hr := reviseConstants_spec hmax hplan.nodup htyped h hf
  refine ⟨hs, hf, hplan.resolves, hr.grows.widen ?_, fun {i c} hc hn => ?_,
    fun {i c text} hc ht => ?_, fun {i} hi hn => ?_, ?_⟩
  · rintro c ⟨⟨i, text⟩, he, hc⟩
    obtain ⟨d, hd, ht⟩ := hplan.mem_iff.mp he
    exact ⟨i, d, text, hd, ht, hc⟩
  · rw [hr.kept (Pool.lt_size_of_get? hc) fun hm => ?_, hc]
    obtain ⟨⟨_, text⟩, he, rfl⟩ := List.mem_map.mp hm
    obtain ⟨d, hd, ht⟩ := hplan.mem_iff.mp he
    obtain rfl := Option.some.inj (hc.symm.trans hd)
    cases hn.symm.trans ht
  · exact hr.edited (hplan.mem_iff.mpr ⟨c, hc, ht⟩) hc
  · rw [hr.kept hi fun hm => ?_, hn]
    obtain ⟨⟨_, text⟩, he, rfl⟩ := List.mem_map.mp hm
    obtain ⟨d, hd, -⟩ := hplan.mem_iff.mp he
    cases hn.symm.trans hd
  · rw [hr.changed_iff]
    refine or_congr_right ?_
    constructor
    · intro hne
      obtain ⟨⟨i, text⟩, he⟩ := List.exists_mem_of_ne_nil _ hne
      obtain ⟨c, hc, ht⟩ := hplan.mem_iff.mp he
      exact ⟨i, c, text, hc, ht⟩
    · rintro ⟨i, c, text, hc, ht⟩
      exact List.ne_nil_of_mem (hplan.mem_iff.mpr ⟨c, hc, ht⟩)

/-- Each constant has texts for the plan if it has a new text or none. -/
lemma exists_plan {pool : Pool} (hs : pool.size ≤ Pool.maxSize)
    (h : ∀ i c, pool.get? i = some c → ∃ text, r.newConstantText pool c = .ok text) :
    ∃ classes descriptors, r.plan pool = .ok (classes, descriptors) := by
  obtain ⟨texts, ht⟩ := @Except.exists_mapM_eq_ok _ _ _ (fun e : UInt16 × Constant => do
      let name ← r.newClassText pool e.2
      let descriptor ← r.newDescriptorText pool e.2
      return (name.map (e.1, ·), descriptor.map (e.1, ·))) pool.constants fun e he => by
    obtain ⟨text, ht⟩ := h e.1 e.2 ((Pool.mem_constants_iff hs).mp he)
    obtain ⟨name, descriptor, hn, hd, -⟩ := newConstantText_eq_ok_iff.mp ht
    exact ⟨_, Except.bind_eq_ok_iff.mpr ⟨name, hn, Except.bind_eq_ok_iff.mpr ⟨descriptor, hd, rfl⟩⟩⟩
  exact ⟨_, _, Except.bind_eq_ok_iff.mpr ⟨texts, ht, rfl⟩⟩

/-- **The edits of the constants of a pool that holds the new texts already** end without a fault.
-/
theorem fault_revisePool (hs : s.fault = none) (hmax : s.pool.size ≤ Pool.maxSize)
    (h : ∀ i c, s.pool.get? i = some c → ∃ text, r.newConstantText s.pool c = .ok text ∧
      ∀ value ∈ text, s.pool.Holds value) : (r.revisePool s).2.fault = none := by
  obtain ⟨classes, descriptors, hp⟩ := exists_plan hmax fun i c hc => (h i c hc).imp fun _ => And.left
  have hplan := plan_spec hmax hp
  rw [revisePool_run hs hp]
  refine fault_reviseConstants hs hmax hplan.nodup ?_ ?_
  · rintro ⟨i, text⟩ he
    obtain ⟨c, hc, ht⟩ := hplan.mem_iff.mp he
    exact ⟨c, hc, isTyped_of_newConstantText ht⟩
  · rintro ⟨i, text⟩ he
    obtain ⟨c, hc, ht⟩ := hplan.mem_iff.mp he
    obtain ⟨text', ht', hheld⟩ := h i c hc
    obtain rfl := Except.ok.inj (ht.symm.trans ht')
    exact hheld text rfl

end ClassAtlas.ClassRename
