import Mathlib

/-!
# Computations that may fail

When a computation in `Except` succeeds, so do its parts. The lemmas below take such computations
apart, one for each way of putting them together.

## Main results

* `ClassAtlas.Except.bind_eq_ok_iff`, `ClassAtlas.Except.map_eq_ok_iff` — sequencing.
* `ClassAtlas.Except.mapM_eq_ok_iff` — a computation for each member of a list.
* `ClassAtlas.Stateful.bind_eq_ok_iff` — sequencing of computations that also change a state.
-/

set_option autoImplicit false

namespace ClassAtlas.Except

variable {ε α β : Type}

@[simp]
theorem bind_eq_ok_iff {x : Except ε α} {f : α → Except ε β} {b : β} :
    (x >>= f) = .ok b ↔ ∃ a, x = .ok a ∧ f a = .ok b := by
  cases x <;> simp [bind, Except.bind]

@[simp]
theorem bind_eq_error_iff {x : Except ε α} {f : α → Except ε β} {e : ε} :
    (x >>= f) = .error e ↔ x = .error e ∨ ∃ a, x = .ok a ∧ f a = .error e := by
  cases x <;> simp [bind, Except.bind]

@[simp]
theorem map_eq_ok_iff {x : Except ε α} {f : α → β} {b : β} :
    x.map f = .ok b ↔ ∃ a, x = .ok a ∧ f a = b := by
  cases x <;> simp [Except.map]

@[simp]
theorem functor_map_eq_ok_iff {x : Except ε α} {f : α → β} {b : β} :
    f <$> x = .ok b ↔ ∃ a, x = .ok a ∧ f a = b :=
  map_eq_ok_iff

@[simp]
theorem pure_eq_ok_iff {a b : α} : (pure a : Except ε α) = .ok b ↔ a = b := by
  simp [pure, Except.pure]

/-- A computation for each member of a list succeeds if and only if each of them does. -/
theorem mapM_eq_ok_iff {f : α → Except ε β} {as : List α} {bs : List β} :
    as.mapM f = .ok bs ↔ List.Forall₂ (fun a b => f a = .ok b) as bs := by
  induction as generalizing bs with
  | nil => simp
  | cons a as ih =>
    simp only [List.mapM_cons, bind_eq_ok_iff, pure_eq_ok_iff, ih, List.forall₂_cons_left_iff]
    constructor
    · rintro ⟨b, hb, bs, hbs, rfl⟩
      exact ⟨b, bs, hb, hbs, rfl⟩
    · rintro ⟨b, bs, hb, hbs, rfl⟩
      exact ⟨b, hb, bs, hbs, rfl⟩

/-- A computation for each member of a list succeeds if each of them does. -/
theorem exists_mapM_eq_ok {f : α → Except ε β} {as : List α} (h : ∀ a ∈ as, ∃ b, f a = .ok b) :
    ∃ bs, as.mapM f = .ok bs := by
  induction as with
  | nil => exact ⟨[], rfl⟩
  | cons a as ih =>
    obtain ⟨b, hb⟩ := h a List.mem_cons_self
    obtain ⟨bs, hbs⟩ := ih fun a ha => h a (List.mem_cons_of_mem _ ha)
    exact ⟨b :: bs, mapM_eq_ok_iff.mpr (.cons hb (mapM_eq_ok_iff.mp hbs))⟩

/-! ### Related lists -/

/-- Every member of the first of two related lists is related to one of the second. -/
theorem exists_of_forall₂ {related : α → β → Prop} {as : List α} {bs : List β} {a : α}
    (h : List.Forall₂ related as bs) (ha : a ∈ as) : ∃ b ∈ bs, related a b := by
  induction h with
  | nil => simp at ha
  | @cons a' b' as bs hr _ ih =>
    rcases List.mem_cons.mp ha with rfl | ha
    · exact ⟨b', List.mem_cons_self, hr⟩
    · obtain ⟨b, hb, hr⟩ := ih ha
      exact ⟨b, List.mem_cons_of_mem _ hb, hr⟩

/-- What follows for related members follows for related lists. -/
theorem forall₂_imp_of_mem {related related' : α → β → Prop} {as : List α} {bs : List β}
    (h : List.Forall₂ related as bs)
    (himp : ∀ a b, a ∈ as → b ∈ bs → related a b → related' a b) :
    List.Forall₂ related' as bs := by
  induction h with
  | nil => exact .nil
  | cons hr _ ih =>
    refine .cons (himp _ _ List.mem_cons_self List.mem_cons_self hr) (ih fun a b ha hb => ?_)
    exact himp a b (List.mem_cons_of_mem _ ha) (List.mem_cons_of_mem _ hb)

/-- Lists related through a list between them are related if their members are. -/
theorem forall₂_trans {γ : Type} {first : α → β → Prop} {second : β → γ → Prop}
    {both : α → γ → Prop} {as : List α} {bs : List β} {cs : List γ} (h : List.Forall₂ first as bs)
    (h' : List.Forall₂ second bs cs)
    (htrans : ∀ a b c, a ∈ as → first a b → second b c → both a c) : List.Forall₂ both as cs := by
  induction h generalizing cs with
  | nil =>
    cases h'
    exact .nil
  | cons ha _ ih =>
    cases h' with
    | cons hb hbs =>
      refine .cons (htrans _ _ _ List.mem_cons_self ha hb) (ih hbs fun a b c hmem => ?_)
      exact htrans a b c (List.mem_cons_of_mem _ hmem)

/-- A list related to one related to another is that one if all members are. -/
theorem eq_of_forall₂ {related : α → β → Prop} {back : β → α → Prop} {as as' : List α} {bs : List β}
    (h : List.Forall₂ related as bs) (h' : List.Forall₂ back bs as')
    (he : ∀ a ∈ as, ∀ b a', related a b → back b a' → a' = a) : as' = as := by
  induction h generalizing as' with
  | nil =>
    cases h'
    rfl
  | cons hr _ ih =>
    cases h' with
    | cons hb hbs =>
      rw [he _ List.mem_cons_self _ _ hr hb, ih hbs fun a ha => he a (List.mem_cons_of_mem _ ha)]

end ClassAtlas.Except

/-! ### Computations that change a state -/

namespace ClassAtlas.Stateful

variable {ε σ α β : Type} {state state' : σ} {a : α} {b : β}

/-- Computations in turn: the second one starts with the result and the state of the first. -/
lemma bind_run (x : ExceptT ε (StateM σ) α) (f : α → ExceptT ε (StateM σ) β) (state : σ) :
    (x >>= f) state =
      match x state with
      | (.ok a, middle) => f a middle
      | (.error cause, middle) => (.error cause, middle) := by
  show ExceptT.bind x f state = _
  simp only [ExceptT.bind, ExceptT.mk, bind, StateT.bind, ExceptT.bindCont]
  rcases x state with ⟨_ | _, middle⟩ <;> rfl

/-- Computations in turn succeed if each of them does. -/
theorem bind_eq_ok_iff {x : ExceptT ε (StateM σ) α} {f : α → ExceptT ε (StateM σ) β} :
    (x >>= f) state = (.ok b, state') ↔
      ∃ a middle, x state = (.ok a, middle) ∧ f a middle = (.ok b, state') := by
  rw [bind_run]
  rcases h : x state with ⟨cause | a, middle⟩
  · refine iff_of_false (fun he => nomatch (Prod.mk.inj he).1) ?_
    rintro ⟨a, _, ha, -⟩
    cases (Prod.mk.inj ha).1
  · exact ⟨fun hf => ⟨a, middle, rfl, hf⟩, fun ⟨_, _, ha, hf⟩ => by cases ha; exact hf⟩

lemma pure_eq_ok_iff {a' : α} :
    (pure a : ExceptT ε (StateM σ) α) state = (.ok a', state') ↔ a = a' ∧ state = state' := by
  change ((.ok a, state) : Except ε α × σ) = (.ok a', state') ↔ _
  rw [Prod.mk.injEq, Except.ok.injEq]

end ClassAtlas.Stateful
