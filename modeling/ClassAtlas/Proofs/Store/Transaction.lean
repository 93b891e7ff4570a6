import ClassAtlas.Proofs.Outcome
import ClassAtlas.Store.Basic

/-!
# Transactions that succeed

A transaction that succeeds is taken apart like any other computation that may fail, with the store
handed on from part to part. What every part of a transaction keeps, the whole of it keeps.

## Main definitions

* `ClassAtlas.Transaction.Keeps` — a property of stores that a transaction does not destroy.

## Main results

* `ClassAtlas.Transaction.bind_eq_ok_iff` — sequencing.
* `ClassAtlas.Transaction.Keeps.bind`, `forM`, `mapM` — what parts keep, the whole keeps.
-/

set_option autoImplicit false

namespace ClassAtlas.Transaction

variable {α β : Type} {s s' : Store}

/-! ### Primitives -/

@[simp]
theorem pure_apply (a : α) (s : Store) : (pure a : Transaction α) s = .ok (a, s) :=
  rfl

@[simp]
theorem get_apply (s : Store) : (get : Transaction Store) s = .ok (s, s) :=
  rfl

@[simp]
theorem set_apply (s s' : Store) : (set s' : Transaction Unit) s = .ok ((), s') :=
  rfl

@[simp]
theorem modify_apply (f : Store → Store) (s : Store) :
    (modify f : Transaction Unit) s = .ok ((), f s) :=
  rfl

@[simp]
theorem throw_apply (e : Error) (s : Store) : (throw e : Transaction α) s = .error e :=
  rfl

@[simp]
theorem lift_apply (x : Except Error α) (s : Store) :
    (liftM x : Transaction α) s = x.map (·, s) := by
  cases x <;> rfl

theorem lift_eq_ok_iff {x : Except Error α} {a : α} {s' : Store} :
    (liftM x : Transaction α) s = .ok (a, s') ↔ x = .ok a ∧ s' = s := by
  rw [lift_apply, Except.map_eq_ok_iff]
  constructor
  · rintro ⟨b, hb, he⟩
    cases he
    exact ⟨hb, rfl⟩
  · rintro ⟨ha, rfl⟩
    exact ⟨a, ha, rfl⟩

theorem bind_eq_ok_iff {x : Transaction α} {f : α → Transaction β} {r : β × Store} :
    (x >>= f) s = .ok r ↔ ∃ a m, x s = .ok (a, m) ∧ f a m = .ok r := by
  change (x s >>= fun p => f p.1 p.2) = .ok r ↔ _
  rw [Except.bind_eq_ok_iff, Prod.exists]

/-- After a first part that succeeds, the second part runs on its result. -/
theorem bind_apply_of_eq_ok {x : Transaction α} {f : α → Transaction β} {a : α}
    (h : x s = .ok (a, s')) : (x >>= f) s = f a s' := by
  change (x s >>= fun p => f p.1 p.2) = _
  rw [h]
  rfl

/-- After a first part that fails, nothing runs. -/
theorem bind_apply_of_eq_error {x : Transaction α} {f : α → Transaction β} {e : Error}
    (h : x s = .error e) : (x >>= f) s = .error e := by
  change (x s >>= fun p => f p.1 p.2) = _
  rw [h]
  rfl

theorem map_eq_ok_iff {x : Transaction α} {f : α → β} {b : β} :
    (f <$> x) s = .ok (b, s') ↔ ∃ a, x s = .ok (a, s') ∧ f a = b := by
  rw [map_eq_pure_bind, bind_eq_ok_iff]
  simp [and_comm, eq_comm]

/-- A row of transactions runs the first one, and the others on what it leaves. -/
theorem mapM_cons_eq_ok_iff {f : α → Transaction β} {a : α} {as : List α} {bs : List β} :
    (a :: as).mapM f s = .ok (bs, s') ↔
      ∃ b s₁ more, f a s = .ok (b, s₁) ∧ as.mapM f s₁ = .ok (more, s') ∧ bs = b :: more := by
  rw [List.mapM_cons, bind_eq_ok_iff]
  refine exists_congr fun b => exists_congr fun s₁ => ?_
  rw [bind_eq_ok_iff]
  constructor
  · rintro ⟨hfirst, more, s₂, hrest, hend⟩
    cases hend
    exact ⟨more, hfirst, hrest, rfl⟩
  · rintro ⟨more, hfirst, hrest, rfl⟩
    exact ⟨hfirst, more, s', hrest, rfl⟩

theorem get_bind_apply (f : Store → Transaction β) (s : Store) : (get >>= f) s = f s s :=
  rfl

/-! ### What a transaction keeps -/

/-- A transaction keeps a property of stores: where it held before, it holds after a success. -/
def Keeps (P : Store → Prop) (change : Transaction α) : Prop :=
  ∀ s a s', change s = .ok (a, s') → P s → P s'

namespace Keeps

variable {P : Store → Prop}

theorem pure (a : α) : Keeps P (Pure.pure a : Transaction α) := by
  rintro s a' s' h hs
  cases h
  exact hs

theorem throw (e : Error) : Keeps P (MonadExcept.throw e : Transaction α) := by
  rintro s a' s' h hs
  cases h

/-- What is asked beside the store changes nothing. -/
theorem lift (x : Except Error α) : Keeps P (liftM x : Transaction α) := by
  intro s a s' h hs
  obtain ⟨-, rfl⟩ := lift_eq_ok_iff.mp h
  exact hs

theorem bind {x : Transaction α} {f : α → Transaction β} (hx : Keeps P x)
    (hf : ∀ a, Keeps P (f a)) : Keeps P (x >>= f) := by
  intro s b s' h hs
  obtain ⟨a, m, ha, hb⟩ := bind_eq_ok_iff.mp h
  exact hf a m b s' hb (hx s a m ha hs)

/-- Asking the store something changes nothing. -/
theorem get_bind {f : Store → Transaction β} (hf : ∀ m, Keeps P (f m)) : Keeps P (get >>= f) :=
  fun s b s' h hs => hf s s b s' h hs

theorem modify {f : Store → Store} (hf : ∀ s, P s → P (f s)) :
    Keeps P (modify f : Transaction Unit) := by
  rintro s a s' h hs
  cases h
  exact hf s hs

theorem forM {f : α → Transaction Unit} (as : List α) (hf : ∀ a ∈ as, Keeps P (f a)) :
    Keeps P (as.forM f) := by
  induction as with
  | nil => exact Keeps.pure ()
  | cons a as ih =>
    change Keeps P (f a >>= fun _ => as.forM f)
    exact (hf a List.mem_cons_self).bind fun _ => ih fun a ha => hf a (List.mem_cons_of_mem _ ha)

theorem mapM {f : α → Transaction β} (as : List α) (hf : ∀ a ∈ as, Keeps P (f a)) :
    Keeps P (as.mapM f) := by
  induction as with
  | nil => exact Keeps.pure []
  | cons a as ih =>
    rw [List.mapM_cons]
    refine (hf a List.mem_cons_self).bind fun _ => ?_
    exact (ih fun a ha => hf a (List.mem_cons_of_mem _ ha)).bind fun _ => Keeps.pure _

theorem optionForM {f : α → Transaction Unit} (a : Option α) (hf : ∀ a, Keeps P (f a)) :
    Keeps P (a.forM f) := by
  cases a with
  | none => exact Keeps.pure ()
  | some a => exact hf a

end Keeps

end ClassAtlas.Transaction
