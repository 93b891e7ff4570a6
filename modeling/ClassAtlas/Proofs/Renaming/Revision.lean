import ClassAtlas.Proofs.Pool.Editing
import ClassAtlas.Renaming.Revision

/-!
# Revisions step by step

Most steps of a renaming have the same form: they ask the pool for a new text and, if there is one,
add it to the pool and put its index in place of the old one. A row of such steps that ends without
a fault has put the right index at every place, where right is said of the pool at its end, because
what resolves before a step resolves to the same after it.

## Main definitions

* `ClassAtlas.Revise.replaceText` — a step.
* `ClassAtlas.Revise.Replaced` — what a step does to a place, in terms of the pool at the end.

## Main results

* `ClassAtlas.Revise.repoint_eq` — the replacement of a text is a step.
* `ClassAtlas.Revise.replaceText_spec`, `ClassAtlas.Revise.replaceTexts_spec` — steps that end without a
  fault.
* `ClassAtlas.Revise.replaceTexts_eval` — steps for texts that the pool holds already.
-/

set_option autoImplicit false

namespace ClassAtlas.Revise

variable {α β : Type} {s s' : Revision}

/-! ### Running walks -/

@[simp]
lemma pure_run (a : α) (s : Revision) : (pure a : Revise α) s = (a, s) := rfl

@[simp]
lemma bind_run (walk : Revise α) (f : α → Revise β) (s : Revision) :
    (walk >>= f) s = f (walk s).1 (walk s).2 := rfl

@[simp]
lemma map_run (walk : Revise α) (f : α → β) (s : Revision) :
    (f <$> walk) s = (f (walk s).1, (walk s).2) := rfl

@[simp]
lemma mapM_nil_run (walk : α → Revise β) (s : Revision) : ([] : List α).mapM walk s = ([], s) := by
  rw [List.mapM_nil]
  rfl

@[simp]
lemma mapM_cons_run (walk : α → Revise β) (a : α) (as : List α) (s : Revision) :
    (a :: as).mapM walk s =
      ((walk a s).1 :: (as.mapM walk (walk a s).2).1, (as.mapM walk (walk a s).2).2) := by
  rw [List.mapM_cons]
  rfl

lemma mapM_append_run (walk : α → Revise β) (as bs : List α) (s : Revision) :
    (as ++ bs).mapM walk s =
      ((as.mapM walk s).1 ++ (bs.mapM walk (as.mapM walk s).2).1,
        (bs.mapM walk (as.mapM walk s).2).2) := by
  rw [List.mapM_append]
  rfl

/-! ### Faults -/

lemma ask_of_fault {fallback : α} {question : Pool → Except FormatError α}
    (h : s.fault ≠ none) : ask fallback question s = (fallback, s) := by
  obtain ⟨cause, hc⟩ := Option.ne_none_iff_exists'.mp h
  simp only [ask, hc]

lemma ask_of_ok {fallback a : α} {question : Pool → Except FormatError α} (h : s.fault = none)
    (ha : question s.pool = .ok a) : ask fallback question s = (a, s) := by
  simp only [ask, h, ha]

lemma edit_of_fault {fallback : α} {replacement : Pool.Edit (Option α)} (h : s.fault ≠ none) :
    edit fallback replacement s = (fallback, s) := by
  obtain ⟨cause, hc⟩ := Option.ne_none_iff_exists'.mp h
  simp only [edit, hc]

/-- An answer without a fault is that of the pool. -/
lemma ask_spec {fallback a : α} {question : Pool → Except FormatError α}
    (h : ask fallback question s = (a, s')) (hf : s'.fault = none) :
    s.fault = none ∧ question s.pool = .ok a ∧ s' = s := by
  by_cases hs : s.fault = none
  · simp only [ask, hs] at h
    split at h
    · rename_i b hb
      obtain ⟨rfl, rfl⟩ := Prod.mk.inj h
      exact ⟨hs, hb, rfl⟩
    · obtain ⟨rfl, rfl⟩ := Prod.mk.inj h
      cases hf
  · rw [ask_of_fault hs] at h
    obtain ⟨rfl, rfl⟩ := Prod.mk.inj h
    exact absurd hf hs

/-- An edit without a fault is the replacement in the pool. -/
lemma edit_spec {fallback a : α} {replacement : Pool.Edit (Option α)}
    (h : edit fallback replacement s = (a, s')) (hf : s'.fault = none) :
    s.fault = none ∧
      ((∃ pool, replacement s.pool = (.ok none, pool) ∧ a = fallback ∧ s' = { s with pool }) ∨
        ∃ pool, replacement s.pool = (.ok (some a), pool) ∧ s' = ⟨pool, true, none⟩) := by
  by_cases hs : s.fault = none
  · refine ⟨hs, ?_⟩
    simp only [edit, hs] at h
    split at h
    · rename_i b pool hb
      obtain ⟨rfl, rfl⟩ := Prod.mk.inj h
      exact .inr ⟨pool, hb, rfl⟩
    · rename_i pool hb
      obtain ⟨rfl, rfl⟩ := Prod.mk.inj h
      exact .inl ⟨pool, hb, rfl, by rw [← hs]⟩
    · obtain ⟨rfl, rfl⟩ := Prod.mk.inj h
      cases hf
  · rw [edit_of_fault hs] at h
    obtain ⟨rfl, rfl⟩ := Prod.mk.inj h
    exact absurd hf hs

/-! ### Replacing a text -/

/-- The step that asks the pool for a new text, adds it and builds a replacement with its index; it
leaves everything as it is if there is no new text. -/
def replaceText (fallback : α) (newText : Pool → Except FormatError (Option String))
    (build : UInt16 → α) : Revise α :=
  edit fallback fun pool =>
    match newText pool with
    | .error cause => (.error cause, pool)
    | .ok none => (.ok none, pool)
    | .ok (some text) =>
      match Pool.internText text pool with
      | (.ok index, pool) => (.ok (some (build index)), pool)
      | (.error cause, pool) => (.error cause, pool)

/-- Repointing an index is a step. -/
lemma repoint_eq (f : String → Option String) (index : UInt16) :
    repoint f index = replaceText index (fun pool => (pool.text index).map f) id := by
  refine congrArg (edit index) (funext fun pool => ?_)
  have hget : (getThe Pool : Pool.Edit Pool) pool = (.ok pool, pool) := rfl
  rw [Pool.edit_bind_run, hget]
  simp only [Pool.edit_bind_run]
  cases pool.text index with
  | error cause => rfl
  | ok value =>
    have hlift : (repoint.liftExcept (.ok value) : Pool.Edit String) pool = (.ok value, pool) := rfl
    simp only [hlift, Except.map]
    cases f value with
    | none => rfl
    | some text =>
      simp only [Pool.edit_bind_run]
      rcases Pool.internText text pool with ⟨_ | _, _⟩ <;> rfl

/-- A step yields the fallback or a replacement. -/
lemma replaceText_fst (a : α) (newText : Pool → Except FormatError (Option String))
    (build : UInt16 → α) (s : Revision) :
    (replaceText a newText build s).1 = a ∨ ∃ index, (replaceText a newText build s).1 = build index := by
  by_cases hs : s.fault = none
  · simp only [replaceText, edit, hs]
    rcases newText s.pool with cause | _ | text
    · exact .inl rfl
    · exact .inl rfl
    · simp only
      rcases Pool.internText text s.pool with ⟨_ | index, _⟩
      · exact .inl rfl
      · exact .inr ⟨index, rfl⟩
  · exact .inl (by rw [replaceText, edit_of_fault hs])

/-- A step that builds something around the replacement. -/
lemma replaceText_map (g : α → β) (a : α) (newText : Pool → Except FormatError (Option String))
    (build : UInt16 → α) (s : Revision) :
    replaceText (g a) newText (fun index => g (build index)) s =
      (g (replaceText a newText build s).1, (replaceText a newText build s).2) := by
  by_cases hs : s.fault = none
  · simp only [replaceText, edit, hs]
    rcases newText s.pool with cause | _ | text
    · rfl
    · rfl
    · simp only
      rcases Pool.internText text s.pool with ⟨_ | _, _⟩ <;> rfl
  · rw [replaceText, replaceText, edit_of_fault hs, edit_of_fault hs]

/-- What a step does to a place, in terms of a pool at any later time: it replaces it if there is a
new text, by the least index of that text. -/
def Replaced (newText : Pool → Except FormatError (Option String)) (build : UInt16 → α)
    (pool : Pool) (a b : α) : Prop :=
  (newText pool = .ok none ∧ b = a) ∨
    ∃ text index, newText pool = .ok (some text) ∧ pool.find? (.text text) = some index ∧
      b = build index

/-- A new text that does not depend on what is added to the pool later. -/
def Stable (newText : Pool → Except FormatError (Option String)) : Prop :=
  ∀ {pool pool' : Pool} {added : Constant → Prop},
    Pool.Grows (fun _ => True) added pool pool' → ∀ {text}, newText pool = .ok text →
      newText pool' = .ok text

/-- A step that ends without a fault. -/
theorem replaceText_spec {newText : Pool → Except FormatError (Option String)}
    {build : UInt16 → α} {a b : α} (h : replaceText a newText build s = (b, s'))
    (hf : s'.fault = none) :
    s.fault = none ∧ ((newText s.pool = .ok none ∧ b = a ∧ s' = s) ∨
      ∃ text index, newText s.pool = .ok (some text) ∧
        Pool.internText text s.pool = (.ok index, s'.pool) ∧ b = build index ∧
        s'.changed = true) := by
  obtain ⟨hs, hedit⟩ := edit_spec h hf
  clear h
  refine ⟨hs, ?_⟩
  rcases hedit with ⟨pool, h, rfl, rfl⟩ | ⟨pool, h, rfl⟩
  · split at h
    · cases (Prod.mk.inj h).1
    · rename_i ht
      obtain ⟨-, rfl⟩ := Prod.mk.inj h
      exact .inl ⟨ht, rfl, rfl⟩
    · split at h <;> cases (Prod.mk.inj h).1
  · split at h
    · cases (Prod.mk.inj h).1
    · cases (Prod.mk.inj h).1
    · rename_i text ht
      split at h
      · rename_i index pool' hi
        obtain ⟨hb, rfl⟩ := Prod.mk.inj h
        obtain rfl := Option.some.inj (Except.ok.inj hb)
        exact .inr ⟨text, index, ht, hi, rfl, rfl⟩
      · cases (Prod.mk.inj h).1

/-! ### Rows of steps -/

section Rows

variable {newText : α → Pool → Except FormatError (Option String)} {build : α → UInt16 → α}

/-- The steps at the places of a list. -/
def replaceTexts (newText : α → Pool → Except FormatError (Option String))
    (build : α → UInt16 → α) (as : List α) : Revise (List α) :=
  as.mapM fun a => replaceText a (newText a) (build a)

@[simp]
lemma replaceTexts_nil (s : Revision) : replaceTexts newText build [] s = ([], s) :=
  mapM_nil_run _ s

lemma replaceTexts_cons (a : α) (as : List α) (s : Revision) :
    replaceTexts newText build (a :: as) s =
      ((replaceText a (newText a) (build a) s).1 ::
          (replaceTexts newText build as (replaceText a (newText a) (build a) s).2).1,
        (replaceTexts newText build as (replaceText a (newText a) (build a) s).2).2) :=
  mapM_cons_run _ a as s

/-- From the first fault on, nothing is replaced. -/
lemma replaceTexts_of_fault (as : List α) (h : s.fault ≠ none) :
    replaceTexts newText build as s = (as, s) := by
  induction as with
  | nil => rfl
  | cons a as ih => rw [replaceTexts_cons, replaceText, edit_of_fault h, ih]

/-- What a row of steps without a fault does: every place is replaced as the pool at the end says,
and the pool gains the new texts that it lacked. -/
structure Replaces (newText : α → Pool → Except FormatError (Option String))
    (build : α → UInt16 → α) (as bs : List α) (s s' : Revision) : Prop where
  /-- There was no fault before. -/
  fault : s.fault = none
  /-- There is none afterwards. -/
  fault' : s'.fault = none
  /-- The pool gains new texts of places. -/
  grows : Pool.Grows (fun _ => True)
    (fun c => ∃ a ∈ as, ∃ text, newText a s'.pool = .ok (some text) ∧ c = .text text ∧ c.Fits)
    s.pool s'.pool
  /-- Every place is replaced. -/
  replaced : List.Forall₂ (fun a b => Replaced (newText a) (build a) s'.pool a b) as bs
  /-- Something is replaced if and only if some place has a new text. -/
  changed_iff : s'.changed = true ↔
    s.changed = true ∨ ∃ a ∈ as, ∃ text, newText a s'.pool = .ok (some text)

/-- **A row of steps that ends without a fault** does what its steps do, one after the other.

**Proof sketch.** Induction on the places. The new text of a place is the same in the pool at the
end as in the pool at its turn, because new texts are stable, and it is found at the same index. -/
theorem replaceTexts_spec (hstable : ∀ a, Stable (newText a)) {as bs : List α}
    (hmax : s.pool.size ≤ Pool.maxSize) (h : replaceTexts newText build as s = (bs, s'))
    (hf : s'.fault = none) : Replaces newText build as bs s s' := by
  induction as generalizing bs s with
  | nil =>
    obtain ⟨rfl, rfl⟩ := Prod.mk.inj h
    exact ⟨hf, hf, .refl hmax, .nil, by simp⟩
  | cons a as ih =>
    rw [replaceTexts_cons] at h
    rcases hstep : replaceText a (newText a) (build a) s with ⟨b, m⟩
    rw [hstep] at h
    rcases hrest : replaceTexts newText build as m with ⟨bs', m'⟩
    rw [hrest] at h
    obtain ⟨rfl, rfl⟩ := Prod.mk.inj h
    have hm : m.fault = none := by
      by_contra hm
      rw [replaceTexts_of_fault as hm] at hrest
      obtain ⟨-, rfl⟩ := Prod.mk.inj hrest
      exact hm hf
    obtain ⟨hs, hspec⟩ := replaceText_spec hstep hm
    rcases hspec with ⟨ht, rfl, rfl⟩ | ⟨text, index, ht, hi, rfl, hc⟩
    · have hr := ih hmax hrest
      have ht' := hstable _ hr.grows ht
      refine ⟨hs, hf, hr.grows.widen ?_, .cons (.inl ⟨ht', rfl⟩) hr.replaced, ?_⟩
      · rintro c ⟨a, ha, hc⟩
        exact ⟨a, List.mem_cons_of_mem _ ha, hc⟩
      · rw [hr.changed_iff]
        simp [ht']
    · obtain ⟨hfind, hgrows⟩ := Pool.internText_spec hmax hi
      have hr := ih hgrows.size_le_max hrest
      have ht' := hstable _ hr.grows (hstable _ hgrows ht)
      refine ⟨hs, hf, (hgrows.widen ?_).trans (hr.grows.widen ?_),
        .cons (.inr ⟨text, index, ht', hr.grows.find? trivial hfind, rfl⟩) hr.replaced, ?_⟩
      · exact fun c hc => ⟨a, List.mem_cons_self, text, ht', hc⟩
      · rintro c ⟨a, ha, hc⟩
        exact ⟨a, List.mem_cons_of_mem _ ha, hc⟩
      · rw [hr.changed_iff]
        simp [ht', hc]

/-- **A row of steps for texts that the pool holds already**, if there are new texts at all, ends
without a fault and leaves the pool as it is. -/
theorem replaceTexts_eval {as : List α} (hs : s.fault = none)
    (h : ∀ a ∈ as, newText a s.pool = .ok none ∨
      ∃ text, newText a s.pool = .ok (some text) ∧ s.pool.Holds text) :
    ∃ bs changed, replaceTexts newText build as s = (bs, { s with changed }) ∧
      (changed = true ↔ s.changed = true ∨ ∃ a ∈ as, ∃ text, newText a s.pool = .ok (some text)) := by
  induction as generalizing s with
  | nil => exact ⟨[], s.changed, rfl, by simp⟩
  | cons a as ih =>
    rw [replaceTexts_cons]
    rcases h a List.mem_cons_self with ht | ⟨text, ht, hheld⟩
    · have hstep : replaceText a (newText a) (build a) s = (a, s) := by
        simp only [replaceText, edit, hs, ht]
        rw [← hs]
      obtain ⟨bs, changed, hr, hc⟩ := ih hs fun a ha => h a (List.mem_cons_of_mem _ ha)
      rw [hstep, hr]
      exact ⟨a :: bs, changed, rfl, by simp [hc, ht]⟩
    · obtain ⟨index, hi⟩ := hheld.internText
      have hstep : replaceText a (newText a) (build a) s =
          (build a index, { s with changed := true }) := by
        simp only [replaceText, edit, hs, ht, hi]
      obtain ⟨bs, changed, hr, hc⟩ := @ih { s with changed := true } hs
        fun a ha => h a (List.mem_cons_of_mem _ ha)
      rw [hstep, hr]
      exact ⟨build a index :: bs, changed, rfl, by simp [hc, ht]⟩

end Rows

end ClassAtlas.Revise
