import ClassAtlas.Proofs.Renaming.MemberExact

/-!
# Renamings that report no change

A renaming that neither fails nor reports a change has left the class file as it was at each of its steps.
So each step looked at the class file as it is at the start, and found nothing. The argument does not need
the new name to be another one: a member that is given its own name is reported too.

## Main definitions

* `ClassAtlas.Revision.IsIdle` — a state without a fault in which nothing was replaced.
* `ClassAtlas.Revise.Truthful` — a walk that can only be idle if it leaves the state as it is.

## Main results

* `ClassAtlas.Revise.Truthful.mapM` — the steps of an idle walk are idle.
* `ClassAtlas.MemberRename.not_occurs_of_apply` — a member renaming that reports no change finds no place
  of the member.
-/

set_option autoImplicit false

namespace ClassAtlas

/-- A state without a fault in which nothing was replaced. -/
def Revision.IsIdle (s : Revision) : Prop :=
  s.fault = none ∧ s.changed = false

/-! ### Idle walks -/

namespace Revise

variable {α β : Type} {walk : Revise α} {f : α → Revise β} {s : Revision}

/-- A walk that replaces nothing and does not fail leaves the state as it is. -/
def Truthful (walk : Revise α) : Prop :=
  ∀ s, (walk s).2.IsIdle → (walk s).2 = s

/-- An edit that ends idle asked for no replacement. -/
lemma edit_of_isIdle {fallback : α} {replacement : Pool.Edit (Option α)}
    (h : (edit fallback replacement s).2.IsIdle) :
    ∃ pool, replacement s.pool = (.ok none, pool) ∧ s.fault = none := by
  rcases hrun : edit fallback replacement s with ⟨a, s'⟩
  rw [hrun] at h
  obtain ⟨hs, ⟨pool, hnone, -⟩ | ⟨pool, -, rfl⟩⟩ := edit_spec hrun h.1
  · exact ⟨pool, hnone, hs⟩
  · cases h.2

namespace Truthful

lemma pure (a : α) : Truthful (Pure.pure a : Revise α) :=
  fun _ _ => rfl

/-- An edit is truthful if it leaves the pool as it is where it asks for no replacement. -/
lemma edit {fallback : α} {replacement : Pool.Edit (Option α)}
    (h : ∀ {pool pool'}, replacement pool = (.ok none, pool') → pool' = pool) :
    Truthful (Revise.edit fallback replacement) := by
  intro s hidle
  obtain ⟨pool, hnone, hs⟩ := edit_of_isIdle hidle
  simp only [Revise.edit, hs, hnone]
  rw [h hnone, ← hs]

/-- **The steps of an idle row of truthful steps are idle**, and each of them starts in the same state. -/
theorem mapM {walk : α → Revise β} {as : List α} (h : ∀ a ∈ as, Truthful (walk a))
    (hs : (as.mapM walk s).2.IsIdle) : (as.mapM walk s).2 = s ∧ ∀ a ∈ as, (walk a s).2 = s := by
  induction as generalizing s with
  | nil => exact ⟨by rw [mapM_nil_run], List.forall_mem_nil _⟩
  | cons a as ih =>
    obtain ⟨ha, has⟩ := List.forall_mem_cons.mp h
    rw [mapM_cons_run] at hs ⊢
    obtain ⟨hrest, hsteps⟩ := ih has hs
    have hfirst : (walk a s).2 = s := ha s (hrest ▸ hs)
    rw [hfirst] at hrest hsteps ⊢
    exact ⟨hrest, List.forall_mem_cons.mpr ⟨hfirst, hsteps⟩⟩

end Truthful

end Revise

/-! ### Members -/

namespace MemberRename

open Revise

variable {r : MemberRename} {c after : ClassFile} {s : Revision}

lemma truthful_reviseDeclaration (m : Member) : Truthful (r.reviseDeclaration m) := by
  refine .edit fun {pool pool'} h => ?_
  split at h
  · cases (Prod.mk.inj h).1
  · exact (Prod.mk.inj h).2.symm
  · split at h <;> cases (Prod.mk.inj h).1

lemma truthful_reviseReferences : Truthful r.reviseReferences := by
  refine .edit fun {pool pool'} h => ?_
  split at h
  · cases (Prod.mk.inj h).1
  · exact (Prod.mk.inj h).2.symm
  · split at h <;> cases (Prod.mk.inj h).1

lemma truthful_reviseEnclosing (a : Attribute) : Truthful (r.reviseEnclosing a) := by
  rw [reviseEnclosing]
  split
  · refine .edit fun {pool pool'} h => ?_
    split at h
    · exact (Prod.mk.inj h).2.symm
    split at h
    · cases (Prod.mk.inj h).1
    · exact (Prod.mk.inj h).2.symm
    · split at h <;> cases (Prod.mk.inj h).1
  · exact .pure a

/-- An idle step at a declaration is not at that of the member. -/
lemma namesMember_of_isIdle {m : Member} (h : (r.reviseDeclaration m s).2.IsIdle) :
    r.namesMember s.pool m.name m.descriptor ≠ .ok true := by
  intro hnames
  obtain ⟨pool, hnone, -⟩ := edit_of_isIdle h
  rw [hnames] at hnone
  dsimp only at hnone
  split at hnone <;> cases (Prod.mk.inj hnone).1

/-- If the step at the references is idle, there are none to the member. -/
lemma not_refersToMember_of_isIdle (hmax : s.pool.size ≤ Pool.maxSize)
    (h : (r.reviseReferences s).2.IsIdle) (i : UInt16) :
    ¬ r.RefersToMember s.pool (s.pool.get? i) := by
  intro hrefers
  obtain ⟨pool, hnone, -⟩ := edit_of_isIdle h
  split at hnone
  · cases (Prod.mk.inj hnone).1
  · rename_i hfound
    exact absurd ((mem_references_iff hmax hfound).mpr hrefers) List.not_mem_nil
  · split at hnone <;> cases (Prod.mk.inj hnone).1

/-- An idle step at an attribute is not at an enclosing method that is the member. -/
lemma not_encloses_of_isIdle {a : Attribute} (h : (r.reviseEnclosing a s).2.IsIdle) :
    ¬ r.Encloses s.pool a := by
  rintro ⟨owner, method, hbody, hne, hrefers⟩
  rw [reviseEnclosing, hbody] at h
  obtain ⟨pool, hnone, -⟩ := edit_of_isIdle h
  rw [if_neg hne, hrefers] at hnone
  dsimp only at hnone
  split at hnone <;> cases (Prod.mk.inj hnone).1

/-- If renaming declarations is idle, none of them is that of the member. -/
lemma declare_of_isIdle {name : String} {sort : MemberSort} {ms : List Member}
    (h : (r.declare name sort ms s).2.IsIdle) : (r.declare name sort ms s).2 = s ∧
      (name = r.owner ∧ sort = r.sort →
        ∀ m ∈ ms, r.namesMember s.pool m.name m.descriptor ≠ .ok true) := by
  rw [declare] at h ⊢
  split_ifs at h ⊢ with hmine
  · obtain ⟨hs, hsteps⟩ := Truthful.mapM (fun m _ => truthful_reviseDeclaration m) h
    refine ⟨hs, fun _ m hm => namesMember_of_isIdle ?_⟩
    rw [hsteps m hm, ← hs]
    exact h
  · exact ⟨rfl, fun hmine' => absurd hmine' hmine⟩

/-- If renaming enclosing methods is idle, none of them is the member. -/
lemma reattribute_of_isIdle {attributes : List Attribute}
    (h : (r.reattribute attributes s).2.IsIdle) : (r.reattribute attributes s).2 = s ∧
      (r.sort = .method → ∀ a ∈ attributes, ¬ r.Encloses s.pool a) := by
  unfold reattribute at h ⊢
  cases hsort : r.sort with
  | field => exact ⟨rfl, nofun⟩
  | method =>
    rw [hsort] at h
    obtain ⟨hs, hsteps⟩ := Truthful.mapM (fun a _ => truthful_reviseEnclosing a) h
    refine ⟨hs, fun _ a ha => not_encloses_of_isIdle ?_⟩
    rw [hsteps a ha, ← hs]
    exact h

/-- **A member renaming that reports no change finds no place of the member**, whatever the new name is.

**Proof sketch.** From the last stage to the first, a stage that ends idle started in the state in which it
ended. So all of them started with the pool of the class file. -/
theorem not_occurs_of_apply (hc : c.WellFormed)
    (h : (Renaming.ofMember r).apply c = (.ok false, after)) : ¬ r.Occurs c := by
  obtain ⟨name, fields, s₁, methods, s₂, s₃, attributes, s₄, hname, ⟨h₁, -⟩, ⟨h₂, -⟩, ⟨h₃, -⟩,
    ⟨h₄, hf₄⟩, hchanged, -⟩ := exists_stages_of_apply hc h
  have hidle : s₄.IsIdle := ⟨hf₄, hchanged.symm⟩
  have hattributes := @reattribute_of_isIdle r s₃ c.attributes (by rwa [h₄])
  obtain rfl : s₄ = s₃ := by simpa [h₄] using hattributes.1
  have hs₃ := truthful_reviseReferences (r := r) s₂ (by rwa [h₃])
  have hreferences := @not_refersToMember_of_isIdle r s₂
  obtain rfl : s₄ = s₂ := by simpa [h₃] using hs₃
  have hmethods := @declare_of_isIdle r s₁ name .method c.methods (by rwa [h₂])
  obtain rfl : s₄ = s₁ := by simpa [h₂] using hmethods.1
  have hfields := @declare_of_isIdle r ⟨c.pool, false, none⟩ name .field c.fields (by rwa [h₁])
  obtain rfl : s₄ = ⟨c.pool, false, none⟩ := by simpa [h₁] using hfields.1
  have hdeclared {sort : MemberSort} {m : Member} (hm : r.IsDeclaration c sort m) :
      (name = r.owner ∧ sort = r.sort) ∧ r.namesMember c.pool m.name m.descriptor = .ok true :=
    ⟨⟨Except.ok.inj (hname.symm.trans hm.2.1), hm.1⟩, namesMember_eq_true_iff.mpr hm.2.2⟩
  rintro (⟨m, hm, hd⟩ | ⟨m, hm, hd⟩ | ⟨i, hreference⟩ | ⟨a, ha, hsort, owner, method, hbody, hne, ho, hn⟩)
  · exact hfields.2 (hdeclared hd).1 m hm (hdeclared hd).2
  · exact hmethods.2 (hdeclared hd).1 m hm (hdeclared hd).2
  · exact hreferences hc.pool.size_le (by rwa [h₃]) i (refersToMember_iff.mpr hreference)
  · exact hattributes.2 hsort a ha ⟨owner, method, hbody, hne, refersTo_eq_true_iff.mpr ⟨ho, hn⟩⟩

end MemberRename

end ClassAtlas
