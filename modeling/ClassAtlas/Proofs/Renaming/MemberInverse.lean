import ClassAtlas.Proofs.ClassFile.Tidy
import ClassAtlas.Proofs.Renaming.MemberExact

/-!
# Undoing a member renaming

A member renaming to a name that is no text of a class file is undone by the renaming back. The places
of the member are the only ones that have the new name afterwards, and at each of them the old name,
and the old name-and-type constant, are found again, because they are still in the pool.

## Main definitions

* `ClassAtlas.MemberRename.inverse` — the renaming back.
* `ClassAtlas.MemberRename.Fresh` — the new name is no text of a class file.
* `ClassAtlas.MemberRename.Answered` — whatever a member renaming looks up resolves.

## Main results

* `ClassAtlas.MemberRename.exists_refersTo_of_apply` — a renaming that does not fail looks up nothing in
  vain.
* `ClassAtlas.MemberRename.exists_apply` — a renaming that adds nothing does not fail.
* `ClassAtlas.MemberRename.Revises.inverse` — the renaming back restores the class file.
-/

set_option autoImplicit false

namespace ClassAtlas.MemberRename

variable {r : MemberRename} {c after trimmed : ClassFile} {base pool pool' : Pool}
  {s s' : Revision} {i owner nameType : UInt16}

/-- The renaming that gives the old name back. -/
def inverse (r : MemberRename) : MemberRename := { r with name := r.newName, newName := r.name }

/-- The new name of a member is no text of a class file. -/
def Fresh (r : MemberRename) (c : ClassFile) : Prop :=
  ∀ i, c.pool.text i ≠ .ok r.newName

/-! ### What is looked up -/

/-- When a reference can be looked up: its owner resolves and, if that is the owner of the member, its
name and descriptor as well. -/
lemma exists_refersTo_iff : (∃ b, r.refersTo pool owner nameType = .ok b) ↔
    ∃ name, pool.className owner = .ok name ∧
      (name = r.owner → ∃ name descriptor, pool.nameAndType nameType = .ok (name, descriptor)) := by
  simp only [refersTo, Except.bind_eq_ok_iff]
  constructor
  · rintro ⟨b, name, hname, h⟩
    refine ⟨name, hname, fun he => ?_⟩
    rw [if_neg (not_not.mpr he)] at h
    obtain ⟨⟨name, descriptor⟩, hpair, -⟩ := Except.bind_eq_ok_iff.mp h
    exact ⟨name, descriptor, hpair⟩
  · rintro ⟨name, hname, h⟩
    by_cases he : name = r.owner
    · obtain ⟨name', descriptor, hpair⟩ := h he
      refine ⟨decide ((name', descriptor) = (r.name, r.descriptor)), name, hname, ?_⟩
      rw [if_neg (not_not.mpr he)]
      exact Except.bind_eq_ok_iff.mpr ⟨_, hpair, rfl⟩
    · exact ⟨false, name, hname, by rw [if_pos he]; rfl⟩

/-- Whatever a member renaming looks up in a class file resolves. -/
structure Answered (r : MemberRename) (c : ClassFile) : Prop where
  /-- References to members of the sort can be looked up. -/
  references : ∀ {i kind owner nameType}, c.pool.get? i = some (.memberRef kind owner nameType) →
    r.sort.covers kind = true → ∃ b, r.refersTo c.pool owner nameType = .ok b
  /-- So can enclosing methods. -/
  enclosings : r.sort = .method → ∀ a ∈ c.attributes, ∀ owner method,
    a.body = .flat (.enclosingMethod owner method) → method ≠ 0 →
      ∃ b, r.refersTo c.pool owner method = .ok b

/-- Constants are looked up to find the references. -/
lemma exists_isReference_of_references {indices : List UInt16} {k : Constant}
    (hs : pool.size ≤ Pool.maxSize) (h : r.references pool = .ok indices)
    (hk : pool.get? i = some k) : ∃ b, r.isReference pool k = .ok b := by
  simp only [references, Except.bind_eq_ok_iff, Except.mapM_eq_ok_iff] at h
  obtain ⟨found, hf, -⟩ := h
  obtain ⟨slot, -, b, hb, -⟩ := Except.exists_of_forall₂ hf ((Pool.mem_constants_iff hs).mpr hk)
  exact ⟨b, hb⟩

lemma exists_references_of_reviseReferences (h : r.reviseReferences s = ((), s'))
    (hf : s'.fault = none) : ∃ indices, r.references s.pool = .ok indices := by
  obtain ⟨-, hedit⟩ := Revise.edit_spec h hf
  rcases hfound : r.references s.pool with cause | indices
  · simp only [hfound] at hedit
    rcases hedit with ⟨_, he, -⟩ | ⟨_, he, -⟩ <;> cases (Prod.mk.inj he).1
  · exact ⟨indices, rfl⟩

lemma exists_refersTo_of_reviseEnclosing {a a' : Attribute} {method : UInt16}
    (hb : a.body = .flat (.enclosingMethod owner method)) (hz : method ≠ 0)
    (h : r.reviseEnclosing a s = (a', s')) (hf : s'.fault = none) :
    ∃ b, r.refersTo s.pool owner method = .ok b := by
  obtain ⟨name, body⟩ := a
  obtain rfl : body = _ := hb
  rw [reviseEnclosing] at h
  obtain ⟨-, hedit⟩ := Revise.edit_spec h hf
  rcases hr : r.refersTo s.pool owner method with cause | b
  · simp only [hz, if_false, hr] at hedit
    rcases hedit with ⟨_, he, -⟩ | ⟨_, he, -⟩ <;> cases (Prod.mk.inj he).1
  · exact ⟨b, rfl⟩

/-- A reference of a tidy class file that can be looked up later could be looked up before. -/
lemma exists_refersTo_of_extends (htidy : c.Tidy) (hg : r.Extends c.pool pool)
    (howner : owner.toNat < c.pool.size) (hnameType : nameType.toNat < c.pool.size)
    (h : ∃ b, r.refersTo pool owner nameType = .ok b) :
    ∃ b, r.refersTo c.pool owner nameType = .ok b := by
  obtain ⟨name, hname, hpair⟩ := exists_refersTo_iff.mp h
  refine exists_refersTo_iff.mpr ⟨name, ?_, fun he => ?_⟩
  · exact (htidy.className_iff hg.grows (fun _ => id) (fun _ => id) howner).mp hname
  · obtain ⟨name', descriptor, hn⟩ := hpair he
    exact ⟨name', descriptor,
      (htidy.nameAndType_iff hg.grows (fun _ => id) (fun _ _ => id) hnameType).mp hn⟩

/-- The indices in an enclosing method of a tidy class file are within the pool. -/
lemma lt_size_of_enclosing (htidy : c.Tidy) {a : Attribute} {method : UInt16} (ha : a ∈ c.attributes)
    (hb : a.body = .flat (.enclosingMethod owner method)) :
    owner.toNat < c.pool.size ∧ method.toNat < c.pool.size := by
  obtain ⟨howner, hmethod⟩ := ClassFile.mem_uses_of_enclosingMethod ha hb
  exact ⟨htidy.within (.inl howner), htidy.within (.inl hmethod)⟩

/-- What is looked up stays the answer while all but references to members stays. -/
lemma refersTo_of_grows {added : Constant → Prop} {b : Bool}
    (hg : Pool.Grows (fun k => ¬ k.IsMemberRef) added pool pool')
    (h : r.refersTo pool owner nameType = .ok b) : r.refersTo pool' owner nameType = .ok b := by
  simp only [refersTo, Except.bind_eq_ok_iff] at h ⊢
  obtain ⟨text, ho, h⟩ := h
  refine ⟨text, hg.className (fun _ => id) (fun _ => id) ho, ?_⟩
  split_ifs at h ⊢
  · exact h
  · obtain ⟨⟨name, descriptor⟩, hn, h⟩ := Except.bind_eq_ok_iff.mp h
    exact Except.bind_eq_ok_iff.mpr ⟨_, hg.nameAndType (fun _ => id) (fun _ _ => id) hn, h⟩

/-- Enclosing methods are looked up one after the other. -/
lemma exists_refersTo_of_reviseEnclosings {attributes attributes' : List Attribute}
    (hstage : r.Extends base s.pool) (hne : r.Known base → r.name ≠ r.newName)
    (hrun : attributes.mapM r.reviseEnclosing s = (attributes', s')) (hf : s'.fault = none) :
    ∀ a ∈ attributes, ∀ owner method, a.body = .flat (.enclosingMethod owner method) → method ≠ 0 →
      ∃ b, r.refersTo s'.pool owner method = .ok b := by
  induction attributes generalizing attributes' s with
  | nil => simp
  | cons a attributes ih =>
    have hgrows := (reviseEnclosings_spec hstage hne hrun hf).1.grows
    obtain ⟨b, bs, m, hstep, hm, hrest, rfl⟩ := exists_of_reviseEnclosings_cons hrun hf
    obtain ⟨hadds, -⟩ := reviseEnclosing_spec hstage hne hstep hm
    refine List.forall_mem_cons.mpr ⟨fun owner method hb hz => ?_, ih hadds.stage hrest⟩
    obtain ⟨b, hr⟩ := exists_refersTo_of_reviseEnclosing hb hz hstep hm
    exact ⟨b, refersTo_of_grows (hgrows.weaken (fun _ _ => trivial) fun _ hk => ⟨hk, hk⟩) hr⟩

/-- **A member renaming that does not fail looks up nothing in vain**: all that it looks up in a class
file resolves afterwards. -/
theorem exists_refersTo_of_apply {changed : Bool} (hc : c.WellFormed)
    (hne : r.Known c.pool → r.name ≠ r.newName)
    (h : (Renaming.ofMember r).apply c = (.ok changed, after)) :
    (∀ {i kind owner nameType}, c.pool.get? i = some (.memberRef kind owner nameType) →
      r.sort.covers kind = true → ∃ b, r.refersTo after.pool owner nameType = .ok b) ∧
    (r.sort = .method → ∀ a ∈ c.attributes, ∀ owner method,
      a.body = .flat (.enclosingMethod owner method) → method ≠ 0 →
        ∃ b, r.refersTo after.pool owner method = .ok b) := by
  obtain ⟨name, fields, s₁, methods, s₂, s₃, attributes, s₄, hname, ⟨h₁, hf₁⟩, ⟨h₂, hf₂⟩, ⟨h₃, hf₃⟩,
    ⟨h₄, hf₄⟩, rfl, rfl⟩ := exists_stages_of_apply hc h
  obtain ⟨hadds₁, -⟩ := declare_spec hname (.refl hc.pool.size_le) hc.fields h₁ hf₁
  obtain ⟨hadds₂, -⟩ := declare_spec hname hadds₁.stage hc.methods h₂ hf₂
  obtain ⟨-, hstage₃, hgrows₃, -⟩ := reviseReferences_spec hadds₂.stage hne h₃ hf₃
  obtain ⟨hadds₄, -⟩ := reattribute_spec hstage₃ hne h₄ hf₄
  constructor
  · intro i kind owner nameType hk hcovers
    obtain ⟨indices, hindices⟩ := exists_references_of_reviseReferences h₃ hf₃
    have hk₂ : s₂.pool.get? i = some (.memberRef kind owner nameType) := by
      have hg := hadds₁.grows.trans hadds₂.grows
      rw [hg.get?_eq (Pool.lt_size_of_get? hk), hk]
    obtain ⟨b, hb⟩ := exists_isReference_of_references hadds₂.stage.grows.size_le_max hindices hk₂
    rw [isReference, if_pos hcovers] at hb
    exact ⟨b, refersTo_of_grows (hadds₄.grows.weaken (fun _ _ => trivial) fun _ hk => ⟨hk, hk⟩)
      (refersTo_of_grows hgrows₃ hb)⟩
  · intro hsort
    rw [reattribute, hsort] at h₄
    exact exists_refersTo_of_reviseEnclosings hstage₃ hne h₄ hf₄

/-- What a member renaming that does not fail looks up resolves in a tidy class file already. -/
theorem answered_of_apply {changed : Bool} (hc : c.WellFormed) (htidy : c.Tidy)
    (hne : r.Known c.pool → r.name ≠ r.newName)
    (h : (Renaming.ofMember r).apply c = (.ok changed, after)) : Answered r c := by
  have hmax := hc.pool.size_le
  have hstage := (revises_of_apply_of_known hc hne h).stage
  obtain ⟨hreferences, henclosings⟩ := exists_refersTo_of_apply hc hne h
  constructor
  · intro i kind owner nameType hk hcovers
    have hlt (j : UInt16) (hj : j ∈ [owner, nameType]) : j.toNat < c.pool.size :=
      htidy.lt_size_of_mem_children hmax hk (by simpa [Constant.children] using hj)
    exact exists_refersTo_of_extends htidy hstage (hlt _ (by simp)) (hlt _ (by simp))
      (hreferences hk hcovers)
  · intro hsort a ha owner method hb hz
    obtain ⟨howner, hmethod⟩ := lt_size_of_enclosing htidy ha hb
    exact exists_refersTo_of_extends htidy hstage howner hmethod (henclosings hsort a ha owner method hb hz)

/-! ### Renamings that add nothing -/

/-- Texts that resolve can be compared with those of the member. -/
lemma exists_namesMember {name descriptor : UInt16} (hn : ∃ text, pool.text name = .ok text)
    (hd : ∃ text, pool.text descriptor = .ok text) : ∃ b, r.namesMember pool name descriptor = .ok b := by
  obtain ⟨text, hn⟩ := hn
  obtain ⟨text', hd⟩ := hd
  simp only [namesMember, Except.bind_eq_ok_iff]
  by_cases he : text = r.name
  · refine ⟨decide (text' = r.descriptor), text, hn, ?_⟩
    rw [if_neg (not_not.mpr he)]
    exact Except.bind_eq_ok_iff.mpr ⟨text', hd, rfl⟩
  · exact ⟨false, text, hn, by rw [if_pos he]; rfl⟩

/-- Declarations are renamed without a fault if the pool holds the new name. -/
lemma declare_eval {name : String} {sort : MemberSort} {ms : List Member} (hs : s.fault = none)
    (htexts : ∀ m ∈ ms, (∃ text, s.pool.text m.name = .ok text) ∧
      ∃ text, s.pool.text m.descriptor = .ok text)
    (hheld : name = r.owner ∧ sort = r.sort → ∀ m ∈ ms,
      r.namesMember s.pool m.name m.descriptor = .ok true → s.pool.Holds r.newName) :
    ∃ ms' changed, r.declare name sort ms s = (ms', { s with changed }) := by
  unfold declare
  split
  · rename_i hmine
    have hsteps : ∀ m ∈ ms, r.newDeclarationText m s.pool = .ok none ∨
        ∃ text, r.newDeclarationText m s.pool = .ok (some text) ∧ s.pool.Holds text := by
      intro m hm
      obtain ⟨b, hb⟩ := exists_namesMember (r := r) (htexts m hm).1 (htexts m hm).2
      cases b with
      | false => exact .inl (newDeclarationText_eq_none_iff.mpr hb)
      | true =>
        exact .inr ⟨r.newName, newDeclarationText_eq_some_iff.mpr ⟨hb, rfl⟩, hheld hmine m hm hb⟩
    rw [reviseDeclarations_eq]
    obtain ⟨ms', changed, hrun, -⟩ :=
      @Revise.replaceTexts_eval _ _ _ (fun m name => { m with name }) _ hs hsteps
    exact ⟨ms', changed, hrun⟩
  · exact ⟨ms, s.changed, rfl⟩

/-- References are redirected without a fault if the pool holds what they need. -/
lemma reviseReferences_eval (hs : s.fault = none) (hmax : s.pool.size ≤ Pool.maxSize)
    (hasked : ∀ {i k}, s.pool.get? i = some k → ∃ b, r.isReference s.pool k = .ok b)
    (hheld : ∀ {i}, r.RefersToMember s.pool (s.pool.get? i) →
      s.pool.HoldsMember r.newName r.descriptor) :
    ∃ s', r.reviseReferences s = ((), s') ∧ s'.fault = none ∧
      Pool.Grows (fun k => ¬ k.IsMemberRef) (fun _ => False) s.pool s'.pool := by
  have hfound : ∀ p ∈ s.pool.constants, ∃ slot, (do
      return if ← r.isReference s.pool p.2 then some p.1 else none : Except FormatError _) = .ok slot := by
    intro p hp
    obtain ⟨b, hb⟩ := hasked ((Pool.mem_constants_iff hmax).mp hp)
    exact ⟨_, Except.bind_eq_ok_iff.mpr ⟨b, hb, rfl⟩⟩
  obtain ⟨found, hfound⟩ := Except.exists_mapM_eq_ok hfound
  have hindices : r.references s.pool = .ok (found.filterMap id) :=
    Except.bind_eq_ok_iff.mpr ⟨found, hfound, rfl⟩
  cases hlist : found.filterMap id with
  | nil =>
    refine ⟨s, ?_, hs, .refl hmax⟩
    simp only [reviseReferences, Revise.edit, hs, hindices, hlist]
    rw [← hs]
  | cons i indices =>
    rw [hlist] at hindices
    have hfirst := (mem_references_iff hmax hindices).mp List.mem_cons_self
    obtain ⟨nameType, hnameType⟩ := (hheld hfirst).internNameAndType
    have hg := grows_foldl_repointMember nameType (i :: indices) hmax
    refine ⟨⟨(i :: indices).foldl (repointMember nameType) s.pool, true, none⟩, ?_, rfl, hg⟩
    simp only [reviseReferences, Revise.edit, hs, hindices, hnameType]

/-- An enclosing method is renamed without a fault if the pool holds what it needs. -/
lemma reviseEnclosing_eval {a : Attribute} (hs : s.fault = none)
    (hasked : ∀ owner method, a.body = .flat (.enclosingMethod owner method) → method ≠ 0 →
      ∃ b, r.refersTo s.pool owner method = .ok b)
    (hheld : r.Encloses s.pool a → s.pool.HoldsMember r.newName r.descriptor) :
    ∃ a' changed, r.reviseEnclosing a s = (a', { s with changed }) := by
  obtain ⟨pool, changed, _⟩ := s
  obtain rfl : _ = none := hs
  by_cases hb : ∃ owner method, a.body = .flat (.enclosingMethod owner method)
  · obtain ⟨name, body⟩ := a
    obtain ⟨owner, method, rfl⟩ := hb
    by_cases hz : method = 0
    · exact ⟨⟨name, .flat (.enclosingMethod owner method)⟩, changed, by
        simp [reviseEnclosing, Revise.edit, hz]⟩
    obtain ⟨b, hr⟩ := hasked owner method rfl hz
    cases b with
    | false =>
      exact ⟨⟨name, .flat (.enclosingMethod owner method)⟩, changed, by
        simp [reviseEnclosing, Revise.edit, hz, hr]⟩
    | true =>
      obtain ⟨method', hm⟩ := (hheld ⟨owner, method, rfl, hz, hr⟩).internNameAndType
      exact ⟨⟨name, .flat (.enclosingMethod owner method')⟩, true, by
        simp [reviseEnclosing, Revise.edit, hz, hr, hm]⟩
  · refine ⟨a, changed, ?_⟩
    rw [reviseEnclosing_of_ne fun owner method he => hb ⟨owner, method, he⟩]
    rfl

lemma reviseEnclosings_eval {attributes : List Attribute} (hs : s.fault = none)
    (hasked : ∀ a ∈ attributes, ∀ owner method, a.body = .flat (.enclosingMethod owner method) →
      method ≠ 0 → ∃ b, r.refersTo s.pool owner method = .ok b)
    (hheld : ∀ a ∈ attributes, r.Encloses s.pool a →
      s.pool.HoldsMember r.newName r.descriptor) :
    ∃ attributes' changed, attributes.mapM r.reviseEnclosing s = (attributes', { s with changed }) := by
  induction attributes generalizing s with
  | nil => exact ⟨[], s.changed, Revise.mapM_nil_run _ s⟩
  | cons a attributes ih =>
    rw [List.forall_mem_cons] at hasked hheld
    obtain ⟨a', changed, hstep⟩ := reviseEnclosing_eval hs hasked.1 hheld.1
    obtain ⟨attributes', changed', hrest⟩ := @ih { s with changed } hs hasked.2 hheld.2
    exact ⟨a' :: attributes', changed', by rw [Revise.mapM_cons_run, hstep, hrest]⟩

/-- **A member renaming does not fail** if what it looks up resolves and the pool holds what it needs.
-/
theorem exists_apply (hc : c.WellFormed) (ha : Answered r c)
    (hname : r.Occurs c → c.pool.Holds r.newName)
    (hmember : (∃ i ref, c.pool.member i = .ok ref ∧ r.IsReference ref) ∨
      (∃ a ∈ c.attributes, r.IsEnclosing c a) → c.pool.HoldsMember r.newName r.descriptor) :
    ∃ changed after, (Renaming.ofMember r).apply c = (.ok changed, after) := by
  have hmax := hc.pool.size_le
  obtain ⟨name, hthis⟩ := hc.name
  have hdeclared {sort : MemberSort} {m : Member} (hmine : name = r.owner ∧ sort = r.sort)
      (hn : r.namesMember c.pool m.name m.descriptor = .ok true) : r.IsDeclaration c sort m :=
    ⟨hmine.2, by rw [hthis, hmine.1], namesMember_eq_true_iff.mp hn⟩
  have htexts {ms : List Member} (hms : ∀ m ∈ ms, ∃ depth, m.Fits c.pool depth) :
      ∀ m ∈ ms, (∃ text, c.pool.text m.name = .ok text) ∧
        ∃ text, c.pool.text m.descriptor = .ok text := fun m hm => by
    obtain ⟨depth, hd⟩ := hms m hm
    exact ⟨hd.name, hd.descriptor⟩
  have hasked {i : UInt16} {k : Constant} (hk : c.pool.get? i = some k) :
      ∃ b, r.isReference c.pool k = .ok b := by
    cases k with
    | memberRef kind owner nameType =>
      rw [isReference]
      split
      · exact ha.references hk (by assumption)
      · exact ⟨false, rfl⟩
    | _ => exact ⟨false, rfl⟩
  obtain ⟨fields, changed₁, h₁⟩ := @declare_eval r ⟨c.pool, false, none⟩ name .field c.fields rfl
    (htexts hc.fields) fun hmine m hm hn => hname (.inl ⟨m, hm, hdeclared hmine hn⟩)
  obtain ⟨methods, changed₂, h₂⟩ := @declare_eval r ⟨c.pool, changed₁, none⟩ name .method c.methods
    rfl (htexts hc.methods) fun hmine m hm hn => hname (.inr (.inl ⟨m, hm, hdeclared hmine hn⟩))
  obtain ⟨s₃, h₃, hf₃, hg⟩ := @reviseReferences_eval r ⟨c.pool, changed₂, none⟩ rfl hmax hasked
    fun hr => hmember (.inl ⟨_, refersToMember_iff.mp hr⟩)
  -- redirected references change no answer to the questions that are left
  have hrest : ∃ attributes s₄, r.reattribute c.attributes s₃ = (attributes, s₄) ∧
      s₄.fault = none := by
    unfold reattribute
    cases hsort : r.sort with
    | field => exact ⟨c.attributes, s₃, rfl, hf₃⟩
    | method =>
      have hanswer := ha.enclosings hsort
      obtain ⟨attributes, changed, hrun⟩ := @reviseEnclosings_eval r s₃ c.attributes hf₃
        (fun a hm owner method hb hz =>
          (hanswer a hm owner method hb hz).imp fun _ => refersTo_of_grows hg)
        fun a hm hencloses => by
          obtain ⟨owner, method, hb, hz, hr⟩ := hencloses
          obtain ⟨b, hr'⟩ := hanswer a hm owner method hb hz
          obtain rfl := Except.ok.inj ((refersTo_of_grows hg hr').symm.trans hr)
          obtain ⟨ho, hn⟩ := refersTo_eq_true_iff.mp hr'
          exact (hmember (.inr ⟨a, hm, hsort, owner, method, hb, hz, ho, hn⟩)).grow hg
            (fun _ => id) fun _ _ => id
      exact ⟨attributes, _, hrun, hf₃⟩
  obtain ⟨attributes, s₄, h₄, hf₄⟩ := hrest
  refine ⟨s₄.changed, { c with pool := s₄.pool, fields, methods, attributes }, ?_⟩
  simp only [Renaming.apply, Renaming.revise]
  rw [revise_run c ⟨c.pool, false, none⟩ rfl hthis]
  simp only [h₁, h₂, h₃, h₄, hf₄]

/-! ### After trimming -/

/-- The new name of a place that was renamed stays behind the old pool. -/
lemma Renamed.lt_size (h : Renamed r c trimmed) (ho : r.Occurs c) (hf : r.Fresh c) :
    c.pool.size < trimmed.pool.size := by
  have hnew : ∃ n, trimmed.pool.text n = .ok r.newName := by
    have hdeclared {sort : MemberSort} {ms ms' : List Member}
        (hr : List.Forall₂ (r.DeclarationRenamed c trimmed.pool sort) ms ms')
        (hd : ∃ m ∈ ms, r.IsDeclaration c sort m) : ∃ n, trimmed.pool.text n = .ok r.newName := by
      obtain ⟨m, hm, hd⟩ := hd
      obtain ⟨m', -, ⟨-, n, hn, -⟩ | ⟨hnot, -⟩⟩ := Except.exists_of_forall₂ hr hm
      · exact ⟨n, hn⟩
      · exact absurd hd hnot
    have hnamed {i : UInt16} {descriptor : String}
        (hn : trimmed.pool.nameAndType i = .ok (r.newName, descriptor)) :
        ∃ n, trimmed.pool.text n = .ok r.newName := by
      obtain ⟨n, _, -, hn, -⟩ := Pool.nameAndType_eq_ok_iff.mp hn
      exact ⟨n, hn⟩
    rcases ho with hd | hd | ⟨i, ref, href, hr⟩ | ⟨a, ha, he⟩
    · exact hdeclared h.fields hd
    · exact hdeclared h.methods hd
    · have href := h.references i ref href
      rw [renameRef, if_pos hr] at href
      obtain ⟨_, _, -, -, hn⟩ := Pool.member_eq_ok_iff.mp href
      exact hnamed hn
    · obtain ⟨a', -, ⟨-, _, _, -, -, hn⟩ | ⟨hnot, -⟩⟩ := Except.exists_of_forall₂ h.attributes ha
      · exact hnamed hn
      · exact absurd he hnot
  obtain ⟨n, hn⟩ := hnew
  by_contra hle
  have hlt := Pool.lt_size_of_get? (Pool.text_eq_ok_iff.mp hn)
  rcases h.kept n (by omega) hlt with hsame | ⟨_, _, _, _, -, -, -, hk⟩
  · exact hf n (Pool.text_eq_ok_iff.mpr (hsame ▸ Pool.text_eq_ok_iff.mp hn))
  · cases hk.symm.trans (Pool.text_eq_ok_iff.mp hn)

/-- The name of a member of a tidy class file is within the pool. -/
lemma lt_size_of_name (htidy : c.Tidy) {m : Member} (hm : m ∈ c.fields ∨ m ∈ c.methods) :
    m.name.toNat < c.pool.size :=
  htidy.within (.inl (ClassFile.name_mem_uses hm))

namespace Revises

variable {changed : Bool}

/-- **Trimming keeps what a member renaming made** of a class file, if no slot of before is dropped. -/
theorem of_trimmed (h : Revises r c changed after) (ht : after.Trimmed trimmed) (hc : c.WellFormed)
    (hle : c.pool.size ≤ trimmed.pool.size) : Revises r c changed trimmed := by
  have hmax := (h.wellFormed hc).pool.size_le
  have hmax' := ht.size_le.trans hmax
  have hr := h.renamed ht hc
  have hchild {i j : UInt16} {k : Constant} (hk : trimmed.pool.get? i = some k)
      (hj : j ∈ k.children) : .index j ∈ trimmed.uses ∨ j ∈ trimmed.pool.childIndices :=
    .inr ((Pool.mem_childIndices hmax').mpr ⟨i, k, hk, hj⟩)
  refine ⟨⟨⟨hle, hmax', fun hi k hk => ?_, fun {i} hi hi' => ?_⟩, fun hlt => ?_, fun hi hk => ?_⟩,
    fun i hi => ?_, hr.rest, hr.fields, hr.methods, h.attributes_of_trimmed ht hc, h.changed_iff⟩
  · rw [ht.get?_eq (hi.trans_le hle)]
    exact h.stage.grows.get?_iff hi hk
  · obtain ⟨k, hk, ha, hf⟩ := h.stage.grows.added hi (hi'.trans_le ht.size_le)
    obtain ⟨hg, hlt⟩ := (Pool.find?_eq_some_iff hmax).mp hf
    rw [← ht.get?_eq hi'] at hg
    refine ⟨k, hk, ?_, (Pool.find?_eq_some_iff hmax').mpr ⟨hg, fun j hj => ?_⟩⟩
    · rcases ha with ha | ⟨n, d, rfl, hn⟩
      · exact .inl ha
      · refine .inr ⟨n, d, rfl, ?_⟩
        rw [ht.text_eq (hchild hg (by simp [Constant.children])), hn]
    · rw [ht.get?_eq ((UInt16.lt_iff_toNat_lt.mp hj).trans hi')]
      exact hlt j hj
  · exact h.stage.known (hlt.trans_le ht.size_le)
  · refine h.stage.ordered hi ?_
    rw [← ht.get?_eq (Pool.lt_size_of_get? hk), hk]
  · have hredirect := h.redirects i hi
    rw [← ht.get?_eq (hi.trans_le hle)] at hredirect
    refine hredirect.imp_left ?_
    rintro ⟨kind, owner, nameType, nameType', hk, hcovers, hrefers, hk', hn⟩
    refine ⟨kind, owner, nameType, nameType', hk, hcovers, hrefers, hk', ?_⟩
    rw [ht.nameAndType_eq hmax (hchild hk' (by simp [Constant.children])), hn]

/-! ### The places back -/

lemma name (h : Revises r c changed after) {name : String} (hn : c.name = .ok name) :
    after.name = .ok name := by
  rw [ClassFile.name, show after.thisClass = c.thisClass by rw [h.rest]]
  exact h.stage.grows.className (fun _ => id) (fun _ => id) hn

/-- The renaming back finds the declaration that was renamed, and no other one. -/
lemma isDeclaration_inverse_iff (h : Revises r c changed after) (hf : r.Fresh c) {sort : MemberSort}
    {m m' : Member} (hm : m.name.toNat < c.pool.size)
    (hr : r.DeclarationRenamed c after.pool sort m m') :
    r.inverse.IsDeclaration after sort m' ↔ r.IsDeclaration c sort m := by
  rcases hr with ⟨hd, name, hn, rfl⟩ | ⟨hnot, rfl⟩
  · obtain ⟨hsort, howner, -, hdescriptor⟩ := id hd
    exact iff_of_true ⟨hsort, h.name howner, hn, h.stage.text hdescriptor⟩ hd
  · refine iff_of_false ?_ hnot
    rintro ⟨-, -, hn, -⟩
    exact hf _ ((h.stage.grows.text_iff (fun _ => id) hm).mp hn)

/-- The renaming back finds the enclosing methods that were renamed, and no others. -/
lemma isEnclosing_inverse_iff (h : Revises r c changed after) (hc : c.WellFormed) (htidy : c.Tidy)
    (hf : r.Fresh c) {a a' : Attribute} (ha : a ∈ c.attributes)
    (hr : r.AttributeRevised c after.pool a a') :
    r.inverse.IsEnclosing after a' ↔ r.IsEnclosing c a := by
  rcases hr with ⟨he, owner, method, method', hb, rfl, hn⟩ | ⟨hnot, rfl⟩
  · refine iff_of_true ?_ he
    obtain ⟨hsort, _, _, hb', hz, ho, -⟩ := he
    obtain ⟨rfl, rfl⟩ := FlatBody.enclosingMethod.inj (AttributeBody.flat.inj (hb.symm.trans hb'))
    refine ⟨hsort, owner, method', rfl, ?_, h.stage.grows.className (fun _ => id) (fun _ => id) ho, hn⟩
    rintro rfl
    obtain ⟨_, _, hk, -⟩ := Pool.nameAndType_eq_ok_iff.mp hn
    cases (h.wellFormed_pool hc).get?_zero.symm.trans hk
  · refine iff_of_false ?_ hnot
    rintro ⟨-, owner, method, hb, -, -, hn⟩
    have hlt : method.toNat < c.pool.size := (lt_size_of_enclosing htidy ha hb).2
    obtain ⟨n, _, -, hn, -⟩ := Pool.nameAndType_eq_ok_iff.mp
      ((htidy.nameAndType_iff h.stage.grows (fun _ => id) (fun _ _ => id) hlt).mp hn)
    exact hf n hn

/-- **The renaming back finds the member** if the renaming did. -/
lemma occurs_inverse (h : Revises r c changed after) (hc : c.WellFormed) (htidy : c.Tidy)
    (hf : r.Fresh c) (ho : r.Occurs c) : r.inverse.Occurs after := by
  have hdeclared {sort : MemberSort} {ms ms' : List Member}
      (hr : List.Forall₂ (r.DeclarationRenamed c after.pool sort) ms ms')
      (hms : ∀ m ∈ ms, m.name.toNat < c.pool.size) (hd : ∃ m ∈ ms, r.IsDeclaration c sort m) :
      ∃ m' ∈ ms', r.inverse.IsDeclaration after sort m' := by
    obtain ⟨m, hm, hd⟩ := hd
    obtain ⟨m', hm', hr⟩ := Except.exists_of_forall₂ hr hm
    exact ⟨m', hm', (h.isDeclaration_inverse_iff hf (hms m hm) hr).mpr hd⟩
  rcases ho with hd | hd | ⟨i, ref, href, hr⟩ | ⟨a, ha, he⟩
  · exact .inl (hdeclared h.fields (fun m hm => lt_size_of_name htidy (.inl hm)) hd)
  · exact .inr (.inl (hdeclared h.methods (fun m hm => lt_size_of_name htidy (.inr hm)) hd))
  · have href' := h.member href
    rw [renameRef, if_pos hr] at href'
    obtain ⟨hcovers, howner, -, hdescriptor⟩ := hr
    exact .inr (.inr (.inl ⟨i, _, href', hcovers, howner, rfl, hdescriptor⟩))
  · obtain ⟨a', ha', hr⟩ := Except.exists_of_forall₂ h.attributes ha
    exact .inr (.inr (.inr ⟨a', ha', (h.isEnclosing_inverse_iff hc htidy hf ha hr).mpr he⟩))

variable {back : ClassFile} {changed' : Bool}

/-- **The renaming back restores the slots** of the class file. -/
lemma get?_inverse (h : Revises r c changed after) (htidy : c.Tidy) (hf : r.Fresh c)
    (h' : Revises r.inverse after changed' back) (hd : back.pool.Distinct Constant.IsLoose)
    (hi : i.toNat < c.pool.size) : back.pool.get? i = c.pool.get? i := by
  have hmax := h.stage.grows.size_le_max_left
  rcases h.redirects i hi with ⟨kind, owner, nt, nt', hk, hcovers, hrefers, hk', hn⟩ | ⟨-, hk'⟩
  · obtain ⟨ho, hold⟩ := refersTo_eq_true_iff.mp hrefers
    rcases h'.redirects i (hi.trans_le h.stage.grows.size_le) with
      ⟨kind', owner', _, nt'', hk₁, -, -, hk'', hn''⟩ | ⟨hnot, -⟩
    · rw [hk'] at hk₁
      obtain ⟨rfl, rfl, -⟩ := Constant.memberRef.inj (Option.some.inj hk₁)
      -- the name-and-type constant of before is still there, and it is the only one
      have hold' : back.pool.nameAndType nt = .ok (r.name, r.descriptor) :=
        h'.stage.grows.nameAndType (fun _ => id) (fun _ _ => id)
          (h.stage.grows.nameAndType (fun _ => id) (fun _ _ => id) hold)
      rw [hk'', hk, hd.nameAndType_inj hn'' hold']
    · refine absurd ⟨kind, owner, nt', hk', hcovers, refersTo_eq_true_iff.mpr ⟨?_, hn⟩⟩ hnot
      exact h.stage.grows.className (fun _ => id) (fun _ => id) ho
  · rcases h'.redirects i (hi.trans_le h.stage.grows.size_le) with
      ⟨kind, owner, nt, _, hk, -, hrefers, -, -⟩ | ⟨-, hk''⟩
    · -- nothing had the new name before
      have hlt : nt.toNat < c.pool.size :=
        htidy.lt_size_of_mem_children hmax (hk'.symm.trans hk) (by simp [Constant.children])
      obtain ⟨n, _, -, hn, -⟩ := Pool.nameAndType_eq_ok_iff.mp
        ((htidy.nameAndType_iff h.stage.grows (fun _ => id) (fun _ _ => id) hlt).mp
          (refersTo_eq_true_iff.mp hrefers).2)
      exact absurd hn (hf n)
    · rw [hk'', hk']

/-- **The renaming back restores the declarations.** -/
lemma declarations_inverse (h : Revises r c changed after) (hf : r.Fresh c)
    (h' : Revises r.inverse after changed' back) (hd : back.pool.Distinct Constant.IsLoose)
    {sort : MemberSort} {ms ms' ms'' : List Member}
    (hr : List.Forall₂ (r.DeclarationRenamed c after.pool sort) ms ms')
    (hr' : List.Forall₂ (r.inverse.DeclarationRenamed after back.pool sort) ms' ms'')
    (hms : ∀ m ∈ ms, m.name.toNat < c.pool.size) : ms'' = ms := by
  refine Except.eq_of_forall₂ hr hr' fun m hm m' m'' hr hr' => ?_
  have hiff := h.isDeclaration_inverse_iff hf (hms m hm) hr
  rcases hr with ⟨hm, name, -, rfl⟩ | ⟨hnot, rfl⟩
  · rcases hr' with ⟨-, name', hn', rfl⟩ | ⟨hnot, -⟩
    · have hold : back.pool.text m.name = .ok r.name := h'.stage.text (h.stage.text hm.2.2.1)
      rw [hd.text_inj hn' hold]
    · exact absurd (hiff.mpr hm) hnot
  · rcases hr' with ⟨hm, -⟩ | ⟨-, rfl⟩
    · exact absurd (hiff.mp hm) hnot
    · rfl

/-- **The renaming back restores the attributes.** -/
lemma attributes_inverse (h : Revises r c changed after) (hc : c.WellFormed) (htidy : c.Tidy)
    (hf : r.Fresh c) (h' : Revises r.inverse after changed' back)
    (hd : back.pool.Distinct Constant.IsLoose) : back.attributes = c.attributes := by
  refine Except.eq_of_forall₂ h.attributes h'.attributes fun a ha a' a'' hr hr' => ?_
  have hiff := h.isEnclosing_inverse_iff hc htidy hf ha hr
  rcases hr with ⟨he, owner, method, method', hb, rfl, -⟩ | ⟨hnot, rfl⟩
  · rcases hr' with ⟨-, owner', _, method'', hb', rfl, hn⟩ | ⟨hnot, -⟩
    · obtain ⟨rfl, -⟩ := FlatBody.enclosingMethod.inj (AttributeBody.flat.inj hb')
      obtain ⟨-, _, _, hb₀, -, -, hold⟩ := he
      obtain ⟨rfl, rfl⟩ := FlatBody.enclosingMethod.inj (AttributeBody.flat.inj (hb.symm.trans hb₀))
      have hold' : back.pool.nameAndType method = .ok (r.name, r.descriptor) :=
        h'.stage.grows.nameAndType (fun _ => id) (fun _ _ => id)
          (h.stage.grows.nameAndType (fun _ => id) (fun _ _ => id) hold)
      obtain ⟨name, body⟩ := a
      obtain rfl : body = _ := hb
      rw [hd.nameAndType_inj hn hold']
    · exact absurd (hiff.mpr he) hnot
  · rcases hr' with ⟨he, -⟩ | ⟨-, rfl⟩
    · exact absurd (hiff.mp he) hnot
    · rfl

/-- What a member renaming adds is no reference to a member. -/
lemma not_isMemberRef_of_isLoose {k : Constant} (hk : k.IsLoose) : ¬ k.IsMemberRef := by
  cases k <;> first | exact id | exact hk.elim

/-- What the two renamings add refers to constants before it. -/
lemma added_inverse (h : Revises r c changed after) (h' : Revises r.inverse after changed' back)
    (hi : c.pool.size ≤ i.toNat) (hi' : i.toNat < back.pool.size) :
    ∃ k, back.pool.get? i = some k ∧ k.IsLoose ∧ ∀ j ∈ k.children, j < i := by
  have hloose {k : Constant} (hk : back.pool.get? i = some k) (hl : k.IsLoose)
      (ho : ∀ {n d}, back.pool.get? i = some (.nameAndType n d) → n < i ∧ d < i) :
      ∃ k, back.pool.get? i = some k ∧ k.IsLoose ∧ ∀ j ∈ k.children, j < i := by
    refine ⟨k, hk, hl, fun j hj => ?_⟩
    cases k with
    | nameAndType n d =>
      obtain ⟨hn, hd⟩ := ho hk
      rcases (by simpa [Constant.children] using hj : j = n ∨ j = d) with rfl | rfl
      · exact hn
      · exact hd
    | text value => simp [Constant.children] at hj
    | _ => exact hl.elim
  by_cases hm : i.toNat < after.pool.size
  · obtain ⟨k, hk, hl, -⟩ := h.added hi hm
    have hk' := (h'.stage.grows.get?_iff hm (not_isMemberRef_of_isLoose hl)).mpr hk
    refine hloose hk' hl fun hn => h.stage.ordered hi ?_
    exact (h'.stage.grows.get?_iff hm id).mp hn
  · obtain ⟨k, hk, hl, -⟩ := h'.added (not_lt.mp hm) hi'
    exact hloose hk hl (h'.stage.ordered (not_lt.mp hm))

/-- **The renaming back restores the class file**, up to constants behind its pool that nothing refers
to, and renames something if the renaming did. -/
theorem inverse (h : Revises r c changed after) (hc : c.WellFormed) (htidy : c.Tidy)
    (hf : r.Fresh c) (h' : Revises r.inverse after changed' back) :
    back = { c with pool := back.pool } ∧ Pool.Appends c.pool back.pool ∧
      (changed = true → changed' = true) := by
  have hd : back.pool.Distinct Constant.IsLoose :=
    h'.stage.grows.distinct (h.stage.grows.distinct htidy.distinct fun _ => not_isMemberRef_of_isLoose)
      fun _ => not_isMemberRef_of_isLoose
  have hfields := h.declarations_inverse hf h' hd h.fields h'.fields
    fun m hm => lt_size_of_name htidy (.inl hm)
  have hmethods := h.declarations_inverse hf h' hd h.methods h'.methods
    fun m hm => lt_size_of_name htidy (.inr hm)
  refine ⟨?_, ⟨h.stage.grows.size_le.trans h'.stage.grows.size_le,
    fun hi => h.get?_inverse htidy hf h' hd hi, fun hi hi' => h.added_inverse h' hi hi'⟩,
    fun hchanged => ?_⟩
  · rw [h'.rest, h.rest, hfields, hmethods, h.attributes_inverse hc htidy hf h' hd]
  · exact h'.changed_iff.mpr (h.occurs_inverse hc htidy hf (h.changed_iff.mp hchanged))

/-- What the renaming back looks up resolves. -/
lemma answered_inverse (h : Revises r c changed after) (ha : Answered r c) :
    Answered r.inverse after := by
  have hasked {owner nameType : UInt16} (hb : ∃ b, r.refersTo c.pool owner nameType = .ok b) :
      ∃ b, r.inverse.refersTo after.pool owner nameType = .ok b := by
    obtain ⟨name, hname, hpair⟩ := exists_refersTo_iff.mp hb
    refine exists_refersTo_iff.mpr ⟨name, ?_, fun he => ?_⟩
    · exact h.stage.grows.className (fun _ => id) (fun _ => id) hname
    · obtain ⟨name', descriptor, hn⟩ := hpair he
      exact ⟨name', descriptor, h.stage.grows.nameAndType (fun _ => id) (fun _ _ => id) hn⟩
  have hrenamed {owner nameType : UInt16} (ho : c.pool.className owner = .ok r.owner)
      (hn : after.pool.nameAndType nameType = .ok (r.newName, r.descriptor)) :
      ∃ b, r.inverse.refersTo after.pool owner nameType = .ok b :=
    exists_refersTo_iff.mpr ⟨r.owner, h.stage.grows.className (fun _ => id) (fun _ => id) ho,
      fun _ => ⟨_, _, hn⟩⟩
  constructor
  · intro i kind owner nameType hk hcovers
    by_cases hi : i.toNat < c.pool.size
    · rcases h.redirects i hi with ⟨_, _, _, _, -, -, hrefers, hk', hn⟩ | ⟨-, hk'⟩
      · obtain ⟨rfl, rfl, rfl⟩ := Constant.memberRef.inj (Option.some.inj (hk.symm.trans hk'))
        exact hrenamed (refersTo_eq_true_iff.mp hrefers).1 hn
      · exact hasked (ha.references (hk'.symm.trans hk) hcovers)
    · obtain ⟨k, hk', hl, -⟩ := h.added (not_lt.mp hi) (Pool.lt_size_of_get? hk)
      obtain rfl := Option.some.inj (hk'.symm.trans hk)
      exact hl.elim
  · intro hsort a' ha' owner method hb hz
    obtain ⟨a, hm, hr⟩ := Except.exists_of_forall₂ h.attributes.flip ha'
    rcases hr with ⟨⟨-, _, _, hb', -, ho, -⟩, _, _, method', hb₀, rfl, hn⟩ | ⟨-, rfl⟩
    · obtain ⟨rfl, rfl⟩ := FlatBody.enclosingMethod.inj (AttributeBody.flat.inj hb)
      obtain ⟨rfl, -⟩ := FlatBody.enclosingMethod.inj (AttributeBody.flat.inj (hb₀.symm.trans hb'))
      exact hrenamed ho hn
    · exact hasked (ha.enclosings hsort _ hm owner method hb hz)

/-- The old name-and-type constant of a place that the renaming back finds is still there. -/
lemma exists_nameAndType (h : Revises r c changed after) (hc : c.WellFormed) (htidy : c.Tidy)
    (hf : r.Fresh c) (ho : (∃ i ref, after.pool.member i = .ok ref ∧ r.inverse.IsReference ref) ∨
      ∃ a ∈ after.attributes, r.inverse.IsEnclosing after a) :
    ∃ j, after.pool.nameAndType j = .ok (r.name, r.descriptor) := by
  have hmax := h.stage.grows.size_le_max_left
  have hkept {j : UInt16} (hj : c.pool.nameAndType j = .ok (r.name, r.descriptor)) :
      ∃ j, after.pool.nameAndType j = .ok (r.name, r.descriptor) :=
    ⟨j, h.stage.grows.nameAndType (fun _ => id) (fun _ _ => id) hj⟩
  rcases ho with ⟨i, ref, href, hr⟩ | ⟨a', ha', he⟩
  · obtain ⟨owner, nt, hk, howner, hn⟩ := Pool.member_eq_ok_iff.mp href
    by_cases hi : i.toNat < c.pool.size
    · rcases h.redirects i hi with ⟨_, _, _, _, -, -, hrefers, -, -⟩ | ⟨-, hk'⟩
      · exact hkept (refersTo_eq_true_iff.mp hrefers).2
      · have hlt : nt.toNat < c.pool.size :=
          htidy.lt_size_of_mem_children hmax (hk'.symm.trans hk) (by simp [Constant.children])
        obtain ⟨n, _, -, hn, -⟩ := Pool.nameAndType_eq_ok_iff.mp
          ((htidy.nameAndType_iff h.stage.grows (fun _ => id) (fun _ _ => id) hlt).mp hn)
        have hname : ref.name = r.newName := hr.2.2.1
        exact absurd (hname ▸ hn) (hf n)
    · obtain ⟨k, hk', hl, -⟩ := h.added (not_lt.mp hi) (Pool.lt_size_of_get? hk)
      obtain rfl := Option.some.inj (hk'.symm.trans hk)
      exact hl.elim
  · obtain ⟨a, ha, hr⟩ := Except.exists_of_forall₂ h.attributes.flip ha'
    obtain ⟨-, _, _, -, -, -, hn⟩ := (h.isEnclosing_inverse_iff hc htidy hf ha hr).mp he
    exact hkept hn

/-- **The renaming back does not fail.** -/
theorem exists_apply_inverse (h : Revises r c changed after) (hc : c.WellFormed) (htidy : c.Tidy)
    (hf : r.Fresh c) (ha : Answered r c) (hk : r.Known c.pool) :
    ∃ changed back, (Renaming.ofMember r.inverse).apply after = (.ok changed, back) := by
  have hd : after.pool.Distinct Constant.IsLoose :=
    h.stage.grows.distinct htidy.distinct fun k hk => by
      cases k <;> first | exact id | exact hk.elim
  have hw := h.wellFormed_pool hc
  refine exists_apply (h.wellFormed hc) (h.answered_inverse ha) (fun _ => ?_) fun ho => ?_
  · obtain ⟨i, hi⟩ := hk.name
    exact hd.holds hw (h.stage.text hi)
  · obtain ⟨j, hj⟩ := h.exists_nameAndType hc htidy hf ho
    exact hd.holdsMember hw hj

end Revises

/-- The member is known where it occurs. -/
lemma known_of_occurs (ho : r.Occurs c) : r.Known c.pool := by
  have hdeclared {sort : MemberSort} {m : Member} (hd : r.IsDeclaration c sort m) : r.Known c.pool := by
    obtain ⟨-, howner, hn, hd⟩ := hd
    obtain ⟨n, -, ho⟩ := Pool.className_eq_ok_iff.mp howner
    exact ⟨⟨n, ho⟩, ⟨_, hn⟩, ⟨_, hd⟩⟩
  rcases ho with ⟨m, -, hd⟩ | ⟨m, -, hd⟩ | ⟨i, ref, href, hr⟩ | ⟨a, -, -, owner, method, -, -, ho, hn⟩
  · exact hdeclared hd
  · exact hdeclared hd
  · obtain ⟨_, _, _, -, -, hrefers⟩ := refersToMember_iff.mpr ⟨ref, href, hr⟩
    exact known_of_refersTo hrefers
  · exact known_of_refersTo (refersTo_eq_true_iff.mpr ⟨ho, hn⟩)

/-- **A member renaming to a fresh name can be undone**: the renaming back renames something, and it
yields the class file, up to constants behind its pool. -/
theorem exists_apply_inverse_of_trim {n : Nat} (hc : c.WellFormed) (htidy : c.Tidy) (hf : r.Fresh c)
    (happly : (Renaming.ofMember r).apply c = (.ok true, after))
    (htrim : after.trim = .ok (trimmed, n)) :
    trimmed.WellFormed ∧ ∃ back, (Renaming.ofMember r.inverse).apply trimmed = (.ok true, back) ∧
      back = { c with pool := back.pool } ∧ Pool.Appends c.pool back.pool ∧
        back.pool.size ≤ Pool.maxSize := by
  have hne (hk : r.Known c.pool) : r.name ≠ r.newName := by
    obtain ⟨i, hi⟩ := hk.name
    exact fun he => hf i (he ▸ hi)
  have hr := revises_of_apply_of_known hc hne happly
  have ht := ClassFile.trimmed_of_trim (hr.wellFormed hc).pool.size_le htrim
  have ho : r.Occurs c := hr.changed_iff.mp rfl
  have hr := hr.of_trimmed ht hc ((hr.renamed ht hc).lt_size ho hf).le
  have hk := known_of_occurs ho
  obtain ⟨changed, back, hback⟩ :=
    hr.exists_apply_inverse hc htidy hf (answered_of_apply hc htidy hne happly) hk
  have hr' := revises_of_apply_of_known (hr.wellFormed hc) (fun _ => (hne hk).symm) hback
  obtain ⟨heq, happends, hchanged⟩ := hr.inverse hc htidy hf hr'
  obtain rfl := hchanged rfl
  exact ⟨hr.wellFormed hc, back, hback, heq, happends, hr'.stage.grows.size_le_max⟩

end ClassAtlas.MemberRename
