import ClassAtlas.Proofs.Renaming.ClassRevision
import ClassAtlas.Proofs.Renaming.MemberRevision

/-!
# What a member renaming changes

A member renaming changes the declaration of exactly the member, the references to exactly the
member, and the enclosing methods that are exactly the member. Other members that share its name, its
descriptor or its name-and-type constant are left alone.

## Main definitions

* `ClassAtlas.MemberRename.IsDeclaration`, `IsReference`, `IsEnclosing` — the places of the member.
* `ClassAtlas.MemberRename.Occurs` — a class file has such a place.
* `ClassAtlas.MemberRename.Renamed` — a class file, before and after.

## Main results

* `ClassAtlas.MemberRename.occurs_and_renamed_of_reviseBytes` — a member renaming changes the places
  of the member and nothing else.
-/

set_option autoImplicit false

namespace ClassAtlas.MemberRename

variable {r : MemberRename} {c after trimmed : ClassFile} {i : UInt16}

/-! ### The places of a member -/

/-- A member of a class file is the one to be renamed. -/
def IsDeclaration (r : MemberRename) (c : ClassFile) (sort : MemberSort) (m : Member) : Prop :=
  sort = r.sort ∧ c.name = .ok r.owner ∧ c.pool.text m.name = .ok r.name ∧
    c.pool.text m.descriptor = .ok r.descriptor

/-- A resolved reference is one to the member. -/
def IsReference (r : MemberRename) (ref : MemberRef) : Prop :=
  r.sort.covers ref.kind = true ∧ ref.owner = r.owner ∧ ref.name = r.name ∧
    ref.descriptor = r.descriptor

instance (r : MemberRename) (ref : MemberRef) : Decidable (r.IsReference ref) :=
  inferInstanceAs (Decidable (_ ∧ _ ∧ _ ∧ _))

/-- An attribute of a class file names the member as the method around the class. -/
def IsEnclosing (r : MemberRename) (c : ClassFile) (a : Attribute) : Prop :=
  r.sort = .method ∧ ∃ owner method, a.body = .flat (.enclosingMethod owner method) ∧ method ≠ 0 ∧
    c.pool.className owner = .ok r.owner ∧
      c.pool.nameAndType method = .ok (r.name, r.descriptor)

/-- A class file has a place of the member. -/
def Occurs (r : MemberRename) (c : ClassFile) : Prop :=
  (∃ m ∈ c.fields, r.IsDeclaration c .field m) ∨ (∃ m ∈ c.methods, r.IsDeclaration c .method m) ∨
    (∃ i ref, c.pool.member i = .ok ref ∧ r.IsReference ref) ∨
      ∃ a ∈ c.attributes, r.IsEnclosing c a

/-! ### Before and after -/

/-- A reference after the renaming. -/
def renameRef (r : MemberRename) (ref : MemberRef) : MemberRef :=
  if r.IsReference ref then { ref with name := r.newName } else ref

/-- A declaration: the one of the member has the new name, every other one is the same. -/
def DeclarationRenamed (r : MemberRename) (c : ClassFile) (pool : Pool) (sort : MemberSort)
    (m m' : Member) : Prop :=
  (r.IsDeclaration c sort m ∧ ∃ name, pool.text name = .ok r.newName ∧ m' = { m with name }) ∨
    ¬ r.IsDeclaration c sort m ∧ m' = m

/-- An attribute: one that names the member as the method around the class names the new name, every
other one is the same. -/
def AttributeRenamed (r : MemberRename) (c : ClassFile) (pool : Pool) (a a' : Attribute) : Prop :=
  (r.IsEnclosing c a ∧ ∃ owner method, a' = { a with body := .flat (.enclosingMethod owner method) } ∧
    pool.className owner = .ok r.owner ∧ pool.nameAndType method = .ok (r.newName, r.descriptor)) ∨
  ¬ r.IsEnclosing c a ∧ a' = a

/-- **What a member renaming changes in a class file.** -/
structure Renamed (r : MemberRename) (c c' : ClassFile) : Prop where
  /-- The versions, the flags, the superclass and the interfaces are the same. -/
  rest : c' = { c with
    pool := c'.pool, fields := c'.fields, methods := c'.methods, attributes := c'.attributes }
  /-- The declaration among the fields is renamed. -/
  fields : List.Forall₂ (r.DeclarationRenamed c c'.pool .field) c.fields c'.fields
  /-- The declaration among the methods is renamed. -/
  methods : List.Forall₂ (r.DeclarationRenamed c c'.pool .method) c.methods c'.methods
  /-- Attributes of the class that name the member as enclosing method are renamed. -/
  attributes : List.Forall₂ (r.AttributeRenamed c c'.pool) c.attributes c'.attributes
  /-- References that resolve are renamed, and all others still resolve to the same. -/
  references : ∀ i ref, c.pool.member i = .ok ref → c'.pool.member i = .ok (r.renameRef ref)
  /-- The slots that are left hold the same constants, but for references to the member, which keep
  their kind and their owner. -/
  kept : ∀ i : UInt16, i.toNat < c.pool.size → i.toNat < c'.pool.size →
    c'.pool.get? i = c.pool.get? i ∨ ∃ ref owner nameType nameType',
      c.pool.member i = .ok ref ∧ r.IsReference ref ∧
        c.pool.get? i = some (.memberRef ref.kind owner nameType) ∧
          c'.pool.get? i = some (.memberRef ref.kind owner nameType')
  /-- The slots that are gone held texts or name-and-type constants, and nothing refers to them any
  more. -/
  dropped : ∀ i : UInt16, c'.pool.size ≤ i.toNat → i.toNat < c.pool.size →
    (∃ k, c.pool.get? i = some k ∧ k.IsLoose) ∧ c'.Unreferenced i
  /-- The slots that are new hold texts or name-and-type constants. -/
  added : ∀ i : UInt16, c.pool.size ≤ i.toNat → i.toNat < c'.pool.size →
    ∃ k, c'.pool.get? i = some k ∧ k.IsLoose

/-! ### The walk over a class file -/

/-- An attribute after the walk: one that names the member as the method around the class keeps its
owner and names the new name, every other one is the same. -/
def AttributeRevised (r : MemberRename) (c : ClassFile) (pool : Pool) (a a' : Attribute) : Prop :=
  (r.IsEnclosing c a ∧ ∃ owner method method', a.body = .flat (.enclosingMethod owner method) ∧
    a' = { a with body := .flat (.enclosingMethod owner method') } ∧
      pool.nameAndType method' = .ok (r.newName, r.descriptor)) ∨
  ¬ r.IsEnclosing c a ∧ a' = a

/-- What a member renaming without a failure makes of a class file. -/
structure Revises (r : MemberRename) (c : ClassFile) (changed : Bool) (after : ClassFile) :
    Prop where
  /-- The pool is extended. -/
  stage : r.Extends c.pool after.pool
  /-- References are redirected. -/
  redirects : ∀ i : UInt16, i.toNat < c.pool.size →
    r.Redirects c.pool after.pool (c.pool.get? i) (after.pool.get? i)
  /-- Nothing else changes but members and attributes. -/
  rest : after = { c with
    pool := after.pool, fields := after.fields, methods := after.methods,
    attributes := after.attributes }
  /-- Fields are renamed. -/
  fields : List.Forall₂ (r.DeclarationRenamed c after.pool .field) c.fields after.fields
  /-- Methods are renamed. -/
  methods : List.Forall₂ (r.DeclarationRenamed c after.pool .method) c.methods after.methods
  /-- Enclosing methods are renamed. -/
  attributes : List.Forall₂ (r.AttributeRevised c after.pool) c.attributes after.attributes
  /-- Something is replaced if and only if there is a place of the member. -/
  changed_iff : changed = true ↔ r.Occurs c

lemma DeclarationRenamed.mono {sort : MemberSort} {m m' : Member} {pool pool' : Pool}
    (h : r.DeclarationRenamed c pool sort m m')
    (ht : ∀ {i value}, pool.text i = .ok value → pool'.text i = .ok value) :
    r.DeclarationRenamed c pool' sort m m' := by
  refine h.imp_left ?_
  rintro ⟨hm, name, hn, rfl⟩
  exact ⟨hm, name, ht hn, rfl⟩

/-- The declarations of one sort of members. -/
def declare (r : MemberRename) (name : String) (sort : MemberSort) (ms : List Member) :
    Revise (List Member) :=
  if name = r.owner ∧ sort = r.sort then ms.mapM r.reviseDeclaration else return ms

/-- Renaming the declarations of one sort of members. -/
lemma declare_spec {s s' : Revision} {name : String} {sort : MemberSort} {ms ms' : List Member}
    (hname : c.name = .ok name) (h : r.Extends c.pool s.pool)
    (hms : ∀ m ∈ ms, ∃ depth, m.Fits c.pool depth)
    (hrun : r.declare name sort ms s = (ms', s')) (hf : s'.fault = none) :
    Adds r c.pool (∃ m ∈ ms, r.IsDeclaration c sort m) s s' ∧
      List.Forall₂ (r.DeclarationRenamed c s'.pool sort) ms ms' := by
  have hdeclared : ∀ {m}, r.IsDeclaration c sort m ↔ (name = r.owner ∧ sort = r.sort) ∧
      r.namesMember c.pool m.name m.descriptor = .ok true := by
    intro m
    rw [IsDeclaration, namesMember_eq_true_iff, hname, Except.ok.injEq]
    tauto
  unfold declare at hrun
  split_ifs at hrun with hmine
  · have howner : ∃ i, c.pool.text i = .ok r.owner := by
      obtain ⟨n, -, hn⟩ := Pool.className_eq_ok_iff.mp hname
      exact ⟨n, hmine.1 ▸ hn⟩
    have hfits : ∀ m ∈ ms, (∃ text, c.pool.text m.name = .ok text) ∧
        ∃ text, c.pool.text m.descriptor = .ok text := fun m hm => by
      obtain ⟨depth, hd⟩ := hms m hm
      exact ⟨hd.name, hd.descriptor⟩
    obtain ⟨hadds, hr⟩ := reviseDeclarations_spec h hfits howner hrun hf
    have hmember : ∀ m, r.IsDeclaration c sort m ↔
        r.namesMember c.pool m.name m.descriptor = .ok true := fun m => by
      rw [hdeclared, and_iff_right hmine]
    simp only [hmember]
    refine ⟨hadds, hr.imp fun m m' hm => ?_⟩
    rw [DeclarationRenamed, hmember]
    exact hm
  · obtain ⟨rfl, rfl⟩ := Prod.mk.inj hrun
    refine ⟨.refl hf h ?_, List.forall₂_same.mpr fun m _ => .inr ⟨?_, rfl⟩⟩
    · rintro ⟨m, -, hm⟩
      exact hmine (hdeclared.mp hm).1
    · exact fun hm => hmine (hdeclared.mp hm).1

/-- Renaming the enclosing methods, which only a method renaming does. -/
def reattribute (r : MemberRename) (attributes : List Attribute) : Revise (List Attribute) :=
  match r.sort with
  | .field => pure attributes
  | .method => attributes.mapM r.reviseEnclosing

/-- Renaming the enclosing methods among the attributes of a class. -/
lemma reattribute_spec {s s' : Revision} {attributes attributes' : List Attribute}
    (h : r.Extends c.pool s.pool) (hne : r.Known c.pool → r.name ≠ r.newName)
    (hrun : r.reattribute attributes s = (attributes', s')) (hf : s'.fault = none) :
    Adds r c.pool (∃ a ∈ attributes, r.IsEnclosing c a) s s' ∧
      List.Forall₂ (r.AttributeRevised c s'.pool) attributes attributes' := by
  unfold reattribute at hrun
  cases hsort : r.sort with
  | field =>
    have hnone : ∀ a, ¬ r.IsEnclosing c a := fun a ha => by
      cases hsort.symm.trans ha.1
    rw [hsort] at hrun
    obtain ⟨rfl, rfl⟩ := Prod.mk.inj hrun
    exact ⟨.refl hf h (by simp [hnone]), List.forall₂_same.mpr fun a _ => .inr ⟨hnone a, rfl⟩⟩
  | method =>
    rw [hsort] at hrun
    have hsame : ∀ a, r.IsEnclosing c a ↔ r.Encloses c.pool a := fun a => by
      simp only [IsEnclosing, Encloses, refersTo_eq_true_iff, hsort, true_and]
    obtain ⟨hadds, hr⟩ := reviseEnclosings_spec h hne hrun hf
    simp only [hsame]
    refine ⟨hadds, hr.imp fun a a' ha => ?_⟩
    rcases ha with ⟨owner, method, method', hb, hz, hrefers, hn, rfl⟩ | ⟨hn, rfl⟩
    · exact .inl ⟨(hsame _).mpr ⟨owner, method, hb, hz, hrefers⟩, owner, method, method', hb, rfl, hn⟩
    · exact .inr ⟨fun ha => hn ((hsame _).mp ha), rfl⟩

/-- A member renaming goes over fields, methods, references and attributes. -/
lemma revise_run (c : ClassFile) (s : Revision) {name : String} (hs : s.fault = none)
    (hname : s.pool.className c.thisClass = .ok name) :
    r.revise c s =
      (({ c with
        fields := (r.declare name .field c.fields s).1
        methods := (r.declare name .method c.methods (r.declare name .field c.fields s).2).1
        attributes := (r.reattribute c.attributes (r.reviseReferences
          (r.declare name .method c.methods (r.declare name .field c.fields s).2).2).2).1 } :
            ClassFile),
        (r.reattribute c.attributes (r.reviseReferences
          (r.declare name .method c.methods (r.declare name .field c.fields s).2).2).2).2) := by
  rw [revise, Revise.bind_run, Revise.ask_of_ok hs hname]
  obtain ⟨sort, owner, member, descriptor, newName⟩ := r
  cases sort <;> rfl

/-- From the first fault on, references stay. -/
lemma reviseReferences_of_fault {s : Revision} (h : s.fault ≠ none) :
    r.reviseReferences s = ((), s) :=
  Revise.edit_of_fault h

/-- From the first fault on, attributes stay. -/
lemma reattribute_of_fault {s : Revision} (attributes : List Attribute) (h : s.fault ≠ none) :
    r.reattribute attributes s = (attributes, s) := by
  obtain ⟨sort, owner, name, descriptor, newName⟩ := r
  cases sort with
  | field => rfl
  | method => exact reviseEnclosings_of_fault attributes h

/-- From the first fault on, declarations stay. -/
lemma declare_of_fault {s : Revision} {name : String} {sort : MemberSort} (ms : List Member)
    (h : s.fault ≠ none) : r.declare name sort ms s = (ms, s) := by
  unfold declare
  split_ifs
  · rw [reviseDeclarations_eq]
    exact Revise.replaceTexts_of_fault ms h
  · rfl

/-- A slot with a reference to the member resolves to one. -/
lemma refersToMember_iff : r.RefersToMember c.pool (c.pool.get? i) ↔
    ∃ ref, c.pool.member i = .ok ref ∧ r.IsReference ref := by
  simp only [RefersToMember, refersTo_eq_true_iff, Pool.member_eq_ok_iff]
  constructor
  · rintro ⟨kind, owner, nameType, hk, hc, ho, hn⟩
    exact ⟨⟨kind, r.owner, r.name, r.descriptor⟩, ⟨owner, nameType, hk, ho, hn⟩, hc, rfl, rfl, rfl⟩
  · rintro ⟨⟨kind, o, n, d⟩, ⟨owner, nameType, hk, ho, hn⟩, hc, rfl, rfl, rfl⟩
    exact ⟨kind, owner, nameType, hk, hc, ho, hn⟩

/-- **The stages of a member renaming** without a failure: none of them has a fault. -/
theorem exists_stages_of_apply {changed : Bool} (hc : c.WellFormed)
    (h : (Renaming.ofMember r).apply c = (.ok changed, after)) :
    ∃ name fields s₁ methods s₂ s₃ attributes s₄, c.name = .ok name ∧
      (r.declare name .field c.fields ⟨c.pool, false, none⟩ = (fields, s₁) ∧ s₁.fault = none) ∧
      (r.declare name .method c.methods s₁ = (methods, s₂) ∧ s₂.fault = none) ∧
      (r.reviseReferences s₂ = ((), s₃) ∧ s₃.fault = none) ∧
      (r.reattribute c.attributes s₃ = (attributes, s₄) ∧ s₄.fault = none) ∧
      changed = s₄.changed ∧ after = { c with pool := s₄.pool, fields, methods, attributes } := by
  obtain ⟨name, hname⟩ := hc.name
  simp only [Renaming.apply, Renaming.revise] at h
  rw [revise_run c ⟨c.pool, false, none⟩ rfl hname] at h
  rcases h₁ : r.declare name .field c.fields ⟨c.pool, false, none⟩ with ⟨fields, s₁⟩
  rcases h₂ : r.declare name .method c.methods s₁ with ⟨methods, s₂⟩
  rcases h₃ : r.reviseReferences s₂ with ⟨⟨⟩, s₃⟩
  rcases h₄ : r.reattribute c.attributes s₃ with ⟨attributes, s₄⟩
  simp only [h₁, h₂, h₃, h₄, Prod.mk.injEq] at h
  obtain ⟨h, rfl⟩ := h
  split at h
  · cases h
  rename_i hf₄
  obtain rfl := Except.ok.inj h
  have hf₃ : s₃.fault = none := by
    by_contra hf
    rw [reattribute_of_fault _ hf] at h₄
    obtain ⟨-, rfl⟩ := Prod.mk.inj h₄
    exact hf hf₄
  have hf₂ : s₂.fault = none := by
    by_contra hf
    rw [reviseReferences_of_fault hf] at h₃
    obtain ⟨-, rfl⟩ := Prod.mk.inj h₃
    exact hf hf₃
  have hf₁ : s₁.fault = none := by
    by_contra hf
    rw [declare_of_fault _ hf] at h₂
    obtain ⟨-, rfl⟩ := Prod.mk.inj h₂
    exact hf hf₂
  exact ⟨name, fields, s₁, methods, s₂, s₃, attributes, s₄, hname, ⟨h₁, hf₁⟩, ⟨h₂, hf₂⟩, ⟨h₃, hf₃⟩,
    ⟨h₄, hf₄⟩, rfl, rfl⟩

/-- **A member renaming without a failure** renames the places of the member.

**Proof sketch.** The parts of the walk run one after the other. Each of them finds the places that
the class file had at the start, and what one of them wrote the later ones keep. -/
theorem revises_of_apply_of_known {changed : Bool} (hc : c.WellFormed)
    (hne : r.Known c.pool → r.name ≠ r.newName)
    (h : (Renaming.ofMember r).apply c = (.ok changed, after)) : Revises r c changed after := by
  have hbase := Extends.refl (r := r) hc.pool.size_le
  obtain ⟨name, fields, s₁, methods, s₂, s₃, attributes, s₄, hname, ⟨h₁, hf₁⟩, ⟨h₂, hf₂⟩, ⟨h₃, hf₃⟩,
    ⟨h₄, hf₄⟩, rfl, rfl⟩ := exists_stages_of_apply hc h
  obtain ⟨hadds₁, hfields⟩ := declare_spec hname hbase hc.fields h₁ hf₁
  obtain ⟨hadds₂, hmethods⟩ := declare_spec hname hadds₁.stage hc.methods h₂ hf₂
  obtain ⟨-, hstage₃, hgrows₃, hslots, hchanged₃⟩ :=
    reviseReferences_spec hadds₂.stage hne h₃ hf₃
  obtain ⟨hadds₄, hattributes⟩ := reattribute_spec hstage₃ hne h₄ hf₄
  have hgrows₂ : Pool.Grows (fun _ => True) (fun k => ¬ k.IsMemberRef) c.pool s₂.pool :=
    hadds₁.grows.trans hadds₂.grows
  have htext₂ : ∀ {i value}, s₂.pool.text i = .ok value → s₄.pool.text i = .ok value := fun hv =>
    hadds₄.grows.text (fun _ => trivial) (hgrows₃.text (fun _ => id) hv)
  have htext₁ : ∀ {i value}, s₁.pool.text i = .ok value → s₄.pool.text i = .ok value := fun hv =>
    htext₂ (hadds₂.grows.text (fun _ => trivial) hv)
  refine ⟨hadds₄.stage, fun i hi => ?_, rfl, hfields.imp fun _ _ hm => hm.mono htext₁,
    hmethods.imp fun _ _ hm => hm.mono htext₂, hattributes, ?_⟩
  · have hi₂ := hi.trans_le hgrows₂.size_le
    have hslot := hslots i hi₂
    rw [hgrows₂.get?_eq hi] at hslot
    show r.Redirects c.pool s₄.pool (c.pool.get? i) (s₄.pool.get? i)
    rw [hadds₄.grows.get?_eq (hi₂.trans_le hgrows₃.size_le)]
    refine hslot.imp_left ?_
    rintro ⟨kind, owner, nameType, nameType', hk, hcovers, hr, hk', hn⟩
    exact ⟨kind, owner, nameType, nameType', hk, hcovers, hr, hk',
      hadds₄.grows.nameAndType (fun _ => trivial) (fun _ _ => trivial) hn⟩
  · have hrefs : (∃ i, r.RefersToMember c.pool (s₂.pool.get? i)) ↔
        ∃ i ref, c.pool.member i = .ok ref ∧ r.IsReference ref := by
      simp only [← refersToMember_iff]
      refine exists_congr fun i => ?_
      by_cases hi : i.toNat < c.pool.size
      · rw [hgrows₂.get?_eq hi]
      · -- the slots behind the old ones hold no references
        refine iff_of_false ?_ ?_
        · rintro ⟨kind, owner, nameType, hk, -⟩
          obtain ⟨k, -, hn, hf⟩ := hgrows₂.added (not_lt.mp hi) (Pool.lt_size_of_get? hk)
          obtain rfl :=
            Option.some.inj ((Pool.get?_of_find? hgrows₂.size_le_max hf).symm.trans hk)
          exact hn trivial
        · rintro ⟨kind, owner, nameType, hk, -⟩
          exact hi (Pool.lt_size_of_get? hk)
    rw [hadds₄.changed_iff, hchanged₃, hadds₂.changed_iff, hadds₁.changed_iff, hrefs]
    simp only [Occurs, Bool.false_eq_true, false_or, or_assoc]

/-- A member renaming to another name renames the places of the member. -/
theorem revises_of_apply {changed : Bool} (hc : c.WellFormed) (hne : r.name ≠ r.newName)
    (h : (Renaming.ofMember r).apply c = (.ok changed, after)) : Revises r c changed after :=
  revises_of_apply_of_known hc (fun _ => hne) h

/-- Whether an attribute with an enclosing method fits does not depend on the method. -/
lemma fits_enclosing {pool : Pool} {depth : Nat} {name owner method owner' method' : UInt16}
    (h : Attribute.Fits pool depth ⟨name, .flat (.enclosingMethod owner method)⟩) :
    Attribute.Fits pool depth ⟨name, .flat (.enclosingMethod owner' method')⟩ := by
  cases depth with
  | zero => exact h.elim
  | succ depth => exact h

namespace Revises

variable {changed : Bool}

/-- The slots behind those of before hold constants that a member renaming adds. -/
lemma added (h : Revises r c changed after) (hi : c.pool.size ≤ i.toNat)
    (hi' : i.toNat < after.pool.size) :
    ∃ k, after.pool.get? i = some k ∧ k.IsLoose ∧ k.Fits := by
  obtain ⟨k, -, ha, hf⟩ := h.stage.grows.added hi hi'
  refine ⟨k, Pool.get?_of_find? h.stage.grows.size_le_max hf, ?_⟩
  rcases ha with ⟨rfl, hfits⟩ | ⟨n, d, rfl, -⟩
  · exact ⟨trivial, hfits⟩
  · exact ⟨trivial, trivial⟩

/-- The pool afterwards is well formed. -/
lemma wellFormed_pool (h : Revises r c changed after) (hc : c.WellFormed) :
    after.pool.WellFormed := by
  refine hc.pool.of_slots h.stage.grows.size_le h.stage.grows.size_le_max (fun i hi => ?_)
    (fun i hi hi' => ?_) fun i k hk => ?_
  · rcases h.redirects i hi with ⟨_, _, _, _, hk, -, -, hk', -⟩ | ⟨-, hk⟩
    · rw [hk, hk']
      rfl
    · rw [hk]
  · obtain ⟨k, hk, hl, -⟩ := h.added hi hi'
    refine ⟨k, hk, ?_⟩
    cases k <;> first | exact hl.elim | rfl
  · by_cases hi : i.toNat < c.pool.size
    · rcases h.redirects i hi with ⟨_, _, _, _, -, -, -, hk', -⟩ | ⟨-, hk'⟩
      · obtain rfl := Option.some.inj (hk'.symm.trans hk)
        trivial
      · exact hc.pool.fits_of_get? (hk'.symm.trans hk)
    · obtain ⟨k', hk', -, hf⟩ := h.added (not_lt.mp hi) (Pool.lt_size_of_get? hk)
      obtain rfl := Option.some.inj (hk'.symm.trans hk)
      exact hf

/-- **The class file afterwards is well formed.** -/
theorem wellFormed (h : Revises r c changed after) (hc : c.WellFormed) : after.WellFormed := by
  obtain ⟨name, hname⟩ := hc.name
  have htext : ∀ i value, c.pool.text i = .ok value → after.pool.text i = .ok value :=
    fun i value hv => h.stage.text hv
  have hmembers {sort : MemberSort} {ms ms' : List Member}
      (hr : List.Forall₂ (r.DeclarationRenamed c after.pool sort) ms ms')
      (hms : ∀ m ∈ ms, ∃ depth, m.Fits c.pool depth) :
      ∀ m' ∈ ms', ∃ depth, m'.Fits after.pool depth := by
    intro m' hm'
    obtain ⟨m, hm, hren⟩ := Except.exists_of_forall₂ hr.flip hm'
    obtain ⟨depth, ⟨text, hn⟩, ⟨descriptor, hd⟩, hl, ha⟩ := hms m hm
    refine ⟨depth, ?_⟩
    rcases hren with ⟨-, j, hj, rfl⟩ | ⟨-, rfl⟩
    · exact ⟨⟨_, hj⟩, ⟨_, htext _ _ hd⟩, hl, fun a hm => (ha a hm).of_text htext⟩
    · exact ⟨⟨_, htext _ _ hn⟩, ⟨_, htext _ _ hd⟩, hl, fun a hm => (ha a hm).of_text htext⟩
  have hrest := h.rest
  have hlen := h.fields.length_eq
  have hlen' := h.methods.length_eq
  have hlen'' := h.attributes.length_eq
  refine ⟨h.wellFormed_pool hc, ⟨name, ?_⟩, ?_, hlen ▸ hc.fields_lt, hlen' ▸ hc.methods_lt,
    hlen'' ▸ hc.attributes_lt, hmembers h.fields hc.fields, hmembers h.methods hc.methods,
    fun a' ha' => ?_⟩
  · rw [ClassFile.name, show after.thisClass = c.thisClass by rw [hrest]]
    exact h.stage.grows.className (fun _ => id) (fun _ => id) hname
  · rw [show after.interfaces = c.interfaces by rw [hrest]]
    exact hc.interfaces_lt
  · obtain ⟨a, ha, hren⟩ := Except.exists_of_forall₂ h.attributes.flip ha'
    obtain ⟨depth, hd⟩ := hc.attributes a ha
    refine ⟨depth, ?_⟩
    rcases hren with ⟨-, owner, method, method', hb, rfl, -⟩ | ⟨-, rfl⟩
    · obtain ⟨name, body⟩ := a
      obtain rfl : body = _ := hb
      exact fits_enclosing (hd.of_text htext)
    · exact hd.of_text htext

/-- References that resolved are renamed. -/
theorem member (h : Revises r c changed after) {ref : MemberRef}
    (hr : c.pool.member i = .ok ref) : after.pool.member i = .ok (r.renameRef ref) := by
  obtain ⟨o, n, hk, ho, hn⟩ := Pool.member_eq_ok_iff.mp hr
  rcases h.redirects i (Pool.lt_size_of_get? hk) with
    ⟨kind, owner, nameType, nameType', hk₀, hc, hrefers, hk', hn'⟩ | ⟨hnot, hk'⟩
  · obtain ⟨hkind, rfl, rfl⟩ := Constant.memberRef.inj (Option.some.inj (hk.symm.trans hk₀))
    obtain ⟨ho', hnt⟩ := refersTo_eq_true_iff.mp hrefers
    have howner : ref.owner = r.owner := Except.ok.inj (ho.symm.trans ho')
    obtain ⟨hname, hdescriptor⟩ := Prod.mk.inj (Except.ok.inj (hn.symm.trans hnt))
    rw [renameRef, if_pos ⟨hkind ▸ hc, howner, hname, hdescriptor⟩]
    refine Pool.member_eq_ok_iff.mpr ⟨o, nameType', hkind ▸ hk', ?_, ?_⟩
    · exact h.stage.grows.className (fun _ => id) (fun _ => id) ho
    · rw [hdescriptor]
      exact hn'
  · rw [refersToMember_iff] at hnot
    rw [renameRef, if_neg fun hm => hnot ⟨ref, hr, hm⟩]
    exact Pool.member_eq_ok_iff.mpr ⟨o, n, hk'.trans hk,
      h.stage.grows.className (fun _ => id) (fun _ => id) ho,
      h.stage.grows.nameAndType (fun _ => id) (fun _ _ => id) hn⟩

/-- Attributes are revised, also in terms of the trimmed pool. -/
lemma attributes_of_trimmed (h : Revises r c changed after) (ht : after.Trimmed trimmed)
    (hc : c.WellFormed) :
    List.Forall₂ (r.AttributeRevised c trimmed.pool) c.attributes trimmed.attributes := by
  have hmax := (h.wellFormed hc).pool.size_le
  have hsame : trimmed.attributes = after.attributes := by rw [ht.eq]
  rw [hsame]
  refine Except.forall₂_imp_of_mem h.attributes fun a a' _ ha' hr => hr.imp_left ?_
  rintro ⟨he, owner, method, method', hb, rfl, hn⟩
  have hused : .index method' ∈ trimmed.uses :=
    (ClassFile.mem_uses_of_enclosingMethod (hsame ▸ ha') rfl).2
  refine ⟨he, owner, method, method', hb, rfl, ?_⟩
  rw [ht.nameAndType_eq hmax (.inl hused)]
  exact hn

/-- What a member renaming and trimming make of a class file. -/
theorem renamed (h : Revises r c changed after) (ht : after.Trimmed trimmed)
    (hc : c.WellFormed) : Renamed r c trimmed := by
  have hmax := (h.wellFormed hc).pool.size_le
  have hsame : trimmed.fields = after.fields ∧ trimmed.methods = after.methods := by
    rw [ht.eq]
    exact ⟨rfl, rfl⟩
  obtain ⟨hfields, hmethods⟩ := hsame
  have hdeclaration {sort : MemberSort} {m m' : Member}
      (hm' : m' ∈ trimmed.fields ∨ m' ∈ trimmed.methods)
      (hr : r.DeclarationRenamed c after.pool sort m m') :
      r.DeclarationRenamed c trimmed.pool sort m m' := by
    refine hr.imp_left ?_
    rintro ⟨hd, name, hn, rfl⟩
    refine ⟨hd, name, ?_, rfl⟩
    have hused := ClassFile.name_mem_uses hm'
    rw [ht.text_eq (.inl hused)]
    exact hn
  refine ⟨?_, ?_, ?_, ?_, fun i ref hr => ht.member_eq hmax (h.member hr), fun i hi hi' => ?_,
    fun i hi hi' => ?_, fun i hi hi' => ?_⟩
  · rw [ht.eq, h.rest]
  · rw [hfields]
    exact Except.forall₂_imp_of_mem h.fields fun m m' _ hm' =>
      hdeclaration (.inl (hfields ▸ hm'))
  · rw [hmethods]
    exact Except.forall₂_imp_of_mem h.methods fun m m' _ hm' =>
      hdeclaration (.inr (hmethods ▸ hm'))
  · refine Except.forall₂_imp_of_mem (h.attributes_of_trimmed ht hc) fun a a' _ ha' hr =>
      hr.imp_left ?_
    rintro ⟨he, owner, _, method, hb, rfl, hn⟩
    obtain ⟨-, _, _, hb', -, ho, -⟩ := id he
    obtain ⟨rfl, -⟩ := FlatBody.enclosingMethod.inj (AttributeBody.flat.inj (hb.symm.trans hb'))
    refine ⟨he, owner, method, rfl, ?_, hn⟩
    rw [ht.className_eq hmax (.inl (ClassFile.mem_uses_of_enclosingMethod ha' rfl).1)]
    exact h.stage.grows.className (fun _ => id) (fun _ => id) ho
  · rw [ht.get?_eq hi']
    rcases h.redirects i hi with ⟨kind, owner, nameType, nameType', hk, hcov, hr, hk', -⟩ | ⟨-, hk⟩
    · obtain ⟨ho, hn⟩ := refersTo_eq_true_iff.mp hr
      exact .inr ⟨⟨kind, r.owner, r.name, r.descriptor⟩, owner, nameType, nameType',
        Pool.member_eq_ok_iff.mpr ⟨owner, nameType, hk, ho, hn⟩, ⟨hcov, rfl, rfl, rfl⟩, hk, hk'⟩
    · exact .inl hk
  · obtain ⟨⟨k, hk, hl⟩, hn⟩ := ht.dropped hi (hi'.trans_le h.stage.grows.size_le)
    refine ⟨?_, hn⟩
    rcases h.redirects i hi' with ⟨_, _, _, _, -, -, -, hk', -⟩ | ⟨-, hk'⟩
    · obtain rfl := Option.some.inj (hk'.symm.trans hk)
      exact hl.elim
    · exact ⟨k, hk'.symm.trans hk, hl⟩
  · obtain ⟨k, hk, hl, -⟩ := h.added hi (hi'.trans_le ht.size_le)
    exact ⟨k, by rw [ht.get?_eq hi', hk], hl⟩

end Revises

/-- **A member renaming of bytes** yields nothing exactly when the class file has no place of the
member. Otherwise it yields the bytes of the class file in which all places of the member, and nothing
else, have the new name. -/
theorem occurs_and_renamed_of_reviseBytes (hne : r.name ≠ r.newName) {bytes : List UInt8}
    {result : Option (List UInt8)} (h : reviseBytes bytes [.ofMember r] = .ok result) :
    ∃ c, ClassFile.decode bytes = .ok c ∧ (result = none ↔ ¬ r.Occurs c) ∧
      ∀ bytes', result = some bytes' →
        ∃ c', ClassFile.decode bytes' = .ok c' ∧ Renamed r c c' := by
  obtain ⟨c, changed, after, hdecode, happly, hresult⟩ := reviseBytes_single_eq_ok_iff.mp h
  have hc := ClassFile.wellFormed_of_decode hdecode
  have hr := revises_of_apply hc hne happly
  refine ⟨c, hdecode, ?_, ?_⟩
  · rw [← hr.changed_iff]
    rcases hresult with ⟨rfl, rfl⟩ | ⟨rfl, trimmed, n, read, -, -, rfl⟩ <;> simp
  · rintro bytes' rfl
    rcases hresult with ⟨-, hnone⟩ | ⟨-, trimmed, n, -, htrim, -, hbytes⟩
    · cases hnone
    · obtain rfl := Option.some.inj hbytes
      have ht := ClassFile.trimmed_of_trim (hr.wellFormed hc).pool.size_le htrim
      exact ⟨trimmed, ClassFile.decode_encode (ht.wellFormed (hr.wellFormed hc)),
        hr.renamed ht hc⟩

/-- A class `A` that declares a method and refers to it. -/
def selfCaller (pool : Pool) (name : UInt16) : ClassFile :=
  { ClassFile.blank with pool, thisClass := 2, methods := [⟨0, name, 4, []⟩] }

/-- The pool of a class `A` with a method `m`. -/
def selfCallerPool : Pool :=
  ⟨#[none, some (.text "A"), some (.classRef 1), some (.text "m"), some (.text "()V"),
    some (.nameAndType 3 4), some (.memberRef .method 2 5)]⟩

/-- The same pool after the method was renamed to `n`. -/
def selfCallerPool' : Pool :=
  ⟨#[none, some (.text "A"), some (.classRef 1), some (.text "m"), some (.text "()V"),
    some (.nameAndType 3 4), some (.memberRef .method 2 8), some (.text "n"),
    some (.nameAndType 7 4)]⟩

/-- The declaration and the reference of a class that calls itself are renamed. -/
theorem occurs_and_renamed_selfCaller :
    reviseBytes (selfCaller selfCallerPool 3).encode [.ofMember ⟨.method, "A", "m", "()V", "n"⟩] =
        .ok (some (selfCaller selfCallerPool' 7).encode) ∧
      ∃ c c', ClassFile.decode (selfCaller selfCallerPool 3).encode = .ok c ∧
        ClassFile.decode (selfCaller selfCallerPool' 7).encode = .ok c' ∧
          Renamed ⟨.method, "A", "m", "()V", "n"⟩ c c' := by
  have h : reviseBytes (selfCaller selfCallerPool 3).encode
      [.ofMember ⟨.method, "A", "m", "()V", "n"⟩] =
        .ok (some (selfCaller selfCallerPool' 7).encode) := by decide +kernel
  obtain ⟨c, hc, -, hr⟩ := occurs_and_renamed_of_reviseBytes (by decide) h
  obtain ⟨c', hc', hren⟩ := hr _ rfl
  exact ⟨h, c, c', hc, hc', hren⟩

end ClassAtlas.MemberRename
