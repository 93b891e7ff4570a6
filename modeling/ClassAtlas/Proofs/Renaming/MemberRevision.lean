import ClassAtlas.Proofs.ClassFile.Trimming
import ClassAtlas.Proofs.Renaming.Revision
import ClassAtlas.Renaming.Members

/-!
# The steps of a member renaming

A member renaming goes over declarations, references and enclosing methods in turn, and each part may
add to the pool that the next one asks. What it adds are the new name and name-and-type constants
with the new name, and it adds them only once the owner, the old name and the descriptor were found.
So no index resolves to the member later that did not before, and all three parts agree on the member
as the class file has it at the start.

## Main definitions

* `ClassAtlas.MemberRename.Extends` — a pool with what a member renaming adds.
* `ClassAtlas.MemberRename.Adds` — a part of the walk that only adds.

## Main results

* `ClassAtlas.MemberRename.Extends.refersTo_iff` — the member is referred to where it was before.
* `ClassAtlas.MemberRename.reviseDeclarations_spec`, `reviseReferences_spec`,
  `reviseEnclosings_spec` — the parts of the walk.
-/

set_option autoImplicit false

namespace ClassAtlas

/-- A constant that refers to a member. -/
def Constant.IsMemberRef : Constant → Prop
  | .memberRef _ _ _ => True
  | _ => False

namespace MemberRename

variable {r : MemberRename} {base pool pool' : Pool} {s s' : Revision} {i : UInt16}

/-! ### The member in a pool -/

/-- When two texts are the name and the descriptor of the member. -/
lemma namesMember_eq_true_iff {name descriptor : UInt16} :
    r.namesMember pool name descriptor = .ok true ↔
      pool.text name = .ok r.name ∧ pool.text descriptor = .ok r.descriptor := by
  simp only [namesMember, Except.bind_eq_ok_iff]
  constructor
  · rintro ⟨text, hn, h⟩
    split_ifs at h with hne
    · cases h
    · obtain ⟨text', hd, h⟩ := Except.bind_eq_ok_iff.mp h
      obtain rfl := not_not.mp hne
      obtain rfl : text' = r.descriptor := by simpa using h
      exact ⟨hn, hd⟩
  · rintro ⟨hn, hd⟩
    refine ⟨r.name, hn, ?_⟩
    rw [if_neg (by simp)]
    exact Except.bind_eq_ok_iff.mpr ⟨_, hd, by simp⟩

/-- When a class constant and a name-and-type constant name the member. -/
lemma refersTo_eq_true_iff {owner nameType : UInt16} :
    r.refersTo pool owner nameType = .ok true ↔
      pool.className owner = .ok r.owner ∧ pool.nameAndType nameType = .ok (r.name, r.descriptor) := by
  simp only [refersTo, Except.bind_eq_ok_iff]
  constructor
  · rintro ⟨text, ho, h⟩
    split_ifs at h with hne
    · cases h
    · obtain ⟨pair, hd, h⟩ := Except.bind_eq_ok_iff.mp h
      obtain rfl := not_not.mp hne
      obtain rfl : pair = (r.name, r.descriptor) := by simpa using h
      exact ⟨ho, hd⟩
  · rintro ⟨ho, hd⟩
    refine ⟨r.owner, ho, ?_⟩
    rw [if_neg (by simp)]
    exact Except.bind_eq_ok_iff.mpr ⟨_, hd, by simp⟩

/-! ### What is added -/

/-- The owner, the name and the descriptor of the member are texts of a pool. -/
structure Known (r : MemberRename) (pool : Pool) : Prop where
  /-- The owner is. -/
  owner : ∃ i, pool.text i = .ok r.owner
  /-- The name is. -/
  name : ∃ i, pool.text i = .ok r.name
  /-- The descriptor is. -/
  descriptor : ∃ i, pool.text i = .ok r.descriptor

/-- The member is known where it is referred to. -/
lemma known_of_refersTo {owner nameType : UInt16} (h : r.refersTo pool owner nameType = .ok true) :
    r.Known pool := by
  obtain ⟨ho, hn⟩ := refersTo_eq_true_iff.mp h
  obtain ⟨_, -, ho⟩ := Pool.className_eq_ok_iff.mp ho
  obtain ⟨_, _, -, hn, hd⟩ := Pool.nameAndType_eq_ok_iff.mp hn
  exact ⟨⟨_, ho⟩, ⟨_, hn⟩, ⟨_, hd⟩⟩

/-- A constant that a member renaming adds: the new name, or a name-and-type constant with it. -/
def IsAdded (r : MemberRename) (pool : Pool) (k : Constant) : Prop :=
  (k = .text r.newName ∧ k.Fits) ∨ ∃ n d, k = .nameAndType n d ∧ pool.text n = .ok r.newName

/-- A later stage of a pool in a member renaming: references to members may change, and what is added
is as it has to be. Nothing is added unless the member is known. -/
structure Extends (r : MemberRename) (base pool : Pool) : Prop where
  /-- All but references to members stays. -/
  grows : Pool.Grows (fun k => ¬ k.IsMemberRef) (r.IsAdded pool) base pool
  /-- The member is known if something is added. -/
  known : base.size < pool.size → r.Known base
  /-- A name-and-type constant that is added comes after its name and its descriptor. -/
  ordered : ∀ {i n d : UInt16}, base.size ≤ i.toNat → pool.get? i = some (.nameAndType n d) →
    n < i ∧ d < i

lemma IsAdded.mono {k : Constant} (h : r.IsAdded pool k)
    (ht : ∀ {i value}, pool.text i = .ok value → pool'.text i = .ok value) : r.IsAdded pool' k := by
  rcases h with h | ⟨n, d, rfl, hn⟩
  · exact .inl h
  · exact .inr ⟨n, d, rfl, ht hn⟩

namespace Extends

lemma refl (hs : base.size ≤ Pool.maxSize) : r.Extends base base :=
  ⟨.refl hs, fun h => absurd h (lt_irrefl _), fun hi hk =>
    absurd (Pool.lt_size_of_get? hk) (not_lt.mpr hi)⟩

/-- What was a text of the base still is. -/
lemma text (h : r.Extends base pool) {value : String} (hv : base.text i = .ok value) :
    pool.text i = .ok value :=
  h.grows.text (fun _ => id) hv

/-- A pool to which more is added extends the base if the member is known. -/
lemma trans (h : r.Extends base pool)
    (hg : Pool.Grows (fun k => ¬ k.IsMemberRef) (r.IsAdded pool') pool pool')
    (hk : pool.size < pool'.size → r.Known base)
    (ho : ∀ {i n d : UInt16}, pool.size ≤ i.toNat → pool'.get? i = some (.nameAndType n d) →
      n < i ∧ d < i) : r.Extends base pool' := by
  refine ⟨(h.grows.widen fun k ha => ha.mono fun hv => hg.text (fun _ => id) hv).trans hg, ?_, ?_⟩
  · intro hlt
    by_cases hp : base.size < pool.size
    · exact h.known hp
    · exact hk (by omega)
  · intro i n d hi hg'
    by_cases hp : i.toNat < pool.size
    · exact h.ordered hi ((hg.get?_iff hp id).mp hg')
    · exact ho (not_lt.mp hp) hg'

/-- A text of the base resolves nowhere else later, unless it is the new name. -/
lemma text_of_text (h : r.Extends base pool) {value : String} (hv : pool.text i = .ok value)
    (hknown : r.Known base → ∃ j, base.text j = .ok value) : base.text i = .ok value := by
  rw [Pool.text_eq_ok_iff] at hv
  by_cases hi : i.toNat < base.size
  · exact Pool.text_eq_ok_iff.mpr ((h.grows.get?_iff hi id).mp hv)
  · have hi' := Pool.lt_size_of_get? hv
    obtain ⟨k, hk, -, hf⟩ := h.grows.added (not_lt.mp hi) hi'
    obtain rfl := Option.some.inj ((Pool.get?_of_find? h.grows.size_le_max hf).symm.trans hv)
    obtain ⟨j, hj⟩ := hknown (h.known (by omega))
    exact absurd (h.grows.lt_size_of_find? hk (Pool.text_eq_ok_iff.mp hj) hf) hi

/-- A class constant is one of the base. -/
lemma classRef_of_classRef (h : r.Extends base pool) {n : UInt16}
    (hk : pool.get? i = some (.classRef n)) : base.get? i = some (.classRef n) := by
  by_cases hi : i.toNat < base.size
  · exact (h.grows.get?_iff hi id).mp hk
  · obtain ⟨k, -, ha, hf⟩ := h.grows.added (not_lt.mp hi) (Pool.lt_size_of_get? hk)
    obtain rfl := Option.some.inj ((Pool.get?_of_find? h.grows.size_le_max hf).symm.trans hk)
    rcases ha with ⟨ha, -⟩ | ⟨n, d, ha, -⟩ <;> cases ha

/-- A name-and-type constant without the new name is one of the base. -/
lemma nameAndType_of_nameAndType (h : r.Extends base pool) {n d : UInt16}
    (hk : pool.get? i = some (.nameAndType n d))
    (hn : r.Known base → pool.text n ≠ .ok r.newName) : base.get? i = some (.nameAndType n d) := by
  by_cases hi : i.toNat < base.size
  · exact (h.grows.get?_iff hi id).mp hk
  · obtain ⟨k, -, ha, hf⟩ := h.grows.added (not_lt.mp hi) (Pool.lt_size_of_get? hk)
    obtain rfl := Option.some.inj ((Pool.get?_of_find? h.grows.size_le_max hf).symm.trans hk)
    rcases ha with ⟨ha, -⟩ | ⟨n', d', ha, hn'⟩
    · cases ha
    · obtain ⟨rfl, rfl⟩ := Constant.nameAndType.inj ha
      have hlt := Pool.lt_size_of_get? hk
      exact absurd hn' (hn (h.known (by omega)))

/-- **The member is referred to where it was before** the renaming began. -/
theorem refersTo_iff (h : r.Extends base pool) (hne : r.Known base → r.name ≠ r.newName)
    {owner nameType : UInt16} :
    r.refersTo pool owner nameType = .ok true ↔ r.refersTo base owner nameType = .ok true := by
  rw [refersTo_eq_true_iff, refersTo_eq_true_iff]
  constructor
  · rintro ⟨ho, hn⟩
    obtain ⟨o, hk, hov⟩ := Pool.className_eq_ok_iff.mp ho
    obtain ⟨n, d, hk', hnv, hdv⟩ := Pool.nameAndType_eq_ok_iff.mp hn
    refine ⟨Pool.className_eq_ok_iff.mpr ⟨o, h.classRef_of_classRef hk,
      h.text_of_text hov Known.owner⟩, Pool.nameAndType_eq_ok_iff.mpr ⟨n, d,
        h.nameAndType_of_nameAndType hk' ?_, h.text_of_text hnv Known.name,
        h.text_of_text hdv Known.descriptor⟩⟩
    rw [hnv]
    exact fun hk he => hne hk (Except.ok.inj he)
  · rintro ⟨ho, hn⟩
    exact ⟨h.grows.className (fun _ => id) (fun _ => id) ho,
      h.grows.nameAndType (fun _ => id) (fun _ _ => id) hn⟩

end Extends

/-! ### Parts of the walk -/

/-- What a part of the walk does that only adds to the pool; `occurs` says whether there is something
to rename in it. -/
structure Adds (r : MemberRename) (base : Pool) (occurs : Prop) (s s' : Revision) : Prop where
  /-- There was no fault before. -/
  fault : s.fault = none
  /-- There is none afterwards. -/
  fault' : s'.fault = none
  /-- What is added is as it has to be. -/
  stage : r.Extends base s'.pool
  /-- All constants stay. -/
  grows : Pool.Grows (fun _ => True) (fun k => ¬ k.IsMemberRef) s.pool s'.pool
  /-- Something is replaced if and only if there is something to rename. -/
  changed_iff : s'.changed = true ↔ s.changed = true ∨ occurs

lemma Adds.refl {occurs : Prop} (hf : s.fault = none) (h : r.Extends base s.pool)
    (ho : ¬ occurs) : Adds r base occurs s s :=
  ⟨hf, hf, h, .refl h.grows.size_le_max, by simp [ho]⟩

/-! ### Declarations -/

/-- The new name of a declaration, if it is that of the member. -/
def newDeclarationText (r : MemberRename) (m : Member) (pool : Pool) :
    Except FormatError (Option String) :=
  (r.namesMember pool m.name m.descriptor).map fun named => if named then some r.newName else none

/-- Renaming declarations is a row of steps. -/
lemma reviseDeclarations_eq (ms : List Member) :
    ms.mapM r.reviseDeclaration =
      Revise.replaceTexts r.newDeclarationText (fun m name => { m with name }) ms := by
  refine congrArg (fun f : Member → Revise Member => ms.mapM f) (funext fun m => ?_)
  refine congrArg (Revise.edit m) (funext fun pool => ?_)
  rcases h : r.namesMember pool m.name m.descriptor with cause | _ | _ <;>
    simp only [newDeclarationText, h] <;> rfl

lemma newDeclarationText_eq_some_iff {m : Member} {text : String} :
    r.newDeclarationText m pool = .ok (some text) ↔
      r.namesMember pool m.name m.descriptor = .ok true ∧ text = r.newName := by
  rw [newDeclarationText, Except.map_eq_ok_iff]
  constructor
  · rintro ⟨named, hn, h⟩
    cases named with
    | false => cases h
    | true => exact ⟨hn, (Option.some.inj h).symm⟩
  · rintro ⟨hn, rfl⟩
    exact ⟨true, hn, rfl⟩

lemma newDeclarationText_eq_none_iff {m : Member} :
    r.newDeclarationText m pool = .ok none ↔
      r.namesMember pool m.name m.descriptor = .ok false := by
  rw [newDeclarationText, Except.map_eq_ok_iff]
  constructor
  · rintro ⟨named, hn, h⟩
    cases named with
    | false => exact hn
    | true => cases h
  · exact fun hn => ⟨false, hn, rfl⟩

/-- Whether a declaration is that of the member does not depend on what is added to the pool. -/
lemma stable_newDeclarationText (m : Member) : Revise.Stable (r.newDeclarationText m) := by
  intro pool pool' added hg text h
  obtain ⟨named, hn, rfl⟩ := Except.map_eq_ok_iff.mp h
  refine Except.map_eq_ok_iff.mpr ⟨named, ?_, rfl⟩
  simp only [namesMember, Except.bind_eq_ok_iff] at hn ⊢
  obtain ⟨name, hname, hn⟩ := hn
  refine ⟨name, hg.text (fun _ => trivial) hname, ?_⟩
  split_ifs at hn ⊢
  · exact hn
  · obtain ⟨descriptor, hd, hn⟩ := Except.bind_eq_ok_iff.mp hn
    exact Except.bind_eq_ok_iff.mpr ⟨descriptor, hg.text (fun _ => trivial) hd, hn⟩

/-- A declaration before and after: that of the member has the new name, every other one is the same.
-/
def Declares (r : MemberRename) (base pool : Pool) (m m' : Member) : Prop :=
  (r.namesMember base m.name m.descriptor = .ok true ∧
    ∃ name, pool.text name = .ok r.newName ∧ m' = { m with name }) ∨
  r.namesMember base m.name m.descriptor ≠ .ok true ∧ m' = m

/-- A declaration whose texts are in the base is that of the member where it was before. -/
lemma namesMember_iff (ht : ∀ {i value}, base.text i = .ok value → pool.text i = .ok value)
    {m : Member} (hn : ∃ text, base.text m.name = .ok text)
    (hd : ∃ text, base.text m.descriptor = .ok text) :
    r.namesMember pool m.name m.descriptor = .ok true ↔
      r.namesMember base m.name m.descriptor = .ok true := by
  obtain ⟨name, hn⟩ := hn
  obtain ⟨descriptor, hd⟩ := hd
  rw [namesMember_eq_true_iff, namesMember_eq_true_iff, hn, hd, ht hn, ht hd]

/-- **Renaming declarations** in a class file of the owner. -/
theorem reviseDeclarations_spec {ms ms' : List Member} (h : r.Extends base s.pool)
    (hms : ∀ m ∈ ms, (∃ text, base.text m.name = .ok text) ∧
      ∃ text, base.text m.descriptor = .ok text)
    (howner : ∃ i, base.text i = .ok r.owner)
    (hrun : ms.mapM r.reviseDeclaration s = (ms', s')) (hf : s'.fault = none) :
    Adds r base (∃ m ∈ ms, r.namesMember base m.name m.descriptor = .ok true) s s' ∧
      List.Forall₂ (r.Declares base s'.pool) ms ms' := by
  rw [reviseDeclarations_eq] at hrun
  have hr := Revise.replaceTexts_spec stable_newDeclarationText h.grows.size_le_max hrun hf
  have hnames : ∀ {m}, m ∈ ms → (r.namesMember s'.pool m.name m.descriptor = .ok true ↔
      r.namesMember base m.name m.descriptor = .ok true) := fun hm =>
    namesMember_iff (fun hv => hr.grows.text (fun _ => trivial) (h.text hv)) (hms _ hm).1
      (hms _ hm).2
  have hgrows : Pool.Grows (fun _ => True) (fun k => ¬ k.IsMemberRef ∧ r.IsAdded s'.pool k ∧
      ∃ m ∈ ms, r.namesMember base m.name m.descriptor = .ok true) s.pool s'.pool := by
    refine hr.grows.widen ?_
    rintro k ⟨m, hm, text, ht, rfl, hfits⟩
    obtain ⟨hn, rfl⟩ := newDeclarationText_eq_some_iff.mp ht
    exact ⟨id, .inl ⟨rfl, hfits⟩, m, hm, (hnames hm).mp hn⟩
  have hstage : r.Extends base s'.pool := by
    refine h.trans (hgrows.weaken (fun _ _ => trivial) fun k hk => ⟨hk.1, hk.2.1⟩) (fun hlt => ?_)
      fun hi hk => ?_
    · obtain ⟨k, -, -, ⟨-, -, m, -, hn⟩, -⟩ := hgrows.exists_added hlt
      obtain ⟨hn, hd⟩ := namesMember_eq_true_iff.mp hn
      exact ⟨howner, ⟨_, hn⟩, ⟨_, hd⟩⟩
    · -- declarations add no name-and-type constant
      obtain ⟨_, -, ⟨m, -, text, -, rfl, -⟩, hf⟩ := hr.grows.added hi (Pool.lt_size_of_get? hk)
      cases (Pool.get?_of_find? hr.grows.size_le_max hf).symm.trans hk
  refine ⟨⟨hr.fault, hr.fault', hstage, hgrows.widen fun _ => And.left, ?_⟩,
    Except.forall₂_imp_of_mem hr.replaced fun m m' hm _ hrep => ?_⟩
  · rw [hr.changed_iff]
    refine or_congr_right (exists_congr fun m => and_congr_right fun hm => ?_)
    rw [← hnames hm]
    constructor
    · rintro ⟨text, ht⟩
      exact (newDeclarationText_eq_some_iff.mp ht).1
    · exact fun hn => ⟨_, newDeclarationText_eq_some_iff.mpr ⟨hn, rfl⟩⟩
  · rcases hrep with ⟨ht, rfl⟩ | ⟨text, name, ht, hfind, rfl⟩
    · refine .inr ⟨fun hn => ?_, rfl⟩
      rw [← hnames hm, newDeclarationText_eq_none_iff.mp ht] at hn
      cases hn
    · obtain ⟨hn, rfl⟩ := newDeclarationText_eq_some_iff.mp ht
      exact .inl ⟨(hnames hm).mp hn, name,
        Pool.text_eq_ok_iff.mpr (Pool.get?_of_find? hr.grows.size_le_max hfind), rfl⟩

/-! ### Adding the new name and the descriptor -/

/-- Adding a name-and-type constant with the new name, once the member is known. -/
lemma Extends.internNameAndType (h : r.Extends base pool) (hk : r.Known base)
    (hrun : Pool.internNameAndType r.newName r.descriptor pool = (.ok i, pool')) :
    r.Extends base pool' ∧ Pool.Grows (fun _ => True) (fun k => ¬ k.IsMemberRef) pool pool' ∧
      pool'.nameAndType i = .ok (r.newName, r.descriptor) := by
  obtain ⟨n, d, hn, hd, hi, hg⟩ := Pool.internNameAndType_spec h.grows.size_le_max hrun
  have hnv := Pool.text_eq_ok_iff.mpr (Pool.get?_of_find? hg.size_le_max hn)
  have hdv := Pool.text_eq_ok_iff.mpr (Pool.get?_of_find? hg.size_le_max hd)
  refine ⟨h.trans ?_ (fun _ => hk) (Pool.lt_of_internNameAndType h.grows.size_le_max hrun),
    hg.widen ?_, Pool.nameAndType_eq_ok_iff.mpr
      ⟨n, d, Pool.get?_of_find? hg.size_le_max hi, hnv, hdv⟩⟩
  rotate_left
  · rintro k ⟨rfl | rfl | rfl, -⟩ <;> exact id
  refine ⟨hg.size_le, hg.size_le_max, fun hj _ _ => hg.get?_iff hj trivial, fun {j} hj hj' => ?_⟩
  obtain ⟨k, -, ⟨hcases, hfits⟩, hf⟩ := hg.added hj hj'
  rcases hcases with rfl | rfl | rfl
  · exact ⟨_, id, .inl ⟨rfl, hfits⟩, hf⟩
  · -- the descriptor was found with the member, so it is not added
    obtain ⟨l, hl⟩ := hk.descriptor
    have hlt := hg.lt_size_of_find? trivial (Pool.text_eq_ok_iff.mp (h.text hl)) hf
    omega
  · exact ⟨_, id, .inr ⟨n, d, rfl, hnv⟩, hf⟩

/-! ### References -/

/-- A slot with a reference to the member. -/
def RefersToMember (r : MemberRename) (pool : Pool) (slot : Option Constant) : Prop :=
  ∃ kind owner nameType, slot = some (.memberRef kind owner nameType) ∧
    r.sort.covers kind = true ∧ r.refersTo pool owner nameType = .ok true

/-- A slot before and after: a reference to the member refers to the new name, every other slot is the
same. -/
def Redirects (r : MemberRename) (base pool : Pool) (slot slot' : Option Constant) : Prop :=
  (∃ kind owner nameType nameType', slot = some (.memberRef kind owner nameType) ∧
    r.sort.covers kind = true ∧ r.refersTo base owner nameType = .ok true ∧
    slot' = some (.memberRef kind owner nameType') ∧
    pool.nameAndType nameType' = .ok (r.newName, r.descriptor)) ∨
  ¬ r.RefersToMember base slot ∧ slot' = slot

lemma isReference_eq_true_iff {k : Constant} :
    r.isReference pool k = .ok true ↔ r.RefersToMember pool (some k) := by
  cases k with
  | memberRef kind owner nameType =>
    simp only [isReference, RefersToMember, Option.some.injEq, Constant.memberRef.injEq]
    constructor
    · intro h
      split_ifs at h with hc
      · exact ⟨kind, owner, nameType, ⟨rfl, rfl, rfl⟩, hc, h⟩
      · cases h
    · rintro ⟨_, _, _, ⟨rfl, rfl, rfl⟩, hc, h⟩
      rw [if_pos hc]
      exact h
  | _ => simp [isReference, RefersToMember]

/-- The references to the member are those among the constants. -/
lemma mem_references_iff {indices : List UInt16} (hs : pool.size ≤ Pool.maxSize)
    (h : r.references pool = .ok indices) : i ∈ indices ↔ r.RefersToMember pool (pool.get? i) := by
  simp only [references, Except.bind_eq_ok_iff, Except.pure_eq_ok_iff, Except.mapM_eq_ok_iff] at h
  obtain ⟨found, hf, rfl⟩ := h
  rw [List.mem_filterMap]
  constructor
  · rintro ⟨slot, hm, rfl⟩
    obtain ⟨⟨j, k⟩, hk, b, hb, he⟩ := Except.exists_of_forall₂ hf.flip hm
    cases b with
    | false => simp at he
    | true =>
      obtain rfl : j = i := by simpa using he
      rw [(Pool.mem_constants_iff hs).mp hk]
      exact isReference_eq_true_iff.mp hb
  · intro hr
    obtain ⟨kind, owner, nameType, hk, -⟩ := id hr
    obtain ⟨slot, hm, b, hb, rfl⟩ :=
      Except.exists_of_forall₂ hf ((Pool.mem_constants_iff hs).mpr hk)
    refine ⟨_, hm, ?_⟩
    rw [hk] at hr
    obtain rfl := Except.ok.inj (hb.symm.trans (isReference_eq_true_iff.mpr hr))
    rfl

/-- A reference with another name-and-type constant. -/
def redirected (nameType : UInt16) : Constant → Constant
  | .memberRef kind owner _ => .memberRef kind owner nameType
  | k => k

lemma redirected_redirected (nameType : UInt16) (k : Constant) :
    redirected nameType (redirected nameType k) = redirected nameType k := by
  cases k <;> rfl

lemma size_repointMember (nameType : UInt16) (pool : Pool) (i : UInt16) :
    (repointMember nameType pool i).size = pool.size := by
  unfold repointMember
  split
  · exact Pool.size_set
  · rfl

lemma get?_repointMember (nameType : UInt16) (pool : Pool) (i j : UInt16) :
    (repointMember nameType pool i).get? j =
      if j = i then (pool.get? j).map (redirected nameType) else pool.get? j := by
  unfold repointMember
  split
  · rename_i kind owner old hk
    rw [Pool.get?_set (Pool.lt_size_of_get? hk)]
    split_ifs with h
    · rw [h, hk]
      rfl
    · rfl
  · rename_i hk
    split_ifs with h
    · rw [h]
      rcases hc : pool.get? i with _ | c
      · rfl
      · cases c <;> first | rfl | exact absurd hc (hk _ _ _)
    · rfl

/-- The references at several indices with another name-and-type constant. -/
lemma foldl_repointMember (nameType : UInt16) (indices : List UInt16) (pool : Pool) :
    (indices.foldl (repointMember nameType) pool).size = pool.size ∧
      ∀ j, (indices.foldl (repointMember nameType) pool).get? j =
        if j ∈ indices then (pool.get? j).map (redirected nameType) else pool.get? j := by
  induction indices generalizing pool with
  | nil => simp
  | cons i indices ih =>
    obtain ⟨hsize, hget⟩ := ih (repointMember nameType pool i)
    refine ⟨hsize.trans (size_repointMember nameType pool i), fun j => ?_⟩
    rw [List.foldl_cons, hget, get?_repointMember]
    by_cases hj : j = i <;> by_cases hm : j ∈ indices <;>
      simp [hj, hm, redirected_redirected, Function.comp_def]

/-- Redirecting references keeps all other constants. -/
lemma grows_foldl_repointMember (nameType : UInt16) (indices : List UInt16)
    (hs : pool.size ≤ Pool.maxSize) :
    Pool.Grows (fun k => ¬ k.IsMemberRef) (fun _ => False) pool
      (indices.foldl (repointMember nameType) pool) := by
  obtain ⟨hsize, hget⟩ := foldl_repointMember nameType indices pool
  refine ⟨hsize.ge, hsize.trans_le hs, fun {i} _ {k} hk => ?_, fun h h' => absurd h' (by omega)⟩
  rw [hget]
  split_ifs
  · rcases pool.get? i with _ | c
    · rfl
    · cases c <;> first | rfl | skip
      refine iff_of_false ?_ ?_ <;>
      · intro he
        obtain rfl := Option.some.inj he
        exact hk trivial
  · rfl

/-- **Renaming references** redirects the references to the member and adds at most what they need.
-/
theorem reviseReferences_spec (h : r.Extends base s.pool) (hne : r.Known base → r.name ≠ r.newName)
    (hrun : r.reviseReferences s = ((), s')) (hf : s'.fault = none) :
    s.fault = none ∧ r.Extends base s'.pool ∧
      Pool.Grows (fun k => ¬ k.IsMemberRef) (fun _ => True) s.pool s'.pool ∧
      (∀ i : UInt16, i.toNat < s.pool.size →
        r.Redirects base s'.pool (s.pool.get? i) (s'.pool.get? i)) ∧
      (s'.changed = true ↔ s.changed = true ∨ ∃ i, r.RefersToMember base (s.pool.get? i)) := by
  have hsame : ∀ slot, r.RefersToMember s.pool slot ↔ r.RefersToMember base slot := fun slot => by
    simp only [RefersToMember, h.refersTo_iff hne]
  have hs := h.grows.size_le_max
  obtain ⟨hfault, hedit⟩ := Revise.edit_spec hrun hf
  refine ⟨hfault, ?_⟩
  rcases hfound : r.references s.pool with cause | indices
  · simp only [hfound] at hedit
    rcases hedit with ⟨_, he, -⟩ | ⟨_, he, -⟩ <;> cases (Prod.mk.inj he).1
  have hmem : ∀ i, i ∈ indices ↔ r.RefersToMember base (s.pool.get? i) := fun i =>
    (mem_references_iff hs hfound).trans (hsame _)
  cases indices with
  | nil =>
    simp only [hfound] at hedit
    rcases hedit with ⟨_, he, -, rfl⟩ | ⟨_, he, -⟩
    · obtain rfl := (Prod.mk.inj he).2
      have hnone : ∀ i, ¬ r.RefersToMember base (s.pool.get? i) := fun i hi => by
        simpa using (hmem i).mpr hi
      exact ⟨h, .refl hs, fun i _ => .inr ⟨hnone i, rfl⟩, by simp [hnone]⟩
    · cases (Prod.mk.inj he).1
  | cons i indices =>
    simp only [hfound] at hedit
    rcases hi : Pool.internNameAndType r.newName r.descriptor s.pool with ⟨cause | nameType, pool⟩
    · simp only [hi] at hedit
      rcases hedit with ⟨_, he, -⟩ | ⟨_, he, -⟩ <;> cases (Prod.mk.inj he).1
    simp only [hi] at hedit
    rcases hedit with ⟨_, he, -⟩ | ⟨_, he, rfl⟩
    · cases (Prod.mk.inj he).1
    obtain rfl := (Prod.mk.inj he).2
    have hfirst := (hmem i).mp List.mem_cons_self
    have hknown : r.Known base := by
      obtain ⟨kind, owner, nt, -, -, hr⟩ := hfirst
      exact known_of_refersTo hr
    obtain ⟨hstage, hgrows, hnt⟩ := h.internNameAndType hknown hi
    have hredirect := grows_foldl_repointMember nameType (i :: indices) hgrows.size_le_max
    obtain ⟨hsize, hget⟩ := foldl_repointMember nameType (i :: indices) pool
    refine ⟨hstage.trans (hredirect.widen fun _ => False.elim) (fun hlt => absurd hlt hsize.not_gt)
        fun hi hk => absurd (hsize ▸ Pool.lt_size_of_get? hk) (not_lt.mpr hi),
      (hgrows.weaken (fun _ _ => trivial) fun k hk => ⟨hk, trivial⟩).trans
        (hredirect.widen fun _ => False.elim),
      fun j hj => ?_, by simpa using .inr ⟨i, hfirst⟩⟩
    · rw [hget, hgrows.get?_eq hj]
      split_ifs with hm
      · obtain ⟨kind, owner, nt, hk, hc, hr⟩ := (hmem j).mp hm
        rw [hk]
        exact .inl ⟨kind, owner, nt, nameType, rfl, hc, hr, rfl,
          hredirect.nameAndType (fun _ => id) (fun _ _ => id) hnt⟩
      · exact .inr ⟨fun hr => hm ((hmem j).mpr hr), rfl⟩

/-! ### Enclosing methods -/

/-- An attribute that names the member as the method around a class. -/
def Encloses (r : MemberRename) (pool : Pool) (a : Attribute) : Prop :=
  ∃ owner method, a.body = .flat (.enclosingMethod owner method) ∧ method ≠ 0 ∧
    r.refersTo pool owner method = .ok true

/-- An attribute before and after: one that names the member names the new name, every other one is
the same. -/
def Reencloses (r : MemberRename) (base pool : Pool) (a a' : Attribute) : Prop :=
  (∃ owner method method', a.body = .flat (.enclosingMethod owner method) ∧ method ≠ 0 ∧
    r.refersTo base owner method = .ok true ∧
    pool.nameAndType method' = .ok (r.newName, r.descriptor) ∧
    a' = { a with body := .flat (.enclosingMethod owner method') }) ∨
  ¬ r.Encloses base a ∧ a' = a

lemma Reencloses.mono {a a' : Attribute} {added : Constant → Prop}
    (h : r.Reencloses base pool a a') (hg : Pool.Grows (fun _ => True) added pool pool') :
    r.Reencloses base pool' a a' := by
  refine h.imp_left ?_
  rintro ⟨owner, method, method', hb, hz, hr, hn, rfl⟩
  exact ⟨owner, method, method', hb, hz, hr,
    hg.nameAndType (fun _ => trivial) (fun _ _ => trivial) hn, rfl⟩

/-- Attributes of other kinds are not looked at. -/
lemma reviseEnclosing_of_ne {a : Attribute}
    (h : ∀ owner method, a.body ≠ .flat (.enclosingMethod owner method)) :
    r.reviseEnclosing a = pure a := by
  obtain ⟨name, body⟩ := a
  rcases body with body | _ | _
  · cases body <;> first | rfl | exact absurd rfl (h _ _)
  · rfl
  · rfl

/-- From the first fault on, no enclosing method is renamed. -/
lemma reviseEnclosing_of_fault (a : Attribute) (h : s.fault ≠ none) :
    r.reviseEnclosing a s = (a, s) := by
  by_cases hb : ∃ owner method, a.body = .flat (.enclosingMethod owner method)
  · obtain ⟨name, body⟩ := a
    obtain ⟨owner, method, rfl⟩ := hb
    rw [reviseEnclosing]
    exact Revise.edit_of_fault h
  · rw [reviseEnclosing_of_ne fun owner method he => hb ⟨owner, method, he⟩]
    rfl

lemma reviseEnclosings_of_fault (attributes : List Attribute) (h : s.fault ≠ none) :
    attributes.mapM r.reviseEnclosing s = (attributes, s) := by
  induction attributes with
  | nil => exact Revise.mapM_nil_run _ s
  | cons a attributes ih => rw [Revise.mapM_cons_run, reviseEnclosing_of_fault a h, ih]

/-- Renaming an enclosing method that ends without a fault. -/
lemma reviseEnclosing_spec {a a' : Attribute} (h : r.Extends base s.pool)
    (hne : r.Known base → r.name ≠ r.newName) (hrun : r.reviseEnclosing a s = (a', s'))
    (hf : s'.fault = none) :
    Adds r base (r.Encloses base a) s s' ∧ r.Reencloses base s'.pool a a' := by
  by_cases hb : ∃ owner method, a.body = .flat (.enclosingMethod owner method)
  · obtain ⟨name, body⟩ := a
    obtain ⟨owner, method, rfl⟩ := hb
    rw [reviseEnclosing] at hrun
    have hiff : r.Encloses base ⟨name, .flat (.enclosingMethod owner method)⟩ ↔
        method ≠ 0 ∧ r.refersTo base owner method = .ok true := by
      constructor
      · rintro ⟨o, m, hb', hz, hr⟩
        obtain ⟨rfl, rfl⟩ := FlatBody.enclosingMethod.inj (AttributeBody.flat.inj hb')
        exact ⟨hz, hr⟩
      · rintro ⟨hz, hr⟩
        exact ⟨owner, method, rfl, hz, hr⟩
    obtain ⟨hs, hedit⟩ := Revise.edit_spec hrun hf
    have hskip {a : Attribute} (hn : ¬ r.Encloses base a) (pool : Pool) (hp : s.pool = pool)
        (hs' : s' = { s with pool }) :
        Adds r base (r.Encloses base a) s s' ∧ r.Reencloses base s'.pool a a := by
      subst hp
      subst hs'
      exact ⟨.refl hs h hn, .inr ⟨hn, rfl⟩⟩
    by_cases hz : method = 0
    · subst hz
      simp only [if_true] at hedit
      rcases hedit with ⟨pool, he, rfl, hs'⟩ | ⟨_, he, -⟩
      · exact hskip (fun hn => (hiff.mp hn).1 rfl) pool (Prod.mk.inj he).2 hs'
      · cases (Prod.mk.inj he).1
    simp only [hz, if_false] at hedit
    rcases hr : r.refersTo s.pool owner method with cause | _ | _
    · simp only [hr] at hedit
      rcases hedit with ⟨_, he, -⟩ | ⟨_, he, -⟩ <;> cases (Prod.mk.inj he).1
    · simp only [hr] at hedit
      rcases hedit with ⟨pool, he, rfl, hs'⟩ | ⟨_, he, -⟩
      · refine hskip (fun hn => ?_) pool (Prod.mk.inj he).2 hs'
        cases ((h.refersTo_iff hne).mpr (hiff.mp hn).2).symm.trans hr
      · cases (Prod.mk.inj he).1
    · simp only [hr] at hedit
      have hbase := (h.refersTo_iff hne).mp hr
      have hknown : r.Known base := known_of_refersTo hbase
      rcases hi : Pool.internNameAndType r.newName r.descriptor s.pool with ⟨cause | j, pool⟩
      · simp only [hi] at hedit
        rcases hedit with ⟨_, he, -⟩ | ⟨_, he, -⟩ <;> cases (Prod.mk.inj he).1
      simp only [hi] at hedit
      rcases hedit with ⟨_, he, -⟩ | ⟨_, he, rfl⟩
      · cases (Prod.mk.inj he).1
      obtain ⟨ha, rfl⟩ := Prod.mk.inj he
      obtain rfl := Option.some.inj (Except.ok.inj ha)
      obtain ⟨hstage, hgrows, hnt⟩ := h.internNameAndType hknown hi
      exact ⟨⟨hs, rfl, hstage, hgrows, by simp [hiff.mpr ⟨hz, hbase⟩]⟩,
        .inl ⟨owner, method, j, rfl, hz, hbase, hnt, rfl⟩⟩
  · rw [reviseEnclosing_of_ne fun owner method he => hb ⟨owner, method, he⟩] at hrun
    obtain ⟨rfl, rfl⟩ := Prod.mk.inj hrun
    have hn : ¬ r.Encloses base a := by
      rintro ⟨owner, method, hb', -⟩
      exact hb ⟨owner, method, hb'⟩
    exact ⟨.refl hf h hn, .inr ⟨hn, rfl⟩⟩

/-- Enclosing methods that are revised without a fault are revised one after the other. -/
lemma exists_of_reviseEnclosings_cons {a : Attribute} {attributes attributes' : List Attribute}
    (hrun : (a :: attributes).mapM r.reviseEnclosing s = (attributes', s')) (hf : s'.fault = none) :
    ∃ b bs m, r.reviseEnclosing a s = (b, m) ∧ m.fault = none ∧
      attributes.mapM r.reviseEnclosing m = (bs, s') ∧ attributes' = b :: bs := by
  rw [Revise.mapM_cons_run] at hrun
  rcases hstep : r.reviseEnclosing a s with ⟨b, m⟩
  rw [hstep] at hrun
  rcases hrest : attributes.mapM r.reviseEnclosing m with ⟨bs, m'⟩
  rw [hrest] at hrun
  obtain ⟨rfl, rfl⟩ := Prod.mk.inj hrun
  refine ⟨b, bs, m, rfl, ?_, hrest, rfl⟩
  by_contra hm
  rw [reviseEnclosings_of_fault attributes hm] at hrest
  obtain ⟨-, rfl⟩ := Prod.mk.inj hrest
  exact hm hf

/-- **Renaming enclosing methods** among the attributes of a class.

**Proof sketch.** Induction on the attributes; what is added for one of them does not make another one
name the member. -/
theorem reviseEnclosings_spec {attributes attributes' : List Attribute}
    (h : r.Extends base s.pool) (hne : r.Known base → r.name ≠ r.newName)
    (hrun : attributes.mapM r.reviseEnclosing s = (attributes', s')) (hf : s'.fault = none) :
    Adds r base (∃ a ∈ attributes, r.Encloses base a) s s' ∧
      List.Forall₂ (r.Reencloses base s'.pool) attributes attributes' := by
  induction attributes generalizing attributes' s with
  | nil =>
    obtain ⟨rfl, rfl⟩ := Prod.mk.inj ((Revise.mapM_nil_run _ s).symm.trans hrun)
    exact ⟨.refl hf h (by simp), .nil⟩
  | cons a attributes ih =>
    obtain ⟨b, bs, m, hstep, hm, hrest, rfl⟩ := exists_of_reviseEnclosings_cons hrun hf
    obtain ⟨hadds, ha⟩ := reviseEnclosing_spec h hne hstep hm
    obtain ⟨hadds', has⟩ := ih hadds.stage hrest
    refine ⟨⟨hadds.fault, hf, hadds'.stage, hadds.grows.trans hadds'.grows, ?_⟩,
      .cons (ha.mono hadds'.grows) has⟩
    rw [hadds'.changed_iff, hadds.changed_iff, or_assoc]
    simp

end MemberRename

end ClassAtlas
