import ClassAtlas.Proofs.Renaming.ClassRevision

/-!
# What a class renaming changes

A class renaming that yields bytes has read a class file, and the bytes are those of a class file
that differs from it only where the class is named. This module says where that is: constants are
renamed one by one, and so are the texts at the sites, and all the rest is the same. Texts are never
changed in place, so string literals and other parts that share a text are left alone.

## Main definitions

* `ClassAtlas.ClassRename.TextRenamed` — an index of a text, before and after.
* `ClassAtlas.ClassRename.ConstantRenamed`, `SiteRenamed`, `MemberRenamed` — constants, sites and
  members, before and after.
* `ClassAtlas.ClassRename.Renamed` — a class file, before and after.

## Main results

* `ClassAtlas.ClassRename.renamed_of_reviseBytes` — a class renaming changes nothing else.
-/

set_option autoImplicit false

namespace ClassAtlas.ClassRename

variable {r : ClassRename} {c after trimmed : ClassFile} {middle final : Revision} {n : Nat}

/-! ### Before and after -/

/-- The text at an index is renamed; the index stays if there is nothing to rename. -/
def TextRenamed (rename : String → Option String) (pool pool' : Pool) (i j : UInt16) : Prop :=
  ∃ text, pool.text i = .ok text ∧ pool'.text j = .ok ((rename text).getD text) ∧
    (rename text = none → j = i)

/-- A constant is renamed: a class has its new name, a name-and-type constant keeps its name and has
its new descriptor, a method type has its new descriptor, and all others are the same. -/
def ConstantRenamed (r : ClassRename) (pool pool' : Pool) : Constant → Constant → Prop
  | .classRef name, k => ∃ name', k = .classRef name' ∧
      TextRenamed r.constant? pool pool' name name'
  | .nameAndType name descriptor, k => ∃ descriptor', k = .nameAndType name descriptor' ∧
      (∀ text, pool.text name = .ok text → pool'.text name = .ok text) ∧
        TextRenamed r.descriptor? pool pool' descriptor descriptor'
  | .methodType descriptor, k => ∃ descriptor', k = .methodType descriptor' ∧
      TextRenamed r.descriptor? pool pool' descriptor descriptor'
  | k, k' => k' = k

/-- The simple name at an index has to follow the new name of the class: the entry is that of the
class, which is a member of another one under both of its names, and the simple name is the end of
the old one. -/
def FollowsName (r : ClassRename) (pool pool' : Pool) (inner outer i : UInt16)
    (old new : String) : Prop :=
  i ≠ 0 ∧ outer ≠ 0 ∧ pool'.className inner = .ok r.new ∧ pool.text i = .ok old ∧
    ∃ name, pool'.className outer = .ok name ∧ memberSuffix? r.old name = some old ∧
      memberSuffix? r.new name = some new

/-- The text at a site is renamed as its role asks for. An index beyond the pool names no text before
the renaming; it may name one of the texts that the renaming adds. -/
def SiteRenamed (r : ClassRename) (pool pool' : Pool) (x y : TextSite) : Prop :=
  y.role = x.role ∧
    match x.role with
    | .descriptor => TextRenamed r.descriptor? pool pool' x.index y.index ∨
        pool.size ≤ x.index.toNat ∧ ∃ text, pool'.text y.index = .ok text
    | .signature => TextRenamed r.signature? pool pool' x.index y.index ∨
        pool.size ≤ x.index.toNat ∧ ∃ text, pool'.text y.index = .ok text
    | .simpleName inner outer =>
      (∃ old new, FollowsName r pool pool' inner outer x.index old new ∧
        pool'.text y.index = .ok new) ∨
      ((¬ ∃ old new, FollowsName r pool pool' inner outer x.index old new) ∧ y.index = x.index) ∨
        pool.size ≤ x.index.toNat

/-- A member keeps its flags and its name and has its new descriptor. -/
structure MemberRenamed (r : ClassRename) (pool pool' : Pool) (m m' : Member) : Prop where
  /-- The flags are the same. -/
  access : m'.access = m.access
  /-- So is the index of the name. -/
  name : m'.name = m.name
  /-- The name is the same text. -/
  name_text : pool'.text m'.name = pool.text m.name
  /-- The descriptor is renamed. -/
  descriptor : TextRenamed r.descriptor? pool pool' m.descriptor m'.descriptor

/-- **What a class renaming changes in a class file.** -/
structure Renamed (r : ClassRename) (c c' : ClassFile) : Prop where
  /-- Nothing changes but the pool and the sites: not the versions, the flags, the indices of
  classes, the instructions, the order of anything, nor any other attribute. -/
  outline : c'.outline = c.outline
  /-- The slots that are left hold renamed constants. -/
  kept : ∀ i : UInt16, i.toNat < c.pool.size → i.toNat < c'.pool.size →
    Option.Rel (ConstantRenamed r c.pool c'.pool) (c.pool.get? i) (c'.pool.get? i)
  /-- The slots that are gone held texts or name-and-type constants, and nothing refers to them any
  more. -/
  dropped : ∀ i : UInt16, c'.pool.size ≤ i.toNat → i.toNat < c.pool.size →
    (∃ k, c.pool.get? i = some k ∧ k.IsLoose) ∧ c'.Unreferenced i
  /-- The slots that are new hold texts. -/
  added : ∀ i : UInt16, c.pool.size ≤ i.toNat → i.toNat < c'.pool.size →
    ∃ text, c'.pool.get? i = some (.text text)
  /-- The fields are renamed, in order. -/
  fields : List.Forall₂ (MemberRenamed r c.pool c'.pool) c.fields c'.fields
  /-- The methods are renamed, in order. -/
  methods : List.Forall₂ (MemberRenamed r c.pool c'.pool) c.methods c'.methods
  /-- The texts at all sites are renamed. -/
  sites : List.Forall₂ (SiteRenamed r c.pool c'.pool) (c.sites c.pool.namesGenericTable)
    (c'.sites c.pool.namesGenericTable)


/-! ### Renaming, then trimming -/

section Trimming

variable (h : Revises r c middle final after) {i j : UInt16} {rename : String → Option String}

include h

/-- A typed constant that is left after trimming has its text renamed. -/
lemma textRenamed_of_typed (ht : after.Trimmed trimmed) (hc : c.WellFormed) {k : Constant}
    (hk : c.pool.get? i = some k) (hi : i.toNat < trimmed.pool.size)
    (hnew : r.newConstantText c.pool k = (c.pool.text j).map rename)
    (hsame : repointed j k = k) (hchild : ∀ j', j' ∈ (repointed j' k).children) :
    ∃ j', trimmed.pool.get? i = some (repointed j' k) ∧
      TextRenamed rename c.pool trimmed.pool j j' := by
  obtain ⟨j', text, hk', hv, hv', hstay⟩ := h.typed hk hnew hsame
  rw [← ht.get?_eq hi] at hk'
  refine ⟨j', hk', text, hv, ?_, hstay⟩
  rw [ht.text_eq_of_mem_children (h.wellFormed hc).pool.size_le hk' (hchild j')]
  exact hv'

/-- **A constant that is left** after renaming and trimming is renamed. -/
theorem constantRenamed (ht : after.Trimmed trimmed) (hc : c.WellFormed) {k : Constant}
    (hk : c.pool.get? i = some k) (hi : i.toNat < trimmed.pool.size) :
    ∃ k', trimmed.pool.get? i = some k' ∧ ConstantRenamed r c.pool trimmed.pool k k' := by
  have hmax := (h.wellFormed hc).pool.size_le
  cases k with
  | classRef name =>
    obtain ⟨name', hk', hr⟩ := textRenamed_of_typed h ht hc hk hi rfl rfl fun _ => by
      simp [repointed, Constant.children]
    exact ⟨_, hk', name', rfl, hr⟩
  | nameAndType name descriptor =>
    obtain ⟨descriptor', hk', hr⟩ := textRenamed_of_typed h ht hc hk hi rfl rfl fun _ => by
      simp [repointed, Constant.children]
    refine ⟨_, hk', descriptor', rfl, fun text hv => ?_, hr⟩
    rw [ht.text_eq_of_mem_children hmax hk' (by simp [repointed, Constant.children])]
    exact h.text hv
  | methodType descriptor =>
    obtain ⟨descriptor', hk', hr⟩ := textRenamed_of_typed h ht hc hk hi rfl rfl fun _ => by
      simp [repointed, Constant.children]
    exact ⟨_, hk', descriptor', rfl, hr⟩
  | _ => exact ⟨_, (ht.get?_eq hi).trans (h.stays hk rfl), rfl⟩

/-- What a step at a site does to the text there, after trimming. -/
lemma textRenamed_of_replaced (ht : after.Trimmed trimmed) {x y : TextSite}
    (hx : y ∈ after.sites c.pool.namesGenericTable)
    (hr : Revise.Replaced (fun pool => (pool.text x.index).map rename)
      (fun index => { x with index }) final.pool x y) :
    TextRenamed rename c.pool trimmed.pool x.index y.index ∨
      c.pool.size ≤ x.index.toNat ∧ ∃ text, trimmed.pool.text y.index = .ok text := by
  rw [← h.pool] at hr
  have hused : trimmed.pool.text y.index = after.pool.text y.index := by
    refine ht.text_eq (.inl ?_)
    rw [ht.uses_eq]
    exact ClassFile.mem_uses hx y.index_mem_indices
  obtain ⟨text, hv, hv', hstay⟩ : ∃ text, after.pool.text x.index = .ok text ∧
      after.pool.text y.index = .ok ((rename text).getD text) ∧
        (rename text = none → y.index = x.index) := by
    rcases hr with ⟨hn, rfl⟩ | ⟨new, index, hn, hf, rfl⟩
    · obtain ⟨text, hv, he⟩ := Except.map_eq_ok_iff.mp hn
      exact ⟨text, hv, by rw [he]; exact hv, fun _ => rfl⟩
    · obtain ⟨text, hv, he⟩ := Except.map_eq_ok_iff.mp hn
      refine ⟨text, hv, ?_, fun hnone => nomatch he.symm.trans hnone⟩
      rw [he]
      exact Pool.text_eq_ok_iff.mpr (Pool.get?_of_find? h.grows.size_le_max hf)
  rw [← hused] at hv'
  by_cases hx : x.index.toNat < c.pool.size
  · exact .inl ⟨text, (h.grows.text_iff (fun v => ⟨v, rfl⟩) hx).mp hv, hv', hstay⟩
  · exact .inr ⟨not_lt.mp hx, _, hv'⟩

/-- What a step at the simple name of a member class does, after trimming. -/
lemma simpleName_of_replaced (ht : after.Trimmed trimmed) (hc : c.WellFormed)
    {inner outer : UInt16} {y : TextSite}
    (hx : y ∈ after.sites c.pool.namesGenericTable) (hrole : y.role = .simpleName inner outer)
    (hr : Revise.Replaced (r.newSiteText ⟨.simpleName inner outer, i⟩)
      (fun index => ⟨.simpleName inner outer, index⟩) final.pool ⟨.simpleName inner outer, i⟩ y) :
    (∃ old new, FollowsName r c.pool trimmed.pool inner outer i old new ∧
      trimmed.pool.text y.index = .ok new) ∨
    ((¬ ∃ old new, FollowsName r c.pool trimmed.pool inner outer i old new) ∧ y.index = i) ∨
      c.pool.size ≤ i.toNat := by
  by_cases hsize : c.pool.size ≤ i.toNat
  · exact .inr (.inr hsize)
  rw [← h.pool] at hr
  have hmax := (h.wellFormed hc).pool.size_le
  have hused : ∀ j ∈ y.indices, .index j ∈ trimmed.uses := fun j hj => by
    rw [ht.uses_eq]
    exact ClassFile.mem_uses hx hj
  have hinner' : trimmed.pool.className inner = after.pool.className inner :=
    ht.className_eq hmax (.inl (hused _ (by simp [TextSite.indices, hrole])))
  have houter' : trimmed.pool.className outer = after.pool.className outer :=
    ht.className_eq hmax (.inl (hused _ (by simp [TextSite.indices, hrole])))
  have hfollows : ∀ old new, FollowsName r c.pool trimmed.pool inner outer i old new →
      r.newSiteText ⟨.simpleName inner outer, i⟩ after.pool = .ok (some new) := by
    rintro old new ⟨hi, ho, hinner, hold, name, hname, hs⟩
    rw [hinner'] at hinner
    rw [houter'] at hname
    exact newInnerClass?_eq_some_iff.mpr ⟨hi, ho, hinner, old, h.text hold, name, hname, hs⟩
  rcases hr with ⟨hn, rfl⟩ | ⟨new, index, hn, hf, rfl⟩
  · refine .inr (.inl ⟨?_, rfl⟩)
    rintro ⟨old, new, hfollow⟩
    cases hn.symm.trans (hfollows old new hfollow)
  · obtain ⟨hi, ho, hinner, old, hold, name, hname, hs⟩ := newInnerClass?_eq_some_iff.mp hn
    have hold' := (h.grows.text_iff (fun v => ⟨v, rfl⟩) (not_le.mp hsize)).mp hold
    refine .inl ⟨old, new, ⟨hi, ho, hinner'.trans hinner, hold', name, houter'.trans hname, hs⟩, ?_⟩
    rw [ht.text_eq (.inl (hused _ (TextSite.index_mem_indices _)))]
    exact Pool.text_eq_ok_iff.mpr (Pool.get?_of_find? h.grows.size_le_max hf)

/-- **The site after a step** has its text renamed, after trimming. -/
theorem siteRenamed (ht : after.Trimmed trimmed) (hc : c.WellFormed) {x y : TextSite}
    (hx : y ∈ after.sites c.pool.namesGenericTable)
    (hr : Revise.Replaced (r.newSiteText x) (fun index => { x with index }) final.pool x y) :
    SiteRenamed r c.pool trimmed.pool x y := by
  have hrole : y.role = x.role := by
    rcases hr with ⟨-, rfl⟩ | ⟨_, _, -, -, rfl⟩ <;> rfl
  obtain ⟨role, i⟩ := x
  refine ⟨hrole, ?_⟩
  cases role with
  | descriptor => exact textRenamed_of_replaced h ht hx hr
  | signature => exact textRenamed_of_replaced h ht hx hr
  | simpleName inner outer => exact simpleName_of_replaced h ht hc hx hrole hr

end Trimming

/-- A member with the same outline and renamed sites is renamed. -/
lemma memberRenamed {pool pool' : Pool} {generic : UInt16 → Bool} {m m' : Member}
    (ho : m'.outline = m.outline)
    (hs : List.Forall₂ (SiteRenamed r pool pool') (m.sites generic) (m'.sites generic))
    (hname : pool'.text m'.name = pool.text m'.name)
    (hd : ∃ text, pool.text m.descriptor = .ok text) : MemberRenamed r pool pool' m m' := by
  obtain ⟨access, name, descriptor, attributes⟩ := m
  obtain ⟨access', name', descriptor', attributes'⟩ := m'
  simp only [Member.outline, Member.mk.injEq, true_and] at ho
  obtain ⟨rfl, rfl, -⟩ := ho
  simp only [Member.sites, List.forall₂_cons] at hs
  refine ⟨rfl, rfl, hname, ?_⟩
  rcases hs.1.2 with h | ⟨hsize, -⟩
  · exact h
  · obtain ⟨text, hv⟩ := hd
    exact absurd (Pool.lt_size_of_get? (Pool.text_eq_ok_iff.mp hv)) (not_lt.mpr hsize)

/-- What a class renaming and trimming make of a class file. -/
theorem Revises.renamed (h : Revises r c middle final after) (ht : after.Trimmed trimmed)
    (hc : c.WellFormed) : Renamed r c trimmed := by
  have hsites : List.Forall₂ (SiteRenamed r c.pool trimmed.pool)
      (c.sites c.pool.namesGenericTable) (trimmed.sites c.pool.namesGenericTable) := by
    rw [ht.sites_eq]
    exact Except.forall₂_imp_of_mem h.sites.replaced fun x y _ hy => siteRenamed h ht hc hy
  have houtline : trimmed.outline = c.outline := ht.outline_eq.trans h.outline
  have hmember {m m' : Member} (hfits : ∃ depth, m.Fits c.pool depth)
      (hused : .index m'.name ∈ trimmed.uses) (ho : m'.outline = m.outline)
      (hs : List.Forall₂ (SiteRenamed r c.pool trimmed.pool)
        (m.sites c.pool.namesGenericTable) (m'.sites c.pool.namesGenericTable)) :
      MemberRenamed r c.pool trimmed.pool m m' := by
    obtain ⟨depth, ⟨text, hv⟩, hd, -⟩ := hfits
    have hname : m'.name = m.name := (Member.mk.inj ho).2.1
    refine memberRenamed ho hs ?_ hd
    rw [ht.text_eq (.inl hused), hname, hv, h.text hv]
  obtain ⟨hfields, hmethods, -⟩ := ClassFile.forall₂_outline_sites houtline hsites
  refine ⟨houtline, fun i hi hi' => ?_, fun i hi hi' => ?_, fun i hi hi' => ?_,
    Except.forall₂_imp_of_mem hfields fun m m' hm hm' hr =>
      hmember (hc.fields m hm) (ClassFile.name_mem_uses (.inl hm')) hr.1 hr.2,
    Except.forall₂_imp_of_mem hmethods fun m m' hm hm' hr =>
      hmember (hc.methods m hm) (ClassFile.name_mem_uses (.inr hm')) hr.1 hr.2, hsites⟩
  · cases hk : c.pool.get? i with
    | none =>
      rw [ht.get?_eq hi', h.unusable hi hk]
      exact .none
    | some k =>
      obtain ⟨k', hk', hren⟩ := constantRenamed h ht hc hk hi'
      rw [hk']
      exact .some hren
  · obtain ⟨⟨k', hk', hl⟩, hn⟩ := ht.dropped hi (hi'.trans_le h.grows.size_le)
    refine ⟨?_, hn⟩
    cases hk : c.pool.get? i with
    | none => cases (h.unusable hi' hk).symm.trans hk'
    | some k =>
      refine ⟨k, rfl, ?_⟩
      rcases h.get?_cases hk with hg | ⟨-, index, hg⟩
      · obtain rfl := Option.some.inj (hg.symm.trans hk')
        exact hl
      · obtain rfl := Option.some.inj (hg.symm.trans hk')
        cases k <;> trivial
  · obtain ⟨value, hv, -⟩ := h.added hi (hi'.trans_le ht.size_le)
    exact ⟨value, by rw [ht.get?_eq hi', hv]⟩

/-- **A class renaming that yields bytes** changes nothing but the names of the class: the bytes are
those of the class file with every constant and every text at a site renamed, without an unreferenced
end of its pool. -/
theorem renamed_of_reviseBytes {bytes bytes' : List UInt8}
    (h : reviseBytes bytes [.ofClass r] = .ok (some bytes')) :
    ∃ c c', ClassFile.decode bytes = .ok c ∧ ClassFile.decode bytes' = .ok c' ∧ Renamed r c c' := by
  obtain ⟨c, changed, after, hdecode, happly, hresult⟩ := reviseBytes_single_eq_ok_iff.mp h
  rcases hresult with ⟨-, hnone⟩ | ⟨-, trimmed, n, -, htrim, -, hbytes⟩
  · cases hnone
  obtain rfl := Option.some.inj hbytes
  have hc := ClassFile.wellFormed_of_decode hdecode
  obtain ⟨middle, final, hr, -⟩ := revises_of_apply hc happly
  have ht := ClassFile.trimmed_of_trim (hr.wellFormed hc).pool.size_le htrim
  exact ⟨c, trimmed, hdecode, ClassFile.decode_encode (ht.wellFormed (hr.wellFormed hc)),
    hr.renamed ht hc⟩

/-- A class with a field of its own type. -/
def selfTyped (pool : Pool) (descriptor : UInt16) : ClassFile :=
  { ClassFile.blank with pool, thisClass := 2, fields := [⟨0, 3, descriptor, []⟩] }

/-- The pool of a class `A` with a field `f`. -/
def selfTypedPool : Pool :=
  ⟨#[none, some (.text "A"), some (.classRef 1), some (.text "f"), some (.text "LA;")]⟩

/-- The same pool after the class was renamed to `B`. -/
def selfTypedPool' : Pool :=
  ⟨#[none, some (.text "A"), some (.classRef 5), some (.text "f"), some (.text "LA;"),
    some (.text "B"), some (.text "LB;")]⟩

/-- The class constant and the descriptor of a class with a field of its own type are renamed. -/
theorem renamed_selfTyped :
    reviseBytes (selfTyped selfTypedPool 4).encode [.ofClass ⟨"A", "B"⟩] =
        .ok (some (selfTyped selfTypedPool' 6).encode) ∧
      ∃ c c', ClassFile.decode (selfTyped selfTypedPool 4).encode = .ok c ∧
        ClassFile.decode (selfTyped selfTypedPool' 6).encode = .ok c' ∧ Renamed ⟨"A", "B"⟩ c c' := by
  have h : reviseBytes (selfTyped selfTypedPool 4).encode [.ofClass ⟨"A", "B"⟩] =
      .ok (some (selfTyped selfTypedPool' 6).encode) := by decide +kernel
  exact ⟨h, renamed_of_reviseBytes h⟩

end ClassAtlas.ClassRename
