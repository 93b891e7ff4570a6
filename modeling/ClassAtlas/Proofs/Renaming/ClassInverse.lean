import ClassAtlas.Proofs.ClassFile.Tidy
import ClassAtlas.Proofs.Renaming.ClassRevision
import ClassAtlas.Proofs.TypeText.Signature

/-!
# Undoing a class renaming

A class renaming to a name that occurs nowhere in a class file is undone by the renaming back: every
constant and every site that was repointed finds its old text again, which is still in the pool, and
the others have no trace of the new name.

## Main definitions

* `ClassAtlas.ClassRename.inverse` — the renaming back.
* `ClassAtlas.ClassRename.Fresh` — the new name occurs nowhere in a class file.
* `ClassAtlas.ClassRename.Undoes` — a renaming of texts back.

## Main results

* `ClassAtlas.ClassRename.Revises.grows_inverse` — the constants are restored.
* `ClassAtlas.ClassRename.Revises.siteReverts` — so are the sites.
* `ClassAtlas.ClassRename.Revises.inverse` — so is the class file, up to texts behind its pool.
-/

set_option autoImplicit false

namespace ClassAtlas.ClassRename

variable {r : ClassRename}

/-- The renaming that gives the old name back. -/
def inverse (r : ClassRename) : ClassRename := ⟨r.new, r.old⟩

/-- A name without the characters that have a meaning in type texts. -/
def IsClassName (name : String) : Prop :=
  name ≠ "" ∧ ∀ c ∈ name.toList, c ∉ [';', '[', '<', '>', '.', ':']

/-- A class renaming to a name that occurs nowhere in a class file. -/
structure Fresh (r : ClassRename) (c : ClassFile) : Prop where
  /-- The names differ. -/
  ne : r.old ≠ r.new
  /-- The old name is one of a class. -/
  old : IsClassName r.old
  /-- So is the new one. -/
  new : IsClassName r.new
  /-- No text has the new name as a part. -/
  texts : ∀ {i text}, c.pool.text i = .ok text → ¬ r.new.toList <:+: text.toList
  /-- No simple name of a member class is what follows a `$` in the new name. -/
  simpleNames : ∀ {x}, x ∈ c.sites c.pool.namesGenericTable → ∀ {inner outer},
    x.role = .simpleName inner outer → ∀ {text}, c.pool.text x.index = .ok text →
      ¬ '$' :: text.toList <:+ r.new.toList

/-! ### Texts -/

lemma IsClassName.not_mem {name : String} (h : IsClassName name) {c : Char}
    (hc : c ∈ [';', '[', '<', '>', '.', ':']) : c ∉ name.toList :=
  fun hm => h.2 c hm hc

/-- A renaming of texts that introduces a name, and the renaming back. -/
structure Undoes (rename back : String → Option String) (new : String) : Prop where
  /-- Renaming back gives the old text. -/
  back_eq : ∀ {text text'}, ¬ new.toList <:+: text.toList → rename text = some text' →
    back text' = some text
  /-- There is nothing to rename back without the name. -/
  back_eq_none : ∀ {text}, ¬ new.toList <:+: text.toList → back text = none
  /-- A renamed text has the name as a part. -/
  isInfix : ∀ {text text'}, rename text = some text' → new.toList <:+: text'.toList

lemma undoes_descriptor (h : IsClassName r.new) : Undoes r.descriptor? r.inverse.descriptor? r.new where
  back_eq := Descriptor.cut_segments.rename_inverse (h.not_mem (by decide))
  back_eq_none := Descriptor.cut_segments.rename_eq_none
  isInfix h := by
    rw [descriptor?, Descriptor.rename?_eq] at h
    exact Segment.isInfix_of_renameText? h

lemma undoes_signature (h : IsClassName r.new) : Undoes r.signature? r.inverse.signature? r.new where
  back_eq := Signature.cut_segments?.rename_inverse fun c hm hc => h.2 c hm (by
    revert hc
    simp only [List.mem_cons, List.not_mem_nil, or_false]
    tauto)
  back_eq_none := Signature.cut_segments?.rename_eq_none
  isInfix h := by
    rw [signature?, Signature.rename?_eq_renameText?] at h
    exact Segment.isInfix_of_renameText? h

lemma undoes_constant (h : IsClassName r.new) : Undoes r.constant? r.inverse.constant? r.new where
  back_eq := Descriptor.renameConstant?_inverse (h.not_mem (by decide)) (h.not_mem (by decide))
  back_eq_none := Descriptor.renameConstant?_eq_none
  isInfix := Descriptor.isInfix_of_renameConstant?

/-! ### Constants -/

/-- The index of the text for which a constant is looked at. -/
def typedIndex? : Constant → Option UInt16
  | .classRef name => some name
  | .nameAndType _ descriptor | .methodType descriptor => some descriptor
  | _ => none

/-- How the text of a constant is renamed. -/
def renameTyped (r : ClassRename) : Constant → String → Option String
  | .classRef _ => r.constant?
  | _ => r.descriptor?

lemma newConstantText_of_none {k : Constant} (h : typedIndex? k = none) (pool : Pool) :
    r.newConstantText pool k = .ok none := by
  cases k <;> first | rfl | cases h

lemma newConstantText_of_some {k : Constant} {index : UInt16} (h : typedIndex? k = some index)
    (pool : Pool) : r.newConstantText pool k = (pool.text index).map (r.renameTyped k) := by
  cases k <;> cases h <;> rfl

lemma typedIndex?_repointed {k : Constant} {index : UInt16} (h : typedIndex? k = some index)
    (index' : UInt16) : typedIndex? (repointed index' k) = some index' := by
  cases k <;> cases h <;> rfl

lemma renameTyped_repointed (k : Constant) (index : UInt16) :
    r.renameTyped (repointed index k) = r.renameTyped k := by
  cases k <;> rfl

lemma repointed_repointed (k : Constant) (index index' : UInt16) :
    repointed index' (repointed index k) = repointed index' k := by
  cases k <;> rfl

/-- A constant that points at the text that it pointed at is the same. -/
lemma repointed_of_typedIndex? {k : Constant} {index : UInt16} (h : typedIndex? k = some index) :
    repointed index k = k := by
  cases k <;> cases h <;> rfl

/-- A constant refers to the text for which it is looked at. -/
lemma mem_children_of_typedIndex? {k : Constant} {index : UInt16} (h : typedIndex? k = some index) :
    index ∈ k.children := by
  cases k <;> cases h <;> simp [Constant.children]

lemma exists_typedIndex? {k : Constant} (h : IsTyped k) : ∃ index, typedIndex? k = some index := by
  cases k <;> first | exact h.elim | exact ⟨_, rfl⟩

lemma undoes_renameTyped (h : IsClassName r.new) (k : Constant) :
    Undoes (r.renameTyped k) (r.inverse.renameTyped k) r.new := by
  cases k <;> first | exact undoes_constant h | exact undoes_descriptor h

/-! ### Simple names -/

/-- When a simple name stays. -/
lemma newInnerClass?_eq_none_iff {entry : InnerClass} {pool : Pool} :
    r.newInnerClass? entry pool = .ok none ↔ (entry.name = 0 ∨ entry.outer = 0) ∨
      ∃ inner, pool.className entry.inner = .ok inner ∧ (inner ≠ r.new ∨
        ∃ outer, pool.className entry.outer = .ok outer ∧
          ∀ old new, memberSuffix? r.old outer = some old → memberSuffix? r.new outer = some new →
            ∃ simple, pool.text entry.name = .ok simple ∧ simple ≠ old) := by
  unfold newInnerClass?
  split_ifs with hz
  · simp only [Bool.or_eq_true, decide_eq_true_eq] at hz
    exact iff_of_true rfl (.inl hz)
  simp only [Bool.or_eq_true, decide_eq_true_eq] at hz
  rw [or_iff_right hz, Except.bind_eq_ok_iff]
  refine exists_congr fun inner => and_congr_right fun _ => ?_
  split_ifs with hne
  · exact iff_of_true rfl (.inl hne)
  rw [or_iff_right hne, Except.bind_eq_ok_iff]
  refine exists_congr fun outer => and_congr_right fun _ => ?_
  split
  · rename_i old new hold hnew
    rw [Except.bind_eq_ok_iff]
    constructor
    · rintro ⟨simple, hs, h⟩ old' new' hold' hnew'
      refine ⟨simple, hs, ?_⟩
      rintro rfl
      obtain rfl := Option.some.inj (hold.symm.trans hold')
      rw [if_pos rfl] at h
      cases h
    · intro h
      obtain ⟨simple, hs, hne⟩ := h old new hold hnew
      exact ⟨simple, hs, by rw [if_neg hne]; rfl⟩
  · rename_i hnot
    exact iff_of_true rfl fun old new hold hnew => (hnot old new hold hnew).elim

/-- A name that has another one before a `$` ends in what follows the `$`. -/
lemma memberSuffix?_eq_some_iff {name outer suffix : String} :
    memberSuffix? name outer = some suffix ↔
      name.toList = outer.toList ++ '$' :: suffix.toList := by
  simp only [memberSuffix?, Option.ite_none_right_eq_some, List.isPrefixOf_iff_prefix]
  constructor
  · rintro ⟨⟨rest, hrest⟩, h⟩
    obtain rfl := Option.some.inj h
    rw [← hrest, String.toList_ofList, List.drop_left', List.append_assoc]
    · rfl
    · rfl
  · intro h
    have hsplit : outer.toList ++ ['$'] ++ suffix.toList = name.toList := by
      rw [h, List.append_assoc]
      rfl
    refine ⟨⟨_, hsplit⟩, ?_⟩
    rw [← hsplit, List.drop_left' rfl, String.ofList_toList]

/-- The class around a member class with the old name is not renamed. -/
lemma constant?_of_memberSuffix? {outer suffix : String} (hb : '[' ∉ r.old.toList)
    (h : memberSuffix? r.old outer = some suffix) : r.constant? outer = none := by
  have hold := memberSuffix?_eq_some_iff.mp h
  unfold constant? Descriptor.renameConstant?
  rw [if_neg, if_neg]
  · intro hhead
    obtain ⟨rest, hrest⟩ := List.head?_eq_some_iff.mp hhead
    exact hb (by rw [hold, hrest]; exact List.mem_cons_self)
  · rintro rfl
    have hlen := congrArg List.length hold
    simp at hlen

/-- The class around a member class with the old name and with the new one was not renamed. -/
lemma constant?_ne_of_memberSuffix? {text outer old new : String} (hb : '[' ∉ r.old.toList)
    (hold : memberSuffix? r.old outer = some old) (hnew : memberSuffix? r.new outer = some new) :
    r.constant? text ≠ some outer := by
  have hold := memberSuffix?_eq_some_iff.mp hold
  have hnew := memberSuffix?_eq_some_iff.mp hnew
  intro h
  unfold constant? Descriptor.renameConstant? at h
  split_ifs at h with heq hhead
  · obtain rfl := Option.some.inj h
    have hlen := congrArg List.length hnew
    simp at hlen
  · obtain ⟨rest, hrest⟩ := List.head?_eq_some_iff.mp
      (Descriptor.head?_rename (by decide) h hhead)
    exact hb (by rw [hold, hrest]; exact List.mem_cons_self)

/-- Only the old name becomes the new one. -/
lemma eq_old_of_constant? {text : String} (h : IsClassName r.new)
    (hn : ¬ r.new.toList <:+: text.toList) (ht : (r.constant? text).getD text = r.new) :
    text = r.old := by
  cases hren : r.constant? text with
  | none =>
    rw [hren, Option.getD_none] at ht
    exact absurd (ht ▸ List.infix_refl _) hn
  | some new =>
    rw [hren, Option.getD_some] at ht
    subst ht
    unfold constant? Descriptor.renameConstant? at hren
    split_ifs at hren with heq hhead
    · exact heq
    · obtain ⟨rest, hrest⟩ := List.head?_eq_some_iff.mp
        (Descriptor.head?_rename (by decide) hren hhead)
      exact absurd (by rw [hrest]; exact List.mem_cons_self)
        (h.not_mem (show '[' ∈ [';', '[', '<', '>', '.', ':'] by decide))

/-- A constant of a pool before a class renaming and after it, and what the renaming back asks for. -/
def Reverts (r : ClassRename) (pool pool' : Pool) (k k' : Constant) : Prop :=
  (r.newConstantText pool k = .ok none ∧ k' = k ∧ r.inverse.newConstantText pool' k' = .ok none) ∨
  ∃ index index' text new, typedIndex? k = some index ∧ pool.text index = .ok text ∧
    r.newConstantText pool k = .ok (some new) ∧ k' = repointed index' k ∧
    pool'.text index' = .ok new ∧ r.inverse.newConstantText pool' k' = .ok (some text)

/-- A site before a class renaming and after it, and what the renaming back asks for. -/
def SiteReverts (r : ClassRename) (base pool pool' : Pool) (x y : TextSite) : Prop :=
  (r.newSiteText x pool = .ok none ∧ y = x ∧ r.inverse.newSiteText y pool' = .ok none) ∨
  ∃ index text new, base.text x.index = .ok text ∧ r.newSiteText x pool = .ok (some new) ∧
    y = { x with index } ∧ r.inverse.newSiteText y pool' = .ok (some text)

namespace Revises

variable {c after : ClassFile} {middle final : Revision} {i : UInt16} {k : Constant}

/-! ### What is added is in use -/

/-- **The last slot is in use** if the pool has grown: every text that was added is the new text of a
constant or of a site, which points at it. -/
theorem lastIndex_mem (h : Revises r c middle final after)
    (hlt : c.pool.size < after.pool.size) :
    .index after.pool.lastIndex ∈ after.uses ∨ after.pool.lastIndex ∈ after.pool.childIndices := by
  have hmax := h.grows.size_le_max
  have hlast := Pool.toNat_lastIndex hmax
  by_cases hm : after.pool.lastIndex.toNat < middle.pool.size
  · obtain ⟨_, -, ⟨i, d, text, hd, hnew, rfl, -⟩, hf⟩ :=
      h.constants.grows.added (show c.pool.size ≤ _ by omega) hm
    obtain ⟨index, hf', hg⟩ := h.edited hd hnew
    have hf₁ := h.sites.grows.find? trivial hf
    rw [← h.pool] at hf₁
    obtain rfl := Option.some.inj (hf₁.symm.trans hf')
    obtain ⟨index, hi⟩ := exists_typedIndex? (isTyped_of_newConstantText hnew)
    exact .inr ((Pool.mem_childIndices hmax).mpr
      ⟨i, _, hg, mem_children_of_typedIndex? (typedIndex?_repointed hi _)⟩)
  · obtain ⟨_, -, ⟨x, hx, text, hnew, rfl, -⟩, hf⟩ :=
      h.sites.grows.added (not_lt.mp hm) (by rw [← h.pool]; omega)
    obtain ⟨y, hy, hr⟩ := Except.exists_of_forall₂ h.sites.replaced hx
    rcases hr with ⟨hn, -⟩ | ⟨text', index, hn, hf', rfl⟩
    · cases hn.symm.trans hnew
    · obtain rfl := Option.some.inj (Except.ok.inj (hn.symm.trans hnew))
      obtain rfl := Option.some.inj (hf'.symm.trans hf)
      exact .inl (ClassFile.mem_uses hy (TextSite.index_mem_indices _))

/-! ### The constants back -/

/-- **The renaming back asks for the old text** of every constant that was repointed, and for no
other. -/
theorem reverts (h : Revises r c middle final after) (hr : r.Fresh c)
    (hk : c.pool.get? i = some k) :
    ∃ k', after.pool.get? i = some k' ∧ r.Reverts c.pool after.pool k k' := by
  cases hi : typedIndex? k with
  | none =>
    have hn := newConstantText_of_none (r := r) hi c.pool
    exact ⟨k, h.stays hk hn, .inl ⟨hn, rfl, newConstantText_of_none hi _⟩⟩
  | some index =>
    obtain ⟨new, ht⟩ := h.constants.resolves hk
    have hnew := newConstantText_of_some (r := r) hi c.pool
    obtain ⟨text, hv, rfl⟩ := Except.map_eq_ok_iff.mp (hnew.symm.trans ht)
    have hu := undoes_renameTyped hr.new k
    cases hren : r.renameTyped k text with
    | none =>
      rw [hren] at ht
      refine ⟨k, h.stays hk ht, .inl ⟨ht, rfl, ?_⟩⟩
      rw [newConstantText_of_some hi, h.text hv]
      exact congrArg Except.ok (hu.back_eq_none (hr.texts hv))
    | some new =>
      rw [hren] at ht
      obtain ⟨index', hf, hg⟩ := h.edited hk ht
      have hv' := Pool.text_eq_ok_iff.mpr (Pool.get?_of_find? h.grows.size_le_max hf)
      refine ⟨_, hg, .inr ⟨index, index', text, new, hi, hv, ht, rfl, hv', ?_⟩⟩
      rw [newConstantText_of_some (typedIndex?_repointed hi index'), renameTyped_repointed, hv']
      exact congrArg Except.ok (hu.back_eq (hr.texts hv) hren)

/-- No text is in two slots afterwards. -/
lemma distinct (h : Revises r c middle final after) (hd : c.pool.Distinct Constant.IsText) :
    after.pool.Distinct Constant.IsText :=
  h.grows.distinct hd fun _ => id

/-- The texts of a class file are held afterwards. -/
lemma holds (h : Revises r c middle final after) (hc : c.WellFormed)
    (hd : c.pool.Distinct Constant.IsText) {text : String} (hv : c.pool.text i = .ok text) :
    after.pool.Holds text := by
  have hg := Pool.text_eq_ok_iff.mp hv
  exact ⟨hc.pool.fits_of_get? hg, i, (h.distinct hd).find?_eq h.grows.size_le_max ⟨_, rfl⟩
    (Pool.text_eq_ok_iff.mp (h.text hv))⟩

/-- Every constant has a new text that the pool holds already, or none. -/
lemma newConstantText_inverse (h : Revises r c middle final after) (hc : c.WellFormed)
    (hd : c.pool.Distinct Constant.IsText) (hr : r.Fresh c) (hk : after.pool.get? i = some k) :
    ∃ text, r.inverse.newConstantText after.pool k = .ok text ∧
      ∀ value ∈ text, after.pool.Holds value := by
  by_cases hi : i.toNat < c.pool.size
  · cases hk₀ : c.pool.get? i with
    | none => cases (h.unusable hi hk₀).symm.trans hk
    | some k₀ =>
      obtain ⟨k', hk', hrev⟩ := h.reverts hr hk₀
      obtain rfl := Option.some.inj (hk'.symm.trans hk)
      rcases hrev with ⟨-, -, ht⟩ | ⟨_, _, text, _, -, hv, -, -, -, ht⟩
      · exact ⟨none, ht, by simp⟩
      · exact ⟨some text, ht, fun value hm => Option.some.inj hm ▸ h.holds hc hd hv⟩
  · obtain ⟨value, hg, -⟩ := h.added (not_lt.mp hi) (Pool.lt_size_of_get? hk)
    obtain rfl := Option.some.inj (hg.symm.trans hk)
    exact ⟨none, rfl, by simp⟩

variable {middle' : Revision}

/-- **The renaming back restores the constants** of the class file. Behind them are the texts that the
renaming added. -/
theorem grows_inverse (h : Revises r c middle final after) (hc : c.WellFormed)
    (hd : c.pool.Distinct Constant.IsText) (hr : r.Fresh c)
    (hback : RevisesPool r.inverse ⟨after.pool, false, none⟩ middle') :
    middle'.pool.size = after.pool.size ∧
      Pool.Grows (fun _ => True) Constant.IsText c.pool middle'.pool := by
  have hsize : middle'.pool.size = after.pool.size := by
    refine hback.grows.size_eq ?_
    rintro _ ⟨i, k, text, hk, ht, rfl, -⟩
    obtain ⟨text', ht', hheld⟩ := h.newConstantText_inverse hc hd hr hk
    obtain rfl := Except.ok.inj (ht'.symm.trans ht)
    exact (hheld text rfl).2
  have hdistinct : middle'.pool.Distinct Constant.IsText :=
    hback.grows.distinct (h.distinct hd) fun _ => id
  have hmax := hback.grows.size_le_max
  have htext : ∀ {i : UInt16} {text : String}, after.pool.text i = .ok text →
      middle'.pool.text i = .ok text := fun hv => hback.grows.text (fun v => ⟨v, rfl⟩) hv
  have hkept : ∀ i : UInt16, i.toNat < c.pool.size → middle'.pool.get? i = c.pool.get? i := by
    intro i hi
    cases hk : c.pool.get? i with
    | none => exact hback.unusable (hi.trans_le h.grows.size_le) (h.unusable hi hk)
    | some k =>
      obtain ⟨k', hk', hrev⟩ := h.reverts hr hk
      rcases hrev with ⟨-, rfl, ht⟩ | ⟨index, index', text, _, hindex, hv, -, rfl, -, ht⟩
      · exact hback.stays hk' ht
      · obtain ⟨index'', hf, hg⟩ := hback.edited hk' ht
        have hold := hdistinct.find?_eq hmax ⟨_, rfl⟩ (Pool.text_eq_ok_iff.mp (htext (h.text hv)))
        obtain rfl := Option.some.inj (hold.symm.trans hf)
        rw [hg, repointed_repointed, repointed_of_typedIndex? hindex]
  refine ⟨hsize, hsize ▸ h.grows.size_le, hmax, fun hi _ _ => by rw [hkept _ hi],
    fun {i} hi hi' => ?_⟩
  obtain ⟨value, hg, -⟩ := h.added hi (hsize ▸ hi')
  have hv := Pool.text_eq_ok_iff.mp (htext (Pool.text_eq_ok_iff.mpr hg))
  exact ⟨_, trivial, ⟨value, rfl⟩, hdistinct.find?_eq hmax ⟨value, rfl⟩ hv⟩

/-! ### The sites back -/

/-- Classes have their new names afterwards. -/
lemma className (h : Revises r c middle final after) {name : String}
    (hn : c.pool.className i = .ok name) :
    after.pool.className i = .ok ((r.constant? name).getD name) := by
  obtain ⟨n, hk, hv⟩ := Pool.className_eq_ok_iff.mp hn
  obtain ⟨n', name', hk', hv₀, hv', -⟩ := h.typed hk rfl rfl
  obtain rfl := Except.ok.inj (hv.symm.trans hv₀)
  exact Pool.className_eq_ok_iff.mpr ⟨n', hk', hv'⟩

/-- What is a class afterwards was one before. -/
lemma exists_className (h : Revises r c middle final after) (hi : i.toNat < c.pool.size)
    {name' : String} (hn : after.pool.className i = .ok name') :
    ∃ name, c.pool.className i = .ok name ∧ name' = (r.constant? name).getD name := by
  suffices hex : ∃ name, c.pool.className i = .ok name by
    obtain ⟨name, hname⟩ := hex
    exact ⟨name, hname, Except.ok.inj (hn.symm.trans (h.className hname))⟩
  obtain ⟨n', hk', -⟩ := Pool.className_eq_ok_iff.mp hn
  cases hk : c.pool.get? i with
  | none => cases (h.unusable hi hk).symm.trans hk'
  | some k =>
    obtain ⟨n, rfl⟩ : ∃ n, k = .classRef n := by
      rcases h.get?_cases hk with hg | ⟨hty, index, hg⟩
      · exact ⟨n', Option.some.inj (hg.symm.trans hk')⟩
      · have he := Option.some.inj (hg.symm.trans hk')
        cases k <;> first | exact ⟨_, rfl⟩ | cases he
    obtain ⟨text, ht⟩ := h.constants.resolves hk
    obtain ⟨name, hv, -⟩ := Except.map_eq_ok_iff.mp ht
    exact ⟨name, Pool.className_eq_ok_iff.mpr ⟨n, hk, hv⟩⟩

variable {pool : Pool} {added : Constant → Prop} {x y : TextSite}

/-- The renaming back asks for the old descriptor or signature where there was one. -/
lemma siteReverts_of_text (h : Revises r c middle final after) (hr : r.Fresh c)
    (hx : x.index.toNat < c.pool.size) {rename back : String → Option String}
    (hu : Undoes rename back r.new)
    (hnew : ∀ pool, r.newSiteText x pool = (pool.text x.index).map rename)
    (hback : ∀ pool index, r.inverse.newSiteText { x with index } pool = (pool.text index).map back)
    (ht : ∀ {i text}, after.pool.text i = .ok text → pool.text i = .ok text)
    (hrep : Revise.Replaced (r.newSiteText x) (fun index => { x with index }) after.pool x y) :
    r.SiteReverts c.pool after.pool pool x y := by
  rcases hrep with ⟨hn, rfl⟩ | ⟨new, index, hn, hf, rfl⟩
  · obtain ⟨text, hv, hnone⟩ := Except.map_eq_ok_iff.mp ((hnew _).symm.trans hn)
    have hv₀ := (h.grows.text_iff (fun v => ⟨v, rfl⟩) hx).mp hv
    refine .inl ⟨hn, rfl, ?_⟩
    rw [hback pool y.index, ht hv]
    exact congrArg Except.ok (hu.back_eq_none (hr.texts hv₀))
  · obtain ⟨text, hv, hsome⟩ := Except.map_eq_ok_iff.mp ((hnew _).symm.trans hn)
    have hv₀ := (h.grows.text_iff (fun v => ⟨v, rfl⟩) hx).mp hv
    have hv' := Pool.text_eq_ok_iff.mpr (Pool.get?_of_find? h.grows.size_le_max hf)
    refine .inr ⟨index, text, new, hv₀, hn, rfl, ?_⟩
    rw [hback pool index, ht hv']
    exact congrArg Except.ok (hu.back_eq (hr.texts hv₀) hsome)

/-- The renaming back asks for the old simple name of a member class where there was a new one. -/
lemma siteReverts_of_simpleName (h : Revises r c middle final after) (hc : c.WellFormed)
    (hr : r.Fresh c) {inner outer index : UInt16}
    (hx : ⟨.simpleName inner outer, index⟩ ∈ c.sites c.pool.namesGenericTable)
    (hwithin : ∀ i ∈ [index, inner, outer], i.toNat < c.pool.size)
    (hg : Pool.Grows (fun _ => True) added c.pool pool)
    (ht : ∀ {i text}, after.pool.text i = .ok text → pool.text i = .ok text)
    (hrep : Revise.Replaced (r.newSiteText ⟨.simpleName inner outer, index⟩)
      (fun i => ⟨.simpleName inner outer, i⟩) after.pool ⟨.simpleName inner outer, index⟩ y) :
    r.SiteReverts c.pool after.pool pool ⟨.simpleName inner outer, index⟩ y := by
  have hb : '[' ∉ r.old.toList := hr.old.not_mem (by decide)
  have htext : ∀ {text}, after.pool.text index = .ok text → c.pool.text index = .ok text := fun hv =>
    (h.grows.text_iff (fun v => ⟨v, rfl⟩) (hwithin _ (by simp))).mp hv
  have hclass : ∀ {i name}, c.pool.className i = .ok name → pool.className i = .ok name := fun hn =>
    hg.className (fun _ => trivial) (fun _ => trivial) hn
  rcases hrep with ⟨hn, rfl⟩ | ⟨new, index', hn, hf, rfl⟩
  · refine .inl ⟨hn, rfl, newInnerClass?_eq_none_iff.mpr ?_⟩
    rcases newInnerClass?_eq_none_iff.mp hn with hz | ⟨name', hname', hstay⟩
    · exact .inl hz
    obtain ⟨name, hname, rfl⟩ := h.exists_className (hwithin _ (by simp)) hname'
    refine .inr ⟨name, hclass hname, ?_⟩
    by_cases hne : name = r.old
    · -- the class has the old name, so the class around it was looked at
      have hnew : (r.constant? name).getD name = r.new := by
        rw [hne, constant?, Descriptor.renameConstant?, if_pos rfl]
        rfl
      obtain ⟨around', haround', hstay⟩ := hstay.resolve_left fun hn => hn hnew
      obtain ⟨around, haround, rfl⟩ := h.exists_className (hwithin _ (by simp)) haround'
      refine .inr ⟨around, hclass haround, fun new old hsnew hsold => ?_⟩
      rw [show r.inverse.new = r.old from rfl] at hsold
      rw [show r.inverse.old = r.new from rfl] at hsnew
      rw [constant?_of_memberSuffix? hb hsold] at hstay
      obtain ⟨simple, hs, -⟩ := hstay old new hsold hsnew
      refine ⟨simple, ht hs, ?_⟩
      rintro rfl
      refine hr.simpleNames hx rfl (htext hs) ⟨around.toList, ?_⟩
      exact (memberSuffix?_eq_some_iff.mp hsnew).symm
    · exact .inl hne
  · obtain ⟨hz, hz', hinner', old, hold, around', haround', hsold, hsnew⟩ :=
      newInnerClass?_eq_some_iff.mp hn
    obtain ⟨name, hname, hren⟩ := h.exists_className (hwithin _ (by simp)) hinner'
    obtain ⟨around, haround, hren'⟩ := h.exists_className (hwithin _ (by simp)) haround'
    have hv' := Pool.get?_of_find? h.grows.size_le_max hf
    refine .inr ⟨index', old, new, htext hold, hn, rfl, newInnerClass?_eq_some_iff.mpr
      ⟨?_, hz', ?_, new, ht (Pool.text_eq_ok_iff.mpr hv'), around', ?_, hsnew, hsold⟩⟩
    · rintro rfl
      cases (h.wellFormed_pool hc).get?_zero.symm.trans hv'
    · obtain ⟨n, -, hv⟩ := Pool.className_eq_ok_iff.mp hname
      obtain rfl := eq_old_of_constant? hr.new (hr.texts hv) hren.symm
      exact hclass hname
    · obtain rfl : around' = around := by
        cases hnone : r.constant? around with
        | none => rw [hren', hnone, Option.getD_none]
        | some text =>
          rw [hnone, Option.getD_some] at hren'
          exact absurd (hren' ▸ hnone) (constant?_ne_of_memberSuffix? hb hsold hsnew)
      exact hclass haround

/-- **The renaming back asks for the old text** at every site that was replaced, and at no other. -/
theorem siteReverts (h : Revises r c middle final after) (hc : c.WellFormed) (htidy : c.Tidy)
    (hr : r.Fresh c) (hg : Pool.Grows (fun _ => True) added c.pool pool)
    (ht : ∀ {i text}, after.pool.text i = .ok text → pool.text i = .ok text)
    (hx : x ∈ c.sites c.pool.namesGenericTable)
    (hrep : Revise.Replaced (r.newSiteText x) (fun index => { x with index }) final.pool x y) :
    r.SiteReverts c.pool after.pool pool x y := by
  rw [← h.pool] at hrep
  have hwithin : ∀ i ∈ x.indices, i.toNat < c.pool.size := fun i hi =>
    htidy.within (.inl (ClassFile.mem_uses hx hi))
  have hindex := hwithin _ x.index_mem_indices
  obtain ⟨role, index⟩ := x
  cases role with
  | descriptor =>
    exact h.siteReverts_of_text hr hindex (undoes_descriptor hr.new) (fun _ => rfl)
      (fun _ _ => rfl) ht hrep
  | signature =>
    exact h.siteReverts_of_text hr hindex (undoes_signature hr.new) (fun _ => rfl)
      (fun _ _ => rfl) ht hrep
  | simpleName inner outer =>
    exact h.siteReverts_of_simpleName hc hr hx hwithin hg ht hrep

/-! ### The class file back -/

/-- The sites afterwards, seen from the pool before and from the pool afterwards. -/
lemma sites_eq (h : Revises r c middle final after) (hc : c.WellFormed) :
    after.sites c.pool.namesGenericTable = after.sites after.pool.namesGenericTable := by
  refine ClassFile.sites_congr hc h.outline fun i text hv => ?_
  rw [Pool.namesGenericTable, Pool.namesGenericTable, Pool.text_eq_ok_iff.mp hv,
    Pool.text_eq_ok_iff.mp (h.text hv)]

/-- **The renaming back does not fail.** -/
theorem exists_apply_inverse (h : Revises r c middle final after) (hc : c.WellFormed)
    (htidy : c.Tidy) (hr : r.Fresh c) :
    ∃ changed back, (Renaming.ofClass r.inverse).apply after = (.ok changed, back) := by
  have hd : c.pool.Distinct Constant.IsText := by
    rintro i j _ ⟨value, rfl⟩
    exact @htidy.distinct i j (.text value) trivial
  have hafter := h.wellFormed hc
  have hrun := fault_revisePool (r := r.inverse) (s := ⟨after.pool, false, none⟩) rfl
    hafter.pool.size_le fun i k hk => h.newConstantText_inverse hc hd hr hk
  rcases hpool : r.inverse.revisePool ⟨after.pool, false, none⟩ with ⟨_, middle'⟩
  have hfault : middle'.fault = none := by
    rw [hpool] at hrun
    exact hrun
  have hback := revisePool_spec hafter.pool.size_le hpool hfault
  obtain ⟨-, hg⟩ := h.grows_inverse hc hd hr hback
  have ht : ∀ {i text}, after.pool.text i = .ok text → middle'.pool.text i = .ok text := fun hv =>
    hback.grows.text (fun v => ⟨v, rfl⟩) hv
  have hsites : ∀ y ∈ after.sites after.pool.namesGenericTable,
      r.inverse.newSiteText y middle'.pool = .ok none ∨
        ∃ text, r.inverse.newSiteText y middle'.pool = .ok (some text) ∧
          middle'.pool.Holds text := by
    intro y hy
    rw [← h.sites_eq hc] at hy
    obtain ⟨x, hx, hrep⟩ := Except.exists_of_forall₂ h.sites.replaced.flip hy
    rcases h.siteReverts hc htidy hr hg ht hx hrep with
      ⟨-, -, hn⟩ | ⟨index, text, new, hv, -, -, hn⟩
    · exact .inl hn
    · exact .inr ⟨text, hn, (h.holds hc hd hv).grow hback.grows fun v => ⟨v, rfl⟩⟩
  have hresolves : Resolves after.pool middle' := fun _ => ⟨hg.size_le_max, fun _ _ => ht⟩
  obtain ⟨-, found, hfound, -⟩ := follows_reviseTrees hafter middle' hresolves
  obtain ⟨_, changed, heval, -⟩ :=
    @Revise.replaceTexts_eval _ _ _ (fun x index => { x with index }) _ hfault hsites
  rcases htrees : r.inverse.reviseTrees after middle' with ⟨trees, final'⟩
  rw [htrees] at hfound
  obtain ⟨-, rfl⟩ := Prod.mk.inj (hfound.symm.trans heval)
  refine ⟨changed, { trees with pool := middle'.pool }, ?_⟩
  simp only [Renaming.apply, Renaming.revise, revise_run, hpool, htrees, hfault]

/-- **A renaming that renames something adds a text** to the pool: one with the new name. -/
theorem lt_size_of_changed (h : Revises r c middle final after) (hr : r.Fresh c)
    (hchanged : final.changed = true) : c.pool.size < after.pool.size := by
  have hmax := h.grows.size_le_max
  have hnew : ∃ i text, after.pool.text i = .ok text ∧ r.new.toList <:+: text.toList := by
    rw [h.sites.changed_iff, h.constants.changed_iff] at hchanged
    rcases hchanged with (hfalse | ⟨i, k, new, hk, hn⟩) | ⟨x, hx, new, hn⟩
    · cases hfalse
    · obtain ⟨index, hi⟩ := exists_typedIndex? (isTyped_of_newConstantText hn)
      obtain ⟨index', hf, -⟩ := h.edited hk hn
      rw [newConstantText_of_some hi] at hn
      obtain ⟨text, -, hsome⟩ := Except.map_eq_ok_iff.mp hn
      exact ⟨index', new, Pool.text_eq_ok_iff.mpr (Pool.get?_of_find? hmax hf),
        (undoes_renameTyped hr.new k).isInfix hsome⟩
    · obtain ⟨y, -, hy⟩ := Except.exists_of_forall₂ h.sites.replaced hx
      obtain ⟨index, hindex⟩ : ∃ index, after.pool.text index = .ok new := by
        rcases hy with ⟨hn', -⟩ | ⟨text, index, hn', hf, -⟩
        · cases hn'.symm.trans hn
        · obtain rfl := Option.some.inj (Except.ok.inj (hn'.symm.trans hn))
          rw [← h.pool] at hf
          exact ⟨index, Pool.text_eq_ok_iff.mpr (Pool.get?_of_find? hmax hf)⟩
      obtain ⟨role, i⟩ := x
      cases role with
      | descriptor =>
        obtain ⟨text, -, hsome⟩ := Except.map_eq_ok_iff.mp hn
        exact ⟨index, new, hindex, (undoes_descriptor hr.new).isInfix hsome⟩
      | signature =>
        obtain ⟨text, -, hsome⟩ := Except.map_eq_ok_iff.mp hn
        exact ⟨index, new, hindex, (undoes_signature hr.new).isInfix hsome⟩
      | simpleName inner outer =>
        -- the new simple name may be an old text, but the class has its new name
        obtain ⟨-, -, hinner, -⟩ := newInnerClass?_eq_some_iff.mp hn
        obtain ⟨n, -, hv⟩ := Pool.className_eq_ok_iff.mp hinner
        exact ⟨n, r.new, h.pool ▸ hv, List.infix_refl _⟩
  obtain ⟨i, text, hv, hinfix⟩ := hnew
  by_contra hle
  have hlt := Pool.lt_size_of_get? (Pool.text_eq_ok_iff.mp hv)
  exact hr.texts ((h.grows.text_iff (fun v => ⟨v, rfl⟩) (by omega)).mp hv) hinfix

variable {back : ClassFile} {final' : Revision}

/-- The pool grows by texts through the renaming and the renaming back. -/
lemma grows_back (h : Revises r c middle final after) (hc : c.WellFormed)
    (hd : c.pool.Distinct Constant.IsText) (hr : r.Fresh c)
    (h' : Revises r.inverse after middle' final' back) :
    Pool.Grows (fun _ => True) Constant.IsText c.pool back.pool := by
  obtain ⟨-, hg⟩ := h.grows_inverse hc hd hr h'.constants
  rw [h'.pool]
  refine hg.trans (h'.sites.grows.widen ?_)
  rintro _ ⟨_, -, text, -, rfl, -⟩
  exact ⟨text, rfl⟩

/-- A site gets its text back. -/
lemma siteReverts_back (h : Revises r c middle final after) (hc : c.WellFormed) (htidy : c.Tidy)
    (hr : r.Fresh c) (h' : Revises r.inverse after middle' final' back)
    (hback : Pool.Grows (fun _ => True) Constant.IsText c.pool back.pool) {x y : TextSite}
    (hx : x ∈ c.sites c.pool.namesGenericTable)
    (hxy : Revise.Replaced (r.newSiteText x) (fun index => { x with index }) final.pool x y) :
    r.SiteReverts c.pool after.pool final'.pool x y := by
  rw [← h'.pool]
  exact h.siteReverts hc htidy hr hback (fun hv => h'.text hv) hx hxy

/-- **The renaming back restores the sites.** -/
lemma sites_inverse (h : Revises r c middle final after) (hc : c.WellFormed) (htidy : c.Tidy)
    (hd : c.pool.Distinct Constant.IsText) (hr : r.Fresh c)
    (h' : Revises r.inverse after middle' final' back) :
    back.sites c.pool.namesGenericTable = c.sites c.pool.namesGenericTable := by
  have hback := h.grows_back hc hd hr h'
  have hdistinct : back.pool.Distinct Constant.IsText := hback.distinct hd fun _ _ => trivial
  have hsites := h'.sites.replaced
  rw [← h.sites_eq hc] at hsites
  have hgeneric : back.sites after.pool.namesGenericTable =
      back.sites c.pool.namesGenericTable := by
    refine (ClassFile.sites_congr hc (h'.outline.trans h.outline) fun i text hv => ?_).symm
    rw [Pool.namesGenericTable, Pool.namesGenericTable, Pool.text_eq_ok_iff.mp hv,
      Pool.text_eq_ok_iff.mp (h.text hv)]
  rw [hgeneric] at hsites
  refine Except.eq_of_forall₂ h.sites.replaced hsites fun x hx y z hxy hyz => ?_
  rcases h.siteReverts_back hc htidy hr h' hback hx hxy with
    ⟨-, rfl, hn⟩ | ⟨index, text, new, hv, -, rfl, hn⟩
  · rcases hyz with ⟨-, rfl⟩ | ⟨_, _, hn', -, -⟩
    · rfl
    · cases hn.symm.trans hn'
  · rcases hyz with ⟨hn', -⟩ | ⟨_, index', hn', hf, rfl⟩
    · cases hn.symm.trans hn'
    · obtain rfl := Option.some.inj (Except.ok.inj (hn.symm.trans hn'))
      have hold := hdistinct.find?_eq hback.size_le_max ⟨_, rfl⟩
        (Pool.text_eq_ok_iff.mp (h'.text (h.text hv)))
      rw [← h'.pool] at hf
      obtain rfl := Option.some.inj (hold.symm.trans hf)
      rfl

/-- The renaming back renames something if the renaming did. -/
lemma changed_inverse (h : Revises r c middle final after) (hc : c.WellFormed) (htidy : c.Tidy)
    (hr : r.Fresh c) (h' : Revises r.inverse after middle' final' back)
    (hback : Pool.Grows (fun _ => True) Constant.IsText c.pool back.pool)
    (hchanged : final.changed = true) : final'.changed = true := by
  rw [h'.sites.changed_iff, h'.constants.changed_iff]
  rw [h.sites.changed_iff, h.constants.changed_iff] at hchanged
  rcases hchanged with (hfalse | ⟨i, k, new, hk, hn⟩) | ⟨x, hx, new, hn⟩
  · cases hfalse
  · obtain ⟨k', hk', hrev⟩ := h.reverts hr hk
    rcases hrev with ⟨hn', -, -⟩ | ⟨_, _, text, _, -, -, -, -, -, ht⟩
    · cases hn.symm.trans hn'
    · exact .inl (.inr ⟨i, k', text, hk', ht⟩)
  · obtain ⟨y, hy, hxy⟩ := Except.exists_of_forall₂ h.sites.replaced hx
    rw [← h.pool] at hn
    rcases h.siteReverts_back hc htidy hr h' hback hx hxy with ⟨hn', -, -⟩ | ⟨_, text, _, -, -, -, ht⟩
    · cases hn.symm.trans hn'
    · rw [h.sites_eq hc] at hy
      exact .inr ⟨y, hy, text, ht⟩

/-- **The renaming back restores the class file**, up to texts behind its pool, and renames something
if the renaming did. -/
theorem inverse (h : Revises r c middle final after) (hc : c.WellFormed) (htidy : c.Tidy)
    (hr : r.Fresh c) (h' : Revises r.inverse after middle' final' back) :
    back = { c with pool := back.pool } ∧ Pool.Appends c.pool back.pool ∧
      (final.changed = true → final'.changed = true) := by
  have hd : c.pool.Distinct Constant.IsText := by
    rintro i j _ ⟨value, rfl⟩
    exact @htidy.distinct i j (.text value) trivial
  have hback := h.grows_back hc hd hr h'
  refine ⟨?_, ⟨hback.size_le, hback.get?_eq, fun {i} hi hi' => ?_⟩,
    h.changed_inverse hc htidy hr h' hback⟩
  · exact @ClassFile.ext_outline c.pool.namesGenericTable back { c with pool := back.pool } rfl
      (h'.outline.trans h.outline) (h.sites_inverse hc htidy hd hr h')
  · obtain ⟨_, -, ⟨value, rfl⟩, hf⟩ := hback.added hi hi'
    exact ⟨_, Pool.get?_of_find? hback.size_le_max hf, trivial, by simp [Constant.children]⟩

end Revises

/-- **A class renaming to a fresh name can be undone**: the renaming back renames something, and it
yields the class file, up to constants behind its pool. -/
theorem exists_apply_inverse_of_trim {c after trimmed : ClassFile} {n : Nat} (hc : c.WellFormed)
    (htidy : c.Tidy) (hr : r.Fresh c) (happly : (Renaming.ofClass r).apply c = (.ok true, after))
    (htrim : after.trim = .ok (trimmed, n)) :
    trimmed.WellFormed ∧ ∃ back, (Renaming.ofClass r.inverse).apply trimmed = (.ok true, back) ∧
      back = { c with pool := back.pool } ∧ Pool.Appends c.pool back.pool ∧
        back.pool.size ≤ Pool.maxSize := by
  obtain ⟨middle, final, h, hchanged⟩ := revises_of_apply hc happly
  have hlt := h.lt_size_of_changed hr hchanged.symm
  obtain rfl := ClassFile.eq_of_trim htrim h.grows.size_le_max (h.lastIndex_mem hlt)
  obtain ⟨changed, back, hback⟩ := h.exists_apply_inverse hc htidy hr
  obtain ⟨middle', final', h', rfl⟩ := revises_of_apply (h.wellFormed hc) hback
  obtain ⟨heq, happends, hagain⟩ := h.inverse hc htidy hr h'
  rw [hagain hchanged.symm] at hback
  exact ⟨h.wellFormed hc, back, hback, heq, happends, h'.grows.size_le_max⟩

end ClassAtlas.ClassRename
