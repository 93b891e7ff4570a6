import ClassAtlas.Proofs.Renaming.ClassExact
import ClassAtlas.Proofs.Renaming.ClassInverse
import ClassAtlas.Proofs.Renaming.MemberInverse

/-!
# Renaming again

A renaming finds nothing to rename in what it made. Every place that it looks at resolves, because it
did so the first time, and has either the new name or never had the old one.

## Main definitions

* `ClassAtlas.ClassRename.ReadsWhole` — a new name that every type text reads as a whole.
* `ClassAtlas.ClassRename.Absent` — no place of a class file names a class.
* `ClassAtlas.Renaming.Lasting` — a renaming that leaves nothing of the old name.

## Main results

* `ClassAtlas.ClassRename.apply_of_absent` — nothing is renamed where a class is not named.
* `ClassAtlas.ClassRename.Revises.absent` — a class renaming leaves no place with the old name.
* `ClassAtlas.MemberRename.Revises.not_occurs` — neither does a member renaming.
* `ClassAtlas.Renaming.apply_again` — a renaming finds nothing in the bytes that it yielded.
-/

set_option autoImplicit false

namespace ClassAtlas

/-! ### Classes -/

namespace ClassRename

variable {r : ClassRename} {c after trimmed : ClassFile} {middle final : Revision}

/-- The new name of a class is another one, and every type text reads it as a whole. -/
structure ReadsWhole (r : ClassRename) : Prop where
  /-- The names are different. -/
  ne : r.old ≠ r.new
  /-- Nothing in the new name has a meaning in type texts. -/
  plain : ∀ c ∈ r.new.toList, c ∉ [';', '[', '<', '.']

/-- No place of a class file names the class, and every place resolves. -/
structure Absent (r : ClassRename) (c : ClassFile) : Prop where
  /-- No constant names it. -/
  constants : ∀ {i k}, c.pool.get? i = some k → r.newConstantText c.pool k = .ok none
  /-- No site names it. -/
  sites : ∀ {x}, x ∈ c.sites c.pool.namesGenericTable → r.newSiteText x c.pool = .ok none

/-! #### Texts -/

lemma ReadsWhole.not_mem (h : r.ReadsWhole) {c : Char} (hc : c ∈ [';', '[', '<', '.']) :
    c ∉ r.new.toList :=
  fun hm => h.plain c hm hc

lemma descriptor?_again (h : r.ReadsWhole) {text text' : String} (ht : r.descriptor? text = some text') :
    r.descriptor? text' = none :=
  Descriptor.cut_segments.rename_again (h.not_mem (by decide)) h.ne ht

lemma signature?_again (h : r.ReadsWhole) {text text' : String} (ht : r.signature? text = some text') :
    r.signature? text' = none :=
  Signature.cut_segments?.rename_again (fun c hm hc => h.plain c hm (by
    revert hc
    simp only [List.mem_cons, List.not_mem_nil, or_false]
    tauto)) h.ne ht

lemma renameTyped_again (h : r.ReadsWhole) (k : Constant) {text text' : String}
    (ht : r.renameTyped k text = some text') : r.renameTyped k text' = none := by
  cases k <;> first
    | exact Descriptor.renameConstant?_again (h.not_mem (by decide)) (h.not_mem (by decide)) h.ne ht
    | exact descriptor?_again h ht

/-- A text that was renamed if it could be cannot be renamed again. -/
lemma rename_getD {rename : String → Option String}
    (hagain : ∀ {text text'}, rename text = some text' → rename text' = none) (text : String) :
    rename ((rename text).getD text) = none := by
  cases ht : rename text with
  | none => exact ht
  | some text' => exact hagain ht

/-! #### Nothing to rename -/

/-- Where no constant names the class, no constant is edited. -/
lemma revisePool_of_absent (hc : c.WellFormed) (h : r.Absent c) :
    r.revisePool ⟨c.pool, false, none⟩ = ((), ⟨c.pool, false, none⟩) := by
  obtain ⟨classes, descriptors, hp⟩ :=
    exists_plan hc.pool.size_le fun i k hk => ⟨none, h.constants hk⟩
  have hplan := plan_spec hc.pool.size_le hp
  have hnone : classes ++ descriptors = [] := by
    refine List.eq_nil_iff_forall_not_mem.mpr ?_
    rintro ⟨i, text⟩ he
    obtain ⟨k, hk, ht⟩ := hplan.mem_iff.mp he
    cases (h.constants hk).symm.trans ht
  rw [revisePool_run (s := ⟨c.pool, false, none⟩) rfl hp, hnone]
  rfl

/-- **Where the class is not named, nothing is renamed**, and nothing fails. -/
theorem apply_of_absent (hc : c.WellFormed) (h : r.Absent c) :
    ((Renaming.ofClass r).apply c).1 = .ok false := by
  have hresolves : Resolves c.pool ⟨c.pool, false, none⟩ := fun _ =>
    ⟨hc.pool.size_le, fun _ _ hv => hv⟩
  obtain ⟨-, found, hfound, -⟩ := follows_reviseTrees (r := r) hc _ hresolves
  have hsteps : ∀ x ∈ c.sites c.pool.namesGenericTable, r.newSiteText x c.pool = .ok none ∨
      ∃ text, r.newSiteText x c.pool = .ok (some text) ∧ c.pool.Holds text :=
    fun x hx => .inl (h.sites hx)
  obtain ⟨_, changed, heval, hchanged⟩ :=
    @Revise.replaceTexts_eval _ ⟨c.pool, false, none⟩ _ (fun x index => { x with index }) _ rfl hsteps
  rcases htrees : r.reviseTrees c ⟨c.pool, false, none⟩ with ⟨trees, final⟩
  rw [htrees] at hfound
  obtain ⟨-, rfl⟩ := Prod.mk.inj (hfound.symm.trans heval)
  have hunchanged : changed = false := by
    rw [← Bool.not_eq_true, hchanged]
    rintro (hfalse | ⟨x, hx, text, ht⟩)
    · cases hfalse
    · cases (h.sites hx).symm.trans ht
  simp only [Renaming.apply, Renaming.revise, revise_run, revisePool_of_absent hc h, htrees,
    hunchanged]

/-! #### What a class renaming leaves -/

namespace Revises

/-- **No constant names the class afterwards.** -/
lemma constants_absent (h : Revises r c middle final after) (hc : c.WellFormed)
    (hr : r.ReadsWhole) (ht : after.Trimmed trimmed) {i : UInt16} {k : Constant}
    (hk : trimmed.pool.get? i = some k) : r.newConstantText trimmed.pool k = .ok none := by
  have hmax := (h.wellFormed hc).pool.size_le
  have hk' := ht.get?_of_get? hk
  by_cases hi : i.toNat < c.pool.size
  · cases hk₀ : c.pool.get? i with
    | none => cases (h.unusable hi hk₀).symm.trans hk'
    | some k₀ =>
      cases hindex : typedIndex? k₀ with
      | none =>
        obtain rfl := Option.some.inj
          ((h.stays hk₀ (newConstantText_of_none hindex _)).symm.trans hk')
        exact newConstantText_of_none hindex _
      | some j =>
        obtain ⟨j', text, hg, -, hv, -⟩ := h.typed hk₀ (newConstantText_of_some hindex _)
          (repointed_of_typedIndex? hindex)
        obtain rfl := Option.some.inj (hg.symm.trans hk')
        have hindex' := typedIndex?_repointed hindex j'
        rw [newConstantText_of_some hindex', renameTyped_repointed,
          ht.text_eq_of_mem_children hmax hk (mem_children_of_typedIndex? hindex'), hv]
        exact congrArg Except.ok (rename_getD (renameTyped_again hr k₀) text)
  · obtain ⟨value, hg, -⟩ := h.added (not_lt.mp hi) (Pool.lt_size_of_get? hk')
    obtain rfl := Option.some.inj (hg.symm.trans hk')
    rfl

/-- A site at which a text was replaced does not name the class afterwards. -/
lemma map_text_of_replaced (h : Revises r c middle final after) {rename : String → Option String}
    (hagain : ∀ {text text'}, rename text = some text' → rename text' = none) {x y : TextSite}
    (hrep : Revise.Replaced (fun pool => (pool.text x.index).map rename)
      (fun index => { x with index }) final.pool x y) :
    (after.pool.text y.index).map rename = .ok none := by
  rw [← h.pool] at hrep
  rcases hrep with ⟨hn, rfl⟩ | ⟨new, index, hn, hf, rfl⟩
  · exact hn
  · obtain ⟨text, -, hsome⟩ := Except.map_eq_ok_iff.mp hn
    have hv := Pool.text_eq_ok_iff.mpr (Pool.get?_of_find? h.grows.size_le_max hf)
    exact Except.map_eq_ok_iff.mpr ⟨new, hv, hagain hsome⟩

/-- A simple name that has followed the class does not have to follow it again. -/
lemma newInnerClass?_of_replaced (h : Revises r c middle final after) (hr : r.ReadsWhole)
    {inner outer i : UInt16} {y : TextSite}
    (hrep : Revise.Replaced (r.newInnerClass? ⟨inner, outer, i, 0⟩)
      (fun index => ⟨.simpleName inner outer, index⟩) final.pool ⟨.simpleName inner outer, i⟩ y) :
    r.newInnerClass? ⟨inner, outer, y.index, 0⟩ after.pool = .ok none := by
  rw [← h.pool] at hrep
  rcases hrep with ⟨hn, rfl⟩ | ⟨new, index, hn, hf, rfl⟩
  · exact hn
  · obtain ⟨-, -, hinner, old, -, name, hname, hold, hnew⟩ := newInnerClass?_eq_some_iff.mp hn
    have hv := Pool.text_eq_ok_iff.mpr (Pool.get?_of_find? h.grows.size_le_max hf)
    refine newInnerClass?_eq_none_iff.mpr (.inr ⟨r.new, hinner, .inr ⟨name, hname, ?_⟩⟩)
    intro old' new' hold' hnew'
    refine ⟨new, hv, ?_⟩
    -- the same end of both names would make them the same name
    rintro rfl
    rw [memberSuffix?_eq_some_iff] at hold' hnew
    exact hr.ne (String.toList_inj.mp (hold'.trans hnew.symm))

/-- **A class renaming leaves no place with the old name**, also after trimming. -/
theorem absent (h : Revises r c middle final after) (hc : c.WellFormed) (hr : r.ReadsWhole)
    (ht : after.Trimmed trimmed) : r.Absent trimmed := by
  have hw := h.wellFormed hc
  have hmax := hw.pool.size_le
  have hgeneric : trimmed.sites trimmed.pool.namesGenericTable =
      after.sites c.pool.namesGenericTable := by
    rw [h.sites_eq hc, ← ht.sites_eq]
    refine ClassFile.sites_congr (ht.wellFormed hw) rfl fun i text hv => ?_
    rw [Pool.namesGenericTable, Pool.namesGenericTable, Pool.text_eq_ok_iff.mp hv,
      Pool.text_eq_ok_iff.mp (ht.text_of_text hv)]
  refine ⟨h.constants_absent hc hr ht, fun {y} hy => ?_⟩
  rw [hgeneric] at hy
  obtain ⟨x, -, hrep⟩ := Except.exists_of_forall₂ h.sites.replaced.flip hy
  have hused : ∀ j ∈ y.indices, .index j ∈ trimmed.uses := fun j hj => by
    rw [ht.uses_eq]
    exact ClassFile.mem_uses hy hj
  have htext : trimmed.pool.text y.index = after.pool.text y.index :=
    ht.text_eq (.inl (hused _ y.index_mem_indices))
  have hrole : y.role = x.role := by
    rcases hrep with ⟨-, rfl⟩ | ⟨_, _, -, -, rfl⟩ <;> rfl
  obtain ⟨role', i⟩ := x
  obtain ⟨role, j⟩ := y
  obtain rfl : role = role' := hrole
  cases role with
  | descriptor =>
    have hnone := h.map_text_of_replaced (descriptor?_again hr) hrep
    rwa [← htext] at hnone
  | signature =>
    have hnone := h.map_text_of_replaced (signature?_again hr) hrep
    rwa [← htext] at hnone
  | simpleName inner outer =>
    have hclass {n : UInt16} (hn : n ∈ [j, inner, outer]) :
        trimmed.pool.className n = after.pool.className n :=
      ht.className_eq hmax (.inl (hused n hn))
    have hnone := h.newInnerClass?_of_replaced hr hrep
    rw [newInnerClass?_eq_none_iff] at hnone
    rw [newSiteText, newInnerClass?_eq_none_iff, hclass (by simp), hclass (by simp), htext]
    exact hnone

end Revises

end ClassRename

/-! ### Members -/

namespace MemberRename

variable {r : MemberRename} {c after trimmed : ClassFile} {changed : Bool} {owner nameType : UInt16}

/-- What is found to be the member after trimming was found to be it before. -/
lemma refersTo_of_trimmed (ht : after.Trimmed trimmed)
    (h : r.refersTo trimmed.pool owner nameType = .ok true) :
    r.refersTo after.pool owner nameType = .ok true := by
  obtain ⟨ho, hn⟩ := refersTo_eq_true_iff.mp h
  exact refersTo_eq_true_iff.mpr ⟨ht.className_of_className ho, ht.nameAndType_of_nameAndType hn⟩

/-- What something refers to is looked up after trimming as before. -/
lemma refersTo_eq_of_trimmed (ht : after.Trimmed trimmed) (hmax : after.pool.size ≤ Pool.maxSize)
    (ho : .index owner ∈ trimmed.uses ∨ owner ∈ trimmed.pool.childIndices)
    (hn : .index nameType ∈ trimmed.uses ∨ nameType ∈ trimmed.pool.childIndices) :
    r.refersTo trimmed.pool owner nameType = r.refersTo after.pool owner nameType := by
  rw [refersTo, refersTo, ht.className_eq hmax ho, ht.nameAndType_eq hmax hn]

namespace Revises

/-- No declaration is that of the member afterwards. -/
lemma not_isDeclaration (h : Revises r c changed after) (hc : c.WellFormed)
    (hne : r.name ≠ r.newName) (ht : after.Trimmed trimmed) {sort : MemberSort} {m m' : Member}
    (hm : ∃ depth, m.Fits c.pool depth) (hr : r.DeclarationRenamed c trimmed.pool sort m m') :
    ¬ r.IsDeclaration trimmed sort m' := by
  rintro ⟨hsort, howner, hname, hdescriptor⟩
  rcases hr with ⟨-, n, hn, rfl⟩ | ⟨hnot, rfl⟩
  · exact hne (Except.ok.inj (hname.symm.trans hn))
  · obtain ⟨depth, ⟨name, hname₀⟩, ⟨descriptor, hdescriptor₀⟩, -⟩ := hm
    obtain ⟨class', hclass⟩ := hc.name
    have hthis : trimmed.thisClass = after.thisClass := by rw [ht.eq]
    have howner' : after.name = .ok r.owner := by
      rw [ClassFile.name, ← hthis]
      exact ht.className_of_className howner
    refine hnot ⟨hsort, ?_, ?_, ?_⟩
    · rw [hclass, ← howner', h.name hclass]
    · rw [hname₀, ← h.stage.text hname₀, ht.text_of_text hname]
    · rw [hdescriptor₀, ← h.stage.text hdescriptor₀, ht.text_of_text hdescriptor]

/-- No reference is one to the member afterwards. -/
lemma not_refersToMember (h : Revises r c changed after) (hne : r.name ≠ r.newName)
    (ht : after.Trimmed trimmed) {i : UInt16} :
    ¬ r.RefersToMember trimmed.pool (trimmed.pool.get? i) := by
  rintro ⟨kind, owner, nameType, hk, hcovers, hrefers⟩
  have hk' := ht.get?_of_get? hk
  have hrefers' := refersTo_of_trimmed ht hrefers
  by_cases hi : i.toNat < c.pool.size
  · rcases h.redirects i hi with ⟨_, _, _, _, -, -, -, hnew, hn⟩ | ⟨hnot, hsame⟩
    · obtain ⟨rfl, rfl, rfl⟩ := Constant.memberRef.inj (Option.some.inj (hk'.symm.trans hnew))
      obtain ⟨-, hold⟩ := refersTo_eq_true_iff.mp hrefers'
      exact hne (Prod.mk.inj (Except.ok.inj (hold.symm.trans hn))).1
    · exact hnot ⟨kind, owner, nameType, hsame.symm.trans hk', hcovers,
        (h.stage.refersTo_iff fun _ => hne).mp hrefers'⟩
  · obtain ⟨k, hk₀, hl, -⟩ := h.added (not_lt.mp hi) (Pool.lt_size_of_get? hk')
    obtain rfl := Option.some.inj (hk₀.symm.trans hk')
    exact hl

/-- No attribute names the member as the method around the class afterwards. -/
lemma not_isEnclosing (h : Revises r c changed after) (hne : r.name ≠ r.newName)
    (ht : after.Trimmed trimmed) {a' : Attribute} (ha' : a' ∈ trimmed.attributes) :
    ¬ r.IsEnclosing trimmed a' := by
  rintro ⟨hsort, owner, method, hb, hz, hrefers⟩
  have hrefers' := refersTo_of_trimmed ht (refersTo_eq_true_iff.mpr hrefers)
  rw [show trimmed.attributes = after.attributes by rw [ht.eq]] at ha'
  obtain ⟨a, -, hr⟩ := Except.exists_of_forall₂ h.attributes.flip ha'
  rcases hr with ⟨-, _, _, method', -, rfl, hn⟩ | ⟨hnot, rfl⟩
  · obtain ⟨rfl, rfl⟩ := FlatBody.enclosingMethod.inj (AttributeBody.flat.inj hb)
    obtain ⟨-, hold⟩ := refersTo_eq_true_iff.mp hrefers'
    exact hne (Prod.mk.inj (Except.ok.inj (hold.symm.trans hn))).1
  · have hbefore := (h.stage.refersTo_iff fun _ => hne).mp hrefers'
    exact hnot ⟨hsort, owner, method, hb, hz, refersTo_eq_true_iff.mp hbefore⟩

/-- **A member renaming leaves no place of the member**, also after trimming. -/
theorem not_occurs (h : Revises r c changed after) (hc : c.WellFormed) (hne : r.name ≠ r.newName)
    (ht : after.Trimmed trimmed) : ¬ r.Occurs trimmed := by
  have hr := h.renamed ht hc
  rintro (⟨m', hm', hd⟩ | ⟨m', hm', hd⟩ | ⟨i, ref, hmember⟩ | ⟨a', ha', he⟩)
  · obtain ⟨m, hm, hren⟩ := Except.exists_of_forall₂ hr.fields.flip hm'
    exact h.not_isDeclaration hc hne ht (hc.fields m hm) hren hd
  · obtain ⟨m, hm, hren⟩ := Except.exists_of_forall₂ hr.methods.flip hm'
    exact h.not_isDeclaration hc hne ht (hc.methods m hm) hren hd
  · exact h.not_refersToMember hne ht (refersToMember_iff.mpr ⟨ref, hmember⟩)
  · exact h.not_isEnclosing hne ht ha' he

end Revises

/-- **Whatever is looked up afterwards resolves**: it was looked up already, or it is what was found. -/
theorem answered_again (hc : c.WellFormed) (hne : r.name ≠ r.newName)
    (h : (Renaming.ofMember r).apply c = (.ok changed, after)) (ht : after.Trimmed trimmed) :
    Answered r trimmed := by
  have hr := revises_of_apply hc hne h
  have hmax := (hr.wellFormed hc).pool.size_le
  obtain ⟨hreferences, henclosings⟩ := exists_refersTo_of_apply hc (fun _ => hne) h
  have hrenamed {owner nameType : UInt16} (ho : c.pool.className owner = .ok r.owner)
      (hn : after.pool.nameAndType nameType = .ok (r.newName, r.descriptor)) :
      ∃ b, r.refersTo after.pool owner nameType = .ok b :=
    exists_refersTo_iff.mpr ⟨r.owner, hr.stage.grows.className (fun _ => id) (fun _ => id) ho,
      fun _ => ⟨_, _, hn⟩⟩
  constructor
  · intro i kind owner nameType hk hcovers
    have hchild {j : UInt16} (hj : j ∈ [owner, nameType]) : j ∈ trimmed.pool.childIndices :=
      (Pool.mem_childIndices (ht.size_le.trans hmax)).mpr ⟨i, _, hk, hj⟩
    rw [refersTo_eq_of_trimmed ht hmax (.inr (hchild (by simp))) (.inr (hchild (by simp)))]
    have hk' := ht.get?_of_get? hk
    by_cases hi : i.toNat < c.pool.size
    · rcases hr.redirects i hi with ⟨_, _, _, _, -, -, hrefers, hnew, hn⟩ | ⟨-, hsame⟩
      · obtain ⟨rfl, rfl, rfl⟩ := Constant.memberRef.inj (Option.some.inj (hk'.symm.trans hnew))
        exact hrenamed (refersTo_eq_true_iff.mp hrefers).1 hn
      · exact hreferences (hsame.symm.trans hk') hcovers
    · obtain ⟨k, hk₀, hl, -⟩ := hr.added (not_lt.mp hi) (Pool.lt_size_of_get? hk')
      obtain rfl := Option.some.inj (hk₀.symm.trans hk')
      exact hl.elim
  · intro hsort a' ha' owner method hb hz
    obtain ⟨howner, hmethod⟩ := ClassFile.mem_uses_of_enclosingMethod ha' hb
    rw [refersTo_eq_of_trimmed ht hmax (.inl howner) (.inl hmethod)]
    rw [show trimmed.attributes = after.attributes by rw [ht.eq]] at ha'
    obtain ⟨a, ha, hren⟩ := Except.exists_of_forall₂ hr.attributes.flip ha'
    rcases hren with ⟨⟨-, _, _, hb', -, ho, -⟩, _, _, method', hb₀, rfl, hn⟩ | ⟨-, rfl⟩
    · obtain ⟨rfl, rfl⟩ := FlatBody.enclosingMethod.inj (AttributeBody.flat.inj hb)
      obtain ⟨rfl, -⟩ := FlatBody.enclosingMethod.inj (AttributeBody.flat.inj (hb₀.symm.trans hb'))
      exact hrenamed ho hn
    · exact henclosings hsort _ ha owner method hb hz

/-- **Where the member does not occur, nothing is renamed**, and nothing fails if whatever is looked up
resolves. -/
theorem apply_of_not_occurs (hc : c.WellFormed) (hne : r.name ≠ r.newName) (ha : Answered r c)
    (ho : ¬ r.Occurs c) : ((Renaming.ofMember r).apply c).1 = .ok false := by
  obtain ⟨changed, after, h⟩ :=
    exists_apply hc ha (fun h => absurd h ho) fun h => absurd (.inr (.inr h)) ho
  have hchanged := (revises_of_apply hc hne h).changed_iff
  cases changed with
  | false => rw [h]
  | true => exact absurd (hchanged.mp rfl) ho

end MemberRename

/-! ### Class files -/

namespace Renaming

variable {r : Renaming}

/-- A renaming that leaves nothing of the old name: every type text reads the new name of a class as a
whole, and the new name of a member is another one. -/
def Lasting : Renaming → Prop
  | .ofClass r => r.ReadsWhole
  | .ofMember r => r.name ≠ r.newName

/-- **A renaming finds nothing to rename in the bytes that it yielded.** -/
theorem apply_again (hr : r.Lasting) {bytes bytes' : List UInt8}
    (h : reviseBytes bytes [r] = .ok (some bytes')) :
    ∃ c', ClassFile.decode bytes' = .ok c' ∧ (r.apply c').1 = .ok false := by
  obtain ⟨c, changed, after, hdecode, happly, hresult⟩ := reviseBytes_single_eq_ok_iff.mp h
  have hc := ClassFile.wellFormed_of_decode hdecode
  rcases hresult with ⟨-, hnone⟩ | ⟨-, trimmed, n, -, htrim, -, hbytes⟩
  · cases hnone
  obtain rfl := Option.some.inj hbytes
  cases r with
  | ofClass r =>
    obtain ⟨middle, final, hrevises, -⟩ := ClassRename.revises_of_apply hc happly
    have hafter := hrevises.wellFormed hc
    have ht := ClassFile.trimmed_of_trim hafter.pool.size_le htrim
    exact ⟨trimmed, ClassFile.decode_encode (ht.wellFormed hafter),
      ClassRename.apply_of_absent (ht.wellFormed hafter) (hrevises.absent hc hr ht)⟩
  | ofMember r =>
    have hrevises := MemberRename.revises_of_apply hc hr happly
    have hafter := hrevises.wellFormed hc
    have ht := ClassFile.trimmed_of_trim hafter.pool.size_le htrim
    exact ⟨trimmed, ClassFile.decode_encode (ht.wellFormed hafter),
      MemberRename.apply_of_not_occurs (ht.wellFormed hafter) hr
        (MemberRename.answered_again hc hr happly ht) (hrevises.not_occurs hc hr ht)⟩

end Renaming

end ClassAtlas
