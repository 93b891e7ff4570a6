import ClassAtlas.Proofs.ClassFile.Trimming
import ClassAtlas.Proofs.Renaming.ClassPool
import ClassAtlas.Proofs.Renaming.ClassWalk
import ClassAtlas.Renaming.Basic

/-!
# A class file after a class renaming

A class renaming edits the constants of a class file and then takes the steps at its sites. Together
this says what the class file looks like afterwards, before and after its pool is trimmed.

## Main definitions

* `ClassAtlas.ClassRename.Revises` — a class file and what a class renaming makes of it.

## Main results

* `ClassAtlas.ClassRename.revises_of_apply` — a class renaming without a failure.
* `ClassAtlas.ClassRename.Revises.wellFormed` — the class file after it is well formed.
* `ClassAtlas.reviseBytes_single_eq_ok_iff` — a renaming of bytes in terms of one of a class file.
-/

set_option autoImplicit false

namespace ClassAtlas

/-! ### Bytes -/

/-- **A renaming of bytes** reads a class file, renames in it, trims it and writes it. -/
theorem reviseBytes_single_eq_ok_iff {r : Renaming} {bytes : List UInt8}
    {result : Option (List UInt8)} :
    reviseBytes bytes [r] = .ok result ↔ ∃ c changed after, ClassFile.decode bytes = .ok c ∧
      r.apply c = (.ok changed, after) ∧
        ((changed = false ∧ result = none) ∨
          changed = true ∧ ∃ trimmed n read, after.trim = .ok (trimmed, n) ∧
            ClassFile.decode trimmed.encode = .ok read ∧ result = some trimmed.encode) := by
  simp only [reviseBytes, Except.bind_eq_ok_iff, Renaming.applyAll]
  constructor
  · rintro ⟨c, hc, ⟨after, changed⟩, ha, h⟩
    rcases happly : r.apply c with ⟨_ | changed', after'⟩
    · simp [happly] at ha
    · simp only [happly, Bool.or_false, Except.ok.injEq, Prod.mk.injEq] at ha
      obtain ⟨rfl, rfl⟩ := ha
      refine ⟨c, changed', after', hc, happly, ?_⟩
      cases changed' with
      | false => exact .inl ⟨rfl, (Except.ok.inj h).symm⟩
      | true =>
        simp only [if_true, Except.bind_eq_ok_iff, Except.pure_eq_ok_iff] at h
        obtain ⟨⟨trimmed, n⟩, ht, read, hr, h⟩ := h
        exact .inr ⟨rfl, trimmed, n, read, ht, hr, h.symm⟩
  · rintro ⟨c, changed, after, hc, happly, h⟩
    refine ⟨c, hc, (after, changed), by simp [happly], ?_⟩
    rcases h with ⟨rfl, rfl⟩ | ⟨rfl, trimmed, n, read, ht, hr, rfl⟩
    · simp
    · simp only [if_true, Except.bind_eq_ok_iff, Except.pure_eq_ok_iff]
      exact ⟨(trimmed, n), ht, read, hr, rfl⟩

namespace ClassRename

variable {r : ClassRename} {c : ClassFile} {s s' : Revision}

/-! ### The trees of a class file -/

/-- The part of a class renaming that walks over trees. -/
def reviseTrees (r : ClassRename) (c : ClassFile) : Revise ClassFile := do
  let fields ← c.fields.mapM r.reviseMember
  let methods ← c.methods.mapM r.reviseMember
  let attributes ← reviseAttributes r c.attributes
  return { c with fields, methods, attributes }

/-- A class renaming edits constants, then trees. -/
lemma revise_run (c : ClassFile) (s : Revision) :
    r.revise c s = r.reviseTrees c (r.revisePool s).2 := rfl

/-- **The walk over the trees of a class file** follows its sites. -/
theorem follows_reviseTrees (hc : c.WellFormed) :
    Follows r c.pool [] (r.reviseTrees c) (c.sites c.pool.namesGenericTable)
      (ClassFile.sites c.pool.namesGenericTable)
      fun c' => c'.outline = c.outline ∧ c'.pool = c.pool := by
  have hmembers {ms : List Member} (h : ∀ m ∈ ms, ∃ depth, m.Fits c.pool depth) :
      Follows r c.pool [] (ms.mapM r.reviseMember)
        (ms.flatMap (Member.sites c.pool.namesGenericTable))
        (List.flatMap (Member.sites c.pool.namesGenericTable)) fun ms' =>
          ms'.map Member.outline = ms.map Member.outline := by
    refine .mapM fun m hm => ?_
    obtain ⟨depth, hd⟩ := h m hm
    exact follows_reviseMember hd
  have hattributes : Follows r c.pool [] (r.reviseAttributes c.attributes) _ _ _ :=
    follows_reviseAttributes_of_each fun a ha =>
      follows_reviseAttribute (hc.attributes a ha).choose_spec
  simp only [funext (Attribute.sitesList_eq c.pool.namesGenericTable), Attribute.outlineList_eq]
    at hattributes
  rw [ClassFile.sites]
  refine (hmembers hc.fields).bind fun fields hfields => ?_
  refine (hmembers hc.methods).bind fun methods hmethods => ?_
  refine hattributes.map (fun attributes _ => ?_) fun attributes ha => ?_
  · simp only [ClassFile.sites, List.nil_append, List.append_assoc]
  · exact ⟨by simp only [ClassFile.outline, hfields, hmethods, ha], rfl⟩

/-! ### New texts at sites -/

/-- When a simple name has to follow the new name of the class. -/
lemma newInnerClass?_eq_some_iff {entry : InnerClass} {pool : Pool} {new : String} :
    r.newInnerClass? entry pool = .ok (some new) ↔
      entry.name ≠ 0 ∧ entry.outer ≠ 0 ∧ pool.className entry.inner = .ok r.new ∧
        ∃ old, pool.text entry.name = .ok old ∧ ∃ name, pool.className entry.outer = .ok name ∧
          memberSuffix? r.old name = some old ∧ memberSuffix? r.new name = some new := by
  unfold newInnerClass?
  split_ifs with hz
  · simp only [Bool.or_eq_true, decide_eq_true_eq] at hz
    refine iff_of_false nofun ?_
    rintro ⟨hn, ho, -⟩
    exact hz.elim hn ho
  · simp only [Bool.or_eq_true, decide_eq_true_eq, not_or] at hz
    simp only [Except.bind_eq_ok_iff]
    constructor
    · rintro ⟨inner, hi, h⟩
      split_ifs at h with hne
      · cases h
      · obtain rfl := not_not.mp hne
        obtain ⟨outer, ho, h⟩ := Except.bind_eq_ok_iff.mp h
        split at h
        · rename_i oldSimple newSimple hold hnew
          obtain ⟨simple, hs, h⟩ := Except.bind_eq_ok_iff.mp h
          rw [Except.pure_eq_ok_iff] at h
          split_ifs at h with he
          obtain rfl := Option.some.inj h
          exact ⟨hz.1, hz.2, hi, simple, hs, outer, ho, he ▸ hold, hnew⟩
        · cases h
    · rintro ⟨-, -, hi, old, hs, outer, ho, hold, hnew⟩
      refine ⟨r.new, hi, ?_⟩
      rw [if_neg (by simp)]
      refine Except.bind_eq_ok_iff.mpr ⟨outer, ho, ?_⟩
      simp only [hold, hnew]
      exact Except.bind_eq_ok_iff.mpr ⟨old, hs, by simp⟩

/-- A simple name that has to follow still has to after the pool has grown. -/
lemma stable_newInnerClass? (entry : InnerClass) : Revise.Stable (r.newInnerClass? entry) := by
  intro pool pool' added hg text h
  unfold newInnerClass? at h ⊢
  split_ifs at h ⊢ with hz
  · exact h
  · simp only [Except.bind_eq_ok_iff] at h ⊢
    obtain ⟨inner, hi, h⟩ := h
    refine ⟨inner, hg.className (fun _ => trivial) (fun _ => trivial) hi, ?_⟩
    split_ifs at h ⊢ with hn
    · exact h
    · simp only [Except.bind_eq_ok_iff] at h ⊢
      obtain ⟨outer, ho, h⟩ := h
      refine ⟨outer, hg.className (fun _ => trivial) (fun _ => trivial) ho, ?_⟩
      split at h
      · simp only [Except.bind_eq_ok_iff] at h ⊢
        obtain ⟨simple, hs, h⟩ := h
        exact ⟨simple, hg.text (fun _ => trivial) hs, h⟩
      · exact h

/-- New texts at sites do not depend on what is added to the pool later. -/
lemma stable_newSiteText (x : TextSite) : Revise.Stable (r.newSiteText x) := by
  obtain ⟨role, index⟩ := x
  cases role with
  | descriptor =>
    intro pool pool' added hg text h
    obtain ⟨value, hv, rfl⟩ := Except.map_eq_ok_iff.mp h
    exact Except.map_eq_ok_iff.mpr ⟨value, hg.text (fun _ => trivial) hv, rfl⟩
  | signature =>
    intro pool pool' added hg text h
    obtain ⟨value, hv, rfl⟩ := Except.map_eq_ok_iff.mp h
    exact Except.map_eq_ok_iff.mpr ⟨value, hg.text (fun _ => trivial) hv, rfl⟩
  | simpleName inner outer => exact stable_newInnerClass? _

/-! ### The class file afterwards -/

lemma isWide_repointed (index : UInt16) (k : Constant) : (repointed index k).isWide = k.isWide := by
  cases k <;> rfl

lemma fits_repointed (index : UInt16) {k : Constant} (h : k.Fits) : (repointed index k).Fits := by
  cases k <;> trivial

/-- What a class renaming without a failure makes of a class file: it edits the constants up to the
state `middle`, and from there replaces the texts at the sites up to the state `final`. Everything
else is as it was. -/
structure Revises (r : ClassRename) (c : ClassFile) (middle final : Revision)
    (after : ClassFile) : Prop where
  /-- The constants are edited first. -/
  constants : RevisesPool r ⟨c.pool, false, none⟩ middle
  /-- The texts at the sites are replaced afterwards. -/
  sites : Revise.Replaces r.newSiteText (fun x index => { x with index })
    (c.sites c.pool.namesGenericTable) (after.sites c.pool.namesGenericTable) middle final
  /-- Nothing else changes but the pool. -/
  outline : after.outline = c.outline
  /-- The pool is the one of the last state. -/
  pool : after.pool = final.pool

/-- **A class renaming without a failure** edits the constants and replaces the texts at the sites.
-/
theorem revises_of_apply {changed : Bool} {after : ClassFile} (hc : c.WellFormed)
    (h : (Renaming.ofClass r).apply c = (.ok changed, after)) :
    ∃ middle final, Revises r c middle final after ∧ changed = final.changed := by
  simp only [Renaming.apply, Renaming.revise, revise_run] at h
  rcases hpool : r.revisePool ⟨c.pool, false, none⟩ with ⟨_, middle⟩
  rcases htrees : r.reviseTrees c middle with ⟨trees, final⟩
  simp only [hpool, htrees, Prod.mk.injEq] at h
  obtain ⟨h, rfl⟩ := h
  split at h
  · cases h
  rename_i hf
  obtain rfl := Except.ok.inj h
  have hm : middle.fault = none := by
    by_contra hm
    obtain ⟨-, found, hr, -⟩ := follows_reviseTrees hc middle fun h => absurd h hm
    rw [reviseSites, Revise.replaceTexts_of_fault _ hm, htrees] at hr
    obtain ⟨-, rfl⟩ := Prod.mk.inj hr
    exact hm hf
  have hconstants := revisePool_spec hc.pool.size_le hpool hm
  have hresolves : Resolves c.pool middle := fun _ =>
    ⟨hconstants.grows.size_le_max, fun i value hv => hconstants.grows.text (fun v => ⟨v, rfl⟩) hv⟩
  obtain ⟨⟨ho, hp⟩, found, hr, hsites⟩ := follows_reviseTrees hc middle hresolves
  rw [htrees] at ho hp hr hsites
  obtain rfl : found = trees.sites c.pool.namesGenericTable := by simpa using hsites.symm
  exact ⟨middle, final, ⟨hconstants, Revise.replaceTexts_spec stable_newSiteText
    hconstants.grows.size_le_max hr hf, ho, rfl⟩, rfl⟩

namespace Revises

variable {middle final : Revision} {after : ClassFile} {i : UInt16} {k : Constant}

/-- The pool gains texts that can be written. -/
lemma grows (h : Revises r c middle final after) :
    Pool.Grows Constant.IsText (fun k => k.IsText ∧ k.Fits) c.pool after.pool := by
  rw [h.pool]
  refine (h.constants.grows.widen ?_).trans (h.sites.grows.weaken (fun _ _ => trivial) ?_)
  · rintro _ ⟨_, _, text, -, -, rfl, hf⟩
    exact ⟨⟨text, rfl⟩, hf⟩
  · rintro _ ⟨_, -, text, -, rfl, hf⟩
    exact ⟨⟨text, rfl⟩, ⟨text, rfl⟩, hf⟩

/-- Texts that resolved resolve to the same. -/
lemma text (h : Revises r c middle final after) {value : String}
    (hv : c.pool.text i = .ok value) : after.pool.text i = .ok value :=
  h.grows.text (fun v => ⟨v, rfl⟩) hv

/-- Constants without new texts stay. -/
lemma stays (h : Revises r c middle final after) (hk : c.pool.get? i = some k)
    (hn : r.newConstantText c.pool k = .ok none) : after.pool.get? i = some k := by
  rw [h.pool]
  exact h.sites.grows.get? trivial (h.constants.stays hk hn)

/-- Constants with new texts point at them. -/
lemma edited (h : Revises r c middle final after) (hk : c.pool.get? i = some k) {text : String}
    (ht : r.newConstantText c.pool k = .ok (some text)) :
    ∃ index, after.pool.find? (.text text) = some index ∧
      after.pool.get? i = some (repointed index k) := by
  obtain ⟨index, hf, hg⟩ := h.constants.edited hk ht
  rw [h.pool]
  exact ⟨index, h.sites.grows.find? trivial hf, h.sites.grows.get? trivial hg⟩

/-- Slots that could not be used stay so. -/
lemma unusable (h : Revises r c middle final after) (hi : i.toNat < c.pool.size)
    (hn : c.pool.get? i = none) : after.pool.get? i = none := by
  rw [h.pool, h.sites.grows.get?_eq (hi.trans_le h.constants.grows.size_le)]
  exact h.constants.unusable hi hn

/-- A constant is one of its kind afterwards, or it was a text. -/
lemma get?_cases (h : Revises r c middle final after) (hk : c.pool.get? i = some k) :
    after.pool.get? i = some k ∨
      IsTyped k ∧ ∃ index, after.pool.get? i = some (repointed index k) := by
  obtain ⟨text, ht⟩ := h.constants.resolves hk
  cases text with
  | none => exact .inl (h.stays hk ht)
  | some text =>
    obtain ⟨index, -, hg⟩ := h.edited hk ht
    exact .inr ⟨isTyped_of_newConstantText ht, index, hg⟩

/-- The slots behind those of before hold texts. -/
lemma added (h : Revises r c middle final after) (hi : c.pool.size ≤ i.toNat)
    (hi' : i.toNat < after.pool.size) :
    ∃ value, after.pool.get? i = some (.text value) ∧ (Constant.text value).Fits := by
  obtain ⟨_, -, ⟨⟨value, rfl⟩, hf⟩, hfind⟩ := h.grows.added hi hi'
  exact ⟨value, Pool.get?_of_find? h.grows.size_le_max hfind, hf⟩

/-- The pool afterwards is well formed. -/
lemma wellFormed_pool (h : Revises r c middle final after) (hc : c.WellFormed) :
    after.pool.WellFormed := by
  refine hc.pool.of_slots h.grows.size_le h.grows.size_le_max (fun i hi => ?_) (fun i hi hi' => ?_)
    fun i k hk => ?_
  · cases hk : c.pool.get? i with
    | none => rw [h.unusable hi hk]
    | some k =>
      rcases h.get?_cases hk with hg | ⟨hty, index, hg⟩
      · rw [hg]
      · rw [hg, Option.map_some, Option.map_some, isWide_repointed]
  · obtain ⟨value, hg, -⟩ := h.added hi hi'
    exact ⟨_, hg, rfl⟩
  · by_cases hi : i.toNat < c.pool.size
    · cases hk' : c.pool.get? i with
      | none => cases (h.unusable hi hk').symm.trans hk
      | some k' =>
        have hf := hc.pool.fits_of_get? hk'
        rcases h.get?_cases hk' with hg | ⟨hty, index, hg⟩
        · obtain rfl := Option.some.inj (hg.symm.trans hk)
          exact hf
        · obtain rfl := Option.some.inj (hg.symm.trans hk)
          exact fits_repointed index hf
    · obtain ⟨value, hg, hf⟩ := h.added (not_lt.mp hi) (Pool.lt_size_of_get? hk)
      obtain rfl := Option.some.inj (hg.symm.trans hk)
      exact hf

/-- A constant that is looked at for one of its texts is of the same kind afterwards, at the new text
if that text has one. -/
theorem typed (h : Revises r c middle final after) {index : UInt16}
    {rename : String → Option String} (hk : c.pool.get? i = some k)
    (hnew : r.newConstantText c.pool k = (c.pool.text index).map rename)
    (hsame : repointed index k = k) :
    ∃ index' text, after.pool.get? i = some (repointed index' k) ∧ c.pool.text index = .ok text ∧
      after.pool.text index' = .ok ((rename text).getD text) ∧
        (rename text = none → index' = index) := by
  obtain ⟨new, ht⟩ := h.constants.resolves hk
  obtain ⟨text, hv, rfl⟩ := Except.map_eq_ok_iff.mp (hnew.symm.trans ht)
  cases hn : rename text with
  | none =>
    rw [hn] at ht
    refine ⟨index, text, ?_, hv, by rw [hn]; exact h.text hv, fun _ => rfl⟩
    rw [hsame]
    exact h.stays hk ht
  | some new =>
    rw [hn] at ht
    obtain ⟨index', hf, hg⟩ := h.edited hk ht
    refine ⟨index', text, hg, hv, ?_, fun he => nomatch hn.symm.trans he⟩
    rw [hn]
    exact Pool.text_eq_ok_iff.mpr (Pool.get?_of_find? h.grows.size_le_max hf)

/-- **The class file afterwards is well formed.** -/
theorem wellFormed (h : Revises r c middle final after) (hc : c.WellFormed) :
    after.WellFormed := by
  obtain ⟨name, hname⟩ := hc.name
  obtain ⟨n, hk, -⟩ := Pool.className_eq_ok_iff.mp hname
  obtain ⟨n', name', hk', -, hn', -⟩ := h.typed hk rfl rfl
  have hthis : after.thisClass = c.thisClass := show after.outline.thisClass = _ by
    rw [h.outline]
    rfl
  refine hc.of_outline h.outline (h.wellFormed_pool hc)
    ⟨_, Pool.className_eq_ok_iff.mpr ⟨n', by rw [hthis]; exact hk', hn'⟩⟩
    (fun i _ value hv => h.text hv) (h.sites.replaced.imp ?_)
  rintro x y (⟨-, rfl⟩ | ⟨text, index, -, hf, rfl⟩) ⟨value, hv⟩
  · exact ⟨value, h.text hv⟩
  · rw [← h.pool] at hf
    exact ⟨text, Pool.text_eq_ok_iff.mpr (Pool.get?_of_find? h.grows.size_le_max hf)⟩

end Revises

end ClassRename

end ClassAtlas
