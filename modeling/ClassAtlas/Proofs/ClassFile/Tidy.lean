import ClassAtlas.Proofs.ClassFile.Trimming

/-!
# Class files with nothing to trim

A class file is tidy if trimming leaves it alone, no text and no name-and-type constant of its pool
occurs twice, and all indices in it are within the pool. Texts and name-and-type constants that are
added behind the pool of a tidy class file, and that nothing in it refers to, are exactly what
trimming drops.

## Main definitions

* `ClassAtlas.Pool.Distinct` — no constant of a kind is in two slots.
* `ClassAtlas.Pool.Appends` — a pool with constants behind another one.
* `ClassAtlas.ClassFile.Tidy` — a class file with nothing to trim.

## Main results

* `ClassAtlas.Pool.Trims.eq_of_appends` — trimming drops what was added, and no more.
* `ClassAtlas.ClassFile.eq_of_trim` — nothing is dropped if the last slot is in use.
* `ClassAtlas.ClassFile.Tidy.exists_trim_eq` — trimming restores a tidy class file.
-/

set_option autoImplicit false

namespace ClassAtlas

instance (k : Constant) : Decidable k.IsLoose :=
  match k with
  | .text _ | .nameAndType _ _ => inferInstanceAs (Decidable True)
  | .integer _ | .float _ | .long _ | .double _ | .classRef _ | .string _ | .memberRef _ _ _
  | .methodHandle _ _ | .methodType _ | .dynamic _ _ | .invokeDynamic _ _ | .moduleRef _
  | .packageRef _ => inferInstanceAs (Decidable False)

namespace Pool

variable {kind : Constant → Prop} {pool pool' base : Pool} {i j : UInt16} {k : Constant}

/-! ### Pools without repetition -/

/-- No constant of a kind is in two slots. -/
def Distinct (kind : Constant → Prop) (pool : Pool) : Prop :=
  ∀ ⦃i j k⦄, kind k → pool.get? i = some k → pool.get? j = some k → i = j

/-- A constant of that kind is found in its slot. -/
lemma Distinct.find?_eq (h : pool.Distinct kind) (hs : pool.size ≤ maxSize) (hk : kind k)
    (hi : pool.get? i = some k) : pool.find? k = some i :=
  find?_of_unique hs hi fun _ hj => h hk hj hi

/-- No text is in two slots. -/
lemma Distinct.text_inj {value : String} (h : pool.Distinct Constant.IsLoose)
    (hi : pool.text i = .ok value) (hj : pool.text j = .ok value) : i = j :=
  @h i j (.text value) trivial (text_eq_ok_iff.mp hi) (text_eq_ok_iff.mp hj)

/-- No name is together with a descriptor in two slots. -/
lemma Distinct.nameAndType_inj {name descriptor : String} (h : pool.Distinct Constant.IsLoose)
    (hi : pool.nameAndType i = .ok (name, descriptor))
    (hj : pool.nameAndType j = .ok (name, descriptor)) : i = j := by
  obtain ⟨n, d, hk, hn, hd⟩ := nameAndType_eq_ok_iff.mp hi
  obtain ⟨n', d', hk', hn', hd'⟩ := nameAndType_eq_ok_iff.mp hj
  obtain rfl := h.text_inj hn hn'
  obtain rfl := h.text_inj hd hd'
  exact @h i j (.nameAndType n d) trivial hk hk'

/-- A pool without repetition holds the texts that resolve in it. -/
lemma Distinct.holds {value : String} (h : pool.Distinct Constant.IsLoose) (hw : pool.WellFormed)
    (hi : pool.text i = .ok value) : pool.Holds value := by
  have hk := text_eq_ok_iff.mp hi
  exact ⟨hw.fits_of_get? hk, i, h.find?_eq hw.size_le trivial hk⟩

/-- A pool without repetition holds the names and descriptors that resolve in it. -/
lemma Distinct.holdsMember {name descriptor : String} (h : pool.Distinct Constant.IsLoose)
    (hw : pool.WellFormed) (hi : pool.nameAndType i = .ok (name, descriptor)) :
    pool.HoldsMember name descriptor := by
  obtain ⟨n, d, hk, hn, hd⟩ := nameAndType_eq_ok_iff.mp hi
  refine ⟨h.holds hw hn, h.holds hw hd, n, d, i, ?_, ?_, h.find?_eq hw.size_le trivial hk⟩
  · exact h.find?_eq hw.size_le trivial (text_eq_ok_iff.mp hn)
  · exact h.find?_eq hw.size_le trivial (text_eq_ok_iff.mp hd)

/-- What is added to a pool is not in it before, so there is still no repetition. -/
lemma Grows.distinct {kept added : Constant → Prop} (hg : Grows kept added pool pool')
    (h : pool.Distinct kind) (hk : ∀ k, kind k → kept k) : pool'.Distinct kind := by
  -- a constant behind the old slots is found there, so it is in no earlier slot
  have hlate {i j : UInt16} {k : Constant} (hki : pool'.get? i = some k)
      (hkj : pool'.get? j = some k) (hj : pool.size ≤ j.toNat) : j.toNat ≤ i.toNat := by
    obtain ⟨k', -, -, hf⟩ := hg.added hj (lt_size_of_get? hkj)
    obtain ⟨hk', hlt⟩ := (find?_eq_some_iff hg.size_le_max).mp hf
    obtain rfl := Option.some.inj (hkj.symm.trans hk')
    by_contra hlt'
    exact hlt i (UInt16.lt_iff_toNat_lt.mpr (not_le.mp hlt')) hki
  intro i j k hkind hi hj
  by_cases hin : i.toNat < pool.size <;> by_cases hjn : j.toNat < pool.size
  · exact h hkind ((hg.get?_iff hin (hk k hkind)).mp hi) ((hg.get?_iff hjn (hk k hkind)).mp hj)
  · have hle := hlate hi hj (not_lt.mp hjn)
    omega
  · have hle := hlate hj hi (not_lt.mp hin)
    omega
  · exact UInt16.toNat_inj.mp
      (le_antisymm (hlate hj hi (not_lt.mp hin)) (hlate hi hj (not_lt.mp hjn)))

/-- Pools with the same slots are the same. -/
lemma ext_get? (hmax : pool.size ≤ maxSize) (hs : pool.size = pool'.size)
    (h : ∀ i : UInt16, i.toNat < pool.size → pool.get? i = pool'.get? i) : pool = pool' := by
  have hmax' : pool.size ≤ 65535 := hmax
  have hl : pool.slots.toList = pool'.slots.toList := by
    apply List.ext_getElem?
    intro n
    by_cases hn : n < pool.size
    · rw [getElem?_slots hmax hn, getElem?_slots (hs ▸ hmax) (hs ▸ hn),
        h _ (by rwa [UInt16.toNat_ofNat_of_lt' (show n < 65536 by omega)])]
    · rw [List.getElem?_eq_none (by rw [Array.length_toList]; exact not_lt.mp hn),
        List.getElem?_eq_none (by rw [Array.length_toList]; exact hs.ge.trans (not_lt.mp hn))]
  obtain ⟨slots⟩ := pool
  obtain ⟨slots'⟩ := pool'
  rw [show slots = slots' from Array.toList_inj.mp hl]

/-- The first slot of a well-formed pool holds nothing. -/
lemma WellFormed.get?_zero (h : pool.WellFormed) : pool.get? 0 = none := by
  obtain ⟨slots, hslots, -⟩ := h.laidOut
  rw [get?, ← Array.getElem?_toList, hslots]
  rfl

/-! ### Constants behind a pool -/

/-- A pool with texts and name-and-type constants behind the slots of another one. Each of them comes
after what it refers to. -/
structure Appends (base pool : Pool) : Prop where
  /-- No slot is lost. -/
  size_le : base.size ≤ pool.size
  /-- The slots are as they were. -/
  get?_eq : ∀ {i : UInt16}, i.toNat < base.size → pool.get? i = base.get? i
  /-- The slots behind them hold texts and name-and-type constants. -/
  loose : ∀ {i : UInt16}, base.size ≤ i.toNat → i.toNat < pool.size →
    ∃ k, pool.get? i = some k ∧ k.IsLoose ∧ ∀ j ∈ k.children, j < i

/-- What was added can be dropped, provided that nothing else refers to it. -/
lemma Appends.droppable {structural : List UInt16} (h : Appends base pool)
    (hmax : pool.size ≤ maxSize) (hpos : 0 < base.size)
    (hbase : ∀ i ∈ structural ++ base.childIndices, i.toNat < base.size)
    (hlt : base.size < pool.size) : Droppable structural pool := by
  have hlast := toNat_lastIndex hmax
  obtain ⟨k, hk, hl, -⟩ := h.loose (i := pool.lastIndex) (by omega) (by omega)
  refine ⟨by omega, fun hm => ?_, k, hk, hl⟩
  rcases List.mem_append.mp hm with hm | hm
  · have := hbase _ (List.mem_append_left _ hm)
    omega
  · obtain ⟨j, k', hk', hj⟩ := (mem_childIndices hmax).mp hm
    by_cases hjn : j.toNat < base.size
    · rw [h.get?_eq hjn] at hk'
      have := hbase _ (List.mem_append_right _
        ((mem_childIndices (h.size_le.trans hmax)).mpr ⟨j, k', hk', hj⟩))
      omega
    · obtain ⟨k'', hk'', -, hchildren⟩ := h.loose (not_lt.mp hjn) (lt_size_of_get? hk')
      obtain rfl := Option.some.inj (hk''.symm.trans hk')
      have hlt := UInt16.lt_iff_toNat_lt.mp (hchildren _ hj)
      have := lt_size_of_get? hk'
      omega

/-- **Trimming drops what was added behind a pool**, and no more if nothing else can be dropped.

**Proof sketch.** Induction on the slots that are dropped. As long as there is an added slot, the last
one can be dropped; when there is none, the pool is the one without them. -/
theorem Trims.eq_of_appends {structural : List UInt16} (h : Trims structural pool pool')
    (ha : Appends base pool) (hmax : pool.size ≤ maxSize) (hpos : 0 < base.size)
    (hbase : ∀ i ∈ structural ++ base.childIndices, i.toNat < base.size)
    (hdone : ¬ Droppable structural base) : pool' = base := by
  have hsame {pool : Pool} (ha : Appends base pool) (hmax : pool.size ≤ maxSize)
      (hlt : ¬ base.size < pool.size) : pool = base :=
    ext_get? hmax (by have := ha.size_le; omega) fun i hi => ha.get?_eq (by omega)
  induction h with
  | done hd => exact hsame ha hmax fun hlt => hd (ha.droppable hmax hpos hbase hlt)
  | @drop pool pool' hd hr ih =>
    have hlt : base.size < pool.size := by
      by_contra hlt
      exact hdone (hsame ha hmax hlt ▸ hd)
    have hpop : pool.pop.size = pool.size - 1 := size_pop
    refine ih ⟨by omega, fun {i} hi => ?_, fun {i} hi hi' => ?_⟩ (by omega)
    · rw [get?_pop (by omega), ha.get?_eq hi]
    · rw [get?_pop hi']
      exact ha.loose hi (by omega)

end Pool

/-! ### Class files -/

namespace ClassFile

variable {c c' : ClassFile} {n : Nat}

/-- **Nothing is dropped** if the last slot is in use. -/
theorem eq_of_trim (h : c.trim = .ok (c', n)) (hmax : c.pool.size ≤ Pool.maxSize)
    (hlast : .index c.pool.lastIndex ∈ c.uses ∨ c.pool.lastIndex ∈ c.pool.childIndices) :
    c' = c := by
  obtain ⟨-, heq, -⟩ | ⟨structural, huses, ht, heq, -⟩ := trim_cases hmax h
  · exact heq
  · have hused : ¬ Pool.Droppable structural c.pool := by
      rintro ⟨-, hn, -⟩
      rw [List.mem_append, not_or] at hn
      rcases hlast with hlast | hlast
      · rw [huses] at hlast
        exact hn.1 (by simpa using hlast)
      · exact hn.2 hlast
    rw [heq, ht.eq_of_not_droppable hused]

/-- A class file with nothing to trim. -/
structure Tidy (c : ClassFile) : Prop where
  /-- No text and no name-and-type constant is in two slots. -/
  distinct : c.pool.Distinct Constant.IsLoose
  /-- Trimming succeeds and drops nothing. -/
  trim_eq : c.trim = .ok (c, 0)
  /-- Trimming can account for all attributes. -/
  accounted : .unaccounted ∉ c.uses
  /-- All indices are within the pool. -/
  within : ∀ {i : UInt16}, .index i ∈ c.uses ∨ i ∈ c.pool.childIndices → i.toNat < c.pool.size

/-- The indices that a tidy class file uses; nothing can be dropped from its pool. -/
lemma Tidy.exists_uses_eq (h : c.Tidy) (hmax : c.pool.size ≤ Pool.maxSize) :
    ∃ structural : List UInt16, c.uses = structural.map .index ∧
      ¬ Pool.Droppable structural c.pool := by
  obtain ⟨hnone, -⟩ | ⟨structural, huses, ht, -⟩ := trim_cases hmax h.trim_eq
  · obtain ⟨structural, hu⟩ := Finding.exists_eq_map_index hnone h.accounted
    rw [indicesInUse_eq_some_iff.mpr hu] at hnone
    cases hnone
  · exact ⟨structural, huses, ht.not_droppable⟩

section Grows

variable {kept added : Constant → Prop} {pool : Pool} {i : UInt16}

/-- What a constant of a tidy class file points at is within the pool. -/
lemma Tidy.lt_size_of_mem_children (h : c.Tidy) (hmax : c.pool.size ≤ Pool.maxSize) {k : Constant}
    {j : UInt16} (hk : c.pool.get? i = some k) (hj : j ∈ k.children) : j.toNat < c.pool.size :=
  h.within (.inr ((Pool.mem_childIndices hmax).mpr ⟨i, k, hk, hj⟩))

/-- Among the old indices of a tidy class file, no other classes resolve later. -/
lemma Tidy.className_iff (h : c.Tidy) (hg : Pool.Grows kept added c.pool pool)
    (hk : ∀ value, kept (.text value)) (hk' : ∀ n, kept (.classRef n)) (hi : i.toNat < c.pool.size)
    {name : String} : pool.className i = .ok name ↔ c.pool.className i = .ok name := by
  refine ⟨fun hn => ?_, hg.className hk hk'⟩
  obtain ⟨n, hc, hv⟩ := Pool.className_eq_ok_iff.mp hn
  have hc := (hg.get?_iff hi (hk' n)).mp hc
  have hlt : n.toNat < c.pool.size :=
    h.lt_size_of_mem_children hg.size_le_max_left hc (by simp [Constant.children])
  exact Pool.className_eq_ok_iff.mpr ⟨n, hc, (hg.text_iff hk hlt).mp hv⟩

/-- Among the old indices of a tidy class file, no other names and descriptors resolve later. -/
lemma Tidy.nameAndType_iff (h : c.Tidy) (hg : Pool.Grows kept added c.pool pool)
    (hk : ∀ value, kept (.text value)) (hk' : ∀ n d, kept (.nameAndType n d))
    (hi : i.toNat < c.pool.size) {name descriptor : String} :
    pool.nameAndType i = .ok (name, descriptor) ↔
      c.pool.nameAndType i = .ok (name, descriptor) := by
  refine ⟨fun hn => ?_, hg.nameAndType hk hk'⟩
  obtain ⟨n, d, hc, hv, hw⟩ := Pool.nameAndType_eq_ok_iff.mp hn
  have hc := (hg.get?_iff hi (hk' n d)).mp hc
  have hlt (j : UInt16) (hj : j ∈ [n, d]) : j.toNat < c.pool.size :=
    h.lt_size_of_mem_children hg.size_le_max_left hc (by simpa [Constant.children] using hj)
  exact Pool.nameAndType_eq_ok_iff.mpr ⟨n, d, hc, (hg.text_iff hk (hlt n (by simp))).mp hv,
    (hg.text_iff hk (hlt d (by simp))).mp hw⟩

end Grows

/-- **Trimming restores a tidy class file** to whose pool something was added. -/
theorem Tidy.exists_trim_eq (h : c.Tidy) (hc : c.WellFormed) (heq : c' = { c with pool := c'.pool })
    (ha : Pool.Appends c.pool c'.pool) (hmax : c'.pool.size ≤ Pool.maxSize) :
    ∃ n, c'.trim = .ok (c, n) := by
  obtain ⟨structural, huses, hdone⟩ := h.exists_uses_eq hc.pool.size_le
  have huses' : c'.uses = structural.map .index := by
    rw [← huses, heq]
    refine uses_congr fun i hi => ?_
    rw [Pool.text, Pool.text, ha.get?_eq (h.within (.inl hi))]
  obtain ⟨pool', ht, htrim⟩ := ClassFile.exists_trim_eq hmax huses'
  obtain ⟨slots, hslots, -⟩ := hc.pool.laidOut
  have hpos : 0 < c.pool.size := by
    rw [Pool.size, ← Array.length_toList, hslots]
    exact Nat.succ_pos _
  have hpool : pool' = c.pool := by
    refine ht.eq_of_appends ha hmax hpos (fun i hi => ?_) hdone
    refine h.within ((List.mem_append.mp hi).imp_left fun hi => ?_)
    rw [huses]
    exact List.mem_map_of_mem hi
  have hrest : { c' with pool := pool' } = c := by rw [hpool, heq]
  rw [hrest] at htrim
  exact ⟨_, htrim⟩

/-! ### Checking a class file -/

/-- Whether an index that was found is within a pool; an attribute that cannot be accounted for is
none. -/
def isWithin (pool : Pool) : Finding → Bool
  | .index i => i.toNat < pool.size
  | .unaccounted => false
  | .fault _ => true

/-- Whether a class file has nothing to trim. -/
def isTidy (c : ClassFile) : Bool :=
  decide ((c.pool.constants.map Prod.snd).filter fun k => decide k.IsLoose).Nodup &&
    decide (c.trim = .ok (c, 0)) && c.uses.all (isWithin c.pool) &&
      c.pool.childIndices.all fun i => i.toNat < c.pool.size

/-- A class file that is found to be tidy is. -/
theorem tidy_of_isTidy (hmax : c.pool.size ≤ Pool.maxSize) (h : c.isTidy = true) : c.Tidy := by
  simp only [isTidy, Bool.and_eq_true, decide_eq_true_eq, List.all_eq_true] at h
  obtain ⟨⟨⟨hnodup, htrim⟩, huses⟩, hchildren⟩ := h
  refine ⟨fun i j k hk hi hj => ?_, htrim, fun hu => ?_, fun {i} hi => ?_⟩
  · have hmap : ((c.pool.constants.filter fun p => decide p.2.IsLoose).map Prod.snd).Nodup := by
      rwa [List.filter_map, Function.comp_def] at hnodup
    have hmem {l : UInt16} (hl : c.pool.get? l = some k) :
        (l, k) ∈ c.pool.constants.filter fun p => decide p.2.IsLoose :=
      List.mem_filter.mpr ⟨(Pool.mem_constants_iff hmax).mpr hl, decide_eq_true hk⟩
    exact congrArg Prod.fst (List.inj_on_of_nodup_map hmap (hmem hi) (hmem hj) rfl)
  · exact absurd (huses _ hu) (by simp [isWithin])
  · rcases hi with hi | hi
    · simpa [isWithin] using huses _ hi
    · exact hchildren i hi

end ClassFile

end ClassAtlas
