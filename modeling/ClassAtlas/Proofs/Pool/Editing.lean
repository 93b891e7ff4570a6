import ClassAtlas.Proofs.Outcome
import ClassAtlas.Proofs.Pool.Layout

/-!
# Editing pools

A pool only grows while a class is edited: constants that are added go behind the last slot, and a
slot that is overwritten stays a slot of the same kind. What an index resolved to before an edit it
therefore resolves to afterwards, and a constant that was found at an index is found there again.

## Main definitions

* `ClassAtlas.Constant.IsText` — the constants that are texts.
* `ClassAtlas.Pool.Grows` — a later stage of a pool.

## Main results

* `ClassAtlas.Pool.text_eq_ok_iff`, `className_eq_ok_iff`, `nameAndType_eq_ok_iff`,
  `member_eq_ok_iff` — what it takes for an index to resolve.
* `ClassAtlas.Pool.find?_eq_some_iff` — the least index of a constant.
* `ClassAtlas.Pool.Grows.find?` — a constant that was found is found again.
* `ClassAtlas.Pool.intern_spec`, `internText_spec`, `internNameAndType_spec` — adding constants.
-/

set_option autoImplicit false

namespace ClassAtlas

/-- A constant that is a text. -/
def Constant.IsText (c : Constant) : Prop := ∃ value, c = .text value

namespace Pool

variable {pool pool' : Pool} {i j : UInt16} {c d : Constant}

/-! ### Looking up -/

lemma get?_eq_some_iff : pool.get? i = some c ↔ pool.slots[i.toNat]? = some (some c) := by
  rw [get?, Option.join_eq_some_iff]

/-- An index that holds a constant is one of the pool. -/
lemma lt_size_of_get? (h : pool.get? i = some c) : i.toNat < pool.size := by
  rw [get?_eq_some_iff] at h
  exact (Array.getElem?_eq_some_iff.mp h).1

lemma get?_eq_none_of_size_le (h : pool.size ≤ i.toNat) : pool.get? i = none := by
  rw [get?, Array.getElem?_eq_none h]
  rfl

theorem get_eq_ok_iff : pool.get i = .ok c ↔ pool.get? i = some c := by
  unfold get
  split <;> simp_all

theorem text_eq_ok_iff {value : String} :
    pool.text i = .ok value ↔ pool.get? i = some (.text value) := by
  unfold text
  split <;> simp_all

theorem className_eq_ok_iff {name : String} :
    pool.className i = .ok name ↔
      ∃ n, pool.get? i = some (.classRef n) ∧ pool.text n = .ok name := by
  unfold className
  split <;> simp_all

theorem nameAndType_eq_ok_iff {name descriptor : String} :
    pool.nameAndType i = .ok (name, descriptor) ↔
      ∃ n d, pool.get? i = some (.nameAndType n d) ∧ pool.text n = .ok name ∧
        pool.text d = .ok descriptor := by
  unfold nameAndType
  split <;> simp_all

theorem member_eq_ok_iff {ref : MemberRef} :
    pool.member i = .ok ref ↔
      ∃ o n, pool.get? i = some (.memberRef ref.kind o n) ∧ pool.className o = .ok ref.owner ∧
        pool.nameAndType n = .ok (ref.name, ref.descriptor) := by
  obtain ⟨kind, owner, name, descriptor⟩ := ref
  unfold member
  split
  · rename_i kind' o n h
    simp only [h, Except.bind_eq_ok_iff, Except.pure_eq_ok_iff, Option.some.injEq,
      Constant.memberRef.injEq, MemberRef.mk.injEq]
    constructor
    · rintro ⟨_, ho, ⟨_, _⟩, hn, rfl, rfl, rfl, rfl⟩
      exact ⟨o, n, ⟨rfl, rfl, rfl⟩, ho, hn⟩
    · rintro ⟨_, _, ⟨rfl, rfl, rfl⟩, ho, hn⟩
      exact ⟨_, ho, _, hn, rfl, rfl, rfl, rfl⟩
  · simp_all

/-! ### Finding -/

/-- A constant is found at the least index that holds it. -/
theorem find?_eq_some_iff (hs : pool.size ≤ maxSize) :
    pool.find? c = some i ↔ pool.get? i = some c ∧ ∀ j < i, pool.get? j ≠ some c := by
  have hs' : pool.slots.size ≤ 65535 := hs
  simp only [find?, Option.map_eq_some_iff, Array.findIdx?_eq_some_iff_getElem, decide_eq_true_eq,
    ne_eq, get?_eq_some_iff, UInt16.lt_iff_toNat_lt]
  constructor
  · rintro ⟨n, ⟨hn, hc, hlt⟩, rfl⟩
    have hto : (UInt16.ofNat n).toNat = n := UInt16.toNat_ofNat_of_lt' (show n < 65536 by omega)
    rw [hto, Array.getElem?_eq_getElem hn, hc]
    refine ⟨rfl, fun j hj => ?_⟩
    rw [Array.getElem?_eq_getElem (hj.trans hn)]
    exact fun he => hlt _ hj (Option.some.inj he)
  · rintro ⟨hi, hlt⟩
    obtain ⟨hn, hc⟩ := Array.getElem?_eq_some_iff.mp hi
    refine ⟨i.toNat, ⟨hn, hc, fun n hni => ?_⟩, UInt16.ofNat_toNat⟩
    have hto : (UInt16.ofNat n).toNat = n := UInt16.toNat_ofNat_of_lt' (show n < 65536 by omega)
    have hne := hlt (UInt16.ofNat n) (by rw [hto]; exact hni)
    rw [hto, Array.getElem?_eq_getElem (hni.trans hn)] at hne
    exact fun he => hne (congrArg some he)

/-- A constant is not found if and only if no index holds it. -/
theorem find?_eq_none_iff (hs : pool.size ≤ maxSize) :
    pool.find? c = none ↔ ∀ i, pool.get? i ≠ some c := by
  have hs' : pool.slots.size ≤ 65535 := hs
  simp only [find?, Option.map_eq_none_iff, Array.findIdx?_eq_none_iff, decide_eq_false_iff_not,
    ne_eq, get?_eq_some_iff]
  constructor
  · intro h i hi
    exact h _ (Array.mem_of_getElem? hi) rfl
  · rintro h slot hm rfl
    obtain ⟨n, hn⟩ := Array.getElem?_of_mem hm
    have hlt := (Array.getElem?_eq_some_iff.mp hn).1
    refine h (UInt16.ofNat n) ?_
    rw [UInt16.toNat_ofNat_of_lt' (show n < 65536 by omega)]
    exact hn

/-- A constant is found at most at one index. -/
lemma get?_of_find? (hs : pool.size ≤ maxSize) (h : pool.find? c = some i) :
    pool.get? i = some c :=
  ((find?_eq_some_iff hs).mp h).1

/-- A constant that only one index holds is found there. -/
lemma find?_of_unique (hs : pool.size ≤ maxSize) (h : pool.get? i = some c)
    (hu : ∀ j, pool.get? j = some c → j = i) : pool.find? c = some i := by
  refine (find?_eq_some_iff hs).mpr ⟨h, fun j hj hc => ?_⟩
  rw [hu j hc] at hj
  exact absurd hj (by simp)

/-! ### Listing constants -/

/-- The constants of a pool are listed with their indices. -/
theorem mem_constants_iff (hs : pool.size ≤ maxSize) :
    (i, c) ∈ pool.constants ↔ pool.get? i = some c := by
  have hs' : pool.slots.size ≤ 65535 := hs
  simp only [constants, List.mem_filterMap, Prod.exists, Option.map_eq_some_iff, Prod.mk.injEq,
    get?_eq_some_iff]
  constructor
  · rintro ⟨slot, n, hm, d, rfl, rfl, rfl⟩
    have hn := List.mem_zipIdx_iff_getElem?.mp hm
    have hlt := (List.getElem?_eq_some_iff.mp hn).1
    rw [Array.length_toList] at hlt
    rw [UInt16.toNat_ofNat_of_lt' (show n < 65536 by omega), ← Array.getElem?_toList]
    exact hn
  · intro h
    refine ⟨some c, i.toNat, List.mem_zipIdx_iff_getElem?.mpr ?_, c, rfl, UInt16.ofNat_toNat, rfl⟩
    rw [Array.getElem?_toList]
    exact h

/-- No index is listed twice. -/
theorem nodup_constants (hs : pool.size ≤ maxSize) : (pool.constants.map Prod.fst).Nodup := by
  have hs' : pool.slots.size ≤ 65535 := hs
  simp only [constants, List.Nodup, List.pairwise_map, List.pairwise_filterMap,
    Option.map_eq_some_iff]
  rw [List.pairwise_iff_getElem]
  simp only [List.getElem_zipIdx, List.length_zipIdx, Array.length_toList, Nat.zero_add]
  rintro m n hm hn hlt _ ⟨c, -, rfl⟩ _ ⟨d, -, rfl⟩ he
  have hto := congrArg UInt16.toNat he
  rw [UInt16.toNat_ofNat_of_lt' (show m < 65536 by omega),
    UInt16.toNat_ofNat_of_lt' (show n < 65536 by omega)] at hto
  omega

/-! ### Changing slots -/

lemma size_push (hc : c.isWide = false) : (pool.push c).size = pool.size + 1 := by
  simp [push, hc, size]

lemma get?_push (hc : c.isWide = false) :
    (pool.push c).get? i = if i.toNat = pool.size then some c else pool.get? i := by
  simp only [push, hc, Bool.false_eq_true, if_false, get?, Array.getElem?_push, size]
  split_ifs with h <;> simp [h]

@[simp]
lemma size_set : (pool.set j c).size = pool.size := by
  simp [set, size]

lemma get?_set (hj : j.toNat < pool.size) :
    (pool.set j c).get? i = if i = j then some c else pool.get? i := by
  have hj' : j.toNat < pool.slots.size := hj
  simp only [set, get?, Array.getElem?_setIfInBounds, UInt16.toNat_inj, @eq_comm _ j i, hj',
    if_true]
  split_ifs with h
  · rfl
  · rfl

/-- The slots of a pool, one for each index. -/
lemma getElem?_slots (hs : pool.size ≤ maxSize) {n : Nat} (hn : n < pool.size) :
    pool.slots.toList[n]? = some (pool.get? (UInt16.ofNat n)) := by
  have hs : pool.size ≤ 65535 := hs
  have hn' : n < pool.slots.size := hn
  rw [get?, UInt16.toNat_ofNat_of_lt' (show n < 65536 by omega), Array.getElem?_toList,
    Array.getElem?_eq_getElem hn']
  rfl

/-- A pool is well formed if its first slots are of the same widths as those of a pool that is,
constants of one slot follow, and every constant can be written. -/
theorem WellFormed.of_slots (h : pool.WellFormed) (hle : pool.size ≤ pool'.size)
    (hmax : pool'.size ≤ maxSize)
    (hkept : ∀ i : UInt16, i.toNat < pool.size →
      (pool'.get? i).map Constant.isWide = (pool.get? i).map Constant.isWide)
    (hadded : ∀ i : UInt16, pool.size ≤ i.toNat → i.toNat < pool'.size →
      ∃ c, pool'.get? i = some c ∧ c.isWide = false)
    (hfits : ∀ i c, pool'.get? i = some c → c.Fits) : pool'.WellFormed := by
  obtain ⟨slots, hslots, hl⟩ := h.laidOut
  have hmax' : pool'.size ≤ 65535 := hmax
  have hto : ∀ n, n < pool'.size → (UInt16.ofNat n).toNat = n := fun n hn =>
    UInt16.toNat_ofNat_of_lt' (show n < 65536 by omega)
  have hlen : pool'.slots.toList.length = pool'.size := Array.length_toList
  have hpre : (pool'.slots.toList.take pool.size).map (Option.map Constant.isWide) =
      (none :: slots).map (Option.map Constant.isWide) := by
    rw [← hslots]
    apply List.ext_getElem?
    intro n
    rw [List.getElem?_map, List.getElem?_map, List.getElem?_take]
    by_cases hn : n < pool.size
    · rw [if_pos hn, getElem?_slots hmax (hn.trans_le hle), getElem?_slots (hle.trans hmax) hn,
        Option.map_some, Option.map_some, hkept _ (by rw [hto _ (hn.trans_le hle)]; exact hn)]
    · have hl : pool.slots.toList.length ≤ n := by
        rw [Array.length_toList]
        exact not_lt.mp hn
      rw [if_neg hn, List.getElem?_eq_none hl]
  have hmore : ∀ slot ∈ pool'.slots.toList.drop pool.size,
      ∃ c, slot = some c ∧ c.isWide = false := by
    intro slot hm
    obtain ⟨k, hk⟩ := List.getElem?_of_mem hm
    rw [List.getElem?_drop] at hk
    have hn := (List.getElem?_eq_some_iff.mp hk).1
    rw [hlen] at hn
    rw [getElem?_slots hmax hn] at hk
    obtain ⟨c, hc, hw⟩ := hadded (UInt16.ofNat (pool.size + k))
      (by rw [hto _ hn]; omega) (by rw [hto _ hn]; exact hn)
    exact ⟨c, (Option.some.inj hk).symm.trans hc, hw⟩
  have hsplit := List.take_append_drop pool.size pool'.slots.toList
  obtain ⟨head, tail, ht⟩ := List.exists_cons_of_ne_nil
    (l := pool'.slots.toList.take pool.size) (by rintro he; rw [he] at hpre; simp at hpre)
  rw [ht, List.map_cons, List.map_cons, List.cons.injEq] at hpre
  obtain rfl : head = none := by simpa using hpre.1
  refine ⟨⟨tail ++ pool'.slots.toList.drop pool.size, ?_, ?_⟩, hmax, fun c hc => ?_⟩
  · rw [← List.cons_append, ← ht, hsplit]
  · exact (laidOut_append_iff hmore).mpr ((laidOut_congr hpre.2).mpr hl)
  · obtain ⟨n, hn⟩ := List.getElem?_of_mem hc
    have hlt := (List.getElem?_eq_some_iff.mp hn).1
    rw [hlen] at hlt
    rw [getElem?_slots hmax hlt] at hn
    exact hfits _ _ (Option.some.inj hn)

/-- The constants of a well-formed pool can be written. -/
lemma WellFormed.fits_of_get? (h : pool.WellFormed) (hc : pool.get? i = some c) : c.Fits :=
  h.fits c (Array.mem_toList_iff.mpr (Array.mem_of_getElem? (get?_eq_some_iff.mp hc)))

/-! ### Later stages of a pool -/

/-- A later stage of a pool: the constants with `kept` are in the same slots as before, among the
slots that were there; the slots behind them hold constants with `added`, each found there. -/
structure Grows (kept added : Constant → Prop) (pool pool' : Pool) : Prop where
  /-- No slot is lost. -/
  size_le : pool.size ≤ pool'.size
  /-- The slots are within the limit. -/
  size_le_max : pool'.size ≤ maxSize
  /-- The old slots hold the same constants that are to be kept. -/
  get?_iff : ∀ {i : UInt16}, i.toNat < pool.size → ∀ {c}, kept c →
    (pool'.get? i = some c ↔ pool.get? i = some c)
  /-- The new slots hold new constants, each at its least index. -/
  added : ∀ {i : UInt16}, pool.size ≤ i.toNat → i.toNat < pool'.size →
    ∃ c, kept c ∧ added c ∧ pool'.find? c = some i

namespace Grows

variable {kept kept' added added' : Constant → Prop} {pool'' : Pool}

lemma refl (hs : pool.size ≤ maxSize) : Grows kept added pool pool where
  size_le := le_rfl
  size_le_max := hs
  get?_iff _ _ _ := Iff.rfl
  added h h' := absurd h' (by omega)

lemma size_le_max_left (h : Grows kept added pool pool') : pool.size ≤ maxSize :=
  h.size_le.trans h.size_le_max

lemma get? (h : Grows kept added pool pool') (hk : kept c) (hc : pool.get? i = some c) :
    pool'.get? i = some c :=
  (h.get?_iff (lt_size_of_get? hc) hk).mpr hc

/-- If all constants are kept, the old slots are as they were. -/
lemma get?_eq (h : Grows (fun _ => True) added pool pool') (hi : i.toNat < pool.size) :
    pool'.get? i = pool.get? i :=
  Option.ext fun _ => h.get?_iff hi trivial

/-- **A constant that was found is found again** at the same index. -/
lemma find? (h : Grows kept added pool pool') (hk : kept c) (hc : pool.find? c = some i) :
    pool'.find? c = some i := by
  obtain ⟨hi, hlt⟩ := (find?_eq_some_iff h.size_le_max_left).mp hc
  have hn := lt_size_of_get? hi
  refine (find?_eq_some_iff h.size_le_max).mpr ⟨h.get? hk hi, fun j hj => ?_⟩
  rw [Ne, h.get?_iff (lt_trans (UInt16.lt_iff_toNat_lt.mp hj) hn) hk]
  exact hlt j hj

lemma trans (h : Grows kept added pool pool') (h' : Grows kept added pool' pool'') :
    Grows kept added pool pool'' where
  size_le := h.size_le.trans h'.size_le
  size_le_max := h'.size_le_max
  get?_iff hi _ hk := (h'.get?_iff (hi.trans_le h.size_le) hk).trans (h.get?_iff hi hk)
  added := by
    intro i hi hi'
    by_cases hm : i.toNat < pool'.size
    · obtain ⟨c, hk, ha, hf⟩ := h.added hi hm
      exact ⟨c, hk, ha, h'.find? hk hf⟩
    · exact h'.added (by omega) hi'

lemma weaken (h : Grows kept added pool pool') (hk : ∀ c, kept' c → kept c)
    (ha : ∀ c, added c → kept' c ∧ added' c) : Grows kept' added' pool pool' where
  size_le := h.size_le
  size_le_max := h.size_le_max
  get?_iff hi _ hc := h.get?_iff hi (hk _ hc)
  added hi hi' := by
    obtain ⟨c, -, hc, hf⟩ := h.added hi hi'
    exact ⟨c, (ha c hc).1, (ha c hc).2, hf⟩

lemma widen (h : Grows kept added pool pool') (ha : ∀ c, added c → added' c) :
    Grows kept added' pool pool' where
  size_le := h.size_le
  size_le_max := h.size_le_max
  get?_iff := h.get?_iff
  added hi hi' := by
    obtain ⟨c, hk, hc, hf⟩ := h.added hi hi'
    exact ⟨c, hk, ha c hc, hf⟩

/-- Overwriting a slot with a constant that is not kept, like the one it held. -/
lemma set (h : Grows kept added pool pool') (hj : j.toNat < pool.size)
    (hd : pool'.get? j = some d) (hdk : ¬ kept d) (hck : ¬ kept c) :
    Grows kept added pool (pool'.set j c) := by
  have hj' : j.toNat < pool'.size := hj.trans_le h.size_le
  have hget : ∀ {i e}, kept e → ((pool'.set j c).get? i = some e ↔ pool'.get? i = some e) := by
    intro i e he
    rw [get?_set hj']
    split_ifs with hi
    · subst hi
      rw [hd]
      refine iff_of_false ?_ ?_ <;> rintro he' <;> obtain rfl := Option.some.inj he'
      · exact hck he
      · exact hdk he
    · rfl
  refine ⟨by simpa using h.size_le, by simpa using h.size_le_max,
    fun hi _ hk => (hget hk).trans (h.get?_iff hi hk), fun {i} hi hi' => ?_⟩
  obtain ⟨e, hk, ha, hf⟩ := h.added hi (by simpa using hi')
  refine ⟨e, hk, ha, ?_⟩
  obtain ⟨he, hlt⟩ := (find?_eq_some_iff h.size_le_max).mp hf
  refine (find?_eq_some_iff (by simpa using h.size_le_max)).mpr ⟨(hget hk).mpr he, ?_⟩
  exact fun k hk' hc => hlt k hk' ((hget hk).mp hc)

/-- Texts that resolved resolve to the same. -/
lemma text (h : Grows kept added pool pool') (hk : ∀ value, kept (.text value)) {value : String}
    (hv : pool.text i = .ok value) : pool'.text i = .ok value :=
  text_eq_ok_iff.mpr (h.get? (hk value) (text_eq_ok_iff.mp hv))

/-- Classes that resolved resolve to the same. -/
lemma className (h : Grows kept added pool pool') (hk : ∀ value, kept (.text value))
    (hk' : ∀ n, kept (.classRef n)) {name : String} (hn : pool.className i = .ok name) :
    pool'.className i = .ok name := by
  obtain ⟨n, hc, ht⟩ := className_eq_ok_iff.mp hn
  exact className_eq_ok_iff.mpr ⟨n, h.get? (hk' n) hc, h.text hk ht⟩

/-- Names and descriptors that resolved resolve to the same. -/
lemma nameAndType (h : Grows kept added pool pool') (hk : ∀ value, kept (.text value))
    (hk' : ∀ n d, kept (.nameAndType n d)) {name descriptor : String}
    (hn : pool.nameAndType i = .ok (name, descriptor)) :
    pool'.nameAndType i = .ok (name, descriptor) := by
  obtain ⟨n, d, hc, ht, hd⟩ := nameAndType_eq_ok_iff.mp hn
  exact nameAndType_eq_ok_iff.mpr ⟨n, d, h.get? (hk' n d) hc, h.text hk ht, h.text hk hd⟩

/-- A constant that was there is found among the old slots. -/
lemma lt_size_of_find? (h : Grows kept added pool pool') (hk : kept c) (hc : pool.get? j = some c)
    (hf : pool'.find? c = some i) : i.toNat < pool.size := by
  cases hf' : pool.find? c with
  | none => exact absurd hc ((find?_eq_none_iff h.size_le_max_left).mp hf' j)
  | some k =>
    obtain rfl := Option.some.inj ((h.find? hk hf').symm.trans hf)
    exact lt_size_of_get? (get?_of_find? h.size_le_max_left hf')

/-- Among the old indices, no other texts resolve. -/
lemma text_iff (h : Grows kept added pool pool') (hk : ∀ value, kept (.text value)) {value : String}
    (hi : i.toNat < pool.size) : pool'.text i = .ok value ↔ pool.text i = .ok value := by
  rw [text_eq_ok_iff, text_eq_ok_iff, h.get?_iff hi (hk value)]

end Grows

/-! ### Adding constants -/

/-- **Adding a constant** keeps all constants and returns the least index of the added one. -/
theorem intern_spec (hs : pool.size ≤ maxSize) (hc : c.isWide = false)
    (h : intern c pool = (.ok i, pool')) :
    pool'.find? c = some i ∧ Grows (fun _ => True) (· = c) pool pool' := by
  unfold intern at h
  split at h
  · rename_i k hk
    obtain ⟨hi, rfl⟩ := Prod.mk.inj h
    obtain rfl := Except.ok.inj hi
    exact ⟨hk, .refl hs⟩
  · rename_i hf
    split_ifs at h with hm
    · cases (Prod.mk.inj h).1
    obtain ⟨hi, rfl⟩ := Prod.mk.inj h
    obtain rfl := Except.ok.inj hi
    have hm : pool.size < 65535 := by
      simp only [Constant.width, hc, Bool.false_eq_true, if_false, maxSize] at hm
      omega
    have hi : (UInt16.ofNat pool.size).toNat = pool.size :=
      UInt16.toNat_ofNat_of_lt' (show pool.size < 65536 by omega)
    have hsize : (pool.push c).size = pool.size + 1 := size_push hc
    have hmax : (pool.push c).size ≤ maxSize := by
      rw [hsize]
      exact hm
    have hfind : (pool.push c).find? c = some (UInt16.ofNat pool.size) := by
      refine find?_of_unique hmax (by rw [get?_push hc, if_pos hi]) fun j hj => ?_
      rw [get?_push hc] at hj
      split_ifs at hj with hjs
      · rw [← UInt16.toNat_inj, hjs, hi]
      · exact absurd hj ((find?_eq_none_iff hs).mp hf j)
    refine ⟨hfind, by omega, hmax, fun hj _ _ => ?_, fun {j} hj hj' => ⟨c, trivial, rfl, ?_⟩⟩
    · rw [get?_push hc, if_neg (by omega)]
    · rw [hfind, ← UInt16.toNat_inj.mp (hi.trans (show pool.size = j.toNat by omega))]

/-- A refused constant is missing from a full pool, which stays as it is. -/
lemma intern_eq_error {cause : FormatError} (hc : c.isWide = false) (hs : pool.size ≤ maxSize)
    (h : intern c pool = (.error cause, pool')) :
    cause = .poolFull ∧ pool' = pool ∧ pool.size = maxSize ∧ pool.find? c = none := by
  unfold intern at h
  split at h
  · cases (Prod.mk.inj h).1
  · rename_i hfind
    split_ifs at h with hfull
    · obtain ⟨hcause, hpool⟩ := Prod.mk.inj h
      simp only [Constant.width, hc, Bool.false_eq_true, if_false] at hfull
      exact ⟨(Except.error.inj hcause).symm, hpool.symm, by omega, hfind⟩
    · cases (Prod.mk.inj h).1

lemma internText_eq_ok_iff {value : String} :
    internText value pool = (.ok i, pool') ↔
      (Text.encode value).length ≤ 65535 ∧ intern (.text value) pool = (.ok i, pool') := by
  unfold internText
  split_ifs with h
  · exact iff_of_false (fun he => nomatch (Prod.mk.inj he).1) (by omega)
  · rw [and_iff_right (by omega)]

/-- A text that a pool holds, and that can be written. -/
def Holds (pool : Pool) (value : String) : Prop :=
  (Constant.text value).Fits ∧ ∃ i, pool.find? (.text value) = some i

/-- Adding a text that the pool holds changes nothing. -/
lemma Holds.internText {value : String} (h : pool.Holds value) :
    ∃ i, internText value pool = (.ok i, pool) := by
  obtain ⟨hl, i, hf⟩ := h
  refine ⟨i, internText_eq_ok_iff.mpr ⟨Nat.le_of_lt_succ hl, ?_⟩⟩
  rw [intern, hf]

/-- A pool still holds a text after it has grown. -/
lemma Holds.grow {kept added : Constant → Prop} {value : String} (h : pool.Holds value)
    (hg : Grows kept added pool pool') (hk : ∀ value, kept (.text value)) : pool'.Holds value := by
  obtain ⟨hl, i, hf⟩ := h
  exact ⟨hl, i, hg.find? (hk value) hf⟩

/-- A pool that has grown holds something new. -/
lemma Grows.exists_added {kept added : Constant → Prop} (h : Grows kept added pool pool')
    (hlt : pool.size < pool'.size) :
    ∃ c i, kept c ∧ added c ∧ pool'.find? c = some i ∧ pool.size ≤ i.toNat := by
  have hmax : pool'.size ≤ 65535 := h.size_le_max
  have hto : (UInt16.ofNat pool.size).toNat = pool.size :=
    UInt16.toNat_ofNat_of_lt' (show pool.size < 65536 by omega)
  obtain ⟨c, hk, hc, hf⟩ := h.added hto.ge (by rwa [hto])
  exact ⟨c, _, hk, hc, hf, hto.ge⟩

/-- A pool in which there is nothing to add has not grown. -/
lemma Grows.size_eq {kept added : Constant → Prop} (h : Grows kept added pool pool')
    (ha : ∀ c, added c → ∃ i, pool.find? c = some i) : pool'.size = pool.size := by
  by_contra hne
  obtain ⟨c, i, hk, hc, hf, hi⟩ := h.exists_added (lt_of_le_of_ne h.size_le (Ne.symm hne))
  obtain ⟨j, hj⟩ := ha c hc
  have := h.lt_size_of_find? hk (get?_of_find? h.size_le_max_left hj) hf
  omega

/-- Adding a text, which has to fit a text constant, returns its least index. -/
theorem internText_spec {value : String} (hs : pool.size ≤ maxSize)
    (h : internText value pool = (.ok i, pool')) :
    pool'.find? (.text value) = some i ∧
      Grows (fun _ => True) (fun c => c = .text value ∧ c.Fits) pool pool' := by
  obtain ⟨hl, h⟩ := internText_eq_ok_iff.mp h
  obtain ⟨hf, hg⟩ := intern_spec hs rfl h
  refine ⟨hf, hg.widen fun c hc => ⟨hc, ?_⟩⟩
  subst hc
  exact Nat.lt_succ_of_le hl

/-- Edits in turn: the second one starts with the result and the pool of the first. -/
lemma edit_bind_run {α β : Type} (edit : Edit α) (f : α → Edit β) (pool : Pool) :
    (edit >>= f) pool =
      match edit pool with
      | (.ok a, middle) => f a middle
      | (.error cause, middle) => (.error cause, middle) := by
  rw [Stateful.bind_run]
  rcases edit pool with ⟨_ | _, middle⟩ <;> rfl

/-- Edits in turn succeed if each of them does. -/
lemma edit_bind_eq_ok_iff {α β : Type} {edit : Edit α} {f : α → Edit β} {b : β} :
    (edit >>= f) pool = (.ok b, pool') ↔
      ∃ a middle, edit pool = (.ok a, middle) ∧ f a middle = (.ok b, pool') :=
  Stateful.bind_eq_ok_iff

/-- **Adding a name and a descriptor** adds the two texts and a constant that names them. -/
theorem internNameAndType_spec {name descriptor : String} (hs : pool.size ≤ maxSize)
    (h : internNameAndType name descriptor pool = (.ok i, pool')) :
    ∃ n d, pool'.find? (.text name) = some n ∧ pool'.find? (.text descriptor) = some d ∧
      pool'.find? (.nameAndType n d) = some i ∧
      Grows (fun _ => True)
        (fun c => (c = .text name ∨ c = .text descriptor ∨ c = .nameAndType n d) ∧ c.Fits)
        pool pool' := by
  unfold internNameAndType at h
  obtain ⟨n, pool₁, hn, h⟩ := edit_bind_eq_ok_iff.mp h
  obtain ⟨d, pool₂, hd, h⟩ := edit_bind_eq_ok_iff.mp h
  obtain ⟨hfn, hgn⟩ := internText_spec hs hn
  obtain ⟨hfd, hgd⟩ := internText_spec hgn.size_le_max hd
  obtain ⟨hf, hg⟩ := intern_spec hgd.size_le_max rfl h
  refine ⟨n, d, hg.find? trivial (hgd.find? trivial hfn), hg.find? trivial hfd, hf, ?_⟩
  refine (hgn.widen ?_).trans ((hgd.widen ?_).trans (hg.widen ?_))
  · exact fun c hc => ⟨.inl hc.1, hc.2⟩
  · exact fun c hc => ⟨.inr (.inl hc.1), hc.2⟩
  · rintro c rfl
    exact ⟨.inr (.inr rfl), trivial⟩

/-- A name-and-type constant that was added comes after its name and its descriptor. -/
lemma lt_of_internNameAndType {name descriptor : String} {n d : UInt16} (hs : pool.size ≤ maxSize)
    (h : internNameAndType name descriptor pool = (.ok i, pool')) (hj : pool.size ≤ j.toNat)
    (hk : pool'.get? j = some (.nameAndType n d)) : n < j ∧ d < j := by
  unfold internNameAndType at h
  obtain ⟨n', pool₁, hn, h⟩ := edit_bind_eq_ok_iff.mp h
  obtain ⟨d', pool₂, hd, h⟩ := edit_bind_eq_ok_iff.mp h
  obtain ⟨hfn, hgn⟩ := internText_spec hs hn
  obtain ⟨hfd, hgd⟩ := internText_spec hgn.size_le_max hd
  obtain ⟨-, hg⟩ := intern_spec hgd.size_le_max rfl h
  have htexts : Grows (fun _ => True) Constant.IsText pool pool₂ :=
    (hgn.widen fun c hc => ⟨name, hc.1⟩).trans (hgd.widen fun c hc => ⟨descriptor, hc.1⟩)
  by_cases hm : j.toNat < pool₂.size
  · -- what was added before the constant are texts
    rw [hg.get?_eq hm] at hk
    obtain ⟨_, -, ⟨value, rfl⟩, hf⟩ := htexts.added hj hm
    cases (get?_of_find? htexts.size_le_max hf).symm.trans hk
  · obtain ⟨_, -, rfl, hf⟩ := hg.added (not_lt.mp hm) (lt_size_of_get? hk)
    obtain ⟨rfl, rfl⟩ := Constant.nameAndType.inj
      (Option.some.inj ((get?_of_find? hg.size_le_max hf).symm.trans hk))
    have hn := lt_size_of_get? (get?_of_find? hgd.size_le_max (hgd.find? trivial hfn))
    have hd := lt_size_of_get? (get?_of_find? hgd.size_le_max hfd)
    simp only [UInt16.lt_iff_toNat_lt]
    omega

/-- A name and a descriptor that a pool holds, together with a constant that names them. -/
def HoldsMember (pool : Pool) (name descriptor : String) : Prop :=
  pool.Holds name ∧ pool.Holds descriptor ∧
    ∃ n d i, pool.find? (.text name) = some n ∧ pool.find? (.text descriptor) = some d ∧
      pool.find? (.nameAndType n d) = some i

/-- Adding a name and a descriptor that the pool holds changes nothing. -/
lemma HoldsMember.internNameAndType {name descriptor : String}
    (h : pool.HoldsMember name descriptor) :
    ∃ i, internNameAndType name descriptor pool = (.ok i, pool) := by
  obtain ⟨⟨hl, -⟩, ⟨hl', -⟩, n, d, i, hn, hd, hi⟩ := h
  refine ⟨i, ?_⟩
  unfold Pool.internNameAndType
  refine edit_bind_eq_ok_iff.mpr ⟨n, pool, internText_eq_ok_iff.mpr ⟨Nat.le_of_lt_succ hl, ?_⟩,
    edit_bind_eq_ok_iff.mpr ⟨d, pool, internText_eq_ok_iff.mpr ⟨Nat.le_of_lt_succ hl', ?_⟩, ?_⟩⟩
  · rw [intern, hn]
  · rw [intern, hd]
  · rw [intern, hi]

/-- A pool still holds a name and a descriptor after it has grown. -/
lemma HoldsMember.grow {kept added : Constant → Prop} {name descriptor : String}
    (h : pool.HoldsMember name descriptor) (hg : Grows kept added pool pool')
    (hk : ∀ value, kept (.text value)) (hk' : ∀ n d, kept (.nameAndType n d)) :
    pool'.HoldsMember name descriptor := by
  obtain ⟨hname, hdescriptor, n, d, i, hn, hd, hi⟩ := h
  exact ⟨hname.grow hg hk, hdescriptor.grow hg hk, n, d, i, hg.find? (hk _) hn, hg.find? (hk _) hd,
    hg.find? (hk' n d) hi⟩

end Pool

end ClassAtlas
