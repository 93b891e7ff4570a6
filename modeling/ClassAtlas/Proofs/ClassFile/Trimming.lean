import Mathlib
import ClassAtlas.Proofs.ClassFile.Outline

/-!
# Trimming

Trimming a pool drops slots from its end, one after the other, as long as the last slot is a text or
a name-and-type constant that nothing refers to. What is left is a first part of the pool in which
everything in use resolves as before.

## Main definitions

* `ClassAtlas.Pool.Droppable` — the last slot can be dropped.
* `ClassAtlas.Pool.Trims` — a pool after dropping slots until none can be dropped.
* `ClassAtlas.ClassFile.Unreferenced` — an index that nothing in a class file refers to.
* `ClassAtlas.ClassFile.Trimmed` — a class file after trimming.

## Main results

* `ClassAtlas.Pool.Trims.get?`, `ClassAtlas.Pool.Trims.dropped` — what is kept and what is dropped.
* `ClassAtlas.ClassFile.trimInPlace_cases` — trimming as it is computed.
* `ClassAtlas.ClassFile.trimmed_of_trim` — trimming a class file.
* `ClassAtlas.ClassFile.Trimmed.wellFormed` — a trimmed class file is well formed.
-/

set_option autoImplicit false

namespace ClassAtlas

/-- A constant that trimming may drop: a text, or a name and a descriptor. -/
def Constant.IsLoose : Constant → Prop
  | text _ | nameAndType _ _ => True
  | _ => False

namespace Pool

variable {structural : List UInt16} {pool pool' : Pool} {i : UInt16} {c : Constant}

/-! ### Children -/

/-- The children of a pool are those of its constants. -/
lemma mem_childIndices (hs : pool.size ≤ maxSize) :
    i ∈ pool.childIndices ↔ ∃ j c, pool.get? j = some c ∧ i ∈ c.children := by
  have hs' : pool.slots.size ≤ 65535 := hs
  simp only [childIndices, List.mem_flatMap]
  constructor
  · rintro ⟨slot, hm, hi⟩
    cases slot with
    | none => simp at hi
    | some c =>
      obtain ⟨n, hn⟩ := List.getElem?_of_mem hm
      have hlt := (List.getElem?_eq_some_iff.mp hn).1
      rw [Array.length_toList] at hlt
      refine ⟨UInt16.ofNat n, c, get?_eq_some_iff.mpr ?_, by simpa using hi⟩
      rw [UInt16.toNat_ofNat_of_lt' (show n < 65536 by omega), ← Array.getElem?_toList]
      exact hn
  · rintro ⟨j, c, hj, hi⟩
    exact ⟨some c, Array.mem_toList_iff.mpr (Array.mem_of_getElem? (get?_eq_some_iff.mp hj)),
      by simpa using hi⟩

/-- The index of the last slot. -/
def lastIndex (pool : Pool) : UInt16 := UInt16.ofNat (pool.size - 1)

lemma toNat_lastIndex (hs : pool.size ≤ maxSize) : pool.lastIndex.toNat = pool.size - 1 := by
  have hs : pool.size ≤ 65535 := hs
  exact UInt16.toNat_ofNat_of_lt' (show pool.size - 1 < 65536 by omega)

lemma size_pop : pool.pop.size = pool.size - 1 := by
  simp [pop, size]

lemma get?_pop (h : i.toNat < pool.pop.size) : pool.pop.get? i = pool.get? i := by
  have hs : pool.pop.size = pool.slots.size - 1 := size_pop
  simp only [get?, pop, Array.getElem?_pop]
  rw [if_pos (by omega)]

/-- The slots are those without the last one, then the last one. -/
lemma toList_slots_pop (hmax : pool.size ≤ maxSize) (h : pool.get? pool.lastIndex = some c) :
    pool.slots.toList = pool.pop.slots.toList ++ [some c] := by
  rw [get?_eq_some_iff, toNat_lastIndex hmax] at h
  have hlast : pool.slots.toList.getLast? = some (some c) := by
    rw [List.getLast?_eq_getElem?, Array.length_toList, Array.getElem?_toList]
    exact h
  rw [pop, Array.toList_pop]
  exact (List.dropLast_append_getLast? _ hlast).symm

/-! ### Dropping slots -/

/-- The last slot can be dropped: it is a text or a name and a descriptor, and neither
`structural` nor a constant refers to it. -/
def Droppable (structural : List UInt16) (pool : Pool) : Prop :=
  1 < pool.size ∧ pool.lastIndex ∉ structural ++ pool.childIndices ∧
    ∃ c, pool.get? pool.lastIndex = some c ∧ c.IsLoose

/-- The second pool is what is left of the first when slots are dropped from its end until none
can be dropped. -/
inductive Trims (structural : List UInt16) : Pool → Pool → Prop
  /-- No slot can be dropped. -/
  | done {pool : Pool} (h : ¬ Droppable structural pool) : Trims structural pool pool
  /-- The last slot is dropped. -/
  | drop {pool pool' : Pool} (h : Droppable structural pool)
      (rest : Trims structural pool.pop pool') : Trims structural pool pool'

/-- Dropping a text leaves all children. -/
lemma childIndices_pop_of_text {value : String} (hmax : pool.size ≤ maxSize)
    (h : pool.get? pool.lastIndex = some (.text value)) :
    pool.pop.childIndices = pool.childIndices := by
  rw [childIndices, childIndices, toList_slots_pop hmax h]
  simp [Constant.children]

/-- What `structural` or a constant refers to is not in the slot that is dropped. -/
lemma Droppable.get?_pop (h : Droppable structural pool) (hmax : pool.size ≤ maxSize)
    (hi : i ∈ structural ++ pool.childIndices) : pool.pop.get? i = pool.get? i := by
  have hpop : pool.pop.size = pool.size - 1 := size_pop
  have hne : i.toNat ≠ pool.size - 1 := by
    rw [← toNat_lastIndex hmax, ne_eq, UInt16.toNat_inj]
    rintro rfl
    exact h.2.1 hi
  by_cases hlt : i.toNat < pool.pop.size
  · exact Pool.get?_pop hlt
  · have hs := h.1
    rw [get?_eq_none_of_size_le (by omega), get?_eq_none_of_size_le (by omega)]

namespace Trims

lemma size_le (h : Trims structural pool pool') : pool'.size ≤ pool.size := by
  induction h with
  | done => exact le_rfl
  | drop hd _ ih =>
    rw [size_pop] at ih
    omega

/-- The slots that are left hold what they held. -/
theorem get? (h : Trims structural pool pool') (hi : i.toNat < pool'.size) :
    pool'.get? i = pool.get? i := by
  induction h with
  | done => rfl
  | drop hd hr ih => rw [ih hi, get?_pop (hi.trans_le hr.size_le)]

/-- The slots that are left are the first ones. -/
lemma toList_slots (h : Trims structural pool pool') :
    pool'.slots.toList = pool.slots.toList.take pool'.size := by
  induction h with
  | done => rw [size, ← Array.length_toList, List.take_length]
  | @drop pool pool' hd hr ih =>
    have hle : pool'.size ≤ pool.slots.size - 1 := hr.size_le.trans_eq size_pop
    rw [ih, pop, Array.toList_pop, List.dropLast_eq_take, List.take_take, Array.length_toList,
      min_eq_left hle]

/-- What is left cannot be trimmed. -/
lemma not_droppable (h : Trims structural pool pool') : ¬ Droppable structural pool' := by
  induction h with
  | done h => exact h
  | drop hd hr ih => exact ih

/-- The constants that are left are constants of the pool. -/
lemma childIndices_subset (h : Trims structural pool pool') (hmax : pool.size ≤ maxSize)
    (hi : i ∈ pool'.childIndices) : i ∈ pool.childIndices := by
  rw [mem_childIndices (h.size_le.trans hmax)] at hi
  obtain ⟨j, c, hj, hi⟩ := hi
  rw [h.get? (lt_size_of_get? hj)] at hj
  exact (mem_childIndices hmax).mpr ⟨j, c, hj, hi⟩

/-- **The slots that are dropped** held texts or names and descriptors, and neither `structural` nor
a constant that is left refers to them. -/
theorem dropped (h : Trims structural pool pool') (hmax : pool.size ≤ maxSize)
    (hi : pool'.size ≤ i.toNat) (hi' : i.toNat < pool.size) :
    (∃ c, pool.get? i = some c ∧ c.IsLoose) ∧ i ∉ structural ∧ i ∉ pool'.childIndices := by
  induction h with
  | done => omega
  | @drop pool pool' hd hr ih =>
    have hpmax : pool.pop.size ≤ maxSize := by
      rw [size_pop]
      omega
    by_cases hlast : i.toNat < pool.pop.size
    · obtain ⟨⟨c, hc, hl⟩, hn⟩ := ih hpmax hi hlast
      exact ⟨⟨c, get?_pop hlast ▸ hc, hl⟩, hn⟩
    · obtain ⟨hs, hn, c, hc, hl⟩ := hd
      have he : i = pool.lastIndex := by
        rw [← UInt16.toNat_inj, toNat_lastIndex hmax]
        rw [size_pop] at hlast
        omega
      subst he
      rw [List.mem_append, not_or] at hn
      refine ⟨⟨c, hc, hl⟩, hn.1, fun hm => hn.2 ?_⟩
      exact (Trims.drop ⟨hs, by simpa using hn, c, hc, hl⟩ hr).childIndices_subset hmax hm

/-- A pool of which nothing can be dropped is left alone. -/
lemma eq_of_not_droppable (h : Trims structural pool pool') (hd : ¬ Droppable structural pool) :
    pool' = pool := by
  cases h with
  | done _ => rfl
  | drop hd' _ => exact absurd hd' hd

/-- A well-formed pool stays well formed. -/
lemma wellFormed (h : Trims structural pool pool') (hw : pool.WellFormed) : pool'.WellFormed := by
  induction h with
  | done => exact hw
  | @drop pool pool' hd hr ih =>
    obtain ⟨hs, -, c, hc, hl⟩ := hd
    obtain ⟨slots, hslots, hlaid⟩ := hw.laidOut
    have hpop := toList_slots_pop hw.size_le hc
    have hnarrow : c.isWide = false := by
      cases c <;> first | exact hl.elim | rfl
    have hne : pool.pop.slots.toList ≠ [] := by
      intro he
      have hlen : pool.slots.toList.length = 1 := by rw [hpop, he]; rfl
      rw [Array.length_toList] at hlen
      exact absurd hs (by rw [size]; omega)
    obtain ⟨head, tail, ht⟩ := List.exists_cons_of_ne_nil hne
    rw [hpop, ht, List.cons_append, List.cons.injEq] at hslots
    obtain ⟨rfl, rfl⟩ := hslots
    refine ih ⟨⟨tail, ht, (laidOut_concat_iff hnarrow).mp hlaid⟩, ?_, fun d hd => hw.fits d ?_⟩
    · rw [size_pop]
      exact (Nat.sub_le _ _).trans hw.size_le
    · rw [hpop]
      exact List.mem_append_left _ hd

/-- What `structural` or a constant that is left refers to holds what it held. -/
theorem get?_of_mem (h : Trims structural pool pool') (hmax : pool.size ≤ maxSize)
    (hi : i ∈ structural ++ pool'.childIndices) : pool'.get? i = pool.get? i := by
  by_cases hlt : i.toNat < pool'.size
  · exact h.get? hlt
  · by_cases hlt' : i.toNat < pool.size
    · obtain ⟨-, hn, hn'⟩ := h.dropped hmax (by omega) hlt'
      rcases List.mem_append.mp hi with hi | hi
      · exact absurd hi hn
      · exact absurd hi hn'
    · rw [get?_eq_none_of_size_le (by omega), get?_eq_none_of_size_le (by omega)]

end Trims

end Pool

/-! ### Findings in another pool -/

section Congr

variable {pool pool' : Pool}

/-- Findings in the members of a list are the same if they are the same in each. -/
lemma flatMap_uses_congr {α : Type} {uses uses' : α → List Finding} {as : List α}
    {same : UInt16 → Prop} (h : ∀ i, .index i ∈ as.flatMap uses → same i)
    (hu : ∀ a ∈ as, (∀ i, .index i ∈ uses a → same i) → uses' a = uses a) :
    as.flatMap uses' = as.flatMap uses :=
  List.flatMap_congr fun a ha =>
    hu a ha fun i hi => h i (List.mem_flatMap.mpr ⟨a, ha, hi⟩)

/-- The findings in an attribute depend only on the texts that it uses. -/
lemma Attribute.uses_congr {a : Attribute}
    (h : ∀ i, .index i ∈ a.uses pool → pool'.text i = pool.text i) :
    a.uses pool' = a.uses pool := by
  induction a using Attribute.induction with
  | flat name body =>
    have hn := h name (by simp [uses])
    cases body <;> simp only [uses, AttributeBody.uses, FlatBody.uses, hn]
  | code name body ih =>
    simp only [uses, AttributeBody.uses, CodeBody.uses_eq] at h ⊢
    rw [flatMap_uses_congr _ ih]
    exact fun i hi => h i (List.mem_cons_of_mem _ (List.mem_append_right _ hi))
  | record name components ih =>
    simp only [uses_record] at h ⊢
    rw [flatMap_uses_congr (fun i hi => h i (List.mem_cons_of_mem _ hi)) fun c hc hi => ?_]
    simp only [RecordComponent.uses_eq] at hi ⊢
    rw [flatMap_uses_congr _ (ih c hc)]
    exact fun i hm => hi i (List.mem_cons_of_mem _ (List.mem_cons_of_mem _ hm))

lemma Member.uses_congr {m : Member}
    (h : ∀ i, .index i ∈ m.uses pool → pool'.text i = pool.text i) :
    m.uses pool' = m.uses pool := by
  simp only [uses] at h ⊢
  rw [flatMap_uses_congr _ fun a _ => Attribute.uses_congr]
  exact fun i hi => h i (List.mem_cons_of_mem _ (List.mem_cons_of_mem _ hi))

/-- The findings in a class file depend only on the texts that it uses. -/
theorem ClassFile.uses_congr {c : ClassFile}
    (h : ∀ i, .index i ∈ c.uses → pool'.text i = c.pool.text i) :
    { c with pool := pool' }.uses = c.uses := by
  simp only [uses, List.mem_cons, List.mem_append, or_assoc] at h ⊢
  rw [flatMap_uses_congr (fun i hi => h i (.inr (.inr (.inr (.inl hi)))))
      fun m _ => Member.uses_congr,
    flatMap_uses_congr (fun i hi => h i (.inr (.inr (.inr (.inr (.inl hi))))))
      fun m _ => Member.uses_congr,
    flatMap_uses_congr (fun i hi => h i (.inr (.inr (.inr (.inr (.inr hi))))))
      fun a _ => Attribute.uses_congr]

end Congr

/-! ### Trimming as it is computed -/

lemma Finding.collectOnto_eq_some_iff {done found : List UInt16} {uses : List Finding} :
    collectOnto done uses = .ok (some found) ↔
      ∃ more, uses = more.map .index ∧ found = done.reverse ++ more := by
  induction uses generalizing done with
  | nil => simp [collectOnto, eq_comm]
  | cons use uses ih =>
    cases use with
    | index i =>
      simp only [collectOnto, ih, List.reverse_cons, List.append_assoc, List.singleton_append]
      constructor
      · rintro ⟨more, rfl, rfl⟩
        exact ⟨i :: more, rfl, rfl⟩
      · rintro ⟨more, hm, rfl⟩
        obtain ⟨j, more, rfl⟩ := List.exists_cons_of_ne_nil (l := more) (by rintro rfl; simp at hm)
        simp only [List.map_cons, List.cons.injEq, index.injEq] at hm
        obtain ⟨rfl, rfl⟩ := hm
        exact ⟨more, rfl, rfl⟩
    | unaccounted =>
      refine iff_of_false (by simp [collectOnto]) ?_
      rintro ⟨_ | ⟨j, more⟩, hm, -⟩ <;> simp at hm
    | fault cause =>
      refine iff_of_false (by simp [collectOnto]) ?_
      rintro ⟨_ | ⟨j, more⟩, hm, -⟩ <;> simp at hm

/-- Findings are collected if and only if all of them are indices. -/
theorem Finding.collect_eq_some_iff {found : List UInt16} {uses : List Finding} :
    collect uses = .ok (some found) ↔ uses = found.map .index := by
  simp [collect, collectOnto_eq_some_iff]

/-- Findings that can be collected and are all accounted for are indices. -/
lemma Finding.exists_eq_map_index {done : List UInt16} {uses : List Finding}
    {found : Option (List UInt16)} (h : collectOnto done uses = .ok found)
    (hu : .unaccounted ∉ uses) : ∃ more : List UInt16, uses = more.map .index := by
  induction uses generalizing done with
  | nil => exact ⟨[], rfl⟩
  | cons use uses ih =>
    cases use with
    | index i =>
      obtain ⟨more, rfl⟩ := ih h fun hm => hu (List.mem_cons_of_mem _ hm)
      exact ⟨i :: more, rfl⟩
    | unaccounted => exact absurd List.mem_cons_self hu
    | fault cause => cases h

namespace ClassFile

variable {c c' : ClassFile} {structural : List UInt16} {pool' : Pool} {n : Nat}

/-- The indices of a class are collected if and only if all that is found in it are indices. -/
lemma indicesInUse_eq_some_iff :
    c.indicesInUse = .ok (some structural) ↔ c.uses = structural.map .index :=
  Finding.collect_eq_some_iff

/-- The class uses the same indices with a pool that holds the same at these indices. -/
lemma uses_eq_of_get? (huses : c.uses = structural.map .index)
    (h : ∀ i ∈ structural, pool'.get? i = c.pool.get? i) :
    { c with pool := pool' }.uses = c.uses := by
  refine uses_congr fun i hi => ?_
  rw [huses] at hi
  rw [Pool.text, Pool.text, h i (by simpa using hi)]

/-- One step of trimming. -/
lemma trimWith_succ (fuel : Nat) (inUse : List UInt16) (c : ClassFile) :
    trimWith (fuel + 1) inUse c =
      if c.pool.size ≤ 1 || inUse.contains c.pool.lastIndex then (.ok (), c)
      else
        match c.pool.get? c.pool.lastIndex with
        | some (.text _) => trimWith fuel inUse { c with pool := c.pool.pop }
        | some (.nameAndType _ _) =>
          match { c with pool := c.pool.pop }.indicesInUse with
          | .error cause => (.error cause, { c with pool := c.pool.pop })
          | .ok structural =>
            trimWith fuel (structural.getD [] ++ c.pool.pop.childIndices)
              { c with pool := c.pool.pop }
        | _ => (.ok (), c) :=
  rfl

/-- Dropping slots one after the other does not fail, and drops all that can be dropped.

**Proof sketch.** Induction on the bound for the number of slots. The indices in use are at all times
those of the class and the children of the constants that are there: a text takes no child with it
when it is dropped, and behind a name-and-type constant they are counted anew. The class then uses
the same indices as before, because the slot that is gone was none of them. -/
theorem exists_trimWith_eq {fuel : Nat} (hf : c.pool.size ≤ fuel)
    (hmax : c.pool.size ≤ Pool.maxSize) (huses : c.uses = structural.map .index) :
    ∃ pool', Pool.Trims structural c.pool pool' ∧
      trimWith fuel (structural ++ c.pool.childIndices) c = (.ok (), { c with pool := pool' }) := by
  induction fuel generalizing c with
  | zero => exact ⟨c.pool, .done fun h => absurd h.1 (by omega), rfl⟩
  | succ fuel ih =>
    have hpop : c.pool.pop.size = c.pool.size - 1 := Pool.size_pop
    rw [trimWith_succ]
    split_ifs with hstop
    · refine ⟨c.pool, .done fun h => ?_, rfl⟩
      obtain ⟨hs, hn, -⟩ := h
      simp only [Bool.or_eq_true, decide_eq_true_eq, List.contains_iff_mem] at hstop
      rcases hstop with hstop | hstop
      · omega
      · exact hn hstop
    · simp only [Bool.or_eq_true, decide_eq_true_eq, List.contains_iff_mem, not_or] at hstop
      -- what is left after one slot, whichever of the two sorts it held
      have hdrop {k : Constant} (hk : c.pool.get? c.pool.lastIndex = some k) (hl : k.IsLoose) :
          Pool.Droppable structural c.pool ∧
            { c with pool := c.pool.pop }.uses = structural.map .index := by
        have hd : Pool.Droppable structural c.pool := ⟨by omega, hstop.2, k, hk, hl⟩
        refine ⟨hd, (uses_eq_of_get? huses fun i hi => ?_).trans huses⟩
        exact hd.get?_pop hmax (List.mem_append_left _ hi)
      split
      · rename_i value hk
        obtain ⟨hd, hsame⟩ := hdrop hk trivial
        obtain ⟨pool', ht, heq⟩ := ih (c := { c with pool := c.pool.pop }) (by simp only; omega)
          (by simp only; omega) hsame
        rw [← Pool.childIndices_pop_of_text hmax hk]
        exact ⟨pool', .drop hd ht, heq⟩
      · rename_i name descriptor hk
        obtain ⟨hd, hsame⟩ := hdrop hk trivial
        obtain ⟨pool', ht, heq⟩ := ih (c := { c with pool := c.pool.pop }) (by simp only; omega)
          (by simp only; omega) hsame
        simp only [indicesInUse_eq_some_iff.mpr hsame, Option.getD_some]
        exact ⟨pool', .drop hd ht, heq⟩
      · rename_i hnt hnn
        refine ⟨c.pool, .done fun h => ?_, rfl⟩
        obtain ⟨-, -, k, hk, hl⟩ := h
        cases k <;> first | exact hl.elim | skip
        · exact hnt _ hk
        · exact hnn _ _ hk

/-- **Trimming a class whose indices are known** drops all that can be dropped. -/
theorem exists_trimInPlace_eq (hmax : c.pool.size ≤ Pool.maxSize)
    (huses : c.uses = structural.map .index) :
    ∃ pool', Pool.Trims structural c.pool pool' ∧
      c.trimInPlace = (.ok (c.pool.size - pool'.size), { c with pool := pool' }) := by
  obtain ⟨pool', ht, heq⟩ := exists_trimWith_eq le_rfl hmax huses
  refine ⟨pool', ht, ?_⟩
  simp only [trimInPlace, indicesInUse_eq_some_iff.mpr huses, heq]

/-- All that trimming can do: it fails or gives up before it drops anything, or it drops all that can
be dropped. -/
theorem trimInPlace_cases (hmax : c.pool.size ≤ Pool.maxSize) :
    (∃ cause, c.indicesInUse = .error cause ∧ c.trimInPlace = (.error cause, c)) ∨
      (c.indicesInUse = .ok none ∧ c.trimInPlace = (.ok 0, c)) ∨
      ∃ structural pool', c.uses = structural.map .index ∧
        Pool.Trims structural c.pool pool' ∧
        c.trimInPlace = (.ok (c.pool.size - pool'.size), { c with pool := pool' }) := by
  cases hc : c.indicesInUse with
  | error cause => exact .inl ⟨cause, rfl, by simp only [trimInPlace, hc]⟩
  | ok found =>
    cases found with
    | none => exact .inr (.inl ⟨rfl, by simp only [trimInPlace, hc]⟩)
    | some structural =>
      have huses := indicesInUse_eq_some_iff.mp hc
      obtain ⟨pool', ht, heq⟩ := exists_trimInPlace_eq hmax huses
      exact .inr (.inr ⟨structural, pool', huses, ht, heq⟩)

/-- What trimming returns when it does not fail. -/
lemma trim_cases (hmax : c.pool.size ≤ Pool.maxSize) (h : c.trim = .ok (c', n)) :
    (c.indicesInUse = .ok none ∧ c' = c ∧ n = 0) ∨
      ∃ structural, c.uses = structural.map .index ∧ Pool.Trims structural c.pool c'.pool ∧
        c' = { c with pool := c'.pool } ∧ n = c.pool.size - c'.pool.size := by
  obtain ⟨cause, -, heq⟩ | ⟨hnone, heq⟩ | ⟨structural, pool', huses, ht, heq⟩ :=
    trimInPlace_cases hmax
  · simp [trim, heq] at h
  · obtain ⟨rfl, rfl⟩ : c = c' ∧ 0 = n := by simpa [trim, heq] using h
    exact .inl ⟨hnone, rfl, rfl⟩
  · obtain ⟨rfl, rfl⟩ : { c with pool := pool' } = c' ∧ c.pool.size - pool'.size = n := by
      simpa [trim, heq] using h
    exact .inr ⟨structural, huses, ht, rfl, rfl⟩

/-- A class whose indices are known is trimmed. -/
lemma exists_trim_eq (hmax : c.pool.size ≤ Pool.maxSize) (huses : c.uses = structural.map .index) :
    ∃ pool', Pool.Trims structural c.pool pool' ∧
      c.trim = .ok ({ c with pool := pool' }, c.pool.size - pool'.size) := by
  obtain ⟨pool', ht, heq⟩ := exists_trimInPlace_eq hmax huses
  exact ⟨pool', ht, by simp only [trim, heq]⟩

/-! ### Class files -/

/-- An index that nothing in a class file refers to: not the class, and no constant. -/
def Unreferenced (c : ClassFile) (i : UInt16) : Prop :=
  .index i ∉ c.uses ∧ i ∉ c.pool.childIndices

/-- A class file after trimming: slots at the end of its pool are dropped, each a text or a name and
a descriptor that nothing refers to. Everything that is referred to is as it was. -/
structure Trimmed (c c' : ClassFile) : Prop where
  /-- Nothing changes but the pool. -/
  eq : c' = { c with pool := c'.pool }
  /-- No slot is added. -/
  size_le : c'.pool.size ≤ c.pool.size
  /-- The same indices are in use. -/
  uses_eq : c'.uses = c.uses
  /-- The slots that are left hold what they held. -/
  get?_eq : ∀ {i : UInt16}, i.toNat < c'.pool.size → c'.pool.get? i = c.pool.get? i
  /-- So does every index that something refers to. -/
  get?_of_referenced : ∀ {i : UInt16}, .index i ∈ c'.uses ∨ i ∈ c'.pool.childIndices →
    c'.pool.get? i = c.pool.get? i
  /-- The slots that are dropped held texts or names and descriptors that nothing refers to. -/
  dropped : ∀ {i : UInt16}, c'.pool.size ≤ i.toNat → i.toNat < c.pool.size →
    (∃ k, c.pool.get? i = some k ∧ k.IsLoose) ∧ c'.Unreferenced i
  /-- The pool stays well formed. -/
  wellFormed_pool : c.pool.WellFormed → c'.pool.WellFormed

/-- **Trimming a class file** drops unreferenced slots from the end of its pool. -/
theorem trimmed_of_trim (hmax : c.pool.size ≤ Pool.maxSize) (h : c.trim = .ok (c', n)) :
    Trimmed c c' := by
  obtain ⟨-, rfl, -⟩ | ⟨structural, huses, ht, heq, -⟩ := trim_cases hmax h
  · exact ⟨rfl, le_rfl, rfl, fun _ => rfl, fun _ => rfl, fun h h' => absurd h' (by omega), id⟩
  · have hsame : c'.uses = c.uses := by
      rw [heq]
      exact uses_eq_of_get? huses fun i hi => ht.get?_of_mem hmax (List.mem_append_left _ hi)
    refine ⟨heq, ht.size_le, hsame, fun hi => ht.get? hi, fun {i} hi => ?_, fun {i} hi hi' => ?_,
      ht.wellFormed⟩
    · refine ht.get?_of_mem hmax (List.mem_append.mpr (hi.imp_left fun hi => ?_))
      rw [hsame, huses] at hi
      simpa using hi
    · obtain ⟨hl, hn, hn'⟩ := ht.dropped hmax hi hi'
      refine ⟨hl, ?_, hn'⟩
      rw [hsame, huses]
      simpa using hn

namespace Trimmed

variable {i : UInt16}

/-- What is left was there before. -/
lemma get?_of_get? (h : Trimmed c c') {k : Constant} (hk : c'.pool.get? i = some k) :
    c.pool.get? i = some k := by
  rw [← h.get?_eq (Pool.lt_size_of_get? hk), hk]

lemma text_of_text (h : Trimmed c c') {text : String} (ht : c'.pool.text i = .ok text) :
    c.pool.text i = .ok text :=
  Pool.text_eq_ok_iff.mpr (h.get?_of_get? (Pool.text_eq_ok_iff.mp ht))

lemma className_of_className (h : Trimmed c c') {name : String}
    (hn : c'.pool.className i = .ok name) : c.pool.className i = .ok name := by
  obtain ⟨n, hk, hv⟩ := Pool.className_eq_ok_iff.mp hn
  exact Pool.className_eq_ok_iff.mpr ⟨n, h.get?_of_get? hk, h.text_of_text hv⟩

lemma nameAndType_of_nameAndType (h : Trimmed c c') {pair : String × String}
    (hp : c'.pool.nameAndType i = .ok pair) : c.pool.nameAndType i = .ok pair := by
  obtain ⟨n, d, hk, hn, hd⟩ := Pool.nameAndType_eq_ok_iff.mp hp
  exact Pool.nameAndType_eq_ok_iff.mpr ⟨n, d, h.get?_of_get? hk, h.text_of_text hn, h.text_of_text hd⟩

/-- Texts that something refers to resolve as before. -/
lemma text_eq (h : Trimmed c c') (hi : .index i ∈ c'.uses ∨ i ∈ c'.pool.childIndices) :
    c'.pool.text i = c.pool.text i := by
  simp only [Pool.text, h.get?_of_referenced hi]

/-- What a constant that is left points at is referred to. -/
lemma text_eq_of_mem_children (h : Trimmed c c') (hmax : c.pool.size ≤ Pool.maxSize) {j : UInt16}
    {k : Constant} (hk : c'.pool.get? j = some k) (hi : i ∈ k.children) :
    c'.pool.text i = c.pool.text i :=
  h.text_eq (.inr ((Pool.mem_childIndices (h.size_le.trans hmax)).mpr ⟨j, k, hk, hi⟩))

/-- Classes that something refers to resolve as before. -/
lemma className_eq (h : Trimmed c c') (hmax : c.pool.size ≤ Pool.maxSize)
    (hi : .index i ∈ c'.uses ∨ i ∈ c'.pool.childIndices) :
    c'.pool.className i = c.pool.className i := by
  have hg := h.get?_of_referenced hi
  rw [Pool.className, Pool.className, ← hg]
  split
  · rename_i n hk
    exact h.text_eq_of_mem_children hmax hk (by simp [Constant.children])
  · rfl

/-- Names and descriptors that something refers to resolve as before. -/
lemma nameAndType_eq (h : Trimmed c c') (hmax : c.pool.size ≤ Pool.maxSize)
    (hi : .index i ∈ c'.uses ∨ i ∈ c'.pool.childIndices) :
    c'.pool.nameAndType i = c.pool.nameAndType i := by
  have hg := h.get?_of_referenced hi
  rw [Pool.nameAndType, Pool.nameAndType, ← hg]
  split
  · rename_i n d hk
    rw [h.text_eq_of_mem_children hmax hk (by simp [Constant.children]),
      h.text_eq_of_mem_children hmax hk (by simp [Constant.children])]
  · rfl

/-- References to members are left, and resolve as before. -/
lemma member_eq (h : Trimmed c c') (hmax : c.pool.size ≤ Pool.maxSize) {ref : MemberRef}
    (hr : c.pool.member i = .ok ref) : c'.pool.member i = .ok ref := by
  obtain ⟨o, n, hk, ho, hn⟩ := Pool.member_eq_ok_iff.mp hr
  have hlt : i.toNat < c'.pool.size := by
    by_contra hge
    obtain ⟨⟨k, hk', hl⟩, -⟩ := h.dropped (not_lt.mp hge) (Pool.lt_size_of_get? hk)
    obtain rfl := Option.some.inj (hk.symm.trans hk')
    exact hl
  rw [← h.get?_eq hlt] at hk
  have hchild : ∀ j ∈ [o, n], j ∈ c'.pool.childIndices := fun j hj =>
    (Pool.mem_childIndices (h.size_le.trans hmax)).mpr ⟨i, _, hk, hj⟩
  refine Pool.member_eq_ok_iff.mpr ⟨o, n, hk, ?_, ?_⟩
  · rw [h.className_eq hmax (.inr (hchild o (by simp)))]
    exact ho
  · rw [h.nameAndType_eq hmax (.inr (hchild n (by simp)))]
    exact hn

/-- The sites are the same. -/
lemma sites_eq (h : Trimmed c c') (generic : UInt16 → Bool) : c'.sites generic = c.sites generic := by
  rw [h.eq]
  rfl

lemma outline_eq (h : Trimmed c c') : c'.outline = c.outline := by
  rw [h.eq]
  rfl

end Trimmed

/-- **A trimmed class file is well formed** if the class file was. -/
theorem Trimmed.wellFormed (h : Trimmed c c') (hw : c.WellFormed) : c'.WellFormed := by
  have hmax := hw.pool.size_le
  obtain ⟨name, hname⟩ := hw.name
  have hthis : c'.thisClass = c.thisClass := by rw [h.eq]
  refine @WellFormed.of_outline (fun _ => false) _ _ hw h.outline_eq (h.wellFormed_pool hw.pool)
    ⟨name, ?_⟩ (fun i hi value hv => (h.text_eq (.inl hi)).trans hv) ?_
  · rw [ClassFile.name, h.className_eq hmax (.inl (by simp [uses])), hthis]
    exact hname
  · rw [h.sites_eq]
    refine List.forall₂_same.mpr fun x hx hv => ?_
    rw [h.text_eq (.inl (mem_uses (h.sites_eq _ ▸ hx) x.index_mem_indices))]
    exact hv

end ClassFile

end ClassAtlas
