import ClassAtlas.Pool.Basic
import ClassAtlas.Proofs.Bytes.Reading
import ClassAtlas.Proofs.Text.ModifiedUtf8

/-!
# Well-formed pools and their bytes

A pool that can be written has an unusable slot zero, an unusable slot behind every constant that
takes two slots and no other ones, at most 65535 slots, and only texts whose length fits a two-byte
word. Such a pool reads back from its bytes, and only such pools are read.

## Main definitions

* `ClassAtlas.Constant.Fits` — a constant that can be written.
* `ClassAtlas.Pool.LaidOut` — the order of usable and unusable slots behind slot zero.
* `ClassAtlas.Pool.WellFormed` — a pool that can be written.

## Main results

* `ClassAtlas.Pool.read_encode` — a well-formed pool reads back from its bytes.
* `ClassAtlas.Pool.wellFormed_of_read` — every pool that is read is well formed.
-/

set_option autoImplicit false

namespace ClassAtlas

open Bytes

/-! ### Constants -/

namespace Constant

/-- Whether a constant can be written: the length of a text has to fit a two-byte word. -/
def Fits : Constant → Prop
  | text value => (Text.encode value).length < 65536
  | _ => True

/-- A constant is read as the operands behind its tag. -/
lemma read_cons (tag : UInt8) (bytes : List UInt8) : read (tag :: bytes) = readOperands tag bytes :=
  rfl

/-- A constant with one index reads back behind its tag. -/
lemma read_index (make : UInt16 → Constant) (i : UInt16) (rest : List UInt8) :
    (do return make (← Reader.u2) : Reader Constant) (u2 i ++ rest) = .ok (make i, rest) :=
  Reader.bind_eq_ok_iff.mpr ⟨i, rest, Reader.u2_eq_ok_iff.mpr rfl, rfl⟩

/-- A constant with two indices reads back behind its tag. -/
lemma read_indices (make : UInt16 → UInt16 → Constant) (i j : UInt16) (rest : List UInt8) :
    (do return make (← Reader.u2) (← Reader.u2) : Reader Constant) (u2 i ++ (u2 j ++ rest)) =
      .ok (make i j, rest) :=
  Reader.bind_eq_ok_iff.mpr
    ⟨i, _, Reader.u2_eq_ok_iff.mpr rfl, read_index (make i) j rest⟩

/-- A text reads back behind its tag if its length fits a two-byte word. -/
lemma read_text {value : String} (h : (Text.encode value).length < 65536) (rest : List UInt8) :
    readOperands 1 (u2 (UInt16.ofNat (Text.encode value).length) ++ (Text.encode value ++ rest)) =
      .ok (text value, rest) := by
  have hn : (UInt16.ofNat (Text.encode value).length).toNat = (Text.encode value).length :=
    UInt16.toNat_ofNat_of_lt' h
  refine Reader.bind_eq_ok_iff.mpr ⟨_, _, Reader.u2_eq_ok_iff.mpr rfl, ?_⟩
  refine Reader.bind_eq_ok_iff.mpr ⟨_, _, Reader.slice_eq_ok_iff.mpr ⟨hn.symm, rfl⟩, ?_⟩
  exact Reader.bind_eq_ok_iff.mpr
    ⟨value, _, Reader.ofExcept_eq_ok_iff.mpr ⟨Text.decode_encode value, rfl⟩, rfl⟩

/-- A 32-bit integer reads back behind its tag. -/
lemma read_integer (value : Int32) (rest : List UInt8) :
    readOperands 3 (u4 value.toUInt32 ++ rest) = .ok (integer value, rest) :=
  Reader.bind_eq_ok_iff.mpr ⟨value.toUInt32, rest, Reader.u4_eq_ok_iff.mpr rfl, rfl⟩

/-- A 64-bit integer reads back behind its tag. -/
lemma read_long (value : Int64) (rest : List UInt8) :
    readOperands 5 (u8 value.toUInt64 ++ rest) = .ok (long value, rest) :=
  Reader.bind_eq_ok_iff.mpr ⟨value.toUInt64, rest, Reader.u8_eq_ok_iff.mpr rfl, rfl⟩

/-- The bits of a 32-bit floating-point number read back behind their tag. -/
lemma read_float (bits : UInt32) (rest : List UInt8) :
    readOperands 4 (u4 bits ++ rest) = .ok (float bits, rest) :=
  Reader.bind_eq_ok_iff.mpr ⟨bits, rest, Reader.u4_eq_ok_iff.mpr rfl, rfl⟩

/-- The bits of a 64-bit floating-point number read back behind their tag. -/
lemma read_double (bits : UInt64) (rest : List UInt8) :
    readOperands 6 (u8 bits ++ rest) = .ok (double bits, rest) :=
  Reader.bind_eq_ok_iff.mpr ⟨bits, rest, Reader.u8_eq_ok_iff.mpr rfl, rfl⟩

/-- A constant that can be written reads back from its bytes. -/
theorem read_encode {c : Constant} (h : c.Fits) (rest : List UInt8) :
    read (c.encode ++ rest) = .ok (c, rest) := by
  cases c <;> simp only [encode, List.cons_append, List.append_assoc, read_cons]
  case text value => exact read_text h rest
  case integer value => exact read_integer value rest
  case float bits => exact read_float bits rest
  case long value => exact read_long value rest
  case double bits => exact read_double bits rest
  case classRef name => exact read_index classRef name rest
  case string value => exact read_index string value rest
  case memberRef kind owner nameType =>
    cases kind
    case field => exact read_indices (memberRef .field) owner nameType rest
    case method => exact read_indices (memberRef .method) owner nameType rest
    case interfaceMethod => exact read_indices (memberRef .interfaceMethod) owner nameType rest
  case nameAndType name descriptor => exact read_indices nameAndType name descriptor rest
  case methodHandle kind reference => exact read_index (methodHandle kind) reference rest
  case methodType descriptor => exact read_index methodType descriptor rest
  case dynamic bootstrap nameType => exact read_indices dynamic bootstrap nameType rest
  case invokeDynamic bootstrap nameType => exact read_indices invokeDynamic bootstrap nameType rest
  case moduleRef name => exact read_index moduleRef name rest
  case packageRef name => exact read_index packageRef name rest

/-- Every constant that is read can be written. -/
theorem fits_of_read {bytes rest : List UInt8} {c : Constant} (h : read bytes = .ok (c, rest)) :
    c.Fits := by
  cases c with
  | text value =>
    simp only [read, Reader.bind_eq_ok_iff, Reader.u1_eq_ok_iff] at h
    obtain ⟨tag, mid, rfl, h⟩ := h
    unfold readOperands at h
    split at h <;> simp at h
    obtain ⟨n, payload, -, hn, hd⟩ := h
    have hlt := n.toNat_lt
    have hle := Text.length_encode_le hd
    show (Text.encode value).length < 65536
    omega
  | _ => trivial

end Constant

/-! ### Pools -/

namespace Pool

/-- The order of the slots behind slot zero: a constant that takes two slots is followed by an
unusable slot, and no other slot is unusable. -/
def LaidOut : List (Option Constant) → Prop
  | [] => True
  | some c :: none :: slots => c.isWide = true ∧ LaidOut slots
  | some c :: slots => c.isWide = false ∧ LaidOut slots
  | none :: _ => False

/-- A pool that can be written. -/
structure WellFormed (pool : Pool) : Prop where
  /-- Slot zero is unusable, and the slots behind it are in order. -/
  laidOut : ∃ slots, pool.slots.toList = none :: slots ∧ LaidOut slots
  /-- The number of slots fits a two-byte word. -/
  size_le : pool.size ≤ maxSize
  /-- Every constant can be written. -/
  fits : ∀ c, some c ∈ pool.slots.toList → c.Fits

/-- A constant of one slot in front of slots that are in order. -/
lemma laidOut_narrow_cons {c : Constant} (hc : c.isWide = false) {slots : List (Option Constant)} :
    LaidOut (some c :: slots) ↔ LaidOut slots := by
  cases slots with
  | nil => simp [LaidOut, hc]
  | cons slot slots => cases slot <;> simp [LaidOut, hc]

/-- A constant of one slot can stand behind slots if and only if they are in order. -/
lemma laidOut_concat_iff {c : Constant} (hc : c.isWide = false) {slots : List (Option Constant)} :
    LaidOut (slots ++ [some c]) ↔ LaidOut slots := by
  fun_induction LaidOut slots with
  | case1 => simp [LaidOut, hc]
  | case2 d slots ih => simp [LaidOut, ih]
  | case3 d slots hne ih =>
    cases slots with
    | nil => simp [LaidOut, hc]
    | cons slot slots =>
      cases slot with
      | none => exact absurd rfl (hne slots)
      | some e => simp only [List.cons_append, LaidOut] at ih ⊢; rw [ih]
  | case4 => simp [LaidOut]

/-- Constants of one slot each can stand behind slots if and only if they are in order. -/
lemma laidOut_append_iff {slots more : List (Option Constant)}
    (hm : ∀ slot ∈ more, ∃ c, slot = some c ∧ c.isWide = false) :
    LaidOut (slots ++ more) ↔ LaidOut slots := by
  induction more using List.reverseRecOn with
  | nil => simp
  | append_singleton more slot ih =>
    obtain ⟨c, rfl, hc⟩ := hm slot (by simp)
    rw [← List.append_assoc, laidOut_concat_iff hc, ih fun slot hs => hm slot (by simp [hs])]

/-- The order of slots depends only on which of them are usable and take two slots. -/
lemma laidOut_congr {slots slots' : List (Option Constant)}
    (h : slots'.map (Option.map Constant.isWide) = slots.map (Option.map Constant.isWide)) :
    LaidOut slots' ↔ LaidOut slots := by
  fun_induction LaidOut slots generalizing slots' with
  | case1 =>
    obtain rfl : slots' = [] := by simpa using h
    rfl
  | case2 c slots ih =>
    obtain ⟨_ | d, slots', rfl⟩ := List.exists_cons_of_ne_nil (l := slots') (by rintro rfl; simp at h)
    · simp at h
    obtain ⟨_ | e, slots', rfl⟩ := List.exists_cons_of_ne_nil (l := slots') (by rintro rfl; simp at h)
    · simp only [List.map_cons, Option.map_some, Option.map_none, List.cons.injEq,
        Option.some.injEq, true_and] at h
      simp only [LaidOut, h.1, ih h.2]
    · simp at h
  | case3 c slots hne ih =>
    obtain ⟨_ | d, slots', rfl⟩ := List.exists_cons_of_ne_nil (l := slots') (by rintro rfl; simp at h)
    · simp at h
    simp only [List.map_cons, Option.map_some, List.cons.injEq, Option.some.injEq] at h
    cases slots' with
    | nil =>
      obtain rfl : slots = [] := by simpa using h.2
      simp [LaidOut, h.1]
    | cons slot slots' =>
      cases slot with
      | none =>
        cases slots with
        | nil => simp at h
        | cons slot slots =>
          cases slot with
          | none => exact absurd rfl (hne slots)
          | some e => simp at h
      | some e => simp only [LaidOut, h.1, ih h.2]
  | case4 slots =>
    obtain ⟨_ | d, slots', rfl⟩ := List.exists_cons_of_ne_nil (l := slots') (by rintro rfl; simp at h)
    · simp [LaidOut]
    · simp at h

/-- Slots that are in order and can be written are read behind the slots before them. -/
lemma readSlots_flatMap_encodeSlot {slots : List (Option Constant)} (hs : LaidOut slots)
    (hf : ∀ c, some c ∈ slots → c.Fits) (before : Array (Option Constant)) (rest : List UInt8) :
    readSlots slots.length before (slots.flatMap encodeSlot ++ rest) =
      .ok (before ++ slots.toArray, rest) := by
  fun_induction LaidOut slots generalizing before with
  | case1 => simp [readSlots]
  | case2 c slots ih =>
    obtain ⟨hc, hs⟩ := hs
    have hr := c.read_encode (hf c (by simp)) (slots.flatMap encodeSlot ++ rest)
    have ht := ih hs (fun d hd => hf d (by simp [hd])) ((before.push (some c)).push none)
    simp only [List.length_cons, readSlots, List.flatMap_cons, encodeSlot, List.nil_append,
      List.append_assoc, hr, hc, if_true, ht]
    congr 2
    apply Array.ext'
    simp
  | case3 c slots hne ih =>
    obtain ⟨hc, hs⟩ := hs
    have hr := c.read_encode (hf c (by simp)) (slots.flatMap encodeSlot ++ rest)
    have ht := ih hs (fun d hd => hf d (by simp [hd])) (before.push (some c))
    simp only [List.length_cons, readSlots, List.flatMap_cons, encodeSlot,
      List.append_assoc, hr, hc, Bool.false_eq_true, if_false, ht]
    congr 2
    apply Array.ext'
    simp
  | case4 => exact hs.elim

/-- The slots that are read are in order, can be written and are as many as asked for. -/
lemma laidOut_of_readSlots {n : Nat} {before result : Array (Option Constant)}
    {bytes rest : List UInt8} (h : readSlots n before bytes = .ok (result, rest)) :
    ∃ slots, result.toList = before.toList ++ slots ∧ slots.length = n ∧ LaidOut slots ∧
      ∀ c, some c ∈ slots → c.Fits := by
  fun_induction readSlots n before bytes with
  | case1 before bytes =>
    obtain ⟨rfl, rfl⟩ : before = result ∧ bytes = rest := by simpa using h
    exact ⟨[], by simp, rfl, trivial, by simp⟩
  | case2 => simp at h
  | case3 => simp at h
  | case4 before bytes c mid hc hw n ih =>
    obtain ⟨slots, hr, rfl, hs, hf⟩ := ih h
    refine ⟨some c :: none :: slots, by simp [hr], rfl, ⟨hw, hs⟩, ?_⟩
    intro d hd
    simp only [List.mem_cons, Option.some.injEq, reduceCtorEq, false_or] at hd
    rcases hd with rfl | hd
    · exact Constant.fits_of_read hc
    · exact hf d hd
  | case5 n before bytes c mid hc hw ih =>
    obtain ⟨slots, hr, rfl, hs, hf⟩ := ih h
    have hw : c.isWide = false := by simpa using hw
    refine ⟨some c :: slots, by simp [hr], rfl, (laidOut_narrow_cons hw).mpr hs, ?_⟩
    intro d hd
    simp only [List.mem_cons, Option.some.injEq] at hd
    rcases hd with rfl | hd
    · exact Constant.fits_of_read hc
    · exact hf d hd

/-- **A well-formed pool reads back from its bytes**, whatever follows. -/
theorem read_encode {pool : Pool} (h : pool.WellFormed) (rest : List UInt8) :
    read (pool.encode ++ rest) = .ok (pool, rest) := by
  obtain ⟨slots, hs, hl⟩ := h.laidOut
  have hn : pool.size = slots.length + 1 := by
    rw [size, ← Array.length_toList, hs, List.length_cons]
  have hle : pool.size ≤ 65535 := h.size_le
  have hu : (UInt16.ofNat pool.size).toNat = slots.length + 1 := by
    rw [UInt16.toNat_ofNat_of_lt' (show pool.size < 65536 by omega), hn]
  have hslots : readSlots slots.length #[none] (slots.flatMap encodeSlot ++ rest) =
      .ok (pool.slots, rest) := by
    rw [readSlots_flatMap_encodeSlot hl (fun c hc => h.fits c (by simp [hs, hc]))]
    congr 2
    apply Array.ext'
    simp [hs]
  simp only [read, encode, Reader.bind_eq_ok_iff, Reader.u2_eq_ok_iff, hs, List.flatMap_cons,
    encodeSlot, List.nil_append, List.append_assoc, u2_append_inj]
  refine ⟨UInt16.ofNat pool.size, _, ⟨rfl, rfl⟩, ?_⟩
  rw [hu]
  simp [hslots]

/-- A pool that is read stands behind the number of its slots, which is not zero. -/
lemma exists_readSlots_of_read {bytes rest : List UInt8} {pool : Pool}
    (h : read bytes = .ok (pool, rest)) :
    ∃ (count : UInt16) (n : Nat) (mid : List UInt8), bytes = u2 count ++ mid ∧
      count.toNat = n + 1 ∧ readSlots n #[none] mid = .ok (pool.slots, rest) := by
  simp only [read, Reader.bind_eq_ok_iff, Reader.u2_eq_ok_iff] at h
  obtain ⟨count, mid, rfl, h⟩ := h
  cases hn : count.toNat with
  | zero => simp [hn] at h
  | succ n =>
    rw [hn] at h
    simp only [Reader.bind_eq_ok_iff, Reader.pure_eq_ok_iff] at h
    obtain ⟨result, _, hr, rfl, rfl⟩ := h
    exact ⟨count, n, mid, rfl, hn, hr⟩

/-- **Every pool that is read is well formed.** -/
theorem wellFormed_of_read {bytes rest : List UInt8} {pool : Pool}
    (h : read bytes = .ok (pool, rest)) : pool.WellFormed := by
  obtain ⟨count, n, mid, rfl, hn, hr⟩ := exists_readSlots_of_read h
  have hlt := count.toNat_lt
  obtain ⟨slots, hslots, rfl, hl, hf⟩ := laidOut_of_readSlots hr
  have hslots : pool.slots.toList = none :: slots := by simpa using hslots
  refine ⟨⟨slots, hslots, hl⟩, ?_, ?_⟩
  · show pool.slots.size ≤ 65535
    rw [← Array.length_toList, hslots, List.length_cons]
    omega
  · intro c hc
    exact hf c (by simpa [hslots] using hc)

end Pool

end ClassAtlas
