import ClassAtlas.Proofs.ClassFile.Codec
import ClassAtlas.Proofs.Pool.Editing

/-!
# The bytes of a class file and its texts

A class file is written as it was read, except for its texts: decoding accepts longer forms of a unit,
and encoding writes the shortest one. So encoding after decoding replaces the payload of every text
constant by the canonical spelling of the text, with its length, and changes no other byte.

## Main definitions

* `ClassAtlas.Spelling` — a constant as it stands in bytes.
* `ClassAtlas.Spelling.Spells` — the constant that is read from there.
* `ClassAtlas.Spelling.canonical` — the same constant with its text in the canonical spelling.
* `ClassAtlas.ClassFile.front`, `ClassAtlas.ClassFile.back` — the bytes around the constants.

## Main results

* `ClassAtlas.Constant.exists_spelling_of_read` — what is read was spelled.
* `ClassAtlas.ClassFile.exists_spellings_of_decode` — the bytes of a class file that is read.
* `ClassAtlas.ClassFile.encode_of_decode` — encoding makes the texts canonical and changes nothing else.
-/

set_option autoImplicit false

namespace ClassAtlas

open Bytes

/-! ### Constants -/

/-- A constant as it stands in bytes: a text by its payload, any other constant by itself. -/
inductive Spelling where
  /-- A text, as the bytes behind its length. -/
  | text (payload : List UInt8)
  /-- A constant that is no text; it has one spelling only. -/
  | other (c : Constant)

namespace Spelling

/-- The bytes themselves. -/
def bytes : Spelling → List UInt8
  | text payload => 1 :: u2 (UInt16.ofNat payload.length) ++ payload
  | other c => c.encode

/-- Whether this is a spelling of a constant: the payload of a text has a length that fits a two-byte
word, and decodes to the text. -/
def Spells : Spelling → Constant → Prop
  | text payload, c =>
    payload.length < 65536 ∧ ∃ value, Text.decode payload = .ok value ∧ c = .text value
  | other d, c => d = c ∧ ¬ c.IsText

/-- The spelling with its text in the canonical form. -/
def canonical : Spelling → Spelling
  | text payload =>
    match Text.decode payload with
    | .ok value => text (Text.encode value)
    | .error _ => text payload
  | other c => other c

variable {s : Spelling} {c : Constant}

lemma canonical_text {payload : List UInt8} {value : String} (h : Text.decode payload = .ok value) :
    (text payload).canonical = text (Text.encode value) := by
  simp only [canonical, h]

/-- Constants are written in the canonical spelling. -/
lemma Spells.bytes_canonical (h : s.Spells c) : s.canonical.bytes = c.encode := by
  cases s with
  | text payload =>
    obtain ⟨-, value, hv, rfl⟩ := h
    rw [canonical_text hv]
    rfl
  | other d =>
    obtain ⟨rfl, -⟩ := h
    rfl

/-- Constants in their canonical spellings are written as they are encoded. -/
lemma flatMap_bytes_canonical {spellings : List Spelling} {constants : List Constant}
    (h : List.Forall₂ Spells spellings constants) :
    (spellings.map canonical).flatMap bytes = constants.flatMap Constant.encode := by
  induction h with
  | nil => rfl
  | cons hs _ ih => rw [List.map_cons, List.flatMap_cons, List.flatMap_cons, hs.bytes_canonical, ih]

/-- The canonical spelling is no longer than any other. -/
lemma Spells.length_canonical_le (h : s.Spells c) : s.canonical.bytes.length ≤ s.bytes.length := by
  cases s with
  | text payload =>
    obtain ⟨-, value, hv, -⟩ := h
    have hle := Text.length_encode_le hv
    simp only [canonical_text hv, bytes, List.length_append, List.length_cons, length_u2]
    omega
  | other d => exact le_rfl

/-- A text is spelled canonically if and only if its payload is what encoding its text gives. -/
lemma bytes_canonical_text_iff {payload : List UInt8} {value : String}
    (h : Text.decode payload = .ok value) :
    (text payload).canonical.bytes = (text payload).bytes ↔ Text.encode value = payload := by
  rw [canonical_text h]
  constructor
  · intro heq
    exact (List.append_inj heq (by simp)).2
  · rintro heq
    rw [heq]

end Spelling

namespace Constant

variable {bytes rest : List UInt8} {c : Constant}

/-- A constant other than a text is read from the one spelling that it has. -/
lemma eq_encode_of_readOperands {tag : UInt8} (ht : tag ≠ 1)
    (h : readOperands tag bytes = .ok (c, rest)) :
    tag :: bytes = c.encode ++ rest ∧ ¬ c.IsText := by
  have hnot : ∀ d : Constant, (∀ value, d ≠ .text value) → ¬ d.IsText := fun _ hd ⟨v, hv⟩ => hd v hv
  unfold readOperands at h
  split at h
  case h_1 => exact absurd rfl ht
  case h_2 =>
    simp only [Reader.bind_eq_ok_iff, Reader.u4_eq_ok_iff, Reader.pure_eq_ok_iff] at h
    obtain ⟨n, _, rfl, rfl, rfl⟩ := h
    exact ⟨by simp [encode], hnot _ (by simp)⟩
  case h_3 =>
    simp only [Reader.bind_eq_ok_iff, Reader.u4_eq_ok_iff, Reader.pure_eq_ok_iff] at h
    obtain ⟨n, _, rfl, rfl, rfl⟩ := h
    exact ⟨by simp [encode], hnot _ (by simp)⟩
  case h_4 | h_5 =>
    simp only [Reader.bind_eq_ok_iff, Reader.u8_eq_ok_iff, Reader.pure_eq_ok_iff] at h
    obtain ⟨n, _, rfl, rfl, rfl⟩ := h
    exact ⟨by simp [encode], hnot _ (by simp)⟩
  case h_6 | h_7 | h_13 | h_16 | h_17 =>
    simp only [Reader.bind_eq_ok_iff, Reader.u2_eq_ok_iff, Reader.pure_eq_ok_iff] at h
    obtain ⟨i, _, rfl, rfl, rfl⟩ := h
    exact ⟨by simp [encode], hnot _ (by simp)⟩
  case h_8 | h_9 | h_10 | h_11 | h_14 | h_15 =>
    simp only [Reader.bind_eq_ok_iff, Reader.u2_eq_ok_iff, Reader.pure_eq_ok_iff] at h
    obtain ⟨i, _, rfl, j, _, rfl, rfl, rfl⟩ := h
    exact ⟨by simp [encode, memberTag], hnot _ (by simp)⟩
  case h_12 =>
    simp only [Reader.bind_eq_ok_iff, Reader.u1_eq_ok_iff, Reader.u2_eq_ok_iff,
      Reader.pure_eq_ok_iff] at h
    obtain ⟨kind, _, rfl, i, _, rfl, rfl, rfl⟩ := h
    exact ⟨by simp [encode], hnot _ (by simp)⟩
  case h_18 => exact absurd h Reader.fail_ne_ok

/-- **Every constant that is read was spelled** by the bytes in front of the rest. -/
theorem exists_spelling_of_read (h : read bytes = .ok (c, rest)) :
    ∃ s : Spelling, s.Spells c ∧ bytes = s.bytes ++ rest := by
  simp only [read, Reader.bind_eq_ok_iff, Reader.u1_eq_ok_iff] at h
  obtain ⟨tag, mid, rfl, h⟩ := h
  by_cases ht : tag = 1
  · subst ht
    simp only [readOperands, Reader.bind_eq_ok_iff, Reader.u2_eq_ok_iff, Reader.slice_eq_ok_iff,
      Reader.ofExcept_eq_ok_iff, Reader.pure_eq_ok_iff] at h
    obtain ⟨n, _, rfl, payload, _, ⟨hn, rfl⟩, value, _, ⟨hv, rfl⟩, rfl, rfl⟩ := h
    have hlt : payload.length < 65536 := hn ▸ n.toNat_lt
    refine ⟨.text payload, ⟨hlt, value, hv, rfl⟩, ?_⟩
    simp [Spelling.bytes, hn]
  · obtain ⟨heq, hnot⟩ := eq_encode_of_readOperands ht h
    exact ⟨.other c, ⟨rfl, hnot⟩, heq⟩

end Constant

/-! ### Pools -/

namespace Pool

/-- The constants that are read were spelled, one after the other. -/
lemma exists_spellings_of_readSlots {n : Nat} {before result : Array (Option Constant)}
    {bytes rest : List UInt8} (h : readSlots n before bytes = .ok (result, rest)) :
    ∃ (slots : List (Option Constant)) (spellings : List Spelling),
      result.toList = before.toList ++ slots ∧
      List.Forall₂ Spelling.Spells spellings slots.reduceOption ∧
      bytes = spellings.flatMap Spelling.bytes ++ rest := by
  fun_induction readSlots n before bytes with
  | case1 before bytes =>
    obtain ⟨rfl, rfl⟩ : before = result ∧ bytes = rest := by simpa using h
    exact ⟨[], [], by simp, .nil, rfl⟩
  | case2 => simp at h
  | case3 => simp at h
  | case4 before bytes c mid hc hw n ih =>
    obtain ⟨s, hs, rfl⟩ := Constant.exists_spelling_of_read hc
    obtain ⟨slots, spellings, hr, hall, rfl⟩ := ih h
    exact ⟨some c :: none :: slots, s :: spellings, by simp [hr], .cons hs hall, by simp⟩
  | case5 n before bytes c mid hc hw ih =>
    obtain ⟨s, hs, rfl⟩ := Constant.exists_spelling_of_read hc
    obtain ⟨slots, spellings, hr, hall, rfl⟩ := ih h
    exact ⟨some c :: slots, s :: spellings, by simp [hr], .cons hs hall, by simp⟩

/-- A pool that is read stands in the bytes as the number of its slots and its constants, spelled. -/
lemma exists_spellings_of_read {pool : Pool} {bytes rest : List UInt8}
    (h : read bytes = .ok (pool, rest)) :
    ∃ spellings : List Spelling,
      List.Forall₂ Spelling.Spells spellings pool.slots.toList.reduceOption ∧
      bytes = u2 (UInt16.ofNat pool.size) ++ (spellings.flatMap Spelling.bytes ++ rest) := by
  obtain ⟨count, n, mid, rfl, hn, hr⟩ := exists_readSlots_of_read h
  have hsize : pool.size = count.toNat := by
    obtain ⟨slots, hslots, hlength, -⟩ := laidOut_of_readSlots hr
    rw [size, ← Array.length_toList, hslots, hn]
    simp [hlength]
  obtain ⟨slots, spellings, hslots, hall, rfl⟩ := exists_spellings_of_readSlots hr
  refine ⟨spellings, ?_, by rw [hsize, UInt16.ofNat_toNat]⟩
  rw [hslots]
  exact hall

/-- A pool is written as the number of its slots and its constants. -/
lemma encode_eq (pool : Pool) : pool.encode =
    u2 (UInt16.ofNat pool.size) ++ pool.slots.toList.reduceOption.flatMap Constant.encode := by
  rw [encode]
  congr 1
  induction pool.slots.toList with
  | nil => rfl
  | cons slot slots ih =>
    cases slot with
    | none => simpa [encodeSlot] using ih
    | some c => simpa [encodeSlot] using ih

end Pool

/-! ### Class files -/

namespace ClassFile

/-- The bytes before the constants: the magic number, the versions and the number of slots. -/
def front (c : ClassFile) : List UInt8 :=
  magic ++ u2 c.minor ++ u2 c.major ++ u2 (UInt16.ofNat c.pool.size)

/-- The bytes behind the constants. -/
def back (c : ClassFile) : List UInt8 :=
  u2 c.access ++ (u2 c.thisClass ++ (u2 c.superClass ++ (table u2 c.interfaces ++
    (table Member.encode c.fields ++ (table Member.encode c.methods ++
      Attribute.encodeTable c.attributes)))))

/-- A class file is written as its constants between the bytes around them. -/
lemma encode_eq (c : ClassFile) : c.encode =
    c.front ++ c.pool.slots.toList.reduceOption.flatMap Constant.encode ++ c.back := by
  simp only [encode, front, back, Pool.encode_eq, List.append_assoc]

/-- **A class file that is read stands in the bytes as it is written**, except that its texts may be
spelled otherwise. -/
theorem exists_spellings_of_decode {bytes : List UInt8} {c : ClassFile} (h : decode bytes = .ok c) :
    ∃ spellings : List Spelling,
      List.Forall₂ Spelling.Spells spellings c.pool.slots.toList.reduceOption ∧
      bytes = c.front ++ spellings.flatMap Spelling.bytes ++ c.back := by
  simp only [decode, Except.bind_eq_ok_iff, Reader.complete_eq_ok_iff, Except.pure_eq_ok_iff] at h
  obtain ⟨c, h, name, -, rfl⟩ := h
  simp only [read, Reader.bind_eq_ok_iff, Reader.slice_eq_ok_iff] at h
  obtain ⟨start, _, ⟨-, rfl⟩, h⟩ := h
  split_ifs at h with hm
  · exact absurd h Reader.fail_ne_ok
  · rw [not_not] at hm
    simp only [Reader.bind_eq_ok_iff, Reader.u2_eq_ok_iff, Reader.pure_eq_ok_iff,
      Reader.table_eq_ok_iff index_read_eq_ok_iff, Reader.table_eq_ok_iff Member.read_eq_ok_iff,
      Reader.table_eq_ok_iff Attribute.read_eq_ok_iff] at h
    obtain ⟨minor, _, rfl, major, _, rfl, pool, _, hp, access, _, rfl, this, _, rfl, super, _, rfl,
      interfaces, _, ⟨-, rfl⟩, fields, _, ⟨-, rfl⟩, methods, _, ⟨-, rfl⟩, attributes, _, ⟨-, rfl⟩,
      rfl, rfl⟩ := h
    obtain ⟨spellings, hall, rfl⟩ := Pool.exists_spellings_of_read hp
    refine ⟨spellings, hall, ?_⟩
    simp only [hm, front, back, Attribute.encodeTable, List.append_assoc, List.append_nil]

/-- Lists written with parts that are no longer than others are equal to those written with the others
only if all parts are. -/
lemma flatMap_eq_iff_of_length_le {α : Type} {f g : α → List UInt8} {items : List α}
    (h : ∀ a ∈ items, (f a).length ≤ (g a).length) :
    items.flatMap f = items.flatMap g ↔ ∀ a ∈ items, f a = g a := by
  induction items with
  | nil => simp
  | cons a items ih =>
    have hitems : ∀ b ∈ items, (f b).length ≤ (g b).length :=
      fun b hb => h b (List.mem_cons_of_mem _ hb)
    simp only [List.flatMap_cons, List.forall_mem_cons]
    constructor
    · intro heq
      -- neither part can make up for a shorter other part
      have hrest : (items.flatMap f).length ≤ (items.flatMap g).length := by
        rw [List.length_flatMap, List.length_flatMap]
        exact List.sum_le_sum hitems
      have hlength := congrArg List.length heq
      simp only [List.length_append] at hlength
      have hhead := h a List.mem_cons_self
      obtain ⟨ha, hs⟩ := List.append_inj heq (by omega)
      exact ⟨ha, (ih hitems).mp hs⟩
    · rintro ⟨ha, hs⟩
      rw [ha, (ih hitems).mpr hs]

/-- **Encoding after decoding makes the texts canonical and changes nothing else.** The bytes of a class
file that is read are a front, its constants in some spelling, and a back; it is written as the same
front and back around the same constants with every text in its canonical spelling. So the bytes are
restored exactly if the payload of every text is what encoding its text gives. -/
theorem encode_of_decode {bytes : List UInt8} {c : ClassFile} (h : decode bytes = .ok c) :
    ∃ spellings : List Spelling,
      List.Forall₂ Spelling.Spells spellings c.pool.slots.toList.reduceOption ∧
      bytes = c.front ++ spellings.flatMap Spelling.bytes ++ c.back ∧
      c.encode = c.front ++ (spellings.map Spelling.canonical).flatMap Spelling.bytes ++ c.back ∧
      (c.encode = bytes ↔ ∀ payload, .text payload ∈ spellings →
        ∃ value, Text.decode payload = .ok value ∧ Text.encode value = payload) := by
  obtain ⟨spellings, hall, hbytes⟩ := exists_spellings_of_decode h
  have hspells : ∀ s ∈ spellings, ∃ k, s.Spells k := fun s hs => by
    obtain ⟨k, -, hk⟩ := Except.exists_of_forall₂ hall hs
    exact ⟨k, hk⟩
  have hcanonical := Spelling.flatMap_bytes_canonical hall
  refine ⟨spellings, hall, hbytes, by rw [hcanonical, encode_eq], ?_⟩
  have hiff : c.encode = bytes ↔
      ∀ s ∈ spellings, s.canonical.bytes = s.bytes := by
    rw [encode_eq, ← hcanonical, hbytes, List.append_left_inj, List.append_right_inj,
      List.flatMap_map]
    exact flatMap_eq_iff_of_length_le fun s hs => (hspells s hs).choose_spec.length_canonical_le
  rw [hiff]
  constructor
  · intro hsame payload hm
    obtain ⟨k, -, value, hv, -⟩ := hspells _ hm
    exact ⟨value, hv, (Spelling.bytes_canonical_text_iff hv).mp (hsame _ hm)⟩
  · intro hpayload s hs
    cases s with
    | text payload =>
      obtain ⟨value, hv, heq⟩ := hpayload payload hs
      exact (Spelling.bytes_canonical_text_iff hv).mpr heq
    | other k => rfl

/-- The bytes of a class `A` whose name is spelled in two bytes. -/
def overlongName : List UInt8 :=
  magic ++ [0, 0, 0, 52, 0, 3, 1, 0, 2, 0xC1, 0x81, 7, 0, 1, 0, 0x21, 0, 2, 0, 0, 0, 0, 0, 0, 0, 0, 0, 0]

/-- The class that is read from these bytes. -/
def overlongClass : ClassFile :=
  { blank with
    major := 52, access := 0x21, thisClass := 2
    pool := ⟨#[none, some (.text "A"), some (.classRef 1)]⟩ }

/-- The name is written in one byte, and all other bytes are as they were. -/
theorem encode_of_decode_overlongName :
    decode overlongName = .ok overlongClass ∧ overlongClass.encode ≠ overlongName ∧
      ∃ spellings : List Spelling,
        List.Forall₂ Spelling.Spells spellings overlongClass.pool.slots.toList.reduceOption ∧
        overlongName = overlongClass.front ++ spellings.flatMap Spelling.bytes ++ overlongClass.back ∧
        overlongClass.encode = overlongClass.front ++
          (spellings.map Spelling.canonical).flatMap Spelling.bytes ++ overlongClass.back ∧
        (overlongClass.encode = overlongName ↔ ∀ payload, .text payload ∈ spellings →
          ∃ value, Text.decode payload = .ok value ∧ Text.encode value = payload) := by
  have hread : decode overlongName = .ok overlongClass := by decide +kernel
  exact ⟨hread, by decide +kernel, encode_of_decode hread⟩

end ClassFile

end ClassAtlas
