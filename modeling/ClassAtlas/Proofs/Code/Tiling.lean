import ClassAtlas.Code.Instruction
import ClassAtlas.Proofs.Bytes.Delimited

/-!
# Instructions tile the code

The bytes of a method body are cut into instructions: the first one starts at the start of the body,
and each of the others where the one before it ends. How many bytes an instruction takes depends on
its opcode, and for some opcodes on where it starts and on what its operands say. Decoding finds
exactly this cut. It goes on to the end of the body or to the first place at which no instruction
starts, and says why there is none.

## Main definitions

* `ClassAtlas.Operands.SpelledBy`, `ClassAtlas.Instruction.SpelledBy` — the bytes of operands and of
  instructions.
* `ClassAtlas.Listing.Tiles` — bytes that start with a row of instructions.
* `ClassAtlas.Listing.Ends` — why a row of instructions goes no further.
* `ClassAtlas.Listing.Cursor.next?`, `ClassAtlas.Listing.Cursor.Yields` — walking over a body one
  instruction at a time.
* `ClassAtlas.Word.padding?`, `ClassAtlas.Word.rangeSize?`, `ClassAtlas.Word.pairsSize?` — the sizes
  inside a switch in words of 64 bits.

## Main results

* `ClassAtlas.Operands.read_eq_ok_iff`, `ClassAtlas.Instruction.read_eq_ok_iff` — what is read.
* `ClassAtlas.Listing.ofCode_eq_iff` — the listing of bytes that instructions fill.
* `ClassAtlas.Listing.tiles_ofCode` — the listing of any bytes.
-/

set_option autoImplicit false

namespace ClassAtlas

open Bytes

/-! ### Operands -/

namespace Operands

/-- The number of keys in a range; none if the bounds are the wrong way round. -/
def keys (low high : UInt32) : Nat :=
  (high.toInt32.toInt - low.toInt32.toInt + 1).toNat

/-- The bytes of operands that start at `start` of a body, and the pool index that they hold. -/
inductive SpelledBy (start : Nat) : Operands → Option UInt16 → List UInt8 → Prop where
  /-- Bytes without a pool index. -/
  | plain {size : Nat} {bytes : List UInt8} (length_eq : bytes.length = size) :
      SpelledBy start (.plain size) none bytes
  /-- A pool index of one byte. -/
  | shortIndex (i : UInt8) : SpelledBy start .shortIndex (some i.toUInt16) [i]
  /-- A pool index of two bytes, the most significant one first, then further bytes. -/
  | index {extra : Nat} (i : UInt16) {more : List UInt8} (length_eq : more.length = extra) :
      SpelledBy start (.index extra) (some i) (u2 i ++ more)
  /-- An opcode and its operands of two bytes, or of four for an increment. -/
  | wide {opcode : UInt8} {more : List UInt8}
      (length_eq : more.length = if opcode = incrementOpcode then 4 else 2) :
      SpelledBy start .wide none (opcode :: more)
  /-- Padding, the jump for all other keys, the range of keys and a jump for each of them. -/
  | tableSwitch {pad other jumps : List UInt8} (low high : UInt32) (pad_lt : pad.length < 4)
      (aligned : 4 ∣ start + pad.length) (other_eq : other.length = 4)
      (jumps_eq : jumps.length = 4 * keys low high) :
      SpelledBy start .tableSwitch none (pad ++ other ++ (u4 low ++ (u4 high ++ jumps)))
  /-- Padding, the jump for all other keys, the number of pairs and the pairs of a key and a jump. -/
  | lookupSwitch {pad other jumps : List UInt8} (pairs : UInt32) (pad_lt : pad.length < 4)
      (aligned : 4 ∣ start + pad.length) (other_eq : other.length = 4)
      (jumps_eq : jumps.length = 8 * pairs.toNat) :
      SpelledBy start .lookupSwitch none (pad ++ other ++ (u4 pairs ++ jumps))

variable {start size : Nat} {shape : Operands} {index : Option UInt16} {bytes rest : List UInt8}

/-- Padding is as short as it can be. -/
lemma eq_padding_iff {n : Nat} : n = padding start ↔ n < 4 ∧ 4 ∣ start + n := by
  unfold padding
  omega

/-- Padding and four bytes behind it are a slice. -/
lemma length_eq_padding_add_iff {taken : List UInt8} :
    taken.length = padding start + 4 ↔ ∃ pad other : List UInt8, taken = pad ++ other ∧
      pad.length < 4 ∧ 4 ∣ start + pad.length ∧ other.length = 4 := by
  constructor
  · intro h
    obtain ⟨hlt, hdvd⟩ := eq_padding_iff.mp (show (taken.take (padding start)).length = padding start by
      rw [List.length_take]
      omega)
    exact ⟨_, _, (List.take_append_drop (padding start) taken).symm, hlt, hdvd, by simp [h]⟩
  · rintro ⟨pad, other, rfl, hlt, hdvd, hother⟩
    rw [List.length_append, hother, eq_padding_iff.mpr ⟨hlt, hdvd⟩]

section Switches

variable {pad other jumps : List UInt8} {low high pairs : UInt32}

/-- The length of the operands of a switch over a range of keys. -/
lemma length_tableSwitch (hlt : pad.length < 4) (hdvd : 4 ∣ start + pad.length)
    (hother : other.length = 4) (hjumps : jumps.length = 4 * keys low high) :
    (pad ++ other ++ (u4 low ++ (u4 high ++ jumps))).length = padding start + 12 + 4 * keys low high := by
  have hpad := eq_padding_iff.mpr ⟨hlt, hdvd⟩
  simp only [List.length_append, length_u4, hother, hjumps, hpad]
  omega

/-- The length of the operands of a switch over pairs. -/
lemma length_lookupSwitch (hlt : pad.length < 4) (hdvd : 4 ∣ start + pad.length)
    (hother : other.length = 4) (hjumps : jumps.length = 8 * pairs.toNat) :
    (pad ++ other ++ (u4 pairs ++ jumps)).length = padding start + 8 + 8 * pairs.toNat := by
  have hpad := eq_padding_iff.mpr ⟨hlt, hdvd⟩
  simp only [List.length_append, length_u4, hother, hjumps, hpad]
  omega

end Switches

/-- **Operands are read from exactly their bytes**, and the number of these is returned. -/
theorem read_eq_ok_iff :
    shape.read start bytes = .ok ((index, size), rest) ↔
      ∃ used, bytes = used ++ rest ∧ used.length = size ∧ shape.SpelledBy start index used := by
  cases shape with
  | plain length =>
    simp only [read, Reader.bind_eq_ok_iff, Reader.slice_eq_ok_iff, Reader.pure_eq_ok_iff, Prod.mk.injEq]
    constructor
    · rintro ⟨taken, mid, ⟨hlen, rfl⟩, ⟨rfl, rfl⟩, rfl⟩
      exact ⟨taken, rfl, hlen, .plain hlen⟩
    · rintro ⟨used, rfl, rfl, ⟨hlen⟩⟩
      exact ⟨used, rest, ⟨hlen, rfl⟩, ⟨rfl, hlen.symm⟩, rfl⟩
  | shortIndex =>
    simp only [read, Reader.bind_eq_ok_iff, Reader.u1_eq_ok_iff, Reader.pure_eq_ok_iff, Prod.mk.injEq]
    constructor
    · rintro ⟨i, mid, rfl, ⟨rfl, rfl⟩, rfl⟩
      exact ⟨[i], rfl, rfl, .shortIndex i⟩
    · rintro ⟨used, rfl, rfl, hspelled⟩
      cases hspelled with
      | shortIndex i => exact ⟨i, rest, rfl, ⟨rfl, rfl⟩, rfl⟩
  | index extra =>
    simp only [read, Reader.bind_eq_ok_iff, Reader.u2_eq_ok_iff, Reader.slice_eq_ok_iff,
      Reader.pure_eq_ok_iff, Prod.mk.injEq]
    constructor
    · rintro ⟨i, _, rfl, more, _, ⟨hlen, rfl⟩, ⟨rfl, rfl⟩, rfl⟩
      exact ⟨u2 i ++ more, by simp, by simp [hlen], .index i hlen⟩
    · rintro ⟨used, rfl, rfl, hspelled⟩
      cases hspelled with
      | index i hlen =>
        exact ⟨i, _, List.append_assoc _ _ _, _, rest, ⟨hlen, rfl⟩, ⟨rfl, by simp [hlen]⟩, rfl⟩
  | wide =>
    simp only [read, Reader.bind_eq_ok_iff, Reader.u1_eq_ok_iff, Reader.slice_eq_ok_iff,
      Reader.pure_eq_ok_iff, Prod.mk.injEq]
    constructor
    · rintro ⟨opcode, _, rfl, more, _, ⟨hlen, rfl⟩, ⟨rfl, rfl⟩, rfl⟩
      exact ⟨opcode :: more, rfl, by rw [List.length_cons, hlen, Nat.add_comm], .wide hlen⟩
    · rintro ⟨used, rfl, rfl, hspelled⟩
      cases hspelled with
      | wide hlen =>
        exact ⟨_, _, rfl, _, rest, ⟨hlen, rfl⟩,
          ⟨rfl, by rw [List.length_cons, hlen, Nat.add_comm]⟩, rfl⟩
  | tableSwitch =>
    simp only [read, Reader.bind_eq_ok_iff, Reader.u4_eq_ok_iff, Reader.slice_eq_ok_iff,
      Reader.pure_eq_ok_iff, Prod.mk.injEq, length_eq_padding_add_iff]
    constructor
    · rintro ⟨_, _, ⟨⟨pad, other, rfl, hlt, hdvd, hother⟩, rfl⟩, low, _, rfl, high, _, rfl, jumps, _,
        ⟨hjumps, rfl⟩, ⟨rfl, rfl⟩, rfl⟩
      exact ⟨_, by simp, length_tableSwitch hlt hdvd hother hjumps,
        .tableSwitch low high hlt hdvd hother hjumps⟩
    · rintro ⟨used, rfl, rfl, hspelled⟩
      cases hspelled with
      | @tableSwitch pad other jumps low high hlt hdvd hother hjumps =>
        exact ⟨_, _, ⟨⟨pad, other, rfl, hlt, hdvd, hother⟩, by rw [List.append_assoc]⟩, low, _,
          List.append_assoc _ _ _, high, _, List.append_assoc _ _ _, jumps, rest, ⟨hjumps, rfl⟩,
          ⟨rfl, (length_tableSwitch hlt hdvd hother hjumps).symm⟩, rfl⟩
  | lookupSwitch =>
    simp only [read, Reader.bind_eq_ok_iff, Reader.u4_eq_ok_iff, Reader.slice_eq_ok_iff,
      Reader.pure_eq_ok_iff, Prod.mk.injEq, length_eq_padding_add_iff]
    constructor
    · rintro ⟨_, _, ⟨⟨pad, other, rfl, hlt, hdvd, hother⟩, rfl⟩, pairs, _, rfl, jumps, _,
        ⟨hjumps, rfl⟩, ⟨rfl, rfl⟩, rfl⟩
      exact ⟨_, by simp, length_lookupSwitch hlt hdvd hother hjumps,
        .lookupSwitch pairs hlt hdvd hother hjumps⟩
    · rintro ⟨used, rfl, rfl, hspelled⟩
      cases hspelled with
      | @lookupSwitch pad other jumps pairs hlt hdvd hother hjumps =>
        exact ⟨_, _, ⟨⟨pad, other, rfl, hlt, hdvd, hother⟩, by rw [List.append_assoc]⟩, pairs, _,
          List.append_assoc _ _ _, jumps, rest, ⟨hjumps, rfl⟩,
          ⟨rfl, (length_lookupSwitch hlt hdvd hother hjumps).symm⟩, rfl⟩

/-- Operands are only refused because the bytes end. -/
theorem runsShort_read : Reader.RunsShort (shape.read start) := by
  cases shape with
  | plain => exact .bind .slice fun _ => .pure
  | shortIndex => exact .bind .u1 fun _ => .pure
  | index => exact .bind .u2 fun _ => .bind .slice fun _ => .pure
  | wide => exact .bind .u1 fun _ => .bind .slice fun _ => .pure
  | tableSwitch =>
    exact .bind .slice fun _ => .bind .u4 fun _ => .bind .u4 fun _ => .bind .slice fun _ => .pure
  | lookupSwitch => exact .bind .slice fun _ => .bind .u4 fun _ => .bind .slice fun _ => .pure

end Operands

/-! ### Instructions -/

namespace Instruction

/-- The bytes of an instruction that starts at `offset` of a body: its opcode and its operands. -/
def SpelledBy (offset : Nat) (instruction : Instruction) (bytes : List UInt8) : Prop :=
  instruction.offset = offset ∧ ∃ shape operands, bytes = instruction.opcode :: operands ∧
    Operands.ofOpcode? instruction.opcode = some shape ∧
      shape.SpelledBy (offset + 1) instruction.index operands

variable {offset size : Nat} {instruction : Instruction} {opcode : UInt8} {shape : Operands}
  {bytes rest : List UInt8}

lemma read_of_unassigned (h : Operands.ofOpcode? opcode = none) :
    read offset (opcode :: bytes) = .error (.unknownOpcode opcode offset) := by
  rw [read, Reader.bind_eq_of_ok (Reader.u1_eq_ok_iff.mpr rfl), h]
  rfl

lemma read_of_assigned (h : Operands.ofOpcode? opcode = some shape) :
    read offset (opcode :: bytes) = (do
      let (index, size) ← shape.read (offset + 1)
      return (⟨offset, opcode, index⟩, 1 + size) : Reader (Instruction × Nat)) bytes := by
  rw [read, Reader.bind_eq_of_ok (Reader.u1_eq_ok_iff.mpr rfl), h]

/-- An instruction takes at least one byte. -/
lemma SpelledBy.length_pos (h : instruction.SpelledBy offset bytes) : 0 < bytes.length := by
  obtain ⟨-, shape, operands, rfl, -⟩ := h
  exact Nat.succ_pos _

/-- **An instruction is read from exactly its bytes**, and the number of these is returned. -/
theorem read_eq_ok_iff :
    read offset bytes = .ok ((instruction, size), rest) ↔
      ∃ used, bytes = used ++ rest ∧ used.length = size ∧ instruction.SpelledBy offset used := by
  constructor
  · intro h
    cases bytes with
    | nil => cases h
    | cons opcode operands =>
      rcases hshape : Operands.ofOpcode? opcode with _ | shape
      · rw [read_of_unassigned hshape] at h
        cases h
      · rw [read_of_assigned hshape] at h
        obtain ⟨⟨index, length⟩, _, hread, h⟩ := Reader.bind_eq_ok_iff.mp h
        obtain ⟨hinstruction, rfl⟩ := Reader.pure_eq_ok_iff.mp h
        obtain ⟨rfl, rfl⟩ := Prod.mk.inj hinstruction
        obtain ⟨used, rfl, rfl, hspelled⟩ := Operands.read_eq_ok_iff.mp hread
        exact ⟨opcode :: used, rfl, by rw [List.length_cons, Nat.add_comm], rfl, shape, used, rfl, hshape,
          hspelled⟩
  · rintro ⟨_, rfl, rfl, rfl, shape, operands, rfl, hshape, hspelled⟩
    rw [List.cons_append, read_of_assigned hshape, List.length_cons, Nat.add_comm operands.length]
    exact Reader.bind_eq_ok_iff.mpr ⟨(instruction.index, operands.length), rest,
      Operands.read_eq_ok_iff.mpr ⟨operands, rfl, rfl, hspelled⟩, Reader.pure_eq_ok_iff.mpr ⟨rfl, rfl⟩⟩

end Instruction

/-! ### Sizes inside a switch -/

namespace Word

/-- A number as an unsigned word of 64 bits, unless it does not fit. -/
def unsigned? (n : Int) : Option UInt64 :=
  if 0 ≤ n ∧ n < 2 ^ 64 then some (UInt64.ofNat n.toNat) else none

/-- A number as a signed word of 64 bits, unless it does not fit. -/
def signed? (n : Int) : Option Int64 :=
  if -2 ^ 63 ≤ n ∧ n < 2 ^ 63 then some (Int64.ofInt n) else none

/-- The number of bytes that pad a position to a multiple of four. -/
def padding? (position : UInt64) : Option UInt64 := do
  let gap ← unsigned? (4 - (position % 4).toNat)
  return gap % 4

/-- The size of the jumps for a range of keys. The number of keys is computed in signed words, and is
taken to be zero if it comes out negative. -/
def rangeSize? (low high : UInt32) : Option UInt64 := do
  let span ← signed? (high.toInt32.toInt64.toInt - low.toInt32.toInt64.toInt)
  let keys ← signed? (span.toInt + 1)
  unsigned? ((max keys 0).toUInt64.toNat * 4 : Nat)

/-- The size of a number of pairs of a key and a jump. -/
def pairsSize? (pairs : UInt32) : Option UInt64 :=
  unsigned? (pairs.toUInt64.toNat * 8 : Nat)

lemma exists_unsigned? {n : Nat} (h : n < 2 ^ 64) : ∃ w, unsigned? n = some w ∧ w.toNat = n :=
  ⟨UInt64.ofNat n, if_pos (by omega), UInt64.toNat_ofNat_of_lt' h⟩

lemma exists_signed? {n : Int} (hlow : -2 ^ 63 ≤ n) (hhigh : n < 2 ^ 63) :
    ∃ w, signed? n = some w ∧ w.toInt = n :=
  ⟨Int64.ofInt n, if_pos ⟨hlow, hhigh⟩, Int64.toInt_ofInt_of_le hlow hhigh⟩

/-- A signed word that is cut off at zero is the same number as an unsigned word. -/
lemma toNat_toUInt64_max (w : Int64) : (max w 0).toUInt64.toNat = w.toInt.toNat := by
  change (if w ≤ 0 then 0 else w).toUInt64.toNat = _
  split_ifs with hsign
  · rw [Int.toNat_of_nonpos (Int64.le_iff_toInt_le.mp hsign)]
    rfl
  · have hpos : 0 < w.toInt := not_le.mp fun h => hsign (Int64.le_iff_toInt_le.mpr h)
    rw [← w.toInt_toBitVec] at hpos ⊢
    rw [BitVec.toInt_eq_toNat_of_msb (by rw [BitVec.msb_eq_toInt]; simpa using hpos.le), Int.toNat_natCast]
    rfl

/-- Padding is computed without overflow. -/
lemma exists_padding? (position : UInt64) :
    ∃ n, padding? position = some n ∧ n.toNat = Operands.padding position.toNat := by
  have hmod : (position % 4).toNat = position.toNat % 4 := rfl
  obtain ⟨gap, hgap, hvalue⟩ := @exists_unsigned? (4 - position.toNat % 4) (by omega)
  refine ⟨gap % 4, ?_, ?_⟩
  · have hcast : (4 - (position.toNat % 4 : Nat) : Int) = (4 - position.toNat % 4 : Nat) := by omega
    rw [padding?, hmod, hcast, hgap]
    rfl
  · rw [Operands.padding, ← hvalue]
    rfl

/-- The size of the jumps is computed without overflow, whatever the bounds of the range are. -/
lemma exists_rangeSize? (low high : UInt32) :
    ∃ n, rangeSize? low high = some n ∧ n.toNat = 4 * Operands.keys low high := by
  have hlow := low.toInt32.toInt_lt
  have hlow' := low.toInt32.le_toInt
  have hhigh := high.toInt32.toInt_lt
  have hhigh' := high.toInt32.le_toInt
  obtain ⟨span, hspan, hspanValue⟩ :=
    @exists_signed? (high.toInt32.toInt - low.toInt32.toInt) (by omega) (by omega)
  obtain ⟨keys, hkeys, hkeysValue⟩ := @exists_signed? (span.toInt + 1) (by omega) (by omega)
  obtain ⟨n, hn, hvalue⟩ := @exists_unsigned? (keys.toInt.toNat * 4) (by omega)
  refine ⟨n, ?_, ?_⟩
  · rw [rangeSize?, Int32.toInt_toInt64, Int32.toInt_toInt64, hspan, Option.bind_eq_bind,
      Option.bind_some, hkeys, Option.bind_some, toNat_toUInt64_max, hn]
  · rw [hvalue, hkeysValue, hspanValue, Nat.mul_comm, Operands.keys]

/-- The size of pairs is computed without overflow, whatever their number is. -/
lemma exists_pairsSize? (pairs : UInt32) :
    ∃ n, pairsSize? pairs = some n ∧ n.toNat = 8 * pairs.toNat := by
  have hlt := pairs.toNat_lt
  obtain ⟨n, hn, hvalue⟩ := @exists_unsigned? (pairs.toNat * 8) (by omega)
  exact ⟨n, hn, by rw [hvalue, Nat.mul_comm]⟩

end Word

/-! ### Listings -/

namespace Listing

/-- Bytes from `offset` of a body on that start with a row of instructions, each of which starts where
the one before it ends. -/
inductive Tiles : Nat → List Instruction → List UInt8 → List UInt8 → Prop where
  /-- No instruction. -/
  | nil (offset : Nat) (rest : List UInt8) : Tiles offset [] rest rest
  /-- An instruction and those behind it. -/
  | cons {offset : Nat} {instruction : Instruction} {instructions : List Instruction}
      {used bytes rest : List UInt8} (first : instruction.SpelledBy offset used)
      (others : Tiles (offset + used.length) instructions bytes rest) :
      Tiles offset (instruction :: instructions) (used ++ bytes) rest

/-- Why a row of instructions goes no further at `offset` of a body. -/
inductive Ends (offset : Nat) : List UInt8 → Option FormatError → Prop where
  /-- The body has ended. -/
  | done : Ends offset [] none
  /-- The next byte is no opcode. -/
  | unassigned {opcode : UInt8} {bytes : List UInt8} (shape_eq : Operands.ofOpcode? opcode = none) :
      Ends offset (opcode :: bytes) (some (.unknownOpcode opcode offset))
  /-- The next byte is an opcode, and the body ends inside its instruction. -/
  | cut {opcode : UInt8} {bytes : List UInt8} {shape : Operands}
      (shape_eq : Operands.ofOpcode? opcode = some shape)
      (incomplete : ∀ (index : Option UInt16) (used rest : List UInt8), bytes = used ++ rest →
        ¬ shape.SpelledBy (offset + 1) index used) :
      Ends offset (opcode :: bytes) (some .unexpectedEnd)

/-- Where a walk over the instructions of a body has come to. -/
inductive Cursor where
  /-- The next instruction starts at `offset`, where these bytes of the body remain. -/
  | reading (offset : Nat) (bytes : List UInt8)
  /-- The instruction that was read last was a fault. -/
  | failed

/-- The next item of a walk, an instruction or a fault, and where it leads to. -/
def Cursor.next? : Cursor → Option (Except FormatError Instruction × Cursor)
  | reading _ [] => none
  | reading offset (b :: bytes) =>
    match Instruction.read offset (b :: bytes) with
    | .ok ((instruction, size), rest) => some (.ok instruction, reading (offset + size) rest)
    | .error cause => some (.error cause, failed)
  | failed => none

/-- A walk that ends after these items. -/
inductive Cursor.Yields : Cursor → List (Except FormatError Instruction) → Prop where
  /-- There is no next item. -/
  | nil {cursor : Cursor} (next_eq : cursor.next? = none) : Yields cursor []
  /-- An item and those behind it. -/
  | cons {cursor after : Cursor} {item : Except FormatError Instruction}
      {items : List (Except FormatError Instruction)} (next_eq : cursor.next? = some (item, after))
      (others : Yields after items) : Yields cursor (item :: items)

/-- What a walk finds: the instructions, then the fault if there is one. -/
def items (listing : Listing) : List (Except FormatError Instruction) :=
  listing.instructions.map .ok ++ listing.fault.toList.map .error

variable {offset fuel : Nat} {instruction : Instruction} {instructions done : List Instruction}
  {bytes rest code : List UInt8} {cause : FormatError}

lemma Tiles.length_le (h : Tiles offset instructions bytes rest) :
    instructions.length + rest.length ≤ bytes.length := by
  induction h with
  | nil => simp
  | cons first _ ih =>
    have hpos := first.length_pos
    simp only [List.length_cons, List.length_append]
    omega

/-- Where no instruction can be read a row of instructions ends. -/
lemma ends_of_read {b : UInt8} (h : Instruction.read offset (b :: bytes) = .error cause) :
    Ends offset (b :: bytes) (some cause) := by
  rcases hshape : Operands.ofOpcode? b with _ | shape
  · rw [Instruction.read_of_unassigned hshape] at h
    obtain rfl := Except.error.inj h
    exact .unassigned hshape
  · rw [Instruction.read_of_assigned hshape] at h
    obtain rfl := Reader.RunsShort.bind Operands.runsShort_read (fun _ => .pure) _ _ h
    refine .cut hshape fun index used rest hbytes hspelled => ?_
    have hread := Operands.read_eq_ok_iff.mpr ⟨used, hbytes, rfl, hspelled⟩
    rw [Reader.bind_eq_of_ok hread] at h
    cases h

/-- A listing goes on to the end of the bytes or to a place at which no instruction starts, if its bound
is not less than the number of bytes, and a walk finds the same. -/
lemma exists_tiles_ofCodeOnto (hfuel : bytes.length ≤ fuel) :
    ∃ instructions rest fault, ofCodeOnto fuel done offset bytes = ⟨done.reverse ++ instructions, fault⟩ ∧
      Tiles offset instructions bytes rest ∧ Ends (offset + (bytes.length - rest.length)) rest fault ∧
        Cursor.Yields (.reading offset bytes) (items ⟨instructions, fault⟩) := by
  -- an instruction takes a byte at least, so the bound is enough for those behind it
  induction fuel generalizing done offset bytes with
  | zero =>
    obtain rfl := List.length_eq_zero_iff.mp (Nat.le_zero.mp hfuel)
    exact ⟨[], [], none, by simp [ofCodeOnto], .nil _ _, .done, .nil rfl⟩
  | succ fuel ih =>
    cases bytes with
    | nil => exact ⟨[], [], none, by simp [ofCodeOnto], .nil _ _, .done, .nil rfl⟩
    | cons b bytes =>
      rw [ofCodeOnto]
      rcases hread : Instruction.read offset (b :: bytes) with cause | ⟨⟨instruction, size⟩, after⟩
      · have hnext : (Cursor.reading offset (b :: bytes)).next? = some (.error cause, .failed) := by
          rw [Cursor.next?, hread]
        exact ⟨[], b :: bytes, some cause, by simp, .nil _ _, by simpa using ends_of_read hread,
          .cons hnext (.nil rfl)⟩
      · have hnext : (Cursor.reading offset (b :: bytes)).next? =
            some (.ok instruction, .reading (offset + size) after) := by
          rw [Cursor.next?, hread]
        obtain ⟨used, hbytes, rfl, hspelled⟩ := Instruction.read_eq_ok_iff.mp hread
        have hpos := hspelled.length_pos
        have hlen : bytes.length + 1 = used.length + after.length := by
          simpa using congrArg List.length hbytes
        obtain ⟨instructions, rest, fault, hlisting, htiles, hends, hyields⟩ :=
          @ih (offset + used.length) (instruction :: done) after (by simp at hfuel; omega)
        refine ⟨instruction :: instructions, rest, fault, by simpa using hlisting,
          hbytes ▸ .cons hspelled htiles, ?_, .cons hnext hyields⟩
        have hle := htiles.length_le
        convert hends using 1
        simp only [List.length_cons]
        omega

/-- A row of instructions that leaves no bytes is listed, if the bound is not less than the number of
bytes. -/
lemma ofCodeOnto_of_tiles (h : Tiles offset instructions bytes []) (hfuel : bytes.length ≤ fuel) :
    ofCodeOnto fuel done offset bytes = ⟨done.reverse ++ instructions, none⟩ := by
  -- the bytes that are left have to be a variable for the induction on the row
  generalize hrest : [] = rest at h
  induction h generalizing fuel done with
  | nil offset rest =>
    subst hrest
    cases fuel <;> simp [ofCodeOnto]
  | @cons offset instruction instructions used bytes rest first others ih =>
    have hread : Instruction.read offset (used ++ bytes) = .ok ((instruction, used.length), bytes) :=
      Instruction.read_eq_ok_iff.mpr ⟨used, rfl, rfl, first⟩
    have hpos := first.length_pos
    obtain ⟨b, used, rfl⟩ := List.exists_cons_of_length_pos hpos
    cases fuel with
    | zero => simp at hfuel
    | succ fuel =>
      rw [List.cons_append] at hread ⊢
      rw [ofCodeOnto, hread]
      simp only [List.cons_append, List.length_cons, List.length_append] at hfuel
      simpa using @ih fuel (instruction :: done) (by omega) hrest

/-- The listing of a body ends at the end of the body or where no instruction starts, and a walk finds
the same. -/
lemma exists_tiles_ofCode (code : List UInt8) :
    ∃ instructions rest fault, ofCode code = ⟨instructions, fault⟩ ∧ Tiles 0 instructions code rest ∧
      Ends (code.length - rest.length) rest fault ∧
        Cursor.Yields (.reading 0 code) (items ⟨instructions, fault⟩) := by
  obtain ⟨instructions, rest, fault, hlisting, htiles, hends, hyields⟩ :=
    @exists_tiles_ofCodeOnto 0 code.length [] code le_rfl
  rw [Nat.zero_add] at hends
  exact ⟨instructions, rest, fault, hlisting, htiles, hends, hyields⟩

/-- The listing of bytes that instructions fill. -/
theorem ofCode_eq_iff : ofCode code = ⟨instructions, none⟩ ↔ Tiles 0 instructions code [] := by
  constructor
  · intro h
    obtain ⟨_, rest, _, hlisting, htiles, hends, -⟩ := exists_tiles_ofCode code
    obtain ⟨rfl, rfl⟩ := Listing.mk.inj (hlisting.symm.trans h)
    cases hends
    exact htiles
  · exact fun h => ofCodeOnto_of_tiles h le_rfl

/-- **Instructions tile the code.** The instructions of a listing start at the start of the body, and
each where the one before it ends; their opcodes, their operands and their pool indices are what the
bytes there say. They end at the end of the body, or where the fault says that no instruction
starts. A walk finds these instructions and the fault, and ends. Nothing overflows in words of 64 bits
when the sizes inside a switch are computed. -/
theorem tiles_ofCode (code : List UInt8) :
    (∃ rest, Tiles 0 (ofCode code).instructions code rest ∧
      Ends (code.length - rest.length) rest (ofCode code).fault) ∧
    Cursor.Yields (.reading 0 code) (ofCode code).items ∧
    (∀ position, ∃ n, Word.padding? position = some n ∧ n.toNat = Operands.padding position.toNat) ∧
    (∀ low high, ∃ n, Word.rangeSize? low high = some n ∧ n.toNat = 4 * Operands.keys low high) ∧
    ∀ pairs, ∃ n, Word.pairsSize? pairs = some n ∧ n.toNat = 8 * pairs.toNat := by
  obtain ⟨instructions, rest, fault, hlisting, htiles, hends, hyields⟩ := exists_tiles_ofCode code
  rw [hlisting]
  exact ⟨⟨rest, htiles, hends⟩, hyields, Word.exists_padding?, Word.exists_rangeSize?,
    Word.exists_pairsSize?⟩

end Listing

end ClassAtlas
