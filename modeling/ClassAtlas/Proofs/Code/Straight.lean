import ClassAtlas.Code.Assembly
import ClassAtlas.Proofs.Code.Tiling

/-!
# Listing assembled bodies

A body that is assembled from statements is listed as these statements. Every statement becomes one
instruction, which starts where the body ended before the statement was added. Assembling and
listing each know how many bytes an opcode takes; if they differed for one opcode, everything
behind it would be listed out of step.

## Main definitions

* `ClassAtlas.Statement.IsRegular` — statements whose opcodes have the operands that they are written
  with.
* `ClassAtlas.Statement.toInstruction` — the instruction that a statement becomes.

## Main results

* `ClassAtlas.Statement.spelledBy_encode` — a single statement.
* `ClassAtlas.Listing.ofCode_assemble` — a body.
-/

set_option autoImplicit false

namespace ClassAtlas

open Bytes

/-- A pool index of two bytes with nothing behind it. -/
lemma Operands.SpelledBy.index_zero {start : Nat} (i : UInt16) :
    SpelledBy start (.index 0) (some i) (u2 i) := by
  rw [← List.append_nil (u2 i)]
  exact .index i rfl

/-! ### Statements -/

namespace Statement

/-- The opcodes of instructions without operands. -/
def HasNoOperands (opcode : UInt8) : Prop :=
  let n := opcode.toNat
  n ≤ 0x0F ∨ 0x1A ≤ n ∧ n ≤ 0x35 ∨ 0x3B ≤ n ∧ n ≤ 0x83 ∨ 0x85 ≤ n ∧ n ≤ 0x98 ∨
    0xAC ≤ n ∧ n ≤ 0xB1 ∨ n = 0xBE ∨ n = 0xBF ∨ n = 0xC2 ∨ n = 0xC3
  deriving Decidable

/-- The opcodes of instructions that are written with a pool index and nothing else: loading a
constant, getting and setting fields, invoking methods and call sites, and creating and checking
objects. -/
def HasIndex (opcode : UInt8) : Prop :=
  let n := opcode.toNat
  0x12 ≤ n ∧ n ≤ 0x14 ∨ 0xB2 ≤ n ∧ n ≤ 0xB8 ∨ n = 0xBA ∨ n = 0xBB ∨ n = 0xBD ∨ n = 0xC0 ∨ n = 0xC1
  deriving Decidable

/-- A statement whose opcode has the operands that it is written with. -/
def IsRegular : Statement → Prop
  | plain opcode => HasNoOperands opcode
  | withIndex opcode _ => HasIndex opcode
  | invokeInterface _ slots => slots.toNat < 255
  | newArray _ _ => True

instance (statement : Statement) : Decidable statement.IsRegular :=
  match statement with
  | plain opcode => inferInstanceAs (Decidable (HasNoOperands opcode))
  | withIndex opcode _ => inferInstanceAs (Decidable (HasIndex opcode))
  | invokeInterface _ slots => inferInstanceAs (Decidable (slots.toNat < 255))
  | newArray _ _ => .isTrue trivial

/-- The opcode that a statement is written with. -/
def opcode : Statement → UInt8
  | plain opcode => opcode
  | withIndex opcode index => if opcode = 0x12 ∧ 255 < index.toNat then 0x13 else opcode
  | invokeInterface _ _ => 0xB9
  | newArray _ _ => 0xC5

/-- The pool index of a statement. -/
def index? : Statement → Option UInt16
  | plain _ => none
  | withIndex _ index => some index
  | invokeInterface index _ => some index
  | newArray index _ => some index

/-- The instruction that a statement becomes if it is added to a body of `offset` bytes. -/
def toInstruction (offset : Nat) (statement : Statement) : Instruction :=
  ⟨offset, statement.opcode, statement.index?⟩

variable {opcode : UInt8} {index : UInt16} {statement : Statement} {statements : List Statement}

lemma HasNoOperands.ofOpcode? (h : HasNoOperands opcode) :
    Operands.ofOpcode? opcode = some (.plain 0) := by
  unfold HasNoOperands at h
  unfold Operands.ofOpcode?
  dsimp only at h ⊢
  iterate 10 rw [if_neg (by omega)]
  rw [if_pos (by omega)]

lemma HasIndex.ofOpcode? (h : HasIndex opcode) (hload : opcode ≠ 0x12) (hcall : opcode ≠ 0xBA) :
    Operands.ofOpcode? opcode = some (.index 0) := by
  have hload' : opcode.toNat ≠ 0x12 := fun heq => hload (UInt8.toNat_inj.mp heq)
  have hcall' : opcode.toNat ≠ 0xBA := fun heq => hcall (UInt8.toNat_inj.mp heq)
  unfold HasIndex at h
  unfold Operands.ofOpcode?
  dsimp only at h ⊢
  rw [if_neg hload', if_pos (by omega)]

/-- **A regular statement is spelled as the instruction that it becomes**, wherever it stands. -/
theorem spelledBy_encode (offset : Nat) (h : statement.IsRegular) :
    (statement.toInstruction offset).SpelledBy offset statement.encode := by
  refine ⟨rfl, ?_⟩
  change ∃ shape operands, statement.encode = statement.opcode :: operands ∧
    Operands.ofOpcode? statement.opcode = some shape ∧
      shape.SpelledBy (offset + 1) statement.index? operands
  cases statement with
  | plain opcode => exact ⟨_, [], rfl, HasNoOperands.ofOpcode? h, .plain rfl⟩
  | withIndex opcode index =>
    rw [encode, Statement.opcode, index?]
    by_cases hload : opcode = 0x12
    · by_cases hlarge : 255 < index.toNat
      · rw [if_pos hload, if_pos hlarge, if_pos ⟨hload, hlarge⟩]
        exact ⟨.index 0, _, rfl, rfl, .index_zero index⟩
      · have hlong : ¬(opcode = 0x12 ∧ 255 < index.toNat) := fun h => hlarge h.2
        have hindex : index.toUInt8.toUInt16 = index := UInt16.toNat_inj.mp (by simp; omega)
        have hspelled : Operands.SpelledBy (offset + 1) .shortIndex (some index.toUInt8.toUInt16)
          [index.toUInt8] := .shortIndex _
        rw [hindex] at hspelled
        rw [if_pos hload, if_neg hlarge, if_neg hlong, hload]
        exact ⟨.shortIndex, _, rfl, rfl, hspelled⟩
    · have hlong : ¬(opcode = 0x12 ∧ 255 < index.toNat) := fun h => hload h.1
      rw [if_neg hload, if_neg hlong]
      by_cases hcall : opcode = 0xBA
      · rw [if_pos hcall, hcall]
        exact ⟨.index 2, _, rfl, rfl, .index index rfl⟩
      · rw [if_neg hcall]
        exact ⟨.index 0, _, rfl, HasIndex.ofOpcode? h hload hcall, .index_zero index⟩
  | invokeInterface index slots => exact ⟨.index 2, _, rfl, rfl, .index index rfl⟩
  | newArray index dimensions => exact ⟨.index 1, _, rfl, rfl, .index index rfl⟩

end Statement

/-! ### Bodies -/

lemma assemble_cons (statement : Statement) (statements : List Statement) :
    assemble (statement :: statements) = statement.encode ++ assemble statements :=
  List.flatMap_cons

namespace Listing

variable {statements : List Statement}

lemma tiles_assemble (offset : Nat) (h : ∀ statement ∈ statements, statement.IsRegular) :
    Tiles offset (statements.mapIdx fun k statement =>
      statement.toInstruction (offset + (assemble (statements.take k)).length)) (assemble statements) [] := by
  induction statements generalizing offset with
  | nil => exact .nil offset []
  | cons statement statements ih =>
    have hfirst := Statement.spelledBy_encode offset (h statement List.mem_cons_self)
    have hothers := ih (offset + statement.encode.length) fun s hs => h s (List.mem_cons_of_mem _ hs)
    rw [List.mapIdx_cons, assemble_cons]
    refine .cons hfirst ?_
    simpa only [List.take_succ_cons, assemble_cons, List.length_append, Nat.add_assoc] using hothers

/-- **Assembled bodies are listed as they were written.** One instruction is listed for each statement,
in order, at the offset where the body ended before the statement was added. -/
theorem ofCode_assemble (h : ∀ statement ∈ statements, statement.IsRegular) :
    ofCode (assemble statements) = ⟨statements.mapIdx fun k statement =>
      statement.toInstruction (assemble (statements.take k)).length, none⟩ := by
  simpa using ofCode_eq_iff.mpr (tiles_assemble 0 h)

/-- A body that creates an object, invokes methods in every way and creates an array. One of its
constants is loaded through an index of two bytes. -/
theorem ofCode_assemble_calls :
    (∀ statement ∈ [.withIndex 0xBB 7, .plain 0x59, .withIndex 0xB7 9, .withIndex 0x12 300,
      .invokeInterface 11 1, .withIndex 0xBA 12, .newArray 13 2, .plain 0xB1],
      Statement.IsRegular statement) ∧
    ofCode (assemble [.withIndex 0xBB 7, .plain 0x59, .withIndex 0xB7 9, .withIndex 0x12 300,
      .invokeInterface 11 1, .withIndex 0xBA 12, .newArray 13 2, .plain 0xB1]) =
      ⟨[⟨0, 0xBB, some 7⟩, ⟨3, 0x59, none⟩, ⟨4, 0xB7, some 9⟩, ⟨7, 0x13, some 300⟩,
        ⟨10, 0xB9, some 11⟩, ⟨15, 0xBA, some 12⟩, ⟨20, 0xC5, some 13⟩, ⟨24, 0xB1, none⟩], none⟩ :=
  ⟨by decide, (ofCode_assemble (by decide)).trans (by decide)⟩

end Listing

end ClassAtlas
