import ClassAtlas.Pool.Constant

/-!
# The constant pool

A pool is a row of slots. A slot holds a constant or is unusable: slot zero is, and so is the slot
after a constant that takes two. New constants are interned: adding a constant that the pool already
holds returns its index, and the slots that are there keep their place.

## Main definitions

* `ClassAtlas.Pool` — the slots, with `get`, `text`, `className`, `nameAndType` and `member`.
* `ClassAtlas.Pool.Edit` — an edit that may fail and keeps what it added before it failed.
* `ClassAtlas.Pool.intern`, `ClassAtlas.Pool.internText`, … — adding constants.
* `ClassAtlas.Pool.encode`, `ClassAtlas.Pool.read` — pools as bytes.
-/

set_option autoImplicit false

namespace ClassAtlas

open Bytes

/-- A constant pool: constants by index, and nothing in the slots that cannot be used. -/
structure Pool where
  /-- The slots, from index zero on. -/
  slots : Array (Option Constant)
  deriving DecidableEq, Repr

/-- A resolved reference to a member. -/
structure MemberRef where
  /-- What is referred to. -/
  kind : MemberRefKind
  /-- The name of the class in the reference. -/
  owner : String
  /-- The name of the member. -/
  name : String
  /-- The descriptor of the member. -/
  descriptor : String
  deriving DecidableEq, Repr

namespace Pool

/-- The pool without constants. -/
def empty : Pool := ⟨#[none]⟩

/-- The number of slots, the unusable ones included. -/
def size (pool : Pool) : Nat := pool.slots.size

/-- Whether a pool has no slot besides slot zero. -/
def isEmpty (pool : Pool) : Bool := pool.size ≤ 1

/-- The most slots that a pool can have. -/
def maxSize : Nat := 65535

/-- The constants of a pool with their indices. -/
def constants (pool : Pool) : List (UInt16 × Constant) :=
  pool.slots.toList.zipIdx.filterMap fun (slot, i) => slot.map fun c => (UInt16.ofNat i, c)

/-! ### Looking up -/

/-- The constant at an index, if there is one. -/
def get? (pool : Pool) (index : UInt16) : Option Constant :=
  pool.slots[index.toNat]?.join

/-- The constant at an index. -/
def get (pool : Pool) (index : UInt16) : Except FormatError Constant :=
  match pool.get? index with
  | some c => .ok c
  | none => .error (.badConstantIndex index)

/-- The text at an index. -/
def text (pool : Pool) (index : UInt16) : Except FormatError String :=
  match pool.get? index with
  | some (.text value) => .ok value
  | _ => .error (.badConstantIndex index)

/-- The name of the class at an index. -/
def className (pool : Pool) (index : UInt16) : Except FormatError String :=
  match pool.get? index with
  | some (.classRef name) => pool.text name
  | _ => .error (.badConstantIndex index)

/-- The name and the descriptor at an index. -/
def nameAndType (pool : Pool) (index : UInt16) : Except FormatError (String × String) :=
  match pool.get? index with
  | some (.nameAndType name descriptor) => do
    let name ← pool.text name
    let descriptor ← pool.text descriptor
    return (name, descriptor)
  | _ => .error (.badConstantIndex index)

/-- The member that the reference at an index refers to. -/
def member (pool : Pool) (index : UInt16) : Except FormatError MemberRef :=
  match pool.get? index with
  | some (.memberRef kind owner nameType) => do
    let owner ← pool.className owner
    let (name, descriptor) ← pool.nameAndType nameType
    return ⟨kind, owner, name, descriptor⟩
  | _ => .error (.badConstantIndex index)

/-! ### Adding constants -/

/-- An edit of a pool. When it fails, the pool keeps what was added before the failure. -/
abbrev Edit (α : Type) := ExceptT FormatError (StateM Pool) α

/-- The least index at which the pool holds a constant. -/
def find? (pool : Pool) (c : Constant) : Option UInt16 :=
  (pool.slots.findIdx? fun slot => decide (slot = some c)).map UInt16.ofNat

/-- The pool with a constant behind its last slot. -/
def push (pool : Pool) (c : Constant) : Pool :=
  if c.isWide then ⟨(pool.slots.push (some c)).push none⟩ else ⟨pool.slots.push (some c)⟩

/-- The index of a constant, which is added behind the last slot if the pool does not hold it. -/
def intern (c : Constant) : Edit UInt16 := fun pool =>
  match pool.find? c with
  | some index => (.ok index, pool)
  | none =>
    if maxSize < pool.size + c.width then (.error .poolFull, pool)
    else (.ok (UInt16.ofNat pool.size), pool.push c)

/-- The index of a text. -/
def internText (value : String) : Edit UInt16 :=
  if 65535 < (Text.encode value).length then throw .textTooLong
  else intern (.text value)

/-- The index of a class. -/
def internClass (name : String) : Edit UInt16 := do
  intern (.classRef (← internText name))

/-- The index of a string literal. -/
def internString (value : String) : Edit UInt16 := do
  intern (.string (← internText value))

/-- The index of a name and a descriptor. -/
def internNameAndType (name descriptor : String) : Edit UInt16 := do
  let name ← internText name
  let descriptor ← internText descriptor
  intern (.nameAndType name descriptor)

/-- The index of a reference to a member. -/
def internMember (ref : MemberRef) : Edit UInt16 := do
  let owner ← internClass ref.owner
  let nameType ← internNameAndType ref.name ref.descriptor
  intern (.memberRef ref.kind owner nameType)

/-- The index of the type of a method. -/
def internMethodType (descriptor : String) : Edit UInt16 := do
  intern (.methodType (← internText descriptor))

/-- The index of a call site that the given bootstrap method links. -/
def internInvokeDynamic (bootstrap : UInt16) (name descriptor : String) : Edit UInt16 := do
  intern (.invokeDynamic bootstrap (← internNameAndType name descriptor))

/-! ### Changing slots -/

/-- The pool with another constant at an index that holds one. -/
def set (pool : Pool) (index : UInt16) (c : Constant) : Pool :=
  ⟨pool.slots.setIfInBounds index.toNat (some c)⟩

/-- The pool without its last slot. -/
def pop (pool : Pool) : Pool := ⟨pool.slots.pop⟩

/-! ### Pools as bytes -/

/-- A slot as bytes: nothing if it is unusable. -/
def encodeSlot : Option Constant → List UInt8
  | some c => c.encode
  | none => []

/-- A pool as bytes: the number of its slots, modulo `2 ^ 16`, then its constants. -/
def encode (pool : Pool) : List UInt8 :=
  u2 (UInt16.ofNat pool.size) ++ pool.slots.toList.flatMap encodeSlot

/-- Reads constants until `n` more slots are filled. A constant that takes two slots has to fit. -/
def readSlots : Nat → Array (Option Constant) → Reader (Array (Option Constant))
  | 0, slots, bytes => .ok (slots, bytes)
  | n + 1, slots, bytes =>
    match Constant.read bytes with
    | .error cause => .error cause
    | .ok (c, bytes) =>
      if c.isWide then
        match n with
        | 0 => .error (.badConstantIndex (UInt16.ofNat (slots.size + 1)))
        | n + 1 => readSlots n ((slots.push (some c)).push none) bytes
      else readSlots n (slots.push (some c)) bytes

/-- Reads a pool. -/
def read : Reader Pool := do
  match (← Reader.u2).toNat with
  | 0 => Reader.fail (.badConstantIndex 0)
  | n + 1 => return ⟨← readSlots n #[none]⟩

end Pool

end ClassAtlas
