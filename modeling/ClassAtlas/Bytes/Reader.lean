import ClassAtlas.Bytes.BigEndian
import ClassAtlas.ClassFile.FormatError

/-!
# Readers of byte strings

A reader consumes the front of a byte string and returns a value, or fails with a
`ClassAtlas.FormatError`. Readers are built from single words, exact slices and counted
repetition, so each of them either consumes what its value needs or reports the end of the bytes.

## Main definitions

* `ClassAtlas.Bytes.Reader` — the type of readers, a state monad over the unread bytes.
* `ClassAtlas.Bytes.Reader.u1`, `u2`, `u4`, `u8` — words.
* `ClassAtlas.Bytes.Reader.slice` — exactly `n` bytes.
* `ClassAtlas.Bytes.Reader.replicate`, `ClassAtlas.Bytes.Reader.table` — counted repetition.
* `ClassAtlas.Bytes.Reader.complete` — a whole byte string, with nothing left over.
-/

set_option autoImplicit false

namespace ClassAtlas.Bytes

/-- A reader: from unread bytes to a value and the bytes that are still unread. -/
abbrev Reader (α : Type) := StateT (List UInt8) (Except FormatError) α

namespace Reader

variable {α : Type}

/-- A reader that fails with the given cause. -/
def fail (cause : FormatError) : Reader α :=
  fun _ => .error cause

/-- The value of a computation that may fail. -/
def ofExcept (result : Except FormatError α) : Reader α :=
  fun bytes => result.map fun a => (a, bytes)

/-- Exactly `n` bytes. -/
def slice (n : Nat) : Reader (List UInt8) := fun bytes =>
  let taken := bytes.take n
  if taken.length = n then .ok (taken, bytes.drop n) else .error .unexpectedEnd

/-- One byte. -/
def u1 : Reader UInt8
  | [] => .error .unexpectedEnd
  | b :: bytes => .ok (b, bytes)

/-- A two-byte word. -/
def u2 : Reader UInt16 := do
  return UInt16.ofNat (value (← slice 2))

/-- A four-byte word. -/
def u4 : Reader UInt32 := do
  return UInt32.ofNat (value (← slice 4))

/-- An eight-byte word. -/
def u8 : Reader UInt64 := do
  return UInt64.ofNat (value (← slice 8))

/-- The repetition behind `replicate`, with the values read so far in reverse. -/
def replicateOnto (reader : Reader α) : Nat → List α → Reader (List α)
  | 0, done, bytes => .ok (done.reverse, bytes)
  | n + 1, done, bytes =>
    match reader bytes with
    | .ok (a, bytes) => replicateOnto reader n (a :: done) bytes
    | .error cause => .error cause

/-- A reader run `n` times in a row. -/
def replicate (n : Nat) (reader : Reader α) : Reader (List α) :=
  replicateOnto reader n []

/-- A list behind its length as a two-byte word. -/
def table (reader : Reader α) : Reader (List α) := do
  replicate (← u2).toNat reader

/-- The value of a reader that has to consume all the bytes. -/
def complete (reader : Reader α) (bytes : List UInt8) : Except FormatError α :=
  match reader bytes with
  | .ok (a, []) => .ok a
  | .ok (_, rest) => .error (.trailingBytes rest.length)
  | .error cause => .error cause

end Reader

end ClassAtlas.Bytes
