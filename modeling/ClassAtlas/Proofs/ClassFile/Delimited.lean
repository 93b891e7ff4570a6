import ClassAtlas.Proofs.Bytes.Delimited
import ClassAtlas.Proofs.ClassFile.Writable

/-!
# Where class files stop

A class file says itself where it ends, and so does every part of it. So no class file is the front
of another one: bytes that break off early are reported to end unexpectedly, wherever the cut is, and
bytes behind the end are reported as such, with their number.

## Main results

* `ClassAtlas.Constant.delimited_read`, `ClassAtlas.Pool.delimited_read`,
  `ClassAtlas.Attribute.delimited_read`, `ClassAtlas.Member.delimited_read`,
  `ClassAtlas.ClassFile.delimited_read` — readers of parts stop where their part ends.
* `ClassAtlas.ClassFile.decode_prefix_and_append` — the front of a class file, and a class file with
  bytes behind it.
-/

set_option autoImplicit false

namespace ClassAtlas

open Bytes Bytes.Reader

/-! ### Constants and pools -/

namespace Constant

/-- A constant with one index. -/
lemma delimited_index (make : UInt16 → Constant) :
    Delimited fun _ => (do return make (← Reader.u2) : Reader Constant) :=
  Delimited.u2.bind fun index => .pure (make index)

/-- A constant with two indices. -/
lemma delimited_indices (make : UInt16 → UInt16 → Constant) :
    Delimited fun _ => (do return make (← Reader.u2) (← Reader.u2) : Reader Constant) :=
  Delimited.u2.bind fun index => delimited_index (make index)

/-- A text is checked behind all of its bytes. -/
lemma delimited_text : Delimited fun _ => readOperands 1 :=
  Delimited.u2.bind fun length =>
    (Delimited.slice length.toNat).bind fun payload =>
      (Delimited.ofExcept (Text.decode payload)).bind fun value => .pure (text value)

/-- Behind a tag, a constant stops where its operands end. -/
lemma delimited_readOperands (tag : UInt8) : Delimited fun _ => readOperands tag := by
  by_cases ht : tag = 1
  · exact ht ▸ delimited_text
  unfold readOperands
  split
  case h_1 => exact absurd rfl ht
  case h_2 => exact Delimited.u4.bind fun value => .pure (integer value.toInt32)
  case h_3 => exact Delimited.u4.bind fun bits => .pure (float bits)
  case h_4 => exact Delimited.u8.bind fun value => .pure (long value.toInt64)
  case h_5 => exact Delimited.u8.bind fun bits => .pure (double bits)
  case h_6 => exact delimited_index classRef
  case h_7 => exact delimited_index string
  case h_8 => exact delimited_indices (memberRef .field)
  case h_9 => exact delimited_indices (memberRef .method)
  case h_10 => exact delimited_indices (memberRef .interfaceMethod)
  case h_11 => exact delimited_indices nameAndType
  case h_12 => exact Delimited.u1.bind fun kind => delimited_index (methodHandle kind)
  case h_13 => exact delimited_index methodType
  case h_14 => exact delimited_indices dynamic
  case h_15 => exact delimited_indices invokeDynamic
  case h_16 => exact delimited_index moduleRef
  case h_17 => exact delimited_index packageRef
  case h_18 => exact .fail _

/-- **A constant stops where its operands end.** -/
theorem delimited_read : Delimited fun _ => Constant.read :=
  Delimited.u1.bind delimited_readOperands

end Constant

namespace Pool

/-- Slots are read constant by constant. -/
lemma readSlots_succ (n : Nat) (slots : Array (Option Constant)) :
    readSlots (n + 1) slots = Constant.read >>= fun c =>
      if c.isWide then
        match n with
        | 0 => Reader.fail (.badConstantIndex (UInt16.ofNat (slots.size + 1)))
        | n + 1 => readSlots n ((slots.push (some c)).push none)
      else readSlots n (slots.push (some c)) := by
  funext bytes
  show _ = (StateT.bind Constant.read _) bytes
  simp only [readSlots, StateT.bind, bind, Except.bind]
  cases Constant.read bytes with
  | error cause => rfl
  | ok pair =>
    cases hw : pair.1.isWide with
    | false => simp only [hw, Bool.false_eq_true, if_false]
    | true => cases n <;> simp only [hw, if_true, Reader.fail]

/-- Slots stop where their last constant ends. -/
lemma delimited_readSlots (n : Nat) (slots : Array (Option Constant)) :
    Delimited fun _ => readSlots n slots := by
  induction n using Nat.strong_induction_on generalizing slots with
  | _ n ih =>
    cases n with
    | zero => exact .pure slots
    | succ n =>
      simp only [readSlots_succ]
      refine Constant.delimited_read.bind fun c => ?_
      split_ifs
      · -- a constant of two slots, which need not have room
        cases n with
        | zero => exact .fail _
        | succ n => exact ih n (by omega) _
      · exact ih n (by omega) _

/-- **A pool stops where its last constant ends.** -/
theorem delimited_read : Delimited fun _ => Pool.read := by
  refine Delimited.u2.bind fun count => ?_
  cases count.toNat with
  | zero => exact .fail _
  | succ n => exact (delimited_readSlots n #[none]).bind fun slots => .pure (Pool.mk slots)

end Pool

/-! ### Attributes, members and class files -/

namespace Attribute

/-- The name and the bytes of an attribute, which are read before its body is looked at. -/
def readEnvelope : Reader (UInt16 × List UInt8) := do
  let name ← Reader.u2
  return (name, ← Reader.slice (← Reader.u4).toNat)

lemma delimited_readEnvelope : Delimited fun _ => readEnvelope :=
  Delimited.u2.bind fun name =>
    Delimited.u4.bind fun length =>
      (Delimited.slice length.toNat).bind fun payload => .pure (name, payload)

lemma read_succ (pool : Pool) (depth : Nat) :
    read pool (depth + 1) = readEnvelope >>= fun envelope => do
      let text ← Reader.ofExcept (pool.text envelope.1)
      return ⟨envelope.1, ← Reader.ofExcept
        (AttributeBody.ofBytes pool (read pool depth) text envelope.2)⟩ := by
  simp only [read, readEnvelope, bind_assoc, pure_bind]

/-- **An attribute stops where its bytes end.** Its body is read only when all of them are there, and
the depth of what it nests is at most their number. -/
theorem delimited_read (pool : Pool) : Delimited (read pool) := by
  intro depth bytes a rest h
  obtain ⟨hfits, hbytes⟩ := read_eq_ok_iff.mp h
  refine ⟨a.encode, hbytes, fun d more hd => ?_, fun d front back hu hb hd => ?_⟩
  · exact read_eq_ok_iff.mpr ⟨hfits.length_encode.mono hd, rfl⟩
  · cases d with
    | zero => rfl
    | succ d =>
      cases depth with
      | zero => exact hfits.elim
      | succ depth =>
        rw [read_succ] at h
        obtain ⟨envelope, mid, he, hbody⟩ := bind_eq_ok_iff.mp h
        simp only [bind_eq_ok_iff, ofExcept_eq_ok_iff, pure_eq_ok_iff] at hbody
        obtain ⟨text, _, ⟨-, rfl⟩, body, _, ⟨-, rfl⟩, -, rfl⟩ := hbody
        obtain ⟨used, hused, hreads⟩ := @delimited_readEnvelope depth _ _ _ he
        obtain rfl : a.encode = used := List.append_cancel_right (hbytes.symm.trans hused)
        rw [read_succ]
        exact bind_eq_error (hreads.cut _ front back hu hb hd)

end Attribute

/-- **A member stops where its attributes end.** -/
theorem Member.delimited_read (pool : Pool) : Delimited (Member.read pool) :=
  Delimited.u2.bind fun access =>
    Delimited.u2.bind fun name =>
      Delimited.u2.bind fun descriptor =>
        (Delimited.ofExcept (pool.text name)).bind fun _ =>
          (Delimited.ofExcept (pool.text descriptor)).bind fun _ =>
            (Attribute.delimited_read pool).table.bind fun attributes =>
              .pure (Member.mk access name descriptor attributes)

namespace ClassFile

/-- What follows the magic number stops where the attributes of the class end. -/
theorem delimited_read : Delimited read := by
  refine (Delimited.slice 4).bind fun start => ?_
  by_cases hm : start = magic
  swap
  · simp only [ne_eq, hm, not_false_eq_true, if_true]
    exact .fail _
  simp only [ne_eq, hm, not_true_eq_false, if_false]
  exact Delimited.u2.bind fun minor =>
    Delimited.u2.bind fun major =>
      Pool.delimited_read.bind fun pool =>
        Delimited.u2.bind fun access =>
          Delimited.u2.bind fun thisClass =>
            Delimited.u2.bind fun superClass =>
              Delimited.u2.table.bind fun interfaces =>
                (Member.delimited_read pool).table.bind fun fields =>
                  (Member.delimited_read pool).table.bind fun methods =>
                    (Attribute.delimited_read pool).table.bind fun attributes =>
                      .pure (ClassFile.mk minor major pool access thisClass superClass interfaces
                        fields methods attributes)

/-- **No class file is the front of another one.** If bytes are a class file, then of every part of
them that stops early it is said that it ends unexpectedly, and with bytes behind them it is said how
many there are too many.

**Proof sketch.** Reading all the bytes leaves none, so they are what the reader of class files uses.
That reader stops where its value ends: cut short, the bytes have ended, and what follows them stays
unread, which is what the check for bytes left over reports. The bound on the depth differs between
the runs and is large enough in each of them, as it exceeds the number of bytes. -/
theorem decode_prefix_and_append {bytes : List UInt8} {c : ClassFile} (h : decode bytes = .ok c) :
    (∀ front, front <+: bytes → front ≠ bytes → decode front = .error .unexpectedEnd) ∧
      ∀ suffix, suffix ≠ [] →
        decode (bytes ++ suffix) = .error (.trailingBytes suffix.length) := by
  simp only [decode, Except.bind_eq_ok_iff, Reader.complete_eq_ok_iff, Except.pure_eq_ok_iff] at h
  obtain ⟨c', hread, -⟩ := h
  obtain ⟨used, hused, hreads⟩ := delimited_read hread
  rw [List.append_nil] at hused
  subst hused
  constructor
  · rintro front ⟨back, hback⟩ hne
    have hb : back ≠ [] := by
      rintro rfl
      exact hne (by simpa using hback)
    have hcut := hreads.cut (front.length + 1) front back hback hb (by omega)
    simp only [decode, complete, hcut]
    rfl
  · intro suffix hs
    have hwhole := hreads.whole ((bytes ++ suffix).length + 1) suffix (by rw [List.length_append]; omega)
    cases suffix with
    | nil => exact absurd rfl hs
    | cons b more =>
      simp only [decode, complete, hwhole]
      rfl

/-- A record that breaks off in the pool, inside a nested attribute and before its last byte, and one
with two bytes behind it. -/
theorem decode_prefix_and_append_annotatedRecord :
    decode annotatedRecord.encode = .ok annotatedRecord ∧
      decode (annotatedRecord.encode.take 20) = .error .unexpectedEnd ∧
      decode (annotatedRecord.encode.take 150) = .error .unexpectedEnd ∧
      decode (annotatedRecord.encode ++ [0xCA, 0xFE]) = .error (.trailingBytes 2) := by
  have hread : decode annotatedRecord.encode = .ok annotatedRecord := by decide +kernel
  obtain ⟨hfront, hmore⟩ := decode_prefix_and_append hread
  refine ⟨hread, hfront _ (List.take_prefix 20 _) (by decide +kernel),
    hfront _ (List.take_prefix 150 _) (by decide +kernel), hmore _ (by decide)⟩

end ClassFile

end ClassAtlas
