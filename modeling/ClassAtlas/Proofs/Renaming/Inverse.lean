import ClassAtlas.Proofs.Renaming.ClassExact
import ClassAtlas.Proofs.Renaming.ClassInverse
import ClassAtlas.Proofs.Renaming.MemberInverse

/-!
# Undoing a renaming

A renaming to a fresh name and the renaming back restore the bytes of a class file that was written as
it would be written again and has nothing to trim. The renaming back finds all old constants in place,
and what the renaming added is then unused, stands at the end of the pool, and is trimmed.

## Main definitions

* `ClassAtlas.Renaming.Fresh` — the new name occurs nowhere in a class file.

## Main results

* `ClassAtlas.Renaming.reviseBytes_inverse` — a renaming and the renaming back restore the bytes.
-/

set_option autoImplicit false

namespace ClassAtlas.Renaming

variable {r : Renaming} {c after trimmed : ClassFile}

/-- The new name of a class is part of no text of a class file, and the new name of a member is no
text of it. -/
def Fresh : Renaming → ClassFile → Prop
  | .ofClass r => r.Fresh
  | .ofMember r => r.Fresh

/-- The renaming back renames something and yields the class file, up to constants behind its pool. -/
lemma exists_apply_inverse {n : Nat} (hc : c.WellFormed) (htidy : c.Tidy) (hr : r.Fresh c)
    (happly : r.apply c = (.ok true, after)) (htrim : after.trim = .ok (trimmed, n)) :
    trimmed.WellFormed ∧ ∃ back, r.inverse.apply trimmed = (.ok true, back) ∧
      back = { c with pool := back.pool } ∧ Pool.Appends c.pool back.pool ∧
        back.pool.size ≤ Pool.maxSize := by
  cases r with
  | ofClass r => exact ClassRename.exists_apply_inverse_of_trim hc htidy hr happly htrim
  | ofMember r => exact MemberRename.exists_apply_inverse_of_trim hc htidy hr happly htrim

/-- **A renaming to a fresh name and the renaming back restore the bytes** of a class file with nothing
to trim. -/
theorem reviseBytes_inverse {bytes bytes' : List UInt8} (hdecode : ClassFile.decode bytes = .ok c)
    (hencode : c.encode = bytes) (htidy : c.Tidy) (hr : r.Fresh c)
    (h : reviseBytes bytes [r] = .ok (some bytes')) :
    reviseBytes bytes' [r.inverse] = .ok (some bytes) := by
  have hc := ClassFile.wellFormed_of_decode hdecode
  obtain ⟨c₀, changed, after, hdecode₀, happly, hresult⟩ := reviseBytes_single_eq_ok_iff.mp h
  obtain rfl : c = c₀ := Except.ok.inj (hdecode.symm.trans hdecode₀)
  rcases hresult with ⟨-, hnone⟩ | ⟨rfl, trimmed, n, read, htrim, hread, hbytes⟩
  · cases hnone
  obtain rfl := Option.some.inj hbytes
  obtain ⟨hw, back, hback, heq, happends, hmax⟩ := exists_apply_inverse hc htidy hr happly htrim
  obtain ⟨n', htrim'⟩ := htidy.exists_trim_eq hc heq happends hmax
  refine reviseBytes_single_eq_ok_iff.mpr ⟨trimmed, true, back, ClassFile.decode_encode hw, hback,
    .inr ⟨rfl, c, n', c, htrim', ?_, ?_⟩⟩
  · rw [hencode, hdecode]
  · rw [hencode]

/-- What is found of every text constant of a pool holds of every text that resolves in it. -/
lemma all_text {pool : Pool} {p : String → Bool} (hmax : pool.size ≤ Pool.maxSize)
    (h : (pool.constants.all fun | (_, .text value) => p value | _ => true) = true) {i : UInt16}
    {text : String} (hv : pool.text i = .ok text) : p text = true :=
  List.all_eq_true.mp h _ ((Pool.mem_constants_iff hmax).mpr (Pool.text_eq_ok_iff.mp hv))

/-- Renaming the class `A` with a field of its own type to `B`, or the method `m` of a class that calls
itself to `n`, and back, restores the bytes. -/
theorem reviseBytes_inverse_selfTyped :
    (∃ bytes', reviseBytes (ClassRename.selfTyped ClassRename.selfTypedPool 4).encode
        [.ofClass ⟨"A", "B"⟩] = .ok (some bytes') ∧
      reviseBytes bytes' [.ofClass ⟨"B", "A"⟩] =
        .ok (some (ClassRename.selfTyped ClassRename.selfTypedPool 4).encode)) ∧
    ∃ bytes', reviseBytes (MemberRename.selfCaller MemberRename.selfCallerPool 3).encode
        [.ofMember ⟨.method, "A", "m", "()V", "n"⟩] = .ok (some bytes') ∧
      reviseBytes bytes' [.ofMember ⟨.method, "A", "n", "()V", "m"⟩] =
        .ok (some (MemberRename.selfCaller MemberRename.selfCallerPool 3).encode) := by
  constructor
  · have hrun : reviseBytes (ClassRename.selfTyped ClassRename.selfTypedPool 4).encode
        [.ofClass ⟨"A", "B"⟩] =
          .ok (some (ClassRename.selfTyped ClassRename.selfTypedPool' 6).encode) := by decide +kernel
    have hdecode : ClassFile.decode (ClassRename.selfTyped ClassRename.selfTypedPool 4).encode =
        .ok (ClassRename.selfTyped ClassRename.selfTypedPool 4) := by decide +kernel
    have htidy : (ClassRename.selfTyped ClassRename.selfTypedPool 4).Tidy :=
      ClassFile.tidy_of_isTidy (by decide) (by decide +kernel)
    have hfresh : Fresh (.ofClass ⟨"A", "B"⟩) (ClassRename.selfTyped ClassRename.selfTypedPool 4) :=
      { ne := by decide
        old := by simp [ClassRename.IsClassName]
        new := by simp [ClassRename.IsClassName]
        texts := fun hv => of_decide_eq_true
          (all_text (p := fun text => decide ¬ "B".toList <:+: text.toList) (by decide)
            (by decide +kernel) hv)
        simpleNames := fun {x} hx inner outer hrole => by
          have hx : x = ⟨.descriptor, 4⟩ := List.mem_singleton.mp hx
          rw [hx] at hrole
          cases hrole }
    exact ⟨_, hrun, reviseBytes_inverse hdecode rfl htidy hfresh hrun⟩
  · have hrun : reviseBytes (MemberRename.selfCaller MemberRename.selfCallerPool 3).encode
        [.ofMember ⟨.method, "A", "m", "()V", "n"⟩] =
          .ok (some (MemberRename.selfCaller MemberRename.selfCallerPool' 7).encode) := by
      decide +kernel
    have hdecode : ClassFile.decode (MemberRename.selfCaller MemberRename.selfCallerPool 3).encode =
        .ok (MemberRename.selfCaller MemberRename.selfCallerPool 3) := by decide +kernel
    have htidy : (MemberRename.selfCaller MemberRename.selfCallerPool 3).Tidy :=
      ClassFile.tidy_of_isTidy (by decide) (by decide +kernel)
    have hfresh : Fresh (.ofMember ⟨.method, "A", "m", "()V", "n"⟩)
        (MemberRename.selfCaller MemberRename.selfCallerPool 3) := fun i hv =>
      absurd rfl (of_decide_eq_true
        (all_text (p := fun text => decide (text ≠ "n")) (by decide) (by decide +kernel) hv))
    exact ⟨_, hrun, reviseBytes_inverse hdecode rfl htidy hfresh hrun⟩

end ClassAtlas.Renaming
