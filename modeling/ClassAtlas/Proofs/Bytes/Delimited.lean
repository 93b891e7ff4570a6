import ClassAtlas.Proofs.Bytes.Reading

/-!
# Where readers stop

A reader stops where the value that it reads ends. Bytes behind that place make no difference to it,
and of bytes that break off before that place it says that they ended, not anything else: what it
checks on the way it only checks on bytes that it has. Readers are families here, indexed by a bound
on the depth of what they read, because a bound is chosen by the number of bytes and changes with it.

## Main definitions

* `ClassAtlas.Bytes.Reader.Reads` — bytes that spell a value for a reader, and say where it ends.
* `ClassAtlas.Bytes.Reader.Delimited` — readers that stop where their value ends.
* `ClassAtlas.Bytes.Reader.RunsShort` — readers that only refuse bytes that end too early.

## Main results

* `ClassAtlas.Bytes.Reader.Delimited.bind`, `pure`, `fail`, `ofExcept` — sequencing.
* `ClassAtlas.Bytes.Reader.Delimited.slice`, `u1`, `u2`, `u4`, `u8` — words and slices.
* `ClassAtlas.Bytes.Reader.Delimited.replicate`, `table` — counted repetition.
-/

set_option autoImplicit false

namespace ClassAtlas.Bytes.Reader

variable {α β : Type}

/-- Bytes that spell a value for a family of readers, and that say where it ends. The bound on the
depth has to reach the number of bytes that a reader is given of them. -/
structure Reads (reader : Nat → Reader α) (used : List UInt8) (a : α) : Prop where
  /-- What follows is left unread. -/
  whole : ∀ (depth : Nat) (more : List UInt8), used.length ≤ depth →
    reader depth (used ++ more) = .ok (a, more)
  /-- What breaks off early has ended unexpectedly. -/
  cut : ∀ (depth : Nat) (front back : List UInt8), front ++ back = used → back ≠ [] →
    front.length ≤ depth → reader depth front = .error .unexpectedEnd

/-- A family of readers that stop where their value ends. -/
def Delimited (reader : Nat → Reader α) : Prop :=
  ∀ ⦃depth : Nat⦄ ⦃bytes : List UInt8⦄ ⦃a : α⦄ ⦃rest : List UInt8⦄,
    reader depth bytes = .ok (a, rest) → ∃ used, bytes = used ++ rest ∧ Reads reader used a

/-- A failure of the first reader is the failure of the sequence. -/
lemma bind_eq_error {reader : Reader α} {f : α → Reader β} {bytes : List UInt8}
    {cause : FormatError} (h : reader bytes = .error cause) :
    (reader >>= f) bytes = .error cause := by
  show (StateT.bind reader f) bytes = _
  simp only [StateT.bind, bind, Except.bind, h]

/-- A sequence goes on with the value of the first reader. -/
lemma bind_eq_of_ok {reader : Reader α} {f : α → Reader β} {bytes rest : List UInt8} {a : α}
    (h : reader bytes = .ok (a, rest)) : (reader >>= f) bytes = f a rest := by
  show (StateT.bind reader f) bytes = _
  simp only [StateT.bind, bind, Except.bind, h]

namespace Delimited

/-! ### Sequencing -/

/-- A reader that needs no bytes stops at once. -/
lemma of_unread {reader : Nat → Reader α}
    (h : ∀ depth bytes a rest, reader depth bytes = .ok (a, rest) →
      bytes = rest ∧ ∀ depth' more, reader depth' more = .ok (a, more)) : Delimited reader := by
  intro depth bytes a rest hr
  obtain ⟨rfl, ha⟩ := h depth bytes a rest hr
  refine ⟨[], rfl, fun _ _ _ => ha _ _, fun _ _ _ hu hb _ => ?_⟩
  exact absurd (List.append_eq_nil_iff.mp hu).2 hb

lemma pure (a : α) : Delimited fun _ => (Pure.pure a : Reader α) :=
  of_unread fun _ _ _ _ h => by
    obtain ⟨rfl, rfl⟩ := pure_eq_ok_iff.mp h
    exact ⟨rfl, fun _ _ => rfl⟩

lemma ofExcept (result : Except FormatError α) : Delimited fun _ => Reader.ofExcept result :=
  of_unread fun _ _ _ _ h => by
    obtain ⟨rfl, rfl⟩ := ofExcept_eq_ok_iff.mp h
    exact ⟨rfl, fun _ _ => rfl⟩

lemma fail (cause : FormatError) : Delimited fun _ => (Reader.fail cause : Reader α) :=
  fun _ _ _ _ h => absurd h fail_ne_ok

/-- **Sequencing.** The bytes of a sequence are those of its first part, then those of its second.
Where they break off, the first part has ended early or has been read as a whole. -/
theorem bind {reader : Nat → Reader α} {f : Nat → α → Reader β} (hr : Delimited reader)
    (hf : ∀ a, Delimited fun depth => f depth a) :
    Delimited fun depth => reader depth >>= f depth := by
  intro depth bytes b rest h
  obtain ⟨a, mid, ha, hb'⟩ := bind_eq_ok_iff.mp h
  obtain ⟨first, rfl, hfirst⟩ := hr ha
  obtain ⟨second, rfl, hsecond⟩ := hf a hb'
  refine ⟨first ++ second, by simp, fun d more hd => ?_, fun d front back hu hb hd => ?_⟩
  · rw [List.length_append] at hd
    rw [List.append_assoc, bind_eq_of_ok (hfirst.whole _ _ (by omega))]
    exact hsecond.whole _ _ (by omega)
  · obtain ⟨more, rfl, rfl⟩ | ⟨more, rfl, rfl⟩ := List.append_eq_append_iff.mp hu
    · by_cases hm : more = []
      · -- the bytes break off between the two parts
        obtain rfl := hm
        rw [List.append_nil] at hfirst
        rw [← List.append_nil front, bind_eq_of_ok (hfirst.whole _ _ hd)]
        exact hsecond.cut d [] _ rfl hb (Nat.zero_le d)
      · exact bind_eq_error (hfirst.cut _ _ _ rfl hm hd)
    · rw [List.length_append] at hd
      rw [bind_eq_of_ok (hfirst.whole _ _ (by omega))]
      exact hsecond.cut _ _ _ rfl hb (by omega)

/-! ### Words and slices -/

lemma slice (n : Nat) : Delimited fun _ => Reader.slice n := by
  intro depth bytes taken rest h
  obtain ⟨hn, rfl⟩ := slice_eq_ok_iff.mp h
  refine ⟨taken, rfl, fun _ _ _ => slice_eq_ok_iff.mpr ⟨hn, rfl⟩, fun _ front back hu hb _ => ?_⟩
  have hlt : front.length < n := by
    have hpos := List.length_pos_iff.mpr hb
    rw [← hn, ← hu, List.length_append]
    omega
  have hne : (front.take n).length ≠ n := by
    rw [List.length_take]
    omega
  simp only [Reader.slice, if_neg hne]

lemma u1 : Delimited fun _ => Reader.u1 := by
  intro depth bytes b rest h
  obtain rfl := u1_eq_ok_iff.mp h
  refine ⟨[b], rfl, fun _ _ _ => rfl, fun _ front back hu hb _ => ?_⟩
  obtain ⟨rfl, -⟩ | ⟨-, rfl⟩ := List.append_eq_singleton_iff.mp hu
  · rfl
  · exact absurd rfl hb

/-- A word is a slice and its value. -/
lemma word {ω : Type} (width : Nat) (ofNat : Nat → ω) :
    Delimited fun _ => (do return ofNat (value (← Reader.slice width)) : Reader ω) :=
  (slice width).bind fun bytes => pure (ofNat (value bytes))

lemma u2 : Delimited fun _ => Reader.u2 := word 2 UInt16.ofNat

lemma u4 : Delimited fun _ => Reader.u4 := word 4 UInt32.ofNat

lemma u8 : Delimited fun _ => Reader.u8 := word 8 UInt64.ofNat

/-! ### Counted repetition -/

lemma replicateOnto {reader : Nat → Reader α} (h : Delimited reader) (n : Nat) (done : List α) :
    Delimited fun depth => Reader.replicateOnto (reader depth) n done := by
  induction n generalizing done with
  | zero => exact pure done.reverse
  | succ n ih =>
    simp only [replicateOnto_succ]
    exact h.bind fun a => ih (a :: done)

lemma replicate {reader : Nat → Reader α} (h : Delimited reader) (n : Nat) :
    Delimited fun depth => Reader.replicate n (reader depth) :=
  h.replicateOnto n []

/-- A table stops where its last entry ends. -/
lemma table {reader : Nat → Reader α} (h : Delimited reader) :
    Delimited fun depth => Reader.table (reader depth) :=
  u2.bind fun count => h.replicate count.toNat

end Delimited

/-! ### Readers that run short -/

/-- A reader that refuses bytes only because they end too early. -/
def RunsShort (reader : Reader α) : Prop :=
  ∀ (bytes : List UInt8) (cause : FormatError), reader bytes = .error cause → cause = .unexpectedEnd

namespace RunsShort

lemma pure {a : α} : RunsShort (Pure.pure a : Reader α) := nofun

lemma bind {reader : Reader α} {f : α → Reader β} (h : RunsShort reader) (hf : ∀ a, RunsShort (f a)) :
    RunsShort (reader >>= f) := by
  intro bytes cause hcause
  rcases hread : reader bytes with cause' | ⟨a, rest⟩
  · rw [bind_eq_error hread] at hcause
    exact Except.error.inj hcause ▸ h bytes cause' hread
  · rw [bind_eq_of_ok hread] at hcause
    exact hf a rest cause hcause

lemma slice {n : Nat} : RunsShort (Reader.slice n) := by
  intro bytes cause h
  simp only [Reader.slice] at h
  split at h
  · cases h
  · exact (Except.error.inj h).symm

lemma u1 : RunsShort Reader.u1 := by
  intro bytes cause h
  cases bytes with
  | nil => exact (Except.error.inj h).symm
  | cons b bytes => cases h

lemma u2 : RunsShort Reader.u2 := .bind .slice fun _ => .pure

lemma u4 : RunsShort Reader.u4 := .bind .slice fun _ => .pure

end RunsShort

end ClassAtlas.Bytes.Reader
