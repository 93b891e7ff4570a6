import Mathlib
import ClassAtlas.Bytes.Reader

/-!
# What readers accept

Every reader of the library accepts exactly the bytes that a writer produces. For the words, slices
and counted repetitions that readers are built from, this is an equivalence: the reader returns a
value and a rest if and only if the bytes are the written value followed by the rest. Readers of
larger structures get theirs by rewriting with these.

## Main results

* `ClassAtlas.Bytes.digits_value` — a byte string is spelled by the digits of its value.
* `ClassAtlas.Bytes.Reader.bind_eq_ok_iff`, `pure_eq_ok_iff`, `map_eq_ok_iff` — sequencing.
* `ClassAtlas.Bytes.Reader.u1_eq_ok_iff`, `u2_eq_ok_iff`, `u4_eq_ok_iff`, `u8_eq_ok_iff`,
  `slice_eq_ok_iff` — words and slices.
* `ClassAtlas.Bytes.Reader.replicate_eq_ok_iff`, `table_eq_ok_iff` — counted repetition.
* `ClassAtlas.Bytes.Reader.complete_eq_ok_iff` — a whole byte string.
-/

set_option autoImplicit false

namespace ClassAtlas.Bytes

/-! ### Big-endian numbers -/

/-- Bytes spell a number below their capacity. -/
theorem value_lt_capacity (bytes : List UInt8) : value bytes < capacity bytes.length := by
  induction bytes using List.reverseRecOn with
  | nil => simp [capacity]
  | append_singleton bytes b ih =>
    have hb := b.toNat_lt
    simp only [value_concat, List.length_append, List.length_singleton, capacity]
    omega

/-- A byte string is spelled by the digits of its value. -/
theorem digits_value (bytes : List UInt8) : digits bytes.length (value bytes) = bytes := by
  induction bytes using List.reverseRecOn with
  | nil => rfl
  | append_singleton bytes b ih =>
    have hb := b.toNat_lt
    have hq : (value bytes * 256 + b.toNat) / 256 = value bytes := by omega
    have hr : UInt8.ofNat (value bytes * 256 + b.toNat) = b := by
      apply UInt8.toNat_inj.mp
      simp only [UInt8.toNat_ofNat']
      omega
    simp only [value_concat, List.length_append, List.length_singleton, digits, hq, hr, ih]

@[simp]
theorem length_u2 (n : UInt16) : (u2 n).length = 2 := length_digits 2 _

@[simp]
theorem length_u4 (n : UInt32) : (u4 n).length = 4 := length_digits 4 _

@[simp]
theorem length_u8 (n : UInt64) : (u8 n).length = 8 := length_digits 8 _

/-- Numbers of the same width are told apart by their digits, whatever follows. -/
theorem digits_append_inj {width m n : Nat} {a b : List UInt8} (hm : m < capacity width)
    (hn : n < capacity width) : digits width m ++ a = digits width n ++ b ↔ m = n ∧ a = b := by
  constructor
  · intro h
    obtain ⟨hd, ht⟩ := List.append_inj h (by simp)
    exact ⟨by rw [← value_digits width m hm, hd, value_digits width n hn], ht⟩
  · rintro ⟨rfl, rfl⟩
    rfl

@[simp]
theorem u2_inj {m n : UInt16} : u2 m = u2 n ↔ m = n := by
  refine ⟨fun h => ?_, congrArg u2⟩
  have hv := congrArg value h
  rw [u2, u2, value_digits 2 _ m.toNat_lt, value_digits 2 _ n.toNat_lt] at hv
  exact UInt16.toNat_inj.mp hv

@[simp]
theorem u2_append_inj {m n : UInt16} {a b : List UInt8} : u2 m ++ a = u2 n ++ b ↔ m = n ∧ a = b := by
  rw [u2, u2, digits_append_inj m.toNat_lt n.toNat_lt, UInt16.toNat_inj]

@[simp]
theorem u4_append_inj {m n : UInt32} {a b : List UInt8} : u4 m ++ a = u4 n ++ b ↔ m = n ∧ a = b := by
  rw [u4, u4, digits_append_inj m.toNat_lt n.toNat_lt, UInt32.toNat_inj]

@[simp]
theorem u8_append_inj {m n : UInt64} {a b : List UInt8} : u8 m ++ a = u8 n ++ b ↔ m = n ∧ a = b := by
  rw [u8, u8, digits_append_inj m.toNat_lt n.toNat_lt, UInt64.toNat_inj]

namespace Reader

variable {α β : Type} {bytes rest : List UInt8}

/-! ### Sequencing -/

@[simp]
theorem bind_eq_ok_iff {reader : Reader α} {f : α → Reader β} {b : β} :
    (reader >>= f) bytes = .ok (b, rest) ↔
      ∃ a mid, reader bytes = .ok (a, mid) ∧ f a mid = .ok (b, rest) := by
  show (StateT.bind reader f) bytes = _ ↔ _
  simp only [StateT.bind, bind, Except.bind]
  cases h : reader bytes with
  | error cause => simp
  | ok v =>
    obtain ⟨a, mid⟩ := v
    simp

@[simp]
theorem pure_eq_ok_iff {a b : α} :
    (pure a : Reader α) bytes = .ok (b, rest) ↔ a = b ∧ bytes = rest := by
  show (Except.ok (a, bytes) : Except FormatError _) = _ ↔ _
  simp

@[simp]
theorem map_eq_ok_iff {reader : Reader α} {f : α → β} {b : β} :
    (f <$> reader) bytes = .ok (b, rest) ↔ ∃ a, reader bytes = .ok (a, rest) ∧ f a = b := by
  rw [← bind_pure_comp, bind_eq_ok_iff]
  simp only [pure_eq_ok_iff]
  constructor
  · rintro ⟨a, mid, h, rfl, rfl⟩
    exact ⟨a, h, rfl⟩
  · rintro ⟨a, h, rfl⟩
    exact ⟨a, rest, h, rfl, rfl⟩

@[simp]
theorem fail_ne_ok {cause : FormatError} {a : α} :
    ¬ (fail cause : Reader α) bytes = .ok (a, rest) := by
  simp [fail]

@[simp]
theorem ofExcept_eq_ok_iff {result : Except FormatError α} {a : α} :
    ofExcept result bytes = .ok (a, rest) ↔ result = .ok a ∧ bytes = rest := by
  cases result <;> simp [ofExcept, Except.map]

/-! ### Words and slices -/

@[simp]
theorem slice_eq_ok_iff {n : Nat} {taken : List UInt8} :
    slice n bytes = .ok (taken, rest) ↔ taken.length = n ∧ bytes = taken ++ rest := by
  simp only [slice]
  constructor
  · intro h
    split at h
    · rename_i hl
      simp only [Except.ok.injEq, Prod.mk.injEq] at h
      obtain ⟨rfl, rfl⟩ := h
      exact ⟨hl, (List.take_append_drop n bytes).symm⟩
    · simp at h
  · rintro ⟨rfl, rfl⟩
    simp

@[simp]
theorem u1_eq_ok_iff {b : UInt8} : u1 bytes = .ok (b, rest) ↔ bytes = b :: rest := by
  cases bytes <;> simp [u1]

/-- A reader of words of a fixed width accepts exactly the digits of a word. -/
theorem word_eq_ok_iff {ω : Type} (width : Nat) (ofNat : Nat → ω) (toNat : ω → Nat)
    (hto : ∀ n, n < capacity width → toNat (ofNat n) = n) (hof : ∀ w, ofNat (toNat w) = w)
    (hlt : ∀ w, toNat w < capacity width) {w : ω} :
    (do return ofNat (value (← slice width)) : Reader ω) bytes = .ok (w, rest) ↔
      bytes = digits width (toNat w) ++ rest := by
  simp only [bind_eq_ok_iff, slice_eq_ok_iff, pure_eq_ok_iff]
  constructor
  · rintro ⟨taken, mid, ⟨rfl, rfl⟩, rfl, rfl⟩
    rw [hto _ (value_lt_capacity taken), digits_value]
  · rintro rfl
    exact ⟨_, rest, ⟨length_digits _ _, rfl⟩, by rw [value_digits _ _ (hlt w), hof], rfl⟩

@[simp]
theorem u2_eq_ok_iff {n : UInt16} : u2 bytes = .ok (n, rest) ↔ bytes = Bytes.u2 n ++ rest :=
  word_eq_ok_iff 2 UInt16.ofNat UInt16.toNat (fun _ h => UInt16.toNat_ofNat_of_lt' h)
    (fun _ => UInt16.ofNat_toNat) UInt16.toNat_lt

@[simp]
theorem u4_eq_ok_iff {n : UInt32} : u4 bytes = .ok (n, rest) ↔ bytes = Bytes.u4 n ++ rest :=
  word_eq_ok_iff 4 UInt32.ofNat UInt32.toNat (fun _ h => UInt32.toNat_ofNat_of_lt' h)
    (fun _ => UInt32.ofNat_toNat) UInt32.toNat_lt

@[simp]
theorem u8_eq_ok_iff {n : UInt64} : u8 bytes = .ok (n, rest) ↔ bytes = Bytes.u8 n ++ rest :=
  word_eq_ok_iff 8 UInt64.ofNat UInt64.toNat (fun _ h => UInt64.toNat_ofNat_of_lt' h)
    (fun _ => UInt64.ofNat_toNat) UInt64.toNat_lt

/-! ### Counted repetition -/

/-- One more repetition is one reading, then the others. -/
lemma replicateOnto_succ (reader : Reader α) (n : Nat) (done : List α) :
    replicateOnto reader (n + 1) done =
      reader >>= fun a => replicateOnto reader n (a :: done) := by
  funext bytes
  show _ = (StateT.bind reader _) bytes
  simp only [replicateOnto, StateT.bind, bind, Except.bind]
  cases reader bytes <;> rfl

section Repetition

variable {reader : Reader α} {valid : α → Prop} {encode : α → List UInt8}

/-- If a reader accepts exactly the written forms of valid values, its repetition accepts exactly
the written forms of as many valid values, one after the other. -/
theorem replicateOnto_eq_ok_iff
    (h : ∀ {bytes a rest}, reader bytes = .ok (a, rest) ↔ valid a ∧ bytes = encode a ++ rest)
    {n : Nat} {done result : List α} :
    replicateOnto reader n done bytes = .ok (result, rest) ↔
      ∃ items, result = done.reverse ++ items ∧ items.length = n ∧ (∀ a ∈ items, valid a) ∧
        bytes = items.flatMap encode ++ rest := by
  induction n generalizing done bytes with
  | zero =>
    simp only [replicateOnto, Except.ok.injEq, Prod.mk.injEq]
    constructor
    · rintro ⟨rfl, rfl⟩
      exact ⟨[], by simp⟩
    · rintro ⟨items, rfl, hn, -, rfl⟩
      obtain rfl := List.length_eq_zero_iff.mp hn
      simp
  | succ n ih =>
    simp only [replicateOnto]
    constructor
    · intro hr
      split at hr
      · rename_i a mid ha
        obtain ⟨hv, rfl⟩ := h.mp ha
        obtain ⟨items, rfl, rfl, hi, rfl⟩ := ih.mp hr
        exact ⟨a :: items, by simp, by simp, by simp_all, by simp⟩
      · simp at hr
    · rintro ⟨items, rfl, hn, hi, rfl⟩
      obtain ⟨a, items, rfl⟩ := List.exists_cons_of_length_eq_add_one hn
      have ha : reader ((a :: items).flatMap encode ++ rest) =
          .ok (a, items.flatMap encode ++ rest) := by
        rw [h]
        exact ⟨hi a List.mem_cons_self, by simp⟩
      rw [ha]
      exact ih.mpr ⟨items, by simp, by simpa using hn, fun b hb => hi b (List.mem_cons_of_mem _ hb),
        rfl⟩

theorem replicate_eq_ok_iff
    (h : ∀ {bytes a rest}, reader bytes = .ok (a, rest) ↔ valid a ∧ bytes = encode a ++ rest)
    {n : Nat} {items : List α} :
    replicate n reader bytes = .ok (items, rest) ↔
      items.length = n ∧ (∀ a ∈ items, valid a) ∧ bytes = items.flatMap encode ++ rest := by
  simp [replicate, replicateOnto_eq_ok_iff h]

/-- The table of a reader accepts exactly the tables of valid values whose length fits a two-byte
word. -/
theorem table_eq_ok_iff
    (h : ∀ {bytes a rest}, reader bytes = .ok (a, rest) ↔ valid a ∧ bytes = encode a ++ rest)
    {items : List α} :
    table reader bytes = .ok (items, rest) ↔
      (items.length < 65536 ∧ ∀ a ∈ items, valid a) ∧ bytes = Bytes.table encode items ++ rest := by
  simp only [table, bind_eq_ok_iff, u2_eq_ok_iff, replicate_eq_ok_iff h, Bytes.table]
  constructor
  · rintro ⟨n, mid, rfl, hn, hi, rfl⟩
    rw [hn]
    exact ⟨⟨n.toNat_lt, hi⟩, by simp⟩
  · rintro ⟨⟨hn, hi⟩, rfl⟩
    exact ⟨UInt16.ofNat items.length, _, List.append_assoc _ _ _,
      (UInt16.toNat_ofNat_of_lt' hn).symm, hi, rfl⟩

end Repetition

/-! ### Whole byte strings -/

theorem complete_eq_ok_iff {reader : Reader α} {a : α} :
    complete reader bytes = .ok a ↔ reader bytes = .ok (a, []) := by
  simp only [complete]
  split <;> simp_all

end Reader

end ClassAtlas.Bytes
