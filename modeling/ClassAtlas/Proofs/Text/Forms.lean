import Mathlib
import ClassAtlas.Text.ModifiedUtf8

/-!
# Forms of a unit

A unit is spelled in one, two or three bytes. A small unit has several of these forms, because a longer
one may start with zeros; zero itself has no form of one byte. Reading accepts every form and nothing
else, and writing chooses the shortest one.

## Main definitions

* `ClassAtlas.Text.Form` — the bytes that spell a unit.
* `ClassAtlas.Text.IsShortestForm` — the fewest of them.
* `ClassAtlas.Text.Spells` — the bytes that spell units, one form after the other.

## Main results

* `ClassAtlas.Text.isShortestForm_iff` — units are written in their shortest forms.
* `ClassAtlas.Text.decodeUnits?_eq_some_iff` — what is read are the units that the bytes spell.
* `ClassAtlas.Text.decodeUnits?_flatMap_unitBytes` — units read back from their bytes.
-/

set_option autoImplicit false

namespace ClassAtlas.Text

variable {u : UInt16} {us : List UInt16} {form form' bytes : List UInt8}
  {spelled spelled' : UInt16 → List UInt8 → Prop}

/-! ### The forms -/

/-- The bytes spell the unit: its bits are cut into groups of six from the right, and the first byte
says how many groups there are. -/
inductive Form (u : UInt16) : List UInt8 → Prop where
  /-- One byte, which is not zero. -/
  | one (hpos : 0 < u.toNat) (hlt : u.toNat < 0x80) : Form u [UInt8.ofNat u.toNat]
  /-- Two bytes. -/
  | two (hlt : u.toNat < 0x800) :
    Form u [UInt8.ofNat (0xC0 + u.toNat / 0x40), UInt8.ofNat (0x80 + u.toNat % 0x40)]
  /-- Three bytes. -/
  | three :
    Form u [UInt8.ofNat (0xE0 + u.toNat / 0x1000), UInt8.ofNat (0x80 + u.toNat / 0x40 % 0x40),
      UInt8.ofNat (0x80 + u.toNat % 0x40)]

/-- The bytes spell the unit, and no fewer bytes do. -/
def IsShortestForm (u : UInt16) (form : List UInt8) : Prop :=
  Form u form ∧ ∀ other, Form u other → form.length ≤ other.length

/-- The forms of a unit differ in their lengths. -/
lemma Form.eq_of_length_eq (h : Form u form) (h' : Form u form')
    (hlength : form.length = form'.length) : form = form' := by
  cases h <;> cases h' <;> cases hlength <;> rfl

/-- A unit is written in one of its forms. -/
lemma form_unitBytes (u : UInt16) : Form u (unitBytes u) := by
  unfold unitBytes
  by_cases hone : 0 < u.toNat ∧ u.toNat < 0x80
  · rw [if_pos hone]
    exact .one hone.1 hone.2
  · rw [if_neg hone]
    split_ifs with htwo
    · exact .two htwo
    · exact .three

/-- A unit is written in no more bytes than any of its forms has. -/
lemma Form.length_unitBytes_le (h : Form u form) : (unitBytes u).length ≤ form.length := by
  unfold unitBytes
  cases h with
  | one hpos hlt => rw [if_pos ⟨hpos, hlt⟩]
  | two hlt => dsimp only; split_ifs <;> simp
  | three => dsimp only; split_ifs <;> simp

/-- **Units are written in their shortest forms**, and in no other way. -/
theorem isShortestForm_iff : IsShortestForm u form ↔ form = unitBytes u := by
  constructor
  · rintro ⟨hform, hshortest⟩
    refine hform.eq_of_length_eq (form_unitBytes u) ?_
    exact le_antisymm (hshortest _ (form_unitBytes u)) hform.length_unitBytes_le
  · rintro rfl
    exact ⟨form_unitBytes u, fun _ h => h.length_unitBytes_le⟩

/-- The shortest form of zero has two bytes. -/
example : IsShortestForm 0 [0xC0, 0x80] := isShortestForm_iff.mpr rfl

lemma toNat_ofNat_byte {n : Nat} (h : n < 0x100) : (UInt8.ofNat n).toNat = n :=
  UInt8.toNat_ofNat_of_lt' h

lemma toNat_ofNat_unit {n : Nat} (h : n < 0x10000) : (UInt16.ofNat n).toNat = n :=
  UInt16.toNat_ofNat_of_lt' h

/-- No byte of a form is zero or starts a form of four bytes. -/
lemma Form.byte_range (h : Form u form) : ∀ b ∈ form, b ≠ 0 ∧ b < 0xF0 := by
  have hu : u.toNat < 0x10000 := u.toNat_lt
  have hbyte {n : Nat} (hpos : 0 < n) (hlt : n < 0xF0) : UInt8.ofNat n ≠ 0 ∧ UInt8.ofNat n < 0xF0 := by
    have hn : (UInt8.ofNat n).toNat = n := toNat_ofNat_byte (by omega)
    rw [UInt8.lt_iff_toNat_lt, hn, Ne, ← UInt8.toNat_inj, hn]
    exact ⟨hpos.ne', hlt⟩
  cases h with
  | one hpos hlt =>
    rw [List.forall_mem_singleton]
    exact hbyte hpos (by omega)
  | two hlt =>
    rw [List.forall_mem_cons, List.forall_mem_singleton]
    exact ⟨hbyte (by omega) (by omega), hbyte (by omega) (by omega)⟩
  | three =>
    rw [List.forall_mem_cons, List.forall_mem_cons, List.forall_mem_singleton]
    exact ⟨hbyte (by omega) (by omega), hbyte (by omega) (by omega), hbyte (by omega) (by omega)⟩

/-! ### Forms in a row -/

/-- The bytes spell the units: they are one form of each unit, in order. Which forms are meant is
a parameter. -/
inductive Spells (spelled : UInt16 → List UInt8 → Prop) : List UInt16 → List UInt8 → Prop where
  /-- No bytes spell no units. -/
  | nil : Spells spelled [] []
  /-- The form of a unit comes before those of the other units. -/
  | cons {u : UInt16} {us : List UInt16} {form bytes : List UInt8} (h : spelled u form)
    (hrest : Spells spelled us bytes) : Spells spelled (u :: us) (form ++ bytes)

lemma spells_shortest_iff : Spells IsShortestForm us bytes ↔ bytes = us.flatMap unitBytes := by
  constructor
  · intro h
    induction h with
    | nil => rfl
    | cons h _ ih => rw [isShortestForm_iff.mp h, ih, List.flatMap_cons]
  · rintro rfl
    induction us with
    | nil => exact .nil
    | cons u us ih => exact .cons (isShortestForm_iff.mpr rfl) ih

lemma Spells.form_of_shortest (h : Spells IsShortestForm us bytes) : Spells Form us bytes := by
  induction h with
  | nil => exact .nil
  | cons h _ ih => exact .cons h.1 ih

lemma Spells.byte_range (h : Spells Form us bytes) : ∀ b ∈ bytes, b ≠ 0 ∧ b < 0xF0 := by
  induction h with
  | nil => exact List.forall_mem_nil _
  | cons h _ ih => exact List.forall_mem_append.mpr ⟨h.byte_range, ih⟩

/-- Units are written in no more bytes than spell them. -/
lemma Spells.length_flatMap_unitBytes_le (h : Spells Form us bytes) :
    (us.flatMap unitBytes).length ≤ bytes.length := by
  induction h with
  | nil => exact le_rfl
  | cons h _ ih =>
    rw [List.flatMap_cons, List.length_append, List.length_append]
    exact add_le_add h.length_unitBytes_le ih

/-! ### Reading -/

lemma isContinuation_ofNat {n : Nat} (h : n < 0x40) : isContinuation (UInt8.ofNat (0x80 + n)) = true := by
  rw [isContinuation, toNat_ofNat_byte (by omega), Bool.and_eq_true, decide_eq_true_eq,
    decide_eq_true_eq]
  omega

/-- One step of reading bytes: every form of a unit is read as that unit. -/
lemma Form.decodeUnitsOnto?_append (h : Form u form) (done : List UInt16) (bytes : List UInt8) :
    decodeUnitsOnto? done (form ++ bytes) = decodeUnitsOnto? (u :: done) bytes := by
  have hu : u.toNat < 0x10000 := u.toNat_lt
  cases h with
  | one hpos hlt =>
    have hb := toNat_ofNat_byte (n := u.toNat) (by omega)
    rw [List.cons_append, List.nil_append, decodeUnitsOnto?.eq_def]
    simp only [hb, hlt, hpos.ne', if_true, if_false, UInt16.ofNat_toNat]
  | two hlt =>
    have ha := toNat_ofNat_byte (n := 0xC0 + u.toNat / 0x40) (by omega)
    have hb := toNat_ofNat_byte (n := 0x80 + u.toNat % 0x40) (by omega)
    have hc := isContinuation_ofNat (n := u.toNat % 0x40) (by omega)
    have e1 : ¬ 0xC0 + u.toNat / 0x40 < 0x80 := by omega
    have e2 : ¬ 0xC0 + u.toNat / 0x40 < 0xC0 := by omega
    have e3 : 0xC0 + u.toNat / 0x40 < 0xE0 := by omega
    have hn : (0xC0 + u.toNat / 0x40 - 0xC0) * 0x40 + (0x80 + u.toNat % 0x40 - 0x80) = u.toNat := by
      omega
    simp only [List.cons_append, List.nil_append, decodeUnitsOnto?, ha, hb, hc, e1, e2, e3, if_true,
      if_false, hn, UInt16.ofNat_toNat]
  | three =>
    have ha := toNat_ofNat_byte (n := 0xE0 + u.toNat / 0x1000) (by omega)
    have hb := toNat_ofNat_byte (n := 0x80 + u.toNat / 0x40 % 0x40) (by omega)
    have hc := toNat_ofNat_byte (n := 0x80 + u.toNat % 0x40) (by omega)
    have hcb := isContinuation_ofNat (n := u.toNat / 0x40 % 0x40) (by omega)
    have hcc := isContinuation_ofNat (n := u.toNat % 0x40) (by omega)
    have e1 : ¬ 0xE0 + u.toNat / 0x1000 < 0x80 := by omega
    have e2 : ¬ 0xE0 + u.toNat / 0x1000 < 0xC0 := by omega
    have e3 : ¬ 0xE0 + u.toNat / 0x1000 < 0xE0 := by omega
    have e4 : 0xE0 + u.toNat / 0x1000 < 0xF0 := by omega
    have hn : (0xE0 + u.toNat / 0x1000 - 0xE0) * 0x1000 +
        (0x80 + u.toNat / 0x40 % 0x40 - 0x80) * 0x40 + (0x80 + u.toNat % 0x40 - 0x80) = u.toNat := by
      omega
    simp only [List.cons_append, List.nil_append, decodeUnitsOnto?, ha, hb, hc, hcb, hcc, e1, e2, e3,
      e4, Bool.and_self, if_true, if_false, hn, UInt16.ofNat_toNat]

lemma Spells.decodeUnitsOnto? (h : Spells Form us bytes) (done : List UInt16) :
    Text.decodeUnitsOnto? done bytes = some (done.reverse ++ us) := by
  induction h generalizing done with
  | nil => rw [Text.decodeUnitsOnto?, List.append_nil]
  | cons h _ ih =>
    rw [h.decodeUnitsOnto?_append, ih, List.reverse_cons, List.append_assoc, List.singleton_append]

/-- A byte that is read as a unit is a form of it. -/
lemma form_one_byte {a : UInt8} (hpos : 0 < a.toNat) (hlt : a.toNat < 0x80) :
    Form (UInt16.ofNat a.toNat) [a] := by
  have hu : (UInt16.ofNat a.toNat).toNat = a.toNat := toNat_ofNat_unit (by omega)
  have h : Form (UInt16.ofNat a.toNat) _ := .one (hu.symm ▸ hpos) (hu.symm ▸ hlt)
  rwa [hu, UInt8.ofNat_toNat] at h

/-- Two bytes that are read as a unit are a form of it. -/
lemma form_two_bytes {a b : UInt8} (ha : 0xC0 ≤ a.toNat ∧ a.toNat < 0xE0) (hb : isContinuation b) :
    Form (UInt16.ofNat ((a.toNat - 0xC0) * 0x40 + (b.toNat - 0x80))) [a, b] := by
  rw [isContinuation, Bool.and_eq_true, decide_eq_true_eq, decide_eq_true_eq] at hb
  set n := (a.toNat - 0xC0) * 0x40 + (b.toNat - 0x80) with hn
  have hu : (UInt16.ofNat n).toNat = n := toNat_ofNat_unit (by omega)
  have h : Form (UInt16.ofNat n) _ := .two (by omega)
  rwa [hu, show 0xC0 + n / 0x40 = a.toNat by omega, show 0x80 + n % 0x40 = b.toNat by omega,
    UInt8.ofNat_toNat, UInt8.ofNat_toNat] at h

/-- Three bytes that are read as a unit are a form of it. -/
lemma form_three_bytes {a b c : UInt8} (ha : 0xE0 ≤ a.toNat ∧ a.toNat < 0xF0) (hb : isContinuation b)
    (hc : isContinuation c) :
    Form (UInt16.ofNat ((a.toNat - 0xE0) * 0x1000 + (b.toNat - 0x80) * 0x40 + (c.toNat - 0x80)))
      [a, b, c] := by
  rw [isContinuation, Bool.and_eq_true, decide_eq_true_eq, decide_eq_true_eq] at hb hc
  set n := (a.toNat - 0xE0) * 0x1000 + (b.toNat - 0x80) * 0x40 + (c.toNat - 0x80) with hn
  have hu : (UInt16.ofNat n).toNat = n := toNat_ofNat_unit (by omega)
  have h : Form (UInt16.ofNat n) _ := .three
  rwa [hu, show 0xE0 + n / 0x1000 = a.toNat by omega, show 0x80 + n / 0x40 % 0x40 = b.toNat by omega,
    show 0x80 + n % 0x40 = c.toNat by omega, UInt8.ofNat_toNat, UInt8.ofNat_toNat,
    UInt8.ofNat_toNat] at h

/-- Reading bytes adds the units that the bytes spell.

**Proof sketch.** Along the recursion of the reader, with one case for each length of a form; the
ranges of the first byte keep these apart. -/
lemma exists_spells_of_decodeUnitsOnto? {done : List UInt16} (h : decodeUnitsOnto? done bytes = some us) :
    ∃ more, us = done.reverse ++ more ∧ Spells Form more bytes := by
  fun_induction decodeUnitsOnto? done bytes generalizing us with
  | case1 done =>
    cases h
    exact ⟨[], (List.append_nil _).symm, .nil⟩
  | case3 done a rest n hlt h0 =>
    rename_i ih
    obtain ⟨more, rfl, hspells⟩ := ih h
    refine ⟨_ :: more, ?_, .cons (form_one_byte (Nat.pos_of_ne_zero h0) hlt) hspells⟩
    rw [List.reverse_cons, List.append_assoc, List.singleton_append]
  | case5 done a n h1 h2 h3 b rest hb =>
    rename_i ih
    obtain ⟨more, rfl, hspells⟩ := ih h
    refine ⟨_ :: more, ?_, .cons (form_two_bytes (by omega) hb) hspells⟩
    rw [List.reverse_cons, List.append_assoc, List.singleton_append]
  | case8 done a n h1 h2 h3 h4 b c rest hb =>
    rename_i ih
    obtain ⟨more, rfl, hspells⟩ := ih h
    rw [Bool.and_eq_true] at hb
    refine ⟨_ :: more, ?_, .cons (form_three_bytes (by omega) hb.1 hb.2) hspells⟩
    rw [List.reverse_cons, List.append_assoc, List.singleton_append]
  | case2 | case4 | case6 | case7 | case9 | case10 | case11 => cases h

/-- **What is read are the units that the bytes spell**, whatever forms the bytes use. -/
theorem decodeUnits?_eq_some_iff : decodeUnits? bytes = some us ↔ Spells Form us bytes := by
  constructor
  · intro h
    obtain ⟨more, rfl, hspells⟩ := exists_spells_of_decodeUnitsOnto? h
    exact hspells
  · exact fun h => h.decodeUnitsOnto? []

/-- Units read back from their bytes. -/
@[simp]
theorem decodeUnits?_flatMap_unitBytes (us : List UInt16) :
    decodeUnits? (us.flatMap unitBytes) = some us :=
  decodeUnits?_eq_some_iff.mpr (spells_shortest_iff.mpr rfl).form_of_shortest

end ClassAtlas.Text
