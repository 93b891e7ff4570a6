import ClassAtlas.Proofs.Text.Forms

/-!
# Modified UTF-8 reads back

Both steps of the coding lose nothing: the units of a text spell the text, and the bytes of units
spell the units. Decoding also accepts longer forms of a unit, so the way back holds for the shortest
forms only; what was decoded is never written longer than it was read.

## Main results

* `ClassAtlas.Text.ofUnits?_units`, `ClassAtlas.Text.units_of_ofUnits?` — texts are their units.
* `ClassAtlas.Text.decode_encode` — a text reads back from its bytes.
* `ClassAtlas.Text.length_encode_le` — a decoded text is written in no more bytes.
* `ClassAtlas.Text.decode_encode_and_shortest` — texts are written in the shortest forms.
-/

set_option autoImplicit false

namespace ClassAtlas.Text

/-! ### UTF-16 -/

/-- The number of a character is below the surrogates, or above them and in the range of Unicode. -/
lemma toNat_of_valid (c : Char) :
    c.toNat < 0xD800 ∨ 0xDFFF < c.toNat ∧ c.toNat < 0x110000 := by
  have h := c.valid
  simp only [UInt32.isValidChar, Nat.isValidChar] at h
  simp only [Char.toNat]
  omega

/-- One step of reading units: the units of a character are read as that character. -/
lemma ofUnitsOnto?_charUnits_append (done : List Char) (c : Char) (us : List UInt16) :
    ofUnitsOnto? done (charUnits c ++ us) = ofUnitsOnto? (c :: done) us := by
  have hc := toNat_of_valid c
  unfold charUnits
  by_cases h : c.toNat < 0x10000
  · have hn : (UInt16.ofNat c.toNat).toNat = c.toNat := UInt16.toNat_ofNat_of_lt' h
    have hh : isHigh (UInt16.ofNat c.toNat) = false := by
      simp only [isHigh, hn, Bool.and_eq_false_iff, decide_eq_false_iff_not]
      omega
    have hl : isLow (UInt16.ofNat c.toNat) = false := by
      simp only [isLow, hn, Bool.and_eq_false_iff, decide_eq_false_iff_not]
      omega
    simp only [h, if_true, List.cons_append, List.nil_append]
    rw [ofUnitsOnto?.eq_def]
    simp only [hh, hl, hn, Bool.false_eq_true, if_false, Char.ofNat_toNat]
  · -- a pair of surrogates: each half gives ten bits of the number above `0x10000`
    have hu : (UInt16.ofNat (0xD800 + (c.toNat - 0x10000) / 0x400)).toNat =
        0xD800 + (c.toNat - 0x10000) / 0x400 :=
      UInt16.toNat_ofNat_of_lt' (show _ < 65536 by omega)
    have hv : (UInt16.ofNat (0xDC00 + (c.toNat - 0x10000) % 0x400)).toNat =
        0xDC00 + (c.toNat - 0x10000) % 0x400 :=
      UInt16.toNat_ofNat_of_lt' (show _ < 65536 by omega)
    have hh : isHigh (UInt16.ofNat (0xD800 + (c.toNat - 0x10000) / 0x400)) = true := by
      simp only [isHigh, hu, Bool.and_eq_true, decide_eq_true_eq]
      omega
    have hl : isLow (UInt16.ofNat (0xDC00 + (c.toNat - 0x10000) % 0x400)) = true := by
      simp only [isLow, hv, Bool.and_eq_true, decide_eq_true_eq]
      omega
    have hn : 0x10000 + (0xD800 + (c.toNat - 0x10000) / 0x400 - 0xD800) * 0x400 +
        (0xDC00 + (c.toNat - 0x10000) % 0x400 - 0xDC00) = c.toNat := by
      omega
    simp only [h, if_false, List.cons_append, List.nil_append, ofUnitsOnto?, hh, hl, hu, hv,
      if_true, hn, Char.ofNat_toNat]

lemma ofUnitsOnto?_units (done text : List Char) :
    ofUnitsOnto? done (units text) = some (done.reverse ++ text) := by
  induction text generalizing done with
  | nil => simp [units, ofUnitsOnto?]
  | cons c text ih =>
    have hc : units (c :: text) = charUnits c ++ units text := rfl
    rw [hc, ofUnitsOnto?_charUnits_append, ih]
    simp

/-- A text reads back from its units. -/
@[simp]
theorem ofUnits?_units (text : List Char) : ofUnits? (units text) = some text :=
  ofUnitsOnto?_units [] text

/-- Reading units adds a text that has exactly these units. -/
lemma units_of_ofUnitsOnto? {done : List Char} {us : List UInt16} {text : List Char}
    (h : ofUnitsOnto? done us = some text) : ∃ more, text = done.reverse ++ more ∧ units more = us := by
  fun_induction ofUnitsOnto? done us generalizing text with
  | case1 done =>
    obtain rfl : done.reverse = text := by simpa using h
    exact ⟨[], by simp, rfl⟩
  | case2 done u hu v rest hv ih =>
    obtain ⟨more, rfl, rfl⟩ := ih h
    simp only [isHigh, Bool.and_eq_true, decide_eq_true_eq] at hu
    simp only [isLow, Bool.and_eq_true, decide_eq_true_eq] at hv
    set n := 0x10000 + (u.toNat - 0xD800) * 0x400 + (v.toNat - 0xDC00) with hn
    have hc : (Char.ofNat n).toNat = n := by
      rw [Char.toNat_ofNat, if_pos]
      exact Or.inr ⟨by omega, by omega⟩
    have h1 : UInt16.ofNat (0xD800 + (n - 0x10000) / 0x400) = u := by
      rw [show 0xD800 + (n - 0x10000) / 0x400 = u.toNat by omega, UInt16.ofNat_toNat]
    have h2 : UInt16.ofNat (0xDC00 + (n - 0x10000) % 0x400) = v := by
      rw [show 0xDC00 + (n - 0x10000) % 0x400 = v.toNat by omega, UInt16.ofNat_toNat]
    have hlt : ¬ n < 0x10000 := by omega
    refine ⟨Char.ofNat n :: more, by simp, ?_⟩
    show charUnits (Char.ofNat n) ++ units more = _
    simp only [charUnits, hc, hlt, if_false, h1, h2, List.cons_append, List.nil_append]
  | case3 => simp at h
  | case4 => simp at h
  | case5 => simp at h
  | case6 done u us hu hl ih =>
    obtain ⟨more, rfl, rfl⟩ := ih h
    have hlt := u.toNat_lt
    simp only [isHigh, Bool.and_eq_true, decide_eq_true_eq] at hu
    simp only [isLow, Bool.and_eq_true, decide_eq_true_eq] at hl
    have hc : (Char.ofNat u.toNat).toNat = u.toNat := by
      rw [Char.toNat_ofNat, if_pos]
      exact if hs : u.toNat < 0xD800 then Or.inl hs else Or.inr ⟨by omega, by omega⟩
    refine ⟨Char.ofNat u.toNat :: more, by simp, ?_⟩
    show charUnits (Char.ofNat u.toNat) ++ units more = _
    have h16 : u.toNat < 0x10000 := hlt
    simp only [charUnits, hc, h16, if_true, UInt16.ofNat_toNat, List.cons_append, List.nil_append]

/-- The units that spell a text are its units. -/
theorem units_of_ofUnits? {us : List UInt16} {text : List Char} (h : ofUnits? us = some text) :
    units text = us := by
  obtain ⟨more, rfl, hm⟩ := units_of_ofUnitsOnto? h
  simpa using hm

/-! ### The two steps together -/

/-- A text reads back from its bytes. -/
@[simp]
theorem decode_encode (text : String) : decode (encode text) = .ok text := by
  simp [decode, encode]

/-- Bytes that are decoded spell the units of the text. -/
theorem spells_of_decode {bytes : List UInt8} {text : String} (h : decode bytes = .ok text) :
    Spells Form (units text.toList) bytes := by
  unfold decode at h
  split at h
  · rename_i chars hc
    obtain ⟨us, hus, hchars⟩ := Option.bind_eq_some_iff.mp hc
    obtain rfl : String.ofList chars = text := by simpa using h
    rw [String.toList_ofList, units_of_ofUnits? hchars]
    exact decodeUnits?_eq_some_iff.mp hus
  · cases h

/-- A text is spelled in the shortest forms by the bytes in which it is written only. -/
theorem spells_shortest_units_iff {bytes : List UInt8} {text : String} :
    Spells IsShortestForm (units text.toList) bytes ↔ encode text = bytes :=
  spells_shortest_iff.trans eq_comm

/-- A decoded text is written in no more bytes than it was read from. -/
theorem length_encode_le {bytes : List UInt8} {text : String} (h : decode bytes = .ok text) :
    (encode text).length ≤ bytes.length :=
  (spells_of_decode h).length_flatMap_unitBytes_le

/-- **Texts are written in the shortest forms.** Every text reads back from its bytes, none of which is
zero or `0xF0` or above. Bytes from which a text is read spell its units, with whatever forms; the text
is written in no more bytes, and in the same bytes if and only if each of the forms is the shortest one.
That of zero is `0xC0 0x80`. -/
theorem decode_encode_and_shortest :
    (∀ text : String, decode (encode text) = .ok text ∧ ∀ b ∈ encode text, b ≠ 0 ∧ b < 0xF0) ∧
      (∀ form, IsShortestForm 0 form ↔ form = [0xC0, 0x80]) ∧
      ∀ (bytes : List UInt8) (text : String), decode bytes = .ok text →
        Spells Form (units text.toList) bytes ∧ (encode text).length ≤ bytes.length ∧
          (encode text = bytes ↔ Spells IsShortestForm (units text.toList) bytes) := by
  refine ⟨fun text => ⟨decode_encode text, ?_⟩, fun form => isShortestForm_iff, ?_⟩
  · exact (spells_shortest_units_iff.mpr rfl).form_of_shortest.byte_range
  · intro bytes text h
    exact ⟨spells_of_decode h, length_encode_le h, spells_shortest_units_iff.symm⟩

/-- The letter `A` in two bytes, zero in three, and a pair of surrogates: only the pair is spelled in
the shortest forms. -/
theorem decode_encode_and_shortest_overlong :
    decode [0xC1, 0x81, 0xE0, 0x80, 0x80, 0xED, 0xA0, 0xBD, 0xED, 0xB8, 0x80] =
        .ok "A\x00😀" ∧
      (encode "A\x00😀").length ≤ 11 ∧
      ¬Spells IsShortestForm (units "A\x00😀".toList)
        [0xC1, 0x81, 0xE0, 0x80, 0x80, 0xED, 0xA0, 0xBD, 0xED, 0xB8, 0x80] := by
  have h : decode [0xC1, 0x81, 0xE0, 0x80, 0x80, 0xED, 0xA0, 0xBD, 0xED, 0xB8, 0x80] =
      .ok "A\x00😀" := by cbv
  obtain ⟨-, hlength, hsame⟩ := decode_encode_and_shortest.2.2 _ _ h
  refine ⟨h, hlength, fun hshortest => ?_⟩
  have hne : encode "A\x00😀" ≠
      [0xC1, 0x81, 0xE0, 0x80, 0x80, 0xED, 0xA0, 0xBD, 0xED, 0xB8, 0x80] := by decide
  exact hne (hsame.mpr hshortest)

end ClassAtlas.Text
