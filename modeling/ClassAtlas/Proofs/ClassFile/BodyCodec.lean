import Mathlib
import ClassAtlas.ClassFile.Decode
import ClassAtlas.Proofs.ClassFile.Tree
import ClassAtlas.Proofs.Bytes.Reading

/-!
# Annotations and flat bodies and their bytes

An annotation, or the body of an attribute that holds no further attributes, can be written if its
tables fit their counts and its tags select the shape that it has. Readers accept exactly the bytes
of such parts.

## Main definitions

* `ClassAtlas.ElementValue.Fits`, `ClassAtlas.AnnotationUse.Fits`,
  `ClassAtlas.TypeAnnotationUse.Fits` — annotations that can be written.
* `ClassAtlas.FlatBody.Fits`, `ClassAtlas.FlatBody.NamedBy` — bodies that can be written, and the
  names of attributes that have them.

## Main results

* `ClassAtlas.ElementValue.read_eq_ok_iff`, `ClassAtlas.AnnotationUse.read_eq_ok_iff`,
  `ClassAtlas.TypeAnnotationUse.read_eq_ok_iff` — readers of annotations.
* `ClassAtlas.FlatBody.read_eq_ok_iff` — readers of bodies.
* `ClassAtlas.FlatBody.Fits.length_encode` — a body is no deeper than it is long.

## Design

Readers of trees recurse on a bound on the depth, and so do the conditions on trees. A tree that
fits some bound also fits the number of its bytes, which is below the bound that readers start with.
-/

set_option autoImplicit false

namespace ClassAtlas

open Bytes

/-! ### Annotations -/

/-- A value without others that can be written: a constant needs the tag of its type. -/
def ElementLeaf.Fits : ElementLeaf → Prop
  | const tag _ => tag ∈ constTags
  | _ => True

/-- A value that can be written if `inner` says so of the values directly inside it. -/
def ElementValue.FitsOver (inner : ElementValue → Prop) : ElementValue → Prop
  | leaf value => value.Fits
  | nested value => value.elements.length < 65536 ∧ ∀ pair ∈ value.elements, inner pair.value
  | array values => values.length < 65536 ∧ ∀ value ∈ values, inner value

/-- A value of at most the given depth that can be written. -/
def ElementValue.Fits : Nat → ElementValue → Prop
  | 0 => fun _ => False
  | depth + 1 => FitsOver (Fits depth)

/-- An annotation whose values have at most the given depth and that can be written. -/
def AnnotationUse.Fits (depth : Nat) (a : AnnotationUse) : Prop :=
  a.elements.length < 65536 ∧ ∀ pair ∈ a.elements, pair.value.Fits depth

section Annotations

variable {bytes rest : List UInt8}

/-- A reader of pairs accepts exactly the bytes of pairs whose values its inner reader accepts. -/
lemma ElementPair.read_eq_ok_iff {inner : Reader ElementValue} {valid : ElementValue → Prop}
    (h : ∀ {bytes v rest}, inner bytes = .ok (v, rest) ↔ valid v ∧ bytes = v.encode ++ rest)
    {pair : ElementPair} :
    (do return ⟨← Reader.u2, ← inner⟩ : Reader ElementPair) bytes = .ok (pair, rest) ↔
      valid pair.value ∧ bytes = pair.encode ++ rest := by
  obtain ⟨name, value⟩ := pair
  simp only [Reader.bind_eq_ok_iff, Reader.u2_eq_ok_iff, Reader.pure_eq_ok_iff, h, encode,
    List.append_assoc, ElementPair.mk.injEq]
  constructor
  · rintro ⟨_, _, rfl, _, _, ⟨hv, rfl⟩, ⟨rfl, rfl⟩, rfl⟩
    exact ⟨hv, rfl⟩
  · rintro ⟨hv, rfl⟩
    exact ⟨_, _, rfl, _, _, ⟨hv, rfl⟩, ⟨rfl, rfl⟩, rfl⟩

/-- A reader of values accepts exactly the bytes of values whose parts its inner reader accepts. -/
lemma ElementValue.readTagged_eq_ok_iff {inner : Reader ElementValue} {valid : ElementValue → Prop}
    (h : ∀ {bytes v rest}, inner bytes = .ok (v, rest) ↔ valid v ∧ bytes = v.encode ++ rest)
    {v : ElementValue} :
    (do readTagged inner (← Reader.u1)) bytes = .ok (v, rest) ↔
      v.FitsOver valid ∧ bytes = v.encode ++ rest := by
  simp only [Reader.bind_eq_ok_iff, Reader.u1_eq_ok_iff]
  constructor
  · rintro ⟨tag, mid, rfl, hr⟩
    unfold readTagged at hr
    split_ifs at hr with hc he hi hn hy
    · simp only [Reader.bind_eq_ok_iff, Reader.u2_eq_ok_iff, Reader.pure_eq_ok_iff] at hr
      obtain ⟨index, _, rfl, rfl, rfl⟩ := hr
      exact ⟨hc, rfl⟩
    · simp only [Reader.bind_eq_ok_iff, Reader.u2_eq_ok_iff, Reader.pure_eq_ok_iff] at hr
      obtain ⟨type, _, rfl, name, _, rfl, rfl, rfl⟩ := hr
      exact ⟨trivial, by simp [encode, ElementLeaf.encode, he]⟩
    · simp only [Reader.bind_eq_ok_iff, Reader.u2_eq_ok_iff, Reader.pure_eq_ok_iff] at hr
      obtain ⟨index, _, rfl, rfl, rfl⟩ := hr
      exact ⟨trivial, by simp [encode, ElementLeaf.encode, hi]⟩
    · simp only [Reader.bind_eq_ok_iff, Reader.u2_eq_ok_iff, Reader.pure_eq_ok_iff,
        Reader.table_eq_ok_iff (ElementPair.read_eq_ok_iff h)] at hr
      obtain ⟨type, _, rfl, elements, _, ⟨hv, rfl⟩, rfl, rfl⟩ := hr
      exact ⟨hv, by simp [encode, AnnotationUse.encode_mk, hn]⟩
    · simp only [Reader.bind_eq_ok_iff, Reader.table_eq_ok_iff h, Reader.pure_eq_ok_iff] at hr
      obtain ⟨values, _, ⟨hv, rfl⟩, rfl, rfl⟩ := hr
      exact ⟨hv, by simp [encode_array, hy]⟩
    · simp at hr
  · rintro ⟨hv, rfl⟩
    cases v with
    | leaf value =>
      cases value with
      | const tag index =>
        have ht : tag ∈ ElementLeaf.constTags := hv
        refine ⟨tag, u2 index ++ rest, rfl, ?_⟩
        simp [readTagged, ht]
      | enumConst type name =>
        refine ⟨0x65, u2 type ++ (u2 name ++ rest), by simp [encode, ElementLeaf.encode], ?_⟩
        simp [readTagged, ElementLeaf.constTags]
      | classInfo descriptor =>
        refine ⟨0x63, u2 descriptor ++ rest, by simp [encode, ElementLeaf.encode], ?_⟩
        simp [readTagged, ElementLeaf.constTags]
    | nested value =>
      obtain ⟨type, elements⟩ := value
      refine ⟨0x40, u2 type ++ (table ElementPair.encode elements ++ rest),
        by simp [encode, AnnotationUse.encode_mk], ?_⟩
      rw [readTagged, if_neg (by decide), if_neg (by decide), if_neg (by decide), if_pos rfl]
      simp only [Reader.bind_eq_ok_iff, Reader.u2_eq_ok_iff, Reader.pure_eq_ok_iff,
        Reader.table_eq_ok_iff (ElementPair.read_eq_ok_iff h)]
      exact ⟨type, _, rfl, elements, _, ⟨hv, rfl⟩, rfl, rfl⟩
    | array values =>
      refine ⟨0x5B, table encode values ++ rest, by simp [encode_array], ?_⟩
      simp [readTagged, ElementLeaf.constTags, Reader.table_eq_ok_iff h]
      exact hv

/-- **Readers of element values** accept exactly the bytes of values of at most the given depth. -/
theorem ElementValue.read_eq_ok_iff {depth : Nat} {v : ElementValue} {bytes rest : List UInt8} :
    read depth bytes = .ok (v, rest) ↔ v.Fits depth ∧ bytes = v.encode ++ rest := by
  induction depth generalizing v bytes rest with
  | zero => simp [read, Fits]
  | succ depth ih => exact readTagged_eq_ok_iff ih

/-- Readers of annotations accept exactly the bytes of annotations whose values have at most the
given depth. -/
theorem AnnotationUse.read_eq_ok_iff {depth : Nat} {a : AnnotationUse} {bytes rest : List UInt8} :
    read depth bytes = .ok (a, rest) ↔ a.Fits depth ∧ bytes = a.encode ++ rest := by
  obtain ⟨type, elements⟩ := a
  simp only [read, Reader.bind_eq_ok_iff, Reader.u2_eq_ok_iff, Reader.pure_eq_ok_iff,
    Reader.table_eq_ok_iff (ElementPair.read_eq_ok_iff ElementValue.read_eq_ok_iff),
    encode_mk, List.append_assoc, mk.injEq]
  constructor
  · rintro ⟨_, _, rfl, _, _, ⟨hv, rfl⟩, ⟨rfl, rfl⟩, rfl⟩
    exact ⟨hv, rfl⟩
  · rintro ⟨hv, rfl⟩
    exact ⟨_, _, rfl, _, _, ⟨hv, rfl⟩, ⟨rfl, rfl⟩, rfl⟩

/-- The bytes that say where a use of a type of the given kind is. -/
def TypeAnnotationUse.PlaceFits (targetType : UInt8) (place : List UInt8) : Prop :=
  let n := targetType.toNat
  if n = 0x00 ∨ n = 0x01 ∨ n = 0x16 then place.length = 1
  else if 0x10 ≤ n ∧ n ≤ 0x12 ∨ n = 0x17 ∨ 0x42 ≤ n ∧ n ≤ 0x46 then place.length = 2
  else if 0x13 ≤ n ∧ n ≤ 0x15 then place = []
  else if n = 0x40 ∨ n = 0x41 then
    ∃ (ranges : UInt16) (taken : List UInt8),
      taken.length = ranges.toNat * 6 ∧ place = u2 ranges ++ taken
  else 0x47 ≤ n ∧ n ≤ 0x4B ∧ place.length = 3

/-- An annotation of a use of a type, whose values have at most the given depth, that can be
written: its target is a place of its kind and a path of steps of two bytes each. -/
def TypeAnnotationUse.Fits (depth : Nat) (a : TypeAnnotationUse) : Prop :=
  (∃ (place : List UInt8) (steps : UInt8) (path : List UInt8), PlaceFits a.targetType place ∧
    path.length = steps.toNat * 2 ∧ a.target = place ++ steps :: path) ∧ a.use.Fits depth

lemma TypeAnnotationUse.readTarget_eq_ok_iff {targetType : UInt8} {place : List UInt8} :
    readTarget targetType bytes = .ok (place, rest) ↔
      PlaceFits targetType place ∧ bytes = place ++ rest := by
  simp only [readTarget, PlaceFits]
  split_ifs
  · simp
  · simp
  · simp only [Reader.pure_eq_ok_iff]
    constructor
    · rintro ⟨rfl, rfl⟩
      exact ⟨rfl, rfl⟩
    · rintro ⟨rfl, rfl⟩
      exact ⟨rfl, rfl⟩
  · simp only [Reader.bind_eq_ok_iff, Reader.u2_eq_ok_iff, Reader.slice_eq_ok_iff,
      Reader.pure_eq_ok_iff]
    constructor
    · rintro ⟨ranges, _, rfl, taken, _, ⟨ht, rfl⟩, rfl, rfl⟩
      exact ⟨⟨ranges, taken, ht, rfl⟩, by simp⟩
    · rintro ⟨⟨ranges, taken, ht, rfl⟩, rfl⟩
      exact ⟨ranges, _, List.append_assoc _ _ _, taken, _, ⟨ht, rfl⟩, rfl, rfl⟩
  · rename_i h
    simp [h]
  · rename_i h
    simp only [Reader.fail_ne_ok, false_iff, not_and]
    omega

/-- Readers of annotations of uses of types accept exactly their bytes. -/
theorem TypeAnnotationUse.read_eq_ok_iff {depth : Nat} {a : TypeAnnotationUse} :
    read depth bytes = .ok (a, rest) ↔ a.Fits depth ∧ bytes = a.encode ++ rest := by
  obtain ⟨targetType, target, use⟩ := a
  simp only [read, Fits, Reader.bind_eq_ok_iff, Reader.u1_eq_ok_iff, Reader.slice_eq_ok_iff,
    readTarget_eq_ok_iff, AnnotationUse.read_eq_ok_iff, Reader.pure_eq_ok_iff, encode,
    List.cons_append, List.append_assoc, mk.injEq]
  constructor
  · rintro ⟨_, _, rfl, place, _, ⟨hp, rfl⟩, steps, _, rfl, path, _, ⟨hl, rfl⟩, _, _, ⟨hu, rfl⟩,
      ⟨rfl, rfl, rfl⟩, rfl⟩
    exact ⟨⟨⟨place, steps, path, hp, hl, rfl⟩, hu⟩, by simp⟩
  · rintro ⟨⟨⟨place, steps, path, hp, hl, rfl⟩, hu⟩, rfl⟩
    exact ⟨_, _, rfl, place, _, ⟨hp, by simp⟩, steps, _, rfl, path, _, ⟨hl, rfl⟩, _, _,
      ⟨hu, rfl⟩, ⟨rfl, rfl, rfl⟩, rfl⟩

end Annotations

/-! ### The depth of annotations -/

lemma ElementValue.FitsOver.mono {inner inner' : ElementValue → Prop} {v : ElementValue}
    (h : ∀ v, inner v → inner' v) (hv : v.FitsOver inner) : v.FitsOver inner' := by
  cases v with
  | leaf value => exact hv
  | nested value => exact ⟨hv.1, fun pair hp => h _ (hv.2 pair hp)⟩
  | array values => exact ⟨hv.1, fun value hp => h _ (hv.2 value hp)⟩

/-- A value of at most some depth has at most any greater one. -/
lemma ElementValue.Fits.mono {d d' : Nat} {v : ElementValue} (hd : d ≤ d') (h : v.Fits d) :
    v.Fits d' := by
  induction d generalizing v d' with
  | zero => exact h.elim
  | succ d ih =>
    cases d' with
    | zero => omega
    | succ d' => exact FitsOver.mono (fun v hv => ih (by omega) hv) h

/-- A member of a list is written in no more bytes than the list. -/
lemma length_encode_le_flatMap {α : Type} (encode : α → List UInt8) {items : List α} {a : α}
    (ha : a ∈ items) : (encode a).length ≤ (items.flatMap encode).length := by
  rw [List.length_flatMap]
  exact List.single_le_sum (by simp) _ (List.mem_map_of_mem ha)

/-- A value is written in no more bytes than the table of pairs that it stands in. -/
lemma ElementPair.length_encode_value_le {pair : ElementPair} {pairs : List ElementPair}
    (hp : pair ∈ pairs) : pair.value.encode.length ≤ (table encode pairs).length := by
  have hle := length_encode_le_flatMap encode hp
  obtain ⟨name, value⟩ := pair
  simp only [encode, table, List.length_append, length_u2] at hle ⊢
  omega

/-- The depth of a value is at most the number of its bytes: each level has a byte of its own. -/
lemma ElementValue.Fits.length_encode {d : Nat} {v : ElementValue} (h : v.Fits d) :
    v.Fits v.encode.length := by
  induction v using ElementValue.induction generalizing d with
  | leaf value =>
    cases d with
    | zero => exact h.elim
    | succ d => cases value <;> exact h
  | nested type elements ih =>
    cases d with
    | zero => exact h.elim
    | succ d =>
      rw [encode, AnnotationUse.encode_mk]
      refine ⟨h.1, fun pair (hp : pair ∈ elements) => (ih pair hp (h.2 pair hp)).mono ?_⟩
      have hle := ElementPair.length_encode_value_le hp
      rw [List.length_append]
      omega
  | array values ih =>
    cases d with
    | zero => exact h.elim
    | succ d =>
      rw [encode_array]
      refine ⟨h.1, fun value hp => (ih value hp (h.2 value hp)).mono ?_⟩
      have hle := length_encode_le_flatMap encode hp
      simp only [table, List.length_append, length_u2]
      omega

/-- The depth of the values of an annotation is at most the number of its bytes. -/
lemma AnnotationUse.Fits.length_encode {d : Nat} {a : AnnotationUse} (h : a.Fits d) :
    a.Fits a.encode.length := by
  obtain ⟨type, elements⟩ := a
  refine ⟨h.1, fun pair (hp : pair ∈ elements) => ((h.2 pair hp).length_encode).mono ?_⟩
  have hle := ElementPair.length_encode_value_le hp
  rw [AnnotationUse.encode_mk, List.length_append]
  omega

lemma AnnotationUse.Fits.mono {d d' : Nat} {a : AnnotationUse} (hd : d ≤ d') (h : a.Fits d) :
    a.Fits d' :=
  ⟨h.1, fun pair hp => (h.2 pair hp).mono hd⟩

/-! ### Bodies without further attributes -/

/-- A body whose tables fit their counts and whose annotations have at most the given depth. -/
def FlatBody.Fits (depth : Nat) : FlatBody → Prop
  | signature _ | enclosingMethod _ _ | nestHost _ | raw _ => True
  | annotations values => values.length < 65536 ∧ ∀ a ∈ values, a.Fits depth
  | parameterAnnotations values =>
    values.length < 256 ∧ ∀ v ∈ values, v.length < 65536 ∧ ∀ a ∈ v, a.Fits depth
  | annotationDefault value => value.Fits depth
  | bootstrapMethods methods =>
    methods.length < 65536 ∧ ∀ m ∈ methods, m.arguments.length < 65536
  | localVariables entries => entries.length < 65536
  | classes indices => indices.length < 65536
  | innerClasses entries => entries.length < 65536
  | typeAnnotations values => values.length < 65536 ∧ ∀ a ∈ values, a.Fits depth

/-- Whether an attribute of the given name has a body of this shape. -/
def FlatBody.NamedBy (name : String) : FlatBody → Prop
  | signature _ => name = "Signature"
  | annotations _ => name = "RuntimeVisibleAnnotations" ∨ name = "RuntimeInvisibleAnnotations"
  | parameterAnnotations _ =>
    name = "RuntimeVisibleParameterAnnotations" ∨ name = "RuntimeInvisibleParameterAnnotations"
  | annotationDefault _ => name = "AnnotationDefault"
  | bootstrapMethods _ => name = "BootstrapMethods"
  | localVariables _ => name = "LocalVariableTable" ∨ name = "LocalVariableTypeTable"
  | enclosingMethod _ _ => name = "EnclosingMethod"
  | classes _ => name = "Exceptions" ∨ name = "NestMembers" ∨ name = "PermittedSubclasses"
  | nestHost _ => name = "NestHost"
  | innerClasses _ => name = "InnerClasses"
  | typeAnnotations _ =>
    name = "RuntimeVisibleTypeAnnotations" ∨ name = "RuntimeInvisibleTypeAnnotations"
  | raw _ => name ≠ "Code" ∧ name ≠ "Record" ∧ reader? name 0 = none

section FlatBodies

variable {bytes rest : List UInt8}

lemma index_read_eq_ok_iff {n : UInt16} :
    Reader.u2 bytes = .ok (n, rest) ↔ True ∧ bytes = u2 n ++ rest := by
  rw [Reader.u2_eq_ok_iff, true_and]

lemma BootstrapMethod.read_eq_ok_iff {m : BootstrapMethod} :
    read bytes = .ok (m, rest) ↔ m.arguments.length < 65536 ∧ bytes = m.encode ++ rest := by
  obtain ⟨method, arguments⟩ := m
  simp only [read, encode, Reader.bind_eq_ok_iff, Reader.u2_eq_ok_iff, Reader.pure_eq_ok_iff,
    Reader.table_eq_ok_iff index_read_eq_ok_iff, mk.injEq, List.append_assoc]
  constructor
  · rintro ⟨_, _, rfl, _, _, ⟨⟨hl, -⟩, rfl⟩, ⟨rfl, rfl⟩, rfl⟩
    exact ⟨hl, rfl⟩
  · rintro ⟨hl, rfl⟩
    exact ⟨_, _, rfl, _, _, ⟨⟨hl, fun _ _ => trivial⟩, rfl⟩, ⟨rfl, rfl⟩, rfl⟩

lemma LocalVariable.read_eq_ok_iff {v : LocalVariable} :
    read bytes = .ok (v, rest) ↔ True ∧ bytes = v.encode ++ rest := by
  obtain ⟨start, length, name, descriptor, slot⟩ := v
  simp only [read, encode, Reader.bind_eq_ok_iff, Reader.u2_eq_ok_iff, Reader.pure_eq_ok_iff,
    mk.injEq, List.append_assoc, true_and]
  constructor
  · rintro ⟨_, _, rfl, _, _, rfl, _, _, rfl, _, _, rfl, _, _, rfl, ⟨rfl, rfl, rfl, rfl, rfl⟩, rfl⟩
    rfl
  · rintro rfl
    exact ⟨_, _, rfl, _, _, rfl, _, _, rfl, _, _, rfl, _, _, rfl, ⟨rfl, rfl, rfl, rfl, rfl⟩, rfl⟩

lemma InnerClass.read_eq_ok_iff {c : InnerClass} :
    read bytes = .ok (c, rest) ↔ True ∧ bytes = c.encode ++ rest := by
  obtain ⟨inner, outer, name, flags⟩ := c
  simp only [read, encode, Reader.bind_eq_ok_iff, Reader.u2_eq_ok_iff, Reader.pure_eq_ok_iff,
    mk.injEq, List.append_assoc, true_and]
  constructor
  · rintro ⟨_, _, rfl, _, _, rfl, _, _, rfl, _, _, rfl, ⟨rfl, rfl, rfl, rfl⟩, rfl⟩
    rfl
  · rintro rfl
    exact ⟨_, _, rfl, _, _, rfl, _, _, rfl, _, _, rfl, ⟨rfl, rfl, rfl, rfl⟩, rfl⟩

lemma ExceptionHandler.read_eq_ok_iff {h : ExceptionHandler} :
    read bytes = .ok (h, rest) ↔ True ∧ bytes = h.encode ++ rest := by
  obtain ⟨start, stop, handler, catchType⟩ := h
  simp only [read, encode, Reader.bind_eq_ok_iff, Reader.u2_eq_ok_iff, Reader.pure_eq_ok_iff,
    mk.injEq, List.append_assoc, true_and]
  constructor
  · rintro ⟨_, _, rfl, _, _, rfl, _, _, rfl, _, _, rfl, ⟨rfl, rfl, rfl, rfl⟩, rfl⟩
    rfl
  · rintro rfl
    exact ⟨_, _, rfl, _, _, rfl, _, _, rfl, _, _, rfl, ⟨rfl, rfl, rfl, rfl⟩, rfl⟩

/-- Whether attributes of some name are kept as raw bytes does not depend on the depth. -/
lemma FlatBody.reader?_eq_none_iff {name : String} {depth depth' : Nat} :
    reader? name depth = none ↔ reader? name depth' = none := by
  unfold reader?
  split <;> simp_all

/-- A reader wrapped into a body accepts exactly what the reader accepts. -/
lemma wrapped_read_eq_ok_iff {α β : Type} {reader : Reader α} {valid : α → Prop}
    {encode : α → List UInt8} {wrap : α → β}
    (h : ∀ {bytes a rest}, reader bytes = .ok (a, rest) ↔ valid a ∧ bytes = encode a ++ rest)
    {b : β} :
    (do return wrap (← reader)) bytes = .ok (b, rest) ↔
      ∃ a, wrap a = b ∧ valid a ∧ bytes = encode a ++ rest := by
  simp only [Reader.bind_eq_ok_iff, h, Reader.pure_eq_ok_iff]
  constructor
  · rintro ⟨a, _, ⟨ha, rfl⟩, rfl, rfl⟩
    exact ⟨a, rfl, ha, rfl⟩
  · rintro ⟨a, rfl, ha, rfl⟩
    exact ⟨a, _, ⟨ha, rfl⟩, rfl, rfl⟩

/-- A reader of lists behind a byte that counts them accepts exactly as many valid lists. -/
lemma counted_read_eq_ok_iff {α β : Type} {reader : Reader α} {valid : α → Prop}
    {encode : α → List UInt8} {wrap : List α → β}
    (h : ∀ {bytes a rest}, reader bytes = .ok (a, rest) ↔ valid a ∧ bytes = encode a ++ rest)
    {b : β} :
    (do let count ← Reader.u1; return wrap (← Reader.replicate count.toNat reader)) bytes =
        .ok (b, rest) ↔
      ∃ items, wrap items = b ∧ (items.length < 256 ∧ ∀ a ∈ items, valid a) ∧
        bytes = (UInt8.ofNat items.length :: items.flatMap encode) ++ rest := by
  simp only [Reader.bind_eq_ok_iff, Reader.u1_eq_ok_iff, Reader.replicate_eq_ok_iff h,
    Reader.pure_eq_ok_iff]
  constructor
  · rintro ⟨count, _, rfl, items, _, ⟨hn, hi, rfl⟩, rfl, rfl⟩
    refine ⟨items, rfl, ⟨?_, hi⟩, ?_⟩
    · rw [hn]
      exact count.toNat_lt
    · rw [hn, UInt8.ofNat_toNat, List.cons_append]
  · rintro ⟨items, rfl, ⟨hn, hi⟩, rfl⟩
    exact ⟨_, _, rfl, items, _, ⟨(UInt8.toNat_ofNat_of_lt' hn).symm, hi, rfl⟩, rfl, rfl⟩

/-- **The reader for attributes of some name** accepts exactly the bytes of bodies of that shape. -/
theorem FlatBody.read_eq_ok_iff {name : String} {depth : Nat} {reader : Reader FlatBody}
    (h : reader? name depth = some reader) {body : FlatBody} :
    reader bytes = .ok (body, rest) ↔
      (body.NamedBy name ∧ body.Fits depth) ∧ bytes = body.encode ++ rest := by
  unfold reader? at h
  split at h <;> first | obtain rfl := Option.some.inj h | simp at h
  case h_1 =>
    rw [wrapped_read_eq_ok_iff index_read_eq_ok_iff]
    cases body <;> simp [NamedBy, Fits, encode, reader?]
  case h_2 | h_3 =>
    rw [wrapped_read_eq_ok_iff (Reader.table_eq_ok_iff AnnotationUse.read_eq_ok_iff)]
    cases body <;> simp [NamedBy, Fits, encode, reader?]
  case h_4 | h_5 =>
    rw [counted_read_eq_ok_iff (Reader.table_eq_ok_iff AnnotationUse.read_eq_ok_iff)]
    cases body <;> simp [NamedBy, Fits, encode, reader?]
  case h_6 =>
    rw [wrapped_read_eq_ok_iff ElementValue.read_eq_ok_iff]
    cases body <;> simp [NamedBy, Fits, encode, reader?]
  case h_7 =>
    rw [wrapped_read_eq_ok_iff (Reader.table_eq_ok_iff BootstrapMethod.read_eq_ok_iff)]
    cases body <;> simp [NamedBy, Fits, encode, reader?]
  case h_8 | h_9 =>
    rw [wrapped_read_eq_ok_iff (Reader.table_eq_ok_iff LocalVariable.read_eq_ok_iff)]
    cases body <;> simp [NamedBy, Fits, encode, reader?]
  case h_10 =>
    simp only [Reader.bind_eq_ok_iff, Reader.u2_eq_ok_iff, Reader.pure_eq_ok_iff]
    cases body <;> simp [NamedBy, Fits, encode, reader?]
  case h_11 | h_12 | h_13 =>
    rw [wrapped_read_eq_ok_iff (Reader.table_eq_ok_iff index_read_eq_ok_iff)]
    cases body <;> simp [NamedBy, Fits, encode, reader?]
  case h_14 =>
    rw [wrapped_read_eq_ok_iff index_read_eq_ok_iff]
    cases body <;> simp [NamedBy, Fits, encode, reader?]
  case h_15 =>
    rw [wrapped_read_eq_ok_iff (Reader.table_eq_ok_iff InnerClass.read_eq_ok_iff)]
    cases body <;> simp [NamedBy, Fits, encode, reader?]
  case h_16 | h_17 =>
    rw [wrapped_read_eq_ok_iff (Reader.table_eq_ok_iff TypeAnnotationUse.read_eq_ok_iff)]
    cases body <;> simp [NamedBy, Fits, encode, reader?]

end FlatBodies

/-- Attributes of method bodies have no flat body. -/
lemma FlatBody.not_namedBy_code {body : FlatBody} : ¬ body.NamedBy "Code" := by
  cases body <;> simp [NamedBy]

/-- Attributes of record components have no flat body. -/
lemma FlatBody.not_namedBy_record {body : FlatBody} : ¬ body.NamedBy "Record" := by
  cases body <;> simp [NamedBy]

/-- A body of an attribute whose name has no reader is the attribute's bytes. -/
lemma FlatBody.eq_raw_of_namedBy {name : String} {depth : Nat} (h : reader? name depth = none)
    {body : FlatBody} (hn : body.NamedBy name) : body = raw body.encode := by
  cases body
  case raw bytes => rfl
  all_goals
    simp only [NamedBy] at hn
    rcases hn with rfl | rfl | rfl <;> simp [reader?] at h

/-- A body fits the number of its bytes if it fits any bound. -/
lemma FlatBody.Fits.length_encode {d : Nat} {body : FlatBody} (h : body.Fits d) :
    body.Fits (body.encode.length + 1) := by
  cases body with
  | annotations values =>
    refine ⟨h.1, fun a ha => ((h.2 a ha).length_encode).mono ?_⟩
    have hle := length_encode_le_flatMap AnnotationUse.encode ha
    simp only [encode, table, List.length_append]
    omega
  | parameterAnnotations values =>
    refine ⟨h.1, fun v hv => ⟨(h.2 v hv).1, fun a ha => (((h.2 v hv).2 a ha).length_encode).mono ?_⟩⟩
    have hle := length_encode_le_flatMap AnnotationUse.encode ha
    have hle' := length_encode_le_flatMap (table AnnotationUse.encode) hv
    simp only [encode, table, List.length_append, List.length_cons] at hle' ⊢
    omega
  | annotationDefault value => exact (ElementValue.Fits.length_encode h).mono (Nat.le_succ _)
  | typeAnnotations values =>
    refine ⟨h.1, fun a ha => ⟨(h.2 a ha).1, ((h.2 a ha).2.length_encode).mono ?_⟩⟩
    have hle := length_encode_le_flatMap TypeAnnotationUse.encode ha
    simp only [encode, TypeAnnotationUse.encode, table, List.length_append, List.length_cons] at hle ⊢
    omega
  | _ => exact h

end ClassAtlas
