import Mathlib
import ClassAtlas.ClassFile.Encode
import ClassAtlas.ClassFile.Usage

/-!
# The trees inside a class file

Annotations and attributes nest through lists. Proofs about them go by one induction principle for
each of the two trees, which hands out the hypothesis for every tree directly inside the given one.
The functions on lists of trees are the usual functions on lists.

## Main results

* `ClassAtlas.ElementValue.induction`, `ClassAtlas.Attribute.induction` — induction on trees.
* `ClassAtlas.AnnotationUse.encode_mk`, `ClassAtlas.CodeBody.encode_eq`, … — the parts of a tree are
  written as tables.
* `ClassAtlas.AnnotationUse.uses_mk`, `ClassAtlas.CodeBody.uses_eq`, … — the findings in a tree are
  those in its parts.
-/

set_option autoImplicit false

namespace ClassAtlas

open Bytes

/-! ### Annotations -/

/-- Induction on a value of an annotation's element, with a hypothesis for every value inside it. -/
theorem ElementValue.induction {motive : ElementValue → Prop}
    (leaf : ∀ value, motive (.leaf value))
    (nested : ∀ type elements, (∀ pair ∈ elements, motive pair.value) →
      motive (.nested ⟨type, elements⟩))
    (array : ∀ values, (∀ value ∈ values, motive value) → motive (.array values)) :
    ∀ value, motive value
  | .leaf value => leaf value
  | .nested ⟨type, elements⟩ =>
    nested type elements fun pair _ => ElementValue.induction leaf nested array pair.value
  | .array values => array values fun value _ => ElementValue.induction leaf nested array value
termination_by value => sizeOf value
decreasing_by
  · rename_i hp
    have hlt := List.sizeOf_lt_of_mem hp
    have hv : sizeOf pair.value < sizeOf pair := by cases pair; simp
    simp
    omega
  · rename_i hv
    have hlt := List.sizeOf_lt_of_mem hv
    simp
    omega

theorem ElementPair.encodeList_eq (pairs : List ElementPair) :
    encodeList pairs = pairs.flatMap encode := by
  induction pairs with
  | nil => rfl
  | cons pair pairs ih => simp [encodeList, ih]

theorem ElementValue.encodeList_eq (values : List ElementValue) :
    encodeList values = values.flatMap encode := by
  induction values with
  | nil => rfl
  | cons value values ih => simp [encodeList, ih]

theorem AnnotationUse.encode_mk (type : UInt16) (elements : List ElementPair) :
    encode ⟨type, elements⟩ = u2 type ++ table ElementPair.encode elements := by
  simp [encode, table, ElementPair.encodeList_eq]

theorem ElementValue.encode_array (values : List ElementValue) :
    encode (.array values) = 0x5B :: table encode values := by
  simp [encode, table, ElementValue.encodeList_eq]

theorem ElementPair.usesList_eq (pairs : List ElementPair) :
    usesList pairs = pairs.flatMap uses := by
  induction pairs with
  | nil => rfl
  | cons pair pairs ih => simp [usesList, ih]

theorem ElementValue.usesList_eq (values : List ElementValue) :
    usesList values = values.flatMap uses := by
  induction values with
  | nil => rfl
  | cons value values ih => simp [usesList, ih]

theorem AnnotationUse.uses_mk (type : UInt16) (elements : List ElementPair) :
    uses ⟨type, elements⟩ = type :: elements.flatMap ElementPair.uses := by
  simp [uses, ElementPair.usesList_eq]

theorem ElementValue.uses_array (values : List ElementValue) :
    uses (.array values) = values.flatMap uses := by
  simp [uses, ElementValue.usesList_eq]

/-! ### Attributes -/

/-- Induction on an attribute, with a hypothesis for every attribute inside it. -/
theorem Attribute.induction {motive : Attribute → Prop}
    (flat : ∀ name body, motive ⟨name, .flat body⟩)
    (code : ∀ name body, (∀ a ∈ body.attributes, motive a) → motive ⟨name, .code body⟩)
    (record : ∀ name components, (∀ c ∈ components, ∀ a ∈ c.attributes, motive a) →
      motive ⟨name, .record components⟩) :
    ∀ a, motive a
  | ⟨name, .flat body⟩ => flat name body
  | ⟨name, .code body⟩ => code name body fun a _ => Attribute.induction flat code record a
  | ⟨name, .record components⟩ =>
    record name components fun _ _ a _ => Attribute.induction flat code record a
termination_by a => sizeOf a
decreasing_by
  · rename_i ha
    have hlt := List.sizeOf_lt_of_mem ha
    have hb : sizeOf body.attributes < sizeOf body := by
      cases body
      simp
    simp
    omega
  · rename_i c hc ha
    have hlt := List.sizeOf_lt_of_mem ha
    have hcs := List.sizeOf_lt_of_mem hc
    have hb : sizeOf c.attributes < sizeOf c := by
      cases c
      simp
    simp
    omega

theorem Attribute.encodeList_eq (attributes : List Attribute) :
    encodeList attributes = attributes.flatMap encode := by
  induction attributes with
  | nil => rfl
  | cons a attributes ih => simp [encodeList, ih]

theorem RecordComponent.encodeList_eq (components : List RecordComponent) :
    encodeList components = components.flatMap encode := by
  induction components with
  | nil => rfl
  | cons c components ih => simp [encodeList, ih]

theorem CodeBody.encode_eq (body : CodeBody) :
    body.encode = u2 body.maxStack ++ u2 body.maxLocals ++ u4 (UInt32.ofNat body.code.length) ++
      body.code ++ table ExceptionHandler.encode body.handlers ++
      table Attribute.encode body.attributes := by
  cases body
  simp [encode, table, Attribute.encodeList_eq]

theorem RecordComponent.encode_eq (c : RecordComponent) :
    c.encode = u2 c.name ++ u2 c.descriptor ++ table Attribute.encode c.attributes := by
  cases c
  simp [encode, table, Attribute.encodeList_eq]

theorem AttributeBody.encode_record (components : List RecordComponent) :
    encode (.record components) = table RecordComponent.encode components := by
  simp [encode, table, RecordComponent.encodeList_eq]

theorem Attribute.encode_mk (name : UInt16) (body : AttributeBody) :
    encode ⟨name, body⟩ = u2 name ++ u4 (UInt32.ofNat body.encode.length) ++ body.encode := by
  simp [encode]

theorem Attribute.usesList_eq (pool : Pool) (attributes : List Attribute) :
    usesList pool attributes = attributes.flatMap (uses pool) := by
  induction attributes with
  | nil => rfl
  | cons a attributes ih => simp [usesList, ih]

theorem RecordComponent.usesList_eq (pool : Pool) (components : List RecordComponent) :
    usesList pool components = components.flatMap (uses pool) := by
  induction components with
  | nil => rfl
  | cons c components ih => simp [usesList, ih]

theorem CodeBody.uses_eq (pool : Pool) (body : CodeBody) :
    body.uses pool = (Listing.ofCode body.code).uses ++
      body.handlers.map (fun h => .index h.catchType) ++
      body.attributes.flatMap (Attribute.uses pool) := by
  cases body
  simp [uses, Attribute.usesList_eq]

theorem RecordComponent.uses_eq (pool : Pool) (c : RecordComponent) :
    c.uses pool = .index c.name :: .index c.descriptor ::
      c.attributes.flatMap (Attribute.uses pool) := by
  cases c
  simp [uses, Attribute.usesList_eq]

theorem Attribute.uses_record (pool : Pool) (name : UInt16) (components : List RecordComponent) :
    uses pool ⟨name, .record components⟩ =
      .index name :: components.flatMap (RecordComponent.uses pool) := by
  simp [uses, AttributeBody.uses, RecordComponent.usesList_eq]

end ClassAtlas
