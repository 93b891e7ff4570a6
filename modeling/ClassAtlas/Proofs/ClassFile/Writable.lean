import ClassAtlas.Proofs.ClassFile.Codec

/-!
# The class files that can be written

Readers recurse on a bound on the depth of annotations and attributes, and so do the conditions under
which they accept. Here the conditions are stated without bounds, constructor by constructor: every
table fits its count, every body fits its length, and every name, tag and target selects the shape
that stands behind it. The class files that satisfy them are those that are read back from their
bytes, and no others are ever read.

## Main definitions

* `ClassAtlas.Pool.Writable` — the layout of a pool, slot by slot.
* `ClassAtlas.ElementValue.Writable`, `ClassAtlas.FlatBody.Writable`, `ClassAtlas.Attribute.Writable`
  — annotations and attributes that can be written.
* `ClassAtlas.ClassFile.Writable` — class files that can be written.

## Main results

* `ClassAtlas.ClassFile.wellFormed_iff_writable` — the conditions with and without bounds agree.
* `ClassAtlas.ClassFile.decode_encode_and_writable` — what can be written reads back, and what is read
  can be written.
-/

set_option autoImplicit false

namespace ClassAtlas

open Bytes

/-! ### Pools -/

/-- A pool that can be written. -/
structure Pool.Writable (pool : Pool) : Prop where
  /-- Slot zero is unusable. -/
  zero : pool.slots[0]? = some none
  /-- The other unusable slots are exactly those behind a constant that takes two. -/
  unusable_iff : ∀ i : Nat, pool.slots[i + 1]? = some none ↔
    ∃ c, pool.slots[i]? = some (some c) ∧ c.isWide = true
  /-- The number of slots fits a two-byte word. -/
  size_le : pool.size ≤ 65535
  /-- The length of every text fits a two-byte word. -/
  texts : ∀ value, some (.text value) ∈ pool.slots.toList → (Text.encode value).length ≤ 65535

/-- Slots behind slot zero are in order if the first of them is usable and every other one is unusable
exactly behind a constant that takes two. -/
lemma Pool.laidOut_iff_getElem? {slots : List (Option Constant)} :
    LaidOut slots ↔ slots[0]? ≠ some none ∧
      ∀ i : Nat, slots[i + 1]? = some none ↔ ∃ c, slots[i]? = some (some c) ∧ c.isWide = true := by
  fun_induction LaidOut slots with
  | case1 => simp
  | case2 c slots ih =>
    rw [ih]
    constructor
    · rintro ⟨hc, hhead, htail⟩
      refine ⟨by simp, fun i => ?_⟩
      rcases i with _ | _ | i
      · simpa using hc
      · simpa using hhead
      · simpa using htail i
    · rintro ⟨-, h⟩
      have hhead := h 1
      refine ⟨by simpa using h 0, by simpa using hhead, fun i => by simpa using h (i + 2)⟩
  | case3 c slots hne ih =>
    rw [ih]
    have hnext : slots[0]? ≠ some none := by
      cases slots with
      | nil => simp
      | cons slot slots => cases slot with
        | none => exact absurd rfl (hne slots)
        | some d => simp
    constructor
    · rintro ⟨hc, -, htail⟩
      refine ⟨by simp, fun i => ?_⟩
      cases i with
      | zero => simpa [hc] using hnext
      | succ i => simpa using htail i
    · rintro ⟨-, h⟩
      have hc : ¬ c.isWide = true := by simpa [hnext] using h 0
      exact ⟨by simpa using hc, hnext, fun i => by simpa using h (i + 1)⟩
  | case4 slots => simp

/-- The two descriptions of pools that can be written agree. -/
theorem Pool.wellFormed_iff_writable {pool : Pool} : pool.WellFormed ↔ pool.Writable := by
  have hfits : (∀ c, some c ∈ pool.slots.toList → c.Fits) ↔
      ∀ value, some (.text value) ∈ pool.slots.toList → (Text.encode value).length ≤ 65535 := by
    constructor
    · exact fun h value hm => Nat.lt_succ_iff.mp (h _ hm)
    · intro h c hm
      cases c with
      | text value => exact Nat.lt_succ_iff.mpr (h value hm)
      | _ => trivial
  constructor
  · rintro ⟨⟨slots, hs, hl⟩, hsize, hf⟩
    obtain ⟨hhead, hbehind⟩ := laidOut_iff_getElem?.mp hl
    refine ⟨?_, fun i => ?_, hsize, hfits.mp hf⟩
    · rw [← Array.getElem?_toList, hs]
      rfl
    · rw [← Array.getElem?_toList, ← Array.getElem?_toList, hs]
      cases i with
      | zero => simpa using hhead
      | succ i => simpa using hbehind i
  · rintro ⟨hzero, hbehind, hsize, ht⟩
    simp only [← Array.getElem?_toList] at hzero hbehind
    refine ⟨?_, hsize, hfits.mpr ht⟩
    cases hs : pool.slots.toList with
    | nil => simp [hs] at hzero
    | cons slot slots =>
      rw [hs] at hzero hbehind
      obtain rfl : slot = none := by simpa using hzero
      have hhead := hbehind 0
      exact ⟨slots, rfl, laidOut_iff_getElem?.mpr
        ⟨by simpa using hhead, fun i => by simpa using hbehind (i + 1)⟩⟩

/-! ### Annotations -/

/-- A value of an annotation's element that can be written. -/
inductive ElementValue.Writable : ElementValue → Prop where
  /-- The tag of a constant is the one of its type. -/
  | leaf {value : ElementLeaf} (tag : value.Fits) : Writable (.leaf value)
  /-- The number of elements of an annotation fits a two-byte word. -/
  | nested {value : AnnotationUse} (elements_lt : value.elements.length < 65536)
      (values : ∀ pair ∈ value.elements, Writable pair.value) : Writable (.nested value)
  /-- The number of values of an array fits a two-byte word. -/
  | array {values : List ElementValue} (values_lt : values.length < 65536)
      (each : ∀ value ∈ values, Writable value) : Writable (.array values)

/-- An annotation that can be written. -/
def AnnotationUse.Writable (a : AnnotationUse) : Prop :=
  a.elements.length < 65536 ∧ ∀ pair ∈ a.elements, pair.value.Writable

/-- An annotation of a use of a type that can be written: its target is a place of its kind and a path
of steps of two bytes each. -/
def TypeAnnotationUse.Writable (a : TypeAnnotationUse) : Prop :=
  (∃ (place : List UInt8) (steps : UInt8) (path : List UInt8), PlaceFits a.targetType place ∧
    path.length = steps.toNat * 2 ∧ a.target = place ++ steps :: path) ∧ a.use.Writable

/-- Bounds for the members of a list have a common one. -/
lemma exists_common_bound {α : Type} (valid : Nat → α → Prop)
    (mono : ∀ {d d' : Nat} {a : α}, d ≤ d' → valid d a → valid d' a) {items : List α}
    (h : ∀ a ∈ items, ∃ d, valid d a) : ∃ d, ∀ a ∈ items, valid d a := by
  induction items with
  | nil => exact ⟨0, by simp⟩
  | cons a items ih =>
    obtain ⟨d, hd⟩ := h a List.mem_cons_self
    obtain ⟨d', hd'⟩ := ih fun b hb => h b (List.mem_cons_of_mem _ hb)
    refine ⟨max d d', fun b hb => ?_⟩
    rcases List.mem_cons.mp hb with rfl | hb
    · exact mono (le_max_left d d') hd
    · exact mono (le_max_right d d') (hd' b hb)

/-- If what is valid without a bound is valid within some bound, the members of a list are valid without
a bound if and only if they are within a common one. -/
lemma forall_mem_iff_exists_bound {α : Type} {valid : α → Prop} (validWithin : Nat → α → Prop)
    (mono : ∀ {d d' : Nat} {a : α}, d ≤ d' → validWithin d a → validWithin d' a)
    (h : ∀ a, valid a ↔ ∃ d, validWithin d a) (items : List α) :
    (∀ a ∈ items, valid a) ↔ ∃ d, ∀ a ∈ items, validWithin d a :=
  ⟨fun hv => exists_common_bound validWithin mono fun a ha => (h a).mp (hv a ha),
    fun ⟨d, hd⟩ a ha => (h a).mpr ⟨d, hd a ha⟩⟩

/-- A value can be written if and only if it fits some bound on the depth. -/
theorem ElementValue.writable_iff {v : ElementValue} : v.Writable ↔ ∃ d, v.Fits d := by
  constructor
  · intro h
    induction h with
    | leaf tag => exact ⟨1, tag⟩
    | @nested value elements_lt _ ih =>
      obtain ⟨d, hd⟩ := exists_common_bound (fun d (pair : ElementPair) => pair.value.Fits d) Fits.mono ih
      exact ⟨d + 1, elements_lt, hd⟩
    | array values_lt _ ih =>
      obtain ⟨d, hd⟩ := exists_common_bound Fits Fits.mono ih
      exact ⟨d + 1, values_lt, hd⟩
  · rintro ⟨d, h⟩
    induction d generalizing v with
    | zero => exact h.elim
    | succ d ih =>
      cases v with
      | leaf value => exact .leaf h
      | nested value => exact .nested h.1 fun pair hp => ih (h.2 pair hp)
      | array values => exact .array h.1 fun value hm => ih (h.2 value hm)

theorem AnnotationUse.writable_iff {a : AnnotationUse} : a.Writable ↔ ∃ d, a.Fits d := by
  have hpairs := forall_mem_iff_exists_bound (fun d (pair : ElementPair) => pair.value.Fits d)
    ElementValue.Fits.mono (fun _ => ElementValue.writable_iff) a.elements
  rw [Writable, hpairs]
  exact exists_and_left.symm

theorem AnnotationUse.forall_writable_iff {values : List AnnotationUse} :
    (∀ a ∈ values, a.Writable) ↔ ∃ d, ∀ a ∈ values, a.Fits d :=
  forall_mem_iff_exists_bound Fits Fits.mono (fun _ => writable_iff) values

theorem TypeAnnotationUse.writable_iff {a : TypeAnnotationUse} : a.Writable ↔ ∃ d, a.Fits d := by
  rw [Writable, AnnotationUse.writable_iff]
  exact exists_and_left.symm

/-! ### Bodies without further attributes -/

/-- A body without further attributes that can be written. -/
def FlatBody.Writable : FlatBody → Prop
  | signature _ | enclosingMethod _ _ | nestHost _ | raw _ => True
  | annotations values => values.length < 65536 ∧ ∀ a ∈ values, a.Writable
  | parameterAnnotations values =>
    values.length < 256 ∧ ∀ v ∈ values, v.length < 65536 ∧ ∀ a ∈ v, a.Writable
  | annotationDefault value => value.Writable
  | bootstrapMethods methods =>
    methods.length < 65536 ∧ ∀ m ∈ methods, m.arguments.length < 65536
  | localVariables entries => entries.length < 65536
  | classes indices => indices.length < 65536
  | innerClasses entries => entries.length < 65536
  | typeAnnotations values => values.length < 65536 ∧ ∀ a ∈ values, a.Writable

/-- A body can be written if and only if it fits some bound on the depth of annotations. -/
theorem FlatBody.writable_iff {body : FlatBody} : body.Writable ↔ ∃ d, body.Fits d := by
  cases body with
  | annotations values =>
    rw [Writable, AnnotationUse.forall_writable_iff]
    exact exists_and_left.symm
  | parameterAnnotations values =>
    have hvalues := forall_mem_iff_exists_bound
      (fun d (v : List AnnotationUse) => v.length < 65536 ∧ ∀ a ∈ v, a.Fits d)
      (fun hd h => ⟨h.1, fun a ha => (h.2 a ha).mono hd⟩)
      (fun _ => (and_congr_right' AnnotationUse.forall_writable_iff).trans exists_and_left.symm)
      values
    rw [Writable, hvalues]
    exact exists_and_left.symm
  | annotationDefault value => exact ElementValue.writable_iff
  | typeAnnotations values =>
    have hvalues := forall_mem_iff_exists_bound TypeAnnotationUse.Fits
      (fun hd h => ⟨h.1, h.2.mono hd⟩) (fun _ => TypeAnnotationUse.writable_iff) values
    rw [Writable, hvalues]
    exact exists_and_left.symm
  | _ => exact ⟨fun h => ⟨0, h⟩, fun ⟨_, h⟩ => h⟩

/-! ### Attributes -/

/-- An attribute that can be written: the length of its body fits a four-byte word, and its name is
the text that asks for a body of this shape. -/
inductive Attribute.Writable (pool : Pool) : Attribute → Prop where
  /-- A body without further attributes. -/
  | flat {name : UInt16} {body : FlatBody} {text : String} (text_eq : pool.text name = .ok text)
      (named : body.NamedBy text) (fits : body.Writable)
      (length_lt : body.encode.length < 2 ^ 32) : Writable pool ⟨name, .flat body⟩
  /-- The body of a method. -/
  | code {name : UInt16} {body : CodeBody} (text_eq : pool.text name = .ok "Code")
      (code_lt : body.code.length < 2 ^ 32) (handlers_lt : body.handlers.length < 65536)
      (attributes_lt : body.attributes.length < 65536)
      (attributes : ∀ a ∈ body.attributes, Writable pool a)
      (length_lt : body.encode.length < 2 ^ 32) : Writable pool ⟨name, .code body⟩
  /-- The components of a record. -/
  | record {name : UInt16} {components : List RecordComponent}
      (text_eq : pool.text name = .ok "Record") (components_lt : components.length < 65536)
      (descriptors : ∀ c ∈ components, ∃ text, pool.text c.descriptor = .ok text)
      (attributes_lt : ∀ c ∈ components, c.attributes.length < 65536)
      (attributes : ∀ c ∈ components, ∀ a ∈ c.attributes, Writable pool a)
      (length_lt : (AttributeBody.record components).encode.length < 2 ^ 32) :
      Writable pool ⟨name, .record components⟩

/-- An attribute can be written if and only if it fits some bound on the depth. -/
theorem Attribute.writable_iff {pool : Pool} {a : Attribute} :
    a.Writable pool ↔ ∃ d, a.Fits pool d := by
  constructor
  · intro h
    induction h with
    | flat text_eq named fits length_lt =>
      obtain ⟨d, hd⟩ := FlatBody.writable_iff.mp fits
      exact ⟨1, length_lt, _, text_eq, named, hd.length_encode⟩
    | code text_eq code_lt handlers_lt attributes_lt _ length_lt ih =>
      obtain ⟨d, hd⟩ := exists_common_bound (Fits pool) Fits.mono ih
      exact ⟨d + 1, length_lt, _, text_eq, rfl, code_lt, handlers_lt, attributes_lt, hd⟩
    | record text_eq components_lt descriptors attributes_lt _ length_lt ih =>
      obtain ⟨d, hd⟩ := exists_common_bound
        (fun d (c : RecordComponent) => ∀ a ∈ c.attributes, a.Fits pool d)
        (fun hd h a ha => (h a ha).mono hd) fun c hc =>
          exists_common_bound (Fits pool) Fits.mono (ih c hc)
      exact ⟨d + 1, length_lt, _, text_eq, rfl, components_lt,
        fun c hc => ⟨descriptors c hc, attributes_lt c hc, hd c hc⟩⟩
  · rintro ⟨d, h⟩
    induction d generalizing a with
    | zero => exact h.elim
    | succ d ih =>
      obtain ⟨name, body⟩ := a
      obtain ⟨hl, text, ht, hb⟩ := h
      cases body with
      | flat body => exact .flat ht hb.1 (FlatBody.writable_iff.mpr ⟨_, hb.2⟩) hl
      | code body =>
        obtain ⟨rfl, hc⟩ := hb
        exact .code ht hc.code_lt hc.handlers_lt hc.attributes_lt
          (fun a ha => ih (hc.attributes a ha)) hl
      | record components =>
        obtain ⟨rfl, hs, hc⟩ := hb
        exact .record ht hs (fun c hm => (hc c hm).descriptor) (fun c hm => (hc c hm).attributes_lt)
          (fun c hm a ha => ih ((hc c hm).attributes a ha)) hl

/-! ### Members and class files -/

/-- A member that can be written. -/
structure Member.Writable (pool : Pool) (m : Member) : Prop where
  /-- The name resolves. -/
  name : ∃ text, pool.text m.name = .ok text
  /-- The descriptor resolves. -/
  descriptor : ∃ text, pool.text m.descriptor = .ok text
  /-- The number of attributes fits a two-byte word. -/
  attributes_lt : m.attributes.length < 65536
  /-- The attributes can be written. -/
  attributes : ∀ a ∈ m.attributes, a.Writable pool

theorem Member.writable_iff {pool : Pool} {m : Member} : m.Writable pool ↔ ∃ d, m.Fits pool d := by
  have hattributes : (∀ a ∈ m.attributes, a.Writable pool) ↔ ∃ d, ∀ a ∈ m.attributes, a.Fits pool d :=
    forall_mem_iff_exists_bound (Attribute.Fits pool) Attribute.Fits.mono
      (fun _ => Attribute.writable_iff) m.attributes
  constructor
  · intro h
    obtain ⟨d, hd⟩ := hattributes.mp h.attributes
    exact ⟨d, h.name, h.descriptor, h.attributes_lt, hd⟩
  · rintro ⟨d, h⟩
    exact ⟨h.name, h.descriptor, h.attributes_lt, hattributes.mpr ⟨d, h.attributes⟩⟩

namespace ClassFile

/-- A class file that can be written. -/
structure Writable (c : ClassFile) : Prop where
  /-- The pool can be written. -/
  pool : c.pool.Writable
  /-- The name of the class resolves. -/
  name : ∃ name, c.name = .ok name
  /-- The number of interfaces fits a two-byte word. -/
  interfaces_lt : c.interfaces.length < 65536
  /-- The number of fields fits a two-byte word. -/
  fields_lt : c.fields.length < 65536
  /-- The number of methods fits a two-byte word. -/
  methods_lt : c.methods.length < 65536
  /-- The number of attributes fits a two-byte word. -/
  attributes_lt : c.attributes.length < 65536
  /-- The fields can be written. -/
  fields : ∀ m ∈ c.fields, m.Writable c.pool
  /-- The methods can be written. -/
  methods : ∀ m ∈ c.methods, m.Writable c.pool
  /-- The attributes can be written. -/
  attributes : ∀ a ∈ c.attributes, a.Writable c.pool

/-- **The conditions with and without bounds on the depth agree.** -/
theorem wellFormed_iff_writable {c : ClassFile} : c.WellFormed ↔ c.Writable := by
  constructor
  · intro h
    exact ⟨Pool.wellFormed_iff_writable.mp h.pool, h.name, h.interfaces_lt, h.fields_lt,
      h.methods_lt, h.attributes_lt, fun m hm => Member.writable_iff.mpr (h.fields m hm),
      fun m hm => Member.writable_iff.mpr (h.methods m hm),
      fun a ha => Attribute.writable_iff.mpr (h.attributes a ha)⟩
  · intro h
    exact ⟨Pool.wellFormed_iff_writable.mpr h.pool, h.name, h.interfaces_lt, h.fields_lt,
      h.methods_lt, h.attributes_lt, fun m hm => Member.writable_iff.mp (h.fields m hm),
      fun m hm => Member.writable_iff.mp (h.methods m hm),
      fun a ha => Attribute.writable_iff.mp (h.attributes a ha)⟩

/-- **What can be written reads back from its bytes, and what is read can be written**: the class files
that decoding returns are exactly those that can be written, and encoding gives bytes for each of
them. -/
theorem decode_encode_and_writable :
    (∀ c : ClassFile, c.Writable → decode c.encode = .ok c) ∧
      ∀ (bytes : List UInt8) (c : ClassFile), decode bytes = .ok c → c.Writable :=
  ⟨fun _ h => decode_encode (wellFormed_iff_writable.mpr h),
    fun _ _ h => wellFormed_iff_writable.mp (wellFormed_of_decode h)⟩

/-- A record with a constant of two slots in its pool, a method body with an attribute of an unknown
name, and a component with an annotation that nests. -/
def annotatedRecord : ClassFile :=
  { blank with
    pool := ⟨#[none, some (.text "R"), some (.classRef 1), some (.long 7), none, some (.text "f"),
      some (.text "()V"), some (.text "Code"), some (.text "Record"), some (.text "LA;"),
      some (.text "RuntimeVisibleAnnotations"), some (.text "Unknown")]⟩
    thisClass := 2
    methods := [⟨1, 5, 6, [⟨7, .code ⟨1, 1, [0xB1], [⟨0, 1, 0, 0⟩], [⟨11, .flat (.raw [1, 2])⟩]⟩⟩]⟩]
    attributes := [⟨8, .record [⟨5, 9, [⟨10, .flat (.annotations
      [⟨9, [⟨5, .array [.leaf (.const 0x49 3), .nested ⟨9, []⟩]⟩]⟩])⟩]⟩]⟩] }

/-- The record can be written and reads back. -/
theorem decode_encode_annotatedRecord :
    annotatedRecord.Writable ∧ decode annotatedRecord.encode = .ok annotatedRecord := by
  have hread : decode annotatedRecord.encode = .ok annotatedRecord := by decide +kernel
  have hwritable := decode_encode_and_writable.2 _ _ hread
  exact ⟨hwritable, decode_encode_and_writable.1 _ hwritable⟩

end ClassFile

end ClassAtlas
