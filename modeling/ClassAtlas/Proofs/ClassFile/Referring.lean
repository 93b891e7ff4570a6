import ClassAtlas.Proofs.ClassFile.Trimming

/-!
# What a class refers to

The walk that counts the indices in use is compared with the places of a class file that hold an
index, read off the layout of each structure: indices of the class and of its members, and those in
attributes, which stand inside other attributes at any depth. Trimming is then described without the
walk. It drops exactly the slots at the end of the pool that no such place and no constant refers to.

## Main definitions

* `ClassAtlas.AnnotationUse.RefersTo`, `ClassAtlas.ElementValue.RefersTo`,
  `ClassAtlas.FlatBody.RefersTo`, `ClassAtlas.Attribute.RefersTo` — the indices in a part of a class.
* `ClassAtlas.Attribute.Within` — attributes inside an attribute.
* `ClassAtlas.ClassFile.RefersTo` — the indices in a class, its pool apart.
* `ClassAtlas.ClassFile.HasUnaccounted` — some attribute may hold indices that are not known.

## Main results

* `ClassAtlas.ClassFile.index_mem_uses_iff`, `ClassAtlas.ClassFile.unaccounted_mem_uses_iff` — the walk
  finds these indices and these attributes.
* `ClassAtlas.ClassFile.trimInPlace_maximal` — trimming is safe, drops all it can, and has then nothing
  left to drop.
-/

set_option autoImplicit false

namespace ClassAtlas

open Bytes

/-! ### Annotations -/

mutual

/-- The indices in an annotation: its type, the names of its elements, and those in their values. -/
inductive AnnotationUse.RefersTo : AnnotationUse → UInt16 → Prop
  /-- The type. -/
  | type (a : AnnotationUse) : AnnotationUse.RefersTo a a.type
  /-- The name of an element. -/
  | name {a : AnnotationUse} {pair : ElementPair} (hp : pair ∈ a.elements) :
    AnnotationUse.RefersTo a pair.name
  /-- An index in the value of an element. -/
  | value {a : AnnotationUse} {pair : ElementPair} {i : UInt16} (hp : pair ∈ a.elements)
    (hi : ElementValue.RefersTo pair.value i) : AnnotationUse.RefersTo a i

/-- The indices in a value of an annotation's element. -/
inductive ElementValue.RefersTo : ElementValue → UInt16 → Prop
  /-- A constant. -/
  | const (tag : UInt8) (index : UInt16) : ElementValue.RefersTo (.leaf (.const tag index)) index
  /-- The type of an enumeration. -/
  | enumType (type name : UInt16) : ElementValue.RefersTo (.leaf (.enumConst type name)) type
  /-- The name of a constant of an enumeration. -/
  | enumName (type name : UInt16) : ElementValue.RefersTo (.leaf (.enumConst type name)) name
  /-- The descriptor of a class. -/
  | classInfo (descriptor : UInt16) :
    ElementValue.RefersTo (.leaf (.classInfo descriptor)) descriptor
  /-- An index in an annotation. -/
  | nested {a : AnnotationUse} {i : UInt16} (hi : AnnotationUse.RefersTo a i) :
    ElementValue.RefersTo (.nested a) i
  /-- An index in a value of an array. -/
  | array {values : List ElementValue} {v : ElementValue} {i : UInt16} (hv : v ∈ values)
    (hi : ElementValue.RefersTo v i) : ElementValue.RefersTo (.array values) i

end

section Annotations

variable {i : UInt16}

lemma ElementPair.uses_eq (pair : ElementPair) : pair.uses = pair.name :: pair.value.uses := by
  cases pair
  rfl

/-- The indices in use in an annotation are those in it, if that is so for the values in it. -/
lemma AnnotationUse.mem_uses_iff_of_values {a : AnnotationUse}
    (h : ∀ pair ∈ a.elements, i ∈ pair.value.uses ↔ pair.value.RefersTo i) :
    i ∈ a.uses ↔ a.RefersTo i := by
  have huses : a.uses = a.type :: a.elements.flatMap ElementPair.uses := by
    cases a
    exact uses_mk _ _
  simp only [huses, List.mem_cons, List.mem_flatMap, ElementPair.uses_eq]
  constructor
  · rintro (rfl | ⟨pair, hp, rfl | hi⟩)
    · exact .type a
    · exact .name hp
    · exact .value hp ((h pair hp).mp hi)
  · rintro (_ | hp | ⟨hp, hi⟩)
    · exact .inl rfl
    · exact .inr ⟨_, hp, .inl rfl⟩
    · exact .inr ⟨_, hp, .inr ((h _ hp).mpr hi)⟩

/-- The indices in use in a value are those in it. -/
lemma ElementValue.mem_uses_iff {v : ElementValue} : i ∈ v.uses ↔ v.RefersTo i := by
  induction v using ElementValue.induction with
  | leaf value =>
    constructor
    · intro hi
      cases value with
      | const tag index =>
        obtain rfl : i = index := by simpa [uses, ElementLeaf.uses] using hi
        exact .const _ _
      | enumConst type name =>
        obtain rfl | rfl : i = type ∨ i = name := by simpa [uses, ElementLeaf.uses] using hi
        · exact .enumType _ _
        · exact .enumName _ _
      | classInfo descriptor =>
        obtain rfl : i = descriptor := by simpa [uses, ElementLeaf.uses] using hi
        exact .classInfo _
    · rintro (_ | _ | _ | _) <;> simp [uses, ElementLeaf.uses]
  | nested type elements ih =>
    rw [uses, AnnotationUse.mem_uses_iff_of_values ih]
    refine ⟨.nested, fun h => ?_⟩
    cases h with
    | nested hi => exact hi
  | array values ih =>
    rw [uses_array, List.mem_flatMap]
    constructor
    · rintro ⟨v, hv, hi⟩
      exact .array hv ((ih v hv).mp hi)
    · rintro (_ | _ | _ | _ | _ | ⟨hv, hi⟩)
      exact ⟨_, hv, (ih _ hv).mpr hi⟩

/-- The indices in use in an annotation are those in it. -/
lemma AnnotationUse.mem_uses_iff {a : AnnotationUse} : i ∈ a.uses ↔ a.RefersTo i :=
  mem_uses_iff_of_values fun _ _ => ElementValue.mem_uses_iff

end Annotations

/-! ### Raw attributes -/

/-- The indices in a raw attribute of a known layout. -/
inductive RawRefersTo : String → List UInt8 → UInt16 → Prop
  /-- The only index of the attribute. -/
  | word {name : String} (hn : name = "SourceFile" ∨ name = "ConstantValue") (i : UInt16) :
    RawRefersTo name (u2 i) i
  /-- The name of a parameter, in a table of names and flags. -/
  | parameter {parameters : List (UInt16 × UInt16)} (hl : parameters.length < 256)
    {p : UInt16 × UInt16} (hp : p ∈ parameters) :
    RawRefersTo "MethodParameters"
      (UInt8.ofNat parameters.length :: parameters.flatMap fun p => u2 p.1 ++ u2 p.2) p.1

/-- The names of raw attributes whose indices are known. -/
def accountedAttributes : List String :=
  ["SourceFile", "ConstantValue", "MethodParameters"] ++ neutralAttributes

section Raw

variable {name : String} {bytes rest : List UInt8} {i : UInt16}

/-- The reader of an attribute that is an index. -/
lemma complete_word_eq_ok_iff {indices : List UInt16} :
    Reader.complete (do return [← Reader.u2]) bytes = .ok indices ↔
      ∃ i, indices = [i] ∧ bytes = u2 i := by
  simp only [Reader.complete_eq_ok_iff, Reader.bind_eq_ok_iff, Reader.u2_eq_ok_iff,
    Reader.pure_eq_ok_iff]
  constructor
  · rintro ⟨i, _, rfl, rfl, rfl⟩
    exact ⟨i, rfl, by simp⟩
  · rintro ⟨i, rfl, rfl⟩
    exact ⟨i, [], by simp⟩

/-- The reader of the names in a row of parameters. -/
lemma replicateOnto_parameter_eq_ok_iff {n : Nat} {done names : List UInt16} :
    Reader.replicateOnto (do
        let name ← Reader.u2
        let _ ← Reader.u2
        return name) n done bytes = .ok (names, rest) ↔
      ∃ parameters : List (UInt16 × UInt16), parameters.length = n ∧
        names = done.reverse ++ parameters.map Prod.fst ∧
        bytes = (parameters.flatMap fun p => u2 p.1 ++ u2 p.2) ++ rest := by
  induction n generalizing done bytes with
  | zero =>
    simp only [Reader.replicateOnto, Except.ok.injEq, Prod.mk.injEq, List.length_eq_zero_iff]
    constructor
    · rintro ⟨rfl, rfl⟩
      exact ⟨[], rfl, by simp, by simp⟩
    · rintro ⟨_, rfl, rfl, rfl⟩
      simp
  | succ n ih =>
    simp only [Reader.replicateOnto_succ, Reader.bind_eq_ok_iff, Reader.u2_eq_ok_iff,
      Reader.pure_eq_ok_iff, ih]
    constructor
    · rintro ⟨_, _, ⟨name, _, rfl, flags, _, rfl, rfl, rfl⟩, parameters, rfl, rfl, rfl⟩
      exact ⟨(name, flags) :: parameters, rfl, by simp, by simp⟩
    · rintro ⟨_ | ⟨⟨name, flags⟩, parameters⟩, hn, rfl, rfl⟩
      · cases hn
      · exact ⟨name, _, ⟨name, _, by simp, flags, _, rfl, rfl, rfl⟩, parameters,
          Nat.succ.inj hn, by simp, rfl⟩

/-- The reader of the names of parameters. -/
lemma complete_parameters_eq_ok_iff {names : List UInt16} :
    Reader.complete (do
        Reader.replicate (← Reader.u1).toNat (do
          let name ← Reader.u2
          let _ ← Reader.u2
          return name)) bytes = .ok names ↔
      ∃ parameters : List (UInt16 × UInt16), parameters.length < 256 ∧
        names = parameters.map Prod.fst ∧
        bytes = UInt8.ofNat parameters.length ::
          parameters.flatMap fun p => u2 p.1 ++ u2 p.2 := by
  simp only [Reader.complete_eq_ok_iff, Reader.bind_eq_ok_iff, Reader.u1_eq_ok_iff,
    Reader.replicate, replicateOnto_parameter_eq_ok_iff]
  constructor
  · rintro ⟨count, _, rfl, parameters, hn, rfl, rfl⟩
    refine ⟨parameters, hn ▸ count.toNat_lt, by simp, ?_⟩
    rw [hn, UInt8.ofNat_toNat, List.append_nil]
  · rintro ⟨parameters, hl, rfl, rfl⟩
    exact ⟨_, _, rfl, parameters, (UInt8.toNat_ofNat_of_lt' hl).symm, by simp, by simp⟩

/-- An attribute that can be read is in use for the indices that are read, and is accounted for. -/
lemma mem_rawUses_of_reader {reader : Reader (List UInt16)} (h : rawIndices? name = some reader) :
    (.index i ∈ rawUses name bytes ↔
        ∃ indices, Reader.complete reader bytes = .ok indices ∧ i ∈ indices) ∧
      .unaccounted ∉ rawUses name bytes := by
  simp only [rawUses, h]
  cases Reader.complete reader bytes <;> simp

/-- An attribute of another name is in use for no index. -/
lemma mem_rawUses_of_none (h : rawIndices? name = none) :
    .index i ∉ rawUses name bytes ∧
      (.unaccounted ∈ rawUses name bytes ↔ name ∉ neutralAttributes) := by
  simp only [rawUses, h]
  split_ifs with hn <;> simp [hn]

/-- The indices in use in a raw attribute are those in it. -/
lemma index_mem_rawUses_iff : .index i ∈ rawUses name bytes ↔ RawRefersTo name bytes i := by
  by_cases hw : name = "SourceFile" ∨ name = "ConstantValue"
  · rw [(mem_rawUses_of_reader (if_pos hw)).1]
    simp only [complete_word_eq_ok_iff]
    constructor
    · rintro ⟨_, ⟨j, rfl, rfl⟩, hi⟩
      obtain rfl := List.mem_singleton.mp hi
      exact .word hw i
    · rintro (_ | _)
      · exact ⟨[i], ⟨i, rfl, rfl⟩, List.mem_singleton_self i⟩
      · exact absurd hw (by decide)
  by_cases hp : name = "MethodParameters"
  · rw [(mem_rawUses_of_reader ((if_neg hw).trans (if_pos hp))).1]
    simp only [complete_parameters_eq_ok_iff]
    constructor
    · rintro ⟨_, ⟨parameters, hl, rfl, rfl⟩, hi⟩
      obtain ⟨p, hm, rfl⟩ := List.mem_map.mp hi
      exact hp ▸ .parameter hl hm
    · rintro (hn | ⟨hl, hm⟩)
      · exact absurd hn hw
      · exact ⟨_, ⟨_, hl, rfl, rfl⟩, List.mem_map_of_mem hm⟩
  · refine iff_of_false (mem_rawUses_of_none ((if_neg hw).trans (if_neg hp))).1 ?_
    rintro (hn | _)
    · exact hw hn
    · exact hp rfl

/-- Only raw attributes of other names are not accounted for. -/
lemma unaccounted_mem_rawUses_iff :
    .unaccounted ∈ rawUses name bytes ↔ name ∉ accountedAttributes := by
  simp only [accountedAttributes, List.mem_append, List.mem_cons, List.not_mem_nil, or_false,
    ← or_assoc, not_or]
  by_cases hw : name = "SourceFile" ∨ name = "ConstantValue"
  · exact iff_of_false (mem_rawUses_of_reader (i := 0) (if_pos hw)).2 (by tauto)
  by_cases hp : name = "MethodParameters"
  · exact iff_of_false (mem_rawUses_of_reader (i := 0) ((if_neg hw).trans (if_pos hp))).2
      fun h => h.1.2 hp
  · rw [(mem_rawUses_of_none (i := 0) ((if_neg hw).trans (if_neg hp))).2]
    tauto

end Raw

/-! ### Attributes -/

/-- The indices in the body of an attribute without further attributes; `name` is the text index of
the attribute's name. -/
inductive FlatBody.RefersTo (pool : Pool) (name : UInt16) : FlatBody → UInt16 → Prop
  /-- A signature. -/
  | signature (index : UInt16) : RefersTo pool name (.signature index) index
  /-- An index in an annotation. -/
  | annotated {values : List AnnotationUse} {a : AnnotationUse} {i : UInt16} (ha : a ∈ values)
    (hi : a.RefersTo i) : RefersTo pool name (.annotations values) i
  /-- An index in an annotation of a parameter. -/
  | parameterAnnotated {parameters : List (List AnnotationUse)} {values : List AnnotationUse}
    {a : AnnotationUse} {i : UInt16} (hv : values ∈ parameters) (ha : a ∈ values)
    (hi : a.RefersTo i) : RefersTo pool name (.parameterAnnotations parameters) i
  /-- An index in the default of an annotation's element. -/
  | annotationDefault {value : ElementValue} {i : UInt16} (hi : value.RefersTo i) :
    RefersTo pool name (.annotationDefault value) i
  /-- The handle of a bootstrap method. -/
  | bootstrapHandle {methods : List BootstrapMethod} {m : BootstrapMethod} (hm : m ∈ methods) :
    RefersTo pool name (.bootstrapMethods methods) m.method
  /-- An argument of a bootstrap method. -/
  | bootstrapArgument {methods : List BootstrapMethod} {m : BootstrapMethod} {i : UInt16}
    (hm : m ∈ methods) (hi : i ∈ m.arguments) : RefersTo pool name (.bootstrapMethods methods) i
  /-- The name of a local variable. -/
  | variableName {entries : List LocalVariable} {v : LocalVariable} (hv : v ∈ entries) :
    RefersTo pool name (.localVariables entries) v.name
  /-- The descriptor or signature of a local variable. -/
  | variableDescriptor {entries : List LocalVariable} {v : LocalVariable} (hv : v ∈ entries) :
    RefersTo pool name (.localVariables entries) v.descriptor
  /-- The class around a local class. -/
  | enclosingClass (owner method : UInt16) : RefersTo pool name (.enclosingMethod owner method) owner
  /-- The method around a local class. -/
  | enclosingMethod (owner method : UInt16) :
    RefersTo pool name (.enclosingMethod owner method) method
  /-- A class in a list. -/
  | listed {indices : List UInt16} {i : UInt16} (hi : i ∈ indices) :
    RefersTo pool name (.classes indices) i
  /-- The host of a nest. -/
  | nestHost (index : UInt16) : RefersTo pool name (.nestHost index) index
  /-- A member, local or anonymous class. -/
  | innerClass {entries : List InnerClass} {e : InnerClass} (he : e ∈ entries) :
    RefersTo pool name (.innerClasses entries) e.inner
  /-- The class of which it is a member. -/
  | outerClass {entries : List InnerClass} {e : InnerClass} (he : e ∈ entries) :
    RefersTo pool name (.innerClasses entries) e.outer
  /-- Its simple name. -/
  | innerName {entries : List InnerClass} {e : InnerClass} (he : e ∈ entries) :
    RefersTo pool name (.innerClasses entries) e.name
  /-- An index in an annotation of a use of a type. -/
  | typeAnnotated {values : List TypeAnnotationUse} {a : TypeAnnotationUse} {i : UInt16}
    (ha : a ∈ values) (hi : a.use.RefersTo i) : RefersTo pool name (.typeAnnotations values) i
  /-- An index in a raw attribute of a known layout. -/
  | raw {bytes : List UInt8} {text : String} {i : UInt16} (ht : pool.text name = .ok text)
    (hi : RawRefersTo text bytes i) : RefersTo pool name (.raw bytes) i

/-- The indices in an attribute itself, those in attributes inside it apart. -/
inductive Attribute.RefersTo (pool : Pool) : Attribute → UInt16 → Prop
  /-- The name of the attribute. -/
  | name (a : Attribute) : RefersTo pool a a.name
  /-- An index in a body without further attributes. -/
  | flat {name : UInt16} {body : FlatBody} {i : UInt16} (hi : body.RefersTo pool name i) :
    RefersTo pool ⟨name, .flat body⟩ i
  /-- The index of an instruction. -/
  | instruction {name : UInt16} {body : CodeBody} {instruction : Instruction} {i : UInt16}
    (hm : instruction ∈ (Listing.ofCode body.code).instructions)
    (hi : instruction.index = some i) : RefersTo pool ⟨name, .code body⟩ i
  /-- The class that a handler catches. -/
  | handler {name : UInt16} {body : CodeBody} {h : ExceptionHandler} (hh : h ∈ body.handlers) :
    RefersTo pool ⟨name, .code body⟩ h.catchType
  /-- The name of a component of a record. -/
  | componentName {name : UInt16} {components : List RecordComponent} {x : RecordComponent}
    (hx : x ∈ components) : RefersTo pool ⟨name, .record components⟩ x.name
  /-- The descriptor of a component of a record. -/
  | componentDescriptor {name : UInt16} {components : List RecordComponent} {x : RecordComponent}
    (hx : x ∈ components) : RefersTo pool ⟨name, .record components⟩ x.descriptor

/-- A raw attribute whose indices are not known. -/
def Attribute.Unaccounted (pool : Pool) (a : Attribute) : Prop :=
  ∃ bytes text, a.body = .flat (.raw bytes) ∧ pool.text a.name = .ok text ∧
    text ∉ accountedAttributes

/-- The second attribute is the first one, or stands inside it at any depth. -/
inductive Attribute.Within : Attribute → Attribute → Prop
  /-- The attribute itself. -/
  | self (a : Attribute) : Within a a
  /-- Attributes of a method body. -/
  | code {name : UInt16} {body : CodeBody} {a x : Attribute} (ha : a ∈ body.attributes)
    (hx : Within a x) : Within ⟨name, .code body⟩ x
  /-- Attributes of a component of a record. -/
  | record {name : UInt16} {components : List RecordComponent} {component : RecordComponent}
    {a x : Attribute} (hc : component ∈ components) (ha : a ∈ component.attributes)
    (hx : Within a x) : Within ⟨name, .record components⟩ x

section Attributes

variable {pool : Pool} {name i : UInt16}

lemma index_mem_map {indices : List UInt16} :
    Finding.index i ∈ indices.map .index ↔ i ∈ indices := by
  simp

/-- The indices in use in a body are those in it. -/
lemma FlatBody.index_mem_uses_iff {body : FlatBody} :
    .index i ∈ body.uses pool name ↔ body.RefersTo pool name i := by
  constructor
  · cases body <;>
      simp only [uses, index_mem_map, List.mem_cons, List.mem_flatMap, List.mem_flatten,
        List.not_mem_nil, or_false, Finding.index.injEq, AnnotationUse.mem_uses_iff,
        ElementValue.mem_uses_iff]
    case signature => rintro rfl; exact .signature i
    case annotations => rintro ⟨a, ha, hi⟩; exact .annotated ha hi
    case parameterAnnotations => rintro ⟨a, ⟨values, hv, ha⟩, hi⟩; exact .parameterAnnotated hv ha hi
    case annotationDefault => exact .annotationDefault
    case bootstrapMethods =>
      rintro ⟨m, hm, rfl | hi⟩
      · exact .bootstrapHandle hm
      · exact .bootstrapArgument hm hi
    case localVariables =>
      rintro ⟨v, hv, rfl | rfl⟩
      · exact .variableName hv
      · exact .variableDescriptor hv
    case enclosingMethod =>
      rintro (rfl | rfl)
      · exact .enclosingClass i _
      · exact .enclosingMethod _ i
    case classes => exact .listed
    case nestHost => rintro rfl; exact .nestHost i
    case innerClasses =>
      rintro ⟨e, he, rfl | rfl | rfl⟩
      · exact .innerClass he
      · exact .outerClass he
      · exact .innerName he
    case typeAnnotations => rintro ⟨a, ha, hi⟩; exact .typeAnnotated ha hi
    case raw bytes =>
      cases ht : pool.text name with
      | error cause => simp
      | ok text => exact fun hi => .raw ht (index_mem_rawUses_iff.mp hi)
  · intro h
    cases h <;>
      simp only [uses, index_mem_map, List.mem_cons, List.mem_flatMap, List.mem_flatten,
        List.not_mem_nil, or_false, true_or, or_true, AnnotationUse.mem_uses_iff,
        ElementValue.mem_uses_iff]
    case annotated ha hi => exact ⟨_, ha, hi⟩
    case parameterAnnotated hv ha hi => exact ⟨_, ⟨_, hv, ha⟩, hi⟩
    case annotationDefault hi => exact hi
    case bootstrapHandle hm => exact ⟨_, hm, .inl rfl⟩
    case bootstrapArgument hm hi => exact ⟨_, hm, .inr hi⟩
    case variableName hv => exact ⟨_, hv, .inl rfl⟩
    case variableDescriptor hv => exact ⟨_, hv, .inr rfl⟩
    case listed hi => exact hi
    case innerClass he => exact ⟨_, he, .inl rfl⟩
    case outerClass he => exact ⟨_, he, .inr (.inl rfl)⟩
    case innerName he => exact ⟨_, he, .inr (.inr rfl)⟩
    case typeAnnotated ha hi => exact ⟨_, ha, hi⟩
    case raw ht hi =>
      rw [ht]
      exact index_mem_rawUses_iff.mpr hi

/-- Only raw bodies are not accounted for. -/
lemma FlatBody.unaccounted_mem_uses_iff {body : FlatBody} :
    .unaccounted ∈ body.uses pool name ↔
      ∃ bytes text, body = .raw bytes ∧ pool.text name = .ok text ∧ text ∉ accountedAttributes := by
  cases body <;> simp only [uses, List.mem_map, List.mem_cons, List.not_mem_nil, reduceCtorEq,
    false_and, and_false, exists_false, or_false]
  case raw bytes =>
    cases ht : pool.text name with
    | error cause => simp
    | ok text =>
      simp only [unaccounted_mem_rawUses_iff]
      constructor
      · exact fun hn => ⟨bytes, text, rfl, rfl, hn⟩
      · rintro ⟨_, _, -, hok, hn⟩
        obtain rfl := Except.ok.inj hok
        exact hn

/-- The findings in an attribute itself, those in attributes inside it apart. -/
def Attribute.ownUses (pool : Pool) (a : Attribute) : List Finding :=
  .index a.name ::
    match a.body with
    | .flat body => body.uses pool a.name
    | .code body => (Listing.ofCode body.code).uses ++ body.handlers.map fun h => .index h.catchType
    | .record components => components.flatMap fun x => [.index x.name, .index x.descriptor]

/-- What is found in an attribute is found in the attribute itself or in one inside it. -/
lemma Attribute.mem_uses_iff {a : Attribute} {f : Finding} :
    f ∈ a.uses pool ↔ ∃ x, a.Within x ∧ f ∈ x.ownUses pool := by
  induction a using Attribute.induction with
  | flat name body =>
    constructor
    · exact fun hf => ⟨_, .self _, hf⟩
    · rintro ⟨x, hx, hf⟩
      cases hx
      exact hf
  | code name body ih =>
    simp only [uses, AttributeBody.uses, CodeBody.uses_eq]
    rw [List.mem_cons, List.mem_append, List.mem_flatMap]
    constructor
    · rintro (rfl | hf | ⟨a, ha, hf⟩)
      · exact ⟨_, .self _, List.mem_cons_self⟩
      · exact ⟨_, .self _, List.mem_cons_of_mem _ hf⟩
      · obtain ⟨x, hx, hf⟩ := (ih a ha).mp hf
        exact ⟨x, .code ha hx, hf⟩
    · rintro ⟨x, hx, hf⟩
      cases hx with
      | self =>
        rcases List.mem_cons.mp hf with rfl | hf
        · exact .inl rfl
        · exact .inr (.inl hf)
      | code ha hx => exact .inr (.inr ⟨_, ha, (ih _ ha).mpr ⟨x, hx, hf⟩⟩)
  | record name components ih =>
    simp only [uses_record, RecordComponent.uses_eq, List.mem_cons, List.mem_flatMap]
    constructor
    · rintro (rfl | ⟨y, hy, rfl | rfl | ⟨a, ha, hf⟩⟩)
      · exact ⟨_, .self _, List.mem_cons_self⟩
      · exact ⟨_, .self _, List.mem_cons_of_mem _ (List.mem_flatMap.mpr ⟨y, hy, by simp⟩)⟩
      · exact ⟨_, .self _, List.mem_cons_of_mem _ (List.mem_flatMap.mpr ⟨y, hy, by simp⟩)⟩
      · obtain ⟨x, hx, hf⟩ := (ih y hy a ha).mp hf
        exact ⟨x, .record hy ha hx, hf⟩
    · rintro ⟨x, hx, hf⟩
      cases hx with
      | self =>
        rcases List.mem_cons.mp hf with rfl | hf
        · exact .inl rfl
        · obtain ⟨y, hy, hf⟩ := List.mem_flatMap.mp hf
          simp only [List.mem_cons, List.not_mem_nil, or_false] at hf
          exact .inr ⟨y, hy, hf.imp_right .inl⟩
      | record hy ha hx => exact .inr ⟨_, hy, .inr (.inr ⟨_, ha, (ih _ hy _ ha).mpr ⟨x, hx, hf⟩⟩)⟩

/-- The indices in use in a listing are those of its instructions. -/
lemma Listing.index_mem_uses_iff {listing : Listing} :
    .index i ∈ listing.uses ↔ ∃ x ∈ listing.instructions, x.index = some i := by
  simp [uses, List.mem_filterMap]

/-- The indices in use in an attribute itself are those in it. -/
lemma Attribute.index_mem_ownUses_iff {a : Attribute} :
    .index i ∈ a.ownUses pool ↔ a.RefersTo pool i := by
  obtain ⟨name, body⟩ := a
  constructor
  · intro hi
    rcases List.mem_cons.mp hi with hi | hi
    · obtain rfl := Finding.index.inj hi
      exact .name _
    cases body with
    | flat body => exact .flat (FlatBody.index_mem_uses_iff.mp hi)
    | code body =>
      rcases List.mem_append.mp hi with hi | hi
      · obtain ⟨x, hx, hi⟩ := Listing.index_mem_uses_iff.mp hi
        exact .instruction hx hi
      · obtain ⟨h, hh, hi⟩ := List.mem_map.mp hi
        obtain rfl := Finding.index.inj hi
        exact .handler hh
    | record components =>
      obtain ⟨y, hy, hi⟩ := List.mem_flatMap.mp hi
      simp only [List.mem_cons, List.not_mem_nil, or_false, Finding.index.injEq] at hi
      rcases hi with rfl | rfl
      · exact .componentName hy
      · exact .componentDescriptor hy
  · intro hi
    cases hi with
    | name => exact List.mem_cons_self
    | flat hi => exact List.mem_cons_of_mem _ (FlatBody.index_mem_uses_iff.mpr hi)
    | instruction hx hi =>
      exact List.mem_cons_of_mem _
        (List.mem_append_left _ (Listing.index_mem_uses_iff.mpr ⟨_, hx, hi⟩))
    | handler hh =>
      exact List.mem_cons_of_mem _ (List.mem_append_right _ (List.mem_map.mpr ⟨_, hh, rfl⟩))
    | componentName hy =>
      exact List.mem_cons_of_mem _ (List.mem_flatMap.mpr ⟨_, hy, by simp⟩)
    | componentDescriptor hy =>
      exact List.mem_cons_of_mem _ (List.mem_flatMap.mpr ⟨_, hy, by simp⟩)

/-- An attribute itself is not accounted for if it is a raw attribute of another name. -/
lemma Attribute.unaccounted_mem_ownUses_iff {a : Attribute} :
    .unaccounted ∈ a.ownUses pool ↔ a.Unaccounted pool := by
  obtain ⟨name, body⟩ := a
  cases body with
  | flat body =>
    simp only [ownUses, Unaccounted, List.mem_cons, reduceCtorEq, false_or,
      FlatBody.unaccounted_mem_uses_iff, AttributeBody.flat.injEq]
  | code body => simp [ownUses, Unaccounted, Listing.uses]
  | record components => simp [ownUses, Unaccounted]

end Attributes

/-! ### Class files -/

/-- A constant of the pool points at an index. -/
def Pool.PointsAt (pool : Pool) (i : UInt16) : Prop :=
  ∃ j k, pool.get? j = some k ∧ i ∈ k.children

namespace ClassFile

/-- An attribute of the class or of a member, or one inside such an attribute. -/
def HasAttribute (c : ClassFile) (x : Attribute) : Prop :=
  ∃ a, (a ∈ c.attributes ∨ ∃ m, (m ∈ c.fields ∨ m ∈ c.methods) ∧ a ∈ m.attributes) ∧ a.Within x

/-- The indices in a class, those in the constants of its pool apart. -/
inductive RefersTo (c : ClassFile) : UInt16 → Prop
  /-- The class itself. -/
  | this : RefersTo c c.thisClass
  /-- The superclass. -/
  | superclass : RefersTo c c.superClass
  /-- An interface. -/
  | interface {i : UInt16} (hi : i ∈ c.interfaces) : RefersTo c i
  /-- The name of a member. -/
  | memberName {m : Member} (hm : m ∈ c.fields ∨ m ∈ c.methods) : RefersTo c m.name
  /-- The descriptor of a member. -/
  | memberDescriptor {m : Member} (hm : m ∈ c.fields ∨ m ∈ c.methods) : RefersTo c m.descriptor
  /-- An index in an attribute. -/
  | attribute {a : Attribute} {i : UInt16} (ha : c.HasAttribute a) (hi : a.RefersTo c.pool i) :
    RefersTo c i

/-- Some raw attribute of the class may hold indices that are not known. -/
def HasUnaccounted (c : ClassFile) : Prop :=
  ∃ a, c.HasAttribute a ∧ a.Unaccounted c.pool

variable {c : ClassFile} {i : UInt16}

/-- What is found in a class is an index of the class or of a member, or is found in an attribute. -/
lemma mem_uses_iff {f : Finding} :
    f ∈ c.uses ↔ f = .index c.thisClass ∨ f = .index c.superClass ∨
      (∃ i ∈ c.interfaces, f = .index i) ∨
      (∃ m, (m ∈ c.fields ∨ m ∈ c.methods) ∧ (f = .index m.name ∨ f = .index m.descriptor)) ∨
      ∃ a, c.HasAttribute a ∧ f ∈ a.ownUses c.pool := by
  have hmember (m : Member) : f ∈ m.uses c.pool ↔ (f = .index m.name ∨ f = .index m.descriptor) ∨
      ∃ a ∈ m.attributes, ∃ x, a.Within x ∧ f ∈ x.ownUses c.pool := by
    simp only [Member.uses, List.mem_cons, List.mem_flatMap, Attribute.mem_uses_iff, or_assoc]
  have hmembers : (f ∈ c.fields.flatMap (Member.uses c.pool) ∨
        f ∈ c.methods.flatMap (Member.uses c.pool)) ↔
      ∃ m, (m ∈ c.fields ∨ m ∈ c.methods) ∧ f ∈ m.uses c.pool := by
    simp only [List.mem_flatMap, or_and_right, exists_or]
  simp only [uses, List.cons_append, List.mem_cons, List.mem_append, or_assoc, List.mem_map]
  rw [← or_assoc (b := f ∈ c.methods.flatMap _), hmembers]
  simp only [hmember, List.mem_flatMap, Attribute.mem_uses_iff, HasAttribute]
  constructor
  · rintro (h | h | ⟨j, hj, rfl⟩ | ⟨m, hm, h | ⟨a, ha, x, hx, h⟩⟩ | ⟨a, ha, x, hx, h⟩)
    · exact .inl h
    · exact .inr (.inl h)
    · exact .inr (.inr (.inl ⟨j, hj, rfl⟩))
    · exact .inr (.inr (.inr (.inl ⟨m, hm, h⟩)))
    · exact .inr (.inr (.inr (.inr ⟨x, ⟨a, .inr ⟨m, hm, ha⟩, hx⟩, h⟩)))
    · exact .inr (.inr (.inr (.inr ⟨x, ⟨a, .inl ha, hx⟩, h⟩)))
  · rintro (h | h | ⟨j, hj, rfl⟩ | ⟨m, hm, h⟩ | ⟨x, ⟨a, ha | ⟨m, hm, ha⟩, hx⟩, h⟩)
    · exact .inl h
    · exact .inr (.inl h)
    · exact .inr (.inr (.inl ⟨j, hj, rfl⟩))
    · exact .inr (.inr (.inr (.inl ⟨m, hm, .inl h⟩)))
    · exact .inr (.inr (.inr (.inr ⟨a, ha, x, hx, h⟩)))
    · exact .inr (.inr (.inr (.inl ⟨m, hm, .inr ⟨a, ha, x, hx, h⟩⟩)))

/-- **The walk finds the indices in a class.** -/
theorem index_mem_uses_iff : .index i ∈ c.uses ↔ c.RefersTo i := by
  simp only [mem_uses_iff, Finding.index.injEq, Attribute.index_mem_ownUses_iff]
  constructor
  · rintro (rfl | rfl | ⟨_, hi, rfl⟩ | ⟨m, hm, rfl | rfl⟩ | ⟨a, ha, hi⟩)
    · exact .this
    · exact .superclass
    · exact .interface hi
    · exact .memberName hm
    · exact .memberDescriptor hm
    · exact .attribute ha hi
  · rintro (_ | _ | hi | hm | hm | ⟨ha, hi⟩)
    · exact .inl rfl
    · exact .inr (.inl rfl)
    · exact .inr (.inr (.inl ⟨i, hi, rfl⟩))
    · exact .inr (.inr (.inr (.inl ⟨_, hm, .inl rfl⟩)))
    · exact .inr (.inr (.inr (.inl ⟨_, hm, .inr rfl⟩)))
    · exact .inr (.inr (.inr (.inr ⟨_, ha, hi⟩)))

/-- **The walk finds the attributes that are not accounted for.** -/
theorem unaccounted_mem_uses_iff : .unaccounted ∈ c.uses ↔ c.HasUnaccounted := by
  simp only [mem_uses_iff, reduceCtorEq, and_false, or_self, exists_false, false_or,
    Attribute.unaccounted_mem_ownUses_iff, HasUnaccounted]

/-- Indices are known if and only if the walk finds nothing else, so nothing is unaccounted then. -/
lemma not_hasUnaccounted {structural : List UInt16} (huses : c.uses = structural.map .index) :
    ¬ c.HasUnaccounted := by
  rw [← unaccounted_mem_uses_iff, huses]
  simp

/-- **Trimming is safe, drops all it can, and has then nothing left to drop.** It fails and leaves the
class as it was, or it leaves all but the pool as it was, and of the pool the first slots. Each slot
that is gone held a text or a name and a descriptor, and neither the class nor a constant that is left
refers to it. If some raw attribute may hold further indices, nothing is dropped. Otherwise the last
slot that is left is slot zero, or holds something else, or is referred to. The bound on the pool is
the one that holds of every pool.

**Proof sketch.** The walk finds the indices of the class and nothing else, or trimming stops at once.
As long as it goes on, the indices in use are those and the children of the constants that are there,
so a slot is dropped exactly if nothing refers to it. Nothing that is dropped is in use by the class, so
the class uses the same indices in the end, and the last slot still cannot be dropped. -/
theorem trimInPlace_maximal (c : ClassFile) (hmax : c.pool.size ≤ Pool.maxSize) :
    (∃ cause, c.trimInPlace = (.error cause, c)) ∨
      ∃ n c', c.trimInPlace = (.ok n, c') ∧ c' = { c with pool := c'.pool } ∧
        n ≤ c.pool.size ∧ c'.pool.slots.toList = c.pool.slots.toList.take (c.pool.size - n) ∧
        (∀ i : UInt16, c.pool.size - n ≤ i.toNat → i.toNat < c.pool.size →
          (∃ k, c.pool.get? i = some k ∧ k.IsLoose) ∧ ¬ c.RefersTo i ∧ ¬ c'.pool.PointsAt i) ∧
        (c.HasUnaccounted → n = 0) ∧
        (¬ c.HasUnaccounted → c'.pool.size ≤ 1 ∨
          (∀ k, c'.pool.get? c'.pool.lastIndex = some k → ¬ k.IsLoose) ∨
          c'.RefersTo c'.pool.lastIndex ∨ c'.pool.PointsAt c'.pool.lastIndex) ∧
        c'.trimInPlace = (.ok 0, c') := by
  obtain ⟨cause, -, heq⟩ | ⟨hnone, heq⟩ | ⟨structural, pool', huses, ht, heq⟩ :=
    trimInPlace_cases hmax
  · exact .inl ⟨cause, heq⟩
  · refine .inr ⟨0, c, heq, rfl, Nat.zero_le _, ?_, fun i hi hi' => absurd hi (by omega),
      fun _ => rfl, fun hacc => ?_, heq⟩
    · rw [Nat.sub_zero, Pool.size, ← Array.length_toList, List.take_length]
    · rw [← unaccounted_mem_uses_iff] at hacc
      obtain ⟨structural, huses⟩ := Finding.exists_eq_map_index hnone hacc
      rw [indicesInUse_eq_some_iff.mpr huses] at hnone
      cases hnone
  · have hn : c.pool.size - (c.pool.size - pool'.size) = pool'.size := by
      have := ht.size_le
      omega
    have hmax' : pool'.size ≤ Pool.maxSize := ht.size_le.trans hmax
    have huses' : { c with pool := pool' }.uses = structural.map .index :=
      (uses_eq_of_get? huses fun i hi =>
        ht.get?_of_mem hmax (List.mem_append_left _ hi)).trans huses
    have hrefers (i : UInt16) : i ∈ structural ↔ c.RefersTo i := by
      rw [← index_mem_uses_iff, huses, index_mem_map]
    have hrefers' (i : UInt16) : i ∈ structural ↔ { c with pool := pool' }.RefersTo i := by
      rw [← index_mem_uses_iff, huses', index_mem_map]
    refine .inr ⟨_, _, heq, rfl, Nat.sub_le _ _, by rw [hn]; exact ht.toList_slots, fun i hi hi' => ?_,
      fun hacc => absurd hacc (not_hasUnaccounted huses), fun _ => ?_, ?_⟩
    · rw [hn] at hi
      obtain ⟨hloose, hout, hchild⟩ := ht.dropped hmax hi hi'
      exact ⟨hloose, mt (hrefers i).mpr hout, mt (Pool.mem_childIndices hmax').mpr hchild⟩
    · by_contra hleft
      simp only [not_or, not_le, not_forall, not_not] at hleft
      obtain ⟨hsize, ⟨k, hk, hl⟩, hout, hchild⟩ := hleft
      refine ht.not_droppable ⟨hsize, ?_, k, hk, hl⟩
      rw [List.mem_append, not_or]
      exact ⟨mt (hrefers' _).mp hout, mt (Pool.mem_childIndices hmax').mp hchild⟩
    · obtain ⟨pool'', ht', heq'⟩ := exists_trimInPlace_eq hmax' huses'
      have hsame : pool'' = pool' := ht'.eq_of_not_droppable ht.not_droppable
      rw [heq', hsame, Nat.sub_self]

/-- A class with a source file, and with a stale name, descriptor and pair of them in its pool. -/
def staleSource : ClassFile :=
  { blank with
    pool := ⟨#[none, some (.text "A"), some (.classRef 1), some (.text "SourceFile"),
      some (.text "A.java"), some (.text "stale"), some (.text "J"), some (.nameAndType 5 6)]⟩
    thisClass := 2
    attributes := [⟨3, .flat (.raw [0, 4])⟩] }

/-- The three stale constants are dropped, and the name of the source file is not. -/
theorem trimInPlace_maximal_staleSource :
    staleSource.pool.size ≤ Pool.maxSize ∧ ∃ c', staleSource.trimInPlace = (.ok 3, c') ∧
      c'.pool.slots.toList = staleSource.pool.slots.toList.take 5 ∧
      (∀ i : UInt16, 5 ≤ i.toNat → i.toNat < 8 → ¬ staleSource.RefersTo i) ∧
      c'.trimInPlace = (.ok 0, c') := by
  have hrun : staleSource.trimInPlace.1 = .ok 3 := by decide +kernel
  refine ⟨by decide, ?_⟩
  obtain ⟨cause, heq⟩ | ⟨n, c', heq, -, -, hslots, hdropped, -, -, hagain⟩ :=
    trimInPlace_maximal staleSource (by decide)
  · rw [heq] at hrun
    cases hrun
  · obtain rfl : n = 3 := by simpa [heq] using hrun
    exact ⟨c', heq, hslots, fun i hi hi' => (hdropped i hi hi').2.1, hagain⟩

end ClassFile

end ClassAtlas
