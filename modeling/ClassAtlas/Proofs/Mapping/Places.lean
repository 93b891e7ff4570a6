import ClassAtlas.Mapping.Run
import ClassAtlas.Proofs.ClassFile.Sites
import ClassAtlas.Proofs.Outcome
import ClassAtlas.Workspace.RenamePlan

/-!
# The places at which a class is named

A class file names classes by class constants, descriptors and signatures, and members by constants of
their own. A walk that reaches the end of a class file reports every name at the places that are
listed here. The places are listed by the structure of the class file alone, so the list says what the
walk covers, whatever the order in which it goes.

## Main definitions

* `ClassAtlas.Naming`, `ClassAtlas.Pool.classesAt` — the ways in which an index names classes.
* `ClassAtlas.ClassFile.Place` — the indices of a class file that name classes.
* `ClassAtlas.ClassFile.NamesClass`, `ClassAtlas.ClassFile.NamesMember` — the classes and the members
  that a class file names.

## Main results

* `ClassAtlas.Walk.covers_of_place` — a walk reports the classes that are named at a place.
* `ClassAtlas.Walk.usesMember_of_namesMember` — a walk reports the members that are named.
* `ClassAtlas.FileRow.exists_reported` — a file that was walked over to its end.

## Design

Not all places that a renaming edits are listed. The walk reports the handles that a bootstrap method
is called with and not the handle of the bootstrap method, it passes over members of array types, and
it stops a method body at its first undecodable instruction.
-/

set_option autoImplicit false

namespace ClassAtlas

/-! ### Names at an index -/

/-- How an index of the pool names classes. -/
inductive Naming where
  /-- As a class constant with the name of a class. -/
  | className
  /-- As a class constant with the name of a class or an array type. -/
  | constant
  /-- As the descriptor of a field or a type. -/
  | descriptor
  /-- As the descriptor of a method. -/
  | methodDescriptor
  /-- As a generic signature. -/
  | signature
  deriving DecidableEq, Repr

/-- The classes that an index of the pool names. -/
def Pool.classesAt (pool : Pool) (naming : Naming) (index : UInt16) :
    Except FormatError (List String) :=
  match naming with
  | .className => (pool.className index).map fun name => [name]
  | .constant => (pool.className index).map fun name => (Descriptor.constantClass? name).toList
  | .descriptor => (pool.text index).map fun text => (Descriptor.fieldClass? text).toList
  | .methodDescriptor => do
    let parts ← Descriptor.methodParts (← pool.text index)
    return (parts.result :: parts.parameters).filterMap Descriptor.fieldClass?
  | .signature => (pool.text index).map fun text => (Signature.classes? text).getD []

/-! ### Places -/

namespace ClassFile

/-- A method of the class has a body. -/
def HasBody (c : ClassFile) (body : CodeBody) : Prop :=
  ∃ m ∈ c.methods, Attribute.code? m.attributes = some body

/-- A body of the class has an instruction with an index. -/
def HasInstruction (c : ClassFile) (opcode : UInt8) (index : UInt16) : Prop :=
  ∃ body, c.HasBody body ∧ ∃ i ∈ (Listing.ofCode body.code).instructions,
    i.opcode = opcode ∧ i.index = some index

/-- The attributes of the class, of a member or of a component of a record. -/
inductive Carries (c : ClassFile) : List Attribute → Prop where
  /-- The attributes of the class. -/
  | ofClass : Carries c c.attributes
  /-- The attributes of a field. -/
  | ofField {m : Member} (hm : m ∈ c.fields) : Carries c m.attributes
  /-- The attributes of a method. -/
  | ofMethod {m : Member} (hm : m ∈ c.methods) : Carries c m.attributes
  /-- The attributes of a component of a record. -/
  | ofComponent {a : Attribute} {components : List RecordComponent} {x : RecordComponent}
    (ha : a ∈ c.attributes) (hbody : a.body = .record components) (hx : x ∈ components) :
    Carries c x.attributes

/-- The opcodes of instructions that create, cast to or test for a type. -/
def typeOpcodes : List UInt8 := [0xBB, 0xBD, 0xC0, 0xC1, 0xC5]

theorem mem_typeOpcodes_iff {opcode : UInt8} : opcode ∈ typeOpcodes ↔
    opcode.toNat = 0xBB ∨ opcode.toNat = 0xBD ∨ opcode.toNat = 0xC0 ∨ opcode.toNat = 0xC1 ∨
      opcode.toNat = 0xC5 := by
  simp [typeOpcodes, ← UInt8.toNat_inj]

/-- An index of a class file that names classes. -/
inductive Place (c : ClassFile) : Naming → UInt16 → Prop where
  /-- The class itself. -/
  | this : Place c .className c.thisClass
  /-- The superclass. -/
  | superclass (h : c.superClass ≠ 0) : Place c .className c.superClass
  /-- An interface. -/
  | interface {i : UInt16} (hi : i ∈ c.interfaces) : Place c .className i
  /-- The signature of the class, of a member or of a component of a record. -/
  | signature {attributes : List Attribute} {i : UInt16} (hc : c.Carries attributes)
    (hi : Attribute.signature? attributes = some i) : Place c .signature i
  /-- A type in an annotation of the class, of a member or of a component of a record. -/
  | annotation {attributes : List Attribute} {use : AnnotationUse} {x : TextSite}
    (hc : c.Carries attributes) (huse : use ∈ Attribute.annotationsOf attributes)
    (hx : x ∈ use.sites) : Place c .descriptor x.index
  /-- The descriptor of a method. -/
  | methodDescriptor {m : Member} (hm : m ∈ c.methods) : Place c .methodDescriptor m.descriptor
  /-- A type that a method throws. -/
  | thrown {m : Member} {a : Attribute} {indices : List UInt16} {i : UInt16} (hm : m ∈ c.methods)
    (ha : a ∈ m.attributes) (hbody : a.body = .flat (.classes indices)) (hi : i ∈ indices) :
    Place c .className i
  /-- A type in the default of an annotation's element. -/
  | annotationDefault {m : Member} {a : Attribute} {value : ElementValue} {x : TextSite}
    (hm : m ∈ c.methods) (ha : a ∈ m.attributes) (hbody : a.body = .flat (.annotationDefault value))
    (hx : x ∈ value.sites) : Place c .descriptor x.index
  /-- A type that is caught. -/
  | caught {body : CodeBody} {h : ExceptionHandler} (hb : c.HasBody body) (hh : h ∈ body.handlers)
    (hne : h.catchType ≠ 0) : Place c .className h.catchType
  /-- The type of a local variable. -/
  | localVariable {body : CodeBody} {a : Attribute} {entries : List LocalVariable}
    {v : LocalVariable} (hb : c.HasBody body) (ha : a ∈ body.attributes)
    (hbody : a.body = .flat (.localVariables entries)) (hv : v ∈ entries) :
    Place c (if c.pool.namesGenericTable a.name then .signature else .descriptor) v.descriptor
  /-- A type in an annotation of a use of a type in a body. -/
  | codeAnnotation {body : CodeBody} {a : Attribute} {values : List TypeAnnotationUse}
    {t : TypeAnnotationUse} {x : TextSite} (hb : c.HasBody body) (ha : a ∈ body.attributes)
    (hbody : a.body = .flat (.typeAnnotations values)) (ht : t ∈ values) (hx : x ∈ t.sites) :
    Place c .descriptor x.index
  /-- The type of an instruction. -/
  | typeInstruction {opcode : UInt8} {index : UInt16} (h : c.HasInstruction opcode index)
    (ho : opcode ∈ typeOpcodes) : Place c .constant index
  /-- A class that an instruction loads. -/
  | classConstant {opcode : UInt8} {index name : UInt16} (h : c.HasInstruction opcode index)
    (ho : opcode = 0x12 ∨ opcode = 0x13) (hname : c.pool.get? index = some (.classRef name)) :
    Place c .constant index
  /-- A member of the nest, or a permitted subclass. -/
  | nestMember {a : Attribute} {indices : List UInt16} {i : UInt16} (ha : a ∈ c.attributes)
    (hbody : a.body = .flat (.classes indices)) (hi : i ∈ indices) : Place c .className i
  /-- The host of the nest. -/
  | nestHost {a : Attribute} {i : UInt16} (ha : a ∈ c.attributes)
    (hbody : a.body = .flat (.nestHost i)) : Place c .className i
  /-- A class in the table of inner classes. -/
  | innerClass {a : Attribute} {entries : List InnerClass} {e : InnerClass} (ha : a ∈ c.attributes)
    (hbody : a.body = .flat (.innerClasses entries)) (he : e ∈ entries) : Place c .className e.inner
  /-- The class around a class in the table of inner classes. -/
  | outerClass {a : Attribute} {entries : List InnerClass} {e : InnerClass} (ha : a ∈ c.attributes)
    (hbody : a.body = .flat (.innerClasses entries)) (he : e ∈ entries) (hne : e.outer ≠ 0) :
    Place c .className e.outer
  /-- The class around a local class. -/
  | enclosingClass {a : Attribute} {owner method : UInt16} (ha : a ∈ c.attributes)
    (hbody : a.body = .flat (.enclosingMethod owner method)) : Place c .className owner
  /-- The type of a component of a record. -/
  | component {a : Attribute} {components : List RecordComponent} {x : RecordComponent}
    (ha : a ∈ c.attributes) (hbody : a.body = .record components) (hx : x ∈ components) :
    Place c .descriptor x.descriptor

/-- A class file names a class. -/
def NamesClass (c : ClassFile) (name : String) : Prop :=
  ∃ naming index names, c.Place naming index ∧ c.pool.classesAt naming index = .ok names ∧
    name ∈ names

/-- A call site of the class calls its bootstrap method with a handle. -/
def PassesHandle (c : ClassFile) (kind : UInt8) (reference : UInt16) : Prop :=
  ∃ index bootstrap nameType method argument, c.HasInstruction 0xBA index ∧
    c.pool.get? index = some (.invokeDynamic bootstrap nameType) ∧
    (Attribute.bootstrapMethodsOf c.attributes)[bootstrap.toNat]? = some method ∧
    argument ∈ method.arguments ∧ c.pool.get? argument = some (.methodHandle kind reference)

/-- An index of a class file that refers to a member: an operand or a handle. -/
inductive MemberPlace (c : ClassFile) : MemberSort → UInt16 → Prop where
  /-- An instruction reads or writes a field. -/
  | fieldInstruction {opcode : UInt8} {index : UInt16} (h : c.HasInstruction opcode index)
    (ho : 0xB2 ≤ opcode.toNat ∧ opcode.toNat ≤ 0xB5) : MemberPlace c .field index
  /-- An instruction calls a method. -/
  | methodInstruction {opcode : UInt8} {index : UInt16} (h : c.HasInstruction opcode index)
    (ho : 0xB6 ≤ opcode.toNat ∧ opcode.toNat ≤ 0xB9) : MemberPlace c .method index
  /-- A handle of a field. -/
  | fieldHandle {kind : UInt8} {index : UInt16} (h : c.PassesHandle kind index)
    (hk : 1 ≤ kind.toNat ∧ kind.toNat ≤ 4) : MemberPlace c .field index
  /-- A handle of a method. -/
  | methodHandle {kind : UInt8} {index : UInt16} (h : c.PassesHandle kind index)
    (hk : 5 ≤ kind.toNat ∧ kind.toNat ≤ 9) : MemberPlace c .method index

/-- A class file names a member of a class: by owner, name and descriptor. -/
inductive NamesMember (c : ClassFile) : MemberSort → String → String → String → Prop where
  /-- At a place for members. -/
  | ofPlace {sort : MemberSort} {index : UInt16} {m : MemberRef} (h : c.MemberPlace sort index)
    (hm : c.pool.member index = .ok m) (harray : m.owner.toList.head? ≠ some '[') :
    NamesMember c sort m.owner m.name m.descriptor
  /-- As the method around a local class. -/
  | enclosingMethod {a : Attribute} {owner method : UInt16} {class' name descriptor : String}
    (ha : a ∈ c.attributes) (hbody : a.body = .flat (.enclosingMethod owner method))
    (hne : method ≠ 0) (howner : c.pool.className owner = .ok class')
    (hmethod : c.pool.nameAndType method = .ok (name, descriptor)) :
    NamesMember c .method class' name descriptor

end ClassFile

/-! ### Traces without faults -/

namespace Trace

variable {α : Type} {found : List Event} {a b : Trace} {event : Event}

/-- Everything in a trace is one of the given events. -/
def Reported (found : List Event) (trace : Trace) : Prop :=
  ∀ step ∈ trace, ∃ event ∈ found, step = .ok event

@[simp]
theorem reported_append : Reported found (a ++ b) ↔ Reported found a ∧ Reported found b := by
  simp only [Reported, List.mem_append, or_imp, forall_and]

@[simp]
theorem reported_emit : Reported found (emit event) ↔ event ∈ found := by
  simp [Reported, emit]

@[simp]
theorem reported_resolve {value : Except FormatError α} {rest : α → Trace} :
    Reported found (resolve value rest) ↔ ∃ a, value = .ok a ∧ Reported found (rest a) := by
  cases value with
  | ok a => simp [resolve]
  | error cause => simp [Reported, resolve]

@[simp]
theorem reported_whenSome {value : Option α} {rest : α → Trace} :
    Reported found (whenSome value rest) ↔ ∀ a, value = some a → Reported found (rest a) := by
  cases value with
  | some a => simp [whenSome]
  | none => simp [Reported, whenSome]

@[simp]
theorem reported_flatMap {as : List α} {rest : α → Trace} :
    Reported found (as.flatMap rest) ↔ ∀ a ∈ as, Reported found (rest a) := by
  simp only [Reported, List.mem_flatMap]
  constructor
  · exact fun h a ha step hstep => h step ⟨a, ha, hstep⟩
  · exact fun h step ⟨a, ha, hstep⟩ => h a ha step hstep

/-- The events of a walk that reached its end are everything that it came across. -/
theorem reported_outcome {trace : Trace} (h : (outcome trace).fault = none) :
    Reported (outcome trace).events trace := by
  induction trace with
  | nil => exact List.forall_mem_nil _
  | cons step trace ih =>
    cases step with
    | error cause => cases h
    | ok first =>
      rw [outcome_cons_ok] at h ⊢
      refine List.forall_mem_cons.mpr ⟨⟨first, List.mem_cons_self, rfl⟩, fun step hstep => ?_⟩
      obtain ⟨event, hevent, rfl⟩ := ih h step hstep
      exact ⟨event, List.mem_cons_of_mem _ hevent, rfl⟩

end Trace

/-! ### What a walk reports -/

namespace Walk

open Trace

variable {w : Walk} {found : List Event} {owner target : Identity} {kind : ReferenceKind}
  {location : Option Nat} {index : UInt16} {name text : String} {attributes : List Attribute}

/-- The events report a use of a symbol by the file of a walk. -/
def Uses (w : Walk) (found : List Event) (target : Identity) : Prop :=
  ∃ kind owner location, Event.reference ⟨kind, w.file, target, owner, location⟩ ∈ found

/-- An index resolves, and the events report the uses of the classes that it names. -/
def Covers (w : Walk) (found : List Event) (naming : Naming) (index : UInt16) : Prop :=
  ∃ names, w.pool.classesAt naming index = .ok names ∧ ∀ name ∈ names, w.Uses found (.ofClass name)

theorem uses_of_reference (h : Reported found (w.reference kind target owner location)) :
    w.Uses found target :=
  ⟨kind, owner, location, reported_emit.mp h⟩

theorem uses_of_classReference (h : Reported found (w.classReference kind name owner location)) :
    w.Uses found (.ofClass name) :=
  uses_of_reference (reported_append.mp h).2

/-- Uses of the class itself are left out, and reported otherwise. -/
theorem uses_of_foreignReference (hthis : w.Uses found w.this)
    (h : Reported found (w.foreignReference kind name owner)) : w.Uses found (.ofClass name) := by
  rw [foreignReference] at h
  split at h
  · rename_i he
    rw [he]
    exact hthis
  · exact uses_of_classReference h

theorem covers_className (hname : w.pool.className index = .ok name)
    (h : w.Uses found (.ofClass name)) : w.Covers found .className index :=
  ⟨[name], by rw [Pool.classesAt, hname]; rfl, by simpa using h⟩

theorem covers_of_classReference
    (h : Reported found (resolve (w.pool.className index) fun name =>
      w.classReference kind name owner location)) : w.Covers found .className index := by
  obtain ⟨name, hname, h⟩ := reported_resolve.mp h
  exact covers_className hname (uses_of_classReference h)

theorem covers_of_nestTrace (hthis : w.Uses found w.this) (h : Reported found (w.nestTrace index)) :
    w.Covers found .className index := by
  obtain ⟨name, hname, h⟩ := reported_resolve.mp h
  exact covers_className hname (uses_of_foreignReference hthis h)

theorem covers_of_constantReference (hname : w.pool.className index = .ok name)
    (h : Reported found (w.constantReference kind name owner location)) :
    w.Covers found .constant index := by
  refine ⟨_, by rw [Pool.classesAt, hname]; rfl, fun class' hclass => ?_⟩
  exact uses_of_classReference (reported_whenSome.mp h class' (Option.mem_toList.mp hclass))

theorem covers_of_textReference (h : Reported found (w.textReference kind index owner)) :
    w.Covers found .descriptor index := by
  obtain ⟨text, htext, h⟩ := reported_resolve.mp h
  refine ⟨_, by rw [Pool.classesAt, htext]; rfl, fun name hname => ?_⟩
  exact uses_of_classReference (reported_whenSome.mp h name (Option.mem_toList.mp hname))

theorem mem_foldl_distinct {names seen : List String} (h : name ∈ seen ∨ name ∈ names) :
    name ∈ names.foldl (fun seen name => if seen.contains name then seen else name :: seen) seen := by
  induction names generalizing seen with
  | nil => simpa using h
  | cons first names ih =>
    refine ih ?_
    rw [List.mem_cons] at h
    dsimp only
    split
    · rename_i hfirst
      rcases h with h | rfl | h
      · exact .inl h
      · exact .inl (List.contains_iff_mem.mp hfirst)
      · exact .inr h
    · rw [List.mem_cons]
      tauto

/-- No text gets lost when repeated ones are dropped. -/
theorem mem_distinct {names : List String} (h : name ∈ names) : name ∈ distinct names :=
  List.mem_reverse.mpr (mem_foldl_distinct (.inr h))

theorem covers_of_signatureReferences (hthis : w.Uses found w.this)
    (htext : w.pool.text index = .ok text)
    (h : Reported found (w.signatureReferences kind text owner)) :
    w.Covers found .signature index := by
  refine ⟨_, by rw [Pool.classesAt, htext]; rfl, fun name hname => ?_⟩
  dsimp only at hname
  cases hclasses : Signature.classes? text with
  | none => simp [hclasses] at hname
  | some names =>
    rw [hclasses] at hname
    have hnames := reported_flatMap.mp (reported_whenSome.mp h names hclasses)
    exact uses_of_foreignReference hthis (hnames name (mem_distinct hname))

/-! ### Annotations -/

theorem pairsTrace_eq (pairs : List ElementPair) :
    w.pairsTrace owner pairs = pairs.flatMap fun pair => w.valueTrace owner pair.value := by
  induction pairs with
  | nil => rw [pairsTrace, List.flatMap_nil]
  | cons pair pairs ih =>
    cases pair
    rw [pairsTrace, pairTrace, ih, List.flatMap_cons]

theorem valuesTrace_eq (values : List ElementValue) :
    w.valuesTrace owner values = values.flatMap (w.valueTrace owner) := by
  induction values with
  | nil => rw [valuesTrace, List.flatMap_nil]
  | cons value values ih => rw [valuesTrace, ih, List.flatMap_cons]

theorem mem_sites_use {type : UInt16} {elements : List ElementPair} {x : TextSite} :
    x ∈ AnnotationUse.sites ⟨type, elements⟩ ↔
      x = ⟨.descriptor, type⟩ ∨ ∃ pair ∈ elements, x ∈ pair.value.sites := by
  simp [AnnotationUse.sites, ElementPair.sitesList_eq, ElementPair.sites_eq]

theorem covers_of_valueTrace {value : ElementValue}
    (h : Reported found (w.valueTrace owner value)) :
    ∀ x ∈ value.sites, w.Covers found .descriptor x.index := by
  induction value using ElementValue.induction with
  | leaf value =>
    rw [valueTrace] at h
    cases value with
    | const tag index => simp [ElementValue.sites, ElementLeaf.sites]
    | enumConst type name =>
      simpa [ElementValue.sites, ElementLeaf.sites] using covers_of_textReference h
    | classInfo descriptor =>
      simpa [ElementValue.sites, ElementLeaf.sites] using covers_of_textReference h
  | nested type elements ih =>
    rw [valueTrace, useTrace, reported_append, pairsTrace_eq, reported_flatMap] at h
    intro x hx
    rw [ElementValue.sites, mem_sites_use] at hx
    rcases hx with rfl | ⟨pair, hpair, hx⟩
    · exact covers_of_textReference h.1
    · exact ih pair hpair (h.2 pair hpair) x hx
  | array values ih =>
    rw [valueTrace, valuesTrace_eq, reported_flatMap] at h
    intro x hx
    rw [ElementValue.sites, ElementValue.sitesList_eq] at hx
    obtain ⟨value, hvalue, hx⟩ := List.mem_flatMap.mp hx
    exact ih value hvalue (h value hvalue) x hx

theorem covers_of_useTrace {use : AnnotationUse} (h : Reported found (w.useTrace owner kind use)) :
    ∀ x ∈ use.sites, w.Covers found .descriptor x.index := by
  cases use with
  | mk type elements =>
    rw [useTrace, reported_append, pairsTrace_eq, reported_flatMap] at h
    intro x hx
    rcases mem_sites_use.mp hx with rfl | ⟨pair, hpair, hx⟩
    · exact covers_of_textReference h.1
    · exact covers_of_valueTrace (h.2 pair hpair) x hx

/-! ### Parts of the walk -/

/-- A class is always reported to be the class of its file. -/
theorem uses_this (h : Reported found w.trace) : w.Uses found w.this := by
  simp only [trace, headTrace, reported_append, reported_resolve] at h
  obtain ⟨⟨⟨⟨signature, -, hhead⟩, -⟩, -⟩, -⟩ := h
  exact uses_of_reference hhead.1.1.1.1.2

/-- What is reported of a method. -/
theorem exists_of_mem_methods (h : Reported found w.trace) {m : Member}
    (hm : m ∈ w.classFile.methods) :
    ∃ identity descriptor signature parts, w.pool.text m.descriptor = .ok descriptor ∧
      w.pool.signatureOf m.attributes = .ok signature ∧
      Descriptor.methodParts descriptor = .ok parts ∧
      Reported found (whenSome signature (w.signatureReferences .signatureType · identity)) ∧
      Reported found (w.partsTrace identity parts) ∧
      Reported found (w.annotationsTrace identity m.attributes) ∧
      (∀ a ∈ m.attributes, Reported found (w.methodAttributeTrace identity a)) ∧
      ∀ body, Attribute.code? m.attributes = some body → Reported found (w.codeTrace identity body) := by
  rw [trace, reported_append, reported_flatMap] at h
  have hm := h.2 m hm
  simp only [methodTrace, reported_resolve, reported_append] at hm
  obtain ⟨name, -, descriptor, hdescriptor, signature, hsignature, hm⟩ := hm
  obtain ⟨⟨⟨⟨⟨-, hreferences⟩, parts, hparts, hpartsTrace⟩, hannotations⟩, hattributes⟩, hcode⟩ := hm
  exact ⟨_, descriptor, signature, parts, hdescriptor, hsignature, hparts, hreferences, hpartsTrace,
    hannotations, reported_flatMap.mp hattributes, reported_whenSome.mp hcode⟩

/-- What is reported of signatures and annotations. -/
theorem exists_of_carries (h : Reported found w.trace) (hc : w.classFile.Carries attributes) :
    ∃ owner signature, w.pool.signatureOf attributes = .ok signature ∧
      Reported found (whenSome signature (w.signatureReferences .signatureType · owner)) ∧
      Reported found (w.annotationsTrace owner attributes) := by
  cases hc with
  | ofClass =>
    simp only [trace, headTrace, reported_append, reported_resolve] at h
    obtain ⟨⟨⟨⟨signature, hsignature, hhead⟩, -⟩, -⟩, -⟩ := h
    exact ⟨w.this, signature, hsignature, hhead.2, hhead.1.2⟩
  | @ofField m hm =>
    simp only [trace, reported_append, reported_flatMap] at h
    have hm := h.1.2 m hm
    simp only [fieldTrace, reported_resolve, reported_append] at hm
    obtain ⟨name, -, descriptor, -, signature, hsignature, ⟨-, hreferences⟩, hannotations⟩ := hm
    exact ⟨_, signature, hsignature, hreferences, hannotations⟩
  | ofMethod hm =>
    obtain ⟨identity, -, signature, -, -, hsignature, -, hreferences, -, hannotations, -⟩ :=
      exists_of_mem_methods h hm
    exact ⟨identity, signature, hsignature, hreferences, hannotations⟩
  | @ofComponent a components x ha hbody hx =>
    simp only [trace, reported_append, reported_flatMap] at h
    have ha := h.1.1.2 a ha
    rw [classAttributeTrace, hbody] at ha
    have hx := reported_flatMap.mp ha x hx
    simp only [componentTrace, reported_append, reported_resolve] at hx
    obtain ⟨⟨-, signature, hsignature, hreferences⟩, hannotations⟩ := hx
    exact ⟨w.this, signature, hsignature, hreferences, hannotations⟩

/-- What is reported of a body. -/
theorem exists_of_hasBody (h : Reported found w.trace) {body : CodeBody}
    (hb : w.classFile.HasBody body) : ∃ owner, Reported found (w.codeTrace owner body) := by
  obtain ⟨m, hm, hcode⟩ := hb
  obtain ⟨identity, -, -, -, -, -, -, -, -, -, -, hbody⟩ := exists_of_mem_methods h hm
  exact ⟨identity, hbody body hcode⟩

/-- What is reported of an instruction. -/
theorem exists_of_hasInstruction (h : Reported found w.trace) {opcode : UInt8}
    (hi : w.classFile.HasInstruction opcode index) :
    ∃ owner location, Reported found (w.indexTrace owner opcode location index) := by
  obtain ⟨body, hb, i, hi, rfl, hindex⟩ := hi
  obtain ⟨owner, hbody⟩ := exists_of_hasBody h hb
  rw [codeTrace, reported_append, reported_flatMap] at hbody
  exact ⟨owner, some i.offset, reported_whenSome.mp (hbody.2 i hi) index hindex⟩

/-! ### Places -/

theorem covers_of_signature? (h : Reported found w.trace) (hc : w.classFile.Carries attributes)
    (hi : Attribute.signature? attributes = some index) : w.Covers found .signature index := by
  obtain ⟨owner, signature, hsignature, hreferences, -⟩ := exists_of_carries h hc
  rw [Pool.signatureOf, hi] at hsignature
  obtain ⟨text, htext, rfl⟩ := Except.map_eq_ok_iff.mp hsignature
  exact covers_of_signatureReferences (uses_this h) htext (reported_whenSome.mp hreferences text rfl)

theorem covers_of_methodDescriptor (h : Reported found w.trace) {m : Member}
    (hm : m ∈ w.classFile.methods) : w.Covers found .methodDescriptor m.descriptor := by
  obtain ⟨identity, descriptor, -, parts, hdescriptor, -, hparts, -, htrace, -⟩ :=
    exists_of_mem_methods h hm
  rw [partsTrace, reported_append, reported_flatMap] at htrace
  have hnames : w.pool.classesAt .methodDescriptor m.descriptor =
      .ok ((parts.result :: parts.parameters).filterMap Descriptor.fieldClass?) :=
    Except.bind_eq_ok_iff.mpr ⟨_, hdescriptor, Except.bind_eq_ok_iff.mpr ⟨_, hparts, rfl⟩⟩
  refine ⟨_, hnames, fun name hname => ?_⟩
  obtain ⟨part, hpart, hname⟩ := List.mem_filterMap.mp hname
  rcases List.mem_cons.mp hpart with rfl | hpart
  · exact uses_of_classReference (reported_whenSome.mp htrace.1 name hname)
  · exact uses_of_classReference (reported_whenSome.mp (htrace.2 part hpart) name hname)

/-- Whether local variables have signatures is told by the name of their table. -/
theorem namesGenericTable_eq (h : w.pool.text index = .ok name) :
    w.pool.namesGenericTable index = (name == "LocalVariableTypeTable") := by
  rw [Pool.text] at h
  split at h
  · rename_i value hvalue
    rw [Pool.namesGenericTable, hvalue, ← Except.ok.inj h, Bool.eq_iff_iff]
    simp
  · cases h

theorem covers_of_localVariable (h : Reported found w.trace) {body : CodeBody} {a : Attribute}
    {entries : List LocalVariable} {v : LocalVariable} (hb : w.classFile.HasBody body)
    (ha : a ∈ body.attributes) (hbody : a.body = .flat (.localVariables entries)) (hv : v ∈ entries) :
    w.Covers found (if w.pool.namesGenericTable a.name then .signature else .descriptor)
      v.descriptor := by
  obtain ⟨owner, hcode⟩ := exists_of_hasBody h hb
  simp only [codeTrace, reported_append, reported_flatMap] at hcode
  have ha := hcode.1.2 a ha
  rw [codeAttributeTrace, hbody] at ha
  obtain ⟨name, hname, hentries⟩ := reported_resolve.mp ha
  obtain ⟨text, htext, hv⟩ := reported_resolve.mp (reported_flatMap.mp hentries v hv)
  rw [namesGenericTable_eq hname]
  split at hv
  · rename_i hname
    rw [if_pos hname]
    exact covers_of_signatureReferences (uses_this h) htext hv
  · rename_i hname
    rw [if_neg hname]
    refine ⟨_, by rw [Pool.classesAt, htext]; rfl, fun class' hclass => ?_⟩
    exact uses_of_foreignReference (uses_this h)
      (reported_whenSome.mp hv class' (Option.mem_toList.mp hclass))

theorem covers_of_typeInstruction (h : Reported found w.trace) {opcode : UInt8}
    (hi : w.classFile.HasInstruction opcode index) (ho : opcode ∈ ClassFile.typeOpcodes) :
    w.Covers found .constant index := by
  obtain ⟨owner, location, h⟩ := exists_of_hasInstruction h hi
  rw [indexTrace, if_pos (ClassFile.mem_typeOpcodes_iff.mp ho), reported_resolve] at h
  obtain ⟨name, hname, h⟩ := h
  exact covers_of_constantReference hname h

theorem covers_of_classConstant (h : Reported found w.trace) {opcode : UInt8} {nameIndex : UInt16}
    (hi : w.classFile.HasInstruction opcode index) (ho : opcode = 0x12 ∨ opcode = 0x13)
    (hname : w.pool.get? index = some (.classRef nameIndex)) : w.Covers found .constant index := by
  obtain ⟨owner, location, h⟩ := exists_of_hasInstruction h hi
  have hget : w.pool.get index = .ok (.classRef nameIndex) := by
    rw [Pool.get, hname]
  have hload : w.indexTrace owner opcode location index =
      resolve (w.pool.text nameIndex) fun name =>
        w.constantReference .classConstant name owner location := by
    rcases ho with rfl | rfl <;> simp [indexTrace, hget, resolve]
  rw [hload, reported_resolve] at h
  obtain ⟨name, htext, h⟩ := h
  refine covers_of_constantReference ?_ h
  rw [Pool.className, hname]
  exact htext

/-- What is reported of an attribute of the class. -/
theorem reported_classAttribute (h : Reported found w.trace) {a : Attribute}
    (ha : a ∈ w.classFile.attributes) : Reported found (w.classAttributeTrace a) := by
  simp only [trace, reported_append, reported_flatMap] at h
  exact h.1.1.2 a ha

/-- **A walk reports the classes that are named at a place.** Every such index resolves, and the file
is reported to use the classes that it names. -/
theorem covers_of_place (hname : w.classFile.name = .ok w.name) (h : Reported found w.trace)
    {naming : Naming} (hp : w.classFile.Place naming index) : w.Covers found naming index := by
  have hthis := uses_this h
  cases hp with
  | this => exact covers_className hname hthis
  | superclass hne =>
    simp only [trace, headTrace, reported_append, reported_resolve] at h
    obtain ⟨⟨⟨⟨signature, -, ⟨⟨⟨-, super, hsuper, hreference⟩, -⟩, -⟩, -⟩, -⟩, -⟩, -⟩ := h
    rw [ClassFile.superName, if_neg hne] at hsuper
    obtain ⟨name, hname, rfl⟩ := Except.map_eq_ok_iff.mp hsuper
    exact covers_className hname (uses_of_classReference (reported_whenSome.mp hreference name rfl))
  | interface hi =>
    simp only [trace, headTrace, reported_append, reported_resolve] at h
    obtain ⟨⟨⟨⟨signature, -, ⟨⟨-, names, hnames, hreferences⟩, -⟩, -⟩, -⟩, -⟩, -⟩ := h
    obtain ⟨name, hmem, hname⟩ := Except.exists_of_forall₂ (Except.mapM_eq_ok_iff.mp hnames) hi
    exact covers_className hname (uses_of_classReference (reported_flatMap.mp hreferences name hmem))
  | signature hc hi => exact covers_of_signature? h hc hi
  | annotation hc huse hx =>
    obtain ⟨owner, -, -, -, hannotations⟩ := exists_of_carries h hc
    exact covers_of_useTrace (reported_flatMap.mp hannotations _ huse) _ hx
  | methodDescriptor hm => exact covers_of_methodDescriptor h hm
  | thrown hm ha hbody hi =>
    obtain ⟨identity, -, -, -, -, -, -, -, -, -, hattributes, -⟩ := exists_of_mem_methods h hm
    have ha := hattributes _ ha
    rw [methodAttributeTrace, hbody] at ha
    exact covers_of_classReference (reported_flatMap.mp ha _ hi)
  | annotationDefault hm ha hbody hx =>
    obtain ⟨identity, -, -, -, -, -, -, -, -, -, hattributes, -⟩ := exists_of_mem_methods h hm
    have ha := hattributes _ ha
    rw [methodAttributeTrace, hbody] at ha
    exact covers_of_valueTrace ha _ hx
  | caught hb hh hne =>
    obtain ⟨owner, hcode⟩ := exists_of_hasBody h hb
    simp only [codeTrace, reported_append, reported_flatMap] at hcode
    have hh := hcode.1.1 _ hh
    rw [handlerTrace, if_neg hne] at hh
    exact covers_of_classReference hh
  | localVariable hb ha hbody hv => exact covers_of_localVariable h hb ha hbody hv
  | codeAnnotation hb ha hbody ht hx =>
    obtain ⟨owner, hcode⟩ := exists_of_hasBody h hb
    simp only [codeTrace, reported_append, reported_flatMap] at hcode
    have ha := hcode.1.2 _ ha
    rw [codeAttributeTrace, hbody] at ha
    exact covers_of_useTrace (reported_flatMap.mp ha _ ht) _ hx
  | typeInstruction hi ho => exact covers_of_typeInstruction h hi ho
  | classConstant hi ho hname => exact covers_of_classConstant h hi ho hname
  | nestMember ha hbody hi =>
    have ha := reported_classAttribute h ha
    rw [classAttributeTrace, hbody] at ha
    exact covers_of_nestTrace hthis (reported_flatMap.mp ha _ hi)
  | nestHost ha hbody =>
    have ha := reported_classAttribute h ha
    rw [classAttributeTrace, hbody] at ha
    exact covers_of_nestTrace hthis ha
  | innerClass ha hbody he =>
    have ha := reported_classAttribute h ha
    rw [classAttributeTrace, hbody] at ha
    exact covers_of_nestTrace hthis (reported_append.mp (reported_flatMap.mp ha _ he)).1
  | outerClass ha hbody he hne =>
    have ha := reported_classAttribute h ha
    rw [classAttributeTrace, hbody] at ha
    have he := (reported_append.mp (reported_flatMap.mp ha _ he)).2
    rw [if_neg hne] at he
    exact covers_of_nestTrace hthis he
  | enclosingClass ha hbody =>
    have ha := reported_classAttribute h ha
    rw [classAttributeTrace, hbody] at ha
    obtain ⟨name, hname, henclosing⟩ := reported_resolve.mp ha
    exact covers_className hname (uses_of_classReference (reported_append.mp henclosing).1)
  | component ha hbody hx =>
    have ha := reported_classAttribute h ha
    rw [classAttributeTrace, hbody] at ha
    have hx := reported_flatMap.mp ha _ hx
    simp only [componentTrace, reported_append] at hx
    exact covers_of_textReference hx.1.1

/-! ### Members -/

/-- The events report a member and its use by the file of a walk. -/
def UsesMember (w : Walk) (found : List Event) (identity : Identity) : Prop :=
  (∃ symbol, symbol.identity = identity ∧ Event.symbol symbol ∈ found) ∧ w.Uses found identity

/-- The identity of a mentioned member is made of the parts of the reference. -/
theorem identity_memberSymbol {sort : MemberSort} (hsort : kind.targetKind.memberSort? = some sort)
    (m : MemberRef) : (memberSymbol kind m).identity =
      MemberPath.identity ⟨.ofClass m.owner, m.name, m.descriptor⟩ sort := by
  rw [memberSymbol]
  cases htarget : kind.targetKind with
  | classSymbol => simp [htarget, SymbolKind.memberSort?] at hsort
  | fieldSymbol =>
    obtain rfl : MemberSort.field = sort := by simpa [htarget, SymbolKind.memberSort?] using hsort
    rfl
  | methodSymbol =>
    obtain rfl : MemberSort.method = sort := by simpa [htarget, SymbolKind.memberSort?] using hsort
    rfl

theorem usesMember_of_memberReference {sort : MemberSort} {m : MemberRef}
    (hsort : kind.targetKind.memberSort? = some sort) (hm : w.pool.member index = .ok m)
    (harray : m.owner.toList.head? ≠ some '[')
    (h : Reported found (w.memberReference index kind owner location)) :
    w.UsesMember found (MemberPath.identity ⟨.ofClass m.owner, m.name, m.descriptor⟩ sort) := by
  obtain ⟨m', hm', h⟩ := reported_resolve.mp h
  obtain rfl : m = m' := Except.ok.inj (hm.symm.trans hm')
  simp only [if_neg harray, reported_append, reported_emit] at h
  rw [← identity_memberSymbol hsort m]
  exact ⟨⟨_, rfl, h.1.2⟩, uses_of_reference h.2⟩

/-- What is reported of a handle. -/
theorem exists_of_passesHandle (h : Reported found w.trace) {handle : UInt8} {reference : UInt16}
    (hh : w.classFile.PassesHandle handle reference) :
    ∃ owner location argument, w.pool.get argument = .ok (.methodHandle handle reference) ∧
      Reported found (w.argumentTrace owner location argument) := by
  obtain ⟨index, bootstrap, nameType, method, argument, hi, hsite, hmethod, hargument, hhandle⟩ := hh
  obtain ⟨owner, location, h⟩ := exists_of_hasInstruction h hi
  have hget : w.pool.get index = .ok (.invokeDynamic bootstrap nameType) := by
    rw [Pool.get, Walk.pool, hsite]
  have htrace : w.indexTrace owner 0xBA location index = w.callSiteTrace owner location index := by
    simp [indexTrace]
  rw [htrace, callSiteTrace, hget] at h
  obtain ⟨_, he, h⟩ := reported_resolve.mp h
  obtain rfl := Except.ok.inj he
  have h := reported_flatMap.mp (reported_whenSome.mp h method hmethod) argument hargument
  exact ⟨owner, location, argument, by rw [Pool.get, Walk.pool, hhandle], h⟩

/-- **A walk reports the members that are named**, with a use by the file. -/
theorem usesMember_of_namesMember (h : Reported found w.trace) {sort : MemberSort}
    {class' descriptor : String} (hm : w.classFile.NamesMember sort class' name descriptor) :
    w.UsesMember found (MemberPath.identity ⟨.ofClass class', name, descriptor⟩ sort) := by
  cases hm with
  | ofPlace hp hm harray =>
    cases hp with
    | fieldInstruction hi ho =>
      obtain ⟨owner, location, h⟩ := exists_of_hasInstruction h hi
      rw [indexTrace, if_neg (by omega), if_pos ho] at h
      exact usesMember_of_memberReference rfl hm harray h
    | methodInstruction hi ho =>
      obtain ⟨owner, location, h⟩ := exists_of_hasInstruction h hi
      rw [indexTrace, if_neg (by omega), if_neg (by omega), if_pos ho] at h
      exact usesMember_of_memberReference rfl hm harray h
    | fieldHandle hh hk =>
      obtain ⟨owner, location, argument, hget, h⟩ := exists_of_passesHandle h hh
      simp only [argumentTrace, hget, resolve, if_pos hk] at h
      exact usesMember_of_memberReference rfl hm harray h
    | @methodHandle handle index hh hk =>
      obtain ⟨owner, location, argument, hget, h⟩ := exists_of_passesHandle h hh
      have hne : ¬(1 ≤ handle.toNat ∧ handle.toNat ≤ 4) := by omega
      simp only [argumentTrace, hget, resolve, if_neg hne, if_pos hk] at h
      exact usesMember_of_memberReference rfl hm harray h
  | enclosingMethod ha hbody hne howner hmethod =>
    have ha := reported_classAttribute h ha
    rw [classAttributeTrace, hbody] at ha
    simp only [enclosingTrace, reported_resolve, reported_append, if_neg hne] at ha
    obtain ⟨_, hclass, -, ⟨_, _⟩, hmethod', hsymbol, hreference⟩ := ha
    obtain rfl := Except.ok.inj (howner.symm.trans hclass)
    obtain ⟨rfl, rfl⟩ := Prod.mk.inj (Except.ok.inj (hmethod.symm.trans hmethod'))
    refine ⟨⟨.ofMethod class' name descriptor, rfl, reported_emit.mp hsymbol⟩, ?_⟩
    exact uses_of_reference hreference

end Walk

/-! ### Files -/

/-- A file without bytes holds no class. -/
theorem FileRow.bytes_eq_nil {file : FileRow} (h : file.content.all Content.isEmpty) :
    file.bytes = [] := by
  rw [bytes]
  cases hcontent : file.content with
  | none => rfl
  | some content => cases content <;> simp_all [Content.isEmpty, Content.plain]

/-- A class file that was walked over to its end is reported. -/
theorem FileRow.exists_reported {file : FileRow} {c : ClassFile} (hdirectory : file.isDirectory = false)
    (hdecode : ClassFile.decode file.bytes = .ok c)
    (hwhole : file.findings.2 = .mapped ∨ file.findings.2 = .empty) :
    ∃ name, c.name = .ok name ∧ Trace.Reported file.findings.1 (Walk.trace ⟨c, name, file.id⟩) := by
  have hbytes : file.content.all Content.isEmpty = false := by
    by_contra hempty
    rw [bytes_eq_nil (by simpa using hempty)] at hdecode
    cases hdecode
  rw [FileRow.findings, hdirectory, hbytes, Bool.or_false, if_neg Bool.false_ne_true] at hwhole ⊢
  split at hwhole
  · simp at hwhole
  · rename_i hmagic
    rw [if_neg hmagic]
    simp only [hdecode] at hwhole ⊢
    cases hname : c.name with
    | error cause => simp [ClassFile.visit, hname] at hwhole
    | ok name =>
      simp only [ClassFile.visit, hname] at hwhole ⊢
      refine ⟨name, rfl, Trace.reported_outcome ?_⟩
      cases hfault : (Walk.trace ⟨c, name, file.id⟩).outcome.fault with
      | none => rfl
      | some cause => simp [hfault] at hwhole

end ClassAtlas
