import ClassAtlas.ClassFile.Annotation

/-!
# Attributes

Classes, members, method bodies and record components carry attributes. An attribute is known by
the text of its name; attributes with other names than the ones below are kept as raw bytes.

## Main definitions

* `ClassAtlas.FlatBody` — the bodies of attributes that hold no further attributes.
* `ClassAtlas.Attribute`, `ClassAtlas.AttributeBody` — attributes.
* `ClassAtlas.CodeBody`, `ClassAtlas.RecordComponent` — the bodies that hold further attributes.
* `ClassAtlas.Attribute.signature?`, `ClassAtlas.Attribute.annotationsOf` — lookups in a list.
-/

set_option autoImplicit false

namespace ClassAtlas

/-- An exception handler of a method body. -/
structure ExceptionHandler where
  /-- The offset of the first guarded instruction. -/
  start : UInt16
  /-- The offset after the last guarded instruction. -/
  stop : UInt16
  /-- The offset of the handler. -/
  handler : UInt16
  /-- The class that is caught; zero for any. -/
  catchType : UInt16
  deriving DecidableEq, Repr

/-- A bootstrap method with its static arguments. -/
structure BootstrapMethod where
  /-- The handle of the method. -/
  method : UInt16
  /-- The constants that it is called with. -/
  arguments : List UInt16
  deriving DecidableEq, Repr

/-- A local variable of a method body. -/
structure LocalVariable where
  /-- The offset from which on the variable has a value. -/
  start : UInt16
  /-- The length of the range in which it has one. -/
  length : UInt16
  /-- The text of its name. -/
  name : UInt16
  /-- The text of its descriptor, or of its signature in a table of generic types. -/
  descriptor : UInt16
  /-- Its slot. -/
  slot : UInt16
  deriving DecidableEq, Repr

/-- An entry of the table of member, local and anonymous classes. -/
structure InnerClass where
  /-- The class. -/
  inner : UInt16
  /-- The class of which it is a member; zero for none. -/
  outer : UInt16
  /-- The text of its simple name; zero for anonymous classes. -/
  name : UInt16
  /-- Its access flags. -/
  flags : UInt16
  deriving DecidableEq, Repr

/-- The bodies of attributes that hold no further attributes. -/
inductive FlatBody where
  /-- The generic signature of a class, a member or a record component. -/
  | signature (index : UInt16)
  /-- Annotations. -/
  | annotations (values : List AnnotationUse)
  /-- Annotations for each parameter of a method. -/
  | parameterAnnotations (values : List (List AnnotationUse))
  /-- The default of an annotation's element. -/
  | annotationDefault (value : ElementValue)
  /-- The bootstrap methods of a class. -/
  | bootstrapMethods (methods : List BootstrapMethod)
  /-- Local variables with their descriptors or signatures. -/
  | localVariables (entries : List LocalVariable)
  /-- The class and the method (or zero) around a local class. -/
  | enclosingMethod (owner method : UInt16)
  /-- Classes: thrown types, members of a nest or permitted subclasses. -/
  | classes (indices : List UInt16)
  /-- The host of a nest. -/
  | nestHost (index : UInt16)
  /-- Member, local and anonymous classes. -/
  | innerClasses (entries : List InnerClass)
  /-- Annotations of uses of types. -/
  | typeAnnotations (values : List TypeAnnotationUse)
  /-- The bytes of any other attribute. -/
  | raw (bytes : List UInt8)
  deriving DecidableEq

mutual

/-- An attribute. -/
structure Attribute where
  /-- The text of its name. -/
  name : UInt16
  /-- What it holds. -/
  body : AttributeBody

/-- What an attribute holds. -/
inductive AttributeBody where
  /-- A body without further attributes. -/
  | flat (body : FlatBody)
  /-- The body of a method. -/
  | code (body : CodeBody)
  /-- The components of a record. -/
  | record (components : List RecordComponent)

/-- The body of a method. -/
structure CodeBody where
  /-- The depth of the operand stack. -/
  maxStack : UInt16
  /-- The number of local variable slots. -/
  maxLocals : UInt16
  /-- The instructions. -/
  code : List UInt8
  /-- The exception handlers. -/
  handlers : List ExceptionHandler
  /-- The attributes of the body. -/
  attributes : List Attribute

/-- A component of a record. -/
structure RecordComponent where
  /-- The text of its name. -/
  name : UInt16
  /-- The text of its descriptor. -/
  descriptor : UInt16
  /-- Its attributes. -/
  attributes : List Attribute

end

/-! ### Equality -/

mutual

/-- Equality of attributes is decidable. -/
def Attribute.decEq : (a b : Attribute) → Decidable (a = b)
  | ⟨name, body⟩, ⟨name', body'⟩ =>
    if h : name = name' then
      match AttributeBody.decEq body body' with
      | isTrue h' => isTrue (by rw [h, h'])
      | isFalse h' => isFalse fun e => h' (congrArg Attribute.body e)
    else isFalse fun e => h (congrArg Attribute.name e)

/-- Equality of attribute bodies is decidable. -/
def AttributeBody.decEq : (a b : AttributeBody) → Decidable (a = b)
  | .flat a, .flat b =>
    if h : a = b then isTrue (by rw [h]) else isFalse fun e => h (by injection e)
  | .code a, .code b =>
    match CodeBody.decEq a b with
    | isTrue h => isTrue (by rw [h])
    | isFalse h => isFalse fun e => h (by injection e)
  | .record a, .record b =>
    match RecordComponent.decEqList a b with
    | isTrue h => isTrue (by rw [h])
    | isFalse h => isFalse fun e => h (by injection e)
  | .flat _, .code _ => isFalse nofun
  | .flat _, .record _ => isFalse nofun
  | .code _, .flat _ => isFalse nofun
  | .code _, .record _ => isFalse nofun
  | .record _, .flat _ => isFalse nofun
  | .record _, .code _ => isFalse nofun

/-- Equality of method bodies is decidable. -/
def CodeBody.decEq : (a b : CodeBody) → Decidable (a = b)
  | ⟨maxStack, maxLocals, code, handlers, attributes⟩,
    ⟨maxStack', maxLocals', code', handlers', attributes'⟩ =>
    if h : maxStack = maxStack' ∧ maxLocals = maxLocals' ∧ code = code' ∧ handlers = handlers' then
      match Attribute.decEqList attributes attributes' with
      | isTrue h' => isTrue (by rw [h.1, h.2.1, h.2.2.1, h.2.2.2, h'])
      | isFalse h' => isFalse fun e => h' (congrArg CodeBody.attributes e)
    else isFalse fun e => h ⟨congrArg CodeBody.maxStack e, congrArg CodeBody.maxLocals e,
      congrArg CodeBody.code e, congrArg CodeBody.handlers e⟩

/-- Equality of record components is decidable. -/
def RecordComponent.decEq : (a b : RecordComponent) → Decidable (a = b)
  | ⟨name, descriptor, attributes⟩, ⟨name', descriptor', attributes'⟩ =>
    if h : name = name' ∧ descriptor = descriptor' then
      match Attribute.decEqList attributes attributes' with
      | isTrue h' => isTrue (by rw [h.1, h.2, h'])
      | isFalse h' => isFalse fun e => h' (congrArg RecordComponent.attributes e)
    else isFalse fun e => h ⟨congrArg RecordComponent.name e, congrArg RecordComponent.descriptor e⟩

/-- Equality of lists of attributes is decidable. -/
def Attribute.decEqList : (as bs : List Attribute) → Decidable (as = bs)
  | [], [] => isTrue rfl
  | [], _ :: _ => isFalse nofun
  | _ :: _, [] => isFalse nofun
  | a :: as, b :: bs =>
    match Attribute.decEq a b with
    | isTrue h =>
      match Attribute.decEqList as bs with
      | isTrue h' => isTrue (by rw [h, h'])
      | isFalse h' => isFalse fun e => h' (by injection e)
    | isFalse h => isFalse fun e => h (by injection e)

/-- Equality of lists of record components is decidable. -/
def RecordComponent.decEqList : (as bs : List RecordComponent) → Decidable (as = bs)
  | [], [] => isTrue rfl
  | [], _ :: _ => isFalse nofun
  | _ :: _, [] => isFalse nofun
  | a :: as, b :: bs =>
    match RecordComponent.decEq a b with
    | isTrue h =>
      match RecordComponent.decEqList as bs with
      | isTrue h' => isTrue (by rw [h, h'])
      | isFalse h' => isFalse fun e => h' (by injection e)
    | isFalse h => isFalse fun e => h (by injection e)

end

instance : DecidableEq Attribute := Attribute.decEq

instance : DecidableEq AttributeBody := AttributeBody.decEq

instance : DecidableEq CodeBody := CodeBody.decEq

instance : DecidableEq RecordComponent := RecordComponent.decEq

/-! ### Lookups in a list of attributes -/

namespace Attribute

/-- The text index of the first signature among attributes. -/
def signature? (attributes : List Attribute) : Option UInt16 :=
  attributes.findSome? fun a =>
    match a.body with
    | .flat (.signature index) => some index
    | _ => none

/-- The first method body among attributes. -/
def code? (attributes : List Attribute) : Option CodeBody :=
  attributes.findSome? fun a =>
    match a.body with
    | .code body => some body
    | _ => none

/-- The first table of bootstrap methods among attributes; empty if there is none. -/
def bootstrapMethodsOf (attributes : List Attribute) : List BootstrapMethod :=
  (attributes.findSome? fun a =>
    match a.body with
    | .flat (.bootstrapMethods methods) => some methods
    | _ => none).getD []

/-- The annotations that an attribute holds, those of parameters and of uses of types included. -/
def annotations (a : Attribute) : List AnnotationUse :=
  match a.body with
  | .flat (.annotations values) => values
  | .flat (.parameterAnnotations values) => values.flatten
  | .flat (.typeAnnotations values) => values.map TypeAnnotationUse.use
  | _ => []

/-- All annotations among attributes, in order. -/
def annotationsOf (attributes : List Attribute) : List AnnotationUse :=
  attributes.flatMap annotations

end Attribute

end ClassAtlas
