import ClassAtlas.ClassFile.Basic

/-!
# Writing class files

Every structure is written as its fields in order. The number of entries of a table is written as a
word of fixed size, so of a longer table only the residue of its length is recorded.

## Main definitions

* `ClassAtlas.FlatBody.encode`, `ClassAtlas.Attribute.encode` — attributes as bytes.
* `ClassAtlas.ClassFile.encode` — a class file as bytes.
-/

set_option autoImplicit false

namespace ClassAtlas

open Bytes

/-- An exception handler as bytes. -/
def ExceptionHandler.encode (h : ExceptionHandler) : List UInt8 :=
  u2 h.start ++ u2 h.stop ++ u2 h.handler ++ u2 h.catchType

/-- A bootstrap method as bytes. -/
def BootstrapMethod.encode (m : BootstrapMethod) : List UInt8 :=
  u2 m.method ++ table u2 m.arguments

/-- A local variable as bytes. -/
def LocalVariable.encode (v : LocalVariable) : List UInt8 :=
  u2 v.start ++ u2 v.length ++ u2 v.name ++ u2 v.descriptor ++ u2 v.slot

/-- An entry of the table of inner classes as bytes. -/
def InnerClass.encode (c : InnerClass) : List UInt8 :=
  u2 c.inner ++ u2 c.outer ++ u2 c.name ++ u2 c.flags

/-- The body of an attribute without further attributes as bytes. -/
def FlatBody.encode : FlatBody → List UInt8
  | signature index => u2 index
  | annotations values => table AnnotationUse.encode values
  | parameterAnnotations values =>
    UInt8.ofNat values.length :: values.flatMap (table AnnotationUse.encode)
  | annotationDefault value => value.encode
  | bootstrapMethods methods => table BootstrapMethod.encode methods
  | localVariables entries => table LocalVariable.encode entries
  | enclosingMethod owner method => u2 owner ++ u2 method
  | classes indices => table u2 indices
  | nestHost index => u2 index
  | innerClasses entries => table InnerClass.encode entries
  | typeAnnotations values => table TypeAnnotationUse.encode values
  | raw bytes => bytes

mutual

/-- An attribute as bytes: its name, the length of its body and its body. -/
def Attribute.encode : Attribute → List UInt8
  | ⟨name, body⟩ =>
    let bytes := body.encode
    u2 name ++ u4 (UInt32.ofNat bytes.length) ++ bytes

/-- The body of an attribute as bytes. -/
def AttributeBody.encode : AttributeBody → List UInt8
  | .flat body => body.encode
  | .code body => body.encode
  | .record components =>
    u2 (UInt16.ofNat components.length) ++ RecordComponent.encodeList components

/-- The body of a method as bytes. -/
def CodeBody.encode : CodeBody → List UInt8
  | ⟨maxStack, maxLocals, code, handlers, attributes⟩ =>
    u2 maxStack ++ u2 maxLocals ++ u4 (UInt32.ofNat code.length) ++ code ++
      table ExceptionHandler.encode handlers ++
      (u2 (UInt16.ofNat attributes.length) ++ Attribute.encodeList attributes)

/-- A component of a record as bytes. -/
def RecordComponent.encode : RecordComponent → List UInt8
  | ⟨name, descriptor, attributes⟩ =>
    u2 name ++ u2 descriptor ++
      (u2 (UInt16.ofNat attributes.length) ++ Attribute.encodeList attributes)

/-- Attributes as bytes, without their number. -/
def Attribute.encodeList : List Attribute → List UInt8
  | [] => []
  | a :: attributes => a.encode ++ Attribute.encodeList attributes

/-- Components of a record as bytes, without their number. -/
def RecordComponent.encodeList : List RecordComponent → List UInt8
  | [] => []
  | c :: components => c.encode ++ RecordComponent.encodeList components

end

/-- Attributes behind their number. -/
def Attribute.encodeTable (attributes : List Attribute) : List UInt8 :=
  table Attribute.encode attributes

/-- A member as bytes. -/
def Member.encode (m : Member) : List UInt8 :=
  u2 m.access ++ u2 m.name ++ u2 m.descriptor ++ Attribute.encodeTable m.attributes

/-- A class file as bytes. -/
def ClassFile.encode (c : ClassFile) : List UInt8 :=
  magic ++ (u2 c.minor ++ (u2 c.major ++ (c.pool.encode ++ (u2 c.access ++ (u2 c.thisClass ++
    (u2 c.superClass ++ (table u2 c.interfaces ++ (table Member.encode c.fields ++
      (table Member.encode c.methods ++ Attribute.encodeTable c.attributes)))))))))

end ClassAtlas
