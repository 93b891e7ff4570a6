import ClassAtlas.ClassFile.Basic

/-!
# Reading class files

Reading checks the shape of every structure and that the names and descriptors of members, the
descriptors of record components, the names of attributes and the name of the class itself resolve
in the pool. An attribute has to fill its body exactly.

## Main definitions

* `ClassAtlas.FlatBody.reader?` — the reader for an attribute of a given name.
* `ClassAtlas.Attribute.read` — attributes.
* `ClassAtlas.ClassFile.decode` — a class file from bytes.
-/

set_option autoImplicit false

namespace ClassAtlas

open Bytes

/-- Reads an exception handler. -/
def ExceptionHandler.read : Reader ExceptionHandler := do
  return ⟨← Reader.u2, ← Reader.u2, ← Reader.u2, ← Reader.u2⟩

/-- Reads a bootstrap method. -/
def BootstrapMethod.read : Reader BootstrapMethod := do
  return ⟨← Reader.u2, ← Reader.table Reader.u2⟩

/-- Reads a local variable. -/
def LocalVariable.read : Reader LocalVariable := do
  return ⟨← Reader.u2, ← Reader.u2, ← Reader.u2, ← Reader.u2, ← Reader.u2⟩

/-- Reads an entry of the table of inner classes. -/
def InnerClass.read : Reader InnerClass := do
  return ⟨← Reader.u2, ← Reader.u2, ← Reader.u2, ← Reader.u2⟩

/-- The reader for the body of an attribute of the given name, unless it is kept as raw bytes or
holds further attributes. The bound is on the depth of values of annotations. -/
def FlatBody.reader? (name : String) (depth : Nat) : Option (Reader FlatBody) :=
  match name with
  | "Signature" => some do return signature (← Reader.u2)
  | "RuntimeVisibleAnnotations" | "RuntimeInvisibleAnnotations" =>
    some do return annotations (← Reader.table (AnnotationUse.read depth))
  | "RuntimeVisibleParameterAnnotations" | "RuntimeInvisibleParameterAnnotations" =>
    some do
      let count ← Reader.u1
      return parameterAnnotations
        (← Reader.replicate count.toNat (Reader.table (AnnotationUse.read depth)))
  | "AnnotationDefault" => some do return annotationDefault (← ElementValue.read depth)
  | "BootstrapMethods" => some do return bootstrapMethods (← Reader.table BootstrapMethod.read)
  | "LocalVariableTable" | "LocalVariableTypeTable" =>
    some do return localVariables (← Reader.table LocalVariable.read)
  | "EnclosingMethod" => some do return enclosingMethod (← Reader.u2) (← Reader.u2)
  | "Exceptions" | "NestMembers" | "PermittedSubclasses" =>
    some do return classes (← Reader.table Reader.u2)
  | "NestHost" => some do return nestHost (← Reader.u2)
  | "InnerClasses" => some do return innerClasses (← Reader.table InnerClass.read)
  | "RuntimeVisibleTypeAnnotations" | "RuntimeInvisibleTypeAnnotations" =>
    some do return typeAnnotations (← Reader.table (TypeAnnotationUse.read depth))
  | _ => none

/-- Reads the body of a method, given a reader for its attributes. -/
def CodeBody.read (inner : Reader Attribute) : Reader CodeBody := do
  let maxStack ← Reader.u2
  let maxLocals ← Reader.u2
  let code ← Reader.slice (← Reader.u4).toNat
  let handlers ← Reader.table ExceptionHandler.read
  let attributes ← Reader.table inner
  return ⟨maxStack, maxLocals, code, handlers, attributes⟩

/-- Reads a component of a record, given a reader for its attributes. Its descriptor has to
resolve. -/
def RecordComponent.read (pool : Pool) (inner : Reader Attribute) : Reader RecordComponent := do
  let name ← Reader.u2
  let descriptor ← Reader.u2
  let _ ← Reader.ofExcept (pool.text descriptor)
  return ⟨name, descriptor, ← Reader.table inner⟩

/-- The body of the attribute of the given name, given a reader for the attributes inside it. -/
def AttributeBody.ofBytes (pool : Pool) (inner : Reader Attribute) (name : String)
    (bytes : List UInt8) : Except FormatError AttributeBody :=
  if name = "Code" then (Reader.complete (CodeBody.read inner) bytes).map .code
  else if name = "Record" then
    (Reader.complete (Reader.table (RecordComponent.read pool inner)) bytes).map .record
  else
    match FlatBody.reader? name (bytes.length + 1) with
    | some reader => (Reader.complete reader bytes).map .flat
    | none => .ok (.flat (.raw bytes))

/-- Reads an attribute that nests at most to the given depth. -/
def Attribute.read (pool : Pool) : Nat → Reader Attribute
  | 0 => Reader.fail .unexpectedEnd
  | depth + 1 => do
    let name ← Reader.u2
    let bytes ← Reader.slice (← Reader.u4).toNat
    let text ← Reader.ofExcept (pool.text name)
    return ⟨name, ← Reader.ofExcept
      (AttributeBody.ofBytes pool (Attribute.read pool depth) text bytes)⟩

/-- Reads a member, whose attributes nest at most to the given depth. Its name and its descriptor
have to resolve. -/
def Member.read (pool : Pool) (depth : Nat) : Reader Member := do
  let access ← Reader.u2
  let name ← Reader.u2
  let descriptor ← Reader.u2
  let _ ← Reader.ofExcept (pool.text name)
  let _ ← Reader.ofExcept (pool.text descriptor)
  return ⟨access, name, descriptor, ← Reader.table (Attribute.read pool depth)⟩

namespace ClassFile

/-- Reads a class file, whose attributes nest at most to the given depth. -/
def read (depth : Nat) : Reader ClassFile := do
  let start ← Reader.slice 4
  if start ≠ magic then Reader.fail .badMagic
  else
    let minor ← Reader.u2
    let major ← Reader.u2
    let pool ← Pool.read
    let access ← Reader.u2
    let thisClass ← Reader.u2
    let superClass ← Reader.u2
    let interfaces ← Reader.table Reader.u2
    let fields ← Reader.table (Member.read pool depth)
    let methods ← Reader.table (Member.read pool depth)
    let attributes ← Reader.table (Attribute.read pool depth)
    return ⟨minor, major, pool, access, thisClass, superClass, interfaces, fields, methods,
      attributes⟩

/-- The class file that bytes spell. There has to be nothing after it, and its name has to
resolve. -/
def decode (bytes : List UInt8) : Except FormatError ClassFile := do
  let c ← Reader.complete (read (bytes.length + 1)) bytes
  let _ ← c.name
  return c

end ClassFile

end ClassAtlas
