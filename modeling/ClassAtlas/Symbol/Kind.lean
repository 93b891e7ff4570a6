/-!
# Kinds of symbols and of references

Symbols are classes, fields and methods. A reference is one of the ways in which a class file uses
a symbol. Both kinds have a stable tag under which they are stored.

## Main definitions

* `ClassAtlas.SymbolKind`, with `tag`, `label` and the readers `ofTag?` and `ofText?`.
* `ClassAtlas.ReferenceKind`, with `tag`, `label`, `ofTag?` and `targetKind`.

## Main results

* `ClassAtlas.SymbolKind.ofTag?_tag`, `ClassAtlas.ReferenceKind.ofTag?_tag` — tags read back.
-/

set_option autoImplicit false

namespace ClassAtlas

/-- What a symbol is. -/
inductive SymbolKind where
  /-- A class or an interface. -/
  | classSymbol
  /-- A field. -/
  | fieldSymbol
  /-- A method, a constructor or a static initializer. -/
  | methodSymbol
  deriving DecidableEq, Repr

namespace SymbolKind

/-- All kinds. -/
def all : List SymbolKind := [classSymbol, fieldSymbol, methodSymbol]

/-- The tag under which symbols of this kind are stored. -/
def tag : SymbolKind → String
  | classSymbol => "java.class.name"
  | fieldSymbol => "java.field.name"
  | methodSymbol => "java.method.name"

/-- The word for this kind on the command line and in tables. -/
def word : SymbolKind → String
  | classSymbol => "class"
  | fieldSymbol => "field"
  | methodSymbol => "method"

/-- The capitalised word for this kind in reports. -/
def label : SymbolKind → String
  | classSymbol => "Class"
  | fieldSymbol => "Field"
  | methodSymbol => "Method"

/-- The kind with a given tag. -/
def ofTag? (text : String) : Option SymbolKind :=
  all.find? fun kind => kind.tag == text

/-- The kind with a given word or tag. -/
def ofText? (text : String) : Option SymbolKind :=
  (all.find? fun kind => kind.word == text).or (ofTag? text)

/-- Tags read back. -/
@[simp]
theorem ofTag?_tag (kind : SymbolKind) : ofTag? kind.tag = some kind := by
  cases kind <;> decide

end SymbolKind

/-- The ways in which a class file uses a symbol. -/
inductive ReferenceKind where
  /-- The file that declares a class. -/
  | classFile
  /-- The superclass of a class. -/
  | superclass
  /-- An interface of a class. -/
  | interface
  /-- An instruction with a type operand. -/
  | typeInstruction
  /-- An instruction that reads or writes a field. -/
  | fieldInstruction
  /-- An instruction that invokes a method. -/
  | methodInstruction
  /-- A field handle among the constants of a call site. -/
  | invokeDynamicField
  /-- A method handle among the constants of a call site. -/
  | invokeDynamicMethod
  /-- The type of a method's result. -/
  | returnType
  /-- The type of a method's parameter. -/
  | parameterType
  /-- A class loaded as a constant. -/
  | classConstant
  /-- The type of an annotation. -/
  | annotationType
  /-- A type inside an annotation's values. -/
  | annotationValue
  /-- The type that an exception handler catches. -/
  | catchType
  /-- A type that a method declares to throw. -/
  | throwsType
  /-- A type inside a generic signature. -/
  | signatureType
  /-- The type of a local variable. -/
  | localVariableType
  /-- A host or a member of a nest, or a permitted subclass. -/
  | nestedClass
  /-- The class that encloses a local class. -/
  | enclosingClass
  /-- The method that encloses a local class. -/
  | enclosingMethod
  /-- The type of a record component. -/
  | recordComponent
  deriving DecidableEq, Repr

namespace ReferenceKind

/-- All kinds. -/
def all : List ReferenceKind :=
  [classFile, superclass, interface, typeInstruction, fieldInstruction, methodInstruction,
    invokeDynamicField, invokeDynamicMethod, returnType, parameterType, classConstant,
    annotationType, annotationValue, catchType, throwsType, signatureType, localVariableType,
    nestedClass, enclosingClass, enclosingMethod, recordComponent]

/-- The tag under which references of this kind are stored. -/
def tag : ReferenceKind → String
  | classFile => "java.class.file"
  | superclass => "java.class.super"
  | interface => "java.class.interface"
  | typeInstruction => "java.insn.type"
  | fieldInstruction => "java.insn.field"
  | methodInstruction => "java.insn.method"
  | invokeDynamicField => "java.indy.field"
  | invokeDynamicMethod => "java.indy.method"
  | returnType => "java.type.return"
  | parameterType => "java.type.parameter"
  | classConstant => "java.ldc.class"
  | annotationType => "java.annotation.type"
  | annotationValue => "java.annotation.value"
  | catchType => "java.insn.catch"
  | throwsType => "java.method.throws"
  | signatureType => "java.type.signature"
  | localVariableType => "java.type.local"
  | nestedClass => "java.class.nest"
  | enclosingClass => "java.class.enclosing"
  | enclosingMethod => "java.method.enclosing"
  | recordComponent => "java.record.component"

/-- The capitalised name of this kind in reports. -/
def label : ReferenceKind → String
  | classFile => "ClassFile"
  | superclass => "Superclass"
  | interface => "Interface"
  | typeInstruction => "TypeInstruction"
  | fieldInstruction => "FieldInstruction"
  | methodInstruction => "MethodInstruction"
  | invokeDynamicField => "InvokeDynamicField"
  | invokeDynamicMethod => "InvokeDynamicMethod"
  | returnType => "ReturnType"
  | parameterType => "ParameterType"
  | classConstant => "ClassConstant"
  | annotationType => "AnnotationType"
  | annotationValue => "AnnotationValue"
  | catchType => "CatchType"
  | throwsType => "ThrowsType"
  | signatureType => "SignatureType"
  | localVariableType => "LocalVariableType"
  | nestedClass => "NestedClass"
  | enclosingClass => "EnclosingClass"
  | enclosingMethod => "EnclosingMethod"
  | recordComponent => "RecordComponent"

/-- The kind with a given tag. -/
def ofTag? (text : String) : Option ReferenceKind :=
  all.find? fun kind => kind.tag == text

/-- Tags read back. -/
@[simp]
theorem ofTag?_tag (kind : ReferenceKind) : ofTag? kind.tag = some kind := by
  cases kind <;> decide

/-- What the target of such a reference is. -/
def targetKind : ReferenceKind → SymbolKind
  | fieldInstruction | invokeDynamicField => .fieldSymbol
  | methodInstruction | invokeDynamicMethod | enclosingMethod => .methodSymbol
  | _ => .classSymbol

/-- Whether renaming the target also renames the file that holds the reference. -/
def renamesFile : ReferenceKind → Bool
  | classFile => true
  | _ => false

/-- Whether the reference is resolved at run time, through a bootstrap method. -/
def isDynamic : ReferenceKind → Bool
  | invokeDynamicField | invokeDynamicMethod => true
  | _ => false

end ReferenceKind

end ClassAtlas
