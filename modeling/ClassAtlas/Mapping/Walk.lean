import ClassAtlas.ClassFile.Basic
import ClassAtlas.Code.Instruction
import ClassAtlas.Mapping.Trace
import ClassAtlas.TypeText.Signature

/-!
# What a class declares and uses

The walk over a class file yields a symbol for everything that the class declares or mentions, and
a reference for every use. A mentioned symbol comes right before the reference to it, and the class
itself comes first, so at every point of the walk each reference has its target and its owner among
the symbols before it.

## Main definitions

* `ClassAtlas.Walk` — the class, its name and its file.
* `ClassAtlas.Walk.trace` — everything that the walk comes across.
* `ClassAtlas.ClassFile.visit` — the events, and the fault at which the walk ended.

## Design

The parts of the walk follow the parts of a class file. A class is not reported to use itself where
the use alone would not make its file interesting: in signatures, local variables and nests. The body
of a method is walked up to its first undecodable instruction, which is no fault.
-/

set_option autoImplicit false

namespace ClassAtlas

/-- A class file on its way into the store. -/
structure Walk where
  /-- The class file. -/
  classFile : ClassFile
  /-- The name of the class. -/
  name : String
  /-- The file that holds the class. -/
  file : RowId

namespace Walk

open Trace

variable (w : Walk)

/-- The pool of the class. -/
def pool : Pool := w.classFile.pool

/-- The identity of the class. -/
def this : Identity := .ofClass w.name

/-! ### Uses -/

/-- A use of a symbol. -/
def reference (kind : ReferenceKind) (target owner : Identity) (location : Option Nat) : Trace :=
  emit (.reference ⟨kind, w.file, target, owner, location⟩)

/-- A mentioned class and its use. -/
def classReference (kind : ReferenceKind) (name : String) (owner : Identity)
    (location : Option Nat) : Trace :=
  let symbol := Symbol.ofClass name
  emit (.symbol symbol) ++ w.reference kind symbol.identity owner location

/-- A mentioned class and its use, unless it is the class that is walked over. -/
def foreignReference (kind : ReferenceKind) (name : String) (owner : Identity) : Trace :=
  if name = w.name then [] else w.classReference kind name owner none

/-- The first occurrences of the texts of a list. -/
def distinct (names : List String) : List String :=
  (names.foldl (fun seen name => if seen.contains name then seen else name :: seen) []).reverse

/-- The use of every class that a generic signature names; none if the signature is malformed. -/
def signatureReferences (kind : ReferenceKind) (signature : String) (owner : Identity) : Trace :=
  whenSome (Signature.classes? signature) fun names =>
    (distinct names).flatMap fun name => w.foreignReference kind name owner

/-- The use of the class that a descriptor names. -/
def descriptorReference (kind : ReferenceKind) (descriptor : String) (owner : Identity) : Trace :=
  whenSome (Descriptor.fieldClass? descriptor) fun name => w.classReference kind name owner none

/-- The use of the class that the descriptor at an index names. -/
def textReference (kind : ReferenceKind) (index : UInt16) (owner : Identity) : Trace :=
  resolve (w.pool.text index) fun descriptor => w.descriptorReference kind descriptor owner

/-- The mentioned symbol of a reference to a member. -/
def memberSymbol (kind : ReferenceKind) (m : MemberRef) : Symbol :=
  match kind.targetKind with
  | .fieldSymbol => .ofField m.owner m.name m.descriptor
  | _ => .ofMethod m.owner m.name m.descriptor

/-- A mentioned member with its class, and its use. Members of array types are left out. -/
def memberReference (index : UInt16) (kind : ReferenceKind) (owner : Identity)
    (location : Option Nat) : Trace :=
  resolve (w.pool.member index) fun m =>
    if m.owner.toList.head? = some '[' then []
    else
      let symbol := memberSymbol kind m
      emit (.symbol (.ofClass m.owner)) ++ emit (.symbol symbol) ++
        w.reference kind symbol.identity owner location

/-! ### Annotations -/

/-- The uses in a value that holds no other. -/
def leafTrace (owner : Identity) : ElementLeaf → Trace
  | .const _ _ => []
  | .enumConst type _ => w.textReference .annotationValue type owner
  | .classInfo descriptor => w.textReference .annotationValue descriptor owner

mutual

/-- The uses in an annotation, whose own type is used as `kind` says. -/
def useTrace (owner : Identity) (kind : ReferenceKind) : AnnotationUse → Trace
  | ⟨type, elements⟩ => w.textReference kind type owner ++ pairsTrace owner elements

/-- The uses in an element value with its name. -/
def pairTrace (owner : Identity) : ElementPair → Trace
  | ⟨_, value⟩ => valueTrace owner value

/-- The uses in an element value. -/
def valueTrace (owner : Identity) : ElementValue → Trace
  | .leaf value => w.leafTrace owner value
  | .nested value => useTrace owner .annotationValue value
  | .array values => valuesTrace owner values

/-- The uses in element values with their names. -/
def pairsTrace (owner : Identity) : List ElementPair → Trace
  | [] => []
  | pair :: pairs => pairTrace owner pair ++ pairsTrace owner pairs

/-- The uses in element values. -/
def valuesTrace (owner : Identity) : List ElementValue → Trace
  | [] => []
  | value :: values => valueTrace owner value ++ valuesTrace owner values

end

/-- The uses in the annotations among attributes. -/
def annotationsTrace (owner : Identity) (attributes : List Attribute) : Trace :=
  (Attribute.annotationsOf attributes).flatMap (w.useTrace owner .annotationType)

/-! ### Method bodies -/

/-- The uses by the handles among the arguments of a bootstrap method. -/
def argumentTrace (owner : Identity) (location : Option Nat) (argument : UInt16) : Trace :=
  resolve (w.pool.get argument) fun c =>
    match c with
    | .methodHandle kind reference =>
      if 1 ≤ kind.toNat ∧ kind.toNat ≤ 4 then
        w.memberReference reference .invokeDynamicField owner location
      else if 5 ≤ kind.toNat ∧ kind.toNat ≤ 9 then
        w.memberReference reference .invokeDynamicMethod owner location
      else []
    | _ => []

/-- The uses by a call site: the handles that its bootstrap method is called with. -/
def callSiteTrace (owner : Identity) (location : Option Nat) (index : UInt16) : Trace :=
  resolve (w.pool.get index) fun c =>
    match c with
    | .invokeDynamic bootstrap _ =>
      whenSome ((Attribute.bootstrapMethodsOf w.classFile.attributes)[bootstrap.toNat]?) fun m =>
        m.arguments.flatMap (w.argumentTrace owner location)
    | _ => []

/-- The use of the class that the name of a class constant denotes. -/
def constantReference (kind : ReferenceKind) (name : String) (owner : Identity)
    (location : Option Nat) : Trace :=
  whenSome (Descriptor.constantClass? name) fun name => w.classReference kind name owner location

/-- The uses by an instruction with the given pool index. -/
def indexTrace (owner : Identity) (opcode : UInt8) (location : Option Nat) (index : UInt16) :
    Trace :=
  let n := opcode.toNat
  if n = 0xBB ∨ n = 0xBD ∨ n = 0xC0 ∨ n = 0xC1 ∨ n = 0xC5 then
    resolve (w.pool.className index) fun name =>
      w.constantReference .typeInstruction name owner location
  else if 0xB2 ≤ n ∧ n ≤ 0xB5 then w.memberReference index .fieldInstruction owner location
  else if 0xB6 ≤ n ∧ n ≤ 0xB9 then w.memberReference index .methodInstruction owner location
  else if n = 0xBA then w.callSiteTrace owner location index
  else if n = 0x12 ∨ n = 0x13 then
    resolve (w.pool.get index) fun c =>
      match c with
      | .classRef name =>
        resolve (w.pool.text name) fun name =>
          w.constantReference .classConstant name owner location
      | _ => []
  else []

/-- The uses by an instruction. -/
def instructionTrace (owner : Identity) (i : Instruction) : Trace :=
  whenSome i.index (w.indexTrace owner i.opcode (some i.offset))

/-- The use of the class that an exception handler catches. -/
def handlerTrace (owner : Identity) (h : ExceptionHandler) : Trace :=
  if h.catchType = 0 then []
  else
    resolve (w.pool.className h.catchType) fun name =>
      w.classReference .catchType name owner (some h.handler.toNat)

/-- The uses by the type of a local variable. -/
def variableTrace (owner : Identity) (isGeneric : Bool) (v : LocalVariable) : Trace :=
  resolve (w.pool.text v.descriptor) fun descriptor =>
    if isGeneric then w.signatureReferences .localVariableType descriptor owner
    else
      whenSome (Descriptor.fieldClass? descriptor) fun name =>
        w.foreignReference .localVariableType name owner

/-- The uses in an attribute of a method body. -/
def codeAttributeTrace (owner : Identity) (a : Attribute) : Trace :=
  match a.body with
  | .flat (.localVariables entries) =>
    resolve (w.pool.text a.name) fun name =>
      entries.flatMap (w.variableTrace owner (name == "LocalVariableTypeTable"))
  | .flat (.typeAnnotations values) =>
    values.flatMap fun t => w.useTrace owner .annotationType t.use
  | _ => []

/-- The uses in the body of a method. -/
def codeTrace (owner : Identity) (body : CodeBody) : Trace :=
  body.handlers.flatMap (w.handlerTrace owner) ++
    body.attributes.flatMap (w.codeAttributeTrace owner) ++
    (Listing.ofCode body.code).instructions.flatMap (w.instructionTrace owner)

/-! ### Members -/

/-- A declared field and what it uses. -/
def fieldTrace (m : Member) : Trace :=
  resolve (w.pool.text m.name) fun name =>
    resolve (w.pool.text m.descriptor) fun descriptor =>
      resolve (w.pool.signatureOf m.attributes) fun signature =>
        let identity := Identity.ofField w.this name descriptor
        emit (.symbol
          ⟨.fieldSymbol, identity, name, some w.file, some w.this, m.access, signature⟩) ++
        whenSome signature (w.signatureReferences .signatureType · identity) ++
        w.annotationsTrace identity m.attributes

/-- The use of a class by an attribute of a method: a default value or thrown types. -/
def methodAttributeTrace (owner : Identity) (a : Attribute) : Trace :=
  match a.body with
  | .flat (.annotationDefault value) => w.valueTrace owner value
  | .flat (.classes indices) =>
    indices.flatMap fun index =>
      resolve (w.pool.className index) fun name => w.classReference .throwsType name owner none
  | _ => []

/-- The uses by the descriptor of a method: the result, then the parameters. -/
def partsTrace (owner : Identity) (parts : MethodParts) : Trace :=
  w.descriptorReference .returnType parts.result owner ++
    parts.parameters.flatMap fun parameter => w.descriptorReference .parameterType parameter owner

/-- A declared method and what it uses. -/
def methodTrace (m : Member) : Trace :=
  resolve (w.pool.text m.name) fun name =>
    resolve (w.pool.text m.descriptor) fun descriptor =>
      resolve (w.pool.signatureOf m.attributes) fun signature =>
        let identity := Identity.ofMethod w.this name descriptor
        emit (.symbol
          ⟨.methodSymbol, identity, name, some w.file, some w.this, m.access, signature⟩) ++
        whenSome signature (w.signatureReferences .signatureType · identity) ++
        resolve (Descriptor.methodParts descriptor) (w.partsTrace identity) ++
        w.annotationsTrace identity m.attributes ++
        m.attributes.flatMap (w.methodAttributeTrace identity) ++
        whenSome (Attribute.code? m.attributes) (w.codeTrace identity)

/-! ### Classes -/

/-- The use of a class of the same nest, by its index. -/
def nestTrace (index : UInt16) : Trace :=
  resolve (w.pool.className index) fun name => w.foreignReference .nestedClass name w.this

/-- The uses by an entry of the table of inner classes. -/
def innerClassTrace (entry : InnerClass) : Trace :=
  w.nestTrace entry.inner ++ if entry.outer = 0 then [] else w.nestTrace entry.outer

/-- The uses by the place of a local class: the class around it and possibly the method. -/
def enclosingTrace (owner method : UInt16) : Trace :=
  resolve (w.pool.className owner) fun name =>
    w.classReference .enclosingClass name w.this none ++
    if method = 0 then []
    else
      resolve (w.pool.nameAndType method) fun (methodName, descriptor) =>
        let symbol := Symbol.ofMethod name methodName descriptor
        emit (.symbol symbol) ++ w.reference .enclosingMethod symbol.identity w.this none

/-- The uses by a component of a record. -/
def componentTrace (c : RecordComponent) : Trace :=
  w.textReference .recordComponent c.descriptor w.this ++
    resolve (w.pool.signatureOf c.attributes)
      (whenSome · (w.signatureReferences .signatureType · w.this)) ++
    w.annotationsTrace w.this c.attributes

/-- The uses in an attribute of the class: nests, permitted subclasses, enclosing methods and record
components. -/
def classAttributeTrace (a : Attribute) : Trace :=
  match a.body with
  | .flat (.classes indices) => indices.flatMap w.nestTrace
  | .flat (.nestHost index) => w.nestTrace index
  | .flat (.innerClasses entries) => entries.flatMap w.innerClassTrace
  | .flat (.enclosingMethod owner method) => w.enclosingTrace owner method
  | .record components => components.flatMap w.componentTrace
  | _ => []

/-- The class itself, its file, its supertypes, annotations and signature, then its attributes. -/
def headTrace : Trace :=
  resolve w.classFile.signature fun signature =>
    emit (.symbol
      ⟨.classSymbol, w.this, w.name, some w.file, none, w.classFile.access, signature⟩) ++
    w.reference .classFile w.this w.this none ++
    resolve w.classFile.superName (whenSome · (w.classReference .superclass · w.this none)) ++
    resolve w.classFile.interfaceNames (fun names =>
      names.flatMap (w.classReference .interface · w.this none)) ++
    w.annotationsTrace w.this w.classFile.attributes ++
    whenSome signature (w.signatureReferences .signatureType · w.this)

/-- Everything that a walk over a class comes across. -/
def trace : Trace :=
  w.headTrace ++ w.classFile.attributes.flatMap w.classAttributeTrace ++
    w.classFile.fields.flatMap w.fieldTrace ++ w.classFile.methods.flatMap w.methodTrace

end Walk

/-- The events that a class file in the given file yields, and the fault at which the walk over it
ended. -/
def ClassFile.visit (c : ClassFile) (file : RowId) : Outcome :=
  match c.name with
  | .ok name => (Walk.trace ⟨c, name, file⟩).outcome
  | .error cause => ⟨[], some cause⟩

end ClassAtlas
