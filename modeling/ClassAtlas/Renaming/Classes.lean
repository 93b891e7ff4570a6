import ClassAtlas.Renaming.Revision
import ClassAtlas.TypeText.Signature

/-!
# Renaming a class inside a class file

A class is named by class constants, and by descriptors and signatures in texts. The pool is edited
first: class constants, then the descriptors of name-and-type and method-type constants. Then the
walk repoints the descriptors and signatures of members, annotations, local variables and record
components. Texts are never changed in place, because unrelated parts may share them.

## Main definitions

* `ClassAtlas.ClassRename` — the old and the new name.
* `ClassAtlas.ClassRename.revisePool` — the edits of constants.
* `ClassAtlas.ClassRename.reviseAttribute`, `ClassAtlas.ClassRename.revise` — the walk.
-/

set_option autoImplicit false

namespace ClassAtlas

/-- A new name for a class. -/
structure ClassRename where
  /-- The name to be replaced. -/
  old : String
  /-- The name that replaces it. -/
  new : String
  deriving DecidableEq, Repr

namespace ClassRename

/-- A descriptor with the class replaced, if it occurs. -/
def descriptor? (r : ClassRename) (text : String) : Option String :=
  Descriptor.rename? text r.old r.new

/-- A signature with the class replaced, if it occurs. -/
def signature? (r : ClassRename) (text : String) : Option String :=
  Signature.rename? text r.old r.new

/-- The name of a class constant with the class replaced, if it denotes the class. -/
def constant? (r : ClassRename) (text : String) : Option String :=
  Descriptor.renameConstant? text r.old r.new

/-! ### Constants -/

/-- The new name for a constant of a class that has to be renamed. -/
def newClassText (r : ClassRename) (pool : Pool) : Constant → Except FormatError (Option String)
  | .classRef name => (pool.text name).map r.constant?
  | _ => .ok none

/-- The new descriptor for a constant whose descriptor names the class. -/
def newDescriptorText (r : ClassRename) (pool : Pool) :
    Constant → Except FormatError (Option String)
  | .nameAndType _ descriptor | .methodType descriptor =>
    (pool.text descriptor).map r.descriptor?
  | _ => .ok none

/-- The new texts of the constants of a pool: of class constants, and of constants with a
descriptor. All texts are looked up before any is replaced. -/
def plan (r : ClassRename) (pool : Pool) :
    Except FormatError (List (UInt16 × String) × List (UInt16 × String)) := do
  let texts ← pool.constants.mapM fun (index, c) => do
    let name ← r.newClassText pool c
    let descriptor ← r.newDescriptorText pool c
    return (name.map (index, ·), descriptor.map (index, ·))
  return (texts.filterMap Prod.fst, texts.filterMap Prod.snd)

/-- A constant with another text for its name (of a class) or its descriptor. -/
def repointed (text : UInt16) : Constant → Constant
  | .classRef _ => .classRef text
  | .nameAndType name _ => .nameAndType name text
  | .methodType _ => .methodType text
  | c => c

/-- Gives the constant at an index another text. -/
def reviseConstant (edit : UInt16 × String) : Revise Unit :=
  Revise.edit () fun pool =>
    match Pool.internText edit.2 pool with
    | (.ok text, pool) =>
      match pool.get? edit.1 with
      | some c => (.ok (some ()), pool.set edit.1 (repointed text c))
      | none => (.error (.badConstantIndex edit.1), pool)
    | (.error cause, pool) => (.error cause, pool)

/-- Renames the class in the constants of the pool. -/
def revisePool (r : ClassRename) : Revise Unit := do
  let (classes, descriptors) ← Revise.ask ([], []) r.plan
  classes.forM reviseConstant
  descriptors.forM reviseConstant

/-! ### Annotations -/

/-- Renames the class in a value that holds no other. -/
def reviseLeaf (r : ClassRename) : ElementLeaf → Revise ElementLeaf
  | .const tag index => return .const tag index
  | .enumConst type name => return .enumConst (← Revise.repoint r.descriptor? type) name
  | .classInfo descriptor => return .classInfo (← Revise.repoint r.descriptor? descriptor)

mutual

/-- Renames the class in an annotation. -/
def reviseUse (r : ClassRename) : AnnotationUse → Revise AnnotationUse
  | ⟨type, elements⟩ => do
    let type ← Revise.repoint r.descriptor? type
    let elements ← revisePairs r elements
    return ⟨type, elements⟩

/-- Renames the class in an element value with its name. -/
def revisePair (r : ClassRename) : ElementPair → Revise ElementPair
  | ⟨name, value⟩ => do
    let value ← reviseValue r value
    return ⟨name, value⟩

/-- Renames the class in an element value. -/
def reviseValue (r : ClassRename) : ElementValue → Revise ElementValue
  | .leaf value => do
    let value ← reviseLeaf r value
    return .leaf value
  | .nested value => do
    let value ← reviseUse r value
    return .nested value
  | .array values => do
    let values ← reviseValues r values
    return .array values

/-- Renames the class in element values with their names. -/
def revisePairs (r : ClassRename) : List ElementPair → Revise (List ElementPair)
  | [] => return []
  | pair :: pairs => do
    let pair ← revisePair r pair
    let pairs ← revisePairs r pairs
    return pair :: pairs

/-- Renames the class in element values. -/
def reviseValues (r : ClassRename) : List ElementValue → Revise (List ElementValue)
  | [] => return []
  | value :: values => do
    let value ← reviseValue r value
    let values ← reviseValues r values
    return value :: values

end

/-! ### Attributes -/

/-- What follows `outer` and a `$` in the name of a member class. -/
def memberSuffix? (name outer : String) : Option String :=
  let head := outer.toList ++ ['$']
  if head.isPrefixOf name.toList then some (String.ofList (name.toList.drop head.length)) else none

/-- The entry of a member class whose simple name has to follow the new name of the class. The
pool's class constants have been renamed already. -/
def newInnerClass? (r : ClassRename) (entry : InnerClass) (pool : Pool) :
    Except FormatError (Option String) :=
  if entry.name = 0 || entry.outer = 0 then .ok none
  else do
    let inner ← pool.className entry.inner
    if inner ≠ r.new then return none
    let outer ← pool.className entry.outer
    match memberSuffix? r.old outer, memberSuffix? r.new outer with
    | some oldSimple, some newSimple =>
      let simple ← pool.text entry.name
      return if simple = oldSimple then some newSimple else none
    | _, _ => return none

/-- Keeps the simple name of a member class in step with its name. -/
def reviseInnerClass (r : ClassRename) (entry : InnerClass) : Revise InnerClass :=
  Revise.edit entry fun pool =>
    match r.newInnerClass? entry pool with
    | .error cause => (.error cause, pool)
    | .ok none => (.ok none, pool)
    | .ok (some simple) =>
      match Pool.internText simple pool with
      | (.ok name, pool) => (.ok (some { entry with name }), pool)
      | (.error cause, pool) => (.error cause, pool)

/-- Renames the class in the type of a local variable: a signature in a table of generic types, a
descriptor otherwise. -/
def reviseVariable (r : ClassRename) (isGeneric : Bool) (v : LocalVariable) :
    Revise LocalVariable := do
  let descriptor ← Revise.repoint (if isGeneric then r.signature? else r.descriptor?) v.descriptor
  return { v with descriptor }

/-- Renames the class in an annotation of a use of a type. -/
def reviseTypeUse (r : ClassRename) (a : TypeAnnotationUse) : Revise TypeAnnotationUse := do
  let use ← reviseUse r a.use
  return { a with use }

/-- Renames the class in the body of an attribute without further attributes. Indices of classes
and of name-and-type constants stay, because the constants themselves are renamed. -/
def reviseFlat (r : ClassRename) (isGeneric : Bool) : FlatBody → Revise FlatBody
  | .signature index => return .signature (← Revise.repoint r.signature? index)
  | .annotations values => return .annotations (← values.mapM (reviseUse r))
  | .parameterAnnotations values =>
    return .parameterAnnotations (← values.mapM fun v => v.mapM (reviseUse r))
  | .annotationDefault value => return .annotationDefault (← reviseValue r value)
  | .localVariables entries =>
    return .localVariables (← entries.mapM (r.reviseVariable isGeneric))
  | .innerClasses entries => return .innerClasses (← entries.mapM r.reviseInnerClass)
  | .typeAnnotations values => return .typeAnnotations (← values.mapM r.reviseTypeUse)
  | .bootstrapMethods methods => return .bootstrapMethods methods
  | .enclosingMethod owner method => return .enclosingMethod owner method
  | .classes indices => return .classes indices
  | .nestHost index => return .nestHost index
  | .raw bytes => return .raw bytes

/-- The name of the table of generic types of local variables. -/
def genericTable : String := "LocalVariableTypeTable"

mutual

/-- Renames the class in an attribute, whose name has to resolve. -/
def reviseAttribute (r : ClassRename) : Attribute → Revise Attribute
  | ⟨name, body⟩ => do
    let text ← Revise.ask "" (·.text name)
    let body ← reviseBody r (text == genericTable) body
    return ⟨name, body⟩

/-- Renames the class in the body of an attribute. -/
def reviseBody (r : ClassRename) (isGeneric : Bool) : AttributeBody → Revise AttributeBody
  | .flat body => do
    let body ← reviseFlat r isGeneric body
    return .flat body
  | .code body => do
    let body ← reviseCode r body
    return .code body
  | .record components => do
    let components ← reviseComponents r components
    return .record components

/-- Renames the class in the attributes of a method body. -/
def reviseCode (r : ClassRename) : CodeBody → Revise CodeBody
  | ⟨maxStack, maxLocals, code, handlers, attributes⟩ => do
    let attributes ← reviseAttributes r attributes
    return ⟨maxStack, maxLocals, code, handlers, attributes⟩

/-- Renames the class in a component of a record. -/
def reviseComponent (r : ClassRename) : RecordComponent → Revise RecordComponent
  | ⟨name, descriptor, attributes⟩ => do
    let descriptor ← Revise.repoint r.descriptor? descriptor
    let attributes ← reviseAttributes r attributes
    return ⟨name, descriptor, attributes⟩

/-- Renames the class in attributes. -/
def reviseAttributes (r : ClassRename) : List Attribute → Revise (List Attribute)
  | [] => return []
  | a :: attributes => do
    let a ← reviseAttribute r a
    let attributes ← reviseAttributes r attributes
    return a :: attributes

/-- Renames the class in components of a record. -/
def reviseComponents (r : ClassRename) : List RecordComponent → Revise (List RecordComponent)
  | [] => return []
  | c :: components => do
    let c ← reviseComponent r c
    let components ← reviseComponents r components
    return c :: components

end

/-! ### Classes -/

/-- Renames the class in a member. -/
def reviseMember (r : ClassRename) (m : Member) : Revise Member := do
  let descriptor ← Revise.repoint r.descriptor? m.descriptor
  let attributes ← reviseAttributes r m.attributes
  return { m with descriptor, attributes }

/-- Renames the class in a class file; the edited pool is in the revision. -/
def revise (r : ClassRename) (c : ClassFile) : Revise ClassFile := do
  revisePool r
  let fields ← c.fields.mapM r.reviseMember
  let methods ← c.methods.mapM r.reviseMember
  let attributes ← reviseAttributes r c.attributes
  return { c with fields, methods, attributes }

end ClassRename

end ClassAtlas
