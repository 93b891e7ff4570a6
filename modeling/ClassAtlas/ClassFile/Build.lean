import ClassAtlas.ClassFile.Basic

/-!
# Building class files

Classes are built step by step. Each step interns the texts and classes that it needs; a step that
fails leaves behind what it interned before.

## Main definitions

* `ClassAtlas.ClassFile.create` — a class without members.
* `ClassAtlas.ClassFile.Edit` — a step, which may fail and keeps the class.
* `ClassAtlas.ClassFile.addInterface`, `addField`, `addMethod`, `addBootstrapMethod`,
  `addRawAttribute` — the steps.
-/

set_option autoImplicit false

namespace ClassAtlas.ClassFile

/-- The major version of classes that are built. -/
def buildVersion : UInt16 := 52

/-- A class without members, with the given name and superclass. -/
def create (access : UInt16) (name : String) (superName : Option String) :
    Except FormatError ClassFile :=
  let intern : Pool.Edit (UInt16 × UInt16) := do
    let thisClass ← Pool.internClass name
    match superName with
    | some superName => return (thisClass, ← Pool.internClass superName)
    | none => return (thisClass, 0)
  match intern .empty with
  | (.ok (thisClass, superClass), pool) =>
    .ok ⟨0, buildVersion, pool, access, thisClass, superClass, [], [], [], []⟩
  | (.error cause, _) => .error cause

/-- A change of a class. When it fails, the class keeps what was done before the failure. -/
abbrev Edit (α : Type) := ExceptT FormatError (StateM ClassFile) α

/-- A change of the pool as a change of the class. -/
def onPool {α : Type} (edit : Pool.Edit α) : Edit α := fun c =>
  match edit c.pool with
  | (result, pool) => (result, { c with pool })

/-- Adds an interface. -/
def addInterface (name : String) : Edit Unit := do
  let index ← onPool (Pool.internClass name)
  modify fun c => { c with interfaces := c.interfaces ++ [index] }

/-- A member without attributes. -/
def member (access : UInt16) (name descriptor : String) : Edit Member := do
  let name ← onPool (Pool.internText name)
  let descriptor ← onPool (Pool.internText descriptor)
  return ⟨access, name, descriptor, []⟩

/-- Adds a field and returns its position. -/
def addField (access : UInt16) (name descriptor : String) : Edit Nat := do
  let field ← member access name descriptor
  let position := (← get).fields.length
  modify fun c => { c with fields := c.fields ++ [field] }
  return position

/-- Adds a method and returns its position. -/
def addMethod (access : UInt16) (name descriptor : String) (code : Option CodeBody) :
    Edit Nat := do
  let method ← member access name descriptor
  let attributes ←
    match code with
    | some body => do
      let name ← onPool (Pool.internText "Code")
      pure [⟨name, .code body⟩]
    | none => pure []
  let position := (← get).methods.length
  modify fun c => { c with methods := c.methods ++ [{ method with attributes }] }
  return position

/-- Appends a bootstrap method to the first table of bootstrap methods, and returns the changed
attributes and the position of the method; nothing if there is no table. -/
def appendBootstrap? (method : BootstrapMethod) : List Attribute → Option (List Attribute × Nat)
  | [] => none
  | a :: attributes =>
    match a.body with
    | .flat (.bootstrapMethods methods) =>
      some (⟨a.name, .flat (.bootstrapMethods (methods ++ [method]))⟩ :: attributes, methods.length)
    | _ =>
      (appendBootstrap? method attributes).map fun (attributes, position) =>
        (a :: attributes, position)

/-- Adds a bootstrap method and returns its position, modulo `2 ^ 16`, in the table of bootstrap
methods, which is added first if there is none. -/
def addBootstrapMethod (method : BootstrapMethod) : Edit UInt16 := do
  match appendBootstrap? method (← get).attributes with
  | some (attributes, position) =>
    modify fun c => { c with attributes }
    return UInt16.ofNat position
  | none =>
    let name ← onPool (Pool.internText "BootstrapMethods")
    modify fun c =>
      { c with attributes := c.attributes ++ [⟨name, .flat (.bootstrapMethods [method])⟩] }
    return 0

/-- Adds an attribute that is kept as raw bytes and returns the text index of its name. -/
def addRawAttribute (name : String) (bytes : List UInt8) : Edit UInt16 := do
  let name ← onPool (Pool.internText name)
  modify fun c => { c with attributes := c.attributes ++ [⟨name, .flat (.raw bytes)⟩] }
  return name

end ClassAtlas.ClassFile
