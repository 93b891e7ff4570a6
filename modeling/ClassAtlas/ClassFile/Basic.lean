import ClassAtlas.ClassFile.Attribute
import ClassAtlas.Pool.Basic

/-!
# Class files

A class file as a value: its versions, its constant pool, and everything that refers to the pool by
index.

## Main definitions

* `ClassAtlas.Member` — a field or a method.
* `ClassAtlas.ClassFile` — a class file, with its names resolved by `name`, `superName`,
  `interfaceNames` and `signature`.
* `ClassAtlas.hasMagic` — whether bytes start like a class file.
-/

set_option autoImplicit false

namespace ClassAtlas

/-- A field or a method of a class. -/
structure Member where
  /-- The access flags. -/
  access : UInt16
  /-- The text of the name. -/
  name : UInt16
  /-- The text of the descriptor. -/
  descriptor : UInt16
  /-- The attributes. -/
  attributes : List Attribute
  deriving DecidableEq

/-- A class file. -/
structure ClassFile where
  /-- The minor version. -/
  minor : UInt16
  /-- The major version. -/
  major : UInt16
  /-- The constant pool. -/
  pool : Pool
  /-- The access flags. -/
  access : UInt16
  /-- The class itself. -/
  thisClass : UInt16
  /-- The superclass; zero for none. -/
  superClass : UInt16
  /-- The interfaces. -/
  interfaces : List UInt16
  /-- The fields. -/
  fields : List Member
  /-- The methods. -/
  methods : List Member
  /-- The attributes. -/
  attributes : List Attribute
  deriving DecidableEq

/-- The first four bytes of every class file. -/
def magic : List UInt8 := [0xCA, 0xFE, 0xBA, 0xBE]

/-- Whether bytes start like a class file. -/
def hasMagic (bytes : List UInt8) : Bool :=
  bytes.take 4 == magic

/-- The text of the signature among attributes, if there is one. -/
def Pool.signatureOf (pool : Pool) (attributes : List Attribute) :
    Except FormatError (Option String) :=
  match Attribute.signature? attributes with
  | some index => (pool.text index).map some
  | none => .ok none

namespace ClassFile

/-- The name of a class. -/
def name (c : ClassFile) : Except FormatError String :=
  c.pool.className c.thisClass

/-- The name of the superclass, if there is one. -/
def superName (c : ClassFile) : Except FormatError (Option String) :=
  if c.superClass = 0 then .ok none else (c.pool.className c.superClass).map some

/-- The names of the interfaces. -/
def interfaceNames (c : ClassFile) : Except FormatError (List String) :=
  c.interfaces.mapM c.pool.className

/-- The generic signature of a class, if it has one. -/
def signature (c : ClassFile) : Except FormatError (Option String) :=
  c.pool.signatureOf c.attributes

/-- The class without any content: an empty pool and zero everywhere else. -/
def blank : ClassFile :=
  ⟨0, 0, .empty, 0, 0, 0, [], [], [], []⟩

end ClassFile

end ClassAtlas
