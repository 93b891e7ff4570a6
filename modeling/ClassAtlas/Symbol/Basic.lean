import ClassAtlas.Symbol.Identity
import ClassAtlas.Symbol.Kind

/-!
# Symbols and references

A symbol is a class, a field or a method that some class file declares or mentions. A symbol that
is only mentioned has no declaring file and is a placeholder. A reference is a use of a symbol.

## Main definitions

* `ClassAtlas.RowId` — the numbers of rows of the store.
* `ClassAtlas.Symbol`, with the placeholders `ofClass`, `ofField` and `ofMethod`.
* `ClassAtlas.Reference`.
-/

set_option autoImplicit false

namespace ClassAtlas

/-- The number of a row: of a file, an identity, a symbol or a reference. -/
abbrev RowId := Int

/-- A class, a field or a method that is declared or mentioned. -/
structure Symbol where
  /-- What it is. -/
  kind : SymbolKind
  /-- Its identity. -/
  identity : Identity
  /-- The full name of a class, the plain name of a member. -/
  name : String
  /-- The file that declares it; nothing for placeholders. -/
  file : Option RowId
  /-- The class that owns a member. -/
  owner : Option Identity
  /-- The access flags of the declaration. -/
  access : UInt16
  /-- The generic signature of the declaration. -/
  signature : Option String
  deriving DecidableEq, Repr

namespace Symbol

/-- The placeholder of a class; a name with dots is read as the same name with slashes. -/
def ofClass (name : String) : Symbol where
  kind := .classSymbol
  identity := .ofClass name
  name := ClassName.slashed name
  file := none
  owner := none
  access := 0
  signature := none

/-- The placeholder of a field of the class `owner`. -/
def ofField (owner name descriptor : String) : Symbol where
  kind := .fieldSymbol
  identity := .ofField (.ofClass owner) name descriptor
  name := name
  file := none
  owner := some (.ofClass owner)
  access := 0
  signature := none

/-- The placeholder of a method of the class `owner`. -/
def ofMethod (owner name descriptor : String) : Symbol where
  kind := .methodSymbol
  identity := .ofMethod (.ofClass owner) name descriptor
  name := name
  file := none
  owner := some (.ofClass owner)
  access := 0
  signature := none

/-- Whether no file declares the symbol. -/
def isPlaceholder (s : Symbol) : Bool :=
  s.file.isNone

/-- Whether this is a constructor or a static initializer; their names start with `<`. -/
def isInitializer (s : Symbol) : Bool :=
  s.kind == .methodSymbol && s.name.toList.head? == some '<'

/-- Whether the symbol can get another name: it is declared, and no constructor or static
initializer. -/
def isRenamable (s : Symbol) : Bool :=
  !s.isPlaceholder && !s.isInitializer

end Symbol

/-- A use of a symbol by a class file. -/
structure Reference where
  /-- How the symbol is used. -/
  kind : ReferenceKind
  /-- The file that uses it. -/
  file : RowId
  /-- The symbol that is used. -/
  target : Identity
  /-- The class or member in which the use is. -/
  owner : Identity
  /-- The offset of the use in the body of a method. -/
  location : Option Nat
  deriving DecidableEq, Repr

end ClassAtlas
