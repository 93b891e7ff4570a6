import ClassAtlas.Error
import ClassAtlas.Symbol.ClassName

/-!
# Identities of symbols

An identity is the text under which a class, a field or a method is known in a workspace:

* a class is its name, `com/x/Foo`;
* a field is `com/x/Foo::bar:I`;
* a method is `com/x/Foo::baz()V`.

In class and member names, `\`, `:` and `(` are escaped by a backslash, so an identity can be split
into its parts even when a name contains a separator. Descriptors are not escaped, because nothing
follows them.

## Main definitions

* `ClassAtlas.Identity` — the text of an identity.
* `ClassAtlas.Identity.ofClass`, `ClassAtlas.Identity.ofField`, `ClassAtlas.Identity.ofMethod`.
* `ClassAtlas.Identity.splitField`, `ClassAtlas.Identity.splitMethod`,
  `ClassAtlas.Identity.className` — the way back.

## Main results

* `ClassAtlas.Identity.unescape_escape` — escaping loses nothing.
-/

set_option autoImplicit false

namespace ClassAtlas

/-- The text under which a symbol is known. -/
structure Identity where
  /-- The text itself. -/
  text : String
  deriving DecidableEq, Repr

/-- The parts of the identity of a field or a method. -/
structure MemberPath where
  /-- The class that owns the member. -/
  owner : Identity
  /-- The plain name of the member. -/
  name : String
  /-- The descriptor of the member. -/
  descriptor : String
  deriving DecidableEq, Repr

namespace Identity

/-- Whether a character separates the parts of an identity, or escapes one that does. -/
def isSeparator (c : Char) : Bool :=
  c == '\\' || c == ':' || c == '('

/-- A name with a backslash before every separator. -/
def escape : List Char → List Char
  | [] => []
  | c :: cs => if isSeparator c then '\\' :: c :: escape cs else c :: escape cs

/-- A name without its escaping backslashes; a backslash at the very end is dropped. -/
def unescape : List Char → List Char
  | [] => []
  | [c] => if c = '\\' then [] else [c]
  | c :: d :: cs => if c = '\\' then d :: unescape cs else c :: unescape (d :: cs)

@[simp]
theorem unescape_cons_of_ne {c : Char} (h : c ≠ '\\') (cs : List Char) :
    unescape (c :: cs) = c :: unescape cs := by
  cases cs <;> simp [unescape, h]

/-- Escaping loses nothing. -/
@[simp]
theorem unescape_escape (cs : List Char) : unescape (escape cs) = cs := by
  induction cs with
  | nil => rfl
  | cons c cs ih =>
    rw [escape]
    split
    · simp [unescape, ih]
    · rename_i h
      have hc : c ≠ '\\' := by
        rintro rfl
        exact h rfl
      simp [hc, ih]

/-- Splits a text before the first occurrence of `separator` that no backslash escapes. -/
def splitUnescaped? (separator : List Char) : List Char → Option (List Char × List Char)
  | [] => none
  | '\\' :: [] => none
  | '\\' :: c :: cs =>
    (splitUnescaped? separator cs).map fun (before, after) => ('\\' :: c :: before, after)
  | c :: cs =>
    if separator.isPrefixOf (c :: cs) then some ([], c :: cs)
    else (splitUnescaped? separator cs).map fun (before, after) => (c :: before, after)

/-- The identity of a class; a name with dots is read as the same name with slashes. -/
def ofClass (name : String) : Identity :=
  ⟨String.ofList (escape (ClassName.slashed name).toList)⟩

/-- The identity of a field of `owner`. -/
def ofField (owner : Identity) (name descriptor : String) : Identity :=
  ⟨owner.text ++ "::" ++ String.ofList (escape name.toList) ++ ":" ++ descriptor⟩

/-- The identity of a method of `owner`. -/
def ofMethod (owner : Identity) (name descriptor : String) : Identity :=
  ⟨owner.text ++ "::" ++ String.ofList (escape name.toList) ++ descriptor⟩

/-- Whether this is the identity of a field or a method. -/
def isMember (identity : Identity) : Bool :=
  (splitUnescaped? [':', ':'] identity.text.toList).isSome

/-- The owner of a member and the text after the `::`; the owner is not empty. -/
def splitOwner? (identity : Identity) : Option (Identity × List Char) :=
  match splitUnescaped? [':', ':'] identity.text.toList with
  | some (owner, rest) =>
    if owner.isEmpty then none else some (⟨String.ofList owner⟩, rest.drop 2)
  | none => none

/-- The parts of the identity of a field: name and descriptor are not empty. -/
def splitField? (identity : Identity) : Option MemberPath := do
  let (owner, member) ← identity.splitOwner?
  let (name, rest) ← splitUnescaped? [':'] member
  let descriptor := rest.drop 1
  if name.isEmpty || descriptor.isEmpty then none
  else some ⟨owner, String.ofList (unescape name), String.ofList descriptor⟩

/-- The parts of the identity of a method: the name is not empty, and the descriptor starts at the
first `(` and has a `)`. -/
def splitMethod? (identity : Identity) : Option MemberPath := do
  let (owner, member) ← identity.splitOwner?
  let (name, descriptor) ← splitUnescaped? ['('] member
  if name.isEmpty || !descriptor.contains ')' then none
  else some ⟨owner, String.ofList (unescape name), String.ofList descriptor⟩

/-- The parts of the identity of a field. -/
def splitField (identity : Identity) : Except Error MemberPath :=
  match identity.splitField? with
  | some path => .ok path
  | none => .error (.malformedIdentity identity.text)

/-- The parts of the identity of a method. -/
def splitMethod (identity : Identity) : Except Error MemberPath :=
  match identity.splitMethod? with
  | some path => .ok path
  | none => .error (.malformedIdentity identity.text)

/-- The name of the class that an identity of a class denotes. -/
def className (identity : Identity) : String :=
  String.ofList (unescape identity.text.toList)

end Identity

end ClassAtlas
