import ClassAtlas.TypeText.Descriptor

/-!
# Generic signatures

A generic signature is the signature of a class (type parameters, then the superclass and the
interfaces), of a method (type parameters, parameters, result and thrown types) or of a field (one
type). It is read into segments in which the leading name of every class type is a class name;
names of type variables and of member classes after a `.` are ordinary characters.

## Main definitions

* `ClassAtlas.Signature.segments?` — the cut of a signature into segments; nothing if malformed.
* `ClassAtlas.Signature.classes?` — the classes that a signature names.
* `ClassAtlas.Signature.rename?` — a signature with a class replaced.

## Design

Types nest inside type arguments and array types. The readers below recurse on an explicit bound;
every step either consumes a character or hands the same text to a reader that does, so twice the
length of the text is more than any reading needs.
-/

set_option autoImplicit false

namespace ClassAtlas.Signature

open Descriptor (baseTypes splitThrough?)

/-- A reader of a part of a signature: the segments read and the text after them. -/
abbrev Scan := List Char → Option (List Segment × List Char)

/-- Splits off the characters before the first one of `stops`, which has to occur. -/
def splitBefore? (stops cs : List Char) : Option (List Char × List Char) :=
  match cs.dropWhile fun c => !stops.contains c with
  | [] => none
  | rest => some (cs.takeWhile (fun c => !stops.contains c), rest)

mutual

/-- A class type, a type variable or an array type. -/
def referenceType? : Nat → Scan
  | 0, _ => none
  | _ + 1, [] => none
  | fuel + 1, c :: cs =>
    if c = 'L' then do
      let (name, cs) ← splitBefore? ['<', '.', ';'] cs
      let (more, cs) ← classSuffix? fuel cs
      return (.char c :: .className name :: more, cs)
    else if c = 'T' then do
      let (name, cs) ← splitThrough? ';' cs
      return (.char c :: name.map .char, cs)
    else if c = '[' then do
      let (more, cs) ← typeSignature? fuel cs
      return (.char c :: more, cs)
    else none

/-- A base type or a reference type. -/
def typeSignature? : Nat → Scan
  | 0, _ => none
  | _ + 1, [] => none
  | fuel + 1, c :: cs =>
    if c ∈ baseTypes then some ([.char c], cs) else referenceType? fuel (c :: cs)

/-- What follows the name of a class type: type arguments and member classes, up to the `;`. -/
def classSuffix? : Nat → Scan
  | 0, _ => none
  | _ + 1, [] => none
  | fuel + 1, c :: cs =>
    if c = '<' then do
      let (arguments, cs) ← typeArguments? fuel cs
      let (more, cs) ← classSuffix? fuel cs
      return (.char c :: arguments ++ more, cs)
    else if c = '.' then do
      let (inner, cs) ← splitBefore? ['<', '.', ';'] cs
      let (more, cs) ← classSuffix? fuel cs
      return (.char c :: inner.map .char ++ more, cs)
    else if c = ';' then some ([.char c], cs)
    else none

/-- The type arguments after a `<`, up to and including the `>`. -/
def typeArguments? : Nat → Scan
  | 0, _ => none
  | _ + 1, [] => none
  | fuel + 1, c :: cs =>
    if c = '>' then some ([.char c], cs)
    else if c = '*' then do
      let (more, cs) ← typeArguments? fuel cs
      return (.char c :: more, cs)
    else if c = '+' ∨ c = '-' then do
      let (bound, cs) ← referenceType? fuel cs
      let (more, cs) ← typeArguments? fuel cs
      return (.char c :: bound ++ more, cs)
    else do
      let (argument, cs) ← referenceType? fuel (c :: cs)
      let (more, cs) ← typeArguments? fuel cs
      return (argument ++ more, cs)

end

/-- The bounds of a type parameter: each is a `:` and possibly a reference type. -/
def bounds? : Nat → Scan
  | 0, _ => none
  | fuel + 1, ':' :: c :: cs =>
    if c = 'L' ∨ c = 'T' ∨ c = '[' then do
      let (bound, cs) ← referenceType? fuel (c :: cs)
      let (more, cs) ← bounds? fuel cs
      return (.char ':' :: bound ++ more, cs)
    else do
      let (more, cs) ← bounds? fuel (c :: cs)
      return (.char ':' :: more, cs)
  | _ + 1, cs => if cs = [':'] then none else some ([], cs)

/-- The type parameters after a `<`, up to and including the `>`. -/
def typeParameters? : Nat → Scan
  | 0, _ => none
  | _ + 1, [] => none
  | fuel + 1, c :: cs =>
    if c = '>' then some ([.char c], cs)
    else do
      let (name, cs) ← splitBefore? [':'] (c :: cs)
      let (bounds, cs) ← bounds? fuel cs
      let (more, cs) ← typeParameters? fuel cs
      return (name.map .char ++ bounds ++ more, cs)

/-- Reference types up to the end of the text: the supertypes of a class or the type of a field. -/
def referenceTypes? : Nat → Scan
  | 0, _ => none
  | _ + 1, [] => some ([], [])
  | fuel + 1, c :: cs => do
    let (type, cs) ← referenceType? fuel (c :: cs)
    let (more, cs) ← referenceTypes? fuel cs
    return (type ++ more, cs)

/-- The parameter types of a method, up to and including the `)`. -/
def parameters? : Nat → Scan
  | 0, _ => none
  | _ + 1, [] => none
  | fuel + 1, c :: cs =>
    if c = ')' then some ([.char c], cs)
    else do
      let (type, cs) ← typeSignature? fuel (c :: cs)
      let (more, cs) ← parameters? fuel cs
      return (type ++ more, cs)

/-- The types that a method throws, each after a `^`. -/
def throws? : Nat → Scan
  | 0, _ => none
  | fuel + 1, '^' :: cs => do
    let (type, cs) ← referenceType? fuel cs
    let (more, cs) ← throws? fuel cs
    return (.char '^' :: type ++ more, cs)
  | _ + 1, cs => some ([], cs)

/-- The result type of a method: `V` or a type. -/
def result? (fuel : Nat) : Scan
  | 'V' :: cs => some ([.char 'V'], cs)
  | cs => typeSignature? fuel cs

/-- What follows the type parameters: a method's types, or reference types. -/
def body? (fuel : Nat) : Scan
  | '(' :: cs => do
    let (parameters, cs) ← parameters? fuel cs
    let (result, cs) ← result? fuel cs
    let (thrown, cs) ← throws? fuel cs
    return (.char '(' :: parameters ++ result ++ thrown, cs)
  | cs => referenceTypes? fuel cs

/-- The segments of a signature, read with a bound; nothing if the text is no signature, or if the
bound is too small. -/
def segmentsWithin? (fuel : Nat) (cs : List Char) : Option (List Segment) := do
  let (parameters, rest) ←
    match cs with
    | '<' :: cs => (typeParameters? fuel cs).map fun (more, cs) => (Segment.char '<' :: more, cs)
    | cs => some ([], cs)
  let (types, rest) ← body? fuel rest
  if rest.isEmpty then some (parameters ++ types) else none

/-- The segments of a signature; nothing if the text is no signature. -/
def segments? (cs : List Char) : Option (List Segment) :=
  segmentsWithin? (2 * cs.length + 2) cs

/-- The classes that a signature names, in order of appearance; nothing if malformed. -/
def classes? (signature : String) : Option (List String) :=
  (segments? signature.toList).map fun segments =>
    (Segment.classNames segments).map String.ofList

/-- A signature with class `old` replaced by `new`; nothing if `old` does not occur or the text is
no signature. -/
def rename? (signature old new : String) : Option String := do
  let segments ← segments? signature.toList
  (Segment.renameClass? segments old.toList new.toList).map String.ofList

end ClassAtlas.Signature
