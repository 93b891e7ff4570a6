import ClassAtlas.ClassFile.FormatError
import ClassAtlas.TypeText.Segment

/-!
# Field and method descriptors

A field descriptor is any number of `[`, then a base type letter or a class name between `L` and
`;`. A method descriptor lists its parameters between parentheses and ends with the result, which
may be `V`. The name in a class constant is a class name, or the descriptor of an array type.

## Main definitions

* `ClassAtlas.Descriptor.fieldClass?` — the class that a field descriptor names.
* `ClassAtlas.Descriptor.constantClass?` — the class that the name of a class constant denotes.
* `ClassAtlas.MethodParts`, `ClassAtlas.Descriptor.methodParts` — a method descriptor in parts.
* `ClassAtlas.Descriptor.segments` — the cut of a descriptor into segments.
* `ClassAtlas.Descriptor.rename?`, `ClassAtlas.Descriptor.renameConstant?` — replacing a class.

## Main results

* `ClassAtlas.Descriptor.append_of_splitField?` — splitting off a field type loses nothing.
* `ClassAtlas.Descriptor.render_segments` — the segments of a descriptor spell the descriptor.

## Design

Replacing a class does not check the grammar: a class name is whatever stands between an `L` and
the next `;`, and text that breaks the grammar is kept as it is.
-/

set_option autoImplicit false

namespace ClassAtlas

/-- A method descriptor in parts. -/
structure MethodParts where
  /-- The descriptors of the parameters. -/
  parameters : List String
  /-- The descriptor of the result; `V` for none. -/
  result : String
  deriving DecidableEq, Repr

namespace Descriptor

/-- The letters of the base types. -/
def baseTypes : List Char := ['B', 'C', 'D', 'F', 'I', 'J', 'S', 'Z']

/-- The class that a field descriptor names, through any number of array dimensions; nothing for
base types. -/
def fieldClass? (descriptor : String) : Option String :=
  match descriptor.toList.dropWhile (· == '[') with
  | 'L' :: rest =>
    if rest.getLast? = some ';' && 1 < rest.length then some (String.ofList rest.dropLast) else none
  | _ => none

/-- The class that the name of a class constant denotes: the name itself, or the element class of
an array type. Nothing for arrays of base types. -/
def constantClass? (name : String) : Option String :=
  match name.toList with
  | '[' :: _ => fieldClass? name
  | _ => some name

/-! ### Method descriptors -/

/-- Splits the characters up to and including the first `stop` off, if there is one. -/
def splitThrough? (stop : Char) : List Char → Option (List Char × List Char)
  | [] => none
  | c :: cs =>
    if c = stop then some ([c], cs)
    else (splitThrough? stop cs).map fun (taken, rest) => (c :: taken, rest)

/-- Splits a field type off the front of a text. -/
def splitField? : List Char → Option (List Char × List Char)
  | [] => none
  | c :: cs =>
    if c = '[' then (splitField? cs).map fun (taken, rest) => (c :: taken, rest)
    else if c = 'L' then (splitThrough? ';' cs).map fun (taken, rest) => (c :: taken, rest)
    else if c ∈ baseTypes then some ([c], cs)
    else none

/-- Splitting through a stop character loses nothing. -/
theorem append_of_splitThrough? {stop : Char} {cs taken rest : List Char}
    (h : splitThrough? stop cs = some (taken, rest)) : taken ++ rest = cs := by
  induction cs generalizing taken with
  | nil => simp [splitThrough?] at h
  | cons c cs ih =>
    rw [splitThrough?] at h
    split at h
    · obtain ⟨rfl, rfl⟩ : [c] = taken ∧ cs = rest := by simpa using h
      rfl
    · obtain ⟨⟨t, r⟩, ht, he⟩ := Option.map_eq_some_iff.1 h
      simp only [Prod.mk.injEq] at he
      obtain ⟨rfl, rfl⟩ := he
      simp [ih ht]

/-- Splitting off a field type loses nothing. -/
theorem append_of_splitField? {cs taken rest : List Char}
    (h : splitField? cs = some (taken, rest)) : taken ++ rest = cs := by
  induction cs generalizing taken with
  | nil => simp [splitField?] at h
  | cons c cs ih =>
    rw [splitField?] at h
    split at h
    · obtain ⟨⟨t, r⟩, ht, he⟩ := Option.map_eq_some_iff.1 h
      simp only [Prod.mk.injEq] at he
      obtain ⟨rfl, rfl⟩ := he
      simp [ih ht]
    · split at h
      · obtain ⟨⟨t, r⟩, ht, he⟩ := Option.map_eq_some_iff.1 h
        simp only [Prod.mk.injEq] at he
        obtain ⟨rfl, rfl⟩ := he
        simp [append_of_splitThrough? ht]
      · split at h
        · obtain ⟨rfl, rfl⟩ : [c] = taken ∧ cs = rest := by simpa using h
          rfl
        · simp at h

/-- A field type has at least one character. -/
theorem length_lt_of_splitField? {cs taken rest : List Char}
    (h : splitField? cs = some (taken, rest)) : rest.length < cs.length := by
  have ha := append_of_splitField? h
  have hne : taken ≠ [] := by
    intro he
    subst he
    cases cs with
    | nil => simp [splitField?] at h
    | cons c cs =>
      rw [splitField?] at h
      split at h
      · simp [Option.map_eq_some_iff] at h
      · split at h
        · simp [Option.map_eq_some_iff] at h
        · split at h <;> simp_all
  have hl := List.length_pos_iff.2 hne
  rw [← ha, List.length_append]
  omega

/-- Splits field types off until the closing parenthesis, which is dropped. -/
def splitParameters? (cs : List Char) : Option (List (List Char) × List Char) :=
  match cs with
  | ')' :: rest => some ([], rest)
  | cs =>
    match h : splitField? cs with
    | none => none
    | some (part, rest) =>
      have : rest.length < cs.length := length_lt_of_splitField? h
      (splitParameters? rest).map fun (parts, rest) => (part :: parts, rest)
termination_by cs.length

/-- Whether a text is the descriptor of a result: `V` or one field type. -/
def isResult (cs : List Char) : Bool :=
  cs == ['V'] || (splitField? cs).any fun (_, rest) => rest.isEmpty

/-- The parameters and the result of a method descriptor. -/
def methodParts (descriptor : String) : Except FormatError MethodParts :=
  let parts? : Option MethodParts :=
    match descriptor.toList with
    | '(' :: cs =>
      match splitParameters? cs with
      | some (parameters, result) =>
        if isResult result then some ⟨parameters.map String.ofList, String.ofList result⟩ else none
      | none => none
    | _ => none
  match parts? with
  | some parts => .ok parts
  | none => .error (.malformedDescriptor descriptor)

/-! ### Replacing a class -/

/-- The segments of a descriptor: whatever stands between an `L` and the next `;` is a class name.
An `L` that no `;` follows starts no class name. -/
def segments (cs : List Char) : List Segment :=
  match cs with
  | [] => []
  | c :: cs =>
    if c ≠ 'L' then .char c :: segments cs
    else if ';' ∈ cs then
      have : (cs.dropWhile (· != ';')).length < cs.length + 1 :=
        Nat.lt_succ_of_le (List.dropWhile_suffix _).length_le
      .char c :: .className (cs.takeWhile (· != ';')) :: segments (cs.dropWhile (· != ';'))
    else .char c :: cs.map .char
termination_by cs.length

/-- The segments of a descriptor spell the descriptor. -/
@[simp]
theorem render_segments (cs : List Char) : Segment.render (segments cs) = cs := by
  fun_induction segments cs with
  | case1 => rfl
  | case2 c cs h ih => simp [Segment.chars, ih]
  | case3 c cs h hs this ih => simp [Segment.chars, ih, List.takeWhile_append_dropWhile]
  | case4 c cs h hs => simp [Segment.chars]

/-- A field or method descriptor with class `old` replaced by `new`, or nothing if `old` does not
occur. -/
def rename? (descriptor old new : String) : Option String :=
  (Segment.renameClass? (segments descriptor.toList) old.toList new.toList).map String.ofList

/-- The name of a class constant with class `old` replaced by `new`, or nothing if it denotes
another class. -/
def renameConstant? (name old new : String) : Option String :=
  if name = old then some new
  else if name.toList.head? = some '[' then rename? name old new
  else none

end Descriptor

end ClassAtlas
