import ClassAtlas.Proofs.Symbol.Identity

/-!
# Identities as a code

Names of classes and members are escaped in identities, and descriptors are not. Still the first `::`
that is not escaped ends the owner, and the first `:` or `(` behind it ends the name of the member. So
the parts of a symbol are read off its identity, and different symbols have different identities, be
they of the same kind or not.

## Main definitions

* `ClassAtlas.MemberPath.Legible` — parts that can be read off the identity that is made of them.
* `ClassAtlas.MemberPath.Complete` — parts none of which is missing.
* `ClassAtlas.SymbolParts` — the parts of a class, a field or a method.
* `ClassAtlas.SymbolParts.IsProper` — names that are not empty, and descriptors of the right shape.
* `ClassAtlas.SymbolParts.IsRead` — parts that are found again.

## Main results

* `ClassAtlas.MemberPath.Legible.eq_of_identity` — different parts make different identities of members.
* `ClassAtlas.MemberPath.split_identity`, `ClassAtlas.MemberPath.split_identity_eq_iff` — the parts of a
  member are found again, if none of them is missing.
* `ClassAtlas.SymbolParts.isRead_and_unique` — the same for all symbols.
-/

set_option autoImplicit false

namespace ClassAtlas

attribute [ext] MemberPath

namespace MemberPath

variable {owner name descriptor owner' name' descriptor' : String} {sort sort' : MemberSort}
  {path path' found : MemberPath}

/-! ### Members -/

/-- Equal identities of members agree in their owners and in the rest. -/
theorem parts_of_identity_eq
    (h : identity ⟨.ofClass owner, name, descriptor⟩ sort =
      identity ⟨.ofClass owner', name', descriptor'⟩ sort') :
    Identity.ofClass owner = .ofClass owner' ∧
      Identity.escape name.toList ++ tail descriptor sort =
        Identity.escape name'.toList ++ tail descriptor' sort' := by
  have hsplit := splitUnescaped?_identity owner name descriptor sort
  rw [h, splitUnescaped?_identity] at hsplit
  obtain ⟨howner, hrest⟩ := Prod.mk.inj (Option.some.inj hsplit)
  constructor
  · have htext := String.toList_inj.mp howner
    exact congrArg Identity.mk htext.symm
  · exact (List.cons.inj (List.cons.inj hrest).2).2.symm

/-- The identity of a method is not that of a field. -/
theorem identity_method_ne_field (hd : descriptor.toList.head? = some '(') :
    identity ⟨.ofClass owner, name, descriptor⟩ .method ≠
      identity ⟨.ofClass owner', name', descriptor'⟩ .field := by
  intro h
  obtain ⟨-, hrest⟩ := parts_of_identity_eq h
  obtain ⟨rest, hdescriptor⟩ := List.head?_eq_some_iff.mp hd
  rw [tail, tail, hdescriptor] at hrest
  exact absurd (Identity.eq_of_escape_append rfl (by decide) rfl (by decide) hrest) (by decide)

/-- Parts that can be read off the identity that is made of them: the owner is a class, and the
descriptor of a method starts with its parenthesis. -/
structure Legible (path : MemberPath) (sort : MemberSort) : Prop where
  /-- The owner is a class. -/
  owner : ∃ name, path.owner = .ofClass name
  /-- The descriptor of a method starts with its parenthesis. -/
  head : sort = .method → path.descriptor.toList.head? = some '('

namespace Legible

/-- The parts are found again. -/
theorem eq_of_split (h : path.Legible sort) (hfound : (path.identity sort).split sort = .ok found) :
    found = path := by
  obtain ⟨owner, name, descriptor⟩ := path
  obtain ⟨class', rfl⟩ := h.owner
  exact MemberPath.eq_of_split h.head hfound

/-- **Different parts make different identities**, also if they are those of members of two sorts. -/
theorem eq_of_identity (h : path.Legible sort) (h' : path'.Legible sort')
    (he : path.identity sort = path'.identity sort') : sort = sort' ∧ path = path' := by
  obtain ⟨owner, name, descriptor⟩ := path
  obtain ⟨owner', name', descriptor'⟩ := path'
  obtain ⟨class', rfl⟩ := h.owner
  obtain ⟨class'', rfl⟩ := h'.owner
  obtain rfl : sort = sort' := by
    cases sort with
    | field =>
      cases sort' with
      | field => rfl
      | method => exact absurd he.symm (identity_method_ne_field (h'.head rfl))
    | method =>
      cases sort' with
      | field => exact absurd he (identity_method_ne_field (h.head rfl))
      | method => rfl
  obtain ⟨howner, hrest⟩ := parts_of_identity_eq he
  have hsplit := splitUnescaped?_member name h.head
  rw [hrest, splitUnescaped?_member name' h'.head] at hsplit
  obtain ⟨hname, htail⟩ := Prod.mk.inj (Option.some.inj hsplit)
  have hname := congrArg Identity.unescape hname
  rw [Identity.unescape_escape, Identity.unescape_escape] at hname
  exact ⟨rfl, MemberPath.ext howner (String.toList_inj.mp hname.symm) (tail_inj htail.symm)⟩

end Legible

end MemberPath

/-- The descriptors that members of a sort may have: that of a field is not empty, and that of a method
starts with `(` and has a `)`. -/
def MemberSort.Describes : MemberSort → String → Prop
  | .field, descriptor => descriptor ≠ ""
  | .method, descriptor => descriptor.toList.head? = some '(' ∧ ')' ∈ descriptor.toList

namespace MemberPath

variable {owner name descriptor : String} {sort : MemberSort}

theorem legible_of_describes (hd : sort.Describes descriptor) (owner name : String) :
    Legible ⟨.ofClass owner, name, descriptor⟩ sort := by
  refine ⟨⟨owner, rfl⟩, fun hsort => ?_⟩
  subst hsort
  exact hd.1

/-- **The parts of a member are found again.** -/
theorem split_identity (howner : owner ≠ "") (hname : name ≠ "") (hd : sort.Describes descriptor) :
    (identity ⟨.ofClass owner, name, descriptor⟩ sort).split sort =
      .ok ⟨.ofClass owner, name, descriptor⟩ := by
  have hnonempty {text : String} (h : text ≠ "") : Identity.escape text.toList ≠ [] := by
    intro hnil
    have htext := Identity.unescape_escape text.toList
    rw [hnil] at htext
    exact h (String.toList_eq_nil_iff.mp htext.symm)
  have hslashed : ClassName.slashed owner ≠ "" := by
    intro h
    have hlength := congrArg String.length h
    rw [ClassName.slashed, String.length_ofList, List.length_map] at hlength
    exact howner (String.toList_eq_nil_iff.mp (List.length_eq_zero_iff.mp hlength))
  have hsplit : (identity ⟨.ofClass owner, name, descriptor⟩ sort).splitOwner? =
      some (.ofClass owner, Identity.escape name.toList ++ tail descriptor sort) := by
    rw [splitOwner?_identity, if_neg]
    simpa [Identity.ofClass] using hnonempty hslashed
  have hmember := splitUnescaped?_member name (legible_of_describes hd owner name).head
  cases sort with
  | field =>
    have hcolon : Identity.splitUnescaped? [':'] (Identity.escape name.toList ++ ':' :: descriptor.toList) =
        some (Identity.escape name.toList, ':' :: descriptor.toList) := hmember
    have hdescriptor : descriptor ≠ "" := hd
    have hfield : (identity ⟨.ofClass owner, name, descriptor⟩ .field).splitField? =
        some ⟨.ofClass owner, name, descriptor⟩ := by
      simp [Identity.splitField?, hsplit, tail, hcolon, hnonempty hname, hdescriptor]
    rw [Identity.split, Identity.splitField, hfield]
  | method =>
    have hparen : Identity.splitUnescaped? ['('] (Identity.escape name.toList ++ descriptor.toList) =
        some (Identity.escape name.toList, descriptor.toList) := hmember
    have hmethod : (identity ⟨.ofClass owner, name, descriptor⟩ .method).splitMethod? =
        some ⟨.ofClass owner, name, descriptor⟩ := by
      simp [Identity.splitMethod?, hsplit, tail, hparen, hnonempty hname, hd.2]
    rw [Identity.split, Identity.splitMethod, hmethod]

/-- What an identity is split into has a descriptor of the sort. -/
theorem describes_of_split {id : Identity} {found : MemberPath} (h : id.split sort = .ok found) :
    sort.Describes found.descriptor := by
  cases sort with
  | field =>
    obtain ⟨-, -, rest, -, -, -, hne, -, hdescriptor⟩ := exists_of_splitField? (split_eq_ok_iff.mp h)
    simpa [MemberSort.Describes, hdescriptor] using hne
  | method =>
    obtain ⟨-, -, rest, -, -, -, hclose, -, hdescriptor⟩ :=
      exists_of_splitMethod? (split_eq_ok_iff.mp h)
    exact ⟨head?_of_split h, by simpa [hdescriptor] using hclose⟩

/-- Parts none of which is missing: no name is empty, and the descriptor is one of the sort. -/
structure Complete (path : MemberPath) (sort : MemberSort) : Prop where
  /-- The owner has a name. -/
  owner : path.owner.text ≠ ""
  /-- The member has a name. -/
  name : path.name ≠ ""
  /-- The descriptor is one that members of the sort may have. -/
  descriptor : sort.Describes path.descriptor

/-- What an identity is split into is complete. -/
theorem complete_of_split {id : Identity} {found : MemberPath} (h : id.split sort = .ok found) :
    found.Complete sort := by
  obtain ⟨member, name, howner, hmember, hname, hfound⟩ := exists_of_split h
  refine ⟨fun hempty => ?_, fun hempty => ?_, describes_of_split h⟩
  · rw [Identity.splitOwner?] at howner
    split at howner
    · obtain ⟨hne, he⟩ := Option.ite_none_left_eq_some.mp howner
      rw [← (Prod.mk.inj (Option.some.inj he)).1] at hempty
      exact hne (List.isEmpty_iff.mpr (by simpa using hempty))
    · cases howner
  · rw [hfound] at hempty
    exact hname ((Identity.append_of_splitUnescaped? hmember).2.2 (by simpa using hempty))

/-- **The parts of a member of a class are found again if and only if none of them is missing.** -/
theorem split_identity_eq_iff {path : MemberPath} (howner : path.owner = .ofClass owner) :
    (path.identity sort).split sort = .ok path ↔ path.Complete sort := by
  refine ⟨complete_of_split, fun h => ?_⟩
  obtain ⟨_, name, descriptor⟩ := path
  obtain rfl : _ = Identity.ofClass owner := howner
  refine split_identity (fun hempty => h.owner ?_) h.name h.descriptor
  rw [hempty]
  rfl

end MemberPath

/-! ### All symbols -/

/-- The parts of a symbol. -/
inductive SymbolParts where
  /-- The name of a class. -/
  | ofClass (name : String)
  /-- The name of the owner of a field or a method, its own name and its descriptor. -/
  | ofMember (sort : MemberSort) (owner name descriptor : String)
  deriving DecidableEq, Repr

namespace SymbolParts

variable {parts other : SymbolParts}

/-- The identity that is made of parts. -/
def identity : SymbolParts → Identity
  | .ofClass name => .ofClass name
  | .ofMember sort owner name descriptor => MemberPath.identity ⟨.ofClass owner, name, descriptor⟩ sort

/-- Names of classes that are not empty and have no dots, names of members that are not empty, and
descriptors of the right shape. -/
def IsProper : SymbolParts → Prop
  | .ofClass name => name ≠ "" ∧ '.' ∉ name.toList
  | .ofMember sort owner name descriptor =>
    (owner ≠ "" ∧ '.' ∉ owner.toList) ∧ name ≠ "" ∧ sort.Describes descriptor

/-- The parts are found again in the identity, which tells classes from members. -/
def IsRead : SymbolParts → Prop
  | .ofClass name => (Identity.ofClass name).className = name ∧ (Identity.ofClass name).isMember = false
  | .ofMember sort owner name descriptor =>
    (MemberPath.identity ⟨.ofClass owner, name, descriptor⟩ sort).split sort =
        .ok ⟨.ofClass owner, name, descriptor⟩ ∧
      (MemberPath.identity ⟨.ofClass owner, name, descriptor⟩ sort).isMember = true

theorem IsProper.isRead (h : parts.IsProper) : parts.IsRead := by
  cases parts with
  | ofClass name =>
    refine ⟨?_, Identity.isMember_ofClass name⟩
    rw [Identity.className_ofClass, ClassName.slashed_of_dot_notMem h.2]
  | ofMember sort owner name descriptor =>
    exact ⟨MemberPath.split_identity h.1.1 h.2.1 h.2.2, MemberPath.isMember_identity owner name descriptor sort⟩

/-- Different names of classes without dots make different identities. -/
theorem eq_of_ofClass {name name' : String} (h : '.' ∉ name.toList) (h' : '.' ∉ name'.toList)
    (he : Identity.ofClass name = .ofClass name') : name = name' := by
  have hslashed := Identity.ofClass_eq_iff.mp he
  rwa [ClassName.slashed_of_dot_notMem h, ClassName.slashed_of_dot_notMem h'] at hslashed

theorem IsProper.eq_of_identity (h : parts.IsProper) (h' : other.IsProper)
    (he : parts.identity = other.identity) : parts = other := by
  have hmember := congrArg Identity.isMember he
  cases parts with
  | ofClass name =>
    cases other with
    | ofClass name' => rw [eq_of_ofClass h.2 h'.2 he]
    | ofMember sort owner name' descriptor => simp [identity] at hmember
  | ofMember sort owner name descriptor =>
    cases other with
    | ofClass name' => simp [identity] at hmember
    | ofMember sort' owner' name' descriptor' =>
      obtain ⟨rfl, hpath⟩ := (MemberPath.legible_of_describes h.2.2 owner name).eq_of_identity
        (MemberPath.legible_of_describes h'.2.2 owner' name') he
      obtain ⟨howner, rfl, rfl⟩ := MemberPath.mk.inj hpath
      rw [eq_of_ofClass h.1.2 h'.1.2 howner]

/-- **The parts of a symbol are found again in its identity, and no other symbol has it.** -/
theorem isRead_and_unique (h : parts.IsProper) :
    parts.IsRead ∧ ∀ other : SymbolParts, other.IsProper → other.identity = parts.identity →
      other = parts :=
  ⟨h.isRead, fun _ h' he => h'.eq_of_identity h he⟩

/-- Separators and backslashes in all names. -/
theorem isRead_and_unique_method :
    IsProper (.ofMember .method "a:b/C(\\" "\\:(" "(I)V") ∧
      IsRead (.ofMember .method "a:b/C(\\" "\\:(" "(I)V") :=
  have h : IsProper (.ofMember .method "a:b/C(\\" "\\:(" "(I)V") := by
    refine ⟨⟨?_, ?_⟩, ?_, ?_, ?_⟩ <;> decide
  ⟨h, (isRead_and_unique h).1⟩

end SymbolParts

end ClassAtlas
