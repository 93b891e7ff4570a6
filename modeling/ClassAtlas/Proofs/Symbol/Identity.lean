import ClassAtlas.Symbol.Identity
import ClassAtlas.Workspace.RenamePlan

/-!
# Identities and their parts

The name of a class in an identity is escaped, so the first `::` that no backslash escapes stands
between the owner and the rest of a member, and classes and members have different identities. The
parts of a field, and of a method whose descriptor starts with its parenthesis, are found again.

## Main results

* `ClassAtlas.Identity.splitUnescaped?_escape` — an escaped name contains no separator.
* `ClassAtlas.Identity.isMember_ofClass`, `ClassAtlas.MemberPath.isMember_identity` — classes are no
  members.
* `ClassAtlas.MemberPath.owner_of_split`, `ClassAtlas.MemberPath.eq_of_split` — the parts of an
  identity that was made of parts.
-/

set_option autoImplicit false

namespace ClassAtlas

/-! ### Names of classes -/

@[simp]
theorem ClassName.slashed_slashed (name : String) : slashed (slashed name) = slashed name := by
  rw [slashed, slashed, String.toList_ofList, List.map_map]
  congr 1
  refine List.map_congr_left fun c _ => ?_
  by_cases hc : c = '.' <;> simp [hc]

theorem ClassName.slashed_of_dot_notMem {name : String} (h : '.' ∉ name.toList) :
    slashed name = name := by
  rw [slashed, ← String.toList_inj, String.toList_ofList]
  refine (List.map_congr_left fun c hc => if_neg ?_).trans (List.map_id' _)
  rintro rfl
  exact h hc

namespace Identity

variable {separator : Char} {more cs before after : List Char}

/-! ### Splitting -/

theorem splitUnescaped?_cons {c : Char} (hc : c ≠ '\\') (cs : List Char) :
    splitUnescaped? more (c :: cs) =
      if more.isPrefixOf (c :: cs) then some ([], c :: cs)
      else (splitUnescaped? more cs).map fun (before, after) => (c :: before, after) := by
  rw [splitUnescaped?.eq_4]
  · exact fun h => absurd h hc
  · exact fun _ _ h => absurd h hc

/-- What is split stays whole, the second part starts with the separator, and the first part is only
empty if it is empty without its backslashes. -/
theorem append_of_splitUnescaped? (h : splitUnescaped? more cs = some (before, after)) :
    before ++ after = cs ∧ more <+: after ∧ (unescape before = [] → before = []) := by
  fun_induction splitUnescaped? more cs generalizing before with
  | case1 => cases h
  | case2 => cases h
  | case3 c cs ih =>
    obtain ⟨⟨b, a⟩, hs, he⟩ := Option.map_eq_some_iff.mp h
    cases he
    obtain ⟨ha, hp, -⟩ := ih hs
    exact ⟨by simp [ha], hp, by simp [unescape]⟩
  | case4 c cs _ _ hp =>
    cases h
    exact ⟨rfl, List.isPrefixOf_iff_prefix.mp hp, fun _ => rfl⟩
  | case5 c cs hend hmid _ ih =>
    obtain ⟨⟨b, a⟩, hs, he⟩ := Option.map_eq_some_iff.mp h
    cases he
    obtain ⟨ha, hp, -⟩ := ih hs
    have hc : c ≠ '\\' := by
      rintro rfl
      cases cs with
      | nil => exact hend rfl rfl
      | cons d cs => exact hmid d cs rfl rfl
    exact ⟨by simp [ha], hp, by simp [hc]⟩

/-- An escaped name contains no separator. -/
theorem splitUnescaped?_escape (hs : isSeparator separator = true) (name : List Char) :
    splitUnescaped? (separator :: more) (escape name ++ cs) =
      (splitUnescaped? (separator :: more) cs).map fun (before, after) =>
        (escape name ++ before, after) := by
  induction name with
  | nil => simp [escape]
  | cons c name ih =>
    rw [escape]
    split
    · rw [List.cons_append, List.cons_append, splitUnescaped?, ih]
      simp [Function.comp_def]
    · rename_i hc
      have hslash : c ≠ '\\' := by
        rintro rfl
        exact hc rfl
      have hne : separator ≠ c := by
        rintro rfl
        exact hc hs
      rw [List.cons_append, splitUnescaped?_cons hslash, ih]
      simp [Function.comp_def, List.isPrefixOf, hne]

/-- A separator that comes next is found. -/
theorem splitUnescaped?_separator (hs : separator ≠ '\\') (cs : List Char) :
    splitUnescaped? (separator :: more) (separator :: more ++ cs) =
      some ([], separator :: more ++ cs) := by
  rw [List.cons_append, splitUnescaped?_cons hs]
  simp

/-- An escaped name ends at the first separator. -/
theorem eq_of_escape_append {c d : Char} {name other : List Char} (hc : isSeparator c = true)
    (hc' : c ≠ '\\') (hd : isSeparator d = true) (hd' : d ≠ '\\')
    (h : escape name ++ c :: before = escape other ++ d :: after) : c = d := by
  induction name generalizing other with
  | nil =>
    cases other with
    | nil => exact (List.cons.inj h).1
    | cons b other =>
      rw [escape, escape] at h
      split at h
      · exact absurd (List.cons.inj h).1 hc'
      · rename_i hb
        exact absurd ((List.cons.inj h).1 ▸ hc) hb
  | cons a name ih =>
    cases other with
    | nil =>
      rw [escape, escape] at h
      split at h
      · exact absurd (List.cons.inj h).1.symm hd'
      · rename_i ha
        exact absurd ((List.cons.inj h).1.symm ▸ hd) ha
    | cons b other =>
      rw [escape, escape] at h
      split at h <;> split at h
      · exact ih (List.cons.inj (List.cons.inj h).2).2
      · rename_i hb
        exact absurd ((List.cons.inj h).1 ▸ rfl) hb
      · rename_i ha _
        exact absurd ((List.cons.inj h).1.symm ▸ rfl) ha
      · exact ih (List.cons.inj h).2

/-! ### Classes -/

@[simp]
theorem className_ofClass (name : String) : (ofClass name).className = ClassName.slashed name := by
  simp [className, ofClass]

@[simp]
theorem ofClass_slashed (name : String) : ofClass (ClassName.slashed name) = ofClass name := by
  simp [ofClass]

/-- The identity of a class is that of its name. -/
theorem ofClass_eq_iff {name other : String} :
    ofClass name = ofClass other ↔ ClassName.slashed name = ClassName.slashed other := by
  constructor
  · intro h
    rw [← className_ofClass, h, className_ofClass]
  · intro h
    rw [← ofClass_slashed, h, ofClass_slashed]

/-- A class is no member. -/
@[simp]
theorem isMember_ofClass (name : String) : (ofClass name).isMember = false := by
  have h : splitUnescaped? [':', ':'] (escape (ClassName.slashed name).toList ++ []) = none :=
    splitUnescaped?_escape rfl _
  rw [List.append_nil] at h
  simp [isMember, ofClass, h]

/-- The parts of the identity of a member, if it has them. -/
def split? (identity : Identity) : MemberSort → Option MemberPath
  | .field => identity.splitField?
  | .method => identity.splitMethod?

end Identity

/-! ### Members -/

namespace MemberPath

variable {owner name descriptor : String} {sort : MemberSort} {found : MemberPath}

/-- What follows the name of a member in its identity. -/
def tail (descriptor : String) : MemberSort → List Char
  | .field => ':' :: descriptor.toList
  | .method => descriptor.toList

theorem toList_identity (path : MemberPath) (sort : MemberSort) :
    (path.identity sort).text.toList =
      path.owner.text.toList ++
        (':' :: ':' :: (Identity.escape path.name.toList ++ tail path.descriptor sort)) := by
  cases sort <;> simp [identity, Identity.ofField, Identity.ofMethod, tail]

/-- The identity of a member of a class is split behind the name of the class. -/
theorem splitUnescaped?_identity (owner name descriptor : String) (sort : MemberSort) :
    Identity.splitUnescaped? [':', ':']
        (identity ⟨.ofClass owner, name, descriptor⟩ sort).text.toList =
      some ((Identity.ofClass owner).text.toList,
        ':' :: ':' :: (Identity.escape name.toList ++ tail descriptor sort)) := by
  rw [toList_identity]
  simp only [Identity.ofClass, String.toList_ofList]
  rw [Identity.splitUnescaped?_escape rfl]
  have h : Identity.splitUnescaped? [':', ':']
      (':' :: ':' :: (Identity.escape name.toList ++ tail descriptor sort)) = some ([], _) :=
    Identity.splitUnescaped?_separator (by decide) _
  simp [h]

@[simp]
theorem isMember_identity (owner name descriptor : String) (sort : MemberSort) :
    (identity ⟨.ofClass owner, name, descriptor⟩ sort).isMember = true := by
  rw [Identity.isMember, splitUnescaped?_identity]
  rfl

theorem isMember_of_owner {path : MemberPath} (h : path.owner = .ofClass owner) :
    (path.identity sort).isMember = true := by
  obtain ⟨_, name, descriptor⟩ := path
  obtain rfl : _ = Identity.ofClass owner := h
  exact isMember_identity owner name descriptor sort

theorem splitOwner?_identity (owner name descriptor : String) (sort : MemberSort) :
    (identity ⟨.ofClass owner, name, descriptor⟩ sort).splitOwner? =
      if (Identity.ofClass owner).text.toList.isEmpty then none
      else some (.ofClass owner, Identity.escape name.toList ++ tail descriptor sort) := by
  rw [Identity.splitOwner?, splitUnescaped?_identity]
  simp

/-- The character behind the name of a member. -/
def stop : MemberSort → Char
  | .field => ':'
  | .method => '('

theorem tail_inj {other : String} (h : tail descriptor sort = tail other sort) :
    descriptor = other := by
  refine String.toList_inj.mp ?_
  cases sort with
  | field => exact (List.cons.inj h).2
  | method => exact h

/-- The rest of a member is split behind its name. -/
theorem splitUnescaped?_member (name : String)
    (hd : sort = .method → descriptor.toList.head? = some '(') :
    Identity.splitUnescaped? [stop sort] (Identity.escape name.toList ++ tail descriptor sort) =
      some (Identity.escape name.toList, tail descriptor sort) := by
  have htail : Identity.splitUnescaped? [stop sort] (tail descriptor sort) =
      some ([], tail descriptor sort) := by
    cases sort with
    | field => exact Identity.splitUnescaped?_separator (by decide) _
    | method =>
      obtain ⟨rest, hrest⟩ := List.head?_eq_some_iff.mp (hd rfl)
      rw [tail, hrest]
      exact Identity.splitUnescaped?_separator (by decide) _
  rw [Identity.splitUnescaped?_escape (by cases sort <;> rfl), htail]
  simp

theorem split_eq (id : Identity) (sort : MemberSort) : id.split sort =
    match id.split? sort with
    | some path => .ok path
    | none => .error (.malformedIdentity id.text) := by
  cases sort <;> rfl

theorem split_eq_ok_iff {id : Identity} : id.split sort = .ok found ↔ id.split? sort = some found := by
  rw [split_eq]
  split <;> simp_all

/-- An identity that cannot be split is reported as it is. -/
theorem eq_of_split_error {id : Identity} {e : Error} (h : id.split sort = .error e) :
    e = .malformedIdentity id.text := by
  rw [split_eq] at h
  split at h
  · cases h
  · exact (Except.error.inj h).symm

/-- What a field is split into: two cuts, and nothing that is left is empty. -/
theorem exists_of_splitField? {id : Identity} (h : id.splitField? = some found) :
    ∃ member name rest, id.splitOwner? = some (found.owner, member) ∧
      Identity.splitUnescaped? [':'] member = some (name, rest) ∧ name ≠ [] ∧ rest.drop 1 ≠ [] ∧
      found.name = String.ofList (Identity.unescape name) ∧
      found.descriptor = String.ofList (rest.drop 1) := by
  obtain ⟨⟨owner, member⟩, ho, h⟩ := Option.bind_eq_some_iff.mp h
  obtain ⟨⟨name, rest⟩, hn, h⟩ := Option.bind_eq_some_iff.mp h
  obtain ⟨hne, hfound⟩ := Option.ite_none_left_eq_some.mp h
  obtain rfl := Option.some.inj hfound
  rw [Bool.or_eq_true, not_or, List.isEmpty_iff, List.isEmpty_iff] at hne
  exact ⟨member, name, rest, ho, hn, hne.1, hne.2, rfl, rfl⟩

/-- What a method is split into: two cuts, a name that is not empty, and a list of parameters that has
an end. -/
theorem exists_of_splitMethod? {id : Identity} (h : id.splitMethod? = some found) :
    ∃ member name rest, id.splitOwner? = some (found.owner, member) ∧
      Identity.splitUnescaped? ['('] member = some (name, rest) ∧ name ≠ [] ∧ ')' ∈ rest ∧
      found.name = String.ofList (Identity.unescape name) ∧ found.descriptor = String.ofList rest := by
  obtain ⟨⟨owner, member⟩, ho, h⟩ := Option.bind_eq_some_iff.mp h
  obtain ⟨⟨name, rest⟩, hn, h⟩ := Option.bind_eq_some_iff.mp h
  obtain ⟨hne, hfound⟩ := Option.ite_none_left_eq_some.mp h
  obtain rfl := Option.some.inj hfound
  rw [Bool.or_eq_true, not_or, List.isEmpty_iff] at hne
  exact ⟨member, name, rest, ho, hn, hne.1, by simpa using hne.2, rfl, rfl⟩

/-- The parts of a member are cut out of the text of its identity. -/
theorem exists_of_split {id : Identity} (h : id.split sort = .ok found) :
    ∃ member name, id.splitOwner? = some (found.owner, member) ∧
      Identity.splitUnescaped? [stop sort] member = some (name, tail found.descriptor sort) ∧
      name ≠ [] ∧ found.name = String.ofList (Identity.unescape name) := by
  cases sort with
  | field =>
    obtain ⟨member, name, rest, ho, hn, hne, -, hname, hdescriptor⟩ :=
      exists_of_splitField? (split_eq_ok_iff.mp h)
    refine ⟨member, name, ho, ?_, hne, hname⟩
    obtain ⟨more, rfl⟩ := (Identity.append_of_splitUnescaped? hn).2.1
    simpa [hdescriptor, tail, stop] using hn
  | method =>
    obtain ⟨member, name, rest, ho, hn, hne, -, hname, hdescriptor⟩ :=
      exists_of_splitMethod? (split_eq_ok_iff.mp h)
    refine ⟨member, name, ho, ?_, hne, hname⟩
    simpa [hdescriptor, tail, stop] using hn

/-- The descriptor of a member stands at the end of its identity. -/
theorem suffix_of_split {id : Identity} (h : id.split sort = .ok found) :
    found.descriptor.toList <:+ id.text.toList := by
  obtain ⟨member, name, ho, hn, -, -⟩ := exists_of_split h
  have hmember : member <:+ id.text.toList := by
    rw [Identity.splitOwner?] at ho
    split at ho
    · rename_i owner rest hs
      split at ho
      · cases ho
      · rw [← (Prod.mk.inj (Option.some.inj ho)).2, ← (Identity.append_of_splitUnescaped? hs).1]
        exact (List.drop_suffix 2 rest).trans (List.suffix_append _ _)
    · cases ho
  have htail : tail found.descriptor sort <:+ member := by
    rw [← (Identity.append_of_splitUnescaped? hn).1]
    exact List.suffix_append _ _
  refine (List.IsSuffix.trans ?_ htail).trans hmember
  cases sort with
  | field => exact List.suffix_cons _ _
  | method => exact List.suffix_rfl

/-- The descriptor of a method starts with its parenthesis. -/
theorem head?_of_split {id : Identity} (h : id.split .method = .ok found) :
    found.descriptor.toList.head? = some '(' := by
  obtain ⟨member, name, -, hn, -, -⟩ := exists_of_split h
  obtain ⟨more, hm⟩ := (Identity.append_of_splitUnescaped? hn).2.1
  have he : '(' :: more = found.descriptor.toList := hm
  rw [← he]
  rfl

/-- The owner of a member is found again. -/
theorem owner_of_split
    (h : (identity ⟨.ofClass owner, name, descriptor⟩ sort).split sort = .ok found) :
    found.owner = .ofClass owner := by
  obtain ⟨member, n, ho, -⟩ := exists_of_split h
  rw [splitOwner?_identity] at ho
  split at ho
  · cases ho
  · exact (Prod.mk.inj (Option.some.inj ho)).1.symm

/-- The parts of a member are found again if its descriptor, for a method, starts with its
parenthesis. -/
theorem eq_of_split (hd : sort = .method → descriptor.toList.head? = some '(')
    (h : (identity ⟨.ofClass owner, name, descriptor⟩ sort).split sort = .ok found) :
    found = ⟨.ofClass owner, name, descriptor⟩ := by
  obtain ⟨member, n, ho, hn, -, hname⟩ := exists_of_split h
  rw [splitOwner?_identity] at ho
  split at ho
  · cases ho
  · obtain ⟨howner, rfl⟩ := Prod.mk.inj (Option.some.inj ho)
    rw [splitUnescaped?_member name hd] at hn
    obtain ⟨rfl, hrest⟩ := Prod.mk.inj (Option.some.inj hn)
    rw [Identity.unescape_escape, String.ofList_toList] at hname
    obtain ⟨foundOwner, foundName, foundDescriptor⟩ := found
    exact congr (congr (congrArg MemberPath.mk howner.symm) hname) (tail_inj hrest).symm

end MemberPath

end ClassAtlas
