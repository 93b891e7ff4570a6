import ClassAtlas.Proofs.Mapping.Origins
import ClassAtlas.Proofs.Renaming.Unchanged
import ClassAtlas.Proofs.Symbol.Codec
import ClassAtlas.Proofs.TypeText.Classes
import ClassAtlas.Proofs.TypeText.Descriptor

/-!
# Renaming reaches what mapping reports

Mapping takes names out of a class file by one route: it strips arrays, parses signatures and goes through
handles. A renaming finds them by another one: it edits every constant of the pool and the texts at every
site. In a class file with proper descriptors both routes lead to the same places. So the renaming of the
target of a reported use fails, or it reports a change.

## Main definitions

* `ClassAtlas.ClassFile.IsRegular` — names without dots, proper descriptors and references of the right
  kind.
* `ClassAtlas.Renaming.Targets` — a renaming of the target of a use.

## Main results

* `ClassAtlas.ClassFile.mem_sites_of_place` — places with descriptors and signatures are sites.
* `ClassAtlas.ClassRename.changed_of_namesClass` — a class that is named is renamed.
* `ClassAtlas.MemberRename.occurs_of_namesMember` — a member that is named occurs.
* `ClassAtlas.Renaming.apply_of_visit` — the target of every reported use is renamed.
-/

set_option autoImplicit false

namespace ClassAtlas

/-! ### Places are sites -/

section Sites

variable {c : ClassFile} {generic : UInt16 → Bool} {x : TextSite} {attributes : List Attribute}

lemma ElementValue.role_of_mem_sites {value : ElementValue} (hx : x ∈ value.sites) :
    x.role = .descriptor := by
  induction value using ElementValue.induction generalizing x with
  | leaf value =>
    rw [sites] at hx
    cases value with
    | const tag index => cases hx
    | enumConst type name => rw [List.mem_singleton.mp hx]
    | classInfo type => rw [List.mem_singleton.mp hx]
  | nested type elements ih =>
    rw [sites] at hx
    rcases Walk.mem_sites_use.mp hx with rfl | ⟨pair, hpair, hx⟩
    · rfl
    · exact ih pair hpair hx
  | array values ih =>
    rw [sites, sitesList_eq] at hx
    obtain ⟨value, hvalue, hx⟩ := List.mem_flatMap.mp hx
    exact ih value hvalue hx

lemma AnnotationUse.role_of_mem_sites {use : AnnotationUse} (hx : x ∈ use.sites) :
    x.role = .descriptor :=
  @ElementValue.role_of_mem_sites x (.nested use) hx

lemma Attribute.mem_sites_of_flat {a : Attribute} {body : FlatBody} (hbody : a.body = .flat body)
    (hx : x ∈ body.sites (generic a.name)) : x ∈ a.sites generic := by
  obtain ⟨name, _⟩ := a
  obtain rfl : _ = AttributeBody.flat body := hbody
  rwa [sites, AttributeBody.sites]

lemma Attribute.mem_sites_of_annotations {a : Attribute} {use : AnnotationUse}
    (huse : use ∈ a.annotations) (hx : x ∈ use.sites) : x ∈ a.sites generic := by
  rw [annotations] at huse
  split at huse
  · rename_i values hbody
    exact mem_sites_of_flat hbody (List.mem_flatMap.mpr ⟨use, huse, hx⟩)
  · rename_i values hbody
    obtain ⟨value, hvalue, huse⟩ := List.mem_flatten.mp huse
    exact mem_sites_of_flat hbody
      (List.mem_flatMap.mpr ⟨value, hvalue, List.mem_flatMap.mpr ⟨use, huse, hx⟩⟩)
  · rename_i values hbody
    obtain ⟨t, ht, rfl⟩ := List.mem_map.mp huse
    exact mem_sites_of_flat hbody (List.mem_flatMap.mpr ⟨t, ht, hx⟩)
  · cases huse

lemma Attribute.exists_of_signature? {index : UInt16} (h : signature? attributes = some index) :
    ∃ a ∈ attributes, a.body = .flat (.signature index) := by
  obtain ⟨a, ha, hbody⟩ := List.exists_of_findSome?_eq_some h
  refine ⟨a, ha, ?_⟩
  split at hbody
  · rename_i found hfound
    rw [hfound, Option.some.inj hbody]
  · cases hbody

lemma Attribute.exists_of_code? {body : CodeBody} (h : code? attributes = some body) :
    ∃ a ∈ attributes, a.body = .code body := by
  obtain ⟨a, ha, hbody⟩ := List.exists_of_findSome?_eq_some h
  refine ⟨a, ha, ?_⟩
  split at hbody
  · rename_i found hfound
    rw [hfound, Option.some.inj hbody]
  · cases hbody

lemma Attribute.mem_sites_of_record {a : Attribute} {components : List RecordComponent}
    {component : RecordComponent} (hbody : a.body = .record components)
    (hcomponent : component ∈ components) (hx : x ∈ component.sites generic) : x ∈ a.sites generic := by
  obtain ⟨name, _⟩ := a
  obtain rfl : _ = AttributeBody.record components := hbody
  rw [sites, AttributeBody.sites, RecordComponent.sitesList_eq]
  exact List.mem_flatMap.mpr ⟨component, hcomponent, hx⟩

namespace ClassFile

lemma mem_sites_of_field {m : Member} (hm : m ∈ c.fields) (hx : x ∈ m.sites generic) :
    x ∈ c.sites generic :=
  List.mem_append_left _ (List.mem_flatMap.mpr ⟨m, hm, hx⟩)

lemma mem_sites_of_method {m : Member} (hm : m ∈ c.methods) (hx : x ∈ m.sites generic) :
    x ∈ c.sites generic :=
  List.mem_append_right _ (List.mem_append_left _ (List.mem_flatMap.mpr ⟨m, hm, hx⟩))

lemma mem_sites_of_attribute {a : Attribute} (ha : a ∈ c.attributes) (hx : x ∈ a.sites generic) :
    x ∈ c.sites generic :=
  List.mem_append_right _ (List.mem_append_right _ (List.mem_flatMap.mpr ⟨a, ha, hx⟩))

lemma mem_sites_of_carries (hc : c.Carries attributes) {a : Attribute} (ha : a ∈ attributes)
    (hx : x ∈ a.sites generic) : x ∈ c.sites generic := by
  cases hc with
  | ofClass => exact mem_sites_of_attribute ha hx
  | ofField hm =>
    exact mem_sites_of_field hm (List.mem_cons_of_mem _ (List.mem_flatMap.mpr ⟨a, ha, hx⟩))
  | ofMethod hm =>
    exact mem_sites_of_method hm (List.mem_cons_of_mem _ (List.mem_flatMap.mpr ⟨a, ha, hx⟩))
  | @ofComponent record components component hrecord hbody hcomponent =>
    refine mem_sites_of_attribute hrecord (Attribute.mem_sites_of_record hbody hcomponent ?_)
    obtain ⟨name, descriptor, attributes⟩ := component
    rw [RecordComponent.sites, Attribute.sitesList_eq]
    exact List.mem_cons_of_mem _ (List.mem_flatMap.mpr ⟨a, ha, hx⟩)

lemma mem_sites_of_hasBody {body : CodeBody} (hb : c.HasBody body) {a : Attribute}
    (ha : a ∈ body.attributes) (hx : x ∈ a.sites generic) : x ∈ c.sites generic := by
  obtain ⟨m, hm, hcode⟩ := hb
  obtain ⟨⟨name, _⟩, hmem, hbody⟩ := Attribute.exists_of_code? hcode
  obtain rfl : _ = AttributeBody.code body := hbody
  refine mem_sites_of_carries (.ofMethod hm) hmem ?_
  obtain ⟨maxStack, maxLocals, code, handlers, attributes⟩ := body
  rw [Attribute.sites, AttributeBody.sites, CodeBody.sites, Attribute.sitesList_eq]
  exact List.mem_flatMap.mpr ⟨a, ha, hx⟩

end ClassFile

/-- What the text at an index that names classes in this way is for; nothing if the index is that of a
class constant. -/
def Naming.role? : Naming → Option TextRole
  | .className | .constant => none
  | .descriptor | .methodDescriptor => some .descriptor
  | .signature => some .signature

/-- **Places with descriptors and signatures are sites.** -/
theorem ClassFile.mem_sites_of_place {naming : Naming} {index : UInt16} (hp : c.Place naming index)
    {role : TextRole} (hrole : naming.role? = some role) :
    ⟨role, index⟩ ∈ c.sites c.pool.namesGenericTable := by
  have hdescriptor {x : TextSite} (hx : x ∈ c.sites c.pool.namesGenericTable)
      (hr : x.role = .descriptor) (hrole : some .descriptor = some role) :
      ⟨role, x.index⟩ ∈ c.sites c.pool.namesGenericTable := by
    rwa [← Option.some.inj hrole, ← hr]
  cases hp with
  | signature hc hi =>
    obtain rfl := Option.some.inj hrole
    obtain ⟨a, ha, hbody⟩ := Attribute.exists_of_signature? hi
    exact mem_sites_of_carries hc ha (Attribute.mem_sites_of_flat hbody List.mem_cons_self)
  | annotation hc huse hx =>
    obtain ⟨a, ha, huse⟩ := List.mem_flatMap.mp huse
    exact hdescriptor (mem_sites_of_carries hc ha (Attribute.mem_sites_of_annotations huse hx))
      (AnnotationUse.role_of_mem_sites hx) hrole
  | methodDescriptor hm =>
    obtain rfl := Option.some.inj hrole
    exact mem_sites_of_method hm List.mem_cons_self
  | annotationDefault hm ha hbody hx =>
    exact hdescriptor (mem_sites_of_carries (.ofMethod hm) ha (Attribute.mem_sites_of_flat hbody hx))
      (ElementValue.role_of_mem_sites hx) hrole
  | @localVariable body a entries v hb ha hbody hv =>
    refine mem_sites_of_hasBody hb ha (Attribute.mem_sites_of_flat hbody
      (List.mem_flatMap.mpr ⟨v, hv, List.mem_singleton.mpr ?_⟩))
    cases hgeneric : c.pool.namesGenericTable a.name <;> simp [hgeneric, Naming.role?] at hrole ⊢ <;>
      exact hrole.symm
  | codeAnnotation hb ha hbody ht hx =>
    exact hdescriptor (mem_sites_of_hasBody hb ha (Attribute.mem_sites_of_flat hbody
      (List.mem_flatMap.mpr ⟨_, ht, hx⟩))) (AnnotationUse.role_of_mem_sites hx) hrole
  | @component a components component ha hbody hcomponent =>
    obtain rfl := Option.some.inj hrole
    refine mem_sites_of_attribute ha (Attribute.mem_sites_of_record hbody hcomponent ?_)
    obtain ⟨name, descriptor, attributes⟩ := component
    exact List.mem_cons_self
  | _ => cases hrole

end Sites

/-! ### Regular class files -/

/-- The descriptors that members of a sort have: field types, and the descriptors of methods. -/
def MemberSort.IsDescriptor : MemberSort → String → Prop
  | .field, descriptor => Descriptor.IsFieldType descriptor.toList
  | .method, descriptor => ∃ parts, Descriptor.methodParts descriptor = .ok parts

/-- The descriptor of a method starts with its parenthesis. -/
lemma MemberSort.IsDescriptor.head? {sort : MemberSort} {descriptor : String}
    (h : sort.IsDescriptor descriptor) (hsort : sort = .method) :
    descriptor.toList.head? = some '(' := by
  subst hsort
  obtain ⟨parts, hparts⟩ := h
  exact (Descriptor.parenthesized_of_methodParts hparts).1

/-- A class file whose names and descriptors are what they should be, wherever it names a class or a
member. -/
structure ClassFile.IsRegular (c : ClassFile) : Prop where
  /-- The names of classes have no dots. -/
  names : ∀ {name}, c.NamesClass name → '.' ∉ name.toList
  /-- Neither have the names of the classes that own members. -/
  owners : ∀ {sort owner name descriptor}, c.NamesMember sort owner name descriptor →
    '.' ∉ owner.toList
  /-- The names of array types are field types. -/
  arrays : ∀ {index name}, c.Place .constant index → c.pool.className index = .ok name →
    name.toList.head? = some '[' → Descriptor.IsFieldType name.toList
  /-- The descriptors of types are field types or `V`. -/
  descriptors : ∀ {index text}, c.Place .descriptor index → c.pool.text index = .ok text →
    Descriptor.IsResult text.toList
  /-- The descriptors of members are those of members of the sort. -/
  memberDescriptors : ∀ {sort owner name descriptor}, c.NamesMember sort owner name descriptor →
    sort.IsDescriptor descriptor
  /-- What is used as a field is a reference to a field, and what is used as a method is one to a
  method. -/
  kinds : ∀ {sort index m}, c.MemberPlace sort index → c.pool.member index = .ok m →
    sort.covers m.kind = true

/-! ### Classes -/

namespace ClassRename

variable {r : ClassRename} {c after : ClassFile} {middle final : Revision} {changed : Bool} {i : UInt16}

/-- A class renaming that finds a new text for a class constant reports a change. -/
lemma Revises.changed_of_className (h : Revises r c middle final after) {name : String}
    (hname : c.pool.className i = .ok name) (hnew : r.constant? name ≠ none) :
    final.changed = true := by
  obtain ⟨n, hk, htext⟩ := Pool.className_eq_ok_iff.mp hname
  obtain ⟨text, ht⟩ := Option.ne_none_iff_exists'.mp hnew
  refine h.sites.changed_iff.mpr (.inl (h.constants.changed_iff.mpr (.inr ⟨i, _, text, hk, ?_⟩)))
  rw [newConstantText, htext]
  exact congrArg Except.ok ht

/-- A class renaming that finds a new text at a site reports a change. -/
lemma Revises.changed_of_site (h : Revises r c middle final after) {role : TextRole}
    (hx : ⟨role, i⟩ ∈ c.sites c.pool.namesGenericTable) {text : String}
    (htext : c.pool.text i = .ok text) (hnew : match role with
      | .descriptor => r.descriptor? text ≠ none
      | .signature => r.signature? text ≠ none
      | .simpleName _ _ => False) : final.changed = true := by
  have hfinal : final.pool.text i = .ok text := by
    rw [← h.pool]
    exact h.text htext
  refine h.sites.changed_iff.mpr (.inr ⟨_, hx, ?_⟩)
  cases role with
  | descriptor =>
    obtain ⟨text', ht⟩ := Option.ne_none_iff_exists'.mp hnew
    exact ⟨text', by rw [newSiteText, hfinal]; exact congrArg Except.ok ht⟩
  | signature =>
    obtain ⟨text', ht⟩ := Option.ne_none_iff_exists'.mp hnew
    exact ⟨text', by rw [newSiteText, hfinal]; exact congrArg Except.ok ht⟩
  | simpleName inner outer => exact hnew.elim

/-- **A class that a regular class file names is renamed** by a renaming that does not fail. -/
theorem changed_of_namesClass (hc : c.WellFormed) (hregular : c.IsRegular)
    (h : (Renaming.ofClass r).apply c = (.ok changed, after)) (hnames : c.NamesClass r.old) :
    changed = true := by
  obtain ⟨middle, final, hr, rfl⟩ := revises_of_apply hc h
  obtain ⟨naming, index, names, hp, hat, hmem⟩ := hnames
  cases naming with
  | className =>
    obtain ⟨name, hname, rfl⟩ := Except.map_eq_ok_iff.mp hat
    obtain rfl := List.mem_singleton.mp hmem
    exact hr.changed_of_className hname (by simp [constant?, Descriptor.renameConstant?])
  | constant =>
    obtain ⟨name, hname, rfl⟩ := Except.map_eq_ok_iff.mp hat
    exact hr.changed_of_className hname (Descriptor.renameConstant?_ne_none (hregular.arrays hp hname)
      (Option.mem_toList.mp hmem) r.new)
  | descriptor =>
    obtain ⟨text, htext, rfl⟩ := Except.map_eq_ok_iff.mp hat
    have hclass := Option.mem_toList.mp hmem
    refine hr.changed_of_site (ClassFile.mem_sites_of_place hp rfl) htext fun hnone => ?_
    exact ((hregular.descriptors hp htext).rename?_eq_none_iff
      (Descriptor.ne_empty_of_fieldClass? hclass)).mp hnone hclass
  | methodDescriptor =>
    obtain ⟨text, htext, hrest⟩ := Except.bind_eq_ok_iff.mp hat
    obtain ⟨parts, hparts, he⟩ := Except.bind_eq_ok_iff.mp hrest
    obtain rfl := Except.ok.inj he
    obtain ⟨part, hpart, hclass⟩ := List.mem_filterMap.mp hmem
    obtain ⟨hproper, rfl⟩ := Descriptor.methodParts_eq_ok_iff.mp hparts
    refine hr.changed_of_site (ClassFile.mem_sites_of_place hp rfl) htext fun hnone => ?_
    exact (hproper.rename?_text r.new (Descriptor.ne_empty_of_fieldClass? hclass)).1.mp hnone
      ⟨part, hpart, hclass⟩
  | signature =>
    obtain ⟨text, htext, rfl⟩ := Except.map_eq_ok_iff.mp hat
    refine hr.changed_of_site (ClassFile.mem_sites_of_place hp rfl) htext fun hnone => ?_
    cases hclasses : Signature.classes? text with
    | none => simp [hclasses] at hmem
    | some names =>
      rw [hclasses] at hmem
      exact Signature.rename?_eq_none_iff.mp hnone names hclasses hmem

end ClassRename

/-! ### Members -/

/-- **A member that a regular class file names occurs in it.** -/
theorem MemberRename.occurs_of_namesMember {c : ClassFile} (hregular : c.IsRegular) {r : MemberRename}
    (h : c.NamesMember r.sort r.owner r.name r.descriptor) : r.Occurs c := by
  obtain ⟨sort, owner, name, descriptor, newName⟩ := r
  cases h with
  | @ofPlace _ index m hp hm harray =>
    exact .inr (.inr (.inl ⟨index, m, hm, hregular.kinds hp hm, rfl, rfl, rfl⟩))
  | enclosingMethod ha hbody hne howner hmethod =>
    exact .inr (.inr (.inr ⟨_, ha, rfl, _, _, hbody, hne, howner, hmethod⟩))

/-! ### Reported uses -/

namespace Renaming

variable {c : ClassFile} {value : Reference} {r : Renaming}

/-- A renaming of the target of a use: of the class, or of the member with this owner, name and
descriptor. -/
def Targets (r : Renaming) (value : Reference) : Prop :=
  match r with
  | ofClass r => value.kind.targetKind = .classSymbol ∧ value.target = .ofClass r.old ∧
      '.' ∉ r.old.toList
  | ofMember r => value.kind.targetKind.memberSort? = some r.sort ∧
      value.target = MemberPath.identity ⟨.ofClass r.owner, r.name, r.descriptor⟩ r.sort ∧
      '.' ∉ r.owner.toList ∧ (r.sort = .method → r.descriptor.toList.head? = some '(')

/-- What a regular class file names can be renamed. -/
lemma exists_targets (hregular : c.IsRegular) (h : c.NamesTarget value) :
    ∃ r : Renaming, r.Targets value := by
  cases h with
  | @ofClass name hkind htarget hnames =>
    exact ⟨.ofClass ⟨name, name⟩, hkind, htarget, hregular.names hnames⟩
  | @ofMember sort owner name descriptor hkind htarget hnames =>
    exact ⟨.ofMember ⟨sort, owner, name, descriptor, name⟩, hkind, htarget, hregular.owners hnames,
      (hregular.memberDescriptors hnames).head?⟩

/-- **The target of a use that a class file names is renamed**, or the renaming fails. -/
theorem apply_of_namesTarget (hc : c.WellFormed) (hregular : c.IsRegular) (h : c.NamesTarget value)
    (hr : r.Targets value) : (r.apply c).1 ≠ .ok false := by
  intro hunchanged
  rcases happly : r.apply c with ⟨result, after⟩
  obtain rfl : result = .ok false := by rwa [happly] at hunchanged
  cases r with
  | ofClass r =>
    obtain ⟨hkind, htarget, hdot⟩ := hr
    cases h with
    | @ofClass name _ htarget' hnames =>
      obtain rfl := SymbolParts.eq_of_ofClass hdot (hregular.names hnames) (htarget.symm.trans htarget')
      cases ClassRename.changed_of_namesClass hc hregular happly hnames
    | ofMember hsort _ _ => simp [hkind, SymbolKind.memberSort?] at hsort
  | ofMember r =>
    obtain ⟨hsort, htarget, hdot, hhead⟩ := hr
    cases h with
    | ofClass hkind _ _ => simp [hkind, SymbolKind.memberSort?] at hsort
    | @ofMember sort owner name descriptor hsort' htarget' hnames =>
      obtain rfl := Option.some.inj (hsort.symm.trans hsort')
      have hlegible : MemberPath.Legible ⟨.ofClass r.owner, r.name, r.descriptor⟩ r.sort :=
        ⟨⟨r.owner, rfl⟩, hhead⟩
      have hlegible' : MemberPath.Legible ⟨.ofClass owner, name, descriptor⟩ r.sort :=
        ⟨⟨owner, rfl⟩, (hregular.memberDescriptors hnames).head?⟩
      obtain ⟨-, hpath⟩ := hlegible.eq_of_identity hlegible' (htarget.symm.trans htarget')
      obtain ⟨howner, rfl, rfl⟩ := MemberPath.mk.inj hpath
      obtain rfl := SymbolParts.eq_of_ofClass hdot (hregular.owners hnames) howner
      have hoccurs : r.Occurs c := MemberRename.occurs_of_namesMember hregular hnames
      exact MemberRename.not_occurs_of_apply hc happly hoccurs

/-- **Every reported use is really renamed.** Whatever a regular class file is reported to use can be
renamed, and each renaming of it, to whatever name, fails on the class file or reports a change. -/
theorem apply_of_visit {bytes : List UInt8} (hdecode : ClassFile.decode bytes = .ok c)
    (hregular : c.IsRegular) {file : RowId} (hvalue : .reference value ∈ (c.visit file).events) :
    (∃ r : Renaming, r.Targets value) ∧
      ∀ r : Renaming, r.Targets value → (r.apply c).1 ≠ .ok false := by
  have hnames := ClassFile.namesTarget_of_visit hvalue
  exact ⟨exists_targets hregular hnames, fun r hr =>
    apply_of_namesTarget (ClassFile.wellFormed_of_decode hdecode) hregular hnames hr⟩

/-- A class `B` with a method that reads the field `f` of `A`, an array of `A`, and returns it. -/
def fieldReader : ClassFile :=
  { ClassFile.blank with
    pool := ⟨#[none, some (.text "B"), some (.classRef 1), some (.text "A"), some (.classRef 3),
      some (.text "f"), some (.text "[LA;"), some (.nameAndType 5 6), some (.memberRef .field 4 7),
      some (.text "m"), some (.text "()[LA;"), some (.text "Code")]⟩
    thisClass := 2
    methods := [⟨8, 9, 10, [⟨11, .code ⟨1, 0, [0xB2, 0, 8, 0xB0], [], []⟩⟩]⟩] }

lemma hasBody_fieldReader {body : CodeBody} (h : fieldReader.HasBody body) :
    body = ⟨1, 0, [0xB2, 0, 8, 0xB0], [], []⟩ := by
  obtain ⟨m, hm, hbody⟩ := h
  obtain rfl := List.mem_singleton.mp hm
  exact (Option.some.inj hbody).symm

lemma hasInstruction_fieldReader {opcode : UInt8} {index : UInt16}
    (h : fieldReader.HasInstruction opcode index) : opcode = 0xB2 ∧ index = 8 := by
  obtain ⟨body, hb, i, hi, rfl, hindex⟩ := h
  obtain rfl := hasBody_fieldReader hb
  have hlisting : (Listing.ofCode [0xB2, 0, 8, 0xB0]).instructions =
      [⟨0, 0xB2, some 8⟩, ⟨3, 0xB0, none⟩] := by
    decide +kernel
  simp only [hlisting, List.mem_cons, List.not_mem_nil, or_false] at hi
  rcases hi with rfl | rfl
  · exact ⟨rfl, (Option.some.inj hindex).symm⟩
  · cases hindex

/-- That class names classes by its own constant and by the descriptor of its method. -/
lemma place_fieldReader {naming : Naming} {index : UInt16} (h : fieldReader.Place naming index) :
    naming = .className ∧ index = 2 ∨ naming = .methodDescriptor ∧ index = 10 := by
  have hattribute {m : Member} {a : Attribute} (hm : m ∈ fieldReader.methods) (ha : a ∈ m.attributes)
      {body : FlatBody} : a.body ≠ .flat body := by
    obtain rfl := List.mem_singleton.mp hm
    obtain rfl := List.mem_singleton.mp ha
    exact nofun
  cases h with
  | this => exact .inl ⟨rfl, rfl⟩
  | superclass hne => exact absurd rfl hne
  | signature hc hi =>
    obtain ⟨a, ha, hbody⟩ := Attribute.exists_of_signature? hi
    cases hc with
    | ofMethod hm => exact absurd hbody (hattribute hm ha)
    | _ => contradiction
  | annotation hc huse hx =>
    cases hc with
    | ofMethod hm =>
      obtain rfl := List.mem_singleton.mp hm
      cases huse
    | _ => contradiction
  | methodDescriptor hm =>
    obtain rfl := List.mem_singleton.mp hm
    exact .inr ⟨rfl, rfl⟩
  | thrown hm ha hbody hi => exact absurd hbody (hattribute hm ha)
  | annotationDefault hm ha hbody hx => exact absurd hbody (hattribute hm ha)
  | caught hb hh hne =>
    obtain rfl := hasBody_fieldReader hb
    cases hh
  | localVariable hb ha hbody hv =>
    obtain rfl := hasBody_fieldReader hb
    cases ha
  | codeAnnotation hb ha hbody ht hx =>
    obtain rfl := hasBody_fieldReader hb
    cases ha
  | typeInstruction hi ho =>
    obtain ⟨rfl, rfl⟩ := hasInstruction_fieldReader hi
    exact absurd ho (by decide)
  | classConstant hi ho hname =>
    obtain ⟨rfl, rfl⟩ := hasInstruction_fieldReader hi
    exact absurd ho (by decide)
  | _ => contradiction

lemma memberPlace_fieldReader {sort : MemberSort} {index : UInt16}
    (h : fieldReader.MemberPlace sort index) : sort = .field ∧ index = 8 := by
  have hpasses {kind : UInt8} {index : UInt16} : ¬ fieldReader.PassesHandle kind index := by
    rintro ⟨_, _, _, _, _, hi, -⟩
    exact absurd (hasInstruction_fieldReader hi).1 (by decide)
  cases h with
  | fieldInstruction hi ho => exact ⟨rfl, (hasInstruction_fieldReader hi).2⟩
  | methodInstruction hi ho =>
    obtain ⟨rfl, -⟩ := hasInstruction_fieldReader hi
    exact absurd ho (by decide)
  | fieldHandle hh hk => exact absurd hh hpasses
  | methodHandle hh hk => exact absurd hh hpasses

lemma namesMember_fieldReader {sort : MemberSort} {owner name descriptor : String}
    (h : fieldReader.NamesMember sort owner name descriptor) :
    sort = .field ∧ owner = "A" ∧ descriptor = "[LA;" := by
  cases h with
  | ofPlace hp hm harray =>
    obtain ⟨rfl, rfl⟩ := memberPlace_fieldReader hp
    have hmember : fieldReader.pool.member 8 = .ok ⟨.field, "A", "f", "[LA;"⟩ := by
      decide +kernel
    obtain rfl := Except.ok.inj (hmember.symm.trans hm)
    exact ⟨rfl, rfl, rfl⟩
  | enclosingMethod ha _ _ _ _ => cases ha

theorem isRegular_fieldReader : fieldReader.IsRegular where
  names := by
    rintro name ⟨naming, index, names, hp, hat, hmem⟩
    have hclass : fieldReader.pool.classesAt .className 2 = .ok ["B"] := by
      decide +kernel
    have hdescriptor : fieldReader.pool.classesAt .methodDescriptor 10 = .ok ["A"] := by
      decide +kernel
    rcases place_fieldReader hp with ⟨rfl, rfl⟩ | ⟨rfl, rfl⟩
    · obtain rfl := Except.ok.inj (hclass.symm.trans hat)
      obtain rfl := List.mem_singleton.mp hmem
      decide
    · obtain rfl := Except.ok.inj (hdescriptor.symm.trans hat)
      obtain rfl := List.mem_singleton.mp hmem
      decide
  owners h := by
    obtain ⟨-, rfl, -⟩ := namesMember_fieldReader h
    decide
  arrays hp := by
    obtain ⟨h, -⟩ | ⟨h, -⟩ := place_fieldReader hp <;> cases h
  descriptors hp := by
    obtain ⟨h, -⟩ | ⟨h, -⟩ := place_fieldReader hp <;> cases h
  memberDescriptors h := by
    obtain ⟨rfl, -, rfl⟩ := namesMember_fieldReader h
    have hname : ';' ∉ ['A'] := by decide
    exact .array (.object hname)
  kinds hp hm := by
    obtain ⟨rfl, rfl⟩ := memberPlace_fieldReader hp
    have hmember : fieldReader.pool.member 8 = .ok ⟨.field, "A", "f", "[LA;"⟩ := by
      decide +kernel
    obtain rfl := Except.ok.inj (hmember.symm.trans hm)
    rfl

/-- The class `A` and its field `f` are reported to be used, and both are renamed. -/
theorem apply_of_visit_fieldReader :
    .reference ⟨.returnType, 1, ⟨"A"⟩, ⟨"B::m()[LA;"⟩, none⟩ ∈ (fieldReader.visit 1).events ∧
      .reference ⟨.fieldInstruction, 1, ⟨"A::f:[LA;"⟩, ⟨"B::m()[LA;"⟩, some 0⟩ ∈
        (fieldReader.visit 1).events ∧
      (apply (.ofClass ⟨"A", "C"⟩) fieldReader).1 ≠ .ok false ∧
      (apply (.ofMember ⟨.field, "A", "f", "[LA;", "g"⟩) fieldReader).1 ≠ .ok false := by
  have hdecode : ClassFile.decode fieldReader.encode = .ok fieldReader := by
    decide +kernel
  have hclass : .reference ⟨.returnType, 1, ⟨"A"⟩, ⟨"B::m()[LA;"⟩, none⟩ ∈
      (fieldReader.visit 1).events := by
    decide +kernel
  have hfield : .reference ⟨.fieldInstruction, 1, ⟨"A::f:[LA;"⟩, ⟨"B::m()[LA;"⟩, some 0⟩ ∈
      (fieldReader.visit 1).events := by
    decide +kernel
  refine ⟨hclass, hfield, (apply_of_visit hdecode isRegular_fieldReader hclass).2 _ ?_,
    (apply_of_visit hdecode isRegular_fieldReader hfield).2 _ ?_⟩
  · exact ⟨rfl, by decide, by decide⟩
  · exact ⟨rfl, by decide, by decide, nofun⟩

end Renaming

end ClassAtlas
