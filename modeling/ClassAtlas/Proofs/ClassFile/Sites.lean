import Mathlib
import ClassAtlas.Proofs.ClassFile.Tree

/-!
# The places of type texts

Renaming a class replaces texts at certain places of a class file: the descriptors of members,
record components, local variables, annotations, enumeration constants and class values, the generic
signatures, and the simple names of member classes. Such a place is a *site*. The *outline* of a
class file is all the rest, so the outline and the indices at the sites make up the class file.

## Main definitions

* `ClassAtlas.TextRole`, `ClassAtlas.TextSite` — what a text is for, and an index with such a role.
* `ClassAtlas.ClassFile.sites` — the sites of a class file in the order of the file; `sites` of its
  parts.
* `ClassAtlas.ClassFile.outline` — the class file with zero at all sites; `outline` of its parts.

## Main results

* `ClassAtlas.ClassFile.sites_outline` — the outline determines the roles of the sites.
* `ClassAtlas.ClassFile.ext_outline` — outline, sites and pool determine the class file.
* `ClassAtlas.ClassFile.mem_uses` — the indices at a site are in use.
-/

set_option autoImplicit false

namespace ClassAtlas

/-- What a text is for. -/
inductive TextRole where
  /-- A descriptor of a field, a method or a type. -/
  | descriptor
  /-- A generic signature. -/
  | signature
  /-- The simple name of a member class, with the class constants of the class and of the one around
  it. -/
  | simpleName (inner outer : UInt16)
  deriving DecidableEq, Repr

/-- A place at which a class file names a text. -/
structure TextSite where
  /-- What the text is for. -/
  role : TextRole
  /-- The index of the text. -/
  index : UInt16
  deriving DecidableEq, Repr

/-- The site without its index. -/
def TextSite.erase (x : TextSite) : TextSite := { x with index := 0 }

/-! ### Annotations -/

/-- The sites of a value that holds no other. -/
def ElementLeaf.sites : ElementLeaf → List TextSite
  | const _ _ => []
  | enumConst type _ => [⟨.descriptor, type⟩]
  | classInfo descriptor => [⟨.descriptor, descriptor⟩]

/-- The value with zero at its sites. -/
def ElementLeaf.outline : ElementLeaf → ElementLeaf
  | const tag index => const tag index
  | enumConst _ name => enumConst 0 name
  | classInfo _ => classInfo 0

mutual

/-- The sites of an annotation. -/
def AnnotationUse.sites : AnnotationUse → List TextSite
  | ⟨type, elements⟩ => ⟨.descriptor, type⟩ :: ElementPair.sitesList elements

/-- The sites of an element value with its name. -/
def ElementPair.sites : ElementPair → List TextSite
  | ⟨_, value⟩ => value.sites

/-- The sites of an element value. -/
def ElementValue.sites : ElementValue → List TextSite
  | .leaf value => value.sites
  | .nested value => value.sites
  | .array values => ElementValue.sitesList values

/-- The sites of element values with their names. -/
def ElementPair.sitesList : List ElementPair → List TextSite
  | [] => []
  | pair :: pairs => pair.sites ++ ElementPair.sitesList pairs

/-- The sites of element values. -/
def ElementValue.sitesList : List ElementValue → List TextSite
  | [] => []
  | value :: values => value.sites ++ ElementValue.sitesList values

end

mutual

/-- The annotation with zero at its sites. -/
def AnnotationUse.outline : AnnotationUse → AnnotationUse
  | ⟨_, elements⟩ => ⟨0, ElementPair.outlineList elements⟩

/-- The element value, with its name, with zero at its sites. -/
def ElementPair.outline : ElementPair → ElementPair
  | ⟨name, value⟩ => ⟨name, value.outline⟩

/-- The element value with zero at its sites. -/
def ElementValue.outline : ElementValue → ElementValue
  | .leaf value => .leaf value.outline
  | .nested value => .nested value.outline
  | .array values => .array (ElementValue.outlineList values)

/-- Element values, with their names, with zero at their sites. -/
def ElementPair.outlineList : List ElementPair → List ElementPair
  | [] => []
  | pair :: pairs => pair.outline :: ElementPair.outlineList pairs

/-- Element values with zero at their sites. -/
def ElementValue.outlineList : List ElementValue → List ElementValue
  | [] => []
  | value :: values => value.outline :: ElementValue.outlineList values

end

theorem ElementPair.sitesList_eq (pairs : List ElementPair) :
    sitesList pairs = pairs.flatMap sites := by
  induction pairs with
  | nil => rfl
  | cons pair pairs ih => simp [sitesList, ih]

theorem ElementValue.sitesList_eq (values : List ElementValue) :
    sitesList values = values.flatMap sites := by
  induction values with
  | nil => rfl
  | cons value values ih => simp [sitesList, ih]

theorem ElementPair.outlineList_eq (pairs : List ElementPair) :
    outlineList pairs = pairs.map outline := by
  induction pairs with
  | nil => rfl
  | cons pair pairs ih => simp [outlineList, ih]

theorem ElementValue.outlineList_eq (values : List ElementValue) :
    outlineList values = values.map outline := by
  induction values with
  | nil => rfl
  | cons value values ih => simp [outlineList, ih]

lemma ElementPair.sites_eq (pair : ElementPair) : pair.sites = pair.value.sites := by
  cases pair
  rfl

lemma ElementPair.outline_eq (pair : ElementPair) :
    pair.outline = ⟨pair.name, pair.value.outline⟩ := by
  cases pair
  rfl

/-- The sites of an annotation of a use of a type. -/
def TypeAnnotationUse.sites (a : TypeAnnotationUse) : List TextSite := a.use.sites

/-- The annotation of a use of a type with zero at its sites. -/
def TypeAnnotationUse.outline (a : TypeAnnotationUse) : TypeAnnotationUse :=
  { a with use := a.use.outline }

/-! ### Attributes -/

/-- The site of a local variable: its type. -/
def LocalVariable.sites (isGeneric : Bool) (v : LocalVariable) : List TextSite :=
  [⟨if isGeneric then .signature else .descriptor, v.descriptor⟩]

/-- The local variable with zero at its site. -/
def LocalVariable.outline (v : LocalVariable) : LocalVariable := { v with descriptor := 0 }

/-- The site of an entry of the table of inner classes: its simple name. -/
def InnerClass.sites (c : InnerClass) : List TextSite := [⟨.simpleName c.inner c.outer, c.name⟩]

/-- The entry of the table of inner classes with zero at its site. -/
def InnerClass.outline (c : InnerClass) : InnerClass := { c with name := 0 }

/-- The sites of a body without further attributes; `isGeneric` says that local variables have
signatures. -/
def FlatBody.sites (isGeneric : Bool) : FlatBody → List TextSite
  | signature index => [⟨.signature, index⟩]
  | annotations values => values.flatMap AnnotationUse.sites
  | parameterAnnotations values => values.flatMap fun v => v.flatMap AnnotationUse.sites
  | annotationDefault value => value.sites
  | localVariables entries => entries.flatMap (LocalVariable.sites isGeneric)
  | innerClasses entries => entries.flatMap InnerClass.sites
  | typeAnnotations values => values.flatMap TypeAnnotationUse.sites
  | bootstrapMethods _ | enclosingMethod _ _ | classes _ | nestHost _ | raw _ => []

/-- The body with zero at its sites. -/
def FlatBody.outline : FlatBody → FlatBody
  | signature _ => signature 0
  | annotations values => annotations (values.map AnnotationUse.outline)
  | parameterAnnotations values =>
    parameterAnnotations (values.map fun v => v.map AnnotationUse.outline)
  | annotationDefault value => annotationDefault value.outline
  | localVariables entries => localVariables (entries.map LocalVariable.outline)
  | innerClasses entries => innerClasses (entries.map InnerClass.outline)
  | typeAnnotations values => typeAnnotations (values.map TypeAnnotationUse.outline)
  | bootstrapMethods methods => bootstrapMethods methods
  | enclosingMethod owner method => enclosingMethod owner method
  | classes indices => classes indices
  | nestHost index => nestHost index
  | raw bytes => raw bytes

section Attributes

variable (generic : UInt16 → Bool)

mutual

/-- The sites of an attribute; `generic` tells the names of tables of generic types. -/
def Attribute.sites : Attribute → List TextSite
  | ⟨name, body⟩ => body.sites (generic name)

/-- The sites of the body of an attribute. -/
def AttributeBody.sites (isGeneric : Bool) : AttributeBody → List TextSite
  | .flat body => body.sites isGeneric
  | .code body => body.sites
  | .record components => RecordComponent.sitesList components

/-- The sites of the body of a method. -/
def CodeBody.sites : CodeBody → List TextSite
  | ⟨_, _, _, _, attributes⟩ => Attribute.sitesList attributes

/-- The sites of a component of a record. -/
def RecordComponent.sites : RecordComponent → List TextSite
  | ⟨_, descriptor, attributes⟩ => ⟨.descriptor, descriptor⟩ :: Attribute.sitesList attributes

/-- The sites of attributes. -/
def Attribute.sitesList : List Attribute → List TextSite
  | [] => []
  | a :: attributes => a.sites ++ Attribute.sitesList attributes

/-- The sites of components of a record. -/
def RecordComponent.sitesList : List RecordComponent → List TextSite
  | [] => []
  | c :: components => c.sites ++ RecordComponent.sitesList components

end

theorem Attribute.sitesList_eq (attributes : List Attribute) :
    sitesList generic attributes = attributes.flatMap (sites generic) := by
  induction attributes with
  | nil => rfl
  | cons a attributes ih => simp [sitesList, ih]

theorem RecordComponent.sitesList_eq (components : List RecordComponent) :
    sitesList generic components = components.flatMap (sites generic) := by
  induction components with
  | nil => rfl
  | cons c components ih => simp [sitesList, ih]

end Attributes

mutual

/-- The attribute with zero at its sites. -/
def Attribute.outline : Attribute → Attribute
  | ⟨name, body⟩ => ⟨name, body.outline⟩

/-- The body of an attribute with zero at its sites. -/
def AttributeBody.outline : AttributeBody → AttributeBody
  | .flat body => .flat body.outline
  | .code body => .code body.outline
  | .record components => .record (RecordComponent.outlineList components)

/-- The body of a method with zero at its sites. -/
def CodeBody.outline : CodeBody → CodeBody
  | ⟨maxStack, maxLocals, code, handlers, attributes⟩ =>
    ⟨maxStack, maxLocals, code, handlers, Attribute.outlineList attributes⟩

/-- The component of a record with zero at its sites. -/
def RecordComponent.outline : RecordComponent → RecordComponent
  | ⟨name, _, attributes⟩ => ⟨name, 0, Attribute.outlineList attributes⟩

/-- Attributes with zero at their sites. -/
def Attribute.outlineList : List Attribute → List Attribute
  | [] => []
  | a :: attributes => a.outline :: Attribute.outlineList attributes

/-- Components of a record with zero at their sites. -/
def RecordComponent.outlineList : List RecordComponent → List RecordComponent
  | [] => []
  | c :: components => c.outline :: RecordComponent.outlineList components

end

theorem Attribute.outlineList_eq (attributes : List Attribute) :
    outlineList attributes = attributes.map outline := by
  induction attributes with
  | nil => rfl
  | cons a attributes ih => simp [outlineList, ih]

theorem RecordComponent.outlineList_eq (components : List RecordComponent) :
    outlineList components = components.map outline := by
  induction components with
  | nil => rfl
  | cons c components ih => simp [outlineList, ih]

/-! ### Members and class files -/

/-- The sites of a member. -/
def Member.sites (generic : UInt16 → Bool) (m : Member) : List TextSite :=
  ⟨.descriptor, m.descriptor⟩ :: m.attributes.flatMap (Attribute.sites generic)

/-- The member with zero at its sites. -/
def Member.outline (m : Member) : Member :=
  { m with descriptor := 0, attributes := m.attributes.map Attribute.outline }

/-- Whether an index resolves to the name of the table of generic types of local variables. -/
def Pool.namesGenericTable (pool : Pool) (name : UInt16) : Bool :=
  pool.get? name == some (.text "LocalVariableTypeTable")

/-- The sites of a class file. -/
def ClassFile.sites (generic : UInt16 → Bool) (c : ClassFile) : List TextSite :=
  c.fields.flatMap (Member.sites generic) ++ (c.methods.flatMap (Member.sites generic) ++
    c.attributes.flatMap (Attribute.sites generic))

/-- The class file without its pool and with zero at its sites. -/
def ClassFile.outline (c : ClassFile) : ClassFile :=
  { c with
    pool := .empty
    fields := c.fields.map Member.outline
    methods := c.methods.map Member.outline
    attributes := c.attributes.map Attribute.outline }

/-! ### The outline determines the roles of the sites -/

lemma ElementLeaf.sites_outline (v : ElementLeaf) : v.outline.sites = v.sites.map .erase := by
  cases v <;> rfl

/-- The members of a list have the sites that their outlines have, up to the indices. -/
lemma flatMap_sites_map_outline {α : Type} {outline : α → α} {sites : α → List TextSite}
    {as : List α} (h : ∀ a ∈ as, sites (outline a) = (sites a).map .erase) :
    (as.map outline).flatMap sites = (as.flatMap sites).map .erase := by
  rw [List.flatMap_map, List.map_flatMap]
  exact List.flatMap_congr h

lemma ElementValue.sites_outline (v : ElementValue) : v.outline.sites = v.sites.map .erase := by
  induction v using ElementValue.induction with
  | leaf value => simpa only [outline, sites] using value.sites_outline
  | nested type elements ih =>
    simp only [outline, sites, AnnotationUse.outline, AnnotationUse.sites,
      ElementPair.outlineList_eq, ElementPair.sitesList_eq, List.map_cons]
    rw [flatMap_sites_map_outline fun pair hp => ?_]
    · rfl
    · rw [ElementPair.sites_eq, ElementPair.sites_eq, ElementPair.outline_eq, ih pair hp]
  | array values ih =>
    simp only [outline, sites, ElementValue.outlineList_eq, ElementValue.sitesList_eq]
    exact flatMap_sites_map_outline ih

lemma ElementPair.sites_outline (pair : ElementPair) :
    pair.outline.sites = pair.sites.map .erase := by
  rw [sites_eq, sites_eq, outline_eq, ElementValue.sites_outline]

lemma AnnotationUse.sites_outline (a : AnnotationUse) : a.outline.sites = a.sites.map .erase :=
  ElementValue.sites_outline (.nested a)

lemma FlatBody.sites_outline (isGeneric : Bool) (body : FlatBody) :
    body.outline.sites isGeneric = (body.sites isGeneric).map .erase := by
  cases body with
  | annotations values => exact flatMap_sites_map_outline fun a _ => a.sites_outline
  | parameterAnnotations values =>
    exact flatMap_sites_map_outline fun v _ =>
      flatMap_sites_map_outline fun a _ => a.sites_outline
  | annotationDefault value => exact value.sites_outline
  | localVariables entries => exact flatMap_sites_map_outline fun _ _ => rfl
  | innerClasses entries => exact flatMap_sites_map_outline fun _ _ => rfl
  | typeAnnotations values => exact flatMap_sites_map_outline fun a _ => a.use.sites_outline
  | _ => rfl

lemma Attribute.sites_outline (generic : UInt16 → Bool) (a : Attribute) :
    a.outline.sites generic = (a.sites generic).map .erase := by
  induction a using Attribute.induction with
  | flat name body => exact body.sites_outline _
  | code name body ih =>
    obtain ⟨maxStack, maxLocals, code, handlers, attributes⟩ := body
    simp only [outline, AttributeBody.outline, CodeBody.outline, sites, AttributeBody.sites,
      CodeBody.sites, Attribute.outlineList_eq, Attribute.sitesList_eq]
    exact flatMap_sites_map_outline ih
  | record name components ih =>
    simp only [outline, AttributeBody.outline, sites, AttributeBody.sites,
      RecordComponent.outlineList_eq, RecordComponent.sitesList_eq]
    refine flatMap_sites_map_outline fun c hc => ?_
    obtain ⟨name, descriptor, attributes⟩ := c
    simp only [RecordComponent.outline, RecordComponent.sites, Attribute.outlineList_eq,
      Attribute.sitesList_eq, List.map_cons]
    rw [flatMap_sites_map_outline (ih _ hc)]
    rfl

lemma RecordComponent.sites_outline (generic : UInt16 → Bool) (c : RecordComponent) :
    c.outline.sites generic = (c.sites generic).map .erase := by
  obtain ⟨name, descriptor, attributes⟩ := c
  simp only [outline, sites, Attribute.outlineList_eq, Attribute.sitesList_eq, List.map_cons]
  rw [flatMap_sites_map_outline fun a _ => a.sites_outline generic]
  rfl

lemma Member.sites_outline (generic : UInt16 → Bool) (m : Member) :
    m.outline.sites generic = (m.sites generic).map .erase := by
  simp only [outline, sites, List.map_cons]
  rw [flatMap_sites_map_outline fun a _ => a.sites_outline generic]
  rfl

/-- **The outline of a class file determines the roles of its sites.** -/
theorem ClassFile.sites_outline (generic : UInt16 → Bool) (c : ClassFile) :
    c.outline.sites generic = (c.sites generic).map .erase := by
  simp only [outline, sites, List.map_append]
  rw [flatMap_sites_map_outline fun m _ => m.sites_outline generic,
    flatMap_sites_map_outline fun m _ => m.sites_outline generic,
    flatMap_sites_map_outline fun a _ => a.sites_outline generic]

/-! ### Outline and sites determine the rest -/

/-- Equal outlines have equally many sites. -/
lemma length_sites_eq {α : Type} {outline : α → α} {sites : α → List TextSite}
    (h : ∀ a, sites (outline a) = (sites a).map .erase) {a b : α} (ho : outline a = outline b) :
    (sites a).length = (sites b).length := by
  have := congrArg (fun a => (sites a).length) ho
  simpa [h] using this

/-- Lists are equal if their members are determined by outlines and sites, and agree in both. -/
lemma eq_of_map_outline_of_flatMap_sites {α : Type} {outline : α → α} {sites : α → List TextSite}
    (h : ∀ a, sites (outline a) = (sites a).map .erase) {as bs : List α}
    (hext : ∀ a ∈ as, ∀ b, outline a = outline b → sites a = sites b → a = b)
    (ho : as.map outline = bs.map outline) (hs : as.flatMap sites = bs.flatMap sites) :
    as = bs := by
  induction as generalizing bs with
  | nil =>
    cases bs with
    | nil => rfl
    | cons b bs => simp at ho
  | cons a as ih =>
    cases bs with
    | nil => simp at ho
    | cons b bs =>
      simp only [List.map_cons, List.cons.injEq] at ho
      rw [List.flatMap_cons, List.flatMap_cons] at hs
      obtain ⟨ha, has⟩ := List.append_inj hs (length_sites_eq h ho.1)
      rw [hext a List.mem_cons_self b ho.1 ha,
        ih (fun a ha => hext a (List.mem_cons_of_mem _ ha)) ho.2 has]

lemma ElementLeaf.ext_outline {v w : ElementLeaf} (ho : v.outline = w.outline)
    (hs : v.sites = w.sites) : v = w := by
  cases v <;> cases w <;> simp_all [outline, sites]

lemma ElementValue.ext_outline {v w : ElementValue} (ho : v.outline = w.outline)
    (hs : v.sites = w.sites) : v = w := by
  induction v using ElementValue.induction generalizing w with
  | leaf value =>
    cases w with
    | leaf value' =>
      simp only [outline, leaf.injEq] at ho
      rw [ElementLeaf.ext_outline ho hs]
    | nested value' => simp [outline] at ho
    | array values' => simp [outline] at ho
  | nested type elements ih =>
    cases w with
    | leaf value' => simp [outline] at ho
    | nested value' =>
      obtain ⟨type', elements'⟩ := value'
      simp only [outline, AnnotationUse.outline, ElementPair.outlineList_eq, nested.injEq,
        AnnotationUse.mk.injEq, true_and] at ho
      simp only [sites, AnnotationUse.sites, ElementPair.sitesList_eq, List.cons.injEq,
        TextSite.mk.injEq, true_and] at hs
      rw [hs.1, eq_of_map_outline_of_flatMap_sites ElementPair.sites_outline ?_ ho hs.2]
      rintro ⟨name, value⟩ hp ⟨name', value'⟩ ho hs
      simp only [ElementPair.outline, ElementPair.mk.injEq] at ho
      obtain rfl : value = value' := ih _ hp ho.2 hs
      rw [ho.1]
    | array values' => simp [outline] at ho
  | array values ih =>
    cases w with
    | leaf value' => simp [outline] at ho
    | nested value' => simp [outline] at ho
    | array values' =>
      simp only [outline, ElementValue.outlineList_eq, array.injEq] at ho
      simp only [sites, ElementValue.sitesList_eq] at hs
      rw [eq_of_map_outline_of_flatMap_sites ElementValue.sites_outline
        (fun v hv w ho hs => ih v hv ho hs) ho hs]

lemma AnnotationUse.ext_outline {a b : AnnotationUse} (ho : a.outline = b.outline)
    (hs : a.sites = b.sites) : a = b :=
  ElementValue.nested.inj
    (ElementValue.ext_outline (congrArg ElementValue.nested ho) (v := .nested a) (w := .nested b) hs)

lemma TypeAnnotationUse.ext_outline {a b : TypeAnnotationUse} (ho : a.outline = b.outline)
    (hs : a.sites = b.sites) : a = b := by
  obtain ⟨targetType, target, use⟩ := a
  obtain ⟨targetType', target', use'⟩ := b
  simp only [outline, mk.injEq] at ho
  rw [ho.1, ho.2.1, AnnotationUse.ext_outline ho.2.2 hs]

lemma LocalVariable.sites_outline (isGeneric : Bool) (v : LocalVariable) :
    v.outline.sites isGeneric = (v.sites isGeneric).map .erase := rfl

lemma InnerClass.sites_outline (c : InnerClass) : c.outline.sites = c.sites.map .erase := rfl

lemma LocalVariable.ext_outline {isGeneric : Bool} {v w : LocalVariable} (ho : v.outline = w.outline)
    (hs : v.sites isGeneric = w.sites isGeneric) : v = w := by
  cases v
  cases w
  simp_all [outline, sites]

lemma InnerClass.ext_outline {c d : InnerClass} (ho : c.outline = d.outline)
    (hs : c.sites = d.sites) : c = d := by
  cases c
  cases d
  simp_all [outline, sites]

/-- Lists of annotations are determined by their outlines and sites. -/
lemma AnnotationUse.list_ext_outline {as bs : List AnnotationUse}
    (ho : as.map outline = bs.map outline) (hs : as.flatMap sites = bs.flatMap sites) : as = bs :=
  eq_of_map_outline_of_flatMap_sites sites_outline (fun _ _ _ => ext_outline) ho hs

lemma FlatBody.ext_outline {isGeneric : Bool} {body body' : FlatBody}
    (ho : body.outline = body'.outline) (hs : body.sites isGeneric = body'.sites isGeneric) :
    body = body' := by
  cases body <;> cases body' <;>
    simp only [outline, reduceCtorEq, annotations.injEq, parameterAnnotations.injEq,
      annotationDefault.injEq, localVariables.injEq, innerClasses.injEq, typeAnnotations.injEq] at ho
  case annotations.annotations => rw [AnnotationUse.list_ext_outline ho hs]
  case parameterAnnotations.parameterAnnotations =>
    rw [eq_of_map_outline_of_flatMap_sites
      (fun v => flatMap_sites_map_outline fun a _ => a.sites_outline)
      (fun _ _ _ => AnnotationUse.list_ext_outline) ho hs]
  case annotationDefault.annotationDefault => rw [ElementValue.ext_outline ho hs]
  case localVariables.localVariables =>
    rw [eq_of_map_outline_of_flatMap_sites (LocalVariable.sites_outline _)
      (fun _ _ _ => LocalVariable.ext_outline) ho hs]
  case innerClasses.innerClasses =>
    rw [eq_of_map_outline_of_flatMap_sites InnerClass.sites_outline
      (fun _ _ _ => InnerClass.ext_outline) ho hs]
  case typeAnnotations.typeAnnotations =>
    rw [eq_of_map_outline_of_flatMap_sites (fun a => a.use.sites_outline)
      (fun _ _ _ => TypeAnnotationUse.ext_outline) ho hs]
  case signature.signature => simp_all [sites]
  all_goals exact ho

/-- Bodies of the same shape, with parts that have the same outlines. -/
inductive AttributeBody.Alike : AttributeBody → AttributeBody → Prop
  | flat {body body' : FlatBody} (h : body.outline = body'.outline) : Alike (.flat body) (.flat body')
  | code {maxStack maxLocals : UInt16} {code : List UInt8} {handlers : List ExceptionHandler}
      {attributes attributes' : List Attribute}
      (h : attributes.map Attribute.outline = attributes'.map Attribute.outline) :
      Alike (.code ⟨maxStack, maxLocals, code, handlers, attributes⟩)
        (.code ⟨maxStack, maxLocals, code, handlers, attributes'⟩)
  | record {components components' : List RecordComponent}
      (h : components.map RecordComponent.outline = components'.map RecordComponent.outline) :
      Alike (.record components) (.record components')

/-- The outline fixes the shape of a body. -/
lemma AttributeBody.alike_of_outline {b b' : AttributeBody} (h : b.outline = b'.outline) :
    Alike b b' := by
  cases b with
  | flat body =>
    cases b' with
    | flat body' =>
      simp only [outline, flat.injEq] at h
      exact .flat h
    | _ => cases h
  | code body =>
    cases b' with
    | code body' =>
      obtain ⟨maxStack, maxLocals, code, handlers, attributes⟩ := body
      obtain ⟨maxStack', maxLocals', code', handlers', attributes'⟩ := body'
      simp only [outline, CodeBody.outline, Attribute.outlineList_eq,
        AttributeBody.code.injEq, CodeBody.mk.injEq] at h
      obtain ⟨rfl, rfl, rfl, rfl, h⟩ := h
      exact .code h
    | _ => cases h
  | record components =>
    cases b' with
    | record components' =>
      simp only [outline, RecordComponent.outlineList_eq, record.injEq] at h
      exact .record h
    | _ => cases h

lemma RecordComponent.outline_eq_iff {c c' : RecordComponent} :
    c.outline = c'.outline ↔ c.name = c'.name ∧
      c.attributes.map Attribute.outline = c'.attributes.map Attribute.outline := by
  obtain ⟨name, descriptor, attributes⟩ := c
  obtain ⟨name', descriptor', attributes'⟩ := c'
  simp only [outline, Attribute.outlineList_eq, mk.injEq, true_and]

lemma Attribute.outline_eq_iff {a b : Attribute} :
    a.outline = b.outline ↔ a.name = b.name ∧ a.body.outline = b.body.outline := by
  obtain ⟨name, body⟩ := a
  obtain ⟨name', body'⟩ := b
  simp only [outline, mk.injEq]

lemma Attribute.ext_outline {generic : UInt16 → Bool} {a b : Attribute}
    (ho : a.outline = b.outline) (hs : a.sites generic = b.sites generic) : a = b := by
  have hlist {as bs : List Attribute} (ih : ∀ a ∈ as, ∀ {b : Attribute}, a.outline = b.outline →
      a.sites generic = b.sites generic → a = b) (ho : as.map outline = bs.map outline)
      (hs : as.flatMap (sites generic) = bs.flatMap (sites generic)) : as = bs :=
    eq_of_map_outline_of_flatMap_sites (sites_outline generic) (fun a ha _ => ih a ha) ho hs
  induction a using Attribute.induction generalizing b with
  | flat name body =>
    obtain ⟨name', body'⟩ := b
    obtain ⟨rfl, ho⟩ := outline_eq_iff.mp ho
    cases AttributeBody.alike_of_outline ho with
    | flat h => rw [FlatBody.ext_outline h hs]
  | code name body ih =>
    obtain ⟨name', body'⟩ := b
    obtain ⟨rfl, ho⟩ := outline_eq_iff.mp ho
    cases AttributeBody.alike_of_outline ho with
    | @code _ _ _ _ attributes attributes' h =>
      simp only [sites, AttributeBody.sites, CodeBody.sites, Attribute.sitesList_eq] at hs
      obtain rfl : attributes = attributes' := hlist ih h hs
      rfl
  | record name components ih =>
    obtain ⟨name', body'⟩ := b
    obtain ⟨rfl, ho⟩ := outline_eq_iff.mp ho
    cases AttributeBody.alike_of_outline ho with
    | record h =>
      simp only [sites, AttributeBody.sites, RecordComponent.sitesList_eq] at hs
      rw [eq_of_map_outline_of_flatMap_sites (RecordComponent.sites_outline generic) ?_ h hs]
      rintro ⟨name, descriptor, attributes⟩ hc ⟨name', descriptor', attributes'⟩ ho hs
      obtain ⟨rfl, ho⟩ := RecordComponent.outline_eq_iff.mp ho
      simp only [RecordComponent.sites, Attribute.sitesList_eq, List.cons.injEq,
        TextSite.mk.injEq, true_and] at hs
      obtain rfl : attributes = attributes' := hlist (ih _ hc) ho hs.2
      rw [hs.1]

lemma AttributeBody.ext_outline {generic : UInt16 → Bool} {isGeneric : Bool} {b b' : AttributeBody}
    (ho : b.outline = b'.outline) (hs : b.sites generic isGeneric = b'.sites generic isGeneric) :
    b = b' := by
  -- but for flat bodies, the sites of an attribute are those of its body
  have hbody (hs : Attribute.sites generic ⟨0, b⟩ = Attribute.sites generic ⟨0, b'⟩) : b = b' := by
    have h : (⟨0, b⟩ : Attribute) = ⟨0, b'⟩ :=
      Attribute.ext_outline (Attribute.outline_eq_iff.mpr ⟨rfl, ho⟩) hs
    exact congrArg Attribute.body h
  cases alike_of_outline ho with
  | flat h => exact congrArg flat (FlatBody.ext_outline h hs)
  | code => exact hbody hs
  | record => exact hbody hs

lemma Member.ext_outline {generic : UInt16 → Bool} {m m' : Member} (ho : m.outline = m'.outline)
    (hs : m.sites generic = m'.sites generic) : m = m' := by
  obtain ⟨access, name, descriptor, attributes⟩ := m
  obtain ⟨access', name', descriptor', attributes'⟩ := m'
  simp only [outline, mk.injEq, true_and] at ho
  simp only [sites, List.cons.injEq, TextSite.mk.injEq, true_and] at hs
  rw [ho.1, ho.2.1, hs.1, eq_of_map_outline_of_flatMap_sites (Attribute.sites_outline generic)
    (fun _ _ _ => Attribute.ext_outline) ho.2.2 hs.2]

/-- **Outline, sites and pool determine a class file.** -/
theorem ClassFile.ext_outline {generic : UInt16 → Bool} {c d : ClassFile} (hp : c.pool = d.pool)
    (ho : c.outline = d.outline) (hs : c.sites generic = d.sites generic) : c = d := by
  obtain ⟨minor, major, pool, access, this, super, interfaces, fields, methods, attributes⟩ := c
  obtain ⟨minor', major', pool', access', this', super', interfaces', fields', methods',
    attributes'⟩ := d
  simp only [outline, mk.injEq, true_and] at ho
  obtain ⟨rfl, rfl, rfl, rfl, rfl, rfl, hf, hm, ha⟩ := ho
  have hlen {as bs : List Member} (ho : as.map Member.outline = bs.map Member.outline) :
      (as.flatMap (Member.sites generic)).length = (bs.flatMap (Member.sites generic)).length :=
    length_sites_eq (fun _ => flatMap_sites_map_outline fun m _ => m.sites_outline generic) ho
  obtain ⟨hfs, hs⟩ := List.append_inj hs (hlen hf)
  obtain ⟨hms, has⟩ := List.append_inj hs (hlen hm)
  rw [eq_of_map_outline_of_flatMap_sites (Member.sites_outline generic)
      (fun _ _ _ => Member.ext_outline) hf hfs,
    eq_of_map_outline_of_flatMap_sites (Member.sites_outline generic)
      (fun _ _ _ => Member.ext_outline) hm hms,
    eq_of_map_outline_of_flatMap_sites (Attribute.sites_outline generic)
      (fun _ _ _ => Attribute.ext_outline) ha has, show pool = pool' from hp]

/-! ### Sites are in use -/

/-- The indices at a site: that of the text, and those that its role speaks of. -/
def TextSite.indices (x : TextSite) : List UInt16 :=
  x.index ::
    match x.role with
    | .simpleName inner outer => [inner, outer]
    | .descriptor | .signature => []

section Uses

variable {x : TextSite} {i : UInt16}

lemma TextSite.index_mem_indices (x : TextSite) : x.index ∈ x.indices := List.mem_cons_self

/-- The indices at the sites of a list are in use if those of its members are. -/
lemma mem_flatMap_uses {α β : Type} (index : UInt16 → β) {sites : α → List TextSite}
    {uses : α → List β} {as : List α}
    (h : ∀ a ∈ as, ∀ {x : TextSite}, x ∈ sites a → i ∈ x.indices → index i ∈ uses a)
    (hx : x ∈ as.flatMap sites) (hi : i ∈ x.indices) : index i ∈ as.flatMap uses := by
  obtain ⟨a, ha, hx⟩ := List.mem_flatMap.mp hx
  exact List.mem_flatMap.mpr ⟨a, ha, h a ha hx hi⟩

lemma ElementLeaf.mem_uses {v : ElementLeaf} (hx : x ∈ v.sites) (hi : i ∈ x.indices) :
    i ∈ v.uses := by
  cases v <;> simp_all [sites, uses, TextSite.indices]

lemma ElementValue.mem_uses {v : ElementValue} (hx : x ∈ v.sites) (hi : i ∈ x.indices) :
    i ∈ v.uses := by
  induction v using ElementValue.induction generalizing x with
  | leaf value => exact ElementLeaf.mem_uses hx hi
  | nested type elements ih =>
    simp only [sites, AnnotationUse.sites, ElementPair.sitesList_eq, List.mem_cons] at hx
    rw [uses, AnnotationUse.uses_mk, List.mem_cons]
    rcases hx with rfl | hx
    · exact .inl (by simpa [TextSite.indices] using hi)
    · refine .inr (mem_flatMap_uses id (fun pair hp x hx hi => ?_) hx hi)
      rw [ElementPair.sites_eq] at hx
      obtain ⟨name, value⟩ := pair
      exact List.mem_cons_of_mem _ (ih _ hp hx hi)
  | array values ih =>
    rw [sites, ElementValue.sitesList_eq] at hx
    rw [uses_array]
    exact mem_flatMap_uses id (fun v hv _ hx hi => ih v hv hx hi) hx hi

lemma AnnotationUse.mem_uses {a : AnnotationUse} (hx : x ∈ a.sites) (hi : i ∈ x.indices) :
    i ∈ a.uses :=
  @ElementValue.mem_uses x i (.nested a) hx hi

lemma FlatBody.mem_uses {pool : Pool} {name : UInt16} {isGeneric : Bool} {body : FlatBody}
    (hx : x ∈ body.sites isGeneric) (hi : i ∈ x.indices) : .index i ∈ body.uses pool name := by
  cases body with
  | signature index => simp_all [sites, uses, TextSite.indices]
  | annotations values =>
    exact List.mem_map_of_mem
      (mem_flatMap_uses id (fun _ _ _ hx hi => AnnotationUse.mem_uses hx hi) hx hi)
  | parameterAnnotations values =>
    simp only [sites, List.mem_flatMap] at hx
    obtain ⟨v, hv, a, ha, hx⟩ := hx
    exact List.mem_map_of_mem (List.mem_flatMap.mpr
      ⟨a, List.mem_flatten.mpr ⟨v, hv, ha⟩, AnnotationUse.mem_uses hx hi⟩)
  | annotationDefault value => exact List.mem_map_of_mem (ElementValue.mem_uses hx hi)
  | localVariables entries =>
    refine List.mem_map_of_mem (mem_flatMap_uses id (fun v _ x hx hi => ?_) hx hi)
    obtain rfl : x = _ := List.mem_singleton.mp hx
    cases isGeneric <;> simp_all [TextSite.indices]
  | innerClasses entries =>
    refine List.mem_map_of_mem (mem_flatMap_uses id (fun c _ x hx hi => ?_) hx hi)
    obtain rfl : x = _ := List.mem_singleton.mp hx
    simp only [TextSite.indices, List.mem_cons, List.not_mem_nil, or_false] at hi
    rcases hi with rfl | rfl | rfl <;> simp
  | typeAnnotations values =>
    exact List.mem_map_of_mem
      (mem_flatMap_uses id (fun _ _ _ hx hi => AnnotationUse.mem_uses hx hi) hx hi)
  | _ => simp [sites] at hx

lemma Attribute.mem_uses {pool : Pool} {generic : UInt16 → Bool} {a : Attribute}
    (hx : x ∈ a.sites generic) (hi : i ∈ x.indices) : .index i ∈ a.uses pool := by
  induction a using Attribute.induction generalizing x with
  | flat name body => exact List.mem_cons_of_mem _ (FlatBody.mem_uses hx hi)
  | code name body ih =>
    obtain ⟨maxStack, maxLocals, code, handlers, attributes⟩ := body
    simp only [sites, AttributeBody.sites, CodeBody.sites, Attribute.sitesList_eq] at hx
    simp only [uses, AttributeBody.uses, CodeBody.uses_eq, List.mem_cons, List.mem_append]
    exact .inr (.inr (mem_flatMap_uses Finding.index (fun a ha _ hx hi => ih a ha hx hi) hx hi))
  | record name components ih =>
    simp only [sites, AttributeBody.sites, RecordComponent.sitesList_eq] at hx
    rw [uses_record, List.mem_cons]
    refine .inr (mem_flatMap_uses Finding.index (fun c hc x hx hi => ?_) hx hi)
    obtain ⟨name, descriptor, attributes⟩ := c
    simp only [RecordComponent.sites, Attribute.sitesList_eq, List.mem_cons] at hx
    rw [RecordComponent.uses_eq, List.mem_cons, List.mem_cons]
    rcases hx with rfl | hx
    · exact .inr (.inl (by simpa [TextSite.indices] using hi))
    · exact .inr (.inr
        (mem_flatMap_uses Finding.index (fun a ha _ hx hi => ih _ hc a ha hx hi) hx hi))

lemma Member.mem_uses {pool : Pool} {generic : UInt16 → Bool} {m : Member}
    (hx : x ∈ m.sites generic) (hi : i ∈ x.indices) : .index i ∈ m.uses pool := by
  rw [sites, List.mem_cons] at hx
  rw [uses, List.mem_cons, List.mem_cons]
  rcases hx with rfl | hx
  · exact .inr (.inl (by simpa [TextSite.indices] using hi))
  · exact .inr (.inr
      (mem_flatMap_uses Finding.index (fun _ _ _ hx hi => Attribute.mem_uses hx hi) hx hi))

namespace ClassFile

variable {c : ClassFile} {f : Finding}

/-- A finding in a member is one in its class file. -/
lemma mem_uses_of_member {m : Member} (hm : m ∈ c.fields ∨ m ∈ c.methods) (hf : f ∈ m.uses c.pool) :
    f ∈ c.uses := by
  simp only [uses, List.mem_append, List.mem_flatMap]
  rcases hm with hm | hm
  · exact .inl (.inl (.inr ⟨m, hm, hf⟩))
  · exact .inl (.inr ⟨m, hm, hf⟩)

/-- A finding in an attribute of a class file is one in the class file. -/
lemma mem_uses_of_attribute {a : Attribute} (ha : a ∈ c.attributes) (hf : f ∈ a.uses c.pool) :
    f ∈ c.uses :=
  List.mem_append_right _ (List.mem_flatMap.mpr ⟨a, ha, hf⟩)

/-- The name of a member is in use. -/
lemma name_mem_uses {m : Member} (hm : m ∈ c.fields ∨ m ∈ c.methods) : .index m.name ∈ c.uses :=
  mem_uses_of_member hm (by simp [Member.uses])

/-- Owner and signature of an enclosing method are in use. -/
lemma mem_uses_of_enclosingMethod {a : Attribute} {owner method : UInt16} (ha : a ∈ c.attributes)
    (hb : a.body = .flat (.enclosingMethod owner method)) :
    .index owner ∈ c.uses ∧ .index method ∈ c.uses := by
  obtain ⟨name, body⟩ := a
  obtain rfl : body = _ := hb
  exact ⟨mem_uses_of_attribute ha (by simp [Attribute.uses, AttributeBody.uses, FlatBody.uses]),
    mem_uses_of_attribute ha (by simp [Attribute.uses, AttributeBody.uses, FlatBody.uses])⟩

end ClassFile

/-- **The indices at a site of a class file are in use.** -/
theorem ClassFile.mem_uses {generic : UInt16 → Bool} {c : ClassFile}
    (hx : x ∈ c.sites generic) (hi : i ∈ x.indices) : .index i ∈ c.uses := by
  simp only [sites, List.mem_append] at hx
  simp only [uses, List.mem_cons, List.mem_append, or_assoc]
  rcases hx with hx | hx | hx
  · exact .inr (.inr (.inr (.inl
      (mem_flatMap_uses Finding.index (fun _ _ _ hx hi => Member.mem_uses hx hi) hx hi))))
  · exact .inr (.inr (.inr (.inr (.inl
      (mem_flatMap_uses Finding.index (fun _ _ _ hx hi => Member.mem_uses hx hi) hx hi)))))
  · exact .inr (.inr (.inr (.inr (.inr
      (mem_flatMap_uses Finding.index (fun _ _ _ hx hi => Attribute.mem_uses hx hi) hx hi)))))

end Uses

end ClassAtlas
