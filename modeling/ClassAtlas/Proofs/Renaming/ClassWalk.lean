import ClassAtlas.Proofs.ClassFile.Codec
import ClassAtlas.Proofs.ClassFile.Sites
import ClassAtlas.Proofs.Renaming.Revision
import ClassAtlas.Renaming.Classes

/-!
# The walk of a class renaming

The walk that renames a class inside a class file goes over trees. Its effect is that of a row of
steps, one for each site of the class file in order, and it leaves the outline alone.

## Main definitions

* `ClassAtlas.ClassRename.newSiteText` — the new text at a site.
* `ClassAtlas.ClassRename.reviseSites` — the steps at sites, one after the other.
* `ClassAtlas.ClassRename.Follows` — a walk does what the steps at its sites do.

## Main results

* `ClassAtlas.ClassRename.follows_reviseUse`, `follows_reviseFlat`, `follows_reviseAttribute`,
  `follows_reviseMember` — the walks over trees.
-/

set_option autoImplicit false

namespace ClassAtlas.ClassRename

variable {r : ClassRename} {base : Pool} {α β : Type}

/-! ### Steps at sites -/

/-- The new text at a site, if there is one. -/
def newSiteText (r : ClassRename) (x : TextSite) (pool : Pool) :
    Except FormatError (Option String) :=
  match x.role with
  | .descriptor => (pool.text x.index).map r.descriptor?
  | .signature => (pool.text x.index).map r.signature?
  | .simpleName inner outer => r.newInnerClass? ⟨inner, outer, x.index, 0⟩ pool

/-- The steps at sites, one after the other. -/
def reviseSites (r : ClassRename) : List TextSite → Revise (List TextSite) :=
  Revise.replaceTexts r.newSiteText fun x index => { x with index }

/-- A state in which, unless there is a fault, the texts of a pool still resolve. -/
def Resolves (base : Pool) (s : Revision) : Prop :=
  s.fault = none → s.pool.size ≤ Pool.maxSize ∧
    ∀ i value, base.text i = .ok value → s.pool.text i = .ok value

/-- Texts still resolve after steps at sites. -/
lemma Resolves.reviseSites {s : Revision} (hs : Resolves base s) (xs : List TextSite) :
    Resolves base (r.reviseSites xs s).2 := by
  induction xs generalizing s with
  | nil => exact hs
  | cons x xs ih =>
    rw [ClassRename.reviseSites, Revise.replaceTexts_cons]
    refine ih fun hf => ?_
    rcases hstep : Revise.replaceText x (r.newSiteText x) (fun index => { x with index }) s with
      ⟨y, m⟩
    rw [hstep] at hf
    obtain ⟨hfault, hspec⟩ := Revise.replaceText_spec hstep hf
    obtain ⟨hmax, htext⟩ := hs hfault
    rcases hspec with ⟨-, -, rfl⟩ | ⟨text, index, -, hi, -, -⟩
    · exact ⟨hmax, htext⟩
    · obtain ⟨-, hg⟩ := Pool.internText_spec hmax hi
      exact ⟨hg.size_le_max, fun i value hv => hg.text (fun _ => trivial) (htext i value hv)⟩

lemma reviseSites_append (xs ys : List TextSite) (s : Revision) :
    r.reviseSites (xs ++ ys) s =
      ((r.reviseSites xs s).1 ++ (r.reviseSites ys (r.reviseSites xs s).2).1,
        (r.reviseSites ys (r.reviseSites xs s).2).2) :=
  Revise.mapM_append_run _ xs ys s

/-! ### Walks that follow sites -/

/-- The walk does what the steps at the sites `todo` do, and yields a result that has, behind the
sites `done`, the sites that the steps yield. -/
def Follows (r : ClassRename) (base : Pool) (done : List TextSite) (walk : Revise α)
    (todo : List TextSite) (after : α → List TextSite) (keeps : α → Prop) : Prop :=
  ∀ s, Resolves base s → keeps (walk s).1 ∧
    ∃ found, r.reviseSites todo s = (found, (walk s).2) ∧ after (walk s).1 = done ++ found

section Rules

variable {done todo todo' : List TextSite} {walk : Revise α} {f : α → Revise β}
  {after : α → List TextSite} {after' : β → List TextSite} {keeps : α → Prop} {keeps' : β → Prop}

lemma Follows.pure {a : α} (ha : after a = done) (hk : keeps a) :
    Follows r base done (Pure.pure a) [] after keeps := fun s _ =>
  ⟨hk, [], rfl, by rw [List.append_nil]; exact ha⟩

/-- Walks in turn follow the sites in turn. -/
lemma Follows.bind (h : Follows r base [] walk todo after keeps)
    (hf : ∀ a, keeps a → Follows r base (done ++ after a) (f a) todo' after' keeps') :
    Follows r base done (walk >>= f) (todo ++ todo') after' keeps' := by
  intro s hs
  obtain ⟨hk, found, hr, ha⟩ := h s hs
  have hmid : Resolves base (walk s).2 := by
    have := hs.reviseSites (r := r) todo
    rwa [hr] at this
  obtain ⟨hk', found', hr', ha'⟩ := hf _ hk _ hmid
  refine ⟨hk', found ++ found', ?_, ?_⟩
  · rw [reviseSites_append, hr]
    show (found ++ (r.reviseSites todo' (walk s).2).1, (r.reviseSites todo' (walk s).2).2) = _
    rw [hr', Revise.bind_run]
  · rw [Revise.bind_run, ha', ha, List.nil_append, List.append_assoc]

/-- A walk without sites is the last step of a row. -/
lemma Follows.map {g : α → β} (h : Follows r base [] walk todo after keeps)
    (ha : ∀ a, keeps a → after' (g a) = done ++ after a) (hk : ∀ a, keeps a → keeps' (g a)) :
    Follows r base done (do return g (← walk)) todo after' keeps' := by
  have hbind : Follows r base done (walk >>= fun a => Pure.pure (g a)) (todo ++ []) after' keeps' :=
    h.bind fun a ka => .pure (ha a ka) (hk a ka)
  rwa [List.append_nil] at hbind

/-- A walk over a list follows the sites of its members. -/
lemma Follows.mapM {walk : α → Revise α} {sites : α → List TextSite} {outline : α → α}
    {as : List α}
    (h : ∀ a ∈ as, Follows r base [] (walk a) (sites a) sites fun b => outline b = outline a) :
    Follows r base [] (as.mapM walk) (as.flatMap sites) (List.flatMap sites) fun bs =>
      bs.map outline = as.map outline := by
  induction as with
  | nil =>
    rw [List.mapM_nil]
    exact .pure rfl rfl
  | cons a as ih =>
    rw [List.mapM_cons, List.flatMap_cons]
    refine (h a List.mem_cons_self).bind fun b hb => ?_
    refine (ih fun a ha => h a (List.mem_cons_of_mem _ ha)).map (fun bs _ => ?_) fun bs hbs => ?_
    · rw [List.flatMap_cons, List.nil_append]
    · rw [List.map_cons, List.map_cons, hb, hbs]

/-- A walk that is the step at a site. -/
lemma Follows.of_step {x : TextSite} {newText : Pool → Except FormatError (Option String)} {a : α}
    {build : UInt16 → α} {site : α → TextSite} (hx : site a = x)
    (hb : ∀ index, site (build index) = { x with index }) (ht : r.newSiteText x = newText)
    (hk : keeps a ∧ ∀ index, keeps (build index)) :
    Follows r base [] (Revise.replaceText a newText build) [x] (fun b => [site b]) keeps := by
  intro s _
  refine ⟨?_, [site (Revise.replaceText a newText build s).1], ?_, rfl⟩
  · rcases Revise.replaceText_fst a newText build s with h | ⟨index, h⟩
    · rw [h]
      exact hk.1
    · rw [h]
      exact hk.2 index
  · have hmap := Revise.replaceText_map site a newText build s
    simp only [hb, hx, ← ht] at hmap
    rw [reviseSites, Revise.replaceTexts_cons, hmap, Revise.replaceTexts_nil, ht]

/-- Repointing a descriptor is the step at its site. -/
lemma follows_repoint_descriptor (index : UInt16) :
    Follows r base [] (Revise.repoint r.descriptor? index) [⟨.descriptor, index⟩]
      (fun i => [⟨.descriptor, i⟩]) fun _ => True := by
  rw [Revise.repoint_eq]
  exact .of_step rfl (fun _ => rfl) rfl ⟨trivial, fun _ => trivial⟩

/-- Repointing a signature is the step at its site. -/
lemma follows_repoint_signature (index : UInt16) :
    Follows r base [] (Revise.repoint r.signature? index) [⟨.signature, index⟩]
      (fun i => [⟨.signature, i⟩]) fun _ => True := by
  rw [Revise.repoint_eq]
  exact .of_step rfl (fun _ => rfl) rfl ⟨trivial, fun _ => trivial⟩

/-- Keeping the simple name of a member class in step is the step at its site. -/
lemma follows_reviseInnerClass (entry : InnerClass) :
    Follows r base [] (r.reviseInnerClass entry) entry.sites InnerClass.sites fun e =>
      e.outline = entry.outline := by
  have hstep : r.reviseInnerClass entry =
      Revise.replaceText entry (r.newInnerClass? entry) fun name => { entry with name } := rfl
  rw [hstep]
  exact .of_step rfl (fun _ => rfl) rfl ⟨rfl, fun _ => rfl⟩

end Rules

/-! ### Annotations -/

lemma revisePairs_eq (pairs : List ElementPair) :
    r.revisePairs pairs = pairs.mapM r.revisePair := by
  induction pairs with
  | nil => rw [List.mapM_nil]; rfl
  | cons pair pairs ih => rw [List.mapM_cons, ← ih]; rfl

lemma reviseValues_eq (values : List ElementValue) :
    r.reviseValues values = values.mapM r.reviseValue := by
  induction values with
  | nil => rw [List.mapM_nil]; rfl
  | cons value values ih => rw [List.mapM_cons, ← ih]; rfl

lemma follows_reviseLeaf (value : ElementLeaf) :
    Follows r base [] (r.reviseLeaf value) value.sites ElementLeaf.sites fun v =>
      v.outline = value.outline := by
  cases value with
  | const tag index => exact .pure rfl rfl
  | enumConst type name =>
    exact (follows_repoint_descriptor type).map (fun _ _ => rfl) fun _ _ => rfl
  | classInfo descriptor =>
    exact (follows_repoint_descriptor descriptor).map (fun _ _ => rfl) fun _ _ => rfl

/-- Renaming in an annotation follows its sites if renaming in its values does. -/
lemma follows_reviseUse_of_values {type : UInt16} {elements : List ElementPair}
    (h : ∀ pair ∈ elements, Follows r base [] (r.reviseValue pair.value) pair.value.sites
      ElementValue.sites fun v => v.outline = pair.value.outline) :
    Follows r base [] (r.reviseUse ⟨type, elements⟩) (AnnotationUse.sites ⟨type, elements⟩)
      AnnotationUse.sites fun a => a.outline = AnnotationUse.outline ⟨type, elements⟩ := by
  have hpairs : Follows r base [] (r.revisePairs elements) (elements.flatMap ElementPair.sites)
      (List.flatMap ElementPair.sites) fun es =>
        es.map ElementPair.outline = elements.map ElementPair.outline := by
    rw [revisePairs_eq]
    refine .mapM fun pair hp => ?_
    obtain ⟨name, value⟩ := pair
    exact (h _ hp).map (fun _ _ => rfl) fun v hv => by simp only [ElementPair.outline, hv]
  rw [AnnotationUse.sites, ElementPair.sitesList_eq]
  refine (follows_repoint_descriptor type).bind fun i _ => hpairs.map (fun es _ => ?_) ?_
  · rw [AnnotationUse.sites, ElementPair.sitesList_eq]
    rfl
  · exact fun es hes => by simp only [AnnotationUse.outline, ElementPair.outlineList_eq, hes]

/-- **Renaming in an element value** follows its sites. -/
theorem follows_reviseValue (value : ElementValue) :
    Follows r base [] (r.reviseValue value) value.sites ElementValue.sites fun v =>
      v.outline = value.outline := by
  induction value using ElementValue.induction with
  | leaf value =>
    exact (follows_reviseLeaf value).map (fun _ _ => rfl) fun v hv => congrArg ElementValue.leaf hv
  | nested type elements ih =>
    exact (follows_reviseUse_of_values ih).map (fun _ _ => rfl) fun a ha =>
      congrArg ElementValue.nested ha
  | array values ih =>
    have hvalues := Follows.mapM ih
    rw [← reviseValues_eq] at hvalues
    rw [ElementValue.sites, ElementValue.sitesList_eq]
    refine hvalues.map (fun vs _ => ?_) fun vs hvs => ?_
    · rw [ElementValue.sites, ElementValue.sitesList_eq, List.nil_append]
    · simp only [ElementValue.outline, ElementValue.outlineList_eq, hvs]

/-- **Renaming in an annotation** follows its sites. -/
theorem follows_reviseUse (a : AnnotationUse) :
    Follows r base [] (r.reviseUse a) a.sites AnnotationUse.sites fun b => b.outline = a.outline := by
  obtain ⟨type, elements⟩ := a
  exact follows_reviseUse_of_values fun pair _ => follows_reviseValue pair.value

lemma follows_reviseTypeUse (a : TypeAnnotationUse) :
    Follows r base [] (r.reviseTypeUse a) a.sites TypeAnnotationUse.sites fun b =>
      b.outline = a.outline :=
  (follows_reviseUse a.use).map (fun _ _ => rfl) fun b hb => by
    simp only [TypeAnnotationUse.outline, hb]

/-! ### Attributes -/

lemma follows_reviseVariable (isGeneric : Bool) (v : LocalVariable) :
    Follows r base [] (r.reviseVariable isGeneric v) (v.sites isGeneric)
      (LocalVariable.sites isGeneric) fun w => w.outline = v.outline := by
  cases isGeneric with
  | true => exact (follows_repoint_signature v.descriptor).map (fun _ _ => rfl) fun _ _ => rfl
  | false => exact (follows_repoint_descriptor v.descriptor).map (fun _ _ => rfl) fun _ _ => rfl

/-- **Renaming in a body without further attributes** follows its sites. -/
theorem follows_reviseFlat (isGeneric : Bool) (body : FlatBody) :
    Follows r base [] (r.reviseFlat isGeneric body) (body.sites isGeneric)
      (FlatBody.sites isGeneric) fun b => b.outline = body.outline := by
  cases body with
  | signature index =>
    exact (follows_repoint_signature index).map (fun _ _ => rfl) fun _ _ => rfl
  | annotations values =>
    exact (Follows.mapM fun a _ => follows_reviseUse a).map (fun _ _ => rfl) fun vs hvs =>
      congrArg FlatBody.annotations hvs
  | parameterAnnotations values =>
    refine (Follows.mapM fun v _ => .mapM fun a _ => follows_reviseUse a).map (fun _ _ => rfl) ?_
    exact fun vs hvs => congrArg FlatBody.parameterAnnotations hvs
  | annotationDefault value =>
    exact (follows_reviseValue value).map (fun _ _ => rfl) fun v hv =>
      congrArg FlatBody.annotationDefault hv
  | localVariables entries =>
    exact (Follows.mapM fun v _ => follows_reviseVariable isGeneric v).map (fun _ _ => rfl)
      fun vs hvs => congrArg FlatBody.localVariables hvs
  | innerClasses entries =>
    exact (Follows.mapM fun c _ => follows_reviseInnerClass c).map (fun _ _ => rfl) fun cs hcs =>
      congrArg FlatBody.innerClasses hcs
  | typeAnnotations values =>
    exact (Follows.mapM fun a _ => follows_reviseTypeUse a).map (fun _ _ => rfl) fun vs hvs =>
      congrArg FlatBody.typeAnnotations hvs
  | _ => exact .pure rfl rfl

/-- A walk that follows sites does nothing from the first fault on. -/
lemma Follows.run_of_fault {walk : Revise α} {a : α} {sites : α → List TextSite} {outline : α → α}
    (h : Follows r base [] walk (sites a) sites fun b => outline b = outline a)
    (hext : ∀ b, outline b = outline a → sites b = sites a → b = a) {s : Revision}
    (hs : s.fault ≠ none) : walk s = (a, s) := by
  obtain ⟨ho, found, hr, hf⟩ := h s fun h => absurd h hs
  rw [reviseSites, Revise.replaceTexts_of_fault _ hs] at hr
  obtain ⟨rfl, hm⟩ := Prod.mk.inj hr
  exact Prod.ext (hext _ ho hf) hm.symm

/-- The class renaming asks for the same table of generic types as the sites. -/
lemma beq_genericTable {name : UInt16} {text : String} (h : base.text name = .ok text) :
    (text == genericTable) = base.namesGenericTable name := by
  rw [Pool.text_eq_ok_iff] at h
  simp [Pool.namesGenericTable, genericTable, h]

/-- Renaming in an attribute follows its sites if renaming in its body does. -/
lemma follows_reviseAttribute_of_body {name : UInt16} {body : AttributeBody} {text : String}
    (hn : base.text name = .ok text)
    (h : ∀ isGeneric, Follows r base [] (r.reviseBody isGeneric body)
      (body.sites base.namesGenericTable isGeneric)
      (AttributeBody.sites base.namesGenericTable isGeneric) fun b => b.outline = body.outline) :
    Follows r base [] (r.reviseAttribute ⟨name, body⟩)
      (Attribute.sites base.namesGenericTable ⟨name, body⟩)
      (Attribute.sites base.namesGenericTable)
      fun a => a.outline = Attribute.outline ⟨name, body⟩ := by
  intro s hs
  by_cases hf : s.fault = none
  · have hrun : r.reviseAttribute ⟨name, body⟩ s =
        (⟨name, (r.reviseBody (base.namesGenericTable name) body s).1⟩,
          (r.reviseBody (base.namesGenericTable name) body s).2) := by
      have hask : Revise.ask "" (·.text name) s = (text, s) :=
        Revise.ask_of_ok hf ((hs hf).2 name text hn)
      rw [reviseAttribute, Revise.bind_run, hask, beq_genericTable hn]
      rfl
    obtain ⟨ho, found, hr, ha⟩ := h (base.namesGenericTable name) s hs
    rw [hrun]
    exact ⟨congrArg (Attribute.mk name) ho, found, hr, ha⟩
  · -- from the first fault on the name is not asked for, but nothing is replaced either
    have hrun : r.reviseAttribute ⟨name, body⟩ s = (⟨name, body⟩, s) := by
      have hbody := (h false).run_of_fault (fun _ => AttributeBody.ext_outline) hf
      rw [reviseAttribute, Revise.bind_run, Revise.ask_of_fault hf]
      show (Attribute.mk name (r.reviseBody false body s).1, (r.reviseBody false body s).2) = _
      rw [hbody]
    rw [hrun]
    exact ⟨rfl, _, Revise.replaceTexts_of_fault _ hf, rfl⟩

lemma reviseAttributes_eq (attributes : List Attribute) :
    r.reviseAttributes attributes = attributes.mapM r.reviseAttribute := by
  induction attributes with
  | nil => rw [List.mapM_nil]; rfl
  | cons a attributes ih => rw [List.mapM_cons, ← ih]; rfl

lemma reviseComponents_eq (components : List RecordComponent) :
    r.reviseComponents components = components.mapM r.reviseComponent := by
  induction components with
  | nil => rw [List.mapM_nil]; rfl
  | cons c components ih => rw [List.mapM_cons, ← ih]; rfl

/-- Renaming in attributes follows their sites if renaming in each of them does. -/
lemma follows_reviseAttributes_of_each {attributes : List Attribute}
    (h : ∀ a ∈ attributes, Follows r base [] (r.reviseAttribute a)
      (a.sites base.namesGenericTable) (Attribute.sites base.namesGenericTable)
      fun b => b.outline = a.outline) :
    Follows r base [] (r.reviseAttributes attributes)
      (Attribute.sitesList base.namesGenericTable attributes)
      (Attribute.sitesList base.namesGenericTable)
      fun bs => Attribute.outlineList bs = Attribute.outlineList attributes := by
  rw [reviseAttributes_eq, Attribute.sitesList_eq]
  simpa only [Attribute.outlineList_eq, funext (Attribute.sitesList_eq base.namesGenericTable)]
    using Follows.mapM h

/-- **Renaming in an attribute** follows its sites, provided that the names of the attributes in it
resolve. -/
theorem follows_reviseAttribute {depth : Nat} {a : Attribute} (ha : a.Fits base depth) :
    Follows r base [] (r.reviseAttribute a) (a.sites base.namesGenericTable)
      (Attribute.sites base.namesGenericTable) fun b => b.outline = a.outline := by
  induction a using Attribute.induction generalizing depth with
  | flat name body =>
    cases depth with
    | zero => exact ha.elim
    | succ depth =>
      obtain ⟨-, text, hn, -⟩ := ha
      refine follows_reviseAttribute_of_body hn fun isGeneric => ?_
      exact (follows_reviseFlat isGeneric body).map (fun _ _ => rfl) fun b hb =>
        congrArg AttributeBody.flat hb
  | code name body ih =>
    cases depth with
    | zero => exact ha.elim
    | succ depth =>
      obtain ⟨-, text, hn, -, hb⟩ := ha
      obtain ⟨maxStack, maxLocals, code, handlers, attributes⟩ := body
      have hattributes : Follows r base [] (r.reviseAttributes attributes) _ _ _ :=
        follows_reviseAttributes_of_each fun a ha => ih a ha (hb.attributes a ha)
      have hcode : Follows r base [] (r.reviseCode ⟨maxStack, maxLocals, code, handlers, attributes⟩)
          _ (CodeBody.sites base.namesGenericTable)
          fun b => b.outline = CodeBody.outline ⟨maxStack, maxLocals, code, handlers, attributes⟩ :=
        hattributes.map (fun _ _ => rfl) fun bs hbs => by simp only [CodeBody.outline, hbs]
      refine follows_reviseAttribute_of_body hn fun isGeneric => ?_
      exact hcode.map (fun _ _ => rfl) fun b hb => congrArg AttributeBody.code hb
  | record name components ih =>
    cases depth with
    | zero => exact ha.elim
    | succ depth =>
      obtain ⟨-, text, hn, -, -, hc⟩ := ha
      have hcomponents : Follows r base [] (r.reviseComponents components)
          (RecordComponent.sitesList base.namesGenericTable components)
          (RecordComponent.sitesList base.namesGenericTable)
          fun cs => RecordComponent.outlineList cs = RecordComponent.outlineList components := by
        rw [reviseComponents_eq, RecordComponent.sitesList_eq]
        simp only [RecordComponent.outlineList_eq,
          funext (RecordComponent.sitesList_eq base.namesGenericTable)]
        refine .mapM fun c hm => ?_
        have hattributes :=
          follows_reviseAttributes_of_each fun a ha => ih c hm a ha ((hc c hm).attributes a ha)
        obtain ⟨name, descriptor, attributes⟩ := c
        refine (follows_repoint_descriptor descriptor).bind fun i _ => ?_
        exact hattributes.map (fun _ _ => rfl) fun bs hbs => by
          simp only [RecordComponent.outline, hbs]
      refine follows_reviseAttribute_of_body hn fun isGeneric => ?_
      exact hcomponents.map (fun _ _ => rfl) fun cs hcs => by
        simp only [AttributeBody.outline, hcs]

/-- **Renaming in a member** follows its sites, provided that the names of its attributes resolve. -/
theorem follows_reviseMember {depth : Nat} {m : Member} (hm : m.Fits base depth) :
    Follows r base [] (r.reviseMember m) (m.sites base.namesGenericTable)
      (Member.sites base.namesGenericTable) fun m' => m'.outline = m.outline := by
  have hattributes := follows_reviseAttributes_of_each (r := r) fun a ha =>
    follows_reviseAttribute (hm.attributes a ha)
  rw [Member.sites, ← Attribute.sitesList_eq]
  refine (follows_repoint_descriptor m.descriptor).bind fun i _ => ?_
  refine hattributes.map (fun bs _ => ?_) fun bs hbs => ?_
  · rw [Member.sites, ← Attribute.sitesList_eq]
    rfl
  · simp only [Attribute.outlineList_eq] at hbs
    simp only [Member.outline, hbs]

end ClassAtlas.ClassRename
