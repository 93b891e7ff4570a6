import Mathlib
import ClassAtlas.Proofs.ClassFile.Codec
import ClassAtlas.Proofs.ClassFile.Sites
import ClassAtlas.Proofs.Pool.Editing

/-!
# What the outline decides

Whether a part of a class file can be written, and in how many bytes, depends on its outline; the
indices at its sites matter only in so far as the descriptors of record components have to resolve.

## Main results

* `ClassAtlas.Attribute.length_encode_outline` — the number of bytes of an attribute.
* `ClassAtlas.Attribute.Fits.of_outline`, `ClassAtlas.Member.Fits.of_outline` — parts with the same
  outline fit alike.
* `ClassAtlas.ClassFile.WellFormed.of_outline` — so do class files.
-/

set_option autoImplicit false

namespace ClassAtlas

open Bytes

/-! ### The number of bytes -/

/-- Lists are written in as many bytes as their outlines if their members are. -/
lemma length_flatMap_map_outline {α : Type} {outline : α → α} {encode : α → List UInt8}
    {as : List α} (h : ∀ a ∈ as, (encode (outline a)).length = (encode a).length) :
    ((as.map outline).flatMap encode).length = (as.flatMap encode).length := by
  rw [List.flatMap_map, List.length_flatMap, List.length_flatMap]
  exact congrArg List.sum (List.map_congr_left h)

lemma length_table_map_outline {α : Type} {outline : α → α} {encode : α → List UInt8}
    {as : List α} (h : ∀ a ∈ as, (encode (outline a)).length = (encode a).length) :
    (table encode (as.map outline)).length = (table encode as).length := by
  simp only [table, List.length_append, length_u2, length_flatMap_map_outline h]

lemma ElementValue.length_encode_outline (v : ElementValue) :
    v.outline.encode.length = v.encode.length := by
  induction v using ElementValue.induction with
  | leaf value => cases value <;> simp [outline, ElementLeaf.outline, encode, ElementLeaf.encode]
  | nested type elements ih =>
    simp only [outline, AnnotationUse.outline, encode, AnnotationUse.encode_mk,
      ElementPair.outlineList_eq, List.length_cons, List.length_append, length_u2]
    rw [length_table_map_outline fun pair hp => ?_]
    have hv := ih pair hp
    obtain ⟨name, value⟩ := pair
    simp only [ElementPair.outline, ElementPair.encode, List.length_append, length_u2] at hv ⊢
    omega
  | array values ih =>
    simp only [outline, encode_array, ElementValue.outlineList_eq, List.length_cons]
    rw [length_table_map_outline ih]

lemma AnnotationUse.length_encode_outline (a : AnnotationUse) :
    a.outline.encode.length = a.encode.length := by
  have h := ElementValue.length_encode_outline (.nested a)
  simpa [ElementValue.outline, ElementValue.encode] using h

lemma FlatBody.length_encode_outline (body : FlatBody) :
    body.outline.encode.length = body.encode.length := by
  cases body with
  | annotations values => exact length_table_map_outline fun a _ => a.length_encode_outline
  | parameterAnnotations values =>
    simp only [outline, encode, List.length_cons]
    rw [length_flatMap_map_outline fun v _ =>
      length_table_map_outline fun a _ => a.length_encode_outline]
  | annotationDefault value => exact value.length_encode_outline
  | localVariables entries =>
    exact length_table_map_outline fun _ _ => by simp [LocalVariable.outline, LocalVariable.encode]
  | innerClasses entries =>
    exact length_table_map_outline fun _ _ => by simp [InnerClass.outline, InnerClass.encode]
  | typeAnnotations values =>
    refine length_table_map_outline fun a _ => ?_
    have h := a.use.length_encode_outline
    simp [TypeAnnotationUse.outline, TypeAnnotationUse.encode, h]
  | signature index => simp [outline, encode]
  | _ => rfl

/-- **An attribute is written in as many bytes as its outline.** -/
theorem Attribute.length_encode_outline (a : Attribute) :
    a.outline.encode.length = a.encode.length := by
  induction a using Attribute.induction with
  | flat name body =>
    simp [outline, AttributeBody.outline, AttributeBody.encode, body.length_encode_outline]
  | code name body ih =>
    obtain ⟨maxStack, maxLocals, code, handlers, attributes⟩ := body
    simp only [outline, AttributeBody.outline, CodeBody.outline, length_encode,
      AttributeBody.encode, CodeBody.encode_eq, Attribute.outlineList_eq, List.length_append]
    rw [length_table_map_outline ih]
  | record name components ih =>
    simp only [outline, AttributeBody.outline, length_encode, AttributeBody.encode_record,
      RecordComponent.outlineList_eq]
    rw [length_table_map_outline fun c hc => ?_]
    obtain ⟨name, descriptor, attributes⟩ := c
    simp only [RecordComponent.outline, RecordComponent.encode_eq, Attribute.outlineList_eq,
      List.length_append, length_u2]
    rw [length_table_map_outline (ih _ hc)]

/-- Attributes with the same outline are written in equally many bytes. -/
lemma AttributeBody.length_encode_eq {b b' : AttributeBody} (h : b.outline = b'.outline) :
    b.encode.length = b'.encode.length := by
  have ho := Attribute.length_encode_outline ⟨0, b⟩
  have ho' := Attribute.length_encode_outline ⟨0, b'⟩
  simp only [Attribute.outline, Attribute.length_encode] at ho ho'
  rw [h] at ho
  omega

/-! ### What can be written -/

lemma ElementValue.fits_outline_iff {d : Nat} {v : ElementValue} : v.outline.Fits d ↔ v.Fits d := by
  induction d generalizing v with
  | zero => rfl
  | succ d ih =>
    cases v with
    | leaf value => cases value <;> rfl
    | nested value =>
      obtain ⟨type, elements⟩ := value
      simp only [outline, AnnotationUse.outline, ElementPair.outlineList_eq, Fits, FitsOver,
        List.length_map, List.forall_mem_map, ElementPair.outline_eq, ih]
    | array values =>
      simp only [outline, ElementValue.outlineList_eq, Fits, FitsOver, List.length_map,
        List.forall_mem_map, ih]

lemma AnnotationUse.fits_outline_iff {d : Nat} {a : AnnotationUse} :
    a.outline.Fits d ↔ a.Fits d := by
  obtain ⟨type, elements⟩ := a
  simp only [outline, Fits, ElementPair.outlineList_eq, List.length_map, List.forall_mem_map,
    ElementPair.outline_eq, ElementValue.fits_outline_iff]

lemma FlatBody.fits_outline_iff {d : Nat} {body : FlatBody} :
    body.outline.Fits d ↔ body.Fits d := by
  cases body <;>
    simp only [outline, Fits, List.length_map, List.forall_mem_map, TypeAnnotationUse.Fits,
      TypeAnnotationUse.outline, AnnotationUse.fits_outline_iff, ElementValue.fits_outline_iff]

lemma FlatBody.namedBy_outline_iff {name : String} {body : FlatBody} :
    body.outline.NamedBy name ↔ body.NamedBy name := by
  cases body <;> rfl

section Transfer

variable {pool pool' : Pool} {generic : UInt16 → Bool}

/-- If the text at a site resolved, the text at another site resolves in another pool. -/
def TextSite.StillResolves (pool pool' : Pool) (x y : TextSite) : Prop :=
  (∃ value, pool.text x.index = .ok value) → ∃ value, pool'.text y.index = .ok value

/-- Related lists that start with equally many members are related in both parts. -/
lemma forall₂_append_iff {α β : Type} {related : α → β → Prop} {as as' : List α} {bs bs' : List β}
    (h : as.length = bs.length) :
    List.Forall₂ related (as ++ as') (bs ++ bs') ↔
      List.Forall₂ related as bs ∧ List.Forall₂ related as' bs' := by
  constructor
  · intro hr
    have hhead := List.forall₂_take as.length hr
    have htail := List.forall₂_drop as.length hr
    rw [List.take_left' rfl, List.take_left' h.symm] at hhead
    rw [List.drop_left' rfl, List.drop_left' h.symm] at htail
    exact ⟨hhead, htail⟩
  · rintro ⟨hhead, htail⟩
    exact List.rel_append hhead htail

/-- If lists have the same outlines and related sites, so have their members. -/
lemma forall₂_outline_sites {α : Type} {outline : α → α} {sites : α → List TextSite}
    {related : TextSite → TextSite → Prop} {as bs : List α}
    (h : ∀ a, sites (outline a) = (sites a).map .erase) (ho : bs.map outline = as.map outline)
    (hs : List.Forall₂ related (as.flatMap sites) (bs.flatMap sites)) :
    List.Forall₂ (fun a b => outline b = outline a ∧ List.Forall₂ related (sites a) (sites b))
      as bs := by
  induction bs generalizing as with
  | nil =>
    obtain rfl : as = [] := by simpa using ho.symm
    exact .nil
  | cons b bs ih =>
    cases as with
    | nil => simp at ho
    | cons a as =>
      simp only [List.map_cons, List.cons.injEq] at ho
      rw [List.flatMap_cons, List.flatMap_cons] at hs
      have hlen : (sites a).length = (sites b).length := (length_sites_eq h ho.1).symm
      obtain ⟨hhead, htail⟩ := (forall₂_append_iff hlen).mp hs
      exact .cons ⟨ho.1, hhead⟩ (ih ho.2 htail)

/-- If lists have the same outlines and related sites, so does every member of the one with a member
of the other. -/
lemma exists_mem_outline_sites {α : Type} {outline : α → α} {sites : α → List TextSite}
    {related : TextSite → TextSite → Prop} {as bs : List α}
    (h : ∀ a, sites (outline a) = (sites a).map .erase) (ho : bs.map outline = as.map outline)
    (hs : List.Forall₂ related (as.flatMap sites) (bs.flatMap sites)) {b : α} (hb : b ∈ bs) :
    ∃ a ∈ as, outline b = outline a ∧ List.Forall₂ related (sites a) (sites b) :=
  Except.exists_of_forall₂ (forall₂_outline_sites h ho hs).flip hb

lemma length_eq_of_map_outline {α : Type} {outline : α → α} {as bs : List α}
    (ho : bs.map outline = as.map outline) : bs.length = as.length := by
  simpa using congrArg List.length ho

/-- A finding in an attribute of a method body is one in the attribute that holds the body. -/
lemma Attribute.mem_uses_code {name : UInt16} {body : CodeBody} {b : Attribute} {x : Finding}
    (hb : b ∈ body.attributes) (hx : x ∈ b.uses pool) : x ∈ uses pool ⟨name, .code body⟩ := by
  simp only [uses, AttributeBody.uses, CodeBody.uses_eq, List.mem_cons, List.mem_append]
  exact .inr (.inr (List.mem_flatMap.mpr ⟨b, hb, hx⟩))

/-- A finding in an attribute of a record component is one in the attribute that holds the
component. -/
lemma Attribute.mem_uses_record {name : UInt16} {components : List RecordComponent}
    {c : RecordComponent} {b : Attribute} {x : Finding} (hc : c ∈ components)
    (hb : b ∈ c.attributes) (hx : x ∈ b.uses pool) : x ∈ uses pool ⟨name, .record components⟩ := by
  rw [uses_record, List.mem_cons]
  refine .inr (List.mem_flatMap.mpr ⟨c, hc, ?_⟩)
  rw [RecordComponent.uses_eq, List.mem_cons, List.mem_cons]
  exact .inr (.inr (List.mem_flatMap.mpr ⟨b, hb, hx⟩))

/-- **An attribute with the same outline fits as well**, in a pool in which the texts that it uses
and that resolved still resolve, at its sites and elsewhere.

**Proof sketch.** Induction on the depth. The outline fixes the names of attributes, the shapes of
bodies and the lengths of tables, and the number of bytes with them. Only the texts of names and the
descriptors of record components depend on the pool. -/
theorem Attribute.Fits.of_outline {d : Nat} {a b : Attribute} (h : a.Fits pool d)
    (ho : b.outline = a.outline)
    (hp : ∀ i, .index i ∈ b.uses pool' → ∀ value, pool.text i = .ok value →
      pool'.text i = .ok value)
    (hs : List.Forall₂ (TextSite.StillResolves pool pool') (a.sites generic) (b.sites generic)) :
    b.Fits pool' d := by
  induction d generalizing a b with
  | zero => exact h.elim
  | succ d ih =>
    obtain ⟨name, body⟩ := a
    obtain ⟨name', body'⟩ := b
    obtain ⟨hl, text, ht, hb⟩ := h
    obtain ⟨rfl, ho⟩ := outline_eq_iff.mp ho
    have hlen := AttributeBody.length_encode_eq ho
    refine ⟨hlen.trans_lt hl, text, hp _ (by simp [uses]) _ ht, ?_⟩
    have hlist {as bs : List Attribute} (hf : ∀ a ∈ as, a.Fits pool d)
        (ho : bs.map Attribute.outline = as.map Attribute.outline)
        (hp : ∀ b ∈ bs, ∀ i, .index i ∈ b.uses pool' → ∀ value, pool.text i = .ok value →
          pool'.text i = .ok value)
        (hs : List.Forall₂ (TextSite.StillResolves pool pool')
          (as.flatMap (Attribute.sites generic)) (bs.flatMap (Attribute.sites generic))) :
        ∀ b ∈ bs, b.Fits pool' d := by
      intro b hb
      obtain ⟨a, ha, he, hr⟩ := exists_mem_outline_sites (Attribute.sites_outline generic) ho hs hb
      exact ih (hf a ha) he (hp b hb) hr
    cases AttributeBody.alike_of_outline ho with
    | @flat body' body h =>
      refine ⟨?_, ?_⟩
      · rw [← FlatBody.namedBy_outline_iff, h, FlatBody.namedBy_outline_iff]
        exact hb.1
      · rw [← FlatBody.fits_outline_iff, h, FlatBody.fits_outline_iff,
          show body'.encode.length = body.encode.length from hlen]
        exact hb.2
    | code h =>
      obtain ⟨hn, hc, hh, hal, ha⟩ := hb
      simp only [sites, AttributeBody.sites, CodeBody.sites, Attribute.sitesList_eq] at hs
      refine ⟨hn, hc, hh, (length_eq_of_map_outline h).trans_lt hal, hlist ha h ?_ hs⟩
      exact fun b hb i hi => hp i (mem_uses_code hb hi)
    | record h =>
      simp only [sites, AttributeBody.sites, RecordComponent.sitesList_eq] at hs
      obtain ⟨hn, hcl, hc⟩ := hb
      refine ⟨hn, (length_eq_of_map_outline h).trans_lt hcl, fun c' hc' => ?_⟩
      obtain ⟨c, hm, he, hr⟩ :=
        exists_mem_outline_sites (RecordComponent.sites_outline generic) h hs hc'
      have hfc := hc c hm
      obtain ⟨cname, cdescriptor, cattributes⟩ := c
      obtain ⟨cname', cdescriptor', cattributes'⟩ := c'
      obtain ⟨-, he⟩ := RecordComponent.outline_eq_iff.mp he
      simp only [RecordComponent.sites, Attribute.sitesList_eq, List.forall₂_cons] at hr
      refine ⟨hr.1 hfc.descriptor, (length_eq_of_map_outline he).trans_lt hfc.attributes_lt,
        hlist hfc.attributes he ?_ hr.2⟩
      exact fun b hb i hi => hp i (mem_uses_record hc' hb hi)

/-- An attribute fits in a pool in which all texts still resolve. -/
lemma Attribute.Fits.of_text {d : Nat} {a : Attribute} (h : a.Fits pool d)
    (hp : ∀ i value, pool.text i = .ok value → pool'.text i = .ok value) : a.Fits pool' d :=
  @Attribute.Fits.of_outline pool pool' (fun _ => false) d a a h rfl (fun i _ => hp i)
    (List.forall₂_same.mpr fun x _ ⟨value, hv⟩ => ⟨value, hp x.index value hv⟩)

/-- A member with the same outline fits as well. -/
lemma Member.Fits.of_outline {d : Nat} {m m' : Member} (h : m.Fits pool d)
    (ho : m'.outline = m.outline)
    (hp : ∀ i, .index i ∈ m'.uses pool' → ∀ value, pool.text i = .ok value →
      pool'.text i = .ok value)
    (hs : List.Forall₂ (TextSite.StillResolves pool pool') (m.sites generic) (m'.sites generic)) :
    m'.Fits pool' d := by
  obtain ⟨access, name, descriptor, attributes⟩ := m
  obtain ⟨access', name', descriptor', attributes'⟩ := m'
  simp only [outline, mk.injEq, true_and] at ho
  simp only [sites, List.forall₂_cons] at hs
  obtain ⟨rfl, rfl, ho⟩ := ho
  obtain ⟨⟨text, ht⟩, hd, hl, ha⟩ := h
  refine ⟨⟨text, hp _ (by simp [uses]) _ ht⟩, hs.1 hd, (length_eq_of_map_outline ho).trans_lt hl,
    fun b hb => ?_⟩
  obtain ⟨a, hm, he, hr⟩ := exists_mem_outline_sites (Attribute.sites_outline generic) ho hs.2 hb
  refine (ha a hm).of_outline he (fun i hi => hp i ?_) hr
  exact List.mem_cons_of_mem _ (List.mem_cons_of_mem _ (List.mem_flatMap.mpr ⟨b, hb, hi⟩))

/-- If class files have the same outlines and related sites, so have their members and attributes.
-/
lemma ClassFile.forall₂_outline_sites {related : TextSite → TextSite → Prop} {c c' : ClassFile}
    (ho : c'.outline = c.outline) (hs : List.Forall₂ related (c.sites generic) (c'.sites generic)) :
    List.Forall₂ (fun m m' => m'.outline = m.outline ∧
        List.Forall₂ related (m.sites generic) (m'.sites generic)) c.fields c'.fields ∧
      List.Forall₂ (fun m m' => m'.outline = m.outline ∧
        List.Forall₂ related (m.sites generic) (m'.sites generic)) c.methods c'.methods ∧
      List.Forall₂ (fun a a' => a'.outline = a.outline ∧
        List.Forall₂ related (a.sites generic) (a'.sites generic)) c.attributes c'.attributes := by
  simp only [outline, mk.injEq, true_and] at ho
  obtain ⟨-, -, -, -, -, -, hf, hm, ha⟩ := ho
  have hlen {ms ms' : List Member} (ho : ms'.map Member.outline = ms.map Member.outline) :
      (ms.flatMap (Member.sites generic)).length = (ms'.flatMap (Member.sites generic)).length :=
    length_sites_eq (fun _ => flatMap_sites_map_outline fun m _ => m.sites_outline generic) ho.symm
  obtain ⟨hfs, hs⟩ := (forall₂_append_iff (hlen hf)).mp hs
  obtain ⟨hms, has⟩ := (forall₂_append_iff (hlen hm)).mp hs
  exact ⟨ClassAtlas.forall₂_outline_sites (Member.sites_outline generic) hf hfs,
    ClassAtlas.forall₂_outline_sites (Member.sites_outline generic) hm hms,
    ClassAtlas.forall₂_outline_sites (Attribute.sites_outline generic) ha has⟩

/-- **A class file with the same outline is well formed as well** if its pool is, its own name
resolves, and the texts that it uses and that resolved still resolve. -/
theorem ClassFile.WellFormed.of_outline {c c' : ClassFile} (h : c.WellFormed)
    (ho : c'.outline = c.outline) (hpool : c'.pool.WellFormed) (hname : ∃ name, c'.name = .ok name)
    (hp : ∀ i, .index i ∈ c'.uses → ∀ value, c.pool.text i = .ok value →
      c'.pool.text i = .ok value)
    (hs : List.Forall₂ (TextSite.StillResolves c.pool c'.pool) (c.sites generic)
      (c'.sites generic)) : c'.WellFormed := by
  obtain ⟨hfields, hmethods, hattributes⟩ := forall₂_outline_sites ho hs
  simp only [outline, mk.injEq, true_and] at ho
  obtain ⟨-, -, -, -, -, hi, -⟩ := ho
  simp only [uses, List.mem_cons, List.mem_append, or_assoc] at hp
  refine ⟨hpool, hname, hi ▸ h.interfaces_lt, hfields.length_eq ▸ h.fields_lt,
    hmethods.length_eq ▸ h.methods_lt, hattributes.length_eq ▸ h.attributes_lt,
    fun m' hm' => ?_, fun m' hm' => ?_, fun b hb => ?_⟩
  · obtain ⟨m, hmem, he, hr⟩ := Except.exists_of_forall₂ hfields.flip hm'
    obtain ⟨d, hd⟩ := h.fields m hmem
    refine ⟨d, hd.of_outline he (fun i hi => hp i ?_) hr⟩
    exact .inr (.inr (.inr (.inl (List.mem_flatMap.mpr ⟨m', hm', hi⟩))))
  · obtain ⟨m, hmem, he, hr⟩ := Except.exists_of_forall₂ hmethods.flip hm'
    obtain ⟨d, hd⟩ := h.methods m hmem
    refine ⟨d, hd.of_outline he (fun i hi => hp i ?_) hr⟩
    exact .inr (.inr (.inr (.inr (.inl (List.mem_flatMap.mpr ⟨m', hm', hi⟩)))))
  · obtain ⟨a, hmem, he, hr⟩ := Except.exists_of_forall₂ hattributes.flip hb
    obtain ⟨d, hd⟩ := h.attributes a hmem
    refine ⟨d, hd.of_outline he (fun i hi => hp i ?_) hr⟩
    exact .inr (.inr (.inr (.inr (.inr (List.mem_flatMap.mpr ⟨b, hb, hi⟩)))))

/-! ### Which tables are generic -/

/-- A member of a list has the outline of a member of another one with the same outlines. -/
lemma exists_mem_outline_eq {α : Type} {outline : α → α} {as bs : List α}
    (ho : bs.map outline = as.map outline) {b : α} (hb : b ∈ bs) :
    ∃ a ∈ as, outline b = outline a := by
  obtain ⟨a, ha, he⟩ := List.mem_map.mp (ho ▸ List.mem_map_of_mem hb)
  exact ⟨a, ha, he.symm⟩

/-- The sites of an attribute depend on which tables are generic only in so far as the names of the
tables resolve. -/
lemma Attribute.sites_congr {d : Nat} {generic generic' : UInt16 → Bool} {a b : Attribute}
    (h : a.Fits pool d) (ho : b.outline = a.outline)
    (hg : ∀ i text, pool.text i = .ok text → generic i = generic' i) :
    b.sites generic = b.sites generic' := by
  induction d generalizing a b with
  | zero => exact h.elim
  | succ d ih =>
    obtain ⟨name, body⟩ := a
    obtain ⟨name', body'⟩ := b
    obtain ⟨-, text, ht, hb⟩ := h
    obtain ⟨rfl, ho⟩ := outline_eq_iff.mp ho
    have hlist {as bs : List Attribute} (hf : ∀ a ∈ as, a.Fits pool d)
        (ho : bs.map Attribute.outline = as.map Attribute.outline) :
        bs.flatMap (sites generic) = bs.flatMap (sites generic') :=
      List.flatMap_congr fun b hb => by
        obtain ⟨a, ha, he⟩ := exists_mem_outline_eq ho hb
        exact ih (hf a ha) he
    simp only [sites, hg name' text ht]
    cases AttributeBody.alike_of_outline ho with
    | flat => rfl
    | code h =>
      simp only [AttributeBody.sites, CodeBody.sites, Attribute.sitesList_eq]
      exact hlist hb.2.attributes h
    | record h =>
      simp only [AttributeBody.sites, RecordComponent.sitesList_eq]
      refine List.flatMap_congr fun c' hc' => ?_
      obtain ⟨c, hc, he⟩ := exists_mem_outline_eq h hc'
      obtain ⟨-, he⟩ := RecordComponent.outline_eq_iff.mp he
      have hf := (hb.2.2 c hc).attributes
      obtain ⟨name', descriptor', attributes'⟩ := c'
      simp only [RecordComponent.sites, Attribute.sitesList_eq]
      rw [hlist hf he]

/-- **The sites of a class file** with the same outline as a well-formed one depend on which tables
are generic only in so far as the names of the tables resolve. -/
theorem ClassFile.sites_congr {generic generic' : UInt16 → Bool} {c c' : ClassFile}
    (h : c.WellFormed) (ho : c'.outline = c.outline)
    (hg : ∀ i text, c.pool.text i = .ok text → generic i = generic' i) :
    c'.sites generic = c'.sites generic' := by
  simp only [outline, mk.injEq, true_and] at ho
  obtain ⟨-, -, -, -, -, -, hf, hm, ha⟩ := ho
  have hattributes {as as' : List Attribute} (has : ∀ a ∈ as, ∃ d, a.Fits c.pool d)
      (ho : as'.map Attribute.outline = as.map Attribute.outline) :
      as'.flatMap (Attribute.sites generic) = as'.flatMap (Attribute.sites generic') :=
    List.flatMap_congr fun b hb => by
      obtain ⟨a, ha, he⟩ := exists_mem_outline_eq ho hb
      obtain ⟨d, hd⟩ := has a ha
      exact Attribute.sites_congr hd he hg
  have hmembers {ms ms' : List Member} (hms : ∀ m ∈ ms, ∃ d, m.Fits c.pool d)
      (ho : ms'.map Member.outline = ms.map Member.outline) :
      ms'.flatMap (Member.sites generic) = ms'.flatMap (Member.sites generic') :=
    List.flatMap_congr fun m' hm' => by
      obtain ⟨m, hm, he⟩ := exists_mem_outline_eq ho hm'
      obtain ⟨d, hd⟩ := hms m hm
      rw [Member.sites, Member.sites,
        hattributes (fun a ha => ⟨d, hd.attributes a ha⟩) (Member.mk.inj he).2.2.2]
  rw [sites, sites, hmembers h.fields hf, hmembers h.methods hm, hattributes h.attributes ha]

end Transfer

end ClassAtlas
