import ClassAtlas.Proofs.Mapping.Places
import ClassAtlas.Proofs.Pool.Editing

/-!
# Where reported events come from

A walk over a class file makes nothing up. The target of every reported use is a class or a member that
the class file names at one of the places, also if a fault cuts the walk off. So what a walk reports and
what the places name is the same. The symbols that a walk declares are the class, its fields and its
methods; all others are only mentioned.

## Main definitions

* `ClassAtlas.ClassFile.NamesTarget` — a class file names the target of a use.
* `ClassAtlas.Walk.Origin` — where an event of a walk comes from.
* `ClassAtlas.Trace.Each` — all events that a trace comes across have a property.

## Main results

* `ClassAtlas.Walk.each_trace` — the walk over a class.
* `ClassAtlas.ClassFile.namesTarget_of_visit` — the uses that are reported of a class file.
* `ClassAtlas.ClassFile.exists_of_declared` — the methods that are declared in one.
-/

set_option autoImplicit false

namespace ClassAtlas

/-- A class file names the target of a use, as a class or as a member of the sort that the kind of the use
asks for. -/
inductive ClassFile.NamesTarget (c : ClassFile) (value : Reference) : Prop where
  /-- As a class. -/
  | ofClass {name : String} (hkind : value.kind.targetKind = .classSymbol)
    (htarget : value.target = .ofClass name) (h : c.NamesClass name)
  /-- As a member. -/
  | ofMember {sort : MemberSort} {owner name descriptor : String}
    (hkind : value.kind.targetKind.memberSort? = some sort)
    (htarget : value.target = MemberPath.identity ⟨.ofClass owner, name, descriptor⟩ sort)
    (h : c.NamesMember sort owner name descriptor)

/-- Where an event of a walk comes from. -/
inductive Walk.Origin (w : Walk) : Event → Prop where
  /-- The class itself is declared. -/
  | ofClass (signature : Option String) :
    Origin w (.symbol ⟨.classSymbol, w.this, w.name, some w.file, none, w.classFile.access, signature⟩)
  /-- A field of the class is declared. -/
  | ofField {m : Member} {name descriptor : String} (signature : Option String)
    (hm : m ∈ w.classFile.fields) (hdescriptor : w.pool.text m.descriptor = .ok descriptor) :
    Origin w (.symbol ⟨.fieldSymbol, .ofField w.this name descriptor, name, some w.file, some w.this,
      m.access, signature⟩)
  /-- A method of the class is declared. -/
  | ofMethod {m : Member} {name descriptor : String} (signature : Option String)
    (hm : m ∈ w.classFile.methods) (hdescriptor : w.pool.text m.descriptor = .ok descriptor) :
    Origin w (.symbol ⟨.methodSymbol, .ofMethod w.this name descriptor, name, some w.file, some w.this,
      m.access, signature⟩)
  /-- A symbol is mentioned. -/
  | mention {value : Symbol} (h : value.file = none) : Origin w (.symbol value)
  /-- A symbol is used that the class file names. -/
  | use {value : Reference} (h : w.classFile.NamesTarget value) : Origin w (.reference value)

/-! ### Events of traces -/

namespace Trace

variable {α : Type} {P : Event → Prop} {a b : Trace} {event : Event}

/-- All events that a trace comes across have a property. -/
def Each (P : Event → Prop) (trace : Trace) : Prop :=
  ∀ event, .ok event ∈ trace → P event

theorem each_nil : Each P [] := by
  simp [Each]

theorem each_emit (h : P event) : Each P (emit event) := by
  simpa [Each, emit] using h

theorem Each.append (ha : Each P a) (hb : Each P b) : Each P (a ++ b) := by
  intro event hmem
  rcases List.mem_append.mp hmem with hmem | hmem
  · exact ha event hmem
  · exact hb event hmem

theorem each_resolve {value : Except FormatError α} {rest : α → Trace}
    (h : ∀ a, value = .ok a → Each P (rest a)) : Each P (resolve value rest) := by
  cases value with
  | ok a => exact h a rfl
  | error cause => simp [Each, resolve]

theorem each_whenSome {value : Option α} {rest : α → Trace}
    (h : ∀ a, value = some a → Each P (rest a)) : Each P (whenSome value rest) := by
  cases value with
  | some a => exact h a rfl
  | none => exact each_nil

theorem each_flatMap {as : List α} {rest : α → Trace} (h : ∀ a ∈ as, Each P (rest a)) :
    Each P (as.flatMap rest) := by
  intro event hmem
  obtain ⟨a, ha, hmem⟩ := List.mem_flatMap.mp hmem
  exact h a ha event hmem

/-- The events of a walk are among what it came across. -/
theorem mem_of_mem_outcome {trace : Trace} {event : Event} (h : event ∈ (outcome trace).events) :
    .ok event ∈ trace := by
  induction trace with
  | nil => simp [outcome, outcomeOnto] at h
  | cons step trace ih =>
    cases step with
    | error cause => simp [outcome, outcomeOnto] at h
    | ok first =>
      rw [outcome_cons_ok] at h
      rcases List.mem_cons.mp h with rfl | h
      · exact List.mem_cons_self
      · exact List.mem_cons_of_mem _ (ih h)

end Trace

namespace Walk

open Trace

variable {w : Walk} {owner : Identity} {kind : ReferenceKind} {location : Option Nat} {index : UInt16}
  {name text : String} {attributes : List Attribute}

theorem mem_of_mem_foldl_distinct {names seen : List String}
    (h : name ∈ names.foldl (fun seen name => if seen.contains name then seen else name :: seen) seen) :
    name ∈ seen ∨ name ∈ names := by
  induction names generalizing seen with
  | nil => exact .inl h
  | cons first names ih =>
    rcases ih h with h | h
    · dsimp only at h
      split at h
      · exact .inl h
      · rcases List.mem_cons.mp h with rfl | h
        · exact .inr List.mem_cons_self
        · exact .inl h
    · exact .inr (List.mem_cons_of_mem _ h)

/-- No text is made up when repeated ones are dropped. -/
theorem mem_of_mem_distinct {names : List String} (h : name ∈ distinct names) : name ∈ names := by
  simpa using mem_of_mem_foldl_distinct (List.mem_reverse.mp h)

/-! ### Classes -/

section Classes

variable (hk : kind.targetKind = .classSymbol)
include hk

theorem each_classReference (h : w.classFile.NamesClass name) :
    Each w.Origin (w.classReference kind name owner location) :=
  (each_emit (.mention rfl)).append (each_emit (.use (.ofClass hk rfl h)))

theorem each_foreignReference (h : w.classFile.NamesClass name) :
    Each w.Origin (w.foreignReference kind name owner) := by
  rw [foreignReference]
  split
  · exact each_nil
  · exact each_classReference hk h

theorem each_className (hp : w.classFile.Place .className index) :
    Each w.Origin (resolve (w.pool.className index) fun name =>
      w.classReference kind name owner location) :=
  each_resolve fun name hname => each_classReference hk
    ⟨_, _, [name], hp, by rw [Pool.classesAt, ← Walk.pool, hname]; rfl, List.mem_singleton_self _⟩

theorem each_constantReference (hp : w.classFile.Place .constant index)
    (hname : w.pool.className index = .ok name) :
    Each w.Origin (w.constantReference kind name owner location) :=
  each_whenSome fun class' hclass => each_classReference hk
    ⟨_, _, _, hp, by rw [Pool.classesAt, ← Walk.pool, hname]; rfl, Option.mem_toList.mpr hclass⟩

theorem each_signatureReferences (hp : w.classFile.Place .signature index)
    (htext : w.pool.text index = .ok text) :
    Each w.Origin (w.signatureReferences kind text owner) := by
  refine each_whenSome fun names hnames => each_flatMap fun name hname =>
    each_foreignReference hk ⟨_, _, names, hp, ?_, mem_of_mem_distinct hname⟩
  rw [Pool.classesAt, ← Walk.pool, htext]
  exact congrArg (fun o => Except.ok (o.getD [])) hnames

omit hk in
/-- The class that a descriptor names is named at the place of the descriptor. -/
theorem namesClass_of_descriptor (hp : w.classFile.Place .descriptor index)
    (htext : w.pool.text index = .ok text) (hname : Descriptor.fieldClass? text = some name) :
    w.classFile.NamesClass name :=
  ⟨_, _, _, hp, by rw [Pool.classesAt, ← Walk.pool, htext]; rfl, Option.mem_toList.mpr hname⟩

theorem each_textReference (hp : w.classFile.Place .descriptor index) :
    Each w.Origin (w.textReference kind index owner) :=
  each_resolve fun _ htext => each_whenSome fun _ hname =>
    each_classReference hk (namesClass_of_descriptor hp htext hname)

end Classes

/-! ### Annotations -/

theorem each_valueTrace {value : ElementValue}
    (hp : ∀ x ∈ value.sites, w.classFile.Place .descriptor x.index) :
    Each w.Origin (w.valueTrace owner value) := by
  induction value using ElementValue.induction with
  | leaf value =>
    rw [valueTrace]
    cases value with
    | const tag index => exact each_nil
    | enumConst type name => exact each_textReference rfl (hp ⟨.descriptor, type⟩ List.mem_cons_self)
    | classInfo type => exact each_textReference rfl (hp ⟨.descriptor, type⟩ List.mem_cons_self)
  | nested type elements ih =>
    rw [valueTrace, useTrace, pairsTrace_eq]
    refine (each_textReference rfl (hp ⟨.descriptor, type⟩ (mem_sites_use.mpr (.inl rfl)))).append ?_
    exact each_flatMap fun pair hpair => ih pair hpair fun x hx =>
      hp x (mem_sites_use.mpr (.inr ⟨pair, hpair, hx⟩))
  | array values ih =>
    rw [valueTrace, valuesTrace_eq]
    refine each_flatMap fun value hvalue => ih value hvalue fun x hx => hp x ?_
    rw [ElementValue.sites, ElementValue.sitesList_eq]
    exact List.mem_flatMap.mpr ⟨value, hvalue, hx⟩

theorem each_useTrace (hk : kind.targetKind = .classSymbol) {use : AnnotationUse}
    (hp : ∀ x ∈ use.sites, w.classFile.Place .descriptor x.index) :
    Each w.Origin (w.useTrace owner kind use) := by
  cases use with
  | mk type elements =>
    rw [useTrace, pairsTrace_eq]
    refine (each_textReference hk (hp ⟨.descriptor, type⟩ (mem_sites_use.mpr (.inl rfl)))).append ?_
    exact each_flatMap fun pair hpair => each_valueTrace fun x hx =>
      hp x (mem_sites_use.mpr (.inr ⟨pair, hpair, hx⟩))

theorem each_annotationsTrace (hc : w.classFile.Carries attributes) :
    Each w.Origin (w.annotationsTrace owner attributes) :=
  each_flatMap fun _ huse => each_useTrace rfl fun _ hx =>
    ClassFile.Place.annotation hc huse hx

theorem each_signatureOf (hc : w.classFile.Carries attributes) {signature : Option String}
    (hsignature : w.pool.signatureOf attributes = .ok signature) :
    Each w.Origin
      (whenSome signature (w.signatureReferences .signatureType · owner)) := by
  refine each_whenSome fun text htext => ?_
  subst htext
  rw [Pool.signatureOf] at hsignature
  split at hsignature
  · rename_i index hindex
    obtain ⟨found, hfound, he⟩ := Except.map_eq_ok_iff.mp hsignature
    obtain rfl := Option.some.inj he
    exact each_signatureReferences rfl (.signature hc hindex) hfound
  · cases hsignature

/-! ### Method bodies -/

theorem each_memberReference {sort : MemberSort} (hk : kind.targetKind.memberSort? = some sort)
    (hp : w.classFile.MemberPlace sort index) :
    Each w.Origin (w.memberReference index kind owner location) := by
  refine each_resolve fun m hm => ?_
  dsimp only
  split
  · exact each_nil
  · rename_i harray
    refine ((each_emit (.mention rfl)).append (each_emit (.mention ?_))).append
      (each_emit (.use (.ofMember hk (identity_memberSymbol hk m) (.ofPlace hp hm harray))))
    rw [memberSymbol]
    split <;> rfl

theorem each_callSiteTrace (hi : w.classFile.HasInstruction 0xBA index) :
    Each w.Origin (w.callSiteTrace owner location index) := by
  refine each_resolve fun site hsite => ?_
  split
  · rename_i bootstrap nameType
    refine each_whenSome fun method hmethod => each_flatMap fun argument hargument =>
      each_resolve fun handle hhandle => ?_
    split
    · rename_i handleKind reference
      have hpasses : w.classFile.PassesHandle handleKind reference :=
        ⟨index, bootstrap, nameType, method, argument, hi, Pool.get_eq_ok_iff.mp hsite, hmethod,
          hargument, Pool.get_eq_ok_iff.mp hhandle⟩
      split
      · rename_i hkind
        exact each_memberReference rfl (.fieldHandle hpasses hkind)
      split
      · rename_i hkind
        exact each_memberReference rfl (.methodHandle hpasses hkind)
      · exact each_nil
    · exact each_nil
  · exact each_nil

theorem each_indexTrace {opcode : UInt8} (hi : w.classFile.HasInstruction opcode index) :
    Each w.Origin (w.indexTrace owner opcode location index) := by
  have hopcode {n : UInt8} (h : opcode.toNat = n.toNat) : opcode = n := UInt8.toNat_inj.mp h
  rw [indexTrace]
  split
  · rename_i htype
    have hp := ClassFile.Place.typeInstruction hi (ClassFile.mem_typeOpcodes_iff.mpr htype)
    exact each_resolve fun name hname => each_constantReference rfl hp hname
  split
  · rename_i hfield
    exact each_memberReference rfl (.fieldInstruction hi hfield)
  split
  · rename_i hmethod
    exact each_memberReference rfl (.methodInstruction hi hmethod)
  split
  · rename_i hdynamic
    obtain rfl := hopcode (n := 0xBA) hdynamic
    exact each_callSiteTrace hi
  split
  · rename_i hload
    refine each_resolve fun c hc => ?_
    split
    · rename_i nameIndex
      have hget := Pool.get_eq_ok_iff.mp hc
      have hload : opcode = 0x12 ∨ opcode = 0x13 := hload.imp (hopcode ·) (hopcode ·)
      refine each_resolve fun name hname =>
        each_constantReference rfl (.classConstant hi hload hget) ?_
      rw [Pool.className, hget]
      exact hname
    · exact each_nil
  · exact each_nil

theorem each_codeAttributeTrace {body : CodeBody} (hb : w.classFile.HasBody body) {a : Attribute}
    (ha : a ∈ body.attributes) :
    Each w.Origin (w.codeAttributeTrace owner a) := by
  rw [codeAttributeTrace]
  split
  · rename_i entries hbody
    refine each_resolve fun name hname => each_flatMap fun v hv =>
      each_resolve fun text htext => ?_
    have hp := ClassFile.Place.localVariable hb ha hbody hv
    rw [← Walk.pool, namesGenericTable_eq hname] at hp
    split
    · rename_i hgeneric
      rw [if_pos hgeneric] at hp
      exact each_signatureReferences rfl hp htext
    · rename_i hgeneric
      rw [if_neg hgeneric] at hp
      exact each_whenSome fun _ hclass =>
        each_foreignReference rfl (namesClass_of_descriptor hp htext hclass)
  · rename_i values hbody
    exact each_flatMap fun t ht => each_useTrace rfl fun _ hx =>
      ClassFile.Place.codeAnnotation hb ha hbody ht hx
  · exact each_nil

theorem each_codeTrace {body : CodeBody} (hb : w.classFile.HasBody body) :
    Each w.Origin (w.codeTrace owner body) := by
  refine (Each.append ?_ ?_).append ?_
  · refine each_flatMap fun h hh => ?_
    rw [handlerTrace]
    split
    · exact each_nil
    · rename_i hne
      exact each_className rfl (.caught hb hh hne)
  · exact each_flatMap fun a ha => each_codeAttributeTrace hb ha
  · exact each_flatMap fun i hi => each_whenSome fun index hindex =>
      each_indexTrace ⟨body, hb, i, hi, rfl, hindex⟩

/-! ### Members -/

theorem each_fieldTrace {m : Member} (hm : m ∈ w.classFile.fields) :
    Each w.Origin (w.fieldTrace m) := by
  refine each_resolve fun name _ => each_resolve fun descriptor hdescriptor =>
    each_resolve fun signature hsignature => ?_
  refine ((each_emit (.ofField signature hm hdescriptor)).append ?_).append
    (each_annotationsTrace (.ofField hm))
  exact each_signatureOf (.ofField hm) hsignature

theorem each_partsTrace {m : Member} (hm : m ∈ w.classFile.methods) {parts : MethodParts}
    (htext : w.pool.text m.descriptor = .ok text) (hparts : Descriptor.methodParts text = .ok parts) :
    Each w.Origin (w.partsTrace owner parts) := by
  have hnames : w.pool.classesAt .methodDescriptor m.descriptor =
      .ok ((parts.result :: parts.parameters).filterMap Descriptor.fieldClass?) :=
    Except.bind_eq_ok_iff.mpr ⟨_, htext, Except.bind_eq_ok_iff.mpr ⟨_, hparts, rfl⟩⟩
  have hpart {part name : String} (hmem : part ∈ parts.result :: parts.parameters)
      (hname : Descriptor.fieldClass? part = some name) : w.classFile.NamesClass name :=
    ⟨_, _, _, .methodDescriptor hm, hnames, List.mem_filterMap.mpr ⟨part, hmem, hname⟩⟩
  refine Each.append ?_ ?_
  · exact each_whenSome fun name hname =>
      each_classReference rfl (hpart List.mem_cons_self hname)
  · exact each_flatMap fun part hmem => each_whenSome fun name hname =>
      each_classReference rfl (hpart (List.mem_cons_of_mem _ hmem) hname)

theorem each_methodTrace {m : Member} (hm : m ∈ w.classFile.methods) :
    Each w.Origin (w.methodTrace m) := by
  refine each_resolve fun name _ => each_resolve fun descriptor hdescriptor =>
    each_resolve fun signature hsignature => ?_
  refine (((((each_emit (.ofMethod signature hm hdescriptor)).append ?_).append ?_).append
    (each_annotationsTrace (.ofMethod hm))).append ?_).append ?_
  · exact each_signatureOf (.ofMethod hm) hsignature
  · exact each_resolve fun parts hparts => each_partsTrace hm hdescriptor hparts
  · refine each_flatMap fun a ha => ?_
    rw [methodAttributeTrace]
    split
    · rename_i value hbody
      exact each_valueTrace fun x hx => .annotationDefault hm ha hbody hx
    · rename_i indices hbody
      exact each_flatMap fun i hi => each_className rfl (.thrown hm ha hbody hi)
    · exact each_nil
  · exact each_whenSome fun body hbody => each_codeTrace ⟨m, hm, hbody⟩

/-! ### Classes -/

theorem each_nestTrace (hp : w.classFile.Place .className index) :
    Each w.Origin (w.nestTrace index) :=
  each_resolve fun name hname => each_foreignReference rfl
    ⟨_, _, [name], hp, by rw [Pool.classesAt, ← Walk.pool, hname]; rfl, List.mem_singleton_self _⟩

theorem each_enclosingTrace {a : Attribute} {class' method : UInt16} (ha : a ∈ w.classFile.attributes)
    (hbody : a.body = .flat (.enclosingMethod class' method)) :
    Each w.Origin (w.enclosingTrace class' method) := by
  refine each_resolve fun name hname => Each.append ?_ ?_
  · exact each_classReference rfl ⟨_, _, [name], .enclosingClass ha hbody,
      by rw [Pool.classesAt, ← Walk.pool, hname]; rfl, List.mem_singleton_self _⟩
  split
  · exact each_nil
  · rename_i hne
    refine each_resolve fun nameAndType hmethod => (each_emit (.mention rfl)).append ?_
    exact each_emit (.use (.ofMember rfl rfl (.enclosingMethod ha hbody hne hname hmethod)))

theorem each_componentTrace {a : Attribute} {components : List RecordComponent}
    {x : RecordComponent} (ha : a ∈ w.classFile.attributes) (hbody : a.body = .record components)
    (hx : x ∈ components) : Each w.Origin (w.componentTrace x) := by
  have hc := ClassFile.Carries.ofComponent ha hbody hx
  refine (Each.append ?_ ?_).append (each_annotationsTrace hc)
  · exact each_textReference rfl (.component ha hbody hx)
  · exact each_resolve fun signature hsignature => each_signatureOf hc hsignature

theorem each_classAttributeTrace {a : Attribute} (ha : a ∈ w.classFile.attributes) :
    Each w.Origin (w.classAttributeTrace a) := by
  rw [classAttributeTrace]
  split
  · rename_i indices hbody
    exact each_flatMap fun i hi => each_nestTrace (.nestMember ha hbody hi)
  · rename_i index hbody
    exact each_nestTrace (.nestHost ha hbody)
  · rename_i entries hbody
    refine each_flatMap fun e he => (each_nestTrace (.innerClass ha hbody he)).append ?_
    split
    · exact each_nil
    · rename_i hne
      exact each_nestTrace (.outerClass ha hbody he hne)
  · rename_i class' method hbody
    exact each_enclosingTrace ha hbody
  · rename_i components hbody
    exact each_flatMap fun x hx => each_componentTrace ha hbody hx
  · exact each_nil

theorem each_headTrace (hname : w.classFile.name = .ok w.name) :
    Each w.Origin w.headTrace := by
  have hthis : w.classFile.NamesClass w.name :=
    ⟨_, _, [w.name], .this, by rw [Pool.classesAt]; exact congrArg _ hname, List.mem_singleton_self _⟩
  refine each_resolve fun signature hsignature => ?_
  refine (((((each_emit (.ofClass signature)).append (each_emit (.use (.ofClass rfl rfl hthis)))).append
    ?_).append ?_).append (each_annotationsTrace .ofClass)).append (each_signatureOf .ofClass hsignature)
  · refine each_resolve fun super hsuper => each_whenSome fun name hname => ?_
    subst hname
    rw [ClassFile.superName] at hsuper
    split at hsuper
    · cases hsuper
    · rename_i hne
      obtain ⟨found, hfound, he⟩ := Except.map_eq_ok_iff.mp hsuper
      obtain rfl := Option.some.inj he
      exact each_classReference rfl ⟨_, _, [found], .superclass hne,
        by rw [Pool.classesAt, hfound]; rfl, List.mem_singleton_self _⟩
  · refine each_resolve fun names hnames => each_flatMap fun name hname => ?_
    obtain ⟨i, hi, hfound⟩ := Except.exists_of_forall₂ (Except.mapM_eq_ok_iff.mp hnames).flip hname
    exact each_classReference rfl ⟨_, _, [name], .interface hi,
      by rw [Pool.classesAt, hfound]; rfl, List.mem_singleton_self _⟩

/-- **A walk makes nothing up.** What it uses is named by the class file at the place at which the walk
came across it, and what it declares is the class, a field or a method. -/
theorem each_trace (hname : w.classFile.name = .ok w.name) : Each w.Origin w.trace := by
  refine (((each_headTrace hname).append ?_).append ?_).append ?_
  · exact each_flatMap fun a ha => each_classAttributeTrace ha
  · exact each_flatMap fun m hm => each_fieldTrace hm
  · exact each_flatMap fun m hm => each_methodTrace hm

end Walk

namespace ClassFile

variable {c : ClassFile} {file : RowId} {event : Event}

/-- An event of a class file comes from a walk over it. -/
theorem origin_of_visit (h : event ∈ (c.visit file).events) :
    ∃ name, c.name = .ok name ∧ (c.visit file) = (Walk.trace ⟨c, name, file⟩).outcome ∧
      (Walk.mk c name file).Origin event := by
  rw [visit] at h ⊢
  split at h
  · rename_i name hname
    exact ⟨name, hname, rfl, Walk.each_trace (w := ⟨c, name, file⟩) hname event
      (Trace.mem_of_mem_outcome h)⟩
  · cases h

/-- **What a class file is reported to use is named by it**, with or without a fault of the walk. -/
theorem namesTarget_of_visit {value : Reference} (h : .reference value ∈ (c.visit file).events) :
    c.NamesTarget value := by
  obtain ⟨name, -, -, horigin⟩ := origin_of_visit h
  cases horigin with
  | use h => exact h

/-- In a walk that reached its end, the descriptor of a declared method has parts. -/
theorem exists_of_declared (hwhole : (c.visit file).fault = none) {value : Symbol}
    (h : .symbol value ∈ (c.visit file).events) (hkind : value.kind = .methodSymbol)
    (hfile : value.file ≠ none) :
    ∃ name descriptor parts, Descriptor.methodParts descriptor = .ok parts ∧
      value.owner = some (.ofClass name) ∧
      value.identity = MemberPath.identity ⟨.ofClass name, value.name, descriptor⟩ .method := by
  obtain ⟨name, hname, hvisit, horigin⟩ := origin_of_visit h
  rw [hvisit] at hwhole
  cases horigin with
  | ofClass signature => cases hkind
  | ofField signature hm hdescriptor => cases hkind
  | mention hnone => exact absurd hnone hfile
  | ofMethod signature hm hdescriptor =>
    obtain ⟨-, descriptor, -, parts, htext, -, hparts, -⟩ :=
      Walk.exists_of_mem_methods (Trace.reported_outcome hwhole) hm
    obtain rfl := Except.ok.inj (hdescriptor.symm.trans htext)
    exact ⟨name, _, parts, hparts, rfl, rfl⟩

end ClassFile

end ClassAtlas
