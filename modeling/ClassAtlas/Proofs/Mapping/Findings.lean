import ClassAtlas.Mapping.Run
import ClassAtlas.Proofs.ClassFile.Tree
import ClassAtlas.Proofs.Store.WellNamed

/-!
# What mapping finds can be resolved

The walk over a class file comes across the symbols that a use needs before it comes across the use:
the used symbol, and the declared one that uses it. The class of a member comes before the member. So
wherever a walk is cut off, what it has found so far can be resolved. The parts of the walk follow the
parts of the class file, and so does the proof.

## Main definitions

* `ClassAtlas.Event.Follows` — an event that only needs what came before it.
* `ClassAtlas.Resolvable` — findings, each of which only needs the ones before it.
* `ClassAtlas.SymbolRule.Reported` — rules that all symbols obey that mapping can find.

## Main results

* `ClassAtlas.Walk.resolvable_trace` — the walk over a class.
* `ClassAtlas.FileRow.resolvable_findings` — what is found in a file.
* `ClassAtlas.ClassFile.needs_of_visit` — what comes before an event, wherever the walk is cut.
-/

set_option autoImplicit false

namespace ClassAtlas

/-! ### Findings and what they need -/

/-- A symbol with a kind and an identity is among the events. -/
def Mentions (seen : List Event) (kind : SymbolKind) (identity : Identity) : Prop :=
  ∃ value, .symbol value ∈ seen ∧ value.kind = kind ∧ value.identity = identity

/-- A symbol that a file declares is among the events. -/
def DeclaresIn (file : RowId) (seen : List Event) (identity : Identity) : Prop :=
  ∃ value, .symbol value ∈ seen ∧ value.file = some file ∧ value.identity = identity

/-- An event in a file that only needs what came before it. A symbol is spelled as its name says and
belongs to no other file, and the class that owns it came before it. A use is one by the file; the used
symbol came before it, and so did the declared symbol that uses it. -/
def Event.Follows (file : RowId) (seen : List Event) : Event → Prop
  | .identifier _ => False
  | .symbol value => value.Spelled ∧ (∀ declaring ∈ value.file, declaring = file) ∧
      ∀ owner ∈ value.owner, Mentions seen .classSymbol owner
  | .reference value => value.file = file ∧ Mentions seen value.kind.targetKind value.target ∧
      DeclaresIn file seen value.owner

/-- Events in a file, each of which only needs those before it. -/
def Resolvable (file : RowId) (seen : List Event) : List Event → Prop
  | [] => True
  | event :: events => event.Follows file seen ∧ Resolvable file (event :: seen) events

section Resolvable

variable {file : RowId} {seen seen' events more : List Event} {event : Event} {kind : SymbolKind}
  {identity : Identity} {value : Symbol}

theorem Mentions.mono (h : Mentions seen kind identity) (hs : seen ⊆ seen') :
    Mentions seen' kind identity := by
  obtain ⟨value, hmem, hvalue⟩ := h
  exact ⟨value, hs hmem, hvalue⟩

theorem DeclaresIn.mono (h : DeclaresIn file seen identity) (hs : seen ⊆ seen') :
    DeclaresIn file seen' identity := by
  obtain ⟨value, hmem, hvalue⟩ := h
  exact ⟨value, hs hmem, hvalue⟩

theorem mentions_cons_self : Mentions (.symbol value :: seen) value.kind value.identity :=
  ⟨value, List.mem_cons_self, rfl, rfl⟩

theorem declaresIn_cons_self (seen : List Event) (value : Symbol) (h : value.file = some file) :
    DeclaresIn file (.symbol value :: seen) value.identity :=
  ⟨value, List.mem_cons_self, h, rfl⟩

theorem Event.Follows.mono (h : event.Follows file seen) (hs : seen ⊆ seen') :
    event.Follows file seen' := by
  cases event with
  | identifier identity => exact h
  | symbol value => exact ⟨h.1, h.2.1, fun owner ho => (h.2.2 owner ho).mono hs⟩
  | reference value => exact ⟨h.1, h.2.1.mono hs, h.2.2.mono hs⟩

theorem Resolvable.mono (h : Resolvable file seen events) (hs : seen ⊆ seen') :
    Resolvable file seen' events := by
  induction events generalizing seen seen' with
  | nil => trivial
  | cons event events ih => exact ⟨h.1.mono hs, ih h.2 (List.cons_subset_cons _ hs)⟩

theorem Resolvable.append (h : Resolvable file seen events) (h' : Resolvable file seen more) :
    Resolvable file seen (events ++ more) := by
  induction events generalizing seen with
  | nil => exact h'
  | cons event events ih => exact ⟨h.1, ih h.2 (h'.mono (List.subset_cons_self _ _))⟩

/-- Wherever the events are cut, the next one only needs what came before it. -/
theorem Resolvable.follows_of_cut {before after : List Event}
    (h : Resolvable file seen (before ++ event :: after)) : event.Follows file (before ++ seen) := by
  induction before generalizing seen with
  | nil => exact h.1
  | cons first before ih =>
    refine (ih h.2).mono fun e hm => ?_
    simp only [List.mem_append, List.mem_cons, List.cons_append] at hm ⊢
    tauto

/-- Each of the events only needs what came before all of them, and the others. -/
theorem Resolvable.follows (h : Resolvable file seen events) (he : event ∈ events) :
    event.Follows file (events ++ seen) := by
  obtain ⟨before, after, rfl⟩ := List.append_of_mem he
  refine h.follows_of_cut.mono (List.append_subset.mpr ⟨?_, List.subset_append_right _ _⟩)
  exact List.Subset.trans (List.subset_append_left _ _) (List.subset_append_left _ _)

end Resolvable

namespace Trace

variable {α : Type} {file : RowId} {seen : List Event} {a b : Trace} {event : Event}

/-- A trace with findings that can be resolved, up to its first fault. -/
def Resolvable (file : RowId) (seen : List Event) (trace : Trace) : Prop :=
  ClassAtlas.Resolvable file seen trace.outcome.events

theorem resolvable_nil : Resolvable file seen [] :=
  trivial

theorem Resolvable.append (ha : Resolvable file seen a) (hb : Resolvable file seen b) :
    Resolvable file seen (a ++ b) := by
  rw [Resolvable, outcome_append]
  split
  · exact ha
  · exact ClassAtlas.Resolvable.append ha hb

/-- Behind an event, it is among what came before. -/
theorem resolvable_emit_append (he : event.Follows file seen) (hb : Resolvable file (event :: seen) b) :
    Resolvable file seen (emit event ++ b) := by
  rw [Resolvable, emit, List.singleton_append, outcome_cons_ok]
  exact ⟨he, hb⟩

theorem resolvable_emit (he : event.Follows file seen) : Resolvable file seen (emit event) := by
  simpa using resolvable_emit_append he resolvable_nil

theorem resolvable_resolve_append {value : Except FormatError α} {rest : α → Trace}
    (h : ∀ a, Resolvable file seen (rest a ++ b)) : Resolvable file seen (resolve value rest ++ b) := by
  cases value with
  | ok a => exact h a
  | error cause => trivial

theorem resolvable_resolve {value : Except FormatError α} {rest : α → Trace}
    (h : ∀ a, Resolvable file seen (rest a)) : Resolvable file seen (resolve value rest) := by
  cases value with
  | ok a => exact h a
  | error cause => trivial

theorem resolvable_whenSome {value : Option α} {rest : α → Trace}
    (h : ∀ a, Resolvable file seen (rest a)) : Resolvable file seen (whenSome value rest) := by
  cases value with
  | some a => exact h a
  | none => exact resolvable_nil

theorem resolvable_flatMap {as : List α} {rest : α → Trace}
    (h : ∀ a ∈ as, Resolvable file seen (rest a)) : Resolvable file seen (as.flatMap rest) := by
  induction as with
  | nil => exact resolvable_nil
  | cons a as ih =>
    obtain ⟨ha, has⟩ := List.forall_mem_cons.mp h
    rw [List.flatMap_cons]
    exact ha.append (ih has)

end Trace

namespace Walk

open Trace

variable {w : Walk} {seen : List Event} {owner : Identity}

/-! ### Uses -/

theorem resolvable_reference {kind : ReferenceKind} {target : Identity} (location : Option Nat)
    (ht : Mentions seen kind.targetKind target) (ho : DeclaresIn w.file seen owner) :
    (w.reference kind target owner location).Resolvable w.file seen :=
  resolvable_emit ⟨rfl, ht, ho⟩

theorem follows_ofClass (name : String) : Event.Follows w.file seen (.symbol (.ofClass name)) :=
  ⟨Symbol.spelled_ofClass name, by simp [Symbol.ofClass], by simp [Symbol.ofClass]⟩

theorem follows_ofMethod {class' : String} (name descriptor : String)
    (h : Mentions seen .classSymbol (.ofClass class')) :
    Event.Follows w.file seen (.symbol (.ofMethod class' name descriptor)) :=
  ⟨Symbol.spelled_ofMethod _ _ _, by simp [Symbol.ofMethod], by simpa [Symbol.ofMethod] using h⟩

theorem follows_ofField {class' : String} (name descriptor : String)
    (h : Mentions seen .classSymbol (.ofClass class')) :
    Event.Follows w.file seen (.symbol (.ofField class' name descriptor)) :=
  ⟨Symbol.spelled_ofField _ _ _, by simp [Symbol.ofField], by simpa [Symbol.ofField] using h⟩

section Uses

variable (ho : DeclaresIn w.file seen owner)
include ho

theorem resolvable_classReference {kind : ReferenceKind} (hk : kind.targetKind = .classSymbol)
    (name : String) (location : Option Nat) :
    (w.classReference kind name owner location).Resolvable w.file seen :=
  resolvable_emit_append (follows_ofClass name)
    (resolvable_reference location (hk ▸ mentions_cons_self) (ho.mono (List.subset_cons_self _ _)))

theorem resolvable_foreignReference {kind : ReferenceKind} (hk : kind.targetKind = .classSymbol)
    (name : String) : (w.foreignReference kind name owner).Resolvable w.file seen := by
  rw [foreignReference]
  split
  · exact resolvable_nil
  · exact resolvable_classReference ho hk _ _

theorem resolvable_signatureReferences {kind : ReferenceKind}
    (hk : kind.targetKind = .classSymbol) (signature : String) :
    (w.signatureReferences kind signature owner).Resolvable w.file seen :=
  resolvable_whenSome fun _ => resolvable_flatMap fun _ _ => resolvable_foreignReference ho hk _

theorem resolvable_descriptorReference {kind : ReferenceKind}
    (hk : kind.targetKind = .classSymbol) (descriptor : String) :
    (w.descriptorReference kind descriptor owner).Resolvable w.file seen :=
  resolvable_whenSome fun _ => resolvable_classReference ho hk _ _

theorem resolvable_textReference {kind : ReferenceKind} (hk : kind.targetKind = .classSymbol)
    (index : UInt16) : (w.textReference kind index owner).Resolvable w.file seen :=
  resolvable_resolve fun _ => resolvable_descriptorReference ho hk _

theorem resolvable_memberReference {kind : ReferenceKind} (hk : kind.targetKind ≠ .classSymbol)
    (index : UInt16) (location : Option Nat) :
    (w.memberReference index kind owner location).Resolvable w.file seen := by
  refine resolvable_resolve fun m => ?_
  dsimp only
  split
  · exact resolvable_nil
  · have hkind : (memberSymbol kind m).kind = kind.targetKind := by
      cases kind <;> first | rfl | exact absurd rfl hk
    have hsymbol : Event.Follows w.file (.symbol (.ofClass m.owner) :: seen)
        (.symbol (memberSymbol kind m)) := by
      rw [memberSymbol]
      split
      · exact follows_ofField _ _ mentions_cons_self
      · exact follows_ofMethod _ _ mentions_cons_self
    rw [List.append_assoc]
    refine resolvable_emit_append (follows_ofClass _) (resolvable_emit_append hsymbol ?_)
    refine resolvable_reference location (hkind ▸ mentions_cons_self) (ho.mono ?_)
    exact List.subset_cons_of_subset _ (List.subset_cons_self _ _)

/-! ### Annotations -/

theorem resolvable_leafTrace (leaf : ElementLeaf) :
    (w.leafTrace owner leaf).Resolvable w.file seen := by
  cases leaf with
  | const => exact resolvable_nil
  | enumConst => exact resolvable_textReference ho rfl _
  | classInfo => exact resolvable_textReference ho rfl _

omit ho in
theorem resolvable_pairsTrace {pairs : List ElementPair}
    (h : ∀ pair ∈ pairs, (w.valueTrace owner pair.value).Resolvable w.file seen) :
    (w.pairsTrace owner pairs).Resolvable w.file seen := by
  induction pairs with
  | nil => exact resolvable_nil
  | cons pair pairs ih =>
    obtain ⟨hpair, hpairs⟩ := List.forall_mem_cons.mp h
    cases pair
    rw [pairsTrace, pairTrace]
    exact hpair.append (ih hpairs)

omit ho in
theorem resolvable_valuesTrace {values : List ElementValue}
    (h : ∀ value ∈ values, (w.valueTrace owner value).Resolvable w.file seen) :
    (w.valuesTrace owner values).Resolvable w.file seen := by
  induction values with
  | nil => exact resolvable_nil
  | cons value values ih =>
    obtain ⟨hvalue, hvalues⟩ := List.forall_mem_cons.mp h
    rw [valuesTrace]
    exact hvalue.append (ih hvalues)

theorem resolvable_valueTrace (value : ElementValue) :
    (w.valueTrace owner value).Resolvable w.file seen := by
  induction value using ElementValue.induction with
  | leaf value =>
    rw [valueTrace]
    exact resolvable_leafTrace ho value
  | nested type elements ih =>
    rw [valueTrace, useTrace]
    exact (resolvable_textReference ho rfl _).append (resolvable_pairsTrace ih)
  | array values ih =>
    rw [valueTrace]
    exact resolvable_valuesTrace ih

theorem resolvable_useTrace {kind : ReferenceKind} (hk : kind.targetKind = .classSymbol)
    (use : AnnotationUse) : (w.useTrace owner kind use).Resolvable w.file seen := by
  cases use with
  | mk type elements =>
    rw [useTrace]
    exact (resolvable_textReference ho hk _).append
      (resolvable_pairsTrace fun _ _ => resolvable_valueTrace ho _)

theorem resolvable_annotationsTrace (attributes : List Attribute) :
    (w.annotationsTrace owner attributes).Resolvable w.file seen :=
  resolvable_flatMap fun _ _ => resolvable_useTrace ho rfl _

/-! ### Method bodies -/

theorem resolvable_argumentTrace (location : Option Nat) (argument : UInt16) :
    (w.argumentTrace owner location argument).Resolvable w.file seen := by
  refine resolvable_resolve fun c => ?_
  split
  · split
    · exact resolvable_memberReference ho (by decide) _ _
    · split
      · exact resolvable_memberReference ho (by decide) _ _
      · exact resolvable_nil
  · exact resolvable_nil

theorem resolvable_callSiteTrace (location : Option Nat) (index : UInt16) :
    (w.callSiteTrace owner location index).Resolvable w.file seen := by
  refine resolvable_resolve fun c => ?_
  split
  · exact resolvable_whenSome fun _ => resolvable_flatMap fun _ _ =>
      resolvable_argumentTrace ho _ _
  · exact resolvable_nil

theorem resolvable_constantReference {kind : ReferenceKind} (hk : kind.targetKind = .classSymbol)
    (name : String) (location : Option Nat) :
    (w.constantReference kind name owner location).Resolvable w.file seen :=
  resolvable_whenSome fun _ => resolvable_classReference ho hk _ _

theorem resolvable_indexTrace (opcode : UInt8) (location : Option Nat) (index : UInt16) :
    (w.indexTrace owner opcode location index).Resolvable w.file seen := by
  rw [indexTrace]
  split
  · exact resolvable_resolve fun _ => resolvable_constantReference ho rfl _ _
  split
  · exact resolvable_memberReference ho (by decide) _ _
  split
  · exact resolvable_memberReference ho (by decide) _ _
  split
  · exact resolvable_callSiteTrace ho _ _
  split
  · refine resolvable_resolve fun c => ?_
    split
    · exact resolvable_resolve fun _ => resolvable_constantReference ho rfl _ _
    · exact resolvable_nil
  · exact resolvable_nil

theorem resolvable_handlerTrace (h : ExceptionHandler) :
    (w.handlerTrace owner h).Resolvable w.file seen := by
  rw [handlerTrace]
  split
  · exact resolvable_nil
  · exact resolvable_resolve fun _ => resolvable_classReference ho rfl _ _

theorem resolvable_variableTrace (isGeneric : Bool) (v : LocalVariable) :
    (w.variableTrace owner isGeneric v).Resolvable w.file seen := by
  refine resolvable_resolve fun descriptor => ?_
  split
  · exact resolvable_signatureReferences ho rfl _
  · exact resolvable_whenSome fun _ => resolvable_foreignReference ho rfl _

theorem resolvable_codeAttributeTrace (a : Attribute) :
    (w.codeAttributeTrace owner a).Resolvable w.file seen := by
  rw [codeAttributeTrace]
  split
  · exact resolvable_resolve fun _ => resolvable_flatMap fun _ _ => resolvable_variableTrace ho _ _
  · exact resolvable_flatMap fun _ _ => resolvable_useTrace ho rfl _
  · exact resolvable_nil

theorem resolvable_codeTrace (body : CodeBody) :
    (w.codeTrace owner body).Resolvable w.file seen := by
  refine Trace.Resolvable.append (Trace.Resolvable.append ?_ ?_) ?_
  · exact resolvable_flatMap fun _ _ => resolvable_handlerTrace ho _
  · exact resolvable_flatMap fun _ _ => resolvable_codeAttributeTrace ho _
  · exact resolvable_flatMap fun _ _ => resolvable_whenSome fun _ => resolvable_indexTrace ho _ _ _

/-! ### Members -/

theorem resolvable_methodAttributeTrace (a : Attribute) :
    (w.methodAttributeTrace owner a).Resolvable w.file seen := by
  rw [methodAttributeTrace]
  split
  · exact resolvable_valueTrace ho _
  · exact resolvable_flatMap fun _ _ => resolvable_resolve fun _ =>
      resolvable_classReference ho rfl _ _
  · exact resolvable_nil

theorem resolvable_partsTrace (parts : MethodParts) :
    (w.partsTrace owner parts).Resolvable w.file seen :=
  (resolvable_descriptorReference ho rfl _).append
    (resolvable_flatMap fun _ _ => resolvable_descriptorReference ho rfl _)

end Uses

theorem resolvable_fieldTrace (h : Mentions seen .classSymbol w.this) (m : Member) :
    (w.fieldTrace m).Resolvable w.file seen := by
  refine resolvable_resolve fun name => resolvable_resolve fun descriptor =>
    resolvable_resolve fun signature => ?_
  dsimp only
  rw [List.append_assoc]
  refine resolvable_emit_append ⟨⟨w.name, descriptor, rfl, rfl⟩, ?_, ?_⟩ ?_
  · simp
  · simpa using h
  · have ho := declaresIn_cons_self seen ⟨.fieldSymbol, .ofField w.this name descriptor, name, some w.file,
      some w.this, m.access, signature⟩ rfl
    refine Trace.Resolvable.append ?_ (resolvable_annotationsTrace ho _)
    exact resolvable_whenSome fun _ => resolvable_signatureReferences ho rfl _

theorem resolvable_methodTrace (h : Mentions seen .classSymbol w.this) (m : Member) :
    (w.methodTrace m).Resolvable w.file seen := by
  refine resolvable_resolve fun name => resolvable_resolve fun descriptor =>
    resolvable_resolve fun signature => ?_
  dsimp only
  simp only [List.append_assoc]
  refine resolvable_emit_append ⟨⟨w.name, descriptor, rfl, rfl⟩, ?_, ?_⟩ ?_
  · simp
  · simpa using h
  · have ho := declaresIn_cons_self seen ⟨.methodSymbol, .ofMethod w.this name descriptor, name, some w.file,
      some w.this, m.access, signature⟩ rfl
    refine Trace.Resolvable.append ?_ (Trace.Resolvable.append ?_ (Trace.Resolvable.append
      (resolvable_annotationsTrace ho _) (Trace.Resolvable.append ?_ ?_)))
    · exact resolvable_whenSome fun _ => resolvable_signatureReferences ho rfl _
    · exact resolvable_resolve fun _ => resolvable_partsTrace ho _
    · exact resolvable_flatMap fun _ _ => resolvable_methodAttributeTrace ho _
    · exact resolvable_whenSome fun _ => resolvable_codeTrace ho _

/-! ### Classes -/

section Classes

variable (ho : DeclaresIn w.file seen w.this)
include ho

theorem resolvable_nestTrace (index : UInt16) : (w.nestTrace index).Resolvable w.file seen :=
  resolvable_resolve fun _ => resolvable_foreignReference ho rfl _

theorem resolvable_innerClassTrace (entry : InnerClass) :
    (w.innerClassTrace entry).Resolvable w.file seen := by
  refine (resolvable_nestTrace ho _).append ?_
  split
  · exact resolvable_nil
  · exact resolvable_nestTrace ho _

theorem resolvable_enclosingTrace (index method : UInt16) :
    (w.enclosingTrace index method).Resolvable w.file seen := by
  refine resolvable_resolve fun name => ?_
  rw [classReference, List.append_assoc]
  refine resolvable_emit_append (follows_ofClass name) ?_
  have ho := ho.mono (List.subset_cons_self (.symbol (.ofClass name)) seen)
  refine (resolvable_reference none mentions_cons_self ho).append ?_
  split
  · exact resolvable_nil
  · refine resolvable_resolve fun nameAndType => ?_
    refine resolvable_emit_append (follows_ofMethod _ _ mentions_cons_self) ?_
    exact resolvable_reference none mentions_cons_self (ho.mono (List.subset_cons_self _ _))

theorem resolvable_componentTrace (c : RecordComponent) :
    (w.componentTrace c).Resolvable w.file seen := by
  refine ((resolvable_textReference ho rfl _).append ?_).append (resolvable_annotationsTrace ho _)
  exact resolvable_resolve fun _ => resolvable_whenSome fun _ =>
    resolvable_signatureReferences ho rfl _

theorem resolvable_classAttributeTrace (a : Attribute) :
    (w.classAttributeTrace a).Resolvable w.file seen := by
  rw [classAttributeTrace]
  split
  · exact resolvable_flatMap fun _ _ => resolvable_nestTrace ho _
  · exact resolvable_nestTrace ho _
  · exact resolvable_flatMap fun _ _ => resolvable_innerClassTrace ho _
  · exact resolvable_enclosingTrace ho _ _
  · exact resolvable_flatMap fun _ _ => resolvable_componentTrace ho _
  · exact resolvable_nil

end Classes

/-- **The findings of a walk can be resolved**, wherever it is cut off.

**Proof sketch.** The class itself comes first, so it is declared before all of its own uses and
mentioned before its members. Each member is declared before its uses, and every used symbol is
mentioned right before its use. -/
theorem resolvable_trace (w : Walk) : w.trace.Resolvable w.file [] := by
  rw [trace, headTrace]
  simp only [List.append_assoc]
  refine resolvable_resolve_append fun signature => ?_
  simp only [List.append_assoc]
  refine resolvable_emit_append ⟨rfl, by simp, by simp⟩ ?_
  have ho := declaresIn_cons_self [] ⟨.classSymbol, w.this, w.name, some w.file, none,
    w.classFile.access, signature⟩ rfl
  have hthis : Mentions [.symbol ⟨.classSymbol, w.this, w.name, some w.file, none, w.classFile.access,
      signature⟩] .classSymbol w.this := mentions_cons_self
  refine Trace.Resolvable.append (resolvable_reference none hthis ho) ?_
  refine Trace.Resolvable.append ?_ (Trace.Resolvable.append ?_ (Trace.Resolvable.append
    (resolvable_annotationsTrace ho _) (Trace.Resolvable.append ?_ (Trace.Resolvable.append ?_
    (Trace.Resolvable.append ?_ ?_)))))
  · exact resolvable_resolve fun _ => resolvable_whenSome fun _ =>
      resolvable_classReference ho rfl _ _
  · exact resolvable_resolve fun _ => resolvable_flatMap fun _ _ =>
      resolvable_classReference ho rfl _ _
  · exact resolvable_whenSome fun _ => resolvable_signatureReferences ho rfl _
  · exact resolvable_flatMap fun _ _ => resolvable_classAttributeTrace ho _
  · exact resolvable_flatMap fun _ _ => resolvable_fieldTrace hthis _
  · exact resolvable_flatMap fun _ _ => resolvable_methodTrace hthis _

end Walk

/-! ### Files -/

/-- An event without a symbol, or with one that obeys a rule. -/
def Event.Obeys (rule : SymbolRule) : Event → Prop
  | .symbol value => value.Obeys rule
  | .identifier _ | .reference _ => True

theorem Event.Follows.spelled {file : RowId} {seen : List Event} {event : Event}
    (h : event.Follows file seen) : event.Obeys IsSpelled := by
  cases event with
  | identifier identity => trivial
  | symbol value => exact h.1
  | reference value => trivial

/-- A rule that all symbols obey that mapping can find in a file. -/
def SymbolRule.Reported (rule : SymbolRule) : Prop :=
  ∀ file findings, Resolvable file [] findings → ∀ event ∈ findings, event.Obeys rule

theorem reported_isSpelled : SymbolRule.Reported IsSpelled :=
  fun _ _ h _ hmem => (h.follows hmem).spelled

theorem reported_isNamed : SymbolRule.Reported fun kind _ identity owner =>
    IsNamed kind identity owner := by
  intro file findings h event hmem
  have hspelled := reported_isSpelled file findings h event hmem
  cases event with
  | identifier identity => trivial
  | symbol value => exact IsSpelled.isNamed hspelled
  | reference value => trivial

/-- The owner of a symbol is found before it as a class, and the identity of a class is that of its
name. -/
theorem reported_isOwned : SymbolRule.Reported IsOwned := by
  intro file findings h event hmem
  cases event with
  | identifier identity => trivial
  | symbol value =>
    intro owner ho
    obtain ⟨class', hclass, hkind, rfl⟩ := (h.follows hmem).2.2 owner ho
    rw [List.append_nil] at hclass
    have hspelled : IsSpelled class'.kind class'.name (some class'.identity) class'.owner :=
      (h.follows hclass).1
    rw [hkind] at hspelled
    exact ⟨class'.name, Option.some.inj hspelled⟩
  | reference value => trivial

/-- Every identity that an event names belongs to a symbol before it or in it. -/
theorem Event.Follows.exists_symbol {file : RowId} {seen : List Event} {event : Event}
    (h : event.Follows file seen) {identity : Identity} (hi : identity ∈ Job.named event) :
    ∃ value, .symbol value ∈ event :: seen ∧ value.identity = identity := by
  have hmentions {kind : SymbolKind} (hm : Mentions seen kind identity) :
      ∃ value, .symbol value ∈ event :: seen ∧ value.identity = identity := by
    obtain ⟨value, hmem, -, hv⟩ := hm
    exact ⟨value, List.mem_cons_of_mem _ hmem, hv⟩
  cases event with
  | identifier identity => cases h
  | symbol value =>
    rcases List.mem_cons.mp hi with rfl | hi
    · exact ⟨value, List.mem_cons_self, rfl⟩
    · exact hmentions (h.2.2 identity (Option.mem_toList.mp hi))
  | reference value =>
    rcases List.mem_cons.mp hi with rfl | hi
    · exact hmentions h.2.1
    · obtain rfl := List.mem_singleton.mp hi
      obtain ⟨owner, hmem, -, ho⟩ := h.2.2
      exact ⟨owner, List.mem_cons_of_mem _ hmem, ho⟩

/-- The events of a class file can be resolved, with or without a fault at their end. -/
theorem ClassFile.resolvable_visit (c : ClassFile) (file : RowId) :
    Resolvable file [] (c.visit file).events := by
  rw [visit]
  split
  · exact Walk.resolvable_trace ⟨c, _, file⟩
  · trivial

/-- **What is found in a file can be resolved.** -/
theorem FileRow.resolvable_findings (file : FileRow) : Resolvable file.id [] file.findings.1 := by
  rw [findings]
  split
  · trivial
  split
  · trivial
  split
  · trivial
  · exact ClassFile.resolvable_visit _ _

/-! ### Cuts of a walk -/

/-- **What an event needs comes before it**, in a walk that reaches its end as in one that a fault cuts
off. A use is one by the file; the used symbol was mentioned before it as a symbol of its kind, and the one
that uses it was declared in the file. A field or a method comes after the class that owns it. -/
theorem ClassFile.needs_of_visit (c : ClassFile) (file : RowId) {before after : List Event}
    {event : Event} (h : (c.visit file).events = before ++ event :: after) :
    match event with
    | .identifier _ => False
    | .symbol value => value.kind = .classSymbol ∨ ∃ sort class' descriptor,
        value.kind.memberSort? = some sort ∧ value.owner = some (.ofClass class') ∧
          value.identity = MemberPath.identity ⟨.ofClass class', value.name, descriptor⟩ sort ∧
          Mentions before .classSymbol (.ofClass class')
    | .reference value => value.file = file ∧ Mentions before value.kind.targetKind value.target ∧
        DeclaresIn file before value.owner := by
  have hfollows : event.Follows file before := by
    have hresolvable := c.resolvable_visit file
    rw [h] at hresolvable
    simpa using hresolvable.follows_of_cut
  cases event with
  | identifier identity => exact hfollows
  | reference value => exact hfollows
  | symbol value =>
    obtain ⟨hspelled, -, howner⟩ := hfollows
    rw [Symbol.Spelled, Symbol.Obeys, IsSpelled] at hspelled
    cases hsort : value.kind.memberSort? with
    | none =>
      refine .inl ?_
      cases hkind : value.kind <;> simp [hkind, SymbolKind.memberSort?] at hsort ⊢
    | some sort =>
      rw [hsort] at hspelled
      obtain ⟨class', descriptor, hclass, hidentity⟩ := hspelled
      exact .inr ⟨sort, class', descriptor, hsort, hclass, Option.some.inj hidentity,
        howner _ hclass⟩

/-- A class `A` below `S` with a method whose descriptor is malformed. -/
def ClassFile.cutShort : ClassFile :=
  { ClassFile.blank with
    pool := ⟨#[none, some (.text "A"), some (.classRef 1), some (.text "S"), some (.classRef 3),
      some (.text "m"), some (.text "()")]⟩
    thisClass := 2
    superClass := 4
    methods := [⟨0, 5, 6, []⟩] }

/-- The walk over that class ends at the method, behind the use of the superclass. -/
theorem ClassFile.needs_of_visit_cutShort :
    (cutShort.visit 7).fault = some (.malformedDescriptor "()") ∧
      ∃ before after, (cutShort.visit 7).events =
          before ++ .reference ⟨.superclass, 7, ⟨"S"⟩, ⟨"A"⟩, none⟩ :: after ∧
        Mentions before .classSymbol ⟨"S"⟩ ∧ DeclaresIn 7 before ⟨"A"⟩ := by
  let before : List Event :=
    [.symbol ⟨.classSymbol, ⟨"A"⟩, "A", some 7, none, 0, none⟩,
      .reference ⟨.classFile, 7, ⟨"A"⟩, ⟨"A"⟩, none⟩, .symbol (.ofClass "S")]
  let after : List Event :=
    [.symbol ⟨.methodSymbol, ⟨"A::m()"⟩, "m", some 7, some ⟨"A"⟩, 0, none⟩]
  have hevents : (cutShort.visit 7).events =
      before ++ .reference ⟨.superclass, 7, ⟨"S"⟩, ⟨"A"⟩, none⟩ :: after := by
    decide +kernel
  have hfault : (cutShort.visit 7).fault = some (.malformedDescriptor "()") := by
    decide +kernel
  exact ⟨hfault, before, after, hevents, (needs_of_visit cutShort 7 hevents).2⟩

end ClassAtlas
