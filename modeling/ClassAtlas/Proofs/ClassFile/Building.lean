import ClassAtlas.ClassFile.Build
import ClassAtlas.Code.Assembly
import ClassAtlas.Proofs.ClassFile.Writable
import ClassAtlas.Proofs.Pool.Interning
import ClassAtlas.Proofs.Renaming.Session

/-!
# Built class files

A class file is built from nothing by steps that add constants, interfaces, members with assembled bodies
and bootstrap methods. The pool refuses what it has no slot for, but the other tables accept everything,
and of the length of a table that is too long only a residue is written. So a class file that was built
reads back if and only if its tables fit their counts, and the index that is returned for a bootstrap
method is its position modulo `2 ^ 16`.

## Main definitions

* `ClassAtlas.BuildStep`, `ClassAtlas.ClassFile.build` — building by steps, all of which succeed.
* `ClassAtlas.ClassFile.IsBuilt` — what holds of a class file after each step.
* `ClassAtlas.ClassFile.TablesFit` — tables that are not too long.

## Main results

* `ClassAtlas.ClassFile.isBuilt_of_build` — every class file that is built.
* `ClassAtlas.ClassFile.decode_encode_of_build` — which of them read back, and where their bootstrap methods
  are.
* `ClassAtlas.ClassFile.exists_build_unreadable` — one that does not read back.
-/

set_option autoImplicit false

namespace ClassAtlas

open Bytes

/-! ### Pools -/

namespace Pool

lemma wellFormed_empty : empty.WellFormed :=
  ⟨⟨[], rfl, trivial⟩, by decide, by simp [empty]⟩

/-- Whatever a pool is asked for, texts and classes resolve afterwards. -/
lemma Request.sustaining_add (request : Request) : Sustaining request.add fun _ _ => True := by
  have hintern {c : Constant} (hc : c.isWide = false) (hf : c.Fits) :
      Sustaining (intern c) fun _ _ => True := (sustaining_intern hc hf).weaken
  have hclass (name : String) : Sustaining (internClass name) fun _ _ => True :=
    (sustaining_internText name).bind fun _ => hintern rfl trivial
  cases request with
  | text value => exact (sustaining_internText value).weaken
  | integer value => exact hintern rfl trivial
  | classRef name => exact hclass name
  | string value => exact (sustaining_internText value).bind fun _ => hintern rfl trivial
  | nameAndType name descriptor => exact sustaining_internNameAndType name descriptor
  | member ref =>
    exact (hclass ref.owner).bind fun _ =>
      (sustaining_internNameAndType ref.name ref.descriptor).bind fun _ => hintern rfl trivial
  | methodHandle kind reference => exact hintern rfl trivial
  | methodType descriptor => exact (sustaining_internText descriptor).bind fun _ => hintern rfl trivial
  | invokeDynamic bootstrap name descriptor =>
    exact (sustaining_internNameAndType name descriptor).bind fun _ => hintern rfl trivial

/-- Adding a class. -/
lemma sustaining_internClass (name : String) :
    Sustaining (internClass name) fun pool i => pool.className i = .ok name := by
  intro pool hw
  obtain ⟨hs, -⟩ := (Request.classRef name).sustaining_add pool hw
  refine ⟨hs, fun i hi => ?_⟩
  have hfound := ((Request.classRef name).findsOrAdds.found_of_ok hw.size_le (Prod.ext hi rfl)).1
  exact Request.resolves_of_found? hs.wellFormed.size_le hfound

end Pool

/-! ### Members -/

/-- A member whose name and descriptor resolve. -/
def Member.IsNamed (pool : Pool) (m : Member) : Prop :=
  (∃ text, pool.text m.name = .ok text) ∧ ∃ text, pool.text m.descriptor = .ok text

lemma Member.IsNamed.of_sustains {pool pool' : Pool} {m : Member} (h : m.IsNamed pool)
    (hs : pool.Sustains pool') : m.IsNamed pool' :=
  have ⟨⟨name, hname⟩, descriptor, hdescriptor⟩ := h
  ⟨⟨name, hs.text hname⟩, descriptor, hs.text hdescriptor⟩

/-! ### Building by steps -/

/-- A method body to be assembled. -/
structure BodyDraft where
  /-- The depth of the operand stack. -/
  maxStack : UInt16
  /-- The number of local variable slots. -/
  maxLocals : UInt16
  /-- The instructions. -/
  statements : List Statement
  deriving DecidableEq, Repr

/-- The body that is assembled. -/
def BodyDraft.body (draft : BodyDraft) : CodeBody :=
  ⟨draft.maxStack, draft.maxLocals, assemble draft.statements, [], []⟩

/-- A body that was assembled has two numbers before its instructions, which stand behind their number, and
two tables without entries after them. -/
lemma BodyDraft.length_encode_body (draft : BodyDraft) :
    draft.body.encode.length = (assemble draft.statements).length + 12 := by
  simp [BodyDraft.body, CodeBody.encode, table, Attribute.encodeList]
  omega

/-- Attributes that are nothing but a body that was assembled, if there is one. -/
def BodyDraft.AreAttributes (pool : Pool) (attributes : List Attribute) : Prop :=
  attributes = [] ∨ ∃ (index : UInt16) (draft : BodyDraft), pool.text index = .ok "Code" ∧
    attributes = [⟨index, .code draft.body⟩]

/-- A step of building a class file. -/
inductive BuildStep where
  /-- Asking the pool for a constant. -/
  | constant (request : Pool.Request)
  /-- Adding an interface. -/
  | interface (name : String)
  /-- Adding a field. -/
  | field (access : UInt16) (name descriptor : String)
  /-- Adding a method, possibly with a body. -/
  | method (access : UInt16) (name descriptor : String) (draft : Option BodyDraft)
  /-- Adding a bootstrap method. -/
  | bootstrap (method : BootstrapMethod)
  deriving DecidableEq, Repr

namespace ClassFile

/-- Bootstrap methods that were added, with the indices that were returned for them. -/
abbrev Registered := List (UInt16 × BootstrapMethod)

/-- Does a step, and returns the bootstrap method that it adds, if any, with its index. -/
def buildStep : BuildStep → Edit (Option (UInt16 × BootstrapMethod))
  | .constant request => do
    let _ ← onPool request.add
    return none
  | .interface name => do
    addInterface name
    return none
  | .field access name descriptor => do
    let _ ← addField access name descriptor
    return none
  | .method access name descriptor draft => do
    let _ ← addMethod access name descriptor (draft.map BodyDraft.body)
    return none
  | .bootstrap method => do
    return some (← addBootstrapMethod method, method)

/-- Does steps in turn until one fails. -/
def buildOnto (c : ClassFile) (registered : Registered) :
    List BuildStep → Except FormatError (ClassFile × Registered)
  | [] => .ok (c, registered)
  | step :: steps =>
    match buildStep step c with
    | (.ok added, c) => buildOnto c (registered ++ added.toList) steps
    | (.error cause, _) => .error cause

/-- The class file that is built by steps from a class without members. -/
def build (access : UInt16) (name : String) (superName : Option String) (steps : List BuildStep) :
    Except FormatError (ClassFile × Registered) := do
  buildOnto (← create access name superName) [] steps

/-! ### What a step does -/

section Steps

variable {α : Type} {c c' : ClassFile} {a : α} {access : UInt16} {name descriptor : String}
  {m : Member} {position : Nat} {draft : Option BodyDraft}

/-- An edit of the pool changes nothing else. -/
lemma of_onPool {edit : Pool.Edit α} {yields : Pool → α → Prop} (he : Pool.Sustaining edit yields)
    (hw : c.pool.WellFormed) (h : onPool edit c = (.ok a, c')) :
    ∃ pool, c' = { c with pool } ∧ c.pool.Sustains pool ∧ yields pool a := by
  obtain ⟨hs, hy⟩ := he c.pool hw
  obtain ⟨ha, rfl⟩ := Prod.mk.inj h
  exact ⟨_, rfl, hs, hy a ha⟩

lemma of_addInterface (hw : c.pool.WellFormed) (h : addInterface name c = (.ok (), c')) :
    ∃ pool index, c' = { c with pool, interfaces := c.interfaces ++ [index] } ∧
      c.pool.Sustains pool := by
  obtain ⟨index, _, hclass, h⟩ := Stateful.bind_eq_ok_iff.mp h
  obtain ⟨pool, rfl, hs, -⟩ := of_onPool (Pool.sustaining_internClass name) hw hclass
  exact ⟨pool, index, (Prod.mk.inj h).2.symm, hs⟩

lemma of_member (hw : c.pool.WellFormed) (h : member access name descriptor c = (.ok m, c')) :
    ∃ pool, c' = { c with pool } ∧ c.pool.Sustains pool ∧ m.IsNamed pool ∧ m.attributes = [] := by
  obtain ⟨n, _, hname, h⟩ := Stateful.bind_eq_ok_iff.mp h
  obtain ⟨middle, rfl, hs, hn⟩ := of_onPool (Pool.sustaining_internText name) hw hname
  obtain ⟨d, _, hdescriptor, h⟩ := Stateful.bind_eq_ok_iff.mp h
  obtain ⟨pool, rfl, hs', hd⟩ :=
    of_onPool (Pool.sustaining_internText descriptor) hs.wellFormed hdescriptor
  obtain ⟨rfl, rfl⟩ := Stateful.pure_eq_ok_iff.mp h
  exact ⟨pool, rfl, hs.trans hs', ⟨⟨name, hs'.text hn⟩, descriptor, hd⟩, rfl⟩

lemma of_addField (hw : c.pool.WellFormed)
    (h : addField access name descriptor c = (.ok position, c')) :
    ∃ pool m, c' = { c with pool, fields := c.fields ++ [m] } ∧ c.pool.Sustains pool ∧
      m.IsNamed pool ∧ m.attributes = [] := by
  obtain ⟨m, _, hmember, h⟩ := Stateful.bind_eq_ok_iff.mp h
  obtain ⟨pool, rfl, hs, hm⟩ := of_member hw hmember
  exact ⟨pool, m, (Prod.mk.inj h).2.symm, hs, hm⟩

lemma of_addMethod (hw : c.pool.WellFormed)
    (h : addMethod access name descriptor (draft.map BodyDraft.body) c = (.ok position, c')) :
    ∃ pool m, c' = { c with pool, methods := c.methods ++ [m] } ∧ c.pool.Sustains pool ∧
      m.IsNamed pool ∧ BodyDraft.AreAttributes pool m.attributes := by
  obtain ⟨m, _, hmember, h⟩ := Stateful.bind_eq_ok_iff.mp h
  obtain ⟨middle, rfl, hs, hm, -⟩ := of_member hw hmember
  cases draft with
  | none => exact ⟨middle, _, (Prod.mk.inj h).2.symm, hs, hm, .inl rfl⟩
  | some draft =>
    obtain ⟨index, _, hcode, h⟩ := Stateful.bind_eq_ok_iff.mp h
    obtain ⟨pool, rfl, hs', hindex⟩ :=
      of_onPool (Pool.sustaining_internText "Code") hs.wellFormed hcode
    exact ⟨pool, _, (Prod.mk.inj h).2.symm, hs.trans hs', hm.of_sustains hs',
      .inr ⟨index, draft, hindex, rfl⟩⟩

end Steps

/-! ### What holds after each step -/

/-- What holds of a class file after each step of building it: everything that has a name resolves, its
methods have no other attributes than assembled bodies, and the class file itself has none but the bootstrap
methods that were added, with the indices that were returned for them. -/
structure IsBuilt (c : ClassFile) (registered : Registered) : Prop where
  /-- The pool can be written. -/
  pool : c.pool.WellFormed
  /-- The name of the class resolves. -/
  name : ∃ name, c.name = .ok name
  /-- The fields have names and nothing else. -/
  fields : ∀ m ∈ c.fields, m.IsNamed c.pool ∧ m.attributes = []
  /-- The methods have names and bodies. -/
  methods : ∀ m ∈ c.methods, m.IsNamed c.pool ∧ BodyDraft.AreAttributes c.pool m.attributes
  /-- The bootstrap methods are those that were added. -/
  attributes : c.attributes = [] ∧ registered = [] ∨ ∃ index,
    c.pool.text index = .ok "BootstrapMethods" ∧
      c.attributes = [⟨index, .flat (.bootstrapMethods (registered.map Prod.snd))⟩]
  /-- The indices are the positions of the bootstrap methods, modulo `2 ^ 16`. -/
  indices : ∀ k p, registered[k]? = some p → p.1 = UInt16.ofNat k

namespace IsBuilt

variable {c c' : ClassFile} {registered : Registered} {pool' : Pool}
  {access : UInt16} {name : String} {superName : Option String} {step : BuildStep}
  {added : Option (UInt16 × BootstrapMethod)} {steps : List BuildStep} {m : Member}
  {method : BootstrapMethod}

/-- The class without members. -/
lemma of_create (h : create access name superName = .ok c) : c.IsBuilt [] := by
  obtain ⟨hs, hname⟩ := Pool.sustaining_internClass name .empty Pool.wellFormed_empty
  unfold create at h
  dsimp only at h
  split at h
  next thisClass superClass pool hrun =>
    obtain rfl := Except.ok.inj h
    obtain ⟨i, middle, hthis, hrest⟩ := Stateful.bind_eq_ok_iff.mp hrun
    rw [hthis] at hs hname
    have hend : middle.Sustains pool ∧ i = thisClass := by
      cases superName with
      | none =>
        obtain ⟨hi, rfl⟩ := Prod.mk.inj hrest
        exact ⟨.refl hs.wellFormed, (Prod.mk.inj (Except.ok.inj hi)).1⟩
      | some superName =>
        obtain ⟨j, _, hsuper, hrest⟩ := Stateful.bind_eq_ok_iff.mp hrest
        obtain ⟨hi, rfl⟩ := Prod.mk.inj hrest
        obtain ⟨hs', -⟩ := Pool.sustaining_internClass superName middle hs.wellFormed
        rw [hsuper] at hs'
        exact ⟨hs', (Prod.mk.inj (Except.ok.inj hi)).1⟩
    obtain ⟨hs', rfl⟩ := hend
    exact ⟨hs'.wellFormed, hs'.className (hname i rfl), by simp, by simp, .inl ⟨rfl, rfl⟩, by simp⟩
  next => cases h

/-- A later stage of the pool. -/
lemma of_sustains (h : c.IsBuilt registered) (hs : c.pool.Sustains pool') :
    { c with pool := pool' }.IsBuilt registered := by
  refine ⟨hs.wellFormed, ?_, fun m hm => ?_, fun m hm => ?_, ?_, h.indices⟩
  · obtain ⟨name, hname⟩ := h.name
    exact hs.className hname
  · exact ⟨(h.fields m hm).1.of_sustains hs, (h.fields m hm).2⟩
  · obtain ⟨hm, hnone | ⟨index, draft, hindex, hdraft⟩⟩ := h.methods m hm
    · exact ⟨hm.of_sustains hs, .inl hnone⟩
    · exact ⟨hm.of_sustains hs, .inr ⟨index, draft, hs.text hindex, hdraft⟩⟩
  · obtain hnone | ⟨index, hindex, htable⟩ := h.attributes
    · exact .inl hnone
    · exact .inr ⟨index, hs.text hindex, htable⟩

lemma append_field (h : c.IsBuilt registered) (hm : m.IsNamed c.pool) (hnone : m.attributes = []) :
    { c with fields := c.fields ++ [m] }.IsBuilt registered :=
  { h with
    fields := List.forall_mem_append.mpr ⟨h.fields, List.forall_mem_singleton.mpr ⟨hm, hnone⟩⟩ }

lemma append_method (h : c.IsBuilt registered) (hm : m.IsNamed c.pool)
    (hdraft : BodyDraft.AreAttributes c.pool m.attributes) :
    { c with methods := c.methods ++ [m] }.IsBuilt registered :=
  { h with
    methods := List.forall_mem_append.mpr ⟨h.methods, List.forall_mem_singleton.mpr ⟨hm, hdraft⟩⟩ }

/-- A bootstrap method behind those that were added. -/
lemma append_bootstrap (h : c.IsBuilt registered) {index : UInt16}
    (hindex : c.pool.text index = .ok "BootstrapMethods") :
    { c with attributes := [⟨index, .flat (.bootstrapMethods (registered.map Prod.snd ++ [method]))⟩] }.IsBuilt
      (registered ++ [(UInt16.ofNat registered.length, method)]) := by
  refine { h with
    attributes := .inr ⟨index, hindex, by rw [List.map_append]; rfl⟩
    indices := fun k p hp => ?_ }
  rw [List.getElem?_append] at hp
  split_ifs at hp with hk
  · exact h.indices k p hp
  · obtain ⟨hlt, rfl⟩ := List.getElem?_eq_some_iff.mp hp
    obtain rfl : k = registered.length := by simp at hlt; omega
    simp

/-- **Adding a bootstrap method.** -/
lemma of_addBootstrapMethod (h : c.IsBuilt registered) {index : UInt16}
    (hrun : addBootstrapMethod method c = (.ok index, c')) :
    c'.IsBuilt (registered ++ [(index, method)]) := by
  obtain ⟨_, _, hget, hrun⟩ := Stateful.bind_eq_ok_iff.mp hrun
  obtain ⟨rfl, rfl⟩ := Stateful.pure_eq_ok_iff.mp hget
  obtain ⟨hnone, rfl⟩ | ⟨name, hname, htable⟩ := h.attributes
  · -- the table is added with its first entry
    rw [hnone] at hrun
    obtain ⟨name, _, hintern, hrun⟩ := Stateful.bind_eq_ok_iff.mp hrun
    obtain ⟨pool, rfl, hs, hname⟩ :=
      of_onPool (Pool.sustaining_internText "BootstrapMethods") h.pool hintern
    obtain ⟨hindex, rfl⟩ := Prod.mk.inj hrun
    obtain rfl := Except.ok.inj hindex
    simpa [hnone] using (h.of_sustains hs).append_bootstrap hname
  · rw [htable] at hrun
    obtain ⟨hindex, rfl⟩ := Prod.mk.inj hrun
    obtain rfl := Except.ok.inj hindex
    rw [List.length_map]
    exact h.append_bootstrap hname

/-- **A step** that succeeds. -/
theorem of_buildStep (h : c.IsBuilt registered) (hstep : buildStep step c = (.ok added, c')) :
    c'.IsBuilt (registered ++ added.toList) := by
  -- but for bootstrap methods a step adds to the class file and registers nothing
  cases step with
  | constant request =>
    obtain ⟨_, _, hrequest, hend⟩ := Stateful.bind_eq_ok_iff.mp hstep
    obtain ⟨pool, rfl, hs, -⟩ := of_onPool request.sustaining_add h.pool hrequest
    obtain ⟨rfl, rfl⟩ := Stateful.pure_eq_ok_iff.mp hend
    simpa using h.of_sustains hs
  | interface name =>
    obtain ⟨_, _, hinterface, hend⟩ := Stateful.bind_eq_ok_iff.mp hstep
    obtain ⟨pool, index, rfl, hs⟩ := of_addInterface h.pool hinterface
    obtain ⟨rfl, rfl⟩ := Stateful.pure_eq_ok_iff.mp hend
    rw [Option.toList_none, List.append_nil]
    exact { h.of_sustains hs with }
  | field access name descriptor =>
    obtain ⟨_, _, hfield, hend⟩ := Stateful.bind_eq_ok_iff.mp hstep
    obtain ⟨pool, m, rfl, hs, hm, hnone⟩ := of_addField h.pool hfield
    obtain ⟨rfl, rfl⟩ := Stateful.pure_eq_ok_iff.mp hend
    simpa using (h.of_sustains hs).append_field hm hnone
  | method access name descriptor draft =>
    obtain ⟨_, _, hmethod, hend⟩ := Stateful.bind_eq_ok_iff.mp hstep
    obtain ⟨pool, m, rfl, hs, hm, hdraft⟩ := of_addMethod h.pool hmethod
    obtain ⟨rfl, rfl⟩ := Stateful.pure_eq_ok_iff.mp hend
    simpa using (h.of_sustains hs).append_method hm hdraft
  | bootstrap method =>
    obtain ⟨index, _, hbootstrap, hend⟩ := Stateful.bind_eq_ok_iff.mp hstep
    obtain ⟨rfl, rfl⟩ := Stateful.pure_eq_ok_iff.mp hend
    exact h.of_addBootstrapMethod hbootstrap

/-- **Steps in turn** that succeed. -/
theorem of_buildOnto {result : ClassFile × Registered} (h : c.IsBuilt registered)
    (hsteps : buildOnto c registered steps = .ok result) : result.1.IsBuilt result.2 := by
  induction steps generalizing c registered with
  | nil =>
    obtain rfl := Except.ok.inj hsteps
    exact h
  | cons step steps ih =>
    rw [buildOnto] at hsteps
    rcases hstep : buildStep step c with ⟨cause | added, middle⟩
    all_goals rw [hstep] at hsteps
    · cases hsteps
    · exact ih (h.of_buildStep hstep) hsteps

end IsBuilt

/-- Every class file that is built. -/
theorem isBuilt_of_build {access : UInt16} {name : String} {superName : Option String}
    {steps : List BuildStep} {result : ClassFile × Registered}
    (h : build access name superName steps = .ok result) : result.1.IsBuilt result.2 := by
  rw [build] at h
  rcases hcreate : create access name superName with cause | c
  all_goals rw [hcreate] at h
  · cases h
  · exact (IsBuilt.of_create hcreate).of_buildOnto h

/-! ### Reading back -/

/-- Tables that are not too long for what a class file says of their length. -/
structure TablesFit (c : ClassFile) : Prop where
  /-- The number of interfaces fits a two-byte word. -/
  interfaces_lt : c.interfaces.length < 65536
  /-- The number of fields fits a two-byte word. -/
  fields_lt : c.fields.length < 65536
  /-- The number of methods fits a two-byte word. -/
  methods_lt : c.methods.length < 65536
  /-- The length of every body fits a four-byte word. -/
  bodies : ∀ m ∈ c.methods, ∀ body ∈ Attribute.code? m.attributes, body.encode.length < 2 ^ 32
  /-- The number of bootstrap methods fits a two-byte word. -/
  bootstraps_lt : (Attribute.bootstrapMethodsOf c.attributes).length < 65536
  /-- The number of arguments of every bootstrap method fits a two-byte word. -/
  arguments_lt : ∀ m ∈ Attribute.bootstrapMethodsOf c.attributes, m.arguments.length < 65536
  /-- The length of all bootstrap methods fits a four-byte word. -/
  bootstraps : (FlatBody.bootstrapMethods (Attribute.bootstrapMethodsOf c.attributes)).encode.length < 2 ^ 32

/-- The class files that read back are the well-formed ones. -/
lemma decode_encode_eq_ok_iff {c : ClassFile} : decode c.encode = .ok c ↔ c.Writable :=
  ⟨fun h => wellFormed_iff_writable.mp (wellFormed_of_decode h),
    fun h => decode_encode (wellFormed_iff_writable.mpr h)⟩

namespace IsBuilt

variable {c : ClassFile} {registered : Registered} {m : Member}

lemma bootstrapMethodsOf_eq (h : c.IsBuilt registered) :
    Attribute.bootstrapMethodsOf c.attributes = registered.map Prod.snd := by
  obtain ⟨hnone, rfl⟩ | ⟨index, -, htable⟩ := h.attributes
  · rw [hnone]
    rfl
  · rw [htable]
    rfl

/-- A method can be written if its body can. -/
lemma writable_method_iff (h : c.IsBuilt registered) (hm : m ∈ c.methods) :
    m.Writable c.pool ↔ ∀ body ∈ Attribute.code? m.attributes, body.encode.length < 2 ^ 32 := by
  obtain ⟨⟨hname, hdescriptor⟩, hnone | ⟨index, draft, hindex, hdraft⟩⟩ := h.methods m hm
  · refine iff_of_true ⟨hname, hdescriptor, by simp [hnone], by simp [hnone]⟩ ?_
    rw [hnone]
    rintro body ⟨⟩
  · have hcode : Attribute.code? m.attributes = some draft.body := by
      rw [hdraft]
      rfl
    constructor
    · rintro hw body hbody
      obtain rfl := Option.some.inj (hcode.symm.trans hbody)
      have hattribute := hw.attributes _ (hdraft ▸ List.mem_singleton_self _)
      cases hattribute with
      | code _ _ _ _ _ length_lt => exact length_lt
    · intro hbodies
      have hlength := hbodies _ hcode
      have hlt : (assemble draft.statements).length < 2 ^ 32 := by
        rw [draft.length_encode_body] at hlength
        omega
      refine ⟨hname, hdescriptor, by simp [hdraft], fun a ha => ?_⟩
      rw [hdraft] at ha
      obtain rfl := List.mem_singleton.mp ha
      exact .code hindex hlt (by simp [BodyDraft.body]) (by simp [BodyDraft.body])
        (by simp [BodyDraft.body]) hlength

/-- The attributes can be written if the table of bootstrap methods can. -/
lemma writable_attributes_iff (h : c.IsBuilt registered) :
    (∀ a ∈ c.attributes, a.Writable c.pool) ↔
      (FlatBody.bootstrapMethods (Attribute.bootstrapMethodsOf c.attributes)).Writable ∧
        (FlatBody.bootstrapMethods (Attribute.bootstrapMethodsOf c.attributes)).encode.length < 2 ^ 32 := by
  rw [h.bootstrapMethodsOf_eq]
  obtain ⟨hnone, rfl⟩ | ⟨index, hindex, htable⟩ := h.attributes
  · rw [hnone]
    simp [FlatBody.Writable, FlatBody.encode, table]
  · rw [htable]
    constructor
    · intro hw
      cases hw _ (List.mem_singleton_self _) with
      | flat _ _ fits length_lt => exact ⟨fits, length_lt⟩
    · rintro ⟨fits, length_lt⟩ a ha
      obtain rfl := List.mem_singleton.mp ha
      exact .flat hindex rfl fits length_lt

/-- **What was built can be written if and only if its tables fit.** -/
theorem writable_iff_tablesFit (h : c.IsBuilt registered) : c.Writable ↔ c.TablesFit := by
  constructor
  · intro hw
    obtain ⟨⟨hcount, harguments⟩, hbytes⟩ := h.writable_attributes_iff.mp hw.attributes
    exact ⟨hw.interfaces_lt, hw.fields_lt, hw.methods_lt,
      fun m hm => (h.writable_method_iff hm).mp (hw.methods m hm), hcount, harguments, hbytes⟩
  · intro hfit
    have hattributes : c.attributes.length < 65536 := by
      obtain ⟨hnone, -⟩ | ⟨_, -, htable⟩ := h.attributes
      · simp [hnone]
      · simp [htable]
    refine ⟨Pool.wellFormed_iff_writable.mp h.pool, h.name, hfit.interfaces_lt, hfit.fields_lt,
      hfit.methods_lt, hattributes, fun m hm => ?_,
      fun m hm => (h.writable_method_iff hm).mpr (hfit.bodies m hm),
      h.writable_attributes_iff.mpr ⟨⟨hfit.bootstraps_lt, hfit.arguments_lt⟩, hfit.bootstraps⟩⟩
    obtain ⟨⟨hname, hdescriptor⟩, hnone⟩ := h.fields m hm
    exact ⟨hname, hdescriptor, by simp [hnone], by simp [hnone]⟩

end IsBuilt

/-- **What was built reads back if and only if its tables fit.** The bootstrap methods are those that were
added, in order, and the index that was returned for one of them is its position modulo `2 ^ 16`. So every
index addresses its bootstrap method as long as there are no more than `2 ^ 16` of them. -/
theorem decode_encode_of_build {access : UInt16} {name : String} {superName : Option String}
    {steps : List BuildStep} {c : ClassFile} {registered : Registered}
    (h : build access name superName steps = .ok (c, registered)) :
    (decode c.encode = .ok c ↔ c.TablesFit) ∧
    (∀ k p, registered[k]? = some p → p.1 = UInt16.ofNat k ∧
      (Attribute.bootstrapMethodsOf c.attributes)[k]? = some p.2) ∧
    (registered.length ≤ 65536 → ∀ p ∈ registered,
      (Attribute.bootstrapMethodsOf c.attributes)[p.1.toNat]? = some p.2) := by
  have hbuilt : c.IsBuilt registered := isBuilt_of_build h
  have hpositions {k : Nat} {p : UInt16 × BootstrapMethod} (hp : registered[k]? = some p) :
      (Attribute.bootstrapMethodsOf c.attributes)[k]? = some p.2 := by
    rw [hbuilt.bootstrapMethodsOf_eq, List.getElem?_map, hp]
    rfl
  refine ⟨decode_encode_eq_ok_iff.trans hbuilt.writable_iff_tablesFit,
    fun k p hp => ⟨hbuilt.indices k p hp, hpositions hp⟩, fun hle p hp => ?_⟩
  obtain ⟨k, hk⟩ := List.mem_iff_getElem?.mp hp
  have hlt : k < 65536 := (List.getElem?_eq_some_iff.mp hk).1.trans_le hle
  rw [hbuilt.indices k p hk, UInt16.toNat_ofNat_of_lt' hlt]
  exact hpositions hk

/-- A class file with an interface, a field, a method with a body and two bootstrap methods. -/
def builtClass : ClassFile :=
  ⟨0, 52, ⟨#[none, some (.text "A"), some (.classRef 1), some (.text "B"), some (.classRef 3),
    some (.text "I"), some (.classRef 5), some (.text "f"), some (.text "m"), some (.text "()V"),
    some (.text "Code"), some (.text "BootstrapMethods"), some (.integer 7)]⟩, 33, 2, 4, [6],
    [⟨1, 7, 5, []⟩], [⟨1, 8, 9, [⟨10, .code ⟨1, 1, [0xB1], [], []⟩⟩]⟩],
    [⟨11, .flat (.bootstrapMethods [⟨7, [1]⟩, ⟨8, []⟩])⟩]⟩

/-- It is built, reads back, and each index addresses its bootstrap method. -/
theorem decode_encode_builtClass :
    build 33 "A" (some "B") [.interface "I", .field 1 "f" "I",
      .method 1 "m" "()V" (some ⟨1, 1, [.plain 0xB1]⟩), .bootstrap ⟨7, [1]⟩, .constant (.integer 7),
      .bootstrap ⟨8, []⟩] = .ok (builtClass, [(0, ⟨7, [1]⟩), (1, ⟨8, []⟩)]) ∧
    decode builtClass.encode = .ok builtClass ∧
    ∀ p ∈ [((0 : UInt16), (⟨7, [1]⟩ : BootstrapMethod)), (1, ⟨8, []⟩)],
      (Attribute.bootstrapMethodsOf builtClass.attributes)[p.1.toNat]? = some p.2 := by
  have hbuild : build 33 "A" (some "B") [.interface "I", .field 1 "f" "I",
      .method 1 "m" "()V" (some ⟨1, 1, [.plain 0xB1]⟩), .bootstrap ⟨7, [1]⟩, .constant (.integer 7),
      .bootstrap ⟨8, []⟩] = .ok (builtClass, [(0, ⟨7, [1]⟩), (1, ⟨8, []⟩)]) := by decide +kernel
  obtain ⟨hread, -, hindices⟩ := decode_encode_of_build hbuild
  refine ⟨hbuild, hread.mpr ⟨by decide, by decide, by decide, ?_, by decide, by decide, by decide⟩,
    hindices (by decide)⟩
  decide +kernel

/-! ### Tables that are too long -/

/-- A class file with nothing but its name. -/
def bareClass : ClassFile :=
  ⟨0, 52, ⟨#[none, some (.text "A"), some (.classRef 1)]⟩, 0, 2, 0, [], [], [], []⟩

/-- The same class file with a bootstrap method. -/
def bareClassWith (method : BootstrapMethod) : ClassFile :=
  { bareClass with
    pool := ⟨bareClass.pool.slots.push (some (.text "BootstrapMethods"))⟩
    attributes := [⟨3, .flat (.bootstrapMethods [method])⟩] }

/-- Every bootstrap method is accepted. -/
lemma build_bareClassWith (method : BootstrapMethod) :
    build 0 "A" none [.bootstrap method] = .ok (bareClassWith method, [(0, method)]) := by
  have hcreate : create 0 "A" none = .ok bareClass := by decide +kernel
  have hname : Pool.internText "BootstrapMethods" bareClass.pool =
      (.ok 3, ⟨bareClass.pool.slots.push (some (.text "BootstrapMethods"))⟩) :=
    Prod.ext (by decide +kernel) (by decide +kernel)
  have hpool : onPool (Pool.internText "BootstrapMethods") bareClass =
      (.ok 3, { bareClass with pool := (bareClassWith method).pool }) := by
    rw [onPool, hname]
    rfl
  have hadd : addBootstrapMethod method bareClass = (.ok 0, bareClassWith method) :=
    Stateful.bind_eq_ok_iff.mpr ⟨_, _, rfl, Stateful.bind_eq_ok_iff.mpr ⟨3, _, hpool, rfl⟩⟩
  have hstep : buildStep (.bootstrap method) bareClass = (.ok (some (0, method)), bareClassWith method) :=
    Stateful.bind_eq_ok_iff.mpr ⟨0, _, hadd, rfl⟩
  show (create 0 "A" none).bind (fun c => buildOnto c [] [.bootstrap method]) = _
  rw [hcreate, Except.bind, buildOnto, hstep]
  rfl

/-- **A table that is too long.** The one bootstrap method of this class file has `2 ^ 16` arguments. Adding it
succeeds, and the class file does not read back. -/
theorem exists_build_unreadable :
    ∃ c registered, build 0 "A" none [.bootstrap ⟨0, List.replicate 65536 0⟩] = .ok (c, registered) ∧
      decode c.encode ≠ .ok c := by
  refine ⟨_, _, build_bareClassWith _, fun hread => ?_⟩
  have hwritable := decode_encode_eq_ok_iff.mp hread
  have hfit := (isBuilt_of_build (build_bareClassWith _)).writable_iff_tablesFit.mp hwritable
  have hlt := hfit.arguments_lt _ (List.mem_singleton_self _)
  rw [List.length_replicate] at hlt
  exact absurd hlt (by decide)

end ClassFile

end ClassAtlas
