import Mathlib
import ClassAtlas.Proofs.ClassFile.BodyCodec
import ClassAtlas.Proofs.Outcome
import ClassAtlas.Proofs.Pool.Layout

/-!
# Class files and their bytes

A class file that can be written has tables and bodies whose lengths fit their words, and its
attributes have the shapes that their names ask for. Readers of attributes and members accept
exactly the bytes of such parts. Of the pool they accept more, because texts have several spellings,
so for class files there are two theorems: what is written reads back, and what is read can be
written.

## Main definitions

* `ClassAtlas.Attribute.Fits`, `ClassAtlas.Member.Fits` — parts that can be written.
* `ClassAtlas.ClassFile.WellFormed` — class files that can be written.

## Main results

* `ClassAtlas.Attribute.read_eq_ok_iff` — readers of attributes accept their bytes.
* `ClassAtlas.ClassFile.decode_encode` — a well-formed class file reads back from its bytes.
* `ClassAtlas.ClassFile.wellFormed_of_decode` — every class file that is read is well formed.
-/

set_option autoImplicit false

namespace ClassAtlas

open Bytes

/-! ### Attributes -/

/-- A method body that can be written if `inner` says so of its attributes. -/
structure CodeBody.FitsOver (inner : Attribute → Prop) (body : CodeBody) : Prop where
  /-- The length of the code fits a four-byte word. -/
  code_lt : body.code.length < 2 ^ 32
  /-- The number of handlers fits a two-byte word. -/
  handlers_lt : body.handlers.length < 65536
  /-- The number of attributes fits a two-byte word. -/
  attributes_lt : body.attributes.length < 65536
  /-- The attributes can be written. -/
  attributes : ∀ a ∈ body.attributes, inner a

/-- A component of a record that can be written if `inner` says so of its attributes. -/
structure RecordComponent.FitsOver (pool : Pool) (inner : Attribute → Prop) (c : RecordComponent) :
    Prop where
  /-- The descriptor resolves. -/
  descriptor : ∃ text, pool.text c.descriptor = .ok text
  /-- The number of attributes fits a two-byte word. -/
  attributes_lt : c.attributes.length < 65536
  /-- The attributes can be written. -/
  attributes : ∀ a ∈ c.attributes, inner a

/-- The body of an attribute of the given name that can be written if `inner` says so of the
attributes inside it. -/
def AttributeBody.FitsOver (pool : Pool) (inner : Attribute → Prop) (name : String) :
    AttributeBody → Prop
  | flat body => body.NamedBy name ∧ body.Fits (body.encode.length + 1)
  | code body => name = "Code" ∧ body.FitsOver inner
  | record components =>
    name = "Record" ∧ components.length < 65536 ∧ ∀ c ∈ components, c.FitsOver pool inner

/-- An attribute that nests at most to the given depth and can be written. -/
def Attribute.Fits (pool : Pool) : Nat → Attribute → Prop
  | 0 => fun _ => False
  | depth + 1 => fun a => a.body.encode.length < 2 ^ 32 ∧
    ∃ name, pool.text a.name = .ok name ∧ a.body.FitsOver pool (Fits pool depth) name

section Attributes

variable {pool : Pool} {inner : Reader Attribute} {valid : Attribute → Prop}
  {bytes rest : List UInt8}
  (h : ∀ {bytes a rest}, inner bytes = .ok (a, rest) ↔ valid a ∧ bytes = a.encode ++ rest)

include h

lemma CodeBody.read_eq_ok_iff {body : CodeBody} :
    read inner bytes = .ok (body, rest) ↔ body.FitsOver valid ∧ bytes = body.encode ++ rest := by
  obtain ⟨maxStack, maxLocals, code, handlers, attributes⟩ := body
  simp only [read, encode_eq, Reader.bind_eq_ok_iff, Reader.u2_eq_ok_iff, Reader.u4_eq_ok_iff,
    Reader.slice_eq_ok_iff, Reader.table_eq_ok_iff ExceptionHandler.read_eq_ok_iff,
    Reader.table_eq_ok_iff h, Reader.pure_eq_ok_iff, mk.injEq, List.append_assoc]
  constructor
  · rintro ⟨_, _, rfl, _, _, rfl, n, _, rfl, _, _, ⟨hn, rfl⟩, _, _, ⟨⟨hh, -⟩, rfl⟩, _, _,
      ⟨⟨hl, ha⟩, rfl⟩, ⟨rfl, rfl, rfl, rfl, rfl⟩, rfl⟩
    refine ⟨⟨?_, hh, hl, ha⟩, by simp [hn]⟩
    rw [hn]
    exact n.toNat_lt
  · rintro ⟨⟨hc, hh, hl, ha⟩, rfl⟩
    exact ⟨_, _, rfl, _, _, rfl, _, _, rfl, _, _, ⟨(UInt32.toNat_ofNat_of_lt' hc).symm, rfl⟩, _, _,
      ⟨⟨hh, fun _ _ => trivial⟩, rfl⟩, _, _, ⟨⟨hl, ha⟩, rfl⟩, ⟨rfl, rfl, rfl, rfl, rfl⟩, rfl⟩

lemma RecordComponent.read_eq_ok_iff {c : RecordComponent} :
    read pool inner bytes = .ok (c, rest) ↔ c.FitsOver pool valid ∧ bytes = c.encode ++ rest := by
  obtain ⟨name, descriptor, attributes⟩ := c
  simp only [read, encode_eq, Reader.bind_eq_ok_iff, Reader.u2_eq_ok_iff,
    Reader.ofExcept_eq_ok_iff, Reader.table_eq_ok_iff h, Reader.pure_eq_ok_iff, mk.injEq,
    List.append_assoc]
  constructor
  · rintro ⟨_, _, rfl, _, _, rfl, text, _, ⟨ht, rfl⟩, _, _, ⟨⟨hl, ha⟩, rfl⟩, ⟨rfl, rfl, rfl⟩, rfl⟩
    exact ⟨⟨⟨text, ht⟩, hl, ha⟩, rfl⟩
  · rintro ⟨⟨⟨text, ht⟩, hl, ha⟩, rfl⟩
    exact ⟨_, _, rfl, _, _, rfl, text, _, ⟨ht, rfl⟩, _, _, ⟨⟨hl, ha⟩, rfl⟩, ⟨rfl, rfl, rfl⟩, rfl⟩

/-- The body of an attribute is read from exactly the bytes of a body of the shape that the name
asks for. -/
lemma AttributeBody.ofBytes_eq_ok_iff {name : String} {body : AttributeBody} :
    ofBytes pool inner name bytes = .ok body ↔
      body.FitsOver pool valid name ∧ bytes = body.encode := by
  unfold ofBytes
  split_ifs with hc hr
  · simp only [Except.map_eq_ok_iff, Reader.complete_eq_ok_iff, CodeBody.read_eq_ok_iff h,
      List.append_nil]
    constructor
    · rintro ⟨code, ⟨hv, rfl⟩, rfl⟩
      exact ⟨⟨hc, hv⟩, rfl⟩
    · cases body with
      | flat body => exact fun hf => (FlatBody.not_namedBy_code (hc ▸ hf.1.1)).elim
      | code code =>
        rintro ⟨⟨-, hv⟩, rfl⟩
        exact ⟨code, ⟨hv, rfl⟩, rfl⟩
      | record components => exact fun hf => absurd (hc.symm.trans hf.1.1) (by decide)
  · simp only [Except.map_eq_ok_iff, Reader.complete_eq_ok_iff, List.append_nil,
      Reader.table_eq_ok_iff (RecordComponent.read_eq_ok_iff h)]
    constructor
    · rintro ⟨components, ⟨hv, rfl⟩, rfl⟩
      exact ⟨⟨hr, hv⟩, (encode_record components).symm⟩
    · cases body with
      | flat body => exact fun hf => (FlatBody.not_namedBy_record (hr ▸ hf.1.1)).elim
      | code code => exact fun hf => absurd hf.1.1 hc
      | record components =>
        rintro ⟨⟨-, hv⟩, rfl⟩
        exact ⟨components, ⟨hv, encode_record components⟩, rfl⟩
  · cases hreader : FlatBody.reader? name (bytes.length + 1) with
    | none =>
      simp only [Except.ok.injEq]
      constructor
      · rintro rfl
        exact ⟨⟨⟨hc, hr, FlatBody.reader?_eq_none_iff.mp hreader⟩, trivial⟩, rfl⟩
      · cases body with
        | flat body =>
          rintro ⟨⟨hn, -⟩, rfl⟩
          exact congrArg _ (FlatBody.eq_raw_of_namedBy hreader hn).symm
        | code code => exact fun hf => absurd hf.1.1 hc
        | record components => exact fun hf => absurd hf.1.1 hr
    | some reader =>
      simp only [Except.map_eq_ok_iff, Reader.complete_eq_ok_iff, List.append_nil,
        FlatBody.read_eq_ok_iff hreader]
      constructor
      · rintro ⟨flat, ⟨⟨hn, hv⟩, hb⟩, rfl⟩
        exact ⟨⟨hn, hb ▸ hv⟩, hb⟩
      · cases body with
        | flat body =>
          rintro ⟨⟨hn, hv⟩, hb⟩
          have hb : bytes = body.encode := hb
          exact ⟨body, ⟨⟨hn, hb ▸ hv⟩, hb⟩, rfl⟩
        | code code => exact fun hf => absurd hf.1.1 hc
        | record components => exact fun hf => absurd hf.1.1 hr

end Attributes

/-- **Readers of attributes** accept exactly the bytes of attributes of at most the given depth. -/
theorem Attribute.read_eq_ok_iff {pool : Pool} {depth : Nat} {a : Attribute}
    {bytes rest : List UInt8} :
    read pool depth bytes = .ok (a, rest) ↔ a.Fits pool depth ∧ bytes = a.encode ++ rest := by
  induction depth generalizing a bytes rest with
  | zero => simp [read, Fits]
  | succ depth ih =>
    obtain ⟨name, body⟩ := a
    simp only [read, Fits, encode_mk, Reader.bind_eq_ok_iff, Reader.u2_eq_ok_iff,
      Reader.u4_eq_ok_iff, Reader.slice_eq_ok_iff, Reader.ofExcept_eq_ok_iff,
      AttributeBody.ofBytes_eq_ok_iff ih, Reader.pure_eq_ok_iff, mk.injEq, List.append_assoc]
    constructor
    · rintro ⟨_, _, rfl, n, _, rfl, _, _, ⟨hn, rfl⟩, text, _, ⟨ht, rfl⟩, _, _, ⟨⟨hv, rfl⟩, rfl⟩,
        ⟨rfl, rfl⟩, rfl⟩
      refine ⟨⟨?_, text, ht, hv⟩, by simp [hn]⟩
      rw [hn]
      exact n.toNat_lt
    · rintro ⟨⟨hl, text, ht, hv⟩, rfl⟩
      exact ⟨_, _, rfl, _, _, rfl, _, _, ⟨(UInt32.toNat_ofNat_of_lt' hl).symm, rfl⟩, text, _,
        ⟨ht, rfl⟩, _, _, ⟨⟨hv, rfl⟩, rfl⟩, ⟨rfl, rfl⟩, rfl⟩

/-! ### The depth of attributes -/

lemma AttributeBody.FitsOver.mono {pool : Pool} {inner inner' : Attribute → Prop} {name : String}
    {body : AttributeBody} (h : ∀ a, inner a → inner' a) (hb : body.FitsOver pool inner name) :
    body.FitsOver pool inner' name := by
  cases body with
  | flat body => exact hb
  | code body =>
    obtain ⟨hn, hc, hh, hl, ha⟩ := hb
    exact ⟨hn, hc, hh, hl, fun a hm => h a (ha a hm)⟩
  | record components =>
    obtain ⟨hn, hl, hc⟩ := hb
    refine ⟨hn, hl, fun c hm => ⟨(hc c hm).descriptor, (hc c hm).attributes_lt, ?_⟩⟩
    exact fun a ha => h a ((hc c hm).attributes a ha)

/-- An attribute of at most some depth has at most any greater one. -/
lemma Attribute.Fits.mono {pool : Pool} {d d' : Nat} {a : Attribute} (hd : d ≤ d')
    (h : a.Fits pool d) : a.Fits pool d' := by
  induction d generalizing a d' with
  | zero => exact h.elim
  | succ d ih =>
    cases d' with
    | zero => omega
    | succ d' =>
      obtain ⟨hl, name, hn, hb⟩ := h
      exact ⟨hl, name, hn, hb.mono fun a ha => ih (by omega) ha⟩

@[simp]
lemma Attribute.length_encode (a : Attribute) : a.encode.length = a.body.encode.length + 6 := by
  obtain ⟨name, body⟩ := a
  simp only [encode_mk, List.length_append, length_u2, length_u4]
  omega

/-- The depth of an attribute is at most the number of its bytes. -/
lemma Attribute.Fits.length_encode {pool : Pool} {d : Nat} {a : Attribute} (h : a.Fits pool d) :
    a.Fits pool a.encode.length := by
  induction a using Attribute.induction generalizing d with
  | flat name body =>
    cases d with
    | zero => exact h.elim
    | succ d =>
      rw [Attribute.length_encode]
      exact h
  | code name body ih =>
    cases d with
    | zero => exact h.elim
    | succ d =>
      rw [Attribute.length_encode]
      obtain ⟨hl, text, ht, hn, hb⟩ := h
      refine ⟨hl, text, ht, hn, hb.code_lt, hb.handlers_lt, hb.attributes_lt, fun a ha => ?_⟩
      refine (ih a ha (hb.attributes a ha)).mono ?_
      have hle := length_encode_le_flatMap encode ha
      simp only [AttributeBody.encode, CodeBody.encode_eq, table, List.length_append]
      omega
  | record name components ih =>
    cases d with
    | zero => exact h.elim
    | succ d =>
      rw [Attribute.length_encode]
      obtain ⟨hl, text, ht, hn, hs, hc⟩ := h
      refine ⟨hl, text, ht, hn, hs, fun c hm => ?_⟩
      refine ⟨(hc c hm).descriptor, (hc c hm).attributes_lt, fun a ha => ?_⟩
      refine (ih c hm a ha ((hc c hm).attributes a ha)).mono ?_
      have hle := length_encode_le_flatMap encode ha
      have hle' := length_encode_le_flatMap RecordComponent.encode hm
      simp only [AttributeBody.encode_record, RecordComponent.encode_eq, table,
        List.length_append] at hle' ⊢
      omega

/-! ### Members and class files -/

/-- A member that can be written, whose attributes nest at most to the given depth. -/
structure Member.Fits (pool : Pool) (depth : Nat) (m : Member) : Prop where
  /-- The name resolves. -/
  name : ∃ text, pool.text m.name = .ok text
  /-- The descriptor resolves. -/
  descriptor : ∃ text, pool.text m.descriptor = .ok text
  /-- The number of attributes fits a two-byte word. -/
  attributes_lt : m.attributes.length < 65536
  /-- The attributes can be written. -/
  attributes : ∀ a ∈ m.attributes, a.Fits pool depth

/-- **Readers of members** accept exactly the bytes of members of at most the given depth. -/
theorem Member.read_eq_ok_iff {pool : Pool} {depth : Nat} {m : Member} {bytes rest : List UInt8} :
    read pool depth bytes = .ok (m, rest) ↔ m.Fits pool depth ∧ bytes = m.encode ++ rest := by
  obtain ⟨access, name, descriptor, attributes⟩ := m
  simp only [read, encode, Attribute.encodeTable, Reader.bind_eq_ok_iff, Reader.u2_eq_ok_iff,
    Reader.ofExcept_eq_ok_iff, Reader.table_eq_ok_iff Attribute.read_eq_ok_iff,
    Reader.pure_eq_ok_iff, mk.injEq, List.append_assoc]
  constructor
  · rintro ⟨_, _, rfl, _, _, rfl, _, _, rfl, t, _, ⟨ht, rfl⟩, d, _, ⟨hd, rfl⟩, _, _,
      ⟨⟨hl, ha⟩, rfl⟩, ⟨rfl, rfl, rfl, rfl⟩, rfl⟩
    exact ⟨⟨⟨t, ht⟩, ⟨d, hd⟩, hl, ha⟩, rfl⟩
  · rintro ⟨⟨⟨t, ht⟩, ⟨d, hd⟩, hl, ha⟩, rfl⟩
    exact ⟨_, _, rfl, _, _, rfl, _, _, rfl, t, _, ⟨ht, rfl⟩, d, _, ⟨hd, rfl⟩, _, _,
      ⟨⟨hl, ha⟩, rfl⟩, ⟨rfl, rfl, rfl, rfl⟩, rfl⟩

/-- The depth of the attributes of a member is at most the number of its bytes. -/
lemma Member.Fits.length_encode {pool : Pool} {d : Nat} {m : Member} (h : m.Fits pool d) :
    m.Fits pool m.encode.length := by
  refine ⟨h.name, h.descriptor, h.attributes_lt, fun a ha => ?_⟩
  refine ((h.attributes a ha).length_encode).mono ?_
  have hle := length_encode_le_flatMap Attribute.encode ha
  simp only [encode, Attribute.encodeTable, table, List.length_append]
  omega

lemma Member.Fits.mono {pool : Pool} {d d' : Nat} {m : Member} (hd : d ≤ d')
    (h : m.Fits pool d) : m.Fits pool d' :=
  ⟨h.name, h.descriptor, h.attributes_lt, fun a ha => (h.attributes a ha).mono hd⟩

namespace ClassFile

/-- A class file that can be written, whatever its depth. -/
structure WellFormed (c : ClassFile) : Prop where
  /-- The pool can be written. -/
  pool : c.pool.WellFormed
  /-- The name of the class resolves. -/
  name : ∃ name, c.name = .ok name
  /-- The number of interfaces fits a two-byte word. -/
  interfaces_lt : c.interfaces.length < 65536
  /-- The number of fields fits a two-byte word. -/
  fields_lt : c.fields.length < 65536
  /-- The number of methods fits a two-byte word. -/
  methods_lt : c.methods.length < 65536
  /-- The number of attributes fits a two-byte word. -/
  attributes_lt : c.attributes.length < 65536
  /-- The fields can be written. -/
  fields : ∀ m ∈ c.fields, ∃ depth, m.Fits c.pool depth
  /-- The methods can be written. -/
  methods : ∀ m ∈ c.methods, ∃ depth, m.Fits c.pool depth
  /-- The attributes can be written. -/
  attributes : ∀ a ∈ c.attributes, ∃ depth, a.Fits c.pool depth

/-- A class file reads back under a bound on the depth that all its parts fit. -/
lemma read_encode {c : ClassFile} {depth : Nat} (hp : c.pool.WellFormed)
    (hl : c.interfaces.length < 65536 ∧ c.fields.length < 65536 ∧ c.methods.length < 65536 ∧
      c.attributes.length < 65536) (hf : ∀ m ∈ c.fields, m.Fits c.pool depth)
    (hm : ∀ m ∈ c.methods, m.Fits c.pool depth) (ha : ∀ a ∈ c.attributes, a.Fits c.pool depth) :
    read depth c.encode = .ok (c, []) := by
  obtain ⟨minor, major, pool, access, this, super, interfaces, fields, methods, attributes⟩ := c
  obtain ⟨hil, hfl, hml, hal⟩ := hl
  simp only [read, encode, Reader.bind_eq_ok_iff, Reader.slice_eq_ok_iff]
  refine ⟨magic, _, ⟨rfl, rfl⟩, ?_⟩
  rw [if_neg (by simp)]
  simp only [Reader.bind_eq_ok_iff, Reader.u2_eq_ok_iff, Reader.pure_eq_ok_iff,
    Reader.table_eq_ok_iff index_read_eq_ok_iff, Reader.table_eq_ok_iff Member.read_eq_ok_iff,
    Reader.table_eq_ok_iff Attribute.read_eq_ok_iff]
  exact ⟨minor, _, rfl, major, _, rfl, pool, _, Pool.read_encode hp _, access, _, rfl, this, _, rfl,
    super, _, rfl, interfaces, _, ⟨⟨hil, fun _ _ => trivial⟩, rfl⟩, fields, _, ⟨⟨hfl, hf⟩, rfl⟩,
    methods, _, ⟨⟨hml, hm⟩, rfl⟩, attributes, [], ⟨⟨hal, ha⟩, by simp [Attribute.encodeTable]⟩, rfl,
    rfl⟩

/-- **A well-formed class file reads back from its bytes.**

**Proof sketch.** Reading starts with a bound above the number of bytes, which is above the depth of
everything in the class, so every reader gets a part that fits its bound. -/
theorem decode_encode {c : ClassFile} (h : c.WellFormed) : decode c.encode = .ok c := by
  obtain ⟨name, hn⟩ := h.name
  have hdepth : ∀ n, n ≤ c.encode.length → n ≤ c.encode.length + 1 := fun n hn => by omega
  have hf : ∀ m ∈ c.fields, m.Fits c.pool (c.encode.length + 1) := by
    intro m hm
    obtain ⟨d, hd⟩ := h.fields m hm
    refine hd.length_encode.mono (hdepth _ ?_)
    have hle := length_encode_le_flatMap Member.encode hm
    simp only [encode, table, List.length_append]
    omega
  have hm : ∀ m ∈ c.methods, m.Fits c.pool (c.encode.length + 1) := by
    intro m hm
    obtain ⟨d, hd⟩ := h.methods m hm
    refine hd.length_encode.mono (hdepth _ ?_)
    have hle := length_encode_le_flatMap Member.encode hm
    simp only [encode, table, List.length_append]
    omega
  have ha : ∀ a ∈ c.attributes, a.Fits c.pool (c.encode.length + 1) := by
    intro a ha
    obtain ⟨d, hd⟩ := h.attributes a ha
    refine hd.length_encode.mono (hdepth _ ?_)
    have hle := length_encode_le_flatMap Attribute.encode ha
    simp only [encode, Attribute.encodeTable, table, List.length_append]
    omega
  have hr := read_encode h.pool ⟨h.interfaces_lt, h.fields_lt, h.methods_lt, h.attributes_lt⟩ hf hm ha
  simp only [decode, Except.bind_eq_ok_iff, Reader.complete_eq_ok_iff, Except.pure_eq_ok_iff]
  exact ⟨c, hr, name, hn, rfl⟩

/-- **Every class file that is read is well formed.** -/
theorem wellFormed_of_decode {bytes : List UInt8} {c : ClassFile} (h : decode bytes = .ok c) :
    c.WellFormed := by
  simp only [decode, Except.bind_eq_ok_iff, Reader.complete_eq_ok_iff, Except.pure_eq_ok_iff] at h
  obtain ⟨c, h, name, hn, rfl⟩ := h
  simp only [read, Reader.bind_eq_ok_iff, Reader.slice_eq_ok_iff] at h
  obtain ⟨start, rest, ⟨hs, rfl⟩, h⟩ := h
  split_ifs at h with hm
  · simp at h
  · simp only [Reader.bind_eq_ok_iff, Reader.u2_eq_ok_iff, Reader.pure_eq_ok_iff,
      Reader.table_eq_ok_iff index_read_eq_ok_iff, Reader.table_eq_ok_iff Member.read_eq_ok_iff,
      Reader.table_eq_ok_iff Attribute.read_eq_ok_iff] at h
    obtain ⟨minor, _, -, major, _, -, pool, _, hp, access, _, -, this, _, -, super, _, -, interfaces,
      _, ⟨⟨hi, -⟩, -⟩, fields, _, ⟨⟨hf, hfs⟩, -⟩, methods, _, ⟨⟨hm, hms⟩, -⟩, attributes, _,
      ⟨⟨ha, has⟩, -⟩, rfl, -⟩ := h
    exact ⟨Pool.wellFormed_of_read hp, ⟨name, hn⟩, hi, hf, hm, ha, fun m hm => ⟨_, hfs m hm⟩,
      fun m hm => ⟨_, hms m hm⟩, fun a ha => ⟨_, has a ha⟩⟩

end ClassFile

end ClassAtlas
