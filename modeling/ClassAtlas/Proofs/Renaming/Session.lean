import ClassAtlas.Proofs.Renaming.ClassExact
import ClassAtlas.Proofs.Renaming.MemberExact

/-!
# Editing sessions

A class may be renamed in and trimmed over and over, and a step that fails leaves the edits made
before the failure. The walks are looked at here without regard to how they end. Whatever a step has
done to the pool by then, all texts resolve to what they did and all classes still resolve, and each
index that was put in place of another resolves as well. This is all that it takes for the class to be
written and read back.

## Main definitions

* `ClassAtlas.Pool.Sustains` — a later stage of a pool in which texts and classes still resolve.
* `ClassAtlas.Pool.Sustaining`, `ClassAtlas.Revise.Sustaining` — edits and walks that lead to one,
  whether or not they fail.
* `ClassAtlas.EditStep`, `ClassAtlas.ClassFile.afterSteps` — a session.

## Main results

* `ClassAtlas.Renaming.wellFormed_apply` — one renaming.
* `ClassAtlas.ClassFile.wellFormed_afterSteps` — a session.
* `ClassAtlas.ClassFile.decode_encode_afterSteps` — the class reads back after each step, and the bytes
  that renaming returns need no check.
-/

set_option autoImplicit false

namespace ClassAtlas

/-! ### Pools -/

namespace Pool

variable {pool pool' pool'' : Pool} {i j : UInt16} {c d : Constant}

/-- A later stage of a pool that can be written, in which all texts resolve to what they did, and all
classes resolve to some name. -/
structure Sustains (pool pool' : Pool) : Prop where
  /-- The later stage can be written. -/
  wellFormed : pool'.WellFormed
  /-- Texts resolve to what they did. -/
  text : ∀ {i : UInt16} {value : String}, pool.text i = .ok value → pool'.text i = .ok value
  /-- Classes resolve. -/
  className : ∀ {i : UInt16} {name : String}, pool.className i = .ok name →
    ∃ name', pool'.className i = .ok name'

lemma Sustains.refl (h : pool.WellFormed) : pool.Sustains pool :=
  ⟨h, id, fun hn => ⟨_, hn⟩⟩

lemma Sustains.trans (h : pool.Sustains pool') (h' : pool'.Sustains pool'') :
    pool.Sustains pool'' :=
  ⟨h'.wellFormed, fun hv => h'.text (h.text hv), fun hn => h'.className (h.className hn).choose_spec⟩

/-- A pool sustains what it held when it has gained constants of one slot that can be written. -/
lemma Grows.sustains {added : Constant → Prop} (h : Grows (fun _ => True) added pool pool')
    (hw : pool.WellFormed) (ha : ∀ c, added c → c.isWide = false ∧ c.Fits) :
    pool.Sustains pool' := by
  have hadded {i : UInt16} (hi : pool.size ≤ i.toNat) (hi' : i.toNat < pool'.size) :
      ∃ c, pool'.get? i = some c ∧ c.isWide = false ∧ c.Fits := by
    obtain ⟨c, -, hc, hf⟩ := h.added hi hi'
    exact ⟨c, get?_of_find? h.size_le_max hf, ha c hc⟩
  refine ⟨hw.of_slots h.size_le h.size_le_max (fun i hi => by rw [h.get?_eq hi])
    (fun i hi hi' => ?_) fun i c hc => ?_, fun hv => h.text (fun _ => trivial) hv,
    fun hn => ⟨_, h.className (fun _ => trivial) (fun _ => trivial) hn⟩⟩
  · obtain ⟨c, hc, hn, -⟩ := hadded hi hi'
    exact ⟨c, hc, hn⟩
  · by_cases hi : i.toNat < pool.size
    · exact hw.fits_of_get? (h.get?_eq hi ▸ hc)
    · obtain ⟨d, hd, -, hf⟩ := hadded (not_lt.mp hi) (lt_size_of_get? hc)
      obtain rfl := Option.some.inj (hd.symm.trans hc)
      exact hf

/-- A pool sustains what it held when a slot is overwritten by a constant of the same width. A text
has to stay, and a class has to be overwritten by a class that resolves. -/
lemma Sustains.set (hw : pool.WellFormed) (hd : pool.get? j = some d)
    (ht : ∀ value, d = .text value → c = .text value)
    (hwide : c.isWide = d.isWide) (hf : c.Fits)
    (hn : ∀ n, d = .classRef n → ∃ m name, c = .classRef m ∧ pool.text m = .ok name) :
    pool.Sustains (pool.set j c) := by
  have hj := lt_size_of_get? hd
  have htext {i : UInt16} {value : String} (hv : pool.text i = .ok value) :
      (pool.set j c).text i = .ok value := by
    rw [text_eq_ok_iff] at hv ⊢
    rw [get?_set hj]
    split_ifs with he
    · rw [ht value (Option.some.inj (hd.symm.trans (he ▸ hv)))]
    · exact hv
  refine ⟨hw.of_slots size_set.ge (size_set.trans_le hw.size_le) (fun i _ => ?_)
    (fun i hi hi' => absurd hi' (by rw [size_set]; omega)) (fun i k hk => ?_), htext, fun hi => ?_⟩
  · rw [get?_set hj]
    split_ifs with he
    · rw [he, hd, Option.map_some, Option.map_some, hwide]
    · rfl
  · rw [get?_set hj] at hk
    split_ifs at hk with he
    · obtain rfl := Option.some.inj hk
      exact hf
    · exact hw.fits_of_get? hk
  · rename_i i name
    obtain ⟨n, hc, hv⟩ := className_eq_ok_iff.mp hi
    by_cases he : i = j
    · obtain ⟨m, name', rfl, hm⟩ := hn n (Option.some.inj (hd.symm.trans (he ▸ hc)))
      refine ⟨name', className_eq_ok_iff.mpr ⟨m, ?_, htext hm⟩⟩
      rw [get?_set hj, if_pos he]
    · refine ⟨name, className_eq_ok_iff.mpr ⟨n, ?_, htext hv⟩⟩
      rw [get?_set hj, if_neg he, hc]

/-! ### Edits of pools -/

/-- An edit that sustains what a pool holds, whether or not it fails, and yields what it should if it
does not. -/
def Sustaining {α : Type} (edit : Edit α) (yields : Pool → α → Prop) : Prop :=
  ∀ pool, pool.WellFormed → pool.Sustains (edit pool).2 ∧
    ∀ a, (edit pool).1 = .ok a → yields (edit pool).2 a

lemma Sustaining.bind {α β : Type} {edit : Edit α} {f : α → Edit β} {yields : Pool → α → Prop}
    {yields' : Pool → β → Prop} (h : Sustaining edit yields) (hf : ∀ a, Sustaining (f a) yields') :
    Sustaining (edit >>= f) yields' := by
  intro pool hw
  obtain ⟨hs, -⟩ := h pool hw
  rw [edit_bind_run]
  rcases hrun : edit pool with ⟨cause | a, middle⟩
  · rw [hrun] at hs
    exact ⟨hs, nofun⟩
  · rw [hrun] at hs
    obtain ⟨hs', hy⟩ := hf a middle hs.wellFormed
    exact ⟨hs.trans hs', hy⟩

lemma Sustaining.weaken {α : Type} {edit : Edit α} {yields : Pool → α → Prop}
    (h : Sustaining edit yields) : Sustaining edit fun _ _ => True :=
  fun pool hw => ⟨(h pool hw).1, fun _ _ => trivial⟩

/-- Adding a constant of one slot that can be written. -/
lemma sustaining_intern (hc : c.isWide = false) (hf : c.Fits) :
    Sustaining (intern c) fun pool i => pool.get? i = some c := by
  intro pool hw
  rcases hrun : intern c pool with ⟨cause | i, pool'⟩
  · obtain ⟨-, rfl, -⟩ := intern_eq_error hc hw.size_le hrun
    exact ⟨.refl hw, nofun⟩
  · obtain ⟨hfind, hg⟩ := intern_spec hw.size_le hc hrun
    refine ⟨hg.sustains hw fun d hd => hd ▸ ⟨hc, hf⟩, fun j hj => ?_⟩
    obtain rfl := Except.ok.inj hj
    exact get?_of_find? hg.size_le_max hfind

/-- Adding a text. -/
lemma sustaining_internText (value : String) :
    Sustaining (internText value) fun pool i => pool.text i = .ok value := by
  intro pool hw
  unfold internText
  split_ifs with hl
  · exact ⟨.refl hw, nofun⟩
  · obtain ⟨hs, hy⟩ := sustaining_intern (@rfl _ (Constant.text value).isWide)
      (Nat.lt_succ_of_le (not_lt.mp hl)) pool hw
    exact ⟨hs, fun i hi => text_eq_ok_iff.mpr (hy i hi)⟩

/-- Adding a name and a descriptor. -/
lemma sustaining_internNameAndType (name descriptor : String) :
    Sustaining (internNameAndType name descriptor) fun _ _ => True :=
  (sustaining_internText name).bind fun n => (sustaining_internText descriptor).bind fun d =>
    (@sustaining_intern (.nameAndType n d) rfl trivial).weaken

end Pool

/-! ### Walks -/

namespace Revise

variable {α β : Type} {base : Pool}

/-- A walk that sustains what the pool holds, whether or not it comes to a fault, and whose result is
what it should be at all later stages of the pool. The walk starts at a later stage of the pool
`base`. -/
def Sustaining (base : Pool) (walk : Revise α) (yields : Pool → α → Prop) : Prop :=
  ∀ s : Revision, base.Sustains s.pool → s.pool.Sustains (walk s).2.pool ∧
    ∀ pool, (walk s).2.pool.Sustains pool → yields pool (walk s).1

namespace Sustaining

variable {walk : Revise α} {f : α → Revise β} {yields : Pool → α → Prop}
  {yields' : Pool → β → Prop}

lemma pure {a : α} (h : ∀ pool, base.Sustains pool → yields pool a) :
    Sustaining base (Pure.pure a) yields :=
  fun _ hs => ⟨.refl hs.wellFormed, fun pool hp => h pool (hs.trans hp)⟩

/-- Walks in turn: what the first one yields can be made use of at the end of the second one. -/
lemma bind (h : Sustaining base walk yields)
    (hf : ∀ a, Sustaining base (f a) fun pool b => yields pool a → yields' pool b) :
    Sustaining base (walk >>= f) yields' := by
  intro s hs
  obtain ⟨hmid, hy⟩ := h s hs
  obtain ⟨hend, hy'⟩ := hf (walk s).1 (walk s).2 (hs.trans hmid)
  exact ⟨hmid.trans hend, fun pool hp => hy' pool hp (hy pool (hend.trans hp))⟩

/-- Asking the pool leaves it alone. -/
lemma ask {fallback : α} {question : Pool → Except FormatError α} :
    Sustaining base (Revise.ask fallback question) fun _ _ => True := by
  intro s hs
  refine ⟨?_, fun _ _ => trivial⟩
  unfold Revise.ask
  split
  · exact .refl hs.wellFormed
  · split <;> exact .refl hs.wellFormed

/-- A replacement that sustains what the pool holds. -/
lemma edit {fallback : α} {replacement : Pool.Edit (Option α)}
    (hfallback : ∀ pool, base.Sustains pool → yields pool fallback)
    (h : ∀ pool, base.Sustains pool → pool.Sustains (replacement pool).2 ∧
      ∀ b, (replacement pool).1 = .ok (some b) →
        ∀ later, (replacement pool).2.Sustains later → yields later b) :
    Sustaining base (Revise.edit fallback replacement) yields := by
  intro s hs
  unfold Revise.edit
  split
  · exact ⟨.refl hs.wellFormed, fun pool hp => hfallback pool (hs.trans hp)⟩
  · obtain ⟨hsustains, hy⟩ := h s.pool hs
    split
    all_goals
      rename_i hrun
      rw [hrun] at hsustains hy
    · exact ⟨hsustains, fun pool hp => hy _ rfl pool hp⟩
    · exact ⟨hsustains, fun pool hp => hfallback pool (hs.trans (hsustains.trans hp))⟩
    · exact ⟨hsustains, fun pool hp => hfallback pool (hs.trans (hsustains.trans hp))⟩

/-- A step, which puts in the index of a new text. -/
lemma replaceText {a : α} {newText : Pool → Except FormatError (Option String)}
    {build : UInt16 → α} (ha : ∀ pool, base.Sustains pool → yields pool a)
    (hbuild : ∀ pool index text, base.Sustains pool → pool.text index = .ok text →
      yields pool (build index)) :
    Sustaining base (Revise.replaceText a newText build) yields := by
  refine edit ha fun pool hs => ?_
  rcases newText pool with cause | _ | text
  · exact ⟨.refl hs.wellFormed, nofun⟩
  · exact ⟨.refl hs.wellFormed, nofun⟩
  · obtain ⟨hsustains, hy⟩ := Pool.sustaining_internText text pool hs.wellFormed
    rcases hrun : Pool.internText text pool with ⟨cause | index, middle⟩
    all_goals
      rw [hrun] at hsustains hy
      simp only [hrun]
    · exact ⟨hsustains, nofun⟩
    · refine ⟨hsustains, fun b hb later hl => ?_⟩
      obtain rfl := Option.some.inj (Except.ok.inj hb)
      exact hbuild later index text (hs.trans (hsustains.trans hl)) (hl.text (hy index rfl))

/-- Walks over a list. -/
lemma mapM {walk : α → Revise β} {yields : Pool → α → β → Prop} {as : List α}
    (h : ∀ a ∈ as, Sustaining base (walk a) fun pool b => yields pool a b) :
    Sustaining base (as.mapM walk) fun pool bs => List.Forall₂ (yields pool) as bs := by
  induction as with
  | nil =>
    rw [List.mapM_nil]
    exact .pure fun _ _ => .nil
  | cons a as ih =>
    rw [List.mapM_cons]
    refine (h a List.mem_cons_self).bind fun b => ?_
    refine (ih fun a ha => h a (List.mem_cons_of_mem _ ha)).bind fun bs => ?_
    exact .pure fun pool _ hbs hb => .cons hb hbs

/-- Walks over a list that yield nothing. -/
lemma forM {walk : α → Revise Unit} {as : List α}
    (h : ∀ a ∈ as, Sustaining base (walk a) fun _ _ => True) :
    Sustaining base (as.forM walk) fun _ _ => True := by
  induction as with
  | nil => exact .pure fun _ _ => trivial
  | cons a as ih =>
    refine (h a List.mem_cons_self).bind fun _ s hs => ?_
    exact ⟨(ih (fun b hb => h b (List.mem_cons_of_mem _ hb)) s hs).1, fun _ _ _ => trivial⟩

end Sustaining

end Revise

/-! ### Renaming a class -/

namespace ClassRename

variable {r : ClassRename} {base : Pool} {c : ClassFile}

/-- Giving a constant another text sustains what the pool holds. -/
lemma sustaining_reviseConstant (edit : UInt16 × String) :
    Revise.Sustaining base (reviseConstant edit) fun _ _ => True := by
  refine .edit (fun _ _ => trivial) fun pool hs => ⟨?_, fun _ _ _ _ => trivial⟩
  obtain ⟨hsustains, hy⟩ := Pool.sustaining_internText edit.2 pool hs.wellFormed
  rcases hrun : Pool.internText edit.2 pool with ⟨cause | text, middle⟩
  · rw [hrun] at hsustains
    exact hsustains
  · rw [hrun] at hsustains hy
    simp only
    split
    · rename_i k hk
      refine hsustains.trans (.set hsustains.wellFormed hk ?_ (isWide_repointed text k)
        (fits_repointed text (hsustains.wellFormed.fits_of_get? hk)) ?_)
      · rintro value rfl
        rfl
      · rintro n rfl
        exact ⟨text, edit.2, rfl, hy text rfl⟩
    · exact hsustains

/-- Renaming in the constants sustains what the pool holds. -/
lemma sustaining_revisePool : Revise.Sustaining base r.revisePool fun _ _ => True := by
  have hedits (edits : List (UInt16 × String)) :
      Revise.Sustaining base (edits.forM reviseConstant) fun _ _ => True :=
    .forM fun edit _ => sustaining_reviseConstant edit
  refine Revise.Sustaining.ask.bind fun (classes, descriptors) => ?_
  refine (hedits classes).bind fun _ s hs => ?_
  exact ⟨(hedits descriptors s hs).1, fun _ _ _ _ => trivial⟩

/-- Every site is left, or it gets an index that resolves. -/
lemma sustaining_reviseSites (xs : List TextSite) :
    Revise.Sustaining base (r.reviseSites xs) fun pool ys =>
      List.Forall₂ (TextSite.StillResolves base pool) xs ys :=
  .mapM fun _ _ => .replaceText (fun _ hs ⟨value, hv⟩ => ⟨value, hs.text hv⟩)
    fun _ _ text _ ht _ => ⟨text, ht⟩

/-- **Renaming a class** leaves a well-formed class file, whether or not it fails.

**Proof sketch.** The walk over the trees does what the steps at the sites do, also if one of them
fails. So the outline is the same, every text that resolved still does, and what a step has put in
resolves. The name of the class may be another one, but there is one. -/
theorem wellFormed_apply (hc : c.WellFormed) :
    ((Renaming.ofClass r).apply c).2.WellFormed := by
  have hstart : c.pool.Sustains c.pool := .refl hc.pool
  obtain ⟨hmiddle, -⟩ := @sustaining_revisePool r c.pool ⟨c.pool, false, none⟩ hstart
  rcases hpool : r.revisePool ⟨c.pool, false, none⟩ with ⟨_, middle⟩
  rw [hpool] at hmiddle
  have hresolves : Resolves c.pool middle := fun _ =>
    ⟨hmiddle.wellFormed.size_le, fun _ _ hv => hmiddle.text hv⟩
  rcases htrees : r.reviseTrees c middle with ⟨trees, final⟩
  -- what the trees hold at their sites is what the steps at the sites put in, up to the first fault
  obtain ⟨⟨ho, -⟩, found, hsites, hfound⟩ := follows_reviseTrees hc middle hresolves
  rw [htrees] at ho hsites hfound
  rw [List.nil_append] at hfound
  obtain ⟨hfinal, hstill⟩ := @sustaining_reviseSites r c.pool
    (c.sites c.pool.namesGenericTable) middle hmiddle
  rw [hsites] at hfinal hstill
  have hend : c.pool.Sustains final.pool := hmiddle.trans hfinal
  have hrun : ((Renaming.ofClass r).apply c).2 = { trees with pool := final.pool } := by
    simp only [Renaming.apply, Renaming.revise, revise_run, hpool, htrees]
  -- the constant of the class is the same one, but its name may be another
  have hthis : trees.thisClass = c.thisClass := by
    show trees.outline.thisClass = _
    rw [ho]
    rfl
  obtain ⟨name, hname⟩ := hc.name
  obtain ⟨name', hname'⟩ := hend.className hname
  rw [hrun]
  refine hc.of_outline ho hend.wellFormed ⟨name', ?_⟩ (fun i _ value hv => hend.text hv)
    (hfound.symm ▸ hstill _ (.refl hfinal.wellFormed))
  rw [ClassFile.name, hthis]
  exact hname'

end ClassRename

/-! ### Renaming a member -/

namespace MemberRename

variable {r : MemberRename} {base : Pool} {c : ClassFile}

/-- Declarations are left, or they get a name that resolves. -/
lemma sustaining_declare (name : String) (sort : MemberSort) (ms : List Member) :
    Revise.Sustaining base (r.declare name sort ms) fun pool ms' =>
      List.Forall₂ (fun m m' => ∀ depth, m.Fits base depth → m'.Fits pool depth) ms ms' := by
  have hkept {pool : Pool} (hs : base.Sustains pool) {m : Member} {depth : Nat}
      (hm : m.Fits base depth) : m.Fits pool depth :=
    ⟨hm.name.imp fun _ => hs.text, hm.descriptor.imp fun _ => hs.text, hm.attributes_lt,
      fun a ha => (hm.attributes a ha).of_text fun _ _ => hs.text⟩
  unfold declare
  split_ifs
  · rw [reviseDeclarations_eq]
    refine .mapM fun m _ => .replaceText (fun pool hs depth hm => hkept hs hm) ?_
    intro pool index text hs ht depth hm
    have hm' := hkept hs hm
    exact ⟨⟨text, ht⟩, hm'.descriptor, hm'.attributes_lt, hm'.attributes⟩
  · exact .pure fun pool hs => List.forall₂_same.mpr fun m _ depth hm => hkept hs hm

/-- Repointing references sustains what the pool holds. -/
lemma sustains_foldl_repointMember (nameType : UInt16) (indices : List UInt16) {pool : Pool}
    (hw : pool.WellFormed) : pool.Sustains (indices.foldl (repointMember nameType) pool) := by
  induction indices generalizing pool with
  | nil => exact .refl hw
  | cons i indices ih =>
    have hstep : pool.Sustains (repointMember nameType pool i) := by
      unfold repointMember
      split
      · rename_i kind owner old hk
        exact .set hw hk nofun rfl trivial nofun
      · exact .refl hw
    exact hstep.trans (ih hstep.wellFormed)

/-- Renaming references sustains what the pool holds. -/
lemma sustaining_reviseReferences : Revise.Sustaining base r.reviseReferences fun _ _ => True := by
  refine .edit (fun _ _ => trivial) fun pool hs => ⟨?_, fun _ _ _ _ => trivial⟩
  split
  · exact .refl hs.wellFormed
  · exact .refl hs.wellFormed
  · obtain ⟨hsustains, -⟩ :=
      Pool.sustaining_internNameAndType r.newName r.descriptor pool hs.wellFormed
    rcases hrun : Pool.internNameAndType r.newName r.descriptor pool with ⟨cause | nameType, middle⟩
    all_goals
      rw [hrun] at hsustains
      simp only
    · exact hsustains
    · exact hsustains.trans (sustains_foldl_repointMember nameType _ hsustains.wellFormed)

/-- An attribute is left, or it is an enclosing method and stays one. -/
lemma sustaining_reviseEnclosing (a : Attribute) :
    Revise.Sustaining base (r.reviseEnclosing a) fun pool a' =>
      ∀ depth, a.Fits base depth → a'.Fits pool depth := by
  have hkept {pool : Pool} (hs : base.Sustains pool) {a : Attribute} {depth : Nat}
      (ha : a.Fits base depth) : a.Fits pool depth :=
    ha.of_text fun _ _ => hs.text
  unfold reviseEnclosing
  split
  · rename_i owner method hbody
    obtain ⟨name, body⟩ := a
    obtain rfl : body = _ := hbody
    refine .edit (fun pool hs depth ha => hkept hs ha) fun pool hs => ?_
    split_ifs
    · exact ⟨.refl hs.wellFormed, nofun⟩
    rcases r.refersTo pool owner method with cause | _ | _
    · exact ⟨.refl hs.wellFormed, nofun⟩
    · exact ⟨.refl hs.wellFormed, nofun⟩
    · obtain ⟨hsustains, -⟩ :=
        Pool.sustaining_internNameAndType r.newName r.descriptor pool hs.wellFormed
      rcases hrun : Pool.internNameAndType r.newName r.descriptor pool with ⟨cause | method', middle⟩
      all_goals
        rw [hrun] at hsustains
        simp only
      · exact ⟨hsustains, nofun⟩
      · refine ⟨hsustains, fun b hb later hl depth ha => ?_⟩
        obtain rfl := Option.some.inj (Except.ok.inj hb)
        exact fits_enclosing (hkept (hs.trans (hsustains.trans hl)) ha)
  · exact .pure fun pool hs depth ha => hkept hs ha

/-- Attributes are left or stay of their sort. -/
lemma sustaining_reattribute (attributes : List Attribute) :
    Revise.Sustaining base (r.reattribute attributes) fun pool attributes' =>
      List.Forall₂ (fun a a' => ∀ depth, a.Fits base depth → a'.Fits pool depth)
        attributes attributes' := by
  unfold reattribute
  split
  · exact .pure fun pool hs => List.forall₂_same.mpr fun a _ depth ha =>
      ha.of_text fun _ _ => hs.text
  · exact .mapM fun a _ => sustaining_reviseEnclosing a

/-- A member renaming goes over fields, methods, references and attributes. -/
lemma revise_eq (c : ClassFile) :
    r.revise c = (do
      let name ← Revise.ask "" fun pool => pool.className c.thisClass
      let fields ← r.declare name .field c.fields
      let methods ← r.declare name .method c.methods
      r.reviseReferences
      let attributes ← r.reattribute c.attributes
      return { c with fields, methods, attributes }) := by
  obtain ⟨sort, owner, member, descriptor, newName⟩ := r
  cases sort <;> rfl

/-- What a member renaming makes of a class file, whether or not it fails. -/
lemma sustaining_revise :
    Revise.Sustaining base (r.revise c) fun pool c' => c' = { c with
        fields := c'.fields, methods := c'.methods, attributes := c'.attributes } ∧
      List.Forall₂ (fun m m' => ∀ depth, m.Fits base depth → m'.Fits pool depth)
        c.fields c'.fields ∧
      List.Forall₂ (fun m m' => ∀ depth, m.Fits base depth → m'.Fits pool depth)
        c.methods c'.methods ∧
      List.Forall₂ (fun a a' => ∀ depth, a.Fits base depth → a'.Fits pool depth)
        c.attributes c'.attributes := by
  rw [revise_eq]
  refine Revise.Sustaining.ask.bind fun name => ?_
  refine (sustaining_declare name .field c.fields).bind fun fields => ?_
  refine (sustaining_declare name .method c.methods).bind fun methods => ?_
  refine sustaining_reviseReferences.bind fun _ => ?_
  refine (sustaining_reattribute c.attributes).bind fun attributes => ?_
  exact .pure fun pool _ ha _ hm hf _ => ⟨rfl, hf, hm, ha⟩

/-- **Renaming a member** leaves a well-formed class file, whether or not it fails. -/
theorem wellFormed_apply (hc : c.WellFormed) :
    ((Renaming.ofMember r).apply c).2.WellFormed := by
  have hstart : c.pool.Sustains c.pool := .refl hc.pool
  obtain ⟨hend, hyields⟩ := @sustaining_revise r c.pool c ⟨c.pool, false, none⟩ hstart
  rcases hrun : r.revise c ⟨c.pool, false, none⟩ with ⟨c', final⟩
  rw [hrun] at hend hyields
  obtain ⟨heq, hfields, hmethods, hattributes⟩ := hyields final.pool (.refl hend.wellFormed)
  simp only at heq hfields hmethods hattributes
  have happly : ((Renaming.ofMember r).apply c).2 = { c' with pool := final.pool } := by
    simp only [Renaming.apply, Renaming.revise, hrun]
  have hthis : c'.thisClass = c.thisClass := by rw [heq]
  have hinterfaces : c'.interfaces = c.interfaces := by rw [heq]
  obtain ⟨name, hname⟩ := hc.name
  obtain ⟨name', hname'⟩ := hend.className hname
  have hmembers {ms ms' : List Member}
      (hr : List.Forall₂ (fun m m' => ∀ depth, m.Fits c.pool depth → m'.Fits final.pool depth) ms ms')
      (hms : ∀ m ∈ ms, ∃ depth, m.Fits c.pool depth) :
      ∀ m' ∈ ms', ∃ depth, m'.Fits final.pool depth := by
    intro m' hm'
    obtain ⟨m, hm, hfits⟩ := Except.exists_of_forall₂ hr.flip hm'
    exact (hms m hm).imp hfits
  rw [happly]
  refine ⟨hend.wellFormed, ⟨name', ?_⟩, hinterfaces ▸ hc.interfaces_lt,
    hfields.length_eq ▸ hc.fields_lt, hmethods.length_eq ▸ hc.methods_lt,
    hattributes.length_eq ▸ hc.attributes_lt, hmembers hfields hc.fields,
    hmembers hmethods hc.methods, fun a' ha' => ?_⟩
  · rw [ClassFile.name, hthis]
    exact hname'
  · obtain ⟨a, ha, hfits⟩ := Except.exists_of_forall₂ hattributes.flip ha'
    exact (hc.attributes a ha).imp hfits

end MemberRename

/-! ### Sessions -/

/-- **A renaming** leaves a well-formed class file, whether or not it fails. -/
theorem Renaming.wellFormed_apply {r : Renaming} {c : ClassFile} (hc : c.WellFormed) :
    (r.apply c).2.WellFormed := by
  cases r with
  | ofClass r => exact ClassRename.wellFormed_apply hc
  | ofMember r => exact MemberRename.wellFormed_apply hc

/-- A step of an editing session. -/
inductive EditStep where
  /-- A renaming. -/
  | apply (r : Renaming)
  /-- A renaming backwards. -/
  | undo (r : Renaming)
  /-- Trimming. -/
  | trim

namespace ClassFile

variable {c : ClassFile}

/-- The class after a step, which may have failed. -/
def afterStep (c : ClassFile) : EditStep → ClassFile
  | .apply r => (r.apply c).2
  | .undo r => (r.inverse.apply c).2
  | .trim => c.trimInPlace.2

/-- The class after steps in turn, each of which may have failed. -/
def afterSteps (c : ClassFile) (steps : List EditStep) : ClassFile :=
  steps.foldl afterStep c

/-- Trimming leaves a well-formed class file, whether or not it fails. -/
theorem wellFormed_trimInPlace (hc : c.WellFormed) : c.trimInPlace.2.WellFormed := by
  rcases hrun : c.trimInPlace with ⟨cause | n, c'⟩
  · obtain ⟨cause', -, heq⟩ | ⟨-, heq⟩ | ⟨structural, pool', -, -, heq⟩ :=
      trimInPlace_cases hc.pool.size_le
    · obtain ⟨-, rfl⟩ := Prod.mk.inj (hrun.symm.trans heq)
      exact hc
    · cases (Prod.mk.inj (hrun.symm.trans heq)).1
    · cases (Prod.mk.inj (hrun.symm.trans heq)).1
  · have htrim : c.trim = .ok (c', n) := by simp only [trim, hrun]
    exact (trimmed_of_trim hc.pool.size_le htrim).wellFormed hc

/-- A step leaves a well-formed class file, whether or not it fails. -/
lemma wellFormed_afterStep (hc : c.WellFormed) (step : EditStep) : (c.afterStep step).WellFormed := by
  cases step with
  | apply r => exact Renaming.wellFormed_apply hc
  | undo r => exact Renaming.wellFormed_apply hc
  | trim => exact wellFormed_trimInPlace hc

/-- **A session** leaves a well-formed class file, whichever of its steps fail. -/
theorem wellFormed_afterSteps (hc : c.WellFormed) (steps : List EditStep) :
    (c.afterSteps steps).WellFormed := by
  induction steps generalizing c with
  | nil => exact hc
  | cons step steps ih => exact ih (wellFormed_afterStep hc step)

/-- The class that is written when renamings are made in turn, if they change anything. -/
def reviseAll (c : ClassFile) (renamings : List Renaming) : Except FormatError (Option ClassFile) := do
  let (renamed, changed) ← Renaming.applyAll renamings c
  if changed then
    let (trimmed, _) ← renamed.trim
    return some trimmed
  else return none

/-- Renamings that all succeed are a session. -/
lemma afterSteps_of_applyAll {renamings : List Renaming} {c' : ClassFile} {changed : Bool}
    (h : Renaming.applyAll renamings c = .ok (c', changed)) :
    c' = c.afterSteps (renamings.map .apply) := by
  induction renamings generalizing c c' changed with
  | nil => exact (Prod.mk.inj (Except.ok.inj h)).1.symm
  | cons r renamings ih =>
    rcases hrun : r.apply c with ⟨cause | changed', middle⟩
    · simp [Renaming.applyAll, hrun] at h
    · rcases hrest : Renaming.applyAll renamings middle with cause | ⟨last, more⟩
      · simp [Renaming.applyAll, hrun, hrest] at h
      · obtain ⟨rfl, -⟩ : last = c' ∧ _ := by simpa [Renaming.applyAll, hrun, hrest] using h
        rw [ih hrest, List.map_cons, afterSteps, afterSteps, List.foldl_cons, afterStep, hrun]

/-- The class that is written is well formed. -/
lemma wellFormed_of_reviseAll (hc : c.WellFormed) {renamings : List Renaming} {revised : ClassFile}
    (h : c.reviseAll renamings = .ok (some revised)) : revised.WellFormed := by
  obtain ⟨⟨renamed, changed⟩, hall, h⟩ := Except.bind_eq_ok_iff.mp h
  cases changed with
  | false => cases h
  | true =>
    obtain ⟨⟨trimmed, n⟩, htrim, h⟩ := Except.bind_eq_ok_iff.mp h
    obtain rfl := Option.some.inj (Except.pure_eq_ok_iff.mp h)
    have hrenamed : renamed.WellFormed := afterSteps_of_applyAll hall ▸ wellFormed_afterSteps hc _
    exact (trimmed_of_trim hrenamed.pool.size_le htrim).wellFormed hrenamed

/-- Renaming in bytes is renaming in the class that was read, and a check that can be left out. -/
lemma reviseBytes_eq {bytes : List UInt8} (h : decode bytes = .ok c) (renamings : List Renaming) :
    reviseBytes bytes renamings = (c.reviseAll renamings).map (·.map encode) := by
  have hread {revised : ClassFile} (hr : c.reviseAll renamings = .ok (some revised)) :
      decode revised.encode = .ok revised :=
    decode_encode (wellFormed_of_reviseAll (wellFormed_of_decode h) hr)
  simp only [reviseAll, bind, Except.bind] at hread
  simp only [reviseBytes, reviseAll, h, bind, Except.bind]
  rcases hall : Renaming.applyAll renamings c with cause | ⟨renamed, _ | _⟩
  · rfl
  · rfl
  · rcases htrim : renamed.trim with cause | ⟨trimmed, n⟩
    all_goals simp only [if_true, htrim]
    · rfl
    · rw [hread (by simp only [hall, htrim, if_true]; rfl)]
      rfl

/-- **A class can be written and read back at all times.** Whatever renamings, renamings backwards and
trimmings a class goes through after it was read, and whichever of them fail on the way, the class is
what is read from its bytes. So when bytes are renamed in, the check at the end never fails: the result
is decided by reading, renaming and trimming, and the bytes returned are those of the class at hand.

**Proof sketch.** A class that was read is well formed. One step after the other leaves a well-formed
class: renaming, because the pool sustains what it held and all that was put in place resolves, and
trimming, because it drops nothing that is referred to. A well-formed class reads back. -/
theorem decode_encode_afterSteps {bytes : List UInt8} (h : decode bytes = .ok c) :
    (∀ steps : List EditStep,
      decode (c.afterSteps steps).encode = .ok (c.afterSteps steps)) ∧
    ∀ renamings : List Renaming,
      reviseBytes bytes renamings = (c.reviseAll renamings).map (·.map encode) ∧
      ∀ result, reviseBytes bytes renamings = .ok (some result) →
        ∃ revised, c.reviseAll renamings = .ok (some revised) ∧ result = revised.encode ∧
          decode result = .ok revised := by
  have hc := wellFormed_of_decode h
  refine ⟨fun steps => decode_encode (wellFormed_afterSteps hc steps), fun renamings => ?_⟩
  have heq := reviseBytes_eq h renamings
  refine ⟨heq, fun result hresult => ?_⟩
  obtain ⟨written, hrun, hmap⟩ := Except.map_eq_ok_iff.mp (heq.symm.trans hresult)
  obtain ⟨revised, rfl, rfl⟩ := Option.map_eq_some_iff.mp hmap
  exact ⟨revised, hrun, rfl, decode_encode (wellFormed_of_reviseAll hc hrun)⟩

/-- A class with a field of type `I`, and with a signature that is a class instead of a text. -/
def misSigned (pool : Pool) (field : UInt16) : ClassFile :=
  { blank with
    pool, thisClass := 2, fields := [⟨0, field, 4, []⟩], attributes := [⟨5, .flat (.signature 2)⟩] }

/-- The pool of a class `name` with a field `f`, in which `added` comes last. -/
def misSignedPool (name : UInt16) (added : List Constant) : Pool :=
  ⟨#[none, some (.text "A"), some (.classRef name), some (.text "f"), some (.text "I"),
    some (.text "Signature")] ++ (added.map some).toArray⟩

/-- Renaming `A` to `B` fails at the signature when the class has its new name already. The class reads
back then, and when the renaming is tried once more and the class is trimmed. Renaming the field does
not fail, and what is written reads back. -/
theorem decode_encode_afterSteps_misSigned :
    decode (misSigned (misSignedPool 1 []) 3).encode = .ok (misSigned (misSignedPool 1 []) 3) ∧
      (Renaming.ofClass ⟨"A", "B"⟩).apply (misSigned (misSignedPool 1 []) 3) =
        (.error (.badConstantIndex 2), misSigned (misSignedPool 6 [.text "B"]) 3) ∧
      decode (misSigned (misSignedPool 6 [.text "B"]) 3).encode =
        .ok (misSigned (misSignedPool 6 [.text "B"]) 3) ∧
      decode ((misSigned (misSignedPool 1 []) 3).afterSteps [.apply (.ofClass ⟨"A", "B"⟩),
          .apply (.ofClass ⟨"A", "B"⟩), .trim]).encode =
        .ok ((misSigned (misSignedPool 1 []) 3).afterSteps [.apply (.ofClass ⟨"A", "B"⟩),
          .apply (.ofClass ⟨"A", "B"⟩), .trim]) ∧
      ∃ result revised, reviseBytes (misSigned (misSignedPool 1 []) 3).encode
        [.ofMember ⟨.field, "A", "f", "I", "g"⟩] = .ok (some result) ∧
          decode result = .ok revised := by
  have hread : decode (misSigned (misSignedPool 1 []) 3).encode =
      .ok (misSigned (misSignedPool 1 []) 3) := by decide +kernel
  have hfails : (Renaming.ofClass ⟨"A", "B"⟩).apply (misSigned (misSignedPool 1 []) 3) =
      (.error (.badConstantIndex 2), misSigned (misSignedPool 6 [.text "B"]) 3) := by
    decide +kernel
  have hwritten : reviseBytes (misSigned (misSignedPool 1 []) 3).encode
      [.ofMember ⟨.field, "A", "f", "I", "g"⟩] =
        .ok (some (misSigned (misSignedPool 1 [.text "g"]) 6).encode) := by decide +kernel
  obtain ⟨hsteps, hrevised⟩ := decode_encode_afterSteps hread
  refine ⟨hread, hfails, ?_, hsteps _, ?_⟩
  · have hafter := hsteps [.apply (.ofClass ⟨"A", "B"⟩)]
    rwa [afterSteps, List.foldl_cons, List.foldl_nil, afterStep, hfails] at hafter
  · obtain ⟨revised, -, -, hback⟩ := (hrevised _).2 _ hwritten
    exact ⟨_, revised, hwritten, hback⟩

end ClassFile

end ClassAtlas
