import ClassAtlas.Proofs.ClassFile.Tidy

/-!
# Finding or adding

A constant that is asked for by its meaning (a class by its name, a member by its owner, name and
descriptor) may need several slots of a pool. Whatever part of it the pool holds is found, and the
rest is added behind the last slot. So asking a second time changes nothing, and a pool without
repetition stays one. A refusal has one of two causes: a text that is too long, or a part that is
missing from a pool with no slot left.

## Main definitions

* `ClassAtlas.Pool.InOrder` — a pool whose unusable slots are where they have to be.
* `ClassAtlas.Pool.FindsOrAdds` — an edit that adds only what it does not find.
* `ClassAtlas.Pool.Request` — what a pool can be asked for, with `add`, `found?` and `Resolves`.
* `ClassAtlas.Pool.Request.Answered` — all that an answer tells.

## Main results

* `ClassAtlas.Pool.FindsOrAdds.bind` — edits in turn.
* `ClassAtlas.Pool.Request.answered_add` — every request is answered, whatever the pool holds.
-/

set_option autoImplicit false

namespace ClassAtlas.Pool

variable {pool pool' later : Pool} {i : UInt16} {c : Constant}

/-! ### Pools in order -/

/-- A pool whose unusable slots are where they have to be, and that is not too long. -/
structure InOrder (pool : Pool) : Prop where
  /-- Slot zero is unusable. -/
  zero : pool.slots[0]? = some none
  /-- The other unusable slots are exactly those behind a constant that takes two. -/
  unusable_iff : ∀ n : Nat, pool.slots[n + 1]? = some none ↔
    ∃ c, pool.slots[n]? = some (some c) ∧ c.isWide = true
  /-- The slots are within the limit. -/
  size_le : pool.size ≤ maxSize

/-- A pool with constants of one slot behind those of another one, each new and found in its slot. -/
abbrev Extends : Pool → Pool → Prop := Grows (fun _ => True) fun c => c.isWide = false

namespace Extends

/-- The old slots are the first ones. -/
lemma getElem?_eq (h : Extends pool pool') {n : Nat} (hn : n < pool.size) :
    pool'.slots.toList[n]? = pool.slots.toList[n]? := by
  have hmax : pool.size ≤ 65535 := h.size_le_max_left
  have hto : (UInt16.ofNat n).toNat = n := UInt16.toNat_ofNat_of_lt' (show n < 65536 by omega)
  rw [getElem?_slots h.size_le_max (hn.trans_le h.size_le), getElem?_slots h.size_le_max_left hn,
    h.get?_eq (by rwa [hto])]

lemma slots_prefix (h : Extends pool pool') : pool.slots.toList <+: pool'.slots.toList := by
  rw [List.prefix_iff_getElem?]
  intro n hn
  rw [h.getElem?_eq (by simpa [size] using hn)]
  exact List.getElem?_eq_getElem hn

/-- The slots behind them hold constants of one slot. -/
lemma exists_getElem? (h : Extends pool pool') {n : Nat} (hn : pool.size ≤ n)
    (hn' : n < pool'.size) : ∃ c, pool'.slots.toList[n]? = some (some c) ∧ c.isWide = false := by
  have hmax : pool'.size ≤ 65535 := h.size_le_max
  have hto : (UInt16.ofNat n).toNat = n := UInt16.toNat_ofNat_of_lt' (show n < 65536 by omega)
  obtain ⟨c, -, hc, hf⟩ := h.added (hn.trans_eq hto.symm) (hto.trans_lt hn')
  exact ⟨c, by rw [getElem?_slots h.size_le_max hn', get?_of_find? h.size_le_max hf], hc⟩

end Extends

/-- No constant that takes two slots is in the last one. -/
lemma InOrder.isWide_last (h : pool.InOrder) {n : Nat} (hn : n + 1 = pool.size)
    (hc : pool.slots[n]? = some (some c)) : c.isWide = false := by
  by_contra hw
  have hbehind := (h.unusable_iff n).mpr ⟨c, hc, by simpa using hw⟩
  have hlt : n + 1 < pool.size := (Array.getElem?_eq_some_iff.mp hbehind).1
  omega

/-- Constants of one slot leave a pool in order. -/
theorem InOrder.of_extends (h : pool.InOrder) (hg : Extends pool pool') : pool'.InOrder := by
  have hpos : 0 < pool.size := (Array.getElem?_eq_some_iff.mp h.zero).1
  refine ⟨?_, fun n => ?_, hg.size_le_max⟩
  · rw [← Array.getElem?_toList, hg.getElem?_eq hpos, Array.getElem?_toList]
    exact h.zero
  simp only [← Array.getElem?_toList]
  by_cases hn : n + 1 < pool.size
  · rw [hg.getElem?_eq hn, hg.getElem?_eq (by omega), Array.getElem?_toList, Array.getElem?_toList]
    exact h.unusable_iff n
  · -- behind the old slots nothing is unusable, and nothing that is there takes two slots
    refine iff_of_false (fun hnone => ?_) ?_
    · have hlt : n + 1 < pool'.size := by
        simpa [size] using (List.getElem?_eq_some_iff.mp hnone).1
      obtain ⟨c, hc, -⟩ := hg.exists_getElem? (not_lt.mp hn) hlt
      cases hnone.symm.trans hc
    · rintro ⟨c, hc, hw⟩
      by_cases hold : n < pool.size
      · rw [hg.getElem?_eq hold, Array.getElem?_toList] at hc
        rw [h.isWide_last (by omega) hc] at hw
        cases hw
      · have hlt : n < pool'.size := by simpa [size] using (List.getElem?_eq_some_iff.mp hc).1
        obtain ⟨d, hd, hnarrow⟩ := hg.exists_getElem? (not_lt.mp hold) hlt
        obtain rfl := Option.some.inj (Option.some.inj (hc.symm.trans hd))
        rw [hnarrow] at hw
        cases hw

/-! ### Edits that find or add -/

/-- An edit that adds only what it does not find. What the edit returns is what `found` finds in a
pool; it asks for all of `texts` and for at most `cost` slots. -/
structure FindsOrAdds {α : Type} (found : Pool → Option α) (texts : List String) (cost : Nat)
    (edit : Edit α) : Prop where
  /-- The pool only grows, whether or not the edit fails. -/
  grows : ∀ {pool}, pool.size ≤ maxSize → Extends pool (edit pool).2
  /-- No more slots are added than the edit asks for. -/
  size_le : ∀ pool, (edit pool).2.size ≤ pool.size + cost
  /-- What is returned is found from then on, and all texts fit. -/
  found_of_ok : ∀ {pool pool' a}, pool.size ≤ maxSize → edit pool = (.ok a, pool') →
    found pool' = some a ∧ ∀ text ∈ texts, (Constant.text text).Fits
  /-- What is found is returned. -/
  ok_of_found : ∀ {pool a}, (∀ text ∈ texts, (Constant.text text).Fits) → found pool = some a →
    edit pool = (.ok a, pool)
  /-- What is found is found at all later stages of the pool. -/
  found_later : ∀ {pool later a}, found pool = some a → Extends pool later → found later = some a
  /-- A text is too long, or something is missing from a full pool. -/
  refused : ∀ {pool pool' cause}, pool.size ≤ maxSize → edit pool = (.error cause, pool') →
    cause = .textTooLong ∧ (∃ text ∈ texts, ¬ (Constant.text text).Fits) ∨
      cause = .poolFull ∧ pool'.size = maxSize ∧ found pool' = none

namespace FindsOrAdds

variable {α β : Type}

/-- One constant of one slot. -/
lemma intern (hc : c.isWide = false) : FindsOrAdds (·.find? c) [] 1 (Pool.intern c) where
  grows {pool} hs := by
    rcases hrun : Pool.intern c pool with ⟨cause | i, pool'⟩
    · obtain ⟨-, rfl, -⟩ := intern_eq_error hc hs hrun
      exact .refl hs
    · exact (intern_spec hs hc hrun).2.widen fun d hd => hd ▸ hc
  size_le pool := by
    unfold Pool.intern
    split
    · exact Nat.le_succ _
    · split_ifs
      · exact Nat.le_succ _
      · exact (size_push hc).le
  found_of_ok hs h := ⟨(intern_spec hs hc h).1, by simp⟩
  ok_of_found _ h := by
    unfold Pool.intern
    rw [h]
  found_later h hg := hg.find? trivial h
  refused hs h := by
    obtain ⟨hcause, rfl, hfull, hfind⟩ := intern_eq_error hc hs h
    exact .inr ⟨hcause, hfull, hfind⟩

/-- A text, which has to fit. -/
lemma internText (value : String) :
    FindsOrAdds (·.find? (.text value)) [value] 1 (Pool.internText value) := by
  have hi : FindsOrAdds (·.find? (.text value)) [] 1 (Pool.intern (.text value)) := intern rfl
  by_cases hl : 65535 < (Text.encode value).length
  · -- nothing is looked for, and nothing happens to the pool
    have hrun (pool : Pool) : Pool.internText value pool = (.error .textTooLong, pool) := by
      unfold Pool.internText
      rw [if_pos hl]
      rfl
    refine ⟨fun hs => ?_, fun pool => ?_, fun hs h => ?_, fun ht h => ?_, hi.found_later,
      fun hs h => ?_⟩
    · rw [hrun]
      exact .refl hs
    · rw [hrun]
      exact Nat.le_succ _
    · rw [hrun] at h
      cases (Prod.mk.inj h).1
    · exact absurd (ht value (by simp)) (not_lt.mpr hl)
    · rw [hrun] at h
      obtain ⟨hcause, -⟩ := Prod.mk.inj h
      exact .inl ⟨(Except.error.inj hcause).symm, value, by simp, not_lt.mpr hl⟩
  · have hrun : Pool.internText value = Pool.intern (.text value) := if_neg hl
    rw [hrun]
    have hfits : (Constant.text value).Fits := Nat.lt_succ_of_le (not_lt.mp hl)
    refine ⟨hi.grows, hi.size_le, fun hs h => ⟨(hi.found_of_ok hs h).1, by simpa using hfits⟩,
      fun _ h => hi.ok_of_found (by simp) h, hi.found_later, fun hs h => ?_⟩
    exact .inr ((hi.refused hs h).resolve_left (by simp))

/-- **Edits in turn** find or add what the first one and what the second one asks for. -/
lemma bind {edit : Edit α} {next : α → Edit β} {found : Pool → Option α}
    {found' : α → Pool → Option β} {texts texts' : List String} {cost cost' : Nat}
    (h : FindsOrAdds found texts cost edit)
    (h' : ∀ a, FindsOrAdds (found' a) texts' cost' (next a)) :
    FindsOrAdds (fun pool => (found pool).bind fun a => found' a pool) (texts ++ texts')
      (cost + cost') (edit >>= next) where
  grows {pool} hs := by
    have hg := h.grows hs
    rw [edit_bind_run]
    rcases hrun : edit pool with ⟨cause | a, middle⟩
    · rwa [hrun] at hg
    · rw [hrun] at hg
      exact hg.trans ((h' a).grows hg.size_le_max)
  size_le pool := by
    have hle := h.size_le pool
    rw [edit_bind_run]
    rcases hrun : edit pool with ⟨cause | a, middle⟩
    all_goals rw [hrun] at hle
    · exact hle.trans (by omega)
    · have hle' := (h' a).size_le middle
      dsimp only at hle hle' ⊢
      omega
  found_of_ok hs hrun := by
    obtain ⟨a, middle, hfirst, hsecond⟩ := edit_bind_eq_ok_iff.mp hrun
    obtain ⟨hfound, hfits⟩ := h.found_of_ok hs hfirst
    have hmiddle := h.grows hs
    rw [hfirst] at hmiddle
    obtain ⟨hfound', hfits'⟩ := (h' a).found_of_ok hmiddle.size_le_max hsecond
    have hend := (h' a).grows hmiddle.size_le_max
    rw [hsecond] at hend
    refine ⟨?_, fun text ht => (List.mem_append.mp ht).elim (hfits text) (hfits' text)⟩
    rw [h.found_later hfound hend]
    exact hfound'
  ok_of_found hfits hfound := by
    obtain ⟨a, ha, hb⟩ := Option.bind_eq_some_iff.mp hfound
    refine edit_bind_eq_ok_iff.mpr ⟨a, _, h.ok_of_found (fun text ht => ?_) ha,
      (h' a).ok_of_found (fun text ht => ?_) hb⟩
    · exact hfits text (List.mem_append_left _ ht)
    · exact hfits text (List.mem_append_right _ ht)
  found_later hfound hg := by
    obtain ⟨a, ha, hb⟩ := Option.bind_eq_some_iff.mp hfound
    exact Option.bind_eq_some_iff.mpr ⟨a, h.found_later ha hg, (h' a).found_later hb hg⟩
  refused {pool pool' cause} hs hrun := by
    rw [edit_bind_run] at hrun
    rcases hfirst : edit pool with ⟨cause' | a, middle⟩
    all_goals
      rw [hfirst] at hrun
      dsimp only at hrun
    · obtain ⟨hcause, rfl⟩ := Prod.mk.inj hrun
      obtain rfl := Except.error.inj hcause
      rcases h.refused hs hfirst with ⟨hcause, text, ht, hlong⟩ | ⟨hcause, hfull, hmissing⟩
      · exact .inl ⟨hcause, text, List.mem_append_left _ ht, hlong⟩
      · exact .inr ⟨hcause, hfull, by rw [hmissing]; rfl⟩
    · have hmiddle := h.grows hs
      rw [hfirst] at hmiddle
      have hend := (h' a).grows hmiddle.size_le_max
      rw [hrun] at hend
      rcases (h' a).refused hmiddle.size_le_max hrun with
        ⟨hcause, text, ht, hlong⟩ | ⟨hcause, hfull, hmissing⟩
      · exact .inl ⟨hcause, text, List.mem_append_right _ ht, hlong⟩
      · refine .inr ⟨hcause, hfull, ?_⟩
        rw [h.found_later (h.found_of_ok hs hfirst).1 hend]
        exact hmissing

/-- Asking again finds what was added, and changes nothing. -/
lemma again {edit : Edit α} {found : Pool → Option α} {texts : List String} {cost : Nat} {a : α}
    (h : FindsOrAdds found texts cost edit) (hs : pool.size ≤ maxSize)
    (hrun : edit pool = (.ok a, pool')) : edit pool' = (.ok a, pool') :=
  have ⟨hfound, hfits⟩ := h.found_of_ok hs hrun
  h.ok_of_found hfits hfound

end FindsOrAdds

/-! ### Requests -/

/-- Where a pool holds a class and the text of its name. -/
def findClass? (pool : Pool) (name : String) : Option UInt16 := do
  pool.find? (.classRef (← pool.find? (.text name)))

/-- Where a pool holds a name and a descriptor and the constant that names them. -/
def findNameAndType? (pool : Pool) (name descriptor : String) : Option UInt16 := do
  let n ← pool.find? (.text name)
  let d ← pool.find? (.text descriptor)
  pool.find? (.nameAndType n d)

/-- A text resolves where it is found. -/
lemma text_of_find? {value : String} (hs : pool.size ≤ maxSize)
    (h : pool.find? (.text value) = some i) : pool.text i = .ok value :=
  text_eq_ok_iff.mpr (get?_of_find? hs h)

/-- A class resolves where it is found. -/
lemma className_of_findClass? {name : String} (hs : pool.size ≤ maxSize)
    (h : pool.findClass? name = some i) : pool.className i = .ok name := by
  obtain ⟨n, hn, hi⟩ := Option.bind_eq_some_iff.mp h
  exact className_eq_ok_iff.mpr ⟨n, get?_of_find? hs hi, text_of_find? hs hn⟩

/-- A name and a descriptor resolve where they are found. -/
lemma nameAndType_of_findNameAndType? {name descriptor : String} (hs : pool.size ≤ maxSize)
    (h : pool.findNameAndType? name descriptor = some i) :
    pool.nameAndType i = .ok (name, descriptor) := by
  obtain ⟨n, hn, h⟩ := Option.bind_eq_some_iff.mp h
  obtain ⟨d, hd, hi⟩ := Option.bind_eq_some_iff.mp h
  exact nameAndType_eq_ok_iff.mpr
    ⟨n, d, get?_of_find? hs hi, text_of_find? hs hn, text_of_find? hs hd⟩

/-- What a pool can be asked for, by its meaning. -/
inductive Request where
  /-- A text. -/
  | text (value : String)
  /-- A 32-bit integer. -/
  | integer (value : Int32)
  /-- A class. -/
  | classRef (name : String)
  /-- A string literal. -/
  | string (value : String)
  /-- A name and a descriptor. -/
  | nameAndType (name descriptor : String)
  /-- A reference to a member. -/
  | member (ref : MemberRef)
  /-- A handle of the member at an index. -/
  | methodHandle (kind : UInt8) (reference : UInt16)
  /-- The type of a method. -/
  | methodType (descriptor : String)
  /-- A call site that the given bootstrap method links. -/
  | invokeDynamic (bootstrap : UInt16) (name descriptor : String)
  deriving DecidableEq, Repr

namespace Request

/-- The edit that answers a request. -/
def add : Request → Edit UInt16
  | text value => internText value
  | integer value => intern (.integer value)
  | classRef name => internClass name
  | string value => internString value
  | nameAndType name descriptor => internNameAndType name descriptor
  | member ref => internMember ref
  | methodHandle kind reference => intern (.methodHandle kind reference)
  | methodType descriptor => internMethodType descriptor
  | invokeDynamic bootstrap name descriptor => internInvokeDynamic bootstrap name descriptor

/-- The texts that a request needs. -/
def texts : Request → List String
  | integer _ | methodHandle _ _ => []
  | text value | classRef value | string value | methodType value => [value]
  | nameAndType name descriptor | invokeDynamic _ name descriptor => [name, descriptor]
  | member ref => [ref.owner, ref.name, ref.descriptor]

/-- The most slots that a request needs. -/
def cost : Request → Nat
  | text _ | integer _ | methodHandle _ _ => 1
  | classRef _ | string _ | methodType _ => 2
  | nameAndType _ _ => 3
  | invokeDynamic _ _ _ => 4
  | member _ => 6

/-- Where a pool holds all that a request needs. Every part is looked for at its least index. -/
def found? (pool : Pool) : Request → Option UInt16
  | text value => pool.find? (.text value)
  | integer value => pool.find? (.integer value)
  | classRef name => pool.findClass? name
  | string value => do pool.find? (.string (← pool.find? (.text value)))
  | nameAndType name descriptor => pool.findNameAndType? name descriptor
  | member ref => do
    let owner ← pool.findClass? ref.owner
    let nameType ← pool.findNameAndType? ref.name ref.descriptor
    pool.find? (.memberRef ref.kind owner nameType)
  | methodHandle kind reference => pool.find? (.methodHandle kind reference)
  | methodType descriptor => do pool.find? (.methodType (← pool.find? (.text descriptor)))
  | invokeDynamic bootstrap name descriptor => do
    pool.find? (.invokeDynamic bootstrap (← pool.findNameAndType? name descriptor))

/-- Whether an index of a pool stands for what was asked for. -/
def Resolves (pool : Pool) (i : UInt16) : Request → Prop
  | text value => pool.text i = .ok value
  | integer value => pool.get? i = some (.integer value)
  | classRef name => pool.className i = .ok name
  | string value => ∃ n, pool.get? i = some (.string n) ∧ pool.text n = .ok value
  | nameAndType name descriptor => pool.nameAndType i = .ok (name, descriptor)
  | member ref => pool.member i = .ok ref
  | methodHandle kind reference => pool.get? i = some (.methodHandle kind reference)
  | methodType descriptor => ∃ n, pool.get? i = some (.methodType n) ∧ pool.text n = .ok descriptor
  | invokeDynamic bootstrap name descriptor => ∃ n,
    pool.get? i = some (.invokeDynamic bootstrap n) ∧ pool.nameAndType n = .ok (name, descriptor)

/-- Every request finds or adds. -/
lemma findsOrAdds (request : Request) :
    FindsOrAdds request.found? request.texts request.cost request.add := by
  have hclass (name : String) : FindsOrAdds (·.findClass? name) [name] 2 (internClass name) :=
    (FindsOrAdds.internText name).bind fun _ => .intern rfl
  have hnameAndType (name descriptor : String) :
      FindsOrAdds (·.findNameAndType? name descriptor) [name, descriptor] 3
        (internNameAndType name descriptor) :=
    (FindsOrAdds.internText name).bind fun _ =>
      (FindsOrAdds.internText descriptor).bind fun _ => .intern rfl
  cases request with
  | text value => exact .internText value
  | integer value => exact .intern rfl
  | classRef name => exact hclass name
  | string value => exact (FindsOrAdds.internText value).bind fun _ => .intern rfl
  | nameAndType name descriptor => exact hnameAndType name descriptor
  | member ref =>
    exact (hclass ref.owner).bind fun _ =>
      (hnameAndType ref.name ref.descriptor).bind fun _ => .intern rfl
  | methodHandle kind reference => exact .intern rfl
  | methodType descriptor => exact (FindsOrAdds.internText descriptor).bind fun _ => .intern rfl
  | invokeDynamic bootstrap name descriptor =>
    exact (hnameAndType name descriptor).bind fun _ => .intern rfl

/-- What is found stands for what was asked for. -/
lemma resolves_of_found? {request : Request} (hs : pool.size ≤ maxSize)
    (h : request.found? pool = some i) : request.Resolves pool i := by
  cases request with
  | text value => exact text_of_find? hs h
  | integer value => exact get?_of_find? hs h
  | classRef name => exact className_of_findClass? hs h
  | string value =>
    obtain ⟨n, hn, hi⟩ := Option.bind_eq_some_iff.mp h
    exact ⟨n, get?_of_find? hs hi, text_of_find? hs hn⟩
  | nameAndType name descriptor => exact nameAndType_of_findNameAndType? hs h
  | member ref =>
    obtain ⟨o, ho, h⟩ := Option.bind_eq_some_iff.mp h
    obtain ⟨n, hn, hi⟩ := Option.bind_eq_some_iff.mp h
    exact member_eq_ok_iff.mpr ⟨o, n, get?_of_find? hs hi, className_of_findClass? hs ho,
      nameAndType_of_findNameAndType? hs hn⟩
  | methodHandle kind reference => exact get?_of_find? hs h
  | methodType descriptor =>
    obtain ⟨n, hn, hi⟩ := Option.bind_eq_some_iff.mp h
    exact ⟨n, get?_of_find? hs hi, text_of_find? hs hn⟩
  | invokeDynamic bootstrap name descriptor =>
    obtain ⟨n, hn, hi⟩ := Option.bind_eq_some_iff.mp h
    exact ⟨n, get?_of_find? hs hi, nameAndType_of_findNameAndType? hs hn⟩

/-- All that the answer to a request tells: what the pool is afterwards, and what is returned. -/
structure Answered (request : Request) (pool : Pool) (answer : Except FormatError UInt16)
    (pool' : Pool) : Prop where
  /-- The old slots are the first ones, also if the request is refused. -/
  slots_prefix : pool.slots.toList <+: pool'.slots.toList
  /-- No more slots are added than the request needs. -/
  size_le : pool'.size ≤ pool.size + request.cost
  /-- The pool is still in order. -/
  inOrder : pool'.InOrder
  /-- A pool without repetition stays one. -/
  distinct : pool.Distinct (fun _ => True) → pool'.Distinct fun _ => True
  /-- The index that is returned stands for what was asked for. -/
  resolves : ∀ i, answer = .ok i → request.Resolves pool' i
  /-- The same request again has the same answer and leaves the pool alone. -/
  again : ∀ i, answer = .ok i → request.add pool' = (.ok i, pool')
  /-- A refusal is due to a text that is too long, or to a pool that has no slot left and does not hold
  all that the request needs. -/
  refused : ∀ cause, answer = .error cause →
    cause = .textTooLong ∧ (∃ text ∈ request.texts, ¬ (Constant.text text).Fits) ∨
      cause = .poolFull ∧ pool'.size = maxSize ∧ request.found? pool' = none

/-- **Every request is answered** so, by every pool that is in order.

**Proof sketch.** A request is a row of edits, each of which finds a constant or adds it behind the last
slot. What one edit found or added is found at all later stages, so the parts of the row stay where
they are while the rest is added, and a second run finds them all. -/
theorem answered_add (h : pool.InOrder) (request : Request) :
    request.Answered pool (request.add pool).1 (request.add pool).2 := by
  have hadd := request.findsOrAdds
  have hg := hadd.grows h.size_le
  have hrun {answer : Except FormatError UInt16} (ha : (request.add pool).1 = answer) :
      request.add pool = (answer, (request.add pool).2) := Prod.ext ha rfl
  exact {
    slots_prefix := hg.slots_prefix
    size_le := hadd.size_le pool
    inOrder := h.of_extends hg
    distinct := fun hd => hg.distinct hd fun _ _ => trivial
    resolves := fun i hi =>
      resolves_of_found? hg.size_le_max (hadd.found_of_ok h.size_le (hrun hi)).1
    again := fun i hi => hadd.again h.size_le (hrun hi)
    refused := fun cause hc => hadd.refused h.size_le (hrun hc) }

/-- A pool with a constant of two slots, a text that is there twice and a class named by the second of
them. -/
def repeating : Pool :=
  ⟨#[none, some (.long 7), none, some (.text "A"), some (.text "A"), some (.classRef 4)]⟩

/-- The same pool after it was asked for a method of that class. The class is looked for by the first of
the two texts, so it is added again. -/
def repeatingAsked : Pool :=
  ⟨repeating.slots ++ #[some (.classRef 3), some (.text "m"), some (.text "()V"),
    some (.nameAndType 7 8), some (.memberRef .method 6 9)]⟩

/-- The pool with repetition is in order, and answers a request for a method. -/
theorem answered_add_repeating :
    repeating.InOrder ∧
      (member ⟨.method, "A", "m", "()V"⟩).Answered repeating (.ok 10) repeatingAsked := by
  have hanswer : ((member ⟨.method, "A", "m", "()V"⟩).add repeating).1 = .ok 10 := by
    decide +kernel
  have hpool : ((member ⟨.method, "A", "m", "()V"⟩).add repeating).2 = repeatingAsked := by
    decide +kernel
  have horder : repeating.InOrder := by
    refine ⟨rfl, fun n => ?_, by decide⟩
    rcases n with _ | _ | _ | _ | _ | _ | n <;> simp [repeating, Constant.isWide]
  have hanswered := answered_add horder (member ⟨.method, "A", "m", "()V"⟩)
  rw [hanswer, hpool] at hanswered
  exact ⟨horder, hanswered⟩

end Request

end ClassAtlas.Pool
