import ClassAtlas.Mapping.Delivery
import Mathlib

/-!
# What becomes of the messages of a job

Many jobs send into one queue, and batches end anywhere. Seen from one job, its messages are stretches
of events that end with its flushes. However the queue is cut into batches and whatever the observers
do, the slices of a stretch are its events, in order. They are taken one after the other, up to the
first one that is refused; the ones behind it are dropped, and the flush tells why. A job does not
notice what becomes of the slices of another job.

## Main definitions

* `ClassAtlas.stretches` — a list, cut at its marks.
* `ClassAtlas.Message.sent?`, `ClassAtlas.Deed.done?` — messages and deeds from the view of a job.
* `ClassAtlas.Consumer.Enacts` — the deeds are what is done to the state of the observers.
* `ClassAtlas.Settled` — what becomes of a stretch.
* `ClassAtlas.Consumer.Ledger` — messages of a job and the deeds that they lead to.

## Main results

* `ClassAtlas.Consumer.ledger_workAll` — the deeds for a job follow from its messages.
* `ClassAtlas.Consumer.settled_workAll` — every stretch of every job is settled, whatever happens to
  the other jobs.
-/

set_option autoImplicit false

namespace ClassAtlas

/-! ### Stretches -/

/-- A list of things and marks, cut behind its marks: each part with the mark at its end. The last part
ends without one. -/
def stretches {α β : Type} : List (α ⊕ β) → List (List α × Option β)
  | [] => [([], none)]
  | .inl a :: rest => (stretches rest).modifyHead (Prod.map (a :: ·) id)
  | .inr mark :: rest => ([], some mark) :: stretches rest

theorem stretches_append {α β : Type} (as : List α) (rest : List (α ⊕ β)) :
    stretches (as.map .inl ++ rest) = (stretches rest).modifyHead (Prod.map (as ++ ·) id) := by
  induction as with
  | nil =>
    cases hrest : stretches rest with
    | nil => exact hrest
    | cons first more => exact hrest
  | cons a as ih =>
    rw [List.map_cons, List.cons_append, stretches, ih]
    cases stretches rest with
    | nil => rfl
    | cons first more => rfl

/-! ### The view of a job -/

/-- What is sent, from the view of a job: its events and its flushes. -/
def Message.sent? (job : JobId) : Message → Option (Event ⊕ Unit)
  | .event other value => if other = job then some (.inl value) else none
  | .flush other => if other = job then some (.inr ()) else none

/-- What is done, from the view of a job: what became of its slices, and the answers that it gets. -/
def Deed.done? (job : JobId) : Deed → Option ((List Event × Fate) ⊕ Option Error)
  | .slice other events fate => if other = job then some (.inl (events, fate)) else none
  | .reply value => if value.job = job then some (.inr value.failure) else none

/-- What a deed is about: a slice of a job, or an answer to it. -/
def Deed.outline : Deed → JobId × (List Event ⊕ Unit)
  | .slice job events _ => (job, .inl events)
  | .reply value => (value.job, .inr ())

/-- The events that are pending for a job. -/
def Pending.eventsOf (job : JobId) (pending : Pending) : List Event :=
  pending.flatMap fun slice => if slice.1 = job then slice.2 else []

theorem Pending.eventsOf_eq_nil {job : JobId} {pending : Pending} (h : job ∉ pending.map Prod.fst) :
    pending.eventsOf job = [] := by
  refine List.flatMap_eq_nil_iff.mpr fun slice hs => if_neg ?_
  rintro rfl
  exact h (List.mem_map_of_mem hs)

theorem Pending.keys_push (pending : Pending) (job : JobId) (event : Event) :
    (pending.push job event).map Prod.fst =
      if job ∈ pending.map Prod.fst then pending.map Prod.fst else pending.map Prod.fst ++ [job] := by
  induction pending with
  | nil => rfl
  | cons slice pending ih =>
    obtain ⟨other, events⟩ := slice
    rw [push]
    by_cases h : other = job
    · simp [h]
    · have h' : ¬job = other := fun he => h he.symm
      rw [if_neg h, List.map_cons, ih]
      by_cases hmem : job ∈ pending.map Prod.fst <;> simp_all

/-- Every job has at most one pending slice. -/
def Pending.Keyed (pending : Pending) : Prop :=
  (pending.map Prod.fst).Nodup

theorem Pending.keyed_nil : Keyed [] :=
  List.nodup_nil

theorem Pending.Keyed.push {pending : Pending} (h : pending.Keyed) (job : JobId) (event : Event) :
    (pending.push job event).Keyed := by
  rw [Keyed, keys_push]
  split
  · exact h
  · rename_i hnew
    exact h.append (List.nodup_singleton job) (List.disjoint_singleton.mpr hnew)

/-- One more event comes behind the pending events of its job. -/
theorem Pending.Keyed.eventsOf_push {pending : Pending} (h : pending.Keyed) (job other : JobId)
    (event : Event) : (pending.push other event).eventsOf job =
      pending.eventsOf job ++ if other = job then [event] else [] := by
  induction pending with
  | nil => simp [Pending.push, eventsOf]
  | cons slice pending ih =>
    obtain ⟨first, events⟩ := slice
    rw [Keyed, List.map_cons, List.nodup_cons] at h
    have hrest := ih h.2
    rw [Pending.push]
    by_cases hfirst : first = other
    · subst hfirst
      have hnil : first = job → eventsOf job pending = [] := fun he => eventsOf_eq_nil (he ▸ h.1)
      rw [if_pos rfl, eventsOf, eventsOf, List.flatMap_cons, List.flatMap_cons]
      change _ ++ eventsOf job pending = _ ++ eventsOf job pending ++ _
      by_cases hjob : first = job
      · simp [hjob, hnil hjob]
      · simp [hjob]
    · rw [if_neg hfirst, eventsOf, eventsOf, List.flatMap_cons, List.flatMap_cons, List.append_assoc]
      exact congrArg _ hrest

/-! ### Fates -/

/-- What becomes of the next slice of a job, and what the job's next flush would report before and
after it. -/
inductive Fate.Turns : Option Error → Fate → Option Error → Prop where
  /-- It is taken if nothing was refused before. -/
  | taken : Turns none .taken none
  /-- It may be the first one to be refused. -/
  | refused (cause : Error) : Turns none (.refused cause) (some cause)
  /-- Behind a slice that was refused, it is dropped. -/
  | dropped (cause : Error) : Turns (some cause) .dropped (some cause)

/-- What becomes of slices of a job, one after the other. -/
inductive Fate.Course : Option Error → List Fate → Option Error → Prop where
  /-- There is no slice. -/
  | nil (failure : Option Error) : Course failure [] failure
  /-- One more slice comes first. -/
  | cons {before between after : Option Error} {fate : Fate} {fates : List Fate}
    (h : fate.Turns before between) (hrest : Course between fates after) :
    Course before (fate :: fates) after

theorem Fate.Course.of_some {cause : Error} {fates : List Fate} {failure : Option Error}
    (h : Course (some cause) fates failure) :
    (∀ fate ∈ fates, fate = .dropped) ∧ failure = some cause := by
  induction fates with
  | nil =>
    cases h
    exact ⟨List.forall_mem_nil _, rfl⟩
  | cons fate fates ih =>
    obtain - | ⟨⟨⟩, hrest⟩ := h
    obtain ⟨hdropped, hfailure⟩ := ih hrest
    exact ⟨List.forall_mem_cons.mpr ⟨rfl, hdropped⟩, hfailure⟩

/-- Slices are all taken, or taken up to one that is refused and dropped behind it. -/
theorem Fate.Course.of_none {fates : List Fate} {failure : Option Error}
    (h : Course none fates failure) :
    (∀ fate ∈ fates, fate = .taken) ∧ failure = none ∨
      ∃ before cause after, fates = before ++ .refused cause :: after ∧
        (∀ fate ∈ before, fate = .taken) ∧ (∀ fate ∈ after, fate = .dropped) ∧
        failure = some cause := by
  induction fates with
  | nil =>
    cases h
    exact .inl ⟨List.forall_mem_nil _, rfl⟩
  | cons fate fates ih =>
    obtain - | ⟨hturns, hrest⟩ := h
    cases hturns with
    | taken =>
      obtain ⟨htaken, hfailure⟩ | ⟨before, cause, after, rfl, htaken, hdropped, hfailure⟩ := ih hrest
      · exact .inl ⟨List.forall_mem_cons.mpr ⟨rfl, htaken⟩, hfailure⟩
      · exact .inr ⟨.taken :: before, cause, after, rfl, List.forall_mem_cons.mpr ⟨rfl, htaken⟩,
          hdropped, hfailure⟩
    | refused cause =>
      obtain ⟨hdropped, hfailure⟩ := hrest.of_some
      exact .inr ⟨[], cause, fates, rfl, List.forall_mem_nil _, hdropped, hfailure⟩

/-! ### Stretches that are settled -/

/-- What becomes of a stretch of the messages of a job, which ends with a flush or with the last
message. -/
structure Settled (sent : List Event × Option Unit)
    (done : List (List Event × Fate) × Option (Option Error)) : Prop where
  /-- The slices are the events, in order and each of them once. -/
  whole : done.1.flatMap Prod.fst = sent.1
  /-- The slices that are handed over are the first events. -/
  handed : (done.1.filter (·.2 != .dropped)).flatMap Prod.fst <+: sent.1
  /-- A flush is answered, and nothing else is. -/
  answered : done.2.isSome = sent.2.isSome
  /-- All slices are taken and the flush reports nothing; or they are taken up to one that is refused,
  the ones behind it are dropped, and the flush reports why. -/
  fates : (∀ slice ∈ done.1, slice.2 = .taken) ∧ (∀ answer ∈ done.2, answer = none) ∨
    ∃ before refused cause after, done.1 = before ++ (refused, .refused cause) :: after ∧
      (∀ slice ∈ before, slice.2 = .taken) ∧ (∀ slice ∈ after, slice.2 = .dropped) ∧
      ∀ answer ∈ done.2, answer = some cause

/-- The same for what is left of a stretch, when a flush would report a refusal already. -/
structure SettledFrom (failure : Option Error) (sent : List Event × Option Unit)
    (done : List (List Event × Fate) × Option (Option Error)) : Prop where
  /-- The slices are the events, in order and each of them once. -/
  whole : done.1.flatMap Prod.fst = sent.1
  /-- A flush is answered, and nothing else is. -/
  answered : done.2.isSome = sent.2.isSome
  /-- The slices are taken, refused or dropped one after the other. -/
  course : ∃ failure', Fate.Course failure (done.1.map Prod.snd) failure' ∧
    ∀ answer ∈ done.2, answer = failure'

theorem SettledFrom.slice {before after : Option Error} {fate : Fate}
    {sent : List Event × Option Unit} {done : List (List Event × Fate) × Option (Option Error)}
    (events : List Event) (hturns : fate.Turns before after) (h : SettledFrom after sent done) :
    SettledFrom before (events ++ sent.1, sent.2) ((events, fate) :: done.1, done.2) := by
  obtain ⟨failure, hcourse, hanswer⟩ := h.course
  exact ⟨congrArg (events ++ ·) h.whole, h.answered, failure, hcourse.cons hturns, hanswer⟩

/-- What is left of a stretch of which nothing was refused is settled like a stretch. -/
theorem SettledFrom.settled {sent : List Event × Option Unit}
    {done : List (List Event × Fate) × Option (Option Error)} (h : SettledFrom none sent done) :
    Settled sent done := by
  obtain ⟨failure, hcourse, hanswer⟩ := h.course
  obtain ⟨htaken, rfl⟩ | ⟨before, cause, after, hfates, htaken, hdropped, rfl⟩ := hcourse.of_none
  · have htaken : ∀ slice ∈ done.1, slice.2 = .taken := List.forall_mem_map.mp htaken
    have hall : done.1.filter (·.2 != .dropped) = done.1 :=
      List.filter_eq_self.mpr fun slice hs => by simp [htaken slice hs]
    refine ⟨h.whole, ?_, h.answered, .inl ⟨htaken, hanswer⟩⟩
    rw [hall, h.whole]
  · obtain ⟨first, rest, hdone, rfl, hrest⟩ := List.map_eq_append_iff.mp hfates
    obtain ⟨⟨refused, fate⟩, last, rfl, rfl, rfl⟩ := List.map_eq_cons_iff.mp hrest
    have htaken : ∀ slice ∈ first, slice.2 = .taken := List.forall_mem_map.mp htaken
    have hdropped : ∀ slice ∈ last, slice.2 = .dropped := List.forall_mem_map.mp hdropped
    have hfirst : first.filter (·.2 != .dropped) = first :=
      List.filter_eq_self.mpr fun slice hs => by simp [htaken slice hs]
    have hlast : last.filter (·.2 != .dropped) = [] :=
      List.filter_eq_nil_iff.mpr fun slice hs => by simp [hdropped slice hs]
    refine ⟨h.whole, ?_, h.answered, .inr ⟨first, refused, cause, last, hdone, htaken, hdropped, hanswer⟩⟩
    rw [← h.whole, hdone, List.filter_append, hfirst, List.filter_cons_of_pos (by simp), hlast]
    simp

namespace Consumer

variable {σ τ : Type} {handing : Handing σ}

/-! ### Messages of a job and their deeds -/

/-- The messages of a job and the deeds that they lead to, when a flush would report a failure at
first. -/
inductive Ledger : Option Error → List (Event ⊕ Unit) → List ((List Event × Fate) ⊕ Option Error) →
    Prop where
  /-- Nothing more is sent. -/
  | nil (failure : Option Error) : Ledger failure [] []
  /-- Events become a slice. -/
  | slice {before after : Option Error} {fate : Fate} {sent : List (Event ⊕ Unit)}
    {done : List ((List Event × Fate) ⊕ Option Error)} (events : List Event)
    (hturns : fate.Turns before after) (h : Ledger after sent done) :
    Ledger before (events.map .inl ++ sent) (.inl (events, fate) :: done)
  /-- A flush is answered. -/
  | reply {sent : List (Event ⊕ Unit)} {done : List ((List Event × Fate) ⊕ Option Error)}
    (failure : Option Error) (h : Ledger none sent done) :
    Ledger failure (.inr () :: sent) (.inr failure :: done)

/-- The stretches of a ledger are settled, the first one as far as it is left. -/
theorem Ledger.settledFrom {failure : Option Error} {sent : List (Event ⊕ Unit)}
    {done : List ((List Event × Fate) ⊕ Option Error)} (h : Ledger failure sent done) :
    ∃ first more first' more', stretches sent = first :: more ∧ stretches done = first' :: more' ∧
      SettledFrom failure first first' ∧ List.Forall₂ Settled more more' := by
  induction h with
  | nil failure =>
    exact ⟨_, _, _, _, rfl, rfl, ⟨rfl, rfl, failure, .nil failure, fun _ h => by cases h⟩, .nil⟩
  | slice events hturns _ ih =>
    obtain ⟨first, more, first', more', hsent, hdone, hfirst, hmore⟩ := ih
    refine ⟨_, more, _, more', ?_, ?_, hfirst.slice events hturns, hmore⟩
    · rw [stretches_append, hsent]
      rfl
    · rw [stretches, hdone]
      rfl
  | reply failure _ ih =>
    obtain ⟨first, more, first', more', hsent, hdone, hfirst, hmore⟩ := ih
    refine ⟨_, _, _, _, congrArg _ hsent, congrArg _ hdone, ?_, .cons hfirst.settled hmore⟩
    exact ⟨rfl, rfl, failure, .nil failure, fun _ h => (Option.some.inj h).symm⟩

/-- What a ledger says is fixed by what is asked of the observers and what they answer: two ledgers
with the same slices and flushes are equal if slices that are handed over in both fare alike. -/
theorem Ledger.unique {failure : Option Error} {sent sent' : List (Event ⊕ Unit)}
    {done done' : List ((List Event × Fate) ⊕ Option Error)} (h : Ledger failure sent done)
    (h' : Ledger failure sent' done')
    (hparts : done.map (Sum.map Prod.fst fun _ => ()) = done'.map (Sum.map Prod.fst fun _ => ()))
    (hfates : ∀ events fate fate', (.inl (events, fate), .inl (events, fate')) ∈ done.zip done' →
      fate ≠ .dropped → fate' ≠ .dropped → fate = fate') : done = done' := by
  induction h generalizing sent' done' with
  | nil failure => exact (List.map_eq_nil_iff.mp hparts.symm).symm
  | slice events hturns _ ih =>
    rename_i before after fate sent done _
    cases h' with
    | nil => cases hparts
    | reply => simp at hparts
    | slice events' hturns' hrest' =>
      rename_i after' fate' sent' done'
      obtain ⟨hevents, hmore⟩ := List.cons.inj hparts
      obtain rfl : events = events' := Sum.inl.inj hevents
      obtain rfl : fate = fate' := by
        have hhere := hfates events fate fate' List.mem_cons_self
        cases hturns <;> cases hturns' <;> first | rfl | exact hhere (by simp) (by simp)
      obtain rfl : after = after' := by
        cases hturns <;> cases hturns' <;> rfl
      rw [ih hrest' hmore fun events fate fate' hmem => hfates events fate fate' (.tail _ hmem)]
  | reply failure _ ih =>
    rename_i sent done _
    cases h' with
    | nil => cases hparts
    | slice => simp at hparts
    | reply _ hrest' =>
      rw [ih hrest' (List.cons.inj hparts).2 fun events fate fate' hmem =>
        hfates events fate fate' (.tail _ hmem)]

/-! ### What a flush would report -/

/-- What the next flush of a job would report. -/
def refusal? (consumer : Consumer σ) (job : JobId) : Option Error :=
  (consumer.failure? job).map JobFailure.cause

/-- What a flush of the job would report is kept when dropped events are counted. -/
theorem map_cause_find?_count (failures : List JobFailure) (job other : JobId) (count : Nat) :
    ((failures.map fun f => if f.job = other then { f with dropped := f.dropped + count } else f).find?
        (·.job == job)).map JobFailure.cause = (failures.find? (·.job == job)).map JobFailure.cause := by
  induction failures with
  | nil => rfl
  | cons f failures ih =>
    have hjob : (if f.job = other then { f with dropped := f.dropped + count } else f).job = f.job := by
      split <;> rfl
    have hcause : (if f.job = other then { f with dropped := f.dropped + count } else f).cause =
        f.cause := by
      split <;> rfl
    rw [List.map_cons, List.find?_cons, List.find?_cons, hjob]
    split
    · exact congrArg some hcause
    · exact ih

/-- What becomes of a slice, and what that does to the flushes of its job and of others. -/
theorem turns_deliver (handing : Handing σ) (consumer : Consumer σ) (slice : JobId × List Event) :
    (consumer.deliver handing slice).1.Turns (consumer.refusal? slice.1)
        ((consumer.deliver handing slice).2.refusal? slice.1) ∧
      ∀ job, slice.1 ≠ job →
        (consumer.deliver handing slice).2.refusal? job = consumer.refusal? job := by
  rw [deliver]
  split
  · rename_i f hf
    have hcause : consumer.refusal? slice.1 = some f.cause := by rw [refusal?, hf]; rfl
    have hkept (job : JobId) := map_cause_find?_count consumer.failures job slice.1 slice.2.length
    refine ⟨?_, fun job _ => hkept job⟩
    have hafter := (hkept slice.1).trans hcause
    rw [hcause]
    exact hafter ▸ .dropped f.cause
  · rename_i hfree
    have hnone : consumer.refusal? slice.1 = none := by rw [refusal?, hfree]; rfl
    split
    · exact ⟨hnone.symm ▸ .taken, fun _ _ => rfl⟩
    · rename_i cause state _
      refine ⟨?_, fun job hne => ?_⟩
      · have hafter : refusal? ⟨state, consumer.failures ++ [⟨slice.1, cause, 0⟩]⟩ slice.1 =
            some cause := by
          rw [failure?] at hfree
          simp [refusal?, failure?, List.find?_append, hfree]
        rw [hnone, hafter]
        exact .refused cause
      · simp [refusal?, failure?, List.find?_append, hne]

theorem refusal?_answer (consumer : Consumer σ) (job other : JobId) :
    (consumer.answer other).2.refusal? job = if other = job then none else consumer.refusal? job := by
  rw [refusal?, failure?, answer, List.find?_filter]
  split
  · rename_i h
    subst h
    refine Option.map_eq_none_iff.mpr (List.find?_eq_none.mpr fun f _ => ?_)
    simp
  · rename_i hne
    have hsame : (fun f : JobFailure => decide (((f.job != other) = true) ∧ (f.job == job) = true)) =
        (·.job == job) := by
      funext f
      by_cases hf : f.job = job
      · simp [hf, Ne.symm hne]
      · simp [hf]
    rw [hsame, refusal?, failure?]

/-! ### Ledgers of a run -/

theorem ledger_deliverAll (job : JobId) {consumer : Consumer σ} {pending : Pending}
    {sent : List (Event ⊕ Unit)} {done : List ((List Event × Fate) ⊕ Option Error)}
    (h : Ledger ((consumer.deliverAll handing pending).2.refusal? job) sent done) :
    Ledger (consumer.refusal? job) ((pending.eventsOf job).map .inl ++ sent)
      ((consumer.deliverAll handing pending).1.filterMap (Deed.done? job) ++ done) := by
  induction pending generalizing consumer with
  | nil => exact h
  | cons slice pending ih =>
    obtain ⟨hturns, hothers⟩ := turns_deliver handing consumer slice
    have hrest := ih h
    rw [deliverAll, Pending.eventsOf, List.flatMap_cons, List.map_append, List.append_assoc,
      List.filterMap_cons, Deed.done?]
    split
    · rename_i hjob
      subst hjob
      exact .slice slice.2 hturns hrest
    · rename_i hne
      exact hothers job hne ▸ hrest

/-- The deeds for a job, when a batch is worked off behind pending events.

**Proof sketch.** Induction on the batch. Of the job's messages, the pending events come first, so the
slice that they become comes first in the ledger as well. -/
theorem ledger_workOnto (job : JobId) (consumer : Consumer σ) {pending : Pending}
    (hp : pending.Keyed) {batch : List Message} {sent : List (Event ⊕ Unit)}
    {done : List ((List Event × Fate) ⊕ Option Error)}
    (h : Ledger ((consumer.workOnto handing pending batch).2.refusal? job) sent done) :
    Ledger (consumer.refusal? job)
      ((pending.eventsOf job).map .inl ++ (batch.filterMap (Message.sent? job) ++ sent))
      ((consumer.workOnto handing pending batch).1.filterMap (Deed.done? job) ++ done) := by
  induction batch generalizing pending consumer with
  | nil => exact ledger_deliverAll job h
  | cons m batch ih =>
    cases m with
    | event other event =>
      have hrest := ih consumer (hp.push other event) h
      rw [hp.eventsOf_push] at hrest
      rw [workOnto, List.filterMap_cons, Message.sent?]
      by_cases hjob : other = job
      · rw [if_pos hjob, List.map_append, List.append_assoc] at hrest
        rw [if_pos hjob]
        exact hrest
      · rw [if_neg hjob, List.append_nil] at hrest
        rw [if_neg hjob]
        exact hrest
    | flush other =>
      have hrest := ih ((consumer.deliverAll handing pending).2.answer other).2 Pending.keyed_nil h
      rw [refusal?_answer] at hrest
      rw [workOnto]
      dsimp only
      rw [List.filterMap_append, List.append_assoc, List.filterMap_cons, List.filterMap_cons,
        Message.sent?, Deed.done?]
      refine ledger_deliverAll job ?_
      by_cases hjob : other = job
      · subst hjob
        rw [if_pos rfl] at hrest
        rw [if_pos rfl, if_pos (by rfl)]
        exact .reply _ hrest
      · rw [if_neg hjob] at hrest
        rw [if_neg hjob, if_neg (by exact hjob)]
        exact hrest

/-- **The deeds for a job follow from its messages**, however these are cut into batches. -/
theorem ledger_workAll (job : JobId) (consumer : Consumer σ) (batches : List (List Message)) :
    Ledger (consumer.refusal? job) (batches.flatten.filterMap (Message.sent? job))
      ((consumer.workAll handing batches).1.filterMap (Deed.done? job)) := by
  induction batches generalizing consumer with
  | nil => exact .nil _
  | cons batch batches ih =>
    rw [List.flatten_cons, List.filterMap_append, workAll, List.filterMap_append]
    exact ledger_workOnto job consumer Pending.keyed_nil (ih (consumer.work handing batch).2)

/-! ### Deeds and what is done -/

/-- Deeds, and the state of the observers before and after them: they are told of the slices that are
taken or refused, and of nothing else. -/
inductive Enacts (handing : Handing σ) : σ → List Deed → σ → Prop where
  /-- Nothing is done. -/
  | nil (state : σ) : Enacts handing state [] state
  /-- The observers take a slice. -/
  | taken {start state stop : σ} {deeds : List Deed} (job : JobId) {events : List Event}
    (h : handing events start = (none, state)) (hrest : Enacts handing state deeds stop) :
    Enacts handing start (.slice job events .taken :: deeds) stop
  /-- The observers refuse a slice. -/
  | refused {start state stop : σ} {deeds : List Deed} (job : JobId) {events : List Event}
    {cause : Error} (h : handing events start = (some cause, state))
    (hrest : Enacts handing state deeds stop) :
    Enacts handing start (.slice job events (.refused cause) :: deeds) stop
  /-- A slice is dropped. -/
  | dropped {start stop : σ} {deeds : List Deed} (job : JobId) (events : List Event)
    (hrest : Enacts handing start deeds stop) :
    Enacts handing start (.slice job events .dropped :: deeds) stop
  /-- A flush is answered. -/
  | reply {start stop : σ} {deeds : List Deed} (value : Reply)
    (hrest : Enacts handing start deeds stop) : Enacts handing start (.reply value :: deeds) stop

theorem Enacts.append {start state stop : σ} {deeds more : List Deed}
    (h : Enacts handing start deeds state) (hmore : Enacts handing state more stop) :
    Enacts handing start (deeds ++ more) stop := by
  induction h with
  | nil state => exact hmore
  | taken job h _ ih => exact .taken job h (ih hmore)
  | refused job h _ ih => exact .refused job h (ih hmore)
  | dropped job events _ ih => exact .dropped job events (ih hmore)
  | reply value _ ih => exact .reply value (ih hmore)

theorem enacts_deliverAll (consumer : Consumer σ) (pending : Pending) :
    Enacts handing consumer.state (consumer.deliverAll handing pending).1
      (consumer.deliverAll handing pending).2.state := by
  induction pending generalizing consumer with
  | nil => exact .nil _
  | cons slice pending ih =>
    have hrest := ih (consumer.deliver handing slice).2
    rw [deliverAll]
    dsimp only
    generalize hstep : consumer.deliver handing slice = step at hrest ⊢
    rw [deliver] at hstep
    split at hstep
    · subst hstep
      exact .dropped _ _ hrest
    · split at hstep
      · rename_i hhand
        subst hstep
        exact .taken _ hhand hrest
      · rename_i hhand
        subst hstep
        exact .refused _ hhand hrest

theorem enacts_workOnto (consumer : Consumer σ) (pending : Pending) (batch : List Message) :
    Enacts handing consumer.state (consumer.workOnto handing pending batch).1
      (consumer.workOnto handing pending batch).2.state := by
  induction batch generalizing pending consumer with
  | nil => exact enacts_deliverAll consumer pending
  | cons m batch ih =>
    cases m with
    | event job event => exact ih consumer (pending.push job event)
    | flush job =>
      refine (enacts_deliverAll consumer pending).append (.reply _ ?_)
      exact ih ((consumer.deliverAll handing pending).2.answer job).2 []

theorem enacts_workAll (consumer : Consumer σ) (batches : List (List Message)) :
    Enacts handing consumer.state (consumer.workAll handing batches).1
      (consumer.workAll handing batches).2.state := by
  induction batches generalizing consumer with
  | nil => exact .nil _
  | cons batch batches ih => exact (enacts_workOnto consumer [] batch).append (ih _)

/-! ### What does not depend on the observers -/

section Independent

variable (handing : Handing σ) (handing' : Handing τ) (consumer : Consumer σ) (consumer' : Consumer τ)

theorem outline_deliverAll (pending : Pending) :
    (consumer.deliverAll handing pending).1.map Deed.outline =
      pending.map fun slice => (slice.1, .inl slice.2) := by
  induction pending generalizing consumer with
  | nil => rfl
  | cons slice pending ih => exact congrArg _ (ih _)

theorem outline_workOnto (pending : Pending) (batch : List Message) :
    (consumer.workOnto handing pending batch).1.map Deed.outline =
      (consumer'.workOnto handing' pending batch).1.map Deed.outline := by
  induction batch generalizing pending consumer consumer' with
  | nil => exact (outline_deliverAll ..).trans (outline_deliverAll ..).symm
  | cons m batch ih =>
    cases m with
    | event job event => exact ih consumer consumer' (pending.push job event)
    | flush job =>
      have hrest := ih ((consumer.deliverAll handing pending).2.answer job).2
        ((consumer'.deliverAll handing' pending).2.answer job).2 []
      rw [workOnto, workOnto]
      dsimp only
      rw [List.map_append, List.map_append, outline_deliverAll, outline_deliverAll, List.map_cons,
        List.map_cons, hrest]
      rfl

/-- Whatever the observers do, the same slices and the same flushes come up in the same order. -/
theorem outline_workAll (batches : List (List Message)) :
    (consumer.workAll handing batches).1.map Deed.outline =
      (consumer'.workAll handing' batches).1.map Deed.outline := by
  induction batches generalizing consumer consumer' with
  | nil => rfl
  | cons batch batches ih =>
    rw [workAll, workAll]
    dsimp only
    rw [List.map_append, List.map_append]
    exact congrArg₂ _ (outline_workOnto ..) (ih ..)

end Independent

/-- The outline of what is done for a job is a part of the outline of what is done. -/
theorem map_done?_outline (job : JobId) (deeds : List Deed) :
    (deeds.filterMap (Deed.done? job)).map (Sum.map Prod.fst fun _ => ()) =
      (deeds.map Deed.outline).filterMap fun o => if o.1 = job then some o.2 else none := by
  rw [List.map_filterMap, List.filterMap_map]
  congr 1
  funext deed
  cases deed with
  | slice other events fate => by_cases h : other = job <;> simp [Deed.done?, Deed.outline, h]
  | reply value => by_cases h : value.job = job <;> simp [Deed.done?, Deed.outline, h]

/-- **What becomes of the messages of the jobs**, however they are cut into batches and whatever the
observers do:

* the observers are told of the slices that are taken or refused, in that order, and of nothing else;
* every stretch of every job is settled;
* the slices and the answers come up in the same order, whatever the observers do;
* what is done for a job is the same if its own slices fare alike where the observers see them,
  whatever becomes of the slices of other jobs. -/
theorem settled_workAll (handing : Handing σ) (handing' : Handing τ) (state : σ) (state' : τ)
    (batches : List (List Message)) :
    let run := (start state).workAll handing batches
    let run' := (start state').workAll handing' batches
    Enacts handing state run.1 run.2.state ∧
      (∀ job, List.Forall₂ Settled (stretches (batches.flatten.filterMap (Message.sent? job)))
        (stretches (run.1.filterMap (Deed.done? job)))) ∧
      run.1.map Deed.outline = run'.1.map Deed.outline ∧
      ∀ job, (∀ events fate fate', (.inl (events, fate), .inl (events, fate')) ∈
            (run.1.filterMap (Deed.done? job)).zip (run'.1.filterMap (Deed.done? job)) →
          fate ≠ .dropped → fate' ≠ .dropped → fate = fate') →
        run.1.filterMap (Deed.done? job) = run'.1.filterMap (Deed.done? job) := by
  have houtline := outline_workAll handing handing' (start state) (start state') batches
  refine ⟨enacts_workAll (start state) batches, fun job => ?_, houtline, fun job hfates => ?_⟩
  · obtain ⟨first, more, first', more', hsent, hdone, hfirst, hmore⟩ :=
      (ledger_workAll job (start state) batches).settledFrom
    rw [hsent, hdone]
    exact .cons hfirst.settled hmore
  · refine (ledger_workAll job (start state) batches).unique
      (ledger_workAll job (start state') batches) ?_ hfates
    rw [map_done?_outline, map_done?_outline, houtline]

/-- Observers refuse to announce one identity. The job that asked for it hears of it at its flush; until
then its events are dropped, while the events of another job are taken. -/
example :
    let note (job : JobId) (text : String) : Message := .event job (.identifier ⟨text⟩)
    let cause : Error := .unknownIdentity "bad"
    let refusing : Handing (List Event) := fun events seen =>
      if .identifier ⟨"bad"⟩ ∈ events then (some cause, seen) else (none, seen ++ events)
    let run := (start []).workAll refusing [[note 1 "early", note 2 "other"], [note 1 "bad"],
      [note 1 "late", note 2 "fine", note 1 "later"], [.flush 1]]
    run.2.state = [.identifier ⟨"early"⟩, .identifier ⟨"other"⟩, .identifier ⟨"fine"⟩] ∧
      run.1.filterMap (Deed.done? 1) =
        [.inl ([.identifier ⟨"early"⟩], .taken), .inl ([.identifier ⟨"bad"⟩], .refused cause),
          .inl ([.identifier ⟨"late"⟩, .identifier ⟨"later"⟩], .dropped), .inr (some cause)] := by
  decide

end Consumer

end ClassAtlas
