import ClassAtlas.Mapping.Job
import ClassAtlas.Mapping.Sync
import Mathlib

/-!
# What a job sends

A job sends its findings in order and puts announcements between them. Every identity that a finding
names is announced before the finding is sent, so events can be stored as they come.

## Main definitions

* `ClassAtlas.Announced` — events that only name identities which were announced before.

## Main results

* `ClassAtlas.Job.filter_reportAll` — besides announcements, a job sends its findings, in order.
* `ClassAtlas.Job.announced_reportAll` — identities are announced before they are used.
-/

set_option autoImplicit false

namespace ClassAtlas

/-! ### Announcements -/

/-- Events that only name identities which are known or were announced before. -/
def Announced (known : List Identity) : List Event → Prop
  | [] => True
  | event :: events => (event.announced? = none → ∀ identity ∈ Job.named event, identity ∈ known) ∧
      Announced (event.announced?.toList ++ known) events

section Announced

variable {known known' : List Identity} {events more : List Event} {event : Event} {identity : Identity}

@[simp]
theorem Event.announced?_identifier : announced? (.identifier identity) = some identity :=
  rfl

@[simp]
theorem Event.announced?_eq_some_iff : event.announced? = some identity ↔ event = .identifier identity := by
  cases event <;> simp [announced?]

theorem Announced.mono (h : Announced known events) (hk : known ⊆ known') :
    Announced known' events := by
  induction events generalizing known known' with
  | nil => trivial
  | cons event events ih =>
    refine ⟨fun hnone identity hmem => hk (h.1 hnone identity hmem), ih h.2 ?_⟩
    exact List.append_subset.mpr ⟨List.subset_append_left _ _, List.subset_append_of_subset_right _ hk⟩

/-- Events behind others may also name what the others announce. -/
theorem Announced.append (h : Announced known events) (h' : Announced known' more)
    (hk : ∀ identity ∈ known', identity ∈ known ∨ .identifier identity ∈ events) :
    Announced known (events ++ more) := by
  induction events generalizing known with
  | nil => exact h'.mono fun identity hmem => by simpa using hk identity hmem
  | cons event events ih =>
    refine ⟨h.1, ih h.2 fun identity hmem => ?_⟩
    rcases hk identity hmem with hmem | hmem
    · exact .inl (List.mem_append_right _ hmem)
    · rcases List.mem_cons.mp hmem with rfl | hmem
      · exact .inl (by simp [Event.announced?])
      · exact .inr hmem

theorem announced_of_forall (h : ∀ event ∈ events, event.announced? ≠ none) :
    Announced known events := by
  induction events generalizing known with
  | nil => trivial
  | cons event events ih =>
    obtain ⟨hevent, hevents⟩ := List.forall_mem_cons.mp h
    exact ⟨fun hnone => absurd hnone hevent, ih hevents⟩

/-- What an event names is known or announced before it. -/
theorem Announced.known_or (h : Announced known (events ++ event :: more))
    (he : event.announced? = none) (hmem : identity ∈ Job.named event) :
    identity ∈ known ∨ .identifier identity ∈ events := by
  induction events generalizing known with
  | nil => exact .inl (h.1 he identity hmem)
  | cons first events ih =>
    rcases ih h.2 with hk | hk
    · rcases List.mem_append.mp hk with hk | hk
      · rw [Option.mem_toList, Event.announced?_eq_some_iff] at hk
        exact .inr (hk ▸ List.mem_cons_self)
      · exact .inl hk
    · exact .inr (List.mem_cons_of_mem _ hk)

end Announced

/-! ### Jobs -/

namespace Job

variable {done findings : List Event} {finding event : Event} {identity : Identity}

/-- What a job has sent comes before what it sends next. -/
theorem reportOnto_eq (job : Job) (done findings : List Event) : job.reportOnto done findings =
    (done.reverse ++ (job.reportAll findings).1, (job.reportAll findings).2) := by
  induction findings generalizing job done with
  | nil => simp [reportAll, reportOnto]
  | cons finding findings ih =>
    have hstep (done : List Event) : job.reportOnto done (finding :: findings) =
        (job.report finding).2.reportOnto ((job.report finding).1.reverse ++ done) findings := rfl
    rw [reportAll, hstep, hstep, ih, ih _ ((job.report finding).1.reverse ++ [])]
    simp

theorem reportAll_cons (job : Job) (finding : Event) (findings : List Event) :
    job.reportAll (finding :: findings) =
      ((job.report finding).1 ++ ((job.report finding).2.reportAll findings).1,
        ((job.report finding).2.reportAll findings).2) := by
  have hstep : job.reportAll (finding :: findings) =
      (job.report finding).2.reportOnto ((job.report finding).1.reverse ++ []) findings := rfl
  rw [hstep, reportOnto_eq]
  simp

/-- The announcements of a job, and what it has announced after them. -/
theorem spec_of_announceAll (job : Job) (identities : List Identity) :
    (∀ event ∈ (job.announceAll identities).1, ∃ identity ∈ identities,
        event = .identifier identity) ∧
      identities ⊆ (job.announceAll identities).2.announced ∧
      job.announced ⊆ (job.announceAll identities).2.announced ∧
      ∀ identity ∈ (job.announceAll identities).2.announced, identity ∈ job.announced ∨
        .identifier identity ∈ (job.announceAll identities).1 := by
  induction identities generalizing job with
  | nil => simp [announceAll]
  | cons identity identities ih =>
    obtain ⟨hevents, hnew, hold, hback⟩ := ih (job.announce identity).2
    have hfirst : identity ∈ (job.announce identity).2.announced ∧
        job.announced ⊆ (job.announce identity).2.announced := by
      rw [announce]
      split
      · rename_i hmem
        exact ⟨by simpa using hmem, List.Subset.refl _⟩
      · exact ⟨List.mem_cons_self, List.subset_cons_self _ _⟩
    have hannounce : (∀ event ∈ (job.announce identity).1, event = .identifier identity) ∧
        ∀ other ∈ (job.announce identity).2.announced, other ∈ job.announced ∨
          .identifier other ∈ (job.announce identity).1 := by
      rw [announce]
      split
      · simp +contextual
      · simp +contextual [or_comm]
    refine ⟨fun event he => ?_, List.cons_subset.mpr ⟨hold hfirst.1, hnew⟩,
      List.Subset.trans hfirst.2 hold, fun other ho => ?_⟩
    · rcases List.mem_append.mp he with he | he
      · exact ⟨identity, List.mem_cons_self, hannounce.1 event he⟩
      · obtain ⟨other, hmem, rfl⟩ := hevents event he
        exact ⟨other, List.mem_cons_of_mem _ hmem, rfl⟩
    · rcases hback other ho with ho | ho
      · exact (hannounce.2 other ho).imp_right (List.mem_append_left _)
      · exact .inr (List.mem_append_right _ ho)

theorem announced_count (job : Job) (finding : Event) :
    (job.count finding).announced = job.announced := by
  cases finding <;> rfl

theorem filter_report (job : Job) (finding : Event) :
    (job.report finding).1.filter (·.announced?.isNone) =
      [finding].filter (·.announced?.isNone) := by
  have hannounce : (job.announceAll (named finding)).1.filter (·.announced?.isNone) = [] :=
    List.filter_eq_nil_iff.mpr fun event he => by
      obtain ⟨identity, -, rfl⟩ := (job.spec_of_announceAll _).1 event he
      simp [Event.announced?]
  rw [report, List.filter_append, hannounce, List.nil_append]
  cases finding <;> rfl

/-- Besides announcements, a job sends its findings, in order. -/
theorem filter_reportAll (job : Job) (findings : List Event) :
    (job.reportAll findings).1.filter (·.announced?.isNone) =
      findings.filter (·.announced?.isNone) := by
  induction findings generalizing job with
  | nil => rfl
  | cons finding findings ih =>
    rw [reportAll_cons, List.filter_append, filter_report, ih, ← List.filter_append,
      List.singleton_append]

/-- Whatever a job sends is an announcement or one of its findings. -/
theorem eq_or_mem_of_mem_reportAll {job : Job} (h : event ∈ (job.reportAll findings).1) :
    (∃ identity, event = .identifier identity) ∨ event ∈ findings := by
  cases hannounced : event.announced? with
  | some identity => exact .inl ⟨identity, Event.announced?_eq_some_iff.mp hannounced⟩
  | none =>
    have hmem : event ∈ (job.reportAll findings).1.filter (·.announced?.isNone) :=
      List.mem_filter.mpr ⟨h, by rw [hannounced]; rfl⟩
    rw [filter_reportAll] at hmem
    exact .inr (List.mem_of_mem_filter hmem)

/-- **Identities are announced before they are used.** -/
theorem announced_reportAll (job : Job) (findings : List Event) :
    Announced job.announced (job.reportAll findings).1 := by
  induction findings generalizing job with
  | nil => trivial
  | cons finding findings ih =>
    obtain ⟨hevents, hnamed, -, hback⟩ := job.spec_of_announceAll (named finding)
    have hpayload : Announced (job.announceAll (named finding)).2.announced (payload finding) := by
      cases finding with
      | identifier identity => trivial
      | symbol value => exact ⟨fun _ identity hmem => hnamed hmem, trivial⟩
      | reference value => exact ⟨fun _ identity hmem => hnamed hmem, trivial⟩
    have hannounce : Announced job.announced (job.announceAll (named finding)).1 :=
      announced_of_forall fun event he => by
        obtain ⟨identity, -, rfl⟩ := hevents event he
        simp [Event.announced?]
    rw [reportAll_cons]
    refine (hannounce.append hpayload hback).append (ih _) fun identity hmem => ?_
    rw [report, announced_count] at hmem
    exact (hback identity hmem).imp_right (List.mem_append_left _)

end Job

end ClassAtlas
