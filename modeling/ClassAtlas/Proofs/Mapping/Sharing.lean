import ClassAtlas.Mapping.Crew
import ClassAtlas.Proofs.Mapping.Findings
import ClassAtlas.Proofs.Mapping.Reported

/-!
# Walkers that share a job

The walkers of a job take turns in any order, and what one of them has announced the others do not
announce again. Still the job sends what a single walk would send: the findings in each file come in the
order of the walk over it, with those in the other files anywhere in between, and every identity is
announced before it is used.

## Main definitions

* `ClassAtlas.Interleaves` — a list that is made of the items of some rows, each row in its order.
* `ClassAtlas.Job.Reports` — what a job sends whose walkers are through.
* `ClassAtlas.Job.Progress` — what a job has sent so far.

## Main results

* `ClassAtlas.Job.Progress.start`, `ClassAtlas.Job.Progress.pass`, `ClassAtlas.Job.Progress.send` — what
  the steps of a walker keep.
* `ClassAtlas.Job.Progress.reports` — when all walkers are through, everything was sent.
-/

set_option autoImplicit false

namespace ClassAtlas

/-! ### Lists of which one item changes -/

section Lists

variable {α : Type} {p : α → Prop} {before after : List α} {a b : α}

/-- What holds of the items of a list holds after one of them was dropped. -/
theorem forall_mem_drop (h : ∀ x ∈ before ++ a :: after, p x) : ∀ x ∈ before ++ after, p x := by
  rw [List.forall_mem_append, List.forall_mem_cons] at h
  exact List.forall_mem_append.mpr ⟨h.1, h.2.2⟩

/-- What holds of an item and of the items of a list holds after the item was put in. -/
theorem forall_mem_insert (h : ∀ x ∈ before ++ after, p x) (hb : p b) :
    ∀ x ∈ before ++ b :: after, p x := by
  rw [List.forall_mem_append] at h ⊢
  exact ⟨h.1, List.forall_mem_cons.mpr ⟨hb, h.2⟩⟩

/-- What holds of the items of a list holds after one of them was replaced. -/
theorem forall_mem_replace (h : ∀ x ∈ before ++ a :: after, p x) (hb : p b) :
    ∀ x ∈ before ++ b :: after, p x :=
  forall_mem_insert (forall_mem_drop h) hb

end Lists

/-! ### Rows in any order -/

/-- A list is made of the items of some rows: it takes the first item of some row, and then one of those
that are first then, until nothing is left. -/
inductive Interleaves {α : Type} : List (List α) → List α → Prop where
  /-- Nothing is left. -/
  | nil {rows : List (List α)} (h : ∀ row ∈ rows, row = []) : Interleaves rows []
  /-- The first item of a row comes next. -/
  | cons {before after : List (List α)} {row items : List α} {a : α}
    (h : Interleaves (before ++ row :: after) items) : Interleaves (before ++ (a :: row) :: after) (a :: items)

namespace Interleaves

variable {α β : Type} {rows : List (List α)} {items : List α}

/-- No item is lost, and none is taken twice. -/
theorem perm (h : Interleaves rows items) : items.Perm rows.flatten := by
  induction h with
  | nil h => rw [List.flatten_eq_nil_iff.mpr h]
  | cons h ih =>
    refine (ih.cons _).trans ?_
    simp only [List.flatten_append, List.flatten_cons, List.cons_append]
    exact List.perm_middle.symm

theorem mem_iff (h : Interleaves rows items) {a : α} : a ∈ items ↔ ∃ row ∈ rows, a ∈ row := by
  rw [h.perm.mem_iff, List.mem_flatten]

/-- What is left of the items comes from what is left of the rows. -/
theorem filterMap (h : Interleaves rows items) (f : α → Option β) :
    Interleaves (rows.map (List.filterMap f)) (items.filterMap f) := by
  induction h with
  | nil h =>
    refine .nil (List.forall_mem_map.mpr fun row hrow => ?_)
    rw [h row hrow, List.filterMap_nil]
  | @cons before after row items a h ih =>
    simp only [List.map_append, List.map_cons] at ih ⊢
    cases ha : f a with
    | none => rwa [List.filterMap_cons_none ha, List.filterMap_cons_none ha]
    | some b =>
      rw [List.filterMap_cons_some ha, List.filterMap_cons_some ha]
      exact .cons ih

/-- A row without items does not matter. -/
theorem nil_cons (h : Interleaves rows items) : Interleaves ([] :: rows) items := by
  induction h with
  | nil h => exact .nil (List.forall_mem_cons.mpr ⟨rfl, h⟩)
  | @cons before after row items a _ ih => exact @cons α ([] :: before) after row items a ih

/-- One row after the other. -/
theorem flatten (rows : List (List α)) : Interleaves rows rows.flatten := by
  induction rows with
  | nil => exact .nil (List.forall_mem_nil _)
  | cons row rows ih =>
    induction row with
    | nil => exact ih.nil_cons
    | cons a row ih => exact @cons α [] rows row _ a ih

/-- If at most one row has items, then they come in its order. -/
theorem eq_flatten (h : Interleaves rows items)
    (hrows : rows.Pairwise fun row row' => row = [] ∨ row' = []) : items = rows.flatten := by
  induction h with
  | nil h => rw [List.flatten_eq_nil_iff.mpr h]
  | @cons before after row items a h ih =>
    obtain ⟨hbefore, hafter, hcross⟩ := List.pairwise_append.mp hrows
    obtain ⟨hrow, hafter'⟩ := List.pairwise_cons.mp hafter
    have hnil : ∀ other ∈ before, other = [] := fun other ho =>
      (hcross other ho _ List.mem_cons_self).resolve_right (List.cons_ne_nil a row)
    have hnil' : ∀ other ∈ after, other = [] := fun other ho =>
      (hrow other ho).resolve_left (List.cons_ne_nil a row)
    have hrest : items = (before ++ row :: after).flatten := by
      refine ih (List.pairwise_append.mpr ⟨hbefore, List.pairwise_cons.mpr
        ⟨fun other ho => .inr (hnil' other ho), hafter'⟩, fun other ho _ _ => .inl (hnil other ho)⟩)
    simp only [hrest, List.flatten_append, List.flatten_eq_nil_iff.mpr hnil, List.flatten_cons,
      List.nil_append, List.cons_append]

end Interleaves

/-! ### Calls -/

/-- The findings among some events. -/
def findingsOf (events : List Event) : List Event :=
  events.filter (·.announced?.isNone)

theorem findingsOf_append (events more : List Event) :
    findingsOf (events ++ more) = findingsOf events ++ findingsOf more :=
  List.filter_append ..

/-- Whether an event is a symbol. -/
def Event.isSymbol : Event → Bool
  | .symbol _ => true
  | .identifier _ | .reference _ => false

/-- Whether an event is a reference. -/
def Event.isReference : Event → Bool
  | .reference _ => true
  | .identifier _ | .symbol _ => false

theorem countP_findingsOf {p : Event → Bool} (hp : ∀ identity, p (.identifier identity) = false)
    (events : List Event) : (findingsOf events).countP p = events.countP p := by
  rw [findingsOf, List.countP_filter]
  refine List.countP_congr fun event _ => ?_
  cases event with
  | identifier identity => simp [hp]
  | symbol value => simp [Event.announced?]
  | reference value => simp [Event.announced?]

namespace Job

variable {findings : List Event} {known : List Identity} {identity : Identity}

/-- Besides announcements, the calls for findings are the findings. -/
theorem findingsOf_calls (findings : List Event) :
    findingsOf (findings.flatMap calls) = findingsOf findings := by
  induction findings with
  | nil => rfl
  | cons finding findings ih =>
    have hfirst : findingsOf (calls finding) = findingsOf [finding] := by
      have hnamed : findingsOf ((named finding).map .identifier) = [] :=
        List.filter_eq_nil_iff.mpr (List.forall_mem_map.mpr fun identity _ => by simp)
      rw [calls, findingsOf_append, hnamed, List.nil_append]
      cases finding <;> rfl
    rw [List.flatMap_cons, findingsOf_append, ih, hfirst, ← findingsOf_append, List.singleton_append]

/-- A walker asks for all identities before it uses them. -/
theorem announced_calls (findings : List Event) : Announced known (findings.flatMap calls) := by
  induction findings generalizing known with
  | nil => trivial
  | cons finding findings ih =>
    have hnamed : Announced known ((named finding).map .identifier) :=
      announced_of_forall (List.forall_mem_map.mpr fun identity _ => by simp)
    have hpayload : Announced (named finding) (payload finding) := by
      cases finding with
      | identifier identity => trivial
      | symbol value => exact ⟨fun _ identity hmem => hmem, trivial⟩
      | reference value => exact ⟨fun _ identity hmem => hmem, trivial⟩
    have hcalls : Announced known (calls finding) :=
      hnamed.append hpayload fun identity hmem => .inr (List.mem_map_of_mem hmem)
    exact hcalls.append ih fun identity hmem => .inl hmem

/-- A walker asks for no identity that its findings do not name. -/
theorem exists_of_identifier_mem_calls (h : .identifier identity ∈ findings.flatMap calls) :
    ∃ finding ∈ findings, identity ∈ named finding := by
  obtain ⟨finding, hmem, h⟩ := List.mem_flatMap.mp h
  refine ⟨finding, hmem, ?_⟩
  rcases List.mem_append.mp h with h | h
  · simpa using h
  · cases finding <;> simp [payload] at h

theorem mem_announced_of_isKnown {job : Job} (h : job.isKnown (.identifier identity) = true) :
    identity ∈ job.announced := by
  simpa [isKnown] using h

/-- What a job has announced after it has sent an event. -/
theorem announced_sent (job : Job) (event : Event) :
    (job.sent event).announced = event.announced?.toList ++ job.announced := by
  cases event <;> rfl

end Job

/-- The findings in a file are no announcements. -/
theorem FileRow.findingsOf_findings (file : FileRow) : findingsOf file.findings.1 = file.findings.1 := by
  refine List.filter_eq_self.mpr fun event he => ?_
  have hf := file.resolvable_findings.follows he
  cases event with
  | identifier identity => cases hf
  | symbol value => rfl
  | reference value => rfl

/-! ### Walkers -/

namespace Walker

/-- What a walker still has to ask for. -/
def todo : Walker → List Event
  | .unread file => file.findings.1.flatMap Job.calls
  | .reporting _ _ calls => calls

/-- A walker over a file. -/
def IsOver (file : FileRow) : Walker → Prop
  | .unread walked => walked = file
  | .reporting path outcome _ => path = file.path ∧ outcome = file.findings.2

theorem reading_self (file : FileRow) : reading file file.content =
    .reporting file.path file.findings.2 (file.findings.1.flatMap Job.calls) :=
  rfl

theorem todo_of_isThrough {walker : Walker} (h : walker.isThrough = true) : walker.todo = [] := by
  match walker with
  | .reporting _ _ [] => rfl

theorem isOver_of_isThrough {walker : Walker} {file : FileRow} (h : walker.isThrough = true)
    (hover : walker.IsOver file) (report : MapReport) :
    note report walker = report.note file.path file.findings.2 := by
  match walker with
  | .reporting path outcome [] =>
    obtain ⟨rfl, rfl⟩ := hover
    rfl

end Walker

/-- What a job reports whose walkers came to the end of these files. -/
def MapReport.ofFiles (files : List FileRow) : MapReport :=
  files.foldl (fun report file => report.note file.path file.findings.2)
    { empty with
      jobs := 1
      symbols := (files.flatMap (·.findings.1)).countP Event.isSymbol
      references := (files.flatMap (·.findings.1)).countP Event.isReference }

namespace Job

variable {files : List FileRow} {job : Job} {walkers before after : List Walker} {sent : List Event}
  {walker walker' : Walker} {path : String} {outcome : FileOutcome} {call : Event} {calls : List Event}
  {file : FileRow}

/-- Events of a job that walks over some files. -/
structure Sends (files : List FileRow) (sent : List Event) : Prop where
  /-- Every identity is announced before it is used. -/
  announced : Announced [] sent
  /-- Nothing is announced but what a finding names. -/
  named : ∀ identity, .identifier identity ∈ sent →
    ∃ finding ∈ files.flatMap (·.findings.1), identity ∈ named finding
  /-- The other events are findings. -/
  found : ∀ event ∈ sent, event.announced? = none → event ∈ files.flatMap (·.findings.1)

/-- All events of a job that walks over some files. -/
structure Reports (files : List FileRow) (sent : List Event) : Prop extends Sends files sent where
  /-- The findings in each file come in order. -/
  interleaves : Interleaves (files.map (·.findings.1)) (findingsOf sent)

/-- What a job has sent while its walkers are at work. -/
structure Progress (files : List FileRow) (job : Job) (walkers : List Walker) (sent : List Event) :
    Prop where
  /-- The findings that were sent are the first ones of some files, and the walkers have the others. -/
  interleaves : ∀ rest, Interleaves (walkers.map fun walker => findingsOf walker.todo) rest →
    Interleaves (files.map (·.findings.1)) (findingsOf sent ++ rest)
  /-- Every identity was announced before it was used. -/
  announced : Announced [] sent
  /-- The job knows what it has announced. -/
  known : ∀ identity ∈ job.announced, .identifier identity ∈ sent
  /-- A walker asks for the identities that were not announced before it uses them. -/
  todo : ∀ walker ∈ walkers, Announced job.announced walker.todo
  /-- Nothing was announced but what a finding names. -/
  named : ∀ identity, .identifier identity ∈ sent →
    ∃ finding ∈ files.flatMap (·.findings.1), identity ∈ named finding
  /-- Nothing will be announced but what a finding names. -/
  asks : ∀ walker ∈ walkers, ∀ identity, .identifier identity ∈ walker.todo →
    ∃ finding ∈ files.flatMap (·.findings.1), identity ∈ Job.named finding
  /-- There is a walker for each file. -/
  walkers : List.Forall₂ (fun walker file => walker.IsOver file) walkers files
  /-- The symbols that were sent were counted. -/
  symbols : job.symbols = sent.countP Event.isSymbol
  /-- The references that were sent were counted. -/
  references : job.references = sent.countP Event.isReference

/-- Nothing was sent when the walkers start. -/
theorem Progress.start (name : String) (files : List FileRow) :
    Progress files (Job.start name) (files.map .unread) [] where
  interleaves rest h := by
    have htodo : (files.map Walker.unread).map (fun walker => findingsOf walker.todo) =
        files.map (·.findings.1) := by
      rw [List.map_map]
      refine List.map_congr_left fun file _ => ?_
      change findingsOf (file.findings.1.flatMap Job.calls) = _
      rw [findingsOf_calls, file.findingsOf_findings]
    rwa [htodo] at h
  announced := trivial
  known _ h := by cases h
  todo := List.forall_mem_map.mpr fun file _ => announced_calls _
  named _ h := by cases h
  asks := List.forall_mem_map.mpr fun file hfile identity h => by
    obtain ⟨finding, hmem, hnamed⟩ := exists_of_identifier_mem_calls h
    exact ⟨finding, List.mem_flatMap.mpr ⟨file, hfile, hmem⟩, hnamed⟩
  walkers := by
    rw [List.forall₂_map_left_iff]
    exact List.forall₂_same.mpr fun _ _ => rfl
  symbols := rfl
  references := rfl

/-- A walker changes in place, and stays over its file. -/
theorem forall₂_isOver_replace (h : List.Forall₂ (fun walker file => Walker.IsOver file walker)
    (before ++ walker :: after) files) (hover : ∀ file, walker.IsOver file → walker'.IsOver file) :
    List.Forall₂ (fun walker file => Walker.IsOver file walker) (before ++ walker' :: after) files := by
  induction before generalizing files with
  | nil =>
    cases h with
    | cons hfirst hrest => exact .cons (hover _ hfirst) hrest
  | cons first before ih =>
    cases h with
    | cons hfirst hrest => exact .cons hfirst (ih hrest)

/-- A walker that changes in place without anything being sent. -/
theorem Progress.replace (h : Progress files job (before ++ walker :: after) sent)
    (hfindings : findingsOf walker'.todo = findingsOf walker.todo)
    (htodo : Announced job.announced walker'.todo) (hsub : walker'.todo ⊆ walker.todo)
    (hover : ∀ file, walker.IsOver file → walker'.IsOver file) :
    Progress files job (before ++ walker' :: after) sent where
  interleaves rest hrest := by
    refine h.interleaves rest ?_
    rw [List.map_append, List.map_cons] at hrest ⊢
    rwa [hfindings] at hrest
  announced := h.announced
  known := h.known
  todo := forall_mem_replace h.todo htodo
  named := h.named
  asks := forall_mem_replace h.asks fun identity hi =>
    h.asks walker (List.mem_append_right _ List.mem_cons_self) identity (hsub hi)
  walkers := forall₂_isOver_replace h.walkers hover
  symbols := h.symbols
  references := h.references

/-- A walker reads its file. -/
theorem Progress.read (h : Progress files job (before ++ .unread file :: after) sent) :
    Progress files job (before ++ .reading file file.content :: after) sent := by
  refine h.replace rfl (announced_calls _) (List.Subset.refl _) fun other ho => ?_
  obtain rfl : file = other := ho
  exact ⟨rfl, rfl⟩

/-- A walker names an identity that was announced before. -/
theorem Progress.pass (h : Progress files job (before ++ .reporting path outcome (call :: calls) :: after) sent)
    (hknown : job.isKnown call = true) :
    Progress files job (before ++ .reporting path outcome calls :: after) sent := by
  have htodo : Announced job.announced (call :: calls) :=
    h.todo (.reporting path outcome (call :: calls)) (by simp)
  cases call with
  | identifier identity =>
    refine h.replace rfl (htodo.2.mono ?_) (List.subset_cons_self _ _) fun _ ho => ho
    exact List.cons_subset.mpr ⟨mem_announced_of_isKnown hknown, List.Subset.refl _⟩
  | symbol value => cases hknown
  | reference value => cases hknown

/-- **A walker announces an identity or sends a finding.** What it sends next was the first thing that
it had to ask for, so the findings in its file stay in order; and all identities that a finding names
were announced, by this walker or by another one. -/
theorem Progress.send (h : Progress files job (before ++ .reporting path outcome (call :: calls) :: after) sent) :
    Progress files (job.sent call) (before ++ .reporting path outcome calls :: after) (sent ++ [call]) := by
  have hmem : Walker.reporting path outcome (call :: calls) ∈
      before ++ .reporting path outcome (call :: calls) :: after :=
    List.mem_append_right _ List.mem_cons_self
  have hcalls : Announced job.announced (call :: calls) := h.todo _ hmem
  have hmore : job.announced ⊆ (job.sent call).announced := by
    rw [announced_sent]
    exact List.subset_append_right _ _
  refine ⟨fun rest hrest => ?_, ?_, fun identity hi => ?_,
    forall_mem_replace (fun other ho => (h.todo other ho).mono hmore) ?_, fun identity hi => ?_,
    forall_mem_replace h.asks fun identity hi => h.asks _ hmem identity (List.mem_cons_of_mem _ hi),
    forall₂_isOver_replace h.walkers fun _ ho => ho, ?_, ?_⟩
  · -- a finding that is sent was the first one that its walker had left
    rw [findingsOf_append, List.append_assoc]
    refine h.interleaves _ ?_
    rw [List.map_append, List.map_cons] at hrest ⊢
    change Interleaves (_ ++ findingsOf ([call] ++ calls) :: _) _
    rw [findingsOf_append]
    cases hcall : call.announced? with
    | some identity =>
      have hnil : findingsOf [call] = [] := by simp [findingsOf, hcall]
      rwa [hnil, List.nil_append, List.nil_append]
    | none =>
      have hone : findingsOf [call] = [call] := by simp [findingsOf, hcall]
      rw [hone]
      exact .cons hrest
  · have hcall : Announced job.announced [call] := ⟨hcalls.1, trivial⟩
    exact h.announced.append hcall fun identity hi => .inr (h.known identity hi)
  · rw [announced_sent] at hi
    rcases List.mem_append.mp hi with hi | hi
    · rw [Option.mem_toList, Event.announced?_eq_some_iff] at hi
      exact List.mem_append_right _ (hi ▸ List.mem_singleton_self _)
    · exact List.mem_append_left _ (h.known identity hi)
  · rw [announced_sent]
    exact hcalls.2
  · rcases List.mem_append.mp hi with hi | hi
    · exact h.named identity hi
    · exact h.asks _ hmem identity (List.mem_singleton.mp hi ▸ List.mem_cons_self)
  · rw [List.countP_append, ← h.symbols]
    cases call <;> rfl
  · rw [List.countP_append, ← h.references]
    cases call <;> rfl

theorem Progress.sends (h : Progress files job walkers sent) : Sends files sent where
  announced := h.announced
  named := h.named
  found event he hnone := by
    have hmem : event ∈ findingsOf sent := List.mem_filter.mpr ⟨he, by rw [hnone]; rfl⟩
    have hall := h.interleaves _ (.flatten _)
    obtain ⟨row, hrow, hevent⟩ := hall.mem_iff.mp (List.mem_append_left _ hmem)
    rw [List.flatMap_def]
    exact List.mem_flatten.mpr ⟨row, hrow, hevent⟩

/-- **When all walkers are through, everything was sent**, and the report says how much it was. -/
theorem Progress.reports (h : Progress files job walkers sent)
    (hthrough : walkers.all Walker.isThrough = true) :
    Reports files sent ∧ job.reportOf walkers = .ofFiles files := by
  rw [List.all_eq_true] at hthrough
  have hinterleaves : Interleaves (files.map (·.findings.1)) (findingsOf sent) := by
    have hnone : Interleaves (walkers.map fun walker => findingsOf walker.todo) [] :=
      .nil (List.forall_mem_map.mpr fun walker hw => by
        rw [Walker.todo_of_isThrough (hthrough walker hw)]
        rfl)
    have hall := h.interleaves [] hnone
    rwa [List.append_nil] at hall
  refine ⟨⟨h.sends, hinterleaves⟩, ?_⟩
  have hcount {p : Event → Bool} (hp : ∀ identity, p (.identifier identity) = false) :
      sent.countP p = (files.flatMap (·.findings.1)).countP p := by
    rw [← countP_findingsOf hp, hinterleaves.perm.countP_eq, List.flatMap_def]
  have hnotes : ∀ report : MapReport, walkers.foldl Walker.note report =
      files.foldl (fun report file => report.note file.path file.findings.2) report := by
    have hwalkers := h.walkers
    clear h hinterleaves hcount
    induction hwalkers with
    | nil => exact fun _ => rfl
    | cons hfirst _ ih =>
      obtain ⟨hthis, hrest⟩ := List.forall_mem_cons.mp hthrough
      intro report
      rw [List.foldl_cons, List.foldl_cons, Walker.isOver_of_isThrough hthis hfirst, ih hrest]
  rw [reportOf, hnotes, MapReport.ofFiles, h.symbols, h.references, hcount fun _ => rfl,
    hcount fun _ => rfl]

end Job

end ClassAtlas
