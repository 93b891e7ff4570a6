import ClassAtlas.Mapping.Trace

/-!
# Jobs

A mapping job reports symbols and references. Before it sends one of them, it announces the
identities that it names, each identity once.

## Main definitions

* `ClassAtlas.Job` — what a job has announced and sent.
* `ClassAtlas.Job.report` — the events that a job sends for one finding.
* `ClassAtlas.Job.reportAll` — the events for a list of findings.
-/

set_option autoImplicit false

namespace ClassAtlas

/-- The state of a mapping job. -/
structure Job where
  /-- The name of the file for which the job runs. -/
  name : String
  /-- The identities that were announced, the latest one first. -/
  announced : List Identity
  /-- How many symbols were sent. -/
  symbols : Nat
  /-- How many references were sent. -/
  references : Nat
  deriving DecidableEq, Repr

namespace Job

/-- A job that has sent nothing. -/
def start (name : String) : Job := ⟨name, [], 0, 0⟩

/-- Announces an identity, unless that was done before. -/
def announce (job : Job) (identity : Identity) : List Event × Job :=
  if job.announced.contains identity then ([], job)
  else ([.identifier identity], { job with announced := identity :: job.announced })

/-- Announces some identities, one after the other. -/
def announceAll (job : Job) : List Identity → List Event × Job
  | [] => ([], job)
  | identity :: identities =>
    let (events, job) := job.announce identity
    let (more, job) := announceAll job identities
    (events ++ more, job)

/-- The identities that a finding names: the symbol and its owner, or the target of a reference and
its owner. -/
def named : Event → List Identity
  | .identifier identity => [identity]
  | .symbol value => value.identity :: value.owner.toList
  | .reference value => [value.target, value.owner]

/-- The job after it has sent a finding, which is counted. -/
def count (job : Job) : Event → Job
  | .identifier _ => job
  | .symbol _ => { job with symbols := job.symbols + 1 }
  | .reference _ => { job with references := job.references + 1 }

/-- What is sent for a finding besides the announcements. -/
def payload : Event → List Event
  | .identifier _ => []
  | event => [event]

/-- Sends a finding behind the announcements that it needs. -/
def report (job : Job) (finding : Event) : List Event × Job :=
  let (events, job) := job.announceAll (named finding)
  (events ++ payload finding, job.count finding)

/-- Sends findings behind the reversed events `done`. -/
def reportOnto (done : List Event) (job : Job) : List Event → List Event × Job
  | [] => (done.reverse, job)
  | finding :: findings =>
    let (events, job) := job.report finding
    reportOnto (events.reverse ++ done) job findings

/-- Sends findings, one after the other. -/
def reportAll (job : Job) (findings : List Event) : List Event × Job :=
  job.reportOnto [] findings

end Job

end ClassAtlas
