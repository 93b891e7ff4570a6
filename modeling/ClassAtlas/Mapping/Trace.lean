import ClassAtlas.ClassFile.FormatError
import ClassAtlas.Symbol.Basic

/-!
# Traces

Mapping a class file yields events. A trace is the list of everything that a walk over a class comes
across, in order: events, and faults where something does not resolve. A walk ends at its first
fault, so its outcome is the part of the trace before that.

## Main definitions

* `ClassAtlas.Event` — what mapping yields.
* `ClassAtlas.Trace`, with `emit` and `resolve`.
* `ClassAtlas.Trace.outcome` — the events before the first fault, and the fault.

## Main results

* `ClassAtlas.Trace.outcome_append` — the outcome of a trace in two parts.
-/

set_option autoImplicit false

namespace ClassAtlas

/-- What mapping yields. -/
inductive Event where
  /-- An identity is going to be used. -/
  | identifier (identity : Identity)
  /-- A symbol is declared or mentioned. -/
  | symbol (value : Symbol)
  /-- A symbol is used. -/
  | reference (value : Reference)
  deriving DecidableEq, Repr

/-- What a walk comes across, in order. -/
abbrev Trace := List (Except FormatError Event)

/-- The events of a walk, and the fault at which it ended. -/
structure Outcome where
  /-- The events, in order. -/
  events : List Event
  /-- The fault, if the walk did not reach its end. -/
  fault : Option FormatError
  deriving DecidableEq, Repr

namespace Trace

variable {α : Type}

/-- The trace of a single event. -/
def emit (event : Event) : Trace := [.ok event]

/-- The trace that depends on a value that may not resolve. -/
def resolve (value : Except FormatError α) (rest : α → Trace) : Trace :=
  match value with
  | .ok a => rest a
  | .error cause => [.error cause]

/-- The trace that depends on a value that may be absent. -/
def whenSome (value : Option α) (rest : α → Trace) : Trace :=
  match value with
  | some a => rest a
  | none => []

/-- The outcome of a trace behind the reversed events `done`. -/
def outcomeOnto (done : List Event) : Trace → Outcome
  | [] => ⟨done.reverse, none⟩
  | .ok event :: trace => outcomeOnto (event :: done) trace
  | .error cause :: _ => ⟨done.reverse, some cause⟩

/-- The events before the first fault, and the fault. -/
def outcome (trace : Trace) : Outcome :=
  outcomeOnto [] trace

/-- The events so far come before those of the trace. -/
theorem outcomeOnto_eq (done : List Event) (trace : Trace) :
    outcomeOnto done trace = ⟨done.reverse ++ (outcome trace).events, (outcome trace).fault⟩ := by
  induction trace generalizing done with
  | nil => simp [outcome, outcomeOnto]
  | cons step trace ih =>
    cases step with
    | ok event => simp [outcome, outcomeOnto, ih (event :: done), ih [event]]
    | error cause => simp [outcome, outcomeOnto]

/-- An event in front comes before the events of the rest. -/
theorem outcome_cons_ok (event : Event) (trace : Trace) : outcome (.ok event :: trace) =
    ⟨event :: (outcome trace).events, (outcome trace).fault⟩ :=
  outcomeOnto_eq [event] trace

/-- The outcome of a trace in two parts: the second part only counts if the first has no fault. -/
theorem outcome_append (a b : Trace) :
    outcome (a ++ b) =
      match (outcome a).fault with
      | some cause => ⟨(outcome a).events, some cause⟩
      | none => ⟨(outcome a).events ++ (outcome b).events, (outcome b).fault⟩ := by
  induction a with
  | nil => simp [outcome, outcomeOnto]
  | cons step a ih =>
    cases step with
    | ok event =>
      rw [List.cons_append, outcome_cons_ok, outcome_cons_ok, ih]
      cases (outcome a).fault <;> simp
    | error cause => simp [outcome, outcomeOnto]

end Trace

end ClassAtlas
