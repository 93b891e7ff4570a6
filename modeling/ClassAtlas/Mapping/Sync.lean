import ClassAtlas.Mapping.Trace
import ClassAtlas.Store.Index

/-!
# Events into the index

A slice of events enters the index in one transaction: first the identities that it announces, then
its symbols and references, in order. The cache learns the numbers after that.

## Main definitions

* `ClassAtlas.Event.announced?` — the identity that an event announces.
* `ClassAtlas.Store.applyEvents` — the transaction.
* `ClassAtlas.Index.sync` — the index after a slice, and the numbers of the announced identities.
-/

set_option autoImplicit false

namespace ClassAtlas

/-- The identity that an event announces. -/
def Event.announced? : Event → Option Identity
  | .identifier identity => some identity
  | .symbol _ | .reference _ => none

namespace Store

/-- Stores the symbol or the reference of an event; announcements are stored before. -/
def applyEvent : Event → Transaction Unit
  | .identifier _ => pure ()
  | .symbol value => do let _ ← insertSymbol value
  | .reference value => do let _ ← insertReference value

/-- Stores a slice of events and returns the numbers of the identities that it announces, in
order. -/
def applyEvents (events : List Event) : Transaction (List (Identity × RowId)) := do
  let numbers ← internAll (events.filterMap Event.announced?)
  events.forM applyEvent
  return numbers

end Store

/-- The index after a slice of events, and the numbers of the identities that the slice announces. -/
def Index.sync (events : List Event) (index : Index) :
    Except Error (List (Identity × RowId) × Index) := do
  let (numbers, store) ← Store.applyEvents events index.store
  return (numbers, ⟨store, index.cache.rememberAll numbers⟩)

end ClassAtlas
