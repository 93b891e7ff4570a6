import ClassAtlas.Store.Files
import ClassAtlas.Store.References

/-!
# The index of a workspace

An index is a store with a cache of the numbers of identities. Changes of the store run as
transactions; the cache learns of numbers only after the transaction that assigned them.

## Main definitions

* `ClassAtlas.IdentityCache`, with `get?`, `remember` and `forget`.
* `ClassAtlas.Index`, `ClassAtlas.Session` — work on an index that may fail and keeps what was done
  before the failure.
* `ClassAtlas.Index.transact` — a transaction as a step of a session: all of it or nothing.
* `ClassAtlas.Index.intern`, `internAll`, `lookup` — numbers of identities through the cache.
-/

set_option autoImplicit false

namespace ClassAtlas

/-- Numbers of identities that were looked up before, the latest one first. -/
structure IdentityCache where
  /-- The identities with their numbers. -/
  entries : List (Identity × RowId)
  deriving DecidableEq, Repr

namespace IdentityCache

/-- The cache that knows nothing. -/
def empty : IdentityCache := ⟨[]⟩

/-- The number of an identity, if the cache knows it. -/
def get? (cache : IdentityCache) (identity : Identity) : Option RowId :=
  cache.entries.lookup identity

/-- The cache without an identity. -/
def forget (cache : IdentityCache) (identity : Identity) : IdentityCache :=
  ⟨cache.entries.filter (·.1 != identity)⟩

/-- The cache with the number of an identity; an older number of it is forgotten. -/
def remember (cache : IdentityCache) (identity : Identity) (id : RowId) : IdentityCache :=
  ⟨(identity, id) :: (cache.forget identity).entries⟩

/-- The cache with the numbers of some identities, one after the other. -/
def rememberAll (cache : IdentityCache) (numbers : List (Identity × RowId)) : IdentityCache :=
  numbers.foldl (fun cache pair => cache.remember pair.1 pair.2) cache

end IdentityCache

/-- A store with a cache of the numbers of identities. -/
structure Index where
  /-- The tables. -/
  store : Store
  /-- The numbers that were looked up before. -/
  cache : IdentityCache
  deriving DecidableEq, Repr

/-- Work on an index. A failure keeps what was done before it. -/
abbrev Session (α : Type) := ExceptT Error (StateM Index) α

/-- The numbers of some identities, each of which is added if it is not known, in the given order. -/
def Store.internAll (identities : List Identity) : Transaction (List (Identity × RowId)) :=
  identities.mapM fun identity => do return (identity, ← internIdentity identity)

namespace Index

variable {α : Type}

/-- The index of an empty workspace. -/
def empty : Index := ⟨Store.empty, IdentityCache.empty⟩

/-- Runs a transaction: if it fails, the index stays as it is. -/
def transact (change : Transaction α) : Session α := fun index =>
  match change index.store with
  | .ok (a, store) => (.ok a, { index with store })
  | .error e => (.error e, index)

/-- Asks the store something. -/
def query (question : Store → Except Error α) : Session α := fun index =>
  (question index.store, index)

/-- Changes the cache. -/
def updateCache (f : IdentityCache → IdentityCache) : Session Unit := fun index =>
  (.ok (), { index with cache := f index.cache })

/-- The number of an identity, which is added if it is not known and then cached. -/
def intern (identity : Identity) : Session RowId := do
  let id ← transact (Store.internIdentity identity)
  updateCache (·.remember identity id)
  return id

/-- The numbers of some identities, in one transaction; all of them are then cached. -/
def internAll (identities : List Identity) : Session (List (Identity × RowId)) := do
  let numbers ← transact (Store.internAll identities)
  updateCache (·.rememberAll numbers)
  return numbers

/-- The number of an identity that has to be known; the store is asked only if the cache does not
know it, and the answer is cached. -/
def lookup (identity : Identity) : Session RowId := fun index =>
  match index.cache.get? identity with
  | some id => (.ok id, index)
  | none =>
    match index.store.identityId? identity with
    | some id => (.ok id, { index with cache := index.cache.remember identity id })
    | none => (.error (.unknownIdentity identity.text), index)

end Index

end ClassAtlas
