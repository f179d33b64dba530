import Mathlib.Logic.Function.Basic
import Verity.Model.Retirement

/-!
# The fact cache over the whole adapter

`CachedAdapter` over the tables: the operations that read or write facts, and those that only
touch chunks. A read that misses asks the store and keeps the row it gets; a write decides from
its own outcome whether to drop its key, and an operation that closed rows drops everything.

A cached row may leave the cache at any moment (`evict`). A call that fails does nothing.

The second half takes the calls apart. A read that misses reads the store and puts the row into
the cache in two steps, and a write commits and drops cached rows in two steps; other calls may
come in between (`Interleaved`).
-/

set_option autoImplicit false

namespace Verity.Model

/-! ## The cache and the corrections

`CachedAdapter`: a cache of current rows in front of the store, keyed by tenant and fact key
and shared by all scopes. A read applies `factVisible` to whatever row it finds; a write
that changes the current row drops the key. ACL corrections go to the inner store, past the
cache (`state.storage.inner()`).

The cache may forget a row at any moment (`evict`): its capacity is bounded, and it may
decline to keep a row it is given.
-/

/-- SOURCE: cache.rs:26-29 -/
structure CachedAdapter where
  inner : Store
  facts : TenantId × FactKey → Option FactRow

namespace CachedAdapter

def invalidate (c : CachedAdapter) (k : TenantId × FactKey) : CachedAdapter :=
  { c with facts := Function.update c.facts k none }

def insert (c : CachedAdapter) (k : TenantId × FactKey) (row : FactRow) : CachedAdapter :=
  { c with facts := Function.update c.facts k (some row) }

/-- SOURCE: cache.rs:73-86 -/
def upsertFact (c : CachedAdapter) (now : Time) (fact : FactWrite) :
    CachedAdapter × Except StorageError FactUpsertOutcome :=
  match Model.upsertFact c.inner.facts now fact with
  | .error e => (c, .error e)
  | .ok (facts, outcome) =>
    let c := { c with inner := { c.inner with facts := facts } }
    match outcome with
    | .inserted | .superseded => (c.invalidate (fact.tenantId, fact.key), .ok outcome)
    | .unchanged | .staleEvent => (c, .ok outcome)

/-- SOURCE: cache.rs:88-111 -/
def currentFact (c : CachedAdapter) (scope : Scope) (key : FactKey) :
    CachedAdapter × Option FactRow :=
  match c.facts (scope.tenantId, key) with
  | some hit => (c, if factVisible scope hit then some hit else none)
  | none =>
    match Model.currentFact c.inner.facts scope key with
    | some fact => (c.insert (scope.tenantId, key) fact, (some fact).filter (factVisible scope))
    | none => (c, none)

/-- One call on the server, or a row leaving the cache. -/
inductive Call where
  | upsert (now : Time) (fact : FactWrite)
  | read (scope : Scope) (key : FactKey)
  | correct (req : AclChangeRequest) (reason : AclCorrectionReason) (changedBy : String)
  | evict (tenant : TenantId) (key : FactKey)

/-- The adapter after one call. -/
def call (c : CachedAdapter) : Call → CachedAdapter
  | .upsert now fact => (c.upsertFact now fact).1
  | .read scope key => (c.currentFact scope key).1
  | .correct req reason changedBy =>
    { c with inner := (dispatchAclCorrection c.inner req reason changedBy).1 }
  | .evict tenant key => c.invalidate (tenant, key)

/-- The adapter of a server that has just started over a store. -/
def boot (store : Store) : CachedAdapter where
  inner := store
  facts := fun _ => none

/-- One call as a step of a run; every call returns. -/
def step (c : CachedAdapter) (call : Call) : Option CachedAdapter :=
  some (c.call call)

end CachedAdapter

/-! ## The whole adapter -/

abbrev CacheKey := TenantId × FactKey

/-- SOURCE: cache.rs:26-29 -/
structure CachedDatabase where
  inner : Database
  facts : CacheKey → Option FactRow

/-- One call on the adapter, or a row leaving the cache. -/
inductive AdapterCall where
  | upsertFact (now : Time) (fact : FactWrite)
  | currentFact (scope : Scope) (key : FactKey)
  | upsertChunks (now : Time) (writes : List ChunkWrite)
  | forget (now : Time) (tenant : TenantId) (ref : ForgetRef)
  | retireEntity (tenant : TenantId) (source entityId : String) (deletedAt : Time)
  | retireDocument (now : Time) (tenant : TenantId) (source documentId : String)
  | evict (k : CacheKey)

/-- What a call returns; the number of chunks an upsert wrote is left out. -/
inductive AdapterReply where
  | upserted (outcome : Except StorageError FactUpsertOutcome)
  | fact (row : Option FactRow)
  | retired (rows : Nat)
  | done

/-- The calls on the bare store. -/
def Database.call (db : Database) : AdapterCall → Database × AdapterReply
  | .upsertFact now fact =>
    match db.upsertFact now fact with
    | .error e => (db, .upserted (.error e))
    | .ok (db, outcome) => (db, .upserted (.ok outcome))
  | .currentFact scope key => (db, .fact (Model.currentFact db.facts scope key))
  | .upsertChunks now writes => (db.upsertChunks now writes, .done)
  | .forget now tenant ref =>
    let (db, retired) := db.forget now tenant ref
    (db, .retired retired)
  | .retireEntity tenant source entityId deletedAt =>
    let (db, retired) := db.retireEntity tenant source entityId deletedAt
    (db, .retired retired)
  | .retireDocument now tenant source documentId =>
    let (db, retired) := db.retireDocument now tenant source documentId
    (db, .retired retired)
  | .evict _ => (db, .done)

/-- What the bare store returns to a sequence of calls. -/
def Database.replies (db : Database) : List AdapterCall → List AdapterReply
  | [] => []
  | a :: calls => (db.call a).2 :: (db.call a).1.replies calls

namespace CachedDatabase

/-- A server that has just started over the tables. -/
def boot (db : Database) : CachedDatabase where
  inner := db
  facts := fun _ => none

def insert (c : CachedDatabase) (k : CacheKey) (row : FactRow) : CachedDatabase :=
  { c with facts := Function.update c.facts k (some row) }

def invalidate (c : CachedDatabase) (k : CacheKey) : CachedDatabase :=
  { c with facts := Function.update c.facts k none }

def invalidateAll (c : CachedDatabase) : CachedDatabase :=
  { c with facts := fun _ => none }

/-- SOURCE: cache.rs:74-87 -/
def upsertFact (c : CachedDatabase) (now : Time) (fact : FactWrite) :
    CachedDatabase × Except StorageError FactUpsertOutcome :=
  match c.inner.upsertFact now fact with
  | .error e => (c, .error e)
  | .ok (db, outcome) =>
    let c := { c with inner := db }
    match outcome with
    | .inserted | .superseded => (c.invalidate (fact.tenantId, fact.key), .ok outcome)
    | .unchanged | .staleEvent => (c, .ok outcome)

/-- SOURCE: cache.rs:89-112 -/
def currentFact (c : CachedDatabase) (scope : Scope) (key : FactKey) :
    CachedDatabase × Option FactRow :=
  match c.facts (scope.tenantId, key) with
  | some hit => (c, if factVisible scope hit then some hit else none)
  | none =>
    match Model.currentFact c.inner.facts scope key with
    | some fact => (c.insert (scope.tenantId, key) fact, (some fact).filter (factVisible scope))
    | none => (c, none)

/-- Only the forgetting of an episode reaches facts. SOURCE: cache.rs:182-192 -/
def forget (c : CachedDatabase) (now : Time) (tenant : TenantId) (ref : ForgetRef) :
    CachedDatabase × Nat :=
  let (db, retired) := c.inner.forget now tenant ref
  let c := { c with inner := db }
  match ref with
  | .episode _ => (if retired > 0 then c.invalidateAll else c, retired)
  | .chunk _ => (c, retired)

/-- SOURCE: cache.rs:194-212 -/
def retireEntity (c : CachedDatabase) (tenant : TenantId) (source entityId : String)
    (deletedAt : Time) : CachedDatabase × Nat :=
  let (db, retired) := c.inner.retireEntity tenant source entityId deletedAt
  let c := { c with inner := db }
  (if retired > 0 then c.invalidateAll else c, retired)

/-- SOURCE: cache.rs:214-226 -/
def retireDocument (c : CachedDatabase) (now : Time) (tenant : TenantId)
    (source documentId : String) : CachedDatabase × Nat :=
  let (db, retired) := c.inner.retireDocument now tenant source documentId
  ({ c with inner := db }, retired)

def call (c : CachedDatabase) : AdapterCall → CachedDatabase × AdapterReply
  | .upsertFact now fact =>
    let (c, outcome) := c.upsertFact now fact
    (c, .upserted outcome)
  | .currentFact scope key =>
    let (c, row) := c.currentFact scope key
    (c, .fact row)
  | .upsertChunks now writes => ({ c with inner := c.inner.upsertChunks now writes }, .done)
  | .forget now tenant ref =>
    let (c, retired) := c.forget now tenant ref
    (c, .retired retired)
  | .retireEntity tenant source entityId deletedAt =>
    let (c, retired) := c.retireEntity tenant source entityId deletedAt
    (c, .retired retired)
  | .retireDocument now tenant source documentId =>
    let (c, retired) := c.retireDocument now tenant source documentId
    (c, .retired retired)
  | .evict k => (c.invalidate k, .done)

/-- The adapter after a sequence of calls. -/
def after (c : CachedDatabase) (calls : List AdapterCall) : CachedDatabase :=
  calls.foldl (fun c a => (c.call a).1) c

/-- What the adapter returns to a sequence of calls. -/
def replies (c : CachedDatabase) : List AdapterCall → List AdapterReply
  | [] => []
  | a :: calls => (c.call a).2 :: (c.call a).1.replies calls

end CachedDatabase

/-! ## Calls in several steps -/

/-- A call that is under way, by what it does next: read the store after a miss, put the row it
read into the cache, drop the key it wrote, or drop everything. -/
inductive InFlight where
  | reading (scope : Scope) (key : FactKey)
  | inserting (k : CacheKey) (row : FactRow)
  | invalidating (k : CacheKey)
  | flushing
deriving DecidableEq, Repr

/-- The adapter and the calls that are under way. -/
structure Interleaved where
  adapter : CachedDatabase
  inFlight : List InFlight

/-- A call begins, a call that is under way takes its next step, or a row leaves the cache. -/
inductive AdapterEvent where
  | lookup (scope : Scope) (key : FactKey)
  | upsertFact (now : Time) (fact : FactWrite)
  | forget (now : Time) (tenant : TenantId) (ref : ForgetRef)
  | retireEntity (tenant : TenantId) (source entityId : String) (deletedAt : Time)
  | resume (i : Nat)
  | evict (k : CacheKey)

namespace Interleaved

/-- A server that has just started over the tables. -/
def boot (db : Database) : Interleaved where
  adapter := .boot db
  inFlight := []

/-- The store after a commit, and what the call still has to do. -/
def commit (w : Interleaved) (db : Database) (next : List InFlight) : Interleaved where
  adapter := { w.adapter with inner := db }
  inFlight := w.inFlight ++ next

/-- What an upsert does after its commit. SOURCE: cache.rs:77-84 -/
def afterUpsert (k : CacheKey) : FactUpsertOutcome → List InFlight
  | .inserted | .superseded => [.invalidating k]
  | .unchanged | .staleEvent => []

/-- What a forget does after its commit. SOURCE: cache.rs:184-190 -/
def afterForget (retired : Nat) : ForgetRef → List InFlight
  | .episode _ => if retired > 0 then [.flushing] else []
  | .chunk _ => []

/-- The next step of a call that is under way, taken off the list. -/
def resume (w : Interleaved) : InFlight → Interleaved
  | .reading scope key =>
    match Model.currentFact w.adapter.inner.facts scope key with
    | some fact => { w with inFlight := w.inFlight ++ [.inserting (scope.tenantId, key) fact] }
    | none => w
  | .inserting k row => { w with adapter := w.adapter.insert k row }
  | .invalidating k => { w with adapter := w.adapter.invalidate k }
  | .flushing => { w with adapter := w.adapter.invalidateAll }

/-- One step of the system. A lookup that hits returns at once. -/
def step (w : Interleaved) : AdapterEvent → Option Interleaved
  | .lookup scope key =>
    match w.adapter.facts (scope.tenantId, key) with
    | some _ => some w
    | none => some { w with inFlight := w.inFlight ++ [.reading scope key] }
  | .upsertFact now fact =>
    match w.adapter.inner.upsertFact now fact with
    | .error _ => some w
    | .ok (db, outcome) => some (w.commit db (afterUpsert (fact.tenantId, fact.key) outcome))
  | .forget now tenant ref =>
    let (db, retired) := w.adapter.inner.forget now tenant ref
    some (w.commit db (afterForget retired ref))
  | .retireEntity tenant source entityId deletedAt =>
    let (db, retired) := w.adapter.inner.retireEntity tenant source entityId deletedAt
    some (w.commit db (if retired > 0 then [.flushing] else []))
  | .resume i =>
    match w.inFlight[i]? with
    | some f => some ({ w with inFlight := w.inFlight.eraseIdx i }.resume f)
    | none => none
  | .evict k => some { w with adapter := w.adapter.invalidate k }

end Interleaved

end Verity.Model
