import Verity.Model.NativeWebhook

/-!
# The auto-resolve scheduler

Every ingest that changed facts marks its tenant as dirty when it ends; a background loop runs the
resolver for the tenants that are dirty and past the debounce window, and clears the mark when the
run is over. Ingests run concurrently with each other and with the loop: an ingest in flight is
what is left of its fact writes, each a transaction of its own, and may end with an error before
any of them. A run is its read of the current facts, in one query, and the stamp after it, whether
the run succeeded or not; runs that fail before that query are left out.

The chunks and episodes of an ingest are left out, as the resolver is triggered for the facts. What
the last run of a tenant read is kept beside the tables.
-/

set_option autoImplicit false

namespace Verity.Model

open Verity.Foundation

/-! ## The scheduler -/

/-- SOURCE: scheduler.rs:37-46 -/
structure TenantState where
  dirty : Bool
  lastResolve : Option Nat
deriving DecidableEq, Repr

/-- The hash map is a list of entries. Instants and durations are counted in one unit.
SOURCE: scheduler.rs:48-54 -/
structure ResolutionScheduler where
  debounce : Option Nat
  tenants : List (TenantId × TenantState)
deriving DecidableEq, Repr

/-- SOURCE: scheduler.rs:59-72 -/
def due (dirty : Bool) (lastResolve : Option Nat) (now debounce : Nat) : Bool :=
  if !dirty || debounce == 0 then false
  else
    match lastResolve with
    | none => true
    | some last => decide (debounce ≤ now - last)

namespace ResolutionScheduler

def entryOf (s : ResolutionScheduler) (tenant : TenantId) : Option TenantState :=
  (s.tenants.find? fun e => decide (e.1 = tenant)).map Prod.snd

/-- A change of `entry(tenant).or_default()`. -/
def modify (s : ResolutionScheduler) (tenant : TenantId) (f : TenantState → TenantState) :
    ResolutionScheduler :=
  { s with
    tenants :=
      match s.entryOf tenant with
      | none => s.tenants ++ [(tenant, f ⟨false, none⟩)]
      | some _ => updateWhere (fun e => decide (e.1 = tenant)) (fun e => (e.1, f e.2)) s.tenants }

def isDirty (s : ResolutionScheduler) (tenant : TenantId) : Bool :=
  (s.entryOf tenant).any TenantState.dirty

/-- SOURCE: scheduler.rs:117-126 -/
def markDirty (s : ResolutionScheduler) (tenant : TenantId) : ResolutionScheduler :=
  if s.debounce.isNone then s else s.modify tenant fun st => { st with dirty := true }

/-- SOURCE: scheduler.rs:128-141 -/
def dueTenants (s : ResolutionScheduler) (now : Nat) : List TenantId :=
  match s.debounce with
  | none => []
  | some debounce =>
    (s.tenants.filter fun e => due e.2.dirty e.2.lastResolve now debounce).map Prod.fst

/-- SOURCE: scheduler.rs:143-152 -/
def stampResolved (s : ResolutionScheduler) (tenant : TenantId) (now : Nat) : ResolutionScheduler :=
  s.modify tenant fun _ => ⟨false, some now⟩

end ResolutionScheduler

/-! ## Ingests -/

/-- SOURCE: ingest.rs:57-65 -/
inductive ChangeOp where
  | upsert
  | delete
deriving DecidableEq, Repr

/-- An envelope as `parse_envelope` normalizes it. SOURCE: ingest.rs:37-55 -/
structure ChangeEvent where
  source : String
  entityId : String
  op : ChangeOp
  fields : List (String × Json)
  occurredAt : Instant
  acl : Option ResolvedAcl
deriving DecidableEq

/-- A statement that changes facts. -/
inductive FactChange where
  | upsertFact (fact : FactWrite)
  | retireEntity (source entityId : String) (deletedAt : Instant)
deriving DecidableEq

/-- The tables after the statement, and what it adds to the counts of facts inserted, superseded
and retired. SOURCE: main.rs:3751-3796 -/
def FactChange.execute (db : Database) (tenant : TenantId) (now : Time) :
    FactChange → Except StorageError (Database × Nat)
  | .upsertFact fact => do
      let (db, outcome) ← db.upsertFact now fact
      pure (db, if outcome = .inserted ∨ outcome = .superseded then 1 else 0)
  | .retireEntity source entityId deletedAt =>
    pure (db.retireEntity tenant source entityId deletedAt)

/-- The fact writes of an event whose episode is stored. SOURCE: main.rs:3751-3796 -/
def ChangeEvent.changes (tenant : TenantId) (episode : EpisodeId) (ev : ChangeEvent) :
    List FactChange :=
  match ev.op with
  | .delete => [.retireEntity ev.source ev.entityId ev.occurredAt]
  | .upsert =>
    match ev.acl with
    | none => []
    | some acl =>
      ev.fields.map fun (field, value) => .upsertFact
        { tenantId := tenant
          key := ⟨ev.source, ev.entityId, field⟩
          value := value
          validFrom := ev.occurredAt
          visibility := acl.visibility
          confidentiality := acl.confidentiality
          provenance := episode
          aclProvenance := acl.provenance }

/-- A quarantined payload that an admin ingests again. SOURCE: main.rs:7620-7643 -/
structure Reingest where
  tenantId : TenantId
  visibility : List PrincipalToken
  confidentiality : Confidentiality
  episodeId : EpisodeId
  receivedAt : Instant
  facts : List NativeFact
deriving DecidableEq

def Reingest.fact (r : Reingest) (f : NativeFact) : FactWrite where
  tenantId := r.tenantId
  key := ⟨f.source, f.entityId, f.field⟩
  value := f.value
  validFrom := f.validFrom.getD r.receivedAt
  visibility := r.visibility
  confidentiality := r.confidentiality
  provenance := r.episodeId
  aclProvenance := .adminAssigned

/-- What the ingest paths are called with, from where their first fact write is. An envelope that
does not parse ends its batch. -/
inductive IngestRequest where
  | debezium (tenant : TenantId) (envelopes : List (EpisodeId × Option ChangeEvent))
  | documents (tenant : TenantId)
  | file (tenant : TenantId)
  | webhook (hook : NativeWebhook) (d : NativeDelivery) (visibility : List PrincipalToken)
      (facts : List NativeFact)
  | manifest (instant : DateTime → Instant) (ctx : WriteContext) (writes : List EntityWrites)
  | reingest (r : Reingest)

/-- The ways an ingest ends well. -/
inductive IngestPath where
  | debezium
  | manifest
  | other
deriving DecidableEq, Repr

/-- What an ingest in flight has still to do, where nothing is an envelope that does not parse, and
the facts it has inserted, superseded and retired so far. -/
structure Ingest where
  path : IngestPath
  tenant : TenantId
  todo : List (Option FactChange)
  changed : Nat
deriving DecidableEq

/-- Whether the ingest marks its tenant when it ends well: always after documents, files, native
payloads and payloads from the quarantine; for Debezium only if it changed a fact; a delivery to a
manifest never. SOURCE: main.rs:3801-3807, 4368-4371, 7670, media.rs:393, webhooks.rs:372,
manifests.rs:484-504 -/
def Ingest.marks (ing : Ingest) : Bool :=
  match ing.path with
  | .debezium => decide (0 < ing.changed)
  | .manifest => false
  | .other => true

def IngestRequest.start : IngestRequest → Ingest
  | .debezium tenant envelopes =>
    { path := .debezium
      tenant := tenant
      todo := envelopes.flatMap fun (episode, event) =>
        match event with
        | none => [none]
        | some ev => (ev.changes tenant episode).map some
      changed := 0 }
  | .documents tenant => ⟨.other, tenant, [], 0⟩
  | .file tenant => ⟨.other, tenant, [], 0⟩
  | .webhook hook d visibility facts =>
    ⟨.other, hook.tenantId,
      facts.map fun f => some (.upsertFact (hook.fact d visibility f)), 0⟩
  | .manifest instant ctx writes =>
    ⟨.manifest, ctx.tenantId,
      (entityFacts instant ctx writes).map fun w => some (.upsertFact w.2), 0⟩
  | .reingest r => ⟨.other, r.tenantId, r.facts.map fun f => some (.upsertFact (r.fact f)), 0⟩

/-! ## The server -/

/-- The rows the resolver reads. SOURCE: postgres.rs:1185-1193 -/
def currentFacts (db : Database) (tenant : TenantId) : List FactRow :=
  db.facts.rows.filter fun r => decide (r.tenantId = tenant ∧ r.validTo = none)

/-- The ingests in flight, the tenants the loop has still to resolve, the tenant it resolves now
with what the run has read, and what the last run of each tenant read. -/
structure ResolvingServer where
  db : Database
  scheduler : ResolutionScheduler
  ingests : List Ingest
  due : List TenantId
  running : Option (TenantId × List FactRow)
  lastRead : TenantId → List FactRow

/-- What can happen next: an ingest begins, the ingest at a position makes its next fact write,
ends with an error or ends well; the loop lists the due tenants, a run of the first of them reads
the facts, and the run that has read is stamped. -/
inductive ResolvingEvent where
  | begin (request : IngestRequest)
  | write (i : Nat) (now : Time)
  | fail (i : Nat)
  | finish (i : Nat)
  | tick (now : Nat) (order : List TenantId)
  | read
  | stamp (now : Nat)

namespace ResolvingServer

/-- The server is started with the facts as they are. -/
def boot (db : Database) (debounce : Nat) : ResolvingServer where
  db := db
  scheduler := ⟨some debounce, []⟩
  ingests := []
  due := []
  running := none
  lastRead := currentFacts db

/-- SOURCE: main.rs:2173-2199 for the loop, and the ends of the ingest handlers -/
def step (s : ResolvingServer) : ResolvingEvent → Option ResolvingServer
  | .begin request => some { s with ingests := s.ingests ++ [request.start] }
  | .write i now =>
    match s.ingests[i]? with
    | some ⟨path, tenant, some change :: todo, changed⟩ =>
      match change.execute s.db tenant now with
      | .error _ => none
      | .ok (db, count) =>
        some { s with
          db := db
          ingests := s.ingests.set i ⟨path, tenant, todo, changed + count⟩ }
    | _ => none
  | .fail i =>
    match s.ingests[i]? with
    | none => none
    | some _ => some { s with ingests := s.ingests.eraseIdx i }
  | .finish i =>
    match s.ingests[i]? with
    | some ing =>
      if ing.todo = [] then
        some { s with
          ingests := s.ingests.eraseIdx i
          scheduler := if ing.marks then s.scheduler.markDirty ing.tenant else s.scheduler }
      else none
    | none => none
  | .tick now order =>
    if s.due = [] ∧ s.running = none ∧ order.Perm (s.scheduler.dueTenants now) then
      some { s with due := order }
    else none
  | .read =>
    match s.due, s.running with
    | tenant :: rest, none =>
      some { s with due := rest, running := some (tenant, currentFacts s.db tenant) }
    | _, _ => none
  | .stamp now =>
    match s.running with
    | none => none
    | some (tenant, rows) =>
      some { s with
        scheduler := s.scheduler.stampResolved tenant now
        running := none
        lastRead := Function.update s.lastRead tenant rows }

end ResolvingServer

end Verity.Model
