import Mathlib.Logic.Function.Basic
import Verity.Model.Briefs

/-!
# Migrating the embeddings

Every chunk has a second vector column that only the backfill fills. The command line client asks
for one batch after another until a batch finds nothing to do; the server reads the chunks that
lack the vector, encodes their stored text, and writes what is still missing. A cutover then makes
the dense leg of recall read the second column, for one tenant or as the default of all, and is
refused while the backfill is incomplete unless it is forced.

The route is a row of `settings`. Every server process keeps the routes it has looked up in a cache
without expiry, which a cutover flushes in the process that serves it.

A request is taken apart where other requests can come in between: reading and filling a batch;
reading the coverage, writing the route and flushing the cache; reading the route on a miss and
keeping it. A request may also be dropped between its parts. The encoder is a parameter. The
registry of models, the counts that a batch reports, and the ranking of the dense leg are left out.
-/

set_option autoImplicit false

namespace Verity.Model

open Verity.Foundation

/-! ## Routes -/

/-- SOURCE: types.rs:646-651 -/
inductive EmbeddingRoute where
  | v1
  | v2
deriving DecidableEq, Repr

/-- SOURCE: types.rs:654-659 -/
def EmbeddingRoute.asStr : EmbeddingRoute → String
  | v1 => "v1"
  | v2 => "v2"

/-- SOURCE: types.rs:660-666 -/
def EmbeddingRoute.fromStrLossy (s : String) : EmbeddingRoute := if s = "v2" then .v2 else .v1

theorem EmbeddingRoute.fromStrLossy_asStr (route : EmbeddingRoute) :
    fromStrLossy route.asStr = route := by
  cases route <;> rfl

/-- A row of `settings` under the key `embedding_route`; without a tenant it is the default.
SOURCE: migrations/0015_briefs_embedding_migration.sql:83-88 -/
structure SettingRow where
  tenantId : Option TenantId
  value : String
deriving DecidableEq, Repr

/-- The tenant that the unique index has in place of none. -/
def nilUuid : TenantId := 0

/-- SOURCE: migrations/0015_briefs_embedding_migration.sql:90-91 -/
def settingKey (tenant : Option TenantId) : TenantId := tenant.getD nilUuid

/-- `INSERT … ON CONFLICT (COALESCE(tenant_id, …), key) DO UPDATE`: a row that is there keeps its
tenant. SOURCE: postgres.rs:5166-5175 -/
def upsertSetting (rows : List SettingRow) (tenant : Option TenantId) (value : String) :
    List SettingRow :=
  if rows.any fun r => decide (settingKey r.tenantId = settingKey tenant) then
    rows.map fun r => if settingKey r.tenantId = settingKey tenant then { r with value := value }
      else r
  else rows ++ [⟨tenant, value⟩]

/-- The row of the tenant comes before the default. SOURCE: postgres.rs:5141-5151 -/
def selectSetting (rows : List SettingRow) (tenant : TenantId) : Option SettingRow :=
  (rows.find? fun r => decide (r.tenantId = some tenant)).or
    (rows.find? fun r => decide (r.tenantId = none))

/-- The route that the settings give. SOURCE: postgres.rs:5152-5154 -/
def routeOf (rows : List SettingRow) (tenant : TenantId) : EmbeddingRoute :=
  (selectSetting rows tenant).elim .v1 fun r => .fromStrLossy r.value

/-! ## The vector columns -/

/-- The columns `embedding`, and `embedding_v2` with `embedding_v2_model`.
SOURCE: migrations/0001_init.sql:62, 0015_briefs_embedding_migration.sql:67-70 -/
structure VectorColumns (V : Type) where
  embedding : Option V
  embeddingV2 : Option (V × String)
deriving DecidableEq, Repr

/-- The vector columns of the chunks, by id. -/
abbrev Vectors (V : Type) := ChunkId → VectorColumns V

variable {V : Type}

/-- `$1::uuid IS NULL OR tenant_id = $1`. -/
def inTenant (tenant : Option TenantId) (c : Chunk) : Bool :=
  tenant.all fun id => decide (c.tenantId = id)

/-- `valid_to IS NULL AND embedding IS NOT NULL`, in the tenant. -/
def embeddable (vectors : Vectors V) (tenant : Option TenantId) (c : Chunk) : Bool :=
  inTenant tenant c && c.validTo.isNone && (vectors c.id).embedding.isSome

/-- SOURCE: postgres.rs:5062-5090 -/
def chunksNeedingV2 (t : ChunkTable) (vectors : Vectors V) (tenant : Option TenantId)
    (limit : Int) : List (ChunkId × String) :=
  ((orderedBy Chunk.id (t.rows.filter fun c => embeddable vectors tenant c &&
    (vectors c.id).embeddingV2.isNone)).take (max 1 (min limit 10000)).toNat).map
      fun c => (c.id, c.content)

/-- `UPDATE chunks SET embedding_v2 = … WHERE id = … AND embedding_v2 IS NULL`. -/
def setEmbeddingV2 (t : ChunkTable) (model : String) (vectors : Vectors V)
    (row : ChunkId × V) : Vectors V :=
  if (t.rows.any fun c => decide (c.id = row.1)) && (vectors row.1).embeddingV2.isNone then
    Function.update vectors row.1 { vectors row.1 with embeddingV2 := some (row.2, model) }
  else vectors

/-- SOURCE: postgres.rs:5092-5110 -/
def fillEmbeddingV2 (t : ChunkTable) (vectors : Vectors V) (model : String)
    (rows : List (ChunkId × V)) : Vectors V :=
  rows.foldl (setEmbeddingV2 t model) vectors

/-- SOURCE: types.rs:670-674 -/
structure EmbeddingCoverage where
  total : Nat
  covered : Nat
deriving DecidableEq, Repr

/-- SOURCE: types.rs:677-679 -/
def EmbeddingCoverage.isComplete (coverage : EmbeddingCoverage) : Bool :=
  decide (coverage.total = 0) || decide (coverage.total ≤ coverage.covered)

/-- SOURCE: postgres.rs:5112-5130 -/
def embeddingV2Coverage (t : ChunkTable) (vectors : Vectors V) (tenant : Option TenantId) :
    EmbeddingCoverage where
  total := t.rows.countP (embeddable vectors tenant)
  covered := t.rows.countP fun c =>
    embeddable vectors tenant c && (vectors c.id).embeddingV2.isSome

/-- Ingestion writes the first column of the row it inserts.
SOURCE: postgres.rs:4040-4066 -/
def storeEmbedding (now : Time) (acc : ChunkTable × Vectors V) (w : ChunkWrite × Option V) :
    ChunkTable × Vectors V :=
  let closed := acc.1.closeWhere w.1.tenantId w.1.source w.1.documentId w.1.start (· = w.1.seq)
  (acc.1.upsertChunk now w.1,
    if closed.conflicts w.1 then acc.2 else Function.update acc.2 closed.nextId ⟨w.2, none⟩)

/-! ## The plane -/

abbrev ReplicaId := Nat

/-- A request of a server process, by the process and a number of its own. -/
abbrev RequestId := ReplicaId × Nat

inductive ReembedStatus where
  | running
  | done
  | abandoned
deriving DecidableEq, Repr

/-- The loop of the client, with the batch that the server has read and not yet written, and the
batches that were answered. The next chunk id at the time of the last read tells the chunks that
were there then from later ones. SOURCE: reembed.rs:37-84 -/
structure ReembedLoop where
  model : String
  tenant : Option TenantId
  batch : Int
  pending : Option (List (ChunkId × String))
  readAt : ChunkId
  rounds : List (List ChunkId)
  status : ReembedStatus
deriving DecidableEq, Repr

/-- A batch is answered, and ends the loop if it was empty. SOURCE: reembed.rs:79-81 -/
def ReembedLoop.answer (loop : ReembedLoop) (pending : List (ChunkId × String)) : ReembedLoop :=
  if pending.isEmpty then { loop with pending := none, status := .done }
  else { loop with pending := none, rounds := loop.rounds ++ [pending.map Prod.fst] }

/-- A cutover that passed its gate, with the next chunk id at the time of the coverage read.
SOURCE: main.rs:6835-6848 -/
structure Cutover where
  tenant : Option TenantId
  route : EmbeddingRoute
  force : Bool
  coverageAt : ChunkId
  written : Bool
deriving DecidableEq, Repr

/-- The tables, the loops of the clients, the caches of the processes and the requests in flight;
the cutovers that wrote their route are kept as a history. -/
structure EmbeddingPlane (V : Type) where
  db : Database
  vectors : Vectors V
  loops : Nat → Option ReembedLoop
  settings : List SettingRow
  routes : ReplicaId → TenantId → Option EmbeddingRoute
  lookups : RequestId → Option (TenantId × EmbeddingRoute)
  cutovers : RequestId → Option Cutover
  flips : List Cutover

/-- The operations that store, close or erase rows of `chunks`. Corrections of an ACL and merges of
entity tags, which rewrite labels or tags of rows in place (postgres.rs:1399, 5511, 5671),
are left out: no vector depends on either. -/
inductive ChunkWriter (V : Type) where
  | upsertChunks (now : Time) (writes : List (ChunkWrite × Option V))
  | publishKnowledge (now : Time) (tenant : TenantId) (id : KnowledgeId) (episodeId : EpisodeId)
      (visibility : List PrincipalToken) (embedding : Option V) (kMin : Int)
  | recordAction (now : Time) (episodeId : EpisodeId) (action : ActionWrite)
  | forget (now : Time) (tenant : TenantId) (ref : ForgetRef)
  | retireDocument (now : Time) (tenant : TenantId) (source documentId : String)
  | erase (now : Time) (target : ErasureTarget)

inductive MigrationEvent (V : Type) where
  | write (w : ChunkWriter V)
  | reembed (l : Nat) (model : String) (tenant : Option TenantId) (batch : Int)
  | batchRead (l : Nat)
  | batchFill (l : Nat)
  | abandon (l : Nat)
  | cutoverRead (k : RequestId) (tenant : Option TenantId) (route : EmbeddingRoute) (force : Bool)
  | cutoverWrite (k : RequestId)
  | cutoverFlush (k : RequestId)
  | lookupRead (q : RequestId) (tenant : TenantId)
  | lookupInsert (q : RequestId)
  | evict (replica : ReplicaId) (tenant : TenantId)

namespace EmbeddingPlane

/-- Nothing is migrated, and no process has looked up a route. -/
def start (db : Database) (vectors : Vectors V) : EmbeddingPlane V where
  db := db
  vectors := vectors
  loops := fun _ => none
  settings := []
  routes := fun _ _ => none
  lookups := fun _ => none
  cutovers := fun _ => none
  flips := []

variable (encode : String → V) (ilike : String → String → Bool) (sha256Hex : String → String)

/-- A transaction that writes chunks. An action chunk is stored without a vector.
SOURCE: postgres.rs:4020-4122, 4573-4597, 5774-5800 -/
def writeChunks (s : EmbeddingPlane V) : ChunkWriter V → Option (EmbeddingPlane V)
  | .upsertChunks now writes => some { s with
      db := s.db.upsertChunks now (writes.map Prod.fst)
      vectors := (writes.foldl (storeEmbedding now) (s.db.chunks, s.vectors)).2 }
  | .publishKnowledge now tenant id episodeId visibility embedding kMin =>
    (s.db.publishKnowledge now tenant id episodeId visibility kMin).toOption.map fun db =>
      { s with
      db := db
      vectors := Function.update s.vectors s.db.chunks.nextId ⟨embedding, none⟩ }
  | .recordAction now episodeId action =>
    some { s with db := (s.db.recordAction now episodeId action).1 }
  | .forget now tenant ref => some { s with db := (s.db.forget now tenant ref).1 }
  | .retireDocument now tenant source documentId =>
    some { s with db := (s.db.retireDocument now tenant source documentId).1 }
  | .erase now target =>
    (erase ilike sha256Hex now s.db target).toOption.map fun out => { s with db := out.1 }

/-- The chunks of a batch are read. SOURCE: main.rs:6802-6806 -/
def batchRead (s : EmbeddingPlane V) (l : Nat) : Option (EmbeddingPlane V) := do
  let loop ← s.loops l
  if loop.status = .running ∧ loop.pending = none then
    let pending := chunksNeedingV2 s.db.chunks s.vectors loop.tenant loop.batch
    some { s with
      loops := Function.update s.loops l
        (some { loop with pending := some pending, readAt := s.db.chunks.nextId }) }
  else none

/-- Their texts have been encoded: the vectors are written and the batch answered.
SOURCE: main.rs:6808-6832 -/
def batchFill (s : EmbeddingPlane V) (l : Nat) : Option (EmbeddingPlane V) := do
  let loop ← s.loops l
  let pending ← loop.pending
  if loop.status = .running then
    some { s with
      vectors := fillEmbeddingV2 s.db.chunks s.vectors loop.model
        (pending.map fun row => (row.1, encode row.2))
      loops := Function.update s.loops l (some (loop.answer pending)) }
  else none

/-- The gate of a cutover. SOURCE: main.rs:6870-6884 -/
def cutoverRead (s : EmbeddingPlane V) (k : RequestId) (tenant : Option TenantId)
    (route : EmbeddingRoute) (force : Bool) : Option (EmbeddingPlane V) :=
  if s.cutovers k ≠ none then none
  else if route = .v2 ∧ !(embeddingV2Coverage s.db.chunks s.vectors tenant).isComplete ∧ !force then
    some s
  else some { s with
    cutovers := Function.update s.cutovers k
      (some ⟨tenant, route, force, s.db.chunks.nextId, false⟩) }

/-- SOURCE: postgres.rs:5159-5175 -/
def cutoverWrite (s : EmbeddingPlane V) (k : RequestId) : Option (EmbeddingPlane V) := do
  let cutover ← s.cutovers k
  if cutover.written then none
  else some { s with
    settings := upsertSetting s.settings cutover.tenant cutover.route.asStr
    cutovers := Function.update s.cutovers k (some { cutover with written := true })
    flips := s.flips ++ [cutover] }

/-- The cache of the process that serves the cutover is dropped, which ends the request.
SOURCE: postgres.rs:5176-5182 -/
def cutoverFlush (s : EmbeddingPlane V) (k : RequestId) : Option (EmbeddingPlane V) := do
  let cutover ← s.cutovers k
  if cutover.written then
    some { s with
      routes := Function.update s.routes k.1 fun _ => none
      cutovers := Function.update s.cutovers k none }
  else none

/-- A lookup that misses the cache reads the settings. SOURCE: postgres.rs:5137-5154 -/
def lookupRead (s : EmbeddingPlane V) (q : RequestId) (tenant : TenantId) :
    Option (EmbeddingPlane V) :=
  if s.lookups q = none ∧ s.routes q.1 tenant = none then
    some { s with
      lookups := Function.update s.lookups q (some (tenant, routeOf s.settings tenant)) }
  else none

/-- SOURCE: postgres.rs:5155-5156 -/
def lookupInsert (s : EmbeddingPlane V) (q : RequestId) : Option (EmbeddingPlane V) := do
  let (tenant, route) ← s.lookups q
  some { s with
    routes := Function.update s.routes q.1 (Function.update (s.routes q.1) tenant (some route))
    lookups := Function.update s.lookups q none }

/-- One step of the plane. A request that is dropped takes no further step. -/
def step (s : EmbeddingPlane V) : MigrationEvent V → Option (EmbeddingPlane V)
  | .write w => s.writeChunks ilike sha256Hex w
  | .reembed l model tenant batch =>
    if s.loops l = none then
      some { s with
        loops := Function.update s.loops l (some ⟨model, tenant, batch, none, 0, [], .running⟩) }
    else none
  | .batchRead l => s.batchRead l
  | .batchFill l => s.batchFill encode l
  | .abandon l => (s.loops l).bind fun loop =>
    if loop.status = .running then
      some { s with
        loops := Function.update s.loops l (some { loop with status := .abandoned }) }
    else none
  | .cutoverRead k tenant route force => s.cutoverRead k tenant route force
  | .cutoverWrite k => s.cutoverWrite k
  | .cutoverFlush k => s.cutoverFlush k
  | .lookupRead q tenant => s.lookupRead q tenant
  | .lookupInsert q => s.lookupInsert q
  | .evict replica tenant => some { s with
      routes := Function.update s.routes replica
        (Function.update (s.routes replica) tenant none) }

/-- The route a process takes for a tenant: the cached one, or that of the settings. -/
def embeddingRoute (s : EmbeddingPlane V) (replica : ReplicaId) (tenant : TenantId) :
    EmbeddingRoute :=
  (s.routes replica tenant).getD (routeOf s.settings tenant)

/-- The vector that the dense leg of a process compares with the query: none if the scope or the
column of the route leaves the chunk out. SOURCE: postgres.rs:3483-3496, 3571-3582 -/
def denseVector (s : EmbeddingPlane V) (replica : ReplicaId) (scope : Scope) (c : Chunk) :
    Option V :=
  if recallDense scope c then
    match s.embeddingRoute replica scope.tenantId with
    | .v1 => (s.vectors c.id).embedding
    | .v2 => (s.vectors c.id).embeddingV2.map Prod.fst
  else none

end EmbeddingPlane

end Verity.Model
