import Verity.Model.Chunks
import Verity.Model.EvidenceFold

/-!
# The materializer

`run_full_fold` reads the live ledger and the configuration of a tenant, folds, and writes the
plan to three tables: `entity_aliases`, the tags of chunks, and `entity_link_meta`. Every write
is an upsert of its own; an error ends the run with what was written so far. The other
operations are those of the admin plane: evidence is appended or retracted, a human decision is
a row of evidence, and a configuration row is written.
-/

set_option autoImplicit false

namespace Verity.Model

/-- SOURCE: migrations/0020_entity_resolution.sql:16-24 -/
structure EntityAlias where
  tenantId : TenantId
  source : String
  entityId : String
  canonicalEntity : String
deriving DecidableEq, Repr

/-- The tables entity resolution reads and writes. -/
structure ResolutionStore where
  evidence : List EvidenceRow
  config : List EntityResolutionConfig
  aliases : List EntityAlias
  chunks : ChunkTable
  linkMeta : List EntityLinkMeta

namespace ResolutionStore

/-- Nothing recorded yet. -/
def start (chunks : ChunkTable) : ResolutionStore where
  evidence := []
  config := []
  aliases := []
  chunks := chunks
  linkMeta := []

/-- The id is fresh (`Uuid::now_v7`) and the row live from now on.
SOURCE: postgres.rs:1110-1136 -/
def insertEvidence (s : ResolutionStore) (id : EvidenceId) (now : Time) (ev : EvidenceWrite) :
    ResolutionStore :=
  { s with evidence := s.evidence ++ [
      { evidenceId := id
        tenantId := ev.tenantId
        leftRef := ev.leftRef
        rightRef := ev.rightRef
        tier := ev.tier
        method := ev.method
        keyValue := ev.keyValue
        keyNamespace := ev.keyNamespace
        polarity := ev.polarity
        validFrom := now
        validTo := none }] }

/-- A live row gets the end of its validity; nothing is deleted.
SOURCE: postgres.rs:1217-1235 -/
def retractEvidence (s : ResolutionStore) (tenant : TenantId) (id : EvidenceId) (now : Time) :
    ResolutionStore :=
  { s with evidence := s.evidence.map fun e =>
      if e.tenantId = tenant ∧ e.evidenceId = id ∧ e.validTo = none then
        { e with validTo := some now }
      else e }

/-- SOURCE: main.rs:3211-3216 -/
inductive EntityDecision where
  | confirm
  | reject
deriving DecidableEq, Repr

/-- The row a human decision appends. SOURCE: main.rs:3256-3280 -/
def decisionEvidence (tenant : TenantId) (leftRef rightRef : String) :
    EntityDecision → EvidenceWrite
  | .confirm => ⟨tenant, leftRef, rightRef, 2, "human_confirmed", none, none, 1⟩
  | .reject => ⟨tenant, leftRef, rightRef, 2, "human_rejected", none, none, -1⟩

/-- SOURCE: postgres.rs:1310-1342 -/
def writeResolutionConfig (s : ResolutionStore) (cfg : EntityResolutionConfig) : ResolutionStore :=
  let same (c : EntityResolutionConfig) : Bool :=
    decide (c.tenantId = cfg.tenantId ∧ c.keyKind = cfg.keyKind ∧
      c.keyNamespace = cfg.keyNamespace)
  if s.config.any same then
    { s with config := s.config.map fun c => if same c then cfg else c }
  else { s with config := s.config ++ [cfg] }

/-- SOURCE: postgres.rs:1424-1440 -/
def allLiveEvidence (s : ResolutionStore) (tenant : TenantId) : List EvidenceRow :=
  s.evidence.filter fun e => e.tenantId = tenant ∧ e.validTo = none

/-- SOURCE: postgres.rs:1669-1702 -/
def listResolutionConfig (s : ResolutionStore) (tenant : TenantId) : List EntityResolutionConfig :=
  s.config.filter fun c => c.tenantId = tenant

/-- SOURCE: postgres.rs:2216-2254 -/
def allCanonicalKeys (s : ResolutionStore) (tenant : TenantId) : List String :=
  sortDedup ((s.aliases.filter fun a => a.tenantId = tenant).map EntityAlias.canonicalEntity)

/-- SOURCE: postgres.rs:1079-1098 -/
def resolveCanonical (s : ResolutionStore) (tenant : TenantId) (source entityId : String) :
    Option String :=
  (s.aliases.find? fun a =>
    a.tenantId = tenant ∧ a.source = source ∧ a.entityId = entityId).map
      EntityAlias.canonicalEntity

/-- SOURCE: postgres.rs:999-1021 -/
def upsertEntityAlias (s : ResolutionStore) (tenant : TenantId)
    (source entityId canonical : String) : ResolutionStore :=
  let same (a : EntityAlias) : Bool :=
    decide (a.tenantId = tenant ∧ a.source = source ∧ a.entityId = entityId)
  if s.aliases.any same then
    { s with aliases := s.aliases.map fun a =>
        if same a then { a with canonicalEntity := canonical } else a }
  else { s with aliases := s.aliases ++ [⟨tenant, source, entityId, canonical⟩] }

/-- The tags of the current version of a chunk position. SOURCE: postgres.rs:1390-1421 -/
def chunkEntityTagsUpsert (s : ResolutionStore) (tenant : TenantId) (source documentId : String)
    (seq : Int) (tags : List String) : ResolutionStore :=
  { s with chunks := s.chunks.update (fun c =>
      if c.ofDocument tenant source documentId && decide (c.seq = seq) && c.validTo.isNone then
        { c with entityTags := tags }
      else c) (by intro c; split <;> rfl) }

/-- SOURCE: postgres.rs:1353-1382 -/
def upsertEntityLinkMeta (s : ResolutionStore) (m : EntityLinkMeta) : ResolutionStore :=
  let same (m' : EntityLinkMeta) : Bool :=
    decide (m'.tenantId = m.tenantId ∧ m'.subjectKind = m.subjectKind ∧
      m'.subjectRef = m.subjectRef ∧ m'.canonicalEntity = m.canonicalEntity)
  if s.linkMeta.any same then
    { s with linkMeta := s.linkMeta.map fun m' => if same m' then m else m' }
  else { s with linkMeta := s.linkMeta ++ [m] }

/-- The configuration a full fold runs under: the fallback is the built-in one.
SOURCE: resolver.rs:102-108 -/
def foldConfig (s : ResolutionStore) (tenant : TenantId) : FoldConfig where
  tenantId := tenant
  rows := s.listResolutionConfig tenant
  fallback := .defaults tenant "*" "*"

/-- What a full fold of the tenant would write. SOURCE: resolver.rs:94-136 -/
def foldPlan (s : ResolutionStore) (tenant : TenantId) : FoldPlan :=
  foldWithKnownCanonicals (s.allLiveEvidence tenant) (s.foldConfig tenant)
    (s.allCanonicalKeys tenant)

/-- One write of a plan. -/
inductive PlanWrite where
  | link (entry : AliasWrite)
  | tags (write : ChunkTagWrite)
  | badge (row : EntityLinkMeta)
deriving DecidableEq, Repr

/-- The aliases, then the tags, then the badges. SOURCE: resolver.rs:145-194 -/
def planWrites (plan : FoldPlan) : List PlanWrite :=
  plan.aliases.map .link ++ plan.chunkTags.map .tags ++ plan.linkMeta.map .badge

/-- A chunk ref that does not parse is passed over. -/
def applyWrite (tenant : TenantId) (s : ResolutionStore) : PlanWrite → ResolutionStore
  | .link a => s.upsertEntityAlias tenant a.source a.entityId a.canonicalEntity
  | .tags w =>
    match parseChunkRef w.subjectRef with
    | some (source, documentId, seq) =>
      s.chunkEntityTagsUpsert tenant source documentId seq w.tags
    | none => s
  | .badge m => s.upsertEntityLinkMeta { m with tenantId := tenant }

/-- The writes a run makes: all of the plan, or those before the first that fails. -/
def writesDone (s : ResolutionStore) (tenant : TenantId) (failsAt : Option Nat) : List PlanWrite :=
  match failsAt with
  | none => planWrites (s.foldPlan tenant)
  | some n => (planWrites (s.foldPlan tenant)).take n

/-- SOURCE: resolver.rs:88-195 -/
def runFullFold (s : ResolutionStore) (tenant : TenantId) (failsAt : Option Nat) :
    ResolutionStore :=
  (s.writesDone tenant failsAt).foldl (applyWrite tenant) s

end ResolutionStore

/-- What the admin plane and the worker do, one call at a time. -/
inductive ResolutionOp where
  | insertEvidence (id : EvidenceId) (now : Time) (ev : EvidenceWrite)
  | retractEvidence (tenant : TenantId) (id : EvidenceId) (now : Time)
  | humanDecision (id : EvidenceId) (now : Time) (tenant : TenantId) (leftRef rightRef : String)
      (decision : ResolutionStore.EntityDecision)
  | writeConfig (cfg : EntityResolutionConfig)
  | runFullFold (tenant : TenantId) (failsAt : Option Nat)
deriving DecidableEq, Repr

/-- An insert under an id that is taken is refused by the primary key. -/
def ResolutionStore.step (s : ResolutionStore) : ResolutionOp → Option ResolutionStore
  | .insertEvidence id now ev =>
    if s.evidence.any fun e => e.evidenceId = id then none else some (s.insertEvidence id now ev)
  | .retractEvidence tenant id now => some (s.retractEvidence tenant id now)
  | .humanDecision id now tenant leftRef rightRef decision =>
    if s.evidence.any fun e => e.evidenceId = id then none
    else some (s.insertEvidence id now (decisionEvidence tenant leftRef rightRef decision))
  | .writeConfig cfg => some (s.writeResolutionConfig cfg)
  | .runFullFold tenant failsAt => some (s.runFullFold tenant failsAt)

end Verity.Model
