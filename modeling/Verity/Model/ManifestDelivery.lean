import Verity.Model.Chunks
import Verity.Model.Facts
import Verity.Model.ManifestRuntime
import Verity.Model.Principals

/-!
# Deliveries to an active manifest

What the webhook hook writes for a payload that the runtime accepts: one fact for each mapped
field of each entity, in its own transaction, and one chunk for each entity with content. The key
of a fact names the source, the id of the entity and the field; the document of a chunk also
names the type.

A delivery starts where the row of the manifest was found active and its signature verified. The
episode is only its id, and the latency sample is left out. The writes so far are kept in the
order they were made, each with the entity it belongs to, to speak about what an entity wrote.
-/

set_option autoImplicit false

namespace Verity.Model

/-- The columns of a minted webhook that a delivery reads. SOURCE: webhooks.rs:160-170 -/
structure Webhook where
  tenantId : TenantId
  visibility : List PrincipalToken
  confidentiality : Confidentiality
deriving DecidableEq, Repr

/-- An inbound delivery: its webhook and payload, the clock of the runtime, the id of its episode,
and the instants of its transactions. -/
structure ManifestDelivery where
  hook : Webhook
  payload : Json
  clock : DateTime
  episodeId : EpisodeId
  factInstant : Nat → Time
  chunkInstant : Time

/-- What all the writes of a delivery share. -/
structure WriteContext where
  tenantId : TenantId
  source : String
  visibility : List PrincipalToken
  confidentiality : Confidentiality
  aclProvenance : AclProvenance
  episodeId : EpisodeId
deriving DecidableEq, Repr

/-- The envelope as tokens, allocated where missing, and its provenance.
SOURCE: manifests.rs:383-413 -/
def resolveEnvelope (principals : PrincipalTable) (hook : Webhook) :
    AclEnvelope → PrincipalTable × List PrincipalToken × AclProvenance
  | .static none => (principals, hook.visibility, .adminAssigned)
  | .static (some strings) =>
    let (principals, mappings) := principals.upsertPrincipalTokens hook.tenantId strings
    (principals, mappings.map Prod.snd, .adminAssigned)
  | .mapped strings approximated =>
    let (principals, mappings) := principals.upsertPrincipalTokens hook.tenantId strings
    (principals, mappings.map Prod.snd, if approximated then .approximated else .mirrored)

/-- An entity of a tenant: its type and its id. -/
structure EntityRef where
  tenantId : TenantId
  entityType : String
  entityId : String
deriving DecidableEq, Repr

/-- A fact write, at its instant, with the entity it belongs to. -/
structure EntityFact where
  entity : EntityRef
  delivery : Delivery
deriving DecidableEq, Repr

section Writes

variable (instant : DateTime → Instant) (ctx : WriteContext)

/-- SOURCE: manifests.rs:435-457 -/
def EntityWrites.toFact (w : EntityWrites) (field : String × Json) : FactWrite where
  tenantId := ctx.tenantId
  key := ⟨ctx.source, w.entityId, field.1⟩
  value := field.2
  validFrom := instant w.validFrom
  visibility := ctx.visibility
  confidentiality := ctx.confidentiality
  provenance := ctx.episodeId
  aclProvenance := ctx.aclProvenance

/-- SOURCE: manifests.rs:460-478 -/
def EntityWrites.toChunk (w : EntityWrites) (content : String) : ChunkWrite where
  tenantId := ctx.tenantId
  source := ctx.source
  documentId := w.entityType ++ ":" ++ w.entityId
  seq := 0
  content := content
  visibility := ctx.visibility
  entityTags := [w.entityType ++ ":" ++ w.entityId]
  confidentiality := ctx.confidentiality
  trustTier := .authoritative
  validFrom := instant w.validFrom
  provenance := ctx.episodeId
  aclProvenance := ctx.aclProvenance
  derivedFrom := []

def EntityWrites.ref (w : EntityWrites) : EntityRef := ⟨ctx.tenantId, w.entityType, w.entityId⟩

/-- The facts of the two loops, in order. SOURCE: manifests.rs:433-459 -/
def entityFacts (writes : List EntityWrites) : List (EntityRef × FactWrite) :=
  writes.flatMap fun w => w.fields.map fun field => (w.ref ctx, w.toFact instant ctx field)

/-- SOURCE: manifests.rs:460-480 -/
def entityChunks (writes : List EntityWrites) : List ChunkWrite :=
  writes.filterMap fun w => w.content.map (w.toChunk instant ctx)

end Writes

/-- Each transaction at its instant. -/
def atInstants (instant : Nat → Time) (facts : List (EntityRef × FactWrite)) : List EntityFact :=
  facts.mapIdx fun i (entity, fact) => ⟨entity, ⟨instant i, fact⟩⟩

/-- The tables a delivery writes, and the fact writes so far. -/
structure ManifestStore where
  principals : PrincipalTable
  facts : FactTable
  chunks : ChunkTable
  log : List EntityFact

namespace ManifestStore

/-- One delivery. A payload that is quarantined writes nothing here.
SOURCE: manifests.rs:366-484 -/
def deliver (crates : ManifestCrates) (instant : DateTime → Instant) (m : Manifest)
    (s : ManifestStore) (d : ManifestDelivery) : Option ManifestStore :=
  match apply crates d.payload d.clock m with
  | none => none
  | some (.quarantine _) => some s
  | some (.writes source writes acl) =>
    let (principals, visibility, aclProvenance) := resolveEnvelope s.principals d.hook acl
    let ctx : WriteContext :=
      ⟨d.hook.tenantId, source, visibility, d.hook.confidentiality, aclProvenance, d.episodeId⟩
    let facts := atInstants d.factInstant (entityFacts instant ctx writes)
    let chunkWrites := entityChunks instant ctx writes
    match Model.deliver s.facts (facts.map EntityFact.delivery) with
    | .error _ => none
    | .ok table =>
      some
        { principals := principals
          facts := table
          chunks :=
            if chunkWrites = [] then s.chunks
            else s.chunks.upsertChunks d.chunkInstant chunkWrites
          log := s.log ++ facts }

/-- Any tables, before the first delivery. -/
def start (principals : PrincipalTable) (facts : FactTable) (chunks : ChunkTable) :
    ManifestStore := ⟨principals, facts, chunks, []⟩

end ManifestStore

end Verity.Model
