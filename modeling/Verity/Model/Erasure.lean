import Verity.Model.Database

/-!
# Erasure and the subject-access export

`walk_lineage` deletes what is attributable to a subject or an entity, table by table, in one
transaction. `erase` commits it and leaves one audit row; `erase_preview` runs the same walk and
rolls it back. `dsar_export` lists what is attributable to a subject.

A `DELETE` that would leave a reference behind is an error, and an error rolls the transaction
back. The pattern match of `ILIKE` depends on the database's locale, the digest and the payload
decryption on libraries: they are parameters.
-/

set_option autoImplicit false

namespace Verity.Model

open Verity.Foundation

/-- `sort_unstable` followed by `dedup`. -/
def sortedIds (ids : List Nat) : List Nat := (ids.insertionSort (· ≤ ·)).dedup

/-- `$n::text IS NOT NULL AND column = $n`. -/
def columnIs (param column : Option String) : Bool := param.isSome && decide (column = param)

/-- `$n::text IS NOT NULL AND $n = ANY(column)`. -/
def columnHolds (param : Option String) (column : List String) : Bool :=
  match param with
  | some s => column.contains s
  | none => false

/-- What an erasure is asked for. -/
structure ErasureTarget where
  tenant : TenantId
  subject : Option String
  entity : Option String
  mediaIds : List MediaId
deriving DecidableEq, Repr

namespace ErasureTarget

/-- SOURCE: erasure.rs:206-218 -/
def ownsEpisode (t : ErasureTarget) (e : Episode) : Bool :=
  decide (e.tenantId = t.tenant) &&
    (columnIs t.subject e.writerSub || columnIs t.entity e.sourceEntity)

/-- SOURCE: erasure.rs:223-234 -/
def ownsAction (t : ErasureTarget) (a : ActionRow) : Bool :=
  decide (a.write.tenantId = t.tenant) &&
    (columnIs t.subject a.write.actorSub || columnHolds t.entity a.write.entities)

/-- SOURCE: erasure.rs:244-257 -/
def ownsChunk (t : ErasureTarget) (episodeIds : List EpisodeId) (c : Chunk) : Bool :=
  decide (c.tenantId = t.tenant) &&
    (episodeIds.contains c.provenance || columnHolds t.entity c.entityTags)

/-- SOURCE: erasure.rs:277-289 -/
def ownsFact (t : ErasureTarget) (episodeIds : List EpisodeId) (r : FactRow) : Bool :=
  decide (r.tenantId = t.tenant) &&
    (episodeIds.contains r.provenance || columnIs t.entity (some r.key.entityId))

/-- SOURCE: erasure.rs:366-378 -/
def ownsQuarantine (t : ErasureTarget) (ilike : String → String → Bool) (q : QuarantineRow) :
    Bool :=
  let mentions (param : Option String) : Bool :=
    match param with
    | some s => ilike ("%" ++ s ++ "%") q.payload
    | none => false
  decide (q.tenantId = t.tenant) && (mentions t.subject || mentions t.entity)

/-- SOURCE: erasure.rs:384-393 -/
def ownsAudit (t : ErasureTarget) (a : AuditRow) : Bool :=
  decide (a.tenantId = t.tenant) && columnIs t.subject a.actorSub

/-- SOURCE: erasure.rs:399-407 -/
def ownsMedia (t : ErasureTarget) (m : MediaRow) : Bool :=
  decide (m.tenantId = t.tenant) && t.mediaIds.contains m.id

end ErasureTarget

/-- An error of the database: a row is still referred to. -/
def foreignKeyError (table : String) : StorageError :=
  .database ("delete on table " ++ debugStr table ++ " violates foreign key constraint")

namespace Database

/-- SOURCE: erasure.rs:244-257 -/
def deleteChunks (db : Database) (p : Chunk → Bool) : Except StorageError Database :=
  if db.chunks.rows.any fun c => p c && db.heldChunks.contains c.id then
    .error (foreignKeyError "chunks")
  else .ok { db with chunks := db.chunks.deleteRows p }

/-- The rows that point at one of those to be deleted are unlinked first.
SOURCE: erasure.rs:262-276 -/
def unlinkFacts (db : Database) (tenant : TenantId) (p : FactRow → Bool) : Database :=
  let doomed := (db.facts.rows.filter p).map FactRow.id
  let points (r : FactRow) : Bool :=
    decide (r.tenantId = tenant) && r.supersededBy.any fun id => doomed.contains id
  { db with
    facts := db.facts.updateRows (fun r => if points r then { r with supersededBy := none } else r)
      (by intro r; split <;> simp) (by intro r; split <;> simp) }

/-- SOURCE: erasure.rs:277-289 -/
def deleteFacts (db : Database) (p : FactRow → Bool) : Except StorageError Database :=
  let doomed := (db.facts.rows.filter p).map FactRow.id
  let referred (id : FactId) : Bool :=
    db.heldFacts.contains id ||
      (deleteWhere p db.facts.rows).any fun r => decide (r.supersededBy = some id)
  if doomed.any referred then .error (foreignKeyError "facts")
  else .ok { db with facts := db.facts.deleteRows p }

/-- SOURCE: erasure.rs:295-308 -/
def affectedKnowledge (db : Database) (tenant : TenantId) (episodeIds : List EpisodeId) :
    List KnowledgeId :=
  sortedIds ((db.evidence.filter fun e => episodeIds.contains e.episodeId &&
    db.knowledge.rows.any fun k => decide (k.id = e.knowledgeId ∧ k.tenantId = tenant)).map
      KnowledgeEvidence.knowledgeId)

/-- Whether the evidence is withdrawn. SOURCE: erasure.rs:309-318 -/
def withdraws (affected : List KnowledgeId) (episodeIds : List EpisodeId)
    (e : KnowledgeEvidence) : Bool :=
  affected.contains e.knowledgeId && episodeIds.contains e.episodeId

/-- SOURCE: erasure.rs:329-338 -/
def setSupport (db : Database) (kid : KnowledgeId) (distinct episodes : Nat) : Database :=
  { db with
    knowledge := db.knowledge.updateRows (fun k => decide (k.id = kid))
      (fun k => { k with distinctEntities := distinct, episodeCount := episodes })
      (fun _ => rfl) }

/-- A published item is invalidated. SOURCE: erasure.rs:340-349 -/
def retracts (kid : KnowledgeId) (k : KnowledgeRow) : Bool :=
  decide (k.id = kid ∧ k.status = .published)

def invalidateKnowledge (db : Database) (kid : KnowledgeId) (now : Time) : Database :=
  { db with
    knowledge := db.knowledge.updateRows (retracts kid)
      (fun k => { k with
        status := .invalidated
        invalidatedAt := some now
        invalidatedReason := some "erasure_support_withdrawn" })
      (fun _ => rfl) }

/-- The chunk of an item that was invalidated is retired. SOURCE: erasure.rs:351-360 -/
def retireKnowledgeChunk (db : Database) (tenant : TenantId) (kid : KnowledgeId) (now : Time) :
    Database :=
  { db with
    chunks := db.chunks.update (fun c =>
      if c.tenantId = tenant ∧ c.documentId = "knowledge:" ++ toString kid ∧ c.validTo = none then
        { c with validTo := some now }
      else c)
      (by intro c; split <;> rfl) }

/-- The support that is left, and the retraction of a published item below the floor.
SOURCE: erasure.rs:319-362 -/
def recountSupport (tenant : TenantId) (now : Time) (acc : Database × Nat) (kid : KnowledgeId) :
    Database × Nat :=
  let (db, invalidated) := acc
  let rows := db.evidence.filter fun e => decide (e.knowledgeId = kid)
  let distinct := (rows.filterMap KnowledgeEvidence.entity).dedup.length
  let db := db.setSupport kid distinct rows.length
  if distinct < 3 then
    let count := countWhere (retracts kid) db.knowledge.rows
    let db := db.invalidateKnowledge kid now
    (if count > 0 then db.retireKnowledgeChunk tenant kid now else db, invalidated + count)
  else (db, invalidated)

/-- An episode that a remaining row refers to. -/
def refersToEpisode (db : Database) (id : EpisodeId) : Bool :=
  db.heldEpisodes.contains id || db.chunks.rows.any (fun c => decide (c.provenance = id)) ||
    db.facts.rows.any (fun r => decide (r.provenance = id)) ||
    db.actions.any (fun a => decide (a.provenance = id)) ||
    db.evidence.any (fun e => decide (e.episodeId = id))

/-- SOURCE: erasure.rs:410-417 -/
def deleteEpisodes (db : Database) (p : Episode → Bool) : Except StorageError Database :=
  if db.episodes.any fun e => p e && db.refersToEpisode e.id then
    .error (foreignKeyError "episodes")
  else .ok { db with episodes := deleteWhere p db.episodes }

/-- The episodes of a walk: those of the target, and those of its actions.
SOURCE: erasure.rs:206-238 -/
def erasedEpisodes (db : Database) (t : ErasureTarget) : List EpisodeId :=
  sortedIds ((db.episodes.filter t.ownsEpisode).map Episode.id ++
    (db.actions.filter t.ownsAction).map ActionRow.provenance)

/-- Evidence and support: the part of the walk that has no error path.
SOURCE: erasure.rs:291-360 -/
def withdrawEvidence (db : Database) (tenant : TenantId) (episodeIds : List EpisodeId)
    (now : Time) : Database × Nat × Nat :=
  let affected := db.affectedKnowledge tenant episodeIds
  let withdrawn := countWhere (withdraws affected episodeIds) db.evidence
  let db := { db with evidence := deleteWhere (withdraws affected episodeIds) db.evidence }
  let (db, invalidated) := affected.foldl (recountSupport tenant now) (db, 0)
  (db, withdrawn, invalidated)

/-- Quarantine, audit log and media. SOURCE: erasure.rs:362-408 -/
def deleteSideTables (db : Database) (t : ErasureTarget) (ilike : String → String → Bool) :
    Database :=
  { db with
    quarantine := deleteWhere (t.ownsQuarantine ilike) db.quarantine
    auditLog := deleteWhere t.ownsAudit db.auditLog
    media := deleteWhere t.ownsMedia db.media }

/-- The walk, over the transaction's view of the tables. SOURCE: erasure.rs:195-421 -/
def walkLineage (ilike : String → String → Bool) (now : Time) (db : Database)
    (t : ErasureTarget) : Except StorageError (Database × ErasureReport) := do
  let episodeIds := db.erasedEpisodes t
  let actions := countWhere t.ownsAction db.actions
  let db := { db with actions := deleteWhere t.ownsAction db.actions }
  let chunks := countWhere (t.ownsChunk episodeIds) db.chunks.rows
  let db ← db.deleteChunks (t.ownsChunk episodeIds)
  let db := db.unlinkFacts t.tenant (t.ownsFact episodeIds)
  let facts := countWhere (t.ownsFact episodeIds) db.facts.rows
  let db ← db.deleteFacts (t.ownsFact episodeIds)
  let (db, knowledgeEvidence, knowledgeInvalidated) :=
    db.withdrawEvidence t.tenant episodeIds now
  let quarantinePreview := countWhere (t.ownsQuarantine ilike) db.quarantine
  let auditLog := countWhere t.ownsAudit db.auditLog
  let media := countWhere t.ownsMedia db.media
  let db := db.deleteSideTables t ilike
  let inWalk (e : Episode) : Bool :=
    decide (e.tenantId = t.tenant) && episodeIds.contains e.id
  let episodes := countWhere inWalk db.episodes
  let db ← db.deleteEpisodes inWalk
  pure (db,
    { episodes := episodes
      chunks := chunks
      facts := facts
      actions := actions
      knowledgeEvidence := knowledgeEvidence
      knowledgeInvalidated := knowledgeInvalidated
      quarantinePreview := quarantinePreview
      auditLog := auditLog
      media := media })

end Database

/-- A request names something to erase. -/
def ErasureTarget.named (t : ErasureTarget) : Bool :=
  t.subject.isSome || t.entity.isSome || !t.mediaIds.isEmpty

/-- The dry run: the report alone, since the transaction is rolled back. The coverage gaps of the
reply are fixed texts and left out. SOURCE: erasure.rs:116-143 -/
def erasePreview (ilike : String → String → Bool) (now : Time) (db : Database)
    (t : ErasureTarget) : Except StorageError ErasureReport :=
  if !t.named then
    .error (.invalidInput "erasure preview requires a subject, an entity, and/or media_ids")
  else do
    let (_, report) ← db.walkLineage ilike now t
    pure report

/-- The walk, and the one audit row that survives it. SOURCE: erasure.rs:145-187 -/
def erase (ilike : String → String → Bool) (sha256Hex : String → String) (now : Time)
    (db : Database) (t : ErasureTarget) : Except StorageError (Database × ErasureReport) :=
  if !t.named then
    .error (.invalidInput "erasure requires a subject, an entity, and/or media_ids")
  else do
    let (db, report) ← db.walkLineage ilike now t
    let row : AuditRow :=
      { id := db.nextAudit
        tenantId := t.tenant
        actorSub := none
        actorAzp := none
        verb := "erasure"
        principals := []
        entityScope := []
        confidentiality := .publicClass
        querySummary := some (.erasure (t.subject.map sha256Hex) (t.entity.map sha256Hex) report)
        resultIds := []
        instant := now }
    pure ({ db with auditLog := db.auditLog ++ [row], nextAudit := db.nextAudit + 1 }, report)

/-! ## The export -/

/-- The bundle. The rows are whole where the export lists most of their columns. -/
structure DsarBundle where
  tenantId : TenantId
  subject : String
  episodes : List Episode
  chunks : List Chunk
  facts : List FactRow
  actions : List ActionRow
  auditLog : List AuditRow
  knowledge : List KnowledgeRow
deriving DecidableEq

/-- `ORDER BY key`, with rows of equal key as they stand. -/
def orderedBy {α κ : Type} [LinearOrder κ] (key : α → κ) (rows : List α) : List α :=
  rows.insertionSort (Ascending key)

/-- SOURCE: erasure.rs:423-621 -/
def dsarExport (decryptPayload : TenantId → EpisodePayload → Except StorageError EpisodePayload)
    (db : Database) (tenant : TenantId) (subject : String) : Except StorageError DsarBundle := do
  let rows := orderedBy Episode.recordedAt (db.episodes.filter fun e =>
    decide (e.tenantId = tenant ∧ e.writerSub = some subject))
  let episodeIds := rows.map Episode.id
  let episodes ← rows.mapM fun e => do
    let payload ← decryptPayload tenant e.payload
    pure { e with payload := payload }
  pure
    { tenantId := tenant
      subject := subject
      episodes := episodes
      chunks := orderedBy Chunk.validFrom (db.chunks.rows.filter fun c =>
        decide (c.tenantId = tenant) && episodeIds.contains c.provenance)
      facts := orderedBy FactRow.validFrom (db.facts.rows.filter fun r =>
        decide (r.tenantId = tenant) && episodeIds.contains r.provenance)
      actions := orderedBy (fun a => a.write.occurredAt.stored) (db.actions.filter fun a =>
        decide (a.write.tenantId = tenant ∧ a.write.actorSub = some subject))
      auditLog := orderedBy AuditRow.instant (db.auditLog.filter fun a =>
        decide (a.tenantId = tenant ∧ a.actorSub = some subject))
      knowledge := orderedBy KnowledgeRow.firstSeen (db.knowledge.rows.filter fun k =>
        decide (k.tenantId = tenant ∧ k.proposedBySub = some subject)) }

end Verity.Model
