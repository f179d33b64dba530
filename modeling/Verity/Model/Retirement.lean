import Verity.Model.Erasure

/-!
# Retiring what is current

The operations of the adapter that close rows without deleting them: `forget` of a chunk or of
all that came from an episode, `retire_entity` for the facts of an entity, and `retire_document`
for the chunks of a document. Each returns how many rows it closed. Forgetting an episode also
withdraws its support from the knowledge layer.

The reasons that are only logged and the ledger of retired documents are left out: nothing
modelled here reads them.
-/

set_option autoImplicit false

namespace Verity.Model

open Verity.Foundation

/-- SOURCE: types.rs:618-621 -/
inductive ForgetRef where
  | chunk (id : ChunkId)
  | episode (id : EpisodeId)
deriving DecidableEq, Repr

/-- The calls that write or read facts. -/
inductive FactCall where
  | upsertFact (now : Time) (fact : FactWrite)
  | retireEntity (tenant : TenantId) (source entityId : String) (deletedAt : Instant)
  | forget (now : Time) (tenant : TenantId) (ref : ForgetRef)
  | currentFact (scope : Scope) (key : FactKey)
  | factAsOf (scope : Scope) (key : FactKey) (asOf : Instant)
deriving DecidableEq, Repr

namespace Database

/-- `UPDATE chunks SET valid_to = now() WHERE … AND valid_to IS NULL`. -/
def retireChunks (db : Database) (now : Time) (p : Chunk → Bool) : Database × Nat :=
  let current (c : Chunk) : Bool := p c && decide (c.validTo = none)
  ({ db with
      chunks := db.chunks.update (fun c => if current c then { c with validTo := some now } else c)
        (by intro c; split <;> rfl) },
    countWhere current db.chunks.rows)

/-- `UPDATE facts SET valid_to = $1 WHERE … AND valid_to IS NULL`. -/
def retireFacts (db : Database) (validTo : Time) (p : FactRow → Bool) : Database × Nat :=
  let current (r : FactRow) : Bool := p r && decide (r.validTo = none)
  ({ db with
      facts := db.facts.updateRows
        (fun r => if current r then { r with validTo := some validTo } else r)
        (by intro r; split <;> simp) (by intro r; split <;> simp) },
    countWhere current db.facts.rows)

/-- SOURCE: postgres.rs:4747-4757 -/
def withdrawKnowledge (db : Database) (kid : KnowledgeId) (now : Time) : Database :=
  { db with
    knowledge := db.knowledge.updateRows (retracts kid)
      (fun k => { k with
        status := .invalidated
        invalidatedAt := some now
        invalidatedReason := some "support_withdrawn" })
      (fun _ => rfl) }

/-- One item that the episode supported: the evidence is withdrawn, the support recounted, and a
published item below the floor taken back. SOURCE: postgres.rs:4717-4773 -/
def withdrawSupport (tenant : TenantId) (episodeId : EpisodeId) (now : Time) (db : Database)
    (kid : KnowledgeId) : Database :=
  let db : Database := { db with
    evidence := deleteWhere (fun e => decide (e.knowledgeId = kid ∧ e.episodeId = episodeId))
      db.evidence }
  let rows := db.evidence.filter fun e => decide (e.knowledgeId = kid)
  let distinct := (rows.filterMap KnowledgeEvidence.entity).dedup.length
  let db := db.setSupport kid distinct rows.length
  if distinct < 3 then
    let invalidated := countWhere (retracts kid) db.knowledge.rows
    let db := db.withdrawKnowledge kid now
    if invalidated > 0 then db.retireKnowledgeChunk tenant kid now else db
  else db

/-- The items of the tenant that the episode supports. SOURCE: postgres.rs:4705-4715 -/
def supportedBy (db : Database) (tenant : TenantId) (episodeId : EpisodeId) : List KnowledgeId :=
  (db.evidence.filter fun e => decide (e.episodeId = episodeId) &&
    db.knowledge.rows.any fun k => decide (k.id = e.knowledgeId ∧ k.tenantId = tenant)).map
      KnowledgeEvidence.knowledgeId

/-- SOURCE: postgres.rs:4662-4785 -/
def forget (db : Database) (now : Time) (tenant : TenantId) : ForgetRef → Database × Nat
  | .chunk chunkId =>
    db.retireChunks now fun c => decide (c.tenantId = tenant ∧ c.id = chunkId)
  | .episode episodeId =>
    let (db, chunksRetired) := db.retireChunks now fun c =>
      decide (c.tenantId = tenant ∧ c.provenance = episodeId)
    let (db, factsRetired) := db.retireFacts now fun r =>
      decide (r.tenantId = tenant ∧ r.provenance = episodeId)
    ((db.supportedBy tenant episodeId).foldl (withdrawSupport tenant episodeId now) db,
      chunksRetired + factsRetired)

/-- SOURCE: postgres.rs:4787-4806 -/
def retireEntity (db : Database) (tenant : TenantId) (source entityId : String)
    (deletedAt : Instant) : Database × Nat :=
  db.retireFacts deletedAt.stored fun r =>
    decide (r.tenantId = tenant ∧ r.key.source = source ∧ r.key.entityId = entityId)

/-- The chunks are closed and lose their visibility in the same statement.
SOURCE: postgres.rs:4808-4862 -/
def retireDocument (db : Database) (now : Time) (tenant : TenantId) (source documentId : String) :
    Database × Nat :=
  let current (c : Chunk) : Bool := c.ofDocument tenant source documentId &&
    decide (c.validTo = none)
  ({ db with
      chunks := db.chunks.update
        (fun c => if current c then { c with validTo := some now, visibility := [] } else c)
        (by intro c; split <;> rfl) },
    countWhere current db.chunks.rows)

/-- The fact table takes the write. -/
def upsertFact (db : Database) (now : Time) (fact : FactWrite) :
    Except StorageError (Database × FactUpsertOutcome) := do
  let (facts, outcome) ← Model.upsertFact db.facts now fact
  pure ({ db with facts := facts }, outcome)

def upsertChunks (db : Database) (now : Time) (writes : List ChunkWrite) : Database :=
  { db with chunks := db.chunks.upsertChunks now writes }

/-- The database after a call. Each is one transaction, and the reads leave it as it is. -/
def factStep (db : Database) : FactCall → Option Database
  | .upsertFact now fact =>
    match db.upsertFact now fact with
    | .ok (db, _) => some db
    | .error _ => none
  | .retireEntity tenant source entityId deletedAt =>
    some (db.retireEntity tenant source entityId deletedAt).1
  | .forget now tenant ref => some (db.forget now tenant ref).1
  | .currentFact _ _ => some db
  | .factAsOf _ _ _ => some db

/-! ## What the operations do to the facts -/

@[simp]
theorem facts_withdrawSupport (tenant : TenantId) (episodeId : EpisodeId) (now : Time)
    (db : Database) (kid : KnowledgeId) :
    (withdrawSupport tenant episodeId now db kid).facts = db.facts := by
  unfold withdrawSupport
  dsimp only
  split
  · split <;> rfl
  · rfl

/-- A column that the withdrawal of one item leaves alone is left alone by that of all. -/
theorem foldl_withdrawSupport_frame {β : Type} (column : Database → β) {tenant : TenantId}
    {episodeId : EpisodeId} {now : Time}
    (h : ∀ db kid, column (withdrawSupport tenant episodeId now db kid) = column db)
    (kids : List KnowledgeId) (db : Database) :
    column (kids.foldl (withdrawSupport tenant episodeId now) db) = column db := by
  induction kids generalizing db with
  | nil => rfl
  | cons kid kids ih => rw [List.foldl_cons, ih, h]

/-- Forgetting a chunk leaves the facts alone; forgetting an episode closes the facts that came
from it. -/
theorem facts_forget (db : Database) (now : Time) (tenant : TenantId) (ref : ForgetRef) :
    (db.forget now tenant ref).1.facts =
      match ref with
      | .chunk _ => db.facts
      | .episode episodeId => (db.retireFacts now fun r =>
        decide (r.tenantId = tenant ∧ r.provenance = episodeId)).1.facts := by
  cases ref with
  | chunk chunkId => rfl
  | episode episodeId =>
    unfold forget
    dsimp only
    exact foldl_withdrawSupport_frame Database.facts
      (facts_withdrawSupport tenant episodeId now) _ _

/-- When no fact is closed, the facts are as before. -/
theorem facts_retireFacts_of_zero {db : Database} {validTo : Time} {p : FactRow → Bool}
    (h : (db.retireFacts validTo p).2 = 0) :
    (db.retireFacts validTo p).1.facts.rows = db.facts.rows := by
  have hnone : ∀ r ∈ db.facts.rows, ¬ (p r && decide (r.validTo = none)) = true :=
    List.filter_eq_nil_iff.mp (List.eq_nil_of_length_eq_zero h)
  unfold retireFacts FactTable.updateRows
  dsimp only
  refine (List.map_congr_left fun r hr => if_neg (hnone r hr)).trans ?_
  exact List.map_id _

theorem retired_forget_episode {db : Database} {now : Time} {tenant : TenantId}
    {episodeId : EpisodeId} (h : (db.forget now tenant (.episode episodeId)).2 = 0) :
    (db.retireFacts now
      fun r => decide (r.tenantId = tenant ∧ r.provenance = episodeId)).2 = 0 := by
  unfold forget at h
  dsimp only at h
  have hfacts := Nat.eq_zero_of_add_eq_zero_left h
  exact hfacts

end Database

/-! ## The deliveries of one document

A connector delivers a document as the parts its text is split into, at positions that count from
zero and all at the time the file was modified. When the document is gone at the source its lineage
is retired. Both go to the `chunks` table; a document whose text is empty is delivered without
parts.
-/

/-- What a chunk says and who may see it. -/
structure DocumentPart where
  content : String
  visibility : List PrincipalToken
  entityTags : List String
  confidentiality : Confidentiality
deriving DecidableEq, Repr

def Chunk.part (c : Chunk) : DocumentPart :=
  ⟨c.content, c.visibility, c.entityTags, c.confidentiality⟩

/-- One delivery of a document, at the instant of its transaction. -/
structure DocumentDelivery where
  now : Time
  validFrom : Instant
  provenance : EpisodeId
  aclProvenance : AclProvenance
  parts : List DocumentPart
deriving DecidableEq, Repr

/-- SOURCE: main.rs:4341-4365 -/
def DocumentDelivery.write (d : DocumentDelivery) (tenant : TenantId) (source documentId : String)
    (part : DocumentPart × Nat) : ChunkWrite where
  tenantId := tenant
  source := source
  documentId := documentId
  seq := part.2
  content := part.1.content
  visibility := part.1.visibility
  entityTags := part.1.entityTags
  confidentiality := part.1.confidentiality
  trustTier := .authoritative
  validFrom := d.validFrom
  provenance := d.provenance
  aclProvenance := d.aclProvenance
  derivedFrom := []

/-- What happens to one document. -/
inductive DocumentEvent where
  | deliver (delivery : DocumentDelivery)
  | retire (now : Time)
deriving DecidableEq, Repr

/-- The start the parts of a delivery are stored with. -/
def DocumentDelivery.start (d : DocumentDelivery) : Time := d.validFrom.stored

/-- The time a delivery is of. -/
def DocumentEvent.validFrom : DocumentEvent → Option Instant
  | .deliver d => some d.validFrom
  | .retire _ => none

/-- SOURCE: main.rs:4340-4370, postgres.rs:4808-4862 -/
def documentStep (tenant : TenantId) (source documentId : String) (db : Database) :
    DocumentEvent → Option Database
  | .deliver d =>
    some (db.upsertChunks d.now (d.parts.zipIdx.map (d.write tenant source documentId)))
  | .retire now => some (db.retireDocument now tenant source documentId).1

end Verity.Model
