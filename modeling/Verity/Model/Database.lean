import Verity.Model.AgentWrites

/-!
# The tables of a deployment

The tables that hold what is known of a subject: the tables of the agent verbs and of the facts,
and with them the knowledge layer, the audit log, the quarantine and the media. Tables that only
refer to these rows are represented by the ids they hold: a row cannot be deleted while another
row refers to it.

The embeddings, the media bytes and the merge bookkeeping of the knowledge layer are left out.
-/

set_option autoImplicit false

namespace Verity.Model

open Verity.Foundation

abbrev KnowledgeId := Nat
abbrev MediaId := Nat

/-- SOURCE: types.rs:496-513 -/
inductive KnowledgeStatus where
  | candidate
  | quarantined
  | eligible
  | published
  | rejected
  | invalidated
deriving DecidableEq, Repr

/-- A row of `knowledge`. SOURCE: migrations/0005_knowledge.sql:6-24,
0016_knowledge_canonical.sql:19 -/
structure KnowledgeRow where
  id : KnowledgeId
  tenantId : TenantId
  statement : String
  categories : List String
  status : KnowledgeStatus
  quarantineReason : Option String
  distinctEntities : Nat
  episodeCount : Nat
  writerCount : Nat
  hasTier1Evidence : Bool
  proposedBySub : Option String
  proposedByAzp : Option String
  canonicalStatement : Option String
  firstSeen : Time
  lastReinforced : Time
  publishedAt : Option Time
  invalidatedAt : Option Time
  invalidatedReason : Option String
deriving DecidableEq, Repr

/-- A row of `knowledge_evidence`. SOURCE: migrations/0005_knowledge.sql:29-36 -/
structure KnowledgeEvidence where
  knowledgeId : KnowledgeId
  episodeId : EpisodeId
  entity : Option String
  writerAzp : Option String
  trustTier : TrustTier
deriving DecidableEq, Repr

/-- The table, with its primary key. -/
structure KnowledgeTable where
  rows : List KnowledgeRow
  ids_nodup : (rows.map KnowledgeRow.id).Nodup

/-- SOURCE: erasure.rs:34-52 -/
structure ErasureReport where
  episodes : Nat
  chunks : Nat
  facts : Nat
  actions : Nat
  knowledgeEvidence : Nat
  knowledgeInvalidated : Nat
  quarantinePreview : Nat
  auditLog : Nat
  media : Nat
deriving DecidableEq, Repr

/-- The summary column of the audit log: a text, or the JSON an erasure leaves. -/
inductive AuditSummary where
  | text (s : String)
  | erasure (subjectSha256 entitySha256 : Option String) (counts : ErasureReport)
deriving DecidableEq, Repr

/-- A row of `audit_log`. SOURCE: migrations/0006_provenance_audit.sql:11-23 -/
structure AuditRow where
  id : Nat
  tenantId : TenantId
  actorSub : Option String
  actorAzp : Option String
  verb : String
  principals : List PrincipalToken
  entityScope : List String
  confidentiality : Confidentiality
  querySummary : Option AuditSummary
  resultIds : List Nat
  instant : Time
deriving DecidableEq, Repr

/-- A row of `quarantine_preview`, with its payload as text.
SOURCE: migrations/0007_webhooks_media.sql:23-30 -/
structure QuarantineRow where
  id : Nat
  tenantId : TenantId
  webhookId : Nat
  payload : String
  reason : String
  instant : Time
deriving DecidableEq, Repr

/-- A row of `media`. SOURCE: migrations/0007_webhooks_media.sql:47-56 -/
structure MediaRow where
  id : MediaId
  tenantId : TenantId
  sha256 : String
  mime : String
  filename : Option String
  sizeBytes : Nat
  createdAt : Time
deriving DecidableEq, Repr

/-- The tables, the ids that other tables refer to, and the supply of audit ids. The other
tables are `episode_processing`, `tag_suggestions`, `fact_acl_audit` and `chunk_acl_audit`. -/
structure Database where
  episodes : List Episode
  chunks : ChunkTable
  facts : FactTable
  actions : List ActionRow
  knowledge : KnowledgeTable
  evidence : List KnowledgeEvidence
  quarantine : List QuarantineRow
  auditLog : List AuditRow
  media : List MediaRow
  heldEpisodes : List EpisodeId
  heldChunks : List ChunkId
  heldFacts : List FactId
  nextAudit : Nat

/-- The tables before any write. -/
def Database.empty : Database where
  episodes := []
  chunks := ⟨[], 1, fun _ h => absurd h List.not_mem_nil, List.nodup_nil⟩
  facts := FactTable.empty
  actions := []
  knowledge := ⟨[], List.nodup_nil⟩
  evidence := []
  quarantine := []
  auditLog := []
  media := []
  heldEpisodes := []
  heldChunks := []
  heldFacts := []
  nextAudit := 1

/-! ## Statements that keep the keys -/

def ChunkTable.deleteRows (t : ChunkTable) (p : Chunk → Bool) : ChunkTable where
  rows := deleteWhere p t.rows
  nextId := t.nextId
  ids_lt := by
    intro c hc
    exact t.ids_lt c (mem_deleteWhere.mp hc).1
  ids_nodup := t.ids_nodup.sublist (List.filter_sublist.map Chunk.id)

def FactTable.deleteRows (t : FactTable) (p : FactRow → Bool) : FactTable where
  rows := deleteWhere p t.rows
  nextId := t.nextId
  ids_lt := by
    intro r hr
    exact t.ids_lt r (mem_deleteWhere.mp hr).1
  ids_nodup := t.ids_nodup.sublist (List.filter_sublist.map FactRow.id)
  one_current := t.one_current.sublist List.filter_sublist

def KnowledgeTable.updateRows (t : KnowledgeTable) (p : KnowledgeRow → Bool)
    (f : KnowledgeRow → KnowledgeRow) (hf : ∀ k, (f k).id = k.id) : KnowledgeTable where
  rows := updateWhere p f t.rows
  ids_nodup := by
    rw [map_updateWhere hf]
    exact t.ids_nodup

end Verity.Model
