import Verity.Model.EvidenceLedger
import Verity.Model.Retirement
import Verity.Model.Text

/-!
# The knowledge layer

A lesson is proposed with the episodes that support it. `propose_knowledge` remembers rejections,
holds back a statement that names an entity, adds the support to a live item with the same
statement, or inserts a candidate. `publish_knowledge` checks the support counters of the item and
writes the chunk that serves it. `forget` withdraws the evidence of an episode.

The counters of an item are columns of their own beside the evidence rows they count; `recount` is
the count. The merge bookkeeping of the items and the categories of the chunk are left out, and so
is which of several rejected items is answered with. The support tier of the chunk is said with
the operations that write it.
-/

set_option autoImplicit false

namespace Verity.Model

open Verity.Foundation

/-- The operations on Unicode text that the de-identification gate uses: `str::to_lowercase` and
the text of a string in a debug format. -/
structure UnicodeText where
  toLowercase : String → String
  debug : String → String

/-- SOURCE: types.rs:516-527 -/
def KnowledgeStatus.asStr : KnowledgeStatus → String
  | .candidate => "candidate"
  | .quarantined => "quarantined"
  | .eligible => "eligible"
  | .published => "published"
  | .rejected => "rejected"
  | .invalidated => "invalidated"

/-! ## Support -/

/-- The four counters of an item. -/
structure Support where
  distinctEntities : Nat
  episodeCount : Nat
  writerCount : Nat
  hasTier1Evidence : Bool
deriving DecidableEq, Repr

def KnowledgeRow.support (k : KnowledgeRow) : Support :=
  ⟨k.distinctEntities, k.episodeCount, k.writerCount, k.hasTier1Evidence⟩

def KnowledgeRow.setSupport (k : KnowledgeRow) (s : Support) : KnowledgeRow :=
  { k with
    distinctEntities := s.distinctEntities
    episodeCount := s.episodeCount
    writerCount := s.writerCount
    hasTier1Evidence := s.hasTier1Evidence }

/-- The counters as the evidence rows have them. SOURCE: postgres.rs:4424-4433 -/
def recount (evidence : List KnowledgeEvidence) (kid : KnowledgeId) : Support :=
  let rows := evidence.filter fun e => decide (e.knowledgeId = kid)
  { distinctEntities := (rows.filterMap KnowledgeEvidence.entity).dedup.length
    episodeCount := rows.length
    writerCount := (rows.filterMap KnowledgeEvidence.writerAzp).dedup.length
    hasTier1Evidence := rows.any fun e => decide (e.trustTier = .authoritative) }

/-- `if !v.contains(&x) { v.push(x) }`. -/
def pushNew (v : List String) (x : String) : List String := if v.contains x then v else v ++ [x]

/-- The counters of a new item, counted off its episodes. SOURCE: postgres.rs:4349-4365 -/
def countEpisodes (episodes : List Episode) : Support where
  distinctEntities := ((episodes.filterMap Episode.sourceEntity).foldl pushNew []).length
  episodeCount := episodes.length
  writerCount := ((episodes.filterMap Episode.writerAzp).foldl pushNew []).length
  hasTier1Evidence := episodes.foldl
    (fun hasTier1 e => hasTier1 || decide (e.trustTier = .authoritative)) false

/-- The evidence row an episode becomes. -/
def Episode.toEvidence (kid : KnowledgeId) (e : Episode) : KnowledgeEvidence where
  knowledgeId := kid
  episodeId := e.id
  entity := e.sourceEntity
  writerAzp := e.writerAzp
  trustTier := e.trustTier

/-- `INSERT INTO knowledge_evidence … ON CONFLICT DO NOTHING`. -/
def insertEvidenceRow (rows : List KnowledgeEvidence) (e : KnowledgeEvidence) :
    List KnowledgeEvidence :=
  if rows.any fun e' => decide (e'.knowledgeId = e.knowledgeId ∧ e'.episodeId = e.episodeId) then
    rows
  else rows ++ [e]

/-! ## Proposals -/

/-- SOURCE: types.rs:568-584 -/
structure KnowledgeProposal where
  tenantId : TenantId
  statement : String
  categories : List String
  evidence : List EpisodeId
  proposedBySub : Option String
  proposedByAzp : Option String
  canonicalStatement : Option String
deriving DecidableEq, Repr

/-- SOURCE: postgres.rs:4289-4293 -/
def KnowledgeProposal.canon (p : KnowledgeProposal) : Option String :=
  (p.canonicalStatement.map trim).filter (· ≠ "")

/-- What became of a proposal: a rejection was remembered, an item gained support, or an item was
inserted. -/
inductive ProposeOutcome where
  | remembered
  | accrued (id : KnowledgeId)
  | inserted (id : KnowledgeId)
deriving DecidableEq, Repr

namespace Database

/-- SOURCE: postgres.rs:4294-4311 -/
def rejectedBefore (db : Database) (p : KnowledgeProposal) : Bool :=
  db.knowledge.rows.any fun k =>
    decide (k.tenantId = p.tenantId ∧ k.status = .rejected) &&
      match p.canon with
      | some canon => decide (k.canonicalStatement = some canon)
      | none => decide (k.statement = p.statement)

/-- The episodes of the tenant that the proposal names. SOURCE: postgres.rs:4314-4323 -/
def proposalEpisodes (db : Database) (p : KnowledgeProposal) : List Episode :=
  db.episodes.filter fun e => decide (e.tenantId = p.tenantId) && p.evidence.contains e.id

/-- The entity identifiers of the tenant. SOURCE: postgres.rs:4330-4340 -/
def lexicon (db : Database) (tenant : TenantId) : List String :=
  ((db.chunks.rows.filter fun c => c.tenantId = tenant).flatMap Chunk.entityTags ++
    (db.actions.filter fun a => a.write.tenantId = tenant).flatMap (fun a => a.write.entities) ++
    (db.facts.rows.filter fun r => r.tenantId = tenant).map fun r => r.key.entityId).dedup

end Database

/-- The term, or its part after the last colon, when it is in the statement. Terms of fewer than
four bytes are passed over. SOURCE: postgres.rs:4342-4348 -/
def leakedTerm (text : UnicodeText) (statement term : String) : Option String :=
  let bare := ((rsplitOnce term).map Prod.snd).getD term
  [term, bare].find? fun t => decide (4 ≤ t.utf8ByteSize) &&
    decide ((text.toLowercase t).toList <:+: (text.toLowercase statement).toList)

def duplicateKey (constraint : String) : StorageError :=
  .database ("duplicate key value violates unique constraint " ++ constraint)

/-- The insert, refused when the id is taken. -/
def KnowledgeTable.insert (t : KnowledgeTable) (k : KnowledgeRow) :
    Except StorageError KnowledgeTable :=
  if h : k.id ∈ t.rows.map KnowledgeRow.id then .error (duplicateKey "knowledge_pkey")
  else .ok
    { rows := t.rows ++ [k]
      ids_nodup := by
        refine nodup_keys_concat t.ids_nodup ?_
        intro k' hk' heq
        exact h (heq ▸ List.mem_map_of_mem hk') }

namespace Database

/-- The live item with the statement, the first by id. SOURCE: postgres.rs:4386-4403 -/
def twinOf (db : Database) (p : KnowledgeProposal) : Option KnowledgeRow :=
  ((db.knowledge.rows.filter fun k =>
      decide (k.tenantId = p.tenantId ∧ (k.status = .candidate ∨ k.status = .eligible)) &&
        ((match p.canon with
          | some canon => decide (k.canonicalStatement = some canon)
          | none => false) || decide (k.statement = p.statement))).insertionSort
    (Ascending KnowledgeRow.id)).head?

def addEvidence (db : Database) (kid : KnowledgeId) (episodes : List Episode) : Database :=
  { db with
    evidence := (episodes.map (Episode.toEvidence kid)).foldl insertEvidenceRow db.evidence }

/-- The twin gains the evidence, and its counters are those of its rows.
SOURCE: postgres.rs:4404-4443 -/
def accrue (db : Database) (twin : KnowledgeRow) (categories : List String)
    (episodes : List Episode) : Database :=
  let db := db.addEvidence twin.id episodes
  { db with
    knowledge := db.knowledge.updateRows (fun k => decide (k.id = twin.id))
      (fun k => { k.setSupport (recount db.evidence twin.id) with
        categories := (k.categories ++ categories).dedup })
      (fun _ => rfl) }

/-- The row of a new item. -/
def newKnowledge (now : Time) (id : KnowledgeId) (p : KnowledgeProposal) (leaked : Option String)
    (text : UnicodeText) (support : Support) : KnowledgeRow where
  id := id
  tenantId := p.tenantId
  statement := p.statement
  categories := p.categories
  status := if leaked.isSome then .quarantined else .candidate
  quarantineReason := leaked.map fun term =>
    "statement contains known entity identifier " ++ text.debug term
  distinctEntities := support.distinctEntities
  episodeCount := support.episodeCount
  writerCount := support.writerCount
  hasTier1Evidence := support.hasTier1Evidence
  proposedBySub := p.proposedBySub
  proposedByAzp := p.proposedByAzp
  canonicalStatement := p.canon
  firstSeen := now
  lastReinforced := now
  publishedAt := none
  invalidatedAt := none
  invalidatedReason := none

/-- SOURCE: postgres.rs:4445-4487 -/
def insertKnowledge (text : UnicodeText) (db : Database) (now : Time) (id : KnowledgeId)
    (p : KnowledgeProposal) (leaked : Option String) (episodes : List Episode) :
    Except StorageError Database := do
  let knowledge ← db.knowledge.insert
    (newKnowledge now id p leaked text (countEpisodes episodes))
  pure (({ db with knowledge := knowledge } : Database).addEvidence id episodes)

/-- The id is the one a new item would get (`Uuid::now_v7`). SOURCE: postgres.rs:4281-4488 -/
def proposeKnowledge (text : UnicodeText) (db : Database) (now : Time) (id : KnowledgeId)
    (p : KnowledgeProposal) : Except StorageError (Database × ProposeOutcome) :=
  if db.rejectedBefore p then .ok (db, .remembered)
  else
    let episodes := db.proposalEpisodes p
    let leaked := (db.lexicon p.tenantId).findSome? (leakedTerm text p.statement)
    match leaked, db.twinOf p with
    | none, some twin => .ok (db.accrue twin p.categories episodes, .accrued twin.id)
    | _, _ => do
        let db ← db.insertKnowledge text now id p leaked episodes
        pure (db, .inserted id)

/-! ## Publishing -/

/-- The gates of a publish. SOURCE: postgres.rs:4516-4541 -/
def publishGates (k : KnowledgeRow) (kMin : Int) : Except StorageError Unit :=
  if k.status ≠ .candidate ∧ k.status ≠ .eligible then
    .error (.invalidInput ("only candidate/eligible items can be published (status: " ++
      k.status.asStr ++ ")"))
  else if (k.distinctEntities : Int) < kMin then
    .error (.invalidInput ("k-support unmet: " ++ toString k.distinctEntities ++
      " distinct entities < k_min " ++ toString kMin))
  else if k.writerCount < 2 ∧ k.hasTier1Evidence = false then
    .error (.invalidInput "corroboration unmet: needs >=2 distinct writers or tier-1 evidence")
  else .ok ()

/-- The chunk that serves a published item: without entity tags, at the visibility of the
publish. SOURCE: postgres.rs:4570-4597 -/
def knowledgeChunk (t : ChunkTable) (now : Time) (k : KnowledgeRow) (episodeId : EpisodeId)
    (visibility : List PrincipalToken) : Chunk where
  id := t.nextId
  tenantId := k.tenantId
  source := "knowledge"
  documentId := "knowledge:" ++ toString k.id
  seq := 0
  content := k.statement
  visibility := visibility
  entityTags := []
  confidentiality := .internal
  trustTier := .observation
  validFrom := now
  validTo := none
  recordedAt := now
  provenance := episodeId
  aclProvenance := .adminAssigned
  derivedFrom := []
  kind := "knowledge"

/-- The episode of a publish. SOURCE: postgres.rs:4550-4568 -/
def publishEpisode (now : Time) (k : KnowledgeRow) (episodeId : EpisodeId) : Episode where
  id := episodeId
  tenantId := k.tenantId
  source := "knowledge"
  sourceEntity := some (toString k.id)
  kind := .knowledgePublish
  payload := .other (.obj [("knowledge_id", .str (toString k.id)), ("statement", .str k.statement)])
  trustTier := .observation
  writerSub := none
  writerAzp := none
  recordedAt := now

end Database

/-- A plain `INSERT` of a row with the table's next id. -/
def ChunkTable.append (t : ChunkTable) (c : Chunk) (hid : c.id = t.nextId) : ChunkTable where
  rows := t.rows ++ [c]
  nextId := t.nextId + 1
  ids_lt := ids_lt_concat t.ids_lt hid
  ids_nodup := nodup_ids_concat t.ids_nodup t.ids_lt hid

namespace Database

/-- The ids of the episode and of the chunk are fresh (`Uuid::now_v7`); an insert that meets a
key is an error. SOURCE: postgres.rs:4490-4604 -/
def publishKnowledge (db : Database) (now : Time) (tenant : TenantId) (id : KnowledgeId)
    (episodeId : EpisodeId) (visibility : List PrincipalToken) (kMin : Int) :
    Except StorageError Database :=
  if visibility.isEmpty then
    .error (.invalidInput "publishing requires a non-empty visibility set")
  else
    match db.knowledge.rows.find? fun k => decide (k.tenantId = tenant ∧ k.id = id) with
    | none => .error (.invalidInput "unknown knowledge item")
    | some k =>
      match publishGates k kMin with
      | .error e => .error e
      | .ok () =>
        if db.episodes.any fun e => decide (e.id = episodeId) then
          .error (duplicateKey "episodes_pkey")
        else if db.chunks.rows.any fun c => decide (c.tenantId = tenant ∧
            c.source = "knowledge" ∧ c.documentId = "knowledge:" ++ toString id ∧
            c.seq = 0 ∧ c.validFrom = now) then
          .error (duplicateKey "chunks_tenant_id_source_document_id_seq_valid_from_key")
        else .ok { db with
          episodes := db.episodes ++ [publishEpisode now k episodeId]
          chunks := db.chunks.append (knowledgeChunk db.chunks now k episodeId visibility) rfl
          knowledge := db.knowledge.updateRows (fun k => decide (k.id = id))
            (fun k => { k with status := .published, publishedAt := some now }) (fun _ => rfl) }

/-- SOURCE: postgres.rs:3870-3876 -/
def appendEpisode (db : Database) (e : Episode) : Except StorageError Database :=
  if db.episodes.any fun e' => decide (e'.id = e.id) then .error (duplicateKey "episodes_pkey")
  else .ok { db with episodes := db.episodes ++ [e] }

end Database

/-- The calls that touch the knowledge layer or what supports it. -/
inductive KnowledgeCall where
  | appendEpisode (e : Episode)
  | propose (now : Time) (id : KnowledgeId) (p : KnowledgeProposal)
  | forget (now : Time) (tenant : TenantId) (ref : ForgetRef)
  | publish (now : Time) (tenant : TenantId) (id : KnowledgeId) (episodeId : EpisodeId)
      (visibility : List PrincipalToken) (kMin : Int)
deriving DecidableEq

/-- The database after a call; a call that fails leaves it as it was. -/
def Database.knowledgeStep (text : UnicodeText) (db : Database) : KnowledgeCall → Option Database
  | .appendEpisode e =>
    match db.appendEpisode e with
    | .ok db' => some db'
    | .error _ => some db
  | .propose now id p =>
    match db.proposeKnowledge text now id p with
    | .ok (db', _) => some db'
    | .error _ => some db
  | .forget now tenant ref => some (db.forget now tenant ref).1
  | .publish now tenant id episodeId visibility kMin =>
    match db.publishKnowledge now tenant id episodeId visibility kMin with
    | .ok db' => some db'
    | .error _ => some db

end Verity.Model
