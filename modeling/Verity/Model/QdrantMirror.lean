import Verity.Foundation.Mirror
import Verity.Model.Briefs
import Verity.Model.Qdrant

/-!
# Writing through the Qdrant profile

`QdrantAdapter` writes every chunk twice: the inner adapter commits to the tables, and then the rows
that the operation has touched are read back and sent to the vector store as points. Each verb has
its own way of saying which rows these are. A point is stored in the collection of its tenant, under
an id made from the columns of the row's key.

An operation that fails ends a run; one that has committed and whose mirror step fails is a step of
its own (`stepUnsent`). The store applies each upsert of points at once. The embedding of a row, the
creation of collections and the batches of a request are left out.
-/

set_option autoImplicit false

namespace Verity.Model

open Verity.Foundation

/-- What point ids are made with: the text of a tenant's uuid and the uuid of version 5 of a name in
the OID namespace. -/
structure PointIds (ι : Type) where
  uuidText : TenantId → String
  uuidV5 : String → ι

/-- The place of a chunk within its tenant. -/
def Chunk.place (c : Chunk) : String × String × Int := (c.source, c.documentId, c.seq)

def ChunkWrite.place (w : ChunkWrite) : String × String × Int :=
  (w.source, w.documentId, w.seq)

section Points

variable {ι : Type} (ids : PointIds ι)

/-- The name that is hashed. SOURCE: qdrant.rs:65-68 -/
def pointName : Version → String
  | ((tenant, source, documentId, seq), validFrom) =>
    ids.uuidText tenant ++ "|" ++ source ++ "|" ++ documentId ++ "|" ++ toString seq ++ "|" ++
      toString validFrom

/-- SOURCE: qdrant.rs:54-70 -/
def pointId (v : Version) : ι := ids.uuidV5 (pointName ids v)

/-- A point with its id. -/
structure MirrorPoint (ι : Type) extends ChunkPoint where
  id : ι

/-- A point is found by its collection and its id. -/
def MirrorPoint.address (p : MirrorPoint ι) : TenantId × ι := (p.collection, p.id)

/-- SOURCE: qdrant.rs:94-138 -/
def mirrorPoint (c : Chunk) : MirrorPoint ι :=
  { chunkPoint c.tenantId c with id := pointId ids c.version }

end Points

/-- The two stores. -/
structure QdrantAdapter (ι : Type) where
  inner : Database
  points : List (MirrorPoint ι)

/-- The operations that write. The first three are passed on to the inner adapter. -/
inductive MirrorCall where
  | appendEpisode (e : Episode)
  | upsertFact (now : Time) (fact : FactWrite)
  | proposeKnowledge (now : Time) (id : KnowledgeId) (p : KnowledgeProposal)
  | upsertChunks (now : Time) (writes : List ChunkWrite)
  | recordAction (now : Time) (episodeId : EpisodeId) (action : ActionWrite)
  | publishKnowledge (now : Time) (tenant : TenantId) (id : KnowledgeId) (episodeId : EpisodeId)
      (visibility : List PrincipalToken) (kMin : Int)
  | forget (now : Time) (tenant : TenantId) (ref : ForgetRef)
  | retireEntity (tenant : TenantId) (source entityId : String) (deletedAt : Time)
  | retireDocument (now : Time) (tenant : TenantId) (source documentId : String)

/-- The operation sent again: it comes at another instant and draws other fresh ids. -/
def MirrorCall.again (now : Time) (fresh : Nat) : MirrorCall → MirrorCall
  | .appendEpisode e => .appendEpisode { e with id := fresh, recordedAt := now }
  | .upsertFact _ fact => .upsertFact now fact
  | .proposeKnowledge _ _ p => .proposeKnowledge now fresh p
  | .upsertChunks _ writes => .upsertChunks now writes
  | .recordAction _ _ action => .recordAction now fresh action
  | .publishKnowledge _ tenant id _ visibility kMin =>
    .publishKnowledge now tenant id fresh visibility kMin
  | .forget _ tenant ref => .forget now tenant ref
  | .retireEntity tenant source entityId deletedAt =>
    .retireEntity tenant source entityId deletedAt
  | .retireDocument _ tenant source documentId => .retireDocument now tenant source documentId

/-- The highest delivered position of the document of a write. SOURCE: qdrant.rs:600-607 -/
def docMax (writes : List ChunkWrite) (w : ChunkWrite) : Int :=
  (writes.filter fun v => decide (ChunkTable.documentOf v = ChunkTable.documentOf w)).foldl
    (fun m v => max m v.seq) w.seq

namespace QdrantAdapter

variable {ι : Type} [DecidableEq ι] (ids : PointIds ι)

/-- The tables as an operation of the inner adapter leaves them, and the selected rows of the tenant
as points. SOURCE: qdrant.rs:243-280 -/
def mirrorRows (s : QdrantAdapter ι) (db : Database) (tenant : TenantId) (sel : Chunk → Bool) :
    QdrantAdapter ι where
  inner := db
  points := upsertPoints MirrorPoint.address s.points
    ((db.chunks.rows.filter fun c => decide (c.tenantId = tenant) && sel c).map (mirrorPoint ids))

/-- SOURCE: qdrant.rs:282-321 -/
def mirrorPositions (s : QdrantAdapter ι) (db : Database) (tenant : TenantId)
    (positions : List (String × String × Int)) : QdrantAdapter ι :=
  s.mirrorRows ids db tenant fun c => decide (c.place ∈ positions)

/-- The delivered positions, and those past the end of each delivered document.
SOURCE: qdrant.rs:582-635 -/
def upsertChunks (s : QdrantAdapter ι) (now : Time) (writes : List ChunkWrite) :
    Except StorageError (QdrantAdapter ι) :=
  match writes with
  | [] => .ok s
  | first :: _ =>
    if writes.any fun w => decide (w.tenantId ≠ first.tenantId) then
      .error (.invalidInput "one upsert_chunks batch, one tenant")
    else
      let db := s.inner.upsertChunks now writes
      let tail := writes.flatMap fun w =>
        (db.chunks.rows.filter fun c =>
          c.ofDocument first.tenantId w.source w.documentId &&
            decide (docMax writes w < c.seq)).map Chunk.place
      .ok (s.mirrorPositions ids db first.tenantId (writes.map ChunkWrite.place ++ tail))

/-- SOURCE: qdrant.rs:678-695 -/
def recordAction (s : QdrantAdapter ι) (now : Time) (episodeId : EpisodeId) (a : ActionWrite) :
    QdrantAdapter ι :=
  let (db, recorded) := s.inner.recordAction now episodeId a
  if recorded then
    s.mirrorRows ids db a.tenantId fun c =>
      decide (c.source = "agent" ∧ c.documentId = "action:" ++ a.actionId)
  else { s with inner := db }

/-- SOURCE: qdrant.rs:760-783 -/
def publishKnowledge (s : QdrantAdapter ι) (now : Time) (tenant : TenantId) (id : KnowledgeId)
    (episodeId : EpisodeId) (visibility : List PrincipalToken) (kMin : Int) :
    Except StorageError (QdrantAdapter ι) := do
  let db ← s.inner.publishKnowledge now tenant id episodeId visibility kMin
  pure (s.mirrorRows ids db tenant fun c =>
    decide (c.source = "knowledge" ∧ c.documentId = "knowledge:" ++ toString id))

/-- SOURCE: qdrant.rs:793-823 -/
def forget (s : QdrantAdapter ι) (now : Time) (tenant : TenantId) (ref : ForgetRef) :
    QdrantAdapter ι :=
  let (db, _) := s.inner.forget now tenant ref
  match ref with
  | .chunk chunkId => s.mirrorRows ids db tenant fun c => decide (c.id = chunkId)
  | .episode episodeId =>
    s.mirrorRows ids db tenant fun c => decide (c.provenance = episodeId) ||
      (decide ("knowledge:".toList <+: c.documentId.toList) && c.validTo.isSome)

/-- The chunks of the source that are about the entity are closed too.
SOURCE: qdrant.rs:825-869 -/
def retireEntity (s : QdrantAdapter ι) (tenant : TenantId) (source entityId : String)
    (deletedAt : Time) : QdrantAdapter ι :=
  let (db, _) := s.inner.retireEntity tenant source entityId deletedAt
  let about (c : Chunk) : Bool :=
    decide (c.tenantId = tenant ∧ c.source = source ∧ entityId ∈ c.entityTags)
  let touched := (db.chunks.rows.filter fun c => about c && decide (c.validTo = none)).map
    Chunk.place
  s.mirrorPositions ids (db.retireChunks deletedAt about).1 tenant touched

/-- SOURCE: qdrant.rs:871-909 -/
def retireDocument (s : QdrantAdapter ι) (now : Time) (tenant : TenantId)
    (source documentId : String) : QdrantAdapter ι :=
  let (db, _) := s.inner.retireDocument now tenant source documentId
  let touched := (db.chunks.rows.filter fun c => c.ofDocument tenant source documentId).map
    Chunk.place
  s.mirrorPositions ids db tenant touched

/-- The two stores after an operation. -/
def step (text : UnicodeText) (s : QdrantAdapter ι) : MirrorCall → Option (QdrantAdapter ι)
  | .appendEpisode e => (s.inner.appendEpisode e).toOption.map fun db => { s with inner := db }
  | .upsertFact now fact =>
    (s.inner.upsertFact now fact).toOption.map fun r => { s with inner := r.1 }
  | .proposeKnowledge now id p =>
    (s.inner.proposeKnowledge text now id p).toOption.map fun r => { s with inner := r.1 }
  | .upsertChunks now writes => (s.upsertChunks ids now writes).toOption
  | .recordAction now episodeId action => some (s.recordAction ids now episodeId action)
  | .publishKnowledge now tenant id episodeId visibility kMin =>
    (s.publishKnowledge ids now tenant id episodeId visibility kMin).toOption
  | .forget now tenant ref => some (s.forget ids now tenant ref)
  | .retireEntity tenant source entityId deletedAt =>
    some (s.retireEntity ids tenant source entityId deletedAt)
  | .retireDocument now tenant source documentId =>
    some (s.retireDocument ids now tenant source documentId)

/-- Whether an operation that commits goes on to the rows it mirrors. The retirement of an entity
sends what its own statement has returned, and an action what it has recorded. -/
def sends (s : QdrantAdapter ι) : MirrorCall → Bool
  | .appendEpisode _ | .upsertFact _ _ | .proposeKnowledge _ _ _ => false
  | .upsertChunks _ writes => !writes.isEmpty
  | .recordAction now episodeId action => (s.inner.recordAction now episodeId action).2
  | .retireEntity tenant source entityId _ => s.inner.chunks.rows.any fun c =>
    decide ((c.tenantId = tenant ∧ c.source = source ∧ entityId ∈ c.entityTags) ∧
      c.validTo = none)
  | .publishKnowledge _ _ _ _ _ _ | .forget _ _ _ | .retireDocument _ _ _ _ => true

/-- The operation commits, its mirror step fails, and the caller gets an error. -/
def stepUnsent (text : UnicodeText) (s : QdrantAdapter ι) (call : MirrorCall) :
    Option (QdrantAdapter ι) :=
  if s.sends call then (s.step ids text call).map fun s' => { s' with points := s.points }
  else none

end QdrantAdapter

end Verity.Model
