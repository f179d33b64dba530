import Verity.Model.Knowledge

/-!
# Materialized briefs

A brief of an entity is a row computed from the newest chunks and actions that carry the entity.
`refresh_brief` reads the chunks, then the actions, and then stores the row and clears its mark;
each is a statement of its own. A writer marks the briefs of the entities it touched as stale.
`upsert_chunks` and `record_action` do so in the transaction of the write, and
`chunk_entity_tags_upsert` in a transaction that follows the write. `retire_document` and `forget`
mark none.

A transaction is one step here, and a call that fails is left out. The queries of a refresh order
by an instant, so rows of equal instant come in any order.
-/

set_option autoImplicit false

namespace Verity.Model

open Verity.Foundation

/-! ## The row -/

/-- SOURCE: postgres.rs:4962-4967 -/
structure MemoryItem where
  content : String
  kind : String
  confidentiality : Int
  validFrom : Time
deriving DecidableEq, Repr

/-- SOURCE: postgres.rs:4973-4978 -/
structure ActivityItem where
  actionId : String
  actionType : String
  summary : String
  occurredAt : Time
deriving DecidableEq, Repr

/-- SOURCE: postgres.rs:4982-4987 -/
structure BriefBody where
  recentMemory : List MemoryItem
  recentActivity : List ActivityItem
  memoryCount : Nat
  activityCount : Nat
deriving DecidableEq, Repr

/-- What a refresh computes. -/
structure BriefContent where
  body : BriefBody
  sourceVisibility : List PrincipalToken
deriving DecidableEq, Repr

/-- A row of `briefs`. SOURCE: migrations/0015_briefs_embedding_migration.sql:25-38 -/
structure BriefRow where
  tenantId : TenantId
  entity : String
  content : BriefContent
  isStale : Bool
  lastSyncedAt : Option Time
  sourceVersion : Nat
deriving DecidableEq, Repr

def BriefRow.key (b : BriefRow) : TenantId × String := (b.tenantId, b.entity)

/-- The table, with its primary key. -/
structure BriefTable where
  rows : List BriefRow
  keys_nodup : (rows.map BriefRow.key).Nodup

namespace BriefTable

def empty : BriefTable where
  rows := []
  keys_nodup := by simp

/-- An `UPDATE` that keeps the keys. -/
def updateRows (t : BriefTable) (p : BriefRow → Bool) (f : BriefRow → BriefRow)
    (hf : ∀ b, (f b).key = b.key) : BriefTable where
  rows := updateWhere p f t.rows
  keys_nodup := by
    rw [map_updateWhere hf]
    exact t.keys_nodup

/-- SOURCE: postgres.rs:5844-5866 -/
def markStale (t : BriefTable) (tenant : TenantId) (entities : List String) : BriefTable :=
  if entities.isEmpty then t
  else
    t.updateRows (fun b => decide (b.tenantId = tenant) && entities.contains b.entity)
      (fun b => { b with isStale := true, sourceVersion := b.sourceVersion + 1 })
      (fun _ => rfl)

/-- `INSERT … ON CONFLICT (tenant_id, entity) DO UPDATE`. The source version of a row that is
there is kept. SOURCE: postgres.rs:4992-5008 -/
def store (t : BriefTable) (tenant : TenantId) (entity : String) (content : BriefContent)
    (now : Time) : BriefTable :=
  if h : ∃ b ∈ t.rows, b.key = (tenant, entity) then
    t.updateRows (fun b => decide (b.key = (tenant, entity)))
      (fun b => { b with content := content, isStale := false, lastSyncedAt := some now })
      (fun _ => rfl)
  else
    { rows := t.rows ++ [⟨tenant, entity, content, false, some now, 0⟩]
      keys_nodup := by
        refine nodup_keys_concat t.keys_nodup ?_
        intro b hb heq
        exact h ⟨b, hb, heq⟩ }

end BriefTable

/-! ## What a refresh computes -/

/-- The first list sorted and without repetitions, less what another list does not have.
SOURCE: postgres.rs:5868-5883 -/
def intersectVisibilities : List (List PrincipalToken) → List PrincipalToken
  | [] => []
  | first :: lists =>
    lists.foldl (fun acc list => acc.filter fun t => list.contains t)
      (first.dedup.insertionSort (· ≤ ·))

/-- SOURCE: postgres.rs:4954-4987 -/
def composeBrief (memory : List Chunk) (activity : List ActionRow) : BriefContent where
  body :=
    { recentMemory := memory.map fun c =>
        ⟨c.content, c.kind, c.confidentiality.toI16, c.validFrom⟩
      recentActivity := activity.map fun a =>
        ⟨a.write.actionId, a.write.actionType, a.write.summary, a.write.occurredAt.stored⟩
      memoryCount := memory.length
      activityCount := activity.length }
  sourceVisibility := intersectVisibilities
    (memory.map Chunk.visibility ++ activity.map fun a => a.write.visibility)

/-- SOURCE: postgres.rs:4926-4928 -/
def memorySelects (tenant : TenantId) (entity : String) (c : Chunk) : Bool :=
  decide (c.tenantId = tenant) && c.validTo.isNone && containedIn [entity] c.entityTags

/-- SOURCE: postgres.rs:4941-4942 -/
def activitySelects (tenant : TenantId) (entity : String) (a : ActionRow) : Bool :=
  decide (a.write.tenantId = tenant) && containedIn [entity] a.write.entities

/-- The current chunks that carry the entity. -/
def ChunkTable.carrying (t : ChunkTable) (tenant : TenantId) (entity : String) : List Chunk :=
  t.rows.filter (memorySelects tenant entity)

/-- The actions that carry the entity. -/
def actionsOn (actions : List ActionRow) (tenant : TenantId) (entity : String) : List ActionRow :=
  actions.filter (activitySelects tenant entity)

namespace Database

/-- SOURCE: postgres.rs:4923-4936 -/
abbrev MemoryAnswer (db : Database) (tenant : TenantId) (entity : String) (rows : List Chunk) :
    Prop :=
  AnswersLimit (Descending Chunk.validFrom) 10 (db.chunks.carrying tenant entity) rows

/-- SOURCE: postgres.rs:4938-4950 -/
abbrev ActivityAnswer (db : Database) (tenant : TenantId) (entity : String)
    (rows : List ActionRow) : Prop :=
  AnswersLimit (Descending fun a : ActionRow => a.write.occurredAt.stored) 10
    (actionsOn db.actions tenant entity) rows

/-- A refresh of the entity that meets no other call computes this. -/
def RefreshResult (db : Database) (tenant : TenantId) (entity : String) (content : BriefContent) :
    Prop :=
  ∃ memory activity, db.MemoryAnswer tenant entity memory ∧
    db.ActivityAnswer tenant entity activity ∧ content = composeBrief memory activity

instance (db : Database) (tenant : TenantId) (entity : String) (content : BriefContent) :
    Decidable (db.RefreshResult tenant entity content) :=
  decidable_of_iff
    (∃ memory ∈ answersOf (Descending Chunk.validFrom) 10 (db.chunks.carrying tenant entity),
      ∃ activity ∈ answersOf (Descending fun a : ActionRow => a.write.occurredAt.stored) 10
        (actionsOn db.actions tenant entity), content = composeBrief memory activity)
    (by simp only [RefreshResult, mem_answersOf, exists_and_left])

/-! ## The writers -/

/-- The tags of a chunk are replaced, with the number of rows.
SOURCE: postgres.rs:1398-1411 -/
def setEntityTags (db : Database) (tenant : TenantId) (source documentId : String) (seq : Int)
    (tags : List String) : Database × Nat :=
  let current (c : Chunk) : Bool := c.ofDocument tenant source documentId &&
    decide (c.seq = seq ∧ c.validTo = none)
  ({ db with
      chunks := db.chunks.update (fun c => if current c then { c with entityTags := tags } else c)
        (by intro c; split <;> rfl) },
    countWhere current db.chunks.rows)

/-- `record_action` on the tables of the verb. -/
def recordAction (db : Database) (now : Time) (episodeId : EpisodeId) (a : ActionWrite) :
    Database × Bool :=
  let (store, recorded) :=
    MemoryStore.recordAction ⟨db.episodes, episodeId, db.chunks, db.actions⟩ now a
  ({ db with episodes := store.episodes, chunks := store.chunks, actions := store.actions },
    recorded)

end Database

namespace ChunkTable

/-- The write retires this version of its position. SOURCE: postgres.rs:4025-4038 -/
def supersedes (w : ChunkWrite) (c : Chunk) : Bool :=
  c.ofDocument w.tenantId w.source w.documentId &&
    decide (c.seq = w.seq ∧ c.validTo = none ∧ c.validFrom < w.start)

/-- The delivery retires this version with the tail of its document.
SOURCE: postgres.rs:4089-4093 -/
def inTail (writes : List ChunkWrite) (c : Chunk) : Bool :=
  writes.any fun w =>
    let tail := tailOf writes w
    c.ofDocument w.tenantId w.source w.documentId &&
      decide (tail.2 < c.seq ∧ c.validTo = none ∧ c.validFrom < tail.1.stored)

/-- The tags of the writes, and those of the rows closed with a tail. The tail is closed after the
writes. SOURCE: postgres.rs:4087-4119 -/
def affectedTags (t : ChunkTable) (now : Time) (writes : List ChunkWrite) : List String :=
  let written := writes.foldl (fun t w => t.upsertChunk now w) t
  writes.flatMap ChunkWrite.entityTags ++
    (written.rows.filter (inTail writes)).flatMap Chunk.entityTags

end ChunkTable

/-! ## Interleavings -/

/-- A refresh under way: it has read the chunks, and the actions too or not yet. -/
structure BriefRefresh where
  entity : String
  memory : List Chunk
  activity : Option (List ActionRow)
deriving DecidableEq

/-- The tables and the calls in flight. A call of `chunk_entity_tags_upsert` that has written is
known by its tags. -/
structure BriefState where
  db : Database
  briefs : BriefTable
  refreshes : List BriefRefresh
  retags : List (List String)

/-- The steps of the calls. A refresh takes three and a change of tags two. -/
inductive BriefStep where
  | readMemory (entity : String) (rows : List Chunk)
  | readActivity (refresh : BriefRefresh) (rows : List ActionRow)
  | storeBrief (now : Time) (refresh : BriefRefresh)
  | upsertChunks (now : Time) (writes : List ChunkWrite)
  | recordAction (now : Time) (episodeId : EpisodeId) (action : ActionWrite)
  | retireDocument (now : Time) (source documentId : String)
  | forget (now : Time) (ref : ForgetRef)
  | setEntityTags (source documentId : String) (seq : Int) (tags : List String)
  | markRetagged (tags : List String)
deriving DecidableEq

namespace BriefState

/-- No brief is there yet and no call is in flight. -/
def start (db : Database) : BriefState := ⟨db, BriefTable.empty, [], []⟩

/-- The tables after a transaction that marks the briefs of some entities. -/
def write (s : BriefState) (db : Database) (tenant : TenantId) (entities : List String) :
    BriefState :=
  { s with db := db, briefs := s.briefs.markStale tenant entities }

/-- A step of a call on the tenant, if one of that form can be taken.
SOURCE: postgres.rs:1390-1419, 4020-4122, 4221-4279, 4662-4785, 4808-4862, 4918-5010 -/
def step (tenant : TenantId) (s : BriefState) : BriefStep → Option BriefState
  | .readMemory entity rows =>
    if s.db.MemoryAnswer tenant entity rows then
      some { s with refreshes := s.refreshes ++ [⟨entity, rows, none⟩] }
    else none
  | .readActivity refresh rows =>
    if refresh ∈ s.refreshes ∧ refresh.activity = none ∧
        s.db.ActivityAnswer tenant refresh.entity rows then
      some { s with
        refreshes := s.refreshes.erase refresh ++ [{ refresh with activity := some rows }] }
    else none
  | .storeBrief now refresh =>
    match refresh.activity with
    | none => none
    | some activity =>
      if refresh ∈ s.refreshes then
        some { s with
          briefs := s.briefs.store tenant refresh.entity
            (composeBrief refresh.memory activity) now
          refreshes := s.refreshes.erase refresh }
      else none
  | .upsertChunks now writes =>
    if ∀ w ∈ writes, w.tenantId = tenant then
      some (s.write (s.db.upsertChunks now writes) tenant
        (s.db.chunks.affectedTags now writes))
    else none
  | .recordAction now episodeId a =>
    if a.tenantId = tenant then
      let (db, recorded) := s.db.recordAction now episodeId a
      some (if recorded then s.write db tenant a.entities else s)
    else none
  | .retireDocument now source documentId =>
    some { s with db := (s.db.retireDocument now tenant source documentId).1 }
  | .forget now ref => some { s with db := (s.db.forget now tenant ref).1 }
  | .setEntityTags source documentId seq tags =>
    let (db, affected) := s.db.setEntityTags tenant source documentId seq tags
    some { s with db := db, retags := if affected > 0 then s.retags ++ [tags] else s.retags }
  | .markRetagged tags =>
    if tags ∈ s.retags then
      some { s with
        briefs := s.briefs.markStale tenant tags
        retags := s.retags.erase tags }
    else none

/-- No call is in flight. -/
def Quiet (s : BriefState) : Prop := s.refreshes = [] ∧ s.retags = []

instance (s : BriefState) : Decidable s.Quiet :=
  inferInstanceAs (Decidable (_ ∧ _))

end BriefState

end Verity.Model
