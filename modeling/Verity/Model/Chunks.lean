import Mathlib.Data.List.Basic
import Mathlib.Data.List.Dedup
import Verity.Foundation.Table
import Verity.Model.Types

/-!
# The chunk store

The `chunks` table and `upsert_chunks`, the one way content gets into it. A chunk position is
a source, a document and a sequence number; a new version of a position retires the old one
by closing its validity, and a delivery with fewer chunks than the last closes what is left of
the old tail. Nothing is deleted.

A write carries its start in nanoseconds. The statements compare starts as the columns keep them,
in whole microseconds, and so does the conflict target.

The content hash, the embedding and the categories of a chunk are left out: nothing modelled here
reads them. The support tier, which only served knowledge has, stands beside the tables with the
operations that write it. Which briefs a delivery marks as stale is said with the briefs.
-/

set_option autoImplicit false

namespace Verity.Model

open Verity.Foundation

abbrev ChunkId := Nat

/-- SOURCE: types.rs:114-119 -/
inductive TrustTier where
  | authoritative
  | observation
deriving DecidableEq, Repr

/-- A row of `chunks`. SOURCE: migrations/0001_init.sql:54-72, 0005_knowledge.sql:41,
0006_provenance_audit.sql:4, 0041_chunk_lineage.sql:7 -/
structure Chunk where
  id : ChunkId
  tenantId : TenantId
  source : String
  documentId : String
  seq : Int
  content : String
  visibility : List PrincipalToken
  entityTags : List String
  confidentiality : Confidentiality
  trustTier : TrustTier
  validFrom : Time
  validTo : Option Time
  recordedAt : Time
  provenance : EpisodeId
  aclProvenance : AclProvenance
  derivedFrom : List EpisodeId
  kind : String
deriving DecidableEq, Repr

/-- SOURCE: types.rs:318-338 -/
structure ChunkWrite where
  tenantId : TenantId
  source : String
  documentId : String
  seq : Int
  content : String
  visibility : List PrincipalToken
  entityTags : List String
  confidentiality : Confidentiality
  trustTier : TrustTier
  validFrom : Instant
  provenance : EpisodeId
  aclProvenance : AclProvenance
  derivedFrom : List EpisodeId
deriving DecidableEq, Repr

/-- The start a write is stored with. -/
def ChunkWrite.start (w : ChunkWrite) : Time := w.validFrom.stored

/-- A version of a chunk position: where it is and when it starts. -/
abbrev Version := (TenantId × String × String × Int) × Time

/-- The position a chunk is a version of. -/
def Chunk.position (c : Chunk) : TenantId × String × String × Int :=
  (c.tenantId, c.source, c.documentId, c.seq)

def Chunk.version (c : Chunk) : Version := (c.position, c.validFrom)

def ChunkWrite.position (w : ChunkWrite) : TenantId × String × String × Int :=
  (w.tenantId, w.source, w.documentId, w.seq)

def ChunkWrite.version (w : ChunkWrite) : Version := (w.position, w.start)

/-- The table, with the supply of fresh ids (`Uuid::now_v7`). The id is the primary key. -/
structure ChunkTable where
  rows : List Chunk
  nextId : ChunkId
  ids_lt : ∀ c ∈ rows, c.id < nextId
  ids_nodup : (rows.map Chunk.id).Nodup

variable {t : ChunkTable} {c : Chunk} {now : Time} {writes : List ChunkWrite}

/-- Whether the chunk is a version of a part of this document. -/
def Chunk.ofDocument (c : Chunk) (tenant : TenantId) (source documentId : String) : Bool :=
  decide (c.tenantId = tenant ∧ c.source = source ∧ c.documentId = documentId)

/-- A version that is current and older gets the end of its validity. -/
def Chunk.close (validFrom : Time) (c : Chunk) : Chunk :=
  if c.validTo = none ∧ c.validFrom < validFrom then { c with validTo := some validFrom } else c

namespace ChunkTable

/-- The table before any write. -/
def empty : ChunkTable where
  rows := []
  nextId := 0
  ids_lt := by simp
  ids_nodup := by simp

/-- An `UPDATE` that keeps every id. -/
def update (t : ChunkTable) (f : Chunk → Chunk) (hf : ∀ c, (f c).id = c.id) : ChunkTable where
  rows := t.rows.map f
  nextId := t.nextId
  ids_lt := by
    intro c hc
    obtain ⟨c', hc', rfl⟩ := List.mem_map.mp hc
    rw [hf]
    exact t.ids_lt c' hc'
  ids_nodup := by
    have hids : (t.rows.map f).map Chunk.id = t.rows.map Chunk.id := by
      simp [Function.comp_def, hf]
    rw [hids]
    exact t.ids_nodup

/-- Closes the current, older versions of a document at the positions that `p` selects. -/
def closeWhere (t : ChunkTable) (tenant : TenantId) (source documentId : String)
    (validFrom : Time) (p : Int → Bool) : ChunkTable :=
  t.update (fun c => if c.ofDocument tenant source documentId && p c.seq then c.close validFrom
    else c) (by
      intro c
      split
      · unfold Chunk.close
        split <;> rfl
      · rfl)

/-- The row a write would be stored as. -/
def rowOf (t : ChunkTable) (now : Time) (w : ChunkWrite) : Chunk where
  id := t.nextId
  tenantId := w.tenantId
  source := w.source
  documentId := w.documentId
  seq := w.seq
  content := w.content
  visibility := w.visibility
  entityTags := w.entityTags
  confidentiality := w.confidentiality
  trustTier := w.trustTier
  validFrom := w.start
  validTo := none
  recordedAt := now
  provenance := w.provenance
  aclProvenance := w.aclProvenance
  derivedFrom := w.derivedFrom
  kind := "content"

/-- A version of the position with the same start is there already. -/
def conflicts (t : ChunkTable) (w : ChunkWrite) : Bool :=
  t.rows.any fun c => c.ofDocument w.tenantId w.source w.documentId &&
    decide (c.seq = w.seq) && decide (c.validFrom = w.start)

/-- `INSERT … ON CONFLICT DO NOTHING`. SOURCE: postgres.rs:4040-4066 -/
def insert (t : ChunkTable) (now : Time) (w : ChunkWrite) : ChunkTable :=
  if t.conflicts w then t
  else
    { rows := t.rows ++ [t.rowOf now w]
      nextId := t.nextId + 1
      ids_lt := ids_lt_concat t.ids_lt rfl
      ids_nodup := nodup_ids_concat t.ids_nodup t.ids_lt rfl }

/-- The position's current version is retired, and the new one inserted.
SOURCE: postgres.rs:4024-4068 -/
def upsertChunk (t : ChunkTable) (now : Time) (w : ChunkWrite) : ChunkTable :=
  (t.closeWhere w.tenantId w.source w.documentId w.start (· = w.seq)).insert now w

/-- The document a write is for. -/
def documentOf (w : ChunkWrite) : TenantId × String × String :=
  (w.tenantId, w.source, w.documentId)

/-- The newest start and the highest position of a document's writes in one delivery.
SOURCE: postgres.rs:4079-4086 -/
def tailOf (writes : List ChunkWrite) (first : ChunkWrite) : Instant × Int :=
  (writes.filter fun w => documentOf w = documentOf first).foldl
    (fun tail w => (max tail.1 w.validFrom, max tail.2 w.seq)) (first.validFrom, first.seq)

/-- The positions beyond a delivery are closed. A document with several writes is closed at the
same tail each time.
SOURCE: postgres.rs:4087-4108 -/
def closeTails (t : ChunkTable) (writes : List ChunkWrite) : ChunkTable :=
  writes.foldl (fun t w =>
    let tail := tailOf writes w
    t.closeWhere w.tenantId w.source w.documentId tail.1.stored (tail.2 < ·)) t

/-- SOURCE: postgres.rs:4020-4122 -/
def upsertChunks (t : ChunkTable) (now : Time) (writes : List ChunkWrite) : ChunkTable :=
  (writes.foldl (fun t w => t.upsertChunk now w) t).closeTails writes

/-! ## What an upsert leaves -/

/-- Closing changes nothing but the end of validity. -/
theorem exists_of_mem_closeWhere {tenant : TenantId} {source documentId : String} {validFrom : Time}
    {p : Int → Bool} (h : c ∈ (t.closeWhere tenant source documentId validFrom p).rows) :
    ∃ c₀ ∈ t.rows, ∃ validTo, c = { c₀ with validTo := validTo } := by
  obtain ⟨c₀, hc₀, rfl⟩ := List.mem_map.mp h
  refine ⟨c₀, hc₀, ?_⟩
  split
  · unfold Chunk.close
    split
    · exact ⟨_, rfl⟩
    · exact ⟨c₀.validTo, rfl⟩
  · exact ⟨c₀.validTo, rfl⟩

/-- An insert takes the next id and adds its row, or does nothing. -/
theorem insert_cases (t : ChunkTable) (now : Time) (w : ChunkWrite) :
    ((t.insert now w).nextId = t.nextId ∧ (t.insert now w).rows = t.rows) ∨
      ((t.insert now w).nextId = t.nextId + 1 ∧
        (t.insert now w).rows = t.rows ++ [t.rowOf now w]) := by
  unfold insert
  split
  · exact Or.inl ⟨rfl, rfl⟩
  · exact Or.inr ⟨rfl, rfl⟩

/-- A row after the upsert of one chunk is an old one, or that of the write. -/
theorem exists_of_mem_upsertChunk {w : ChunkWrite} (h : c ∈ (t.upsertChunk now w).rows) :
    (∃ c₀ ∈ t.rows, ∃ validTo, c = { c₀ with validTo := validTo }) ∨
      c = t.rowOf now w := by
  unfold upsertChunk at h
  rcases insert_cases (t.closeWhere w.tenantId w.source w.documentId w.start (· = w.seq))
      now w with ⟨_, hrows⟩ | ⟨_, hrows⟩
  · rw [hrows] at h
    exact Or.inl (exists_of_mem_closeWhere h)
  · rw [hrows] at h
    rcases List.mem_append.mp h with h | h
    · exact Or.inl (exists_of_mem_closeWhere h)
    · exact Or.inr (List.mem_singleton.mp h)

theorem nextId_le_upsertChunk (t : ChunkTable) (now : Time) (w : ChunkWrite) :
    t.nextId ≤ (t.upsertChunk now w).nextId := by
  unfold upsertChunk
  rcases insert_cases (t.closeWhere w.tenantId w.source w.documentId w.start (· = w.seq))
      now w with ⟨hnext, _⟩ | ⟨hnext, _⟩
  · exact hnext.ge
  · rw [hnext]
    exact Nat.le_succ _

theorem nextId_closeTails (t : ChunkTable) (writes : List ChunkWrite) :
    (t.closeTails writes).nextId = t.nextId := by
  unfold closeTails
  generalize tailOf writes = tail
  induction writes generalizing t with
  | nil => rfl
  | cons w writes ih =>
    rw [List.foldl_cons, ih]
    rfl

theorem exists_of_mem_closeTails (h : c ∈ (t.closeTails writes).rows) :
    ∃ c₀ ∈ t.rows, ∃ validTo, c = { c₀ with validTo := validTo } := by
  unfold closeTails at h
  revert h
  generalize tailOf writes = tail
  intro h
  induction writes generalizing t with
  | nil => exact ⟨c, h, c.validTo, rfl⟩
  | cons w writes ih =>
    rw [List.foldl_cons] at h
    obtain ⟨c₁, hc₁, validTo, rfl⟩ := ih h
    obtain ⟨c₀, hc₀, validTo', rfl⟩ := exists_of_mem_closeWhere hc₁
    exact ⟨c₀, hc₀, validTo, rfl⟩

/-- The writes of a delivery: an old row is kept but for its validity, and a new one has an id
that was free and the instant of the write. -/
theorem mem_upsertChunks_cases (h : c ∈ (t.upsertChunks now writes).rows) :
    (∃ c₀ ∈ t.rows, ∃ validTo, c = { c₀ with validTo := validTo }) ∨
      (t.nextId ≤ c.id ∧ c.recordedAt = now) := by
  have hwrites : ∀ t : ChunkTable, ∀ c ∈ (writes.foldl (fun t w => t.upsertChunk now w) t).rows,
      (∃ c₀ ∈ t.rows, ∃ validTo, c = { c₀ with validTo := validTo }) ∨
        (t.nextId ≤ c.id ∧ c.recordedAt = now) := by
    clear h
    induction writes with
    | nil => exact fun t c hc => Or.inl ⟨c, hc, c.validTo, rfl⟩
    | cons w writes ih =>
      intro t c hc
      rw [List.foldl_cons] at hc
      rcases ih _ c hc with ⟨c₁, hc₁, validTo, rfl⟩ | ⟨hnew, hnow⟩
      · rcases exists_of_mem_upsertChunk hc₁ with ⟨c₀, hc₀, validTo', rfl⟩ | rfl
        · exact Or.inl ⟨c₀, hc₀, validTo, rfl⟩
        · exact Or.inr ⟨Nat.le_refl _, rfl⟩
      · exact Or.inr ⟨Nat.le_trans (nextId_le_upsertChunk t now w) hnew, hnow⟩
  obtain ⟨c₁, hc₁, validTo, rfl⟩ := exists_of_mem_closeTails h
  rcases hwrites t c₁ hc₁ with ⟨c₀, hc₀, validTo', rfl⟩ | hnew
  · exact Or.inl ⟨c₀, hc₀, validTo, rfl⟩
  · exact Or.inr hnew

theorem exists_of_mem_upsertChunks (h : c ∈ (t.upsertChunks now writes).rows) :
    (∃ c₀ ∈ t.rows, ∃ validTo, c = { c₀ with validTo := validTo }) ∨ t.nextId ≤ c.id :=
  (mem_upsertChunks_cases h).imp_right And.left

theorem nextId_le_upsertChunks (t : ChunkTable) (now : Time) (writes : List ChunkWrite) :
    t.nextId ≤ (t.upsertChunks now writes).nextId := by
  unfold upsertChunks
  rw [nextId_closeTails]
  induction writes generalizing t with
  | nil => exact Nat.le_refl _
  | cons w writes ih => exact Nat.le_trans (nextId_le_upsertChunk t now w) (ih _)

/-- One write alone: the new row is the write's. -/
theorem exists_of_mem_upsertChunks_single {w : ChunkWrite} (h : c ∈ (t.upsertChunks now [w]).rows) :
    (∃ c₀ ∈ t.rows, ∃ validTo, c = { c₀ with validTo := validTo }) ∨
      ∃ validTo, c = { t.rowOf now w with validTo := validTo } := by
  obtain ⟨c₁, hc₁, validTo, rfl⟩ := exists_of_mem_closeTails h
  rcases exists_of_mem_upsertChunk hc₁ with ⟨c₀, hc₀, validTo', rfl⟩ | rfl
  · exact Or.inl ⟨c₀, hc₀, validTo, rfl⟩
  · exact Or.inr ⟨validTo, rfl⟩

end ChunkTable

end Verity.Model
