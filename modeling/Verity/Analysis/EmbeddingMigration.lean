import Mathlib.Data.List.Perm.Subperm
import Verity.Analysis.ErasureExport
import Verity.Foundation.Run
import Verity.Model.EmbeddingMigration

/-!
# What a migration of the embeddings covers

Rows of `chunks` keep their id and their text, never become current again, and an id is never given
twice (`Grows`); a vector of the second column is never replaced (`DataStep`). So the batches that a
loop was answered with are disjoint, whatever other loops and ingestion do, and a loop that ends has
covered what was there when it last looked (`reembed_rounds`).
-/

set_option autoImplicit false

namespace Verity.Analysis

open Verity.Model Verity.Foundation

/-! ## The chunk table -/

/-- The row as a later statement may have left it: of the same id, tenant and text, and current only
if it was. -/
structure RowContinues (c c' : Chunk) : Prop where
  id : c.id = c'.id
  tenantId : c.tenantId = c'.tenantId
  content : c.content = c'.content
  current : c'.validTo = none → c.validTo = none

theorem RowContinues.refl (c : Chunk) : RowContinues c c := ⟨rfl, rfl, rfl, fun h => h⟩

theorem RowContinues.trans {c c' c'' : Chunk} (h : RowContinues c c') (h' : RowContinues c' c'') :
    RowContinues c c'' :=
  ⟨h.id.trans h'.id, h.tenantId.trans h'.tenantId, h.content.trans h'.content,
    fun hcurrent => h.current (h'.current hcurrent)⟩

/-- Every row was there, or has an id that was free. -/
structure Grows (t t' : ChunkTable) : Prop where
  nextId_le : t.nextId ≤ t'.nextId
  rows : ∀ c' ∈ t'.rows, (∃ c ∈ t.rows, RowContinues c c') ∨ t.nextId ≤ c'.id

theorem Grows.refl (t : ChunkTable) : Grows t t :=
  ⟨Nat.le_refl _, fun c hc => Or.inl ⟨c, hc, .refl c⟩⟩

theorem Grows.trans {t t' t'' : ChunkTable} (h : Grows t t') (h' : Grows t' t'') : Grows t t'' := by
  refine ⟨h.nextId_le.trans h'.nextId_le, fun c'' hc'' => ?_⟩
  rcases h'.rows c'' hc'' with ⟨c', hc', hlater⟩ | hnew
  · rcases h.rows c' hc' with ⟨c, hc, hearlier⟩ | hnew
    · exact Or.inl ⟨c, hc, hearlier.trans hlater⟩
    · exact Or.inr (hlater.id ▸ hnew)
  · exact Or.inr (h.nextId_le.trans hnew)

/-- A row whose id was taken is one of those that were there. -/
theorem Grows.old {t t' : ChunkTable} (h : Grows t t') {c' : Chunk} (hc' : c' ∈ t'.rows)
    (hid : c'.id < t.nextId) : ∃ c ∈ t.rows, RowContinues c c' :=
  (h.rows c' hc').resolve_right (Nat.not_le.mpr hid)

theorem grows_foldl {σ β : Type} (table : σ → ChunkTable) {turn : σ → β → σ}
    (h : ∀ s x, Grows (table s) (table (turn s x))) (s : σ) (xs : List β) :
    Grows (table s) (table (xs.foldl turn s)) := by
  induction xs generalizing s with
  | nil => exact .refl _
  | cons x xs ih => exact (h s x).trans (ih (turn s x))

theorem grows_map {t t' : ChunkTable} {f : Chunk → Chunk} (hrows : t'.rows = t.rows.map f)
    (hnext : t'.nextId = t.nextId) (hcontinues : ∀ c, RowContinues c (f c)) : Grows t t' := by
  refine ⟨hnext.ge, fun c' hc' => ?_⟩
  rw [hrows] at hc'
  obtain ⟨c, hc, rfl⟩ := List.mem_map.mp hc'
  exact Or.inl ⟨c, hc, hcontinues c⟩

theorem continues_ite {c c' : Chunk} {p : Prop} [Decidable p] (h : RowContinues c c') :
    RowContinues c (if p then c' else c) := by
  split
  · exact h
  · exact .refl c

theorem continues_close (validFrom : Time) (c : Chunk) : RowContinues c (c.close validFrom) :=
  continues_ite ⟨rfl, rfl, rfl, fun h => absurd h (by simp)⟩

theorem grows_closeWhere (t : ChunkTable) (tenant : TenantId) (source documentId : String)
    (validFrom : Time) (p : Int → Bool) :
    Grows t (t.closeWhere tenant source documentId validFrom p) :=
  grows_map rfl rfl fun c => continues_ite (continues_close validFrom c)

/-- A row with the next id is added. -/
theorem grows_concat {t t' : ChunkTable} {c : Chunk} (hrows : t'.rows = t.rows ++ [c])
    (hid : c.id = t.nextId) (hnext : t'.nextId = t.nextId + 1) : Grows t t' := by
  refine ⟨hnext ▸ Nat.le_succ _, fun c' hc' => ?_⟩
  rw [hrows, List.mem_append, List.mem_singleton] at hc'
  rcases hc' with hc' | rfl
  · exact Or.inl ⟨c', hc', .refl c'⟩
  · exact Or.inr hid.ge

theorem grows_insert (t : ChunkTable) (now : Time) (w : ChunkWrite) : Grows t (t.insert now w) := by
  unfold ChunkTable.insert
  split
  · exact .refl t
  · exact grows_concat rfl rfl rfl

theorem grows_upsertChunk (t : ChunkTable) (now : Time) (w : ChunkWrite) :
    Grows t (t.upsertChunk now w) :=
  (grows_closeWhere t _ _ _ _ _).trans (grows_insert _ now w)

theorem grows_upsertChunks (t : ChunkTable) (now : Time) (writes : List ChunkWrite) :
    Grows t (t.upsertChunks now writes) :=
  (grows_foldl _ (fun t w => grows_upsertChunk t now w) t writes).trans
    (grows_foldl _ (fun t _ => grows_closeWhere t _ _ _ _ _) _ writes)

theorem grows_deleteRows (t : ChunkTable) (p : Chunk → Bool) : Grows t (t.deleteRows p) :=
  ⟨Nat.le_refl _, fun c hc => Or.inl ⟨c, (mem_deleteWhere.mp hc).1, .refl c⟩⟩

theorem grows_retireChunks (db : Database) (now : Time) (p : Chunk → Bool) :
    Grows db.chunks (db.retireChunks now p).1.chunks :=
  grows_map rfl rfl fun c => continues_ite ⟨rfl, rfl, rfl, fun h => absurd h (by simp)⟩

theorem grows_retireDocument (db : Database) (now : Time) (tenant : TenantId)
    (source documentId : String) :
    Grows db.chunks (db.retireDocument now tenant source documentId).1.chunks :=
  grows_map rfl rfl fun c => continues_ite ⟨rfl, rfl, rfl, fun h => absurd h (by simp)⟩

theorem grows_retireKnowledgeChunk (db : Database) (tenant : TenantId) (kid : KnowledgeId)
    (now : Time) : Grows db.chunks (db.retireKnowledgeChunk tenant kid now).chunks :=
  grows_map rfl rfl fun c => continues_ite ⟨rfl, rfl, rfl, fun h => absurd h (by simp)⟩

theorem grows_withdrawSupport (tenant : TenantId) (episodeId : EpisodeId) (now : Time)
    (db : Database) (kid : KnowledgeId) :
    Grows db.chunks (Database.withdrawSupport tenant episodeId now db kid).chunks := by
  unfold Database.withdrawSupport
  dsimp only
  split
  · split
    · exact grows_retireKnowledgeChunk _ tenant kid now
    · exact .refl _
  · exact .refl _

theorem grows_forget (db : Database) (now : Time) (tenant : TenantId) (ref : ForgetRef) :
    Grows db.chunks (db.forget now tenant ref).1.chunks := by
  cases ref with
  | chunk chunkId => exact grows_retireChunks db now _
  | episode episodeId =>
    have hclosed := grows_retireChunks db now fun c =>
      decide (c.tenantId = tenant ∧ c.provenance = episodeId)
    have hwithdrawn := grows_foldl Database.chunks
      (grows_withdrawSupport tenant episodeId now)
    -- the facts are closed in between
    exact hclosed.trans (hwithdrawn ((db.retireChunks now _).1.retireFacts now _).1 _)

theorem grows_recountSupport (tenant : TenantId) (now : Time) (acc : Database × Nat)
    (kid : KnowledgeId) :
    Grows acc.1.chunks (Database.recountSupport tenant now acc kid).1.chunks := by
  unfold Database.recountSupport
  dsimp only
  split
  · split
    · exact grows_retireKnowledgeChunk _ tenant kid now
    · exact .refl _
  · exact .refl _

theorem grows_withdrawEvidence (db : Database) (tenant : TenantId) (episodeIds : List EpisodeId)
    (now : Time) : Grows db.chunks (db.withdrawEvidence tenant episodeIds now).1.chunks := by
  let db' : Database := { db with
    evidence := deleteWhere (Database.withdraws (db.affectedKnowledge tenant episodeIds) episodeIds)
      db.evidence }
  have hcounted := grows_foldl (fun acc : Database × Nat => acc.1.chunks)
    (grows_recountSupport tenant now) (db', 0) (db.affectedKnowledge tenant episodeIds)
  exact hcounted

theorem grows_erase {ilike : String → String → Bool} {sha256Hex : String → String} {now : Time}
    {db db' : Database} {t : ErasureTarget} {report : ErasureReport}
    (h : erase ilike sha256Hex now db t = .ok (db', report)) : Grows db.chunks db'.chunks := by
  obtain ⟨-, db₁, row, hwalk, -, -, rfl⟩ := erase_eq_ok h
  unfold Database.walkLineage at hwalk
  dsimp only at hwalk
  obtain ⟨db₂, hchunks, hwalk⟩ := exists_of_bind_eq_ok hwalk
  obtain ⟨db₃, hfacts, hwalk⟩ := exists_of_bind_eq_ok hwalk
  obtain ⟨db₄, hepisodes, hwalk⟩ := exists_of_bind_eq_ok hwalk
  obtain ⟨rfl, -⟩ := Prod.mk.inj (Except.ok.inj hwalk)
  have hdeleted : Grows db.chunks db₂.chunks := by
    rw [deleteChunks_eq_ok hchunks]
    exact grows_deleteRows db.chunks _
  have hkept : db₃.chunks = db₂.chunks := by
    rw [deleteFacts_eq_ok hfacts]
    rfl
  have hwithdrawn := grows_withdrawEvidence db₃ t.tenant (db.erasedEpisodes t) now
  obtain rfl := deleteEpisodes_eq_ok hepisodes
  rw [hkept] at hwithdrawn
  exact hdeleted.trans hwithdrawn

theorem grows_recordAction (db : Database) (now : Time) (episodeId : EpisodeId) (a : ActionWrite) :
    Grows db.chunks (db.recordAction now episodeId a).1.chunks := by
  unfold Database.recordAction MemoryStore.recordAction
  dsimp only
  split
  · exact .refl _
  · exact grows_insert _ now _

theorem grows_publishKnowledge {db db' : Database} {now : Time} {tenant : TenantId}
    {id : KnowledgeId} {episodeId : EpisodeId} {visibility : List PrincipalToken} {kMin : Int}
    (h : db.publishKnowledge now tenant id episodeId visibility kMin = .ok db') :
    Grows db.chunks db'.chunks := by
  unfold Database.publishKnowledge at h
  split at h
  · exact absurd h (by simp)
  · split at h
    · exact absurd h (by simp)
    · split at h
      · exact absurd h (by simp)
      · split at h
        · exact absurd h (by simp)
        · split at h
          · exact absurd h (by simp)
          · obtain rfl := Except.ok.inj h
            exact grows_concat rfl rfl rfl

/-! ## The vectors -/

section Vectors

variable {V : Type} {t : ChunkTable} {vectors : Vectors V} {model : String}

theorem setEmbeddingV2_cases (t : ChunkTable) (vectors : Vectors V) (model : String)
    (row : ChunkId × V) (id : ChunkId) :
    setEmbeddingV2 t model vectors row id = vectors id ∨
      row.1 = id ∧ (vectors id).embeddingV2 = none ∧
        setEmbeddingV2 t model vectors row id =
          { vectors id with embeddingV2 := some (row.2, model) } := by
  unfold setEmbeddingV2
  split
  · rename_i hset
    obtain ⟨-, hnone⟩ := Bool.and_eq_true_iff.mp hset
    by_cases hid : row.1 = id
    · subst hid
      exact Or.inr ⟨rfl, Option.isNone_iff_eq_none.mp hnone, Function.update_self ..⟩
    · exact Or.inl (Function.update_of_ne (Ne.symm hid) ..)
  · exact Or.inl rfl

@[simp]
theorem embedding_setEmbeddingV2 (row : ChunkId × V) (id : ChunkId) :
    (setEmbeddingV2 t model vectors row id).embedding = (vectors id).embedding := by
  rcases setEmbeddingV2_cases t vectors model row id with h | ⟨-, -, h⟩ <;> rw [h]

theorem kept_setEmbeddingV2 (row : ChunkId × V) {id : ChunkId} {x : V × String}
    (h : (vectors id).embeddingV2 = some x) :
    (setEmbeddingV2 t model vectors row id).embeddingV2 = some x := by
  rcases setEmbeddingV2_cases t vectors model row id with hsame | ⟨-, hnone, -⟩
  · rw [hsame]
    exact h
  · exact absurd (h.symm.trans hnone) (by simp)

/-- The backfill touches the second vector only. -/
theorem embedding_fillEmbeddingV2 (vectors : Vectors V) (rows : List (ChunkId × V)) (id : ChunkId) :
    (fillEmbeddingV2 t vectors model rows id).embedding = (vectors id).embedding := by
  unfold fillEmbeddingV2
  induction rows generalizing vectors with
  | nil => rfl
  | cons row rows ih =>
    rw [List.foldl_cons, ih, embedding_setEmbeddingV2]

/-- A vector that is there is not replaced. -/
theorem kept_fillEmbeddingV2 (rows : List (ChunkId × V)) {id : ChunkId} {x : V × String}
    (h : (vectors id).embeddingV2 = some x) :
    (fillEmbeddingV2 t vectors model rows id).embeddingV2 = some x := by
  unfold fillEmbeddingV2
  induction rows generalizing vectors with
  | nil => exact h
  | cons row rows ih => exact ih (kept_setEmbeddingV2 row h)

theorem filled_fillEmbeddingV2 {rows : List (ChunkId × V)} {id : ChunkId} {x : V × String}
    (h : (fillEmbeddingV2 t vectors model rows id).embeddingV2 = some x) :
    (vectors id).embeddingV2 = some x ∨ (id, x.1) ∈ rows := by
  unfold fillEmbeddingV2 at h
  induction rows generalizing vectors with
  | nil => exact Or.inl h
  | cons row rows ih =>
    rcases ih h with hset | hmem
    · rcases setEmbeddingV2_cases t vectors model row id with hsame | ⟨rfl, -, hnew⟩
      · exact Or.inl (hsame ▸ hset)
      · rw [hnew, Option.some.injEq] at hset
        exact Or.inr (hset ▸ List.mem_cons_self)
    · exact Or.inr (List.mem_cons_of_mem _ hmem)

theorem isSome_setEmbeddingV2 (model : String) (vectors : Vectors V) {row : ChunkId × V}
    (hthere : ∃ c ∈ t.rows, c.id = row.1) :
    (setEmbeddingV2 t model vectors row row.1).embeddingV2.isSome = true := by
  have hany : (t.rows.any fun c => decide (c.id = row.1)) = true := by
    obtain ⟨c, hc, hid⟩ := hthere
    exact List.any_eq_true.mpr ⟨c, hc, decide_eq_true hid⟩
  unfold setEmbeddingV2
  rw [hany, Bool.true_and]
  split
  · simp
  · rename_i hsome
    simpa [Option.isSome_iff_ne_none] using hsome

/-- Every row of the batch that is still in the table has a vector afterwards. -/
theorem covered_fillEmbeddingV2 {rows : List (ChunkId × V)} {row : ChunkId × V} (hrow : row ∈ rows)
    (hthere : ∃ c ∈ t.rows, c.id = row.1) :
    (fillEmbeddingV2 t vectors model rows row.1).embeddingV2.isSome = true := by
  obtain ⟨before, after, rfl⟩ := List.append_of_mem hrow
  have hset := isSome_setEmbeddingV2 model
    (before.foldl (setEmbeddingV2 t model) vectors) hthere
  obtain ⟨x, hx⟩ := Option.isSome_iff_exists.mp hset
  have hfill : fillEmbeddingV2 t vectors model (before ++ row :: after) = fillEmbeddingV2 t
      (setEmbeddingV2 t model (before.foldl (setEmbeddingV2 t model) vectors) row) model after := by
    unfold fillEmbeddingV2
    rw [List.foldl_append, List.foldl_cons]
  rw [hfill, kept_fillEmbeddingV2 after hx]
  rfl

theorem mem_chunksNeedingV2 {tenant : Option TenantId} {limit : Int} {row : ChunkId × String}
    (h : row ∈ chunksNeedingV2 t vectors tenant limit) :
    ∃ c ∈ t.rows, embeddable vectors tenant c = true ∧ (vectors c.id).embeddingV2 = none ∧
      row = (c.id, c.content) := by
  unfold chunksNeedingV2 at h
  obtain ⟨c, hc, rfl⟩ := List.mem_map.mp h
  have hwaiting := (List.mem_insertionSort _).mp (List.mem_of_mem_take hc)
  obtain ⟨hmem, hneeds⟩ := List.mem_filter.mp hwaiting
  obtain ⟨hembeddable, hnone⟩ := Bool.and_eq_true_iff.mp hneeds
  exact ⟨c, hmem, hembeddable, Option.isNone_iff_eq_none.mp hnone, rfl⟩

/-- A batch is empty only when nothing lacks the vector, whatever its size. -/
theorem chunksNeedingV2_eq_nil {tenant : Option TenantId} {limit : Int}
    (h : chunksNeedingV2 t vectors tenant limit = []) :
    ∀ c ∈ t.rows, embeddable vectors tenant c = true →
      (vectors c.id).embeddingV2.isSome = true := by
  intro c hc hembeddable
  unfold chunksNeedingV2 at h
  rw [List.map_eq_nil_iff, List.take_eq_nil_iff] at h
  rcases h with hlimit | hnil
  · omega
  · by_contra hnone
    have hmem : c ∈ orderedBy Chunk.id (t.rows.filter fun c => embeddable vectors tenant c &&
        (vectors c.id).embeddingV2.isNone) := by
      refine (List.mem_insertionSort _).mpr (List.mem_filter.mpr ⟨hc, ?_⟩)
      simpa [hembeddable] using hnone
    rw [hnil] at hmem
    exact absurd hmem (by simp)

/-- No chunk is twice in a batch. -/
theorem nodup_chunksNeedingV2 (tenant : Option TenantId) (limit : Int) :
    ((chunksNeedingV2 t vectors tenant limit).map Prod.fst).Nodup := by
  unfold chunksNeedingV2
  rw [List.map_map]
  have hsorted : (orderedBy Chunk.id (t.rows.filter fun c => embeddable vectors tenant c &&
      (vectors c.id).embeddingV2.isNone)).Perm _ := List.perm_insertionSort _ _
  have hids : ((orderedBy Chunk.id (t.rows.filter fun c => embeddable vectors tenant c &&
      (vectors c.id).embeddingV2.isNone)).map Chunk.id).Nodup :=
    (hsorted.map Chunk.id).nodup_iff.mpr
      (t.ids_nodup.sublist (List.filter_sublist.map Chunk.id))
  exact hids.sublist ((List.take_sublist _ _).map Chunk.id)

/-- The gate of a cutover is open exactly if every embeddable chunk has the vector. -/
theorem isComplete_iff {tenant : Option TenantId} :
    (embeddingV2Coverage t vectors tenant).isComplete = true ↔
      ∀ c ∈ t.rows, embeddable vectors tenant c = true →
        (vectors c.id).embeddingV2.isSome = true := by
  have hsplit : (embeddingV2Coverage t vectors tenant).total =
      (embeddingV2Coverage t vectors tenant).covered + t.rows.countP fun c =>
        embeddable vectors tenant c && !(vectors c.id).embeddingV2.isSome := by
    unfold embeddingV2Coverage
    induction t.rows with
    | nil => rfl
    | cons c rows ih =>
      simp only [List.countP_cons] at ih ⊢
      cases embeddable vectors tenant c <;> cases (vectors c.id).embeddingV2.isSome <;>
        simp at ih ⊢ <;> omega
  have hnone : (embeddingV2Coverage t vectors tenant).isComplete = true ↔
      (t.rows.countP fun c =>
        embeddable vectors tenant c && !(vectors c.id).embeddingV2.isSome) = 0 := by
    unfold EmbeddingCoverage.isComplete
    rw [Bool.or_eq_true, decide_eq_true_iff, decide_eq_true_iff]
    omega
  rw [hnone, List.countP_eq_zero]
  refine forall₂_congr fun c _ => ?_
  cases embeddable vectors tenant c <;> cases (vectors c.id).embeddingV2 <;> simp

end Vectors

/-! ## Steps -/

section Steps

variable {V : Type} {encode : String → V} {ilike : String → String → Bool}
  {sha256Hex : String → String} {s s' : EmbeddingPlane V}

/-- What a write of chunks does to the tables: a vector of the second column is nowhere new. -/
structure ChunkWriteStep (s s' : EmbeddingPlane V) : Prop where
  grows : Grows s.db.chunks s'.db.chunks
  old : ∀ id < s.db.chunks.nextId, s'.vectors id = s.vectors id
  fresh : ∀ id x, (s'.vectors id).embeddingV2 = some x → (s.vectors id).embeddingV2 = some x
  rest : s' = { s with db := s'.db, vectors := s'.vectors }

/-- A row with a free id gets a first vector only. -/
theorem update_first (vectors : Vectors V) (n : ChunkId) (embedding : Option V) :
    (∀ id < n, Function.update vectors n ⟨embedding, none⟩ id = vectors id) ∧
      ∀ id x, (Function.update vectors n ⟨embedding, none⟩ id).embeddingV2 = some x →
        (vectors id).embeddingV2 = some x := by
  constructor
  · intro id hid
    exact Function.update_of_ne (Nat.ne_of_lt hid) ..
  · intro id x hx
    by_cases hid : id = n
    · rw [hid, Function.update_self] at hx
      exact absurd hx (by simp)
    · rwa [Function.update_of_ne hid] at hx

/-- Ingestion changes the columns of free ids, and leaves the second one empty there. -/
theorem vectors_foldl_storeEmbedding (now : Time) (writes : List (ChunkWrite × Option V))
    (t : ChunkTable) (vectors : Vectors V) :
    (∀ id < t.nextId, (writes.foldl (storeEmbedding now) (t, vectors)).2 id = vectors id) ∧
      ∀ id x, ((writes.foldl (storeEmbedding now) (t, vectors)).2 id).embeddingV2 = some x →
        (vectors id).embeddingV2 = some x := by
  induction writes generalizing t vectors with
  | nil => exact ⟨fun _ _ => rfl, fun _ _ h => h⟩
  | cons w writes ih =>
    rw [List.foldl_cons]
    have hfirst : (∀ id < t.nextId, (storeEmbedding now (t, vectors) w).2 id = vectors id) ∧
        ∀ id x, ((storeEmbedding now (t, vectors) w).2 id).embeddingV2 = some x →
          (vectors id).embeddingV2 = some x := by
      unfold storeEmbedding
      dsimp only
      split
      · exact ⟨fun _ _ => rfl, fun _ _ h => h⟩
      · exact update_first vectors t.nextId w.2
    have hrest := ih (storeEmbedding now (t, vectors) w).1 (storeEmbedding now (t, vectors) w).2
    have hle := ChunkTable.nextId_le_upsertChunk t now w.1
    constructor
    · intro id hid
      exact (hrest.1 id (Nat.lt_of_lt_of_le hid hle)).trans (hfirst.1 id hid)
    · intro id x hx
      exact hfirst.2 id x (hrest.2 id x hx)

theorem writes_of_tables (db : Database) (hgrows : Grows s.db.chunks db.chunks) :
    ChunkWriteStep s { s with db := db } :=
  ⟨hgrows, fun _ _ => rfl, fun _ _ h => h, rfl⟩

theorem writes_writeChunks {w : ChunkWriter V} (h : s.writeChunks ilike sha256Hex w = some s') :
    ChunkWriteStep s s' := by
  cases w with
  | upsertChunks now writes =>
    cases h
    have hvectors := vectors_foldl_storeEmbedding now writes s.db.chunks s.vectors
    exact ⟨grows_upsertChunks _ now _, hvectors.1, hvectors.2, rfl⟩
  | publishKnowledge now tenant id episodeId visibility embedding kMin =>
    obtain ⟨db, hdb, rfl⟩ := Option.map_eq_some_iff.mp h
    have hvectors := update_first s.vectors s.db.chunks.nextId embedding
    exact ⟨grows_publishKnowledge (toOption_eq_some_iff.mp hdb), hvectors.1, hvectors.2, rfl⟩
  | recordAction now episodeId action =>
    cases h
    exact writes_of_tables _ (grows_recordAction s.db now episodeId action)
  | forget now tenant ref =>
    cases h
    exact writes_of_tables _ (grows_forget s.db now tenant ref)
  | retireDocument now tenant source documentId =>
    cases h
    exact writes_of_tables _ (grows_retireDocument s.db now tenant source documentId)
  | erase now target =>
    obtain ⟨out, hout, rfl⟩ := Option.map_eq_some_iff.mp h
    exact writes_of_tables _ (grows_erase (toOption_eq_some_iff.mp hout))

theorem batchRead_eq_some {l : Nat} (h : s.batchRead l = some s') :
    ∃ loop, s.loops l = some loop ∧ loop.status = .running ∧ loop.pending = none ∧
      s' = { s with
        loops := Function.update s.loops l (some { loop with
          pending := some (chunksNeedingV2 s.db.chunks s.vectors loop.tenant loop.batch)
          readAt := s.db.chunks.nextId }) } := by
  obtain ⟨loop, hloop, h⟩ := Option.bind_eq_some_iff.mp h
  split at h
  · rename_i hready
    exact ⟨loop, hloop, hready.1, hready.2, (Option.some.inj h).symm⟩
  · exact absurd h (by simp)

theorem batchFill_eq_some {l : Nat} (h : s.batchFill encode l = some s') :
    ∃ loop pending, s.loops l = some loop ∧ loop.pending = some pending ∧
      loop.status = .running ∧
      s' = { s with
        vectors := fillEmbeddingV2 s.db.chunks s.vectors loop.model
          (pending.map fun row => (row.1, encode row.2))
        loops := Function.update s.loops l (some (loop.answer pending)) } := by
  obtain ⟨loop, hloop, h⟩ := Option.bind_eq_some_iff.mp h
  obtain ⟨pending, hpending, h⟩ := Option.bind_eq_some_iff.mp h
  split at h
  · rename_i hrunning
    exact ⟨loop, pending, hloop, hpending, hrunning, (Option.some.inj h).symm⟩
  · exact absurd h (by simp)

theorem cutoverRead_eq_some {k : RequestId} {tenant : Option TenantId} {route : EmbeddingRoute}
    {force : Bool} (h : s.cutoverRead k tenant route force = some s') :
    s' = s ∨
      (route = .v2 → force = false →
        (embeddingV2Coverage s.db.chunks s.vectors tenant).isComplete = true) ∧
      s' = { s with
        cutovers := Function.update s.cutovers k
          (some ⟨tenant, route, force, s.db.chunks.nextId, false⟩) } := by
  unfold EmbeddingPlane.cutoverRead at h
  split at h
  · exact absurd h (by simp)
  · split at h
    · exact Or.inl (Option.some.inj h).symm
    · rename_i hopen
      refine Or.inr ⟨fun hroute hforce => ?_, (Option.some.inj h).symm⟩
      by_contra hincomplete
      exact hopen ⟨hroute, by simpa using hincomplete, by simp [hforce]⟩

theorem cutoverWrite_eq_some {k : RequestId} (h : s.cutoverWrite k = some s') :
    ∃ cutover, s.cutovers k = some cutover ∧ cutover.written = false ∧
      s' = { s with
        settings := upsertSetting s.settings cutover.tenant cutover.route.asStr
        cutovers := Function.update s.cutovers k (some { cutover with written := true })
        flips := s.flips ++ [cutover] } := by
  obtain ⟨cutover, hcutover, h⟩ := Option.bind_eq_some_iff.mp h
  split at h
  · exact absurd h (by simp)
  · rename_i hwritten
    exact ⟨cutover, hcutover, Bool.eq_false_iff.mpr hwritten, (Option.some.inj h).symm⟩

theorem cutoverFlush_eq_some {k : RequestId} (h : s.cutoverFlush k = some s') :
    s' = { s with
      routes := Function.update s.routes k.1 fun _ => none
      cutovers := Function.update s.cutovers k none } := by
  obtain ⟨cutover, -, h⟩ := Option.bind_eq_some_iff.mp h
  split at h
  · exact (Option.some.inj h).symm
  · exact absurd h (by simp)

theorem lookupRead_eq_some {q : RequestId} {tenant : TenantId}
    (h : s.lookupRead q tenant = some s') :
    s.lookups q = none ∧ s' = { s with
      lookups := Function.update s.lookups q (some (tenant, routeOf s.settings tenant)) } := by
  unfold EmbeddingPlane.lookupRead at h
  split at h
  · rename_i hmiss
    exact ⟨hmiss.1, (Option.some.inj h).symm⟩
  · exact absurd h (by simp)

theorem lookupInsert_eq_some {q : RequestId} (h : s.lookupInsert q = some s') :
    ∃ tenant route, s.lookups q = some (tenant, route) ∧ s' = { s with
      routes := Function.update s.routes q.1 (Function.update (s.routes q.1) tenant (some route))
      lookups := Function.update s.lookups q none } := by
  obtain ⟨⟨tenant, route⟩, hlookup, h⟩ := Option.bind_eq_some_iff.mp h
  exact ⟨tenant, route, hlookup, (Option.some.inj h).symm⟩

/-- The steps of cutovers and lookups. -/
def OnRoutes : MigrationEvent V → Prop
  | .write _ | .reembed _ _ _ _ | .batchRead _ | .batchFill _ | .abandon _ => False
  | _ => True

/-- The steps of cutovers and lookups leave the tables and the loops alone. -/
theorem step_onRoutes {e : MigrationEvent V} (h : s.step encode ilike sha256Hex e = some s')
    (he : OnRoutes e) : s'.db = s.db ∧ s'.vectors = s.vectors ∧ s'.loops = s.loops := by
  cases e with
  | cutoverRead k tenant route force =>
    rcases cutoverRead_eq_some h with rfl | ⟨-, rfl⟩ <;> exact ⟨rfl, rfl, rfl⟩
  | cutoverWrite k =>
    obtain ⟨cutover, -, -, rfl⟩ := cutoverWrite_eq_some h
    exact ⟨rfl, rfl, rfl⟩
  | cutoverFlush k =>
    obtain rfl := cutoverFlush_eq_some h
    exact ⟨rfl, rfl, rfl⟩
  | lookupRead q tenant =>
    obtain ⟨-, rfl⟩ := lookupRead_eq_some h
    exact ⟨rfl, rfl, rfl⟩
  | lookupInsert q =>
    obtain ⟨tenant, route, -, rfl⟩ := lookupInsert_eq_some h
    exact ⟨rfl, rfl, rfl⟩
  | evict replica tenant =>
    cases h
    exact ⟨rfl, rfl, rfl⟩
  | _ => exact he.elim

/-- The other steps leave settings, caches, lookups and cutovers alone. -/
theorem step_offRoutes {e : MigrationEvent V} (h : s.step encode ilike sha256Hex e = some s')
    (he : ¬ OnRoutes e) :
    s' = { s with db := s'.db, vectors := s'.vectors, loops := s'.loops } := by
  cases e with
  | write w => rw [(writes_writeChunks h).rest]
  | reembed l model tenant batch =>
    simp only [EmbeddingPlane.step] at h
    split at h
    · cases h
      rfl
    · exact absurd h (by simp)
  | batchRead l =>
    obtain ⟨loop, -, -, -, rfl⟩ := batchRead_eq_some h
    rfl
  | batchFill l =>
    obtain ⟨loop, pending, -, -, -, rfl⟩ := batchFill_eq_some h
    rfl
  | abandon l =>
    obtain ⟨loop, -, h⟩ := Option.bind_eq_some_iff.mp h
    split at h
    · cases h
      rfl
    · exact absurd h (by simp)
  | _ => exact absurd trivial he

/-- What any step does to rows and vectors: the first vector of a chunk stays, a second one stays,
and a new one is the encoding of a text that a loop has read. -/
structure DataStep (encode : String → V) (s s' : EmbeddingPlane V) : Prop where
  grows : Grows s.db.chunks s'.db.chunks
  embedding : ∀ id < s.db.chunks.nextId, (s'.vectors id).embedding = (s.vectors id).embedding
  kept : ∀ id < s.db.chunks.nextId, ∀ x, (s.vectors id).embeddingV2 = some x →
    (s'.vectors id).embeddingV2 = some x
  filled : ∀ id x, (s'.vectors id).embeddingV2 = some x → (s.vectors id).embeddingV2 = some x ∨
    ∃ l loop pending text, s.loops l = some loop ∧ loop.pending = some pending ∧
      (id, text) ∈ pending ∧ x.1 = encode text

theorem dataStep_of_same (hdb : s'.db = s.db) (hvectors : s'.vectors = s.vectors) :
    DataStep encode s s' := by
  refine ⟨?_, ?_, ?_, ?_⟩
  · rw [hdb]
    exact .refl _
  · intro id _
    rw [hvectors]
  · intro id _ x hx
    rw [hvectors]
    exact hx
  · intro id x hx
    rw [hvectors] at hx
    exact Or.inl hx

/-- What a step does to the chunks and their vectors. -/
theorem dataStep_step {e : MigrationEvent V} (h : s.step encode ilike sha256Hex e = some s') :
    DataStep encode s s' := by
  cases e with
  | write w =>
    have hwrites := writes_writeChunks h
    refine ⟨hwrites.grows, ?_, ?_, ?_⟩
    · intro id hid
      rw [hwrites.old id hid]
    · intro id hid x hx
      rw [hwrites.old id hid]
      exact hx
    · exact fun id x hx => Or.inl (hwrites.fresh id x hx)
  | reembed l model tenant batch =>
    simp only [EmbeddingPlane.step] at h
    split at h
    · cases h
      exact dataStep_of_same rfl rfl
    · exact absurd h (by simp)
  | batchRead l =>
    obtain ⟨loop, -, -, -, rfl⟩ := batchRead_eq_some h
    exact dataStep_of_same rfl rfl
  | batchFill l =>
    obtain ⟨loop, pending, hloop, hpending, -, rfl⟩ := batchFill_eq_some h
    refine ⟨.refl _, ?_, ?_, ?_⟩
    · intro id _
      exact embedding_fillEmbeddingV2 _ _ _
    · intro id _ x hx
      exact kept_fillEmbeddingV2 _ hx
    · intro id x hx
      refine (filled_fillEmbeddingV2 hx).imp_right fun hmem => ?_
      obtain ⟨⟨id', text⟩, hrow, heq⟩ := List.mem_map.mp hmem
      obtain ⟨rfl, hencoded⟩ := Prod.mk.inj heq
      exact ⟨l, loop, pending, text, hloop, hpending, hrow, hencoded.symm⟩
  | abandon l =>
    obtain ⟨loop, -, h⟩ := Option.bind_eq_some_iff.mp h
    split at h
    · cases h
      exact dataStep_of_same rfl rfl
    · exact absurd h (by simp)
  | _ =>
    obtain ⟨hdb, hvectors, -⟩ := step_onRoutes h trivial
    exact dataStep_of_same hdb hvectors

/-! ## Rows and vectors along a run -/

/-- Nothing has a second vector before its row; a batch is made of rows with a first vector, and
their texts; a second vector stands beside a first one and is the encoding of its row's text. -/
structure VectorInv (encode : String → V) (s : EmbeddingPlane V) : Prop where
  blank : ∀ id, s.db.chunks.nextId ≤ id → (s.vectors id).embeddingV2 = none
  pending : ∀ l loop pending, s.loops l = some loop → loop.pending = some pending →
    ∀ row ∈ pending, row.1 < s.db.chunks.nextId ∧ (s.vectors row.1).embedding.isSome = true ∧
      ∀ c ∈ s.db.chunks.rows, c.id = row.1 → c.content = row.2
  own : ∀ c ∈ s.db.chunks.rows, ∀ x, (s.vectors c.id).embeddingV2 = some x →
    x.1 = encode c.content ∧ (s.vectors c.id).embedding.isSome = true

theorem vectorInv_start (db : Database) {vectors : Vectors V}
    (hblank : ∀ id, (vectors id).embeddingV2 = none) : VectorInv encode (.start db vectors) := by
  refine ⟨fun id _ => hblank id, ?_, ?_⟩
  · intro l loop pending hloop
    exact absurd hloop (by simp [EmbeddingPlane.start])
  · intro c _ x hx
    exact absurd ((hblank c.id).symm.trans hx) (by simp)

/-- What a step can do to a loop. -/
inductive LoopStep (encode : String → V) (s s' : EmbeddingPlane V) :
    Option ReembedLoop → Option ReembedLoop → Prop where
  | same {loop : Option ReembedLoop} : LoopStep encode s s' loop loop
  | start (model : String) (tenant : Option TenantId) (batch : Int) :
      LoopStep encode s s' none (some ⟨model, tenant, batch, none, 0, [], .running⟩)
  | read {loop : ReembedLoop} (hrunning : loop.status = .running) (hidle : loop.pending = none)
      (hdb : s'.db = s.db) (hvectors : s'.vectors = s.vectors) :
      LoopStep encode s s' (some loop) (some { loop with
        pending := some (chunksNeedingV2 s.db.chunks s.vectors loop.tenant loop.batch)
        readAt := s.db.chunks.nextId })
  | fill {loop : ReembedLoop} {pending : List (ChunkId × String)}
      (hrunning : loop.status = .running) (hpending : loop.pending = some pending)
      (hdb : s'.db = s.db) (hvectors : s'.vectors = fillEmbeddingV2 s.db.chunks s.vectors loop.model
        (pending.map fun row => (row.1, encode row.2))) :
      LoopStep encode s s' (some loop) (some (loop.answer pending))
  | abandon {loop : ReembedLoop} :
      LoopStep encode s s' (some loop) (some { loop with status := .abandoned })

/-- What a step does to a client loop. -/
theorem loopStep_step {e : MigrationEvent V} (h : s.step encode ilike sha256Hex e = some s')
    (l : Nat) : LoopStep encode s s' (s.loops l) (s'.loops l) := by
  have hsame : s'.loops = s.loops → LoopStep encode s s' (s.loops l) (s'.loops l) := by
    intro hloops
    rw [hloops]
    exact .same
  cases e with
  | write w =>
    apply hsame
    rw [(writes_writeChunks h).rest]
  | reembed l' model tenant batch =>
    simp only [EmbeddingPlane.step] at h
    split at h
    · rename_i hfree
      cases h
      by_cases hl : l = l'
      · subst hl
        simp only [Function.update_self, hfree]
        exact .start model tenant batch
      · simp only [Function.update_of_ne hl]
        exact .same
    · exact absurd h (by simp)
  | batchRead l' =>
    obtain ⟨loop, hloop, hrunning, hidle, rfl⟩ := batchRead_eq_some h
    by_cases hl : l = l'
    · subst hl
      simp only [Function.update_self, hloop]
      exact .read hrunning hidle rfl rfl
    · simp only [Function.update_of_ne hl]
      exact .same
  | batchFill l' =>
    obtain ⟨loop, pending, hloop, hpending, hrunning, rfl⟩ := batchFill_eq_some h
    by_cases hl : l = l'
    · subst hl
      simp only [Function.update_self, hloop]
      exact .fill hrunning hpending rfl rfl
    · simp only [Function.update_of_ne hl]
      exact .same
  | abandon l' =>
    obtain ⟨loop, hloop, h⟩ := Option.bind_eq_some_iff.mp h
    split at h
    · cases h
      by_cases hl : l = l'
      · subst hl
        simp only [Function.update_self, hloop]
        exact .abandon
      · simp only [Function.update_of_ne hl]
        exact .same
    · exact absurd h (by simp)
  | _ => exact hsame (step_onRoutes h trivial).2.2

@[simp]
theorem pending_answer (loop : ReembedLoop) (pending : List (ChunkId × String)) :
    (loop.answer pending).pending = none := by
  unfold ReembedLoop.answer
  split <;> rfl

/-- The batch of a loop after a step is the one it had, or was read just now. -/
theorem pending_step {e : MigrationEvent V} (h : s.step encode ilike sha256Hex e = some s')
    {l : Nat} {loop' : ReembedLoop} {pending : List (ChunkId × String)}
    (hloop' : s'.loops l = some loop') (hpending : loop'.pending = some pending) :
    (∃ loop, s.loops l = some loop ∧ loop.pending = some pending) ∨
      (s'.db = s.db ∧ s'.vectors = s.vectors ∧
        ∃ tenant limit, pending = chunksNeedingV2 s.db.chunks s.vectors tenant limit) := by
  have hstep := loopStep_step h l
  rw [hloop'] at hstep
  generalize hbefore : s.loops l = before at hstep
  cases hstep with
  | same => exact Or.inl ⟨loop', rfl, hpending⟩
  | start model tenant batch => exact absurd hpending (by simp)
  | read hrunning hidle hdb hvectors =>
    exact Or.inr ⟨hdb, hvectors, _, _, (Option.some.inj hpending).symm⟩
  | fill hrunning hold hdb hvectors => exact absurd hpending (by simp)
  | @abandon loop => exact Or.inl ⟨loop, rfl, hpending⟩

/-- No step stores a vector of another text. -/
theorem vectorInv_step {e : MigrationEvent V} (hinv : VectorInv encode s)
    (h : s.step encode ilike sha256Hex e = some s') : VectorInv encode s' := by
  have hdata := dataStep_step h
  refine ⟨?_, ?_, ?_⟩
  · intro id hid
    by_contra hsome
    obtain ⟨x, hx⟩ := Option.ne_none_iff_exists'.mp hsome
    rcases hdata.filled id x hx with hold | ⟨l, loop, pending, text, hloop, hpending, hrow, -⟩
    · rw [hinv.blank id (hdata.grows.nextId_le.trans hid)] at hold
      exact absurd hold (by simp)
    · have hlt := (hinv.pending l loop pending hloop hpending _ hrow).1
      exact absurd hlt (Nat.not_lt.mpr (hdata.grows.nextId_le.trans hid))
  · intro l loop' pending hloop' hpending row hrow
    rcases pending_step h hloop' hpending with ⟨loop, hloop, hold⟩ | ⟨hdb, hvectors, _, _, rfl⟩
    · obtain ⟨hlt, hsome, htext⟩ := hinv.pending l loop pending hloop hold row hrow
      refine ⟨Nat.lt_of_lt_of_le hlt hdata.grows.nextId_le, ?_, ?_⟩
      · rw [hdata.embedding row.1 hlt]
        exact hsome
      · intro c' hc' hid
        obtain ⟨c, hc, hcontinues⟩ := hdata.grows.old hc' (hid ▸ hlt)
        rw [← hcontinues.content]
        exact htext c hc (hcontinues.id.trans hid)
    · obtain ⟨c, hc, hembeddable, -, rfl⟩ := mem_chunksNeedingV2 hrow
      rw [hdb, hvectors]
      refine ⟨s.db.chunks.ids_lt c hc, (Bool.and_eq_true_iff.mp hembeddable).2, ?_⟩
      intro c' hc' hid
      rw [List.inj_on_of_nodup_map s.db.chunks.ids_nodup hc' hc hid]
  · intro c' hc' x hx
    have hold : ∀ id < s.db.chunks.nextId, c'.id = id → ∃ c ∈ s.db.chunks.rows,
        c.id = id ∧ c.content = c'.content := by
      rintro id hlt rfl
      obtain ⟨c, hc, hcontinues⟩ := hdata.grows.old hc' hlt
      exact ⟨c, hc, hcontinues.id, hcontinues.content⟩
    rcases hdata.filled c'.id x hx with
      hbefore | ⟨l, loop, pending, text, hloop, hpending, hrow, he⟩
    · have hlt : c'.id < s.db.chunks.nextId := by
        by_contra hge
        rw [hinv.blank c'.id (Nat.le_of_not_lt hge)] at hbefore
        exact absurd hbefore (by simp)
      obtain ⟨c, hc, hid, hcontent⟩ := hold c'.id hlt rfl
      obtain ⟨hx, hsome⟩ := hinv.own c hc x (hid ▸ hbefore)
      refine ⟨hcontent ▸ hx, ?_⟩
      rw [hdata.embedding c'.id hlt, ← hid]
      exact hsome
    · obtain ⟨hlt, hsome, htext⟩ := hinv.pending l loop pending hloop hpending _ hrow
      obtain ⟨c, hc, hid, hcontent⟩ := hold c'.id hlt rfl
      have htexts : c.content = text := htext c hc hid
      refine ⟨?_, ?_⟩
      · rw [he, ← htexts, hcontent]
      · rw [hdata.embedding c'.id hlt]
        exact hsome

/-- What lies between two states of a run: the vectors that were there stay. -/
structure VectorsStay (s s' : EmbeddingPlane V) : Prop where
  grows : Grows s.db.chunks s'.db.chunks
  embedding : ∀ id < s.db.chunks.nextId, (s'.vectors id).embedding = (s.vectors id).embedding
  kept : ∀ id < s.db.chunks.nextId, ∀ x, (s.vectors id).embeddingV2 = some x →
    (s'.vectors id).embeddingV2 = some x

theorem VectorsStay.refl (s : EmbeddingPlane V) : VectorsStay s s :=
  ⟨.refl _, fun _ _ => rfl, fun _ _ _ hx => hx⟩

theorem VectorsStay.step {s₀ : EmbeddingPlane V} (hlater : VectorsStay s₀ s)
    (h : DataStep encode s s') : VectorsStay s₀ s' := by
  have hlt : ∀ id < s₀.db.chunks.nextId, id < s.db.chunks.nextId :=
    fun id hid => Nat.lt_of_lt_of_le hid hlater.grows.nextId_le
  refine ⟨hlater.grows.trans h.grows, ?_, ?_⟩
  · intro id hid
    rw [h.embedding id (hlt id hid), hlater.embedding id hid]
  · intro id hid x hx
    exact h.kept id (hlt id hid) x (hlater.kept id hid x hx)

/-- Every chunk with an id below the bound that a migration of the tenant is about has the second
vector. -/
def CoveredBelow (s : EmbeddingPlane V) (tenant : Option TenantId) (bound : ChunkId) : Prop :=
  ∀ c ∈ s.db.chunks.rows, c.id < bound → embeddable s.vectors tenant c = true →
    (s.vectors c.id).embeddingV2.isSome = true

/-- A chunk that is embeddable and was there has been embeddable. -/
theorem VectorsStay.embeddable_of_old (hlater : VectorsStay s s') {c' : Chunk}
    (hc' : c' ∈ s'.db.chunks.rows) (hid : c'.id < s.db.chunks.nextId) {tenant : Option TenantId}
    (h : embeddable s'.vectors tenant c' = true) :
    ∃ c ∈ s.db.chunks.rows, c.id = c'.id ∧ embeddable s.vectors tenant c = true := by
  obtain ⟨c, hc, hcontinues⟩ := hlater.grows.old hc' hid
  refine ⟨c, hc, hcontinues.id, ?_⟩
  unfold embeddable inTenant at h ⊢
  rw [Bool.and_eq_true_iff, Bool.and_eq_true_iff, Option.isNone_iff_eq_none] at h ⊢
  obtain ⟨⟨htenant, hcurrent⟩, hsome⟩ := h
  rw [hcontinues.tenantId, hcontinues.id, ← hlater.embedding c'.id hid]
  exact ⟨⟨htenant, hcontinues.current hcurrent⟩, hsome⟩

theorem CoveredBelow.later {tenant : Option TenantId} {bound : ChunkId}
    (h : CoveredBelow s tenant bound) (hbound : bound ≤ s.db.chunks.nextId)
    (hlater : VectorsStay s s') : CoveredBelow s' tenant bound := by
  intro c' hc' hlt hembeddable
  have hid : c'.id < s.db.chunks.nextId := Nat.lt_of_lt_of_le hlt hbound
  obtain ⟨c, hc, hsame, hbefore⟩ := hlater.embeddable_of_old hc' hid hembeddable
  obtain ⟨x, hx⟩ := Option.isSome_iff_exists.mp (h c hc (hsame ▸ hlt) hbefore)
  rw [hlater.kept c'.id hid x (hsame ▸ hx)]
  rfl

/-! ## The loop of a client -/

/-- The ids of the batch that is not answered yet. -/
def pendingIds (loop : ReembedLoop) : List ChunkId :=
  (loop.pending.getD []).map Prod.fst

/-- A chunk that lacked the second vector when the loop started. -/
def Waiting (s₀ : EmbeddingPlane V) (tenant : Option TenantId) (id : ChunkId) : Prop :=
  ∃ c ∈ s₀.db.chunks.rows, c.id = id ∧ embeddable s₀.vectors tenant c = true ∧
    (s₀.vectors c.id).embeddingV2 = none

/-- A loop that started in `s₀`: no chunk is read twice, what was answered is done, each chunk that
was read waited at the start or came since, and an empty batch means that nothing waits. -/
structure LoopInv (s₀ s : EmbeddingPlane V) (tenant : Option TenantId) (loop : ReembedLoop) :
    Prop where
  owner : loop.tenant = tenant
  nodup : (loop.rounds.flatten ++ pendingIds loop).Nodup
  answered : ∀ id ∈ loop.rounds.flatten, ∀ c ∈ s.db.chunks.rows, c.id = id →
    (s.vectors id).embeddingV2.isSome = true
  ids : ∀ id ∈ loop.rounds.flatten ++ pendingIds loop,
    id < s.db.chunks.nextId ∧ (id < s₀.db.chunks.nextId → Waiting s₀ tenant id)
  nonempty : ∀ round ∈ loop.rounds, round ≠ []
  looked : loop.pending = some [] ∨ loop.status = .done → CoveredBelow s tenant loop.readAt ∧
    s₀.db.chunks.nextId ≤ loop.readAt ∧ loop.readAt ≤ s.db.chunks.nextId

variable {s₀ : EmbeddingPlane V} {tenant : Option TenantId} {loop : ReembedLoop}

theorem loopInv_start (model : String) (tenant : Option TenantId) (batch : Int) :
    LoopInv s s tenant ⟨model, tenant, batch, none, 0, [], .running⟩ := by
  refine ⟨rfl, by simp [pendingIds], by simp, by simp [pendingIds],
    by simp, ?_⟩
  rintro (h | h) <;> exact absurd h (by simp)

/-- A step that leaves the loop alone. -/
theorem LoopInv.data (hloop : LoopInv s₀ s tenant loop) (h : DataStep encode s s') :
    LoopInv s₀ s' tenant loop := by
  refine ⟨hloop.owner, hloop.nodup, ?_, ?_, hloop.nonempty, ?_⟩
  · intro id hid c' hc' hsame
    have hlt : id < s.db.chunks.nextId := (hloop.ids id (List.mem_append_left _ hid)).1
    obtain ⟨c, hc, hcontinues⟩ := h.grows.old hc' (hsame ▸ hlt)
    have hsome := hloop.answered id hid c hc (hcontinues.id.trans hsame)
    obtain ⟨x, hx⟩ := Option.isSome_iff_exists.mp hsome
    rw [h.kept id hlt x hx]
    rfl
  · intro id hid
    obtain ⟨hlt, hwaiting⟩ := hloop.ids id hid
    exact ⟨Nat.lt_of_lt_of_le hlt h.grows.nextId_le, hwaiting⟩
  · intro hlooked
    obtain ⟨hcovered, hfrom, hto⟩ := hloop.looked hlooked
    exact ⟨hcovered.later hto ((VectorsStay.refl s).step h), hfrom, hto.trans h.grows.nextId_le⟩

/-- A batch is read: its chunks are none that were answered. -/
theorem LoopInv.read (hloop : LoopInv s₀ s tenant loop) (hlater : VectorsStay s₀ s)
    (hrunning : loop.status = .running) (hidle : loop.pending = none) :
    LoopInv s₀ s tenant { loop with
      pending := some (chunksNeedingV2 s.db.chunks s.vectors loop.tenant loop.batch)
      readAt := s.db.chunks.nextId } := by
  have hbatch : ∀ id ∈ (chunksNeedingV2 s.db.chunks s.vectors loop.tenant loop.batch).map Prod.fst,
      ∃ c ∈ s.db.chunks.rows, c.id = id ∧ embeddable s.vectors tenant c = true ∧
        (s.vectors id).embeddingV2 = none := by
    intro id hid
    obtain ⟨row, hrow, rfl⟩ := List.mem_map.mp hid
    obtain ⟨c, hc, hembeddable, hnone, rfl⟩ := mem_chunksNeedingV2 hrow
    exact ⟨c, hc, rfl, hloop.owner ▸ hembeddable, hnone⟩
  have hold := hloop.nodup
  simp only [pendingIds, hidle, Option.getD_none, List.map_nil, List.append_nil] at hold
  refine ⟨hloop.owner, ?_, hloop.answered, ?_, hloop.nonempty, ?_⟩
  · refine hold.append (nodup_chunksNeedingV2 _ _) ?_
    intro id hanswered hid
    obtain ⟨c, hc, hsame, -, hnone⟩ := hbatch id hid
    have hsome := hloop.answered id hanswered c hc hsame
    rw [hnone] at hsome
    exact absurd hsome (by simp)
  · intro id hid
    rcases List.mem_append.mp hid with hid | hid
    · exact hloop.ids id (List.mem_append_left _ hid)
    · obtain ⟨c, hc, rfl, hembeddable, hnone⟩ := hbatch id hid
      refine ⟨s.db.chunks.ids_lt c hc, fun hlt => ?_⟩
      obtain ⟨c₀, hc₀, hsame, hbefore⟩ := hlater.embeddable_of_old hc hlt hembeddable
      refine ⟨c₀, hc₀, hsame, hbefore, ?_⟩
      by_contra hsome
      obtain ⟨x, hx⟩ := Option.ne_none_iff_exists'.mp hsome
      rw [hlater.kept c.id hlt x (hsame ▸ hx)] at hnone
      exact absurd hnone (by simp)
  · rintro (hempty | hdone)
    · refine ⟨?_, hlater.grows.nextId_le, Nat.le_refl _⟩
      intro c hc _ hembeddable
      exact chunksNeedingV2_eq_nil (Option.some.inj hempty) c hc (hloop.owner ▸ hembeddable)
    · exact absurd (hrunning.symm.trans hdone) (by simp)

/-- A batch is answered: its chunks have the vector, or are gone. -/
theorem LoopInv.fill (hloop : LoopInv s₀ s tenant loop) (h : DataStep encode s s')
    {pending : List (ChunkId × String)} (hrunning : loop.status = .running)
    (hpending : loop.pending = some pending) (hdb : s'.db = s.db)
    (hvectors : s'.vectors = fillEmbeddingV2 s.db.chunks s.vectors loop.model
      (pending.map fun row => (row.1, encode row.2))) :
    LoopInv s₀ s' tenant (loop.answer pending) := by
  have hkept := hloop.data h
  unfold ReembedLoop.answer
  split
  · rename_i hempty
    obtain rfl := List.isEmpty_iff.mp hempty
    refine ⟨hkept.owner, ?_, hkept.answered, ?_, hkept.nonempty, ?_⟩
    · simpa [pendingIds, hpending] using hkept.nodup
    · intro id hid
      apply hkept.ids id
      simpa [pendingIds, hpending] using hid
    · exact fun _ => hkept.looked (Or.inl hpending)
  · rename_i hsome
    have hids : (loop.rounds ++ [pending.map Prod.fst]).flatten =
        loop.rounds.flatten ++ pendingIds loop := by
      simp [pendingIds, hpending]
    refine ⟨hkept.owner, ?_, ?_, ?_, ?_, ?_⟩
    · simpa [pendingIds, hpending] using hkept.nodup
    · intro id hid c hc hsame
      rw [hids, List.mem_append] at hid
      rcases hid with hid | hid
      · exact hkept.answered id hid c hc hsame
      · rw [pendingIds, hpending] at hid
        obtain ⟨row, hrow, rfl⟩ := List.mem_map.mp hid
        rw [hdb] at hc
        rw [hvectors]
        exact covered_fillEmbeddingV2 (List.mem_map_of_mem hrow) ⟨c, hc, hsame⟩
    · intro id hid
      apply hkept.ids id
      simpa [pendingIds, hpending] using hid
    · intro round hround
      rcases List.mem_append.mp hround with hround | hround
      · exact hkept.nonempty round hround
      · rw [List.mem_singleton.mp hround]
        simpa using hsome
    · rintro (hnone | hdone)
      · exact absurd hnone (by simp)
      · exact absurd (hrunning.symm.trans hdone) (by simp)

theorem loopInv_step (hlater : VectorsStay s₀ s) (hloop : LoopInv s₀ s tenant loop) {l : Nat}
    (hl : s.loops l = some loop) {e : MigrationEvent V}
    (h : s.step encode ilike sha256Hex e = some s') :
    ∃ loop', s'.loops l = some loop' ∧ LoopInv s₀ s' tenant loop' := by
  have hdata := dataStep_step h
  have hstep := loopStep_step h l
  rw [hl] at hstep
  generalize hafter : s'.loops l = after at hstep
  cases hstep with
  | same => exact ⟨loop, rfl, hloop.data hdata⟩
  | read hrunning hidle hdb hvectors =>
    have hread := hloop.read hlater hrunning hidle
    exact ⟨_, rfl, hread.data hdata⟩
  | fill hrunning hpending hdb hvectors =>
    exact ⟨_, rfl, hloop.fill hdata hrunning hpending hdb hvectors⟩
  | abandon =>
    have hkept := hloop.data hdata
    refine ⟨_, rfl, hkept.owner, hkept.nodup, hkept.answered, hkept.ids, hkept.nonempty, ?_⟩
    rintro (hempty | hdone)
    · exact hkept.looked (Or.inl hempty)
    · exact absurd hdone (by simp)

/-- Every batch that is answered holds a chunk, and the chunks that are read are those that waited
at the start and those that came since. -/
theorem LoopInv.length_rounds_le (hlater : VectorsStay s₀ s) (hloop : LoopInv s₀ s tenant loop) :
    loop.rounds.length ≤ (s₀.db.chunks.rows.countP fun c =>
        embeddable s₀.vectors tenant c && (s₀.vectors c.id).embeddingV2.isNone) +
      (s.db.chunks.nextId - s₀.db.chunks.nextId) := by
  have hrounds : loop.rounds.length ≤ loop.rounds.flatten.length := by
    have hnonempty := hloop.nonempty
    generalize loop.rounds = rounds at hnonempty
    induction rounds with
    | nil => simp
    | cons round rounds ih =>
      have hround := List.length_pos_iff.mpr (hnonempty round List.mem_cons_self)
      have hrest := ih fun r hr => hnonempty r (List.mem_cons_of_mem _ hr)
      simp only [List.flatten_cons, List.length_append, List.length_cons]
      omega
  let waiting := (s₀.db.chunks.rows.filter fun c =>
    embeddable s₀.vectors tenant c && (s₀.vectors c.id).embeddingV2.isNone).map Chunk.id
  let since := List.range' s₀.db.chunks.nextId (s.db.chunks.nextId - s₀.db.chunks.nextId)
  have hsub : loop.rounds.flatten ⊆ waiting ++ since := by
    intro id hid
    obtain ⟨hlt, hwaiting⟩ := hloop.ids id (List.mem_append_left _ hid)
    by_cases hold : id < s₀.db.chunks.nextId
    · obtain ⟨c, hc, rfl, hembeddable, hnone⟩ := hwaiting hold
      refine List.mem_append_left _ (List.mem_map_of_mem (List.mem_filter.mpr ⟨hc, ?_⟩))
      rw [hembeddable, hnone]
      rfl
    · refine List.mem_append_right _ (List.mem_range'_1.mpr ⟨Nat.le_of_not_lt hold, ?_⟩)
      rw [Nat.add_sub_cancel' hlater.grows.nextId_le]
      exact hlt
  have hlength := (List.subperm_of_subset hloop.nodup.of_append_left hsub).length_le
  simp only [waiting, since, List.length_append, List.length_map, List.length_range',
    ← List.countP_eq_length_filter] at hlength
  omega

theorem vectorInv_of_run {db : Database} {vectors : Vectors V}
    (hblank : ∀ id, (vectors id).embeddingV2 = none) {events : List (MigrationEvent V)}
    (hrun : run (EmbeddingPlane.step encode ilike sha256Hex) (.start db vectors) events = some s) :
    VectorInv encode s :=
  run_induction (fun _ _ _ hinv hstep => vectorInv_step hinv hstep)
    (vectorInv_start db hblank) hrun

/-- A loop that was started ends after at most one batch for each chunk that waited or came since,
however other loops, ingestion, erasures and cutovers come in between; no chunk is in two of its
batches. When it has ended, every embeddable chunk that was there at its last look has the second
vector, and keeps it. -/
theorem reembed_rounds {l : Nat} {model : String} {batch : Int}
    (hstarted : s₀.loops l = some ⟨model, tenant, batch, none, 0, [], .running⟩)
    {later : List (MigrationEvent V)}
    (hrun : run (EmbeddingPlane.step encode ilike sha256Hex) s₀ later = some s) :
    ∃ loop, s.loops l = some loop ∧ loop.rounds.flatten.Nodup ∧
      loop.rounds.length ≤ (s₀.db.chunks.rows.countP fun c =>
          embeddable s₀.vectors tenant c && (s₀.vectors c.id).embeddingV2.isNone) +
        (s.db.chunks.nextId - s₀.db.chunks.nextId) ∧
      (loop.status = .done → s₀.db.chunks.nextId ≤ loop.readAt ∧
        CoveredBelow s tenant loop.readAt) := by
  have hinv : VectorsStay s₀ s ∧ ∃ loop, s.loops l = some loop ∧ LoopInv s₀ s tenant loop := by
    refine run_induction (I := fun s => VectorsStay s₀ s ∧
      ∃ loop, s.loops l = some loop ∧ LoopInv s₀ s tenant loop) ?_
      ⟨.refl s₀, _, hstarted, loopInv_start model tenant batch⟩ hrun
    rintro s e s' ⟨hlater, loop, hl, hloop⟩ hstep
    exact ⟨hlater.step (dataStep_step hstep), loopInv_step hlater hloop hl hstep⟩
  obtain ⟨hlater, loop, hl, hloop⟩ := hinv
  refine ⟨loop, hl, hloop.nodup.of_append_left, hloop.length_rounds_le hlater, fun hdone => ?_⟩
  obtain ⟨hcovered, hfrom, -⟩ := hloop.looked (Or.inr hdone)
  exact ⟨hfrom, hcovered⟩

end Steps

/-! A loop with batches of one chunk, while another chunk comes in. -/

/-- A chunk with a first vector. -/
def embeddedWrite (documentId : String) (validFrom : Time) : ChunkWrite × Option String :=
  (⟨1, "crm", documentId, 0, "Renewal in May.", [7], [], .internal, .observation, validFrom, 1,
    .adminAssigned, []⟩, some "v1")

def embeddingStep :
    EmbeddingPlane String → MigrationEvent String → Option (EmbeddingPlane String) :=
  EmbeddingPlane.step id (fun _ _ => false) id

def emptyPlane : EmbeddingPlane String := .start .empty fun _ => ⟨none, none⟩

/-- A chunk that is stored while the loop is on is in its second batch, and the two batches are
all. -/
theorem reembed_covers_chunk_of_meantime :
    ∃ s₀ s loop,
      run embeddingStep emptyPlane
        [.write (.upsertChunks 1 [embeddedWrite "a" 1]), .reembed 0 "bge" none 1] = some s₀ ∧
      run embeddingStep s₀
        [.batchRead 0, .write (.upsertChunks 2 [embeddedWrite "b" 2]), .batchFill 0, .batchRead 0,
          .batchFill 0, .batchRead 0, .batchFill 0] = some s ∧
      s.loops 0 = some loop ∧ loop.rounds = [[1], [2]] ∧ 2 ≤ loop.readAt ∧
      CoveredBelow s none loop.readAt := by
  have hview : (run embeddingStep emptyPlane
      [.write (.upsertChunks 1 [embeddedWrite "a" 1]), .reembed 0 "bge" none 1]).bind (fun s₀ =>
        (run embeddingStep s₀
          [.batchRead 0, .write (.upsertChunks 2 [embeddedWrite "b" 2]), .batchFill 0, .batchRead 0,
            .batchFill 0, .batchRead 0, .batchFill 0]).map fun s =>
              (s₀.loops 0, s₀.db.chunks.nextId, s.loops 0)) =
      some (some ⟨"bge", none, 1, none, 0, [], .running⟩, 2,
        some ⟨"bge", none, 1, none, 3, [[1], [2]], .done⟩) := by
    decide +kernel
  obtain ⟨s₀, hs₀, hrest⟩ := Option.bind_eq_some_iff.mp hview
  obtain ⟨s, hs, hloops⟩ := Option.map_eq_some_iff.mp hrest
  obtain ⟨hstarted, hrest⟩ := Prod.mk.inj hloops
  obtain ⟨hnext, hended⟩ := Prod.mk.inj hrest
  obtain ⟨loop, hloop, -, -, hdone⟩ := reembed_rounds hstarted hs
  obtain rfl := Option.some.inj (hended.symm.trans hloop)
  obtain ⟨hfrom, hcovered⟩ := hdone rfl
  exact ⟨s₀, s, _, hs₀, hs, hloop, rfl, hnext ▸ hfrom, hcovered⟩

end Verity.Analysis
