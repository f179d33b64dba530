import Verity.Analysis.KnowledgeSupport
import Verity.Foundation.LookAside
import Verity.Model.Briefs

/-!
# The freshness of briefs

A brief that is not marked stale is trusted. It should be what a refresh would compute from the
tables as they are. Two things break this. A refresh clears the mark when it stores, also a mark
that a writer has set since it read; and a writer that takes a chunk out of the view of an entity
does not mark the entity. `upsert_chunks` marks the tags of what it writes and of the tail it
closes, but not those of the versions it supersedes; a change of tags marks the new tags only; and
`retire_document` and `forget` mark nothing.

`MarksKept` excludes both, step by step. Along a run of such steps every brief is what a refresh
would compute, or the mark of a change of tags is still due for it
(`covered_step`, `trusted_briefs_fresh`).
-/

set_option autoImplicit false

namespace Verity.Analysis

open Verity.Foundation
open Verity.Model
open Verity.Model.ChunkTable

variable {tenant : TenantId} {entity : String} {content : BriefContent} {now : Time} {c : Chunk}
  {t : ChunkTable} {db : Database} {t' : ChunkTable} {f : Chunk → Chunk}
  {source documentId : String} {writes : List ChunkWrite} {kid : KnowledgeId}
  {episodeId : EpisodeId} {seq : Int} {tags : List String} {s : BriefState}

/-! ## The property -/

/-- The brief of the entity has this content and is not marked stale. -/
def Trusted (tenant : TenantId) (briefs : BriefTable) (entity : String) (content : BriefContent) :
    Prop :=
  ∃ b ∈ briefs.rows, b.tenantId = tenant ∧ b.entity = entity ∧ b.isStale = false ∧
    b.content = content

/-- Every brief that is not marked stale is what a refresh would compute now. -/
def BriefsFresh (tenant : TenantId) (s : BriefState) : Prop :=
  ∀ b ∈ s.briefs.rows, b.tenantId = tenant → b.isStale = false →
    s.db.RefreshResult tenant b.entity b.content

instance (tenant : TenantId) (s : BriefState) : Decidable (BriefsFresh tenant s) :=
  inferInstanceAs (Decidable (∀ b ∈ s.briefs.rows, b.tenantId = tenant → b.isStale = false → _))

/-- A change of tags is written whose mark is still to come. -/
def MarkDue (s : BriefState) (entity : String) : Prop := ∃ tags ∈ s.retags, entity ∈ tags

instance (s : BriefState) (entity : String) : Decidable (MarkDue s entity) :=
  inferInstanceAs (Decidable (∃ tags ∈ s.retags, entity ∈ tags))

/-- A brief of the entity is trusted, and will be until another call marks it. -/
def ReliedOn (tenant : TenantId) (s : BriefState) (entity : String) : Prop :=
  (∃ b ∈ s.briefs.rows, b.tenantId = tenant ∧ b.entity = entity ∧ b.isStale = false) ∧
    ¬ MarkDue s entity

instance (tenant : TenantId) (s : BriefState) (entity : String) :
    Decidable (ReliedOn tenant s entity) :=
  inferInstanceAs (Decidable (_ ∧ _))

/-! ## The condition on a step -/

/-- The support of the item without the episode is below the floor, and the item is published. -/
def dropsItem (db : Database) (episodeId : EpisodeId) (kid : KnowledgeId) : Bool :=
  db.knowledge.rows.any (Database.retracts kid) &&
    decide ((recount (deleteWhere
      (fun e => decide (e.knowledgeId = kid ∧ e.episodeId = episodeId)) db.evidence)
      kid).distinctEntities < 3)

/-- The current chunks that `forget` retires: the chunk, or the chunks of the episode and those
that serve an item the episode held above the floor. -/
def forgets (db : Database) (tenant : TenantId) (ref : ForgetRef) (c : Chunk) : Bool :=
  decide (c.tenantId = tenant ∧ c.validTo = none) &&
    match ref with
    | .chunk chunkId => decide (c.id = chunkId)
    | .episode episodeId =>
      decide (c.provenance = episodeId) ||
        (db.supportedBy tenant episodeId).any fun kid =>
          dropsItem db episodeId kid && decide (c.documentId = "knowledge:" ++ toString kid)

/-- The current chunks whose place in the view of their entities a step takes away, other than
with the tail of a document. -/
def displaces (tenant : TenantId) (db : Database) : BriefStep → Chunk → Bool
  | .upsertChunks _ writes, c => writes.any fun w => supersedes w c
  | .retireDocument _ source documentId, c =>
    c.ofDocument tenant source documentId && decide (c.validTo = none)
  | .forget _ ref, c => forgets db tenant ref c
  | .setEntityTags source documentId seq _, c =>
    c.ofDocument tenant source documentId && decide (c.seq = seq ∧ c.validTo = none)
  | _, _ => false

/-- The entities whose briefs a writer marks, in the step or after it. -/
def markedEntities (db : Database) : BriefStep → List String
  | .upsertChunks now writes => db.chunks.affectedTags now writes
  | .recordAction _ _ a => a.entities
  | .setEntityTags _ _ _ tags => tags
  | .markRetagged tags => tags
  | _ => []

/-- A refresh stores what is still an answer of its two queries, or what is about to be marked. A
writer marks every entity that it takes a chunk from and whose brief is relied on. -/
def MarksKept (tenant : TenantId) (s : BriefState) : BriefStep → Prop
  | .storeBrief _ refresh =>
    (s.db.MemoryAnswer tenant refresh.entity refresh.memory ∧
      ∀ activity ∈ refresh.activity, s.db.ActivityAnswer tenant refresh.entity activity) ∨
    MarkDue s refresh.entity
  | o =>
    ∀ c ∈ s.db.chunks.rows, displaces tenant s.db o c = true → ∀ entity ∈ c.entityTags,
      ReliedOn tenant s entity → entity ∈ markedEntities s.db o

instance (tenant : TenantId) (s : BriefState) : (o : BriefStep) → Decidable (MarksKept tenant s o)
  | .storeBrief _ _ => inferInstanceAs (Decidable (_ ∨ _))
  | .readMemory _ _ | .readActivity _ _ | .upsertChunks _ _ | .recordAction _ _ _
  | .retireDocument _ _ _ | .forget _ _ | .setEntityTags _ _ _ _ | .markRetagged _ =>
    inferInstanceAs (Decidable (∀ c ∈ s.db.chunks.rows, _))

/-- What holds in the midst of the calls: a trusted brief is what a refresh would compute, or its
mark is due. -/
def Covered (tenant : TenantId) (s : BriefState) : Prop :=
  TrustedOrDue (s.db.RefreshResult tenant) (Trusted tenant s.briefs) (MarkDue s)

/-! ## Marking and storing -/

theorem trusted_markStale {briefs : BriefTable} {entities : List String} :
    Trusted tenant (briefs.markStale tenant entities) entity content ↔
      Trusted tenant briefs entity content ∧ entity ∉ entities := by
  unfold Trusted BriefTable.markStale
  split
  · rename_i hempty
    simp [List.isEmpty_iff.mp hempty]
  · unfold BriefTable.updateRows updateWhere
    simp only [List.mem_map]
    constructor
    · rintro ⟨b', ⟨b, hb, hb'⟩, htenant, rfl, hfresh, hcontent⟩
      split at hb'
      · subst hb'
        cases hfresh
      · rename_i hsel
        subst hb'
        refine ⟨⟨b, hb, htenant, rfl, hfresh, hcontent⟩, ?_⟩
        intro hmem
        exact hsel (by simp [htenant, hmem])
    · rintro ⟨⟨b, hb, htenant, rfl, hfresh, hcontent⟩, hmem⟩
      refine ⟨b, ⟨b, hb, if_neg ?_⟩, htenant, rfl, hfresh, hcontent⟩
      simp [hmem]

theorem trusted_store {briefs : BriefTable} {entity' : String} {content' : BriefContent}
    (h : Trusted tenant (briefs.store tenant entity' content' now) entity content) :
    Trusted tenant briefs entity content ∨ entity = entity' ∧ content = content' := by
  obtain ⟨b, hb, htenant, rfl, hfresh, rfl⟩ := h
  unfold BriefTable.store at hb
  split at hb
  · obtain ⟨b₀, hb₀, hb'⟩ := List.mem_map.mp hb
    split at hb'
    · rename_i hkey
      subst hb'
      exact Or.inr ⟨congrArg Prod.snd (of_decide_eq_true hkey), rfl⟩
    · subst hb'
      exact Or.inl ⟨b₀, hb₀, htenant, rfl, hfresh, rfl⟩
  · rcases List.mem_append.mp hb with hb | hb
    · exact Or.inl ⟨b, hb, htenant, rfl, hfresh, rfl⟩
    · obtain rfl := List.mem_singleton.mp hb
      exact Or.inr ⟨rfl, rfl⟩

/-! ## The view of an entity -/

theorem memorySelects_iff :
    memorySelects tenant entity c = true ↔
      c.tenantId = tenant ∧ c.validTo = none ∧ entity ∈ c.entityTags := by
  simp [memorySelects, containedIn, and_assoc]

theorem mem_carrying :
    c ∈ t.carrying tenant entity ↔
      c ∈ t.rows ∧ c.tenantId = tenant ∧ c.validTo = none ∧ entity ∈ c.entityTags := by
  unfold ChunkTable.carrying
  rw [List.mem_filter, memorySelects_iff]

/-- A refresh computes the same where the view of the entity is the same. -/
theorem refreshResult_congr {db' : Database} (h : db.RefreshResult tenant entity content)
    (hchunks : db'.chunks.carrying tenant entity = db.chunks.carrying tenant entity)
    (hactions : actionsOn db'.actions tenant entity = actionsOn db.actions tenant entity) :
    db'.RefreshResult tenant entity content := by
  unfold Database.RefreshResult Database.MemoryAnswer Database.ActivityAnswer at h ⊢
  rw [hchunks, hactions]
  exact h

/-- Closing rows changes the view of an entity only by a row that was in it. -/
theorem carrying_close (hrows : t'.rows = t.rows.map f)
    (hclose : ∀ c, f c = c ∨ (f c).validTo ≠ none)
    (hkeep : ∀ c ∈ t.carrying tenant entity, f c = c) :
    t'.carrying tenant entity = t.carrying tenant entity := by
  unfold ChunkTable.carrying
  rw [hrows]
  apply filter_map_frame
  intro c hc
  cases hsel : memorySelects tenant entity c with
  | true => exact Or.inl (hkeep c (List.mem_filter.mpr ⟨hc, hsel⟩))
  | false =>
    rcases hclose c with hsame | hclosed
    · exact Or.inl hsame
    · refine Or.inr ⟨rfl, Bool.eq_false_iff.mpr fun hsel' => ?_⟩
      exact hclosed (memorySelects_iff.mp hsel').2.1

theorem carrying_closeWhere {tenant' : TenantId} {validFrom : Time} {p : Int → Bool}
    (hkeep : ∀ c ∈ t.carrying tenant entity, c.ofDocument tenant' source documentId = true →
      p c.seq = true → ¬ c.validFrom < validFrom) :
    (t.closeWhere tenant' source documentId validFrom p).carrying tenant entity =
      t.carrying tenant entity := by
  refine carrying_close rfl ?_ ?_
  · intro c
    split
    · unfold Chunk.close
      split
      · exact Or.inr (Option.some_ne_none _)
      · exact Or.inl rfl
    · exact Or.inl rfl
  · intro c hc
    split
    · rename_i hsel
      obtain ⟨hdoc, hp⟩ := Bool.and_eq_true_iff.mp hsel
      exact if_neg fun hold => hkeep c hc hdoc hp hold.2
    · rfl

/-- A row of other entities changes nothing. -/
theorem carrying_insert {w : ChunkWrite} (h : entity ∉ w.entityTags) :
    (t.insert now w).carrying tenant entity = t.carrying tenant entity := by
  unfold ChunkTable.carrying
  rcases insert_cases t now w with ⟨_, hrows⟩ | ⟨_, hrows⟩
  · rw [hrows]
  · have hsel : memorySelects tenant entity (t.rowOf now w) = false :=
      Bool.eq_false_iff.mpr fun hsel => h (memorySelects_iff.mp hsel).2.2
    rw [hrows, List.filter_append, List.filter_singleton, hsel]
    exact List.append_nil _

/-- The writes of a delivery leave the view of an entity alone, if none of them is of the entity
and none supersedes a chunk of it. -/
theorem carrying_foldl_upsertChunk (t : ChunkTable) (now : Time)
    (hnew : ∀ w ∈ writes, entity ∉ w.entityTags)
    (hold : ∀ c ∈ t.carrying tenant entity, ∀ w ∈ writes, supersedes w c = false) :
    (writes.foldl (fun t w => t.upsertChunk now w) t).carrying tenant entity =
      t.carrying tenant entity := by
  induction writes generalizing t with
  | nil => rfl
  | cons w writes ih =>
    have hone : (t.upsertChunk now w).carrying tenant entity = t.carrying tenant entity := by
      unfold upsertChunk
      rw [carrying_insert (hnew w List.mem_cons_self)]
      apply carrying_closeWhere
      intro c hc hdoc hseq hlt
      have hsup : supersedes w c = true := by
        simp [supersedes, hdoc, of_decide_eq_true hseq, (mem_carrying.mp hc).2.2.1, hlt]
      exact absurd hsup (by simp [hold c hc w List.mem_cons_self])
    rw [List.foldl_cons, ih _ fun w' hw' => hnew w' (List.mem_cons_of_mem w hw')]
    · exact hone
    · rw [hone]
      exact fun c hc w' hw' => hold c hc w' (List.mem_cons_of_mem w hw')

theorem carrying_closeTails (h : ∀ c ∈ t.carrying tenant entity, inTail writes c = false) :
    (t.closeTails writes).carrying tenant entity = t.carrying tenant entity := by
  have hfold : ∀ (ws : List ChunkWrite) (t' : ChunkTable), (∀ w ∈ ws, w ∈ writes) →
      t'.carrying tenant entity = t.carrying tenant entity →
      (ws.foldl (fun t w => t.closeWhere w.tenantId w.source w.documentId
        (tailOf writes w).1.stored ((tailOf writes w).2 < ·)) t').carrying tenant entity =
          t.carrying tenant entity := by
    intro ws
    induction ws with
    | nil => exact fun _ _ hsame => hsame
    | cons w ws ih =>
      intro t' hsub hsame
      apply ih _ fun w' hw' => hsub w' (List.mem_cons_of_mem w hw')
      rw [← hsame]
      apply carrying_closeWhere
      intro c hc hdoc hseq hlt
      rw [hsame] at hc
      have htail : inTail writes c = true := by
        refine List.any_eq_true.mpr ⟨w, hsub w List.mem_cons_self, ?_⟩
        simp [hdoc, of_decide_eq_true hseq, (mem_carrying.mp hc).2.2.1, hlt]
      exact absurd htail (by simp [h c hc])
  exact hfold writes t (fun _ hw => hw) rfl

/-- A delivery leaves the view of an entity alone that it does not mark and supersedes no chunk
of. -/
theorem carrying_upsertChunks (hmark : entity ∉ t.affectedTags now writes)
    (hold : ∀ c ∈ t.carrying tenant entity, ∀ w ∈ writes, supersedes w c = false) :
    (t.upsertChunks now writes).carrying tenant entity = t.carrying tenant entity := by
  unfold affectedTags at hmark
  rw [List.mem_append, not_or, List.mem_flatMap, List.mem_flatMap] at hmark
  obtain ⟨hnew, htail⟩ := hmark
  have hwritten := carrying_foldl_upsertChunk t now
    (fun w hw htag => hnew ⟨w, hw, htag⟩) hold
  unfold upsertChunks
  rw [carrying_closeTails, hwritten]
  intro c hc
  obtain ⟨hrow, _, _, htag⟩ := mem_carrying.mp hc
  exact Bool.eq_false_iff.mpr fun hin => htail ⟨c, List.mem_filter.mpr ⟨hrow, hin⟩, htag⟩

/-- Retiring rows takes them out of the view of an entity, and nothing else. -/
theorem carrying_retire {p : Chunk → Prop} [DecidablePred p]
    (hrows : t'.rows = t.rows.map fun c => if p c then f c else c)
    (hclose : ∀ c, (f c).validTo ≠ none) :
    t'.carrying tenant entity = (t.carrying tenant entity).filter fun c => decide (¬ p c) := by
  unfold ChunkTable.carrying
  rw [hrows]
  refine filter_map_moved (fun c => Bool.eq_false_iff.mpr fun hsel => ?_) _
  exact hclose c (memorySelects_iff.mp hsel).2.1

theorem carrying_retire_of_forall_not {p : Chunk → Prop} [DecidablePred p]
    (hrows : t'.rows = t.rows.map fun c => if p c then f c else c)
    (hclose : ∀ c, (f c).validTo ≠ none) (hkeep : ∀ c ∈ t.carrying tenant entity, ¬ p c) :
    t'.carrying tenant entity = t.carrying tenant entity := by
  rw [carrying_retire hrows hclose]
  exact List.filter_eq_self.mpr fun c hc => decide_eq_true (hkeep c hc)

theorem carrying_retireDocument (hkeep : ∀ c ∈ db.chunks.carrying tenant entity,
      (c.ofDocument tenant source documentId && decide (c.validTo = none)) = false) :
    (db.retireDocument now tenant source documentId).1.chunks.carrying tenant entity =
      db.chunks.carrying tenant entity := by
  refine carrying_retire_of_forall_not rfl (fun _ => Option.some_ne_none _) ?_
  intro c hc
  simp [hkeep c hc]

/-! ### Forgetting -/

theorem carrying_retireChunks {p : Chunk → Bool}
    (hkeep : ∀ c ∈ db.chunks.carrying tenant entity, (p c && decide (c.validTo = none)) = false) :
    (db.retireChunks now p).1.chunks.carrying tenant entity =
      db.chunks.carrying tenant entity := by
  refine carrying_retire_of_forall_not rfl (fun _ => Option.some_ne_none _) ?_
  intro c hc
  simp [hkeep c hc]

theorem any_retracts_of_updateWhere {rows : List KnowledgeRow} {p : KnowledgeRow → Bool}
    {f : KnowledgeRow → KnowledgeRow}
    (h : (updateWhere p f rows).any (Database.retracts kid) = true)
    (hback : ∀ k, Database.retracts kid (f k) = true → Database.retracts kid k = true) :
    rows.any (Database.retracts kid) = true := by
  obtain ⟨k', hk', hret⟩ := List.any_eq_true.mp h
  obtain ⟨k, hk, rfl⟩ := List.mem_map.mp hk'
  refine List.any_eq_true.mpr ⟨k, hk, ?_⟩
  split at hret
  · exact hback k hret
  · exact hret

/-- No item becomes published while the support of another is withdrawn. -/
theorem any_retracts_of_withdrawSupport {kid' : KnowledgeId}
    (h : (Database.withdrawSupport tenant episodeId now db kid).knowledge.rows.any
      (Database.retracts kid') = true) : db.knowledge.rows.any (Database.retracts kid') = true := by
  have hwithdrawn : ∀ db' : Database,
      (db'.withdrawKnowledge kid now).knowledge.rows.any (Database.retracts kid') = true →
      db'.knowledge.rows.any (Database.retracts kid') = true := by
    intro db' hany
    refine any_retracts_of_updateWhere hany ?_
    intro k hret
    simp [Database.retracts] at hret
  unfold Database.withdrawSupport at h
  dsimp only at h
  split at h
  · split at h
    · exact any_retracts_of_updateWhere (hwithdrawn _ h) fun _ hret => hret
    · exact any_retracts_of_updateWhere (hwithdrawn _ h) fun _ hret => hret
  · exact any_retracts_of_updateWhere h fun _ hret => hret

/-- An item that falls below the floor later would have fallen at the start. -/
theorem dropsItem_of_withdrawSupport {kid' : KnowledgeId}
    (h : dropsItem (Database.withdrawSupport tenant episodeId now db kid) episodeId kid' = true) :
    dropsItem db episodeId kid' = true := by
  obtain ⟨hpublished, hfloor⟩ := Bool.and_eq_true_iff.mp h
  refine Bool.and_eq_true_iff.mpr ⟨any_retracts_of_withdrawSupport hpublished, ?_⟩
  have hsame : recount (deleteWhere
        (fun e => decide (e.knowledgeId = kid' ∧ e.episodeId = episodeId))
        (Database.withdrawSupport tenant episodeId now db kid).evidence) kid' =
      recount (deleteWhere (fun e => decide (e.knowledgeId = kid' ∧ e.episodeId = episodeId))
        db.evidence) kid' := by
    rw [(withdrawSupport_view tenant episodeId now db kid).1, deleteWhere_deleteWhere]
    apply recount_deleteWhere_congr
    rintro e _ rfl
    by_cases hepisode : e.episodeId = episodeId
    · simp [hepisode]
    · simp [hepisode]
  rw [← hsame]
  exact hfloor

/-- The chunk of an item is retired only with an item that falls below the floor. -/
theorem carrying_withdrawSupport (now : Time)
    (hkeep : ∀ c ∈ db.chunks.carrying tenant entity, dropsItem db episodeId kid = true →
      c.documentId ≠ "knowledge:" ++ toString kid) :
    (Database.withdrawSupport tenant episodeId now db kid).chunks.carrying tenant entity =
      db.chunks.carrying tenant entity := by
  unfold Database.withdrawSupport
  dsimp only
  split
  · rename_i hfloor
    split
    · rename_i hcount
      have hdrops : dropsItem db episodeId kid = true := by
        refine Bool.and_eq_true_iff.mpr ⟨?_, decide_eq_true hfloor⟩
        obtain ⟨k, hk⟩ := List.exists_mem_of_length_pos hcount
        obtain ⟨hmem, hret⟩ := List.mem_filter.mp hk
        have hcounted := List.any_eq_true.mpr ⟨k, hmem, hret⟩
        exact any_retracts_of_updateWhere hcounted fun _ hret => hret
      refine carrying_retire_of_forall_not rfl (fun _ => Option.some_ne_none _) ?_
      intro c hc hsel
      exact hkeep c hc hdrops hsel.2.1
    · rfl
  · rfl

theorem carrying_foldl_withdrawSupport {kids : List KnowledgeId}
    (hkeep : ∀ c ∈ db.chunks.carrying tenant entity, ∀ kid ∈ kids,
      dropsItem db episodeId kid = true → c.documentId ≠ "knowledge:" ++ toString kid) :
    (kids.foldl (Database.withdrawSupport tenant episodeId now) db).chunks.carrying tenant entity =
      db.chunks.carrying tenant entity := by
  induction kids generalizing db with
  | nil => rfl
  | cons kid kids ih =>
    have hone := carrying_withdrawSupport now
      fun c hc => hkeep c hc kid List.mem_cons_self
    rw [List.foldl_cons, ih]
    · exact hone
    · intro c hc kid' hkid' hdrops
      rw [hone] at hc
      exact hkeep c hc kid' (List.mem_cons_of_mem kid hkid') (dropsItem_of_withdrawSupport hdrops)

/-- A forget leaves the view of an entity it retires nothing of. -/
theorem carrying_forget {ref : ForgetRef}
    (hkeep : ∀ c ∈ db.chunks.carrying tenant entity, forgets db tenant ref c = false) :
    (db.forget now tenant ref).1.chunks.carrying tenant entity =
      db.chunks.carrying tenant entity := by
  cases ref with
  | chunk chunkId =>
    apply carrying_retireChunks
    intro c hc
    obtain ⟨_, htenant, hcur, _⟩ := mem_carrying.mp hc
    simpa [forgets, htenant, hcur] using hkeep c hc
  | episode episodeId =>
    have hretired : (db.retireChunks now fun c => decide (c.tenantId = tenant ∧
        c.provenance = episodeId)).1.chunks.carrying tenant entity =
          db.chunks.carrying tenant entity := by
      apply carrying_retireChunks
      intro c hc
      obtain ⟨_, htenant, hcur, _⟩ := mem_carrying.mp hc
      have hnot := hkeep c hc
      simp only [forgets, htenant, hcur, and_self, decide_true, Bool.true_and,
        Bool.or_eq_false_iff] at hnot
      simpa [htenant, hcur] using hnot.1
    unfold Database.forget
    dsimp only
    refine (carrying_foldl_withdrawSupport ?_).trans hretired
    intro c hc kid hkid hdrops hdoc
    have hc' : c ∈ db.chunks.carrying tenant entity := hretired ▸ hc
    obtain ⟨_, htenant, hcur, _⟩ := mem_carrying.mp hc'
    have hforgets : forgets db tenant (.episode episodeId) c = true := by
      simp only [forgets, htenant, hcur, and_self, decide_true, Bool.true_and]
      refine Bool.or_eq_true_iff.mpr (Or.inr (List.any_eq_true.mpr ⟨kid, hkid, ?_⟩))
      exact Bool.and_eq_true_iff.mpr ⟨hdrops, decide_eq_true hdoc⟩
    exact absurd hforgets (by simp [hkeep c hc'])

theorem actions_forget (db : Database) (now : Time) (tenant : TenantId) (ref : ForgetRef) :
    (db.forget now tenant ref).1.actions = db.actions := by
  cases ref with
  | chunk chunkId => rfl
  | episode episodeId =>
    refine Database.foldl_withdrawSupport_frame Database.actions ?_ _ _
    intro db kid
    unfold Database.withdrawSupport
    dsimp only
    split
    · split <;> rfl
    · rfl

/-! ### Changing tags and recording actions -/

theorem carrying_setEntityTags (hnew : entity ∉ tags)
    (hkeep : ∀ c ∈ db.chunks.carrying tenant entity, (c.ofDocument tenant source documentId &&
      decide (c.seq = seq ∧ c.validTo = none)) = false) :
    (db.setEntityTags tenant source documentId seq tags).1.chunks.carrying tenant entity =
      db.chunks.carrying tenant entity := by
  apply filter_updateWhere
  intro c hc hsel
  refine ⟨Bool.eq_false_iff.mpr fun hin => ?_, Bool.eq_false_iff.mpr fun hin => ?_⟩
  · rw [hkeep c (List.mem_filter.mpr ⟨hc, hin⟩)] at hsel
    cases hsel
  · exact hnew (memorySelects_iff.mp hin).2.2

/-- Where no row has its tags changed, the chunks are as before. -/
theorem rows_setEntityTags_of_zero
    (h : (db.setEntityTags tenant source documentId seq tags).2 = 0) :
    (db.setEntityTags tenant source documentId seq tags).1.chunks.rows = db.chunks.rows := by
  have hnone := List.filter_eq_nil_iff.mp (List.eq_nil_of_length_eq_zero h)
  refine (List.map_congr_left fun c hc => if_neg (hnone c hc)).trans ?_
  exact List.map_id _

/-- An action that is new adds itself and its chunk, and both carry its entities. -/
theorem recordAction_cases (db : Database) (now : Time) (episodeId : EpisodeId) (a : ActionWrite) :
    (db.recordAction now episodeId a).2 = false ∨
      (db.recordAction now episodeId a).1.chunks =
          db.chunks.insert now (actionChunk a episodeId) ∧
        ∃ row : ActionRow, row.write = a ∧
          (db.recordAction now episodeId a).1.actions = db.actions ++ [row] := by
  unfold Database.recordAction MemoryStore.recordAction
  dsimp only
  split
  · exact Or.inl rfl
  · exact Or.inr ⟨rfl, _, rfl, rfl⟩

theorem refreshResult_recordAction {a : ActionWrite}
    (hnew : (db.recordAction now episodeId a).2 = true) (hmark : entity ∉ a.entities)
    (h : db.RefreshResult tenant entity content) :
    (db.recordAction now episodeId a).1.RefreshResult tenant entity content := by
  rcases recordAction_cases db now episodeId a with hreplay | ⟨hchunks, row, rfl, hactions⟩
  · rw [hreplay] at hnew
    cases hnew
  · refine refreshResult_congr h ?_ ?_
    · rw [hchunks]
      exact carrying_insert hmark
    · have hsel : activitySelects tenant entity row = false := by
        simp [activitySelects, containedIn, hmark]
      unfold actionsOn
      rw [hactions, List.filter_append, List.filter_singleton, hsel]
      exact List.append_nil _

/-! ## Runs -/

theorem reliedOn_of_trusted (h : Trusted tenant s.briefs entity content)
    (hdue : ¬ MarkDue s entity) : ReliedOn tenant s entity := by
  obtain ⟨b, hb, htenant, hentity, hfresh, _⟩ := h
  exact ⟨⟨b, hb, htenant, hentity, hfresh⟩, hdue⟩

/-- The chunks of an entity that is relied on and not marked keep their place. -/
theorem displaces_eq_false {o : BriefStep}
    (h : ∀ c ∈ s.db.chunks.rows, displaces tenant s.db o c = true → ∀ entity ∈ c.entityTags,
      ReliedOn tenant s entity → entity ∈ markedEntities s.db o)
    (hrelied : ReliedOn tenant s entity) (hmark : entity ∉ markedEntities s.db o)
    (hc : c ∈ s.db.chunks.carrying tenant entity) : displaces tenant s.db o c = false := by
  obtain ⟨hrow, _, _, htag⟩ := mem_carrying.mp hc
  exact Bool.eq_false_iff.mpr fun hdisplaced => hmark (h c hrow hdisplaced entity htag hrelied)

/-- A transaction that marks some entities may change what a refresh of these computes, and of
those that nothing relies on. -/
theorem covered_write (entities : List String) (h : Covered tenant s)
    (hview : ∀ entity, ReliedOn tenant s entity → entity ∉ entities → ∀ content,
      s.db.RefreshResult tenant entity content → db.RefreshResult tenant entity content) :
    Covered tenant (s.write db tenant entities) := by
  refine TrustedOrDue.write h ?_ ?_ fun _ _ _ hdue => hdue
  · intro entity content htrusted
    exact (trusted_markStale.mp htrusted).1
  · intro entity content htrusted hdue
    obtain ⟨hold, hmark⟩ := trusted_markStale.mp htrusted
    exact Or.inr (hview entity (reliedOn_of_trusted hold hdue) hmark content)

/-- A change of tags leaves its mark due. -/
theorem covered_setEntityTags (h : Covered tenant s)
    (hkept : MarksKept tenant s (.setEntityTags source documentId seq tags)) :
    Covered tenant { s with
      db := (s.db.setEntityTags tenant source documentId seq tags).1
      retags := if (s.db.setEntityTags tenant source documentId seq tags).2 > 0 then
        s.retags ++ [tags] else s.retags } := by
  refine TrustedOrDue.write h (fun _ _ htrusted => htrusted) ?_ ?_
  · intro entity content htrusted hdue
    by_cases haffected : (s.db.setEntityTags tenant source documentId seq tags).2 > 0
    · by_cases htag : entity ∈ tags
      · refine Or.inl ⟨tags, ?_, htag⟩
        rw [if_pos haffected]
        exact List.mem_append_right _ List.mem_cons_self
      · refine Or.inr fun hresult => refreshResult_congr hresult ?_ rfl
        apply carrying_setEntityTags htag
        intro c hc
        exact displaces_eq_false hkept (reliedOn_of_trusted htrusted hdue) htag hc
    · refine Or.inr fun hresult => refreshResult_congr hresult ?_ rfl
      unfold ChunkTable.carrying
      rw [rows_setEntityTags_of_zero (Nat.eq_zero_of_not_pos haffected)]
  · rintro entity content _ ⟨tags', htags', htag⟩
    refine ⟨tags', ?_, htag⟩
    split
    · exact List.mem_append_left _ htags'
    · exact htags'

/-- A due mark is taken off the list once it is made. -/
theorem covered_markRetagged (h : Covered tenant s) :
    Covered tenant { s with
      briefs := s.briefs.markStale tenant tags
      retags := s.retags.erase tags } := by
  refine TrustedOrDue.write h ?_ (fun _ _ _ _ => Or.inr id) ?_
  · intro entity content htrusted
    exact (trusted_markStale.mp htrusted).1
  · rintro entity content htrusted ⟨tags', htags', htag⟩
    have hmark := (trusted_markStale.mp htrusted).2
    have hne : tags' ≠ tags := fun heq => hmark (heq ▸ htag)
    exact ⟨tags', (List.mem_erase_of_ne hne).mpr htags', htag⟩

theorem covered_storeBrief {refresh : BriefRefresh} {activity : List ActionRow}
    (h : Covered tenant s) (hactivity : refresh.activity = some activity)
    (hkept : MarksKept tenant s (.storeBrief now refresh)) :
    Covered tenant { s with
      briefs := s.briefs.store tenant refresh.entity (composeBrief refresh.memory activity) now
      refreshes := s.refreshes.erase refresh } := by
  refine TrustedOrDue.put h ?_ fun _ _ => trusted_store
  rcases hkept with ⟨hmemory, hstill⟩ | hdue
  · exact Or.inl ⟨refresh.memory, activity, hmemory, hstill activity hactivity, rfl⟩
  · exact Or.inr hdue

/-- One step. -/
theorem covered_step {s' : BriefState} {o : BriefStep} (h : Covered tenant s)
    (hkept : MarksKept tenant s o) (hstep : s.step tenant o = some s') : Covered tenant s' := by
  cases o with
  | readMemory _ _ | readActivity _ _ =>
    obtain ⟨_, hs'⟩ := Option.ite_none_right_eq_some.mp hstep
    cases hs'
    exact h
  | storeBrief now refresh =>
    unfold BriefState.step at hstep
    cases hactivity : refresh.activity with
    | none => simp [hactivity] at hstep
    | some activity =>
      simp only [hactivity] at hstep
      obtain ⟨_, hs'⟩ := Option.ite_none_right_eq_some.mp hstep
      cases hs'
      exact covered_storeBrief h hactivity hkept
  | upsertChunks now writes =>
    obtain ⟨_, hs'⟩ := Option.ite_none_right_eq_some.mp hstep
    cases hs'
    apply covered_write _ h
    intro entity hrelied hmark content hresult
    refine refreshResult_congr hresult ?_ rfl
    apply carrying_upsertChunks hmark
    intro c hc w hw
    have hnot := displaces_eq_false hkept hrelied hmark hc
    simpa using List.any_eq_false.mp hnot w hw
  | recordAction now episodeId a =>
    unfold BriefState.step at hstep
    obtain ⟨_, hs'⟩ := Option.ite_none_right_eq_some.mp hstep
    cases hresult : s.db.recordAction now episodeId a with
    | mk db recorded =>
      rw [hresult] at hs'
      cases recorded with
      | false =>
        cases hs'
        exact h
      | true =>
        cases hs'
        apply covered_write _ h
        intro entity _ hmark content hold
        have hnew := refreshResult_recordAction (congrArg Prod.snd hresult) hmark hold
        rw [hresult] at hnew
        exact hnew
  | retireDocument now source documentId =>
    cases hstep
    apply covered_write [] h
    intro entity hrelied hmark content hresult
    refine refreshResult_congr hresult (carrying_retireDocument ?_) rfl
    intro c hc
    exact displaces_eq_false hkept hrelied hmark hc
  | forget now ref =>
    cases hstep
    apply covered_write [] h
    intro entity hrelied hmark content hresult
    refine refreshResult_congr hresult (carrying_forget ?_) ?_
    · intro c hc
      exact displaces_eq_false hkept hrelied hmark hc
    · rw [actions_forget]
  | setEntityTags source documentId seq tags =>
    cases hstep
    exact covered_setEntityTags h hkept
  | markRetagged tags =>
    obtain ⟨_, hs'⟩ := Option.ite_none_right_eq_some.mp hstep
    cases hs'
    exact covered_markRetagged h

/-- In a run whose steps keep the marks, every brief that is not stale is what a refresh would
compute, once no call is in flight. -/
theorem trusted_briefs_fresh {db : Database} {tenant : TenantId} {steps : List BriefStep}
    {s : BriefState} (hkept : Along (BriefState.step tenant) (MarksKept tenant) (.start db) steps)
    (hrun : run (BriefState.step tenant) (.start db) steps = some s) (hquiet : s.Quiet) :
    BriefsFresh tenant s := by
  have hstart : Covered tenant (.start db) := by
    rintro entity content ⟨b, hb, _⟩
    cases hb
  have hcovered : Covered tenant s :=
    run_invariant (fun _ _ _ h hP hstep => covered_step h hP hstep) hstart hkept hrun
  intro b hb htenant hfresh
  refine hcovered.eq_result ?_ ⟨b, hb, htenant, rfl, hfresh, rfl⟩
  rintro entity ⟨tags, htags, _⟩
  rw [hquiet.2] at htags
  cases htags

/-! ## The two ways a mark is missing -/

theorem memoryCount_of_refreshResult (h : db.RefreshResult tenant entity content) :
    content.body.memoryCount = min 10 (db.chunks.carrying tenant entity).length := by
  obtain ⟨memory, activity, hmemory, _, rfl⟩ := h
  exact AnswersLimit.length hmemory

/-- Retiring a document takes its chunks out of the view of their entities. -/
theorem length_carrying_retireDocument_lt (now : Time) (hc : c ∈ db.chunks.carrying tenant entity)
    (hdoc : c.ofDocument tenant source documentId = true) :
    ((db.retireDocument now tenant source documentId).1.chunks.carrying tenant entity).length <
      (db.chunks.carrying tenant entity).length := by
  have hretired : (db.retireDocument now tenant source documentId).1.chunks.carrying tenant entity =
      (db.chunks.carrying tenant entity).filter fun c => decide ¬ (c.ofDocument tenant source
        documentId && decide (c.validTo = none)) = true :=
    carrying_retire rfl fun _ => Option.some_ne_none _
  rw [hretired, List.length_filter_lt_length_iff_exists]
  refine ⟨c, hc, ?_⟩
  simp [hdoc, (mem_carrying.mp hc).2.2.1]

/-- A document is retired without a mark: where an entity of one of its chunks has at most ten
current chunks, a brief of the entity that was up to date is out of date, and still trusted. -/
theorem retireDocument_leaves_trusted {b : BriefRow} (now : Time) (hb : b ∈ s.briefs.rows)
    (htenant : b.tenantId = tenant) (hfresh : b.isStale = false)
    (hresult : s.db.RefreshResult tenant b.entity b.content)
    (hc : c ∈ s.db.chunks.carrying tenant b.entity)
    (hdoc : c.ofDocument tenant source documentId = true)
    (hfew : (s.db.chunks.carrying tenant b.entity).length ≤ 10) :
    ∃ s', s.step tenant (.retireDocument now source documentId) = some s' ∧
      ¬ BriefsFresh tenant s' := by
  refine ⟨_, rfl, fun hall => ?_⟩
  have hbefore := memoryCount_of_refreshResult hresult
  have hafter := memoryCount_of_refreshResult (hall b hb htenant hfresh)
  have hlt := length_carrying_retireDocument_lt now hc hdoc
  rw [hbefore, min_eq_right hfew, min_eq_right (hlt.le.trans hfew)] at hafter
  exact hlt.ne hafter.symm

/-- A chunk of the entity "acme". -/
def planChunk (documentId content : String) (validFrom : Time) : ChunkWrite where
  tenantId := 1
  source := "crm"
  documentId := documentId
  seq := 0
  content := content
  visibility := [7]
  entityTags := ["acme"]
  confidentiality := .internal
  trustTier := .authoritative
  validFrom := validFrom
  provenance := 1
  aclProvenance := .mirrored
  derivedFrom := []

/-- The row of the first write to the tables of a test. -/
def planRow : Chunk := ChunkTable.rowOf Database.empty.chunks 10 (planChunk "plan" "basic" 10)

/-- A refresh that has read the first chunk and no action. -/
def planRefresh : BriefRefresh := ⟨"acme", [planRow], some []⟩

def planSteps : List BriefStep :=
  [.upsertChunks 10 [planChunk "plan" "basic" 10],
    .readMemory "acme" [planRow],
    .readActivity ⟨"acme", [planRow], none⟩ []]

/-- A refresh that nothing interrupts. -/
theorem trusted_briefs_fresh_uninterrupted :
    ∃ s, run (BriefState.step 1) (.start Database.empty)
        (planSteps ++ [.storeBrief 20 planRefresh]) = some s ∧
      s.briefs.rows.map BriefRow.isStale = [false] ∧ BriefsFresh 1 s := by
  have hview : (run (BriefState.step 1) (.start Database.empty)
      (planSteps ++ [.storeBrief 20 planRefresh])).map (fun s =>
        (s.briefs.rows.map BriefRow.isStale, s.refreshes, s.retags)) =
      some ([false], [], []) := by decide +kernel
  obtain ⟨s, hrun, hs⟩ := Option.map_eq_some_iff.mp hview
  have hstale := congrArg Prod.fst hs
  have hcalls := congrArg Prod.snd hs
  refine ⟨s, hrun, hstale, trusted_briefs_fresh (by decide +kernel) hrun ?_⟩
  exact ⟨congrArg Prod.fst hcalls, congrArg Prod.snd hcalls⟩

/-- The new version of the chunk is written between the reads of the refresh and its store. The
brief is stored as fresh, with the old version. -/
theorem lost_mark_leaves_trusted :
    ¬ ∀ (db : Database) (tenant : TenantId) (steps : List BriefStep) (s : BriefState),
      run (BriefState.step tenant) (.start db) steps = some s → s.Quiet →
        BriefsFresh tenant s := by
  intro hclaim
  have hview : (run (BriefState.step 1) (.start Database.empty) (planSteps ++
      [.upsertChunks 20 [planChunk "plan" "pro" 20], .storeBrief 30 planRefresh])).map (fun s =>
        (decide s.Quiet, decide (BriefsFresh 1 s))) = some (true, false) := by decide +kernel
  obtain ⟨s, hrun, hs⟩ := Option.map_eq_some_iff.mp hview
  have hquiet := of_decide_eq_true (congrArg Prod.fst hs)
  have hstale := of_decide_eq_false (congrArg Prod.snd hs)
  exact hstale (hclaim _ _ _ s hrun hquiet)

end Verity.Analysis
