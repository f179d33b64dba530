import Verity.Analysis.ErasureExport

/-!
# When an erasure is refused

Every `DELETE` of the walk can meet a reference from a row that stays, and the transaction is then
rolled back. Whether one does can be told from the tables before the walk: what the walk unlinks
and withdraws on its way is of the tenant, and what it updates keeps its references.
-/

set_option autoImplicit false

namespace Verity.Analysis

open Verity.Foundation
open Verity.Model
open Verity.Model.Database

variable {db : Database} {tenant : TenantId} {t : ErasureTarget}

/-- What an erasure deletes is referred to by nothing that stays. -/
structure Erasable (db : Database) (t : ErasureTarget) : Prop where
  chunks : ∀ c ∈ db.chunks.rows, t.ownsChunk (db.erasedEpisodes t) c = true →
    c.id ∉ db.heldChunks
  facts : ∀ r ∈ db.facts.rows, t.ownsFact (db.erasedEpisodes t) r = true →
    r.id ∉ db.heldFacts ∧ ∀ r' ∈ db.facts.rows, r'.supersededBy = some r.id →
      r'.tenantId = t.tenant
  episodes : ∀ e ∈ db.episodes, e.tenantId = t.tenant → e.id ∈ db.erasedEpisodes t →
    e.id ∉ db.heldEpisodes ∧
    (∀ c ∈ db.chunks.rows, c.provenance = e.id → c.tenantId = t.tenant) ∧
    (∀ r ∈ db.facts.rows, r.provenance = e.id → r.tenantId = t.tenant) ∧
    (∀ a ∈ db.actions, a.provenance = e.id → t.ownsAction a = true) ∧
    ∀ row ∈ db.evidence, row.episodeId = e.id → ownsKnowledge db t.tenant row.knowledgeId = true

instance decidableErasable (db : Database) (t : ErasureTarget) : Decidable (Erasable db t) :=
  decidable_of_iff
    ((∀ c ∈ db.chunks.rows, t.ownsChunk (db.erasedEpisodes t) c = true →
      c.id ∉ db.heldChunks) ∧
    (∀ r ∈ db.facts.rows, t.ownsFact (db.erasedEpisodes t) r = true →
      r.id ∉ db.heldFacts ∧ ∀ r' ∈ db.facts.rows, r'.supersededBy = some r.id →
        r'.tenantId = t.tenant) ∧
    ∀ e ∈ db.episodes, e.tenantId = t.tenant ∧ e.id ∈ db.erasedEpisodes t →
      e.id ∉ db.heldEpisodes ∧
      (∀ c ∈ db.chunks.rows, c.provenance = e.id → c.tenantId = t.tenant) ∧
      (∀ r ∈ db.facts.rows, r.provenance = e.id → r.tenantId = t.tenant) ∧
      (∀ a ∈ db.actions, a.provenance = e.id → t.ownsAction a = true) ∧
      ∀ row ∈ db.evidence, row.episodeId = e.id →
        ownsKnowledge db t.tenant row.knowledgeId = true)
    ⟨fun ⟨hchunks, hfacts, hepisodes⟩ =>
        ⟨hchunks, hfacts, fun e he htenant herased => hepisodes e he ⟨htenant, herased⟩⟩,
      fun h => ⟨h.chunks, h.facts, fun e he howned => h.episodes e he howned.1 howned.2⟩⟩

/-! ## One deletion -/

theorem deleteChunks_ok_iff {p : Chunk → Bool} :
    (∃ db', db.deleteChunks p = .ok db') ↔
      ∀ c ∈ db.chunks.rows, p c = true → c.id ∉ db.heldChunks := by
  unfold Database.deleteChunks
  split
  · rename_i hheld
    obtain ⟨c, hc, hboth⟩ := List.any_eq_true.mp hheld
    obtain ⟨hp, hcontains⟩ := Bool.and_eq_true_iff.mp hboth
    refine iff_of_false (by simp) fun h => ?_
    exact h c hc hp (List.contains_iff_mem.mp hcontains)
  · rename_i hfree
    refine iff_of_true ⟨_, rfl⟩ fun c hc hp hheld => hfree ?_
    exact List.any_eq_true.mpr
      ⟨c, hc, Bool.and_eq_true_iff.mpr ⟨hp, List.contains_iff_mem.mpr hheld⟩⟩

/-- When the foreign keys let the facts go. -/
theorem deleteFacts_ok_iff {p : FactRow → Bool} :
    (∃ db', db.deleteFacts p = .ok db') ↔
      ∀ r ∈ db.facts.rows, p r = true → r.id ∉ db.heldFacts ∧
        ∀ r' ∈ db.facts.rows, p r' = false → r'.supersededBy ≠ some r.id := by
  unfold Database.deleteFacts
  dsimp only
  split
  · rename_i hreferred
    obtain ⟨id, hid, href⟩ := List.any_eq_true.mp hreferred
    obtain ⟨r, hr, rfl⟩ := List.mem_map.mp hid
    obtain ⟨hr, hp⟩ := List.mem_filter.mp hr
    refine iff_of_false (by simp) fun h => ?_
    obtain ⟨hfree, hlinks⟩ := h r hr hp
    rcases Bool.or_eq_true_iff.mp href with hheld | hlinked
    · exact hfree (List.contains_iff_mem.mp hheld)
    · obtain ⟨r', hr', hpoints⟩ := List.any_eq_true.mp hlinked
      obtain ⟨hr', hkept⟩ := mem_deleteWhere.mp hr'
      exact hlinks r' hr' hkept (of_decide_eq_true hpoints)
  · rename_i hfree
    refine iff_of_true ⟨_, rfl⟩ fun r hr hp => ?_
    have hdoomed : r.id ∈ (db.facts.rows.filter p).map FactRow.id :=
      List.mem_map_of_mem (List.mem_filter.mpr ⟨hr, hp⟩)
    constructor
    · intro hheld
      refine hfree (List.any_eq_true.mpr ⟨r.id, hdoomed, Bool.or_eq_true_iff.mpr ?_⟩)
      exact Or.inl (List.contains_iff_mem.mpr hheld)
    · intro r' hr' hkept hpoints
      refine hfree (List.any_eq_true.mpr ⟨r.id, hdoomed, Bool.or_eq_true_iff.mpr ?_⟩)
      exact Or.inr (List.any_eq_true.mpr
        ⟨r', mem_deleteWhere.mpr ⟨hr', hkept⟩, decide_eq_true hpoints⟩)

/-- The references to episodes, but for those of the evidence. -/
def references (db : Database) : List EpisodeId :=
  db.heldEpisodes ++ db.chunks.rows.map Chunk.provenance ++
    db.facts.rows.map FactRow.provenance ++ db.actions.map ActionRow.provenance

theorem refersToEpisode_eq_false {id : EpisodeId} :
    db.refersToEpisode id = false ↔
      id ∉ references db ∧ ∀ row ∈ db.evidence, row.episodeId ≠ id := by
  unfold refersToEpisode references
  simp only [Bool.or_eq_false_iff, List.any_eq_false, decide_eq_true_eq, List.mem_append,
    List.mem_map, not_or, not_exists, not_and, ne_eq, ← Bool.not_eq_true (List.contains _ _),
    List.contains_iff_mem]

theorem deleteEpisodes_ok_iff {p : Episode → Bool} :
    (∃ db', db.deleteEpisodes p = .ok db') ↔
      ∀ e ∈ db.episodes, p e = true → db.refersToEpisode e.id = false := by
  unfold Database.deleteEpisodes
  split
  · rename_i hreferred
    obtain ⟨e, he, hboth⟩ := List.any_eq_true.mp hreferred
    obtain ⟨hp, href⟩ := Bool.and_eq_true_iff.mp hboth
    refine iff_of_false (by simp) fun h => ?_
    exact Bool.false_ne_true ((h e he hp).symm.trans href)
  · rename_i hfree
    refine iff_of_true ⟨_, rfl⟩ fun e he hp => ?_
    rw [← Bool.not_eq_true]
    intro href
    exact hfree (List.any_eq_true.mpr ⟨e, he, Bool.and_eq_true_iff.mpr ⟨hp, href⟩⟩)

/-! ## The walk -/

/-- A column that the recount of one item leaves alone is left alone by that of all. -/
theorem foldl_recountSupport_frame {β : Type} (column : Database → β) {now : Time}
    (h : ∀ acc kid, column (recountSupport tenant now acc kid).1 = column acc.1)
    (kids : List KnowledgeId) (acc : Database × Nat) :
    column (kids.foldl (recountSupport tenant now) acc).1 = column acc.1 := by
  induction kids generalizing acc with
  | nil => rfl
  | cons kid kids ih => rw [List.foldl_cons, ih, h]

theorem references_recountSupport (tenant : TenantId) (now : Time) (acc : Database × Nat)
    (kid : KnowledgeId) : references (recountSupport tenant now acc kid).1 = references acc.1 := by
  have hretired : ∀ db : Database,
      references (db.retireKnowledgeChunk tenant kid now) = references db := by
    intro db
    unfold references retireKnowledgeChunk ChunkTable.update
    dsimp only
    rw [List.map_map]
    have hsame : (Chunk.provenance ∘ fun c : Chunk =>
        if c.tenantId = tenant ∧ c.documentId = "knowledge:" ++ toString kid ∧ c.validTo = none then
          { c with validTo := some now }
        else c) = Chunk.provenance := by
      funext c
      rw [Function.comp_apply]
      split
      · rfl
      · rfl
    rw [hsame]
  unfold recountSupport
  dsimp only
  split
  · dsimp only
    split
    · exact hretired _
    · rfl
  · rfl

theorem evidence_recountSupport (tenant : TenantId) (now : Time) (acc : Database × Nat)
    (kid : KnowledgeId) : (recountSupport tenant now acc kid).1.evidence = acc.1.evidence := by
  unfold recountSupport
  dsimp only
  split
  · dsimp only
    split
    · rfl
    · rfl
  · rfl

/-- Whether a row of the tenant points at a fact that goes. -/
def pointsAtErased (db : Database) (t : ErasureTarget) (ids : List EpisodeId) (r : FactRow) :
    Bool :=
  decide (r.tenantId = t.tenant) && r.supersededBy.any fun id =>
    ((db.facts.rows.filter (t.ownsFact ids)).map FactRow.id).contains id

/-- A row as the unlinking leaves it. -/
def unlinkedFact (db : Database) (t : ErasureTarget) (ids : List EpisodeId) (r : FactRow) :
    FactRow :=
  if pointsAtErased db t ids r then { r with supersededBy := none } else r

theorem facts_unlinkFacts (db : Database) (t : ErasureTarget) (ids : List EpisodeId) :
    (db.unlinkFacts t.tenant (t.ownsFact ids)).facts.rows =
      db.facts.rows.map (unlinkedFact db t ids) := rfl

theorem unlinkedFact_same (db : Database) (t : ErasureTarget) (ids : List EpisodeId) (r : FactRow) :
    (unlinkedFact db t ids r).id = r.id ∧ (unlinkedFact db t ids r).provenance = r.provenance ∧
      t.ownsFact ids (unlinkedFact db t ids r) = t.ownsFact ids r := by
  unfold unlinkedFact
  split
  · exact ⟨rfl, rfl, rfl⟩
  · exact ⟨rfl, rfl, rfl⟩

/-- After the unlinking, only rows of other tenants still point at facts that go. -/
theorem unlinked_ok_iff {ids : List EpisodeId} :
    (∃ db', (db.unlinkFacts t.tenant (t.ownsFact ids)).deleteFacts (t.ownsFact ids) = .ok db') ↔
      ∀ r ∈ db.facts.rows, t.ownsFact ids r = true → r.id ∉ db.heldFacts ∧
        ∀ r' ∈ db.facts.rows, r'.supersededBy = some r.id → r'.tenantId = t.tenant := by
  have hheld : (db.unlinkFacts t.tenant (t.ownsFact ids)).heldFacts = db.heldFacts := rfl
  rw [deleteFacts_ok_iff, facts_unlinkFacts, hheld, List.forall_mem_map]
  refine forall₂_congr fun r hr => ?_
  obtain ⟨hid, -, howns⟩ := unlinkedFact_same db t ids r
  rw [hid, howns]
  refine imp_congr_right fun hown => and_congr_right fun _ => ?_
  rw [List.forall_mem_map]
  refine forall₂_congr fun r' hr' => ?_
  rw [(unlinkedFact_same db t ids r').2.2]
  unfold unlinkedFact
  by_cases hp : pointsAtErased db t ids r' = true
  · rw [if_pos hp]
    have htenant : r'.tenantId = t.tenant :=
      of_decide_eq_true (Bool.and_eq_true_iff.mp hp).1
    exact iff_of_true (fun _ hpoints => nomatch hpoints) fun _ => htenant
  · rw [if_neg hp]
    constructor
    · intro h hpoints
      by_contra hother
      refine h ?_ hpoints
      unfold ErasureTarget.ownsFact
      rw [decide_eq_false hother, Bool.false_and]
    · intro h _ hpoints
      refine hp (Bool.and_eq_true_iff.mpr ⟨decide_eq_true (h hpoints), ?_⟩)
      rw [hpoints, Option.any_some, List.contains_iff_mem]
      exact List.mem_map_of_mem (List.mem_filter.mpr ⟨hr, hown⟩)

/-- No row that is left refers to an id if those that do are deleted. -/
theorem notMem_map_deleteWhere {α : Type} {p : α → Bool} {ref : α → EpisodeId} {rows : List α}
    {id : EpisodeId} : id ∉ (deleteWhere p rows).map ref ↔ ∀ r ∈ rows, ref r = id → p r = true := by
  rw [List.mem_map]
  constructor
  · intro h r hr hid
    by_contra hkept
    exact h ⟨r, mem_deleteWhere.mpr ⟨hr, Bool.eq_false_iff.mpr hkept⟩, hid⟩
  · rintro h ⟨r, hr, hid⟩
    obtain ⟨hr, hkept⟩ := mem_deleteWhere.mp hr
    exact Bool.false_ne_true (hkept.symm.trans (h r hr hid))

/-- A condition of the walk that asks for the tenant and holds of every row from its episodes. -/
theorem and_or_eq_true_iff {tenant' : TenantId} {first second : Bool} (h : first = true) :
    (decide (tenant = tenant') && (first || second)) = true ↔ tenant = tenant' := by
  rw [h, Bool.true_or, Bool.and_true, decide_eq_true_eq]

/-- The evidence of an episode of the walk is withdrawn if its item is one of the tenant. -/
theorem withdraws_affected_iff {ids : List EpisodeId} {row : KnowledgeEvidence}
    (hrow : row ∈ db.evidence) (hid : row.episodeId ∈ ids) :
    withdraws (db.affectedKnowledge tenant ids) ids row = true ↔
      ownsKnowledge db tenant row.knowledgeId = true := by
  have hcontains : ids.contains row.episodeId = true := List.contains_iff_mem.mpr hid
  unfold withdraws
  rw [hcontains, Bool.and_true, List.contains_iff_mem]
  constructor
  · exact ownsKnowledge_of_affected
  · intro howns
    unfold affectedKnowledge
    rw [mem_sortedIds, List.mem_map]
    exact ⟨row, List.mem_filter.mpr ⟨hrow, Bool.and_eq_true_iff.mpr ⟨hcontains, howns⟩⟩, rfl⟩

/-- The tables after the deletions of actions, chunks and facts. -/
structure DataDeleted (t : ErasureTarget) (db db' : Database) : Prop where
  heldEpisodes : db'.heldEpisodes = db.heldEpisodes
  episodes : db'.episodes = db.episodes
  knowledge : db'.knowledge = db.knowledge
  evidence : db'.evidence = db.evidence
  chunks : db'.chunks.rows = deleteWhere (t.ownsChunk (db.erasedEpisodes t)) db.chunks.rows
  facts : db'.facts.rows = deleteWhere (t.ownsFact (db.erasedEpisodes t))
    (db.facts.rows.map (unlinkedFact db t (db.erasedEpisodes t)))
  actions : db'.actions = deleteWhere t.ownsAction db.actions

theorem DataDeleted.of_ok {db₁ db₂ : Database}
    (hchunks : deleteChunks { db with actions := deleteWhere t.ownsAction db.actions }
      (t.ownsChunk (db.erasedEpisodes t)) = .ok db₁)
    (hfacts : (db₁.unlinkFacts t.tenant (t.ownsFact (db.erasedEpisodes t))).deleteFacts
      (t.ownsFact (db.erasedEpisodes t)) = .ok db₂) : DataDeleted t db db₂ := by
  obtain rfl := deleteChunks_eq_ok hchunks
  obtain rfl := deleteFacts_eq_ok hfacts
  exact ⟨rfl, rfl, rfl, rfl, rfl, rfl, rfl⟩

theorem DataDeleted.affectedKnowledge {db' : Database} (h : DataDeleted t db db')
    (ids : List EpisodeId) :
    db'.affectedKnowledge t.tenant ids = db.affectedKnowledge t.tenant ids := by
  unfold Database.affectedKnowledge
  rw [h.evidence, h.knowledge]

/-- The last deletion of the walk, after the others. -/
theorem DataDeleted.deleteEpisodes_ok_iff {db₂ : Database} (h : DataDeleted t db db₂)
    (ilike : String → String → Bool) (now : Time) :
    (∃ db', ((db₂.withdrawEvidence t.tenant (db.erasedEpisodes t) now).1.deleteSideTables t
        ilike).deleteEpisodes (fun e => decide (e.tenantId = t.tenant) &&
          (db.erasedEpisodes t).contains e.id) = .ok db') ↔
      ∀ e ∈ db.episodes, e.tenantId = t.tenant → e.id ∈ db.erasedEpisodes t →
        e.id ∉ db.heldEpisodes ∧
        (∀ c ∈ db.chunks.rows, c.provenance = e.id → c.tenantId = t.tenant) ∧
        (∀ r ∈ db.facts.rows, r.provenance = e.id → r.tenantId = t.tenant) ∧
        (∀ a ∈ db.actions, a.provenance = e.id → t.ownsAction a = true) ∧
        ∀ row ∈ db.evidence, row.episodeId = e.id →
          ownsKnowledge db t.tenant row.knowledgeId = true := by
  have hreferences : references ((db₂.withdrawEvidence t.tenant (db.erasedEpisodes t)
      now).1.deleteSideTables t ilike) = references db₂ :=
    foldl_recountSupport_frame references (references_recountSupport t.tenant now) _ _
  have hwithdrawn : ((db₂.withdrawEvidence t.tenant (db.erasedEpisodes t)
      now).1.deleteSideTables t ilike).evidence = deleteWhere
        (withdraws (db₂.affectedKnowledge t.tenant (db.erasedEpisodes t)) (db.erasedEpisodes t))
        db₂.evidence :=
    foldl_recountSupport_frame Database.evidence (evidence_recountSupport t.tenant now) _ _
  have hsame : ((db₂.withdrawEvidence t.tenant (db.erasedEpisodes t)
      now).1.deleteSideTables t ilike).episodes = db₂.episodes :=
    (withdrawEvidence_changes db₂ t.tenant (db.erasedEpisodes t) now).episodes
  rw [Analysis.deleteEpisodes_ok_iff, hsame, h.episodes]
  refine forall₂_congr fun e _ => ?_
  rw [Bool.and_eq_true_iff, decide_eq_true_eq, and_imp, List.contains_iff_mem]
  refine imp_congr_right fun _ => imp_congr_right fun hid => ?_
  rw [refersToEpisode_eq_false, hreferences, hwithdrawn, h.affectedKnowledge,
    h.evidence]
  unfold references
  rw [h.heldEpisodes, h.chunks, h.facts, h.actions, List.mem_append, List.mem_append,
    List.mem_append, not_or, not_or, not_or, notMem_map_deleteWhere, notMem_map_deleteWhere,
    notMem_map_deleteWhere,
    List.forall_mem_map, and_assoc, and_assoc, and_assoc]
  have hcontains : ∀ id, id = e.id → (db.erasedEpisodes t).contains id = true :=
    fun id heq => List.contains_iff_mem.mpr (heq ▸ hid)
  refine and_congr_right fun _ => and_congr ?_ (and_congr ?_ (and_congr_right fun _ => ?_))
  · exact forall₂_congr fun c _ => imp_congr_right fun hown =>
      and_or_eq_true_iff (hcontains _ hown)
  · refine forall₂_congr fun r _ => ?_
    obtain ⟨-, hprovenance, howns⟩ := unlinkedFact_same db t (db.erasedEpisodes t) r
    rw [hprovenance, howns]
    exact imp_congr_right fun hown => and_or_eq_true_iff (hcontains _ hown)
  · have hview : e.id ∉ (deleteWhere (withdraws (db.affectedKnowledge t.tenant
        (db.erasedEpisodes t)) (db.erasedEpisodes t)) db.evidence).map
          KnowledgeEvidence.episodeId ↔ _ := notMem_map_deleteWhere
    rw [List.mem_map] at hview
    push Not at hview
    refine hview.trans (forall₂_congr fun row hrow => imp_congr_right fun hown => ?_)
    exact withdraws_affected_iff hrow (hown ▸ hid)

/-- Whether a walk goes through can be told from the tables before it. -/
theorem walkLineage_ok_iff (ilike : String → String → Bool) (now : Time) (db : Database)
    (t : ErasureTarget) : (∃ result, db.walkLineage ilike now t = .ok result) ↔ Erasable db t := by
  unfold Database.walkLineage
  dsimp only
  constructor
  · rintro ⟨result, hok⟩
    obtain ⟨db₁, hchunks, hok⟩ := exists_of_bind_eq_ok hok
    obtain ⟨db₂, hfacts, hok⟩ := exists_of_bind_eq_ok hok
    obtain ⟨db₃, hepisodes, -⟩ := exists_of_bind_eq_ok hok
    have hdeleted := DataDeleted.of_ok hchunks hfacts
    have hfree := deleteChunks_ok_iff.mp ⟨db₁, hchunks⟩
    have hlinks := unlinked_ok_iff.mp ⟨db₂, hfacts⟩
    obtain rfl := deleteChunks_eq_ok hchunks
    exact ⟨hfree, hlinks, (hdeleted.deleteEpisodes_ok_iff ilike now).mp ⟨db₃, hepisodes⟩⟩
  · rintro ⟨hfree, hlinks, hreferred⟩
    obtain ⟨db₁, hchunks⟩ : ∃ db₁, deleteChunks { db with
        actions := deleteWhere t.ownsAction db.actions } (t.ownsChunk (db.erasedEpisodes t)) =
          .ok db₁ := deleteChunks_ok_iff.mpr hfree
    have hlinks₁ : ∃ db₂, (db₁.unlinkFacts t.tenant (t.ownsFact (db.erasedEpisodes t))).deleteFacts
        (t.ownsFact (db.erasedEpisodes t)) = .ok db₂ := by
      rw [unlinked_ok_iff, deleteChunks_eq_ok hchunks]
      exact hlinks
    obtain ⟨db₂, hfacts⟩ := hlinks₁
    obtain ⟨db₃, hepisodes⟩ :=
      ((DataDeleted.of_ok hchunks hfacts).deleteEpisodes_ok_iff ilike now).mpr hreferred
    rw [hchunks]
    dsimp only [bind, Except.bind]
    rw [hfacts]
    dsimp only
    rw [hepisodes]
    exact ⟨_, rfl⟩

theorem erase_ok_iff (ilike : String → String → Bool) (sha256Hex : String → String) (now : Time)
    (db : Database) (t : ErasureTarget) :
    (∃ result, erase ilike sha256Hex now db t = .ok result) ↔
      t.named = true ∧ Erasable db t := by
  rw [← walkLineage_ok_iff ilike now]
  constructor
  · rintro ⟨result, hok⟩
    obtain ⟨hnamed, db₁, row, hwalk, -⟩ := erase_eq_ok hok
    exact ⟨hnamed, _, hwalk⟩
  · rintro ⟨hnamed, result, hwalk⟩
    unfold erase
    rw [hnamed, Bool.not_true, if_neg Bool.false_ne_true, hwalk]
    exact ⟨_, rfl⟩

end Verity.Analysis
