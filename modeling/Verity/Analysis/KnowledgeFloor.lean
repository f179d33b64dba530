import Verity.Analysis.ErasureExport
import Verity.Analysis.KnowledgeSupport
import Verity.Foundation.Decimal
import Verity.Model.KnowledgeCuration

/-!
# The support floor of served knowledge

A served chunk lives in another table than the status of its item, and the gate of a publish reads
a stored counter, not the evidence. What keeps the three together is `Floor`: the counters of
entities are those of the evidence, a served chunk is that of a published item with three or more
of them, and no two served chunks are of one item.

An operation is seen through three views of the tables: the items with status and counter, the
evidence, and the served chunks. Retractions recount one item after another, so in between `Floor`
leaves out the counters of the items whose turn is still to come.
-/

set_option autoImplicit false

namespace Verity.Analysis

open Verity.Foundation
open Verity.Model
open Verity.Model.Database

/-! ## The views -/

/-- An item as far as serving goes. -/
structure ServingItem where
  id : KnowledgeId
  tenantId : TenantId
  status : KnowledgeStatus
  distinctEntities : Nat

variable {pending : List KnowledgeId} {items : List ServingItem} {evidence : List KnowledgeEvidence}
  {served : List (TenantId × String)} {x : ServingItem} {evidence' : List KnowledgeEvidence}
  {kid : KnowledgeId} {db db' : Database} {tenant : TenantId} {kids : List KnowledgeId} {now : Time}

def servingItem (k : KnowledgeRow) : ServingItem :=
  ⟨k.id, k.tenantId, k.status, k.distinctEntities⟩

def servingItems (db : Database) : List ServingItem := db.knowledge.rows.map servingItem

/-- A chunk that recall may serve as knowledge. -/
def isServed (c : Chunk) : Bool := decide (c.kind = "knowledge" ∧ c.validTo = none)

/-- The document of an item's chunk. -/
def knowledgeDocument (id : KnowledgeId) : String := "knowledge:" ++ toString id

/-- The served chunks, as the tenants and documents they belong to. -/
def servedDocuments (db : Database) : List (TenantId × String) :=
  (db.chunks.rows.filter isServed).map fun c => (c.tenantId, c.documentId)

/-- The distinct entities that the evidence of an item names. -/
def namedEntities (evidence : List KnowledgeEvidence) (id : KnowledgeId) : Nat :=
  (recount evidence id).distinctEntities

/-- Counters, statuses and served chunks are aligned, but for the counters of the items that are
still to be recounted. -/
structure Floor (pending : List KnowledgeId) (items : List ServingItem)
    (evidence : List KnowledgeEvidence) (served : List (TenantId × String)) : Prop where
  ids_nodup : (items.map ServingItem.id).Nodup
  counted : ∀ x ∈ items, x.id ∉ pending → x.distinctEntities = namedEntities evidence x.id
  published : ∀ d ∈ served, ∃ x ∈ items, d = (x.tenantId, knowledgeDocument x.id) ∧
    x.status = .published ∧ 3 ≤ x.distinctEntities
  single : served.Nodup

theorem knowledgeDocument_injective : Function.Injective knowledgeDocument :=
  label_toString_injective "knowledge:"

/-- Items are identified by their id. -/
theorem Floor.item_eq (h : Floor pending items evidence served) {y : ServingItem} (hx : x ∈ items)
    (hy : y ∈ items) (hid : x.id = y.id) : x = y :=
  List.inj_on_of_nodup_map h.ids_nodup hx hy hid

/-- An item that is not published has no served chunk. -/
theorem Floor.not_served (h : Floor pending items evidence served) (hx : x ∈ items)
    (hstatus : x.status ≠ .published) (tenant : TenantId) :
    (tenant, knowledgeDocument x.id) ∉ served := by
  intro hmem
  obtain ⟨y, hy, heq, hpublished, -⟩ := h.published _ hmem
  have hid : x.id = y.id := knowledgeDocument_injective (Prod.mk.inj heq).2
  have hxy := h.item_eq hx hy hid
  subst hxy
  exact hstatus hpublished

/-- Serving less keeps the floor. -/
theorem Floor.sublist {served' : List (TenantId × String)} (h : Floor pending items evidence served)
    (hsub : served'.Sublist served) : Floor pending items evidence served' where
  ids_nodup := h.ids_nodup
  counted := h.counted
  published := fun d hd => h.published d (hsub.subset hd)
  single := h.single.sublist hsub

/-- Evidence of items that are still to be recounted may change. -/
theorem Floor.pend {pending' : List KnowledgeId} (h : Floor pending items evidence served)
    (hsub : pending ⊆ pending')
    (hevidence : ∀ id, id ∉ pending' → namedEntities evidence' id = namedEntities evidence id) :
    Floor pending' items evidence' served where
  ids_nodup := h.ids_nodup
  counted := by
    intro x hx hnot
    rw [hevidence x.id hnot]
    exact h.counted x hx fun hmem => hnot (hsub hmem)
  published := h.published
  single := h.single

/-- A change of items that keeps ids and tenants, brings no counter out of line and takes no
published item with a served chunk below the floor. -/
theorem Floor.change {served' : List (TenantId × String)} (h : Floor pending items evidence served)
    {pending' : List KnowledgeId} (f : ServingItem → ServingItem)
    (hid : ∀ x, (f x).id = x.id ∧ (f x).tenantId = x.tenantId)
    (hcounted : ∀ x ∈ items, x.id ∉ pending' →
      (f x).distinctEntities = namedEntities evidence' x.id)
    (hpublished : ∀ x ∈ items, (x.tenantId, knowledgeDocument x.id) ∈ served' →
      x.status = .published → 3 ≤ x.distinctEntities →
      (f x).status = .published ∧ 3 ≤ (f x).distinctEntities) (hsub : served'.Sublist served) :
    Floor pending' (items.map f) evidence' served' where
  ids_nodup := by
    rw [List.map_map]
    have hsame : (ServingItem.id ∘ f) = ServingItem.id := funext fun x => (hid x).1
    rw [hsame]
    exact h.ids_nodup
  counted := by
    intro y hy hnot
    obtain ⟨x, hx, rfl⟩ := List.mem_map.mp hy
    rw [(hid x).1] at hnot ⊢
    exact hcounted x hx hnot
  published := by
    intro d hd
    obtain ⟨x, hx, rfl, hstatus, hthree⟩ := h.published d (hsub.subset hd)
    refine ⟨f x, List.mem_map_of_mem hx, ?_, hpublished x hx hd hstatus hthree⟩
    rw [(hid x).1, (hid x).2]
  single := h.single.sublist hsub

/-! ## The views under the statements -/

theorem servingItems_updateWhere {rows : List KnowledgeRow} {p : KnowledgeRow → Bool}
    {f : KnowledgeRow → KnowledgeRow} {g : ServingItem → ServingItem}
    (h : ∀ k ∈ rows, servingItem (if p k then f k else k) = g (servingItem k)) :
    (updateWhere p f rows).map servingItem = (rows.map servingItem).map g := by
  unfold updateWhere
  rw [List.map_map, List.map_map]
  apply List.map_congr_left
  exact h

/-- Closing chunks only takes served chunks away. -/
theorem served_close (rows : List Chunk) {p : Chunk → Prop} [DecidablePred p] {f : Chunk → Chunk}
    (hf : ∀ c, isServed (f c) = false) :
    (((rows.map fun c => if p c then f c else c).filter isServed).map
      fun c => (c.tenantId, c.documentId)) =
    ((rows.filter isServed).filter fun c => decide (¬ p c)).map
      fun c => (c.tenantId, c.documentId) := by
  rw [filter_map_moved hf]

theorem isServed_closed (c : Chunk) (now : Time) :
    isServed { c with validTo := some now } = false := by
  simp [isServed]

theorem servedDocuments_retireChunks (db : Database) (now : Time) (p : Chunk → Bool) :
    (servedDocuments (db.retireChunks now p).1).Sublist (servedDocuments db) := by
  have hview := served_close db.chunks.rows
    (p := fun c => (p c && decide (c.validTo = none)) = true) (fun c => isServed_closed c now)
  have heq : servedDocuments (db.retireChunks now p).1 = _ := hview
  rw [heq]
  exact List.filter_sublist.map _

theorem servedDocuments_retireKnowledgeChunk (db : Database) (tenant : TenantId)
    (kid : KnowledgeId) (now : Time) :
    (servedDocuments (db.retireKnowledgeChunk tenant kid now)).Sublist (servedDocuments db) ∧
      (tenant, knowledgeDocument kid) ∉
        servedDocuments (db.retireKnowledgeChunk tenant kid now) := by
  have hview := served_close db.chunks.rows
    (p := fun c => c.tenantId = tenant ∧ c.documentId = "knowledge:" ++ toString kid ∧
      c.validTo = none) (fun c => isServed_closed c now)
  have heq : servedDocuments (db.retireKnowledgeChunk tenant kid now) = _ := hview
  rw [heq]
  refine ⟨List.filter_sublist.map _, ?_⟩
  intro hmem
  obtain ⟨c, hc, hpair⟩ := List.mem_map.mp hmem
  rw [List.mem_filter, List.mem_filter, decide_eq_true_eq] at hc
  obtain ⟨⟨-, hserved⟩, hnot⟩ := hc
  rw [Prod.mk.injEq] at hpair
  rw [isServed, decide_eq_true_eq] at hserved
  exact hnot ⟨hpair.1, hpair.2, hserved.2⟩

theorem servedDocuments_deleteRows (db : Database) (p : Chunk → Bool) :
    (servedDocuments { db with chunks := db.chunks.deleteRows p }).Sublist
      (servedDocuments db) := by
  unfold servedDocuments ChunkTable.deleteRows deleteWhere
  exact (List.filter_sublist.filter _).map _

/-! ## Recounting an item -/

/-- The support of an item that is left, and the retraction of a published item below the floor:
what `withdrawSupport` and `recountSupport` have in common. -/
def settleSupport (reason : String) (tenant : TenantId) (now : Time) (db : Database)
    (kid : KnowledgeId) : Database :=
  let count := recount db.evidence kid
  let db := db.setSupport kid count.distinctEntities count.episodeCount
  if count.distinctEntities < 3 then
    let retracted : Database := { db with
      knowledge := db.knowledge.updateRows (retracts kid)
        (fun k => { k with
          status := .invalidated
          invalidatedAt := some now
          invalidatedReason := some reason })
        (fun _ => rfl) }
    if countWhere (retracts kid) db.knowledge.rows > 0 then
      retracted.retireKnowledgeChunk tenant kid now
    else retracted
  else db

theorem withdrawSupport_eq (tenant : TenantId) (episodeId : EpisodeId) (now : Time)
    (db : Database) (kid : KnowledgeId) :
    withdrawSupport tenant episodeId now db kid =
      settleSupport "support_withdrawn" tenant now { db with
        evidence := deleteWhere
          (fun e => decide (e.knowledgeId = kid ∧ e.episodeId = episodeId)) db.evidence } kid := rfl

theorem recountSupport_eq (tenant : TenantId) (now : Time) (acc : Database × Nat)
    (kid : KnowledgeId) :
    (recountSupport tenant now acc kid).1 =
      settleSupport "erasure_support_withdrawn" tenant now acc.1 kid := by
  unfold recountSupport settleSupport
  dsimp only
  split
  · rename_i hbelow
    exact (if_pos hbelow).symm
  · rename_i habove
    exact (if_neg habove).symm

/-- What recounting does to an item. -/
def settled (evidence : List KnowledgeEvidence) (kid : KnowledgeId) (x : ServingItem) :
    ServingItem :=
  if x.id = kid then
    { x with
      distinctEntities := namedEntities evidence kid
      status :=
        if namedEntities evidence kid < 3 ∧ x.status = .published then .invalidated
        else x.status }
  else x

theorem servingItems_setSupport (db : Database) (kid : KnowledgeId) (distinct episodes : Nat) :
    servingItems (db.setSupport kid distinct episodes) =
      (servingItems db).map fun x =>
        if x.id = kid then { x with distinctEntities := distinct } else x := by
  refine servingItems_updateWhere fun k _ => ?_
  by_cases hkid : k.id = kid
  · simp [servingItem, hkid]
  · simp [servingItem, hkid]

theorem servingItems_retract (kid : KnowledgeId) (now : Time) (reason : String)
    (rows : List KnowledgeRow) :
    (updateWhere (retracts kid) (fun k => { k with
      status := .invalidated
      invalidatedAt := some now
      invalidatedReason := some reason }) rows).map servingItem =
      (rows.map servingItem).map fun x =>
        if x.id = kid ∧ x.status = .published then { x with status := .invalidated } else x := by
  refine servingItems_updateWhere fun k _ => ?_
  by_cases hkid : k.id = kid ∧ k.status = .published
  · simp [servingItem, retracts, hkid]
  · simp [servingItem, retracts, hkid]

/-- Below the floor the two updates together settle the item. -/
theorem settled_of_below (hbelow : namedEntities evidence kid < 3) (x : ServingItem) :
    (let y := if x.id = kid then { x with distinctEntities := namedEntities evidence kid } else x
      if y.id = kid ∧ y.status = .published then { y with status := .invalidated } else y) =
      settled evidence kid x := by
  unfold settled
  by_cases hkid : x.id = kid
  · by_cases hstatus : x.status = .published
    · simp [hkid, hstatus, hbelow]
    · simp [hkid, hstatus]
  · simp [hkid]

/-- Above it, the first one does. -/
theorem settled_of_not_below (habove : ¬ namedEntities evidence kid < 3) (x : ServingItem) :
    (if x.id = kid then { x with distinctEntities := namedEntities evidence kid } else x) =
      settled evidence kid x := by
  unfold settled
  split
  · rw [if_neg (fun h => habove h.1)]
  · rfl

/-- A published item is counted among those a recount takes back. -/
theorem countWhere_retracts_pos (distinct episodes : Nat)
    (h : ∃ x ∈ servingItems db, x.id = kid ∧ x.status = .published) :
    countWhere (retracts kid) (db.setSupport kid distinct episodes).knowledge.rows > 0 := by
  obtain ⟨x, hx, hkid, hstatus⟩ := h
  obtain ⟨k, hk, rfl⟩ := List.mem_map.mp hx
  apply List.length_pos_of_mem
  rw [List.mem_filter]
  refine ⟨List.mem_map_of_mem hk, ?_⟩
  have hid : k.id = kid := hkid
  have hpub : k.status = .published := hstatus
  simp [retracts, hid, hpub]

/-- What settling one item changes of what is served. -/
theorem settleSupport_view (reason : String) (tenant : TenantId) (now : Time) (db : Database)
    (kid : KnowledgeId) :
    (settleSupport reason tenant now db kid).evidence = db.evidence ∧
    (settleSupport reason tenant now db kid).episodes = db.episodes ∧
    servingItems (settleSupport reason tenant now db kid) =
      (servingItems db).map (settled db.evidence kid) ∧
    (servedDocuments (settleSupport reason tenant now db kid)).Sublist (servedDocuments db) ∧
    (namedEntities db.evidence kid < 3 →
      (∃ x ∈ servingItems db, x.id = kid ∧ x.status = .published) →
      (tenant, knowledgeDocument kid) ∉
        servedDocuments (settleSupport reason tenant now db kid)) := by
  have hset := servingItems_setSupport db kid (recount db.evidence kid).distinctEntities
    (recount db.evidence kid).episodeCount
  unfold settleSupport
  dsimp only
  by_cases hbelow : namedEntities db.evidence kid < 3
  · have hbelow' : (recount db.evidence kid).distinctEntities < 3 := hbelow
    rw [if_pos hbelow']
    have hitems : (updateWhere (retracts kid) (fun k => { k with
          status := .invalidated
          invalidatedAt := some now
          invalidatedReason := some reason })
        (db.setSupport kid (recount db.evidence kid).distinctEntities
          (recount db.evidence kid).episodeCount).knowledge.rows).map servingItem =
        (servingItems db).map (settled db.evidence kid) := by
      unfold servingItems at hset
      rw [servingItems_retract, hset, List.map_map]
      exact List.map_congr_left fun x _ => settled_of_below hbelow x
    by_cases hcount : countWhere (retracts kid) (db.setSupport kid
        (recount db.evidence kid).distinctEntities
        (recount db.evidence kid).episodeCount).knowledge.rows > 0
    · rw [if_pos hcount]
      obtain ⟨hsub, hnot⟩ := servedDocuments_retireKnowledgeChunk
        { (db.setSupport kid (recount db.evidence kid).distinctEntities
            (recount db.evidence kid).episodeCount) with
          knowledge := (db.setSupport kid (recount db.evidence kid).distinctEntities
            (recount db.evidence kid).episodeCount).knowledge.updateRows (retracts kid)
              (fun k => { k with
                status := .invalidated
                invalidatedAt := some now
                invalidatedReason := some reason })
              (fun _ => rfl) } tenant kid now
      exact ⟨rfl, rfl, hitems, hsub, fun _ _ => hnot⟩
    · rw [if_neg hcount]
      refine ⟨rfl, rfl, hitems, List.Sublist.refl _, ?_⟩
      rintro - hpublished
      exact absurd (countWhere_retracts_pos _ _ hpublished) hcount
  · have habove : ¬ (recount db.evidence kid).distinctEntities < 3 := hbelow
    rw [if_neg habove, hset]
    refine ⟨rfl, rfl, ?_, List.Sublist.refl _, fun h => absurd h hbelow⟩
    exact List.map_congr_left fun x _ => settled_of_not_below hbelow x

/-- The keys of the tables and the floor. -/
structure Aligned (pending : List KnowledgeId) (db : Database) : Prop where
  keys : KnowledgeKeys db
  floor : Floor pending (servingItems db) db.evidence (servedDocuments db)

theorem map_id_servingItems (db : Database) :
    (servingItems db).map ServingItem.id = db.knowledge.rows.map KnowledgeRow.id := by
  unfold servingItems
  rw [List.map_map]
  rfl

theorem knowledgeKeys_of_items (db : Database) (hepisodes : (db'.episodes.map Episode.id).Nodup)
    (hids : (servingItems db').map ServingItem.id = (servingItems db).map ServingItem.id)
    (hevidence : ∀ e ∈ db'.evidence, e.knowledgeId ∈ db.knowledge.rows.map KnowledgeRow.id) :
    KnowledgeKeys db' := by
  rw [map_id_servingItems, map_id_servingItems] at hids
  refine ⟨hepisodes, fun e he => ?_⟩
  rw [hids]
  exact hevidence e he

/-- Statements that touch neither items nor evidence and close served chunks at most. -/
theorem Aligned.frame (h : Aligned pending db) (hepisodes : (db'.episodes.map Episode.id).Nodup)
    (hknowledge : db'.knowledge = db.knowledge) (hevidence : db'.evidence = db.evidence)
    (hserved : (servedDocuments db').Sublist (servedDocuments db)) : Aligned pending db' := by
  have hitems : servingItems db' = servingItems db := by
    unfold servingItems
    rw [hknowledge]
  constructor
  · apply knowledgeKeys_of_items db hepisodes (congrArg (List.map ServingItem.id) hitems)
    rw [hevidence]
    exact h.keys.refers
  · rw [hitems, hevidence]
    exact h.floor.sublist hserved

theorem settled_id (evidence : List KnowledgeEvidence) (kid : KnowledgeId) (x : ServingItem) :
    (settled evidence kid x).id = x.id ∧ (settled evidence kid x).tenantId = x.tenantId := by
  unfold settled
  split
  · exact ⟨rfl, rfl⟩
  · exact ⟨rfl, rfl⟩

/-- Recounting an item of the tenant takes it off the list of those to be recounted. -/
theorem Aligned.settle (h : Aligned (kid :: pending) db) (reason : String) (now : Time)
    (htenant : ∀ x ∈ servingItems db, x.id = kid → x.tenantId = tenant) :
    Aligned pending (settleSupport reason tenant now db kid) := by
  obtain ⟨hevidence, hepisodes, hitems, hsub, hclosed⟩ :=
    settleSupport_view reason tenant now db kid
  constructor
  · have hids : (servingItems (settleSupport reason tenant now db kid)).map ServingItem.id =
        (servingItems db).map ServingItem.id := by
      rw [hitems, List.map_map]
      apply List.map_congr_left
      intro x _
      exact (settled_id db.evidence kid x).1
    refine knowledgeKeys_of_items db ?_ hids ?_
    · rw [hepisodes]
      exact h.keys.episodes
    · rw [hevidence]
      exact h.keys.refers
  · rw [hitems, hevidence]
    apply h.floor.change (settled db.evidence kid) (settled_id db.evidence kid) ?_ ?_ hsub
    · intro x hx hnot
      unfold settled
      by_cases hkid : x.id = kid
      · rw [if_pos hkid, hkid]
      · rw [if_neg hkid]
        apply h.floor.counted x hx
        rw [List.mem_cons, not_or]
        exact ⟨hkid, hnot⟩
    · intro x hx hserved hstatus hthree
      unfold settled
      by_cases hkid : x.id = kid
      · rw [if_pos hkid]
        have habove : ¬ namedEntities db.evidence kid < 3 := by
          intro hbelow
          have hnot := hclosed hbelow ⟨x, hx, hkid, hstatus⟩
          rw [hkid, htenant x hx hkid] at hserved
          exact hnot hserved
        rw [if_neg (fun hboth => habove hboth.1)]
        exact ⟨hstatus, not_lt.mp habove⟩
      · rw [if_neg hkid]
        exact ⟨hstatus, hthree⟩

/-- The items to be recounted belong to the tenant. -/
def OfTenant (tenant : TenantId) (kids : List KnowledgeId) (db : Database) : Prop :=
  ∀ x ∈ servingItems db, x.id ∈ kids → x.tenantId = tenant

theorem OfTenant.settle (h : OfTenant tenant kids db) (reason : String) (now : Time)
    (kid : KnowledgeId) : OfTenant tenant kids (settleSupport reason tenant now db kid) := by
  intro y hy hmem
  rw [(settleSupport_view reason tenant now db kid).2.2.1] at hy
  obtain ⟨x, hx, rfl⟩ := List.mem_map.mp hy
  rw [(settled_id db.evidence kid x).1] at hmem
  rw [(settled_id db.evidence kid x).2]
  exact h x hx hmem

/-- Evidence of items to be recounted is deleted. -/
theorem Aligned.withdraw (h : Aligned pending db) (hpending : pending ⊆ kids)
    {p : KnowledgeEvidence → Bool} (hp : ∀ e, p e = true → e.knowledgeId ∈ kids) :
    Aligned kids { db with evidence := deleteWhere p db.evidence } := by
  constructor
  · refine ⟨h.keys.episodes, fun e he => ?_⟩
    exact h.keys.refers e (mem_deleteWhere.mp he).1
  · apply h.floor.pend hpending
    intro id hid
    unfold namedEntities
    rw [recount_congr (filter_deleteWhere ?_)]
    intro e _ hown
    rw [decide_eq_true_eq] at hown
    rw [Bool.eq_false_iff]
    intro hpe
    exact hid (hown ▸ hp e hpe)

/-- The turns of an episode's items in `forget`: each withdraws its evidence and recounts. -/
theorem Aligned.foldl_withdrawSupport (h : Aligned [] db) (episodeId : EpisodeId) (now : Time)
    (hkids : OfTenant tenant kids db) :
    Aligned [] (kids.foldl (withdrawSupport tenant episodeId now) db) := by
  induction kids generalizing db with
  | nil => exact h
  | cons kid kids ih =>
    have hpend : Aligned [kid] { db with
        evidence := deleteWhere
          (fun e => decide (e.knowledgeId = kid ∧ e.episodeId = episodeId)) db.evidence } := by
      apply h.withdraw (List.nil_subset _)
      intro e he
      rw [decide_eq_true_eq] at he
      rw [he.1]
      exact List.mem_singleton_self kid
    rw [List.foldl_cons, withdrawSupport_eq]
    apply ih
    · apply hpend.settle
      intro x hx hkid
      exact hkids x hx (hkid ▸ List.mem_cons_self)
    · have hrest : OfTenant tenant kids { db with
          evidence := deleteWhere
            (fun e => decide (e.knowledgeId = kid ∧ e.episodeId = episodeId)) db.evidence } :=
        fun x hx hmem => hkids x hx (List.mem_cons_of_mem kid hmem)
      exact hrest.settle _ now kid

/-- The turns of the affected items in an erasure, after all their evidence is gone. -/
theorem Aligned.foldl_recountSupport {acc : Database × Nat} (h : Aligned kids acc.1)
    (hkids : OfTenant tenant kids acc.1) :
    Aligned [] (kids.foldl (recountSupport tenant now) acc).1 := by
  induction kids generalizing acc with
  | nil => exact h
  | cons kid kids ih =>
    rw [List.foldl_cons]
    apply ih
    · rw [recountSupport_eq]
      apply h.settle
      intro x hx hkid
      exact hkids x hx (hkid ▸ List.mem_cons_self)
    · rw [recountSupport_eq]
      have hrest : OfTenant tenant kids acc.1 :=
        fun x hx hmem => hkids x hx (List.mem_cons_of_mem kid hmem)
      exact hrest.settle _ now kid

/-! ## Adding evidence -/

theorem subset_foldl_insertEvidenceRow (new rows : List KnowledgeEvidence) :
    rows ⊆ new.foldl insertEvidenceRow rows := by
  induction new generalizing rows with
  | nil => exact List.Subset.refl rows
  | cons e new ih =>
    rw [List.foldl_cons]
    refine List.Subset.trans ?_ (ih _)
    unfold insertEvidenceRow
    split
    · exact List.Subset.refl rows
    · exact List.subset_append_left rows [e]

/-- More evidence names no fewer entities. -/
theorem namedEntities_mono (h : evidence ⊆ evidence') (id : KnowledgeId) :
    namedEntities evidence id ≤ namedEntities evidence' id := by
  apply List.Subperm.length_le
  apply List.subperm_of_subset (List.nodup_dedup _)
  intro entity hentity
  rw [List.mem_dedup, List.mem_filterMap] at hentity ⊢
  obtain ⟨e, he, hnamed⟩ := hentity
  rw [List.mem_filter] at he
  exact ⟨e, List.mem_filter.mpr ⟨h he.1, he.2⟩, hnamed⟩

/-- What counting an item again does to its counter of entities. -/
def counting (evidence : List KnowledgeEvidence) (kid : KnowledgeId) (x : ServingItem) :
    ServingItem :=
  if x.id = kid then { x with distinctEntities := namedEntities evidence kid } else x

theorem counting_id (evidence : List KnowledgeEvidence) (kid : KnowledgeId) (x : ServingItem) :
    (counting evidence kid x).id = x.id ∧ (counting evidence kid x).tenantId = x.tenantId := by
  unfold counting
  split
  · exact ⟨rfl, rfl⟩
  · exact ⟨rfl, rfl⟩

/-- An item that gains evidence and is counted again stays on the floor: its counter only grows. -/
theorem Aligned.reinforce (h : Aligned [] db) (kid : KnowledgeId) (episodes : List Episode)
    (hkid : kid ∈ db.knowledge.rows.map KnowledgeRow.id) (hepisodes : db'.episodes = db.episodes)
    (hevidence : db'.evidence = (db.addEvidence kid episodes).evidence)
    (hitems : servingItems db' = (servingItems db).map (counting db'.evidence kid))
    (hserved : servedDocuments db' = servedDocuments db) : Aligned [] db' := by
  constructor
  · refine knowledgeKeys_of_items db ?_ ?_ ?_
    · rw [hepisodes]
      exact h.keys.episodes
    · rw [hitems, List.map_map]
      exact List.map_congr_left fun x _ => (counting_id _ kid x).1
    · intro e he
      rw [hevidence] at he
      rcases mem_foldl_insertEvidenceRow he with he | he
      · exact h.keys.refers e he
      · obtain ⟨ep, -, rfl⟩ := List.mem_map.mp he
        exact hkid
  · have hmono : ∀ id, namedEntities db.evidence id ≤ namedEntities db'.evidence id := by
      rw [hevidence]
      exact namedEntities_mono (subset_foldl_insertEvidenceRow _ _)
    rw [hitems, hserved]
    apply h.floor.change (counting db'.evidence kid) (counting_id _ kid) ?_ ?_
      (List.Sublist.refl _)
    · intro x hx _
      unfold counting
      by_cases hid : x.id = kid
      · rw [if_pos hid, hid]
      · rw [if_neg hid, h.floor.counted x hx List.not_mem_nil, hevidence]
        exact congrArg Support.distinctEntities (recount_addEvidence_ne db hid episodes).symm
    · intro x hx _ hstatus hthree
      unfold counting
      by_cases hid : x.id = kid
      · rw [if_pos hid]
        refine ⟨hstatus, ?_⟩
        calc 3 ≤ x.distinctEntities := hthree
          _ = namedEntities db.evidence x.id := h.floor.counted x hx List.not_mem_nil
          _ = namedEntities db.evidence kid := by rw [hid]
          _ ≤ namedEntities db'.evidence kid := hmono kid
      · rw [if_neg hid]
        exact ⟨hstatus, hthree⟩

theorem Aligned.accrue (h : Aligned [] db) {twin : KnowledgeRow} (htwin : twin ∈ db.knowledge.rows)
    (categories : List String) (episodes : List Episode) :
    Aligned [] (db.accrue twin categories episodes) := by
  refine h.reinforce twin.id episodes (List.mem_map_of_mem htwin) rfl rfl
    ?_ rfl
  refine servingItems_updateWhere fun k _ => ?_
  by_cases hid : k.id = twin.id
  · have hcounting : counting (db.accrue twin categories episodes).evidence twin.id
        (servingItem k) = _ := if_pos hid
    rw [if_pos (decide_eq_true hid), hcounting]
    rfl
  · have hkept : counting (db.accrue twin categories episodes).evidence twin.id
        (servingItem k) = servingItem k := if_neg hid
    rw [if_neg (by simpa using hid), hkept]

/-- An item whose statement is new. -/
theorem Aligned.insertKnowledge {text : UnicodeText} (h : Aligned [] db) {id : KnowledgeId}
    {p : KnowledgeProposal} {leaked : Option String}
    (hok : db.insertKnowledge text now id p leaked (db.proposalEpisodes p) = .ok db') :
    Aligned [] db' := by
  obtain ⟨hfresh, hrows, -, -⟩ := insertKnowledge_ok hok
  obtain ⟨hothers, hnew⟩ := recount_insertKnowledge h.keys hok
  have hchunks : db'.chunks = db.chunks := by
    unfold Database.insertKnowledge KnowledgeTable.insert at hok
    split at hok
    · cases hok
    · cases hok
      rfl
  have hserved : servedDocuments db' = servedDocuments db := by
    unfold servedDocuments
    rw [hchunks]
  have hitems : servingItems db' = servingItems db ++ [servingItem (newKnowledge now id p leaked
      text (countEpisodes (db.proposalEpisodes p)))] := by
    unfold servingItems
    rw [hrows, List.map_append, List.map_singleton]
  refine ⟨knowledgeKeys_insertKnowledge h.keys hok, ?_⟩
  rw [hitems, hserved]
  constructor
  · rw [← hitems, map_id_servingItems]
    exact db'.knowledge.ids_nodup
  · intro x hx _
    rcases List.mem_append.mp hx with hx | hx
    · rw [h.floor.counted x hx List.not_mem_nil]
      have hne : x.id ≠ id := by
        intro heq
        apply hfresh
        rw [← map_id_servingItems, ← heq]
        exact List.mem_map_of_mem hx
      exact congrArg Support.distinctEntities (hothers x.id hne).symm
    · obtain rfl := List.mem_singleton.mp hx
      exact congrArg Support.distinctEntities hnew.symm
  · intro d hd
    obtain ⟨x, hx, hrest⟩ := h.floor.published d hd
    exact ⟨x, List.mem_append_left _ hx, hrest⟩
  · exact h.floor.single

theorem Aligned.proposeKnowledge {text : UnicodeText} (h : Aligned [] db) {id : KnowledgeId}
    {p : KnowledgeProposal} {o : ProposeOutcome}
    (hok : db.proposeKnowledge text now id p = .ok (db', o)) : Aligned [] db' := by
  rcases proposeKnowledge_cases hok with rfl | ⟨twin, htwin, rfl⟩ | hinsert
  · exact h
  · exact h.accrue (twinOf_mem htwin) _ _
  · exact h.insertKnowledge hinsert

theorem Aligned.mergeEvidence (h : Aligned [] db) (now : Time) (evidence : List EpisodeId)
    (hmergeable : db.mergeable tenant kid = true) :
    Aligned [] (db.mergeEvidence now tenant kid evidence) := by
  obtain ⟨item, hitem, hitem'⟩ := List.any_eq_true.mp hmergeable
  rw [decide_eq_true_eq] at hitem'
  obtain ⟨htenant, hid, -⟩ := hitem'
  refine h.reinforce kid _ (hid ▸ List.mem_map_of_mem hitem) rfl rfl ?_ rfl
  refine servingItems_updateWhere fun k hk => ?_
  by_cases hkid : k.id = kid
  · -- the tenant the statement asks for is the one of the item
    have hk' : k = item := List.inj_on_of_nodup_map db.knowledge.ids_nodup hk hitem
      (hkid.trans hid.symm)
    have hcounting : counting (db.mergeEvidence now tenant kid evidence).evidence kid
        (servingItem k) = _ := if_pos hkid
    rw [if_pos (decide_eq_true ⟨hkid, hk' ▸ htenant⟩), hcounting]
    rfl
  · have hkept : counting (db.mergeEvidence now tenant kid evidence).evidence kid
        (servingItem k) = servingItem k := if_neg hkid
    rw [if_neg (by simp [hkid]), hkept]

/-! ## Statuses and publishes -/

/-- An item that is not published may change its status. -/
theorem Aligned.setStatus (h : Aligned [] db) {p : KnowledgeRow → Bool} {status : KnowledgeStatus}
    (hp : ∀ k, p k = true → k.status ≠ .published) : Aligned [] (db.setStatus p status) := by
  have hids : (servingItems (db.setStatus p status)).map ServingItem.id =
      (servingItems db).map ServingItem.id := by
    rw [map_id_servingItems, map_id_servingItems]
    exact map_updateWhere fun _ => rfl
  refine ⟨knowledgeKeys_of_items db h.keys.episodes hids h.keys.refers, ?_⟩
  have hmem : ∀ y ∈ servingItems (db.setStatus p status), ∃ k ∈ db.knowledge.rows,
      y.id = k.id ∧ y.distinctEntities = k.distinctEntities := by
    intro y hy
    obtain ⟨k', hk', rfl⟩ := List.mem_map.mp hy
    obtain ⟨k, hk, rfl⟩ := List.mem_map.mp hk'
    refine ⟨k, hk, ?_⟩
    split
    · exact ⟨rfl, rfl⟩
    · exact ⟨rfl, rfl⟩
  constructor
  · rw [hids]
    exact h.floor.ids_nodup
  · intro y hy _
    obtain ⟨k, hk, hid, hcount⟩ := hmem y hy
    rw [hid, hcount]
    exact h.floor.counted (servingItem k) (List.mem_map_of_mem hk) List.not_mem_nil
  · intro d hd
    obtain ⟨x, hx, hrest⟩ := h.floor.published d hd
    obtain ⟨k, hk, rfl⟩ := List.mem_map.mp hx
    have hkept : p k = false := by
      rw [Bool.eq_false_iff]
      exact fun hpk => hp k hpk hrest.2.1
    refine ⟨servingItem k, List.mem_map_of_mem ?_, hrest⟩
    exact List.mem_map.mpr ⟨k, hk, if_neg (by rw [hkept]; decide)⟩
  · exact h.floor.single

/-- Publishing an item with three entities serves a chunk more. -/
theorem Floor.publish (h : Floor [] items evidence served) (hx : x ∈ items)
    (hstatus : x.status ≠ .published) (hthree : 3 ≤ x.distinctEntities) :
    Floor [] (items.map fun y => if y.id = x.id then { y with status := .published } else y)
      evidence (served ++ [(x.tenantId, knowledgeDocument x.id)]) := by
  have hnew : (x.tenantId, knowledgeDocument x.id) ∉ served := h.not_served hx hstatus _
  have hchanged : Floor []
      (items.map fun y => if y.id = x.id then { y with status := .published } else y)
      evidence served := by
    refine h.change _ ?_ ?_ ?_ (List.Sublist.refl _)
    · intro y
      split
      · exact ⟨rfl, rfl⟩
      · exact ⟨rfl, rfl⟩
    · intro y hy _
      rw [← h.counted y hy List.not_mem_nil]
      split
      · rfl
      · rfl
    · intro y _ _ hpublished hcount
      split
      · exact ⟨rfl, hcount⟩
      · exact ⟨hpublished, hcount⟩
  constructor
  · exact hchanged.ids_nodup
  · exact hchanged.counted
  · intro d hd
    rcases List.mem_append.mp hd with hd | hd
    · exact hchanged.published d hd
    · obtain rfl := List.mem_singleton.mp hd
      refine ⟨_, List.mem_map_of_mem hx, ?_⟩
      rw [if_pos rfl]
      exact ⟨rfl, rfl, hthree⟩
  · exact h.single.append (List.nodup_singleton _) fun d hd hd' =>
      hnew (List.mem_singleton.mp hd' ▸ hd)

/-- The gates ask for a status from before the publish. -/
theorem publishGates_status {k : KnowledgeRow} {kMin : Int} (h : publishGates k kMin = .ok ()) :
    k.status ≠ .published := by
  intro hpublished
  unfold publishGates at h
  rw [hpublished] at h
  cases h

/-- Publishing keeps the keys and the floor. -/
theorem Aligned.publishKnowledge (h : Aligned [] db) {id : KnowledgeId} {episodeId : EpisodeId}
    {visibility : List PrincipalToken} {kMin : Int} (hmin : 3 ≤ kMin)
    (hok : db.publishKnowledge now tenant id episodeId visibility kMin = .ok db') :
    Aligned [] db' := by
  obtain ⟨k, hk, -, rfl, hgates, hfresh, rfl⟩ := publishKnowledge_eq_ok hok
  have hthree : 3 ≤ k.distinctEntities := by
    have hsupport : kMin ≤ (k.distinctEntities : Int) := (publishGates_ok hgates).1
    omega
  have hfloor := h.floor.publish (x := servingItem k) (List.mem_map_of_mem hk)
    (publishGates_status hgates) hthree
  have hitems : (updateWhere (fun k' : KnowledgeRow => decide (k'.id = k.id))
      (fun k' => { k' with status := .published, publishedAt := some now })
      db.knowledge.rows).map servingItem = (servingItems db).map fun y =>
        if y.id = (servingItem k).id then { y with status := .published } else y := by
    refine servingItems_updateWhere fun k' _ => ?_
    by_cases hid : k'.id = k.id
    · have hsame : (servingItem k').id = (servingItem k).id := hid
      rw [if_pos (decide_eq_true hid), if_pos hsame]
      rfl
    · have hother : (servingItem k').id ≠ (servingItem k).id := hid
      rw [if_neg (by simpa using hid), if_neg hother]
  constructor
  · refine knowledgeKeys_of_items db ?_ ?_ h.keys.refers
    · exact nodup_keys_concat h.keys.episodes hfresh
    · rw [map_id_servingItems, map_id_servingItems]
      exact map_updateWhere fun _ => rfl
  · have hserved : servedDocuments { db with
        chunks := db.chunks.append (knowledgeChunk db.chunks now k episodeId visibility) rfl } =
        servedDocuments db ++
          [((servingItem k).tenantId, knowledgeDocument (servingItem k).id)] := by
      unfold servedDocuments ChunkTable.append
      rw [List.filter_append, List.map_append]
      rfl
    have hall := hfloor
    rw [← hitems, ← hserved] at hall
    exact hall

theorem Aligned.promoteIfEligible (h : Aligned [] db) (settings : KnowledgeSettings) (now : Time)
    (tenant : TenantId) (kid : KnowledgeId) (episodeId : EpisodeId) :
    Aligned [] (db.promoteIfEligible settings now tenant kid episodeId).1 := by
  have hhold : Aligned [] (db.markKnowledgeEligible tenant kid).1 := by
    refine h.setStatus fun k hk => ?_
    rw [decide_eq_true_eq] at hk
    rw [hk.2.2]
    decide
  rcases db.promoteIfEligible_cases settings now tenant kid episodeId with
    ⟨-, hsame | hmarked⟩ | ⟨-, visibility, hok⟩
  · rw [hsame]
    exact h
  · rw [hmarked]
    exact hhold
  · exact h.publishKnowledge (by decide) hok

/-! ## Retractions -/

theorem Aligned.forget (h : Aligned [] db) (now : Time) (tenant : TenantId) (ref : ForgetRef) :
    Aligned [] (db.forget now tenant ref).1 := by
  cases ref with
  | chunk chunkId =>
    exact h.frame h.keys.episodes rfl rfl (servedDocuments_retireChunks db now _)
  | episode episodeId =>
    have hclosed : Aligned [] (db.retireChunks now fun c =>
        decide (c.tenantId = tenant ∧ c.provenance = episodeId)).1 :=
      h.frame h.keys.episodes rfl rfl (servedDocuments_retireChunks db now _)
    have hfacts : Aligned [] ((db.retireChunks now fun c =>
        decide (c.tenantId = tenant ∧ c.provenance = episodeId)).1.retireFacts now fun r =>
        decide (r.tenantId = tenant ∧ r.provenance = episodeId)).1 :=
      hclosed.frame h.keys.episodes rfl rfl (List.Sublist.refl _)
    unfold Database.forget
    refine hfacts.foldl_withdrawSupport episodeId now ?_
    intro x hx hmem
    obtain ⟨k, hk, rfl⟩ := List.mem_map.mp hx
    exact ((mem_supportedBy hk).mp hmem).1

theorem Aligned.withdrawEvidence (h : Aligned [] db) (tenant : TenantId) (ids : List EpisodeId)
    (now : Time) : Aligned [] (db.withdrawEvidence tenant ids now).1 := by
  unfold Database.withdrawEvidence
  refine Aligned.foldl_recountSupport (h.withdraw (List.nil_subset _) ?_) ?_
  · intro e he
    have hwithdrawn := (Bool.and_eq_true_iff.mp he).1
    rwa [List.contains_iff_mem] at hwithdrawn
  · intro x hx hmem
    obtain ⟨k, hk, rfl⟩ := List.mem_map.mp hx
    obtain ⟨k', hk', hown⟩ := List.any_eq_true.mp (ownsKnowledge_of_affected hmem)
    rw [decide_eq_true_eq] at hown
    have hsame : k' = k := List.inj_on_of_nodup_map db.knowledge.ids_nodup hk' hk hown.1
    exact hsame ▸ hown.2

/-- An erasure keeps the keys and the floor. -/
theorem Aligned.walkLineage {ilike : String → String → Bool} {t : ErasureTarget}
    {report : ErasureReport} (h : Aligned [] db)
    (hok : db.walkLineage ilike now t = .ok (db', report)) : Aligned [] db' := by
  unfold Database.walkLineage at hok
  dsimp only at hok
  obtain ⟨db₁, hchunks, hok⟩ := exists_of_bind_eq_ok hok
  obtain ⟨db₂, hfacts, hok⟩ := exists_of_bind_eq_ok hok
  obtain ⟨db₃, hepisodes, hok⟩ := exists_of_bind_eq_ok hok
  obtain ⟨rfl, -⟩ := Prod.mk.inj (Except.ok.inj hok)
  have hafterChunks : Aligned [] db₁ := by
    obtain rfl := deleteChunks_eq_ok hchunks
    exact h.frame h.keys.episodes rfl rfl (servedDocuments_deleteRows _ _)
  have hafterFacts : Aligned [] db₂ := by
    obtain rfl := deleteFacts_eq_ok hfacts
    exact hafterChunks.frame hafterChunks.keys.episodes rfl rfl (List.Sublist.refl _)
  have hwithdrawn := hafterFacts.withdrawEvidence t.tenant (db.erasedEpisodes t) now
  obtain rfl := deleteEpisodes_eq_ok hepisodes
  refine hwithdrawn.frame ?_ rfl rfl (List.Sublist.refl _)
  exact hwithdrawn.keys.episodes.sublist (List.filter_sublist.map Episode.id)

/-! ## Runs -/

/-- One call keeps the floor, whatever becomes of it. -/
theorem aligned_curationStep {lib : CurationLibraries} {call : CurationCall} (h : Aligned [] db)
    (hstep : db.curationStep lib call = some db') : Aligned [] db' := by
  cases call with
  | appendEpisode e =>
    cases hstep
    cases hok : db.appendEpisode e with
    | error e' =>
      exact h
    | ok db₁ =>
      unfold Database.appendEpisode at hok
      split at hok
      · cases hok
      · rename_i hfresh
        cases hok
        refine h.frame (nodup_keys_concat h.keys.episodes ?_) rfl rfl (List.Sublist.refl _)
        intro e' he' heq
        exact hfresh (List.any_eq_true.mpr ⟨e', he', decide_eq_true heq⟩)
  | propose now id p =>
    cases hstep
    cases hok : db.proposeKnowledge lib.text now id p with
    | error e => exact h
    | ok result => exact h.proposeKnowledge hok
  | merge now tenant id evidence =>
    cases hstep
    split
    · rename_i hmergeable
      exact h.mergeEvidence now evidence hmergeable
    · exact h
  | promote settings now tenant id episodeId =>
    cases hstep
    exact h.promoteIfEligible settings now tenant id episodeId
  | publish now tenant id episodeId visibility kMin =>
    cases hstep
    cases hok : db.publishRequest now tenant id episodeId visibility kMin with
    | error e => exact h
    | ok db₁ => exact h.publishKnowledge (le_max_right kMin 3) hok
  | reject tenant id =>
    cases hstep
    unfold Database.rejectKnowledge
    dsimp only
    split
    · refine h.setStatus fun k hk => ?_
      rw [decide_eq_true_eq] at hk
      obtain ⟨-, -, hcandidate | heligible⟩ := hk
      · rw [hcandidate]
        decide
      · rw [heligible]
        decide
    · exact h
  | forget now tenant ref =>
    cases hstep
    exact h.forget now tenant ref
  | erase now target =>
    cases hstep
    cases hok : Model.erase lib.ilike lib.sha256Hex now db target with
    | error e => exact h
    | ok result =>
      obtain ⟨-, db₁, row, hwalk, -, -, heq⟩ := erase_eq_ok hok
      have hwalked := h.walkLineage hwalk
      have hlogged : Aligned [] result.1 := by
        rw [heq]
        exact hwalked.frame hwalked.keys.episodes rfl rfl (List.Sublist.refl _)
      exact hlogged

/-- Each chunk that recall may serve as knowledge belongs to a published item whose evidence names
three distinct entities or more, and no two of them belong to one item. -/
structure ServedOnFloor (db : Database) : Prop where
  supported : ∀ c ∈ db.chunks.rows, c.kind = "knowledge" → c.validTo = none →
    ∃ k ∈ db.knowledge.rows, c.tenantId = k.tenantId ∧ c.documentId = knowledgeDocument k.id ∧
      k.status = .published ∧ 3 ≤ namedEntities db.evidence k.id
  single : ∀ c ∈ db.chunks.rows, ∀ c' ∈ db.chunks.rows, c.kind = "knowledge" →
    c'.kind = "knowledge" → c.validTo = none → c'.validTo = none → c.tenantId = c'.tenantId →
    c.documentId = c'.documentId → c = c'

theorem Aligned.servedOnFloor (h : Aligned [] db) : ServedOnFloor db := by
  have hserved : ∀ c ∈ db.chunks.rows, c.kind = "knowledge" → c.validTo = none →
      c ∈ db.chunks.rows.filter isServed := by
    intro c hc hkind hcurrent
    exact List.mem_filter.mpr ⟨hc, decide_eq_true ⟨hkind, hcurrent⟩⟩
  constructor
  · intro c hc hkind hcurrent
    obtain ⟨x, hx, heq, hstatus, hthree⟩ :=
      h.floor.published _ (List.mem_map_of_mem (hserved c hc hkind hcurrent))
    rw [h.floor.counted x hx List.not_mem_nil] at hthree
    obtain ⟨k, hk, rfl⟩ := List.mem_map.mp hx
    obtain ⟨htenant, hdocument⟩ := Prod.mk.inj heq
    exact ⟨k, hk, htenant, hdocument, hstatus, hthree⟩
  · intro c hc c' hc' hkind hkind' hcurrent hcurrent' htenant hdocument
    exact List.inj_on_of_nodup_map h.floor.single (hserved c hc hkind hcurrent)
      (hserved c' hc' hkind' hcurrent') (Prod.mk.injEq _ _ _ _ ▸ ⟨htenant, hdocument⟩)

/-- Before any knowledge everything is aligned. -/
theorem aligned_of_no_knowledge (hepisodes : (db.episodes.map Episode.id).Nodup)
    (hknowledge : db.knowledge.rows = []) (hevidence : db.evidence = [])
    (hserved : ∀ c ∈ db.chunks.rows, ¬ (c.kind = "knowledge" ∧ c.validTo = none)) :
    Aligned [] db := by
  have hnone : servedDocuments db = [] := by
    have hfilter : db.chunks.rows.filter isServed = [] := by
      rw [List.filter_eq_nil_iff]
      intro c hc hc'
      exact hserved c hc (of_decide_eq_true hc')
    unfold servedDocuments
    rw [hfilter, List.map_nil]
  have hitems : servingItems db = [] := by
    unfold servingItems
    rw [hknowledge, List.map_nil]
  constructor
  · refine ⟨hepisodes, fun e he => ?_⟩
    rw [hevidence] at he
    exact absurd he List.not_mem_nil
  · rw [hitems, hnone]
    exact ⟨List.nodup_nil, fun _ hx => absurd hx List.not_mem_nil,
      fun _ hd => absurd hd List.not_mem_nil, List.nodup_nil⟩

/-- In every state of a run that starts before any knowledge, knowledge is served on its floor. -/
theorem served_on_floor (lib : CurationLibraries) {db₀ db : Database}
    (hepisodes : (db₀.episodes.map Episode.id).Nodup) (hknowledge : db₀.knowledge.rows = [])
    (hevidence : db₀.evidence = [])
    (hserved : ∀ c ∈ db₀.chunks.rows, ¬ (c.kind = "knowledge" ∧ c.validTo = none))
    {calls : List CurationCall} (hrun : run (curationStep lib) db₀ calls = some db) :
    ServedOnFloor db := by
  have hstart := aligned_of_no_knowledge hepisodes hknowledge hevidence hserved
  have hfloor : Aligned [] db :=
    run_induction (fun _ _ _ h hstep => aligned_curationStep h hstep) hstart hrun
  exact hfloor.servedOnFloor

/-- Libraries that agree with the real ones on text without letters beyond ASCII. -/
def asciiLibraries : CurationLibraries where
  text := ⟨toAsciiLowercase, toAsciiLowercase⟩
  ilike := fun _ _ => false
  sha256Hex := id

/-- The lesson of four customers is proposed. -/
def lessonCuration : List CurationCall :=
  [.appendEpisode (lessonEpisode 1 "acme" "crm-agent"),
    .appendEpisode (lessonEpisode 2 "globex" "crm-agent"),
    .appendEpisode (lessonEpisode 3 "initech" "crm-agent"),
    .appendEpisode (lessonEpisode 4 "umbrella" "mail-agent"),
    .propose 20 7 lesson]

/-- It is published, although the caller asked for one customer, and one is forgotten. -/
theorem served_on_floor_lesson :
    ∃ db, run (curationStep asciiLibraries) Database.empty
        (lessonCuration ++ [.publish 30 1 7 9 [1] 1, .forget 40 1 (.episode 1)]) = some db ∧
      servedDocuments db = [(1, "knowledge:7")] ∧ ServedOnFloor db := by
  have hview : (run (curationStep asciiLibraries) Database.empty
        (lessonCuration ++ [.publish 30 1 7 9 [1] 1, .forget 40 1 (.episode 1)])).map
        servedDocuments = some [(1, "knowledge:7")] := by
    decide +kernel
  obtain ⟨db, hrun, hserved⟩ := Option.map_eq_some_iff.mp hview
  refine ⟨db, hrun, hserved, ?_⟩
  have hepisodes : (Database.empty.episodes.map Episode.id).Nodup := List.nodup_nil
  exact served_on_floor _ hepisodes rfl rfl (fun _ hc => absurd hc List.not_mem_nil) hrun

end Verity.Analysis
