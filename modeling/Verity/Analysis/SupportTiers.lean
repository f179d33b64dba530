import Verity.Analysis.ErasureRefusals
import Verity.Analysis.KnowledgeFloor
import Verity.Model.SupportTiers

/-!
# The disclosed support tier

The tier on a served chunk is a copy of the bucket of its item's support. A publish and a merge
write it from a fresh count; a retraction counts again and leaves the copy alone. The copy is
current as long as a retraction that leaves an item served leaves it in its bucket.

The floor of served knowledge carries the argument: a served chunk is that of one published item,
and the counter the copy is taken from is the count of the evidence.
-/

set_option autoImplicit false

namespace Verity.Analysis

open Verity.Foundation
open Verity.Model
open Verity.Model.Database

variable {db : Database} {c : Chunk} {now : Time} {tenant : TenantId} {kid : KnowledgeId}
  {db' : Database} {s : TieredDatabase}

/-! ## The served chunks -/

/-- The chunks that recall may serve as knowledge. -/
def servedChunks (db : Database) : List Chunk := db.chunks.rows.filter isServed

theorem mem_servedChunks :
    c ∈ servedChunks db ↔ c ∈ db.chunks.rows ∧ c.kind = "knowledge" ∧ c.validTo = none := by
  unfold servedChunks isServed
  rw [List.mem_filter, decide_eq_true_eq]

theorem mem_servedChunks_retireChunks {p : Chunk → Bool} :
    c ∈ servedChunks (db.retireChunks now p).1 ↔ c ∈ servedChunks db ∧ p c = false := by
  have hview : servedChunks (db.retireChunks now p).1 = _ :=
    filter_map_moved (q := isServed) (f := fun c => { c with validTo := some now })
      (p := fun c => (p c && decide (c.validTo = none)) = true)
      (fun c => isServed_closed c now) db.chunks.rows
  rw [hview, List.mem_filter, decide_eq_true_eq]
  refine and_congr_right fun hserved => ?_
  have hcurrent := (mem_servedChunks.mp hserved).2.2
  simp [hcurrent]

theorem mem_servedChunks_retireKnowledgeChunk :
    c ∈ servedChunks (db.retireKnowledgeChunk tenant kid now) ↔
      c ∈ servedChunks db ∧ ¬ (c.tenantId = tenant ∧ c.documentId = knowledgeDocument kid) := by
  have hview : servedChunks (db.retireKnowledgeChunk tenant kid now) = _ :=
    filter_map_moved (q := isServed) (f := fun c => { c with validTo := some now })
      (p := fun c => c.tenantId = tenant ∧ c.documentId = "knowledge:" ++ toString kid ∧
        c.validTo = none) (fun c => isServed_closed c now) db.chunks.rows
  rw [hview, List.mem_filter, decide_eq_true_eq]
  refine and_congr_right fun hserved => ?_
  have hcurrent := (mem_servedChunks.mp hserved).2.2
  simp [hcurrent, knowledgeDocument]

/-- Of the served chunks none is new, and those of the items that are not gone are still there. -/
structure ServesRest (gone : KnowledgeId → Prop) (db db' : Database) : Prop where
  old : ∀ c ∈ servedChunks db', c ∈ servedChunks db
  kept : ∀ c ∈ servedChunks db, (∀ kid, c.documentId = knowledgeDocument kid → ¬ gone kid) →
    c ∈ servedChunks db'

theorem ServesRest.of_eq {gone : KnowledgeId → Prop} (h : db'.chunks = db.chunks) :
    ServesRest gone db db' := by
  have hserved : servedChunks db' = servedChunks db := by
    unfold servedChunks
    rw [h]
  exact ⟨fun c hc => hserved ▸ hc, fun c hc _ => hserved ▸ hc⟩

theorem ServesRest.trans {gone : KnowledgeId → Prop} {db'' : Database} (h : ServesRest gone db db')
    (h' : ServesRest gone db' db'') : ServesRest gone db db'' :=
  ⟨fun c hc => h.old c (h'.old c hc), fun c hc hnot => h'.kept c (h.kept c hc hnot) hnot⟩

/-- An item that is counted again loses its chunk below the floor only. -/
theorem servesRest_settleSupport (reason : String) (tenant : TenantId) (now : Time)
    (db : Database) (kid : KnowledgeId) :
    ServesRest (fun id => id = kid ∧ namedEntities db.evidence kid < 3) db
      (settleSupport reason tenant now db kid) := by
  unfold settleSupport
  dsimp only
  split
  · rename_i hbelow
    split
    · constructor
      · intro c hc
        exact (mem_servedChunks_retireKnowledgeChunk.mp hc).1
      · intro c hc hnot
        refine mem_servedChunks_retireKnowledgeChunk.mpr ⟨hc, fun hown => ?_⟩
        exact hnot kid hown.2 ⟨rfl, hbelow⟩
    · exact ServesRest.of_eq rfl
  · exact ServesRest.of_eq rfl

/-- The turns of an erasure: the evidence stays as it is. -/
theorem servesRest_foldl_recountSupport (tenant : TenantId) (now : Time)
    (kids : List KnowledgeId) (acc : Database × Nat) :
    ServesRest (fun id => namedEntities acc.1.evidence id < 3) acc.1
        (kids.foldl (recountSupport tenant now) acc).1 ∧
      (kids.foldl (recountSupport tenant now) acc).1.evidence = acc.1.evidence := by
  induction kids generalizing acc with
  | nil => exact ⟨ServesRest.of_eq rfl, rfl⟩
  | cons kid kids ih =>
    rw [List.foldl_cons]
    obtain ⟨hrest, hevidence⟩ := ih (recountSupport tenant now acc kid)
    have hsame : (recountSupport tenant now acc kid).1.evidence = acc.1.evidence := by
      rw [recountSupport_eq]
      exact (settleSupport_view _ tenant now acc.1 kid).1
    have hturn := servesRest_settleSupport "erasure_support_withdrawn" tenant now acc.1 kid
    rw [← recountSupport_eq] at hturn
    rw [hsame] at hrest hevidence
    refine ⟨ServesRest.trans ⟨hturn.old, fun c hc hnot => ?_⟩ hrest, hevidence⟩
    refine hturn.kept c hc fun id hid hgone => ?_
    exact hnot id hid (hgone.1 ▸ hgone.2)

/-- The turns of a forgotten episode: each withdraws its evidence first, so the count of a turn is
the one that leaves the episode out. -/
theorem servesRest_foldl_withdrawSupport (tenant : TenantId) (episodeId : EpisodeId) (now : Time)
    (kids : List KnowledgeId) (db : Database) :
    ServesRest (fun id =>
      namedEntities (deleteWhere (fun e => decide (e.episodeId = episodeId)) db.evidence) id < 3) db
      (kids.foldl (withdrawSupport tenant episodeId now) db) := by
  induction kids generalizing db with
  | nil => exact ServesRest.of_eq rfl
  | cons kid kids ih =>
    rw [List.foldl_cons]
    let withdrawn : Database := { db with
      evidence := deleteWhere (fun e => decide (e.knowledgeId = kid ∧ e.episodeId = episodeId))
        db.evidence }
    have hrest := ih (withdrawSupport tenant episodeId now db kid)
    have hevidence : (withdrawSupport tenant episodeId now db kid).evidence =
        withdrawn.evidence := (settleSupport_view _ tenant now withdrawn kid).1
    have habsorbed : deleteWhere (fun e => decide (e.episodeId = episodeId)) withdrawn.evidence =
        deleteWhere (fun e => decide (e.episodeId = episodeId)) db.evidence := by
      unfold withdrawn deleteWhere
      rw [List.filter_filter]
      refine List.filter_congr fun e _ => ?_
      by_cases hepisode : e.episodeId = episodeId
      · simp [hepisode]
      · simp [hepisode]
    have hturn := servesRest_settleSupport "support_withdrawn" tenant now withdrawn kid
    rw [hevidence, habsorbed] at hrest
    refine ServesRest.trans ⟨fun c hc => hturn.old c hc, fun c hc hnot => ?_⟩ hrest
    refine hturn.kept c hc fun id hid hgone => hnot id hid ?_
    obtain ⟨rfl, hbelow⟩ := hgone
    have hcount : namedEntities (deleteWhere (fun e => decide (e.episodeId = episodeId))
        db.evidence) id = namedEntities withdrawn.evidence id := by
      refine congrArg Support.distinctEntities (recount_deleteWhere_congr fun e _ hown => ?_)
      simp [hown]
    rw [hcount]
    exact hbelow

/-! ## The copy -/

/-- The chunk that serves an item now. -/
def Serves (k : KnowledgeRow) (c : Chunk) : Prop :=
  c.kind = "knowledge" ∧ c.validTo = none ∧ c.tenantId = k.tenantId ∧
    c.documentId = knowledgeDocument k.id

/-- The text of the bucket. -/
def tierText (distinct : Nat) : Option String :=
  (SupportTier.fromDistinct distinct).map SupportTier.asStr

/-- The tier on the current chunk of a published item is that of the distinct entities in its
evidence. -/
def TierCurrent (s : TieredDatabase) : Prop :=
  ∀ k ∈ s.db.knowledge.rows, k.status = .published → ∀ c ∈ s.db.chunks.rows, Serves k c →
    s.supportTier c.id = tierText (namedEntities s.db.evidence k.id)

theorem tierText_inj {m n : Nat} :
    tierText m = tierText n ↔ SupportTier.fromDistinct m = SupportTier.fromDistinct n := by
  have hinj : Function.Injective SupportTier.asStr := by
    intro a b hab
    cases a <;> cases b <;> first | rfl | exact absurd hab (by decide)
  exact (Option.map_injective hinj).eq_iff

instance decidableServes (k : KnowledgeRow) (c : Chunk) : Decidable (Serves k c) :=
  inferInstanceAs (Decidable (_ ∧ _ ∧ _ ∧ _))

instance decidableTierCurrent (s : TieredDatabase) : Decidable (TierCurrent s) :=
  inferInstanceAs (Decidable (∀ k ∈ s.db.knowledge.rows, k.status = .published →
    ∀ c ∈ s.db.chunks.rows, Serves k c →
      s.supportTier c.id = tierText (namedEntities s.db.evidence k.id)))

/-- What holds of each published item and the chunk that serves it holds of each served chunk and
the item it names, since a served chunk names a published item. -/
theorem Aligned.forall_serves (h : Aligned [] db) {P : KnowledgeId → Chunk → Prop} :
    (∀ k ∈ db.knowledge.rows, k.status = .published → ∀ c ∈ db.chunks.rows, Serves k c →
      P k.id c) ↔
      ∀ c ∈ servedChunks db, ∀ kid, c.documentId = knowledgeDocument kid → P kid c := by
  constructor
  · intro hall c hc kid hkid
    obtain ⟨x, hx, heq, hstatus, -⟩ := h.floor.published _ (List.mem_map_of_mem hc)
    obtain ⟨k, hk, rfl⟩ := List.mem_map.mp hx
    obtain ⟨htenant, hdocument⟩ := Prod.mk.inj heq
    obtain rfl : k.id = kid := knowledgeDocument_injective (hdocument.symm.trans hkid)
    obtain ⟨hc, hkind, hcurrent⟩ := mem_servedChunks.mp hc
    exact hall k hk hstatus c hc ⟨hkind, hcurrent, htenant, hdocument⟩
  · rintro hall k - - c hc ⟨hkind, hcurrent, -, hdocument⟩
    exact hall c (mem_servedChunks.mpr ⟨hc, hkind, hcurrent⟩) k.id hdocument

/-- The copy is current, chunk by chunk. -/
def Stamped (s : TieredDatabase) : Prop :=
  ∀ c ∈ servedChunks s.db, ∀ kid, c.documentId = knowledgeDocument kid →
    s.supportTier c.id = tierText (namedEntities s.db.evidence kid)

theorem Aligned.tierCurrent_iff (h : Aligned [] s.db) : TierCurrent s ↔ Stamped s :=
  h.forall_serves
    (P := fun kid c => s.supportTier c.id = tierText (namedEntities s.db.evidence kid))

/-- A served chunk names an item on the floor. -/
theorem Aligned.three_le (h : Aligned [] db) (hc : c ∈ servedChunks db)
    (hkid : c.documentId = knowledgeDocument kid) :
    ∃ k ∈ db.knowledge.rows, k.id = kid ∧ c.tenantId = k.tenantId ∧ k.status = .published ∧
      3 ≤ namedEntities db.evidence kid := by
  obtain ⟨x, hx, heq, hstatus, hthree⟩ := h.floor.published _ (List.mem_map_of_mem hc)
  rw [h.floor.counted x hx List.not_mem_nil] at hthree
  obtain ⟨k, hk, rfl⟩ := List.mem_map.mp hx
  obtain ⟨htenant, hdocument⟩ := Prod.mk.inj heq
  obtain rfl : k.id = kid := knowledgeDocument_injective (hdocument.symm.trans hkid)
  exact ⟨k, hk, rfl, htenant, hstatus, hthree⟩

/-- A call that serves no other chunks, and adds no evidence to what is served. -/
theorem Stamped.frame (h : Stamped s) (hserved : ∀ c ∈ servedChunks db, c ∈ servedChunks s.db)
    (hevidence : ∀ c ∈ servedChunks db, ∀ kid, c.documentId = knowledgeDocument kid →
      namedEntities db.evidence kid = namedEntities s.db.evidence kid) :
    Stamped { s with db := db } := by
  intro c hc kid hkid
  rw [hevidence c hc kid hkid]
  exact h c (hserved c hc) kid hkid

/-! ## The calls that write the copy -/

/-- A publish serves one chunk more, with the bucket of the count it read. -/
theorem Stamped.publish (h : Stamped s) (haligned : Aligned [] s.db) {episodeId : EpisodeId}
    {visibility : List PrincipalToken} {kMin : Int}
    (hok : s.db.publishKnowledge now tenant kid episodeId visibility kMin = .ok db) :
    Stamped (s.stampPublished tenant kid db) := by
  obtain ⟨k, hk, rfl, rfl, -, -, rfl⟩ := publishKnowledge_eq_ok hok
  have hitem : s.db.knowledgeItem k.tenantId k.id = some k := by
    unfold Database.knowledgeItem
    refine find?_unique hk (decide_eq_true ⟨rfl, rfl⟩) fun k' hk' hown => ?_
    exact List.inj_on_of_nodup_map s.db.knowledge.ids_nodup hk' hk (of_decide_eq_true hown).2
  have hcounted : k.distinctEntities = namedEntities s.db.evidence k.id :=
    haligned.floor.counted (servingItem k) (List.mem_map_of_mem hk) List.not_mem_nil
  intro c hc kid hkid
  unfold TieredDatabase.stampPublished
  dsimp only
  obtain ⟨hmem, hkind, hcurrent⟩ := mem_servedChunks.mp hc
  rcases List.mem_append.mp hmem with hold | hnew
  · rw [Function.update_of_ne (s.db.chunks.ids_lt c hold).ne]
    exact h c (mem_servedChunks.mpr ⟨hold, hkind, hcurrent⟩) kid hkid
  · obtain rfl := List.mem_singleton.mp hnew
    obtain rfl : k.id = kid := knowledgeDocument_injective hkid
    have hid :
        (knowledgeChunk s.db.chunks now k episodeId visibility).id = s.db.chunks.nextId := rfl
    rw [hid, Function.update_self, hitem, Option.bind_some, hcounted]
    rfl

/-- The live item with the statement of a proposal is not published. -/
theorem twinOf_not_published {p : KnowledgeProposal} {twin : KnowledgeRow}
    (h : db.twinOf p = some twin) : twin.status ≠ .published := by
  have hmem := (List.mem_insertionSort _).mp (List.mem_of_head? h)
  have hlive := (of_decide_eq_true (Bool.and_eq_true_iff.mp (List.mem_filter.mp hmem).2).1).2
  rintro hpublished
  rw [hpublished] at hlive
  rcases hlive with hcandidate | heligible
  · cases hcandidate
  · cases heligible

/-- Adding evidence to one item leaves the count of every other. -/
theorem namedEntities_addEvidence_ne (db : Database) {id : KnowledgeId} (hne : id ≠ kid)
    (episodes : List Episode) :
    namedEntities (db.addEvidence kid episodes).evidence id = namedEntities db.evidence id :=
  congrArg Support.distinctEntities (recount_addEvidence_ne db hne episodes)

/-- A merge writes the tier of a published item again, from the count it has just made. -/
theorem Stamped.mergeEvidence (h : Stamped s) (haligned : Aligned [] s.db) (now : Time)
    (evidence : List EpisodeId) (hmergeable : s.db.mergeable tenant kid = true) :
    Stamped (s.mergeEvidence now tenant kid evidence) := by
  have hafter := haligned.mergeEvidence now evidence hmergeable
  obtain ⟨item, hitem, hown⟩ := List.any_eq_true.mp hmergeable
  obtain ⟨htenant, hid, -⟩ := of_decide_eq_true hown
  unfold TieredDatabase.mergeEvidence
  dsimp only
  split
  · -- an item that is not published has no chunk to write to
    rename_i hnone
    refine h.frame (fun c hc => hc) fun c hc kid' hkid' => ?_
    obtain ⟨k, hk, rfl, hctenant, hstatus, -⟩ := hafter.three_le hc hkid'
    refine namedEntities_addEvidence_ne s.db (fun hsame => ?_) _
    obtain ⟨k₀, hk₀, hk₀id, hk₀tenant, -⟩ := haligned.three_le (c := c) hc hkid'
    have hsameItem : k₀ = item :=
      List.inj_on_of_nodup_map s.db.knowledge.ids_nodup hk₀ hitem
        (hk₀id.trans (hsame.trans hid.symm))
    have hktenant : k.tenantId = tenant :=
      hctenant.symm.trans (hk₀tenant.trans (hsameItem ▸ htenant))
    exact List.find?_eq_none.mp hnone k hk (decide_eq_true ⟨hsame, hktenant, hstatus⟩)
  · rename_i k hfind
    obtain ⟨hkid, hktenant, -⟩ := of_decide_eq_true (List.find?_some hfind :)
    have hk := List.mem_of_find?_eq_some hfind
    have hcounted : k.distinctEntities = namedEntities
        (s.db.mergeEvidence now tenant kid evidence).evidence k.id :=
      hafter.floor.counted (servingItem k) (List.mem_map_of_mem hk) List.not_mem_nil
    intro c hc kid' hkid'
    dsimp only at hc ⊢
    obtain ⟨hmem, hkind, hcurrent⟩ := mem_servedChunks.mp hc
    obtain ⟨k', hk', rfl, hctenant, -⟩ := hafter.three_le hc hkid'
    by_cases hsame : k'.id = kid
    · have hitself : k' = k :=
        List.inj_on_of_nodup_map (Database.knowledge _).ids_nodup hk' hk (hsame.trans hkid.symm)
      subst hitself
      rw [if_pos, tierCase_eq, hcounted]
      · rfl
      · refine List.any_eq_true.mpr ⟨c, hmem, Bool.and_eq_true_iff.mpr ⟨?_, decide_eq_true rfl⟩⟩
        exact decide_eq_true ⟨hctenant.trans hktenant, hsame ▸ hkid', hcurrent, hkind⟩
    · rw [if_neg]
      · have hother : namedEntities (s.db.mergeEvidence now tenant kid evidence).evidence k'.id =
            namedEntities s.db.evidence k'.id := namedEntities_addEvidence_ne s.db hsame _
        rw [hother]
        exact h c hc k'.id hkid'
      · intro hany
        obtain ⟨c', hc', hstamp⟩ := List.any_eq_true.mp hany
        obtain ⟨hrestamped, hcid⟩ := Bool.and_eq_true_iff.mp hstamp
        have hitself : c' = c :=
          List.inj_on_of_nodup_map (Database.chunks _).ids_nodup hc' hmem (of_decide_eq_true hcid)
        have hdocument : c'.documentId = knowledgeDocument kid := (of_decide_eq_true hrestamped).2.1
        rw [hitself, hkid'] at hdocument
        exact hsame (knowledgeDocument_injective hdocument)

/-- A proposal gives evidence to items that are not published. -/
theorem Stamped.proposeKnowledge (h : Stamped s) (haligned : Aligned [] s.db) {text : UnicodeText}
    {id : KnowledgeId} {p : KnowledgeProposal} {o : ProposeOutcome}
    (hok : s.db.proposeKnowledge text now id p = .ok (db, o)) : Stamped { s with db := db } := by
  rcases proposeKnowledge_cases hok with rfl | ⟨twin, htwin, rfl⟩ | hinsert
  · exact h
  · refine h.frame (fun c hc => hc) fun c hc kid hkid => ?_
    obtain ⟨k, hk, rfl, -, hstatus, -⟩ := haligned.three_le (c := c) hc hkid
    refine namedEntities_addEvidence_ne s.db (fun hsame => ?_) _
    have hitself : k = twin :=
      List.inj_on_of_nodup_map s.db.knowledge.ids_nodup hk (twinOf_mem htwin) hsame
    exact twinOf_not_published htwin (hitself ▸ hstatus)
  · obtain ⟨hfresh, -⟩ := insertKnowledge_ok hinsert
    obtain ⟨hothers, -⟩ := recount_insertKnowledge haligned.keys hinsert
    have hchunks : db.chunks = s.db.chunks := by
      unfold Database.insertKnowledge KnowledgeTable.insert at hinsert
      split at hinsert
      · cases hinsert
      · cases hinsert
        rfl
    have hserved : servedChunks db = servedChunks s.db := by
      unfold servedChunks
      rw [hchunks]
    refine h.frame (fun c hc => hserved ▸ hc) fun c hc kid hkid => ?_
    obtain ⟨k, hk, rfl, -⟩ := haligned.three_le (hserved ▸ hc) hkid
    refine congrArg Support.distinctEntities (hothers k.id fun hsame => ?_)
    exact hfresh (hsame ▸ List.mem_map_of_mem hk)

/-! ## Retractions -/

/-- The distinct entities an item is left with when the evidence of some episodes is withdrawn. -/
def entitiesLeft (db : Database) (gone : EpisodeId → Bool) (kid : KnowledgeId) : Nat :=
  namedEntities (deleteWhere (fun e => gone e.episodeId) db.evidence) kid

/-- Each published item of the tenant whose chunk is not taken away itself is left below the
floor or in the bucket it is in. -/
def BucketsKept (db : Database) (tenant : TenantId) (gone : EpisodeId → Bool)
    (taken : Chunk → Bool) : Prop :=
  ∀ k ∈ db.knowledge.rows, k.status = .published → ∀ c ∈ db.chunks.rows, Serves k c →
    c.tenantId = tenant → taken c = false →
      entitiesLeft db gone k.id < 3 ∨ SupportTier.fromDistinct (entitiesLeft db gone k.id) =
        SupportTier.fromDistinct (namedEntities db.evidence k.id)

instance decidableBucketsKept (db : Database) (tenant : TenantId) (gone : EpisodeId → Bool)
    (taken : Chunk → Bool) : Decidable (BucketsKept db tenant gone taken) :=
  inferInstanceAs (Decidable (∀ k ∈ db.knowledge.rows, k.status = .published →
    ∀ c ∈ db.chunks.rows, Serves k c → c.tenantId = tenant → taken c = false →
      entitiesLeft db gone k.id < 3 ∨ SupportTier.fromDistinct (entitiesLeft db gone k.id) =
        SupportTier.fromDistinct (namedEntities db.evidence k.id)))

/-- What a retraction does: it takes some chunks away, withdraws the evidence of some episodes
from the items of the tenant, and closes the chunks of those it leaves below the floor. -/
structure Retracted (tenant : TenantId) (gone : EpisodeId → Bool) (taken : Chunk → Bool)
    (db db' : Database) : Prop where
  old : ∀ c ∈ servedChunks db', c ∈ servedChunks db ∧ taken c = false
  kept : ∀ c ∈ servedChunks db, taken c = false →
    (∀ kid, c.documentId = knowledgeDocument kid → ¬ entitiesLeft db gone kid < 3) →
    c ∈ servedChunks db'
  own : ∀ k ∈ db.knowledge.rows, k.tenantId = tenant →
    namedEntities db'.evidence k.id = entitiesLeft db gone k.id
  others : ∀ k ∈ db.knowledge.rows, k.tenantId ≠ tenant →
    namedEntities db'.evidence k.id = namedEntities db.evidence k.id

/-- The copy is current after a retraction exactly when it has left the items in their buckets. -/
theorem Retracted.stamped_iff {gone : EpisodeId → Bool} {taken : Chunk → Bool}
    (h : Retracted tenant gone taken s.db db) (haligned : Aligned [] s.db) (hafter : Aligned [] db)
    (hs : Stamped s) : Stamped { s with db := db } ↔ BucketsKept s.db tenant gone taken := by
  have hview : BucketsKept s.db tenant gone taken ↔ _ :=
    haligned.forall_serves (P := fun kid c => c.tenantId = tenant → taken c = false →
      entitiesLeft s.db gone kid < 3 ∨ SupportTier.fromDistinct (entitiesLeft s.db gone kid) =
        SupportTier.fromDistinct (namedEntities s.db.evidence kid))
  rw [hview]
  constructor
  · intro hstamped c hc kid hkid htenant htaken
    by_cases hbelow : entitiesLeft s.db gone kid < 3
    · exact Or.inl hbelow
    · obtain ⟨k, hk, rfl, hctenant, -⟩ := haligned.three_le hc hkid
      have hstill : c ∈ servedChunks db := by
        refine h.kept c hc htaken fun kid' hkid' => ?_
        rwa [knowledgeDocument_injective (hkid'.symm.trans hkid)]
      have hnew := hstamped c hstill k.id hkid
      dsimp only at hnew
      rw [h.own k hk (hctenant.symm.trans htenant), hs c hc k.id hkid] at hnew
      exact Or.inr (tierText_inj.mp hnew).symm
  · intro hbuckets c hc kid hkid
    obtain ⟨hold, htaken⟩ := h.old c hc
    obtain ⟨k, hk, rfl, hctenant, -⟩ := haligned.three_le hold hkid
    obtain ⟨-, -, -, -, -, hthree⟩ := hafter.three_le hc hkid
    dsimp only
    rw [hs c hold k.id hkid, tierText_inj]
    by_cases htenant : k.tenantId = tenant
    · rw [h.own k hk htenant] at hthree ⊢
      rcases hbuckets c hold k.id hkid (hctenant.trans htenant) htaken with hbelow | hsame
      · omega
      · exact hsame.symm
    · rw [h.others k hk htenant]

/-- Evidence that is withdrawn item by item, as the items of the tenant see it. -/
theorem namedEntities_withdrawn {gone : EpisodeId → Bool} {p : KnowledgeEvidence → Bool}
    (h : ∀ e ∈ db.evidence, e.knowledgeId = kid → p e = gone e.episodeId) :
    namedEntities (deleteWhere p db.evidence) kid = entitiesLeft db gone kid :=
  congrArg Support.distinctEntities (recount_deleteWhere_congr h)

theorem retracted_forget (db : Database) (now : Time) (tenant : TenantId) (episodeId : EpisodeId) :
    Retracted tenant (fun id => decide (id = episodeId))
      (fun c => decide (c.tenantId = tenant ∧ c.provenance = episodeId)) db
      (db.forget now tenant (.episode episodeId)).1 := by
  obtain ⟨hevidence, -, -⟩ := forget_episode_view db now tenant episodeId
  have hrest := servesRest_foldl_withdrawSupport tenant episodeId now
    (db.supportedBy tenant episodeId) ((db.retireChunks now fun c =>
      decide (c.tenantId = tenant ∧ c.provenance = episodeId)).1.retireFacts now fun r =>
      decide (r.tenantId = tenant ∧ r.provenance = episodeId)).1
  constructor
  · intro c hc
    exact mem_servedChunks_retireChunks.mp (hrest.old c hc)
  · intro c hc htaken hleft
    exact hrest.kept c (mem_servedChunks_retireChunks.mpr ⟨hc, htaken⟩) hleft
  · intro k hk htenant
    rw [hevidence]
    refine namedEntities_withdrawn fun e he hown => ?_
    have hsupported : e.episodeId = episodeId → e.knowledgeId ∈ db.supportedBy tenant episodeId :=
      fun hepisode => hown ▸ (mem_supportedBy hk).mpr ⟨htenant, e, he, hown, hepisode⟩
    exact decide_eq_decide.mpr (and_iff_right_of_imp hsupported)
  · intro k hk htenant
    rw [hevidence]
    refine congrArg Support.distinctEntities (recount_congr (filter_deleteWhere ?_))
    intro e _ hown
    refine decide_eq_false fun hwithdrawn => ?_
    exact htenant ((mem_supportedBy hk).mp (of_decide_eq_true hown ▸ hwithdrawn.1)).1

/-- The items of an erasure are those of the tenant that one of its episodes supports. -/
theorem mem_affectedKnowledge {ids : List EpisodeId} {k : KnowledgeRow}
    (hk : k ∈ db.knowledge.rows) :
    k.id ∈ db.affectedKnowledge tenant ids ↔ k.tenantId = tenant ∧
      ∃ e ∈ db.evidence, e.knowledgeId = k.id ∧ ids.contains e.episodeId = true := by
  unfold affectedKnowledge
  rw [mem_sortedIds, List.mem_map]
  constructor
  · rintro ⟨e, he, hid⟩
    obtain ⟨hmem, hboth⟩ := List.mem_filter.mp he
    obtain ⟨hgone, hown⟩ := Bool.and_eq_true_iff.mp hboth
    obtain ⟨k', hk', hown⟩ := List.any_eq_true.mp hown
    obtain ⟨hkid, htenant⟩ := of_decide_eq_true hown
    have hsame : k' = k :=
      List.inj_on_of_nodup_map db.knowledge.ids_nodup hk' hk (hkid.trans hid)
    exact ⟨hsame ▸ htenant, e, hmem, hid, hgone⟩
  · rintro ⟨htenant, e, he, hid, hgone⟩
    refine ⟨e, List.mem_filter.mpr ⟨he, Bool.and_eq_true_iff.mpr ⟨hgone, ?_⟩⟩, hid⟩
    exact List.any_eq_true.mpr ⟨k, hk, decide_eq_true ⟨hid.symm, htenant⟩⟩

/-- The part of a walk that withdraws evidence. -/
theorem servesRest_withdrawEvidence (db : Database) (tenant : TenantId) (ids : List EpisodeId)
    (now : Time) :
    ServesRest (fun id => entitiesLeft db ids.contains id < 3) db
        (db.withdrawEvidence tenant ids now).1 ∧
      (db.withdrawEvidence tenant ids now).1.evidence =
        deleteWhere (withdraws (db.affectedKnowledge tenant ids) ids) db.evidence := by
  obtain ⟨hrest, hevidence⟩ := servesRest_foldl_recountSupport tenant now
    (db.affectedKnowledge tenant ids)
    ({ db with
      evidence := deleteWhere (withdraws (db.affectedKnowledge tenant ids) ids) db.evidence }, 0)
  refine ⟨⟨hrest.old, fun c hc hleft => ?_⟩, hevidence⟩
  refine hrest.kept c hc fun kid hkid hbelow => hleft kid hkid (lt_of_le_of_lt ?_ hbelow)
  refine namedEntities_mono (fun e he => ?_) kid
  obtain ⟨he, hkept⟩ := mem_deleteWhere.mp he
  refine mem_deleteWhere.mpr ⟨he, ?_⟩
  unfold withdraws
  rw [hkept, Bool.and_false]

/-- An erasure retracts the chunks of its episodes. -/
theorem retracted_walkLineage {ilike : String → String → Bool} {t : ErasureTarget}
    {report : ErasureReport} (hok : db.walkLineage ilike now t = .ok (db', report)) :
    Retracted t.tenant (db.erasedEpisodes t).contains (t.ownsChunk (db.erasedEpisodes t))
      db db' := by
  unfold Database.walkLineage at hok
  dsimp only at hok
  obtain ⟨db₁, hchunks, hok⟩ := exists_of_bind_eq_ok hok
  obtain ⟨db₂, hfacts, hok⟩ := exists_of_bind_eq_ok hok
  obtain ⟨db₃, hepisodes, hok⟩ := exists_of_bind_eq_ok hok
  obtain ⟨rfl, -⟩ := Prod.mk.inj (Except.ok.inj hok)
  obtain rfl := deleteEpisodes_eq_ok hepisodes
  have hdeleted := DataDeleted.of_ok hchunks hfacts
  have hserved : ∀ c, c ∈ servedChunks db₂ ↔
      c ∈ servedChunks db ∧ t.ownsChunk (db.erasedEpisodes t) c = false := by
    intro c
    rw [mem_servedChunks, mem_servedChunks, hdeleted.chunks]
    exact (and_congr_left fun _ => mem_deleteWhere).trans and_right_comm
  obtain ⟨hrest, hevidence⟩ :=
    servesRest_withdrawEvidence db₂ t.tenant (db.erasedEpisodes t) now
  unfold entitiesLeft at hrest
  rw [hdeleted.evidence, hdeleted.affectedKnowledge] at hevidence
  rw [hdeleted.evidence] at hrest
  constructor
  · intro c hc
    exact (hserved c).mp (hrest.old c hc)
  · intro c hc htaken hleft
    exact hrest.kept c ((hserved c).mpr ⟨hc, htaken⟩) hleft
  · intro k hk htenant
    refine Eq.trans (congrArg (namedEntities · k.id) hevidence) (namedEntities_withdrawn ?_)
    intro e he hown
    have hboth : ((db.erasedEpisodes t).contains e.episodeId = true →
        (db.affectedKnowledge t.tenant (db.erasedEpisodes t)).contains e.knowledgeId = true) := by
      intro hgone
      rw [List.contains_iff_mem, hown]
      exact (mem_affectedKnowledge hk).mpr ⟨htenant, e, he, hown, hgone⟩
    unfold withdraws
    cases hgone : (db.erasedEpisodes t).contains e.episodeId with
    | true => rw [hboth hgone, Bool.and_true]
    | false => rw [Bool.and_false]
  · intro k hk htenant
    refine Eq.trans (congrArg (namedEntities · k.id) hevidence) ?_
    refine congrArg Support.distinctEntities (recount_congr (filter_deleteWhere fun e _ hown => ?_))
    rw [Bool.eq_false_iff]
    intro hwithdrawn
    have hmem := (Bool.and_eq_true_iff.mp hwithdrawn).1
    rw [List.contains_iff_mem, of_decide_eq_true hown] at hmem
    exact htenant ((mem_affectedKnowledge hk).mp hmem).1

/-! ## Runs -/

/-- What a call must not do: withdraw evidence of a published item across the boundary of a bucket
and leave its chunk served. -/
def KeepsTier (s : TieredDatabase) : CurationCall → Prop
  | .forget _ tenant (.episode episodeId) =>
    BucketsKept s.db tenant (fun id => decide (id = episodeId)) fun c =>
      decide (c.tenantId = tenant ∧ c.provenance = episodeId)
  | .erase _ t => t.named = true → Erasable s.db t →
      BucketsKept s.db t.tenant (s.db.erasedEpisodes t).contains
        (t.ownsChunk (s.db.erasedEpisodes t))
  | _ => True

instance decidableKeepsTier (s : TieredDatabase) : (call : CurationCall) →
    Decidable (KeepsTier s call)
  | .forget _ _ (.episode _) => decidableBucketsKept _ _ _ _
  | .erase _ t => inferInstanceAs (Decidable (t.named = true → Erasable s.db t →
      BucketsKept s.db t.tenant (s.db.erasedEpisodes t).contains
        (t.ownsChunk (s.db.erasedEpisodes t))))
  | .forget _ _ (.chunk _) | .appendEpisode _ | .propose .. | .merge .. | .promote .. |
    .publish .. | .reject .. => .isTrue trivial

theorem aligned_tieredStep {lib : CurationLibraries} {s' : TieredDatabase} {call : CurationCall}
    (h : Aligned [] s.db) (hstep : s.tieredStep lib call = some s') : Aligned [] s'.db := by
  have hdb : s.db.curationStep lib call = some s'.db := by
    rw [← TieredDatabase.db_tieredStep, hstep, Option.map_some]
  exact aligned_curationStep h hdb

/-- The copy is current after a call exactly when the call keeps the buckets. -/
theorem stamped_tieredStep_iff {lib : CurationLibraries} {s' : TieredDatabase} {call : CurationCall}
    (haligned : Aligned [] s.db) (h : Stamped s) (hstep : s.tieredStep lib call = some s') :
    Stamped s' ↔ KeepsTier s call := by
  have hafter := aligned_tieredStep haligned hstep
  cases call with
  | appendEpisode e =>
    cases hstep
    refine iff_of_true ?_ trivial
    cases hok : s.db.appendEpisode e with
    | error e' => exact h
    | ok db =>
      unfold Database.appendEpisode at hok
      split at hok
      · cases hok
      · cases hok
        exact h
  | propose now id p =>
    cases hstep
    refine iff_of_true ?_ trivial
    cases hok : s.db.proposeKnowledge lib.text now id p with
    | error e => exact h
    | ok result => exact h.proposeKnowledge haligned hok
  | merge now tenant kid evidence =>
    cases hstep
    refine iff_of_true ?_ trivial
    split
    · rename_i hmergeable
      exact h.mergeEvidence haligned now evidence hmergeable
    · exact h
  | promote settings now tenant kid episodeId =>
    cases hstep
    refine iff_of_true ?_ trivial
    have hcases := s.db.promoteIfEligible_cases settings now tenant kid episodeId
    unfold TieredDatabase.promoteIfEligible
    split
    · rename_i db hpromoted
      rw [hpromoted] at hcases
      rcases hcases with ⟨hnot, -⟩ | ⟨-, visibility, hok⟩
      · exact absurd rfl hnot
      · exact h.publish haligned hok
    · rename_i db action hnot hpromoted
      rw [hpromoted] at hcases
      rcases hcases with ⟨-, hsame | hmarked⟩ | ⟨hpublished, -⟩
      · dsimp only at hsame
        rw [hsame]
        exact h
      · dsimp only at hmarked
        rw [hmarked]
        exact h
      · exact absurd hpublished hnot
  | publish now tenant kid episodeId visibility kMin =>
    cases hstep
    refine iff_of_true ?_ trivial
    unfold TieredDatabase.publishRequest
    split
    · rename_i hok
      exact h.publish haligned hok
    · exact h
  | reject tenant kid =>
    cases hstep
    refine iff_of_true ?_ trivial
    unfold Database.rejectKnowledge
    dsimp only
    split
    · exact h
    · exact h
  | forget now tenant ref =>
    cases hstep
    cases ref with
    | chunk chunkId =>
      refine iff_of_true (h.frame (fun c hc => ?_) fun _ _ _ _ => rfl) trivial
      exact (mem_servedChunks_retireChunks.mp hc).1
    | episode episodeId =>
      exact (retracted_forget s.db now tenant episodeId).stamped_iff haligned hafter h
  | erase now t =>
    cases hstep
    dsimp only at hafter ⊢
    cases hok : Model.erase lib.ilike lib.sha256Hex now s.db t with
    | error e =>
      refine iff_of_true h fun hnamed herasable => ?_
      obtain ⟨result, hok'⟩ :=
        (erase_ok_iff lib.ilike lib.sha256Hex now s.db t).mpr ⟨hnamed, herasable⟩
      rw [hok] at hok'
      cases hok'
    | ok result =>
      obtain ⟨hnamed, herasable⟩ := (erase_ok_iff _ _ _ _ _).mp ⟨result, hok⟩
      obtain ⟨-, db₁, row, hwalk, -, -, heq⟩ := erase_eq_ok hok
      have hwalked := retracted_walkLineage hwalk
      have hretracted : Retracted t.tenant (s.db.erasedEpisodes t).contains
          (t.ownsChunk (s.db.erasedEpisodes t)) s.db result.1 := by
        rw [heq]
        exact ⟨hwalked.old, hwalked.kept, hwalked.own, hwalked.others⟩
      rw [hok] at hafter
      refine (hretracted.stamped_iff haligned hafter h).trans ⟨fun hkept _ _ => hkept, ?_⟩
      exact fun hkept => hkept hnamed herasable

/-- In every state of a run that starts before any knowledge the tier of each served chunk is that
of the evidence of its item, exactly when no forgotten episode and no erasure that goes through
moves a published item over the boundary of a bucket and leaves it served. -/
theorem tier_current_iff (lib : CurationLibraries) {s₀ : TieredDatabase}
    (hepisodes : (s₀.db.episodes.map Episode.id).Nodup) (hknowledge : s₀.db.knowledge.rows = [])
    (hevidence : s₀.db.evidence = [])
    (hserved : ∀ c ∈ s₀.db.chunks.rows, ¬ (c.kind = "knowledge" ∧ c.validTo = none))
    (calls : List CurationCall) :
    (∀ before after s, calls = before ++ after →
      run (TieredDatabase.tieredStep lib) s₀ before = some s → TierCurrent s) ↔
      Along (TieredDatabase.tieredStep lib) KeepsTier s₀ calls := by
  have haligned := aligned_of_no_knowledge hepisodes hknowledge hevidence hserved
  have hcurrent : TierCurrent s₀ := by
    intro k hk
    rw [hknowledge] at hk
    exact absurd hk List.not_mem_nil
  have htotal : ∀ s call, ∃ s', TieredDatabase.tieredStep lib s call = some s' := by
    intro s call
    cases call with
    | _ => exact ⟨_, rfl⟩
  obtain ⟨s', hrun⟩ := run_total htotal s₀ calls
  refine run_invariant_iff (I := fun s => Aligned [] s.db) (fun s call s' h hstep => ?_)
    (fun s call s' h hs hstep => ?_) haligned hcurrent hrun
  · exact aligned_tieredStep h hstep
  · rw [(aligned_tieredStep h hstep).tierCurrent_iff]
    exact stamped_tieredStep_iff h (h.tierCurrent_iff.mp hs) hstep

/-- The lesson with a fifth customer. -/
def widerLesson : List CurationCall :=
  [.appendEpisode (lessonEpisode 1 "acme" "crm-agent"),
    .appendEpisode (lessonEpisode 2 "globex" "crm-agent"),
    .appendEpisode (lessonEpisode 3 "initech" "crm-agent"),
    .appendEpisode (lessonEpisode 4 "umbrella" "mail-agent"),
    .appendEpisode (lessonEpisode 5 "hooli" "mail-agent"),
    .propose 20 7 lesson]

/-- It is published with four customers, one is forgotten and a fifth merged in, and then two more
are forgotten, the second below the floor. -/
theorem tier_current_lesson :
    ∃ s, run (TieredDatabase.tieredStep asciiLibraries) ⟨Database.empty, fun _ => none⟩
      (widerLesson ++ [.publish 30 1 7 9 [1] 3, .forget 40 1 (.episode 1), .merge 50 1 7 [5],
        .forget 60 1 (.episode 2), .forget 70 1 (.episode 3)]) = some s ∧ TierCurrent s := by
  have hruns : (run (TieredDatabase.tieredStep asciiLibraries) ⟨Database.empty, fun _ => none⟩
      (widerLesson ++ [.publish 30 1 7 9 [1] 3, .forget 40 1 (.episode 1), .merge 50 1 7 [5],
        .forget 60 1 (.episode 2), .forget 70 1 (.episode 3)])).isSome = true := by
    decide +kernel
  obtain ⟨s, hs⟩ := Option.isSome_iff_exists.mp hruns
  have hepisodes : (Database.empty.episodes.map Episode.id).Nodup := List.nodup_nil
  refine ⟨s, hs, (tier_current_iff asciiLibraries hepisodes rfl rfl
    (fun _ hc => absurd hc List.not_mem_nil) _).mpr ?_ _ [] s (List.append_nil _).symm hs⟩
  decide +kernel

/-- The merge has made five customers of four; one is forgotten, and the chunk still discloses the
bucket of five. -/
theorem forgotten_support_still_disclosed :
    ∃ s, run (TieredDatabase.tieredStep asciiLibraries) ⟨Database.empty, fun _ => none⟩
        (widerLesson ++ [.publish 30 1 7 9 [1] 3, .merge 40 1 7 [5],
          .forget 50 1 (.episode 1)]) = some s ∧
      ¬ TierCurrent s ∧ servedDocuments s.db = [(1, "knowledge:7")] ∧
      (servedChunks s.db).map (fun c => s.supportTier c.id) = [some "established"] ∧
      namedEntities s.db.evidence 7 = 4 := by
  have hview : (run (TieredDatabase.tieredStep asciiLibraries) ⟨Database.empty, fun _ => none⟩
      (widerLesson ++ [.publish 30 1 7 9 [1] 3, .merge 40 1 7 [5],
        .forget 50 1 (.episode 1)])).map (fun s => (decide (TierCurrent s),
          servedDocuments s.db, (servedChunks s.db).map (fun c => s.supportTier c.id),
          namedEntities s.db.evidence 7)) =
      some (false, [(1, "knowledge:7")], [some "established"], 4) := by
    decide +kernel
  obtain ⟨s, hrun, hs⟩ := Option.map_eq_some_iff.mp hview
  rw [Prod.mk.injEq, Prod.mk.injEq, Prod.mk.injEq] at hs
  exact ⟨s, hrun, of_decide_eq_false hs.1, hs.2⟩

end Verity.Analysis
