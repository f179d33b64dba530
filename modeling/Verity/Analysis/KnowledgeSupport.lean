import Verity.Foundation.Fallible
import Verity.Foundation.Run
import Verity.Model.Knowledge

/-!
# The support counters of knowledge items

An item is honest when its four counters are the recount of its evidence rows. A new item is
counted off the episodes that become its rows, and a twin is recounted whole, so proposals keep
the items honest. `forget` recounts the entities and the rows of the items that lose evidence, but
neither their writers nor whether tier-1 evidence is left: it keeps the items honest exactly when
no writer and no tier-1 support leaves with the episode (`honest_iff`). Where the items are honest,
a publish has passed its gates on the support that is there.
-/

set_option autoImplicit false

namespace Verity.Analysis

open Verity.Foundation
open Verity.Model
open Verity.Model.Database

variable {kid : KnowledgeId} {db db' : Database} {id : KnowledgeId} {text : UnicodeText}
  {now : Time} {p : KnowledgeProposal} {leaked : Option String} {tenant : TenantId}
  {episodeId : EpisodeId} {kMin : Int}

/-! ## Counting -/

/-- The elements that a loop pushes once are as many as the different ones. -/
theorem length_foldl_pushNew (l : List String) : (l.foldl pushNew []).length = l.dedup.length := by
  have hloop : ∀ (l acc : List String), acc.Nodup →
      (l.foldl pushNew acc).Nodup ∧ ∀ x, x ∈ l.foldl pushNew acc ↔ x ∈ acc ∨ x ∈ l := by
    intro l
    induction l with
    | nil => exact fun acc hacc => ⟨hacc, by simp⟩
    | cons y l ih =>
      intro acc hacc
      have hnext : (pushNew acc y).Nodup ∧ ∀ x, x ∈ pushNew acc y ↔ x ∈ acc ∨ x = y := by
        unfold pushNew
        by_cases hy : acc.contains y = true
        · rw [if_pos hy]
          rw [List.contains_iff_mem] at hy
          refine ⟨hacc, fun x => ⟨Or.inl, ?_⟩⟩
          rintro (hx | rfl)
          · exact hx
          · exact hy
        · rw [if_neg hy]
          rw [List.contains_iff_mem] at hy
          refine ⟨hacc.append (List.nodup_singleton y) ?_, by simp⟩
          intro x hx hx'
          obtain rfl := List.mem_singleton.mp hx'
          exact hy hx
      obtain ⟨hnodup, hmem⟩ := ih (pushNew acc y) hnext.1
      refine ⟨hnodup, fun x => ?_⟩
      rw [List.foldl_cons, hmem, hnext.2, List.mem_cons, or_assoc]
  obtain ⟨hnodup, hmem⟩ := hloop l [] List.nodup_nil
  refine List.Perm.length_eq ((List.perm_ext_iff_of_nodup hnodup l.nodup_dedup).mpr fun x => ?_)
  rw [hmem, List.mem_dedup]
  simp

theorem foldl_or_eq_any {α : Type} (p : α → Bool) (l : List α) (b : Bool) :
    l.foldl (fun acc x => acc || p x) b = (b || l.any p) := by
  induction l generalizing b with
  | nil => simp
  | cons x l ih => rw [List.foldl_cons, ih, List.any_cons, Bool.or_assoc]

/-- The count depends on the rows of the item only. -/
theorem recount_congr {evidence evidence' : List KnowledgeEvidence}
    (h : (evidence.filter fun e => decide (e.knowledgeId = kid)) =
      evidence'.filter fun e => decide (e.knowledgeId = kid)) :
    recount evidence kid = recount evidence' kid := by
  unfold recount
  rw [h]

/-- The count of an item is the same after two deletions that agree on its rows. -/
theorem recount_deleteWhere_congr {evidence : List KnowledgeEvidence}
    {p p' : KnowledgeEvidence → Bool} (h : ∀ e ∈ evidence, e.knowledgeId = kid → p e = p' e) :
    recount (deleteWhere p evidence) kid = recount (deleteWhere p' evidence) kid := by
  apply recount_congr
  unfold deleteWhere
  rw [List.filter_filter, List.filter_filter]
  apply List.filter_congr
  intro e he
  by_cases hkid : e.knowledgeId = kid
  · rw [h e he hkid]
  · simp [hkid]

/-- Counting off the episodes is counting the rows they become. -/
theorem countEpisodes_eq_recount (kid : KnowledgeId) (episodes : List Episode) :
    countEpisodes episodes = recount (episodes.map (Episode.toEvidence kid)) kid := by
  have hown : ((episodes.map (Episode.toEvidence kid)).filter fun e =>
      decide (e.knowledgeId = kid)) = episodes.map (Episode.toEvidence kid) := by
    rw [List.filter_eq_self]
    intro e he
    obtain ⟨ep, -, rfl⟩ := List.mem_map.mp he
    exact decide_eq_true rfl
  unfold countEpisodes recount
  rw [hown]
  simp only [length_foldl_pushNew, List.filterMap_map, List.length_map, List.any_map,
    foldl_or_eq_any, Bool.false_or]
  rfl

/-! ## Honest items -/

/-- The counters of every item are the recount of its rows. -/
def Honest (db : Database) : Prop :=
  ∀ k ∈ db.knowledge.rows, k.support = recount db.evidence k.id

/-- The keys the schema declares for episodes and evidence.
SOURCE: migrations/0001_init.sql:16, 0005_knowledge.sql:30-35 -/
structure KnowledgeKeys (db : Database) : Prop where
  episodes : (db.episodes.map Episode.id).Nodup
  refers : ∀ e ∈ db.evidence, e.knowledgeId ∈ db.knowledge.rows.map KnowledgeRow.id

/-- The items as far as the counters go. -/
def supports (db : Database) : List (KnowledgeId × TenantId × Support) :=
  db.knowledge.rows.map fun k => (k.id, k.tenantId, k.support)

theorem honest_iff_supports : Honest db ↔ ∀ x ∈ supports db, x.2.2 = recount db.evidence x.1 := by
  unfold Honest supports
  constructor
  · intro h x hx
    obtain ⟨k, hk, rfl⟩ := List.mem_map.mp hx
    exact h k hk
  · intro h k hk
    exact h _ (List.mem_map_of_mem hk)

/-- Nothing the counters depend on has changed. -/
theorem Honest.congr (hsupports : supports db' = supports db)
    (hevidence : db'.evidence = db.evidence) : Honest db' ↔ Honest db := by
  rw [honest_iff_supports, honest_iff_supports, hsupports, hevidence]

theorem map_fst_supports (db : Database) :
    (supports db).map Prod.fst = db.knowledge.rows.map KnowledgeRow.id := by
  unfold supports
  rw [List.map_map]
  rfl

theorem KnowledgeKeys.congr (h : KnowledgeKeys db) (hepisodes : (db'.episodes.map Episode.id).Nodup)
    (hids : (supports db').map Prod.fst = (supports db).map Prod.fst)
    (hevidence : ∀ e ∈ db'.evidence, e ∈ db.evidence) : KnowledgeKeys db' := by
  rw [map_fst_supports, map_fst_supports] at hids
  refine ⟨hepisodes, fun e he => ?_⟩
  rw [hids]
  exact h.refers e (hevidence e he)

/-! ## Evidence -/

theorem foldl_insertEvidenceRow_filter_ne (new : List KnowledgeEvidence)
    (rows : List KnowledgeEvidence) (kid : KnowledgeId) (h : ∀ e ∈ new, e.knowledgeId ≠ kid) :
    ((new.foldl insertEvidenceRow rows).filter fun e => decide (e.knowledgeId = kid)) =
      rows.filter fun e => decide (e.knowledgeId = kid) := by
  induction new generalizing rows with
  | nil => rfl
  | cons e new ih =>
    obtain ⟨he, hnew⟩ := List.forall_mem_cons.mp h
    rw [List.foldl_cons, ih _ hnew]
    unfold insertEvidenceRow
    split
    · rfl
    · rw [List.filter_append, List.filter_cons_of_neg (by simpa using he), List.filter_nil,
        List.append_nil]

theorem mem_foldl_insertEvidenceRow {new rows : List KnowledgeEvidence} {e : KnowledgeEvidence}
    (h : e ∈ new.foldl insertEvidenceRow rows) : e ∈ rows ∨ e ∈ new := by
  induction new generalizing rows with
  | nil => exact Or.inl h
  | cons e' new ih =>
    rw [List.foldl_cons] at h
    rcases ih h with h | h
    · unfold insertEvidenceRow at h
      split at h
      · exact Or.inl h
      · rcases List.mem_append.mp h with h | h
        · exact Or.inl h
        · obtain rfl := List.mem_singleton.mp h
          exact Or.inr List.mem_cons_self
    · exact Or.inr (List.mem_cons_of_mem _ h)

/-- Rows under an id that is not there, of different episodes, are all inserted. -/
theorem foldl_insertEvidenceRow_fresh (kid : KnowledgeId) (episodes : List Episode)
    (rows : List KnowledgeEvidence) (hfresh : ∀ e ∈ rows, e.knowledgeId = kid →
      e.episodeId ∉ episodes.map Episode.id) (hnodup : (episodes.map Episode.id).Nodup) :
    (episodes.map (Episode.toEvidence kid)).foldl insertEvidenceRow rows =
      rows ++ episodes.map (Episode.toEvidence kid) := by
  induction episodes generalizing rows with
  | nil => simp
  | cons ep episodes ih =>
    rw [List.map_cons, List.nodup_cons] at hnodup
    have hinsert : insertEvidenceRow rows (ep.toEvidence kid) = rows ++ [ep.toEvidence kid] := by
      unfold insertEvidenceRow
      rw [if_neg]
      intro hany
      obtain ⟨e, he, hsame⟩ := List.any_eq_true.mp hany
      obtain ⟨hkid, hid⟩ := of_decide_eq_true hsame
      refine hfresh e he hkid ?_
      rw [hid]
      exact List.mem_cons_self
    rw [List.map_cons, List.foldl_cons, hinsert, ih _ ?_ hnodup.2]
    · simp
    · intro e he hkid hmem
      rcases List.mem_append.mp he with he | he
      · exact hfresh e he hkid (List.mem_cons_of_mem _ hmem)
      · obtain rfl := List.mem_singleton.mp he
        exact hnodup.1 hmem

/-! ## Proposals and publishes -/

@[simp]
theorem support_setSupport (k : KnowledgeRow) (s : Support) (categories : List String) :
    ({ k.setSupport s with categories := categories } : KnowledgeRow).support = s := rfl

/-- No other item has a row more. -/
theorem recount_addEvidence_ne (db : Database) (hne : id ≠ kid) (episodes : List Episode) :
    recount (db.addEvidence kid episodes).evidence id = recount db.evidence id := by
  apply recount_congr
  apply foldl_insertEvidenceRow_filter_ne
  intro e he
  obtain ⟨ep, -, rfl⟩ := List.mem_map.mp he
  exact hne.symm

/-- A twin is recounted whole, and no other item has a row more. -/
theorem honest_accrue (h : Honest db) (twin : KnowledgeRow) (categories : List String)
    (episodes : List Episode) : Honest (db.accrue twin categories episodes) := by
  intro k' hk'
  obtain ⟨k, hk, rfl⟩ := List.mem_map.mp hk'
  by_cases htwin : k.id = twin.id
  · rw [if_pos (decide_eq_true htwin)]
    show _ = recount (db.addEvidence twin.id episodes).evidence k.id
    rw [support_setSupport, htwin]
  · rw [if_neg (by simpa using htwin), h k hk]
    exact (recount_addEvidence_ne db htwin episodes).symm

theorem ids_accrue (db : Database) (twin : KnowledgeRow) (categories : List String)
    (episodes : List Episode) :
    (db.accrue twin categories episodes).knowledge.rows.map KnowledgeRow.id =
      db.knowledge.rows.map KnowledgeRow.id :=
  map_updateWhere (fun _ => rfl)

theorem knowledgeKeys_accrue (h : KnowledgeKeys db) {twin : KnowledgeRow}
    (htwin : twin ∈ db.knowledge.rows) (categories : List String) (episodes : List Episode) :
    KnowledgeKeys (db.accrue twin categories episodes) := by
  refine ⟨h.episodes, fun e he => ?_⟩
  rw [ids_accrue]
  rcases mem_foldl_insertEvidenceRow he with he | he
  · exact h.refers e he
  · obtain ⟨ep, -, rfl⟩ := List.mem_map.mp he
    exact List.mem_map_of_mem htwin

theorem insertKnowledge_ok {episodes : List Episode}
    (h : db.insertKnowledge text now id p leaked episodes = .ok db') :
    id ∉ db.knowledge.rows.map KnowledgeRow.id ∧
      db'.knowledge.rows = db.knowledge.rows ++
        [newKnowledge now id p leaked text (countEpisodes episodes)] ∧
      db'.episodes = db.episodes ∧
      db'.evidence = (episodes.map (Episode.toEvidence id)).foldl insertEvidenceRow
        db.evidence := by
  unfold insertKnowledge KnowledgeTable.insert at h
  split at h
  · cases h
  · rename_i hfresh
    cases h
    exact ⟨hfresh, rfl, rfl, rfl⟩

/-- The rows of a new item: those of its episodes, all of them. -/
theorem evidence_insertKnowledge (hkeys : KnowledgeKeys db)
    (hok : db.insertKnowledge text now id p leaked (db.proposalEpisodes p) = .ok db') :
    (∀ e ∈ db.evidence, e.knowledgeId ≠ id) ∧
      db'.evidence = db.evidence ++ (db.proposalEpisodes p).map (Episode.toEvidence id) := by
  obtain ⟨hfresh, -, -, hevidence⟩ := insertKnowledge_ok hok
  have hnone : ∀ e ∈ db.evidence, e.knowledgeId ≠ id := by
    rintro e he rfl
    exact hfresh (hkeys.refers e he)
  refine ⟨hnone, hevidence.trans (foldl_insertEvidenceRow_fresh id _ _ ?_ ?_)⟩
  · exact fun e he hkid => absurd hkid (hnone e he)
  · exact hkeys.episodes.sublist (List.filter_sublist.map Episode.id)

theorem knowledgeKeys_insertKnowledge (hkeys : KnowledgeKeys db)
    (hok : db.insertKnowledge text now id p leaked (db.proposalEpisodes p) = .ok db') :
    KnowledgeKeys db' := by
  obtain ⟨-, hrows, hepisodes, -⟩ := insertKnowledge_ok hok
  obtain ⟨-, hevidence⟩ := evidence_insertKnowledge hkeys hok
  refine ⟨by rw [hepisodes]; exact hkeys.episodes, fun e he => ?_⟩
  rw [hevidence] at he
  rw [hrows, List.map_append]
  rcases List.mem_append.mp he with he | he
  · exact List.mem_append_left _ (hkeys.refers e he)
  · obtain ⟨ep, -, rfl⟩ := List.mem_map.mp he
    exact List.mem_append_right _ (List.mem_singleton.mpr rfl)

/-- The rows of an item that was there are those it had, and the new item has those it is counted
off. -/
theorem recount_insertKnowledge (hkeys : KnowledgeKeys db)
    (hok : db.insertKnowledge text now id p leaked (db.proposalEpisodes p) = .ok db') :
    (∀ kid, kid ≠ id → recount db'.evidence kid = recount db.evidence kid) ∧
      recount db'.evidence id = countEpisodes (db.proposalEpisodes p) := by
  obtain ⟨hnone, hevidence⟩ := evidence_insertKnowledge hkeys hok
  rw [hevidence]
  constructor
  · intro kid hne
    apply recount_congr
    have hnew : ((db.proposalEpisodes p).map (Episode.toEvidence id)).filter
        (fun e => decide (e.knowledgeId = kid)) = [] := by
      rw [List.filter_eq_nil_iff]
      intro e he
      obtain ⟨ep, -, rfl⟩ := List.mem_map.mp he
      rw [decide_eq_true_eq]
      exact fun heq => hne heq.symm
    rw [List.filter_append, hnew, List.append_nil]
  · rw [countEpisodes_eq_recount id]
    apply recount_congr
    have hold : db.evidence.filter (fun e => decide (e.knowledgeId = id)) = [] := by
      rw [List.filter_eq_nil_iff]
      intro e he
      rw [decide_eq_true_eq]
      exact hnone e he
    rw [List.filter_append, hold, List.nil_append]

/-- A new item is counted off the episodes that become its rows. -/
theorem honest_insertKnowledge (hkeys : KnowledgeKeys db) (h : Honest db)
    (hok : db.insertKnowledge text now id p leaked (db.proposalEpisodes p) = .ok db') :
    Honest db' := by
  obtain ⟨hfresh, hrows, -, -⟩ := insertKnowledge_ok hok
  obtain ⟨hothers, hnew⟩ := recount_insertKnowledge hkeys hok
  intro k hk
  rw [hrows] at hk
  rcases List.mem_append.mp hk with hk | hk
  · have hne : k.id ≠ id := fun heq => hfresh (heq ▸ List.mem_map_of_mem hk)
    rw [h k hk, hothers k.id hne]
  · obtain rfl := List.mem_singleton.mp hk
    have hcount : (newKnowledge now id p leaked text
        (countEpisodes (db.proposalEpisodes p))).support =
        countEpisodes (db.proposalEpisodes p) := rfl
    rw [hcount]
    exact hnew.symm

theorem twinOf_mem {twin : KnowledgeRow} (h : db.twinOf p = some twin) :
    twin ∈ db.knowledge.rows := by
  have hmem := List.mem_of_head? h
  exact (List.mem_filter.mp ((List.mem_insertionSort _).mp hmem)).1

/-- What a proposal that succeeds can do. -/
theorem proposeKnowledge_cases {o : ProposeOutcome}
    (hok : db.proposeKnowledge text now id p = .ok (db', o)) :
    db' = db ∨
    (∃ twin, db.twinOf p = some twin ∧
      db' = db.accrue twin p.categories (db.proposalEpisodes p)) ∨
    db.insertKnowledge text now id p
      ((db.lexicon p.tenantId).findSome? (leakedTerm text p.statement))
      (db.proposalEpisodes p) = .ok db' := by
  unfold proposeKnowledge at hok
  split at hok
  · cases hok
    exact Or.inl rfl
  · dsimp only at hok
    split at hok
    · rename_i twin _ htwin
      cases hok
      exact Or.inr (Or.inl ⟨twin, htwin, rfl⟩)
    · obtain ⟨db₁, hinsert, hpure⟩ := exists_of_bind_eq_ok hok
      cases hpure
      exact Or.inr (Or.inr hinsert)

/-- Proposals keep the keys, and the items honest, whatever becomes of them. -/
theorem honest_proposeKnowledge {o : ProposeOutcome} (hkeys : KnowledgeKeys db)
    (hok : db.proposeKnowledge text now id p = .ok (db', o)) :
    KnowledgeKeys db' ∧ (Honest db → Honest db') := by
  rcases proposeKnowledge_cases hok with rfl | ⟨twin, htwin, rfl⟩ | hinsert
  · exact ⟨hkeys, fun h => h⟩
  · exact ⟨knowledgeKeys_accrue hkeys (twinOf_mem htwin) _ _, fun h => honest_accrue h twin _ _⟩
  · exact ⟨knowledgeKeys_insertKnowledge hkeys hinsert, fun h =>
      honest_insertKnowledge hkeys h hinsert⟩

/-- What a publish that succeeds has found, and what it has written. -/
theorem publishKnowledge_eq_ok {visibility : List PrincipalToken}
    (h : db.publishKnowledge now tenant id episodeId visibility kMin = .ok db') :
    ∃ k ∈ db.knowledge.rows, k.tenantId = tenant ∧ k.id = id ∧ publishGates k kMin = .ok () ∧
      (∀ e ∈ db.episodes, e.id ≠ episodeId) ∧
      db' = { db with
        episodes := db.episodes ++ [publishEpisode now k episodeId]
        chunks := db.chunks.append (knowledgeChunk db.chunks now k episodeId visibility) rfl
        knowledge := db.knowledge.updateRows (fun k => decide (k.id = id))
          (fun k => { k with status := .published, publishedAt := some now }) (fun _ => rfl) } := by
  unfold publishKnowledge at h
  split at h
  · cases h
  · split at h
    · cases h
    · rename_i k hfind
      split at h
      · cases h
      · rename_i hgates
        split at h
        · cases h
        · rename_i hfresh
          split at h
          · cases h
          · have hk := List.find?_some hfind
            rw [decide_eq_true_eq] at hk
            refine ⟨k, List.mem_of_find?_eq_some hfind, hk.1, hk.2, hgates, ?_,
              (Except.ok.inj h).symm⟩
            intro e he heq
            exact hfresh (List.any_eq_true.mpr ⟨e, he, decide_eq_true heq⟩)

/-- A publish that succeeds found its item, and the gates passed on its counters. -/
theorem publishKnowledge_ok {visibility : List PrincipalToken}
    (h : db.publishKnowledge now tenant id episodeId visibility kMin = .ok db') :
    (∃ k ∈ db.knowledge.rows, k.tenantId = tenant ∧ k.id = id ∧
      publishGates k kMin = .ok ()) ∧
    (∀ e ∈ db.episodes, e.id ≠ episodeId) ∧
    (∃ e, e.id = episodeId ∧ db'.episodes = db.episodes ++ [e]) ∧
    supports db' = supports db ∧ db'.evidence = db.evidence := by
  obtain ⟨k, hk, htenant, hid, hgates, hfresh, rfl⟩ := publishKnowledge_eq_ok h
  exact ⟨⟨k, hk, htenant, hid, hgates⟩, hfresh, ⟨_, rfl, rfl⟩, map_updateWhere fun _ => rfl, rfl⟩

/-- The gates pass on the counters as they stand. -/
theorem publishGates_ok {k : KnowledgeRow} (h : publishGates k kMin = .ok ()) :
    kMin ≤ k.support.distinctEntities ∧
      (2 ≤ k.support.writerCount ∨ k.support.hasTier1Evidence = true) := by
  unfold publishGates at h
  split at h
  · cases h
  · split at h
    · cases h
    · split at h
      · cases h
      · rename_i hk hcorroborated
        refine ⟨not_lt.mp hk, ?_⟩
        by_contra hnot
        rw [not_or, not_le, Bool.not_eq_true] at hnot
        exact hcorroborated hnot

/-! ## Forgetting an episode -/

/-- What `forget` counts again of an item. -/
def recounted (evidence : List KnowledgeEvidence) (x : KnowledgeId × TenantId × Support) :
    KnowledgeId × TenantId × Support :=
  (x.1, x.2.1, { x.2.2 with
    distinctEntities := (recount evidence x.1).distinctEntities
    episodeCount := (recount evidence x.1).episodeCount })

@[simp]
theorem supports_withdrawKnowledge (db : Database) (kid : KnowledgeId) (now : Time) :
    supports (db.withdrawKnowledge kid now) = supports db := by
  unfold supports withdrawKnowledge
  exact map_updateWhere fun _ => rfl

@[simp]
theorem supports_retireKnowledgeChunk (db : Database) (tenant : TenantId) (kid : KnowledgeId)
    (now : Time) : supports (db.retireKnowledgeChunk tenant kid now) = supports db := rfl

/-- The rows of the items after the support of one is withdrawn. -/
theorem withdrawSupport_view (tenant : TenantId) (episodeId : EpisodeId) (now : Time)
    (db : Database) (kid : KnowledgeId) :
    let evidence := deleteWhere
      (fun e => decide (e.knowledgeId = kid ∧ e.episodeId = episodeId)) db.evidence
    (withdrawSupport tenant episodeId now db kid).evidence = evidence ∧
    (withdrawSupport tenant episodeId now db kid).episodes = db.episodes ∧
    supports (withdrawSupport tenant episodeId now db kid) =
      (supports db).map fun x => if x.1 = kid then recounted evidence x else x := by
  intro evidence
  have hset : ∀ db' : Database, db'.knowledge = db.knowledge →
      supports (db'.setSupport kid (recount evidence kid).distinctEntities
        (recount evidence kid).episodeCount) =
      (supports db).map fun x => if x.1 = kid then recounted evidence x else x := by
    intro db' hknowledge
    unfold supports Database.setSupport KnowledgeTable.updateRows updateWhere
    rw [hknowledge, List.map_map, List.map_map]
    apply List.map_congr_left
    intro k _
    simp only [Function.comp_apply, decide_eq_true_eq]
    by_cases hid : k.id = kid
    · subst hid
      simp [recounted, KnowledgeRow.support]
    · simp [hid]
  unfold withdrawSupport
  dsimp only
  split
  · split
    · refine ⟨rfl, rfl, ?_⟩
      rw [supports_retireKnowledgeChunk, supports_withdrawKnowledge]
      exact hset _ rfl
    · refine ⟨rfl, rfl, ?_⟩
      rw [supports_withdrawKnowledge]
      exact hset _ rfl
  · exact ⟨rfl, rfl, hset _ rfl⟩

/-- The rows after the support of all of them is withdrawn: each is recounted on the evidence that
is left in the end, because no other item's turn touches its rows. -/
theorem foldl_withdrawSupport_view (tenant : TenantId) (episodeId : EpisodeId) (now : Time)
    (kids : List KnowledgeId) (db : Database) :
    let evidence := deleteWhere
      (fun e => decide (e.knowledgeId ∈ kids ∧ e.episodeId = episodeId)) db.evidence
    (kids.foldl (withdrawSupport tenant episodeId now) db).evidence = evidence ∧
    (kids.foldl (withdrawSupport tenant episodeId now) db).episodes = db.episodes ∧
    supports (kids.foldl (withdrawSupport tenant episodeId now) db) =
      (supports db).map fun x => if x.1 ∈ kids then recounted evidence x else x := by
  induction kids generalizing db with
  | nil =>
    refine ⟨?_, rfl, ?_⟩
    · simp [deleteWhere]
    · simp
  | cons kid kids ih =>
    obtain ⟨hevidence₁, hepisodes₁, hsupports₁⟩ :=
      withdrawSupport_view tenant episodeId now db kid
    obtain ⟨hevidence, hepisodes, hsupports⟩ :=
      ih (withdrawSupport tenant episodeId now db kid)
    have hboth : deleteWhere (fun e => decide (e.knowledgeId ∈ kids ∧ e.episodeId = episodeId))
          (withdrawSupport tenant episodeId now db kid).evidence =
        deleteWhere (fun e => decide (e.knowledgeId ∈ kid :: kids ∧ e.episodeId = episodeId))
          db.evidence := by
      rw [hevidence₁, deleteWhere_deleteWhere]
      congr 1
      funext e
      simp only [← Bool.decide_or, List.mem_cons, or_and_right]
    -- the rows of the first item are those that its own turn left
    have hfirst : recount (deleteWhere
          (fun e => decide (e.knowledgeId = kid ∧ e.episodeId = episodeId)) db.evidence) kid =
        recount (deleteWhere (fun e => decide (e.knowledgeId ∈ kid :: kids ∧
          e.episodeId = episodeId)) db.evidence) kid := by
      apply recount_deleteWhere_congr
      rintro e _ rfl
      simp
    rw [List.foldl_cons]
    refine ⟨hevidence.trans hboth, hepisodes.trans hepisodes₁, ?_⟩
    rw [hsupports, hboth, hsupports₁, List.map_map]
    apply List.map_congr_left
    rintro ⟨id, t, support⟩ _
    rw [Function.comp_apply]
    by_cases hkid : id = kid
    · subst hkid
      rw [if_pos rfl, if_pos List.mem_cons_self]
      unfold recounted
      rw [hfirst]
      split <;> rfl
    · rw [if_neg hkid]
      by_cases hrest : id ∈ kids
      · rw [if_pos hrest, if_pos (List.mem_cons_of_mem _ hrest)]
      · rw [if_neg hrest, if_neg (by simp [hkid, hrest])]

/-- The items that lose evidence, and what is left of it. -/
theorem forget_episode_view (db : Database) (now : Time) (tenant : TenantId)
    (episodeId : EpisodeId) :
    let kids := db.supportedBy tenant episodeId
    let evidence := deleteWhere
      (fun e => decide (e.knowledgeId ∈ kids ∧ e.episodeId = episodeId)) db.evidence
    (db.forget now tenant (.episode episodeId)).1.evidence = evidence ∧
    (db.forget now tenant (.episode episodeId)).1.episodes = db.episodes ∧
    supports (db.forget now tenant (.episode episodeId)).1 =
      (supports db).map fun x => if x.1 ∈ kids then recounted evidence x else x :=
  foldl_withdrawSupport_view tenant episodeId now _ _

/-- No item of the tenant loses a writer or its tier-1 support with the episode. -/
def KeepsCorroboration (db : Database) (tenant : TenantId) (episodeId : EpisodeId) : Prop :=
  ∀ k ∈ db.knowledge.rows, k.tenantId = tenant → ∀ e ∈ db.evidence, e.knowledgeId = k.id →
    e.episodeId = episodeId →
    (∀ writer, e.writerAzp = some writer → ∃ e' ∈ db.evidence, e'.knowledgeId = k.id ∧
      e'.episodeId ≠ episodeId ∧ e'.writerAzp = some writer) ∧
    (e.trustTier = .authoritative → ∃ e' ∈ db.evidence, e'.knowledgeId = k.id ∧
      e'.episodeId ≠ episodeId ∧ e'.trustTier = .authoritative)

/-- A part of a list has as many different elements exactly when it has them all. -/
theorem length_dedup_eq_iff {l l' : List String} (hsub : l' ⊆ l) :
    l.dedup.length = l'.dedup.length ↔ l ⊆ l' := by
  have hsubperm : l'.dedup.Subperm l.dedup := by
    refine List.subperm_of_subset l'.nodup_dedup fun x hx => ?_
    exact List.mem_dedup.mpr (hsub (List.mem_dedup.mp hx))
  constructor
  · intro hlength x hx
    have hperm := hsubperm.perm_of_length_le hlength.le
    exact List.mem_dedup.mp (hperm.mem_iff.mpr (List.mem_dedup.mpr hx))
  · intro hsup
    have hperm : l.dedup.Perm l'.dedup :=
      (List.perm_ext_iff_of_nodup l.nodup_dedup l'.nodup_dedup).mpr fun x => by
        rw [List.mem_dedup, List.mem_dedup]
        exact ⟨fun hx => hsup hx, fun hx => hsub hx⟩
    exact hperm.length_eq

theorem mem_supportedBy {k : KnowledgeRow} (hk : k ∈ db.knowledge.rows) :
    k.id ∈ db.supportedBy tenant episodeId ↔ k.tenantId = tenant ∧
      ∃ e ∈ db.evidence, e.knowledgeId = k.id ∧ e.episodeId = episodeId := by
  unfold supportedBy
  simp only [List.mem_map, List.mem_filter, Bool.and_eq_true, decide_eq_true_eq,
    List.any_eq_true]
  constructor
  · rintro ⟨e, ⟨he, hepisode, k', hk', hid, htenant⟩, heq⟩
    obtain rfl : k' = k := List.inj_on_of_nodup_map db.knowledge.ids_nodup hk' hk (hid.trans heq)
    exact ⟨htenant, e, he, heq, hepisode⟩
  · rintro ⟨htenant, e, he, heq, hepisode⟩
    exact ⟨e, ⟨he, hepisode, k, hk, heq.symm, htenant⟩, heq⟩

/-- The rows of an item that loses evidence. -/
theorem filter_deleteWhere_supported (evidence : List KnowledgeEvidence) (episodeId : EpisodeId)
    {kids : List KnowledgeId} (hkid : kid ∈ kids) :
    ((deleteWhere (fun e => decide (e.knowledgeId ∈ kids ∧ e.episodeId = episodeId))
        evidence).filter fun e => decide (e.knowledgeId = kid)) =
      (evidence.filter fun e => decide (e.knowledgeId = kid)).filter fun e =>
        decide (e.episodeId ≠ episodeId) := by
  unfold deleteWhere
  rw [List.filter_filter, List.filter_filter]
  apply List.filter_congr
  intro e _
  rw [Bool.eq_iff_iff]
  simp only [Bool.and_eq_true, Bool.not_eq_true', decide_eq_false_iff_not, decide_eq_true_eq]
  constructor
  · rintro ⟨rfl, hkept⟩
    exact ⟨fun hepisode => hkept ⟨hkid, hepisode⟩, rfl⟩
  · rintro ⟨hepisode, rfl⟩
    exact ⟨rfl, fun hlost => hepisode hlost.2⟩

/-- The writers and the tier-1 support of an item, before and after its rows of an episode are
gone. -/
theorem corroboration_eq_iff (rows : List KnowledgeEvidence) (episodeId : EpisodeId) :
    (rows.filterMap KnowledgeEvidence.writerAzp).dedup.length =
        ((rows.filter fun e => decide (e.episodeId ≠ episodeId)).filterMap
          KnowledgeEvidence.writerAzp).dedup.length ∧
      (rows.any fun e => decide (e.trustTier = .authoritative)) =
        (rows.filter fun e => decide (e.episodeId ≠ episodeId)).any
          (fun e => decide (e.trustTier = .authoritative)) ↔
    ∀ e ∈ rows, e.episodeId = episodeId →
      (∀ writer, e.writerAzp = some writer →
        ∃ e' ∈ rows, e'.episodeId ≠ episodeId ∧ e'.writerAzp = some writer) ∧
      (e.trustTier = .authoritative →
        ∃ e' ∈ rows, e'.episodeId ≠ episodeId ∧ e'.trustTier = .authoritative) := by
  have hsub : ((rows.filter fun e => decide (e.episodeId ≠ episodeId)).filterMap
      KnowledgeEvidence.writerAzp) ⊆ rows.filterMap KnowledgeEvidence.writerAzp :=
    (List.filter_sublist.filterMap _).subset
  rw [length_dedup_eq_iff hsub, Bool.eq_iff_iff]
  simp only [List.subset_def, List.mem_filterMap, List.any_eq_true, List.mem_filter,
    decide_eq_true_eq]
  constructor
  · rintro ⟨hwriters, htier⟩ e he hepisode
    refine ⟨fun writer hwriter => ?_, fun htier1 => ?_⟩
    · obtain ⟨e', ⟨he', hother⟩, hsame⟩ := hwriters ⟨e, he, hwriter⟩
      exact ⟨e', he', hother, hsame⟩
    · obtain ⟨e', ⟨he', hother⟩, hsame⟩ := htier.mp ⟨e, he, htier1⟩
      exact ⟨e', he', hother, hsame⟩
  · intro h
    refine ⟨?_, ?_, ?_⟩
    · rintro writer ⟨e, he, hwriter⟩
      by_cases hepisode : e.episodeId = episodeId
      · obtain ⟨e', he', hother, hsame⟩ := (h e he hepisode).1 writer hwriter
        exact ⟨e', ⟨he', hother⟩, hsame⟩
      · exact ⟨e, ⟨he, hepisode⟩, hwriter⟩
    · rintro ⟨e, he, htier⟩
      by_cases hepisode : e.episodeId = episodeId
      · obtain ⟨e', he', hother, hsame⟩ := (h e he hepisode).2 htier
        exact ⟨e', ⟨he', hother⟩, hsame⟩
      · exact ⟨e, ⟨he, hepisode⟩, htier⟩
    · rintro ⟨e, ⟨he, -⟩, htier⟩
      exact ⟨e, he, htier⟩

/-- Forgetting an episode keeps honest items honest exactly when none of them loses a writer or
its tier-1 support with it. -/
theorem honest_forget_episode_iff (h : Honest db) (now : Time) (tenant : TenantId)
    (episodeId : EpisodeId) :
    Honest (db.forget now tenant (.episode episodeId)).1 ↔
      KeepsCorroboration db tenant episodeId := by
  obtain ⟨hevidence, -, hsupports⟩ := forget_episode_view db now tenant episodeId
  rw [honest_iff_supports, hevidence, hsupports]
  unfold supports
  simp only [List.map_map, List.forall_mem_map, Function.comp_apply]
  unfold KeepsCorroboration
  refine forall₂_congr fun k hk => ?_
  by_cases hkid : k.id ∈ db.supportedBy tenant episodeId
  · -- the entities and the rows are recounted, the writers and the tier are those of before
    obtain ⟨htenant, -⟩ := (mem_supportedBy hk).mp hkid
    rw [if_pos hkid]
    have hrows := filter_deleteWhere_supported db.evidence episodeId hkid
    simp only [recounted, h k hk, htenant, true_implies]
    have hiff := corroboration_eq_iff
      (db.evidence.filter fun e => decide (e.knowledgeId = k.id)) episodeId
    rw [← hrows] at hiff
    simp only [recount, Support.mk.injEq, true_and]
    rw [hiff]
    simp only [List.mem_filter, decide_eq_true_eq, and_imp, and_assoc]
  · rw [if_neg hkid]
    have hnone : ∀ e ∈ db.evidence, e.knowledgeId = k.id → e.episodeId = episodeId →
        k.tenantId ≠ tenant := by
      intro e he hid hepisode htenant
      exact hkid ((mem_supportedBy hk).mpr ⟨htenant, e, he, hid, hepisode⟩)
    refine iff_of_true ?_ fun htenant e he hid hepisode =>
      absurd htenant (hnone e he hid hepisode)
    rw [h k hk]
    refine recount_congr (filter_deleteWhere ?_).symm
    intro e _ hown
    rw [decide_eq_true_eq] at hown
    rw [decide_eq_false_iff_not, hown]
    exact fun hlost => hkid hlost.1

/-! ## Runs -/

/-- The side condition of a call: only the forgetting of an episode has one. -/
def CallKeepsCorroboration (db : Database) : KnowledgeCall → Prop
  | .forget _ tenant (.episode episodeId) => KeepsCorroboration db tenant episodeId
  | _ => True

/-- A publish that succeeds has passed its gates on the evidence rows of the item. -/
def PublishesOnEvidence (db : Database) : Prop :=
  ∀ now tenant id episodeId visibility kMin db',
    db.publishKnowledge now tenant id episodeId visibility kMin = .ok db' →
      kMin ≤ (recount db.evidence id).distinctEntities ∧
        (2 ≤ (recount db.evidence id).writerCount ∨
          (recount db.evidence id).hasTier1Evidence = true)

theorem publishesOnEvidence_of_honest (h : Honest db) : PublishesOnEvidence db := by
  intro now tenant id episodeId visibility kMin db' hok
  obtain ⟨⟨k, hk, -, rfl, hgates⟩, -⟩ := publishKnowledge_ok hok
  rw [← h k hk]
  exact publishGates_ok hgates

/-- One call: the keys are kept, and honest items stay honest exactly under its condition. -/
theorem honest_knowledgeStep_iff {call : KnowledgeCall} (hkeys : KnowledgeKeys db)
    (hstep : db.knowledgeStep text call = some db') :
    KnowledgeKeys db' ∧ (Honest db → (Honest db' ↔ CallKeepsCorroboration db call)) := by
  cases call with
  | appendEpisode e =>
    simp only [knowledgeStep, Database.appendEpisode] at hstep
    split at hstep
    · rename_i happend
      split at happend
      · cases happend
      · rename_i hfresh
        cases happend
        cases hstep
        refine ⟨⟨nodup_keys_concat hkeys.episodes ?_, hkeys.refers⟩,
          fun h => iff_of_true h trivial⟩
        intro e' he' heq
        exact hfresh (List.any_eq_true.mpr ⟨e', he', decide_eq_true heq⟩)
    · cases hstep
      exact ⟨hkeys, fun h => iff_of_true h trivial⟩
  | propose now id p =>
    simp only [knowledgeStep] at hstep
    split at hstep
    · rename_i db₁ o hok
      cases hstep
      obtain ⟨hkeys', hhonest⟩ := honest_proposeKnowledge hkeys hok
      exact ⟨hkeys', fun h => iff_of_true (hhonest h) trivial⟩
    · cases hstep
      exact ⟨hkeys, fun h => iff_of_true h trivial⟩
  | forget now tenant ref =>
    cases hstep
    cases ref with
    | chunk id => exact ⟨⟨hkeys.episodes, hkeys.refers⟩, fun h => iff_of_true h trivial⟩
    | episode episodeId =>
      obtain ⟨hevidence, hepisodes, hsupports⟩ := forget_episode_view db now tenant episodeId
      refine ⟨hkeys.congr ?_ ?_ ?_, fun h => honest_forget_episode_iff h now tenant episodeId⟩
      · rw [hepisodes]
        exact hkeys.episodes
      · rw [hsupports, List.map_map]
        apply List.map_congr_left
        intro x _
        rw [Function.comp_apply]
        split <;> rfl
      · intro e he
        rw [hevidence] at he
        exact (mem_deleteWhere.mp he).1
  | publish now tenant id episodeId visibility kMin =>
    simp only [knowledgeStep] at hstep
    split at hstep
    · rename_i db₁ hok
      cases hstep
      obtain ⟨-, hfresh, ⟨e, rfl, hepisodes⟩, hsupports, hevidence⟩ := publishKnowledge_ok hok
      refine ⟨hkeys.congr ?_ (by rw [hsupports]) ?_, fun h =>
        iff_of_true ((Honest.congr hsupports hevidence).mpr h) trivial⟩
      · rw [hepisodes]
        exact nodup_keys_concat hkeys.episodes hfresh
      · intro e he
        exact hevidence ▸ he
    · cases hstep
      exact ⟨hkeys, fun h => iff_of_true h trivial⟩

theorem run_knowledgeStep (text : UnicodeText) (db : Database) (calls : List KnowledgeCall) :
    ∃ db', run (knowledgeStep text) db calls = some db' := by
  refine run_total (fun db call => ?_) db calls
  cases call with
  | forget => exact ⟨_, rfl⟩
  | _ =>
    simp only [knowledgeStep]
    split <;> exact ⟨_, rfl⟩

/-- In every state of a run of proposals, publishes, forgets and new episodes the counters of every
item are the recount of its evidence, and no publish passes its gates on other support, exactly
when no episode that the run forgets is the last of an item's evidence from its writer or of
tier 1. -/
theorem honest_iff (text : UnicodeText) {db₀ : Database} (hkeys : KnowledgeKeys db₀)
    (h₀ : Honest db₀) (calls : List KnowledgeCall) :
    (∀ before after db, calls = before ++ after →
      run (knowledgeStep text) db₀ before = some db → Honest db ∧ PublishesOnEvidence db) ↔
      Along (knowledgeStep text) CallKeepsCorroboration db₀ calls := by
  obtain ⟨db', hrun⟩ := run_knowledgeStep text db₀ calls
  rw [← run_invariant_iff (P := CallKeepsCorroboration) (I := KnowledgeKeys) (G := Honest)
    (fun _ _ _ hI hstep => (honest_knowledgeStep_iff hI hstep).1)
    (fun _ _ _ hI hG hstep => (honest_knowledgeStep_iff hI hstep).2 hG) hkeys h₀ hrun]
  constructor
  · intro h before after db hsplit hbefore
    exact (h before after db hsplit hbefore).1
  · intro h before after db hsplit hbefore
    have hhonest := h before after db hsplit hbefore
    exact ⟨hhonest, publishesOnEvidence_of_honest hhonest⟩

/-- An observation of an agent about an entity. -/
def lessonEpisode (id : EpisodeId) (entity writer : String) : Episode where
  id := id
  tenantId := 1
  source := "agent"
  sourceEntity := some entity
  kind := .observation
  payload := .observation "SSO is asked for before the pilot" [] []
  trustTier := .observation
  writerSub := none
  writerAzp := some writer
  recordedAt := 10

/-- The lesson drawn from four of them. -/
def lesson : KnowledgeProposal where
  tenantId := 1
  statement := "customers ask for SSO first"
  categories := []
  evidence := [1, 2, 3, 4]
  proposedBySub := none
  proposedByAzp := none
  canonicalStatement := none

/-- Four customers, two writers. -/
def lessonCalls : List KnowledgeCall :=
  [.appendEpisode (lessonEpisode 1 "acme" "crm-agent"),
    .appendEpisode (lessonEpisode 2 "globex" "crm-agent"),
    .appendEpisode (lessonEpisode 3 "initech" "crm-agent"),
    .appendEpisode (lessonEpisode 4 "umbrella" "mail-agent"),
    .propose 20 7 lesson]

/-- Where nothing is forgotten, the lesson is honest all along. -/
theorem lesson_honest :
    KnowledgeKeys Database.empty ∧ Honest Database.empty ∧
    ∀ before after db, lessonCalls = before ++ after →
      run (knowledgeStep ⟨toAsciiLowercase, toAsciiLowercase⟩) Database.empty before = some db →
        Honest db ∧ PublishesOnEvidence db := by
  have hkeys : KnowledgeKeys Database.empty :=
    ⟨List.nodup_nil, fun _ he => absurd he List.not_mem_nil⟩
  have hempty : Honest Database.empty := fun _ hk => absurd hk List.not_mem_nil
  refine ⟨hkeys, hempty, (honest_iff _ hkeys hempty lessonCalls).mpr ?_⟩
  refine ⟨trivial, fun _ _ => ⟨trivial, fun _ _ => ⟨trivial, fun _ _ => ⟨trivial, fun _ _ => ?_⟩⟩⟩⟩
  exact ⟨trivial, fun _ _ => trivial⟩

/-- The second writer's episode is forgotten. The item still counts two writers, and a publish
passes the corroboration gate with the evidence of one. -/
theorem withdrawn_writer_still_counted :
    ∃ db, run (knowledgeStep ⟨toAsciiLowercase, toAsciiLowercase⟩) Database.empty
        (lessonCalls ++ [.forget 30 1 (.episode 4)]) = some db ∧
      ¬ Honest db ∧
      (recount db.evidence 7).writerCount = 1 ∧
      (recount db.evidence 7).hasTier1Evidence = false ∧
      ∃ db', db.publishKnowledge 40 1 7 9 [1] 3 = .ok db' := by
  have hview : (run (knowledgeStep ⟨toAsciiLowercase, toAsciiLowercase⟩) Database.empty
      (lessonCalls ++ [.forget 30 1 (.episode 4)])).map (fun db =>
        (db.knowledge.rows.map KnowledgeRow.id, db.knowledge.rows.map KnowledgeRow.writerCount,
          recount db.evidence 7, (db.publishKnowledge 40 1 7 9 [1] 3).isOk)) =
      some ([7], [2], ⟨3, 3, 1, false⟩, true) := by
    decide +kernel
  obtain ⟨db, hdb, hview⟩ := Option.map_eq_some_iff.mp hview
  simp only [Prod.mk.injEq] at hview
  obtain ⟨hids, hwriters, hcount, hpublish⟩ := hview
  refine ⟨db, hdb, ?_, by rw [hcount], by rw [hcount], ?_⟩
  · intro hhonest
    obtain ⟨k, hk⟩ : ∃ k, db.knowledge.rows = [k] := List.map_eq_singleton_iff.mp hids |>.imp
      fun _ h => h.1
    rw [hk] at hids hwriters
    have hsame := hhonest k (by rw [hk]; exact List.mem_cons_self)
    rw [(List.singleton_inj.mp hids : k.id = 7), hcount] at hsame
    have htwo : k.writerCount = 2 := List.singleton_inj.mp hwriters
    have hone : k.writerCount = 1 := congrArg Support.writerCount hsame
    rw [htwo] at hone
    cases hone
  · cases hresult : db.publishKnowledge 40 1 7 9 [1] 3 with
    | ok db' => exact ⟨db', rfl⟩
    | error e =>
      rw [hresult] at hpublish
      cases hpublish

end Verity.Analysis
