import Verity.Analysis.FactUpsert
import Verity.Analysis.ProposeRace
import Verity.Model.Consolidation

/-!
# Completing an episode

A call that finds the episode unprocessed marks it and then writes the payload. If it stops after
the mark, what it wrote stays, the episode is never leased again, and the next call answers that it
was processed already. `consolidated_iff`: over every sequence of calls the payload is written once
and whole, or not at all, exactly when the call that sets the mark is not stopped after it and finds
the chunks of all tag suggestions.
-/

set_option autoImplicit false

namespace Verity.Analysis

open Verity.Foundation
open Verity.Model
open Verity.Model.Database

variable {ι : Type} {s : ConsolidationStore} {tenant : TenantId} {episode : EpisodeId}
  {call : CompleteCall}

/-! ## Turns -/

theorem turnEnd_eq_none_iff (stop : Option Nat) : turnEnd stop = none ↔ stop = none :=
  Option.map_eq_none_iff

theorem map_fst_withStops (stop : Nat → Option Nat) (xs : List ι) :
    (withStops stop xs).map Prod.fst = xs := by
  apply List.ext_getElem
  · simp [withStops]
  · intro i hi hi'
    simp [withStops]

theorem forall_mem_withStops {stop : Nat → Option Nat} {xs : List ι} {p : ι × Option Nat → Prop} :
    (∀ x ∈ withStops stop xs, p x) ↔ ∀ i, ∀ h : i < xs.length, p (xs[i], stop i) := by
  unfold withStops
  simp only [List.mem_mapIdx]
  constructor
  · intro h i hi
    exact h _ ⟨i, hi, rfl⟩
  · rintro h x ⟨i, hi, rfl⟩
    exact h i hi

/-- A fact's turn fails only where the call stops: the upsert itself never does. -/
theorem completeFact_error_iff (text : UnicodeText) (now : Time) (req : CompleteRequest)
    (recordedAt : Time) (acl : List PrincipalToken × Confidentiality) (s : ConsolidationStore)
    (x : L2FactIn × Option Nat) :
    (completeFact text now req recordedAt acl s x).2 = none ↔ x.2 = none := by
  unfold completeFact
  by_cases hzero : x.2 = some 0
  · rw [if_pos hzero, hzero]
    simp
  · obtain ⟨t, o, hok, -⟩ := upsertFact_spec s.db.facts now (l2Fact text req recordedAt acl x.1)
    have hdb : s.db.upsertFact now (l2Fact text req recordedAt acl x.1) =
        .ok ({ s.db with facts := t }, o) := by
      unfold Database.upsertFact
      rw [hok]
      rfl
    rw [if_neg hzero, hdb]
    exact turnEnd_eq_none_iff x.2

theorem completeFact_frame (text : UnicodeText) (now : Time) (req : CompleteRequest)
    (recordedAt : Time) (acl : List PrincipalToken × Confidentiality) (s : ConsolidationStore)
    (x : L2FactIn × Option Nat) :
    (completeFact text now req recordedAt acl s x).1.processing = s.processing ∧
      (completeFact text now req recordedAt acl s x).1.db.chunks = s.db.chunks := by
  unfold completeFact
  split
  · exact ⟨rfl, rfl⟩
  · split
    · exact ⟨rfl, rfl⟩
    · rename_i hok
      unfold Database.upsertFact at hok
      obtain ⟨⟨facts, o⟩, -, hpure⟩ := exists_of_bind_eq_ok hok
      cases hpure
      exact ⟨rfl, rfl⟩

/-- A suggestion's turn fails where the call stops or the tenant has no such chunk. -/
theorem completeSuggestion_error_iff (server : ConsolidationServer) (req : CompleteRequest)
    (s : ConsolidationStore) (x : TagSuggestionIn × Option Nat) :
    (completeSuggestion server req s x).2 = none ↔
      s.db.knownChunk req.tenantId x.1.chunkId = true ∧ x.2 = none := by
  obtain ⟨ts, stop⟩ := x
  unfold completeSuggestion
  dsimp only
  cases hknown : s.db.knownChunk req.tenantId ts.chunkId with
  | false => simp
  | true =>
    rw [if_neg (by decide)]
    by_cases hzero : stop = some 0
    · rw [if_pos hzero, hzero]
      simp
    · rw [if_neg hzero]
      split
      · split
        · rename_i hone
          rw [hone]
          simp
        · simp [turnEnd_eq_none_iff]
      · simp [turnEnd_eq_none_iff]

theorem knownChunk_applyTag (db : Database) (tenant : TenantId) (id : ChunkId) (tag : String)
    (id' : ChunkId) : (db.applyTag tenant id tag).knownChunk tenant id' =
      db.knownChunk tenant id' := by
  unfold Database.knownChunk Database.applyTag ChunkTable.update
  rw [List.any_map]
  congr 1
  funext c
  rw [Function.comp_apply]
  split
  · rfl
  · rfl

theorem completeSuggestion_frame (server : ConsolidationServer) (req : CompleteRequest)
    (s : ConsolidationStore) (x : TagSuggestionIn × Option Nat) :
    (completeSuggestion server req s x).1.processing = s.processing ∧
      ∀ id, (completeSuggestion server req s x).1.db.knownChunk req.tenantId id =
        s.db.knownChunk req.tenantId id := by
  obtain ⟨ts, stop⟩ := x
  unfold completeSuggestion
  dsimp only
  split
  · exact ⟨rfl, fun _ => rfl⟩
  · split
    · exact ⟨rfl, fun _ => rfl⟩
    · split
      · split
        · exact ⟨rfl, fun _ => rfl⟩
        · exact ⟨rfl, fun id => knownChunk_applyTag s.db req.tenantId ts.chunkId ts.tag id⟩
      · exact ⟨rfl, fun _ => rfl⟩

theorem freshId_not_mem (ids : List Nat) : freshId ids ∉ ids := by
  have hlt : ∀ id ∈ ids, id < freshId ids := by
    induction ids with
    | nil => exact fun _ h => absurd h List.not_mem_nil
    | cons id ids ih =>
      intro id' hid'
      have hfold : freshId (id :: ids) = max (id + 1) (freshId ids) := rfl
      rw [hfold]
      rcases List.mem_cons.mp hid' with rfl | hid'
      · exact lt_of_lt_of_le (Nat.lt_succ_self _) (le_max_left _ _)
      · exact lt_of_lt_of_le (ih id' hid') (le_max_right _ _)
  exact fun hmem => lt_irrefl _ (hlt _ hmem)

/-- A proposal under a fresh id is not refused. -/
theorem proposeKnowledge_of_fresh (text : UnicodeText) {db : Database} (now : Time)
    {id : KnowledgeId} (p : KnowledgeProposal)
    (hfresh : id ∉ db.knowledge.rows.map KnowledgeRow.id) :
    ∃ result, db.proposeKnowledge text now id p = .ok result := by
  unfold Database.proposeKnowledge
  split
  · exact ⟨_, rfl⟩
  · dsimp only
    split
    · exact ⟨_, rfl⟩
    · obtain ⟨db', hok⟩ := insertKnowledge_of_fresh text now (p := p)
        ((db.lexicon p.tenantId).findSome? (leakedTerm text p.statement))
        (db.proposalEpisodes p) hfresh
      rw [hok]
      exact ⟨_, rfl⟩

/-- A candidate's turn fails only where the call stops. -/
theorem proposeOrMerge_error_iff (server : ConsolidationServer) (now : Time)
    (req : CompleteRequest) (s : ConsolidationStore) (x : KnowledgeCandidateIn × Option Nat) :
    (proposeOrMerge server now req s x).2 = none ↔ x.2 = none := by
  obtain ⟨cand, stop⟩ := x
  have hpromote : ∀ (s s' : ConsolidationStore),
      (if stop = some 1 then (s, some stopped) else (s', turnEnd stop)).2 = none ↔
        stop = none := by
    intro s s'
    split
    · rename_i hone
      rw [hone]
      simp
    · exact turnEnd_eq_none_iff stop
  unfold proposeOrMerge
  dsimp only
  by_cases hzero : stop = some 0
  · rw [if_pos hzero, hzero]
    simp
  · rw [if_neg hzero]
    cases mergeTarget server s.db req.tenantId cand with
    | some id => exact hpromote _ _
    | none =>
      obtain ⟨⟨db, o⟩, hok⟩ := proposeKnowledge_of_fresh server.text now
        (candidateProposal req.tenantId cand) (freshId_not_mem _)
      dsimp only
      rw [hok]
      cases o with
      | remembered => exact turnEnd_eq_none_iff stop
      | accrued id => exact hpromote _ _
      | inserted id => exact hpromote _ _

theorem proposeOrMerge_frame (server : ConsolidationServer) (now : Time)
    (req : CompleteRequest) (s : ConsolidationStore) (x : KnowledgeCandidateIn × Option Nat) :
    (proposeOrMerge server now req s x).1.processing = s.processing := by
  obtain ⟨cand, stop⟩ := x
  have hpromote : ∀ (s s' : ConsolidationStore) (e e' : Option HandlerError),
      s'.processing = s.processing →
      (if stop = some 1 then (s, e) else (s', e')).1.processing = s.processing := by
    intro s s' e e' hsame
    split
    · rfl
    · exact hsame
  unfold proposeOrMerge
  dsimp only
  split
  · rfl
  · split
    · exact hpromote _ _ _ _ rfl
    · split
      · rfl
      · rfl
      · exact hpromote _ _ _ _ rfl
      · exact hpromote _ _ _ _ rfl

/-! ## The payload -/

/-- The whole payload of a request. -/
def payload (req : CompleteRequest) : Consolidated :=
  ⟨req.l2Facts, req.tagSuggestions, req.knowledgeCandidates⟩

/-- A call stops in none of the turns its payload has, and the chunks it has tags for are there. -/
structure Unhindered (db : Database) (req : CompleteRequest) (stop : CallStop) : Prop where
  facts : ∀ i < req.l2Facts.length, stop.factStop i = none
  suggestions : ∀ i < req.tagSuggestions.length, stop.suggestionStop i = none
  candidates : ∀ i < req.knowledgeCandidates.length, stop.candidateStop i = none
  chunks : ∀ ts ∈ req.tagSuggestions, db.knownChunk req.tenantId ts.chunkId = true

/-- A loop whose turns fail only where the call stops. -/
theorem turns_stops_iff
    {body : ConsolidationStore → ι × Option Nat → ConsolidationStore × Option HandlerError}
    (h : ∀ s x, (body s x).2 = none ↔ x.2 = none) (s : ConsolidationStore) (stop : Nat → Option Nat)
    (xs : List ι) :
    (turns body s (withStops stop xs)).error = none ↔ ∀ i < xs.length, stop i = none := by
  rw [turns_error_iff (I := fun _ => True) (p := fun x => x.2 = none) (fun _ _ _ => trivial)
    (fun s x _ => h s x) trivial]
  exact forall_mem_withStops

theorem turns_suggestions_iff (server : ConsolidationServer) (req : CompleteRequest)
    (s : ConsolidationStore) (stop : CallStop) :
    (turns (completeSuggestion server req) s
      (withStops stop.suggestionStop req.tagSuggestions)).error = none ↔
      (∀ i < req.tagSuggestions.length, stop.suggestionStop i = none) ∧
        ∀ ts ∈ req.tagSuggestions, s.db.knownChunk req.tenantId ts.chunkId = true := by
  rw [turns_error_iff
    (I := fun s' => ∀ id, s'.db.knownChunk req.tenantId id = s.db.knownChunk req.tenantId id)
    (p := fun x => s.db.knownChunk req.tenantId x.1.chunkId = true ∧ x.2 = none)
    (fun s' x h id => ((completeSuggestion_frame server req s' x).2 id).trans (h id)) ?_
    (fun _ => rfl)]
  · rw [forall_mem_withStops]
    constructor
    · intro h
      refine ⟨fun i hi => (h i hi).2, fun ts hts => ?_⟩
      obtain ⟨i, hi, rfl⟩ := List.mem_iff_getElem.mp hts
      exact (h i hi).1
    · rintro ⟨hstops, hknown⟩ i hi
      exact ⟨hknown _ (List.getElem_mem hi), hstops i hi⟩
  · intro s' x h
    rw [completeSuggestion_error_iff, h]

/-- The elements a loop that ends well has taken are those of its list. -/
theorem map_fst_done
    {body : ConsolidationStore → ι × Option Nat → ConsolidationStore × Option HandlerError}
    {stop : Nat → Option Nat} {xs : List ι} (h : (turns body s (withStops stop xs)).error = none) :
    (turns body s (withStops stop xs)).done.map Prod.fst = xs := by
  rw [turns_done h, map_fst_withStops]

/-- The payload is written to its end exactly when nothing hinders the call; else the call answers
with an error. -/
theorem writePayload_reply (server : ConsolidationServer) (s : ConsolidationStore)
    (req : CompleteRequest) (call : CompleteCall) (recordedAt : Time) :
    (Unhindered s.db req call.stop ∧
      (s.writePayload server req call recordedAt).reply = .ok .completed ∧
      (s.writePayload server req call recordedAt).written = payload req) ∨
    (¬ Unhindered s.db req call.stop ∧
      ∃ e, (s.writePayload server req call recordedAt).reply = .error e) := by
  have hfacts := turns_stops_iff (completeFact_error_iff server.text call.now req recordedAt
    (deriveL2Acl s.db req.tenantId req.episodeId)) s call.stop.factStop req.l2Facts
  have hchunks := turns_invariant (completeFact server.text call.now req recordedAt
    (deriveL2Acl s.db req.tenantId req.episodeId)) (I := fun s' => s'.db.chunks = s.db.chunks)
    (fun s' x h => (completeFact_frame _ _ _ _ _ s' x).2.trans h) rfl
    (withStops call.stop.factStop req.l2Facts)
  unfold ConsolidationStore.writePayload
  dsimp only
  cases hfactsEnd : (turns (completeFact server.text call.now req recordedAt
      (deriveL2Acl s.db req.tenantId req.episodeId)) s
      (withStops call.stop.factStop req.l2Facts)).error with
  | some e =>
    refine Or.inr ⟨fun h => ?_, e, rfl⟩
    rw [hfacts.mpr h.facts] at hfactsEnd
    cases hfactsEnd
  | none =>
    have hdone := map_fst_done hfactsEnd
    generalize turns (completeFact server.text call.now req recordedAt
      (deriveL2Acl s.db req.tenantId req.episodeId)) s
      (withStops call.stop.factStop req.l2Facts) = facts at hfacts hchunks hfactsEnd hdone ⊢
    have hknown : ∀ id, facts.state.db.knownChunk req.tenantId id =
        s.db.knownChunk req.tenantId id := by
      intro id
      unfold Database.knownChunk
      rw [hchunks]
    have hsuggestions := turns_suggestions_iff server req facts.state call.stop
    simp only [hknown] at hsuggestions
    dsimp only
    cases hsuggestionsEnd : (turns (completeSuggestion server req) facts.state
        (withStops call.stop.suggestionStop req.tagSuggestions)).error with
    | some e =>
      refine Or.inr ⟨fun h => ?_, e, rfl⟩
      rw [hsuggestions.mpr ⟨h.suggestions, h.chunks⟩] at hsuggestionsEnd
      cases hsuggestionsEnd
    | none =>
      have hdone' := map_fst_done hsuggestionsEnd
      generalize turns (completeSuggestion server req) facts.state
        (withStops call.stop.suggestionStop req.tagSuggestions) = suggestions
        at hsuggestions hsuggestionsEnd hdone' ⊢
      have hcandidates := turns_stops_iff (proposeOrMerge_error_iff server call.now req)
        suggestions.state call.stop.candidateStop req.knowledgeCandidates
      dsimp only
      cases hcandidatesEnd : (turns (proposeOrMerge server call.now req) suggestions.state
          (withStops call.stop.candidateStop req.knowledgeCandidates)).error with
      | some e =>
        refine Or.inr ⟨fun h => ?_, e, rfl⟩
        rw [hcandidates.mpr h.candidates] at hcandidatesEnd
        cases hcandidatesEnd
      | none =>
        obtain ⟨hstops, hchunksKnown⟩ := hsuggestions.mp hsuggestionsEnd
        refine Or.inl ⟨⟨hfacts.mp hfactsEnd, hstops, hcandidates.mp hcandidatesEnd,
          hchunksKnown⟩, rfl, ?_⟩
        rw [hdone, hdone', map_fst_done hcandidatesEnd]
        rfl

/-- However it ends, it leaves the leases and the marks alone. -/
theorem writePayload_processing (server : ConsolidationServer) (s : ConsolidationStore)
    (req : CompleteRequest) (call : CompleteCall) (recordedAt : Time) :
    (s.writePayload server req call recordedAt).store.processing = s.processing := by
  have hfacts := turns_invariant (completeFact server.text call.now req recordedAt
    (deriveL2Acl s.db req.tenantId req.episodeId))
    (I := fun s' => s'.processing = s.processing)
    (fun s' x h => (completeFact_frame _ _ _ _ _ s' x).1.trans h) rfl
    (withStops call.stop.factStop req.l2Facts)
  have hsuggestions := turns_invariant (completeSuggestion server req)
    (I := fun s' => s'.processing = s.processing)
    (fun s' x h => (completeSuggestion_frame server req s' x).1.trans h) hfacts
    (withStops call.stop.suggestionStop req.tagSuggestions)
  have hcandidates := turns_invariant (proposeOrMerge server call.now req)
    (I := fun s' => s'.processing = s.processing)
    (fun s' x h => (proposeOrMerge_frame server call.now req s' x).trans h) hsuggestions
    (withStops call.stop.candidateStop req.knowledgeCandidates)
  unfold ConsolidationStore.writePayload
  dsimp only
  split
  · exact hfacts
  · split
    · exact hsuggestions
    · exact hcandidates

/-! ## Leases -/

/-- The episode has been leased, and not marked since. -/
def Unmarked (s : ConsolidationStore) (tenant : TenantId) (episode : EpisodeId) : Prop :=
  ∃ r, s.processingRow tenant episode = some r ∧ r.processedAt = none

/-- The episode is there, of a kind that is leased. -/
def HasEpisode (db : Database) (tenant : TenantId) (episode : EpisodeId) : Prop :=
  ∃ e ∈ db.episodes, e.tenantId = tenant ∧ e.id = episode ∧
    (e.kind = .observation ∨ e.kind = .webhook ∨ e.kind = .docVersion)

/-- From some time on the episode is among those a lease chooses from. -/
def CanBeLeased (s : ConsolidationStore) (tenant : TenantId) (episode : EpisodeId) : Prop :=
  ∃ leasedUntil, ∀ now, leasedUntil < now →
    ∃ e ∈ s.db.episodes, e.id = episode ∧ s.leasable now tenant e = true

theorem canBeLeased_of_unmarked (h : Unmarked s tenant episode)
    (hepisode : HasEpisode s.db tenant episode) : CanBeLeased s tenant episode := by
  obtain ⟨r, hrow, hopen⟩ := h
  obtain ⟨e, he, htenant, rfl, hkind⟩ := hepisode
  refine ⟨r.leasedUntil, fun now hlate => ⟨e, he, rfl, ?_⟩⟩
  unfold ConsolidationStore.leasable
  rw [hrow]
  simp [htenant, hkind, hopen, hlate]

/-- Every row of the key is open. -/
def Vacant (s : ConsolidationStore) (tenant : TenantId) (episode : EpisodeId) : Prop :=
  ∀ r, s.processingRow tenant episode = some r → r.processedAt = none

theorem processingRow_updateWhere (s : ConsolidationStore) (tenant : TenantId)
    (episode : EpisodeId) {p : ProcessingRow → Bool} {f : ProcessingRow → ProcessingRow}
    (hf : ∀ r, (f r).tenantId = r.tenantId ∧ (f r).episodeId = r.episodeId) :
    ({ s with processing := updateWhere p f s.processing } : ConsolidationStore).processingRow
        tenant episode =
      (s.processingRow tenant episode).map fun r => if p r then f r else r := by
  unfold ConsolidationStore.processingRow
  apply find?_updateWhere
  intro r
  rw [(hf r).1, (hf r).2]

/-- Leasing one episode opens its row, and marks none. -/
theorem leaseOne_rows (now : Time) (tenant : TenantId) (worker : String) (s : ConsolidationStore)
    (e : Episode) (h : Vacant s tenant episode) :
    Vacant (s.leaseOne now tenant worker e) tenant episode ∧
      (Unmarked s tenant episode ∨ e.id = episode →
        Unmarked (s.leaseOne now tenant worker e) tenant episode) := by
  unfold ConsolidationStore.leaseOne
  dsimp only
  cases hrow : s.processingRow tenant e.id with
  | none =>
    have happend : ∀ leasedUntil, ({ s with
        processing := s.processing ++ [⟨tenant, e.id, leasedUntil, none, worker⟩] } :
        ConsolidationStore).processingRow tenant episode =
        (s.processingRow tenant episode).or
          (if e.id = episode then some ⟨tenant, e.id, leasedUntil, none, worker⟩ else none) := by
      intro leasedUntil
      unfold ConsolidationStore.processingRow
      rw [List.find?_append]
      congr 1
      by_cases hid : e.id = episode
      · simp [hid]
      · simp [hid]
    unfold Vacant Unmarked
    rw [happend]
    by_cases hid : e.id = episode
    · subst hid
      rw [hrow, if_pos rfl, Option.none_or]
      refine ⟨?_, fun _ => ⟨_, rfl, rfl⟩⟩
      rintro r ⟨⟩
      rfl
    · rw [if_neg hid, Option.or_none]
      exact ⟨h, fun hor => hor.resolve_right hid⟩
  | some r =>
    have hkept : ∀ r', s.processingRow tenant episode = some r' → r'.processedAt = none :=
      h
    have hupdate := processingRow_updateWhere s tenant episode
      (p := fun r => decide (r.tenantId = tenant ∧ r.episodeId = e.id ∧ r.processedAt = none ∧
        r.leasedUntil < now))
      (f := fun r => { r with
        leasedUntil := now + seconds (60 * leaseMinutes)
        worker := worker })
      (fun _ => ⟨rfl, rfl⟩)
    unfold Vacant Unmarked
    dsimp only
    rw [hupdate]
    constructor
    · intro r'' hr''
      obtain ⟨r', hr', rfl⟩ := Option.map_eq_some_iff.mp hr''
      have hopen := hkept r' hr'
      split
      · exact hopen
      · exact hopen
    · intro hor
      have hsome : ∃ r', s.processingRow tenant episode = some r' := by
        rcases hor with ⟨r', hr', -⟩ | rfl
        · exact ⟨r', hr'⟩
        · exact ⟨r, hrow⟩
      obtain ⟨r', hr'⟩ := hsome
      rw [hr']
      refine ⟨_, rfl, ?_⟩
      have hopen := hkept r' hr'
      dsimp only
      split
      · exact hopen
      · exact hopen

theorem leaseOne_db (now : Time) (tenant : TenantId) (worker : String) (s : ConsolidationStore)
    (e : Episode) : (s.leaseOne now tenant worker e).db = s.db := by
  unfold ConsolidationStore.leaseOne
  dsimp only
  split
  · rfl
  · rfl

theorem lease_db (s : ConsolidationStore) (now : Time) (tenant : TenantId) (limit : Int)
    (worker : Option String) : (s.lease now tenant limit worker).1.db = s.db := by
  unfold ConsolidationStore.lease
  dsimp only
  generalize (((s.db.episodes.filter (s.leasable now tenant)).insertionSort
    (Ascending Episode.recordedAt)).take (max 1 (min limit 256)).toNat) = cand
  induction cand generalizing s with
  | nil => rfl
  | cons e cand ih => exact (ih _).trans (leaseOne_db now tenant (worker.getD "worker") s e)

/-- An episode that a lease hands out is leased, and not marked. -/
theorem unmarked_of_lease {now : Time} {limit : Int} {worker : Option String}
    (h : episode ∈ (s.lease now tenant limit worker).2) :
    Unmarked (s.lease now tenant limit worker).1 tenant episode ∧
      HasEpisode (s.lease now tenant limit worker).1.db tenant episode := by
  rw [lease_db]
  have hloop : ∀ (cand : List Episode) (s : ConsolidationStore), Vacant s tenant episode →
      Unmarked s tenant episode ∨ episode ∈ cand.map Episode.id →
      Unmarked (cand.foldl (ConsolidationStore.leaseOne now tenant (worker.getD "worker")) s)
        tenant episode := by
    intro cand
    induction cand with
    | nil => exact fun s _ hor => hor.resolve_right List.not_mem_nil
    | cons e cand ih =>
      intro s hvacant hor
      obtain ⟨hvacant', hunmarked⟩ := leaseOne_rows now tenant (worker.getD "worker") s e hvacant
      refine ih _ hvacant' ?_
      rcases hor with hdone | hmem
      · exact Or.inl (hunmarked (Or.inl hdone))
      · rcases List.mem_cons.mp hmem with heq | hmem
        · exact Or.inl (hunmarked (Or.inr heq.symm))
        · exact Or.inr hmem
  obtain ⟨e, he, rfl⟩ := List.mem_map.mp h
  have hcand := List.mem_filter.mp
    ((List.mem_insertionSort _).mp (List.mem_of_mem_take he))
  obtain ⟨hepisode, hleasable⟩ := hcand
  unfold ConsolidationStore.leasable at hleasable
  rw [Bool.and_eq_true, Bool.and_eq_true, decide_eq_true_eq, decide_eq_true_eq] at hleasable
  obtain ⟨⟨htenant, hkind⟩, hrow⟩ := hleasable
  refine ⟨hloop _ s ?_ (Or.inr h), e, hepisode, htenant, rfl, hkind⟩
  intro r hr
  rw [hr] at hrow
  exact (of_decide_eq_true hrow).1

/-! ## Calls -/

/-- The tables, and what the calls so far have written. -/
structure Completion where
  store : ConsolidationStore
  written : Consolidated

def nothing : Consolidated := ⟨[], [], []⟩

@[simp]
theorem nothing_append (w : Consolidated) : nothing.append w = w := rfl

@[simp]
theorem append_nothing (w : Consolidated) : w.append nothing = w := by
  unfold Consolidated.append nothing
  simp

def completeStep (server : ConsolidationServer) (req : CompleteRequest) (s : Completion)
    (call : CompleteCall) : Option Completion :=
  let e := s.store.complete server req call
  some ⟨e.store, s.written.append e.written⟩

/-- The call that sets the mark stops before it or writes its payload to the end. -/
def RunsThrough (req : CompleteRequest) (s : Completion) (call : CompleteCall) : Prop :=
  Unmarked s.store req.tenantId req.episodeId →
    call.stop = .beforeMark ∨
      call.stop ≠ .afterMark ∧ Unhindered s.store.db req call.stop

/-- What the payload amounts to after a call: nothing is written, and the episode can be leased
again, or all of it is, once. A call that answers with an error leaves the tables as they were, and
one that answers that the episode was processed already finds all of the payload written. -/
structure Entire (server : ConsolidationServer) (req : CompleteRequest) (s₀ : ConsolidationStore)
    (s : Completion) (call : CompleteCall) : Prop where
  once : (s.store.complete server req call).store = s₀ ∧
      s.written.append (s.store.complete server req call).written = nothing ∧
      CanBeLeased (s.store.complete server req call).store req.tenantId req.episodeId ∨
    s.written.append (s.store.complete server req call).written = payload req
  failed : ∀ e, (s.store.complete server req call).reply = .error e →
    (s.store.complete server req call).store = s.store
  already : (s.store.complete server req call).reply = .ok .alreadyProcessed →
    s.written = payload req

theorem complete_beforeMark (server : ConsolidationServer) (s : ConsolidationStore)
    (req : CompleteRequest) (h : call.stop = .beforeMark) :
    s.complete server req call = ⟨s, nothing, .error stopped⟩ := if_pos h

/-- A call that finds the episode marked. -/
theorem complete_marked (server : ConsolidationServer) {req : CompleteRequest} {r : ProcessingRow}
    (hrow : s.processingRow req.tenantId req.episodeId = some r) (hmarked : r.processedAt ≠ none)
    (h : call.stop ≠ .beforeMark) :
    s.complete server req call = ⟨s, nothing, .ok .alreadyProcessed⟩ := by
  unfold ConsolidationStore.complete
  rw [if_neg h, hrow]
  exact if_pos (Option.isSome_iff_ne_none.mpr hmarked)

/-- A call that finds it unmarked marks it, and writes the payload unless it stops at once. -/
theorem complete_unmarked (server : ConsolidationServer) {req : CompleteRequest}
    (hopen : Unmarked s req.tenantId req.episodeId)
    (hepisode : HasEpisode s.db req.tenantId req.episodeId) (h : call.stop ≠ .beforeMark) :
    (∃ r, (s.complete server req call).store.processingRow req.tenantId req.episodeId = some r ∧
      r.processedAt ≠ none) ∧
    (call.stop ≠ .afterMark ∧ Unhindered s.db req call.stop ∧
        (s.complete server req call).reply = .ok .completed ∧
        (s.complete server req call).written = payload req ∨
      ¬ (call.stop ≠ .afterMark ∧ Unhindered s.db req call.stop) ∧
        ∃ e, (s.complete server req call).reply = .error e) := by
  obtain ⟨r, hrow, hnone⟩ := hopen
  have hmark : ∃ r, (s.markProcessed call.now req.tenantId req.episodeId).processingRow
      req.tenantId req.episodeId = some r ∧ r.processedAt ≠ none := by
    have hupdate := processingRow_updateWhere s req.tenantId req.episodeId
      (p := fun r => decide (r.tenantId = req.tenantId ∧ r.episodeId = req.episodeId ∧
        r.processedAt = none))
      (f := fun r => { r with processedAt := some call.now }) (fun _ => ⟨rfl, rfl⟩)
    have hkey := List.find?_some hrow
    rw [decide_eq_true_eq] at hkey
    rw [hrow, Option.map_some, if_pos (decide_eq_true ⟨hkey.1, hkey.2, hnone⟩)] at hupdate
    exact ⟨_, hupdate, by simp⟩
  have hfound : ∃ e, s.db.episodes.find? (fun e =>
      decide (e.tenantId = req.tenantId ∧ e.id = req.episodeId)) = some e := by
    obtain ⟨e, he, htenant, hid, -⟩ := hepisode
    rw [← Option.isSome_iff_exists, List.find?_isSome]
    exact ⟨e, he, decide_eq_true ⟨htenant, hid⟩⟩
  obtain ⟨e, hfound⟩ := hfound
  have hunlocked : r.processedAt.isSome = false := by
    rw [hnone]
    rfl
  unfold ConsolidationStore.complete
  rw [if_neg h, hrow]
  dsimp only
  rw [hunlocked, if_neg Bool.false_ne_true]
  by_cases hafter : call.stop = .afterMark
  · rw [if_pos hafter]
    exact ⟨hmark, Or.inr ⟨fun hruns => hruns.1 hafter, stopped, rfl⟩⟩
  · have hdb : (s.markProcessed call.now req.tenantId req.episodeId).db = s.db := rfl
    rw [if_neg hafter, hdb, hfound]
    dsimp only
    have hwritten := writePayload_reply server
      (s.markProcessed call.now req.tenantId req.episodeId) req call e.recordedAt
    have hkept := writePayload_processing server
      (s.markProcessed call.now req.tenantId req.episodeId) req call e.recordedAt
    constructor
    · obtain ⟨r', hrow', hmarked⟩ := hmark
      refine ⟨r', ?_, hmarked⟩
      unfold ConsolidationStore.processingRow at hrow' ⊢
      rw [hkept]
      exact hrow'
    · rcases hwritten with ⟨hunhindered, hreply, hall⟩ | ⟨hhindered, hfails⟩
      · exact Or.inl ⟨hafter, hunhindered, hreply, hall⟩
      · exact Or.inr ⟨fun hruns => hhindered hruns.2, hfails⟩

/-- Where the calls so far leave the episode: untouched, or marked with its payload written. -/
def Between (req : CompleteRequest) (s₀ : ConsolidationStore) (s : Completion) : Prop :=
  s.store = s₀ ∧ s.written = nothing ∨
    (∃ r, s.store.processingRow req.tenantId req.episodeId = some r ∧ r.processedAt ≠ none) ∧
      s.written = payload req

theorem not_unmarked (h : ∃ r, s.processingRow tenant episode = some r ∧ r.processedAt ≠ none) :
    ¬ Unmarked s tenant episode := by
  obtain ⟨r, hrow, hmarked⟩ := h
  rintro ⟨r', hrow', hopen⟩
  rw [hrow] at hrow'
  cases hrow'
  exact hmarked hopen

section Calls

variable {server : ConsolidationServer} {req : CompleteRequest} {s₀ : ConsolidationStore}

theorem between_completeStep (hopen : Unmarked s₀ req.tenantId req.episodeId)
    (hepisode : HasEpisode s₀.db req.tenantId req.episodeId) {s s' : Completion}
    (hs : Between req s₀ s) (hruns : RunsThrough req s call)
    (hstep : completeStep server req s call = some s') : Between req s₀ s' := by
  cases hstep
  by_cases hbefore : call.stop = .beforeMark
  · rw [complete_beforeMark server s.store req hbefore, append_nothing]
    exact hs
  · rcases hs with ⟨hstore, hnothing⟩ | ⟨⟨r, hrow, hmarked⟩, hall⟩
    · rw [hstore, hnothing]
      obtain ⟨hmark, hend⟩ := complete_unmarked server hopen hepisode hbefore
      obtain hstops | hthrough := hruns (by rw [hstore]; exact hopen)
      · exact absurd hstops hbefore
      · rw [hstore] at hthrough
        rcases hend with ⟨-, -, -, hwritten⟩ | ⟨hhindered, -⟩
        · exact Or.inr ⟨hmark, by rw [hwritten, nothing_append]⟩
        · exact absurd hthrough hhindered
    · rw [complete_marked server hrow hmarked hbefore, append_nothing]
      exact Or.inr ⟨⟨r, hrow, hmarked⟩, hall⟩

/-- Between two calls: the next one leaves the payload entire exactly when it runs through. -/
theorem runsThrough_iff_entire (hopen : Unmarked s₀ req.tenantId req.episodeId)
    (hepisode : HasEpisode s₀.db req.tenantId req.episodeId) {s : Completion}
    (hs : Between req s₀ s) : RunsThrough req s call ↔ Entire server req s₀ s call := by
  by_cases hbefore : call.stop = .beforeMark
  · refine iff_of_true (fun _ => Or.inl hbefore) ?_
    have hcall := complete_beforeMark server s.store req hbefore
    refine ⟨?_, ?_, ?_⟩
    · rw [hcall, append_nothing]
      rcases hs with ⟨hstore, hnothing⟩ | ⟨-, hall⟩
      · refine Or.inl ⟨hstore, hnothing, ?_⟩
        rw [hstore]
        exact canBeLeased_of_unmarked hopen hepisode
      · exact Or.inr hall
    · intro e _
      rw [hcall]
    · intro hreply
      rw [hcall] at hreply
      cases hreply
  · rcases hs with ⟨hstore, hnothing⟩ | ⟨hmark, hall⟩
    · obtain ⟨hmark, hend⟩ := complete_unmarked server hopen hepisode hbefore
      rcases hend with ⟨hafter, hunhindered, hreply, hwritten⟩ | ⟨hhindered, e, hreply⟩
      · refine iff_of_true (fun _ => Or.inr ⟨hafter, by rw [hstore]; exact hunhindered⟩) ?_
        refine ⟨Or.inr ?_, ?_, ?_⟩
        · rw [hstore, hnothing, nothing_append, hwritten]
        · intro e herror
          rw [hstore, hreply] at herror
          cases herror
        · intro halready
          rw [hstore, hreply] at halready
          cases halready
      · -- The call marks the episode and fails: its tables are not those it found.
        refine iff_of_false (fun hruns => ?_) (fun hentire => ?_)
        · obtain hstops | hthrough := hruns (by rw [hstore]; exact hopen)
          · exact hbefore hstops
          · rw [hstore] at hthrough
            exact hhindered hthrough
        · have hsame := hentire.failed e (by rw [hstore]; exact hreply)
          rw [hstore] at hsame
          rw [hsame] at hmark
          exact not_unmarked hmark hopen
    · refine iff_of_true (fun hunmarked => absurd hunmarked (not_unmarked hmark)) ?_
      obtain ⟨r, hrow, hmarked⟩ := hmark
      have hcall := complete_marked server hrow hmarked hbefore
      refine ⟨Or.inr ?_, ?_, fun _ => hall⟩
      · rw [hcall, append_nothing, hall]
      · intro e _
        rw [hcall]

/-- From a leased episode, over every sequence of calls: each call leaves the payload entire
exactly when none that sets the mark is hindered after it. -/
theorem consolidated_iff (server : ConsolidationServer) (req : CompleteRequest)
    (s₀ : ConsolidationStore) (calls : List CompleteCall)
    (hopen : Unmarked s₀ req.tenantId req.episodeId)
    (hepisode : HasEpisode s₀.db req.tenantId req.episodeId) :
    (∀ before call after s, calls = before ++ call :: after →
      run (completeStep server req) ⟨s₀, nothing⟩ before = some s →
        Entire server req s₀ s call) ↔
    Along (completeStep server req) (RunsThrough req) ⟨s₀, nothing⟩ calls := by
  rw [← along_iff_forall_split]
  symm
  apply along_congr (I := Between req s₀)
  · intro s call s' hs hruns hstep
    exact between_completeStep hopen hepisode hs hruns hstep
  · intro s call hs
    exact runsThrough_iff_entire hopen hepisode hs
  · exact Or.inl ⟨rfl, rfl⟩

end Calls

/-- The episode of one customer, leased. -/
def lessonLease : ConsolidationStore × List EpisodeId :=
  (ConsolidationStore.mk
    { Database.empty with episodes := [lessonEpisode 1 "acme" "crm-agent"] } [] []).lease
    10 1 32 none

def lessonServer : ConsolidationServer := ⟨asciiLibraries.text, false, false, ⟨none, none⟩⟩

/-- What a worker extracted from it. -/
def lessonRequest (tagged : List ChunkId) : CompleteRequest where
  tenantId := 1
  episodeId := 1
  l2Facts := [⟨"Acme", "asks for", .str "SSO", none, none⟩]
  tagSuggestions := tagged.map fun id => ⟨id, "sso", 1 / 2⟩
  knowledgeCandidates := [⟨lesson.statement, [], [1], none, none⟩]

/-- A call stops before the mark, and the next one writes the payload. -/
theorem consolidated_lesson :
    ∃ s, run (completeStep lessonServer (lessonRequest [])) ⟨lessonLease.1, nothing⟩
        [⟨20, .beforeMark⟩] = some s ∧
      Entire lessonServer (lessonRequest []) lessonLease.1 s ⟨30, .never⟩ := by
  have hleased : 1 ∈ lessonLease.2 := by decide +kernel
  obtain ⟨hopen, hepisode⟩ := unmarked_of_lease hleased
  have hruns : ∀ s now, RunsThrough (lessonRequest []) s ⟨now, .never⟩ := by
    intro s now _
    refine Or.inr ⟨nofun, fun _ _ => rfl, fun _ _ => rfl, fun _ _ => rfl, ?_⟩
    exact fun ts hts => absurd hts List.not_mem_nil
  have halong : Along (completeStep lessonServer (lessonRequest []))
      (RunsThrough (lessonRequest [])) ⟨lessonLease.1, nothing⟩
      [⟨20, .beforeMark⟩, ⟨30, .never⟩, ⟨40, .never⟩] :=
    ⟨fun _ => Or.inl rfl, fun _ _ => ⟨hruns _ 30, fun _ _ => ⟨hruns _ 40, fun _ _ => trivial⟩⟩⟩
  refine ⟨_, rfl, ?_⟩
  exact (consolidated_iff lessonServer (lessonRequest []) lessonLease.1 _ hopen hepisode).mpr
    halong [⟨20, .beforeMark⟩] ⟨30, .never⟩ [⟨40, .never⟩] _ rfl rfl

/-- A tag is suggested for a chunk that is not there: the call has written the fact when it
refuses, and the retry drops the rest. -/
theorem refused_call_is_not_retried :
    let first := lessonLease.1.complete lessonServer (lessonRequest [9]) ⟨20, .never⟩
    1 ∈ lessonLease.2 ∧
      first.reply = .error ⟨422, "chunk 9 not found in tenant"⟩ ∧
      first.written = ⟨(lessonRequest [9]).l2Facts, [], []⟩ ∧
      first.store.db.facts.rows.length = 1 ∧
      (first.store.complete lessonServer (lessonRequest [9]) ⟨30, .never⟩).reply =
        .ok .alreadyProcessed ∧
      (first.store.lease 1000000000 1 32 none).2 = [] ∧
      ¬ Entire lessonServer (lessonRequest [9]) lessonLease.1 ⟨lessonLease.1, nothing⟩
        ⟨20, .never⟩ := by
  have hwritten : (lessonLease.1.complete lessonServer (lessonRequest [9]) ⟨20, .never⟩).written =
      ⟨(lessonRequest [9]).l2Facts, [], []⟩ := by
    decide +kernel
  refine ⟨by decide +kernel, by decide +kernel, hwritten, by decide +kernel, by decide +kernel,
    by decide +kernel, fun hentire => ?_⟩
  have honce := hentire.once
  rw [hwritten, nothing_append] at honce
  rcases honce with ⟨-, hnothing, -⟩ | hall
  · cases hnothing
  · cases hall

end Verity.Analysis
