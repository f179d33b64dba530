import Verity.Analysis.KnowledgeLifecycle
import Verity.Analysis.QdrantMirror

/-!
# Retries of a failed mirror step

An operation whose transaction has committed and whose mirror step fails is an error to its caller,
who sends it again. A delivery, a forget and the retirement of a document say by their arguments
which rows they mirror (`Touches`), so the attempt that gets through also sends what the failed ones
have changed. The other verbs mirror what their own statement has just done: a retry finds the
entity's chunks closed already, the action recorded already, the item published already, and sends
nothing. `heals_iff` says for every operation whether its retries make the stores equal again.
-/

set_option autoImplicit false

namespace Verity.Analysis

open Verity.Foundation
open Verity.Model
open Verity.Model.ChunkTable

variable {db : Database} {now : Time} {tenant : TenantId} {episodeId : EpisodeId} {a : ActionWrite}

section Retries

variable {ι : Type} [DecidableEq ι] (ids : PointIds ι) (text : UnicodeText)

/-- However many further attempts fail in the mirror step, the first one that does not is answered
with success and leaves a mirror. -/
def Heals (call : MirrorCall) (s₁ : QdrantAdapter ι) : Prop :=
  ∀ (retries : List (Time × Nat)) (s₂ : QdrantAdapter ι),
    run (fun s r => s.stepUnsent ids text (call.again r.1 r.2)) s₁ retries = some s₂ →
      ∀ now fresh, ∃ s', s₂.step ids text (call.again now fresh) = some s' ∧ Mirrored ids s'

/-- The version of the chunk of an action. -/
def actionVersion (a : ActionWrite) : Version :=
  ((a.tenantId, "agent", "action:" ++ a.actionId, 0), a.occurredAt.stored)

/-- Deliveries, where no version takes the point of another; an action whose chunk is there already;
whatever a forget or the retirement of a document does. -/
def Resendable (t : ChunkTable) : MirrorCall → Prop
  | .upsertChunks _ writes => AddressesApart ids t (writes.map ChunkWrite.version)
  | .recordAction _ _ a => actionVersion a ∈ versions t
  | .publishKnowledge _ _ _ _ _ _ | .retireEntity _ _ _ _ => False
  | _ => True

end Retries

section

variable {ι : Type} [DecidableEq ι] {ids : PointIds ι} {text : UnicodeText}
  {s s₁ s₂ s' : QdrantAdapter ι} {call : MirrorCall}

theorem stepUnsent_eq_some (h : s.stepUnsent ids text call = some s₁) :
    s.sends call = true ∧
      ∃ s', s.step ids text call = some s' ∧ s₁ = { s' with points := s.points } := by
  unfold QdrantAdapter.stepUnsent at h
  split at h
  · rename_i hsends
    obtain ⟨s', hs', heq⟩ := Option.map_eq_some_iff.mp h
    exact ⟨hsends, s', hs', heq.symm⟩
  · cases h

/-- An operation that no retry gets to its mirror step for is healed by the next attempt alone. -/
theorem heals_iff_of_unsent
    (hnone : ∀ now fresh, s₁.stepUnsent ids text (call.again now fresh) = none) :
    Heals ids text call s₁ ↔
      ∀ now fresh, ∃ s', s₁.step ids text (call.again now fresh) = some s' ∧ Mirrored ids s' := by
  constructor
  · exact fun h => h [] s₁ rfl
  · intro h retries s₂ hrun
    cases retries with
    | nil =>
      cases hrun
      exact h
    | cons r retries =>
      obtain ⟨s, hs, -⟩ := Option.bind_eq_some_iff.mp hrun
      cases (hnone r.1 r.2).symm.trans hs

/-! ## The verbs that select by their arguments -/

/-- The verb selects the rows to mirror by its arguments. -/
def SelectsByArguments : MirrorCall → Prop
  | .upsertChunks _ _ | .forget _ _ _ | .retireDocument _ _ _ _ => True
  | _ => False

/-- The rows such a verb may change. -/
def Touches : MirrorCall → Chunk → Prop
  | .upsertChunks _ writes, c => InDelivery writes c
  | .forget _ tenant ref, c => Forgotten tenant ref c
  | .retireDocument _ tenant source documentId, c => c.ofDocument tenant source documentId = true
  | _, _ => False

/-- The versions such a verb writes. -/
def Writes : MirrorCall → List Version
  | .upsertChunks _ writes => writes.map ChunkWrite.version
  | _ => []

theorem resends_step (hcall : SelectsByArguments call) (hsends : s.sends call = true)
    (h : s.step ids text call = some s') : Resends ids s (Writes call) (Touches call) s' := by
  cases call with
  | upsertChunks now writes =>
    refine resends_upsertChunks ?_ (toOption_eq_some_iff.mp h)
    rintro rfl
    cases hsends
  | forget now tenant ref =>
    cases h
    exact resends_forget s now tenant ref
  | retireDocument now tenant source documentId =>
    cases h
    exact resends_retireDocument s now tenant source documentId
  | appendEpisode | upsertFact | proposeKnowledge | recordAction | publishKnowledge
  | retireEntity => exact hcall.elim

/-- What attempts of such a verb that fail have done together: the points are as before. -/
structure Attempted (s : QdrantAdapter ι) (call : MirrorCall) (s₁ : QdrantAdapter ι) : Prop where
  points : s₁.points = s.points
  amends : Amends s.inner.chunks s₁.inner.chunks (Writes call) (Touches call)

/-- An attempt that fails changes the tables as one that does not. -/
theorem attempted_stepUnsent (hcall : SelectsByArguments call)
    (h : s.stepUnsent ids text call = some s₁) : Attempted s call s₁ := by
  obtain ⟨hsends, s', hs', rfl⟩ := stepUnsent_eq_some h
  obtain ⟨db, tenant, sel, rfl, hamends, -⟩ := resends_step hcall hsends hs'
  exact ⟨rfl, hamends⟩

/-- Another attempt is the same operation on other tables. -/
theorem again_selects (ids : PointIds ι) (text : UnicodeText) (s s₂ : QdrantAdapter ι)
    (hcall : SelectsByArguments call) (now : Time) (fresh : Nat) :
    SelectsByArguments (call.again now fresh) ∧ Writes (call.again now fresh) = Writes call ∧
      Touches (call.again now fresh) = Touches call ∧
      s₂.sends (call.again now fresh) = s.sends call ∧
      ((s.step ids text call).isSome → (s₂.step ids text (call.again now fresh)).isSome) := by
  cases call with
  | upsertChunks now' writes =>
    refine ⟨trivial, rfl, rfl, rfl, ?_⟩
    cases writes with
    | nil => exact fun _ => rfl
    | cons first rest =>
      simp only [MirrorCall.again, QdrantAdapter.step, QdrantAdapter.upsertChunks]
      split
      · exact id
      · exact fun _ => rfl
  | forget now' tenant ref => exact ⟨trivial, rfl, rfl, rfl, fun _ => rfl⟩
  | retireDocument now' tenant source documentId =>
    exact ⟨trivial, rfl, rfl, rfl, fun _ => rfl⟩
  | appendEpisode | upsertFact | proposeKnowledge | recordAction | publishKnowledge
  | retireEntity => exact hcall.elim

theorem attempted_retries (hcall : SelectsByArguments call) (h : Attempted s call s₁)
    {retries : List (Time × Nat)}
    (hrun : run (fun s r => s.stepUnsent ids text (call.again r.1 r.2)) s₁ retries = some s₂) :
    Attempted s call s₂ := by
  refine run_induction ?_ h hrun
  rintro s₂ ⟨now, fresh⟩ s₃ ⟨hpoints, hamends⟩ hstep
  obtain ⟨hagain, hwrites, htouches, -, -⟩ :=
    again_selects ids text s s₂ hcall now fresh
  obtain ⟨hpoints', hamends'⟩ := attempted_stepUnsent hagain hstep
  rw [hwrites, htouches] at hamends'
  exact ⟨hpoints'.trans hpoints, hamends.trans hamends'⟩

/-- The attempt that gets through mirrors what all of them have changed. -/
theorem Attempted.last (h : Attempted s call s₂) (hcall : SelectsByArguments call)
    (hmirrored : Mirrored ids s) (hsends : s.sends call = true)
    (hs : (s.step ids text call).isSome) (now : Time) (fresh : Nat) :
    ∃ s', s₂.step ids text (call.again now fresh) = some s' ∧
      (Mirrored ids s' ↔ AddressesApart ids s.inner.chunks (Writes call)) := by
  obtain ⟨hagain, hwrites, htouches, hsame, hanswered⟩ :=
    again_selects ids text s s₂ hcall now fresh
  obtain ⟨s', hs'⟩ := Option.isSome_iff_exists.mp (hanswered hs)
  obtain ⟨db, tenant, sel, rfl, hamends, hsel⟩ := resends_step hagain (hsame.trans hsends) hs'
  rw [hwrites, htouches] at hamends
  rw [htouches] at hsel
  have hsent : s₂.mirrorRows ids db tenant sel = s.mirrorRows ids db tenant sel := by
    unfold QdrantAdapter.mirrorRows
    rw [h.points]
  refine ⟨_, hs', ?_⟩
  rw [hsent]
  exact mirrored_mirrorRows_iff hmirrored ((h.amends.trans hamends).mono hsel)

theorem heals_iff_addressesApart (hcall : SelectsByArguments call) (hmirrored : Mirrored ids s)
    (hfail : s.stepUnsent ids text call = some s₁) :
    Heals ids text call s₁ ↔ AddressesApart ids s.inner.chunks (Writes call) := by
  obtain ⟨hsends, s₀, hs₀, -⟩ := stepUnsent_eq_some hfail
  have hstep := Option.isSome_iff_exists.mpr ⟨s₀, hs₀⟩
  have hfirst := attempted_stepUnsent hcall hfail
  constructor
  · intro hheals
    obtain ⟨s', hs', hiff⟩ := hfirst.last hcall hmirrored hsends hstep 0 0
    obtain ⟨s'', hs'', hmirror⟩ := hheals [] s₁ rfl 0 0
    cases hs'.symm.trans hs''
    exact hiff.mp hmirror
  · intro hapart retries s₂ hrun now fresh
    obtain ⟨s', hs', hiff⟩ :=
      (attempted_retries hcall hfirst hrun).last hcall hmirrored hsends hstep now fresh
    exact ⟨s', hs', hiff.mpr hapart⟩

/-! ## The verbs that mirror what they have just done -/

/-- A published item is not published again. -/
theorem publishKnowledge_again {db' : Database} {id : KnowledgeId}
    {visibility : List PrincipalToken} {kMin : Int}
    (h : db.publishKnowledge now tenant id episodeId visibility kMin = .ok db') (now' : Time)
    (episodeId' : EpisodeId) :
    (db'.publishKnowledge now' tenant id episodeId' visibility kMin).toOption = none := by
  obtain ⟨-, -, -, -, -, -, rfl⟩ := publishKnowledge_eq_ok h
  by_contra hsome
  obtain ⟨db'', hagain⟩ := Option.ne_none_iff_exists'.mp hsome
  obtain ⟨k, hk, -, hid, hgates, -⟩ := publishKnowledge_eq_ok (toOption_eq_some_iff.mp hagain)
  obtain ⟨k₀, -, rfl⟩ := List.mem_map.mp hk
  by_cases hk₀ : k₀.id = id
  · rw [if_pos (decide_eq_true hk₀)] at hgates
    have hpublished : ¬ Live .published := by decide
    exact hpublished (publishGates_live hgates)
  · rw [if_neg (by simpa using hk₀)] at hid
    exact hk₀ hid

theorem not_heals_publishKnowledge {id : KnowledgeId} {visibility : List PrincipalToken}
    {kMin : Int}
    (hfail : s.stepUnsent ids text (.publishKnowledge now tenant id episodeId visibility kMin) =
      some s₁) :
    ¬ Heals ids text (.publishKnowledge now tenant id episodeId visibility kMin) s₁ := by
  intro hheals
  obtain ⟨-, s₀, hs₀, rfl⟩ := stepUnsent_eq_some hfail
  obtain ⟨db, hdb, hend⟩ := exists_of_bind_eq_ok (toOption_eq_some_iff.mp hs₀)
  cases hend
  obtain ⟨s', hs', -⟩ := hheals [] _ rfl 0 0
  obtain ⟨db', hdb', -⟩ := exists_of_bind_eq_ok (toOption_eq_some_iff.mp hs')
  have hnone := publishKnowledge_again hdb 0 0
  cases hnone.symm.trans (toOption_eq_some_iff.mpr hdb')

/-- What recording an action for the first time does. -/
theorem recordAction_recorded (h : (db.recordAction now episodeId a).2 = true) :
    (db.recordAction now episodeId a).1.chunks = db.chunks.insert now (actionChunk a episodeId) ∧
      ∃ r ∈ (db.recordAction now episodeId a).1.actions, r.write = a := by
  unfold Database.recordAction MemoryStore.recordAction at h ⊢
  dsimp only at h ⊢
  split at h
  · cases h
  · rename_i hnew
    rw [if_neg hnew]
    exact ⟨rfl, _, List.mem_append_right _ (List.mem_singleton.mpr rfl), rfl⟩

/-- A recorded action is not recorded again. -/
theorem recordAction_again (h : ∃ r ∈ db.actions, r.write = a) (now : Time)
    (episodeId : EpisodeId) : db.recordAction now episodeId a = (db, false) := by
  obtain ⟨r, hr, hwrite⟩ := h
  have hthere : (db.actions.any fun r =>
      r.write.tenantId = a.tenantId ∧ r.write.actionId = a.actionId) = true := by
    refine List.any_eq_true.mpr ⟨r, hr, decide_eq_true ?_⟩
    rw [hwrite]
    exact ⟨rfl, rfl⟩
  unfold Database.recordAction MemoryStore.recordAction
  dsimp only
  rw [if_pos hthere]

omit [DecidableEq ι] in
/-- A table with one more row is not mirrored by the same points. -/
theorem mirrored_insert_iff {w : ChunkWrite} (h : Mirrored ids s)
    (hchunks : db.chunks = s.inner.chunks.insert now w) :
    Mirrored ids { s with inner := db } ↔ w.version ∈ versions s.inner.chunks := by
  unfold Mirrored
  rw [hchunks]
  by_cases hconflict : s.inner.chunks.conflicts w = true
  · have hsame : s.inner.chunks.insert now w = s.inner.chunks := if_pos hconflict
    rw [hsame]
    exact ⟨fun _ => conflicts_iff.mp hconflict, fun _ => h⟩
  · refine ⟨fun hnext => ?_, fun hmem => absurd (conflicts_iff.mpr hmem) hconflict⟩
    have hrows : (s.inner.chunks.insert now w).rows.length = s.inner.chunks.rows.length + 1 := by
      unfold ChunkTable.insert
      rw [if_neg hconflict, List.length_append, List.length_singleton]
    have hlength := hnext.points.length_eq
    rw [List.length_map, hrows, h.points.length_eq, List.length_map] at hlength
    exact absurd hlength (Nat.succ_ne_self _).symm

theorem heals_recordAction_iff (hmirrored : Mirrored ids s)
    (hfail : s.stepUnsent ids text (.recordAction now episodeId a) = some s₁) :
    Heals ids text (.recordAction now episodeId a) s₁ ↔
      actionVersion a ∈ versions s.inner.chunks := by
  obtain ⟨hrecorded, s₀, hs₀, rfl⟩ := stepUnsent_eq_some hfail
  obtain ⟨hchunks, hthere⟩ := recordAction_recorded hrecorded
  have hinner : s₀.inner = (s.inner.recordAction now episodeId a).1 := by
    cases hs₀
    unfold QdrantAdapter.recordAction
    dsimp only
    split <;> rfl
  rw [← hinner] at hchunks hthere
  have hmirror : Mirrored ids { s with inner := s₀.inner } ↔
      actionVersion a ∈ versions s.inner.chunks := mirrored_insert_iff hmirrored hchunks
  rw [← hmirror, heals_iff_of_unsent]
  · have hstep : ∀ (now : Time) (fresh : Nat),
        QdrantAdapter.step ids text { s₀ with points := s.points } (.recordAction now fresh a) =
          some { s₀ with points := s.points } := by
      intro now fresh
      simp only [QdrantAdapter.step, QdrantAdapter.recordAction, recordAction_again hthere,
        Bool.false_eq_true, if_false]
    constructor
    · intro h
      obtain ⟨s', hs', hmirror⟩ := h 0 0
      cases (hstep 0 0).symm.trans hs'
      exact hmirror
    · exact fun h now fresh => ⟨_, hstep now fresh, h⟩
  · intro now fresh
    refine if_neg ?_
    simp only [MirrorCall.again, QdrantAdapter.sends, recordAction_again hthere,
      Bool.false_eq_true, not_false_eq_true]

omit [DecidableEq ι] in
/-- A point tells the row, and whether the row is current. -/
theorem mirrorPoint_inj {c c' : Chunk} (h : mirrorPoint ids c = mirrorPoint ids c') :
    c.id = c'.id ∧ (c.validTo = none ↔ c'.validTo = none) := by
  have hpayload : chunkPayload c = chunkPayload c' :=
    congrArg (fun p : MirrorPoint ι => p.payload) h
  obtain ⟨hrow, hend⟩ := List.append_inj hpayload rfl
  refine ⟨PointValue.uuid.inj (Prod.mk.inj (List.cons.inj hrow).1).2, ?_⟩
  cases hc : c.validTo <;> cases hc' : c'.validTo
  · exact Iff.rfl
  · rw [hc, hc'] at hend
    cases hend
  · rw [hc, hc'] at hend
    cases hend
  · simp

/-- The current chunks that the retirement of an entity closes. -/
def aboutEntity (tenant : TenantId) (source entityId : String) (c : Chunk) : Bool :=
  decide (c.tenantId = tenant ∧ c.source = source ∧ entityId ∈ c.entityTags)

theorem rows_retireChunks (db : Database) (now : Time) (sel : Chunk → Bool) :
    (db.retireChunks now sel).1.chunks.rows = db.chunks.rows.map fun c =>
      if sel c && decide (c.validTo = none) then { c with validTo := some now } else c := rfl

/-- What is closed is not current. -/
theorem not_current_retireChunks (db : Database) (now : Time) (sel : Chunk → Bool) :
    ∀ c ∈ (db.retireChunks now sel).1.chunks.rows,
      ¬ (sel c && decide (c.validTo = none)) = true := by
  intro c' hc'
  rw [rows_retireChunks] at hc'
  obtain ⟨c, -, rfl⟩ := List.mem_map.mp hc'
  split
  · simp
  · assumption

theorem mirrorPositions_nil (s : QdrantAdapter ι) (db : Database) (tenant : TenantId) :
    s.mirrorPositions ids db tenant [] = { s with inner := db } := by
  have hnone : (db.chunks.rows.filter fun c =>
      decide (c.tenantId = tenant) && decide (c.place ∈ ([] : List (String × String × Int)))) =
        [] := by
    rw [List.filter_eq_nil_iff]
    intro c _
    simp
  unfold QdrantAdapter.mirrorPositions QdrantAdapter.mirrorRows
  rw [hnone]
  rfl

/-- With no current chunk about the entity, its retirement sends nothing. -/
theorem retireEntity_none (ids : PointIds ι) (s : QdrantAdapter ι) {source entityId : String}
    (deletedAt : Time) (hnone : ∀ c ∈ s.inner.chunks.rows,
      ¬ (aboutEntity tenant source entityId c && decide (c.validTo = none)) = true) :
    (s.retireEntity ids tenant source entityId deletedAt).points = s.points ∧
      (s.retireEntity ids tenant source entityId deletedAt).inner.chunks.rows =
        s.inner.chunks.rows := by
  have hsent : s.retireEntity ids tenant source entityId deletedAt =
      s.mirrorPositions ids ((s.inner.retireEntity tenant source entityId deletedAt).1.retireChunks
        deletedAt (aboutEntity tenant source entityId)).1 tenant
        ((s.inner.chunks.rows.filter fun c => aboutEntity tenant source entityId c &&
          decide (c.validTo = none)).map Chunk.place) := rfl
  rw [List.filter_eq_nil_iff.mpr hnone, List.map_nil, mirrorPositions_nil] at hsent
  rw [hsent]
  refine ⟨rfl, (rows_retireChunks _ _ _).trans ?_⟩
  have hkept : ∀ c ∈ s.inner.chunks.rows,
      (if aboutEntity tenant source entityId c && decide (c.validTo = none) then
        { c with validTo := some deletedAt } else c) = c := fun c hc => if_neg (hnone c hc)
  exact (List.map_congr_left hkept).trans (List.map_id' _)

/-- The chunks that the first attempt has closed keep their current points. -/
theorem not_heals_retireEntity {source entityId : String} {deletedAt : Time}
    (hmirrored : Mirrored ids s)
    (hfail : s.stepUnsent ids text (.retireEntity tenant source entityId deletedAt) = some s₁) :
    ¬ Heals ids text (.retireEntity tenant source entityId deletedAt) s₁ := by
  intro hheals
  obtain ⟨hsends, s₀, hs₀, rfl⟩ := stepUnsent_eq_some hfail
  cases hs₀
  obtain ⟨c, hc, hsel⟩ := List.any_eq_true.mp hsends
  obtain ⟨habout, hcurrent⟩ := of_decide_eq_true hsel
  obtain ⟨s', hs', hmirror⟩ := hheals [] _ rfl 0 0
  cases hs'
  have hclosed := not_current_retireChunks
    (s.inner.retireEntity tenant source entityId deletedAt).1 deletedAt
    (aboutEntity tenant source entityId)
  obtain ⟨hpoints, hrows⟩ := retireEntity_none ids
    { s.retireEntity ids tenant source entityId deletedAt with points := s.points } deletedAt
    hclosed
  -- the point of the chunk is still there, so some row has it as its view
  have hpoint := hmirrored.points.mem_iff.mpr (List.mem_map_of_mem hc)
  have hviewed := hmirror.points.mem_iff.mp (hpoints ▸ hpoint)
  rw [hrows] at hviewed
  obtain ⟨c', hc', hview⟩ := List.mem_map.mp hviewed
  obtain ⟨hid, hend⟩ := mirrorPoint_inj hview
  obtain ⟨c₀, hc₀, hupdate⟩ := List.mem_map.mp hc'
  have hid₀ : c₀.id = c'.id := by
    rw [← hupdate]
    split <;> rfl
  have hsame : c₀ = c := List.inj_on_of_nodup_map s.inner.chunks.ids_nodup hc₀ hc (hid₀.trans hid)
  subst hsame
  rw [if_pos (Bool.and_eq_true_iff.mpr ⟨decide_eq_true habout, decide_eq_true hcurrent⟩)]
    at hupdate
  subst hupdate
  cases hend.mpr hcurrent

/-! ## Every operation -/

/-- In a mirror, an operation commits and its mirror step fails: its retries make a mirror again
exactly when the operation is one of those that can be sent again. -/
theorem heals_iff (hmirrored : Mirrored ids s) (hfail : s.stepUnsent ids text call = some s₁) :
    Heals ids text call s₁ ↔ Resendable ids s.inner.chunks call := by
  have hnothing : AddressesApart ids s.inner.chunks [] := fun _ hv => absurd hv List.not_mem_nil
  cases call with
  | appendEpisode | upsertFact | proposeKnowledge => cases (stepUnsent_eq_some hfail).1
  | upsertChunks now writes => exact heals_iff_addressesApart trivial hmirrored hfail
  | recordAction now episodeId a => exact heals_recordAction_iff hmirrored hfail
  | publishKnowledge now tenant id episodeId visibility kMin =>
    exact iff_of_false (not_heals_publishKnowledge hfail) fun h => h
  | forget now tenant ref =>
    have hselects : SelectsByArguments (.forget now tenant ref) := trivial
    exact iff_of_true ((heals_iff_addressesApart hselects hmirrored hfail).mpr hnothing) trivial
  | retireEntity tenant source entityId deletedAt =>
    exact iff_of_false (not_heals_retireEntity hmirrored hfail) fun h => h
  | retireDocument now tenant source documentId =>
    have hselects : SelectsByArguments (.retireDocument now tenant source documentId) := trivial
    exact iff_of_true ((heals_iff_addressesApart hselects hmirrored hfail).mpr hnothing) trivial

end

/-- A delivery whose mirror step fails on empty stores. -/
theorem failed_delivery_heals :
    ∃ s₁ : QdrantAdapter String,
      (emptyStores String).stepUnsent plainIds asciiLibraries.text
        (.upsertChunks 10 [planChunk "plan" "basic" 10, planChunk "offer" "ten seats" 10]) =
          some s₁ ∧
      s₁.inner.chunks.rows.length = 2 ∧ s₁.points.length = 0 ∧
      Heals plainIds asciiLibraries.text
        (.upsertChunks 10 [planChunk "plan" "basic" 10, planChunk "offer" "ten seats" 10]) s₁ := by
  have hview : ((emptyStores String).stepUnsent plainIds asciiLibraries.text
      (.upsertChunks 10 [planChunk "plan" "basic" 10, planChunk "offer" "ten seats" 10])).map
      (fun s => (s.inner.chunks.rows.length, s.points.length)) = some (2, 0) := by decide +kernel
  obtain ⟨s₁, hfail, hs₁⟩ := Option.map_eq_some_iff.mp hview
  obtain ⟨hrows, hpoints⟩ := Prod.mk.inj hs₁
  refine ⟨s₁, hfail, hrows, hpoints, ?_⟩
  have happart : AddressesApart plainIds (emptyStores String).inner.chunks
      ([planChunk "plan" "basic" 10, planChunk "offer" "ten seats" 10].map ChunkWrite.version) := by
    decide +kernel
  exact (heals_iff mirrored_emptyStores hfail).mpr happart

/-- The chunk of an entity, and the retirement of the entity. The retry closes nothing any more, and
the point stays current. -/
theorem retired_chunk_keeps_point :
    ¬ ∀ (ids : PointIds String) (text : UnicodeText) (s s₁ : QdrantAdapter String)
      (call : MirrorCall), Function.Injective ids.uuidV5 → Mirrored ids s →
      s.stepUnsent ids text call = some s₁ → Heals ids text call s₁ := by
  intro hclaim
  have hview : (((emptyStores String).step plainIds asciiLibraries.text
      (.upsertChunks 10 [planChunk "plan" "basic" 10])).bind fun s =>
        (s.stepUnsent plainIds asciiLibraries.text (.retireEntity 1 "crm" "acme" 40)).bind fun s₁ =>
          (s₁.step plainIds asciiLibraries.text (.retireEntity 1 "crm" "acme" 40)).map fun s' =>
            (s'.points.map fun p => p.payload.length,
              s'.inner.chunks.rows.map fun c => (chunkPayload c).length)) =
          some ([13], [14]) := by decide +kernel
  obtain ⟨s, hdelivery, hview⟩ := Option.bind_eq_some_iff.mp hview
  obtain ⟨s₁, hfail, hview⟩ := Option.bind_eq_some_iff.mp hview
  obtain ⟨s', hretry, hview⟩ := Option.map_eq_some_iff.mp hview
  obtain ⟨hpoints, hrows⟩ := Prod.mk.inj hview
  have hmirrored : Mirrored plainIds s :=
    (mirrored_step_iff Function.injective_id mirrored_emptyStores hdelivery).mpr (by decide +kernel)
  obtain ⟨s'', hs'', hmirror⟩ := hclaim plainIds asciiLibraries.text s s₁ _ Function.injective_id
    hmirrored hfail [] s₁ rfl 50 0
  cases hretry.symm.trans hs''
  have hsame := hmirror.points.map fun p : MirrorPoint String => p.payload.length
  rw [List.map_map, hpoints] at hsame
  have hviews : (s'.inner.chunks.rows.map
      ((fun p : MirrorPoint String => p.payload.length) ∘ mirrorPoint plainIds)) = [14] := hrows
  rw [hviews] at hsame
  exact absurd hsame (by decide)

end Verity.Analysis
