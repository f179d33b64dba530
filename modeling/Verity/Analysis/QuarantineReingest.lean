import Verity.Analysis.FactLifecycle
import Verity.Model.QuarantineReingest

/-!
# What a failed re-ingest leaves

The claim of the item is undone when a call fails, its writes are not: an episode that is appended
stays, with the chunk and the facts written before the failure, and the next call appends another.
So a failed call leaves nothing, and the item is stored once, exactly when every call that comes to
append its episode makes the rest of its writes.
-/

set_option autoImplicit false

namespace Verity.Analysis

open Verity.Foundation
open Verity.Model

/-! ## A chunk of a new document -/

theorem rows_closeWhere_unused {t : ChunkTable} {tenant : TenantId} {source documentId : String}
    {g : Time} {p : Int → Bool}
    (h : ∀ c ∈ t.rows, (c.ofDocument tenant source documentId && p c.seq) = false) :
    (t.closeWhere tenant source documentId g p).rows = t.rows := by
  have hsame : ∀ c ∈ t.rows, (if c.ofDocument tenant source documentId && p c.seq then c.close g
      else c) = c := by
    intro c hc
    rw [h c hc]
    rfl
  exact (List.map_congr_left hsame).trans (List.map_id t.rows)

/-- The one chunk of a document that has none is added to the others. -/
theorem rows_upsertChunks_new {t : ChunkTable} {now : Time} {w : ChunkWrite}
    (h : ∀ c ∈ t.rows, c.documentId ≠ w.documentId) :
    (t.upsertChunks now [w]).rows = t.rows ++ [t.rowOf now w] := by
  have hother : ∀ c ∈ t.rows, c.ofDocument w.tenantId w.source w.documentId = false := by
    intro c hc
    exact decide_eq_false fun hdoc => h c hc hdoc.2.2
  have hclosed : (t.closeWhere w.tenantId w.source w.documentId w.start (· = w.seq)).rows =
      t.rows := rows_closeWhere_unused fun c hc => by rw [hother c hc, Bool.false_and]
  have hinserted : (t.upsertChunk now w).rows = t.rows ++ [t.rowOf now w] := by
    unfold ChunkTable.upsertChunk ChunkTable.insert
    have hnew : (t.closeWhere w.tenantId w.source w.documentId w.start
        (· = w.seq)).conflicts w = false := by
      unfold ChunkTable.conflicts
      rw [hclosed, List.any_eq_false]
      intro c hc
      rw [hother c hc, Bool.false_and, Bool.false_and]
      exact Bool.false_ne_true
    rw [hnew, if_neg Bool.false_ne_true]
    exact congrArg (· ++ [t.rowOf now w]) hclosed
  have htail : ChunkTable.tailOf [w] w = (w.validFrom, w.seq) := by
    unfold ChunkTable.tailOf
    simp
  unfold ChunkTable.upsertChunks ChunkTable.closeTails
  rw [List.foldl_cons, List.foldl_nil, List.foldl_cons, List.foldl_nil, htail, ← hinserted]
  refine rows_closeWhere_unused fun c hc => ?_
  rw [hinserted] at hc
  obtain hc | hc := List.mem_append.mp hc
  · rw [hother c hc, Bool.false_and]
  · obtain rfl := List.mem_singleton.mp hc
    have hnot : decide (w.seq < w.seq) = false := decide_eq_false (lt_irrefl _)
    exact (congrArg _ hnot).trans (Bool.and_false _)

/-! ## The writes of a call -/

section Writes

variable {call : ReingestCall} {db : Database}

theorem writeFacts_frame (facts : List ReingestFact) (db : Database) (written : Nat) :
    (call.writeFacts db facts written).1.episodes = db.episodes ∧
      (call.writeFacts db facts written).1.chunks = db.chunks := by
  induction facts generalizing db written with
  | nil => exact ⟨rfl, rfl⟩
  | cons f facts ih =>
    unfold ReingestCall.writeFacts
    split
    · exact ⟨rfl, rfl⟩
    · obtain ⟨t, o, hok, -⟩ := upsertFact_database db call.now (call.fact f)
      rw [hok]
      exact ih { db with facts := t } (written + 1)

/-- The facts are all written when none of them fails. -/
theorem writeFacts_ok (facts : List ReingestFact) (db : Database) (written : Nat)
    (h : ∀ i < facts.length, call.fails (.fact (written + i)) = none) :
    (call.writeFacts db facts written).2 = (written + facts.length, none) := by
  induction facts generalizing db written with
  | nil => rfl
  | cons f facts ih =>
    have hfirst : call.fails (.fact written) = none := h 0 (Nat.succ_pos _)
    unfold ReingestCall.writeFacts
    rw [hfirst]
    obtain ⟨t, o, hok, -⟩ := upsertFact_database db call.now (call.fact f)
    rw [hok]
    refine (ih { db with facts := t } (written + 1) fun i hi => ?_).trans ?_
    · rw [Nat.add_assoc, Nat.add_comm 1 i]
      exact h (i + 1) (Nat.succ_lt_succ hi)
    · rw [List.length_cons, Nat.add_assoc, Nat.add_comm 1]

theorem writeFacts_fails (facts : List ReingestFact) (db : Database) (written : Nat)
    (h : ∃ i < facts.length, call.fails (.fact (written + i)) ≠ none) :
    ∃ e, (call.writeFacts db facts written).2.2 = some e := by
  induction facts generalizing db written with
  | nil =>
    obtain ⟨i, hi, -⟩ := h
    cases hi
  | cons f facts ih =>
    unfold ReingestCall.writeFacts
    split
    · exact ⟨_, rfl⟩
    · rename_i hnone
      obtain ⟨t, o, hok, -⟩ := upsertFact_database db call.now (call.fact f)
      rw [hok]
      obtain ⟨i, hi, hfails⟩ := h
      cases i with
      | zero => exact absurd hnone hfails
      | succ i =>
        refine ih { db with facts := t } (written + 1) ⟨i, Nat.lt_of_succ_lt_succ hi, ?_⟩
        rw [Nat.add_assoc, Nat.add_comm 1 i]
        exact hfails

/-- None of the writes after the episode fails. -/
def Finishes (call : ReingestCall) (content : Option String) (facts : List ReingestFact) : Prop :=
  (content.isSome = true → call.fails .chunk = none) ∧
    ∀ i < facts.length, call.fails (.fact i) = none

theorem writeRest_episodes (db : Database) (source : String) (content : Option String)
    (facts : List ReingestFact) :
    (call.writeRest db source content facts).1.episodes = db.episodes := by
  unfold ReingestCall.writeRest
  split
  · exact (writeFacts_frame facts db 0).1
  · split
    · rfl
    · exact (writeFacts_frame facts _ 0).1

/-- The chunks once the content is written. -/
def chunksAfter (call : ReingestCall) (db : Database) (source : String) (content : Option String) :
    ChunkTable :=
  match content with
  | none => db.chunks
  | some text => db.chunks.upsertChunks call.now [call.chunk source text]

theorem writeRest_ok {source : String} {content : Option String} {facts : List ReingestFact}
    (h : Finishes call content facts) :
    (call.writeRest db source content facts).2 = (facts.length, none) ∧
      (call.writeRest db source content facts).1.chunks = chunksAfter call db source content := by
  have hfacts : ∀ i < facts.length, call.fails (.fact (0 + i)) = none := by
    intro i hi
    rw [Nat.zero_add]
    exact h.2 i hi
  unfold ReingestCall.writeRest chunksAfter
  cases content with
  | none =>
    refine ⟨(writeFacts_ok facts db 0 hfacts).trans ?_, (writeFacts_frame facts db 0).2⟩
    rw [Nat.zero_add]
  | some text =>
    rw [h.1 rfl]
    refine ⟨(writeFacts_ok facts _ 0 hfacts).trans ?_, (writeFacts_frame facts _ 0).2⟩
    rw [Nat.zero_add]

theorem writeRest_fails (db : Database) {source : String} {content : Option String}
    {facts : List ReingestFact} (h : ¬ Finishes call content facts) :
    ∃ e, (call.writeRest db source content facts).2.2 = some e := by
  have hfacts : (content.isSome = true → call.fails .chunk = none) →
      ∃ i < facts.length, call.fails (.fact (0 + i)) ≠ none := by
    intro hchunk
    by_contra hnone
    refine h ⟨hchunk, fun i hi => ?_⟩
    by_contra hfails
    exact hnone ⟨i, hi, by rwa [Nat.zero_add]⟩
  unfold ReingestCall.writeRest
  cases content with
  | none => exact writeFacts_fails facts db 0 (hfacts fun hsome => by cases hsome)
  | some text =>
    cases hchunk : call.fails .chunk with
    | some msg => exact ⟨_, rfl⟩
    | none => exact writeFacts_fails facts _ 0 (hfacts fun _ => hchunk)

end Writes

/-! ## One call -/

section Calls

variable (parseFacts : Json → Option (List ReingestFact))

/-- The call comes to append its episode, for this item. -/
structure Appends (s : QuarantinePlane) (id : Nat) (call : ReingestCall) (item : QuarantineItem) :
    Prop where
  read : call.fails .item = none
  found : s.quarantineItem call.req.tenantId id = some item
  unresolved : item.resolution = none
  ingestible : ((reingestContent call.req item.payload).isNone &&
    (reingestFacts parseFacts item.payload).1.isEmpty) = false
  claim : call.fails .claim = none
  source : call.fails .source = none
  episode : call.fails .episode = none

/-- The episode is in the table, and the writes after it. -/
def appended (s : QuarantinePlane) (call : ReingestCall) (item : QuarantineItem) :
    Database × Nat × Option HandlerError :=
  let source := ReingestCall.sourceOf s.webhooks item
  call.writeRest
    { s.db with episodes := s.db.episodes ++ [call.episode item.id source item.payload] } source
    (reingestContent call.req item.payload) (reingestFacts parseFacts item.payload).1

variable {parseFacts} {s : QuarantinePlane} {id : Nat} {call : ReingestCall}
  {item : QuarantineItem}

theorem quarantineItem_eq_some (h : s.quarantineItem call.req.tenantId id = some item) :
    item ∈ s.items ∧ item.tenantId = call.req.tenantId ∧ item.id = id := by
  have hrow := List.find?_some h
  obtain ⟨htenant, hid⟩ := of_decide_eq_true hrow
  exact ⟨List.mem_of_find?_eq_some h, htenant, hid⟩

theorem resolveQuarantine_database {claimed : QuarantinePlane} {resolution : QuarantineResolution}
    {note : Option String} {now : Time} {tenant : TenantId}
    (h : s.resolveQuarantine tenant id resolution note now = some claimed) :
    claimed.db = s.db ∧ claimed.webhooks = s.webhooks := by
  unfold QuarantinePlane.resolveQuarantine at h
  dsimp only at h
  split at h
  · cases h
    exact ⟨rfl, rfl⟩
  · cases h

/-- An open item is claimed. -/
theorem exists_claimed (h : s.quarantineItem call.req.tenantId id = some item)
    (hopen : item.resolution = none) :
    ∃ claimed, s.resolveQuarantine call.req.tenantId id .reingested call.req.note call.now =
      some claimed := by
  obtain ⟨hmem, htenant, hid⟩ := quarantineItem_eq_some h
  unfold QuarantinePlane.resolveQuarantine
  dsimp only
  rw [if_pos (List.any_eq_true.mpr ⟨item, hmem, decide_eq_true ⟨htenant, hid, hopen⟩⟩)]
  exact ⟨_, rfl⟩

/-- A call that does not come to append its episode fails and leaves the tables as they are. -/
theorem reingest_of_not_appends (h : ∀ item, ¬ Appends parseFacts s id call item) :
    (adminQuarantineReingest parseFacts s id call).plane.db = s.db ∧
      (adminQuarantineReingest parseFacts s id call).factsWritten = 0 ∧
      ∃ e, (adminQuarantineReingest parseFacts s id call).reply = .error e := by
  unfold adminQuarantineReingest
  dsimp only
  cases hread : call.fails .item with
  | some msg => exact ⟨rfl, rfl, _, rfl⟩
  | none =>
    cases hfound : s.quarantineItem call.req.tenantId id with
    | none => exact ⟨rfl, rfl, _, rfl⟩
    | some item =>
      dsimp only
      cases hunresolved : item.resolution with
      | some res => exact ⟨rfl, rfl, _, rfl⟩
      | none =>
        dsimp only
        split
        · exact ⟨rfl, rfl, _, rfl⟩
        · rename_i hingestible
          cases hclaim : call.fails .claim with
          | some msg => exact ⟨rfl, rfl, _, rfl⟩
          | none =>
            obtain ⟨claimed, hclaimed⟩ := exists_claimed hfound hunresolved
            obtain ⟨hdb, hwebhooks⟩ := resolveQuarantine_database hclaimed
            rw [hclaimed]
            dsimp only
            have hstop : ∃ e, call.ingest claimed item
                (reingestContent call.req item.payload)
                (reingestFacts parseFacts item.payload).1 = (s.db, 0, some e) := by
              unfold ReingestCall.ingest
              rw [hdb]
              cases hsource : call.fails .source with
              | some msg => exact ⟨_, rfl⟩
              | none =>
                cases hepisode : call.fails .episode with
                | some msg => exact ⟨_, rfl⟩
                | none =>
                  exact absurd ⟨hread, hfound, hunresolved,
                    Bool.eq_false_iff.mpr hingestible, hclaim, hsource, hepisode⟩
                    (h item)
            obtain ⟨e, hstop⟩ := hstop
            rw [hstop]
            cases call.fails .reopen with
            | some msg => exact ⟨rfl, rfl, e, rfl⟩
            | none => exact ⟨rfl, rfl, e, rfl⟩

/-- A call that appends its episode leaves what it writes, whether it fails or not. -/
theorem reingest_of_appends (h : Appends parseFacts s id call item) :
    (adminQuarantineReingest parseFacts s id call).plane.db = (appended parseFacts s call item).1 ∧
      (adminQuarantineReingest parseFacts s id call).factsWritten =
        (appended parseFacts s call item).2.1 ∧
      (∀ e, (appended parseFacts s call item).2.2 = some e →
        (adminQuarantineReingest parseFacts s id call).reply = .error e) ∧
      ((appended parseFacts s call item).2.2 = none →
        (∃ reply, (adminQuarantineReingest parseFacts s id call).reply = .ok reply) ∧
          ∀ claimed, s.resolveQuarantine call.req.tenantId id .reingested call.req.note call.now =
            some claimed →
              (adminQuarantineReingest parseFacts s id call).plane.items = claimed.items) := by
  obtain ⟨claimed, hclaimed⟩ := exists_claimed h.found h.unresolved
  obtain ⟨hdb, hwebhooks⟩ := resolveQuarantine_database hclaimed
  have hingest : call.ingest claimed item (reingestContent call.req item.payload)
      (reingestFacts parseFacts item.payload).1 = appended parseFacts s call item := by
    unfold ReingestCall.ingest appended
    rw [h.source, h.episode, hdb, hwebhooks]
  unfold adminQuarantineReingest
  dsimp only
  rw [h.read, h.found]
  dsimp only
  rw [h.unresolved]
  dsimp only
  rw [h.ingestible, if_neg Bool.false_ne_true, h.claim, hclaimed]
  dsimp only
  rw [hingest]
  rcases appended parseFacts s call item with ⟨db, written, _ | e⟩
  · refine ⟨rfl, rfl, ?_, fun _ => ⟨⟨_, rfl⟩, ?_⟩⟩
    · intro e he
      cases he
    · intro claimed' hclaimed'
      cases hclaimed'
      rfl
  · cases call.fails .reopen with
    | some _ | none =>
      refine ⟨rfl, rfl, fun e he => ?_, fun hnone => by cases hnone⟩
      cases he
      rfl

/-- A call on an item that is resolved leaves all as it is. -/
theorem reingest_of_resolved (h : ∀ i ∈ s.items, i.id = id → i.resolution ≠ none) :
    (adminQuarantineReingest parseFacts s id call).plane = s ∧
      (adminQuarantineReingest parseFacts s id call).factsWritten = 0 := by
  unfold adminQuarantineReingest
  dsimp only
  cases call.fails .item with
  | some msg => exact ⟨rfl, rfl⟩
  | none =>
    cases hfound : s.quarantineItem call.req.tenantId id with
    | none => exact ⟨rfl, rfl⟩
    | some item =>
      dsimp only
      cases hresolution : item.resolution with
      | some res => exact ⟨rfl, rfl⟩
      | none =>
        obtain ⟨hmem, -, hid⟩ := quarantineItem_eq_some hfound
        exact absurd hresolution (h item hmem hid)

/-- An item that is claimed is resolved. -/
theorem resolved_of_claimed {claimed : QuarantinePlane}
    (hfound : s.quarantineItem call.req.tenantId id = some item) (hopen : item.resolution = none)
    (hclaimed : s.resolveQuarantine call.req.tenantId id .reingested call.req.note call.now =
      some claimed) : ∀ i ∈ claimed.items, i.id = id → i.resolution ≠ none := by
  obtain ⟨hmem, htenant, hid⟩ := quarantineItem_eq_some hfound
  unfold QuarantinePlane.resolveQuarantine at hclaimed
  dsimp only at hclaimed
  split at hclaimed
  · cases hclaimed
    intro i hi
    obtain ⟨i', hi', rfl⟩ := List.mem_map.mp hi
    split
    · exact fun _ => Option.some_ne_none _
    · rename_i hnot
      intro hid'
      have hsame : i' = item :=
        List.inj_on_of_nodup_map s.ids_nodup hi' hmem (hid'.trans hid.symm)
      subst hsame
      exact absurd (decide_eq_true ⟨htenant, hid, hopen⟩) hnot
  · cases hclaimed

end Calls

/-! ## Sequences of calls -/

/-- The plane, the facts of the item by their places that were written so far, and the item and the
content of the first call that succeeded. -/
structure Reingests where
  plane : QuarantinePlane
  written : List Nat
  served : Option (QuarantineItem × Option String)

def itemEpisodes (db : Database) (id : Nat) : List Episode :=
  db.episodes.filter fun e => e.writerAzp = some (ReingestCall.writer id)

/-- The current chunks that come from an episode of the item. -/
def itemChunks (db : Database) (id : Nat) : List Chunk :=
  db.chunks.rows.filter fun c =>
    c.validTo = none ∧ c.provenance ∈ (itemEpisodes db id).map Episode.id

/-- No chunk has the id of an episode yet. -/
def UnusedEpisode (db : Database) (episode : EpisodeId) : Prop :=
  ∀ c ∈ db.chunks.rows, c.provenance ≠ episode ∧ c.documentId ≠ "qr:" ++ toString episode

section Sequences

variable (parseFacts : Json → Option (List ReingestFact)) (id : Nat)

def reingestStep (t : Reingests) (call : ReingestCall) : Option Reingests :=
  let out := adminQuarantineReingest parseFacts t.plane id call
  some
    { plane := out.plane
      written := t.written ++ List.range out.factsWritten
      served := t.served.or
        (match out.reply with
          | .ok _ => (t.plane.quarantineItem call.req.tenantId id).map fun item =>
            (item, reingestContent call.req item.payload)
          | .error _ => none) }

/-- A call that fails leaves the episodes, the chunks and the facts as they are. -/
def LeavesNothing (t : Reingests) (call : ReingestCall) : Prop :=
  ∀ e, (adminQuarantineReingest parseFacts t.plane id call).reply = .error e →
    (adminQuarantineReingest parseFacts t.plane id call).plane.db.episodes = t.plane.db.episodes ∧
      (adminQuarantineReingest parseFacts t.plane id call).plane.db.chunks = t.plane.db.chunks ∧
      (adminQuarantineReingest parseFacts t.plane id call).plane.db.facts = t.plane.db.facts

/-- The item is in one episode and its content in one current chunk, and each of its facts was
written once. -/
structure StoredOnce (t : Reingests) (item : QuarantineItem) (content : Option String) : Prop where
  episode : (itemEpisodes t.plane.db id).map Episode.payload = [.other item.payload]
  chunk : (itemChunks t.plane.db id).map Chunk.content = content.toList
  facts : ∀ i < (reingestFacts parseFacts item.payload).1.length, t.written.count i = 1

/-- A call that comes to append its episode makes the rest of its writes. -/
def Completes (t : Reingests) (call : ReingestCall) : Prop :=
  ∀ item, Appends parseFacts t.plane id call item →
    Finishes call (reingestContent call.req item.payload)
      (reingestFacts parseFacts item.payload).1

/-- What holds after calls that all complete: nothing is written before one succeeds, and the item
is resolved from then on. -/
structure ReingestInvariant (start : QuarantinePlane) (t : Reingests) : Prop where
  pending : t.served = none → t.plane.db = start.db ∧ t.written = []
  stored : ∀ item content, t.served = some (item, content) →
    StoredOnce parseFacts id t item content
  resolved : t.served ≠ none → ∀ i ∈ t.plane.items, i.id = id → i.resolution ≠ none

variable {parseFacts id} {t t' : Reingests} {call : ReingestCall}

theorem appended_finishes {s : QuarantinePlane} {item : QuarantineItem}
    (h : Finishes call (reingestContent call.req item.payload)
      (reingestFacts parseFacts item.payload).1) :
    (appended parseFacts s call item).2 = ((reingestFacts parseFacts item.payload).1.length, none) ∧
      (appended parseFacts s call item).1.chunks =
        chunksAfter call s.db (ReingestCall.sourceOf s.webhooks item)
          (reingestContent call.req item.payload) :=
  writeRest_ok h

/-- A call leaves nothing when it fails exactly when it completes. -/
theorem leavesNothing_iff_completes :
    LeavesNothing parseFacts id t call ↔ Completes parseFacts id t call := by
  constructor
  · intro hleaves item happends
    by_contra hnot
    obtain ⟨hdb, -, hfails, -⟩ := reingest_of_appends happends
    obtain ⟨e, he⟩ := writeRest_fails
      { t.plane.db with
        episodes := t.plane.db.episodes ++
          [call.episode item.id (ReingestCall.sourceOf t.plane.webhooks item) item.payload] } hnot
    have hepisodes := (hleaves e (hfails e he)).1
    rw [hdb] at hepisodes
    have happended : (appended parseFacts t.plane call item).1.episodes =
        t.plane.db.episodes ++
          [call.episode item.id (ReingestCall.sourceOf t.plane.webhooks item) item.payload] :=
      writeRest_episodes _ _ _ _
    rw [happended] at hepisodes
    exact absurd hepisodes (by simp)
  · intro hcompletes e he
    by_cases happends : ∃ item, Appends parseFacts t.plane id call item
    · obtain ⟨item, happends⟩ := happends
      obtain ⟨-, -, -, hok⟩ := reingest_of_appends happends
      have hfinished := (appended_finishes (s := t.plane) (hcompletes item happends)).1
      obtain ⟨reply, hreply⟩ := (hok (congrArg Prod.snd hfinished)).1
      rw [hreply] at he
      cases he
    · obtain ⟨hdb, -, -⟩ := reingest_of_not_appends fun item h => happends ⟨item, h⟩
      rw [hdb]
      exact ⟨rfl, rfl, rfl⟩

/-- The chunk of a new episode is the only one that comes from it. -/
theorem chunksAfter_of_unused {db : Database} {source : String} {content : Option String}
    (hunused : UnusedEpisode db call.episodeId) :
    ((chunksAfter call db source content).rows.filter fun c =>
      c.validTo = none ∧ c.provenance ∈ [call.episodeId]).map Chunk.content = content.toList := by
  have hothers : (db.chunks.rows.filter fun c =>
      decide (c.validTo = none ∧ c.provenance ∈ [call.episodeId])) = [] := by
    rw [List.filter_eq_nil_iff]
    intro c hc hcur
    exact (hunused c hc).1 (List.mem_singleton.mp (of_decide_eq_true hcur).2)
  unfold chunksAfter
  cases content with
  | none =>
    dsimp only
    rw [hothers]
    rfl
  | some text =>
    dsimp only
    rw [rows_upsertChunks_new (fun c hc => (hunused c hc).2), List.filter_append, hothers]
    have hnew : decide ((db.chunks.rowOf call.now (call.chunk source text)).validTo = none ∧
        (db.chunks.rowOf call.now (call.chunk source text)).provenance ∈ [call.episodeId]) =
        true := decide_eq_true ⟨rfl, List.mem_singleton_self _⟩
    rw [List.nil_append, List.filter_cons, if_pos hnew]
    rfl

/-- The first call that appends its episode stores the item. -/
theorem storedOnce_of_appends {item : QuarantineItem} (hnew : itemEpisodes t.plane.db id = [])
    (hwritten : t.written = []) (hunused : UnusedEpisode t.plane.db call.episodeId)
    (happends : Appends parseFacts t.plane id call item)
    (hfinishes : Finishes call (reingestContent call.req item.payload)
      (reingestFacts parseFacts item.payload).1)
    (hstep : reingestStep parseFacts id t call = some t') :
    StoredOnce parseFacts id t' item (reingestContent call.req item.payload) := by
  obtain ⟨hdb, hcount, -, -⟩ := reingest_of_appends happends
  obtain ⟨hrest, hchunks⟩ := appended_finishes (s := t.plane) hfinishes
  obtain ⟨-, -, hid⟩ := quarantineItem_eq_some happends.found
  have hepisodes : (appended parseFacts t.plane call item).1.episodes = t.plane.db.episodes ++
      [call.episode item.id (ReingestCall.sourceOf t.plane.webhooks item) item.payload] :=
    writeRest_episodes _ _ _ _
  have hitem : itemEpisodes t'.plane.db id =
      [call.episode item.id (ReingestCall.sourceOf t.plane.webhooks item) item.payload] := by
    cases hstep
    unfold itemEpisodes at hnew ⊢
    rw [hdb, hepisodes, List.filter_append, hnew, List.nil_append, List.filter_cons_of_pos]
    · rfl
    · exact decide_eq_true (congrArg (fun n => some (ReingestCall.writer n)) hid)
  refine ⟨?_, ?_, ?_⟩
  · rw [hitem]
    rfl
  · unfold itemChunks
    rw [hitem]
    cases hstep
    rw [hdb, hchunks]
    exact chunksAfter_of_unused hunused
  · cases hstep
    intro i hi
    dsimp only
    rw [hwritten, List.nil_append, hcount, hrest]
    exact List.count_eq_one_of_mem List.nodup_range (List.mem_range.mpr hi)

/-- A re-ingest that completes keeps the invariant. -/
theorem reingestInvariant_step {start : QuarantinePlane} (hnew : itemEpisodes start.db id = [])
    (hunused : UnusedEpisode start.db call.episodeId)
    (h : ReingestInvariant parseFacts id start t) (hcompletes : Completes parseFacts id t call)
    (hstep : reingestStep parseFacts id t call = some t') :
    ReingestInvariant parseFacts id start t' := by
  cases hserved : t.served with
  | some entry =>
    have hresolved := h.resolved (by rw [hserved]; exact Option.some_ne_none entry)
    obtain ⟨hplane, hcount⟩ := @reingest_of_resolved parseFacts t.plane id call hresolved
    have hsame : t' = t := by
      cases hstep
      rw [hplane, hcount, hserved, Option.some_or, List.range_zero, List.append_nil, ← hserved]
    rw [hsame]
    exact h
  | none =>
    obtain ⟨hdb, hwritten⟩ := h.pending hserved
    by_cases happends : ∃ item, Appends parseFacts t.plane id call item
    · obtain ⟨item, happends⟩ := happends
      obtain ⟨-, -, -, hok⟩ := reingest_of_appends happends
      have hfinishes := hcompletes item happends
      obtain ⟨⟨reply, hreply⟩, hitems⟩ :=
        hok (congrArg Prod.snd (appended_finishes (s := t.plane) hfinishes).1)
      have hstored :
          StoredOnce parseFacts id t' item (reingestContent call.req item.payload) := by
        refine storedOnce_of_appends ?_ hwritten ?_ happends hfinishes hstep
        · rw [hdb]
          exact hnew
        · rw [hdb]
          exact hunused
      have hserved' : t'.served = some (item, reingestContent call.req item.payload) := by
        cases hstep
        dsimp only
        rw [hserved, hreply, happends.found]
        rfl
      refine ⟨fun hnone => ?_, fun item' content hcontent => ?_, fun _ => ?_⟩
      · rw [hserved'] at hnone
        cases hnone
      · rw [hserved'] at hcontent
        cases hcontent
        exact hstored
      · obtain ⟨claimed, hclaimed⟩ := exists_claimed happends.found happends.unresolved
        have hresolved := resolved_of_claimed happends.found happends.unresolved hclaimed
        cases hstep
        rw [hitems claimed hclaimed]
        exact hresolved
    · obtain ⟨hsame, hcount, e, he⟩ := reingest_of_not_appends fun item h => happends ⟨item, h⟩
      have hserved' : t'.served = none := by
        cases hstep
        dsimp only
        rw [hserved, he]
        rfl
      refine ⟨fun _ => ?_, fun item content hcontent => ?_, fun hsome => absurd hserved' hsome⟩
      · cases hstep
        dsimp only
        rw [hsame, hcount, hwritten]
        exact ⟨hdb, rfl⟩
      · rw [hserved'] at hcontent
        cases hcontent

/-- For every quarantined item that is in no episode yet, and every sequence of calls on it, any
step of any of which may fail: no failed call leaves anything, and after the first call that
succeeds the item is stored once, exactly when every call that comes to append its episode makes
the rest of its writes. -/
theorem storedOnce_iff_completes {start : QuarantinePlane} {calls : List ReingestCall}
    (hnew : itemEpisodes start.db id = [])
    (hunused : ∀ call ∈ calls, UnusedEpisode start.db call.episodeId) :
    (Along (reingestStep parseFacts id) (LeavesNothing parseFacts id) ⟨start, [], none⟩ calls ∧
      ∀ before after t item content, calls = before ++ after →
        run (reingestStep parseFacts id) ⟨start, [], none⟩ before = some t →
          t.served = some (item, content) → StoredOnce parseFacts id t item content) ↔
      Along (reingestStep parseFacts id) (Completes parseFacts id) ⟨start, [], none⟩ calls := by
  have hsteps : Along (reingestStep parseFacts id) (LeavesNothing parseFacts id)
      ⟨start, [], none⟩ calls ↔
      Along (reingestStep parseFacts id) (Completes parseFacts id) ⟨start, [], none⟩ calls :=
    along_congr (I := fun _ => True) (fun _ _ _ _ _ _ => trivial)
      (fun _ _ _ => leavesNothing_iff_completes) trivial calls
  rw [hsteps, and_iff_left_iff_imp]
  intro halong before after t item content hsplit hrun hserved
  have hcompletes := along_iff_forall_split.mp halong
  have hinv : ReingestInvariant parseFacts id start t := by
    refine run_invariant (P := fun t call =>
      Completes parseFacts id t call ∧ UnusedEpisode start.db call.episodeId)
      (fun _ _ _ h hP hstep => reingestInvariant_step hnew hP.2 h hP.1 hstep)
      ⟨fun _ => ⟨rfl, rfl⟩, fun _ _ h => absurd h (by simp), fun h => absurd rfl h⟩ ?_ hrun
    refine along_iff_forall_split.mpr fun before' call after' t' hsplit' hrun' => ⟨?_, ?_⟩
    · refine hcompletes before' call (after' ++ after) t' ?_ hrun'
      rw [hsplit, hsplit', List.append_assoc, List.cons_append]
    · refine hunused call ?_
      rw [hsplit, hsplit']
      simp
  exact hinv.stored item content hserved

end Sequences

/-! ## A payload without an access list -/

/-- The facts of an array, each with the four fields it needs and no time of its own. -/
def untimedFacts : Json → Option (List ReingestFact)
  | .arr facts => facts.mapM fun fact => do
      let source ← payloadText fact "source"
      let entityId ← payloadText fact "entity_id"
      let field ← payloadText fact "field"
      let value ← fact.get "value"
      some ⟨source, entityId, field, value, none⟩
  | _ => none

def renewalItem : QuarantineItem where
  id := 7
  tenantId := 1
  webhookId := 3
  payload := .obj [("content", .str "acme renewal at risk"),
    ("facts", .arr [.obj [("source", .str "crm"), ("entity_id", .str "acme"),
      ("field", .str "stage"), ("value", .str "renewal")]])]
  reason := "unmappable acl"
  instant := 1
  resolution := none
  resolvedAt := none
  resolutionNote := none

def renewalPlane : QuarantinePlane where
  db := .empty
  items := [renewalItem]
  ids_nodup := List.nodup_singleton _
  webhooks := [(3, "billing")]

/-- A call in which these steps fail. -/
def renewalCall (episode : EpisodeId) (failing : List ReingestStep) : ReingestCall where
  req := { tenantId := 1, visibility := [10], confidentiality := .internal }
  episodeId := episode
  receivedAt := (episode : Time)
  now := episode
  fails step := if step ∈ failing then some "connection reset" else none

/-- The claim of the first call fails, and the second succeeds. -/
theorem renewal_stored_once :
    ∃ t, run (reingestStep untimedFacts 7) ⟨renewalPlane, [], none⟩
        [renewalCall 1 [.claim], renewalCall 2 []] = some t ∧
      t.served = some (renewalItem, some "acme renewal at risk") ∧
      StoredOnce untimedFacts 7 t renewalItem (some "acme renewal at risk") := by
  have hview : (run (reingestStep untimedFacts 7) ⟨renewalPlane, [], none⟩
      [renewalCall 1 [.claim], renewalCall 2 []]).map Reingests.served =
        some (some (renewalItem, some "acme renewal at risk")) := by
    decide +kernel
  obtain ⟨t, hrun, hserved⟩ := Option.map_eq_some_iff.mp hview
  have hcompletes : Along (reingestStep untimedFacts 7) (Completes untimedFacts 7)
      ⟨renewalPlane, [], none⟩ [renewalCall 1 [.claim], renewalCall 2 []] := by
    refine ⟨fun item happends => ?_, fun t₁ _ => ⟨fun item _ => ?_, fun _ _ => trivial⟩⟩
    · cases happends.claim
    · exact ⟨fun _ => rfl, fun _ _ => rfl⟩
  refine ⟨t, hrun, hserved, ?_⟩
  exact ((storedOnce_iff_completes (by decide +kernel) fun call _ c hc => by cases hc).mpr
    hcompletes).2 _ [] t renewalItem _ (List.append_nil _).symm hrun hserved

/-- The chunk of the first call fails: its episode stays, and the second call appends another. -/
theorem renewal_stored_twice :
    ¬ ∀ (calls : List ReingestCall),
      Along (reingestStep untimedFacts 7) (LeavesNothing untimedFacts 7)
          ⟨renewalPlane, [], none⟩ calls ∧
        ∀ before after t item content, calls = before ++ after →
          run (reingestStep untimedFacts 7) ⟨renewalPlane, [], none⟩ before = some t →
            t.served = some (item, content) → StoredOnce untimedFacts 7 t item content := by
  intro hclaim
  have hview : (run (reingestStep untimedFacts 7) ⟨renewalPlane, [], none⟩
      [renewalCall 1 [.chunk], renewalCall 2 []]).map (fun t =>
        (t.served, (itemEpisodes t.plane.db 7).map Episode.id)) =
      some (some (renewalItem, some "acme renewal at risk"), [1, 2]) := by
    decide +kernel
  obtain ⟨t, hrun, hview⟩ := Option.map_eq_some_iff.mp hview
  obtain ⟨hserved, hepisodes⟩ := Prod.mk.inj hview
  have hstored := (hclaim [renewalCall 1 [.chunk], renewalCall 2 []]).2 _ [] t renewalItem _
    (List.append_nil _).symm hrun hserved
  have hlength := congrArg List.length hstored.episode
  have htwo := congrArg List.length hepisodes
  rw [List.length_map] at hlength htwo
  rw [hlength] at htwo
  cases htwo

end Verity.Analysis
