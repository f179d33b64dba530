import Mathlib.Data.Rat.Init
import Verity.Foundation.Turns
import Verity.Model.KnowledgeCuration

/-!
# The consolidation plane

A worker leases unprocessed episodes and completes each with what it extracted: facts, tag
suggestions and candidates for the knowledge layer. `complete` sets the terminal mark of the
episode in a statement of its own and then runs three loops, one write after another. A call may
stop with an error at any statement; `CallStop` says where.

A call is given one clock reading. Fresh ids are the next free ones. The counts of the reply, the
embeddings and the reasons of merges are left out: nothing here reads them. Storing an embedding
or a reason is still a place where a call can stop; it is one with the place after it.
-/

set_option autoImplicit false

namespace Verity.Model

open Verity.Foundation

/-- A row of `episode_processing`. SOURCE: migrations/0014_consolidation.sql:12-19 -/
structure ProcessingRow where
  tenantId : TenantId
  episodeId : EpisodeId
  leasedUntil : Time
  processedAt : Option Time
  worker : String
deriving DecidableEq, Repr

/-- A row of `tag_suggestions`. SOURCE: migrations/0014_consolidation.sql:28-36 -/
structure TagSuggestionRow where
  tenantId : TenantId
  chunkId : ChunkId
  tag : String
  confidence : Rat
  status : String
deriving DecidableEq, Repr

structure ConsolidationStore where
  db : Database
  processing : List ProcessingRow
  tagSuggestions : List TagSuggestionRow

/-! ## The request -/

/-- SOURCE: consolidation.rs:211-225 -/
structure L2FactIn where
  subject : String
  relation : String
  object : Json
  validFrom : Option Instant
  canonicalPredicate : Option String
deriving DecidableEq

/-- The confidence is a finite `f32`. SOURCE: consolidation.rs:227-232 -/
structure TagSuggestionIn where
  chunkId : ChunkId
  tag : String
  confidence : Rat
deriving DecidableEq

/-- SOURCE: consolidation.rs:234-264 -/
structure KnowledgeCandidateIn where
  statement : String
  categories : List String
  evidence : List EpisodeId
  canonicalStatement : Option String
  mergeInto : Option KnowledgeId
deriving DecidableEq

/-- SOURCE: consolidation.rs:266-276 -/
structure CompleteRequest where
  tenantId : TenantId
  episodeId : EpisodeId
  l2Facts : List L2FactIn
  tagSuggestions : List TagSuggestionIn
  knowledgeCandidates : List KnowledgeCandidateIn
deriving DecidableEq

/-- What the server is configured with: `VERITY_AUTO_TAG`, `VERITY_KNOWLEDGE_AUTO_MERGE` and the
settings of the knowledge layer. -/
structure ConsolidationServer where
  text : UnicodeText
  autoTag : Bool
  knowledgeAutoMerge : Bool
  settings : KnowledgeSettings

/-- 0.9 as an `f32`. SOURCE: consolidation.rs:65 -/
def autoTagMinConfidence : Rat := 7549747 / 8388608

/-! ## Leases -/

/-- SOURCE: consolidation.rs:63 -/
def leaseMinutes : Int := 5

namespace ConsolidationStore

def processingRow (s : ConsolidationStore) (tenant : TenantId) (episode : EpisodeId) :
    Option ProcessingRow :=
  s.processing.find? fun r => decide (r.tenantId = tenant ∧ r.episodeId = episode)

/-- The rows of the query `cand`, before its limit. SOURCE: consolidation.rs:135-142 -/
def leasable (s : ConsolidationStore) (now : Time) (tenant : TenantId) (e : Episode) : Bool :=
  decide (e.tenantId = tenant) &&
    decide (e.kind = .observation ∨ e.kind = .webhook ∨ e.kind = .docVersion) &&
    match s.processingRow tenant e.id with
    | none => true
    | some r => decide (r.processedAt = none ∧ r.leasedUntil < now)

/-- The lease of one episode: the row is inserted, or released and taken again. -/
def leaseOne (now : Time) (tenant : TenantId) (worker : String) (s : ConsolidationStore)
    (e : Episode) : ConsolidationStore :=
  let leasedUntil := now + seconds (60 * leaseMinutes)
  match s.processingRow tenant e.id with
  | none => { s with processing := s.processing ++ [⟨tenant, e.id, leasedUntil, none, worker⟩] }
  | some _ => { s with
      processing := updateWhere
        (fun r => decide (r.tenantId = tenant ∧ r.episodeId = e.id ∧ r.processedAt = none ∧
          r.leasedUntil < now))
        (fun r => { r with leasedUntil := leasedUntil, worker := worker }) s.processing }

/-- SOURCE: consolidation.rs:112-163 -/
def lease (s : ConsolidationStore) (now : Time) (tenant : TenantId) (limit : Int)
    (worker : Option String) : ConsolidationStore × List EpisodeId :=
  let cand := ((s.db.episodes.filter (s.leasable now tenant)).insertionSort
    (Ascending Episode.recordedAt)).take (max 1 (min limit 256)).toNat
  (cand.foldl (leaseOne now tenant (worker.getD "worker")) s, cand.map Episode.id)

end ConsolidationStore

/-! ## Where a call stops -/

/-- The statement at which a call stops with an error. In a loop it is the turn, counted from
zero, and how many writes of that turn come before. -/
inductive CallStop where
  | never
  | beforeMark
  | afterMark
  | inFacts (turn writes : Nat)
  | inSuggestions (turn writes : Nat)
  | inCandidates (turn writes : Nat)
deriving DecidableEq, Repr

/-- The error of a statement that fails. -/
def stopped : HandlerError := ⟨500, "database error"⟩

/-- The writes a turn can make before it stops, if it does. -/
def turnStop (turn writes i : Nat) : Option Nat := if i = turn then some writes else none

namespace CallStop

def factStop : CallStop → Nat → Option Nat
  | .inFacts turn writes => turnStop turn writes
  | _ => fun _ => none

def suggestionStop : CallStop → Nat → Option Nat
  | .inSuggestions turn writes => turnStop turn writes
  | _ => fun _ => none

def candidateStop : CallStop → Nat → Option Nat
  | .inCandidates turn writes => turnStop turn writes
  | _ => fun _ => none

end CallStop

/-- The elements of a loop with the stops of their turns. -/
def withStops {ι : Type} (stop : Nat → Option Nat) (xs : List ι) : List (ι × Option Nat) :=
  xs.mapIdx fun i x => (x, stop i)

/-- A turn that has made its writes and stops nevertheless. -/
def turnEnd (stop : Option Nat) : Option HandlerError := stop.map fun _ => stopped

/-! ## Facts -/

/-- SOURCE: consolidation.rs:86-91 -/
def normalizeTerm (text : UnicodeText) (s : String) : String :=
  text.toLowercase (String.intercalate " " (splitWhitespace s))

/-- SOURCE: consolidation.rs:843-878 -/
def deriveL2Acl (db : Database) (tenant : TenantId) (episodeId : EpisodeId) :
    List PrincipalToken × Confidentiality :=
  match db.chunks.rows.filter fun c =>
      decide (c.tenantId = tenant ∧ c.provenance = episodeId ∧ c.validTo = none) with
  | [] => ([], .restricted)
  | c :: cs =>
    let shared := cs.foldl (fun acc c => acc.filter fun t => c.visibility.contains t) c.visibility
    (shared.dedup.insertionSort (· ≤ ·),
      .fromI16 ((c :: cs).foldl (fun acc c => max acc c.confidentiality.toI16) 0))

/-- SOURCE: consolidation.rs:354-376 -/
def l2Fact (text : UnicodeText) (req : CompleteRequest) (recordedAt : Time)
    (acl : List PrincipalToken × Confidentiality) (fact : L2FactIn) : FactWrite where
  tenantId := req.tenantId
  key :=
    { source := "l2"
      entityId := normalizeTerm text fact.subject
      field := match fact.canonicalPredicate with
        | some p => if trim p ≠ "" then normalizeTerm text p else normalizeTerm text fact.relation
        | none => normalizeTerm text fact.relation }
  value := fact.object
  validFrom := fact.validFrom.getD recordedAt
  visibility := acl.1
  confidentiality := acl.2
  provenance := req.episodeId
  aclProvenance := .adminAssigned

/-- SOURCE: consolidation.rs:349-385 -/
def completeFact (text : UnicodeText) (now : Time) (req : CompleteRequest) (recordedAt : Time)
    (acl : List PrincipalToken × Confidentiality) (s : ConsolidationStore)
    (x : L2FactIn × Option Nat) : ConsolidationStore × Option HandlerError :=
  if x.2 = some 0 then (s, some stopped)
  else
    match s.db.upsertFact now (l2Fact text req recordedAt acl x.1) with
    | .error e => (s, some ⟨500, (storageStatus e).message⟩)
    | .ok (db, _) => ({ s with db := db }, turnEnd x.2)

/-! ## Tag suggestions -/

/-- The chunk belongs to the tenant. -/
def Database.knownChunk (db : Database) (tenant : TenantId) (id : ChunkId) : Bool :=
  db.chunks.rows.any fun c => decide (c.tenantId = tenant ∧ c.id = id)

/-- SOURCE: consolidation.rs:536-553 -/
def Database.applyTag (db : Database) (tenant : TenantId) (id : ChunkId) (tag : String) :
    Database :=
  { db with
    chunks := db.chunks.update
      (fun c => if c.tenantId = tenant ∧ c.id = id ∧ tag ∉ c.entityTags then
        { c with entityTags := c.entityTags ++ [tag] } else c)
      (by intro c; split <;> rfl) }

/-- SOURCE: consolidation.rs:388-425 -/
def completeSuggestion (server : ConsolidationServer) (req : CompleteRequest)
    (s : ConsolidationStore) (x : TagSuggestionIn × Option Nat) :
    ConsolidationStore × Option HandlerError :=
  let (ts, stop) := x
  if s.db.knownChunk req.tenantId ts.chunkId = false then
    (s, some ⟨422, "chunk " ++ toString ts.chunkId ++ " not found in tenant"⟩)
  else if stop = some 0 then (s, some stopped)
  else
    let apply : Bool := server.autoTag && decide (autoTagMinConfidence ≤ ts.confidence)
    let s := { s with
      tagSuggestions := s.tagSuggestions ++ [⟨req.tenantId, ts.chunkId, ts.tag, ts.confidence,
        if apply then "auto_applied" else "suggested"⟩] }
    if apply then
      if stop = some 1 then (s, some stopped)
      else ({ s with db := s.db.applyTag req.tenantId ts.chunkId ts.tag }, turnEnd stop)
    else (s, turnEnd stop)

/-! ## Knowledge candidates -/

/-- A fresh id. -/
def freshId (ids : List Nat) : Nat := ids.foldr (fun id next => max (id + 1) next) 0

/-- The item the evidence of a candidate is merged into: the first with its canonical form, or the
one the judge has named. SOURCE: consolidation.rs:571-626 -/
def mergeTarget (server : ConsolidationServer) (db : Database) (tenant : TenantId)
    (cand : KnowledgeCandidateIn) : Option KnowledgeId :=
  let fast : Option KnowledgeRow :=
    ((cand.canonicalStatement.map trim).filter (· ≠ "")).bind fun canon =>
      ((db.knowledge.rows.filter fun k =>
          decide (k.tenantId = tenant ∧ (k.status = .candidate ∨ k.status = .published) ∧
            k.canonicalStatement = some canon)).insertionSort
        (Ascending KnowledgeRow.firstSeen)).head?
  match fast with
  | some k => some k.id
  | none =>
    if server.knowledgeAutoMerge then
      cand.mergeInto.filter fun id => db.mergeable tenant id
    else none

/-- SOURCE: consolidation.rs:677-689 -/
def candidateProposal (tenant : TenantId) (cand : KnowledgeCandidateIn) : KnowledgeProposal where
  tenantId := tenant
  statement := cand.statement
  categories := cand.categories
  evidence := cand.evidence
  proposedBySub := none
  proposedByAzp := some "consolidation-worker"
  canonicalStatement := cand.canonicalStatement

/-- SOURCE: consolidation.rs:564-721 -/
def proposeOrMerge (server : ConsolidationServer) (now : Time) (req : CompleteRequest)
    (s : ConsolidationStore) (x : KnowledgeCandidateIn × Option Nat) :
    ConsolidationStore × Option HandlerError :=
  let (cand, stop) := x
  let promote (s : ConsolidationStore) (id : KnowledgeId) :
      ConsolidationStore × Option HandlerError :=
    if stop = some 1 then (s, some stopped)
    else
      ({ s with
          db := (s.db.promoteIfEligible server.settings now req.tenantId id
            (freshId (s.db.episodes.map Episode.id))).1 }, turnEnd stop)
  if stop = some 0 then (s, some stopped)
  else
    match mergeTarget server s.db req.tenantId cand with
    | some id =>
      promote { s with db := s.db.mergeEvidence now req.tenantId id cand.evidence } id
    | none =>
      match s.db.proposeKnowledge server.text now
          (freshId (s.db.knowledge.rows.map KnowledgeRow.id))
          (candidateProposal req.tenantId cand) with
      | .error e => (s, some ⟨500, (storageStatus e).message⟩)
      | .ok (db, .remembered) => ({ s with db := db }, turnEnd stop)
      | .ok (db, .accrued id) => promote { s with db := db } id
      | .ok (db, .inserted id) => promote { s with db := db } id

/-! ## The handler -/

/-- One call: the clock, and the statement at which it stops. -/
structure CompleteCall where
  now : Time
  stop : CallStop
deriving DecidableEq, Repr

/-- The parts of a payload whose turns came to their end. -/
structure Consolidated where
  l2Facts : List L2FactIn
  tagSuggestions : List TagSuggestionIn
  knowledgeCandidates : List KnowledgeCandidateIn
deriving DecidableEq

def Consolidated.append (w w' : Consolidated) : Consolidated :=
  ⟨w.l2Facts ++ w'.l2Facts, w.tagSuggestions ++ w'.tagSuggestions,
    w.knowledgeCandidates ++ w'.knowledgeCandidates⟩

inductive CompleteReply where
  | alreadyProcessed
  | completed
deriving DecidableEq, Repr

/-- The tables after a call, what it has written, and its answer. -/
structure CompleteEnd where
  store : ConsolidationStore
  written : Consolidated
  reply : Except HandlerError CompleteReply

namespace ConsolidationStore

/-- The terminal mark. SOURCE: consolidation.rs:296-305 -/
def markProcessed (s : ConsolidationStore) (now : Time) (tenant : TenantId)
    (episode : EpisodeId) : ConsolidationStore :=
  { s with
    processing := updateWhere
      (fun r => decide (r.tenantId = tenant ∧ r.episodeId = episode ∧ r.processedAt = none))
      (fun r => { r with processedAt := some now }) s.processing }

/-- The three loops, after the mark. SOURCE: consolidation.rs:325-434 -/
def writePayload (server : ConsolidationServer) (s : ConsolidationStore) (req : CompleteRequest)
    (call : CompleteCall) (recordedAt : Time) : CompleteEnd :=
  let acl := deriveL2Acl s.db req.tenantId req.episodeId
  let facts := turns (completeFact server.text call.now req recordedAt acl) s
    (withStops call.stop.factStop req.l2Facts)
  let l2Facts := facts.done.map Prod.fst
  match facts.error with
  | some e => ⟨facts.state, ⟨l2Facts, [], []⟩, .error e⟩
  | none =>
    let suggestions := turns (completeSuggestion server req) facts.state
      (withStops call.stop.suggestionStop req.tagSuggestions)
    let tagSuggestions := suggestions.done.map Prod.fst
    match suggestions.error with
    | some e => ⟨suggestions.state, ⟨l2Facts, tagSuggestions, []⟩, .error e⟩
    | none =>
      let candidates := turns (proposeOrMerge server call.now req) suggestions.state
        (withStops call.stop.candidateStop req.knowledgeCandidates)
      { store := candidates.state
        written := ⟨l2Facts, tagSuggestions, candidates.done.map Prod.fst⟩
        reply := match candidates.error with
          | some e => .error e
          | none => .ok .completed }

/-- SOURCE: consolidation.rs:280-434 -/
def complete (server : ConsolidationServer) (s : ConsolidationStore) (req : CompleteRequest)
    (call : CompleteCall) : CompleteEnd :=
  if call.stop = .beforeMark then ⟨s, ⟨[], [], []⟩, .error stopped⟩
  else
    match s.processingRow req.tenantId req.episodeId with
    | none => ⟨s, ⟨[], [], []⟩, .error ⟨422, "episode was never leased for consolidation"⟩⟩
    | some r =>
      if r.processedAt.isSome then ⟨s, ⟨[], [], []⟩, .ok .alreadyProcessed⟩
      else
        let s := s.markProcessed call.now req.tenantId req.episodeId
        if call.stop = .afterMark then ⟨s, ⟨[], [], []⟩, .error stopped⟩
        else
          match s.db.episodes.find? fun e =>
              decide (e.tenantId = req.tenantId ∧ e.id = req.episodeId) with
          | none => ⟨s, ⟨[], [], []⟩, .error stopped⟩
          | some e => writePayload server s req call e.recordedAt

end ConsolidationStore

end Verity.Model
