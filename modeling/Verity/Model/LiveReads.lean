import Verity.Foundation.Run
import Verity.Model.AclCorrection
import Verity.Model.Recall
import Verity.Model.Text

/-!
# Reads by recency

Two verbs read chunks by recency instead of by relevance: the poll of a subscription, which
streams what was recorded since the last poll, and `latest_chunks`, which serves the memory
section of a brief. Both select rows by tenant, validity, overlap of the visibility with the
principals and the class ceiling, and by entity: the poll by overlap of the tags with the watch
set, `latest_chunks` by one tag.

A hit is the row it is made from. Rows of equal time come in any order, so a query is the
relation to its answers; `pollChunks` and `latestChunks` compute one of them.
-/

set_option autoImplicit false

namespace Verity.Model

open Verity.Foundation

/-! ## The watch set of a subscription -/

/-- What `subscribe` makes of the entities it is asked to watch. -/
inductive WatchDecision where
  | refused (error : HandlerError)
  | errorStream (message : String)
  | watching (entities : List String)
deriving DecidableEq, Repr

/-- SOURCE: subscribe.rs:125-133 -/
def watchedParam (entities : Option String) : List String :=
  ((splitAtChar ',' (entities.getD "")).map trim).filter fun e => !e.isEmpty

/-- A bound scope watches its own entities unless it is asked for some of them.
SOURCE: subscribe.rs:135-155 -/
def resolveWatched (entityScope : List String) (entities : Option String) : WatchDecision :=
  let watched := watchedParam entities
  if entityScope.isEmpty then
    if watched.isEmpty then
      .refused ⟨422, "subscribe requires ?entities=a,b (unbound scopes watch nothing by default)"⟩
    else .watching watched
  else if watched.isEmpty then .watching entityScope
  else if containedIn watched entityScope then .watching watched
  else .errorStream "entities outside the scope's entity_scope"

/-! ## The poll -/

/-- SOURCE: subscribe.rs:52 -/
def pollLimit : Nat := 256

/-- SOURCE: subscribe.rs:264-271 -/
def pollSelects (scope : Scope) (watched : List String) (since : Time) (c : Chunk) : Bool :=
  decide (c.tenantId = scope.tenantId) && decide (since < c.recordedAt) && c.validTo.isNone &&
    overlaps c.entityTags watched && overlaps c.visibility scope.principals &&
      decide (c.confidentiality.toI16 ≤ scope.maxConfidentiality.toI16)

/-- SOURCE: subscribe.rs:254-296 -/
def PollAnswer (chunks : ChunkTable) (scope : Scope) (watched : List String) (since : Time)
    (hits : List Chunk) : Prop :=
  AnswersLimit (Ascending Chunk.recordedAt) pollLimit
    (chunks.rows.filter (pollSelects scope watched since)) hits

def pollChunks (chunks : ChunkTable) (scope : Scope) (watched : List String) (since : Time) :
    List Chunk :=
  firstRows (Ascending Chunk.recordedAt) pollLimit
    (chunks.rows.filter (pollSelects scope watched since))

theorem pollChunks_answers (chunks : ChunkTable) (scope : Scope) (watched : List String)
    (since : Time) :
    PollAnswer chunks scope watched since (pollChunks chunks scope watched since) :=
  answersLimit_firstRows _ _

/-! ## The newest chunks of an entity -/

/-- Whether a scope may ask for the entity. -/
def Scope.covers (scope : Scope) (entity : String) : Bool :=
  scope.entityScope.isEmpty || scope.entityScope.contains entity

/-- SOURCE: postgres.rs:4643-4648 -/
def latestSelects (scope : Scope) (entity : String) (c : Chunk) : Bool :=
  decide (c.tenantId = scope.tenantId) && c.validTo.isNone && containedIn [entity] c.entityTags &&
    overlaps c.visibility scope.principals &&
      decide (c.confidentiality.toI16 ≤ scope.maxConfidentiality.toI16)

/-- `limit.clamp(1, 100)`. -/
def latestLimit (limit : Nat) : Nat := max 1 (min limit 100)

/-- SOURCE: postgres.rs:4625-4660 -/
def LatestAnswer (chunks : ChunkTable) (scope : Scope) (entity : String) (limit : Nat)
    (hits : List Chunk) : Prop :=
  if scope.principals.isEmpty || !scope.covers entity then hits = []
  else
    AnswersLimit (Descending Chunk.validFrom) (latestLimit limit)
      (chunks.rows.filter (latestSelects scope entity)) hits

def latestChunks (chunks : ChunkTable) (scope : Scope) (entity : String) (limit : Nat) :
    List Chunk :=
  if scope.principals.isEmpty || !scope.covers entity then []
  else
    firstRows (Descending Chunk.validFrom) (latestLimit limit)
      (chunks.rows.filter (latestSelects scope entity))

/-- The rows either query selects pass the scope predicate of recall. -/
theorem pollSelects_eq_true {scope : Scope} {watched : List String} {since : Time} {c : Chunk} :
    pollSelects scope watched since c = true ↔
      scopePredicate scope c = true ∧ since < c.recordedAt ∧ ∃ e ∈ c.entityTags, e ∈ watched := by
  rw [scopePredicate_eq_true]
  simp only [pollSelects, Bool.and_eq_true, decide_eq_true_eq, Option.isNone_iff_eq_none,
    overlaps_eq_true, toI16_le_iff]
  tauto

theorem latestSelects_eq_true {scope : Scope} {entity : String} {c : Chunk} :
    latestSelects scope entity c = true ↔
      scopePredicate scope c = true ∧ entity ∈ c.entityTags := by
  rw [scopePredicate_eq_true]
  simp only [latestSelects, Bool.and_eq_true, decide_eq_true_eq, Option.isNone_iff_eq_none,
    overlaps_eq_true, containedIn_eq_true, List.cons_subset, List.nil_subset, and_true,
    toI16_le_iff]
  tauto

/-! ## The poll loop of a subscription

A subscription polls the chunks that were recorded after its high-water mark, streams what it
finds and moves the mark up to the last of it. Between the polls transactions commit. All rows of
a transaction carry its instant, and the instants grow in the order of the commits.

The actions, which the loop polls beside the chunks with a mark of their own, are left out, and so
are the ends of a stream: an expired handle, and an error of the store.
-/

/-- What a transaction at an instant may do to the chunks: the rows it adds are recorded at that
instant under fresh ids, and a row that was there keeps its id and its instant. -/
structure Recorded (now : Time) (before after : ChunkTable) : Prop where
  rows : ∀ c ∈ after.rows,
    (∃ c₀ ∈ before.rows, c₀.id = c.id ∧ c₀.recordedAt = c.recordedAt) ∨
      (before.nextId ≤ c.id ∧ c.recordedAt = now)
  nextId_le : before.nextId ≤ after.nextId

instance (now : Time) (before after : ChunkTable) : Decidable (Recorded now before after) :=
  decidable_of_iff ((∀ c ∈ after.rows,
      (∃ c₀ ∈ before.rows, c₀.id = c.id ∧ c₀.recordedAt = c.recordedAt) ∨
        (before.nextId ≤ c.id ∧ c.recordedAt = now)) ∧ before.nextId ≤ after.nextId)
    ⟨fun h => ⟨h.1, h.2⟩, fun h => ⟨h.rows, h.nextId_le⟩⟩

theorem recorded_upsertChunks (t : ChunkTable) (now : Time) (writes : List ChunkWrite) :
    Recorded now t (t.upsertChunks now writes) where
  rows := by
    intro c hc
    rcases ChunkTable.mem_upsertChunks_cases hc with ⟨c₀, hc₀, validTo, rfl⟩ | hnew
    · exact Or.inl ⟨c₀, hc₀, rfl, rfl⟩
    · exact Or.inr hnew
  nextId_le := ChunkTable.nextId_le_upsertChunks t now writes

/-- The scope that a handle stands for, and the entities that are watched under it. -/
structure Subscription where
  scope : Scope
  watched : List String

/-- A connection: the chunks at its instant, which the database clock has given. -/
structure Connection where
  chunks : ChunkTable
  connectedAt : Time
  recorded_le : ∀ c ∈ chunks.rows, c.recordedAt ≤ connectedAt

/-- The chunks and the instant of the last commit, and of the stream its high-water mark and what
it has emitted. -/
structure SubscriptionState where
  chunks : ChunkTable
  lastCommit : Time
  chunkHwm : Time
  emitted : List Chunk

/-- SOURCE: subscribe.rs:163-174 -/
def Connection.start (conn : Connection) : SubscriptionState where
  chunks := conn.chunks
  lastCommit := conn.connectedAt
  chunkHwm := conn.connectedAt
  emitted := []

inductive SubscriptionEvent where
  | commit (now : Time) (chunks : ChunkTable)
  | poll (hits : List Chunk)

def SubscriptionEvent.isPoll : SubscriptionEvent → Bool
  | .commit .. => false
  | .poll _ => true

namespace Subscription

variable (sub : Subscription)

/-- The rows that a poll chooses from. -/
def pending (s : SubscriptionState) : List Chunk :=
  s.chunks.rows.filter (pollSelects sub.scope sub.watched s.chunkHwm)

instance (chunks : ChunkTable) (since : Time) (hits : List Chunk) :
    Decidable (PollAnswer chunks sub.scope sub.watched since hits) :=
  inferInstanceAs (Decidable (AnswersLimit _ _ _ _))

/-- A poll under an empty set of principals emits nothing; any other moves the mark up to the
newest row it emits. SOURCE: subscribe.rs:176-208 -/
def step (s : SubscriptionState) : SubscriptionEvent → Option SubscriptionState
  | .commit now chunks =>
    if s.lastCommit < now ∧ Recorded now s.chunks chunks then
      some { s with chunks := chunks, lastCommit := now }
    else none
  | .poll hits =>
    if sub.scope.principals.isEmpty then some s
    else if PollAnswer s.chunks sub.scope sub.watched s.chunkHwm hits then
      some { s with
        chunkHwm := hits.foldl (fun mark hit => max mark hit.recordedAt) s.chunkHwm
        emitted := s.emitted ++ hits }
    else none

end Subscription

end Verity.Model
