import Verity.Model.AclCorrection
import Verity.Model.Recall

/-!
# The Qdrant profile

The second recall engine: a vector store that holds one point for every version of a chunk, in
one collection per tenant. A point's payload is computed from the row. A recall filters the
points of the tenant's collection, decodes what passes into hits and, under an entity-bound
scope, drops the hits whose tags are not all in the scope.

The store is another program, so its filters are syntax here: `QdrantEngine` evaluates them on a
payload, and `QdrantEngine.Lawful` states the documented meaning of those that are used. The
vectors, the ranking and the limit of the query are left out, and so are the content hash and
the point ids. The text of a uuid is kept as the uuid.
-/

set_option autoImplicit false

namespace Verity.Model

/-! ## Points -/

/-- `qdrant::Value`, as far as the points of chunks use it. -/
inductive PointValue where
  | integer (n : Int)
  | text (s : String)
  | uuid (id : Nat)
  | list (xs : List PointValue)
deriving Repr

abbrev PointPayload := List (String × PointValue)

/-- The discriminant of a tier. SOURCE: types.rs:112-119 -/
def TrustTier.toI16 : TrustTier → Int
  | authoritative => 1
  | observation => 2

/-- A point, and the tenant whose collection it is in. -/
structure ChunkPoint where
  collection : TenantId
  payload : PointPayload
deriving Repr

/-- Only a retired row has the key `valid_to`. SOURCE: qdrant.rs:99-124 -/
def chunkPayload (row : Chunk) : PointPayload :=
  [("pg_id", .uuid row.id),
   ("source", .text row.source),
   ("document_id", .text row.documentId),
   ("seq", .integer row.seq),
   ("content", .text row.content),
   ("visibility", .list (row.visibility.map .integer)),
   ("entity_tags", .list (row.entityTags.map .text)),
   ("confidentiality", .integer row.confidentiality.toI16),
   ("trust_tier", .integer row.trustTier.toI16),
   ("kind", .text row.kind),
   ("acl_provenance", .text row.aclProvenance.asStr),
   ("valid_from", .integer row.validFrom),
   ("provenance", .uuid row.provenance)] ++
  match row.validTo with
  | some validTo => [("valid_to", .integer validTo)]
  | none => []

/-- SOURCE: qdrant.rs:99-138 -/
def chunkPoint (tenant : TenantId) (row : Chunk) : ChunkPoint := ⟨tenant, chunkPayload row⟩

/-! ## Filters -/

/-- The conditions and filters of a query. A filter is a condition too. -/
inductive QdrantFilter where
  | matchesIntegers (key : String) (values : List Int)
  | matchesKeywords (key : String) (values : List String)
  | matchesKeyword (key : String) (value : String)
  | rangeLte (key : String) (bound : Int)
  | isEmpty (key : String)
  | must (conditions : List QdrantFilter)
  | should (conditions : List QdrantFilter)
deriving Repr

/-- The value at the key is `v`, or a list with `v` in it. -/
def PointPayload.Holds (payload : PointPayload) (key : String) (v : PointValue) : Prop :=
  payload.lookup key = some v ∨ ∃ xs, payload.lookup key = some (.list xs) ∧ v ∈ xs

/-- The filter evaluation of the store. -/
structure QdrantEngine where
  satisfies : PointPayload → QdrantFilter → Bool

/-- A match or a range looks for one value at the key, in a list for one of its elements;
`is_empty` holds when the key is absent or its list is; a filter with `must` needs all of its
conditions, one with `should` one of them. -/
structure QdrantEngine.Lawful (engine : QdrantEngine) : Prop where
  matchesIntegers : ∀ payload key values, values ≠ [] →
    (engine.satisfies payload (.matchesIntegers key values) = true ↔
      ∃ n ∈ values, PointPayload.Holds payload key (.integer n))
  matchesKeywords : ∀ payload key values, values ≠ [] →
    (engine.satisfies payload (.matchesKeywords key values) = true ↔
      ∃ s ∈ values, PointPayload.Holds payload key (.text s))
  matchesKeyword : ∀ payload key value,
    engine.satisfies payload (.matchesKeyword key value) = true ↔
      PointPayload.Holds payload key (.text value)
  rangeLte : ∀ payload key bound,
    engine.satisfies payload (.rangeLte key bound) = true ↔
      ∃ n ≤ bound, PointPayload.Holds payload key (.integer n)
  isEmpty : ∀ payload key,
    engine.satisfies payload (.isEmpty key) = true ↔
      payload.lookup key = none ∨ payload.lookup key = some (.list [])
  must : ∀ payload conditions,
    engine.satisfies payload (.must conditions) = true ↔
      ∀ f ∈ conditions, engine.satisfies payload f = true
  should : ∀ payload conditions, conditions ≠ [] →
    (engine.satisfies payload (.should conditions) = true ↔
      ∃ f ∈ conditions, engine.satisfies payload f = true)

/-- The integers at a key. -/
def PointPayload.integersAt (payload : PointPayload) (key : String) : List Int :=
  match payload.lookup key with
  | some (.integer n) => [n]
  | some (.list xs) => xs.filterMap fun
      | .integer n => some n
      | _ => none
  | _ => []

/-- The texts at a key. -/
def PointPayload.textsAt (payload : PointPayload) (key : String) : List String :=
  match payload.lookup key with
  | some (.text s) => [s]
  | some (.list xs) => xs.filterMap fun
      | .text s => some s
      | _ => none
  | _ => []

mutual

/-- The meaning of the filters, computed. -/
def QdrantFilter.eval (payload : PointPayload) : QdrantFilter → Bool
  | .matchesIntegers key values => overlaps values (payload.integersAt key)
  | .matchesKeywords key values => overlaps values (payload.textsAt key)
  | .matchesKeyword key value => decide (value ∈ payload.textsAt key)
  | .rangeLte key bound => (payload.integersAt key).any fun n => decide (n ≤ bound)
  | .isEmpty key =>
    match payload.lookup key with
    | none => true
    | some (.list []) => true
    | _ => false
  | .must conditions => evalAll payload conditions
  | .should conditions => evalAny payload conditions

def QdrantFilter.evalAll (payload : PointPayload) : List QdrantFilter → Bool
  | [] => true
  | f :: conditions => f.eval payload && evalAll payload conditions

def QdrantFilter.evalAny (payload : PointPayload) : List QdrantFilter → Bool
  | [] => false
  | f :: conditions => f.eval payload || evalAny payload conditions

end

def QdrantEngine.exact : QdrantEngine := ⟨fun payload f => f.eval payload⟩

section Exact

variable {payload : PointPayload} {key : String}

theorem PointPayload.mem_integersAt {n : Int} :
    n ∈ payload.integersAt key ↔ payload.Holds key (.integer n) := by
  unfold integersAt Holds
  rcases payload.lookup key with - | (m | s | id | xs)
  · simp
  · simp [eq_comm]
  · simp
  · simp
  · simp only [List.mem_filterMap, Option.some.injEq, reduceCtorEq, PointValue.list.injEq,
      exists_eq_left', false_or]
    constructor
    · rintro ⟨v, hv, heq⟩
      cases v <;> simp_all
    · intro hv
      exact ⟨_, hv, rfl⟩

theorem PointPayload.mem_textsAt {s : String} :
    s ∈ payload.textsAt key ↔ payload.Holds key (.text s) := by
  unfold textsAt Holds
  rcases payload.lookup key with - | (m | s' | id | xs)
  · simp
  · simp
  · simp [eq_comm]
  · simp
  · simp only [List.mem_filterMap, Option.some.injEq, reduceCtorEq, PointValue.list.injEq,
      exists_eq_left', false_or]
    constructor
    · rintro ⟨v, hv, heq⟩
      cases v <;> simp_all
    · intro hv
      exact ⟨_, hv, rfl⟩

theorem QdrantFilter.evalAll_eq_true {conditions : List QdrantFilter} :
    evalAll payload conditions = true ↔ ∀ f ∈ conditions, f.eval payload = true := by
  induction conditions with
  | nil => simp [evalAll]
  | cons f conditions ih => simp [evalAll, ih]

theorem QdrantFilter.evalAny_eq_true {conditions : List QdrantFilter} :
    evalAny payload conditions = true ↔ ∃ f ∈ conditions, f.eval payload = true := by
  induction conditions with
  | nil => simp [evalAny]
  | cons f conditions ih => simp [evalAny, ih]

theorem QdrantEngine.exact_lawful : QdrantEngine.exact.Lawful where
  matchesIntegers := by
    intro payload key values _
    simp only [exact, QdrantFilter.eval, overlaps_eq_true, PointPayload.mem_integersAt]
  matchesKeywords := by
    intro payload key values _
    simp only [exact, QdrantFilter.eval, overlaps_eq_true, PointPayload.mem_textsAt]
  matchesKeyword := by
    intro payload key value
    simp only [exact, QdrantFilter.eval, decide_eq_true_eq, PointPayload.mem_textsAt]
  rangeLte := by
    intro payload key bound
    simp only [exact, QdrantFilter.eval, List.any_eq_true, decide_eq_true_eq,
      PointPayload.mem_integersAt, and_comm]
  isEmpty := by
    intro payload key
    simp only [exact, QdrantFilter.eval]
    generalize payload.lookup key = found
    rcases found with - | (n | s | id | - | ⟨x, xs⟩) <;> simp
  must := by
    intro payload conditions
    exact QdrantFilter.evalAll_eq_true
  should := by
    intro payload conditions _
    exact QdrantFilter.evalAny_eq_true

end Exact

/-- SOURCE: qdrant.rs:376-404 -/
def scopeFilter (scope : Scope) : QdrantFilter :=
  .must ([
    .matchesIntegers "visibility" scope.principals,
    .rangeLte "confidentiality" scope.maxConfidentiality.toI16,
    .isEmpty "valid_to"] ++
    if scope.entityScope.isEmpty then []
    else [.should [.matchesKeywords "entity_tags" scope.entityScope,
      .matchesKeyword "kind" "knowledge"]])

/-! ## Hits -/

/-- SOURCE: types.rs:395-424 -/
structure RecallHit where
  chunkId : ChunkId
  source : String
  documentId : String
  seq : Int
  content : String
  entityTags : List String
  kind : String
  aclProvenance : AclProvenance
  trustTier : TrustTier
  validFrom : Time
  provenance : EpisodeId
deriving DecidableEq, Repr

/-- An unknown label is read as assigned by an admin. SOURCE: types.rs:201-214 -/
def AclProvenance.fromStrLossy (s : String) : AclProvenance :=
  if s = "mirrored" then .mirrored
  else if s = "approximated" then .approximated
  else if s = "quarantined" then .quarantined
  else if s = "derived" then .derived
  else if s = "writer-scoped" then .writerScoped
  else if s = "declared" then .declared
  else .adminAssigned

@[simp]
theorem AclProvenance.fromStrLossy_asStr (p : AclProvenance) : fromStrLossy p.asStr = p := by
  cases p <;> rfl

namespace PointPayload

def missing (key : String) : StorageError := .database ("qdrant payload missing " ++ key)

def getStr (payload : PointPayload) (key : String) : Except StorageError String :=
  match payload.lookup key with
  | some (.text s) => .ok s
  | _ => .error (missing key)

def getI64 (payload : PointPayload) (key : String) : Except StorageError Int :=
  match payload.lookup key with
  | some (.integer n) => .ok n
  | _ => .error (missing key)

def getUuid (payload : PointPayload) (key : String) : Except StorageError Nat :=
  match payload.lookup key with
  | some (.uuid id) => .ok id
  | _ => .error (missing key)

/-- What is not a string is skipped, and an absent list is empty. -/
def getStrings (payload : PointPayload) (key : String) : List String :=
  match payload.lookup key with
  | some (.list xs) => xs.filterMap fun
      | .text s => some s
      | _ => none
  | _ => []

end PointPayload

/-- SOURCE: qdrant.rs:419-472 -/
def hitFromPayload (payload : PointPayload) : Except StorageError RecallHit := do
  let chunkId ← payload.getUuid "pg_id"
  let source ← payload.getStr "source"
  let documentId ← payload.getStr "document_id"
  let seq ← payload.getI64 "seq"
  let content ← payload.getStr "content"
  let kind ← payload.getStr "kind"
  let aclProvenance ← payload.getStr "acl_provenance"
  let trustTier ← payload.getI64 "trust_tier"
  let validFrom ← payload.getI64 "valid_from"
  let provenance ← payload.getUuid "provenance"
  pure
    { chunkId := chunkId
      source := source
      documentId := documentId
      seq := seq
      content := content
      entityTags := payload.getStrings "entity_tags"
      kind := kind
      aclProvenance := .fromStrLossy aclProvenance
      trustTier := if trustTier = 1 then .authoritative else .observation
      validFrom := validFrom
      provenance := provenance }

/-- The hit the Postgres profile makes of a row. SOURCE: postgres.rs:3677-3709 -/
def rowToHit (row : Chunk) : RecallHit where
  chunkId := row.id
  source := row.source
  documentId := row.documentId
  seq := row.seq
  content := row.content
  entityTags := row.entityTags
  kind := row.kind
  aclProvenance := row.aclProvenance
  trustTier := row.trustTier
  validFrom := row.validFrom
  provenance := row.provenance

/-- SOURCE: qdrant.rs:410-417 -/
def entityScopeAdmits (scope : Scope) (hit : RecallHit) : Bool :=
  decide (hit.kind = "knowledge") ||
    (!hit.entityTags.isEmpty && hit.entityTags.all fun t => scope.entityScope.contains t)

/-- What a recall makes of a point: the filter runs in the store, over the collection of the
scope's tenant, and the rest after it. SOURCE: qdrant.rs:328-365 -/
def recallPoint (engine : QdrantEngine) (scope : Scope) (point : ChunkPoint) :
    Except StorageError (Option RecallHit) :=
  if decide (point.collection = scope.tenantId) &&
      engine.satisfies point.payload (scopeFilter scope) then do
    let hit ← hitFromPayload point.payload
    pure (if !scope.entityScope.isEmpty && !entityScopeAdmits scope hit then none else some hit)
  else .ok none

end Verity.Model
