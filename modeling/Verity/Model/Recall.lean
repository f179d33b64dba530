import Verity.Model.Chunks

/-!
# Which chunks a recall admits

The scope part of the recall queries of the Postgres profile: tenant, validity, overlap of the
visibility with the principals, the class ceiling, and for an entity-bound scope the fence that
lets a chunk through only if it is knowledge or all its tags are in the scope. The text match,
the embedding and the ranking are left out.

The full-text index is an extension of the database, so what recall asks of it is a parameter:
`SearchIndex` answers a query about a row, and `SearchIndex.Lawful` states the documented
meaning of the queries that recall uses.
-/

set_option autoImplicit false

namespace Verity.Model

/-- The array operator `&&`. -/
def overlaps {α : Type} [DecidableEq α] (xs ys : List α) : Bool := xs.any fun x => ys.contains x

/-- The array operator `<@`. -/
def containedIn {α : Type} [DecidableEq α] (xs ys : List α) : Bool := xs.all fun x => ys.contains x

/-- SOURCE: postgres.rs:3668-3675 -/
def entityScopePredicate (scope : Scope) (c : Chunk) : Bool :=
  if scope.entityScope.isEmpty then true
  else
    decide (c.kind = "knowledge") ||
      (!c.entityTags.isEmpty && containedIn c.entityTags scope.entityScope)

/-- `tenant_id = … AND valid_to IS NULL AND visibility && … AND confidentiality <= …`. -/
def scopePredicate (scope : Scope) (c : Chunk) : Bool :=
  decide (c.tenantId = scope.tenantId) && c.validTo.isNone &&
    overlaps c.visibility scope.principals &&
      decide (c.confidentiality.toI16 ≤ scope.maxConfidentiality.toI16)

/-- SOURCE: postgres.rs:3571-3582 -/
def recallDense (scope : Scope) (c : Chunk) : Bool :=
  scopePredicate scope c && entityScopePredicate scope c

/-- What recall asks of the full-text index, besides the text match. -/
inductive IndexQuery where
  | termSetVisibility (terms : List PrincipalToken)
  | termSetEntityTags (terms : List String)
  | termKind (term : String)
  | booleanShould (queries : List IndexQuery)
deriving Repr

/-- The operator `@@@` over the index of migrations/0008_bm25_entity_tags.sql. -/
structure SearchIndex where
  hits : IndexQuery → Chunk → Bool

/-- A set of terms matches a field that holds one of them (both text fields are indexed as
whole keywords), a term the field that is the term, and `should` a row that one part matches. -/
structure SearchIndex.Lawful (index : SearchIndex) : Prop where
  termSetVisibility : ∀ terms c, index.hits (.termSetVisibility terms) c = true ↔
    ∃ t ∈ c.visibility, t ∈ terms
  termSetEntityTags : ∀ terms c, index.hits (.termSetEntityTags terms) c = true ↔
    ∃ e ∈ c.entityTags, e ∈ terms
  termKind : ∀ term c, index.hits (.termKind term) c = true ↔ c.kind = term
  booleanShould : ∀ queries c, index.hits (.booleanShould queries) c = true ↔
    ∃ q ∈ queries, index.hits q c = true

mutual

/-- The meaning of the queries, computed. -/
def IndexQuery.eval (c : Chunk) : IndexQuery → Bool
  | .termSetVisibility terms => overlaps c.visibility terms
  | .termSetEntityTags terms => overlaps c.entityTags terms
  | .termKind term => decide (c.kind = term)
  | .booleanShould queries => evalAny c queries

def IndexQuery.evalAny (c : Chunk) : List IndexQuery → Bool
  | [] => false
  | q :: queries => q.eval c || evalAny c queries

end

def SearchIndex.exact : SearchIndex := ⟨fun q c => q.eval c⟩

/-- Two statements: an entity-bound scope first selects candidates that share a tag with the
scope or are knowledge, and then keeps those whose tags are all in it.
SOURCE: postgres.rs:3598-3651 -/
def recallBm25 (index : SearchIndex) (scope : Scope) (c : Chunk) : Bool :=
  if scope.entityScope.isEmpty then
    index.hits (.termSetVisibility scope.principals) c && decide (c.tenantId = scope.tenantId) &&
      c.validTo.isNone && decide (c.confidentiality.toI16 ≤ scope.maxConfidentiality.toI16)
  else
    let cand := index.hits (.termSetVisibility scope.principals) c &&
      index.hits (.booleanShould
        [.termSetEntityTags scope.entityScope, .termKind "knowledge"]) c &&
      decide (c.tenantId = scope.tenantId) && c.validTo.isNone &&
      decide (c.confidentiality.toI16 ≤ scope.maxConfidentiality.toI16)
    cand && (decide (c.kind = "knowledge") ||
      (!c.entityTags.isEmpty && containedIn c.entityTags scope.entityScope))

@[simp]
theorem overlaps_eq_true {α : Type} [DecidableEq α] {xs ys : List α} :
    overlaps xs ys = true ↔ ∃ x ∈ xs, x ∈ ys := by
  simp [overlaps]

@[simp]
theorem containedIn_eq_true {α : Type} [DecidableEq α] {xs ys : List α} :
    containedIn xs ys = true ↔ xs ⊆ ys := by
  simp [containedIn, List.subset_def]

theorem toI16_le_iff {c c' : Confidentiality} : c.toI16 ≤ c'.toI16 ↔ c ≤ c' := Iff.rfl

theorem IndexQuery.evalAny_eq_true {c : Chunk} {queries : List IndexQuery} :
    evalAny c queries = true ↔ ∃ q ∈ queries, q.eval c = true := by
  induction queries with
  | nil => simp [evalAny]
  | cons q queries ih => simp [evalAny, ih]

theorem SearchIndex.exact_lawful : SearchIndex.exact.Lawful where
  termSetVisibility := by
    intro terms c
    exact overlaps_eq_true
  termSetEntityTags := by
    intro terms c
    exact overlaps_eq_true
  termKind := by
    intro term c
    exact decide_eq_true_iff
  booleanShould := by
    intro queries c
    exact IndexQuery.evalAny_eq_true

/-- The four conditions of the scope predicate. -/
theorem scopePredicate_eq_true {scope : Scope} {c : Chunk} :
    scopePredicate scope c = true ↔
      c.tenantId = scope.tenantId ∧ c.validTo = none ∧
        (∃ t ∈ c.visibility, t ∈ scope.principals) ∧
          c.confidentiality ≤ scope.maxConfidentiality := by
  simp [scopePredicate, and_assoc, toI16_le_iff]

end Verity.Model
