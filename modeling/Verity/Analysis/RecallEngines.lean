import Verity.Analysis.ScopePower
import Verity.Foundation.Fallible
import Verity.Model.DebugRecall
import Verity.Model.Qdrant

/-!
# One recall predicate, three engines

The scope part of a recall is written four times: as SQL over arrays, as a query to the full-text
index with a residual check, as a filter of the vector store with a residual in the client, and
as the row by row explanation of the debug trace. Each is shown to admit exactly the rows of
`recallDense`.

For the trace this uses where the scope comes from: it drops a restricted row when there is no
permission service, and a compiled scope then has a ceiling below that class already.
-/

set_option autoImplicit false

namespace Verity.Analysis

open Verity.Model Verity.Foundation

variable {scope : Scope} {c : Chunk} {st : AppState} {clock : Clock} {table : PrincipalTable}

/-- What the entity fence of recall asks of a chunk under a bound scope. -/
def FenceAdmits (scope : Scope) (c : Chunk) : Prop :=
  c.kind = "knowledge" ∨ (c.entityTags ≠ [] ∧ c.entityTags ⊆ scope.entityScope)

theorem recallDense_eq_true :
    recallDense scope c = true ↔
      scopePredicate scope c = true ∧ (scope.entityScope ≠ [] → FenceAdmits scope c) := by
  rw [recallDense, Bool.and_eq_true]
  unfold entityScopePredicate FenceAdmits
  by_cases hbound : scope.entityScope = []
  · simp [hbound]
  · simp [hbound, List.isEmpty_iff]

/-- A chunk the fence admits has a tag in the scope or is knowledge. -/
theorem FenceAdmits.overlaps_or_knowledge (h : FenceAdmits scope c) :
    (∃ e ∈ c.entityTags, e ∈ scope.entityScope) ∨ c.kind = "knowledge" := by
  rcases h with hkind | ⟨htags, hsubset⟩
  · exact Or.inr hkind
  · obtain ⟨e, he⟩ := List.exists_mem_of_ne_nil _ htags
    exact Or.inl ⟨e, he, hsubset he⟩

/-! ## The full-text index -/

/-- The text leg sees the rows of the dense leg. -/
theorem recallBm25_eq_true {index : SearchIndex} (hindex : index.Lawful) :
    recallBm25 index scope c = true ↔ recallDense scope c = true := by
  rw [recallDense_eq_true, scopePredicate_eq_true]
  unfold recallBm25
  by_cases hbound : scope.entityScope = []
  · rw [if_pos (by simpa using hbound)]
    simp only [Bool.and_eq_true, decide_eq_true_eq, Option.isNone_iff_eq_none,
      hindex.termSetVisibility, toI16_le_iff, hbound, ne_eq, not_true_eq_false, false_implies]
    tauto
  · rw [if_neg (by simpa using hbound)]
    have hshould : index.hits (.booleanShould
        [.termSetEntityTags scope.entityScope, .termKind "knowledge"]) c = true ↔
          (∃ e ∈ c.entityTags, e ∈ scope.entityScope) ∨ c.kind = "knowledge" := by
      rw [hindex.booleanShould]
      simp [hindex.termSetEntityTags, hindex.termKind]
    have hresidual : (decide (c.kind = "knowledge") ||
        (!c.entityTags.isEmpty && containedIn c.entityTags scope.entityScope)) = true ↔
          FenceAdmits scope c := by
      simp [FenceAdmits]
    simp only [Bool.and_eq_true, decide_eq_true_eq, Option.isNone_iff_eq_none,
      hindex.termSetVisibility, hshould, hresidual, toI16_le_iff]
    constructor
    · rintro ⟨⟨⟨⟨⟨hvisible, _⟩, htenant⟩, hcurrent⟩, hclass⟩, hfence⟩
      exact ⟨⟨htenant, hcurrent, hvisible, hclass⟩, fun _ => hfence⟩
    · rintro ⟨⟨htenant, hcurrent, hvisible, hclass⟩, hfence⟩
      have hadmits := hfence hbound
      exact ⟨⟨⟨⟨⟨hvisible, hadmits.overlaps_or_knowledge⟩, htenant⟩, hcurrent⟩, hclass⟩, hadmits⟩

/-! ## The vector store -/

section Payload

variable {payload : PointPayload} {key : String}

theorem holds_iff_mem {xs : List PointValue} {v : PointValue}
    (h : payload.lookup key = some (.list xs)) (hv : ∀ ys, v ≠ .list ys) :
    PointPayload.Holds payload key v ↔ v ∈ xs := by
  unfold PointPayload.Holds
  rw [h]
  constructor
  · rintro (heq | ⟨ys, heq, hmem⟩)
    · exact absurd (Option.some.inj heq).symm (hv xs)
    · cases heq
      exact hmem
  · intro hmem
    exact Or.inr ⟨xs, rfl, hmem⟩

theorem holds_iff_eq {v w : PointValue} (h : payload.lookup key = some w)
    (hw : ∀ ys, w ≠ .list ys) : PointPayload.Holds payload key v ↔ v = w := by
  unfold PointPayload.Holds
  rw [h]
  constructor
  · rintro (heq | ⟨ys, heq, _⟩)
    · exact (Option.some.inj heq).symm
    · exact absurd (Option.some.inj heq) (hw ys)
  · rintro rfl
    exact Or.inl rfl

end Payload

theorem lookup_valid_to (c : Chunk) :
    (chunkPayload c).lookup "valid_to" = c.validTo.map .integer := by
  unfold chunkPayload
  cases c.validTo <;> rfl

theorem holds_visibility (c : Chunk) (t : PrincipalToken) :
    (chunkPayload c).Holds "visibility" (.integer t) ↔ t ∈ c.visibility := by
  have hlookup : (chunkPayload c).lookup "visibility" =
      some (.list (c.visibility.map .integer)) := rfl
  rw [holds_iff_mem hlookup (by simp)]
  simp

theorem holds_entity_tags (c : Chunk) (e : String) :
    (chunkPayload c).Holds "entity_tags" (.text e) ↔ e ∈ c.entityTags := by
  have hlookup : (chunkPayload c).lookup "entity_tags" =
      some (.list (c.entityTags.map .text)) := rfl
  rw [holds_iff_mem hlookup (by simp)]
  simp

theorem holds_confidentiality (c : Chunk) (n : Int) :
    (chunkPayload c).Holds "confidentiality" (.integer n) ↔ n = c.confidentiality.toI16 := by
  have hlookup : (chunkPayload c).lookup "confidentiality" =
      some (.integer c.confidentiality.toI16) := rfl
  rw [holds_iff_eq hlookup (by simp), PointValue.integer.injEq]

theorem holds_kind (c : Chunk) (kind : String) :
    (chunkPayload c).Holds "kind" (.text kind) ↔ c.kind = kind := by
  have hlookup : (chunkPayload c).lookup "kind" = some (.text c.kind) := rfl
  rw [holds_iff_eq hlookup (by simp), PointValue.text.injEq, eq_comm]

/-- The filter on the point of a row: the conditions of recall, with overlap for the fence. -/
theorem satisfies_scopeFilter {engine : QdrantEngine} (hengine : engine.Lawful)
    (hprincipals : scope.principals ≠ []) (c : Chunk) :
    engine.satisfies (chunkPayload c) (scopeFilter scope) = true ↔
      (∃ t ∈ c.visibility, t ∈ scope.principals) ∧ c.confidentiality ≤ scope.maxConfidentiality ∧
        c.validTo = none ∧ (scope.entityScope ≠ [] →
          (∃ e ∈ c.entityTags, e ∈ scope.entityScope) ∨ c.kind = "knowledge") := by
  have hvisibility : engine.satisfies (chunkPayload c)
      (.matchesIntegers "visibility" scope.principals) = true ↔
        ∃ t ∈ c.visibility, t ∈ scope.principals := by
    rw [hengine.matchesIntegers _ _ _ hprincipals]
    simp only [holds_visibility, and_comm]
  have hclass : engine.satisfies (chunkPayload c)
      (.rangeLte "confidentiality" scope.maxConfidentiality.toI16) = true ↔
        c.confidentiality ≤ scope.maxConfidentiality := by
    rw [hengine.rangeLte, ← toI16_le_iff]
    simp only [holds_confidentiality, exists_eq_right]
  have hcurrent : engine.satisfies (chunkPayload c) (.isEmpty "valid_to") = true ↔
      c.validTo = none := by
    rw [hengine.isEmpty, lookup_valid_to]
    simp
  rw [scopeFilter, hengine.must]
  by_cases hbound : scope.entityScope = []
  · simp [hbound, hvisibility, hclass, hcurrent]
  · have hfence : engine.satisfies (chunkPayload c) (.should
        [.matchesKeywords "entity_tags" scope.entityScope, .matchesKeyword "kind" "knowledge"]) =
          true ↔ (∃ e ∈ c.entityTags, e ∈ scope.entityScope) ∨ c.kind = "knowledge" := by
      rw [hengine.should _ _ (by simp)]
      simp only [List.mem_cons, List.not_mem_nil, or_false, exists_eq_or_imp, exists_eq_left,
        hengine.matchesKeywords _ _ _ hbound, hengine.matchesKeyword, holds_entity_tags,
        holds_kind, and_comm]
    simp [hbound, hvisibility, hclass, hcurrent, hfence]

/-- The point of a row decodes to the hit of the row. -/
theorem hitFromPayload_chunkPayload (c : Chunk) :
    hitFromPayload (chunkPayload c) = .ok (rowToHit c) := by
  have htags : (chunkPayload c).getStrings "entity_tags" = c.entityTags := by
    have hlookup : (chunkPayload c).lookup "entity_tags" =
        some (.list (c.entityTags.map .text)) := rfl
    unfold PointPayload.getStrings
    rw [hlookup]
    simp [List.filterMap_map]
  have htier : (if c.trustTier.toI16 = 1 then TrustTier.authoritative else .observation) =
      c.trustTier := by
    cases c.trustTier <;> rfl
  have hdecoded : hitFromPayload (chunkPayload c) =
      .ok { rowToHit c with
        entityTags := (chunkPayload c).getStrings "entity_tags"
        aclProvenance := .fromStrLossy c.aclProvenance.asStr
        trustTier := if c.trustTier.toI16 = 1 then .authoritative else .observation } := rfl
  rw [hdecoded, htags, htier, AclProvenance.fromStrLossy_asStr]
  rfl

/-- A recall over the point of a row answers with the row's hit, if recall admits the row. -/
theorem recallPoint_chunkPoint {engine : QdrantEngine} (hengine : engine.Lawful)
    (hprincipals : scope.principals ≠ []) (c : Chunk) :
    recallPoint engine scope (chunkPoint c.tenantId c) =
      .ok (if recallDense scope c then some (rowToHit c) else none) := by
  have hresidual : entityScopeAdmits scope (rowToHit c) = true ↔ FenceAdmits scope c := by
    show (decide (c.kind = "knowledge") ||
      (!c.entityTags.isEmpty && c.entityTags.all fun t => scope.entityScope.contains t)) = true ↔ _
    simp [FenceAdmits, List.subset_def]
  unfold recallPoint
  by_cases hadmitted : recallDense scope c = true
  · obtain ⟨hscope, hfence⟩ := recallDense_eq_true.mp hadmitted
    obtain ⟨htenant, hcurrent, hvisible, hclass⟩ := scopePredicate_eq_true.mp hscope
    have hsatisfies := (satisfies_scopeFilter hengine hprincipals c).mpr
      ⟨hvisible, hclass, hcurrent, fun hbound => (hfence hbound).overlaps_or_knowledge⟩
    rw [if_pos (by simpa [chunkPoint, htenant] using hsatisfies), if_pos hadmitted]
    simp only [chunkPoint, hitFromPayload_chunkPayload]
    by_cases hbound : scope.entityScope = []
    · simp [hbound, bind, Except.bind, pure, Except.pure]
    · simp [hresidual.mpr (hfence hbound), bind, Except.bind, pure, Except.pure]
  · rw [if_neg hadmitted]
    split
    · -- the filter passed, so it is the residual that drops the hit
      rename_i hpassed
      rw [Bool.and_eq_true, decide_eq_true_eq] at hpassed
      obtain ⟨hvisible, hclass, hcurrent, _⟩ :=
        (satisfies_scopeFilter hengine hprincipals c).mp hpassed.2
      have hscope := scopePredicate_eq_true.mpr ⟨hpassed.1, hcurrent, hvisible, hclass⟩
      have hdropped : scope.entityScope ≠ [] ∧ ¬ FenceAdmits scope c := by
        by_contra h
        apply hadmitted
        rw [recallDense_eq_true]
        refine ⟨hscope, ?_⟩
        intro hbound
        by_contra hfence
        exact h ⟨hbound, hfence⟩
      have hrefused : entityScopeAdmits scope (rowToHit c) = false := by
        rw [← Bool.not_eq_true, hresidual]
        exact hdropped.2
      simp only [chunkPoint, hitFromPayload_chunkPayload]
      simp [hdropped.1, hrefused, bind, Except.bind, pure, Except.pure]
    · rfl

/-! ## The debug trace -/

theorem staleReasons_eq_nil : staleReasons c = [] ↔ c.validTo = none := by
  unfold staleReasons
  cases c.validTo <;> simp

theorem visibilityReasons_eq_nil :
    visibilityReasons scope c = [] ↔ ∃ t ∈ c.visibility, t ∈ scope.principals := by
  unfold visibilityReasons
  by_cases hempty : c.visibility = []
  · simp [hempty]
  · rw [if_neg (by simpa using hempty)]
    simp

theorem ceilingReasons_eq_nil :
    ceilingReasons scope c = [] ↔ c.confidentiality ≤ scope.maxConfidentiality := by
  unfold ceilingReasons
  rw [← toI16_le_iff]
  simp

theorem entityReasons_eq_nil :
    entityReasons scope c = [] ↔ (scope.entityScope ≠ [] → FenceAdmits scope c) := by
  unfold entityReasons FenceAdmits
  by_cases hbound : scope.entityScope = []
  · simp [hbound]
  · by_cases hkind : c.kind = "knowledge"
    · simp [hkind]
    · by_cases htags : c.entityTags = []
      · simp [hbound, hkind, htags]
      · simp [hbound, hkind, htags, List.subset_def]

/-- The conditions that the trace checks on the row alone are those of recall. -/
theorem scopeReasons_eq_nil :
    scopeReasons scope c = [] ↔ c.validTo = none ∧
      (∃ t ∈ c.visibility, t ∈ scope.principals) ∧
        c.confidentiality ≤ scope.maxConfidentiality ∧
          (scope.entityScope ≠ [] → FenceAdmits scope c) := by
  unfold scopeReasons
  rw [List.append_eq_nil_iff, List.append_eq_nil_iff, List.append_eq_nil_iff, staleReasons_eq_nil,
    visibilityReasons_eq_nil, ceilingReasons_eq_nil, entityReasons_eq_nil]
  tauto

/-- Without a permission service a compiled scope does not reach the restricted class, unless
the server is told to serve it. -/
theorem scopeFor_below_restricted {payload : ScopePayload}
    (h : st.scopeFor payload clock = .ok (table, scope)) (hnone : st.rebac = none)
    (hoff : st.allowRestrictedWithoutRebac = false) : scope.maxConfidentiality < .restricted := by
  have hceiling := (scopeFor_spec h).2.1
  rw [hceiling]
  unfold AppState.readCeiling
  rw [if_pos (by simp [hnone, hoff])]
  exact lt_of_le_of_lt (min_le_right _ _) (by decide)

/-- Under a compiled scope, the check of restricted rows drops nothing that passed so far. -/
theorem restrictedCheck_drops_nothing {payload : ScopePayload}
    (h : st.scopeFor payload clock = .ok (table, scope)) (c : Chunk) :
    (restrictedCheck st scope c).1 = [] := by
  unfold restrictedCheck
  split
  · rename_i hrestricted
    have hclass := (scopeReasons_eq_nil.mp hrestricted.2).2.2.1
    split
    · rename_i hnone
      split
      · -- the ceiling is below the class, so the row did not pass
        rename_i hoff
        have hceiling := scopeFor_below_restricted h hnone (by simpa using hoff)
        have hle : Confidentiality.restricted ≤ c.confidentiality :=
          toI16_le_iff.mp hrestricted.1
        exact absurd (lt_of_le_of_lt (le_trans hle hclass) hceiling) (lt_irrefl _)
      · rfl
    · rfl
  · rfl

theorem traceCandidate_dropReasons {payload : ScopePayload}
    (h : st.scopeFor payload clock = .ok (table, scope)) (c : Chunk) :
    (traceCandidate st scope c).dropReasons = scopeReasons scope c := by
  show scopeReasons scope c ++ (restrictedCheck st scope c).1 = scopeReasons scope c
  rw [restrictedCheck_drops_nothing h c, List.append_nil]

/-- The entries of a reply are the traces of rows of the tenant, under the compiled scope. -/
theorem exists_of_mem_adminDebugRecall {payload : ScopePayload} {hasQuery : Bool} {candidates : Nat}
    {matching : List Chunk} {traced : List TracedCandidate}
    (h : adminDebugRecall st payload clock hasQuery candidates matching = .ok (scope, traced))
    {entry : TracedCandidate} (hentry : entry ∈ traced) :
    (∃ table, st.scopeFor payload clock = .ok (table, scope)) ∧
      debugRecallCandidate scope entry.candidate = true ∧
        entry = traceCandidate st scope entry.candidate := by
  unfold adminDebugRecall at h
  split at h
  · exact absurd h (by simp)
  · obtain ⟨⟨table, compiled⟩, hscope, h⟩ := exists_of_bind_eq_ok h
    obtain ⟨rfl, rfl⟩ := Prod.mk.inj (Except.ok.inj h)
    obtain ⟨c, hc, rfl⟩ := List.mem_map.mp hentry
    have hcandidate := (List.mem_filter.mp (List.mem_of_mem_take hc)).2
    exact ⟨⟨table, hscope⟩, hcandidate, rfl⟩

/-! ## The engines agree -/

/-- Under every compiled scope with a principal, the full-text leg, the vector store and the
debug trace admit a row if and only if the dense leg does. -/
theorem recall_engines_agree {index : SearchIndex} {engine : QdrantEngine}
    (hindex : index.Lawful) (hengine : engine.Lawful) {st : AppState} {payload : ScopePayload}
    {clock : Clock} {table : PrincipalTable} {scope : Scope}
    (hscope : st.scopeFor payload clock = .ok (table, scope)) (hprincipals : scope.principals ≠ [])
    (c : Chunk) :
    (recallDense scope c = true ↔ recallBm25 index scope c = true) ∧
    (recallDense scope c = true ↔
      ∃ hit, recallPoint engine scope (chunkPoint c.tenantId c) = .ok (some hit)) ∧
    (recallDense scope c = true ↔
      debugRecallCandidate scope c = true ∧ (traceCandidate st scope c).dropReasons = []) ∧
    ∀ hasQuery candidates matching traced,
      adminDebugRecall st payload clock hasQuery candidates matching = .ok (scope, traced) →
        ∀ entry ∈ traced, entry.candidate = c →
          (recallDense scope c = true ↔ entry.dropReasons = []) := by
  have htrace : recallDense scope c = true ↔
      debugRecallCandidate scope c = true ∧ (traceCandidate st scope c).dropReasons = [] := by
    rw [traceCandidate_dropReasons hscope, scopeReasons_eq_nil, recallDense_eq_true,
      scopePredicate_eq_true, debugRecallCandidate, decide_eq_true_iff]
    tauto
  refine ⟨(recallBm25_eq_true hindex).symm, ?_, htrace, ?_⟩
  · rw [recallPoint_chunkPoint hengine hprincipals]
    by_cases hadmitted : recallDense scope c = true
    · simp [hadmitted]
    · simp [hadmitted]
  · rintro hasQuery candidates matching traced hreply entry hentry rfl
    obtain ⟨_, hcandidate, hentry⟩ := exists_of_mem_adminDebugRecall hreply hentry
    rw [htrace, ← hentry]
    exact and_iff_right hcandidate

/-- The notes of a call, tagged with the customers they are about. -/
def taggedChunk (tags : List String) : Chunk where
  id := 7
  tenantId := 1
  source := "gong"
  documentId := "call-7"
  seq := 0
  content := "pricing"
  visibility := [1]
  entityTags := tags
  confidentiality := .internal
  trustTier := .authoritative
  validFrom := seconds 1
  validTo := none
  recordedAt := seconds 2
  provenance := 1
  aclProvenance := .mirrored
  derivedFrom := []
  kind := "content"

/-- A server without a permission service, and a handle for one customer up to restricted. -/
def serverWithoutRebac : AppState := { staleServer with rebac := none, watch := WatchStatus.new }

def acmeHandle : ScopePayload :=
  { aliceWith [1] with entityScope := ["account:acme"], maxConfidentiality := .restricted }

/-- The chunk of the account is a hit for every engine, and the trace gives no reason to drop it. -/
theorem recall_engines_agree_acme :
    ∃ table scope, serverWithoutRebac.scopeFor acmeHandle noon = .ok (table, scope) ∧
      scope.principals ≠ [] ∧
      recallPoint QdrantEngine.exact scope (chunkPoint 1 (taggedChunk ["account:acme"])) =
        .ok (some (rowToHit (taggedChunk ["account:acme"]))) ∧
      (recallDense scope (taggedChunk ["account:acme"]) = true ↔
        recallBm25 SearchIndex.exact scope (taggedChunk ["account:acme"]) = true) ∧
      (recallDense scope (taggedChunk ["account:acme"]) = true ↔
        debugRecallCandidate scope (taggedChunk ["account:acme"]) = true ∧
          (traceCandidate serverWithoutRebac scope
            (taggedChunk ["account:acme"])).dropReasons = []) := by
  have hok : ∃ result, serverWithoutRebac.scopeFor acmeHandle noon = .ok result := ⟨_, rfl⟩
  obtain ⟨⟨table, scope⟩, hscope⟩ := hok
  have hview : (serverWithoutRebac.scopeFor acmeHandle noon).map (fun r => r.2.principals) =
      .ok [1] := by decide +kernel
  rw [hscope] at hview
  have hlive : scope.principals = [1] := Except.ok.inj hview
  have hprincipals : scope.principals ≠ [] := by
    rw [hlive]
    simp
  obtain ⟨hbm25, -, htrace, -⟩ := recall_engines_agree SearchIndex.exact_lawful
    QdrantEngine.exact_lawful hscope hprincipals (taggedChunk ["account:acme"])
  refine ⟨table, scope, hscope, hprincipals, ?_, hbm25, htrace⟩
  cases hscope
  rfl

end Verity.Analysis
