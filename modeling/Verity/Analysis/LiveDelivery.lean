import Verity.Model.LiveReads

/-!
# Live delivery and recall

Recall fences an entity-bound scope by containment: all tags of a chunk must be in the scope.
The poll of a subscription and `latest_chunks` fence it by overlap: one tag in the scope is
enough. The two agree as long as no chunk straddles the fence, with a tag on either side of it;
a chunk that does is delivered live and refused by recall.
-/

set_option autoImplicit false

namespace Verity.Analysis

open Verity.Model Verity.Foundation

/-- Whatever a subscription that was accepted delivers, and whatever the newest chunks of a
covered entity are, recall admits under the same scope. -/
structure DeliversOnlyRecallable (chunks : ChunkTable) (scope : Scope) : Prop where
  poll : ∀ entities watched since hits,
    resolveWatched scope.entityScope entities = .watching watched →
    PollAnswer chunks scope watched since hits → ∀ c ∈ hits, recallDense scope c = true
  latest : ∀ entity limit hits, scope.covers entity = true →
    LatestAnswer chunks scope entity limit hits → ∀ c ∈ hits, recallDense scope c = true

/-- A chunk with a tag inside the scope's entities and a tag outside. -/
def Straddles (scope : Scope) (c : Chunk) : Prop :=
  (∃ e ∈ c.entityTags, e ∈ scope.entityScope) ∧ ∃ e ∈ c.entityTags, e ∉ scope.entityScope

/-- The scope is bound to no entity, or no chunk that is not knowledge straddles it among those
that its other conditions let through. -/
def NoneStraddles (chunks : ChunkTable) (scope : Scope) : Prop :=
  scope.entityScope = [] ∨
    ∀ c ∈ chunks.rows, scopePredicate scope c = true → c.kind ≠ "knowledge" → ¬ Straddles scope c

/-- A bound scope watches only its own entities. -/
theorem resolveWatched_subset {entityScope : List String} {entities : Option String}
    {watched : List String} (hbound : entityScope ≠ [])
    (h : resolveWatched entityScope entities = .watching watched) : watched ⊆ entityScope := by
  unfold resolveWatched at h
  dsimp only at h
  rw [if_neg (by simpa using hbound)] at h
  split at h
  · obtain rfl := WatchDecision.watching.inj h
    exact List.Subset.refl _
  · split at h
    · rename_i hcontained
      obtain rfl := WatchDecision.watching.inj h
      exact containedIn_eq_true.mp hcontained
    · exact absurd h (by simp)

/-- A bound scope that names no entities watches all of its own. -/
theorem resolveWatched_none {entityScope : List String} (hbound : entityScope ≠ []) :
    resolveWatched entityScope none = .watching entityScope := by
  unfold resolveWatched
  dsimp only
  rw [if_neg (by simpa using hbound), if_pos (by decide)]

/-- The fence of recall lets a chunk through that has one tag inside and does not straddle. -/
theorem recallDense_of_not_straddles {chunks : ChunkTable} {scope : Scope} {c : Chunk}
    (hnone : NoneStraddles chunks scope) (hc : c ∈ chunks.rows)
    (hscope : scopePredicate scope c = true)
    (hinside : scope.entityScope ≠ [] → ∃ e ∈ c.entityTags, e ∈ scope.entityScope) :
    recallDense scope c = true := by
  rw [recallDense, Bool.and_eq_true]
  refine ⟨hscope, ?_⟩
  unfold entityScopePredicate
  rcases hnone with hunbound | hnone
  · rw [if_pos (by simpa using hunbound)]
  · by_cases hbound : scope.entityScope = []
    · rw [if_pos (by simpa using hbound)]
    · rw [if_neg (by simpa using hbound)]
      obtain ⟨e, htag, hmem⟩ := hinside hbound
      by_cases hkind : c.kind = "knowledge"
      · rw [decide_eq_true hkind, Bool.true_or]
      · have hwithin : c.entityTags ⊆ scope.entityScope := by
          intro e' he'
          by_contra houtside
          exact hnone c hc hscope hkind ⟨⟨e, htag, hmem⟩, e', he', houtside⟩
        have htags : c.entityTags ≠ [] := List.ne_nil_of_mem htag
        simp [htags, hwithin]

/-- A chunk that recall admits under a bound scope does not straddle it. -/
theorem not_straddles_of_recallDense {scope : Scope} {c : Chunk} (hbound : scope.entityScope ≠ [])
    (hkind : c.kind ≠ "knowledge") (h : recallDense scope c = true) : ¬ Straddles scope c := by
  rw [recallDense, Bool.and_eq_true] at h
  have hfence := h.2
  unfold entityScopePredicate at hfence
  rw [if_neg (by simpa using hbound), decide_eq_false hkind, Bool.false_or, Bool.and_eq_true,
    containedIn_eq_true] at hfence
  rintro ⟨_, e, htag, houtside⟩
  exact houtside (hfence.2 htag)

/-- Every chunk the scope predicate passes, with a tag in the watch set, is in some answer of a
poll: that of a stream whose last poll was just before the chunk was recorded. -/
theorem exists_pollAnswer {chunks : ChunkTable} {scope : Scope} {watched : List String} {c : Chunk}
    (hc : c ∈ chunks.rows) (hscope : scopePredicate scope c = true)
    (htag : ∃ e ∈ c.entityTags, e ∈ watched) :
    ∃ hits, PollAnswer chunks scope watched (c.recordedAt - 1) hits ∧ c ∈ hits := by
  apply exists_answersLimit_of_first
  · decide
  · rw [List.mem_filter, pollSelects_eq_true]
    exact ⟨hc, hscope, Int.sub_one_lt_of_le (le_refl _), htag⟩
  · -- whatever else the poll selects was recorded no earlier
    intro b hb
    have hlater := (pollSelects_eq_true.mp (List.mem_filter.mp hb).2).2.1
    exact Int.le_of_sub_one_lt hlater

/-- Live delivery stays within recall exactly if no chunk straddles the scope's fence. -/
theorem live_delivery_within_recall_iff (chunks : ChunkTable) (scope : Scope) :
    DeliversOnlyRecallable chunks scope ↔ NoneStraddles chunks scope := by
  constructor
  · intro h
    by_cases hbound : scope.entityScope = []
    · exact Or.inl hbound
    · refine Or.inr ?_
      intro c hc hscope hkind hstraddles
      obtain ⟨hits, hanswer, hhit⟩ := exists_pollAnswer hc hscope hstraddles.1
      have hadmitted := h.poll none scope.entityScope _ hits (resolveWatched_none hbound) hanswer c
        hhit
      exact not_straddles_of_recallDense hbound hkind hadmitted hstraddles
  · intro hnone
    constructor
    · intro entities watched since hits hwatching hanswer c hhit
      obtain ⟨hc, hselected⟩ := List.mem_filter.mp (hanswer.mem hhit)
      obtain ⟨hscope, _, e, htag, hwatched⟩ := pollSelects_eq_true.mp hselected
      apply recallDense_of_not_straddles hnone hc hscope
      intro hbound
      exact ⟨e, htag, resolveWatched_subset hbound hwatching hwatched⟩
    · intro entity limit hits hcovers hanswer c hhit
      unfold LatestAnswer at hanswer
      split at hanswer
      · rw [hanswer] at hhit
        exact absurd hhit List.not_mem_nil
      · obtain ⟨hc, hselected⟩ := List.mem_filter.mp (hanswer.mem hhit)
        obtain ⟨hscope, htag⟩ := latestSelects_eq_true.mp hselected
        apply recallDense_of_not_straddles hnone hc hscope
        intro hbound
        refine ⟨entity, htag, ?_⟩
        simpa [Scope.covers, hbound] using hcovers

/-- The notes of a call with two customers, visible to token 1. -/
def jointCall : ChunkWrite where
  tenantId := 1
  source := "gong"
  documentId := "call-7"
  seq := 0
  content := "pricing for acme and globex"
  visibility := [1]
  entityTags := ["account:acme", "account:globex"]
  confidentiality := .internal
  trustTier := .authoritative
  validFrom := seconds 1
  provenance := 1
  aclProvenance := .mirrored
  derivedFrom := []

def jointCallTable : ChunkTable := ChunkTable.empty.upsertChunks (seconds 2) [jointCall]

/-- A scope bound to one of the two customers. -/
def acmeScope : Scope where
  tenantId := 1
  principals := [1]
  entityScope := ["account:acme"]
  maxConfidentiality := .confidential

/-- The call's chunk is streamed to the scope and served as the newest of its entity, and recall
under the same scope refuses it. -/
theorem joint_call_delivered_not_recallable :
    resolveWatched acmeScope.entityScope (some "account:acme") = .watching ["account:acme"] ∧
      (∃ c ∈ pollChunks jointCallTable acmeScope ["account:acme"] (seconds 1),
        recallDense acmeScope c = false) ∧
      (∃ c ∈ latestChunks jointCallTable acmeScope "account:acme" 10,
        recallDense acmeScope c = false) ∧
      ¬ DeliversOnlyRecallable jointCallTable acmeScope := by
  have hwatching : resolveWatched acmeScope.entityScope (some "account:acme") =
      .watching ["account:acme"] := by decide +kernel
  have hpoll : ∃ c ∈ pollChunks jointCallTable acmeScope ["account:acme"] (seconds 1),
      recallDense acmeScope c = false := by decide +kernel
  have hlatest : ∃ c ∈ latestChunks jointCallTable acmeScope "account:acme" 10,
      recallDense acmeScope c = false := by decide +kernel
  refine ⟨hwatching, hpoll, hlatest, ?_⟩
  intro h
  obtain ⟨c, hc, hrefused⟩ := hpoll
  have hadmitted := h.poll _ _ _ _ hwatching (pollChunks_answers _ _ _ _) c hc
  rw [hrefused] at hadmitted
  exact Bool.false_ne_true hadmitted

end Verity.Analysis
