import Verity.Analysis.FoldGraph

/-!
# Rows that only propose

A row of a tier other than one and two, with no negative polarity and no human decision behind
it, proposes a link. Every pass of the fold that merges members or keeps a component back looks
for other rows, so two lists of evidence with the same other rows have the same candidate edges,
the same graph and the same outcomes; a proposal only adds refs, each of them alone. What the
proposals may change is what chunks are tagged with.
-/

set_option autoImplicit false

namespace Verity.Analysis

open Verity.Foundation Verity.Model

/-- A row of no tier that merges, neither an anti-link nor a decision of a human. -/
structure Proposes (e : EvidenceRow) : Prop where
  not_tier_one : e.tier ≠ 1
  not_tier_two : e.tier ≠ 2
  polarity : 0 ≤ e.polarity
  not_confirmed : e.method ≠ "human_confirmed"
  not_rejected : e.method ≠ "human_rejected"

/-- The rows that more than propose. -/
def decides (e : EvidenceRow) : Bool :=
  decide (e.tier = 1) || decide (e.tier = 2) || decide (e.polarity < 0) ||
    decide (e.method = "human_confirmed") || decide (e.method = "human_rejected")

theorem decides_of_proposes {e : EvidenceRow} (h : Proposes e) : decides e = false := by
  have hpolarity : ¬ e.polarity < 0 := not_lt.mpr h.polarity
  simp [decides, h.not_tier_one, h.not_tier_two, hpolarity, h.not_confirmed, h.not_rejected]

theorem decides_of_isAntiLink {e : EvidenceRow} (h : e.isAntiLink = true) : decides e = true := by
  simp only [EvidenceRow.isAntiLink, Bool.or_eq_true, decide_eq_true_eq] at h
  rcases h with h | h <;> simp [decides, h]

theorem decides_of_isConfirmation {e : EvidenceRow} (h : e.isConfirmation = true) :
    decides e = true := by
  simp only [EvidenceRow.isConfirmation, Bool.and_eq_true, decide_eq_true_eq] at h
  simp [decides, h.2]

theorem decides_of_formsEdge {config : FoldConfig} {evidence : List EvidenceRow} {e : EvidenceRow}
    (h : formsEdge config evidence e = true) : decides e = true := by
  have htier : e.tier = 1 ∨ e.tier = 2 := by
    unfold formsEdge at h
    grind
  rcases htier with h | h <;> simp [decides, h]

/-! ## The same deciding rows -/

section SameRows

variable {config : FoldConfig} {evidence evidence' : List EvidenceRow}

/-- A selection of deciding rows is the same from both lists. -/
theorem filter_eq_of_decides (hrows : evidence.filter decides = evidence'.filter decides)
    {p : EvidenceRow → Bool} (hp : ∀ e, p e = true → decides e = true) :
    evidence.filter p = evidence'.filter p := by
  have hself : ∀ rows : List EvidenceRow, rows.filter p = (rows.filter decides).filter p := by
    intro rows
    rw [List.filter_filter]
    apply List.filter_congr
    intro e _
    cases hpe : p e with
    | false => simp
    | true => simp [hp e hpe]
  rw [hself evidence, hrows, ← hself]

theorem any_eq_of_decides (hrows : evidence.filter decides = evidence'.filter decides)
    {p : EvidenceRow → Bool} (hp : ∀ e, p e = true → decides e = true) :
    evidence.any p = evidence'.any p := by
  rw [Bool.eq_iff_iff, List.any_eq_true, List.any_eq_true]
  have hfilter := filter_eq_of_decides hrows hp
  simp only [← List.mem_filter, hfilter]

theorem humanConfirmed_eq (hrows : evidence.filter decides = evidence'.filter decides) :
    humanConfirmed evidence = humanConfirmed evidence' := by
  funext pair
  refine any_eq_of_decides hrows ?_
  intro e he
  rw [Bool.and_eq_true] at he
  exact decides_of_isConfirmation he.1

theorem edgeRows_eq (hrows : evidence.filter decides = evidence'.filter decides) :
    edgeRows config evidence = edgeRows config evidence' := by
  unfold edgeRows
  rw [formsEdge_congr (humanConfirmed_eq hrows),
    filter_eq_of_decides hrows fun e => decides_of_formsEdge,
    filter_eq_of_decides hrows fun e => decides_of_isConfirmation]

theorem candidates_eq (hrows : evidence.filter decides = evidence'.filter decides) :
    candidates config evidence = candidates config evidence' :=
  congrArg (List.foldl addCandidateEdge {}) (edgeRows_eq hrows)

theorem linked_iff_of_decides (hrows : evidence.filter decides = evidence'.filter decides)
    (x y : String) : Linked config evidence x y ↔ Linked config evidence' x y := by
  have hunited : unitedPairs config evidence = unitedPairs config evidence' := by
    unfold unitedPairs survivingEdges suppressedForMinKeys
    rw [candidates_eq hrows, humanConfirmed_eq hrows]
  unfold Linked
  rw [hunited]

/-- A component has the same outcome, whichever list it is taken from. -/
theorem componentOutcome_eq_of_decides
    (hrows : evidence.filter decides = evidence'.filter decides) (component : List String) :
    componentOutcome config evidence (candidates config evidence) component =
      componentOutcome config evidence' (candidates config evidence') component := by
  have hinside : ∀ e : EvidenceRow, (e.isAntiLink && e.pair.inside component) = true →
      decides e = true := by
    intro e he
    rw [Bool.and_eq_true] at he
    exact decides_of_isAntiLink he.1
  unfold componentOutcome antiLinkEvidence componentBadge
  rw [candidates_eq hrows, humanConfirmed_eq hrows, any_eq_of_decides hrows hinside,
    filter_eq_of_decides hrows hinside]

/-- What the outcomes give, apart from those of single members. -/
theorem flatMap_foldOutcomes_eq {β : Type} {f : ComponentOutcome → List β}
    (hsingle : f .single = []) (hrows : evidence.filter decides = evidence'.filter decides) :
    (foldOutcomes config evidence).flatMap f = (foldOutcomes config evidence').flatMap f := by
  -- a component of one ref has no two members
  have hlarge : ∀ evidence : List EvidenceRow, (foldOutcomes config evidence).flatMap f =
      ((foldUnionFind config evidence (candidates config evidence)).components.filter
        fun component => 2 ≤ component.length).flatMap
        (f ∘ componentOutcome config evidence (candidates config evidence)) := by
    intro evidence
    unfold foldOutcomes
    rw [List.flatMap_map]
    generalize (foldUnionFind config evidence (candidates config evidence)).components = components
    induction components with
    | nil => rfl
    | cons component components ih =>
      rw [List.flatMap_cons, ih, List.filter_cons]
      by_cases hlength : 2 ≤ component.length
      · simp [hlength]
      · have hfew : (component.filterMap splitMemberRef).length < 2 :=
          lt_of_le_of_lt (List.length_filterMap_le _ _) (not_le.mp hlength)
        have hout : componentOutcome config evidence (candidates config evidence) component =
            .single := if_pos hfew
        simp [hlength, hout, hsingle]
  have houtcome : componentOutcome config evidence (candidates config evidence) =
      componentOutcome config evidence' (candidates config evidence') :=
    funext (componentOutcome_eq_of_decides hrows)
  rw [hlarge, hlarge, components_eq_of_linked (linked_iff_of_decides hrows), houtcome]

end SameRows

/-! ## Two runs -/

/-- The alias badges of a plan, in their order. -/
def aliasMeta (plan : FoldPlan) : List EntityLinkMeta :=
  plan.linkMeta.filter fun m => m.subjectKind = .aliasMember

theorem subjectKind_linkMeta {tenant : TenantId} {o : ComponentOutcome} {m : EntityLinkMeta}
    (h : m ∈ o.linkMeta tenant) : m.subjectKind = .aliasMember := by
  cases o with
  | single => exact absurd h List.not_mem_nil
  | review item => exact absurd h List.not_mem_nil
  | merged canonical members badge =>
    obtain ⟨member, -, rfl⟩ := List.mem_map.mp h
    rfl

theorem aliasMeta_eq (live : List EvidenceRow) (config : FoldConfig) (known : List String) :
    aliasMeta (foldWithKnownCanonicals live config known) =
      ((foldOutcomes config (workingOrder config live)).flatMap
        (·.linkMeta config.tenantId)).insertionSort fun a b => metaKey a ≤ metaKey b := by
  have htrans : IsTrans EntityLinkMeta fun a b => metaKey a ≤ metaKey b :=
    ⟨fun _ _ _ hab hbc => hab.trans hbc⟩
  have htotal : Std.Total fun a b : EntityLinkMeta => metaKey a ≤ metaKey b :=
    ⟨fun a b => le_total (metaKey a) (metaKey b)⟩
  have hoff : ((chunkTagWrites config (workingOrder config live) (known ++
      (foldOutcomes config (workingOrder config live)).flatMap (·.canonicals))).flatMap
      (chunkTagMeta config (workingOrder config live))).filter
        (fun m => m.subjectKind = .aliasMember) = [] := by
    rw [List.filter_eq_nil_iff]
    intro m hm
    obtain ⟨w, -, hm⟩ := List.mem_flatMap.mp hm
    obtain ⟨t, -, rfl⟩ := List.mem_map.mp hm
    simp
  have hon : ((foldOutcomes config (workingOrder config live)).flatMap
      (·.linkMeta config.tenantId)).filter (fun m => m.subjectKind = .aliasMember) =
        (foldOutcomes config (workingOrder config live)).flatMap (·.linkMeta config.tenantId) := by
    rw [List.filter_eq_self]
    intro m hm
    obtain ⟨o, -, hm⟩ := List.mem_flatMap.mp hm
    rw [subjectKind_linkMeta hm]
    rfl
  unfold aliasMeta foldWithKnownCanonicals
  dsimp only
  rw [filter_insertionSort, List.filter_append, hon, hoff, List.append_nil]

/-- Rows that only propose change neither the aliases and canonicals of a plan, nor what is kept
for review, nor the badge of any alias. -/
theorem proposals_do_not_interfere (live proposals : List EvidenceRow) (config : FoldConfig)
    (known : List String) (h : ∀ e ∈ proposals, Proposes e) :
    SameMerges (foldWithKnownCanonicals (live ++ proposals) config known)
        (foldWithKnownCanonicals live config known) ∧
      (foldWithKnownCanonicals (live ++ proposals) config known).review =
        (foldWithKnownCanonicals live config known).review ∧
      aliasMeta (foldWithKnownCanonicals (live ++ proposals) config known) =
        aliasMeta (foldWithKnownCanonicals live config known) := by
  have hnone : proposals.filter decides = [] := by
    rw [List.filter_eq_nil_iff]
    intro e he
    simp [decides_of_proposes (h e he)]
  have hrows : (workingOrder config (live ++ proposals)).filter decides =
      (workingOrder config live).filter decides := by
    rw [filter_workingOrder, filter_workingOrder, List.filter_append, hnone, List.append_nil]
  refine ⟨⟨?_, ?_⟩, ?_, ?_⟩
  · unfold foldWithKnownCanonicals
    dsimp only
    rw [flatMap_foldOutcomes_eq rfl hrows]
  · rw [canonicals_eq, canonicals_eq, flatMap_foldOutcomes_eq rfl hrows]
  · unfold foldWithKnownCanonicals
    dsimp only
    rw [flatMap_foldOutcomes_eq rfl hrows, candidates_eq hrows]
  · rw [aliasMeta_eq, aliasMeta_eq, flatMap_foldOutcomes_eq rfl hrows]

/-- Two accounts that a foreign key joins, and a mention of a third one by a language model. -/
theorem proposals_do_not_interfere_mention :
    SameMerges
        (foldWithKnownCanonicals
          ([⟨1, 7, "salesforce:1", "hubspot:2", 1, "crm_fk", none, none, 1, 10, none⟩] ++
            [⟨2, 7, "hubspot:2", "linear:3", 3, "llm_mention", none, none, 1, 5, none⟩])
          (.defaults 7) [])
        (foldWithKnownCanonicals
          [⟨1, 7, "salesforce:1", "hubspot:2", 1, "crm_fk", none, none, 1, 10, none⟩]
          (.defaults 7) []) ∧
      (foldWithKnownCanonicals
          [⟨1, 7, "salesforce:1", "hubspot:2", 1, "crm_fk", none, none, 1, 10, none⟩]
          (.defaults 7) []).canonicals =
        ["canon:hubspot:2"] :=
  ⟨(proposals_do_not_interfere _ _ _ _ fun e he => by
      obtain rfl := List.mem_singleton.mp he
      exact ⟨by decide, by decide, by decide, by decide, by decide⟩).1, by decide +kernel⟩

end Verity.Analysis
