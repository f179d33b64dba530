import Verity.Analysis.ChunkTags
import Verity.Analysis.FoldPartition

/-!
# The drift guard

`refold_incremental` folds a neighborhood and then takes back every component that joins members
of two prior clusters, if one of these was large or if the badge of the component is below
Tier-1. `drift_guard` says what is left: nothing that fuses a large cluster, a review for each
component that is taken back, and the alias writes of all the others as the fold made them.

Aliases, links and canonicals are taken back, and the tags of chunks are not. So a chunk that
mentions such a component keeps a tag that nothing resolves (`withdrawn_canonical_still_tags`).
-/

set_option autoImplicit false

namespace Verity.Analysis

open Verity.Foundation Verity.Model

variable {members : List String} {plan : FoldPlan} {canonical : String}

/-! ## What is withdrawn -/

/-- One of the members was in the prior cluster. -/
def ComesFrom (prior : PriorClusters) (members : List String) (pc : String) : Prop :=
  ∃ m ∈ members, prior.canonicalOf m = some pc

/-- The members come from two prior clusters, of which one was large. -/
def FusesLarge (prior : PriorClusters) (floor : Nat) (members : List String) : Prop :=
  ∃ pc pc', pc ≠ pc' ∧ ComesFrom prior members pc ∧ ComesFrom prior members pc' ∧
    floor ≤ (prior.sizeOf pc).getD 0

/-- The members come from two prior clusters, with no Tier-1 key nor a person behind them. -/
def FusesWeakly (plan : FoldPlan) (prior : PriorClusters) (canonical : String) : Prop :=
  (∃ pc pc', pc ≠ pc' ∧ ComesFrom prior (membersUnder plan canonical) pc ∧
    ComesFrom prior (membersUnder plan canonical) pc') ∧
    badgeConfidence plan canonical ≠ .deterministic ∧
    badgeConfidence plan canonical ≠ .humanConfirmed

/-- The guard takes the component of the canonical back. -/
def Withdraws (plan : FoldPlan) (prior : PriorClusters) (floor : Nat) (canonical : String) : Prop :=
  FusesLarge prior floor (membersUnder plan canonical) ∨ FusesWeakly plan prior canonical

theorem mem_priorSet {prior : PriorClusters} {pc : String} :
    pc ∈ priorSet prior members ↔ ComesFrom prior members pc := by
  unfold priorSet ComesFrom
  rw [mem_sortDedup, List.mem_filterMap]

theorem card_priorSet (prior : PriorClusters) (members : List String) :
    (priorSet prior members).toFinset.card = (priorSet prior members).length :=
  List.toFinset_card_of_nodup (List.nodup_dedup _)

/-- The set has two elements when members come from two prior clusters. -/
theorem two_le_length_priorSet {prior : PriorClusters} :
    2 ≤ (priorSet prior members).length ↔
      ∃ pc pc', pc ≠ pc' ∧ ComesFrom prior members pc ∧ ComesFrom prior members pc' := by
  rw [← card_priorSet]
  constructor
  · intro h
    obtain ⟨pc, hpc, pc', hpc', hne⟩ := Finset.one_lt_card.mp h
    rw [List.mem_toFinset, mem_priorSet] at hpc hpc'
    exact ⟨pc, pc', hne, hpc, hpc'⟩
  · rintro ⟨pc, pc', hne, hpc, hpc'⟩
    apply Finset.one_lt_card.mpr
    refine ⟨pc, ?_, pc', ?_, hne⟩
    · rwa [List.mem_toFinset, mem_priorSet]
    · rwa [List.mem_toFinset, mem_priorSet]

theorem fusesLarge_iff {prior : PriorClusters} {floor : Nat} :
    FusesLarge prior floor members ↔ 2 ≤ (priorSet prior members).length ∧
      ∃ pc ∈ priorSet prior members, floor ≤ (prior.sizeOf pc).getD 0 := by
  constructor
  · rintro ⟨pc, pc', hne, hpc, hpc', hlarge⟩
    exact ⟨two_le_length_priorSet.mpr ⟨pc, pc', hne, hpc, hpc'⟩, pc, mem_priorSet.mpr hpc, hlarge⟩
  · rintro ⟨htwo, pc, hpc, hlarge⟩
    rw [← card_priorSet] at htwo
    obtain ⟨pc', hpc', hne⟩ := Finset.exists_mem_ne htwo pc
    rw [List.mem_toFinset, mem_priorSet] at hpc'
    exact ⟨pc, pc', hne.symm, mem_priorSet.mp hpc, hpc', hlarge⟩

/-- The test of the guard. -/
theorem drifts_iff {prior : PriorClusters} {floor : Nat} :
    drifts plan prior floor (canonical, membersUnder plan canonical) = true ↔
      Withdraws plan prior floor canonical := by
  unfold Withdraws FusesWeakly
  rw [fusesLarge_iff, ← two_le_length_priorSet, ← and_or_left]
  unfold drifts
  simp only [Bool.and_eq_true, Bool.or_eq_true, decide_eq_true_eq, List.any_eq_true]

/-- The components of a plan are the canonicals that something is aliased to. -/
theorem mem_newComponents :
    (canonical, members) ∈ newComponents plan ↔
      members = membersUnder plan canonical ∧ members ≠ [] := by
  unfold newComponents
  rw [List.mem_map]
  constructor
  · rintro ⟨c, hc, heq⟩
    obtain ⟨rfl, rfl⟩ := Prod.mk.inj heq
    obtain ⟨a, ha, rfl⟩ := List.mem_map.mp (mem_sortDedup.mp hc)
    refine ⟨rfl, List.ne_nil_of_mem (List.mem_map_of_mem (a := a) ?_)⟩
    exact List.mem_filter.mpr ⟨ha, decide_eq_true rfl⟩
  · rintro ⟨rfl, hne⟩
    obtain ⟨ref, href⟩ := List.exists_mem_of_ne_nil _ hne
    obtain ⟨a, ha, -⟩ := List.mem_map.mp href
    obtain ⟨ha, hcanonical⟩ := List.mem_filter.mp ha
    refine ⟨canonical, mem_sortDedup.mpr ?_, rfl⟩
    exact List.mem_map.mpr ⟨a, ha, of_decide_eq_true hcanonical⟩

theorem ne_nil_of_withdraws {prior : PriorClusters} {floor : Nat}
    (h : Withdraws plan prior floor canonical) : membersUnder plan canonical ≠ [] := by
  rcases h with ⟨pc, _, _, ⟨m, hm, _⟩, _⟩ | ⟨⟨pc, _, _, ⟨m, hm, _⟩, _⟩, _⟩
  · exact List.ne_nil_of_mem hm
  · exact List.ne_nil_of_mem hm

/-! ## The plan that is left -/

section Refold

variable (live : List EvidenceRow) (config : FoldConfig) (prior : PriorClusters) (floor : Nat)

/-- The canonicals that the guard takes back from a plan. -/
def withdrawn (plan : FoldPlan) : List String :=
  ((newComponents plan).filter (drifts plan prior floor)).map Prod.fst

theorem mem_withdrawn :
    canonical ∈ withdrawn prior floor plan ↔ Withdraws plan prior floor canonical := by
  unfold withdrawn
  rw [List.mem_map]
  constructor
  · rintro ⟨⟨c, members⟩, hc, rfl⟩
    obtain ⟨hc, hdrifts⟩ := List.mem_filter.mp hc
    obtain ⟨rfl, _⟩ := mem_newComponents.mp hc
    exact drifts_iff.mp hdrifts
  · intro h
    refine ⟨(canonical, membersUnder plan canonical), List.mem_filter.mpr ⟨?_, ?_⟩, rfl⟩
    · exact mem_newComponents.mpr ⟨rfl, ne_nil_of_withdraws h⟩
    · exact drifts_iff.mpr h

/-- The refold is the fold without the canonicals that are taken back, the tags of chunks as
they were. -/
theorem refold_fields :
    (refoldIncremental live config prior floor).aliases = (fold live config).aliases.filter
      (fun a => !(withdrawn prior floor (fold live config)).contains a.canonicalEntity) ∧
    (refoldIncremental live config prior floor).linkMeta = (fold live config).linkMeta.filter
      (fun m => !(withdrawn prior floor (fold live config)).contains m.canonicalEntity) ∧
    (refoldIncremental live config prior floor).canonicals = (fold live config).canonicals.filter
      (fun c => !(withdrawn prior floor (fold live config)).contains c) ∧
    (refoldIncremental live config prior floor).chunkTags = (fold live config).chunkTags := by
  unfold refoldIncremental withdrawn
  generalize fold live config = plan
  dsimp only
  split
  · rename_i hnone
    rw [List.isEmpty_iff.mp hnone]
    simp
  · exact ⟨rfl, rfl, rfl, rfl⟩

/-- The review of every component that is taken back is in the refold. -/
theorem driftReview_mem (h : Withdraws (fold live config) prior floor canonical) :
    driftReview (fold live config) prior (canonical, membersUnder (fold live config) canonical) ∈
      (refoldIncremental live config prior floor).review := by
  unfold refoldIncremental
  generalize fold live config = plan at h
  dsimp only
  have hmem : (canonical, membersUnder plan canonical) ∈
      (newComponents plan).filter (drifts plan prior floor) :=
    List.mem_filter.mpr ⟨mem_newComponents.mpr ⟨rfl, ne_nil_of_withdraws h⟩, drifts_iff.mpr h⟩
  split
  · rename_i hnone
    rw [List.isEmpty_iff, List.map_eq_nil_iff] at hnone
    rw [hnone] at hmem
    exact absurd hmem List.not_mem_nil
  · exact (List.mem_insertionSort _).mpr
      (List.mem_append_right _ (List.mem_map_of_mem hmem))

/-- The review of a component is of a drift and lists its members. -/
theorem driftReview_lists (plan : FoldPlan) (canonical : String) (members : List String) :
    (∃ left right,
      (driftReview plan prior (canonical, members)).reason = .clusterDrift left right) ∧
      (driftReview plan prior (canonical, members)).refs.Perm members :=
  ⟨⟨_, _, rfl⟩, List.perm_insertionSort _ _⟩

/-- The alias writes of a canonical that stays. -/
theorem aliases_of_kept (h : ¬ Withdraws (fold live config) prior floor canonical) :
    (refoldIncremental live config prior floor).aliases.filter
        (fun a => a.canonicalEntity = canonical) =
      (fold live config).aliases.filter fun a => a.canonicalEntity = canonical := by
  rw [(refold_fields live config prior floor).1, List.filter_filter]
  apply List.filter_congr
  intro a _
  by_cases ha : a.canonicalEntity = canonical
  · have hout : canonical ∉ withdrawn prior floor (fold live config) := fun hmem =>
      h ((mem_withdrawn prior floor).mp hmem)
    simp [ha, hout]
  · simp [ha]

theorem membersUnder_of_withdraws (h : Withdraws (fold live config) prior floor canonical) :
    membersUnder (refoldIncremental live config prior floor) canonical = [] := by
  unfold membersUnder
  rw [(refold_fields live config prior floor).1, List.map_eq_nil_iff, List.filter_filter,
    List.filter_eq_nil_iff]
  intro a _ hkept
  rw [Bool.and_eq_true, decide_eq_true_eq, Bool.not_eq_true'] at hkept
  have hin := (mem_withdrawn prior floor).mpr (hkept.1 ▸ h)
  rw [← List.contains_iff_mem, hkept.2] at hin
  exact Bool.false_ne_true hin

/-- What the guard owes: no canonical is left that fuses a large cluster, each component that is
withheld has a review that lists its members, and the others keep their alias writes. -/
structure DriftGuard (withheld : String → Prop) : Prop where
  unfused : ∀ canonical, ¬ FusesLarge prior floor
    (membersUnder (refoldIncremental live config prior floor) canonical)
  reviewed : ∀ canonical, withheld canonical →
    membersUnder (refoldIncremental live config prior floor) canonical = [] ∧
    ∃ item ∈ (refoldIncremental live config prior floor).review,
      (∃ left right, item.reason = .clusterDrift left right) ∧
      item.refs.Perm (membersUnder (fold live config) canonical)
  kept : ∀ canonical, ¬ withheld canonical →
    (refoldIncremental live config prior floor).aliases.filter
        (fun a => a.canonicalEntity = canonical) =
      (fold live config).aliases.filter fun a => a.canonicalEntity = canonical

/-- The guard withholds the components that fuse a large cluster, or that fuse any two clusters
below Tier-1, and leaves all the others alone. -/
theorem drift_guard :
    DriftGuard live config prior floor (Withdraws (fold live config) prior floor) := by
  constructor
  case unfused =>
    intro canonical hfuses
    by_cases h : Withdraws (fold live config) prior floor canonical
    · rw [membersUnder_of_withdraws live config prior floor h] at hfuses
      obtain ⟨_, _, _, ⟨m, hm, _⟩, _⟩ := hfuses
      exact List.not_mem_nil hm
    · unfold membersUnder at hfuses
      rw [aliases_of_kept live config prior floor h] at hfuses
      exact h (Or.inl hfuses)
  case reviewed =>
    intro canonical h
    refine ⟨membersUnder_of_withdraws live config prior floor h, ?_⟩
    obtain ⟨hreason, hrefs⟩ := driftReview_lists prior (fold live config) canonical
      (membersUnder (fold live config) canonical)
    exact ⟨_, driftReview_mem live config prior floor h, hreason, hrefs⟩
  case kept =>
    intro canonical h
    exact aliases_of_kept live config prior floor h

end Refold

/-- A person put two accounts under one domain key, and nothing names them together. -/
def confirmedAtKey : List EvidenceRow :=
  [⟨1, 7, "salesforce:A", "key:domain:acme.com", 2, "human_confirmed", some "acme.com", none, 1,
      0, none⟩,
    ⟨2, 7, "hubspot:B", "key:domain:acme.com", 2, "human_confirmed", some "acme.com", none, 1,
      1, none⟩]

/-- The two accounts had a canonical each, of so many members. -/
def twoClusters (size : Nat) : PriorClusters where
  canonicalOf := fun m =>
    if m = "salesforce:A" then some "canon:old:left"
    else if m = "hubspot:B" then some "canon:old:right"
    else none
  sizeOf := fun _ => some size

/-- Two small clusters are withheld all the same when the badge is below Tier-1. -/
theorem small_fusion_withheld : ¬ ∀ (live : List EvidenceRow) (config : FoldConfig)
    (prior : PriorClusters) (floor : Nat), DriftGuard live config prior floor
      fun canonical => FusesLarge prior floor (membersUnder (fold live config) canonical) := by
  intro h
  have hkept := (h confirmedAtKey (.defaults 7) (twoClusters 1) 8).kept "canon:hubspot:B" (by
    rintro ⟨_, _, _, _, _, hlarge⟩
    have hsmall : ¬ 8 ≤ (some 1).getD 0 := by decide
    exact hsmall hlarge)
  exact absurd hkept (by decide +kernel)

/-! ## The tags of chunks -/

section Tags

variable (live : List EvidenceRow) (config : FoldConfig) (prior : PriorClusters) (floor : Nat)

/-- A canonical that the guard takes back is named nowhere in the plan, and what tags a chunk is
a canonical of the plan. -/
structure WithdrawnEverywhere : Prop where
  aliases : ∀ canonical, Withdraws (fold live config) prior floor canonical →
    ∀ a ∈ (refoldIncremental live config prior floor).aliases, a.canonicalEntity ≠ canonical
  linkMeta : ∀ canonical, Withdraws (fold live config) prior floor canonical →
    ∀ m ∈ (refoldIncremental live config prior floor).linkMeta, m.canonicalEntity ≠ canonical
  canonicals : ∀ canonical, Withdraws (fold live config) prior floor canonical →
    canonical ∉ (refoldIncremental live config prior floor).canonicals
  chunkTags : ∀ canonical, Withdraws (fold live config) prior floor canonical →
    ∀ chunk, ¬ Tagged (refoldIncremental live config prior floor) chunk canonical
  folded : ∀ chunk tag, Tagged (refoldIncremental live config prior floor) chunk tag →
    tag ∈ (refoldIncremental live config prior floor).canonicals

/-- The mentions of the chunk count, and one of them names the canonical. -/
def Mentions (chunk canonical : String) : Prop :=
  GateOpen live config chunk ∧
    ∃ e ref, Asserts config live e chunk ref ∧ tagOn live config [] chunk ref = some canonical

/-- The guard leaves the tags as they are. -/
theorem tagged_refold_iff {chunk tag : String} :
    Tagged (refoldIncremental live config prior floor) chunk tag ↔
      Mentions live config chunk tag := by
  unfold Tagged
  rw [(refold_fields live config prior floor).2.2.2]
  exact tagged_iff live config []

theorem canonical_of_mentions {chunk tag : String} (h : Mentions live config chunk tag) :
    tag ∈ (fold live config).canonicals := by
  obtain ⟨_, e, ref, _, htag⟩ := h
  have hfolded := (mem_foldedCanonicals live config []).mp (tagOf_eq_some htag).1
  rcases hfolded with hknown | hfolded
  · exact absurd hknown List.not_mem_nil
  · exact hfolded

theorem not_withdraws_of_not_contains
    (h : (!(withdrawn prior floor (fold live config)).contains canonical) = true) :
    ¬ Withdraws (fold live config) prior floor canonical := by
  intro hwithdraws
  rw [Bool.not_eq_true', ← Bool.not_eq_true, List.contains_iff_mem] at h
  exact h ((mem_withdrawn prior floor).mpr hwithdraws)

/-- What the guard takes back is gone from the plan exactly when no chunk mentions it. -/
theorem withdrawn_everywhere_iff : WithdrawnEverywhere live config prior floor ↔
    ∀ canonical, Withdraws (fold live config) prior floor canonical →
      ∀ chunk, ¬ Mentions live config chunk canonical := by
  obtain ⟨haliases, hmeta, hcanonicals, -⟩ := refold_fields live config prior floor
  constructor
  · intro h canonical hwithdraws chunk hmentions
    exact h.chunkTags canonical hwithdraws chunk
      ((tagged_refold_iff live config prior floor).mpr hmentions)
  · intro hnone
    constructor
    case aliases =>
      rintro canonical hwithdraws a ha rfl
      rw [haliases] at ha
      exact not_withdraws_of_not_contains live config prior floor (List.mem_filter.mp ha).2
        hwithdraws
    case linkMeta =>
      rintro canonical hwithdraws m hm rfl
      rw [hmeta] at hm
      exact not_withdraws_of_not_contains live config prior floor (List.mem_filter.mp hm).2
        hwithdraws
    case canonicals =>
      intro canonical hwithdraws hc
      rw [hcanonicals] at hc
      exact not_withdraws_of_not_contains live config prior floor (List.mem_filter.mp hc).2
        hwithdraws
    case chunkTags =>
      intro canonical hwithdraws chunk htagged
      exact hnone canonical hwithdraws chunk
        ((tagged_refold_iff live config prior floor).mp htagged)
    case folded =>
      intro chunk tag htagged
      have hmentions := (tagged_refold_iff live config prior floor).mp htagged
      rw [hcanonicals, List.mem_filter]
      refine ⟨canonical_of_mentions live config hmentions, ?_⟩
      rw [Bool.not_eq_true', ← Bool.not_eq_true, List.contains_iff_mem]
      intro hmem
      exact hnone tag ((mem_withdrawn prior floor).mp hmem) chunk hmentions

end Tags

/-- A foreign key joins two accounts, and a chunk is about the account that comes of it. -/
def joinedAndMentioned : List EvidenceRow :=
  [⟨1, 7, "salesforce:A", "hubspot:B", 1, "crm_fk", some "A", none, 1, 0, none⟩,
    ⟨2, 7, "chunk:gdrive:D9:0", "canon:hubspot:B", 1, "domain_match", some "acme.com",
      some "customer_contact", 1, 1, none⟩]

/-- The account is taken back, and the chunk keeps it as a tag. -/
theorem withdrawn_canonical_still_tags : ¬ ∀ (live : List EvidenceRow) (config : FoldConfig)
    (prior : PriorClusters) (floor : Nat), WithdrawnEverywhere live config prior floor := by
  intro h
  have htagged : Tagged (refoldIncremental joinedAndMentioned (.defaults 7) (twoClusters 50) 8)
      "chunk:gdrive:D9:0" "canon:hubspot:B" := by
    unfold Tagged
    decide +kernel
  have hgone := (h joinedAndMentioned (.defaults 7) (twoClusters 50) 8).folded _ _ htagged
  exact absurd hgone (by decide +kernel)

end Verity.Analysis
