import Verity.Analysis.EdgeBar

/-!
# Keys that fan out

A key node with more than two leaves, of no strong kind, is suppressed. The record of an edge
has one set of keys and one key node for all that contributes to its pair, so a suppressed key
that two refs share takes part in the decision about the pair: its rows count towards the bar,
and when one of them comes last among the keyed rows, the edge is dropped whatever else supports
it.

`suppressed_keys_count_for_nothing` compares the fold of some evidence with the fold of the same
evidence without the rows of the suppressed keys. A pair is decided the same in both unless it is
supported by such rows and by others too, and then it is decided the same if and only if the
others clear the bar by themselves exactly when all of them do with a key that is not suppressed
last.
-/

set_option autoImplicit false

namespace Verity.Analysis

open Verity.Foundation Verity.Model

/-- The row has none of the keys on a side. -/
def avoids (keys : String → Bool) (e : EvidenceRow) : Bool := !keys e.leftRef && !keys e.rightRef

/-- The contributions of rows that have none of the keys on a side. -/
def unkeyed (keys : String → Bool) (cts : List Contribution) : List Contribution :=
  cts.filter fun ct => avoids keys ct.1

/-- The keys that the fold of the rows suppresses. -/
def suppressedKeys (config : FoldConfig) (evidence : List EvidenceRow) : String → Bool :=
  fansOut (edgeRows config evidence)

/-! ## Rows and contributions without the suppressed keys -/

theorem isKeyNode_of_fansOut {rows : List EvidenceRow} {key : String}
    (h : fansOut rows key = true) : isKeyNode key = true := by
  unfold fansOut at h
  rw [Bool.and_eq_true, decide_eq_true_eq] at h
  obtain ⟨leaf, hleaf⟩ := List.exists_mem_of_length_pos (l := leavesOf rows key) (by omega)
  obtain ⟨e, -, hleaf⟩ := isLeaf_eq_true.mp (mem_leavesOf.mp hleaf)
  exact (isKeyNode_of_keyLeaf hleaf).1

theorem isKeyNode_of_suppressedKeys (config : FoldConfig) (evidence : List EvidenceRow) :
    ∀ key, suppressedKeys config evidence key = true → isKeyNode key = true :=
  fun _ => isKeyNode_of_fansOut

section Avoiding

variable {keys : String → Bool} (hkeys : ∀ key, keys key = true → isKeyNode key = true)

theorem avoids_congr (keys : String → Bool) {e e' : EvidenceRow} (h : e.pair = e'.pair) :
    avoids keys e = avoids keys e' := by
  unfold avoids
  rcases UnorderedPair.new_eq_iff.mp h with ⟨hl, hr⟩ | ⟨hl, hr⟩
  · rw [hl, hr]
  · rw [hl, hr, Bool.and_comm]

include hkeys

theorem keys_eq_false {ref : String} (h : isKeyNode ref = false) : keys ref = false := by
  by_contra hne
  rw [Bool.not_eq_false] at hne
  rw [hkeys ref hne] at h
  exact absurd h (by simp)

theorem avoids_of_keyLeaf {e : EvidenceRow} {key leaf : String}
    (h : keyLeaf e = some (key, leaf)) : avoids keys e = !keys key := by
  have hleaf := keys_eq_false hkeys (isKeyNode_of_keyLeaf h).2
  unfold avoids
  rcases keyLeaf_refs h with ⟨hl, hr⟩ | ⟨hl, hr⟩
  · simp [hl, hr, hleaf]
  · simp [hl, hr, hleaf]

/-- A contribution of a row with one of the keys is one through that key. -/
theorem avoids_of_contribution {rows : List EvidenceRow} {p : UnorderedPair} {ct : Contribution}
    (h : ct ∈ contributions rows p) : avoids keys ct.1 = !ct.2.any keys := by
  rcases contribution_eq_some_iff.mp (of_mem_contributions h).2 with
    ⟨hvia, hnone, hkey, -⟩ | ⟨key, leaf, other, hvia, hleaf, -⟩
  · have hright := isKeyNode_eq_of_keyLeaf_none hnone
    rw [hkey] at hright
    unfold avoids
    simp [hvia, keys_eq_false hkeys hkey, keys_eq_false hkeys hright.symm]
  · simp [hvia, avoids_of_keyLeaf hkeys hleaf]

theorem contributions_avoiding (config : FoldConfig) (evidence : List EvidenceRow)
    (p : UnorderedPair) :
    contributions (edgeRows config (evidence.filter (avoids keys))) p =
      unkeyed keys (contributions (edgeRows config evidence) p) := by
  rw [edgeRows_filter config (fun e e' => avoids_congr keys)]
  refine contributions_filter ?_ p
  intro e _ e' _ key leaf leaf' hleaf hleaf'
  rw [avoids_of_keyLeaf hkeys hleaf, avoids_of_keyLeaf hkeys hleaf']

end Avoiding

theorem avoids_of_pair {keys : String → Bool} {e : EvidenceRow} (ha : keys e.pair.a = false)
    (hb : keys e.pair.b = false) : avoids keys e = true := by
  obtain ⟨hl, hr⟩ := ends_new_iff (P := fun x => keys x = false) |>.mp ⟨ha, hb⟩
  unfold avoids
  rw [hl, hr]
  rfl

theorem humanConfirmed_avoiding {keys : String → Bool} (evidence : List EvidenceRow)
    {p : UnorderedPair} (ha : keys p.a = false) (hb : keys p.b = false) :
    humanConfirmed (evidence.filter (avoids keys)) p = humanConfirmed evidence p := by
  unfold humanConfirmed
  rw [List.any_filter]
  congr 1
  funext e
  by_cases hpair : e.pair = p
  · subst hpair
    simp [avoids_of_pair ha hb]
  · simp [hpair]

/-- Without the rows of the suppressed keys, no key is suppressed that a contribution comes
through. -/
theorem lastKey_unkeyed (config : FoldConfig) (evidence : List EvidenceRow) (p : UnorderedPair) :
    (lastKey (unkeyed (suppressedKeys config evidence)
        (contributions (edgeRows config evidence) p))).any
      (fansOut (edgeRows config (evidence.filter (avoids (suppressedKeys config evidence))))) =
        false := by
  rw [edgeRows_filter config (fun e e' => avoids_congr _)]
  cases hlast : lastKey (unkeyed (suppressedKeys config evidence)
      (contributions (edgeRows config evidence) p)) with
  | none => rfl
  | some key =>
    obtain ⟨ct, hct, hvia⟩ := mem_of_lastKey hlast
    obtain ⟨hct, havoids⟩ := List.mem_filter.mp hct
    rw [avoids_of_contribution (isKeyNode_of_suppressedKeys config evidence) hct, hvia] at havoids
    by_contra hne
    rw [Bool.not_eq_false] at hne
    have hfans : suppressedKeys config evidence key = true :=
      fansOut_mono (fun leaf hleaf => by
        obtain ⟨e, he, hstar⟩ := isLeaf_eq_true.mp hleaf
        exact isLeaf_eq_true.mpr ⟨e, List.filter_sublist.subset he, hstar⟩) hne
    simp [hfans] at havoids

/-! ## The decisions about a pair -/

/-- What the fold decides about a pair: its contributions clear the bar, and the last key among
them is not suppressed. -/
def Unites (config : FoldConfig) (evidence : List EvidenceRow) (a b : String) : Prop :=
  ClearsBar config (humanConfirmed evidence ⟨a, b⟩)
      (contributions (edgeRows config evidence) ⟨a, b⟩) ∧
    (lastKey (contributions (edgeRows config evidence) ⟨a, b⟩)).any
      (suppressedKeys config evidence) = false

/-- The contributions to a pair that come through no suppressed key. -/
def otherContributions (config : FoldConfig) (evidence : List EvidenceRow) (a b : String) :
    List Contribution :=
  unkeyed (suppressedKeys config evidence) (contributions (edgeRows config evidence) ⟨a, b⟩)

theorem clearsBar_nil (config : FoldConfig) (confirmed : Bool) :
    ¬ ClearsBar config confirmed [] := by
  rintro ⟨e, hdominant, -⟩
  exact absurd hdominant (by simp [dominantRow])

/-- The decision about a pair in the evidence without the suppressed keys. -/
theorem mem_unitedPairs_avoiding (config : FoldConfig) (evidence : List EvidenceRow)
    (a b : String) :
    (a, b) ∈ unitedPairs config (evidence.filter (avoids (suppressedKeys config evidence))) ↔
      ClearsBar config (humanConfirmed evidence ⟨a, b⟩)
        (otherContributions config evidence a b) := by
  have hcts : contributions (edgeRows config
      (evidence.filter (avoids (suppressedKeys config evidence)))) ⟨a, b⟩ =
        otherContributions config evidence a b :=
    contributions_avoiding (isKeyNode_of_suppressedKeys config evidence) config evidence ⟨a, b⟩
  rw [mem_unitedPairs_iff, hcts]
  unfold otherContributions at hcts ⊢
  rw [lastKey_unkeyed]
  by_cases hnil : unkeyed (suppressedKeys config evidence)
      (contributions (edgeRows config evidence) ⟨a, b⟩) = []
  · rw [hnil]
    simp [clearsBar_nil]
  · have hne : contributions (edgeRows config evidence) ⟨a, b⟩ ≠ [] := by
      intro hall
      rw [hall] at hnil
      exact hnil rfl
    obtain ⟨ha, hb⟩ := ends_of_contributions hne
    have hkeys := isKeyNode_of_suppressedKeys config evidence
    rw [humanConfirmed_avoiding evidence (keys_eq_false hkeys ha.2) (keys_eq_false hkeys hb.2)]
    simp

/-- A pair is decided the same when none of its contributions come through a suppressed key, and
when all of them do. -/
theorem unites_iff_of_unmixed {config : FoldConfig} {evidence : List EvidenceRow} {a b : String}
    (h : otherContributions config evidence a b = [] ∨
      otherContributions config evidence a b =
        contributions (edgeRows config evidence) ⟨a, b⟩) :
    Unites config evidence a b ↔
      ClearsBar config (humanConfirmed evidence ⟨a, b⟩)
        (otherContributions config evidence a b) := by
  have havoids : ∀ ct ∈ contributions (edgeRows config evidence) ⟨a, b⟩,
      avoids (suppressedKeys config evidence) ct.1 = !ct.2.any (suppressedKeys config evidence) :=
    fun ct hct => avoids_of_contribution (isKeyNode_of_suppressedKeys config evidence) hct
  unfold Unites
  rcases h with hnone | hall
  · rw [hnone]
    refine iff_of_false ?_ (clearsBar_nil _ _)
    rintro ⟨hclears, hlast⟩
    -- every contribution has a key, and every key is suppressed
    have hkeyed : ∀ ct ∈ contributions (edgeRows config evidence) ⟨a, b⟩,
        ct.2.any (suppressedKeys config evidence) = true := by
      intro ct hct
      have hdropped := List.filter_eq_nil_iff.mp hnone ct hct
      rw [havoids ct hct] at hdropped
      simpa using hdropped
    cases hkey : lastKey (contributions (edgeRows config evidence) ⟨a, b⟩) with
    | none =>
      cases hcts : contributions (edgeRows config evidence) ⟨a, b⟩ with
      | nil =>
        rw [hcts] at hclears
        exact clearsBar_nil _ _ hclears
      | cons ct cts =>
        have hct : ct ∈ contributions (edgeRows config evidence) ⟨a, b⟩ := by simp [hcts]
        have hsuppressed := hkeyed ct hct
        simp [lastKey_eq_none hkey ct hct] at hsuppressed
    | some key =>
      obtain ⟨ct, hct, hvia⟩ := mem_of_lastKey hkey
      have hsuppressed := hkeyed ct hct
      rw [hkey] at hlast
      rw [hvia] at hsuppressed
      rw [hlast] at hsuppressed
      exact absurd hsuppressed (by simp)
  · rw [hall, and_iff_left]
    cases hkey : lastKey (contributions (edgeRows config evidence) ⟨a, b⟩) with
    | none => rfl
    | some key =>
      obtain ⟨ct, hct, hvia⟩ := mem_of_lastKey hkey
      rw [← hall] at hct
      obtain ⟨hct, hkept⟩ := List.mem_filter.mp hct
      rw [havoids ct hct, hvia] at hkept
      simpa using hkept

/-- Every pair with contributions of both kinds is decided by the others as it is by all. -/
def SuppressionHarmless (config : FoldConfig) (evidence : List EvidenceRow) : Prop :=
  ∀ a b, otherContributions config evidence a b ≠ [] →
    otherContributions config evidence a b ≠
      contributions (edgeRows config evidence) ⟨a, b⟩ →
    (Unites config evidence a b ↔
      ClearsBar config (humanConfirmed evidence ⟨a, b⟩) (otherContributions config evidence a b))

/-- The edges of the two graphs are the same if and only if the suppression is harmless. -/
theorem unitedPairs_avoiding_iff (config : FoldConfig) (evidence : List EvidenceRow) :
    (∀ a b, (a, b) ∈ unitedPairs config evidence ↔
        (a, b) ∈ unitedPairs config (evidence.filter (avoids (suppressedKeys config evidence)))) ↔
      SuppressionHarmless config evidence := by
  constructor
  · intro hsame a b _ _
    rw [← mem_unitedPairs_avoiding, ← hsame, mem_unitedPairs_iff]
    rfl
  · intro hharmless a b
    have hunites : (a, b) ∈ unitedPairs config evidence ↔ Unites config evidence a b :=
      mem_unitedPairs_iff
    rw [hunites, mem_unitedPairs_avoiding]
    by_cases hnone : otherContributions config evidence a b = []
    · exact unites_iff_of_unmixed (Or.inl hnone)
    · by_cases hall : otherContributions config evidence a b =
          contributions (edgeRows config evidence) ⟨a, b⟩
      · exact unites_iff_of_unmixed (Or.inr hall)
      · exact hharmless a b hnone hall

/-! ## The two folds -/

/-- The evidence without every row that has a suppressed key on a side. -/
def withoutSuppressed (live : List EvidenceRow) (config : FoldConfig) : List EvidenceRow :=
  live.filter (avoids (suppressedKeys config (workingOrder config live)))

theorem workingOrder_withoutSuppressed (live : List EvidenceRow) (config : FoldConfig) :
    workingOrder config (withoutSuppressed live config) =
      (workingOrder config live).filter
        (avoids (suppressedKeys config (workingOrder config live))) :=
  (filter_workingOrder config _ live).symm

/-- An anti-link on a key node is in no component of members. -/
theorem antiLinked_avoiding_iff {config : FoldConfig} {evidence : List EvidenceRow}
    {keys : String → Bool} (hkeys : ∀ key, keys key = true → isKeyNode key = true)
    (hlinked : ∀ x y, Linked config evidence x y ↔
      Linked config (evidence.filter (avoids keys)) x y) {x : String} (hx : isKeyNode x = false) :
    AntiLinked config evidence x ↔ AntiLinked config (evidence.filter (avoids keys)) x := by
  have hfree : ∀ {y}, Linked config evidence x y → keys y = false := by
    intro y hxy
    rcases hxy.ends with rfl | ⟨-, -, hy⟩
    · exact keys_eq_false hkeys hx
    · exact keys_eq_false hkeys hy
  unfold AntiLinked
  constructor
  · rintro ⟨e, he, hanti, hl, hr⟩
    refine ⟨e, List.mem_filter.mpr ⟨he, ?_⟩, hanti, (hlinked _ _).mp hl, (hlinked _ _).mp hr⟩
    unfold avoids
    rw [hfree hl, hfree hr]
    rfl
  · rintro ⟨e, he, hanti, hl, hr⟩
    exact ⟨e, (List.mem_filter.mp he).1, hanti, (hlinked _ _).mpr hl, (hlinked _ _).mpr hr⟩

theorem isKeyNode_of_splitMemberRef {x : String} {m : MemberRef} (h : splitMemberRef x = some m) :
    isKeyNode x = false := by
  unfold splitMemberRef at h
  by_contra hkey
  rw [Bool.not_eq_false] at hkey
  simp [hkey] at h

/-- The rows of suppressed keys neither add nor remove an edge if and only if every pair that is
supported by such rows and by others is decided by the others as it is by all; and then the fold
gives the same aliases without them. -/
theorem suppressed_keys_count_for_nothing (live : List EvidenceRow) (config : FoldConfig) :
    ((∀ a b, (a, b) ∈ unitedPairs config (workingOrder config live) ↔
        (a, b) ∈ unitedPairs config (workingOrder config (withoutSuppressed live config))) ↔
      SuppressionHarmless config (workingOrder config live)) ∧
    (SuppressionHarmless config (workingOrder config live) →
      (fold live config).aliases = (fold (withoutSuppressed live config) config).aliases) := by
  rw [workingOrder_withoutSuppressed]
  refine ⟨unitedPairs_avoiding_iff config _, ?_⟩
  intro hharmless
  have hsame := (unitedPairs_avoiding_iff config _).mpr hharmless
  have hlinked : ∀ x y, Linked config (workingOrder config live) x y ↔
      Linked config (workingOrder config (withoutSuppressed live config)) x y := by
    intro x y
    rw [workingOrder_withoutSuppressed]
    constructor
    · exact Connected.mono fun e he _ => (hsame e.1 e.2).mp he
    · exact Connected.mono fun e he _ => (hsame e.1 e.2).mpr he
  refine (sameMerges_of_groups [] [] ?_ ?_).1
  · intro x m _
    unfold groupOf
    simp only [hlinked]
  · intro x m hx _
    simp only [workingOrder_withoutSuppressed] at hlinked ⊢
    exact antiLinked_avoiding_iff (isKeyNode_of_suppressedKeys config _) hlinked
      (isKeyNode_of_splitMemberRef hx)

/-- A foreign key between two accounts, whose domain is later seen at a third one too. -/
def sharedDomain : List EvidenceRow :=
  [⟨1, 7, "salesforce:1", "hubspot:2", 1, "crm_fk", none, none, 1, 10, none⟩,
    ⟨2, 7, "salesforce:1", "key:domain:acme.com", 1, "domain_match", some "acme.com", none, 1, 20,
      none⟩,
    ⟨3, 7, "hubspot:2", "key:domain:acme.com", 1, "domain_match", some "acme.com", none, 1, 30,
      none⟩,
    ⟨4, 7, "linear:3", "key:domain:acme.com", 1, "domain_match", some "acme.com", none, 1, 40,
      none⟩]

/-- The domain is suppressed and takes the foreign key with it: nothing is merged, where the two
accounts are without the rows of the domain. -/
theorem shared_domain_drops_foreign_key :
    suppressedKeys (.defaults 7)
        (workingOrder (.defaults 7) sharedDomain)
        "key:domain:acme.com" = true ∧
      (fold sharedDomain (.defaults 7)).aliases = [] ∧
      (fold (withoutSuppressed sharedDomain (.defaults 7))
          (.defaults 7)).aliases =
        [⟨"hubspot", "2", "canon:hubspot:2"⟩, ⟨"salesforce", "1", "canon:hubspot:2"⟩] ∧
      (fold sharedDomain (.defaults 7)).aliases ≠
        (fold (withoutSuppressed sharedDomain (.defaults 7))
          (.defaults 7)).aliases := by
  have hkept : (fold sharedDomain (.defaults 7)).aliases =
      [] := by decide +kernel
  have hwithout : (fold (withoutSuppressed sharedDomain
      (.defaults 7))
      (.defaults 7)).aliases =
        [⟨"hubspot", "2", "canon:hubspot:2"⟩, ⟨"salesforce", "1", "canon:hubspot:2"⟩] := by
    decide +kernel
  refine ⟨by decide +kernel, hkept, hwithout, ?_⟩
  rw [hkept, hwithout]
  simp

end Verity.Analysis
