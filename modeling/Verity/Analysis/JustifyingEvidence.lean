import Verity.Analysis.EdgeBar
import Verity.Analysis.FoldPartition

/-!
# The evidence that justifies a canonical

The links of a canonical carry the ids of the rows on the edges of its component. The first leaf
of a key node adds to no edge when it comes: the later leaves do, each with its own row. So the
row of the first leaf is on no link, and a fold of the justifying rows alone may lose that leaf
(`first_leaf_not_justified`).

`evidence_justifies_iff` says when the justifying rows do suffice: members that are connected
only through edges which such a row stands behind have to be connected by the recorded rows too.
-/

set_option autoImplicit false

namespace Verity.Analysis

open Verity.Foundation Verity.Model

variable {e : EvidenceRow} {id : EvidenceId} {least : MemberRef}

/-! ## Edges from fewer rows -/

/-- The contributions to a pair stay as they are when every row that stands behind its edge
does. -/
theorem contributions_filter_of_kept {rows : List EvidenceRow} {q : EvidenceRow → Bool}
    {p : UnorderedPair} (hkept : ∀ e ∈ rows, ∀ via, contribution rows e p = some via → q e = true) :
    contributions (rows.filter q) p = contributions rows p := by
  -- by induction over the rows that have been gone through
  have hrun : ∀ before ⊆ rows, contributions (before.filter q) p = contributions before p := by
    intro before
    induction before using List.reverseRecOn with
    | nil => exact fun _ => rfl
    | append_singleton before e ih =>
      intro hsub
      have hbefore : before ⊆ rows := fun e' he' => hsub (List.mem_append_left _ he')
      have he : e ∈ rows := hsub (by simp)
      have ih := ih hbefore
      rw [List.filter_append]
      cases hc : contribution before e p with
      | none =>
        rw [contributions_concat_of_none hc]
        by_cases hq : q e = true
        · have hnone : contribution (before.filter q) e p = none := by
            rw [Option.eq_none_iff_forall_ne_some]
            intro via hvia
            rw [contribution_mono List.filter_sublist.subset hvia] at hc
            exact absurd hc (by simp)
          rw [List.filter_cons_of_pos hq, List.filter_nil, contributions_concat_of_none hnone,
            ih]
        · rw [List.filter_cons_of_neg hq, List.filter_nil, List.append_nil, ih]
      | some via =>
        have hq := hkept e he via (contribution_mono hbefore hc)
        have hsome : contribution (before.filter q) e p = some via := by
          rw [contribution_eq_some_iff] at hc ⊢
          refine hc.imp_right ?_
          rintro ⟨key, leaf, other, hvia, hleaf, hp, hne, hother⟩
          refine ⟨key, leaf, other, hvia, hleaf, hp, hne, ?_⟩
          obtain ⟨e', he', hother⟩ := isLeaf_eq_true.mp hother
          -- the row of the other leaf stands behind the edge as well
          have hq' : q e' = true := by
            refine hkept e' (hbefore he') (some key) (contribution_eq_some_iff.mpr ?_)
            exact Or.inr ⟨key, other, leaf, rfl, hother,
              hp.trans (UnorderedPair.new_comm _ _), hne.symm,
              isLeaf_eq_true.mpr ⟨e, he, hleaf⟩⟩
          exact isLeaf_eq_true.mpr ⟨e', List.mem_filter.mpr ⟨he', hq'⟩, hother⟩
        rw [List.filter_cons_of_pos hq, List.filter_nil, contributions_concat_of_some hc,
          contributions_concat_of_some hsome, ih]
  exact hrun rows (List.Subset.refl _)

/-- Rows about the same two refs add to the same edges. -/
theorem contribution_congr {rows : List EvidenceRow} {e' : EvidenceRow} (h : e.pair = e'.pair)
    (p : UnorderedPair) : contribution rows e p = contribution rows e' p := by
  have hleaf : keyLeaf e = keyLeaf e' := by
    unfold keyLeaf
    rcases UnorderedPair.new_eq_iff.mp h with ⟨hl, hr⟩ | ⟨hl, hr⟩
    · rw [hl, hr]
    · rw [hl, hr]
      cases isKeyNode e'.leftRef <;> cases isKeyNode e'.rightRef <;> rfl
  unfold contribution
  rw [← hleaf, h]
  cases hstar : keyLeaf e with
  | some star => rfl
  | none =>
    have hleft : isKeyNode e.leftRef = isKeyNode e'.leftRef := by
      have hsame := isKeyNode_eq_of_keyLeaf_none (hleaf.symm.trans hstar)
      rcases UnorderedPair.new_eq_iff.mp h with ⟨hl, -⟩ | ⟨hl, -⟩
      · rw [hl]
      · rw [hl, hsame]
    rw [hleft]

/-! ## Recorded rows -/

section Recorded

variable (config : FoldConfig) (evidence : List EvidenceRow) (x : String)

/-- The id is on an edge of the component of the ref. -/
def Recorded (id : EvidenceId) : Prop :=
  ∃ a b, Linked config evidence x a ∧ Linked config evidence x b ∧
    ∃ ct ∈ contributions (edgeRows config evidence) ⟨a, b⟩, ct.1.evidenceId = id

open Classical in
/-- The rows whose ids are on the edges of the component. -/
noncomputable def recordedRows : List EvidenceRow :=
  evidence.filter fun e => decide (Recorded config evidence x e.evidenceId)

/-- A row stands behind the edge of the pair, and no edge of the component records it. -/
def LosesRow (a b : String) : Prop :=
  ∃ e ∈ edgeRows config evidence,
    (∃ via, contribution (edgeRows config evidence) e ⟨a, b⟩ = some via) ∧
      ¬ Recorded config evidence x e.evidenceId

/-- Connected by edges that lose no row. -/
def LinkedWhole : String → String → Prop :=
  Relation.EqvGen fun a b =>
    (a, b) ∈ unitedPairs config evidence ∧ ¬ LosesRow config evidence x a b

theorem mem_recordedRows : e ∈ recordedRows config evidence x ↔
    e ∈ evidence ∧ Recorded config evidence x e.evidenceId := by
  classical
  unfold recordedRows
  rw [List.mem_filter, decide_eq_true_eq]

theorem recordedRows_subset : recordedRows config evidence x ⊆ evidence :=
  fun _ he => ((mem_recordedRows config evidence x).mp he).1

theorem confirmation_mem_edgeRows (he : e ∈ evidence) (hconf : e.isConfirmation = true) :
    e ∈ edgeRows config evidence :=
  mem_edgeRows.mpr ⟨he, Or.inr hconf⟩

section Whole

variable {x} {a b : String} (hwhole : ¬ LosesRow config evidence x a b)

include hwhole

/-- The rows that stand behind the edge are recorded. -/
theorem mem_recordedRows_of_whole {via : Option String} (he : e ∈ edgeRows config evidence)
    (hvia : contribution (edgeRows config evidence) e ⟨a, b⟩ = some via) :
    e ∈ recordedRows config evidence x := by
  refine (mem_recordedRows config evidence x).mpr ⟨mem_of_mem_edgeRows he, ?_⟩
  by_contra hnot
  exact hwhole ⟨e, he, ⟨via, hvia⟩, hnot⟩

theorem contributions_of_whole :
    contributions (edgeRows config (recordedRows config evidence x)) ⟨a, b⟩ =
      contributions (edgeRows config evidence) ⟨a, b⟩ := by
  classical
  unfold recordedRows
  rw [edgeRows_of_filter]
  apply contributions_filter_of_kept
  intro e he via hvia
  have hin := mem_recordedRows_of_whole config evidence hwhole he hvia
  have hforms : formsEdge config (recordedRows config evidence x) e = true ∨
      e.isConfirmation = true := by
    refine (mem_edgeRows.mp he).2.imp_left (formsEdge_of_confirmed fun hpair => ?_)
    -- a row of the second tier keeps the row that confirms it
    obtain ⟨e', he', hconf, hpair⟩ := humanConfirmed_iff.mp hpair
    have hrow := confirmation_mem_edgeRows config evidence he' hconf
    have hvia' : contribution (edgeRows config evidence) e' ⟨a, b⟩ = some via :=
      (contribution_congr hpair _).trans hvia
    exact humanConfirmed_iff.mpr
      ⟨e', mem_recordedRows_of_whole config evidence hwhole hrow hvia', hconf, hpair⟩
  rw [Bool.and_eq_true, decide_eq_true_eq, Bool.or_eq_true]
  exact ⟨((mem_recordedRows config evidence x).mp hin).2, hforms⟩

theorem humanConfirmed_of_whole (ha : isKeyNode a = false) (hb : isKeyNode b = false) :
    humanConfirmed (recordedRows config evidence x) ⟨a, b⟩ = humanConfirmed evidence ⟨a, b⟩ := by
  rw [Bool.eq_iff_iff]
  constructor
  · exact humanConfirmed_mono (recordedRows_subset config evidence x)
  · intro hpair
    obtain ⟨e, he, hconf, hpair⟩ := humanConfirmed_iff.mp hpair
    have hrefs : isKeyNode e.leftRef = false ∧ isKeyNode e.rightRef = false := by
      apply ends_new_iff (P := fun ref => isKeyNode ref = false) |>.mp
      have hsame : UnorderedPair.new e.leftRef e.rightRef = ⟨a, b⟩ := hpair
      rw [hsame]
      exact ⟨ha, hb⟩
    have hdirect : contribution (edgeRows config evidence) e ⟨a, b⟩ = some none := by
      refine contribution_eq_some_iff.mpr (Or.inl ⟨rfl, ?_, hrefs.1, hpair.symm⟩)
      simp [keyLeaf, hrefs]
    have hrow := confirmation_mem_edgeRows config evidence he hconf
    exact humanConfirmed_iff.mpr
      ⟨e, mem_recordedRows_of_whole config evidence hwhole hrow hdirect, hconf, hpair⟩

/-- An edge that loses no row comes of the recorded rows as it is. -/
theorem united_of_whole (h : (a, b) ∈ unitedPairs config evidence) :
    (a, b) ∈ unitedPairs config (recordedRows config evidence x) := by
  have hends := ends_of_contributions (contributions_of_unitedPairs h)
  have hsub : edgeRows config (recordedRows config evidence x) ⊆ edgeRows config evidence :=
    edgeRows_mono (recordedRows_subset config evidence x)
  obtain ⟨hbar, hfan⟩ := mem_unitedPairs_iff.mp h
  rw [mem_unitedPairs_iff, contributions_of_whole config evidence hwhole,
    humanConfirmed_of_whole config evidence hwhole hends.1.2 hends.2.2]
  refine ⟨hbar, ?_⟩
  cases hkey : lastKey (contributions (edgeRows config evidence) ⟨a, b⟩) with
  | none => rfl
  | some key =>
    rw [hkey] at hfan
    rw [Option.any_some] at hfan ⊢
    -- with fewer leaves the key fans out no sooner
    by_contra hmore
    rw [Bool.not_eq_false] at hmore
    rw [fansOut_mono ?_ hmore] at hfan
    · exact absurd hfan (by simp)
    · intro leaf hleaf
      obtain ⟨e, he, hleaf⟩ := isLeaf_eq_true.mp hleaf
      exact isLeaf_eq_true.mpr ⟨e, hsub he, hleaf⟩

end Whole

theorem linked_of_whole {a b : String} (h : LinkedWhole config evidence x a b) :
    Linked config (recordedRows config evidence x) a b :=
  Relation.EqvGen.mono (fun _ _ hab => united_of_whole config evidence hab.2 hab.1) _ _ h

end Recorded

/-! ## The ids on the links -/

/-- The ids on the alias links of the canonical. -/
def justifying (plan : FoldPlan) (canonical : String) : List EvidenceId :=
  (plan.linkMeta.filter fun m =>
    m.subjectKind = .aliasMember ∧ m.canonicalEntity = canonical).flatMap (·.justifyingEvidence)

theorem mem_sortIds {ids : List EvidenceId} : id ∈ sortIds ids ↔ id ∈ ids := by
  unfold sortIds
  rw [List.mem_dedup, List.mem_insertionSort]

theorem evidenceIds_foldl (cts : List Contribution) (entry : EdgeEvidence) :
    (cts.foldl recordContribution entry).evidenceIds =
      entry.evidenceIds ++ cts.map fun ct => ct.1.evidenceId := by
  induction cts generalizing entry with
  | nil => simp
  | cons ct cts ih =>
    have hstep : (recordContribution entry ct).evidenceIds =
        entry.evidenceIds ++ [ct.1.evidenceId] := by
      unfold recordContribution recordEdgeMeta
      cases ct.2 <;> dsimp only <;> grind
    rw [List.foldl_cons, ih, hstep, List.append_assoc]
    rfl

/-- The ids of a component are those of the contributions to its pairs. -/
theorem mem_componentEvidence {config : FoldConfig} {evidence : List EvidenceRow}
    {component : List String} :
    id ∈ componentEvidence (candidates config evidence) component ↔
      ∃ a b, a ∈ component ∧ b ∈ component ∧
        ∃ ct ∈ contributions (edgeRows config evidence) ⟨a, b⟩, ct.1.evidenceId = id := by
  have hof := candidatesOf_edgeRows config evidence
  have hids : ∀ p, (∃ ev, (candidates config evidence).edges[p]? = some ev ∧
      id ∈ ev.evidenceIds) ↔
      ∃ ct ∈ contributions (edgeRows config evidence) p, ct.1.evidenceId = id := by
    intro p
    rw [hof.edges]
    unfold edgeOf
    cases hcts : contributions (edgeRows config evidence) p with
    | nil => simp
    | cons ct cts =>
      rw [List.isEmpty_cons, if_neg Bool.false_ne_true]
      simp only [Option.some.injEq, exists_eq_left', evidenceIds_foldl, List.nil_append,
        List.mem_map]
  unfold componentEvidence edgesInside
  rw [mem_sortIds, List.mem_flatMap]
  constructor
  · rintro ⟨⟨⟨a, b⟩, ev⟩, hedge, hid⟩
    obtain ⟨hedge, hinside⟩ := List.mem_filter.mp hedge
    unfold UnorderedPair.inside at hinside
    rw [Bool.and_eq_true, List.contains_iff_mem, List.contains_iff_mem] at hinside
    exact ⟨a, b, hinside.1, hinside.2,
      (hids _).mp ⟨ev, Std.TreeMap.mem_toList_iff_getElem?_eq_some.mp hedge, hid⟩⟩
  · rintro ⟨a, b, ha, hb, hct⟩
    obtain ⟨ev, hedge, hid⟩ := (hids ⟨a, b⟩).mpr hct
    refine ⟨⟨⟨a, b⟩, ev⟩, List.mem_filter.mpr
      ⟨Std.TreeMap.mem_toList_iff_getElem?_eq_some.mpr hedge, ?_⟩, hid⟩
    unfold UnorderedPair.inside
    rw [Bool.and_eq_true, List.contains_iff_mem, List.contains_iff_mem]
    exact ⟨ha, hb⟩

/-- The alias links of a plan are those of the outcomes. -/
theorem mem_linkMeta_iff {live : List EvidenceRow} {config : FoldConfig} {known : List String}
    {link : EntityLinkMeta} :
    link ∈ (foldWithKnownCanonicals live config known).linkMeta ∧
        link.subjectKind = .aliasMember ↔
      link ∈ (foldOutcomes config (workingOrder config live)).flatMap
        (·.linkMeta config.tenantId) := by
  unfold foldWithKnownCanonicals
  dsimp only
  rw [List.mem_insertionSort, List.mem_append]
  constructor
  · rintro ⟨hlink | htag, hkind⟩
    · exact hlink
    · obtain ⟨w, -, htag⟩ := List.mem_flatMap.mp htag
      obtain ⟨t, -, rfl⟩ := List.mem_map.mp htag
      exact absurd hkind (by simp)
  · intro hlink
    refine ⟨Or.inl hlink, ?_⟩
    obtain ⟨outcome, -, hlink⟩ := List.mem_flatMap.mp hlink
    cases outcome with
    | single => exact absurd hlink List.not_mem_nil
    | review item => exact absurd hlink List.not_mem_nil
    | merged canonical members badge =>
      obtain ⟨m, -, rfl⟩ := List.mem_map.mp hlink
      rfl

theorem linkMeta_of_canonicals {outcome : ComponentOutcome} (h : outcome.canonicals = [])
    (tenant : TenantId) : outcome.linkMeta tenant = [] := by
  cases outcome with
  | single => rfl
  | review item => rfl
  | merged canonical members badge => exact absurd h (by simp [ComponentOutcome.canonicals])

/-- The links of a merged component carry the recorded ids. -/
theorem linked_id_iff {config : FoldConfig} {evidence : List EvidenceRow} {x : String}
    (hmerges : Merges config evidence x) (hleast : IsLeast (groupOf config evidence x) least) :
    (∃ link ∈ (foldOutcomes config evidence).flatMap (·.linkMeta config.tenantId),
      link.canonicalEntity = canonicalName least ∧ id ∈ link.justifyingEvidence) ↔
      Recorded config evidence x id := by
  unfold foldOutcomes
  simp only [List.mem_flatMap, List.mem_map, exists_exists_and_eq_and]
  constructor
  · rintro ⟨link, ⟨component, hcomponent, hlink⟩, hcanonical, hid⟩
    have hnodup := UnionFind.nodup_of_mem_components hcomponent
    obtain ⟨y, -, hy⟩ := isComponent_of_mem_components hcomponent
    rcases componentOutcome_eq hy hnodup (candidates config evidence) with
      ⟨_, heq⟩ | ⟨_, _, hnone⟩
    · rw [heq] at hlink
      obtain ⟨m, hm, rfl⟩ := List.mem_map.mp hlink
      obtain ⟨least', hleast'⟩ := exists_isLeast (List.ne_nil_of_mem hm)
      have hgroup : least' ∈ groupOf config evidence y :=
        (mem_members_of_isComponent hy least').mp hleast'.1
      have hxy : Linked config evidence x y :=
        linked_of_canonicalName_eq hleast.1 hgroup
          (hcanonical.symm.trans (canonicalFor_eq hleast'))
      obtain ⟨a, b, ha, hb, hct⟩ := mem_componentEvidence.mp hid
      exact ⟨a, b, hxy.trans ((hy a).mp ha), hxy.trans ((hy b).mp hb), hct⟩
    · rw [linkMeta_of_canonicals hnone] at hlink
      exact absurd hlink List.not_mem_nil
  · rintro ⟨a, b, ha, hb, hct⟩
    obtain ⟨component, hcomponent, hx⟩ :=
      exists_component_of_mem_refsOf config (mem_refsOf_of_merges hmerges)
    have hnodup := UnionFind.nodup_of_mem_components hcomponent
    rcases componentOutcome_eq hx hnodup (candidates config evidence) with
      ⟨_, heq⟩ | ⟨hnot, _⟩
    · have hmember := (mem_members_of_isComponent hx least).mpr hleast.1
      have hmin : IsLeast {m | m ∈ component.filterMap splitMemberRef} least := by
        refine ⟨hmember, fun m hm => hleast.2 ?_⟩
        exact (mem_members_of_isComponent hx m).mp hm
      obtain ⟨link, hlink, hcanonical, hids⟩ : ∃ link ∈ (componentOutcome config evidence
          (candidates config evidence) component).linkMeta config.tenantId,
          link.canonicalEntity = canonicalFor (component.filterMap splitMemberRef) ∧
            link.justifyingEvidence =
              componentEvidence (candidates config evidence) component := by
        rw [heq]
        exact ⟨_, List.mem_map_of_mem hmember, rfl, rfl⟩
      refine ⟨link, ⟨component, hcomponent, hlink⟩, hcanonical.trans (canonicalFor_eq hmin), ?_⟩
      rw [hids]
      exact mem_componentEvidence.mpr ⟨a, b, (hx a).mpr ha, (hx b).mpr hb, hct⟩
    · exact absurd hmerges hnot

theorem mem_justifying_iff {plan : FoldPlan} {canonical : String} :
    id ∈ justifying plan canonical ↔ ∃ link,
      (link ∈ plan.linkMeta ∧ link.subjectKind = .aliasMember) ∧
        link.canonicalEntity = canonical ∧ id ∈ link.justifyingEvidence := by
  unfold justifying
  simp only [List.mem_flatMap, List.mem_filter, decide_eq_true_eq]
  tauto

/-- The ids on the links of a canonical are the recorded ones. -/
theorem mem_justifying {live : List EvidenceRow} {config : FoldConfig} {known : List String}
    {x : String} (hmerges : Merges config (workingOrder config live) x)
    (hleast : IsLeast (groupOf config (workingOrder config live) x) least) :
    id ∈ justifying (foldWithKnownCanonicals live config known) (canonicalName least) ↔
      Recorded config (workingOrder config live) x id := by
  rw [← linked_id_iff hmerges hleast, mem_justifying_iff]
  refine exists_congr fun link => and_congr_left fun _ => ?_
  exact mem_linkMeta_iff

/-! ## When the evidence justifies -/

section Justifies

variable (live : List EvidenceRow) (config : FoldConfig)

/-- The rows of the list whose ids are on the links of the canonical. -/
def justifyingRows (canonical : String) : List EvidenceRow :=
  live.filter fun e => e.evidenceId ∈ justifying (fold live config) canonical

/-- A fold of what justifies a canonical gives it the same members. -/
def EvidenceJustifies : Prop :=
  ∀ canonical ∈ (fold live config).canonicals, ∀ ref,
    ref ∈ membersUnder (fold (justifyingRows live config canonical) config) canonical ↔
      ref ∈ membersUnder (fold live config) canonical

/-- Members that are connected only through edges that lose a row are connected by the recorded
rows too. Rows that are taken in because they share an id with a recorded one, if there are any,
connect no other member and are no anti-link inside. -/
structure Upholds (evidence : List EvidenceRow) (x : String) : Prop where
  reconnected : ∀ y m, splitMemberRef y = some m → Linked config evidence x y →
    ¬ LinkedWhole config evidence x x y → Linked config (recordedRows config evidence x) x y
  enclosed : ∀ y m, splitMemberRef y = some m →
    Linked config (recordedRows config evidence x) x y → Linked config evidence x y
  apart : ¬ AntiLinked config (recordedRows config evidence x) x

theorem workingOrder_justifyingRows {x : String}
    (hmerges : Merges config (workingOrder config live) x)
    (hleast : IsLeast (groupOf config (workingOrder config live) x) least) :
    workingOrder config (justifyingRows live config (canonicalName least)) =
      recordedRows config (workingOrder config live) x := by
  classical
  unfold justifyingRows recordedRows
  rw [← filter_workingOrder]
  apply List.filter_congr
  intro e _
  rw [decide_eq_decide]
  exact mem_justifying hmerges hleast

/-- Members that the recorded rows connect as the whole evidence does form the same group. -/
theorem Upholds.linked_iff {config : FoldConfig} {evidence : List EvidenceRow} {x : String}
    (h : Upholds config evidence x) {y : String} {m : MemberRef}
    (hsplit : splitMemberRef y = some m) :
    Linked config (recordedRows config evidence x) x y ↔ Linked config evidence x y := by
  constructor
  · exact h.enclosed y m hsplit
  · intro hlinked
    by_cases hwhole : LinkedWhole config evidence x x y
    · exact linked_of_whole config evidence x hwhole
    · exact h.reconnected y m hsplit hlinked hwhole

theorem Upholds.groupOf_eq {config : FoldConfig} {evidence : List EvidenceRow} {x : String}
    (h : Upholds config evidence x) :
    groupOf config (recordedRows config evidence x) x = groupOf config evidence x := by
  ext m
  constructor
  · rintro ⟨y, hy, hsplit⟩
    exact ⟨y, (h.linked_iff hsplit).mp hy, hsplit⟩
  · rintro ⟨y, hy, hsplit⟩
    exact ⟨y, (h.linked_iff hsplit).mpr hy, hsplit⟩

/-- The component is merged again. -/
theorem Upholds.merges {config : FoldConfig} {evidence : List EvidenceRow} {x : String}
    (h : Upholds config evidence x) (hmerges : Merges config evidence x) :
    Merges config (recordedRows config evidence x) x := by
  refine ⟨?_, ?_, h.apart⟩
  · rw [h.groupOf_eq]
    exact hmerges.two
  · rw [h.groupOf_eq]
    exact hmerges.within_cap

/-- The members of the canonical of a merged component. -/
theorem mem_membersUnder_of_merges {live : List EvidenceRow} {x : String}
    (hmerges : Merges config (workingOrder config live) x)
    (hleast : IsLeast (groupOf config (workingOrder config live) x) least) {y : String} :
    y ∈ membersUnder (fold live config) (canonicalName least) ↔
      (∃ m, splitMemberRef y = some m) ∧ Linked config (workingOrder config live) x y := by
  unfold fold
  rw [mem_membersUnder]
  refine and_congr_right fun _ => ?_
  constructor
  · rintro ⟨_, least', hleast', hname⟩
    exact linked_of_canonicalName_eq hleast.1 hleast'.1 hname
  · intro hlinked
    refine ⟨hmerges.congr hlinked, least, ?_, rfl⟩
    rw [← groupOf_congr hlinked]
    exact hleast

/-- The evidence on the links justifies them exactly when the recorded rows uphold every merged
component. -/
theorem evidence_justifies_iff : EvidenceJustifies live config ↔
    ∀ x m, splitMemberRef x = some m → Merges config (workingOrder config live) x →
      Upholds config (workingOrder config live) x := by
  constructor
  · intro h x m hsplit hmerges
    obtain ⟨least, hleast, halias⟩ := exists_alias_of_merges hsplit hmerges
    have hcanonical : canonicalName least ∈ (fold live config).canonicals :=
      (mem_canonicals_iff live config [] _).mpr
        ⟨_, (mem_aliases_iff live config [] _).mpr halias, rfl⟩
    have hjustifies := h _ hcanonical
    have hrows := workingOrder_justifyingRows live config hmerges hleast
    have hx := (hjustifies x).mpr
      ((mem_membersUnder_of_merges config hmerges hleast).mpr ⟨⟨m, hsplit⟩, Linked.refl x⟩)
    generalize justifyingRows live config (canonicalName least) = live' at hjustifies hrows hx
    obtain ⟨_, hmerges', least', hleast', hname⟩ := mem_membersUnder.mp hx
    have hlinked : ∀ y m, splitMemberRef y = some m →
        (Linked config (recordedRows config (workingOrder config live) x) x y ↔
          Linked config (workingOrder config live) x y) := by
      intro y m hy
      have hiff := hjustifies y
      rw [mem_membersUnder_of_merges config hmerges hleast, hname,
        mem_membersUnder_of_merges config hmerges' hleast', hrows] at hiff
      constructor
      · exact fun hl => (hiff.mp ⟨⟨m, hy⟩, hl⟩).2
      · exact fun hl => (hiff.mpr ⟨⟨m, hy⟩, hl⟩).2
    constructor
    case reconnected => exact fun y m hy hl _ => (hlinked y m hy).mpr hl
    case enclosed => exact fun y m hy hl => (hlinked y m hy).mp hl
    case apart => exact hrows ▸ hmerges'.apart
  · intro h canonical hcanonical ref
    obtain ⟨a, ha, rfl⟩ := (mem_canonicals_iff live config [] _).mp hcanonical
    obtain ⟨hsplit, hmerges, least, hleast, hname⟩ :=
      aliased_refOf ((mem_aliases_iff live config [] a).mp ha)
    have hupholds := h _ _ hsplit hmerges
    have hrows := workingOrder_justifyingRows live config hmerges hleast
    rw [hname, mem_membersUnder_of_merges config hmerges hleast,
      mem_membersUnder_of_merges config (x := refOf a) (hrows ▸ hupholds.merges hmerges)
        (by rw [hrows, hupholds.groupOf_eq]; exact hleast), hrows]
    refine and_congr_right ?_
    rintro ⟨m, hm⟩
    exact hupholds.linked_iff hm

end Justifies

/-- Two accounts with one external id in common, each by a row of its own. -/
def sharedExternalId : List EvidenceRow :=
  [⟨1, 7, "salesforce:A", "key:external_id:42", 1, "external_id", some "42", none, 1, 0, none⟩,
    ⟨2, 7, "hubspot:B", "key:external_id:42", 1, "external_id", some "42", none, 1, 1, none⟩]

/-- The links name the second row alone, which merges nothing. -/
theorem first_leaf_not_justified : ¬ ∀ (live : List EvidenceRow) (config : FoldConfig),
    EvidenceJustifies live config := by
  intro h
  have hmembers := h sharedExternalId (.defaults 7) "canon:hubspot:B" (by decide +kernel)
    "salesforce:A"
  exact absurd (hmembers.mpr (by decide +kernel)) (by decide +kernel)

/-! ## What is lost -/

section Lost

variable {config : FoldConfig} {evidence : List EvidenceRow} {x : String}

/-- With distinct ids, the recorded rows unite nothing outside the component. -/
theorem ends_of_recorded (hids : (evidence.map (·.evidenceId)).Nodup) {a b : String}
    (h : (a, b) ∈ unitedPairs config (recordedRows config evidence x)) :
    Linked config evidence x a ∧ Linked config evidence x b := by
  have hbacked : ∀ e ∈ edgeRows config (recordedRows config evidence x), ∃ p via,
      contribution (edgeRows config evidence) e p = some via ∧
        Linked config evidence x p.a ∧ Linked config evidence x p.b := by
    intro e he
    obtain ⟨hin, a, b, ha, hb, ct, hct, hid⟩ :=
      (mem_recordedRows config evidence x).mp (mem_of_mem_edgeRows he)
    obtain ⟨hrow, hvia⟩ := of_mem_contributions hct
    obtain rfl : ct.1 = e := List.inj_on_of_nodup_map hids (mem_of_mem_edgeRows hrow) hin hid
    exact ⟨⟨a, b⟩, ct.2, hvia, ha, hb⟩
  have hleaf : ∀ e ∈ edgeRows config (recordedRows config evidence x), ∀ key leaf,
      keyLeaf e = some (key, leaf) → Linked config evidence x leaf := by
    intro e he key leaf hleaf
    obtain ⟨p, via, hvia, hends⟩ := hbacked e he
    rcases contribution_eq_some_iff.mp hvia with
      ⟨_, hnone, _⟩ | ⟨key', leaf', other, _, hleaf', rfl, _⟩
    · rw [hleaf] at hnone
      exact absurd hnone (by simp)
    · obtain ⟨rfl, rfl⟩ := Prod.mk.inj (Option.some.inj (hleaf.symm.trans hleaf'))
      exact (ends_new_iff (P := Linked config evidence x) |>.mp hends).1
  obtain ⟨ct, hct⟩ := List.exists_mem_of_ne_nil _ (contributions_of_unitedPairs h)
  obtain ⟨hrow, hvia⟩ := of_mem_contributions hct
  have hends : Linked config evidence x (UnorderedPair.mk a b).a ∧
      Linked config evidence x (UnorderedPair.mk a b).b := by
    rcases contribution_eq_some_iff.mp hvia with
      ⟨_, hnone, _, hpair⟩ | ⟨key, leaf, other, _, hleaf', hpair, _, hother⟩
    · obtain ⟨p, via, hvia, hends⟩ := hbacked ct.1 hrow
      rcases contribution_eq_some_iff.mp hvia with ⟨_, _, _, rfl⟩ | ⟨_, _, _, _, hkey, _⟩
      · rw [hpair]
        exact hends
      · rw [hkey] at hnone
        exact absurd hnone (by simp)
    · obtain ⟨e', he', hother⟩ := isLeaf_eq_true.mp hother
      rw [hpair]
      exact ends_new_iff (P := Linked config evidence x) |>.mpr
        ⟨hleaf _ hrow key leaf hleaf', hleaf e' he' key other hother⟩
  exact hends

/-- With distinct ids, all that is asked is that the recorded rows connect what was connected
through edges that lose a row. -/
theorem upholds_iff_of_distinct (hids : (evidence.map (·.evidenceId)).Nodup)
    (hmerges : Merges config evidence x) : Upholds config evidence x ↔
      ∀ y m, splitMemberRef y = some m → Linked config evidence x y →
        ¬ LinkedWhole config evidence x x y →
          Linked config (recordedRows config evidence x) x y := by
  have hinside : ∀ y, Linked config (recordedRows config evidence x) x y →
      Linked config evidence x y := by
    intro y hy
    rcases Connected.eq_or_ends hy with rfl | ⟨_, ⟨a, b⟩, hedge, rfl | rfl⟩
    · exact Linked.refl _
    · exact (ends_of_recorded hids hedge).1
    · exact (ends_of_recorded hids hedge).2
  constructor
  · exact fun h => h.reconnected
  · intro h
    refine ⟨h, fun y _ _ hy => hinside y hy, ?_⟩
    rintro ⟨e, he, hanti, hl, hr⟩
    exact hmerges.apart ⟨e, recordedRows_subset config evidence x he, hanti, hinside _ hl,
      hinside _ hr⟩

end Lost

end Verity.Analysis
