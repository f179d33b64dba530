import Mathlib.Data.Set.Card
import Verity.Analysis.AliasMaterialization
import Verity.Analysis.CandidateEdges
import Verity.Analysis.Components
import Verity.Foundation.OrderLimit

/-!
# The graph of the fold

The nodes are the refs of the evidence, and the edges are the candidate edges that neither of
the two suppressions takes out (`unitedPairs`). Two refs are `Linked` when the graph connects
them. The members of a group are the refs linked to one of them that name a source and an entity;
a group `Merges` when it has two of them at least, not more than the cap, and no anti-link inside.

`mem_aliases_iff` says that the fold aliases the members of the groups that merge, to the name of
the least of them, and nothing else. The later modules compare two folds by comparing their
graphs (`sameMerges_of_groups`).
-/

set_option autoImplicit false

namespace Verity.Analysis

open Verity.Foundation Verity.Model

variable {evidence : List EvidenceRow} {config : FoldConfig} {e : EvidenceRow} {x y : String}
  {rows : List EvidenceRow} {p : UnorderedPair} {component : List String} {pair : UnorderedPair}
  {live evidence' : List EvidenceRow} {config' : FoldConfig}

/-! ## Nodes and edges -/

/-- The refs of the rows. -/
def refsOf (evidence : List EvidenceRow) : List String :=
  evidence.flatMap fun e => [e.leftRef, e.rightRef]

theorem mem_refsOf {ref : String} :
    ref ∈ refsOf evidence ↔ ∃ e ∈ evidence, ref = e.leftRef ∨ ref = e.rightRef := by
  simp [refsOf]

/-- The rows that the second pass makes edges of, in its order. -/
def edgeRows (config : FoldConfig) (evidence : List EvidenceRow) : List EvidenceRow :=
  evidence.filter (formsEdge config evidence) ++ evidence.filter (·.isConfirmation)

theorem mem_of_mem_edgeRows (h : e ∈ edgeRows config evidence) : e ∈ evidence := by
  rcases List.mem_append.mp h with h | h
  · exact (List.mem_filter.mp h).1
  · exact (List.mem_filter.mp h).1

theorem candidatesOf_edgeRows (config : FoldConfig) (evidence : List EvidenceRow) :
    CandidatesOf (edgeRows config evidence) (candidates config evidence) :=
  candidatesOf_foldl _

/-- The pairs that the fold unites. -/
def unitedPairs (config : FoldConfig) (evidence : List EvidenceRow) : List (String × String) :=
  (survivingEdges config evidence (candidates config evidence)).map fun edge =>
    (edge.1.a, edge.1.b)

/-- Connected in the graph of the fold. -/
def Linked (config : FoldConfig) (evidence : List EvidenceRow) : String → String → Prop :=
  Connected (unitedPairs config evidence)

theorem Linked.refl (x : String) : Linked config evidence x x :=
  Relation.EqvGen.refl x

theorem Linked.symm (h : Linked config evidence x y) : Linked config evidence y x :=
  Relation.EqvGen.symm _ _ h

theorem Linked.trans {z : String} (h : Linked config evidence x y)
    (h' : Linked config evidence y z) : Linked config evidence x z :=
  Relation.EqvGen.trans _ _ _ h h'

/-- The refs of a row with a leaf. -/
theorem keyLeaf_refs {key leaf : String} (h : keyLeaf e = some (key, leaf)) :
    (e.leftRef = key ∧ e.rightRef = leaf) ∨ (e.leftRef = leaf ∧ e.rightRef = key) := by
  unfold keyLeaf at h
  split at h
  · split at h
    · exact Or.inl (by simpa using h)
    · exact Or.inr (by simpa [and_comm] using h)
  · exact absurd h (by simp)

/-- A key node is no leaf, and its leaves are no key nodes. -/
theorem isKeyNode_of_keyLeaf {key leaf : String} (h : keyLeaf e = some (key, leaf)) :
    isKeyNode key = true ∧ isKeyNode leaf = false := by
  unfold keyLeaf at h
  split at h
  · rename_i hmixed
    cases hl : isKeyNode e.leftRef with
    | true =>
      rw [hl, if_pos rfl] at h
      obtain ⟨rfl, rfl⟩ := Prod.mk.inj (Option.some.inj h)
      exact ⟨hl, by simpa [hl] using hmixed⟩
    | false =>
      rw [hl, if_neg (by simp)] at h
      obtain ⟨rfl, rfl⟩ := Prod.mk.inj (Option.some.inj h)
      exact ⟨by simpa [hl] using hmixed, hl⟩
  · exact absurd h (by simp)

theorem isKeyNode_eq_of_keyLeaf_none (h : keyLeaf e = none) :
    isKeyNode e.leftRef = isKeyNode e.rightRef := by
  unfold keyLeaf at h
  split at h
  · exact absurd h (by simp)
  · rename_i hsame
    simpa using hsame

theorem ends_new_iff {P : String → Prop} :
    P (UnorderedPair.new x y).a ∧ P (UnorderedPair.new x y).b ↔ P x ∧ P y := by
  unfold UnorderedPair.new
  split
  · exact Iff.rfl
  · exact and_comm

/-- A pair that rows contribute to is a pair of their refs, and of no key nodes. -/
theorem ends_of_contribution (he : e ∈ rows) {via : Option String}
    (h : contribution rows e p = some via) :
    (p.a ∈ refsOf rows ∧ isKeyNode p.a = false) ∧ (p.b ∈ refsOf rows ∧ isKeyNode p.b = false) := by
  rcases contribution_eq_some_iff.mp h with
    ⟨-, hnone, hkey, rfl⟩ | ⟨key, leaf, other, -, hleaf, rfl, -, hother⟩
  · have hright := isKeyNode_eq_of_keyLeaf_none hnone
    exact ends_new_iff (P := fun x => x ∈ refsOf rows ∧ isKeyNode x = false) |>.mpr
      ⟨⟨mem_refsOf.mpr ⟨e, he, Or.inl rfl⟩, hkey⟩,
        ⟨mem_refsOf.mpr ⟨e, he, Or.inr rfl⟩, hright ▸ hkey⟩⟩
  · have href : ∀ {e' leaf'}, e' ∈ rows → keyLeaf e' = some (key, leaf') →
        leaf' ∈ refsOf rows ∧ isKeyNode leaf' = false := by
      intro e' leaf' he' hleaf'
      refine ⟨mem_refsOf.mpr ⟨e', he', ?_⟩, (isKeyNode_of_keyLeaf hleaf').2⟩
      rcases keyLeaf_refs hleaf' with ⟨_, h⟩ | ⟨h, _⟩
      · exact Or.inr h.symm
      · exact Or.inl h.symm
    obtain ⟨e', he', hother⟩ := isLeaf_eq_true.mp hother
    exact ends_new_iff (P := fun x => x ∈ refsOf rows ∧ isKeyNode x = false) |>.mpr
      ⟨href he hleaf, href he' hother⟩

theorem ends_of_contributions (h : contributions rows p ≠ []) :
    (p.a ∈ refsOf rows ∧ isKeyNode p.a = false) ∧ (p.b ∈ refsOf rows ∧ isKeyNode p.b = false) := by
  obtain ⟨ct, hct⟩ := List.exists_mem_of_ne_nil _ h
  obtain ⟨he, hc⟩ := of_mem_contributions hct
  exact ends_of_contribution he hc

/-- A pair that rows contribute to has the lesser ref first. -/
theorem eq_new_of_contributions (h : contributions rows p ≠ []) : p = .new p.a p.b := by
  obtain ⟨ct, hct⟩ := List.exists_mem_of_ne_nil _ h
  rcases contribution_eq_some_iff.mp (of_mem_contributions hct).2 with
    ⟨-, -, -, rfl⟩ | ⟨key, leaf, other, -, -, rfl, -⟩
  · exact (UnorderedPair.new_ends _ _).symm
  · exact (UnorderedPair.new_ends _ _).symm

/-- An edge of the graph, by its pair. -/
theorem mem_unitedPairs {a b : String} :
    (a, b) ∈ unitedPairs config evidence ↔ ∃ ev,
      (candidates config evidence).edges[(⟨a, b⟩ : UnorderedPair)]? = some ev ∧
        suppressedForMinKeys config evidence (candidates config evidence) ⟨a, b⟩ ev = false ∧
        ev.viaKeyNode.any (suppressedKeyNode (candidates config evidence)) = false := by
  unfold unitedPairs survivingEdges
  simp only [List.mem_map, List.mem_filter, Bool.and_eq_true, Bool.not_eq_true', Prod.exists,
    Prod.mk.injEq, Std.TreeMap.mem_toList_iff_getElem?_eq_some]
  constructor
  · rintro ⟨p, ev, ⟨hedge, hkeys, hvia⟩, rfl, rfl⟩
    exact ⟨ev, hedge, hkeys, hvia⟩
  · rintro ⟨ev, hedge, hkeys, hvia⟩
    exact ⟨⟨a, b⟩, ev, ⟨hedge, hkeys, hvia⟩, rfl, rfl⟩

theorem refsOf_edgeRows_subset (config : FoldConfig) (evidence : List EvidenceRow) :
    refsOf (edgeRows config evidence) ⊆ refsOf evidence := by
  intro x hx
  obtain ⟨e, he, hx⟩ := mem_refsOf.mp hx
  exact mem_refsOf.mpr ⟨e, mem_of_mem_edgeRows he, hx⟩

/-- The rows that form edges contribute to every edge of the graph. -/
theorem contributions_of_unitedPairs {a b : String} (h : (a, b) ∈ unitedPairs config evidence) :
    contributions (edgeRows config evidence) ⟨a, b⟩ ≠ [] := by
  obtain ⟨ev, hedge, -⟩ := mem_unitedPairs.mp h
  intro hnil
  rw [(candidatesOf_edgeRows config evidence).edges, hnil] at hedge
  exact absurd hedge (by simp [edgeOf])

/-- A ref linked to another one is a ref of the rows that form edges, and no key node. -/
theorem Linked.ends (h : Linked config evidence x y) :
    x = y ∨ ((x ∈ refsOf (edgeRows config evidence) ∧ isKeyNode x = false) ∧
      (y ∈ refsOf (edgeRows config evidence) ∧ isKeyNode y = false)) := by
  have hend : ∀ {z}, (∃ e ∈ unitedPairs config evidence, z = e.1 ∨ z = e.2) →
      z ∈ refsOf (edgeRows config evidence) ∧ isKeyNode z = false := by
    rintro z ⟨⟨a, b⟩, hedge, rfl | rfl⟩
    · exact (ends_of_contributions (contributions_of_unitedPairs hedge)).1
    · exact (ends_of_contributions (contributions_of_unitedPairs hedge)).2
  rcases Connected.eq_or_ends h with heq | ⟨hx, hy⟩
  · exact Or.inl heq
  · exact Or.inr ⟨hend hx, hend hy⟩

theorem Linked.mem_refsOf (h : Linked config evidence x y) :
    x = y ∨ (x ∈ refsOf evidence ∧ y ∈ refsOf evidence) :=
  h.ends.imp_right fun hends =>
    ⟨refsOf_edgeRows_subset config evidence hends.1.1,
      refsOf_edgeRows_subset config evidence hends.2.1⟩

/-! ## Components -/

/-- Every ref touched, none united yet. -/
theorem touchAll (evidence : List EvidenceRow) {uf : UnionFind} (h : Descends uf) :
    Descends (evidence.foldl (fun uf e => (uf.touch e.leftRef).touch e.rightRef) uf) ∧
      (∀ x, (evidence.foldl (fun uf e => (uf.touch e.leftRef).touch e.rightRef) uf).findRoot x =
        uf.findRoot x) ∧
      ∀ x, x ∈ (evidence.foldl (fun uf e => (uf.touch e.leftRef).touch e.rightRef) uf).members ↔
        x ∈ uf.members ∨ x ∈ refsOf evidence := by
  induction evidence generalizing uf with
  | nil => simp [h, refsOf]
  | cons e evidence ih =>
    obtain ⟨hdesc, hroot, hmem⟩ := ih ((h.touch e.leftRef).touch e.rightRef)
    rw [List.foldl_cons]
    refine ⟨hdesc, ?_, ?_⟩
    · intro x
      rw [hroot, findRoot_touch (h.touch _), findRoot_touch h]
    · intro x
      rw [hmem, mem_members_touch, mem_members_touch]
      simp only [refsOf, List.flatMap_cons, List.mem_append, List.mem_cons, List.not_mem_nil,
        or_false]
      tauto

theorem foldUnionFind_eq (config : FoldConfig) (evidence : List EvidenceRow) :
    foldUnionFind config evidence (candidates config evidence) =
      unions (evidence.foldl (fun uf e => (uf.touch e.leftRef).touch e.rightRef) .empty)
        (unitedPairs config evidence) := by
  unfold foldUnionFind unions unitedPairs
  rw [List.foldl_map]

/-- The nodes of the union-find are the refs of the evidence. -/
theorem mem_members_fold (config : FoldConfig) (evidence : List EvidenceRow) (x : String) :
    x ∈ (foldUnionFind config evidence (candidates config evidence)).members ↔
      x ∈ refsOf evidence := by
  obtain ⟨hdesc, -, hmem⟩ := touchAll evidence descends_empty
  rw [foldUnionFind_eq, mem_members_unions hdesc, hmem]
  constructor
  · rintro ((hempty | hx) | ⟨⟨a, b⟩, hpair, rfl | rfl⟩)
    · exact absurd hempty (by simp [UnionFind.members, UnionFind.empty])
    · exact hx
    · exact refsOf_edgeRows_subset config evidence
        (ends_of_contributions (contributions_of_unitedPairs hpair)).1.1
    · exact refsOf_edgeRows_subset config evidence
        (ends_of_contributions (contributions_of_unitedPairs hpair)).2.1
  · exact fun hx => Or.inl (Or.inr hx)

/-- Two refs have one root if and only if they are linked. -/
theorem findRoot_fold (config : FoldConfig) (evidence : List EvidenceRow) (x y : String) :
    (foldUnionFind config evidence (candidates config evidence)).findRoot x =
      (foldUnionFind config evidence (candidates config evidence)).findRoot y ↔
        Linked config evidence x y := by
  obtain ⟨hdesc, hroot, -⟩ := touchAll evidence descends_empty
  rw [foldUnionFind_eq, findRoot_unions hdesc]
  apply connectedOver_of_injective
  intro u v huv
  rw [hroot, hroot] at huv
  have hempty : ∀ z, UnionFind.empty.findRoot z = z := fun z => rfl
  rwa [hempty, hempty] at huv

/-- The refs of a component are those linked to one of them. -/
def IsComponent (config : FoldConfig) (evidence : List EvidenceRow) (x : String)
    (component : List String) : Prop :=
  ∀ y, y ∈ component ↔ Linked config evidence x y

/-- The refs with the root of a ref of the evidence are those linked to it. -/
theorem isComponent_of_root (hx : x ∈ refsOf evidence) :
    IsComponent config evidence x
      ((foldUnionFind config evidence (candidates config evidence)).members.filter fun ref =>
        (foldUnionFind config evidence (candidates config evidence)).findRoot ref =
          (foldUnionFind config evidence (candidates config evidence)).findRoot x) := by
  intro y
  rw [List.mem_filter, mem_members_fold, decide_eq_true_eq, findRoot_fold]
  constructor
  · exact fun h => h.2.symm
  · intro hxy
    refine ⟨?_, hxy.symm⟩
    rcases hxy.mem_refsOf with rfl | ⟨_, hy⟩
    · exact hx
    · exact hy

theorem isComponent_of_mem_components
    (h : component ∈ (foldUnionFind config evidence (candidates config evidence)).components) :
    ∃ x ∈ refsOf evidence, IsComponent config evidence x component := by
  obtain ⟨x, hx, rfl⟩ := mem_components_iff.mp h
  rw [mem_members_fold] at hx
  exact ⟨x, hx, isComponent_of_root hx⟩

theorem exists_component_of_mem_refsOf (config : FoldConfig) (hx : x ∈ refsOf evidence) :
    ∃ component ∈ (foldUnionFind config evidence (candidates config evidence)).components,
      IsComponent config evidence x component := by
  have hmember := (mem_members_fold config evidence x).mpr hx
  exact ⟨_, mem_components_iff.mpr ⟨x, hmember, rfl⟩, isComponent_of_root hx⟩

/-! ## Groups of members -/

/-- The members linked to a ref. -/
def groupOf (config : FoldConfig) (evidence : List EvidenceRow) (x : String) : Set MemberRef :=
  {m | ∃ y, Linked config evidence x y ∧ splitMemberRef y = some m}

/-- The two refs of an anti-link are in the component of `x`. -/
def AntiLinked (config : FoldConfig) (evidence : List EvidenceRow) (x : String) : Prop :=
  ∃ e ∈ evidence, e.isAntiLink = true ∧ Linked config evidence x e.leftRef ∧
    Linked config evidence x e.rightRef

/-- The component of `x` is merged: it has two members at least, not more than the cap allows,
and no anti-link inside. -/
structure Merges (config : FoldConfig) (evidence : List EvidenceRow) (x : String) : Prop where
  two : 2 ≤ (groupOf config evidence x).ncard
  within_cap : ∀ cap, config.componentSizeCap = some cap →
    ((groupOf config evidence x).ncard : Int) ≤ cap
  apart : ¬ AntiLinked config evidence x

/-- SOURCE: fold.rs:889-893 -/
def canonicalName (m : MemberRef) : String := "canon:" ++ m.source ++ ":" ++ m.entityId

theorem mem_members_of_isComponent (h : IsComponent config evidence x component) (m : MemberRef) :
    m ∈ component.filterMap splitMemberRef ↔ m ∈ groupOf config evidence x := by
  simp only [List.mem_filterMap, groupOf, Set.mem_ofPred_eq]
  constructor
  · rintro ⟨y, hy, hm⟩
    exact ⟨y, (h y).mp hy, hm⟩
  · rintro ⟨y, hy, hm⟩
    exact ⟨y, (h y).mpr hy, hm⟩

/-- The members of a component, counted. -/
theorem length_members_of_isComponent (h : IsComponent config evidence x component)
    (hnodup : component.Nodup) :
    (component.filterMap splitMemberRef).length = (groupOf config evidence x).ncard := by
  have hset : groupOf config evidence x = ↑(component.filterMap splitMemberRef).toFinset := by
    ext m
    rw [List.coe_toFinset, Set.mem_ofPred_eq]
    exact (mem_members_of_isComponent h m).symm
  have hmembers : (component.filterMap splitMemberRef).Nodup := by
    refine hnodup.filterMap ?_
    intro ref ref' m hm hm'
    exact splitMemberRef_injective hm hm'
  rw [hset, Set.ncard_coe_finset, List.toFinset_card_of_nodup hmembers]

theorem inside_iff (h : pair = .new x y) :
    pair.inside component = true ↔ x ∈ component ∧ y ∈ component := by
  subst h
  unfold UnorderedPair.inside UnorderedPair.new
  split <;> simp [and_comm]

theorem antiLinked_of_isComponent (h : IsComponent config evidence x component) :
    (evidence.any fun e => e.isAntiLink && e.pair.inside component) = true ↔
      AntiLinked config evidence x := by
  simp only [List.any_eq_true, Bool.and_eq_true, AntiLinked]
  constructor
  · rintro ⟨e, he, hanti, hinside⟩
    obtain ⟨hl, hr⟩ := (inside_iff rfl).mp hinside
    exact ⟨e, he, hanti, (h _).mp hl, (h _).mp hr⟩
  · rintro ⟨e, he, hanti, hl, hr⟩
    exact ⟨e, he, hanti, (inside_iff rfl).mpr ⟨(h _).mpr hl, (h _).mpr hr⟩⟩

/-- What becomes of a component. -/
theorem componentOutcome_eq (h : IsComponent config evidence x component) (hnodup : component.Nodup)
    (c : Candidates) :
    (Merges config evidence x ∧ componentOutcome config evidence c component =
      .merged (canonicalFor (component.filterMap splitMemberRef))
        (component.filterMap splitMemberRef) (componentBadge evidence c component)) ∨
    (¬ Merges config evidence x ∧
      (componentOutcome config evidence c component).aliases = [] ∧
      (componentOutcome config evidence c component).canonicals = []) := by
  have hlength := length_members_of_isComponent h hnodup
  unfold componentOutcome
  dsimp only
  split
  · rename_i hfew
    exact Or.inr ⟨fun hmerges => by have := hmerges.two; omega, rfl, rfl⟩
  · rename_i hfew
    split
    · rename_i hanti
      exact Or.inr ⟨fun hmerges => hmerges.apart ((antiLinked_of_isComponent h).mp hanti), rfl, rfl⟩
    · rename_i hanti
      have hapart : ¬ AntiLinked config evidence x :=
        fun h' => hanti ((antiLinked_of_isComponent h).mpr h')
      have htwo : 2 ≤ (groupOf config evidence x).ncard := by omega
      split
      · rename_i cap hcap
        split
        · rename_i hover
          refine Or.inr ⟨fun hmerges => ?_, rfl, rfl⟩
          have := hmerges.within_cap cap hcap
          omega
        · rename_i hwithin
          refine Or.inl ⟨⟨htwo, ?_, hapart⟩, rfl⟩
          intro cap' hcap'
          rw [hcap] at hcap'
          obtain rfl := Option.some.inj hcap'
          omega
      · rename_i hcap
        refine Or.inl ⟨⟨htwo, ?_, hapart⟩, rfl⟩
        intro cap hcap'
        rw [hcap] at hcap'
        exact absurd hcap' (by simp)

/-- A merged component is named after its least member. -/
theorem canonicalFor_eq {members : List MemberRef} {m : MemberRef}
    (h : IsLeast {m | m ∈ members} m) : canonicalFor members = canonicalName m := by
  have hmin : members.min? = some m := List.min?_eq_some_iff.mpr ⟨h.1, fun m' hm' => h.2 hm'⟩
  unfold canonicalFor
  rw [hmin]
  rfl

theorem exists_isLeast {members : List MemberRef} (h : members ≠ []) :
    ∃ m, IsLeast {m | m ∈ members} m := by
  cases hmin : members.min? with
  | none => exact absurd (List.min?_eq_none_iff.mp hmin) h
  | some m =>
    obtain ⟨hm, hle⟩ := List.min?_eq_some_iff.mp hmin
    exact ⟨m, hm, fun m' hm' => hle m' hm'⟩

theorem groupOf_congr (h : Linked config evidence x y) :
    groupOf config evidence x = groupOf config evidence y := by
  ext m
  constructor
  · rintro ⟨z, hz, hm⟩
    exact ⟨z, h.symm.trans hz, hm⟩
  · rintro ⟨z, hz, hm⟩
    exact ⟨z, h.trans hz, hm⟩

theorem Merges.congr (h : Linked config evidence x y) (hx : Merges config evidence x) :
    Merges config evidence y := by
  have hgroup := groupOf_congr h
  refine ⟨hgroup ▸ hx.two, hgroup ▸ hx.within_cap, ?_⟩
  rintro ⟨e, he, hanti, hl, hr⟩
  exact hx.apart ⟨e, he, hanti, h.trans hl, h.trans hr⟩

/-- A member that is no ref of the evidence is alone. -/
theorem mem_refsOf_of_merges (h : Merges config evidence x) : x ∈ refsOf evidence := by
  by_contra hx
  have hsub : groupOf config evidence x ⊆ {m | splitMemberRef x = some m} := by
    rintro m ⟨y, hy, hm⟩
    rcases hy.mem_refsOf with rfl | ⟨hx', _⟩
    · exact hm
    · exact absurd hx' hx
  have hone : (groupOf config evidence x).ncard ≤ 1 := by
    rw [Set.ncard_le_one_iff ((Set.Subsingleton.finite ?_).subset hsub)]
    · intro a b ha hb
      exact Option.some.inj ((hsub ha).symm.trans (hsub hb))
    · intro a ha b hb
      exact Option.some.inj (ha.symm.trans hb)
  have htwo := h.two
  omega

/-- The alias of a member whose component is merged. -/
def Aliased (config : FoldConfig) (evidence : List EvidenceRow) (a : AliasWrite) : Prop :=
  ∃ x m, splitMemberRef x = some (memberOf a) ∧ Merges config evidence x ∧
    IsLeast (groupOf config evidence x) m ∧ a.canonicalEntity = canonicalName m

/-- The aliases that the components write. -/
theorem mem_foldOutcomes_aliases_iff (config : FoldConfig) (evidence : List EvidenceRow)
    (a : AliasWrite) :
    a ∈ (foldOutcomes config evidence).flatMap (·.aliases) ↔ Aliased config evidence a := by
  have hleast : ∀ {x component}, IsComponent config evidence x component →
      {m | m ∈ component.filterMap splitMemberRef} = groupOf config evidence x := by
    intro x component hx
    ext m
    exact mem_members_of_isComponent hx m
  unfold foldOutcomes
  simp only [List.mem_flatMap, List.mem_map, exists_exists_and_eq_and]
  constructor
  · rintro ⟨component, hcomponent, ha⟩
    have hnodup := UnionFind.nodup_of_mem_components hcomponent
    obtain ⟨x, -, hx⟩ := isComponent_of_mem_components hcomponent
    rcases componentOutcome_eq hx hnodup (candidates config evidence) with
      ⟨hmerges, heq⟩ | ⟨_, hnone, _⟩
    · rw [heq] at ha
      obtain ⟨m, hm, rfl⟩ := List.mem_map.mp ha
      obtain ⟨y, hy, hsplit⟩ := List.mem_filterMap.mp hm
      have hxy := (hx y).mp hy
      obtain ⟨least, hmin⟩ := exists_isLeast (List.ne_nil_of_mem hm)
      refine ⟨y, least, hsplit, hmerges.congr hxy, ?_, canonicalFor_eq hmin⟩
      rw [← groupOf_congr hxy, ← hleast hx]
      exact hmin
    · rw [hnone] at ha
      exact absurd ha List.not_mem_nil
  · rintro ⟨x, least, hsplit, hmerges, hmin, hcanonical⟩
    obtain ⟨component, hcomponent, hx⟩ :=
      exists_component_of_mem_refsOf config (mem_refsOf_of_merges hmerges)
    refine ⟨component, hcomponent, ?_⟩
    have hnodup := UnionFind.nodup_of_mem_components hcomponent
    rcases componentOutcome_eq hx hnodup (candidates config evidence) with
      ⟨_, heq⟩ | ⟨hnot, _⟩
    · rw [heq]
      rw [← hleast hx] at hmin
      refine List.mem_map.mpr ⟨memberOf a, ?_, ?_⟩
      · exact List.mem_filterMap.mpr ⟨x, (hx x).mpr (Linked.refl x), hsplit⟩
      · rw [canonicalFor_eq hmin, ← hcanonical]
        rfl
    · exact absurd hmerges hnot

/-- The fold aliases the members of the merged components, and nothing else. -/
theorem mem_aliases_iff (liveEvidence : List EvidenceRow) (config : FoldConfig)
    (known : List String) (a : AliasWrite) :
    a ∈ (foldWithKnownCanonicals liveEvidence config known).aliases ↔
      Aliased config (workingOrder config liveEvidence) a := by
  rw [(aliases_perm liveEvidence config known).mem_iff, mem_foldOutcomes_aliases_iff]

theorem canonicals_eq (liveEvidence : List EvidenceRow) (config : FoldConfig)
    (known : List String) : (foldWithKnownCanonicals liveEvidence config known).canonicals =
      sortDedup ((foldOutcomes config (workingOrder config liveEvidence)).flatMap
        (·.canonicals)) := by
  unfold foldWithKnownCanonicals
  dsimp only

theorem mem_canonicals_outcomes (liveEvidence : List EvidenceRow) (config : FoldConfig)
    (known : List String) (canonical : String) :
    canonical ∈ (foldWithKnownCanonicals liveEvidence config known).canonicals ↔
      canonical ∈ (foldOutcomes config (workingOrder config liveEvidence)).flatMap
        (·.canonicals) := by
  rw [canonicals_eq, mem_sortDedup]

/-- The canonicals are those of the aliases. -/
theorem mem_canonicals_iff (liveEvidence : List EvidenceRow) (config : FoldConfig)
    (known : List String) (canonical : String) :
    canonical ∈ (foldWithKnownCanonicals liveEvidence config known).canonicals ↔
      ∃ a ∈ (foldWithKnownCanonicals liveEvidence config known).aliases,
        a.canonicalEntity = canonical := by
  have haliases : (∃ a ∈ (foldWithKnownCanonicals liveEvidence config known).aliases,
      a.canonicalEntity = canonical) ↔
      ∃ a ∈ (foldOutcomes config (workingOrder config liveEvidence)).flatMap (·.aliases),
        a.canonicalEntity = canonical := by
    simp only [(aliases_perm liveEvidence config known).mem_iff]
  rw [haliases, mem_canonicals_outcomes]
  unfold foldOutcomes
  simp only [List.mem_flatMap, List.mem_map, exists_exists_and_eq_and]
  constructor
  · rintro ⟨component, hcomponent, hcanonical⟩
    have hnodup := UnionFind.nodup_of_mem_components hcomponent
    obtain ⟨x, -, hx⟩ := isComponent_of_mem_components hcomponent
    rcases componentOutcome_eq hx hnodup (candidates config _) with ⟨hmerges, heq⟩ | ⟨_, _, hnone⟩
    · rw [heq] at hcanonical
      obtain rfl := List.mem_singleton.mp hcanonical
      have hlength := length_members_of_isComponent hx hnodup
      have htwo := hmerges.two
      obtain ⟨m, hm⟩ := List.exists_mem_of_length_pos
        (l := component.filterMap splitMemberRef) (by omega)
      refine ⟨⟨m.source, m.entityId, canonicalFor (component.filterMap splitMemberRef)⟩,
        ⟨component, hcomponent, ?_⟩, rfl⟩
      rw [heq]
      exact List.mem_map_of_mem hm
    · rw [hnone] at hcanonical
      exact absurd hcanonical List.not_mem_nil
  · rintro ⟨a, ⟨component, hcomponent, ha⟩, rfl⟩
    refine ⟨component, hcomponent, ?_⟩
    cases hout : componentOutcome config (workingOrder config liveEvidence)
        (candidates config (workingOrder config liveEvidence)) component with
    | single =>
      rw [hout] at ha
      exact absurd ha List.not_mem_nil
    | review item =>
      rw [hout] at ha
      exact absurd ha List.not_mem_nil
    | merged canonical members badge =>
      rw [hout] at ha
      obtain ⟨m, -, rfl⟩ := List.mem_map.mp ha
      exact List.mem_singleton.mpr rfl

/-! ## Two folds -/

theorem mem_workingOrder :
    e ∈ workingOrder config live ↔ e ∈ live ∧ e.tenantId = config.tenantId := by
  unfold workingOrder
  rw [List.mem_insertionSort, List.mem_filter, decide_eq_true_eq]

/-- The rows that a fold goes through, some of them left out. -/
theorem filter_workingOrder (config : FoldConfig) (p : EvidenceRow → Bool)
    (live : List EvidenceRow) :
    (workingOrder config live).filter p = workingOrder config (live.filter p) := by
  have htrans : IsTrans EvidenceRow fun a b =>
      a.validFrom < b.validFrom ∨ (a.validFrom = b.validFrom ∧ a.evidenceId ≤ b.evidenceId) := by
    constructor
    intro a b c hab hbc
    rcases hab with hab | ⟨hab, hid⟩
    · rcases hbc with hbc | ⟨hbc, -⟩
      · exact Or.inl (hab.trans hbc)
      · exact Or.inl (hbc ▸ hab)
    · rcases hbc with hbc | ⟨hbc, hid'⟩
      · exact Or.inl (hab ▸ hbc)
      · exact Or.inr ⟨hab.trans hbc, hid.trans hid'⟩
  have htotal : Std.Total fun a b : EvidenceRow =>
      a.validFrom < b.validFrom ∨ (a.validFrom = b.validFrom ∧ a.evidenceId ≤ b.evidenceId) := by
    constructor
    intro a b
    rcases lt_trichotomy a.validFrom b.validFrom with h | h | h
    · exact Or.inl (Or.inl h)
    · rcases le_total a.evidenceId b.evidenceId with hid | hid
      · exact Or.inl (Or.inr ⟨h, hid⟩)
      · exact Or.inr (Or.inr ⟨h.symm, hid⟩)
    · exact Or.inr (Or.inl h)
  unfold workingOrder
  rw [filter_insertionSort, List.filter_filter, List.filter_filter]
  simp only [Bool.and_comm]

theorem mem_edgeRows :
    e ∈ edgeRows config evidence ↔
      e ∈ evidence ∧ (formsEdge config evidence e = true ∨ e.isConfirmation = true) := by
  simp only [edgeRows, List.mem_append, List.mem_filter]
  tauto

theorem humanConfirmed_iff :
    humanConfirmed evidence pair = true ↔
      ∃ e ∈ evidence, e.isConfirmation = true ∧ e.pair = pair := by
  simp only [humanConfirmed, List.any_eq_true, Bool.and_eq_true, decide_eq_true_eq]

theorem humanConfirmed_mono (hsub : evidence ⊆ evidence')
    (h : humanConfirmed evidence pair = true) : humanConfirmed evidence' pair = true := by
  obtain ⟨e, he, hpair⟩ := humanConfirmed_iff.mp h
  exact humanConfirmed_iff.mpr ⟨e, hsub he, hpair⟩

/-- All that a row asks of the others is the confirmation of its pair. -/
theorem formsEdge_of_confirmed
    (hpair : humanConfirmed evidence e.pair = true → humanConfirmed evidence' e.pair = true)
    (h : formsEdge config evidence e = true) : formsEdge config evidence' e = true := by
  unfold formsEdge at h ⊢
  grind

theorem formsEdge_congr (h : humanConfirmed evidence = humanConfirmed evidence') :
    formsEdge config evidence = formsEdge config evidence' := by
  funext e
  unfold formsEdge
  rw [h]

/-- More evidence forms more edges. -/
theorem edgeRows_mono (hsub : evidence ⊆ evidence') :
    edgeRows config evidence ⊆ edgeRows config evidence' := by
  intro e he
  rw [mem_edgeRows] at he ⊢
  exact ⟨hsub he.1, he.2.imp_left (formsEdge_of_confirmed (humanConfirmed_mono hsub))⟩

/-- Rows that are left out take nothing but themselves, and the rows of the second tier whose
confirmation is left out, from those that form edges. -/
theorem edgeRows_of_filter (config : FoldConfig) (q : EvidenceRow → Bool)
    (evidence : List EvidenceRow) :
    edgeRows config (evidence.filter q) = (edgeRows config evidence).filter fun e =>
      q e && (formsEdge config (evidence.filter q) e || e.isConfirmation) := by
  have hforms : ∀ e, formsEdge config (evidence.filter q) e = true →
      formsEdge config evidence e = true := fun e =>
    formsEdge_of_confirmed (humanConfirmed_mono List.filter_sublist.subset)
  have hconfirmed : ∀ e ∈ evidence, q e = true → e.isConfirmation = true →
      formsEdge config evidence e = true → formsEdge config (evidence.filter q) e = true := by
    intro e he hq hconf
    exact formsEdge_of_confirmed fun _ =>
      humanConfirmed_iff.mpr ⟨e, List.mem_filter.mpr ⟨he, hq⟩, hconf, rfl⟩
  unfold edgeRows
  rw [List.filter_append, List.filter_filter, List.filter_filter, List.filter_filter,
    List.filter_filter]
  congr 1
  · apply List.filter_congr
    intro e he
    have hforms := hforms e
    have hconfirmed := hconfirmed e he
    grind
  · apply List.filter_congr
    intro e he
    grind

/-- Where no row of a selection loses its confirmation, the selection is one of the rows that
form edges. -/
theorem edgeRows_filter_of_confirmed {q : EvidenceRow → Bool}
    (h : ∀ e ∈ edgeRows config evidence, q e = true → humanConfirmed evidence e.pair = true →
      humanConfirmed (evidence.filter q) e.pair = true) :
    edgeRows config (evidence.filter q) = (edgeRows config evidence).filter q := by
  rw [edgeRows_of_filter]
  apply List.filter_congr
  intro e he
  cases hq : q e with
  | false => rfl
  | true =>
    rw [Bool.true_and, Bool.or_eq_true]
    exact (mem_edgeRows.mp he).2.imp_left (formsEdge_of_confirmed (h e he hq))

/-- A selection of rows that goes by pair selects from the rows that form edges. -/
theorem edgeRows_filter (config : FoldConfig) {q : EvidenceRow → Bool}
    (hq : ∀ e e' : EvidenceRow, e.pair = e'.pair → q e = q e') (evidence : List EvidenceRow) :
    edgeRows config (evidence.filter q) = (edgeRows config evidence).filter q := by
  apply edgeRows_filter_of_confirmed
  intro e _ hqe hconfirmed
  obtain ⟨e', he', hconf, hpair⟩ := humanConfirmed_iff.mp hconfirmed
  exact humanConfirmed_iff.mpr
    ⟨e', List.mem_filter.mpr ⟨he', (hq e' e hpair).trans hqe⟩, hconf, hpair⟩

/-- Rows that form no edge can be left out. -/
theorem edgeRows_filter_of_idle {d : EvidenceRow → Bool}
    (hidle : ∀ e ∈ edgeRows config evidence, d e = true) :
    edgeRows config (evidence.filter d) = edgeRows config evidence := by
  rw [edgeRows_filter_of_confirmed, List.filter_eq_self.mpr hidle]
  intro e _ _ hconfirmed
  obtain ⟨e', he', hconf, hpair⟩ := humanConfirmed_iff.mp hconfirmed
  have hd := hidle e' (mem_edgeRows.mpr ⟨he', Or.inr hconf⟩)
  exact humanConfirmed_iff.mpr ⟨e', List.mem_filter.mpr ⟨he', hd⟩, hconf, hpair⟩

/-- Two plans with the same aliases and the same canonicals. -/
def SameMerges (plan plan' : FoldPlan) : Prop :=
  plan.aliases = plan'.aliases ∧ plan.canonicals = plan'.canonicals

theorem aliases_nodup (liveEvidence : List EvidenceRow) (config : FoldConfig)
    (known : List String) : (foldWithKnownCanonicals liveEvidence config known).aliases.Nodup :=
  List.Nodup.of_map _ (fold_members_nodup liveEvidence config known)

theorem aliases_sorted (liveEvidence : List EvidenceRow) (config : FoldConfig)
    (known : List String) :
    (foldWithKnownCanonicals liveEvidence config known).aliases.Pairwise (· ≤ ·) := by
  unfold foldWithKnownCanonicals
  dsimp only
  exact List.pairwise_insertionSort _ _

/-- The lists of a plan are sorted, so their entries decide. -/
theorem sameMerges_of_mem_iff {live' : List EvidenceRow} {known known' : List String}
    (h : ∀ a, a ∈ (foldWithKnownCanonicals live config known).aliases ↔
      a ∈ (foldWithKnownCanonicals live' config' known').aliases) :
    SameMerges (foldWithKnownCanonicals live config known)
      (foldWithKnownCanonicals live' config' known') := by
  have hcanonicals : ∀ canonical,
      canonical ∈ (foldWithKnownCanonicals live config known).canonicals ↔
        canonical ∈ (foldWithKnownCanonicals live' config' known').canonicals := by
    intro canonical
    rw [mem_canonicals_iff, mem_canonicals_iff]
    simp only [h]
  constructor
  · refine List.Perm.eq_of_pairwise' (aliases_sorted _ _ _) (aliases_sorted _ _ _) ?_
    exact (List.perm_ext_iff_of_nodup (aliases_nodup _ _ _) (aliases_nodup _ _ _)).mpr h
  · rw [canonicals_eq, canonicals_eq]
    apply sortDedup_congr
    intro canonical
    rw [← mem_canonicals_outcomes, ← mem_canonicals_outcomes]
    exact hcanonicals canonical

/-- Two folds agree when every member has the same group in both, and an anti-link in its
component in both or in neither. -/
theorem sameMerges_of_groups {live' : List EvidenceRow} (known known' : List String)
    (hgroup : ∀ x m, splitMemberRef x = some m →
      groupOf config (workingOrder config live) x = groupOf config (workingOrder config live') x)
    (hanti : ∀ x m, splitMemberRef x = some m →
      2 ≤ (groupOf config (workingOrder config live) x).ncard →
      (AntiLinked config (workingOrder config live) x ↔
        AntiLinked config (workingOrder config live') x)) :
    SameMerges (foldWithKnownCanonicals live config known)
      (foldWithKnownCanonicals live' config known') := by
  have hmerges : ∀ x m, splitMemberRef x = some m →
      (Merges config (workingOrder config live) x ↔
        Merges config (workingOrder config live') x) := by
    intro x m hx
    constructor
    · intro h
      refine ⟨hgroup x m hx ▸ h.two, hgroup x m hx ▸ h.within_cap, ?_⟩
      exact fun h' => h.apart ((hanti x m hx h.two).mpr h')
    · intro h
      have htwo : 2 ≤ (groupOf config (workingOrder config live) x).ncard :=
        (hgroup x m hx).symm ▸ h.two
      refine ⟨htwo, (hgroup x m hx).symm ▸ h.within_cap, ?_⟩
      exact fun h' => h.apart ((hanti x m hx htwo).mp h')
  apply sameMerges_of_mem_iff
  intro a
  rw [mem_aliases_iff, mem_aliases_iff]
  unfold Aliased
  constructor
  · rintro ⟨x, m, hx, h, hleast, hcanonical⟩
    exact ⟨x, m, hx, (hmerges x _ hx).mp h, hgroup x _ hx ▸ hleast, hcanonical⟩
  · rintro ⟨x, m, hx, h, hleast, hcanonical⟩
    exact ⟨x, m, hx, (hmerges x _ hx).mpr h, (hgroup x _ hx).symm ▸ hleast, hcanonical⟩

theorem descends_fold (config : FoldConfig) (evidence : List EvidenceRow) :
    Descends (foldUnionFind config evidence (candidates config evidence)) := by
  obtain ⟨hdesc, -, -⟩ := touchAll evidence descends_empty
  rw [foldUnionFind_eq]
  exact hdesc.unions _

/-- A component of two refs or more is a component of every graph with the same links. -/
theorem mem_components_of_linked
    (hlinked : ∀ x y, Linked config evidence x y ↔ Linked config' evidence' x y)
    (hlength : 2 ≤ component.length)
    (h : component ∈ (foldUnionFind config evidence (candidates config evidence)).components) :
    component ∈ (foldUnionFind config' evidence' (candidates config' evidence')).components := by
  obtain ⟨x, -, hx⟩ := isComponent_of_mem_components h
  have hsorted := sorted_of_mem_components h
  rcases component with - | ⟨a, - | ⟨b, rest⟩⟩
  · exact absurd hlength (by simp)
  · exact absurd hlength (by simp)
  have hab : a ≠ b := by
    have hlt := (List.pairwise_cons.mp hsorted).1 b List.mem_cons_self
    exact hlt.ne
  have hxa := (hx a).mp List.mem_cons_self
  have hxb := (hx b).mp (List.mem_cons_of_mem _ List.mem_cons_self)
  have ha : a ∈ refsOf evidence' := by
    rcases ((hlinked a b).mp (hxa.symm.trans hxb)).mem_refsOf with hab' | ⟨ha, _⟩
    · exact absurd hab' hab
    · exact ha
  obtain ⟨component', hcomponent', ha'⟩ := exists_component_of_mem_refsOf config' ha
  have heq : a :: b :: rest = component' := by
    refine hsorted.eq_of_mem_iff (sorted_of_mem_components hcomponent') ?_
    intro y
    rw [hx, ha', ← hlinked]
    exact ⟨fun hxy => hxa.symm.trans hxy, fun hay => hxa.trans hay⟩
  exact heq ▸ hcomponent'

/-- Graphs with the same links have the same components of two refs or more, in the same order. -/
theorem components_eq_of_linked
    (hlinked : ∀ x y, Linked config evidence x y ↔ Linked config' evidence' x y) :
    (foldUnionFind config evidence (candidates config evidence)).components.filter
        (fun component => 2 ≤ component.length) =
      (foldUnionFind config' evidence' (candidates config' evidence')).components.filter
        fun component => 2 ≤ component.length := by
  refine ((components_ordered (descends_fold _ _)).filter _).eq_of_mem_iff
    ((components_ordered (descends_fold _ _)).filter _) ?_
  intro component
  simp only [List.mem_filter, decide_eq_true_eq]
  constructor
  · rintro ⟨hmem, hlength⟩
    exact ⟨mem_components_of_linked hlinked hlength hmem, hlength⟩
  · rintro ⟨hmem, hlength⟩
    exact ⟨mem_components_of_linked (fun x y => (hlinked x y).symm) hlength hmem, hlength⟩

end Verity.Analysis
