import Verity.Analysis.FoldGraph

/-!
# What decides about an edge

The record of an edge sums up the contributions to its pair: whether one of them is strong, the
key node of the last one that came through a key node, the first row of the lowest tier, and the
distinct keys. `mem_unitedPairs_iff` says when the fold unites a pair in these terms alone: the
contributions clear the bar of that row, and that key node does not fan out.
-/

set_option autoImplicit false

namespace Verity.Analysis

open Verity.Foundation Verity.Model

variable {rows : List EvidenceRow} {key : String} {cts : List Contribution}

/-! ## The record, read off the contributions -/

/-- One of the contributions is strong. -/
def strongIn (cts : List Contribution) : Bool := cts.any fun ct => strongMethod ct.1.method

/-- The key node of the last contribution that came through one. -/
def lastKey (cts : List Contribution) : Option String := (cts.filterMap Prod.snd).getLast?

/-- The better of a row and one that comes later. -/
def lowerTier (best : Option EvidenceRow) (e : EvidenceRow) : Option EvidenceRow :=
  match best with
  | none => some e
  | some b => if e.tier < b.tier then some e else some b

/-- The first row of the lowest tier. -/
def dominantRow (cts : List Contribution) : Option EvidenceRow :=
  (cts.map Prod.fst).foldl lowerTier none

/-- How many keys the contributions come with. -/
def distinctKeys (cts : List Contribution) : Nat := (cts.map contributedKey).dedup.length

theorem strongSingleKey_foldl (cts : List Contribution) (entry : EdgeEvidence) :
    (cts.foldl recordContribution entry).strongSingleKey =
      (entry.strongSingleKey || strongIn cts) := by
  induction cts generalizing entry with
  | nil => simp [strongIn]
  | cons ct cts ih =>
    have hstep : (recordContribution entry ct).strongSingleKey =
        (entry.strongSingleKey || strongMethod ct.1.method) := by
      unfold recordContribution recordEdgeMeta
      cases hstrong : strongMethod ct.1.method <;> cases ct.2 <;> dsimp only <;> grind
    rw [List.foldl_cons, ih, hstep]
    simp [strongIn, Bool.or_assoc]

theorem viaKeyNode_recordContribution (entry : EdgeEvidence) (ct : Contribution) :
    (recordContribution entry ct).viaKeyNode = ct.2.or entry.viaKeyNode := by
  unfold recordContribution recordEdgeMeta
  cases ct.2 <;> dsimp only <;> grind

theorem viaKeyNode_foldl (cts : List Contribution) :
    (cts.foldl recordContribution {}).viaKeyNode = lastKey cts := by
  induction cts using List.reverseRecOn with
  | nil => rfl
  | append_singleton cts ct ih =>
    rw [List.foldl_append, List.foldl_cons, List.foldl_nil, viaKeyNode_recordContribution, ih]
    unfold lastKey
    rw [List.filterMap_append]
    cases hvia : ct.2 with
    | none => simp [hvia]
    | some key => simp [hvia]

/-- The record has the method, the tier and the key of a row. -/
def HasRow (entry : EdgeEvidence) : Option EvidenceRow → Prop
  | none => entry.bestMethod = none
  | some e => entry.bestMethod = some e.method ∧ entry.bestTier = e.tier ∧
      entry.dominantKeyKind = keyKindOf e ∧ entry.dominantNamespace = namespaceOf e

theorem HasRow.recordEdgeMeta {entry : EdgeEvidence} {best : Option EvidenceRow}
    (h : HasRow entry best) (e : EvidenceRow) :
    HasRow (recordEdgeMeta entry e) (lowerTier best e) := by
  unfold Verity.Model.recordEdgeMeta
  cases best with
  | none =>
    have hnone : entry.bestMethod = none := h
    by_cases hstrong : strongMethod e.method = true
    · simp [hnone, hstrong, HasRow, lowerTier]
    · simp [hnone, hstrong, HasRow, lowerTier]
  | some b =>
    obtain ⟨hmethod, htier, hkind, hns⟩ := h
    by_cases hlt : e.tier < b.tier
    · by_cases hstrong : strongMethod e.method = true
      · simp [hmethod, htier, hlt, hstrong, HasRow, lowerTier]
      · simp [hmethod, htier, hlt, hstrong, HasRow, lowerTier]
    · by_cases hstrong : strongMethod e.method = true
      · simp [hmethod, htier, hkind, hns, hlt, hstrong, HasRow, lowerTier]
      · simp [hmethod, htier, hkind, hns, hlt, hstrong, HasRow, lowerTier]

theorem HasRow.recordContribution {entry : EdgeEvidence} {best : Option EvidenceRow}
    (h : HasRow entry best) (ct : Contribution) :
    HasRow (recordContribution entry ct) (lowerTier best ct.1) := by
  unfold Verity.Analysis.recordContribution
  cases ct.2 with
  | none =>
    apply HasRow.recordEdgeMeta
    cases best <;> exact h
  | some key =>
    apply HasRow.recordEdgeMeta
    cases best <;> exact h

theorem hasRow_foldl (cts : List Contribution) :
    HasRow (cts.foldl recordContribution {}) (dominantRow cts) := by
  have hrun : ∀ (entry : EdgeEvidence) (best : Option EvidenceRow), HasRow entry best →
      HasRow (cts.foldl recordContribution entry) ((cts.map Prod.fst).foldl lowerTier best) := by
    induction cts with
    | nil => exact fun entry best h => h
    | cons ct cts ih => exact fun entry best h => ih _ _ (h.recordContribution ct)
  exact hrun {} none rfl

theorem length_keys_foldl (cts : List Contribution) :
    (cts.foldl (fun keys ct => keys.insert (contributedKey ct)) []).length = distinctKeys cts := by
  have hrun : ∀ keys : List (String × String), keys.Nodup →
      (cts.foldl (fun keys ct => keys.insert (contributedKey ct)) keys).Nodup ∧
        ∀ key, key ∈ cts.foldl (fun keys ct => keys.insert (contributedKey ct)) keys ↔
          key ∈ keys ∨ key ∈ cts.map contributedKey := by
    induction cts with
    | nil => exact fun keys h => ⟨h, fun key => by simp⟩
    | cons ct cts ih =>
      intro keys h
      obtain ⟨hnodup, hmem⟩ := ih _ (List.Nodup.insert (a := contributedKey ct) h)
      refine ⟨hnodup, fun key => ?_⟩
      rw [List.foldl_cons, hmem, List.mem_insert_iff, List.map_cons, List.mem_cons]
      tauto
  obtain ⟨hnodup, hmem⟩ := hrun [] List.nodup_nil
  unfold distinctKeys
  refine List.Perm.length_eq ((List.perm_ext_iff_of_nodup hnodup (List.nodup_dedup _)).mpr ?_)
  intro key
  rw [hmem, List.mem_dedup]
  simp

/-! ## When a pair is united -/

/-- How many keys a row asks for. -/
def barOf (config : FoldConfig) (e : EvidenceRow) : Int :=
  max (config.get (keyKindOf e) (namespaceOf e)).minIndependentKeys 1

/-- The contributions to a pair suffice: one of them is strong, or a human confirmed the pair, or
they come with as many keys as their dominant row asks for. -/
def ClearsBar (config : FoldConfig) (confirmed : Bool) (cts : List Contribution) : Prop :=
  ∃ e, dominantRow cts = some e ∧
    (strongIn cts = true ∨ confirmed = true ∨ barOf config e ≤ asI16 (distinctKeys cts))

/-- The leaves that the rows give a key node. -/
def leavesOf (rows : List EvidenceRow) (key : String) : List String :=
  (((rows.filterMap keyLeaf).filter fun star => star.1 = key).map Prod.snd).dedup

/-- The key is of no strong kind and has more than two leaves. -/
def fansOut (rows : List EvidenceRow) (key : String) : Bool :=
  decide (2 < (leavesOf rows key).length) && !(keyNodeKind key ∈ ["external_id", "crm_fk", "admin"])

theorem mem_leavesOf {leaf : String} : leaf ∈ leavesOf rows key ↔ isLeaf rows key leaf = true := by
  unfold leavesOf
  rw [List.mem_dedup, isLeaf_eq_true]
  simp only [List.mem_map, List.mem_filter, List.mem_filterMap, decide_eq_true_eq, Prod.exists]
  constructor
  · rintro ⟨key', leaf', ⟨⟨e, he, hleaf⟩, rfl⟩, rfl⟩
    exact ⟨e, he, hleaf⟩
  · rintro ⟨e, he, hleaf⟩
    exact ⟨key, leaf, ⟨⟨e, he, hleaf⟩, rfl⟩, rfl⟩

/-- A key with more leaves fans out sooner. -/
theorem fansOut_mono {rows' : List EvidenceRow}
    (hsub : ∀ leaf, isLeaf rows key leaf = true → isLeaf rows' key leaf = true)
    (h : fansOut rows key = true) : fansOut rows' key = true := by
  have hleaves : leavesOf rows key ⊆ leavesOf rows' key :=
    fun leaf hleaf => mem_leavesOf.mpr (hsub leaf (mem_leavesOf.mp hleaf))
  have hlength := ((List.nodup_dedup _).subperm hleaves).length_le
  unfold fansOut at h ⊢
  rw [Bool.and_eq_true, decide_eq_true_eq] at h ⊢
  exact ⟨lt_of_lt_of_le h.1 hlength, h.2⟩

/-- A key is suppressed if and only if it fans out. -/
theorem suppressedKeyNode_eq {c : Candidates} (h : CandidatesOf rows c) (key : String) :
    suppressedKeyNode c key = fansOut rows key := by
  have hleaves := h.leaves key
  unfold suppressedKeyNode fansOut
  cases hstar : c.keyStar[key]? with
  | none =>
    have hnil : leavesOf rows key = [] := by
      rw [List.eq_nil_iff_forall_not_mem]
      intro leaf hleaf
      obtain ⟨leaves, hsome, -⟩ := (hleaves leaf).mpr (mem_leavesOf.mp hleaf)
      rw [hstar] at hsome
      exact absurd hsome (by simp)
    simp [hnil]
  | some leaves =>
    have hlength : (leavesOf rows key).length = leaves.size := by
      rw [← Std.TreeSet.length_toList]
      refine List.Perm.length_eq
        ((List.perm_ext_iff_of_nodup (List.nodup_dedup _) (nodup_toList leaves)).mpr ?_)
      intro leaf
      have hmem : leaf ∈ leavesOf rows key ↔ leaf ∈ leaves := by
        rw [mem_leavesOf, ← hleaves leaf, hstar]
        simp
      rw [Std.TreeSet.mem_toList]
      exact hmem
    simp [fannedOut, hlength]

theorem dominantRow_eq_none : dominantRow cts = none ↔ cts = [] := by
  unfold dominantRow
  constructor
  · intro h
    cases cts with
    | nil => rfl
    | cons ct cts =>
      have hkept : ∀ (rows : List EvidenceRow) (b : EvidenceRow),
          rows.foldl lowerTier (some b) ≠ none := by
        intro rows
        induction rows with
        | nil => simp
        | cons e rows ih =>
          intro b
          rw [List.foldl_cons]
          unfold lowerTier
          dsimp only
          split
          · exact ih e
          · exact ih b
      exact absurd h (hkept _ _)
  · rintro rfl
    rfl

/-- The dominant row is one of the rows, and none is of a lower tier. -/
theorem dominantRow_eq_some {e : EvidenceRow} (h : dominantRow cts = some e) :
    (∃ via, (e, via) ∈ cts) ∧ ∀ ct ∈ cts, e.tier ≤ ct.1.tier := by
  have hrun : ∀ (rows : List EvidenceRow) (best : Option EvidenceRow),
      rows.foldl lowerTier best = some e →
        (e ∈ rows ∨ best = some e) ∧ (∀ r ∈ rows, e.tier ≤ r.tier) ∧
          ∀ b, best = some b → e.tier ≤ b.tier := by
    intro rows
    induction rows with
    | nil =>
      rintro best rfl
      simp
    | cons r rows ih =>
      intro best hfold
      obtain ⟨hmem, hrows, hbest⟩ := ih (lowerTier best r) hfold
      cases best with
      | none =>
        have hr := hbest r rfl
        refine ⟨?_, ?_, by simp⟩
        · rcases hmem with hmem | hmem
          · exact Or.inl (List.mem_cons_of_mem _ hmem)
          · exact Or.inl (by simp [Option.some.inj hmem])
        · exact List.forall_mem_cons.mpr ⟨hr, hrows⟩
      | some b =>
        by_cases hlt : r.tier < b.tier
        · have hlower : lowerTier (some b) r = some r := if_pos hlt
          rw [hlower] at hmem hbest
          have hr := hbest r rfl
          refine ⟨?_, List.forall_mem_cons.mpr ⟨hr, hrows⟩, ?_⟩
          · rcases hmem with hmem | hmem
            · exact Or.inl (List.mem_cons_of_mem _ hmem)
            · exact Or.inl (by simp [Option.some.inj hmem])
          · rintro b' ⟨rfl⟩
            exact hr.trans hlt.le
        · have hlower : lowerTier (some b) r = some b := if_neg hlt
          rw [hlower] at hmem hbest
          have hb := hbest b rfl
          refine ⟨hmem.imp_left (List.mem_cons_of_mem _),
            List.forall_mem_cons.mpr ⟨hb.trans (not_lt.mp hlt), hrows⟩, ?_⟩
          rintro b' ⟨rfl⟩
          exact hb
  obtain ⟨hmem, hrows, -⟩ := hrun _ _ h
  refine ⟨?_, fun ct hct => hrows ct.1 (List.mem_map_of_mem hct)⟩
  rcases hmem with hmem | hmem
  · obtain ⟨⟨e', via⟩, hct, rfl⟩ := List.mem_map.mp hmem
    exact ⟨via, hct⟩
  · exact absurd hmem (by simp)

theorem mem_of_lastKey (h : lastKey cts = some key) : ∃ ct ∈ cts, ct.2 = some key :=
  List.mem_filterMap.mp (List.mem_of_getLast? h)

theorem lastKey_eq_none (h : lastKey cts = none) : ∀ ct ∈ cts, ct.2 = none := by
  unfold lastKey at h
  rw [List.getLast?_eq_none_iff] at h
  exact List.filterMap_eq_nil_iff.mp h

/-- The fold unites a pair if and only if the contributions to it clear the bar and the last key
among them does not fan out. -/
theorem mem_unitedPairs_iff {config : FoldConfig} {evidence : List EvidenceRow} {a b : String} :
    (a, b) ∈ unitedPairs config evidence ↔
      ClearsBar config (humanConfirmed evidence ⟨a, b⟩)
          (contributions (edgeRows config evidence) ⟨a, b⟩) ∧
        (lastKey (contributions (edgeRows config evidence) ⟨a, b⟩)).any
          (fansOut (edgeRows config evidence)) = false := by
  have hof := candidatesOf_edgeRows config evidence
  have hfans : suppressedKeyNode (candidates config evidence) =
      fansOut (edgeRows config evidence) := funext (suppressedKeyNode_eq hof)
  rw [mem_unitedPairs, hof.edges, hfans]
  generalize hcts : contributions (edgeRows config evidence) ⟨a, b⟩ = cts
  have hkeys : (candidates config evidence).pairKeys[(⟨a, b⟩ : UnorderedPair)]? = keysOf cts := by
    rw [hof.pairKeys, hcts]
  have hrow := hasRow_foldl cts
  have hvia := viaKeyNode_foldl cts
  have hstrong := strongSingleKey_foldl cts {}
  unfold edgeOf suppressedForMinKeys ClearsBar
  rw [hkeys]
  cases hdominant : dominantRow cts with
  | none => simp [dominantRow_eq_none.mp hdominant]
  | some e =>
    have hne : cts ≠ [] := by
      intro hnil
      rw [dominantRow_eq_none.mpr hnil] at hdominant
      exact absurd hdominant (by simp)
    rw [hdominant] at hrow
    obtain ⟨-, -, hkind, hns⟩ := hrow
    have hcount : ((keysOf cts).map List.length).getD 0 = distinctKeys cts := by
      unfold keysOf
      simp [hne, length_keys_foldl]
    simp only [List.isEmpty_iff, hne, if_false, Option.some.injEq, exists_eq_left', hcount, hvia,
      hstrong, hkind, hns, Bool.false_or]
    refine and_congr_left fun _ => ?_
    unfold barOf
    cases hs : strongIn cts with
    | true => simp
    | false =>
      cases hh : humanConfirmed evidence ⟨a, b⟩ with
      | true => simp
      | false => simp

/-- The graph depends on the rows that form edges alone, in their order. -/
theorem linked_iff_of_edgeRows {config : FoldConfig} {evidence evidence' : List EvidenceRow}
    (h : edgeRows config evidence = edgeRows config evidence') (x y : String) :
    Linked config evidence x y ↔ Linked config evidence' x y := by
  have hconfirmed : ∀ (evidence : List EvidenceRow) (pair : UnorderedPair),
      humanConfirmed evidence pair =
        (edgeRows config evidence).any fun e => e.isConfirmation && decide (e.pair = pair) := by
    intro evidence pair
    rw [Bool.eq_iff_iff, humanConfirmed_iff]
    simp only [List.any_eq_true, Bool.and_eq_true, decide_eq_true_eq, mem_edgeRows]
    constructor
    · rintro ⟨e, he, hconf, hpair⟩
      exact ⟨e, ⟨he, Or.inr hconf⟩, hconf, hpair⟩
    · rintro ⟨e, ⟨he, -⟩, hconf, hpair⟩
      exact ⟨e, he, hconf, hpair⟩
  have hunited : ∀ a b, (a, b) ∈ unitedPairs config evidence ↔
      (a, b) ∈ unitedPairs config evidence' := by
    intro a b
    rw [mem_unitedPairs_iff, mem_unitedPairs_iff, hconfirmed evidence, hconfirmed evidence', h]
  constructor
  · exact Connected.mono fun e he _ => (hunited e.1 e.2).mp he
  · exact Connected.mono fun e he _ => (hunited e.1 e.2).mpr he

end Verity.Analysis
