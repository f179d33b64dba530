import Verity.Model.EvidenceFold

/-!
# What the second pass collects

The second pass goes through the rows that form edges, in order, and adds to three maps. What it
leaves for a pair of refs depends only on the rows that contribute to the pair: a row between
the two refs, or a row between one of them and a key node of which the other is a leaf by then
(`contributions`). `candidatesOf_foldl` says that the maps are these contributions, summed up.
-/

set_option autoImplicit false

namespace Verity.Analysis

open Verity.Model

variable {e : EvidenceRow} {p : UnorderedPair} {via : Option String} {rows : List EvidenceRow}
  {key leaf : String} {c : Candidates}

/-! ## Pairs -/

theorem UnorderedPair.new_comm (x y : String) : UnorderedPair.new x y = UnorderedPair.new y x := by
  unfold UnorderedPair.new
  rcases lt_trichotomy x y with h | rfl | h
  · rw [if_pos h.le, if_neg (not_le.mpr h)]
  · rfl
  · rw [if_neg (not_le.mpr h), if_pos h.le]

theorem UnorderedPair.new_eq_iff {x y a b : String} :
    UnorderedPair.new x y = UnorderedPair.new a b ↔ (x = a ∧ y = b) ∨ (x = b ∧ y = a) := by
  constructor
  · unfold UnorderedPair.new
    split <;> split <;> intro h <;> obtain ⟨rfl, rfl⟩ := UnorderedPair.mk.inj h <;> simp
  · rintro (⟨rfl, rfl⟩ | ⟨rfl, rfl⟩)
    · rfl
    · exact UnorderedPair.new_comm x y

theorem UnorderedPair.new_ends (x y : String) :
    UnorderedPair.new (UnorderedPair.new x y).a (UnorderedPair.new x y).b =
      UnorderedPair.new x y := by
  by_cases h : x ≤ y
  · have hnew : UnorderedPair.new x y = ⟨x, y⟩ := if_pos h
    rw [hnew]
    exact hnew
  · have hnew : UnorderedPair.new x y = ⟨y, x⟩ := if_neg h
    rw [hnew]
    exact (UnorderedPair.new_comm y x).trans hnew

/-- The ref of a pair that is not `m`. -/
def otherEnd (p : UnorderedPair) (m : String) : String := if p.a = m then p.b else p.a

theorem otherEnd_new (m other : String) : otherEnd (.new m other) m = other := by
  unfold otherEnd UnorderedPair.new
  split
  · simp
  · rename_i h
    by_cases hother : other = m
    · simp [hother]
    · simp [hother]

/-! ## Contributions -/

/-- The key node and the leaf of a row between a key node and something else. -/
def keyLeaf (e : EvidenceRow) : Option (String × String) :=
  if isKeyNode e.leftRef != isKeyNode e.rightRef then
    some (if isKeyNode e.leftRef then (e.leftRef, e.rightRef) else (e.rightRef, e.leftRef))
  else none

/-- Whether one of the rows makes the ref a leaf of the key node. -/
def isLeaf (rows : List EvidenceRow) (key leaf : String) : Bool :=
  rows.any fun e => keyLeaf e = some (key, leaf)

/-- Whether a row adds to the edge of a pair, after the rows `before`, and through which key
node. -/
def contribution (before : List EvidenceRow) (e : EvidenceRow) (p : UnorderedPair) :
    Option (Option String) :=
  match keyLeaf e with
  | some (key, leaf) =>
    if p = .new leaf (otherEnd p leaf) ∧ otherEnd p leaf ≠ leaf ∧
        isLeaf before key (otherEnd p leaf) then some (some key)
    else none
  | none => if !isKeyNode e.leftRef && decide (p = e.pair) then some none else none

/-- A row that adds to an edge, with its key node. -/
abbrev Contribution := EvidenceRow × Option String

/-- What the rows add to the edge of a pair, in order. -/
def contributionsFrom (p : UnorderedPair) : List EvidenceRow → List EvidenceRow →
    List Contribution
  | _, [] => []
  | before, e :: rows =>
    ((contribution before e p).toList.map fun via => (e, via)) ++
      contributionsFrom p (before ++ [e]) rows

def contributions (rows : List EvidenceRow) (p : UnorderedPair) : List Contribution :=
  contributionsFrom p [] rows

theorem contributionsFrom_concat (p : UnorderedPair) (before rows : List EvidenceRow)
    (e : EvidenceRow) : contributionsFrom p before (rows ++ [e]) =
      contributionsFrom p before rows ++
        (contribution (before ++ rows) e p).toList.map fun via => (e, via) := by
  induction rows generalizing before with
  | nil => simp [contributionsFrom]
  | cons r rows ih => simp [contributionsFrom, ih, List.append_assoc]

/-- A row adds to a pair that it is about, or to the pair of its leaf and another leaf of its key
node. -/
theorem contribution_eq_some_iff {before : List EvidenceRow} : contribution before e p = some via ↔
      (via = none ∧ keyLeaf e = none ∧ isKeyNode e.leftRef = false ∧ p = e.pair) ∨
      ∃ key leaf other, via = some key ∧ keyLeaf e = some (key, leaf) ∧ p = .new leaf other ∧
        other ≠ leaf ∧ isLeaf before key other = true := by
  unfold contribution
  cases hleaf : keyLeaf e with
  | none =>
    dsimp only
    split
    · rename_i hdirect
      simp only [Bool.and_eq_true, Bool.not_eq_true', decide_eq_true_eq] at hdirect
      constructor
      · rintro ⟨rfl⟩
        exact Or.inl ⟨rfl, rfl, hdirect⟩
      · rintro (⟨rfl, -⟩ | ⟨key, leaf, other, -, hstar, -⟩)
        · rfl
        · exact absurd hstar (by simp)
    · rename_i hdirect
      simp only [Bool.and_eq_true, Bool.not_eq_true', decide_eq_true_eq] at hdirect
      constructor
      · intro h
        exact absurd h (by simp)
      · rintro (⟨-, -, hends⟩ | ⟨key, leaf, other, -, hstar, -⟩)
        · exact absurd hends hdirect
        · exact absurd hstar (by simp)
  | some star =>
    obtain ⟨key, leaf⟩ := star
    dsimp only
    split
    · rename_i hpair
      constructor
      · rintro ⟨rfl⟩
        exact Or.inr ⟨key, leaf, otherEnd p leaf, rfl, rfl, hpair⟩
      · rintro (⟨-, hnone, -⟩ | ⟨key', leaf', other, rfl, hstar, -⟩)
        · exact absurd hnone (by simp)
        · rw [(Prod.mk.inj (Option.some.inj hstar)).1]
    · rename_i hpair
      constructor
      · intro h
        exact absurd h (by simp)
      · rintro (⟨-, hnone, -⟩ | ⟨key', leaf', other, rfl, hstar, hp, hne, hother⟩)
        · exact absurd hnone (by simp)
        · obtain ⟨rfl, rfl⟩ := Prod.mk.inj (Option.some.inj hstar)
          have hend : otherEnd p leaf = other := by rw [hp, otherEnd_new]
          exact absurd ⟨by rw [hend]; exact hp, by rw [hend]; exact hne,
            by rw [hend]; exact hother⟩ hpair

theorem isLeaf_eq_true :
    isLeaf rows key leaf = true ↔ ∃ e ∈ rows, keyLeaf e = some (key, leaf) := by
  simp [isLeaf]

theorem contribution_mono {before : List EvidenceRow} (hsub : before ⊆ rows)
    (h : contribution before e p = some via) : contribution rows e p = some via := by
  rw [contribution_eq_some_iff] at h ⊢
  rcases h with hdirect | ⟨key, leaf, other, hvia, hleaf, hp, hne, hother⟩
  · exact Or.inl hdirect
  · obtain ⟨e', he', hother⟩ := isLeaf_eq_true.mp hother
    exact Or.inr ⟨key, leaf, other, hvia, hleaf, hp, hne, isLeaf_eq_true.mpr ⟨e', hsub he', hother⟩⟩

/-- What one contribution adds to the record of an edge. -/
def recordContribution (entry : EdgeEvidence) (ct : Contribution) : EdgeEvidence :=
  match ct.2 with
  | some key => recordEdgeMeta { entry with
      evidenceIds := entry.evidenceIds ++ [ct.1.evidenceId]
      viaKeyNode := some key } ct.1
  | none => recordEdgeMeta { entry with
      evidenceIds := entry.evidenceIds ++ [ct.1.evidenceId]
      strongSingleKey := entry.strongSingleKey || strongMethod ct.1.method } ct.1

/-- The key that a contribution counts as. -/
def contributedKey (ct : Contribution) : String × String :=
  match ct.2 with
  | some _ => (keyKindOf ct.1, ct.1.keyValue.getD "")
  | none => (keyKindOf ct.1, ct.1.keyValue.getD ct.1.method)

/-- The record of an edge; a pair without contributions has none. -/
def edgeOf (cts : List Contribution) : Option EdgeEvidence :=
  if cts.isEmpty then none else some (cts.foldl recordContribution {})

/-- The distinct keys behind a pair. -/
def keysOf (cts : List Contribution) : Option (List (String × String)) :=
  if cts.isEmpty then none else some (cts.foldl (fun keys ct => keys.insert (contributedKey ct)) [])

theorem edgeOf_concat (cts : List Contribution) (ct : Contribution) :
    edgeOf (cts ++ [ct]) = some (recordContribution ((edgeOf cts).getD {}) ct) := by
  unfold edgeOf
  cases cts with
  | nil => rfl
  | cons c cts => simp [List.foldl_append]

theorem keysOf_concat (cts : List Contribution) (ct : Contribution) :
    keysOf (cts ++ [ct]) = some (((keysOf cts).getD []).insert (contributedKey ct)) := by
  unfold keysOf
  cases cts with
  | nil => rfl
  | cons c cts => simp [List.foldl_append]

/-! ## The maps after each row -/

/-- The three maps hold what the rows contribute. -/
structure CandidatesOf (rows : List EvidenceRow) (c : Candidates) : Prop where
  edges : ∀ p, c.edges[p]? = edgeOf (contributions rows p)
  pairKeys : ∀ p, c.pairKeys[p]? = keysOf (contributions rows p)
  leaves : ∀ key leaf, (∃ leaves, c.keyStar[key]? = some leaves ∧ leaf ∈ leaves) ↔
    isLeaf rows key leaf = true

theorem candidatesOf_nil : CandidatesOf [] {} := by
  constructor
  · intro p
    simp [contributions, contributionsFrom, edgeOf]
  · intro p
    simp [contributions, contributionsFrom, keysOf]
  · intro key leaf
    simp [isLeaf]

theorem isLeaf_concat (rows : List EvidenceRow) (e : EvidenceRow) (key leaf : String) :
    isLeaf (rows ++ [e]) key leaf = true ↔
      isLeaf rows key leaf = true ∨ keyLeaf e = some (key, leaf) := by
  simp [isLeaf, or_comm]

/-- A row that adds nothing to a pair. -/
theorem contributions_concat_of_none (h : contribution rows e p = none) :
    contributions (rows ++ [e]) p = contributions rows p := by
  unfold contributions
  rw [contributionsFrom_concat, List.nil_append, h]
  simp

theorem contributions_concat_of_some (h : contribution rows e p = some via) :
    contributions (rows ++ [e]) p = contributions rows p ++ [(e, via)] := by
  unfold contributions
  rw [contributionsFrom_concat, List.nil_append, h]
  simp

/-- What adds to a pair at some point of the run still does at its end. -/
theorem of_mem_contributions {ct : Contribution} (h : ct ∈ contributions rows p) :
    ct.1 ∈ rows ∧ contribution rows ct.1 p = some ct.2 := by
  induction rows using List.reverseRecOn with
  | nil => exact absurd h List.not_mem_nil
  | append_singleton rows e ih =>
    have hsub : rows ⊆ rows ++ [e] := List.subset_append_left _ _
    have hold : ct ∈ contributions rows p → ct.1 ∈ rows ++ [e] ∧
        contribution (rows ++ [e]) ct.1 p = some ct.2 :=
      fun h => ⟨hsub (ih h).1, contribution_mono hsub (ih h).2⟩
    cases hc : contribution rows e p with
    | none =>
      rw [contributions_concat_of_none hc] at h
      exact hold h
    | some via =>
      rw [contributions_concat_of_some hc, List.mem_append, List.mem_singleton] at h
      rcases h with h | rfl
      · exact hold h
      · exact ⟨by simp, contribution_mono hsub hc⟩

/-- Rows that are left out star by star take their own contributions with them, and no others. -/
theorem contributions_filter {q : EvidenceRow → Bool}
    (hstar : ∀ e ∈ rows, ∀ e' ∈ rows, ∀ key leaf leaf', keyLeaf e = some (key, leaf) →
      keyLeaf e' = some (key, leaf') → q e = q e') (p : UnorderedPair) :
    contributions (rows.filter q) p = (contributions rows p).filter fun ct => q ct.1 := by
  induction rows using List.reverseRecOn with
  | nil => rfl
  | append_singleton rows e ih =>
    have ih := ih fun e' he' e'' he'' => hstar e' (by simp [he']) e'' (by simp [he''])
    by_cases hq : q e = true
    · have hsame : contribution (rows.filter q) e p = contribution rows e p := by
        -- the leaves of the row's key node are all still there
        ext via
        rw [contribution_eq_some_iff, contribution_eq_some_iff]
        refine or_congr_right (exists_congr fun key => exists_congr fun leaf =>
          exists_congr fun other => and_congr_right fun _ => and_congr_right fun hleaf =>
          and_congr_right fun _ => and_congr_right fun _ => ?_)
        rw [isLeaf_eq_true, isLeaf_eq_true]
        constructor
        · rintro ⟨e', he', hother⟩
          exact ⟨e', (List.mem_filter.mp he').1, hother⟩
        · rintro ⟨e', he', hother⟩
          refine ⟨e', List.mem_filter.mpr ⟨he', ?_⟩, hother⟩
          rw [← hstar e (by simp) e' (by simp [he']) key leaf other hleaf hother]
          exact hq
      rw [List.filter_append, List.filter_cons_of_pos hq, List.filter_nil]
      cases hc : contribution rows e p with
      | none =>
        rw [contributions_concat_of_none hc, contributions_concat_of_none (hsame.trans hc), ih]
      | some via =>
        rw [contributions_concat_of_some hc, contributions_concat_of_some (hsame.trans hc), ih,
          List.filter_append]
        simp [hq]
    · rw [List.filter_append, List.filter_cons_of_neg hq, List.filter_nil, List.append_nil, ih]
      cases hc : contribution rows e p with
      | none => rw [contributions_concat_of_none hc]
      | some via =>
        rw [contributions_concat_of_some hc, List.filter_append]
        simp [hq]

/-- The record of a pair's edge after a row that contributes to it, or does not. -/
def addToEdge (e : EvidenceRow) (entry : Option EdgeEvidence) :
    Option (Option String) → Option EdgeEvidence
  | some via => some (recordContribution (entry.getD {}) (e, via))
  | none => entry

/-- The same for the keys behind the pair. -/
def addToKeys (e : EvidenceRow) (keys : Option (List (String × String))) :
    Option (Option String) → Option (List (String × String))
  | some via => some ((keys.getD []).insert (contributedKey (e, via)))
  | none => keys

/-- What the maps of a pair become with a row. -/
structure Adds (e : EvidenceRow) (c c' : Candidates) (p : UnorderedPair)
    (added : Option (Option String)) : Prop where
  edges : c'.edges[p]? = addToEdge e c.edges[p]? added
  pairKeys : c'.pairKeys[p]? = addToKeys e c.pairKeys[p]? added

theorem Adds.none (e : EvidenceRow) (c : Candidates) (p : UnorderedPair) : Adds e c c p none :=
  ⟨rfl, rfl⟩

/-- Of two changes one leaves the maps of the pair alone. -/
theorem Adds.then_none {c₁ c₂ c₃ : Candidates} {added : Option (Option String)}
    (hfirst : Adds e c₁ c₂ p added) (hrest : Adds e c₂ c₃ p Option.none) : Adds e c₁ c₃ p added :=
  ⟨hrest.edges.trans hfirst.edges, hrest.pairKeys.trans hfirst.pairKeys⟩

theorem Adds.none_then {c₁ c₂ c₃ : Candidates} {added : Option (Option String)}
    (hfirst : Adds e c₁ c₂ p Option.none) (hrest : Adds e c₂ c₃ p added) : Adds e c₁ c₃ p added :=
  ⟨hrest.edges.trans (congrArg (addToEdge e · added) hfirst.edges),
    hrest.pairKeys.trans (congrArg (addToKeys e · added) hfirst.pairKeys)⟩

/-- The maps with one pair changed. -/
theorem adds_alter {c' : Candidates} {pair : UnorderedPair}
    (hedges : c'.edges = c.edges.alter pair fun entry => addToEdge e entry (some via))
    (hkeys : c'.pairKeys = c.pairKeys.alter pair fun keys => addToKeys e keys (some via))
    (p : UnorderedPair) : Adds e c c' p (if p = pair then some via else none) := by
  by_cases hp : p = pair
  · subst hp
    rw [if_pos rfl]
    constructor
    · rw [hedges, Std.TreeMap.getElem?_alter_self]
    · rw [hkeys, Std.TreeMap.getElem?_alter_self]
  · have hne : ¬ compare pair p = .eq := by
      rw [Std.LawfulEqOrd.compare_eq_iff_eq]
      exact fun h => hp h.symm
    rw [if_neg hp]
    constructor
    · rw [hedges, Std.TreeMap.getElem?_alter, if_neg hne]
      rfl
    · rw [hkeys, Std.TreeMap.getElem?_alter, if_neg hne]
      rfl

theorem CandidatesOf.step {c' : Candidates} (h : CandidatesOf rows c)
    (hadds : ∀ p, Adds e c c' p (contribution rows e p))
    (hleaves : ∀ key leaf, (∃ leaves, c'.keyStar[key]? = some leaves ∧ leaf ∈ leaves) ↔
      (∃ leaves, c.keyStar[key]? = some leaves ∧ leaf ∈ leaves) ∨
        keyLeaf e = some (key, leaf)) : CandidatesOf (rows ++ [e]) c' := by
  constructor
  · intro p
    rw [(hadds p).edges, h.edges]
    cases hc : contribution rows e p with
    | none => rw [contributions_concat_of_none hc, addToEdge]
    | some via => rw [contributions_concat_of_some hc, edgeOf_concat, addToEdge]
  · intro p
    rw [(hadds p).pairKeys, h.pairKeys]
    cases hc : contribution rows e p with
    | none => rw [contributions_concat_of_none hc, addToKeys]
    | some via => rw [contributions_concat_of_some hc, keysOf_concat, addToKeys]
  · intro key leaf
    rw [hleaves, h.leaves, isLeaf_concat]

/-- One leaf of a star adds to the pair of the new leaf and itself. -/
theorem addLeafEdge_adds (key : String) {other : String} (hne : other ≠ leaf) (e : EvidenceRow)
    (c : Candidates) (p : UnorderedPair) :
    Adds e c (addLeafEdge key leaf e c other) p
      (if p = .new leaf other then some (some key) else none) := by
  unfold addLeafEdge
  rw [if_neg hne]
  exact adds_alter rfl rfl p

theorem keyStar_addLeafEdge (key leaf other : String) (e : EvidenceRow) (c : Candidates) :
    (addLeafEdge key leaf e c other).keyStar = c.keyStar := by
  unfold addLeafEdge
  split <;> rfl

/-- The leaves of a star, each with the new one. The pairs of two leaves are different, so each
is changed once. -/
theorem foldl_addLeafEdge_adds (key leaf : String) (e : EvidenceRow) {others : List String}
    (hnodup : others.Nodup) (c : Candidates) (p : UnorderedPair) :
    Adds e c (others.foldl (addLeafEdge key leaf e) c) p
      (if p = .new leaf (otherEnd p leaf) ∧ otherEnd p leaf ≠ leaf ∧ otherEnd p leaf ∈ others then
        some (some key) else none) := by
  induction others generalizing c with
  | nil => simpa using Adds.none e c p
  | cons other others ih =>
    rw [List.foldl_cons]
    obtain ⟨hfresh, hnodup⟩ := List.nodup_cons.mp hnodup
    by_cases hself : other = leaf
    · have hskip : addLeafEdge key leaf e c other = c := if_pos hself
      rw [hskip]
      have hcond : (p = .new leaf (otherEnd p leaf) ∧ otherEnd p leaf ≠ leaf ∧
          otherEnd p leaf ∈ other :: others) ↔ (p = .new leaf (otherEnd p leaf) ∧
          otherEnd p leaf ≠ leaf ∧ otherEnd p leaf ∈ others) := by
        rw [List.mem_cons, hself]
        tauto
      simp only [hcond]
      exact ih hnodup c
    · have hfirst := addLeafEdge_adds key hself e c p
      have hrest := ih hnodup (addLeafEdge key leaf e c other)
      by_cases hp : p = .new leaf other
      · -- this leaf's pair: the others leave it alone
        have hother : otherEnd p leaf = other := by rw [hp, otherEnd_new]
        rw [if_pos hp] at hfirst
        rw [if_neg (by rw [hother]; exact fun h => hfresh h.2.2)] at hrest
        rw [if_pos ⟨by rw [hother]; exact hp, by rw [hother]; exact hself,
          by rw [hother]; exact List.mem_cons_self⟩]
        exact hfirst.then_none hrest
      · rw [if_neg hp] at hfirst
        have hcond : (p = .new leaf (otherEnd p leaf) ∧ otherEnd p leaf ≠ leaf ∧
            otherEnd p leaf ∈ other :: others) ↔ (p = .new leaf (otherEnd p leaf) ∧
            otherEnd p leaf ≠ leaf ∧ otherEnd p leaf ∈ others) := by
          rw [List.mem_cons]
          constructor
          · rintro ⟨hpair, hne, rfl | hmem⟩
            · exact absurd hpair hp
            · exact ⟨hpair, hne, hmem⟩
          · rintro ⟨hpair, hne, hmem⟩
            exact ⟨hpair, hne, Or.inr hmem⟩
        simp only [hcond]
        exact hfirst.none_then hrest

theorem keyStar_foldl_addLeafEdge (key leaf : String) (e : EvidenceRow) (others : List String)
    (c : Candidates) : (others.foldl (addLeafEdge key leaf e) c).keyStar = c.keyStar := by
  induction others generalizing c with
  | nil => rfl
  | cons other others ih => rw [List.foldl_cons, ih, keyStar_addLeafEdge]

theorem addCandidateEdge_of_keyLeaf (h : keyLeaf e = some (key, leaf)) (c : Candidates) :
    addCandidateEdge c e =
      ((c.keyStar.getD key ∅).insert leaf).toList.foldl (addLeafEdge key leaf e)
        { c with keyStar := c.keyStar.insert key ((c.keyStar.getD key ∅).insert leaf) } := by
  unfold keyLeaf at h
  unfold addCandidateEdge
  split at h
  · rename_i hmixed
    obtain ⟨hkey, hleaf⟩ : (if isKeyNode e.leftRef then e.leftRef else e.rightRef) = key ∧
        (if isKeyNode e.leftRef then e.rightRef else e.leftRef) = leaf := by
      by_cases hl : isKeyNode e.leftRef = true
      · simpa [hl] using h
      · simpa [hl] using h
    simp only [hmixed, if_true, hkey, hleaf]
  · exact absurd h (by simp)

theorem nodup_toList (leaves : Std.TreeSet String) : leaves.toList.Nodup := by
  refine List.Pairwise.imp ?_ leaves.distinct_toList
  intro a b hne hab
  exact hne (compare_eq_iff_eq.mpr hab)

/-- The leaves of a star, as a set, are those of the rows. -/
theorem CandidatesOf.mem_star (h : CandidatesOf rows c) :
    leaf ∈ c.keyStar.getD key ∅ ↔ isLeaf rows key leaf = true := by
  rw [← h.leaves, Std.TreeMap.getD_eq_getD_getElem?]
  cases c.keyStar[key]? with
  | none => simp
  | some leaves => simp

/-- The step of the second pass for a row that ties a leaf to a key. -/
theorem CandidatesOf.addKeyed (h : CandidatesOf rows c) (hleaf : keyLeaf e = some (key, leaf)) :
    CandidatesOf (rows ++ [e]) (addCandidateEdge c e) := by
  rw [addCandidateEdge_of_keyLeaf hleaf]
  refine h.step ?_ ?_
  · intro p
    have hadds := foldl_addLeafEdge_adds key leaf e
      (nodup_toList ((c.keyStar.getD key ∅).insert leaf))
      { c with keyStar := c.keyStar.insert key ((c.keyStar.getD key ∅).insert leaf) } p
    have hcond : (p = .new leaf (otherEnd p leaf) ∧ otherEnd p leaf ≠ leaf ∧
        otherEnd p leaf ∈ ((c.keyStar.getD key ∅).insert leaf).toList) ↔
        (p = .new leaf (otherEnd p leaf) ∧ otherEnd p leaf ≠ leaf ∧
          isLeaf rows key (otherEnd p leaf) = true) := by
      rw [Std.TreeSet.mem_toList, Std.TreeSet.mem_insert, compare_eq_iff_eq, h.mem_star]
      constructor
      · rintro ⟨hp, hne, hself | hmem⟩
        · exact absurd hself.symm hne
        · exact ⟨hp, hne, hmem⟩
      · rintro ⟨hp, hne, hmem⟩
        exact ⟨hp, hne, Or.inr hmem⟩
    simp only [hcond] at hadds
    unfold contribution
    rw [hleaf]
    exact ⟨hadds.edges, hadds.pairKeys⟩
  · intro key' leaf'
    rw [keyStar_foldl_addLeafEdge]
    dsimp only
    rw [hleaf, Std.TreeMap.getElem?_insert, Option.some.injEq, Prod.mk.injEq]
    by_cases hkey : key = key'
    · subst hkey
      rw [if_pos (compare_eq_iff_eq.mpr rfl), h.leaves, ← h.mem_star]
      simp [Std.TreeSet.mem_insert, or_comm]
    · rw [if_neg (by rw [compare_eq_iff_eq]; exact hkey)]
      simp [hkey]

/-- The step of the second pass for a row between two members, or between two keys. -/
theorem CandidatesOf.addUnkeyed (h : CandidatesOf rows c) (hleaf : keyLeaf e = none) :
    CandidatesOf (rows ++ [e]) (addCandidateEdge c e) := by
  have hboth : isKeyNode e.leftRef = isKeyNode e.rightRef := by
    unfold keyLeaf at hleaf
    split at hleaf
    · exact absurd hleaf (by simp)
    · rename_i hsame
      simpa using hsame
  have hstar : (addCandidateEdge c e).keyStar = c.keyStar := by
    unfold addCandidateEdge
    simp only [hboth, bne_self_eq_false, Bool.false_eq_true, if_false]
    split <;> rfl
  refine h.step ?_ ?_
  · intro p
    unfold contribution addCandidateEdge
    rw [hleaf]
    cases hkey : isKeyNode e.rightRef with
    | true =>
      simp only [hboth, hkey, bne_self_eq_false, Bool.false_eq_true, if_false, Bool.and_self,
        if_true, Bool.not_true, Bool.false_and]
      exact Adds.none e c p
    | false =>
      simp only [hboth, hkey, bne_self_eq_false, Bool.false_eq_true, if_false, Bool.and_self,
        Bool.not_false, Bool.true_and, decide_eq_true_eq]
      exact adds_alter rfl rfl p
  · intro key leaf
    rw [hstar, hleaf]
    simp

/-- The step of the second pass. -/
theorem CandidatesOf.addCandidateEdge (h : CandidatesOf rows c) (e : EvidenceRow) :
    CandidatesOf (rows ++ [e]) (addCandidateEdge c e) := by
  cases hleaf : keyLeaf e with
  | some sides => exact h.addKeyed hleaf
  | none => exact h.addUnkeyed hleaf

/-- The maps after a run of the second pass. -/
theorem candidatesOf_foldl (rows : List EvidenceRow) :
    CandidatesOf rows (rows.foldl addCandidateEdge {}) := by
  induction rows using List.reverseRecOn with
  | nil => exact candidatesOf_nil
  | append_singleton rows e ih =>
    rw [List.foldl_append]
    exact ih.addCandidateEdge e

end Verity.Analysis
