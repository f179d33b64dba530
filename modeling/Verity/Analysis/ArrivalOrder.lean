import Verity.Analysis.EdgeBar

/-!
# The order in which evidence arrives

The fold goes through the rows by the time they became valid. The record of an edge keeps the
key node that came last and the first row of the lowest tier, and a row of a key node counts for
a pair only once both refs are leaves, so what is decided about a pair may depend on the order.

What the rows can contribute to a pair in any order is a set (`support`), taken without ids and
times. A pair is `OrderSettled` when this set leaves the order no choice, and
`settled_pairs_ignore_arrival` says that evidence whose pairs are all settled is folded to the
same aliases and canonicals whenever it arrived.
-/

set_option autoImplicit false

namespace Verity.Analysis

open Verity.Foundation Verity.Model

/-! ## Rows without ids and times -/

/-- The row without its id and the time from which it is valid. -/
def content (e : EvidenceRow) : EvidenceRow := { e with evidenceId := 0, validFrom := 0 }

/-- The same rows, up to ids and times. -/
def SameContent (rows rows' : List EvidenceRow) : Prop :=
  ∀ c, c ∈ rows.map content ↔ c ∈ rows'.map content

theorem SameContent.symm {rows rows' : List EvidenceRow} (h : SameContent rows rows') :
    SameContent rows' rows :=
  fun c => (h c).symm

/-- Each row has a counterpart. -/
theorem SameContent.exists_eq {rows rows' : List EvidenceRow} (h : SameContent rows rows')
    {e : EvidenceRow} (he : e ∈ rows) : ∃ e' ∈ rows', content e' = content e :=
  List.mem_map.mp ((h (content e)).mp (List.mem_map_of_mem he))

/-- What does not read ids and times is the same of two rows with one content. -/
theorem eq_of_content {β : Type} {f : EvidenceRow → β} (hf : ∀ e, f (content e) = f e)
    {e e' : EvidenceRow} (h : content e = content e') : f e = f e' := by
  rw [← hf e, h, hf]

theorem SameContent.filter {rows rows' : List EvidenceRow} (h : SameContent rows rows')
    {p : EvidenceRow → Bool} (hp : ∀ e, p (content e) = p e) :
    SameContent (rows.filter p) (rows'.filter p) := by
  have hsub : ∀ {rows rows' : List EvidenceRow}, SameContent rows rows' → ∀ c,
      c ∈ (rows.filter p).map content → c ∈ (rows'.filter p).map content := by
    intro rows rows' h c hc
    obtain ⟨e, he, rfl⟩ := List.mem_map.mp hc
    obtain ⟨he, hpe⟩ := List.mem_filter.mp he
    obtain ⟨e', he', hcontent⟩ := h.exists_eq he
    rw [← eq_of_content hp hcontent] at hpe
    exact List.mem_map.mpr ⟨e', List.mem_filter.mpr ⟨he', hpe⟩, hcontent⟩
  exact fun c => ⟨hsub h c, hsub h.symm c⟩

theorem SameContent.append {rows rows' others others' : List EvidenceRow}
    (h : SameContent rows rows') (hothers : SameContent others others') :
    SameContent (rows ++ others) (rows' ++ others') := by
  intro c
  rw [List.map_append, List.map_append, List.mem_append, List.mem_append, h c, hothers c]

theorem SameContent.any_eq {rows rows' : List EvidenceRow} (h : SameContent rows rows')
    {p : EvidenceRow → Bool} (hp : ∀ e, p (content e) = p e) : rows.any p = rows'.any p := by
  have hsub : ∀ {rows rows' : List EvidenceRow}, SameContent rows rows' →
      (∃ e ∈ rows, p e = true) → ∃ e ∈ rows', p e = true := by
    rintro rows rows' h ⟨e, he, hpe⟩
    obtain ⟨e', he', hcontent⟩ := h.exists_eq he
    exact ⟨e', he', (eq_of_content hp hcontent).trans hpe⟩
  rw [Bool.eq_iff_iff, List.any_eq_true, List.any_eq_true]
  exact ⟨hsub h, hsub h.symm⟩

/-- The tenant's rows, in order, of the same evidence. -/
theorem sameContent_workingOrder {live live' : List EvidenceRow} (h : SameContent live live')
    (config : FoldConfig) : SameContent (workingOrder config live) (workingOrder config live') := by
  have hmine : SameContent (live.filter fun e => e.tenantId = config.tenantId)
      (live'.filter fun e => e.tenantId = config.tenantId) := h.filter fun _ => rfl
  intro c
  unfold workingOrder
  simp only [List.mem_map, List.mem_insertionSort]
  simpa only [List.mem_map] using hmine c

theorem sameContent_edgeRows {evidence evidence' : List EvidenceRow}
    (h : SameContent evidence evidence') (config : FoldConfig) :
    SameContent (edgeRows config evidence) (edgeRows config evidence') := by
  have hconfirmed : humanConfirmed evidence = humanConfirmed evidence' := by
    funext pair
    exact h.any_eq fun _ => rfl
  unfold edgeRows
  rw [formsEdge_congr hconfirmed]
  exact (h.filter fun _ => rfl).append (h.filter fun _ => rfl)

/-! ## What the rows can contribute -/

/-- What the rows contribute to a pair in one order or another, without ids and times. -/
def support (rows : List EvidenceRow) (p : UnorderedPair) : Set Contribution :=
  {ct | ∃ e ∈ rows, ct.1 = content e ∧ contribution rows e p = some ct.2}

theorem SameContent.isLeaf_eq {rows rows' : List EvidenceRow} (h : SameContent rows rows')
    (key leaf : String) : isLeaf rows key leaf = isLeaf rows' key leaf :=
  h.any_eq fun _ => rfl

theorem SameContent.contribution_eq {rows rows' : List EvidenceRow} (h : SameContent rows rows')
    {e e' : EvidenceRow} (hcontent : content e = content e') (p : UnorderedPair) :
    contribution rows e p = contribution rows' e' p := by
  have hleaf : isLeaf rows = isLeaf rows' := by
    funext key leaf
    exact h.isLeaf_eq key leaf
  have hrow : contribution rows e p = contribution rows e' p :=
    eq_of_content (f := fun e => contribution rows e p) (fun _ => rfl) hcontent
  rw [hrow]
  unfold contribution
  rw [hleaf]

theorem SameContent.support_eq {rows rows' : List EvidenceRow} (h : SameContent rows rows')
    (p : UnorderedPair) : support rows p = support rows' p := by
  have hsub : ∀ {rows rows' : List EvidenceRow}, SameContent rows rows' →
      support rows p ⊆ support rows' p := by
    rintro rows rows' h ct ⟨e, he, hct, hc⟩
    obtain ⟨e', he', hcontent⟩ := h.exists_eq he
    refine ⟨e', he', hct.trans hcontent.symm, ?_⟩
    rw [← h.contribution_eq hcontent.symm]
    exact hc
  exact Set.Subset.antisymm (hsub h) (hsub h.symm)

theorem SameContent.fansOut_eq {rows rows' : List EvidenceRow} (h : SameContent rows rows') :
    fansOut rows = fansOut rows' := by
  funext key
  rw [Bool.eq_iff_iff]
  constructor
  · exact fansOut_mono fun leaf hleaf => h.isLeaf_eq key leaf ▸ hleaf
  · exact fansOut_mono fun leaf hleaf => (h.isLeaf_eq key leaf).symm ▸ hleaf

/-! ## What is contributed in some order -/

section Contributed

variable {rows : List EvidenceRow} {p : UnorderedPair}

theorem mem_support_of_contributions {ct : Contribution} (h : ct ∈ contributions rows p) :
    (content ct.1, ct.2) ∈ support rows p := by
  obtain ⟨he, hc⟩ := of_mem_contributions h
  exact ⟨ct.1, he, rfl, hc⟩

/-- A row about the pair always contributes. -/
theorem exists_direct_of_support {c : EvidenceRow} (h : (c, none) ∈ support rows p) :
    ∃ e, content e = c ∧ (e, none) ∈ contributions rows p := by
  obtain ⟨e, he, rfl, hc⟩ := h
  refine ⟨e, rfl, ?_⟩
  rcases contribution_eq_some_iff.mp hc with ⟨-, hdirect⟩ | ⟨key, -, -, hvia, -⟩
  · clear hc
    induction rows using List.reverseRecOn with
    | nil => exact absurd he List.not_mem_nil
    | append_singleton rows r ih =>
      rcases List.mem_append.mp he with he | he
      · cases hr : contribution rows r p with
        | none =>
          rw [contributions_concat_of_none hr]
          exact ih he
        | some via =>
          rw [contributions_concat_of_some hr]
          exact List.mem_append_left _ (ih he)
      · obtain rfl := List.mem_singleton.mp he
        rw [contributions_concat_of_some
          (contribution_eq_some_iff.mpr (Or.inl ⟨rfl, hdirect⟩))]
        exact List.mem_append_right _ (List.mem_singleton.mpr rfl)
  · exact absurd hvia (by simp)

/-- Of the rows of a key that the refs share, the one that makes the second of them a leaf
contributes. -/
theorem exists_keyed_of_leaves {key a b : String} (hne : b ≠ a) (hp : p = .new a b)
    (ha : isLeaf rows key a = true) (hb : isLeaf rows key b = true) :
    ∃ e, (e, some key) ∈ contributions rows p := by
  induction rows using List.reverseRecOn with
  | nil => exact absurd ha (by simp [isLeaf])
  | append_singleton rows r ih =>
    have hkept : (∃ e, (e, some key) ∈ contributions rows p) →
        ∃ e, (e, some key) ∈ contributions (rows ++ [r]) p := by
      rintro ⟨e, he⟩
      cases hr : contribution rows r p with
      | none =>
        rw [contributions_concat_of_none hr]
        exact ⟨e, he⟩
      | some via =>
        rw [contributions_concat_of_some hr]
        exact ⟨e, List.mem_append_left _ he⟩
    have hnew : ∀ {leaf other}, keyLeaf r = some (key, leaf) → p = .new leaf other →
        other ≠ leaf → isLeaf rows key other = true →
        ∃ e, (e, some key) ∈ contributions (rows ++ [r]) p := by
      intro leaf other hleaf hpair hdistinct hother
      rw [contributions_concat_of_some (contribution_eq_some_iff.mpr
        (Or.inr ⟨key, leaf, other, rfl, hleaf, hpair, hdistinct, hother⟩))]
      exact ⟨r, List.mem_append_right _ (List.mem_singleton.mpr rfl)⟩
    rcases (isLeaf_concat rows r key a).mp ha with ha | ha
    · rcases (isLeaf_concat rows r key b).mp hb with hb | hb
      · exact hkept (ih ha hb)
      · exact hnew hb (hp.trans (UnorderedPair.new_comm a b)) hne.symm ha
    · rcases (isLeaf_concat rows r key b).mp hb with hb | hb
      · exact hnew ha hp hne hb
      · rw [ha] at hb
        exact absurd (Prod.mk.inj (Option.some.inj hb)).2.symm hne

theorem exists_keyed_of_support {c : EvidenceRow} {key : String}
    (h : (c, some key) ∈ support rows p) : ∃ e, (e, some key) ∈ contributions rows p := by
  obtain ⟨e, he, -, hc⟩ := h
  rcases contribution_eq_some_iff.mp hc with
    ⟨hvia, -⟩ | ⟨key', leaf, other, hvia, hleaf, hp, hne, hother⟩
  · exact absurd hvia (by simp)
  · obtain rfl := Option.some.inj hvia
    exact exists_keyed_of_leaves hne hp (isLeaf_eq_true.mpr ⟨e, he, hleaf⟩) hother

theorem support_nonempty_iff : (support rows p).Nonempty ↔ contributions rows p ≠ [] := by
  constructor
  · rintro ⟨⟨c, via⟩, hct⟩ hnil
    cases via with
    | none =>
      obtain ⟨e, -, he⟩ := exists_direct_of_support hct
      rw [hnil] at he
      exact absurd he List.not_mem_nil
    | some key =>
      obtain ⟨e, he⟩ := exists_keyed_of_support hct
      rw [hnil] at he
      exact absurd he List.not_mem_nil
  · intro hne
    obtain ⟨ct, hct⟩ := List.exists_mem_of_ne_nil _ hne
    exact ⟨_, mem_support_of_contributions hct⟩

end Contributed

/-! ## Settled pairs -/

/-- The refs of the pair share the key. -/
def SharesKey (S : Set Contribution) (key : String) : Prop := ∃ e, (e, some key) ∈ S

/-- One of the rows of the lowest tier. -/
def Lowest (S : Set Contribution) (ct : Contribution) : Prop :=
  ct ∈ S ∧ ∀ ct' ∈ S, ct.1.tier ≤ ct'.1.tier

/-- What supports the pair is enough, taken as a whole. -/
def Reaches (config : FoldConfig) (confirmed : Bool) (S : Set Contribution) : Prop :=
  confirmed = true ∨ (∃ ct ∈ S, strongMethod ct.1.method = true) ∨
    ∃ ct, Lowest S ct ∧ barOf config ct.1 ≤ asI16 (contributedKey '' S).ncard

/-- The order of the rows has no say in whether the bar is reached: a human confirmed the pair,
or a row about the pair is strong, or all rows of a shared key are; or none is strong, the rows of
each shared key agree on tier and key, and all rows of the lowest tier ask for the same number of
keys. -/
inductive BarSettled (config : FoldConfig) (confirmed : Bool) (S : Set Contribution) : Prop
  | human (h : confirmed = true)
  | strongRow (e : EvidenceRow) (h : (e, none) ∈ S) (hstrong : strongMethod e.method = true)
  | strongKey (key : String) (h : SharesKey S key)
      (hstrong : ∀ e, (e, some key) ∈ S → strongMethod e.method = true)
  | weak (hweak : ∀ ct ∈ S, strongMethod ct.1.method = false)
      (halike : ∀ key e e', (e, some key) ∈ S → (e', some key) ∈ S →
        e.tier = e'.tier ∧ contributedKey (e, some key) = contributedKey (e', some key))
      (hbar : ∀ ct ct', Lowest S ct → Lowest S ct' → barOf config ct.1 = barOf config ct'.1)

/-- The order of the rows has no say in the decision about the pair: the refs share keys and all
of them fan out; or the bar is settled, and no shared key fans out or the bar is not reached. -/
inductive OrderSettled (config : FoldConfig) (confirmed : Bool) (fans : String → Bool)
    (S : Set Contribution) : Prop
  | suppressed (key : String) (h : SharesKey S key)
      (hall : ∀ key, SharesKey S key → fans key = true)
  | even (hbar : BarSettled config confirmed S) (hnone : ∀ key, SharesKey S key → fans key = false)
  | short (hbar : BarSettled config confirmed S) (hshort : ¬ Reaches config confirmed S)

section Decision

variable {config : FoldConfig} {confirmed : Bool} {rows : List EvidenceRow} {p : UnorderedPair}

theorem barOf_content (config : FoldConfig) (e : EvidenceRow) :
    barOf config (content e) = barOf config e := rfl

theorem strongIn_of_mem {cts : List Contribution} {ct : Contribution} (h : ct ∈ cts)
    (hstrong : strongMethod ct.1.method = true) : strongIn cts = true :=
  List.any_eq_true.mpr ⟨ct, h, hstrong⟩

/-- Something strong, or a confirmation, is enough when there is any contribution at all. -/
theorem clearsBar_iff_ne_nil {cts : List Contribution}
    (h : strongIn cts = true ∨ confirmed = true) : ClearsBar config confirmed cts ↔ cts ≠ [] := by
  constructor
  · rintro ⟨e, hdominant, -⟩ rfl
    exact absurd hdominant (by simp [dominantRow])
  · intro hne
    cases hdominant : dominantRow cts with
    | none => exact absurd (dominantRow_eq_none.mp hdominant) hne
    | some e => exact ⟨e, hdominant, h.imp_right Or.inl⟩

/-- With no strong row and rows alike for each key, the contributions in any order have the keys
of all the rows. -/
theorem distinctKeys_eq_of_alike
    (halike : ∀ key e e', (e, some key) ∈ support rows p → (e', some key) ∈ support rows p →
      e.tier = e'.tier ∧ contributedKey (e, some key) = contributedKey (e', some key)) :
    distinctKeys (contributions rows p) = (contributedKey '' support rows p).ncard := by
  have hset : contributedKey '' support rows p =
      ↑((contributions rows p).map contributedKey).toFinset := by
    ext k
    rw [List.coe_toFinset, Set.mem_ofPred_eq, List.mem_map]
    constructor
    · rintro ⟨⟨c, via⟩, hct, rfl⟩
      cases via with
      | none =>
        obtain ⟨e, rfl, he⟩ := exists_direct_of_support hct
        exact ⟨_, he, rfl⟩
      | some key =>
        obtain ⟨e, he⟩ := exists_keyed_of_support hct
        exact ⟨_, he, (halike key _ _ (mem_support_of_contributions he) hct).2⟩
    · rintro ⟨⟨e, via⟩, he, rfl⟩
      refine ⟨_, mem_support_of_contributions he, ?_⟩
      cases via <;> rfl
  rw [hset, Set.ncard_coe_finset, List.card_toFinset]
  rfl

/-- With rows alike for each key, the dominant row in any order is of the lowest tier of all. -/
theorem lowest_of_dominantRow
    (halike : ∀ key e e', (e, some key) ∈ support rows p → (e', some key) ∈ support rows p →
      e.tier = e'.tier ∧ contributedKey (e, some key) = contributedKey (e', some key))
    {e : EvidenceRow} (h : dominantRow (contributions rows p) = some e) :
    ∃ via, Lowest (support rows p) (content e, via) := by
  obtain ⟨⟨via, he⟩, hlow⟩ := dominantRow_eq_some h
  refine ⟨via, mem_support_of_contributions he, ?_⟩
  rintro ⟨c, via'⟩ hct
  cases via' with
  | none =>
    obtain ⟨e', rfl, he'⟩ := exists_direct_of_support hct
    have hle : e.tier ≤ e'.tier := hlow _ he'
    exact hle
  | some key =>
    obtain ⟨e', he'⟩ := exists_keyed_of_support hct
    have htier := (halike key _ _ (mem_support_of_contributions he') hct).1
    exact (hlow _ he').trans (le_of_eq htier)

/-- A settled bar is cleared if and only if the support as a whole reaches it. -/
theorem clearsBar_iff_reaches (h : BarSettled config confirmed (support rows p)) :
    ClearsBar config confirmed (contributions rows p) ↔
      (support rows p).Nonempty ∧ Reaches config confirmed (support rows p) := by
  rw [support_nonempty_iff]
  cases h with
  | human hconfirmed =>
    rw [clearsBar_iff_ne_nil (Or.inr hconfirmed)]
    exact (and_iff_left (Or.inl hconfirmed)).symm
  | strongRow c hc hstrong =>
    obtain ⟨e, rfl, he⟩ := exists_direct_of_support hc
    rw [clearsBar_iff_ne_nil (Or.inl (strongIn_of_mem he hstrong))]
    exact (and_iff_left (Or.inr (Or.inl ⟨_, hc, hstrong⟩))).symm
  | strongKey key hshared hstrong =>
    obtain ⟨c, hc⟩ := hshared
    obtain ⟨e, he⟩ := exists_keyed_of_support hc
    have hmem : (content e, some key) ∈ support rows p := mem_support_of_contributions he
    have hrow : strongMethod e.method = true := hstrong (content e) hmem
    rw [clearsBar_iff_ne_nil (Or.inl (strongIn_of_mem he hrow))]
    exact (and_iff_left (Or.inr (Or.inl ⟨_, hmem, hrow⟩))).symm
  | weak hweak halike hbar =>
    have hnone : ¬ strongIn (contributions rows p) = true := by
      intro hstrong
      obtain ⟨ct, hct, hstrong⟩ := List.any_eq_true.mp hstrong
      have := hweak _ (mem_support_of_contributions hct)
      exact absurd (this.symm.trans hstrong) (by simp)
    unfold ClearsBar Reaches
    rw [distinctKeys_eq_of_alike halike]
    constructor
    · rintro ⟨e, hdominant, hstrong | hconfirmed | henough⟩
      · exact absurd hstrong hnone
      · refine ⟨fun hnil => ?_, Or.inl hconfirmed⟩
        rw [hnil] at hdominant
        exact absurd hdominant (by simp [dominantRow])
      · obtain ⟨via, hlow⟩ := lowest_of_dominantRow halike hdominant
        rw [← barOf_content] at henough
        exact ⟨support_nonempty_iff.mp ⟨_, hlow.1⟩, Or.inr (Or.inr ⟨_, hlow, henough⟩)⟩
    · rintro ⟨hne, hreach⟩
      cases hdominant : dominantRow (contributions rows p) with
      | none => exact absurd (dominantRow_eq_none.mp hdominant) hne
      | some e =>
        refine ⟨e, rfl, Or.inr ?_⟩
        rcases hreach with hconfirmed | ⟨ct, hct, hstrong⟩ | ⟨ct, hlow, henough⟩
        · exact Or.inl hconfirmed
        · exact absurd ((hweak ct hct).symm.trans hstrong) (by simp)
        · obtain ⟨via, hlow'⟩ := lowest_of_dominantRow halike hdominant
          rw [← barOf_content, hbar _ _ hlow' hlow]
          exact Or.inr henough

end Decision

/-- The decision about a pair, taken as a whole. -/
def Joins (config : FoldConfig) (confirmed : Bool) (fans : String → Bool) (S : Set Contribution) :
    Prop :=
  S.Nonempty ∧ Reaches config confirmed S ∧ ∀ key, SharesKey S key → fans key = false

/-- The fold decides about a settled pair by its support alone. -/
theorem mem_unitedPairs_of_settled {config : FoldConfig} {evidence : List EvidenceRow}
    {a b : String}
    (h : OrderSettled config (humanConfirmed evidence ⟨a, b⟩) (fansOut (edgeRows config evidence))
      (support (edgeRows config evidence) ⟨a, b⟩)) :
    (a, b) ∈ unitedPairs config evidence ↔
      Joins config (humanConfirmed evidence ⟨a, b⟩) (fansOut (edgeRows config evidence))
        (support (edgeRows config evidence) ⟨a, b⟩) := by
  rw [mem_unitedPairs_iff]
  unfold Joins
  cases h with
  | suppressed key hshared hall =>
    refine iff_of_false ?_ ?_
    · rintro ⟨-, hlast⟩
      obtain ⟨c, hc⟩ := hshared
      obtain ⟨e, he⟩ := exists_keyed_of_support hc
      cases hkey : lastKey (contributions (edgeRows config evidence) ⟨a, b⟩) with
      | none => exact absurd (lastKey_eq_none hkey _ he) (by simp)
      | some key' =>
        obtain ⟨⟨e', via⟩, hct, rfl⟩ := mem_of_lastKey hkey
        rw [hkey, Option.any_some,
          hall key' ⟨_, mem_support_of_contributions hct⟩] at hlast
        exact absurd hlast (by simp)
    · rintro ⟨-, -, hnone⟩
      exact absurd ((hall key hshared).symm.trans (hnone key hshared)) (by simp)
  | even hbar hnone =>
    have hlast : (lastKey (contributions (edgeRows config evidence) ⟨a, b⟩)).any
        (fansOut (edgeRows config evidence)) = false := by
      cases hkey : lastKey (contributions (edgeRows config evidence) ⟨a, b⟩) with
      | none => rfl
      | some key =>
        obtain ⟨⟨e, via⟩, hct, rfl⟩ := mem_of_lastKey hkey
        exact hnone key ⟨_, mem_support_of_contributions hct⟩
    rw [clearsBar_iff_reaches hbar, hlast]
    constructor
    · rintro ⟨⟨hne, hreach⟩, -⟩
      exact ⟨hne, hreach, hnone⟩
    · rintro ⟨hne, hreach, -⟩
      exact ⟨⟨hne, hreach⟩, rfl⟩
  | short hbar hshort =>
    rw [clearsBar_iff_reaches hbar]
    refine iff_of_false ?_ ?_
    · rintro ⟨⟨-, hreach⟩, -⟩
      exact hshort hreach
    · rintro ⟨-, hreach, -⟩
      exact hshort hreach

/-! ## Two arrivals of the same evidence -/

/-- The order of the evidence has no say in the decision about two refs. -/
def PairSettled (config : FoldConfig) (evidence : List EvidenceRow) (a b : String) : Prop :=
  OrderSettled config (humanConfirmed evidence ⟨a, b⟩) (fansOut (edgeRows config evidence))
    (support (edgeRows config evidence) ⟨a, b⟩)

/-- Evidence whose pairs are all settled is folded to the same aliases and canonicals, whatever
the times and ids of its rows. -/
theorem settled_pairs_ignore_arrival (live live' : List EvidenceRow) (config : FoldConfig)
    (hsame : SameContent live live')
    (hsettled : ∀ a b, a ≠ b → PairSettled config (workingOrder config live) a b) :
    SameMerges (fold live config) (fold live' config) := by
  have hevidence := sameContent_workingOrder hsame config
  have hrows := sameContent_edgeRows hevidence config
  have hconfirmed : humanConfirmed (workingOrder config live) =
      humanConfirmed (workingOrder config live') := by
    funext pair
    exact hevidence.any_eq fun _ => rfl
  have hunited : ∀ a b, a ≠ b → ((a, b) ∈ unitedPairs config (workingOrder config live) ↔
      (a, b) ∈ unitedPairs config (workingOrder config live')) := by
    intro a b hne
    have hpair := hsettled a b hne
    have hpair' : PairSettled config (workingOrder config live') a b := by
      unfold PairSettled at hpair ⊢
      rwa [← hconfirmed, ← hrows.fansOut_eq, ← hrows.support_eq]
    rw [mem_unitedPairs_of_settled hpair, mem_unitedPairs_of_settled hpair', hconfirmed,
      hrows.fansOut_eq, hrows.support_eq]
  have hlinked : ∀ x y, Linked config (workingOrder config live) x y ↔
      Linked config (workingOrder config live') x y := by
    intro x y
    constructor
    · exact Connected.mono fun e he hne => (hunited e.1 e.2 hne).mp he
    · exact Connected.mono fun e he hne => (hunited e.1 e.2 hne).mpr he
  refine sameMerges_of_groups [] [] ?_ ?_
  · intro x m _
    unfold groupOf
    simp only [hlinked]
  · intro x m _ _
    have hsub : ∀ {evidence evidence' : List EvidenceRow}, SameContent evidence evidence' →
        (∀ x y, Linked config evidence x y → Linked config evidence' x y) →
        AntiLinked config evidence x → AntiLinked config evidence' x := by
      rintro evidence evidence' hcontents hlinks ⟨e, he, hanti, hl, hr⟩
      obtain ⟨e', he', hcontent⟩ := hcontents.exists_eq he
      have hleft := eq_of_content (f := EvidenceRow.leftRef) (fun _ => rfl) hcontent
      have hright := eq_of_content (f := EvidenceRow.rightRef) (fun _ => rfl) hcontent
      have hanti' := eq_of_content (f := EvidenceRow.isAntiLink) (fun _ => rfl) hcontent
      exact ⟨e', he', hanti'.trans hanti, hlinks _ _ (hleft ▸ hl), hlinks _ _ (hright ▸ hr)⟩
    exact ⟨hsub hevidence fun x y => (hlinked x y).mp,
      hsub hevidence.symm fun x y => (hlinked x y).mpr⟩

/-- A foreign key between two accounts, from a given time on. -/
def foreignKeyAt (time : Time) : List EvidenceRow :=
  [⟨1, 7, "salesforce:1", "hubspot:2", 1, "crm_fk", none, none, 1, time, none⟩]

/-- A strong row settles the only pair that there is. -/
theorem foreign_key_ignores_arrival :
    SameMerges (fold (foreignKeyAt 10) (.defaults 7)) (fold (foreignKeyAt 20) (.defaults 7)) := by
  refine settled_pairs_ignore_arrival _ _ _ (fun c => Iff.rfl) ?_
  intro a b _
  have hrows : edgeRows (.defaults 7) (workingOrder (.defaults 7) (foreignKeyAt 10)) =
      foreignKeyAt 10 := by decide +kernel
  unfold PairSettled
  rw [hrows]
  have honly : ∀ ct ∈ support (foreignKeyAt 10) ⟨a, b⟩,
      ct.2 = none ∧ strongMethod ct.1.method = true := by
    rintro ct ⟨e, he, hct, hc⟩
    obtain rfl := List.mem_singleton.mp he
    rcases contribution_eq_some_iff.mp hc with ⟨hvia, -⟩ | ⟨key, leaf, other, -, hleaf, -⟩
    · exact ⟨hvia, by rw [hct]; decide⟩
    · have hnone : keyLeaf ⟨1, 7, "salesforce:1", "hubspot:2", 1, "crm_fk", none, none, 1, 10,
          none⟩ = none := by decide +kernel
      exact absurd (hnone.symm.trans hleaf) (by simp)
  have hnokey : ∀ key, SharesKey (support (foreignKeyAt 10) ⟨a, b⟩) key →
      fansOut (foreignKeyAt 10) key = false := by
    rintro key ⟨e, he⟩
    exact absurd (honly _ he).1 (by simp)
  refine .even ?_ hnokey
  by_cases hsome : (support (foreignKeyAt 10) ⟨a, b⟩).Nonempty
  · obtain ⟨⟨c, via⟩, hct⟩ := hsome
    obtain ⟨hvia, hstrong⟩ := honly _ hct
    obtain rfl : via = none := hvia
    exact .strongRow c hct hstrong
  · have hempty : ∀ ct, ct ∉ support (foreignKeyAt 10) ⟨a, b⟩ := fun ct hct => hsome ⟨ct, hct⟩
    exact .weak (fun ct hct => absurd hct (hempty ct)) (fun key e e' he => absurd he (hempty _))
      fun ct ct' hlow => absurd hlow.1 (hempty ct)

/-- A domain at three accounts, and an address that two of them share from a given time on. -/
def domainAndEmail (emailFrom : Time) : List EvidenceRow :=
  [⟨1, 7, "salesforce:1", "key:domain:acme.com", 1, "domain_match", some "acme.com", none, 1, 20,
      none⟩,
    ⟨2, 7, "hubspot:2", "key:domain:acme.com", 1, "domain_match", some "acme.com", none, 1, 21,
      none⟩,
    ⟨3, 7, "linear:3", "key:domain:acme.com", 1, "domain_match", some "acme.com", none, 1, 22,
      none⟩,
    ⟨4, 7, "salesforce:1", "key:email:jo@acme.com", 1, "email_exact", some "jo@acme.com", none, 1,
      emailFrom, none⟩,
    ⟨5, 7, "hubspot:2", "key:email:jo@acme.com", 1, "email_exact", some "jo@acme.com", none, 1,
      emailFrom, none⟩]

/-- The two accounts are merged when the address was seen after the domain, and not when it was
seen before it. -/
theorem email_before_domain_merges_nothing :
    (domainAndEmail 10).map content = (domainAndEmail 30).map content ∧
      ((domainAndEmail 10).map EvidenceRow.evidenceId).Nodup ∧
      ((domainAndEmail 30).map EvidenceRow.evidenceId).Nodup ∧
      (fold (domainAndEmail 10) (.defaults 7)).aliases = [] ∧
      (fold (domainAndEmail 30) (.defaults 7)).aliases =
        [⟨"hubspot", "2", "canon:hubspot:2"⟩, ⟨"salesforce", "1", "canon:hubspot:2"⟩] ∧
      ¬ SameMerges (fold (domainAndEmail 10) (.defaults 7))
        (fold (domainAndEmail 30) (.defaults 7)) := by
  have hbefore : (fold (domainAndEmail 10) (.defaults 7)).aliases = [] := by decide +kernel
  have hafter : (fold (domainAndEmail 30) (.defaults 7)).aliases =
      [⟨"hubspot", "2", "canon:hubspot:2"⟩, ⟨"salesforce", "1", "canon:hubspot:2"⟩] := by
    decide +kernel
  refine ⟨rfl, by decide, by decide, hbefore, hafter, ?_⟩
  rintro ⟨haliases, -⟩
  rw [hbefore, hafter] at haliases
  exact absurd haliases (by simp)

end Verity.Analysis
