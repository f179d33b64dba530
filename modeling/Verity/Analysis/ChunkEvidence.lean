import Verity.Analysis.KeySuppression

/-!
# Evidence about chunks

A row with a chunk on one side is meant to tag the chunk. A chunk is no key node, so the second
pass takes it for a member all the same: it is a node of the graph, a leaf of a key, and a ref
that an anti-link may name. A chunk that two refs are tied to ties them to each other.

A chunk hangs on one ref (`HangsOn`) when all rows that form edges and name it are about that one
ref. Such a chunk can be taken out of the graph without separating or joining anything else
(`linked_avoiding_iff`), and `hanging_chunks_merge_nothing` says that rows about chunks leave the
aliases and the canonicals alone when the chunks they draw into the graph hang on one ref each and
no anti-link is about them.
-/

set_option autoImplicit false

namespace Verity.Analysis

open Verity.Foundation Verity.Model

variable {x s : String} {e : EvidenceRow} {live chunkRows : List EvidenceRow}

/-- The row has the ref on a side. -/
def names (ref : String) (e : EvidenceRow) : Prop := e.leftRef = ref ∨ e.rightRef = ref

instance (ref : String) (e : EvidenceRow) : Decidable (names ref e) :=
  inferInstanceAs (Decidable (_ ∨ _))

/-- The row has a chunk on a side. -/
def HasChunk (e : EvidenceRow) : Prop := isChunkRef e.leftRef = true ∨ isChunkRef e.rightRef = true

theorem isKeyNode_of_isChunkRef {ref : String} (h : isChunkRef ref = true) :
    isKeyNode ref = false := by
  unfold isChunkRef at h
  rw [decide_eq_true_eq] at h
  obtain ⟨rest, hrest⟩ := h
  unfold isKeyNode
  rw [decide_eq_false_iff_not]
  rintro ⟨rest', hrest'⟩
  rw [← hrest] at hrest'
  exact absurd (List.cons.inj hrest').1 (by decide)

theorem isChunkRef_of_splitMemberRef {m : MemberRef} (h : splitMemberRef x = some m) :
    isChunkRef x = false := by
  unfold splitMemberRef at h
  by_contra hchunk
  rw [Bool.not_eq_false] at hchunk
  simp [hchunk] at h

/-! ## Refs that hang on one other -/

/-- Every one of the refs has one other ref that all rows that form edges and name it are about;
none of these is a key node or one of the refs itself. -/
structure HangsOn (config : FoldConfig) (evidence : List EvidenceRow) (refs : String → Bool)
    (other : String → String) : Prop where
  not_key : ∀ s, refs s = true → isKeyNode s = false
  other_not_key : ∀ s, refs s = true → isKeyNode (other s) = false
  other_apart : ∀ s, refs s = true → refs (other s) = false
  pair_eq : ∀ s, refs s = true → ∀ e ∈ edgeRows config evidence, names s e →
    e.pair = .new s (other s)

section Hanging

variable {config : FoldConfig} {evidence : List EvidenceRow} {refs : String → Bool}
  {other : String → String} (h : HangsOn config evidence refs other)
include h

/-- A row that names one of the refs is about two refs and no key node. -/
theorem HangsOn.keyLeaf_eq_none (hs : refs s = true) (he : e ∈ edgeRows config evidence)
    (hnames : names s e) : keyLeaf e = none := by
  have hpair := h.pair_eq s hs e he hnames
  have hleft : isKeyNode e.leftRef = false ∧ isKeyNode e.rightRef = false := by
    rcases UnorderedPair.new_eq_iff.mp hpair with ⟨hl, hr⟩ | ⟨hl, hr⟩
    · exact ⟨hl ▸ h.not_key s hs, hr ▸ h.other_not_key s hs⟩
    · exact ⟨hl ▸ h.other_not_key s hs, hr ▸ h.not_key s hs⟩
  simp [keyLeaf, hleft]

/-- The rows of a key node name none of the refs. -/
theorem HangsOn.avoids_of_keyLeaf (he : e ∈ edgeRows config evidence) {key leaf : String}
    (hleaf : keyLeaf e = some (key, leaf)) : avoids refs e = true := by
  have hfree : ∀ {s}, names s e → refs s = false := by
    intro s hnames
    by_contra hs
    rw [Bool.not_eq_false] at hs
    rw [h.keyLeaf_eq_none hs he hnames] at hleaf
    exact absurd hleaf (by simp)
  unfold avoids
  rw [hfree (Or.inl rfl), hfree (Or.inr rfl)]
  rfl

/-- What contributes to a pair of other refs does not name one of the refs. -/
theorem HangsOn.contributions_avoiding {p : UnorderedPair} (ha : refs p.a = false)
    (hb : refs p.b = false) :
    contributions (edgeRows config (evidence.filter (avoids refs))) p =
      contributions (edgeRows config evidence) p := by
  rw [edgeRows_filter config (fun e e' => avoids_congr refs), contributions_filter,
    List.filter_eq_self]
  · intro ct hct
    obtain ⟨he, hc⟩ := of_mem_contributions hct
    rcases contribution_eq_some_iff.mp hc with ⟨-, -, -, rfl⟩ | ⟨key, leaf, -, -, hleaf, -⟩
    · exact avoids_of_pair ha hb
    · exact h.avoids_of_keyLeaf he hleaf
  · intro e he e' he' key leaf leaf' hleaf hleaf'
    rw [h.avoids_of_keyLeaf he hleaf, h.avoids_of_keyLeaf he' hleaf']

theorem HangsOn.fansOut_avoiding :
    fansOut (edgeRows config (evidence.filter (avoids refs))) =
      fansOut (edgeRows config evidence) := by
  rw [edgeRows_filter config (fun e e' => avoids_congr refs)]
  funext key
  rw [Bool.eq_iff_iff]
  constructor
  · refine fansOut_mono fun leaf hleaf => ?_
    obtain ⟨e, he, hstar⟩ := isLeaf_eq_true.mp hleaf
    exact isLeaf_eq_true.mpr ⟨e, (List.mem_filter.mp he).1, hstar⟩
  · refine fansOut_mono fun leaf hleaf => ?_
    obtain ⟨e, he, hstar⟩ := isLeaf_eq_true.mp hleaf
    exact isLeaf_eq_true.mpr
      ⟨e, List.mem_filter.mpr ⟨he, h.avoids_of_keyLeaf he hstar⟩, hstar⟩

/-- A pair of other refs is decided the same without the rows that name one of the refs. -/
theorem HangsOn.mem_unitedPairs_avoiding {a b : String} (ha : refs a = false)
    (hb : refs b = false) :
    (a, b) ∈ unitedPairs config (evidence.filter (avoids refs)) ↔
      (a, b) ∈ unitedPairs config evidence := by
  rw [mem_unitedPairs_iff, mem_unitedPairs_iff, h.fansOut_avoiding,
    h.contributions_avoiding (p := ⟨a, b⟩) ha hb,
    humanConfirmed_avoiding evidence (p := ⟨a, b⟩) ha hb]

/-- The only edge of one of the refs goes to its other ref. -/
theorem HangsOn.eq_of_edge {b : String} (hs : refs s = true) {p : UnorderedPair} (hp : p = .new s b)
    (hne : contributions (edgeRows config evidence) p ≠ []) : b = other s := by
  obtain ⟨ct, hct⟩ := List.exists_mem_of_ne_nil _ hne
  obtain ⟨he, hc⟩ := of_mem_contributions hct
  have hstar : ∀ {e key leaf}, e ∈ edgeRows config evidence → keyLeaf e = some (key, leaf) →
      leaf ≠ s := by
    rintro e key leaf he hleaf rfl
    have hnames : names leaf e := by
      rcases keyLeaf_refs hleaf with ⟨_, hr⟩ | ⟨hl, _⟩
      · exact Or.inr hr
      · exact Or.inl hl
    rw [h.keyLeaf_eq_none hs he hnames] at hleaf
    exact absurd hleaf (by simp)
  rcases contribution_eq_some_iff.mp hc with
    ⟨-, -, -, hdirect⟩ | ⟨key, leaf, other', -, hleaf, hkeyed, -, hother⟩
  · have hnames : names s ct.1 := by
      rcases UnorderedPair.new_eq_iff.mp (hdirect.symm.trans hp) with ⟨hl, _⟩ | ⟨_, hr⟩
      · exact Or.inl hl
      · exact Or.inr hr
    have hpair := (hp.symm.trans hdirect).trans (h.pair_eq s hs ct.1 he hnames)
    rcases UnorderedPair.new_eq_iff.mp hpair with ⟨_, hb⟩ | ⟨hs', hb⟩
    · exact hb
    · exact hb.trans hs'
  · -- neither leaf of a key node is one of the refs
    obtain ⟨e', he', hleaf'⟩ := isLeaf_eq_true.mp hother
    rcases UnorderedPair.new_eq_iff.mp (hkeyed.symm.trans hp) with ⟨hl, _⟩ | ⟨_, hl⟩
    · exact absurd hl (hstar he hleaf)
    · exact absurd hl (hstar he' hleaf')

/-- Refs that hang on others can be taken out of the graph. -/
theorem HangsOn.linked_avoiding_iff {y : String} (hx : refs x = false) (hy : refs y = false) :
    Linked config (evidence.filter (avoids refs)) x y ↔ Linked config evidence x y := by
  have hfree : ∀ {a b}, (a, b) ∈ unitedPairs config (evidence.filter (avoids refs)) →
      refs a = false ∧ refs b = false := by
    intro a b hab
    have hends := ends_of_contributions (contributions_of_unitedPairs hab)
    rw [edgeRows_filter config (fun e e' => avoids_congr refs)] at hends
    have hmem : ∀ {z}, z ∈ refsOf ((edgeRows config evidence).filter (avoids refs)) →
        refs z = false := by
      intro z hz
      obtain ⟨e, he, hz⟩ := mem_refsOf.mp hz
      have havoids := (List.mem_filter.mp he).2
      unfold avoids at havoids
      rw [Bool.and_eq_true, Bool.not_eq_true', Bool.not_eq_true'] at havoids
      rcases hz with rfl | rfl
      · exact havoids.1
      · exact havoids.2
    exact ⟨hmem hends.1.1, hmem hends.2.1⟩
  constructor
  · refine Connected.mono fun e he _ => ?_
    obtain ⟨ha, hb⟩ := hfree he
    exact (h.mem_unitedPairs_avoiding ha hb).mp he
  · intro hxy
    -- send every one of the refs to the ref that it hangs on
    let sent : String → String := fun z => if refs z = true then other z else z
    have hedges : ∀ e ∈ unitedPairs config evidence,
        Linked config (evidence.filter (avoids refs)) (sent e.1) (sent e.2) := by
      rintro ⟨a, b⟩ hedge
      have hne := contributions_of_unitedPairs hedge
      have hsorted : (⟨a, b⟩ : UnorderedPair) = .new a b := eq_new_of_contributions hne
      dsimp only [sent]
      by_cases ha : refs a = true
      · have hb := h.eq_of_edge ha hsorted hne
        have hb' := h.other_apart a ha
        rw [← hb] at hb'
        rw [if_pos ha, if_neg (by simp [hb']), hb]
        exact Linked.refl _
      · by_cases hb : refs b = true
        · have ha' := h.eq_of_edge hb (hsorted.trans (UnorderedPair.new_comm a b)) hne
          rw [if_neg ha, if_pos hb, ← ha']
          exact Linked.refl _
        · rw [if_neg ha, if_neg hb]
          rw [Bool.not_eq_true] at ha hb
          exact Relation.EqvGen.rel _ _ ((h.mem_unitedPairs_avoiding ha hb).mpr hedge)
    have hmap : Linked config (evidence.filter (avoids refs)) (sent x) (sent y) :=
      Connected.map hedges hxy
    have hfixed : ∀ {z}, refs z = false → sent z = z := fun hz => if_neg (by simp [hz])
    rwa [hfixed hx, hfixed hy] at hmap

end Hanging

/-! ## Chunks that rows draw into the graph -/

/-- The chunk is named by a row of `chunkRows` that forms an edge in the fold of all rows. -/
def drawnIn (config : FoldConfig) (live chunkRows : List EvidenceRow) (s : String) : Bool :=
  isChunkRef s && (edgeRows config (workingOrder config (live ++ chunkRows))).any fun e =>
    chunkRows.contains e && decide (names s e)

/-- Every chunk that the rows draw into the graph hangs on one ref, which is neither a key node nor
a chunk; no anti-link of the other evidence names it; and an anti-link among the rows names a
chunk that no row that forms an edge names. -/
structure ChunksHang (config : FoldConfig) (live chunkRows : List EvidenceRow) : Prop where
  one_ref : ∀ s, drawnIn config live chunkRows s = true → ∃ o, isKeyNode o = false ∧
    isChunkRef o = false ∧ ∀ e ∈ edgeRows config (workingOrder config (live ++ chunkRows)),
      names s e → e.pair = .new s o
  not_rejected : ∀ s, drawnIn config live chunkRows s = true →
    ∀ e ∈ workingOrder config live, e.isAntiLink = true → ¬ names s e
  rejected_apart : ∀ e ∈ workingOrder config chunkRows, e.isAntiLink = true →
    ∃ s, isChunkRef s = true ∧ names s e ∧
      ∀ e' ∈ edgeRows config (workingOrder config (live ++ chunkRows)), ¬ names s e'

theorem drawnIn_eq_true {config : FoldConfig} :
    drawnIn config live chunkRows s = true ↔ isChunkRef s = true ∧ ∃ e ∈ chunkRows,
      e ∈ edgeRows config (workingOrder config (live ++ chunkRows)) ∧ names s e := by
  unfold drawnIn
  simp only [Bool.and_eq_true, List.any_eq_true, List.contains_iff_mem, decide_eq_true_eq]
  constructor
  · rintro ⟨hchunk, e, he, hmem, hnames⟩
    exact ⟨hchunk, e, hmem, he, hnames⟩
  · rintro ⟨hchunk, e, hmem, he, hnames⟩
    exact ⟨hchunk, e, he, hmem, hnames⟩

theorem mem_workingOrder_append {config : FoldConfig} {more : List EvidenceRow} :
    e ∈ workingOrder config (live ++ more) ↔
      e ∈ workingOrder config live ∨ e ∈ workingOrder config more := by
  rw [mem_workingOrder, mem_workingOrder, mem_workingOrder, List.mem_append]
  tauto

/-- The rows about chunks add nothing but rows that name the chunks they draw in. -/
theorem edgeRows_avoiding_drawnIn {config : FoldConfig} (hchunk : ∀ e ∈ chunkRows, HasChunk e) :
    edgeRows config ((workingOrder config (live ++ chunkRows)).filter
        (avoids (drawnIn config live chunkRows))) =
      edgeRows config ((workingOrder config live).filter
        (avoids (drawnIn config live chunkRows))) := by
  -- leave out the rows about chunks that form no edge
  let d : EvidenceRow → Bool := fun e => !chunkRows.contains e ||
    (edgeRows config (workingOrder config (live ++ chunkRows))).contains e
  have hidle : ∀ {evidence : List EvidenceRow},
      evidence ⊆ workingOrder config (live ++ chunkRows) →
        ∀ e ∈ edgeRows config evidence, d e = true := by
    intro evidence hsub e he
    have hmem : e ∈ edgeRows config (workingOrder config (live ++ chunkRows)) :=
      edgeRows_mono hsub he
    simp [d, hmem]
  have hnone : (chunkRows.filter (avoids (drawnIn config live chunkRows))).filter d = [] := by
    rw [List.filter_eq_nil_iff]
    intro e he hd
    obtain ⟨hmem, havoids⟩ := List.mem_filter.mp he
    have hforms : e ∈ edgeRows config (workingOrder config (live ++ chunkRows)) := by
      simpa [d, hmem] using hd
    have hdrawn : ∀ {s}, isChunkRef s = true → names s e →
        drawnIn config live chunkRows s = true :=
      fun hs hnames => drawnIn_eq_true.mpr ⟨hs, e, hmem, hforms, hnames⟩
    unfold avoids at havoids
    rcases hchunk e hmem with hl | hr
    · rw [hdrawn hl (Or.inl rfl)] at havoids
      exact absurd havoids (by simp)
    · rw [hdrawn hr (Or.inr rfl)] at havoids
      exact absurd havoids (by simp)
  have hall : ((workingOrder config (live ++ chunkRows)).filter
      (avoids (drawnIn config live chunkRows))).filter d =
        ((workingOrder config live).filter (avoids (drawnIn config live chunkRows))).filter d := by
    rw [filter_workingOrder, filter_workingOrder, filter_workingOrder, filter_workingOrder,
      List.filter_append, List.filter_append, hnone, List.append_nil]
  rw [← edgeRows_filter_of_idle (hidle List.filter_sublist.subset), hall]
  refine edgeRows_filter_of_idle (hidle fun e he => ?_)
  exact mem_workingOrder_append.mpr (Or.inl (List.mem_filter.mp he).1)

theorem drawnIn_eq_false {config : FoldConfig} (hs : isChunkRef s = false) :
    drawnIn config live chunkRows s = false := by
  unfold drawnIn
  rw [hs, Bool.false_and]

/-- The chunks that are drawn in hang on their refs, with the rows about chunks and without. -/
theorem ChunksHang.linked_iff {config : FoldConfig} (h : ChunksHang config live chunkRows)
    (hchunk : ∀ e ∈ chunkRows, HasChunk e) {y : String}
    (hx : drawnIn config live chunkRows x = false) (hy : drawnIn config live chunkRows y = false) :
    Linked config (workingOrder config (live ++ chunkRows)) x y ↔
      Linked config (workingOrder config live) x y := by
  choose! other hkey hother hpair using h.one_ref
  have hnotKey : ∀ s, drawnIn config live chunkRows s = true → isKeyNode s = false :=
    fun s hs => isKeyNode_of_isChunkRef (drawnIn_eq_true.mp hs).1
  have hlive : workingOrder config live ⊆ workingOrder config (live ++ chunkRows) :=
    fun e he => mem_workingOrder_append.mpr (Or.inl he)
  have hhangs : HangsOn config (workingOrder config (live ++ chunkRows))
      (drawnIn config live chunkRows) other :=
    ⟨hnotKey, hkey, fun s hs => drawnIn_eq_false (hother s hs), hpair⟩
  have hhangs' : HangsOn config (workingOrder config live) (drawnIn config live chunkRows) other :=
    ⟨hnotKey, hkey, hhangs.other_apart, fun s hs e he => hpair s hs e (edgeRows_mono hlive he)⟩
  rw [← hhangs.linked_avoiding_iff hx hy, ← hhangs'.linked_avoiding_iff hx hy]
  exact linked_iff_of_edgeRows (edgeRows_avoiding_drawnIn hchunk) x y

/-- An anti-link of the other evidence is about refs that are not drawn in. -/
theorem ChunksHang.antiLink_avoids {config : FoldConfig} (h : ChunksHang config live chunkRows)
    (he : e ∈ workingOrder config live) (hanti : e.isAntiLink = true) (hnames : names s e) :
    drawnIn config live chunkRows s = false := by
  by_contra hdrawn
  rw [Bool.not_eq_false] at hdrawn
  exact h.not_rejected s hdrawn e he hanti hnames

/-- An anti-link among the rows about chunks has an end that no member is linked to. -/
theorem ChunksHang.antiLink_apart {config : FoldConfig} (h : ChunksHang config live chunkRows)
    (he : e ∈ workingOrder config chunkRows) (hanti : e.isAntiLink = true)
    (hx : isChunkRef x = false)
    (hl : Linked config (workingOrder config (live ++ chunkRows)) x e.leftRef)
    (hr : Linked config (workingOrder config (live ++ chunkRows)) x e.rightRef) : False := by
  obtain ⟨s, hs, hnames, hapart⟩ := h.rejected_apart e he hanti
  have hxs : Linked config (workingOrder config (live ++ chunkRows)) x s := by
    rcases hnames with rfl | rfl
    · exact hl
    · exact hr
  rcases hxs.ends with rfl | ⟨-, hmem, -⟩
  · exact absurd (hx.symm.trans hs) (by simp)
  · obtain ⟨e', he', hs'⟩ := mem_refsOf.mp hmem
    exact hapart e' he' (hs'.imp Eq.symm Eq.symm)

/-- Rows about chunks leave the aliases and the canonicals alone when the chunks that they draw
into the graph hang on one ref each and no anti-link is about them. -/
theorem hanging_chunks_merge_nothing (live chunkRows : List EvidenceRow) (config : FoldConfig)
    (known : List String) (hchunk : ∀ e ∈ chunkRows, HasChunk e)
    (h : ChunksHang config live chunkRows) :
    SameMerges (foldWithKnownCanonicals (live ++ chunkRows) config known)
      (foldWithKnownCanonicals live config known) := by
  have hmember : ∀ {x m}, splitMemberRef x = some m → drawnIn config live chunkRows x = false :=
    fun hx => drawnIn_eq_false (isChunkRef_of_splitMemberRef hx)
  refine sameMerges_of_groups known known ?_ ?_
  · intro x m hx
    ext m'
    unfold groupOf
    refine exists_congr fun y => and_congr_left fun hy => ?_
    exact h.linked_iff hchunk (hmember hx) (hmember hy)
  · intro x m hx _
    constructor
    · rintro ⟨e, he, hanti, hl, hr⟩
      rcases mem_workingOrder_append.mp he with he | he
      · have hleft := h.antiLink_avoids he hanti (Or.inl rfl)
        have hright := h.antiLink_avoids he hanti (Or.inr rfl)
        exact ⟨e, he, hanti, (h.linked_iff hchunk (hmember hx) hleft).mp hl,
          (h.linked_iff hchunk (hmember hx) hright).mp hr⟩
      · exact (h.antiLink_apart he hanti (isChunkRef_of_splitMemberRef hx) hl hr).elim
    · rintro ⟨e, he, hanti, hl, hr⟩
      have hleft := h.antiLink_avoids he hanti (Or.inl rfl)
      have hright := h.antiLink_avoids he hanti (Or.inr rfl)
      exact ⟨e, mem_workingOrder_append.mpr (Or.inl he), hanti,
        (h.linked_iff hchunk (hmember hx) hleft).mpr hl,
        (h.linked_iff hchunk (hmember hx) hright).mpr hr⟩

/-- A foreign key between two accounts. -/
def linkedAccounts : List EvidenceRow :=
  [⟨1, 7, "salesforce:1", "hubspot:2", 1, "crm_fk", none, none, 1, 10, none⟩]

/-- A document that names one of them by its id. -/
def mentionOfAccount : List EvidenceRow :=
  [⟨2, 7, "chunk:gdrive:D9:0", "salesforce:1", 1, "external_id", some "1", none, 1, 20, none⟩]

theorem chunksHang_mentionOfAccount : ChunksHang (.defaults 7) linkedAccounts mentionOfAccount := by
  have hrows : edgeRows (.defaults 7)
      (workingOrder (.defaults 7) (linkedAccounts ++ mentionOfAccount)) =
        linkedAccounts ++ mentionOfAccount := by decide +kernel
  refine ⟨?_, ?_, ?_⟩
  · intro s hs
    obtain ⟨hchunk, e, he, -, hnames⟩ := drawnIn_eq_true.mp hs
    obtain rfl := List.mem_singleton.mp he
    rcases hnames with rfl | rfl
    · rw [hrows]
      refine ⟨"salesforce:1", by decide, by decide, ?_⟩
      decide
    · exact absurd hchunk (by decide)
  · intro s _ e he hanti
    have hnone : ∀ e ∈ workingOrder (.defaults 7) linkedAccounts, ¬ e.isAntiLink = true := by
      decide
    exact absurd hanti (hnone e he)
  · intro e he hanti
    have hnone : ∀ e ∈ workingOrder (.defaults 7) mentionOfAccount, ¬ e.isAntiLink = true := by
      decide
    exact absurd hanti (hnone e he)

/-- The mention of one account leaves the two accounts merged as they were. -/
theorem mention_of_account_merges_nothing :
    SameMerges (foldWithKnownCanonicals (linkedAccounts ++ mentionOfAccount) (.defaults 7) [])
        (foldWithKnownCanonicals linkedAccounts (.defaults 7) []) ∧
      (foldWithKnownCanonicals linkedAccounts (.defaults 7) []).canonicals =
        ["canon:hubspot:2"] :=
  ⟨hanging_chunks_merge_nothing linkedAccounts mentionOfAccount (.defaults 7) []
    (fun e he => by
      obtain rfl := List.mem_singleton.mp he
      exact Or.inl (by decide)) chunksHang_mentionOfAccount, by decide +kernel⟩

/-- A document that names two accounts by their ids. -/
def mentionOfTwoAccounts : List EvidenceRow :=
  [⟨1, 7, "chunk:gdrive:D9:0", "salesforce:1", 1, "external_id", some "1", none, 1, 10, none⟩,
    ⟨2, 7, "chunk:gdrive:D9:0", "hubspot:2", 1, "external_id", some "2", none, 1, 20, none⟩]

/-- The two accounts are merged through the document alone. -/
theorem mention_of_two_accounts_merges_them :
    (∀ e ∈ mentionOfTwoAccounts, HasChunk e) ∧
      (foldWithKnownCanonicals ([] ++ mentionOfTwoAccounts) (.defaults 7) []).aliases =
        [⟨"hubspot", "2", "canon:hubspot:2"⟩, ⟨"salesforce", "1", "canon:hubspot:2"⟩] ∧
      ¬ SameMerges (foldWithKnownCanonicals ([] ++ mentionOfTwoAccounts) (.defaults 7) [])
        (foldWithKnownCanonicals [] (.defaults 7) []) := by
  have hmerged : (foldWithKnownCanonicals ([] ++ mentionOfTwoAccounts) (.defaults 7) []).aliases =
      [⟨"hubspot", "2", "canon:hubspot:2"⟩, ⟨"salesforce", "1", "canon:hubspot:2"⟩] := by
    decide +kernel
  have hnothing : (foldWithKnownCanonicals [] (.defaults 7) []).aliases = [] := by decide +kernel
  refine ⟨?_, hmerged, ?_⟩
  · intro e he
    rcases List.mem_pair.mp he with rfl | rfl
    · exact Or.inl (by decide)
    · exact Or.inl (by decide)
  · rintro ⟨haliases, -⟩
    rw [hmerged, hnothing] at haliases
    exact absurd haliases (by simp)

end Verity.Analysis
