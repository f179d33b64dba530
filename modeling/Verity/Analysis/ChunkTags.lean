import Verity.Analysis.FoldGraph

/-!
# Which chunks are tagged

A chunk gets the tags that its mentions name, once its gate is open: its configuration links
mentions by themselves, or a co-signal lies on the chunk. The gate is one for the whole chunk.
So a co-signal for one entity lets the bare mention of another through, and a denied pair is
tagged as soon as anything positive names it too: the anti-links are not consulted.
-/

set_option autoImplicit false

namespace Verity.Analysis

open Verity.Model

/-! ## Mentions -/

/-- A row of the tenant, not of negative polarity, asserts the ref of the chunk. -/
def Asserts (config : FoldConfig) (live : List EvidenceRow) (e : EvidenceRow)
    (chunk ref : String) : Prop :=
  e ∈ live ∧ e.tenantId = config.tenantId ∧ 0 ≤ e.polarity ∧ chunkMention e = some (chunk, ref)

/-- A row of tier one or two, or a confirmation. -/
def isCosignal (e : EvidenceRow) : Bool :=
  decide (e.tier ≤ 2) || decide (e.method = "human_confirmed")

/-- The ref is the tag, or a member whose own canonical is the tag. -/
def NamesTag (ref tag : String) : Prop :=
  ref = tag ∨ ∃ m, splitMemberRef ref = some m ∧ tag = "canon:" ++ m.source ++ ":" ++ m.entityId

/-- What is folded: known from before, or merged out of this evidence. -/
def foldedCanonicals (live : List EvidenceRow) (config : FoldConfig) (known : List String) :
    List String :=
  known ++ (foldOutcomes config (workingOrder config live)).flatMap (·.canonicals)

/-- The plan tags the chunk. -/
def Tagged (plan : FoldPlan) (chunk tag : String) : Prop :=
  ∃ w ∈ plan.chunkTags, w.subjectRef = chunk ∧ tag ∈ w.tags

theorem mem_chunkMentions {config : FoldConfig} {live : List EvidenceRow} {e : EvidenceRow}
    {chunk : String} : e ∈ chunkMentions (workingOrder config live) chunk ↔
      ∃ ref, Asserts config live e chunk ref := by
  unfold chunkMentions Asserts
  rw [List.mem_filter, mem_workingOrder, Bool.and_eq_true, decide_eq_true_eq, Option.any_eq_true]
  constructor
  · rintro ⟨⟨hlive, htenant⟩, hpol, ⟨chunk', ref⟩, hmention, hchunk⟩
    obtain rfl : chunk' = chunk := of_decide_eq_true hchunk
    exact ⟨ref, hlive, htenant, hpol, hmention⟩
  · rintro ⟨ref, hlive, htenant, hpol, hmention⟩
    exact ⟨⟨hlive, htenant⟩, hpol, (chunk, ref), hmention, decide_eq_true rfl⟩

/-- A chunk has a co-signal when some row that asserts something of it is one. -/
theorem chunkCosignal_iff {config : FoldConfig} {live : List EvidenceRow} {chunk : String} :
    chunkCosignal (workingOrder config live) chunk = true ↔
      ∃ e ref, Asserts config live e chunk ref ∧ isCosignal e = true := by
  unfold chunkCosignal
  rw [List.any_eq_true]
  constructor
  · rintro ⟨e, he, hsignal⟩
    obtain ⟨ref, hasserts⟩ := mem_chunkMentions.mp he
    exact ⟨e, ref, hasserts, hsignal⟩
  · rintro ⟨e, ref, hasserts, hsignal⟩
    exact ⟨e, mem_chunkMentions.mpr ⟨ref, hasserts⟩, hsignal⟩

/-- A tag is folded, and the ref it is read off names it. -/
theorem tagOf_eq_some {folded : List String} {cosignal : Bool} {ref tag : String}
    (h : tagOf folded cosignal ref = some tag) : tag ∈ folded ∧ NamesTag ref tag := by
  unfold tagOf at h
  split at h
  · rename_i hfolded
    obtain rfl := Option.some.inj h
    exact ⟨by simpa using hfolded, Or.inl rfl⟩
  · obtain ⟨m, hm, hown⟩ := Option.bind_eq_some_iff.mp h
    dsimp only at hown
    split at hown
    · rename_i hopen
      obtain rfl := Option.some.inj hown
      rw [Bool.and_eq_true] at hopen
      exact ⟨by simpa using hopen.2, Or.inr ⟨m, hm, rfl⟩⟩
    · exact absurd hown (by simp)

/-! ## The tags of a plan -/

section Tags

variable (live : List EvidenceRow) (config : FoldConfig) (known : List String)

/-- The mentions of the chunk count: its configuration asks for nothing more, or a co-signal
lies on it. -/
def GateOpen (chunk : String) : Prop :=
  (chunkConfig config (workingOrder config live) chunk).autoLinkTier3 = true ∨
    ∃ e ref, Asserts config live e chunk ref ∧ isCosignal e = true

/-- What the ref gives the chunk as a tag, if anything. -/
def tagOn (chunk ref : String) : Option String :=
  tagOf (foldedCanonicals live config known)
    (chunkCosignal (workingOrder config live) chunk) ref

/-- The tags of a chunk whose gate is open. -/
theorem mem_chunkTagsFor {chunk tag : String} :
    tag ∈ chunkTagsFor config (workingOrder config live) (foldedCanonicals live config known)
      chunk ↔
    GateOpen live config chunk ∧
      ∃ e ref, Asserts config live e chunk ref ∧ tagOn live config known chunk ref = some tag := by
  have hgate : ((chunkConfig config (workingOrder config live) chunk).autoLinkTier3 ||
      chunkCosignal (workingOrder config live) chunk) = true ↔ GateOpen live config chunk := by
    rw [Bool.or_eq_true, chunkCosignal_iff]
    rfl
  unfold chunkTagsFor
  dsimp only
  split
  · rename_i hopen
    rw [mem_sortDedup, List.mem_filterMap]
    constructor
    · rintro ⟨⟨chunk', ref⟩, hmention, htag⟩
      obtain ⟨e, he, hpair⟩ := List.mem_filterMap.mp hmention
      obtain ⟨ref', hasserts⟩ := mem_chunkMentions.mp he
      obtain ⟨rfl, rfl⟩ := Prod.mk.inj (Option.some.inj (hasserts.2.2.2.symm.trans hpair))
      exact ⟨hgate.mp hopen, e, ref', hasserts, htag⟩
    · rintro ⟨_, e, ref, hasserts, htag⟩
      refine ⟨(chunk, ref), List.mem_filterMap.mpr ⟨e, ?_, hasserts.2.2.2⟩, htag⟩
      exact mem_chunkMentions.mpr ⟨ref, hasserts⟩
  · rename_i hclosed
    constructor
    · intro h
      exact absurd h List.not_mem_nil
    · rintro ⟨hopen, _⟩
      exact absurd (hgate.mpr hopen) hclosed

/-- The plan tags a chunk exactly with what the positive rows of the tenant name of it, once
its gate is open. -/
theorem tagged_iff {chunk tag : String} :
    Tagged (foldWithKnownCanonicals live config known) chunk tag ↔
    GateOpen live config chunk ∧
      ∃ e ref, Asserts config live e chunk ref ∧ tagOn live config known chunk ref = some tag := by
  rw [← mem_chunkTagsFor]
  have hmem : ∀ w, w ∈ (foldWithKnownCanonicals live config known).chunkTags ↔
      w ∈ chunkTagWrites config (workingOrder config live)
        (foldedCanonicals live config known) := by
    intro w
    unfold foldWithKnownCanonicals
    dsimp only
    exact List.mem_insertionSort _
  constructor
  · rintro ⟨w, hw, rfl, htag⟩
    obtain ⟨hw, _⟩ := List.mem_filter.mp ((hmem w).mp hw)
    obtain ⟨chunk, _, rfl⟩ := List.mem_map.mp hw
    exact htag
  · intro htag
    obtain ⟨_, e, ref, ⟨hlive, htenant, hpol, hmention⟩, _⟩ :=
      (mem_chunkTagsFor live config known).mp htag
    refine ⟨⟨chunk, _⟩, (hmem _).mpr (List.mem_filter.mpr ⟨List.mem_map.mpr ⟨chunk, ?_, rfl⟩, ?_⟩),
      rfl, htag⟩
    · -- a chunk with a tag is one that something is asserted of
      refine mem_sortDedup.mpr (List.mem_map.mpr ⟨(chunk, ref), ?_, rfl⟩)
      refine List.mem_filterMap.mpr ⟨e, List.mem_filter.mpr ⟨?_, decide_eq_true hpol⟩, hmention⟩
      exact mem_workingOrder.mpr ⟨hlive, htenant⟩
    · rw [Bool.not_eq_true', List.isEmpty_eq_false_iff]
      exact List.ne_nil_of_mem htag

theorem mem_foldedCanonicals {tag : String} : tag ∈ foldedCanonicals live config known ↔
    tag ∈ known ∨ tag ∈ (foldWithKnownCanonicals live config known).canonicals := by
  unfold foldedCanonicals foldWithKnownCanonicals
  dsimp only
  rw [List.mem_append, mem_sortDedup]

/-! ## The co-signal of another entity -/

/-- Every tag is of something folded that a row asserts of the chunk; where the configuration
does not link mentions by themselves, one of the rows that name the tag is a co-signal. -/
def CosignalRule : Prop :=
  ∀ chunk tag, Tagged (foldWithKnownCanonicals live config known) chunk tag →
    (tag ∈ known ∨ tag ∈ (foldWithKnownCanonicals live config known).canonicals) ∧
    (∃ e ref, Asserts config live e chunk ref ∧ NamesTag ref tag) ∧
    ((chunkConfig config (workingOrder config live) chunk).autoLinkTier3 = false →
      ∃ e ref, Asserts config live e chunk ref ∧ NamesTag ref tag ∧ isCosignal e = true)

/-- The row names something folded on a chunk where only other things have a co-signal. -/
def BorrowsCosignal (e : EvidenceRow) : Prop :=
  ∃ chunk ref, Asserts config live e chunk ref ∧
    (chunkConfig config (workingOrder config live) chunk).autoLinkTier3 = false ∧
    (∃ e' ref', Asserts config live e' chunk ref' ∧ isCosignal e' = true) ∧
    ∃ tag, tagOf (foldedCanonicals live config known) true ref = some tag ∧
      ∀ e' ref', Asserts config live e' chunk ref' → isCosignal e' = true → ¬ NamesTag ref' tag

/-- The co-signal rule holds of a fold exactly when no row borrows the co-signal of another
entity. -/
theorem cosignal_rule_iff :
    CosignalRule live config known ↔ ∀ e, ¬ BorrowsCosignal live config known e := by
  constructor
  · rintro hrule e ⟨chunk, ref, hasserts, hoff, hsignal, tag, htag, hnone⟩
    have hcosignal := chunkCosignal_iff.mpr hsignal
    have htagged : Tagged (foldWithKnownCanonicals live config known) chunk tag := by
      refine (tagged_iff live config known).mpr ⟨Or.inr hsignal, e, ref, hasserts, ?_⟩
      unfold tagOn
      rw [hcosignal]
      exact htag
    obtain ⟨e', ref', hasserts', hnames, hsignal'⟩ := (hrule chunk tag htagged).2.2 hoff
    exact hnone e' ref' hasserts' hsignal' hnames
  · intro hnone chunk tag htagged
    obtain ⟨hgate, e, ref, hasserts, htag⟩ := (tagged_iff live config known).mp htagged
    obtain ⟨hfolded, hnames⟩ := tagOf_eq_some htag
    refine ⟨(mem_foldedCanonicals live config known).mp hfolded, ⟨e, ref, hasserts, hnames⟩, ?_⟩
    intro hoff
    have hsignal : ∃ e' ref', Asserts config live e' chunk ref' ∧ isCosignal e' = true := by
      rcases hgate with hon | hsignal
      · rw [hon] at hoff
        exact absurd hoff (by simp)
      · exact hsignal
    by_contra hmissing
    refine hnone e ⟨chunk, ref, hasserts, hoff, hsignal, tag, ?_, ?_⟩
    · unfold tagOn at htag
      rwa [chunkCosignal_iff.mpr hsignal] at htag
    · intro e' ref' hasserts' hsignal' hnames'
      exact hmissing ⟨e', ref', hasserts', hnames', hsignal'⟩

end Tags

/-- A chunk carries the domain of one account and mentions another. -/
def mentionBesideCosignal : List EvidenceRow :=
  [⟨1, 7, "chunk:gdrive:D9:0", "canon:hubspot:acme", 1, "domain_match", some "acme.com",
      some "customer_contact", 1, 0, none⟩,
    ⟨2, 7, "chunk:gdrive:D9:0", "canon:hubspot:globex", 3, "llm_mention", some "Globex",
      some "customer_contact", 1, 1, none⟩]

/-- The mentioned account becomes a tag on the co-signal of the other one. -/
theorem mention_tagged_on_borrowed_cosignal : ¬ ∀ (live : List EvidenceRow)
    (config : FoldConfig) (known : List String), CosignalRule live config known := by
  intro h
  have hrule := h mentionBesideCosignal (.defaults 7) ["canon:hubspot:acme", "canon:hubspot:globex"]
  have htagged : Tagged (foldWithKnownCanonicals mentionBesideCosignal (.defaults 7)
      ["canon:hubspot:acme", "canon:hubspot:globex"])
      "chunk:gdrive:D9:0" "canon:hubspot:globex" := by
    unfold Tagged
    decide +kernel
  obtain ⟨e, ref, ⟨hlive, _, _, hmention⟩, hnames, hsignal⟩ :=
    (hrule _ _ htagged).2.2 (by decide +kernel)
  rcases List.mem_pair.mp hlive with rfl | rfl
  · have href : chunkMention ⟨1, 7, "chunk:gdrive:D9:0", "canon:hubspot:acme", 1, "domain_match",
        some "acme.com", some "customer_contact", 1, 0, none⟩ =
        some ("chunk:gdrive:D9:0", "canon:hubspot:acme") := by decide +kernel
    obtain ⟨_, rfl⟩ := Prod.mk.inj (Option.some.inj (href.symm.trans hmention))
    rcases hnames with hsame | ⟨m, hm, hown⟩
    · exact absurd hsame (by decide)
    · have hmember : splitMemberRef "canon:hubspot:acme" = some ⟨"canon", "hubspot:acme"⟩ := by
        decide +kernel
      obtain rfl := Option.some.inj (hmember.symm.trans hm)
      exact absurd hown (by decide +kernel)
  · exact absurd hsignal (by decide)

/-! ## Denied pairs -/

section Denied

variable (live : List EvidenceRow) (config : FoldConfig) (known : List String)

/-- A row of the tenant rejects the pair of the chunk and the ref, by its polarity or by its
method. -/
def Denies (e : EvidenceRow) (chunk ref : String) : Prop :=
  e ∈ live ∧ e.tenantId = config.tenantId ∧ e.isAntiLink = true ∧ isChunkRef chunk = true ∧
    ((e.leftRef = chunk ∧ e.rightRef = ref) ∨ (e.leftRef = ref ∧ e.rightRef = chunk))

/-- A denied ref is never a tag of the chunk, nor is its own canonical. -/
def AntiLinksWin : Prop :=
  ∀ e chunk ref, Denies live config e chunk ref →
    ¬ Tagged (foldWithKnownCanonicals live config known) chunk ref ∧
    ¬ Tagged (foldWithKnownCanonicals live config known) chunk ("canon:" ++ ref)

/-- A row of the chunk that is not of negative polarity names the ref or its own canonical, and
the mentions of the chunk count. -/
def Reasserts (e : EvidenceRow) (chunk ref : String) : Prop :=
  GateOpen live config chunk ∧ ∃ ref', Asserts config live e chunk ref' ∧
    (tagOn live config known chunk ref' = some ref ∨
      tagOn live config known chunk ref' = some ("canon:" ++ ref))

/-- Anti-links win over the tags of a fold exactly when no denied pair is asserted again. -/
theorem anti_links_win_iff : AntiLinksWin live config known ↔
    ∀ e chunk ref, Denies live config e chunk ref →
      ∀ e', ¬ Reasserts live config known e' chunk ref := by
  constructor
  · rintro hwin e chunk ref hdenies e' ⟨hgate, ref', hasserts, htag | htag⟩
    · exact (hwin e chunk ref hdenies).1 ((tagged_iff live config known).mpr
        ⟨hgate, e', ref', hasserts, htag⟩)
    · exact (hwin e chunk ref hdenies).2 ((tagged_iff live config known).mpr
        ⟨hgate, e', ref', hasserts, htag⟩)
  · intro hnone e chunk ref hdenies
    constructor
    · intro htagged
      obtain ⟨hgate, e', ref', hasserts, htag⟩ := (tagged_iff live config known).mp htagged
      exact hnone e chunk ref hdenies e' ⟨hgate, ref', hasserts, Or.inl htag⟩
    · intro htagged
      obtain ⟨hgate, e', ref', hasserts, htag⟩ := (tagged_iff live config known).mp htagged
      exact hnone e chunk ref hdenies e' ⟨hgate, ref', hasserts, Or.inr htag⟩

end Denied

/-- A reviewer denied that the chunk is about the account that its domain names. -/
def deniedBesideDomain : List EvidenceRow :=
  [⟨1, 7, "chunk:gdrive:D9:0", "canon:hubspot:acme", 1, "domain_match", some "acme.com",
      some "customer_contact", 1, 0, none⟩,
    ⟨2, 7, "chunk:gdrive:D9:0", "canon:hubspot:acme", 1, "human_rejected", none,
      some "customer_contact", -1, 1, none⟩]

/-- The account is a tag of the chunk all the same. -/
theorem denied_ref_tagged : ¬ ∀ (live : List EvidenceRow) (config : FoldConfig)
    (known : List String), AntiLinksWin live config known := by
  intro h
  have hdenies : Denies deniedBesideDomain (.defaults 7)
      ⟨2, 7, "chunk:gdrive:D9:0", "canon:hubspot:acme", 1, "human_rejected", none,
        some "customer_contact", -1, 1, none⟩ "chunk:gdrive:D9:0" "canon:hubspot:acme" :=
    ⟨List.mem_of_getElem? (i := 1) rfl, rfl, rfl, rfl, Or.inl ⟨rfl, rfl⟩⟩
  apply (h deniedBesideDomain (.defaults 7) ["canon:hubspot:acme"] _ _ _ hdenies).1
  unfold Tagged
  decide +kernel

end Verity.Analysis
