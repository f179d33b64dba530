import Verity.Analysis.FoldGraph

/-!
# The partition that the fold makes

`fold_partition` describes the aliases of a fold by its graph: which members share a canonical,
that each has one alias and no other ref any, and what the canonical is called. An anti-link
inside a component keeps the component from being merged, so its two refs never share a canonical
(`anti_linked_refs_share_no_canonical`), in the incremental fold neither.

The cap on the size of a component is read from the fallback configuration. The materializer
passes the built-in one, which has none, so a cap that a tenant has stored bounds nothing:
`stored_cap_holds_iff` says when the aliases that it writes stay within it.
-/

set_option autoImplicit false

namespace Verity.Analysis

open Verity.Foundation Verity.Model

variable {x : String} {m : MemberRef} {config : FoldConfig} {evidence : List EvidenceRow}
  {a : AliasWrite}

/-! ## Names -/

/-- The ref an alias is for. -/
def refOf (a : AliasWrite) : String := a.source ++ ":" ++ a.entityId

/-- The refs that the plan aliases to the canonical. -/
def membersUnder (plan : FoldPlan) (canonical : String) : List String :=
  (plan.aliases.filter fun a => a.canonicalEntity = canonical).map refOf

theorem eq_of_splitMemberRef (h : splitMemberRef x = some m) :
    x = m.source ++ ":" ++ m.entityId := by
  apply String.toList_inj.mp
  rw [(splitMemberRef_eq_some h).1]
  simp

/-- A source has no colon, so the name of a canonical tells the member it comes from. -/
theorem canonicalName_injective {m' : MemberRef} (h : ':' ∉ m.source.toList)
    (h' : ':' ∉ m'.source.toList) (heq : canonicalName m = canonicalName m') : m = m' := by
  have hlist : m.source.toList ++ ':' :: m.entityId.toList =
      m'.source.toList ++ ':' :: m'.entityId.toList := by
    have htoList := congrArg String.toList heq
    simpa [canonicalName] using htoList
  have hsplit := splitFirst_eq_some.mpr ⟨hlist, h'⟩
  rw [splitFirst_eq_some.mpr ⟨rfl, h⟩] at hsplit
  obtain ⟨hsource, hentity⟩ := Prod.mk.inj (Option.some.inj hsplit)
  cases m
  cases m'
  simp_all [String.toList_inj]

theorem colon_notMem_of_mem_groupOf (h : m ∈ groupOf config evidence x) :
    ':' ∉ m.source.toList := by
  obtain ⟨y, -, hm⟩ := h
  exact (splitMemberRef_eq_some hm).2

/-- Components with a canonical in common are one component. -/
theorem linked_of_canonicalName_eq {y : String} {m' : MemberRef}
    (hm : m ∈ groupOf config evidence x) (hm' : m' ∈ groupOf config evidence y)
    (heq : canonicalName m = canonicalName m') : Linked config evidence x y := by
  obtain rfl := canonicalName_injective (colon_notMem_of_mem_groupOf hm)
    (colon_notMem_of_mem_groupOf hm') heq
  obtain ⟨z, hz, hsplit⟩ := hm
  obtain ⟨z', hz', hsplit'⟩ := hm'
  obtain rfl := splitMemberRef_injective hsplit hsplit'
  exact hz.trans hz'.symm

/-! ## Aliases by ref -/

/-- An alias of the plan, read at its ref. -/
theorem aliased_refOf (h : Aliased config evidence a) :
    splitMemberRef (refOf a) = some (memberOf a) ∧ Merges config evidence (refOf a) ∧
      ∃ m, IsLeast (groupOf config evidence (refOf a)) m ∧
        a.canonicalEntity = canonicalName m := by
  obtain ⟨x, m, hsplit, hmerges, hleast, hcanonical⟩ := h
  obtain rfl : x = refOf a := eq_of_splitMemberRef hsplit
  exact ⟨hsplit, hmerges, m, hleast, hcanonical⟩

/-- The alias of a member of a merged component. -/
theorem exists_alias_of_merges (hsplit : splitMemberRef x = some m) (h : Merges config evidence x) :
    ∃ least, IsLeast (groupOf config evidence x) least ∧
      Aliased config evidence ⟨m.source, m.entityId, canonicalName least⟩ := by
  obtain ⟨component, hcomponent, hx⟩ :=
    exists_component_of_mem_refsOf config (mem_refsOf_of_merges h)
  have hm : m ∈ component.filterMap splitMemberRef :=
    List.mem_filterMap.mpr ⟨x, (hx x).mpr (Linked.refl x), hsplit⟩
  obtain ⟨least, hleast⟩ := exists_isLeast (List.ne_nil_of_mem hm)
  have hset : {m | m ∈ component.filterMap splitMemberRef} = groupOf config evidence x := by
    ext m'
    exact mem_members_of_isComponent hx m'
  rw [hset] at hleast
  exact ⟨least, hleast, x, least, hsplit, h, hleast, rfl⟩

/-- A canonical has the members whose group is merged and named so. -/
theorem mem_membersUnder {live : List EvidenceRow} {known : List String} {canonical : String} :
    x ∈ membersUnder (foldWithKnownCanonicals live config known) canonical ↔
      (∃ m, splitMemberRef x = some m) ∧ Merges config (workingOrder config live) x ∧
        ∃ least, IsLeast (groupOf config (workingOrder config live) x) least ∧
          canonical = canonicalName least := by
  unfold membersUnder
  simp only [List.mem_map, List.mem_filter, decide_eq_true_eq]
  constructor
  · rintro ⟨a, ⟨ha, rfl⟩, rfl⟩
    obtain ⟨hsplit, hmerges, least, hleast, hname⟩ :=
      aliased_refOf ((mem_aliases_iff live config known a).mp ha)
    exact ⟨⟨_, hsplit⟩, hmerges, least, hleast, hname⟩
  · rintro ⟨⟨m, hsplit⟩, hmerges, least, hleast, rfl⟩
    obtain ⟨least', hleast', halias⟩ := exists_alias_of_merges hsplit hmerges
    obtain rfl := hleast.unique hleast'
    exact ⟨_, ⟨(mem_aliases_iff live config known _).mpr halias, rfl⟩,
      (eq_of_splitMemberRef hsplit).symm⟩

/-- No member ref occurs in two alias writes. -/
theorem countP_refOf_le_one (live : List EvidenceRow) (config : FoldConfig)
    (known : List String) (x : String) :
    (foldWithKnownCanonicals live config known).aliases.countP (fun a => refOf a = x) ≤ 1 := by
  have hnodup := fold_members_nodup live config known
  have hsplit : ∀ a ∈ (foldWithKnownCanonicals live config known).aliases,
      splitMemberRef (refOf a) = some (memberOf a) := fun a ha =>
    (aliased_refOf ((mem_aliases_iff live config known a).mp ha)).1
  generalize (foldWithKnownCanonicals live config known).aliases = aliases at hnodup hsplit
  induction aliases with
  | nil => simp
  | cons a aliases ih =>
    rw [List.map_cons, List.nodup_cons] at hnodup
    rw [List.countP_cons]
    have hrest := ih hnodup.2 fun b hb => hsplit b (List.mem_cons_of_mem _ hb)
    by_cases ha : refOf a = x
    · have hzero : aliases.countP (fun a => refOf a = x) = 0 := by
        rw [List.countP_eq_zero]
        intro b hb hbx
        rw [decide_eq_true_eq] at hbx
        have hsame := (hsplit a List.mem_cons_self).symm.trans
          ((congrArg splitMemberRef (ha.trans hbx.symm)).trans
            (hsplit b (List.mem_cons_of_mem _ hb)))
        exact hnodup.1 (Option.some.inj hsame ▸ List.mem_map_of_mem hb)
      rw [hzero]
      split <;> omega
    · rw [if_neg (by simpa using ha)]
      exact hrest

/-- Of any fold, with `G` the graph of the refs of the tenant's rows and of the candidate edges
that are not suppressed. Two member refs share a canonical if and only if they are connected in
`G` and their component is merged, which is to say that it has two members at least, no more than
the cap, and no anti-link inside. Each member ref of a merged component is in one alias write, no
other ref is in any, and the canonical is named after the component's least member. -/
theorem fold_partition (live : List EvidenceRow) (config : FoldConfig) (known : List String) :
    (∀ x y m m', splitMemberRef x = some m → splitMemberRef y = some m' →
      ((∃ a ∈ (foldWithKnownCanonicals live config known).aliases,
        ∃ b ∈ (foldWithKnownCanonicals live config known).aliases,
          refOf a = x ∧ refOf b = y ∧ a.canonicalEntity = b.canonicalEntity) ↔
        x ∈ refsOf (workingOrder config live) ∧ Linked config (workingOrder config live) x y ∧
          Merges config (workingOrder config live) x)) ∧
    (∀ x m, splitMemberRef x = some m → Merges config (workingOrder config live) x →
      (foldWithKnownCanonicals live config known).aliases.countP (fun a => refOf a = x) = 1) ∧
    (∀ a ∈ (foldWithKnownCanonicals live config known).aliases,
      splitMemberRef (refOf a) = some (memberOf a) ∧
        refOf a ∈ refsOf (workingOrder config live) ∧
        Merges config (workingOrder config live) (refOf a) ∧
        ∃ m, IsLeast (groupOf config (workingOrder config live) (refOf a)) m ∧
          a.canonicalEntity = "canon:" ++ m.source ++ ":" ++ m.entityId) := by
  have hplan := mem_aliases_iff live config known
  refine ⟨?_, ?_, ?_⟩
  · intro x y m m' hx hy
    constructor
    · rintro ⟨a, ha, b, hb, rfl, rfl, hcanonical⟩
      obtain ⟨-, hmerges, least, hleast, hname⟩ := aliased_refOf ((hplan a).mp ha)
      obtain ⟨-, -, least', hleast', hname'⟩ := aliased_refOf ((hplan b).mp hb)
      refine ⟨mem_refsOf_of_merges hmerges, ?_, hmerges⟩
      apply linked_of_canonicalName_eq hleast.1 hleast'.1
      rw [← hname, ← hname', hcanonical]
    · rintro ⟨-, hlinked, hmerges⟩
      obtain ⟨least, hleast, halias⟩ := exists_alias_of_merges hx hmerges
      obtain ⟨least', hleast', halias'⟩ := exists_alias_of_merges hy (hmerges.congr hlinked)
      obtain rfl : least = least' := by
        rw [groupOf_congr hlinked] at hleast
        exact hleast.unique hleast'
      exact ⟨_, (hplan _).mpr halias, _, (hplan _).mpr halias', (eq_of_splitMemberRef hx).symm,
        (eq_of_splitMemberRef hy).symm, rfl⟩
  · intro x m hx hmerges
    obtain ⟨least, -, halias⟩ := exists_alias_of_merges hx hmerges
    apply le_antisymm (countP_refOf_le_one live config known x)
    rw [Nat.succ_le_iff, List.countP_pos_iff]
    exact ⟨_, (hplan _).mpr halias, decide_eq_true (eq_of_splitMemberRef hx).symm⟩
  · intro a ha
    obtain ⟨hsplit, hmerges, least, hleast, hname⟩ := aliased_refOf ((hplan a).mp ha)
    exact ⟨hsplit, mem_refsOf_of_merges hmerges, hmerges, least, hleast, hname⟩

/-! ## Anti-links -/

theorem aliased_of_mem_refold {live : List EvidenceRow} {prior : PriorClusters}
    {largeComponentFloor : Nat}
    (h : a ∈ (refoldIncremental live config prior largeComponentFloor).aliases) :
    Aliased config (workingOrder config live) a := by
  have hfold := aliases_refoldIncremental _ _ _ _ h
  rw [fold, mem_aliases_iff] at hfold
  exact hfold

/-- The two refs of an anti-link of the tenant share no canonical, in a fold or in an
incremental one. -/
theorem anti_linked_refs_share_no_canonical (live : List EvidenceRow) (config : FoldConfig)
    (known : List String) (prior : PriorClusters) (largeComponentFloor : Nat) (plan : FoldPlan)
    (hplan : plan = foldWithKnownCanonicals live config known ∨
      plan = refoldIncremental live config prior largeComponentFloor)
    {e : EvidenceRow} (he : e ∈ live) (htenant : e.tenantId = config.tenantId)
    (hanti : e.polarity < 0 ∨ e.method = "human_rejected") :
    ∀ a ∈ plan.aliases, ∀ b ∈ plan.aliases, refOf a = e.leftRef → refOf b = e.rightRef →
      a.canonicalEntity ≠ b.canonicalEntity := by
  have hrow : e ∈ workingOrder config live := mem_workingOrder.mpr ⟨he, htenant⟩
  have hisAnti : e.isAntiLink = true := by simpa [EvidenceRow.isAntiLink] using hanti
  have halias : ∀ a ∈ plan.aliases, Aliased config (workingOrder config live) a := by
    intro a ha
    rcases hplan with hplan | hplan
    · rw [hplan, mem_aliases_iff] at ha
      exact ha
    · rw [hplan] at ha
      exact aliased_of_mem_refold ha
  intro a ha b hb hleft hright hcanonical
  obtain ⟨-, hmerges, least, hleast, hname⟩ := aliased_refOf (halias a ha)
  obtain ⟨-, -, least', hleast', hname'⟩ := aliased_refOf (halias b hb)
  rw [hleft] at hmerges hleast
  rw [hright] at hleast'
  have hlinked : Linked config (workingOrder config live) e.leftRef e.rightRef := by
    apply linked_of_canonicalName_eq hleast.1 hleast'.1
    rw [← hname, ← hname', hcanonical]
  exact hmerges.apart ⟨e, hrow, hisAnti, Linked.refl _, hlinked⟩

/-- Two accounts with a contact each, and a human who rejected that the accounts are one. -/
def accountsRejected : List EvidenceRow :=
  [⟨1, 7, "salesforce:1", "salesforce:2", 1, "crm_fk", none, none, 1, 10, none⟩,
    ⟨2, 7, "hubspot:3", "hubspot:4", 1, "crm_fk", none, none, 1, 20, none⟩,
    ⟨3, 7, "salesforce:1", "hubspot:3", 2, "human_rejected", none, none, -1, 30, none⟩]

/-- Two pairs of accounts with a rejection between them end with two canonicals. -/
theorem rejected_accounts_share_no_canonical :
    ∃ a ∈ (fold accountsRejected (.defaults 7)).aliases,
      ∃ b ∈ (fold accountsRejected (.defaults 7)).aliases,
        refOf a = "salesforce:1" ∧ refOf b = "hubspot:3" ∧
          a.canonicalEntity ≠ b.canonicalEntity := by
  have ha : (⟨"salesforce", "1", "canon:salesforce:1"⟩ : AliasWrite) ∈
      (fold accountsRejected (.defaults 7)).aliases := by decide +kernel
  have hb : (⟨"hubspot", "3", "canon:hubspot:3"⟩ : AliasWrite) ∈
      (fold accountsRejected (.defaults 7)).aliases := by decide +kernel
  exact ⟨_, ha, _, hb, rfl, rfl,
    anti_linked_refs_share_no_canonical accountsRejected _ [] ⟨fun _ => none, fun _ => none⟩ 8 _
      (Or.inl rfl)
      (e := ⟨3, 7, "salesforce:1", "hubspot:3", 2, "human_rejected", none, none, -1, 30, none⟩)
      (by simp [accountsRejected]) rfl (Or.inl (by decide)) _ ha _ hb rfl rfl⟩

/-! ## The stored cap -/

/-- The members that a run of the materializer sends to a canonical. -/
def membersSentTo (s : ResolutionStore) (tenant : TenantId) (failsAt : Option Nat)
    (canonical : String) : List MemberRef :=
  (((aliasesWritten s tenant failsAt).filter fun a => a.canonicalEntity = canonical).map
    memberOf).dedup

/-- No run writes aliases that send more than `n` members to one canonical. -/
def CapHolds (s : ResolutionStore) (tenant : TenantId) (n : Int) : Prop :=
  ∀ failsAt, ∀ a ∈ aliasesWritten s tenant failsAt,
    ((membersSentTo s tenant failsAt a.canonicalEntity).length : Int) ≤ n

/-- The tenant's live evidence, as a full fold of it goes through it. -/
def foldedEvidence (s : ResolutionStore) (tenant : TenantId) : List EvidenceRow :=
  workingOrder (s.foldConfig tenant) (s.allLiveEvidence tenant)

theorem mem_aliasesWritten_none (s : ResolutionStore) (tenant : TenantId) (a : AliasWrite) :
    a ∈ aliasesWritten s tenant none ↔
      Aliased (s.foldConfig tenant) (foldedEvidence s tenant) a := by
  rw [aliasesWritten_none, ResolutionStore.foldPlan, mem_aliases_iff]
  rfl

theorem aliasesWritten_subset (s : ResolutionStore) (tenant : TenantId) (failsAt : Option Nat) :
    aliasesWritten s tenant failsAt ⊆ aliasesWritten s tenant none := by
  rw [aliasesWritten_none, ← linksOf_planWrites]
  exact ((writesDone_sublist s tenant failsAt).filterMap _).subset

/-- A completed run sends the whole group to the canonical of one of its aliases. -/
theorem mem_membersSentTo {s : ResolutionStore} {tenant : TenantId}
    (ha : a ∈ aliasesWritten s tenant none) (m : MemberRef) :
    m ∈ membersSentTo s tenant none a.canonicalEntity ↔
      m ∈ groupOf (s.foldConfig tenant) (foldedEvidence s tenant) (refOf a) := by
  obtain ⟨-, hmerges, least, hleast, hname⟩ :=
    aliased_refOf ((mem_aliasesWritten_none s tenant a).mp ha)
  unfold membersSentTo
  simp only [List.mem_dedup, List.mem_map, List.mem_filter, decide_eq_true_eq]
  constructor
  · rintro ⟨b, ⟨hb, hcanonical⟩, rfl⟩
    obtain ⟨hsplit, -, least', hleast', hname'⟩ :=
      aliased_refOf ((mem_aliasesWritten_none s tenant b).mp hb)
    refine ⟨refOf b, ?_, hsplit⟩
    apply linked_of_canonicalName_eq hleast.1 hleast'.1
    rw [← hname, ← hname', hcanonical]
  · rintro ⟨y, hlinked, hsplit⟩
    obtain ⟨least', hleast', halias⟩ := exists_alias_of_merges hsplit (hmerges.congr hlinked)
    rw [groupOf_congr hlinked] at hleast
    refine ⟨_, ⟨(mem_aliasesWritten_none s tenant _).mpr halias, ?_⟩, rfl⟩
    rw [hname, hleast.unique hleast']

theorem length_membersSentTo {s : ResolutionStore} {tenant : TenantId}
    (ha : a ∈ aliasesWritten s tenant none) :
    (membersSentTo s tenant none a.canonicalEntity).length =
      (groupOf (s.foldConfig tenant) (foldedEvidence s tenant) (refOf a)).ncard := by
  have hset : groupOf (s.foldConfig tenant) (foldedEvidence s tenant) (refOf a) =
      ↑(membersSentTo s tenant none a.canonicalEntity).toFinset := by
    ext m
    rw [List.coe_toFinset, Set.mem_ofPred_eq]
    exact (mem_membersSentTo ha m).symm
  have hnodup : (membersSentTo s tenant none a.canonicalEntity).Nodup := List.nodup_dedup _
  rw [hset, Set.ncard_coe_finset, List.toFinset_card_of_nodup hnodup]

/-- A run that is cut short sends no member that a completed one does not. -/
theorem length_membersSentTo_le (s : ResolutionStore) (tenant : TenantId) (failsAt : Option Nat)
    (canonical : String) : (membersSentTo s tenant failsAt canonical).length ≤
      (membersSentTo s tenant none canonical).length := by
  refine ((List.nodup_dedup _).subperm ?_).length_le
  intro m hm
  simp only [membersSentTo, List.mem_dedup, List.mem_map, List.mem_filter] at hm ⊢
  obtain ⟨a, ⟨ha, hcanonical⟩, rfl⟩ := hm
  exact ⟨a, ⟨aliasesWritten_subset s tenant failsAt ha, hcanonical⟩, rfl⟩

/-- Of a tenant whose `('*', '*')` row has a cap: the materializer keeps within it if and only if
no component of the graph, with two members or more and no anti-link inside, exceeds it. Nothing
holds such a component back. -/
theorem stored_cap_holds_iff (s : ResolutionStore) (tenant : TenantId) (n : Int)
    (_hstored : ∃ row ∈ s.listResolutionConfig tenant,
      row.keyKind = "*" ∧ row.keyNamespace = "*" ∧ row.componentSizeCap = some n) :
    CapHolds s tenant n ↔
      ∀ x, 2 ≤ (groupOf (s.foldConfig tenant) (foldedEvidence s tenant) x).ncard →
        ¬ AntiLinked (s.foldConfig tenant) (foldedEvidence s tenant) x →
        ((groupOf (s.foldConfig tenant) (foldedEvidence s tenant) x).ncard : Int) ≤ n := by
  -- the stored row is not looked at: the cap of the fold is the one of its fallback
  have hnocap : (s.foldConfig tenant).componentSizeCap = none := rfl
  constructor
  · intro hholds x htwo hapart
    have hmerges : Merges (s.foldConfig tenant) (foldedEvidence s tenant) x :=
      ⟨htwo, by simp [hnocap], hapart⟩
    obtain ⟨m, y, hlinked, hsplit⟩ : (groupOf (s.foldConfig tenant) (foldedEvidence s tenant)
        x).Nonempty := by
      apply Set.nonempty_of_ncard_ne_zero
      omega
    obtain ⟨least, -, halias⟩ := exists_alias_of_merges hsplit (hmerges.congr hlinked)
    have hwritten := (mem_aliasesWritten_none s tenant _).mpr halias
    have hcount := hholds none _ hwritten
    rw [length_membersSentTo hwritten] at hcount
    have href : refOf ⟨m.source, m.entityId, canonicalName least⟩ = y :=
      (eq_of_splitMemberRef hsplit).symm
    rwa [href, ← groupOf_congr hlinked] at hcount
  · intro hsmall failsAt a ha
    have hwritten := aliasesWritten_subset s tenant failsAt ha
    obtain ⟨-, hmerges, -⟩ := aliased_refOf ((mem_aliasesWritten_none s tenant a).mp hwritten)
    have hle := length_membersSentTo_le s tenant failsAt a.canonicalEntity
    rw [length_membersSentTo hwritten] at hle
    have hgroup := hsmall (refOf a) hmerges.two hmerges.apart
    omega

/-- A tenant that allows two members in a component, and three accounts in a chain. -/
def cappedChain : ResolutionStore where
  evidence :=
    [⟨1, 7, "salesforce:1", "hubspot:2", 1, "crm_fk", none, none, 1, 10, none⟩,
      ⟨2, 7, "hubspot:2", "linear:3", 1, "crm_fk", none, none, 1, 20, none⟩]
  config := [{ EntityResolutionConfig.defaults 7 "*" "*" with componentSizeCap := some 2 }]
  aliases := []
  chunks := .empty
  linkMeta := []

/-- What the stored cap of the chain comes to. -/
theorem capped_chain_holds_iff : CapHolds cappedChain 7 2 ↔
    ∀ x, 2 ≤ (groupOf (cappedChain.foldConfig 7) (foldedEvidence cappedChain 7) x).ncard →
      ¬ AntiLinked (cappedChain.foldConfig 7) (foldedEvidence cappedChain 7) x →
      ((groupOf (cappedChain.foldConfig 7) (foldedEvidence cappedChain 7) x).ncard : Int) ≤ 2 :=
  stored_cap_holds_iff cappedChain 7 2
    ⟨{ EntityResolutionConfig.defaults 7 "*" "*" with componentSizeCap := some 2 },
      by decide, rfl, rfl, rfl⟩

/-- The materializer sends all three to one canonical. -/
theorem capped_chain_merged_whole :
    (∃ row ∈ cappedChain.listResolutionConfig 7,
      row.keyKind = "*" ∧ row.keyNamespace = "*" ∧ row.componentSizeCap = some 2) ∧
    membersSentTo cappedChain 7 none "canon:hubspot:2" =
      [⟨"hubspot", "2"⟩, ⟨"linear", "3"⟩, ⟨"salesforce", "1"⟩] ∧ ¬ CapHolds cappedChain 7 2 := by
  have hwritten : (⟨"hubspot", "2", "canon:hubspot:2"⟩ : AliasWrite) ∈
      aliasesWritten cappedChain 7 none := by decide +kernel
  have hsent : membersSentTo cappedChain 7 none "canon:hubspot:2" =
      [⟨"hubspot", "2"⟩, ⟨"linear", "3"⟩, ⟨"salesforce", "1"⟩] := by decide +kernel
  refine ⟨⟨{ EntityResolutionConfig.defaults 7 "*" "*" with componentSizeCap := some 2 },
    by decide, rfl, rfl, rfl⟩, hsent, ?_⟩
  intro hholds
  have hcount := hholds none _ hwritten
  rw [hsent] at hcount
  exact absurd hcount (by decide)

end Verity.Analysis
