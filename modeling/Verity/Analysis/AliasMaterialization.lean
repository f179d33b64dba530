import Verity.Foundation.Run
import Verity.Model.Resolver

/-!
# The alias table and the fold

The materializer writes the aliases of the fold and removes nothing. So the table after a run
is the fold's aliases together with every row of a member that the fold no longer aliases. The
rows of a tenant come from earlier runs alone; the table is exact after a run if and only if
every member that an earlier run has aliased is aliased by this one.
-/

set_option autoImplicit false

namespace Verity.Analysis

open Verity.Model Verity.Foundation

variable {s : ResolutionStore} {tenant : TenantId}

/-! ## The fold aliases no member twice -/

/-- The member an alias is for. -/
def memberOf (a : AliasWrite) : MemberRef := ⟨a.source, a.entityId⟩

/-- The members of an outcome's aliases are the component's, or none. -/
theorem members_outcome (config : FoldConfig) (evidence : List EvidenceRow) (c : Candidates)
    (component : List String) :
    (componentOutcome config evidence c component).aliases.map memberOf = [] ∨
      (componentOutcome config evidence c component).aliases.map memberOf =
        component.filterMap splitMemberRef := by
  unfold componentOutcome
  dsimp only
  split
  · exact Or.inl rfl
  · split
    · exact Or.inl rfl
    · have hmerged : ∀ canonical badge,
          (ComponentOutcome.merged canonical (component.filterMap splitMemberRef)
            badge).aliases.map memberOf = component.filterMap splitMemberRef := by
        intro canonical badge
        simp [ComponentOutcome.aliases, memberOf, Function.comp_def]
      split
      · split
        · exact Or.inl rfl
        · exact Or.inr (hmerged _ _)
      · exact Or.inr (hmerged _ _)

theorem mem_component_of_mem_members {config : FoldConfig} {evidence : List EvidenceRow}
    {c : Candidates} {component : List String} {m : MemberRef}
    (hm : m ∈ (componentOutcome config evidence c component).aliases.map memberOf) :
    ∃ ref ∈ component, splitMemberRef ref = some m := by
  rcases members_outcome config evidence c component with hnone | hall
  · rw [hnone] at hm
    exact absurd hm List.not_mem_nil
  · rw [hall] at hm
    exact List.mem_filterMap.mp hm

theorem members_nodup_of_component {config : FoldConfig} {evidence : List EvidenceRow}
    {c : Candidates} {component : List String} (h : component.Nodup) :
    ((componentOutcome config evidence c component).aliases.map memberOf).Nodup := by
  rcases members_outcome config evidence c component with hnone | hall
  · rw [hnone]
    exact List.nodup_nil
  · rw [hall]
    refine h.filterMap ?_
    intro ref ref' m hm hm'
    exact splitMemberRef_injective hm hm'

/-- A member is in one component, and has one ref there. -/
theorem foldOutcomes_members_nodup (config : FoldConfig) (evidence : List EvidenceRow) :
    (((foldOutcomes config evidence).flatMap (·.aliases)).map memberOf).Nodup := by
  unfold foldOutcomes
  dsimp only
  rw [List.map_flatMap, List.flatMap_map, List.nodup_flatMap]
  constructor
  · intro component hcomponent
    exact members_nodup_of_component (UnionFind.nodup_of_mem_components hcomponent)
  · refine (UnionFind.components_disjoint _).imp ?_
    intro component component' hdisjoint m hm hm'
    obtain ⟨ref, href, hsplit⟩ := mem_component_of_mem_members hm
    obtain ⟨ref', href', hsplit'⟩ := mem_component_of_mem_members hm'
    obtain rfl := splitMemberRef_injective hsplit hsplit'
    exact hdisjoint href href'

theorem fold_members_nodup (liveEvidence : List EvidenceRow) (config : FoldConfig)
    (known : List String) :
    ((foldWithKnownCanonicals liveEvidence config known).aliases.map memberOf).Nodup := by
  have hperm := (aliases_perm liveEvidence config known).map memberOf
  exact hperm.nodup_iff.mpr (foldOutcomes_members_nodup config _)

/-! ## What a run leaves in the table -/

/-- The rows of the tenant. -/
def aliasesOf (s : ResolutionStore) (tenant : TenantId) : List AliasWrite :=
  (s.aliases.filter fun a => a.tenantId = tenant).map fun a =>
    ⟨a.source, a.entityId, a.canonicalEntity⟩

theorem mem_aliasesOf {a : AliasWrite} :
    a ∈ aliasesOf s tenant ↔ ⟨tenant, a.source, a.entityId, a.canonicalEntity⟩ ∈ s.aliases := by
  unfold aliasesOf
  simp only [List.mem_map, List.mem_filter, decide_eq_true_eq]
  constructor
  · rintro ⟨⟨t, source, entityId, canonical⟩, ⟨hrow, rfl⟩, rfl⟩
    exact hrow
  · intro hrow
    exact ⟨_, ⟨hrow, rfl⟩, rfl⟩

/-- An upsert sets the one row of its member, and keeps the others. -/
theorem mem_upsertEntityAlias {source entityId canonical : String} {row : EntityAlias} :
    row ∈ (s.upsertEntityAlias tenant source entityId canonical).aliases ↔
      row = ⟨tenant, source, entityId, canonical⟩ ∨
        (row ∈ s.aliases ∧
          ¬ (row.tenantId = tenant ∧ row.source = source ∧ row.entityId = entityId)) := by
  unfold ResolutionStore.upsertEntityAlias
  dsimp only
  split
  · rename_i hthere
    simp only [List.any_eq_true, decide_eq_true_eq] at hthere
    simp only [List.mem_map, decide_eq_true_eq]
    constructor
    · rintro ⟨old, hold, rfl⟩
      split
      · rename_i hsame
        obtain ⟨rfl, rfl, rfl⟩ := hsame
        exact Or.inl rfl
      · rename_i hother
        exact Or.inr ⟨hold, hother⟩
    · rintro (rfl | ⟨hold, hother⟩)
      · obtain ⟨old, hold, hsame⟩ := hthere
        refine ⟨old, hold, ?_⟩
        rw [if_pos hsame]
        obtain ⟨rfl, rfl, rfl⟩ := hsame
        rfl
      · exact ⟨row, hold, if_neg hother⟩
  · rename_i hnone
    simp only [List.any_eq_true, decide_eq_true_eq, not_exists, not_and] at hnone
    rw [List.mem_append, List.mem_singleton]
    constructor
    · rintro (hold | hnew)
      · exact Or.inr ⟨hold, fun hsame => hnone row hold hsame.1 hsame.2.1 hsame.2.2⟩
      · exact Or.inl hnew
    · rintro (hnew | ⟨hold, _⟩)
      · exact Or.inr hnew
      · exact Or.inl hold

theorem mem_aliasesOf_upsert {tenant' : TenantId} {w a : AliasWrite} :
    a ∈ aliasesOf (s.upsertEntityAlias tenant' w.source w.entityId w.canonicalEntity) tenant ↔
      (tenant = tenant' ∧ a = w) ∨
        (a ∈ aliasesOf s tenant ∧ ¬ (tenant = tenant' ∧ memberOf a = memberOf w)) := by
  rw [mem_aliasesOf, mem_upsertEntityAlias, mem_aliasesOf]
  cases a
  cases w
  simp [memberOf]

/-- A write of tags or of a badge leaves the aliases. -/
theorem aliases_applyWrite_of_not_link {w : ResolutionStore.PlanWrite} (hw : ∀ a, w ≠ .link a) :
    (s.applyWrite tenant w).aliases = s.aliases := by
  cases w with
  | link a => exact absurd rfl (hw a)
  | tags w =>
    unfold ResolutionStore.applyWrite
    dsimp only
    split <;> rfl
  | badge m =>
    unfold ResolutionStore.applyWrite ResolutionStore.upsertEntityLinkMeta
    dsimp only
    split <;> rfl

/-- The aliases among the writes. -/
def linksOf (writes : List ResolutionStore.PlanWrite) : List AliasWrite :=
  writes.filterMap fun
    | .link a => some a
    | _ => none

theorem linksOf_planWrites (plan : FoldPlan) :
    linksOf (ResolutionStore.planWrites plan) = plan.aliases := by
  simp [linksOf, ResolutionStore.planWrites, List.filterMap_append, List.filterMap_map]

/-- After the writes, the aliases are those written and the old ones of other members. -/
theorem mem_aliasesOf_writes {writes : List ResolutionStore.PlanWrite}
    (hnodup : ((linksOf writes).map memberOf).Nodup) (s : ResolutionStore) (a : AliasWrite) :
    a ∈ aliasesOf (writes.foldl (ResolutionStore.applyWrite tenant) s) tenant ↔
      a ∈ linksOf writes ∨
        (a ∈ aliasesOf s tenant ∧ memberOf a ∉ (linksOf writes).map memberOf) := by
  induction writes generalizing s with
  | nil => simp [linksOf]
  | cons w writes ih =>
    rw [List.foldl_cons]
    by_cases hlink : ∃ b, w = .link b
    · obtain ⟨b, rfl⟩ := hlink
      have hlinks : linksOf (.link b :: writes) = b :: linksOf writes := rfl
      rw [hlinks, List.map_cons, List.nodup_cons] at hnodup
      rw [ih hnodup.2, hlinks]
      unfold ResolutionStore.applyWrite
      dsimp only
      rw [mem_aliasesOf_upsert]
      simp only [true_and, List.mem_cons, List.map_cons, not_or]
      constructor
      · rintro (hlater | ⟨rfl | ⟨hold, hother⟩, hlater⟩)
        · exact Or.inl (Or.inr hlater)
        · exact Or.inl (Or.inl rfl)
        · exact Or.inr ⟨hold, hother, hlater⟩
      · rintro ((rfl | hlater) | ⟨hold, hother, hlater⟩)
        · exact Or.inr ⟨Or.inl rfl, hnodup.1⟩
        · exact Or.inl hlater
        · exact Or.inr ⟨Or.inr ⟨hold, hother⟩, hlater⟩
    · have hlinks : linksOf (w :: writes) = linksOf writes := by
        cases w with
        | link b => exact absurd ⟨b, rfl⟩ hlink
        | tags w => rfl
        | badge m => rfl
      have hsame : aliasesOf (s.applyWrite tenant w) tenant = aliasesOf s tenant := by
        unfold aliasesOf
        rw [aliases_applyWrite_of_not_link (fun b hb => hlink ⟨b, hb⟩)]
      rw [hlinks] at hnodup ⊢
      rw [ih hnodup, hsame]

theorem writesDone_sublist (s : ResolutionStore) (tenant : TenantId) (failsAt : Option Nat) :
    (s.writesDone tenant failsAt).Sublist (ResolutionStore.planWrites (s.foldPlan tenant)) := by
  unfold ResolutionStore.writesDone
  cases failsAt with
  | none => exact List.Sublist.refl _
  | some n => exact List.take_sublist _ _

/-- The aliases that a run of the fold writes. -/
def aliasesWritten (s : ResolutionStore) (tenant : TenantId) (failsAt : Option Nat) :
    List AliasWrite :=
  linksOf (s.writesDone tenant failsAt)

theorem aliasesWritten_none (s : ResolutionStore) (tenant : TenantId) :
    aliasesWritten s tenant none = (s.foldPlan tenant).aliases :=
  linksOf_planWrites _

theorem aliasesWritten_members_nodup (s : ResolutionStore) (tenant : TenantId)
    (failsAt : Option Nat) : ((aliasesWritten s tenant failsAt).map memberOf).Nodup := by
  have hsublist := ((writesDone_sublist s tenant failsAt).filterMap fun
    | .link a => some a
    | _ => none).map memberOf
  refine hsublist.nodup ?_
  have hplan := fold_members_nodup (s.allLiveEvidence tenant) (s.foldConfig tenant)
    (s.allCanonicalKeys tenant)
  rw [← linksOf_planWrites] at hplan
  exact hplan

theorem mem_aliasesOf_runFullFold (s : ResolutionStore) (tenant : TenantId)
    (failsAt : Option Nat) (a : AliasWrite) :
    a ∈ aliasesOf (s.runFullFold tenant failsAt) tenant ↔
      a ∈ aliasesWritten s tenant failsAt ∨
        (a ∈ aliasesOf s tenant ∧ memberOf a ∉ (aliasesWritten s tenant failsAt).map memberOf) :=
  mem_aliasesOf_writes (aliasesWritten_members_nodup s tenant failsAt) s a

/-- A run for another tenant leaves the tenant's aliases. -/
theorem mem_aliasesOf_runFullFold_of_ne {tenant' : TenantId} (hne : tenant ≠ tenant')
    (s : ResolutionStore) (failsAt : Option Nat) (a : AliasWrite) :
    a ∈ aliasesOf (s.runFullFold tenant' failsAt) tenant ↔ a ∈ aliasesOf s tenant := by
  unfold ResolutionStore.runFullFold
  generalize s.writesDone tenant' failsAt = writes
  induction writes generalizing s with
  | nil => rfl
  | cons w writes ih =>
    rw [List.foldl_cons, ih]
    by_cases hlink : ∃ b, w = .link b
    · obtain ⟨b, rfl⟩ := hlink
      exact mem_aliasesOf_upsert.trans (by simp [hne])
    · unfold aliasesOf
      rw [aliases_applyWrite_of_not_link (fun b hb => hlink ⟨b, hb⟩)]

/-! ## Whole runs -/

/-- The member has a row in the tenant's table. -/
def HasAlias (s : ResolutionStore) (tenant : TenantId) (m : MemberRef) : Prop :=
  ∃ a ∈ aliasesOf s tenant, memberOf a = m

/-- A run of the fold keeps the members of the table and adds those it writes. A row may be
replaced, but only by another row of the same member. -/
theorem hasAlias_runFullFold (s : ResolutionStore) (tenant : TenantId) (failsAt : Option Nat)
    (m : MemberRef) :
    HasAlias (s.runFullFold tenant failsAt) tenant m ↔
      HasAlias s tenant m ∨ m ∈ (aliasesWritten s tenant failsAt).map memberOf := by
  have hwrites : m ∈ (aliasesWritten s tenant failsAt).map memberOf →
      HasAlias (s.runFullFold tenant failsAt) tenant m := by
    intro hwritten
    obtain ⟨b, hb, hmember⟩ := List.mem_map.mp hwritten
    exact ⟨b, (mem_aliasesOf_runFullFold s tenant failsAt b).mpr (Or.inl hb), hmember⟩
  constructor
  · rintro ⟨a, ha, rfl⟩
    rcases (mem_aliasesOf_runFullFold s tenant failsAt a).mp ha with hnew | ⟨hold, _⟩
    · exact Or.inr (List.mem_map_of_mem hnew)
    · exact Or.inl ⟨a, hold, rfl⟩
  · rintro (⟨a, hold, rfl⟩ | hwritten)
    · by_cases hwritten : memberOf a ∈ (aliasesWritten s tenant failsAt).map memberOf
      · exact hwrites hwritten
      · exact ⟨a, (mem_aliasesOf_runFullFold s tenant failsAt a).mpr
          (Or.inr ⟨hold, hwritten⟩), rfl⟩
    · exact hwrites hwritten

/-- Only a run of the fold for the tenant adds members to its table, and nothing takes any
out. -/
theorem hasAlias_step {s' : ResolutionStore} {op : ResolutionOp} (hstep : s.step op = some s')
    (m : MemberRef) :
    HasAlias s' tenant m ↔ HasAlias s tenant m ∨
      ∃ failsAt, op = .runFullFold tenant failsAt ∧
        m ∈ (aliasesWritten s tenant failsAt).map memberOf := by
  have hkept : s'.aliases = s.aliases → (∀ failsAt, op ≠ .runFullFold tenant failsAt) →
      (HasAlias s' tenant m ↔ HasAlias s tenant m ∨
        ∃ failsAt, op = .runFullFold tenant failsAt ∧
          m ∈ (aliasesWritten s tenant failsAt).map memberOf) := by
    intro haliases hop
    unfold HasAlias aliasesOf
    rw [haliases]
    constructor
    · exact Or.inl
    · rintro (hold | ⟨failsAt, hfold, _⟩)
      · exact hold
      · exact absurd hfold (hop failsAt)
  cases op with
  | insertEvidence _ _ _ | humanDecision _ _ _ _ _ _ =>
    simp only [ResolutionStore.step] at hstep
    split at hstep
    · exact absurd hstep (by simp)
    · cases hstep
      exact hkept rfl (by simp)
  | retractEvidence tenant' id now =>
    cases hstep
    exact hkept rfl (by simp)
  | writeConfig cfg =>
    cases hstep
    refine hkept ?_ (by simp)
    unfold ResolutionStore.writeResolutionConfig
    dsimp only
    split <;> rfl
  | runFullFold tenant' failsAt =>
    cases hstep
    by_cases hsame : tenant = tenant'
    · subst hsame
      rw [hasAlias_runFullFold]
      simp
    · unfold HasAlias
      simp only [mem_aliasesOf_runFullFold_of_ne hsame]
      constructor
      · exact Or.inl
      · rintro (hold | ⟨failsAt', hop, _⟩)
        · exact hold
        · cases hop
          exact absurd rfl hsame

/-- The members in the table are those that some run of the fold so far has written. -/
theorem hasAlias_run {chunks : ChunkTable} {ops : List ResolutionOp}
    (hrun : run ResolutionStore.step (.start chunks) ops = some s) (m : MemberRef) :
    HasAlias s tenant m ↔ ∃ earlier failsAt between s₁,
      ops = earlier ++ .runFullFold tenant failsAt :: between ∧
        run ResolutionStore.step (.start chunks) earlier = some s₁ ∧
          m ∈ (aliasesWritten s₁ tenant failsAt).map memberOf := by
  induction ops using List.reverseRecOn generalizing s with
  | nil =>
    cases hrun
    simp [HasAlias, aliasesOf, ResolutionStore.start]
  | append_singleton ops op ih =>
    obtain ⟨s₀, hs₀, hlast⟩ := run_append.mp hrun
    obtain ⟨s', hstep, hend⟩ := Option.bind_eq_some_iff.mp hlast
    obtain rfl : s' = s := by simpa [run] using hend
    rw [hasAlias_step hstep, ih hs₀]
    constructor
    · rintro (⟨earlier, failsAt, between, s₁, rfl, hs₁, hm⟩ | ⟨failsAt, rfl, hm⟩)
      · exact ⟨earlier, failsAt, between ++ [op], s₁, by simp, hs₁, hm⟩
      · exact ⟨ops, failsAt, [], s₀, rfl, hs₀, hm⟩
    · rintro ⟨earlier, failsAt, between, s₁, hsplit, hs₁, hm⟩
      rcases split_concat hsplit with ⟨rfl, rfl, rfl⟩ | ⟨older, rfl, hold⟩
      · obtain rfl : s₀ = s₁ := Option.some.inj (hs₀.symm.trans hs₁)
        exact Or.inr ⟨failsAt, rfl, hm⟩
      · exact Or.inl ⟨earlier, failsAt, older, s₁, hold, hs₁, hm⟩

/-- The table that a completed run leaves is the fold's aliases, and two members that resolve
to one canonical are members that the fold joins. -/
structure SplitsMaterialize (s : ResolutionStore) (tenant : TenantId) : Prop where
  exact_table : ∀ a, a ∈ aliasesOf (s.runFullFold tenant none) tenant ↔
    a ∈ (s.foldPlan tenant).aliases
  resolves : ∀ m m' : MemberRef, ∀ canonical,
    (s.runFullFold tenant none).resolveCanonical tenant m.source m.entityId = some canonical →
    (s.runFullFold tenant none).resolveCanonical tenant m'.source m'.entityId = some canonical →
      ⟨m.source, m.entityId, canonical⟩ ∈ (s.foldPlan tenant).aliases ∧
        ⟨m'.source, m'.entityId, canonical⟩ ∈ (s.foldPlan tenant).aliases

theorem mem_aliasesOf_of_resolveCanonical {source entityId canonical : String}
    (h : s.resolveCanonical tenant source entityId = some canonical) :
    ⟨source, entityId, canonical⟩ ∈ aliasesOf s tenant := by
  obtain ⟨row, hfind, rfl⟩ := Option.map_eq_some_iff.mp h
  have hkey := List.find?_some hfind
  simp only [decide_eq_true_eq] at hkey
  obtain ⟨rfl, rfl, rfl⟩ := hkey
  exact mem_aliasesOf.mpr (List.mem_of_find?_eq_some hfind)

/-- One run: the table is exact if and only if no member of the table has dropped out. -/
theorem splitsMaterialize_iff (s : ResolutionStore) (tenant : TenantId) :
    SplitsMaterialize s tenant ↔
      ∀ m, HasAlias s tenant m → m ∈ (s.foldPlan tenant).aliases.map memberOf := by
  constructor
  · rintro ⟨hexact, _⟩ m ⟨a, ha, rfl⟩
    by_contra hdropped
    rw [← aliasesWritten_none] at hdropped
    have hstays := (mem_aliasesOf_runFullFold s tenant none a).mpr (Or.inr ⟨ha, hdropped⟩)
    rw [aliasesWritten_none] at hdropped
    exact hdropped (List.mem_map_of_mem ((hexact a).mp hstays))
  · intro hkept
    have hexact : ∀ a, a ∈ aliasesOf (s.runFullFold tenant none) tenant ↔
        a ∈ (s.foldPlan tenant).aliases := by
      intro a
      rw [mem_aliasesOf_runFullFold, aliasesWritten_none]
      constructor
      · rintro (hnew | ⟨hold, hdropped⟩)
        · exact hnew
        · exact absurd (hkept _ ⟨a, hold, rfl⟩) hdropped
      · exact Or.inl
    refine ⟨hexact, ?_⟩
    intro m m' canonical hm hm'
    exact ⟨(hexact _).mp (mem_aliasesOf_of_resolveCanonical hm),
      (hexact _).mp (mem_aliasesOf_of_resolveCanonical hm')⟩

/-- Over every sequence of operations: each completed run of the fold leaves an exact table if
and only if every member that a run before it has aliased, completed or not, is aliased by its
own fold too. -/
theorem splits_materialize_iff_nothing_dropped (chunks : ChunkTable) (tenant : TenantId)
    (ops : List ResolutionOp) :
    (∀ before after s, ops = before ++ .runFullFold tenant none :: after →
      run ResolutionStore.step (.start chunks) before = some s → SplitsMaterialize s tenant) ↔
    ∀ earlier failsAt between after s₁ s,
      ops = (earlier ++ .runFullFold tenant failsAt :: between) ++
        .runFullFold tenant none :: after →
      run ResolutionStore.step (.start chunks) earlier = some s₁ →
      run ResolutionStore.step (.start chunks)
        (earlier ++ .runFullFold tenant failsAt :: between) = some s →
      ∀ a ∈ aliasesWritten s₁ tenant failsAt,
        memberOf a ∈ (s.foldPlan tenant).aliases.map memberOf := by
  constructor
  · intro hexact earlier failsAt between after s₁ s hops hs₁ hs a ha
    refine (splitsMaterialize_iff s tenant).mp (hexact _ after s hops hs) _ ?_
    exact (hasAlias_run hs _).mpr
      ⟨earlier, failsAt, between, s₁, rfl, hs₁, List.mem_map_of_mem ha⟩
  · intro hkept before after s hops hs
    refine (splitsMaterialize_iff s tenant).mpr ?_
    intro m hm
    obtain ⟨earlier, failsAt, between, s₁, rfl, hs₁, hwritten⟩ := (hasAlias_run hs m).mp hm
    obtain ⟨a, ha, rfl⟩ := List.mem_map.mp hwritten
    exact hkept earlier failsAt between after s₁ s hops hs₁ hs a ha

/-- Two records are linked by a foreign key and merged; the evidence is retracted and the fold
run again. The fold aliases nothing, and both records still resolve to the canonical they
shared. -/
theorem retracted_link_still_merged :
    ∃ s, run ResolutionStore.step (.start .empty)
        [.insertEvidence 1 10 ⟨7, "salesforce:1", "hubspot:2", 1, "crm_fk", none, none, 1⟩,
          .runFullFold 7 none, .retractEvidence 7 1 20] = some s ∧
      (s.foldPlan 7).aliases = [] ∧
      (s.runFullFold 7 none).resolveCanonical 7 "salesforce" "1" = some "canon:hubspot:2" ∧
      (s.runFullFold 7 none).resolveCanonical 7 "hubspot" "2" = some "canon:hubspot:2" ∧
      ¬ SplitsMaterialize s 7 := by
  have hview : (run ResolutionStore.step (.start .empty)
      [.insertEvidence 1 10 ⟨7, "salesforce:1", "hubspot:2", 1, "crm_fk", none, none, 1⟩,
        .runFullFold 7 none, .retractEvidence 7 1 20]).map (fun s =>
          ((s.foldPlan 7).aliases,
            (s.runFullFold 7 none).resolveCanonical 7 "salesforce" "1",
            (s.runFullFold 7 none).resolveCanonical 7 "hubspot" "2")) =
      some ([], some "canon:hubspot:2", some "canon:hubspot:2") := by
    decide +kernel
  obtain ⟨s, hs, hview⟩ := Option.map_eq_some_iff.mp hview
  simp only [Prod.mk.injEq] at hview
  obtain ⟨hfold, hsalesforce, hhubspot⟩ := hview
  refine ⟨s, hs, hfold, hsalesforce, hhubspot, ?_⟩
  intro hexact
  have hrow := (hexact.resolves ⟨"salesforce", "1"⟩ ⟨"hubspot", "2"⟩ _ hsalesforce hhubspot).1
  rw [hfold] at hrow
  exact absurd hrow List.not_mem_nil

end Verity.Analysis
