import Verity.Analysis.DirectoryMirror

/-!
# The local closure of a directory

`transitive_user_closure` searches the snapshot for the users in a group and the groups in it, for
diagnostics; enforcement asks the permission service, which follows the tuples. The search opens
every group once, so it ends on cyclic groups too, with the users that are in a group reached from
the one it started at. Where no membership is stranded, these are the users whose groups, as the
service resolves them, include the group (`closure_agrees_with_service`).
-/

set_option autoImplicit false

namespace Verity.Analysis

open Relation
open Verity.Model Verity.Foundation

/-- The memberships of groups in groups, which the search follows. -/
def nestings (memberships : List (String × String)) : List (String × String) :=
  memberships.filter fun e => !startsWith e.2 "user:" && startsWith e.2 "group:"

theorem targets_nestings (memberships : List (String × String)) (group : String) :
    targets (nestings memberships) group =
      ((memberships.filter fun e => e.1 = group).map Prod.snd).filter
        fun m => !startsWith m "user:" && startsWith m "group:" := by
  unfold targets nestings
  rw [List.filter_map, List.filter_filter, List.filter_filter]
  congr 1
  apply List.filter_congr
  intro e _
  exact Bool.and_comm _ _

/-- The loop collects the users of the groups that the search opens. -/
theorem mem_closureLoop_iff {memberships : List (String × String)} (fuel : Nat)
    {stack visited users : List String} {u : String} :
    u ∈ closureLoop memberships fuel stack visited users ↔
      u ∈ users ∨ ∃ g ∈ search (nestings memberships) fuel stack visited,
        g ∉ visited ∧ (g, u) ∈ memberships ∧ startsWith u "user:" = true := by
  induction fuel generalizing stack visited users with
  | zero =>
    unfold closureLoop search
    constructor
    · exact Or.inl
    · rintro (h | ⟨g, hg, hnot, -⟩)
      · exact h
      · exact absurd hg hnot
  | succ fuel ih =>
    cases stack with
    | nil =>
      unfold closureLoop search
      constructor
      · exact Or.inl
      · rintro (h | ⟨g, hg, hnot, -⟩)
        · exact h
        · exact absurd hg hnot
    | cons current stack =>
      unfold closureLoop search
      split
      · exact ih
      · rename_i hfresh
        dsimp only
        rw [← targets_nestings, ih]
        simp only [List.mem_append, List.mem_filter, List.mem_map, decide_eq_true_eq,
          Prod.exists, exists_eq_right, List.mem_cons, not_or]
        constructor
        · rintro ((hu | ⟨hmem, huser⟩) | ⟨g, hg, ⟨-, hnot⟩, hmem, huser⟩)
          · exact Or.inl hu
          · exact Or.inr ⟨current, mem_search_of_visited fuel List.mem_cons_self, hfresh, hmem,
              huser⟩
          · exact Or.inr ⟨g, hg, hnot, hmem, huser⟩
        · rintro (hu | ⟨g, hg, hnot, hmem, huser⟩)
          · exact Or.inl (Or.inl hu)
          · by_cases hcurrent : g = current
            · rw [hcurrent] at hmem
              exact Or.inl (Or.inr ⟨hmem, huser⟩)
            · exact Or.inr ⟨g, hg, ⟨hcurrent, hnot⟩, hmem, huser⟩

theorem lookup_map_keys {β : Type} (f : String → β) (keys : List String) (k : String) :
    (keys.map fun key => (key, f key)).lookup k = if k ∈ keys then some (f k) else none := by
  induction keys with
  | nil => simp
  | cons key keys ih =>
    rw [List.map_cons, List.lookup_cons]
    by_cases hk : k = key
    · subst hk
      simp
    · have hne : (k == key) = false := beq_eq_false_iff_ne.mpr hk
      simp [hne, hk, ih]

/-- The closure of a group has the users in the groups that it reaches. -/
theorem mem_transitiveUserClosure {memberships : List (String × String)} {group u : String} :
    (∃ users, (transitiveUserClosure memberships).lookup group = some users ∧ u ∈ users) ↔
      ∃ g, Reach (nestings memberships) group g ∧ (g, u) ∈ memberships ∧
        startsWith u "user:" = true := by
  have hfuel : (nestings memberships).length + 1 ≤ memberships.length + 1 :=
    Nat.succ_le_succ (List.length_filter_le _ _)
  unfold transitiveUserClosure
  rw [lookup_map_keys]
  constructor
  · rintro ⟨users, hlookup, hu⟩
    split at hlookup
    · obtain rfl := Option.some.inj hlookup
      rcases (mem_closureLoop_iff _).mp hu with hu | ⟨g, hg, -, hmem, huser⟩
      · exact absurd hu (by simp)
      · exact ⟨g, (mem_search_iff hfuel).mp hg, hmem, huser⟩
    · exact absurd hlookup (by simp)
  · rintro ⟨g, hreach, hmem, huser⟩
    have hkey : group ∈ (memberships.map Prod.fst).dedup := by
      rw [List.mem_dedup]
      rcases ReflTransGen.cases_head hreach with rfl | ⟨next, hnext, -⟩
      · exact List.mem_map_of_mem hmem
      · exact List.mem_map_of_mem (List.mem_filter.mp hnext).1
    rw [if_pos hkey]
    refine ⟨_, rfl, (mem_closureLoop_iff _).mpr (Or.inr ⟨g, ?_, by simp, hmem, huser⟩)⟩
    exact (mem_search_iff hfuel).mpr hreach

/-! ## Tuples -/

theorem startsWith_group_user (name : String) : startsWith ("group:" ++ name) "user:" = false := by
  rw [Bool.eq_false_iff]
  intro h
  obtain ⟨rest, hrest⟩ := startsWith_eq_true.mp h
  have hlist := congrArg String.toList hrest
  simp [String.toList_append] at hlist

theorem mem_nestings {memberships : List (String × String)} {group c : String} :
    (group, c) ∈ nestings memberships ↔
      (group, c) ∈ memberships ∧ ∃ name, c = groupPrincipal name := by
  unfold nestings
  rw [List.mem_filter, Bool.and_eq_true, Bool.not_eq_true', startsWith_eq_true]
  constructor
  · rintro ⟨hmem, -, rest, hrest⟩
    exact ⟨hmem, rest, hrest⟩
  · rintro ⟨hmem, name, rfl⟩
    exact ⟨hmem, startsWith_group_user name, name, rfl⟩

section Tuples

variable {graph : MembershipGraph} {memberships : List (String × String)}

/-- Where the tuples are the memberships, the edge of a tuple is the membership of its strings. -/
theorem edge_iff_of_mirrored
    (hmirror : ∀ group c, c ∈ membersOf graph group ↔ (group, c) ∈ memberships)
    (kind : PrincipalKind) (name group : String) :
    ((kind, name), (PrincipalKind.group, group)) ∈ graph.edges ↔
      (groupPrincipal group, principalString kind name) ∈ memberships := by
  rw [← hmirror, mem_membersOf]
  unfold MembershipGraph.edges
  rw [List.mem_map]
  constructor
  · rintro ⟨m, hm, hedge⟩
    simp only [Membership.edge, Prod.mk.injEq, true_and] at hedge
    obtain ⟨⟨rfl, rfl⟩, rfl⟩ := hedge
    exact ⟨m, hm, rfl, rfl⟩
  · rintro ⟨m, hm, hgroup, hmember⟩
    obtain ⟨hkind, hname⟩ := principalString_injective hmember
    refine ⟨m, hm, ?_⟩
    simp only [Membership.edge, hkind, hname, groupPrincipal_injective hgroup]

/-- Nestings lead where membership does. -/
theorem reach_nestings_iff
    (hmirror : ∀ group c, c ∈ membersOf graph group ↔ (group, c) ∈ memberships)
    {group inner : String} :
    Reach (nestings memberships) (groupPrincipal group) (groupPrincipal inner) ↔
      graph.Belongs (.group, inner) group := by
  constructor
  · suffices h : ∀ c, Reach (nestings memberships) (groupPrincipal group) c →
        ∃ name, c = groupPrincipal name ∧ graph.Belongs (.group, name) group by
      intro hreach
      obtain ⟨name, hname, hbelongs⟩ := h _ hreach
      rw [groupPrincipal_injective hname]
      exact hbelongs
    intro c hreach
    induction hreach with
    | refl => exact ⟨group, rfl, ReflTransGen.refl⟩
    | tail _ hstep ih =>
      obtain ⟨name, rfl, hbelongs⟩ := ih
      obtain ⟨hmem, inner, rfl⟩ := mem_nestings.mp hstep
      refine ⟨inner, rfl, ReflTransGen.head ?_ hbelongs⟩
      exact (edge_iff_of_mirrored hmirror .group _ _).mpr hmem
  · intro hbelongs
    unfold MembershipGraph.Belongs at hbelongs
    suffices h : ∀ node, Reach graph.edges node (.group, group) → ∀ name, node = (.group, name) →
        Reach (nestings memberships) (groupPrincipal group) (groupPrincipal name) from
      h _ hbelongs inner rfl
    intro node hreach
    induction hreach using ReflTransGen.head_induction_on with
    | refl =>
      intro name hname
      obtain ⟨-, rfl⟩ := Prod.mk.inj hname
      exact ReflTransGen.refl
    | head hstep _ ih =>
      rintro name rfl
      obtain ⟨m, -, hedge⟩ := List.mem_map.mp hstep
      obtain ⟨-, rfl⟩ := Prod.mk.inj hedge
      refine ReflTransGen.tail (ih m.group rfl) ?_
      exact mem_nestings.mpr ⟨(edge_iff_of_mirrored hmirror .group _ _).mp hstep, name, rfl⟩

/-- The closure of a group has a user exactly when the user belongs to the group in the tuples. -/
theorem closure_iff_belongs
    (hmirror : ∀ group c, c ∈ membersOf graph group ↔ (group, c) ∈ memberships)
    {group user : String} :
    (∃ users, (transitiveUserClosure memberships).lookup (groupPrincipal group) = some users ∧
        userPrincipal user ∈ users) ↔ graph.Belongs (.user, user) group := by
  rw [mem_transitiveUserClosure]
  constructor
  · rintro ⟨g, hreach, hmem, -⟩
    obtain ⟨name, rfl⟩ : ∃ name, g = groupPrincipal name := by
      rcases ReflTransGen.cases_tail hreach with rfl | ⟨before, -, hstep⟩
      · exact ⟨group, rfl⟩
      · exact (mem_nestings.mp hstep).2
    refine ReflTransGen.head ?_ ((reach_nestings_iff hmirror).mp hreach)
    exact (edge_iff_of_mirrored hmirror .user _ _).mpr hmem
  · intro hbelongs
    rcases ReflTransGen.cases_head hbelongs with hsame | ⟨next, hstep, hrest⟩
    · exact absurd (Prod.mk.inj hsame).1 (by simp)
    · obtain ⟨m, -, hedge⟩ := List.mem_map.mp hstep
      obtain ⟨-, rfl⟩ := Prod.mk.inj hedge
      refine ⟨groupPrincipal m.group, (reach_nestings_iff hmirror).mpr hrest, ?_, ?_⟩
      · exact (edge_iff_of_mirrored hmirror .user _ _).mp hstep
      · exact startsWith_eq_true.mpr ⟨user, rfl⟩

end Tuples

namespace GDirectory

open Verity.Model.GDirectory

variable {lower strip toLowercase : String → String} {lookup : MembershipGraph → SpiceDb}
  {config : GDirectoryConfig}

/-- In every state of a run in which no membership is stranded, the closure that the connector
computes from its snapshot has a user in a group exactly when the permission service resolves the
group for the user. -/
theorem closure_agrees_with_service (hexact : ∀ graph, ExactLookup graph (lookup graph))
    {plane : RegistryPlane} {events : List SyncEvent} {s : DirectorySync}
    (hrun : run (syncStep lower strip toLowercase lookup config) (.start plane) events = some s)
    (hnone : ∀ edge, ¬ Stranded (s.past.map edgeAttempt) edge) {tenant : TenantId} {user : String}
    {groups : List String}
    (hgroups : (lookup s.plane.graph).userGroups tenant user = .ok groups) (group : String) :
    (∃ users, (transitiveUserClosure s.snapshot.memberships).lookup (groupPrincipal group) =
        some users ∧ userPrincipal user ∈ users) ↔ groupPrincipal group ∈ groups := by
  have hmirror : ∀ group c, c ∈ membersOf s.plane.graph group ↔
      (group, c) ∈ s.snapshot.memberships := by
    intro group c
    rw [directory_edge_iff hrun]
    simp [hnone (group, c)]
  rw [mem_userGroups (hexact s.plane.graph) hgroups]
  exact closure_iff_belongs hmirror

/-- Two groups in each other, with one user. -/
def cyclicGroups : Directory where
  users := [⟨"1", "ana", false, false, [], []⟩]
  groups := ["staff", "leads"]
  members := [("staff", ⟨"GROUP", "leads"⟩), ("leads", ⟨"GROUP", "staff"⟩),
    ("leads", ⟨"USER", "ana"⟩)]

/-- Two groups that contain each other: the closure search ends with the user in the outer one, and
so does the service. -/
theorem cyclic_closure_agrees :
    ∃ s groups, run (syncStep id id id exactService directoryConfig) (.start directoryServer)
        [.cycle cyclicGroups none 0] = some s ∧
      (exactService s.plane.graph).userGroups 1 "ana" = .ok groups ∧
      (transitiveUserClosure s.snapshot.memberships).lookup "group:staff" = some ["user:ana"] ∧
      "group:staff" ∈ groups := by
  have hrun : (run (syncStep id id id exactService directoryConfig) (.start directoryServer)
      [.cycle cyclicGroups none 0]).map (fun s =>
        ((transitiveUserClosure s.snapshot.memberships).lookup "group:staff",
          s.past.map CycleRecord.ending)) =
      some (some ["user:ana"], [.complete]) := by decide +kernel
  obtain ⟨s, hs, hview⟩ := Option.map_eq_some_iff.mp hrun
  obtain ⟨hclosure, hpast⟩ := Prod.mk.inj hview
  have hnone : ∀ edge, ¬ Stranded (s.past.map edgeAttempt) edge := by
    intro edge
    apply not_stranded_of_complete
    intro a ha
    obtain ⟨c, hc, rfl⟩ := List.mem_map.mp ha
    have hending := List.mem_map_of_mem (f := CycleRecord.ending) hc
    rw [hpast] at hending
    exact List.mem_singleton.mp hending
  have hgroups : (exactService s.plane.graph).userGroups 1 "ana" = .ok _ := rfl
  have hiff := closure_agrees_with_service exactLookup_exactService hs hnone hgroups "staff"
  exact ⟨s, _, hs, rfl, hclosure, hiff.mp ⟨["user:ana"], hclosure, by decide⟩⟩

end GDirectory

end Verity.Analysis
