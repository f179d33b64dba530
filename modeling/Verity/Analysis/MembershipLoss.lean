import Verity.Foundation.Run
import Verity.Model.Membership

/-!
# Lost groups are tombstoned

The watch resolves a deleted membership on the graph as it is when it gets to it, which may
be after further deletions have cut the way up to the groups that were lost. Still no loss
goes unnoticed. While a user reaches a group along some path, and a deletion cuts it, the
group the deletion was about reaches the rest of the path (`reach_without_edge`); and when a
later deletion cuts that rest, the same holds of the later one. So at every moment the user
still belongs to the group, or some unprocessed deletion is about a group below it, or the
group has been tombstoned (`Accounted`). When nothing is left to process, one of the outer
two must hold.
-/

set_option autoImplicit false

namespace Verity.Analysis

open Verity.Model Verity.Foundation

variable {lookup : MembershipGraph → SpiceDb} {tenant : TenantId}

variable {graph : MembershipGraph} {group : String} {node : Node}

/-! ## The client's closure -/

/-- With an exact lookup, the principals a deletion takes away are those of the groups that
its group belongs to. -/
theorem mem_lostPrincipals {db : SpiceDb} (hexact : ExactLookup graph db) {d : MembershipDelete}
    {lost : List String} (hlost : lostPrincipals db d = .ok lost)
    (h : graph.Belongs (.group, d.group) group) : groupPrincipal group ∈ lost := by
  obtain ⟨names, hnames, hmem⟩ := hexact d.tenant .group d.group
  simp only [lostPrincipals, SpiceDb.groupAndAncestors, SpiceDb.membershipClosure, hnames, bind,
    Except.bind, pure, Except.pure, Except.ok.injEq] at hlost
  subst hlost
  by_cases hown : group = d.group
  · subst hown
    split
    · rename_i hcontains
      exact List.contains_iff_mem.mp hcontains
    · simp
  · have hin : groupPrincipal group ∈ sortDedup (names.map groupPrincipal) := by
      rw [mem_sortDedup]
      apply List.mem_map_of_mem
      exact (hmem group (by simpa using hown)).mpr h
    split
    · exact hin
    · exact List.mem_append_left _ hin

/-! ## Reachability under additions and deletions -/

theorem belongs_writeMembership {m : Membership} (h : graph.Belongs node group) :
    (graph.writeMembership m).Belongs node group := by
  apply Reach.mono ?_ h
  intro e he
  obtain ⟨m', hm', rfl⟩ := List.mem_map.mp he
  apply List.mem_map_of_mem
  unfold MembershipGraph.writeMembership
  split
  · exact hm'
  · exact List.mem_append_left _ hm'

theorem belongs_deleteMembership {m : Membership} (h : graph.Belongs node group) :
    (graph.deleteMembership m).Belongs node group ∨
      (graph.deleteMembership m).Belongs (.group, m.group) group := by
  refine reach_without_edge ?_ h
  intro x y hxy
  obtain ⟨m', hm', heq⟩ := List.mem_map.mp hxy
  by_cases hne : m' = m
  · subst hne
    exact Or.inr (Prod.mk.inj heq).2.symm
  · left
    rw [← heq]
    apply List.mem_map_of_mem
    exact List.mem_filter.mpr ⟨hm', by simpa using hne⟩

/-! ## Every loss is accounted for -/

/-- Since deletion number `since`, membership of `node` in `group` is in place, or a deletion
yet to be processed is about a group below `group`, or the group has been tombstoned. -/
def Accounted (since : Nat) (node : Node) (group : String) (s : MembershipLog) : Prop :=
  s.graph.Belongs node group ∨
  (∃ p ∈ s.pending, since ≤ p.1 ∧ s.graph.Belongs (.group, p.2.group) group) ∨
  ∃ p ∈ s.processed, since ≤ p.1 ∧ p.1 < s.made ∧ groupPrincipal group ∈ p.2

/-- Deletions are numbered in the order they are made. -/
structure Numbered (since : Nat) (s : MembershipLog) : Prop where
  since_le : since ≤ s.made
  pending_lt : ∀ p ∈ s.pending, p.1 < s.made

theorem Numbered.step {since : Nat} {s s' : MembershipLog} {e : MembershipEvent}
    (h : Numbered since s) (hstep : s.step lookup tenant e = some s') : Numbered since s' := by
  cases e with
  | add m =>
    cases hstep
    exact ⟨h.since_le, h.pending_lt⟩
  | delete m =>
    cases hstep
    refine ⟨Nat.le_succ_of_le h.since_le, ?_⟩
    intro p hp
    rcases List.mem_append.mp hp with hp | hp
    · exact Nat.lt_succ_of_lt (h.pending_lt p hp)
    · rw [List.mem_singleton.mp hp]
      exact Nat.lt_succ_self _
  | process deletion =>
    simp only [MembershipLog.step] at hstep
    split at hstep
    · split at hstep
      · exact absurd hstep (by simp)
      · cases hstep
        exact ⟨h.since_le, fun p hp => h.pending_lt p (List.mem_of_mem_erase hp)⟩
    · exact absurd hstep (by simp)

/-- A loss stays accounted for along the log. -/
theorem Accounted.step (hexact : ∀ graph, ExactLookup graph (lookup graph)) {since : Nat}
    {s s' : MembershipLog} {e : MembershipEvent} (hnum : Numbered since s)
    (h : Accounted since node group s) (hstep : s.step lookup tenant e = some s') :
    Accounted since node group s' := by
  cases e with
  | add m =>
    cases hstep
    rcases h with h | ⟨p, hp, hge, hbelow⟩ | hdone
    · exact Or.inl (belongs_writeMembership h)
    · exact Or.inr (Or.inl ⟨p, hp, hge, belongs_writeMembership hbelow⟩)
    · exact Or.inr (Or.inr hdone)
  | delete m =>
    cases hstep
    -- the new deletion takes over from whatever path it cuts
    have hnew : (s.graph.deleteMembership m).Belongs (.group, m.group) group →
        ∃ p ∈ s.pending ++ [(s.made, m)], since ≤ p.1 ∧
          (s.graph.deleteMembership m).Belongs (.group, p.2.group) group :=
      fun hbelow => ⟨(s.made, m), by simp, hnum.since_le, hbelow⟩
    rcases h with h | ⟨p, hp, hge, hbelow⟩ | ⟨p, hp, hge, hlt, hmem⟩
    · rcases belongs_deleteMembership h with h | hbelow
      · exact Or.inl h
      · exact Or.inr (Or.inl (hnew hbelow))
    · rcases belongs_deleteMembership hbelow with hbelow | hbelow
      · exact Or.inr (Or.inl ⟨p, List.mem_append_left _ hp, hge, hbelow⟩)
      · exact Or.inr (Or.inl (hnew hbelow))
    · exact Or.inr (Or.inr ⟨p, hp, hge, Nat.lt_succ_of_lt hlt, hmem⟩)
  | process deletion =>
    simp only [MembershipLog.step] at hstep
    split at hstep
    · rename_i hpending
      split at hstep
      · exact absurd hstep (by simp)
      · rename_i lost hlost
        cases hstep
        rcases h with h | ⟨p, hp, hge, hbelow⟩ | ⟨p, hp, hge, hlt, hmem⟩
        · exact Or.inl h
        · by_cases hsame : p = deletion
          · subst hsame
            right
            right
            exact ⟨(p.1, lost), by simp, hge, hnum.pending_lt p hp,
              mem_lostPrincipals (hexact s.graph) hlost hbelow⟩
          · exact Or.inr (Or.inl ⟨p, (List.mem_erase_of_ne hsame).mpr hp, hge, hbelow⟩)
        · exact Or.inr (Or.inr ⟨p, List.mem_append_left _ hp, hge, hlt, hmem⟩)
    · exact absurd hstep (by simp)

/-- Take any graph, any sequence of additions and deletions in which deletions are processed
at any later moment and in any order, and any moment of it. A group of which some user was a
transitive member at that moment, and is not one at the end, with all deletions processed, is
among the principals of at least one processed deletion made since that moment. -/
theorem lost_groups_are_tombstoned (hexact : ∀ graph, ExactLookup graph (lookup graph))
    {graph : MembershipGraph} {before after : List MembershipEvent} {s₁ s₂ : MembershipLog}
    (hbefore : run (MembershipLog.step lookup tenant) (MembershipLog.start graph) before = some s₁)
    (hafter : run (MembershipLog.step lookup tenant) s₁ after = some s₂) (hdone : s₂.pending = [])
    {user group : String} (hwas : s₁.graph.Belongs (.user, user) group)
    (hlost : ¬ s₂.graph.Belongs (.user, user) group) :
    ∃ p ∈ s₂.processed, s₁.made ≤ p.1 ∧ p.1 < s₂.made ∧ groupPrincipal group ∈ p.2 := by
  have hnum₁ : Numbered 0 s₁ :=
    run_induction (fun _ _ _ h hstep => h.step hstep) ⟨Nat.zero_le _, by simp [MembershipLog.start]⟩
      hbefore
  have hinv : Numbered s₁.made s₂ ∧ Accounted s₁.made (.user, user) group s₂ := by
    refine run_induction
      (I := fun s => Numbered s₁.made s ∧ Accounted s₁.made (.user, user) group s) ?_
      ⟨⟨le_refl _, hnum₁.pending_lt⟩, Or.inl hwas⟩ hafter
    rintro s e s' ⟨hnum, hacc⟩ hstep
    exact ⟨hnum.step hstep, hacc.step hexact hnum hstep⟩
  rcases hinv.2 with hstill | ⟨p, hp, -⟩ | hcovered
  · exact absurd hstill hlost
  · rw [hdone] at hp
    exact absurd hp (by simp)
  · exact hcovered

/-- Alice is in the team, the team in sales, and sales in the region. -/
def nestedTeams : MembershipGraph :=
  [⟨"team", .user, "alice"⟩, ⟨"sales", .group, "team"⟩, ⟨"region", .group, "sales"⟩]

/-- Alice leaves the team, then sales leaves the region; the second deletion is processed
first, and the first one when it no longer reaches the region. -/
def cutTwice : List MembershipEvent :=
  [.delete ⟨"team", .user, "alice"⟩, .delete ⟨"region", .group, "sales"⟩,
    .process (1, ⟨"region", .group, "sales"⟩), .process (0, ⟨"team", .user, "alice"⟩)]

/-- One of the two processed deletions tombstones the region, which Alice has lost. -/
theorem region_tombstoned_after_two_cuts :
    ∃ s, run (MembershipLog.step exactService 1) (MembershipLog.start nestedTeams) cutTwice =
        some s ∧
      ∃ p ∈ s.processed, 0 ≤ p.1 ∧ p.1 < s.made ∧ groupPrincipal "region" ∈ p.2 := by
  refine ⟨⟨[⟨"sales", .group, "team"⟩], 2, [],
    [(1, ["group:region"]), (0, ["group:sales", "group:team"])]⟩, by decide +kernel, ?_⟩
  have hafter : run (MembershipLog.step exactService 1) (MembershipLog.start nestedTeams)
      cutTwice = some ⟨[⟨"sales", .group, "team"⟩], 2, [],
        [(1, ["group:region"]), (0, ["group:sales", "group:team"])]⟩ := by decide +kernel
  have hwas : (MembershipLog.start nestedTeams).graph.Belongs (.user, "alice") "region" := by
    unfold MembershipGraph.Belongs
    decide +kernel
  have hlost : ¬ MembershipGraph.Belongs [⟨"sales", .group, "team"⟩] (.user, "alice") "region" := by
    unfold MembershipGraph.Belongs
    decide +kernel
  have hbefore : run (MembershipLog.step exactService 1) (MembershipLog.start nestedTeams) [] =
      some (MembershipLog.start nestedTeams) := rfl
  exact lost_groups_are_tombstoned exactLookup_exactService hbefore hafter rfl hwas hlost

end Verity.Analysis
