import Verity.Analysis.GroupMirror
import Verity.Analysis.MintRace
import Verity.Model.DirectorySync

/-!
# The mirror of a directory

A cycle delivers the memberships on which the directory differs from the snapshot of the state file,
and never looks at the tuples. So the tuples are those of the snapshot, but for the memberships that
an interrupted cycle has delivered, or the loss of the state file has left behind, and that no cycle
since has found changed (`directory_edge_iff`): these stay as they are.
-/

set_option autoImplicit false

namespace Verity.Analysis

open Verity.Model Verity.Foundation

variable {graph : MembershipGraph} {req : GroupMembershipRequest} {op : AdminOp}
  {e : String × String} {diff : SyncDiff} {s : DirectorySync}

/-! ## Tuples and the strings of a request -/

theorem principalString_injective {kind kind' : PrincipalKind} {name name' : String}
    (h : principalString kind name = principalString kind' name') :
    kind = kind' ∧ name = name' := by
  have hlist := congrArg String.toList h
  cases kind <;> cases kind' <;>
    simp only [principalString, userPrincipal, groupPrincipal, String.toList_append] at hlist
  · exact ⟨rfl, String.toList_inj.mp (List.append_cancel_left hlist)⟩
  · exact absurd hlist (by simp)
  · exact absurd hlist (by simp)
  · exact ⟨rfl, String.toList_inj.mp (List.append_cancel_left hlist)⟩

theorem startsWith_eq_true {s start : String} :
    startsWith s start = true ↔ ∃ rest, s = start ++ rest := by
  unfold startsWith
  rw [Option.isSome_iff_exists]
  constructor
  · rintro ⟨rest, h⟩
    exact ⟨rest, eq_append_of_stripStart h⟩
  · rintro ⟨rest, rfl⟩
    exact ⟨rest, stripStart_eq_some.mpr String.toList_append⟩

/-- A tuple is the one of two strings if it is read back as them. -/
theorem membership_eq_iff {m m' : Membership} :
    m = m' ↔ groupPrincipal m.group = groupPrincipal m'.group ∧
      principalString m.kind m.member = principalString m'.kind m'.member := by
  constructor
  · rintro rfl
    exact ⟨rfl, rfl⟩
  · rintro ⟨hgroup, hmember⟩
    obtain ⟨hkind, hname⟩ := principalString_injective hmember
    have hname' := groupPrincipal_injective hgroup
    cases m
    cases m'
    simp_all

theorem mem_membersOf {group c : String} :
    c ∈ membersOf graph group ↔
      ∃ m ∈ graph, groupPrincipal m.group = group ∧ principalString m.kind m.member = c := by
  simp only [membersOf, List.mem_map, List.mem_filter, decide_eq_true_eq, and_assoc]

theorem mem_membersOf_deleteMembership {m : Membership} {group c : String} :
    c ∈ membersOf (graph.deleteMembership m) group ↔
      c ∈ membersOf graph group ∧
        ¬ (groupPrincipal m.group = group ∧ principalString m.kind m.member = c) := by
  simp only [mem_membersOf, MembershipGraph.deleteMembership, List.mem_filter, decide_eq_true_eq,
    ne_eq]
  constructor
  · rintro ⟨m', ⟨hm', hne⟩, rfl, rfl⟩
    exact ⟨⟨m', hm', rfl, rfl⟩, fun h => hne (membership_eq_iff.mpr ⟨h.1.symm, h.2.symm⟩)⟩
  · rintro ⟨⟨m', hm', rfl, rfl⟩, hne⟩
    exact ⟨m', ⟨hm', fun h => hne ⟨by rw [h], by rw [h]⟩⟩, rfl, rfl⟩

theorem resolveRemoval_membership {db : SpiceDb} {principals : PrincipalTable} {removal : Removal}
    (h : resolveRemoval db principals req = .ok removal) :
    parseMembership req = .ok removal.membership := by
  unfold resolveRemoval at h
  split at h
  · exact absurd h (by simp)
  · rename_i membership hparse
    simp only at h
    split at h
    · exact absurd h (by simp)
    · split at h
      · exact absurd h (by simp)
      · cases h
        exact hparse

theorem adminGroupRemove_ok {sv : Server} {now : Time} {result : RevocationTables × MembershipGraph}
    (h : adminGroupRemove sv graph req now = .ok result) :
    ∃ m, parseMembership req = .ok m ∧ result.2 = graph.deleteMembership m := by
  unfold adminGroupRemove at h
  split at h
  · exact absurd h (by simp)
  · split at h
    · exact absurd h (by simp)
    · split at h
      · exact absurd h (by simp)
      · rename_i removal hresolve
        cases h
        exact ⟨removal.membership, resolveRemoval_membership hresolve, rfl⟩

/-! ## One call -/

/-- The membership a call is about. -/
def opEdge : AdminOp → Option (String × String)
  | .groupAdd req => some (req.group, req.member)
  | .groupRemove req => some (req.group, req.member)
  | _ => none

/-- The call brings its membership to where a set of memberships has it. -/
def BringsTo (wanted : Set (String × String)) : AdminOp → Prop
  | .groupAdd req => (req.group, req.member) ∈ wanted
  | .groupRemove req => (req.group, req.member) ∉ wanted
  | _ => True

section Calls

variable {toLowercase : String → String} {lookup : MembershipGraph → SpiceDb} {now : Time}
  {plane plane' : IdentityPlane}

theorem deprovision_graph {req : PrincipalRevokeRequest} :
    (plane.deprovision req now).1.graph = plane.graph := by
  unfold IdentityPlane.deprovision
  split <;> rfl

theorem adminCrosswalkLink_graph {req : CrosswalkLinkRequest} :
    (plane.adminCrosswalkLink req).1.graph = plane.graph := by
  unfold IdentityPlane.adminCrosswalkLink
  split
  · rfl
  · split <;> rfl

theorem adminPrincipals_graph {tenant : TenantId} {principals : List String} :
    (plane.adminPrincipals tenant principals).1.graph = plane.graph := by
  unfold IdentityPlane.adminPrincipals
  split <;> rfl

variable (toLowercase lookup now) in
/-- A call that is about no membership leaves the tuples alone. -/
theorem apply_graph (plane : IdentityPlane) (h : opEdge op = none) :
    (plane.apply toLowercase lookup now op).1.graph = plane.graph := by
  cases op with
  | registryCanonical req => rfl
  | registryAlias req => rfl
  | crosswalk req => exact adminCrosswalkLink_graph
  | principals tenant principals => exact adminPrincipals_graph
  | groupAdd req => exact absurd h (by simp [opEdge])
  | groupRemove req => exact absurd h (by simp [opEdge])
  | deprovision req => exact deprovision_graph

theorem addMembership_members (h : plane.addMembership lookup req = (plane', .ok ()))
    (group c : String) :
    c ∈ membersOf plane'.graph group ↔
      c ∈ membersOf plane.graph group ∨ (req.group = group ∧ req.member = c) := by
  unfold IdentityPlane.addMembership at h
  split at h
  · exact absurd (congrArg Prod.snd h) (by simp)
  · rename_i server graph hadd
    obtain ⟨m, hparse, hgraph⟩ := adminGroupAdd_ok hadd
    obtain ⟨hgroup, hmember⟩ := parseMembership_ok hparse
    obtain rfl := (congrArg Prod.fst h).symm
    dsimp only at hgraph ⊢
    rw [hgraph, mem_membersOf_writeMembership, hgroup, hmember]

theorem removeMembership_members (h : plane.removeMembership lookup req now = (plane', .ok ()))
    (group c : String) :
    c ∈ membersOf plane'.graph group ↔
      c ∈ membersOf plane.graph group ∧ ¬ (req.group = group ∧ req.member = c) := by
  unfold IdentityPlane.removeMembership at h
  split at h
  · exact absurd (congrArg Prod.snd h) (by simp)
  · rename_i revocations graph hremove
    obtain ⟨m, hparse, hgraph⟩ := adminGroupRemove_ok hremove
    obtain ⟨hgroup, hmember⟩ := parseMembership_ok hparse
    obtain rfl := (congrArg Prod.fst h).symm
    dsimp only at hgraph ⊢
    rw [hgraph, mem_membersOf_deleteMembership, hgroup, hmember]

/-- An accepted call brings its membership to where it is wanted, and leaves every other one. -/
theorem apply_members {wanted : Set (String × String)} (htoward : BringsTo wanted op)
    (h : plane.apply toLowercase lookup now op = (plane', .ok ())) (group c : String) :
    c ∈ membersOf plane'.graph group ↔
      (opEdge op = some (group, c) ∧ (group, c) ∈ wanted) ∨
        (opEdge op ≠ some (group, c) ∧ c ∈ membersOf plane.graph group) := by
  have hother : opEdge op = none → (c ∈ membersOf plane'.graph group ↔
      (opEdge op = some (group, c) ∧ (group, c) ∈ wanted) ∨
        (opEdge op ≠ some (group, c) ∧ c ∈ membersOf plane.graph group)) := by
    intro hnone
    have hgraph := apply_graph toLowercase lookup now plane hnone
    rw [h] at hgraph
    have hsame : plane'.graph = plane.graph := hgraph
    simp [hnone, hsame]
  cases op with
  | registryCanonical _ | registryAlias _ | crosswalk _ | principals _ _ | deprovision _ =>
    exact hother rfl
  | groupAdd req =>
    rw [addMembership_members h]
    simp only [opEdge, Option.some.injEq, Prod.mk.injEq]
    by_cases hedge : req.group = group ∧ req.member = c
    · obtain ⟨rfl, rfl⟩ := hedge
      have hwanted : (req.group, req.member) ∈ wanted := htoward
      simp [hwanted]
    · simp [hedge]
  | groupRemove req =>
    rw [removeMembership_members h]
    simp only [opEdge, Option.some.injEq, Prod.mk.injEq]
    by_cases hedge : req.group = group ∧ req.member = c
    · obtain ⟨rfl, rfl⟩ := hedge
      have hwanted : (req.group, req.member) ∉ wanted := htoward
      simp [hwanted]
    · simp [hedge]

/-- A refused call leaves the tuples alone. -/
theorem apply_refused {e : HandlerError}
    (h : plane.apply toLowercase lookup now op = (plane', .error e)) :
    plane'.graph = plane.graph := by
  cases hedge : opEdge op with
  | none =>
    have hgraph := apply_graph toLowercase lookup now plane hedge
    rw [h] at hgraph
    exact hgraph
  | some edge =>
    cases op <;> simp only [opEdge, reduceCtorEq] at hedge
    · simp only [IdentityPlane.apply, IdentityPlane.addMembership] at h
      split at h
      · exact congrArg (·.graph) (Prod.mk.inj h).1.symm
      · exact absurd (Prod.mk.inj h).2 (by simp)
    · simp only [IdentityPlane.apply, IdentityPlane.removeMembership] at h
      split at h
      · exact congrArg (·.graph) (Prod.mk.inj h).1.symm
      · exact absurd (Prod.mk.inj h).2 (by simp)

/-! ## The calls of a cycle -/

/-- The memberships that a list of calls is about. -/
def edgesOf (ops : List AdminOp) : Set (String × String) :=
  fun edge => ∃ op ∈ ops, opEdge op = some edge

variable (toLowercase lookup now) in
/-- The calls that are delivered are the first ones, and all of them unless one is refused. -/
theorem delivered_applyOps (plane : IdentityPlane) (ops : List AdminOp) :
    (applyOps toLowercase lookup now plane ops).delivered <+: ops ∧
      ((applyOps toLowercase lookup now plane ops).refused = false →
        (applyOps toLowercase lookup now plane ops).delivered = ops) := by
  induction ops generalizing plane with
  | nil => exact ⟨List.prefix_rfl, fun _ => rfl⟩
  | cons op ops ih =>
    unfold applyOps
    split
    · exact ⟨List.nil_prefix, fun h => absurd h (by simp)⟩
    · rename_i plane' _
      obtain ⟨hinitial, hall⟩ := ih plane'
      refine ⟨(List.prefix_cons_inj op).mpr hinitial, ?_⟩
      intro hrefused
      exact congrArg (op :: ·) (hall hrefused)

variable (toLowercase lookup now) in
/-- The memberships that were delivered are where they are wanted, and every other one is as it
was. -/
theorem applyOps_members {wanted : Set (String × String)} {ops : List AdminOp}
    (htoward : ∀ op ∈ ops, BringsTo wanted op) (plane : IdentityPlane) (group c : String) :
    c ∈ membersOf (applyOps toLowercase lookup now plane ops).plane.graph group ↔
      ((group, c) ∈ edgesOf (applyOps toLowercase lookup now plane ops).delivered ∧
          (group, c) ∈ wanted) ∨
        ((group, c) ∉ edgesOf (applyOps toLowercase lookup now plane ops).delivered ∧
          c ∈ membersOf plane.graph group) := by
  induction ops generalizing plane with
  | nil =>
    have hnone : (group, c) ∉ edgesOf [] := by
      rintro ⟨op, hop, -⟩
      exact absurd hop (by simp)
    simp [applyOps, hnone]
  | cons op ops ih =>
    have hrest : ∀ op' ∈ ops, BringsTo wanted op' :=
      fun op' hop' => htoward op' (List.mem_cons_of_mem op hop')
    unfold applyOps
    split
    · rename_i plane' e happly
      have hnone : (group, c) ∉ edgesOf [] := by
        rintro ⟨op, hop, -⟩
        exact absurd hop (by simp)
      simp only [apply_refused happly, hnone, false_and, not_false_eq_true, true_and, false_or]
    · rename_i plane' happly
      have hcons : ∀ delivered : List AdminOp, (group, c) ∈ edgesOf (op :: delivered) ↔
          opEdge op = some (group, c) ∨ (group, c) ∈ edgesOf delivered := by
        intro delivered
        constructor
        · rintro ⟨op', hop', hedge⟩
          rcases List.mem_cons.mp hop' with rfl | hop'
          · exact Or.inl hedge
          · exact Or.inr ⟨op', hop', hedge⟩
        · rintro (hedge | ⟨op', hop', hedge⟩)
          · exact ⟨op, List.mem_cons_self, hedge⟩
          · exact ⟨op', List.mem_cons_of_mem op hop', hedge⟩
      rw [ih hrest plane', hcons, apply_members (htoward op List.mem_cons_self) happly]
      tauto

end Calls

/-! ## The differences of two snapshots, as calls -/

theorem mem_sortedEdges {edges : List (String × String)} : e ∈ sortedEdges edges ↔ e ∈ edges := by
  unfold sortedEdges
  rw [List.mem_insertionSort, List.mem_dedup]

section Differences

variable {previous desired : DirectorySnapshot} {tenant : TenantId} {source : String}

theorem opEdge_buildRegistryOps {users : List DirectoryUser} :
    ∀ op ∈ buildRegistryOps users tenant source, opEdge op = none := by
  intro op hop
  unfold buildRegistryOps at hop
  split at hop
  · exact absurd hop (by simp)
  · rcases List.mem_cons.mp hop with rfl | hop
    · rfl
    · rcases List.mem_append.mp hop with hop | hop
      · split at hop
        · exact absurd hop (by simp)
        · rw [List.mem_singleton.mp hop]
          rfl
      · obtain ⟨u, -, rfl⟩ := List.mem_map.mp hop
        rfl

theorem mem_addedMemberships :
    e ∈ (diffSnapshots previous desired).addedMemberships ↔
      e ∈ desired.memberships ∧ e ∉ previous.memberships := by
  unfold diffSnapshots
  rw [mem_sortedEdges, List.mem_filter, decide_eq_true_eq]

theorem mem_removedMemberships :
    e ∈ (diffSnapshots previous desired).removedMemberships ↔
      e ∈ previous.memberships ∧ e ∉ desired.memberships := by
  unfold diffSnapshots
  rw [mem_sortedEdges, List.mem_filter, decide_eq_true_eq]

/-- A call of a cycle is about no membership, or adds one, or removes one. -/
theorem mem_buildAdminOps (hop : op ∈ buildAdminOps diff tenant source) :
    opEdge op = none ∨
      (∃ e ∈ diff.addedMemberships, op = .groupAdd ⟨tenant, e.1, e.2⟩) ∨
      ∃ e ∈ diff.removedMemberships, op = .groupRemove ⟨tenant, e.1, e.2⟩ := by
  simp only [buildAdminOps, List.mem_append, List.mem_map] at hop
  rcases hop with (((hop | hop) | ⟨e, he, rfl⟩) | ⟨e, he, rfl⟩) | ⟨email, -, rfl⟩
  · exact Or.inl (opEdge_buildRegistryOps op hop)
  · split at hop
    · exact absurd hop (by simp)
    · rw [List.mem_singleton.mp hop]
      exact Or.inl rfl
  · exact Or.inr (Or.inl ⟨e, he, rfl⟩)
  · exact Or.inr (Or.inr ⟨e, he, rfl⟩)
  · exact Or.inl rfl

theorem groupAdd_mem_buildAdminOps (he : e ∈ diff.addedMemberships) :
    .groupAdd ⟨tenant, e.1, e.2⟩ ∈ buildAdminOps diff tenant source := by
  simp only [buildAdminOps, List.mem_append, List.mem_map]
  exact Or.inl (Or.inl (Or.inr ⟨e, he, rfl⟩))

theorem groupRemove_mem_buildAdminOps (he : e ∈ diff.removedMemberships) :
    .groupRemove ⟨tenant, e.1, e.2⟩ ∈ buildAdminOps diff tenant source := by
  simp only [buildAdminOps, List.mem_append, List.mem_map]
  exact Or.inl (Or.inr ⟨e, he, rfl⟩)

/-- The calls bring the memberships to those desired. -/
theorem bringsTo_buildAdminOps :
    ∀ op ∈ buildAdminOps (diffSnapshots previous desired) tenant source,
      BringsTo (fun e => e ∈ desired.memberships) op := by
  intro op hop
  rcases mem_buildAdminOps hop with hnone | ⟨e, he, rfl⟩ | ⟨e, he, rfl⟩
  · cases op with
    | groupAdd req => exact absurd hnone (by simp [opEdge])
    | groupRemove req => exact absurd hnone (by simp [opEdge])
    | _ => trivial
  · exact (mem_addedMemberships.mp he).1
  · exact (mem_removedMemberships.mp he).2

/-- They are about the memberships on which the snapshots differ. -/
theorem mem_edgesOf_buildAdminOps :
    e ∈ edgesOf (buildAdminOps (diffSnapshots previous desired) tenant source) ↔
      ¬ (e ∈ previous.memberships ↔ e ∈ desired.memberships) := by
  constructor
  · rintro ⟨op, hop, hedge⟩
    rcases mem_buildAdminOps hop with hnone | ⟨e', he, rfl⟩ | ⟨e', he, rfl⟩
    · rw [hnone] at hedge
      exact absurd hedge (by simp)
    · obtain rfl : e' = e := Option.some.inj hedge
      obtain ⟨hnew, hold⟩ := mem_addedMemberships.mp he
      exact fun h => hold (h.mpr hnew)
    · obtain rfl : e' = e := Option.some.inj hedge
      obtain ⟨hold, hgone⟩ := mem_removedMemberships.mp he
      exact fun h => hgone (h.mp hold)
  · intro hdiffers
    by_cases hdesired : e ∈ desired.memberships
    · have hnew : e ∉ previous.memberships := fun h => hdiffers ⟨fun _ => hdesired, fun _ => h⟩
      exact ⟨_, groupAdd_mem_buildAdminOps (mem_addedMemberships.mpr ⟨hdesired, hnew⟩), rfl⟩
    · have hgone : e ∈ previous.memberships := by
        by_contra h
        exact hdiffers ⟨fun h' => absurd h' h, fun h' => absurd h' hdesired⟩
      exact ⟨_, groupRemove_mem_buildAdminOps (mem_removedMemberships.mpr ⟨hgone, hdesired⟩), rfl⟩

end Differences

/-! ## Runs -/

/-- A cycle that is behind, as an attempt to reconcile the memberships. -/
def edgeAttempt (c : CycleRecord) : Attempt (String × String) where
  wanted := fun e => e ∈ c.desired.memberships
  delivered := edgesOf c.delivered
  ending := c.ending

/-- The history delivers differences, the state file has what is known, and the tuples are the
copy. -/
structure MirrorsDirectory (s : DirectorySync) : Prop where
  differences : ByDifferences (s.past.map edgeAttempt)
  known : ∀ e, e ∈ knownAfter (s.past.map edgeAttempt) ↔ e ∈ s.snapshot.memberships
  copy : ∀ e : String × String,
    e ∈ copyOf (s.past.map edgeAttempt) ↔ e.2 ∈ membersOf s.plane.graph e.1

theorem mirrors_start (plane : RegistryPlane) : MirrorsDirectory (.start plane) := by
  refine ⟨?_, ?_, ?_⟩
  · intro before a after hsplit
    exact absurd hsplit (by simp [DirectorySync.start])
  · intro e
    simp [DirectorySync.start, knownAfter, DirectorySnapshot.empty]
  · intro e
    simp [DirectorySync.start, copyOf, membersOf]

theorem MirrorsDirectory.forget (h : MirrorsDirectory s) : MirrorsDirectory s.forget := by
  have hnone : ∀ e, e ∉ edgesOf [] := by
    rintro e ⟨op, hop, -⟩
    exact absurd hop (by simp)
  refine ⟨?_, ?_, ?_⟩ <;>
    simp only [DirectorySync.forget, List.map_append, List.map_cons, List.map_nil]
  · refine h.differences.concat ⟨?_, ?_, ?_⟩
    · intro e he
      exact absurd he (hnone e)
    · intro hending
      exact absurd hending (by simp [edgeAttempt])
    · exact fun _ => hnone
  · intro e
    rw [knownAfter_concat]
    simp [Attempt.learn, edgeAttempt, DirectorySnapshot.empty]
  · intro e
    rw [copyOf_concat, mem_copy, ← h.copy]
    simp [edgeAttempt, hnone]

theorem mem_of_mem_sentOps (ops : List AdminOp) (cut : Option Nat) :
    ∀ op ∈ sentOps ops cut, op ∈ ops := by
  intro op hop
  cases cut with
  | none => exact hop
  | some n => exact List.mem_of_mem_take hop

theorem completed_of_ending {completed : Bool}
    (h : (if completed then Ending.complete else Ending.cut) = .complete) : completed = true := by
  cases completed with
  | true => rfl
  | false => exact absurd h (by simp)

/-- A cycle whose calls are about the differences, and bring them to what it desires. -/
theorem MirrorsDirectory.cycle (h : MirrorsDirectory s) (toLowercase : String → String)
    (lookup : MembershipGraph → SpiceDb) (now : Time) {desired : DirectorySnapshot}
    {ops : List AdminOp} (cut : Option Nat)
    (hbrings : ∀ op ∈ ops, BringsTo (fun e => e ∈ desired.memberships) op)
    (hedges : ∀ e, e ∈ edgesOf ops ↔ ¬ (e ∈ s.snapshot.memberships ↔ e ∈ desired.memberships)) :
    MirrorsDirectory (s.cycle toLowercase lookup now desired ops cut) := by
  have hsub := mem_of_mem_sentOps ops cut
  obtain ⟨hinitial, hall⟩ := delivered_applyOps toLowercase lookup now s.plane (sentOps ops cut)
  have hcopy := applyOps_members toLowercase lookup now
    (fun op hop => hbrings op (hsub op hop)) s.plane
  unfold DirectorySync.cycle
  generalize applyOps toLowercase lookup now s.plane (sentOps ops cut) = applied at *
  have hdelivered : ∀ e ∈ edgesOf applied.delivered, e ∈ edgesOf ops := by
    rintro e ⟨op, hop, hedge⟩
    exact ⟨op, hsub op (hinitial.subset hop), hedge⟩
  refine ⟨?_, ?_, ?_⟩ <;> simp only [List.map_append, List.map_cons, List.map_nil]
  · refine h.differences.concat ⟨?_, ?_, ?_⟩
    · intro e he
      rw [h.known]
      exact (hedges e).mp (hdelivered e he)
    · intro hending e hdiffers
      rw [h.known] at hdiffers
      have hdone := completed_of_ending hending
      rw [Bool.and_eq_true, Option.isNone_iff_eq_none, Bool.not_eq_true'] at hdone
      obtain ⟨rfl, hrefused⟩ := hdone
      have hsame : applied.delivered = ops := hall hrefused
      simp only [edgeAttempt, hsame]
      exact (hedges e).mpr hdiffers
    · intro hending
      simp only [edgeAttempt] at hending
      split at hending <;> exact absurd hending (by simp)
  · intro e
    rw [knownAfter_concat]
    simp only [Attempt.learn, edgeAttempt]
    cases hdone : (cut.isNone && !applied.refused) with
    | true => exact Iff.rfl
    | false => exact h.known e
  · intro e
    rw [copyOf_concat, mem_copy, h.copy, hcopy]
    rfl

namespace GDirectory

open Verity.Model.GDirectory

variable {lower strip toLowercase : String → String} {lookup : MembershipGraph → SpiceDb}
  {config : GDirectoryConfig}

theorem mirrors_syncStep {s' : DirectorySync} {e : SyncEvent} (h : MirrorsDirectory s)
    (hstep : syncStep lower strip toLowercase lookup config s e = some s') :
    MirrorsDirectory s' := by
  cases e with
  | cycle directory cut now =>
    cases hstep
    exact h.cycle toLowercase lookup now cut bringsTo_buildAdminOps
      fun e => mem_edgesOf_buildAdminOps
  | stateFileLost =>
    cases hstep
    exact h.forget

/-- In every state of every run, a membership is in the tuples as it is in the snapshot of the state
file, unless it is stranded. -/
theorem directory_edge_iff {plane : RegistryPlane} {events : List SyncEvent} {s : DirectorySync}
    (hrun : run (syncStep lower strip toLowercase lookup config) (.start plane) events = some s)
    (group member : String) :
    member ∈ membersOf s.plane.graph group ↔
      ((group, member) ∈ s.snapshot.memberships ↔
        ¬ Stranded (s.past.map edgeAttempt) (group, member)) := by
  have hmirrors : MirrorsDirectory s :=
    run_induction (fun s e s' hs hstep => mirrors_syncStep hs hstep) (mirrors_start plane) hrun
  rw [← hmirrors.copy (group, member), mem_copyOf_iff hmirrors.differences, hmirrors.known]

/-! ### A member that stays -/

/-- A server with a permission service, and an empty registry. -/
def directoryServer : RegistryPlane := ⟨mirrorServer, Registry.empty⟩

def directoryConfig : GDirectoryConfig := ⟨1, none⟩

/-- Two users and a group with these of them. -/
def twoUsers (members : List String) : Directory where
  users := [⟨"1", "ana", false, false, [], []⟩, ⟨"2", "ben", false, false, [], []⟩]
  groups := ["staff"]
  members := members.map fun email => ("staff", ⟨"USER", email⟩)

/-- A cycle that adds a member and is interrupted, and a complete one after the directory has taken
the member back. -/
def interruptedAdd : List SyncEvent :=
  [.cycle (twoUsers ["ana"]) none 0, .cycle (twoUsers ["ana", "ben"]) (some 1) 1,
    .cycle (twoUsers ["ana"]) none 2]

/-- The membership is in the tuples and not in the snapshot, and it is stranded. -/
theorem interrupted_add_stays :
    ∃ s, run (syncStep id id id exactService directoryConfig) (.start directoryServer)
        interruptedAdd = some s ∧
      "user:ben" ∈ membersOf s.plane.graph "group:staff" ∧
      ("group:staff", "user:ben") ∉ s.snapshot.memberships ∧
      Stranded (s.past.map edgeAttempt) ("group:staff", "user:ben") := by
  have hrun : (run (syncStep id id id exactService directoryConfig) (.start directoryServer)
      interruptedAdd).map (fun s => (membersOf s.plane.graph "group:staff",
        s.snapshot.memberships)) =
      some (["user:ana", "user:ben"], [("group:staff", "user:ana")]) := by decide +kernel
  obtain ⟨s, hs, hview⟩ := Option.map_eq_some_iff.mp hrun
  obtain ⟨hmembers, hsnapshot⟩ := Prod.mk.inj hview
  have hmember : "user:ben" ∈ membersOf s.plane.graph "group:staff" := by
    rw [hmembers]
    simp
  have hout : ("group:staff", "user:ben") ∉ s.snapshot.memberships := by
    rw [hsnapshot]
    decide
  refine ⟨s, hs, hmember, hout, ?_⟩
  have hiff := (directory_edge_iff hs "group:staff" "user:ben").mp hmember
  by_contra hnot
  exact hout (hiff.mpr hnot)

end GDirectory

end Verity.Analysis
