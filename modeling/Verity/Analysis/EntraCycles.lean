import Verity.Analysis.DirectoryLeavers
import Verity.Analysis.EntraDelta

/-!
# Entra cycles on the server

The requests of an Entra cycle are those of the difference of two snapshots, and those for the
object ids that dropped out: the edges that the old snapshot has of their addresses, and the
deprovision of the addresses. The second kind looks at object ids, not at addresses. So whoever
bears the address now, as a user created anew does, is deprovisioned with the old one
(`address_revoked_iff`), for good.

A delta link that Graph no longer honours removes the state file with it. The next cycle reads
everything, but compares it with nothing: what the directory has dropped in the meantime is neither
removed nor deprovisioned, then or later (`reset_keeps_dropped`).
-/

set_option autoImplicit false

namespace Verity.Analysis

open Verity.Model Verity.Foundation

namespace Entra

open Verity.Model.Entra

variable {op : AdminOp} {e : String × String} {p : String} {s s' : EntraSync}

/-! ## Sound snapshots -/

/-- The users of a snapshot are listed by their addresses, and only they are in its edges. -/
structure Sound (s : EntraSnapshot) : Prop where
  canonical : ∀ oid p, s.oidToCanonical.get oid = some p → ∃ email, p = userPrincipal email
  emails : ∀ email, email ∈ s.toDirectorySnapshot.emails ↔
    ∃ oid, s.oidToCanonical.get oid = some (userPrincipal email)
  edges : ∀ group email, (group, userPrincipal email) ∈ s.toDirectorySnapshot.memberships →
    ∃ oid, s.oidToCanonical.get oid = some (userPrincipal email)

theorem sound_empty : Sound .empty := by
  refine ⟨?_, ?_, ?_⟩
  · intro oid p hget
    exact absurd hget (by simp [EntraSnapshot.empty])
  · intro email
    simp [EntraSnapshot.empty, EntraSnapshot.toDirectorySnapshot, DirectorySnapshot.emails]
  · intro group email hedge
    rw [EntraSnapshot.toDirectorySnapshot, mem_sortedEdges] at hedge
    exact absurd hedge (by simp [EntraSnapshot.empty])

section Building

variable {lower upper strip : String → String} {config : EntraDirectoryConfig}

/-- A snapshot that was built is sound. -/
theorem sound_buildSnapshot {users : Dict String EntraUser} (hkeyed : Keyed users)
    (edges : List (String × String)) (usersLink groupsLink : Option String) :
    Sound (buildSnapshot lower upper config users edges usersLink groupsLink) := by
  have hget : ∀ oid p, (buildSnapshot lower upper config users edges usersLink
      groupsLink).oidToCanonical.get oid = some p ↔ ∃ u, users.get oid = some u ∧
        isActiveMember upper u = true ∧ u.canonical lower = p :=
    fun oid p => get_activeOidToCanonical hkeyed
  refine ⟨?_, ?_, ?_⟩
  · intro oid p h
    obtain ⟨u, -, -, rfl⟩ := (hget oid p).mp h
    exact ⟨_, rfl⟩
  · intro email
    simp only [EntraSnapshot.toDirectorySnapshot, DirectorySnapshot.emails, hget]
    simp only [buildSnapshot, List.map_map, List.mem_map, List.mem_insertionSort,
      mem_activeMembers, Function.comp_apply, EntraUser.asDirectoryUser]
    constructor
    · rintro ⟨u, ⟨oid, hu, hactive⟩, rfl⟩
      exact ⟨oid, u, hu, hactive, rfl⟩
    · rintro ⟨oid, u, hu, hactive, hcanonical⟩
      exact ⟨u, ⟨oid, hu, hactive⟩, userPrincipal_injective hcanonical⟩
  · intro group email hedge
    rw [EntraSnapshot.toDirectorySnapshot, mem_sortedEdges] at hedge
    rcases List.mem_append.mp hedge with hedge | hedge
    · exact (user_edge_buildSnapshot.mp hedge).2
    · obtain ⟨p, hp, heq⟩ := List.mem_map.mp hedge
      obtain ⟨-, rfl⟩ := Prod.mk.inj heq
      simp only [buildSnapshot] at hp
      split at hp
      · obtain ⟨u, hu, hcanonical⟩ := List.mem_map.mp (mem_sortDedup.mp hp)
        obtain ⟨oid, hoid, hactive⟩ := mem_activeMembers.mp hu
        exact ⟨oid, (hget oid _).mpr ⟨u, hoid, hactive, hcanonical⟩⟩
      · exact absurd hp (by simp)

variable (lower upper strip config) in
theorem sound_desiredOf (s : EntraSync) (answers : GraphAnswers) :
    Sound (desiredOf lower upper strip config s answers) := by
  unfold desiredOf
  split
  · rename_i hlinks
    rw [reconcileDelta, if_pos hlinks]
    exact sound_buildSnapshot (keyed_usersDelta _ _) _ _ _
  · exact sound_buildSnapshot (keyed_listUsers _ _ _ _) _ _ _

end Building

/-! ## The calls of a cycle -/

section Calls

variable {prev desired : EntraSnapshot} {tenant : TenantId}

theorem mem_foldl_merge {base extra : List AdminOp} :
    op ∈ extra.foldl (fun merged op => if op ∈ merged then merged else merged ++ [op]) base ↔
      op ∈ base ∨ op ∈ extra := by
  induction extra generalizing base with
  | nil => simp
  | cons op' extra ih =>
    rw [List.foldl_cons, ih, List.mem_cons]
    split
    · rename_i hmem
      constructor
      · tauto
      · rintro (hbase | rfl | hextra)
        · exact Or.inl hbase
        · exact Or.inl hmem
        · exact Or.inr hextra
    · rw [List.mem_append, List.mem_singleton]
      tauto

theorem mem_buildCycleOps :
    op ∈ buildCycleOps prev desired tenant ↔
      op ∈ buildAdminOps (diffSnapshots prev.toDirectorySnapshot desired.toDirectorySnapshot)
          tenant "entra" ∨
        op ∈ tombstonedUserOps (diffTombstones prev desired) prev tenant :=
  mem_foldl_merge

/-- The object ids that dropped out, with their addresses. -/
def DroppedOut (prev desired : EntraSnapshot) (p : String) : Prop :=
  ∃ oid, prev.oidToCanonical.get oid = some p ∧ desired.oidToCanonical.get oid = none

theorem mem_tombstonedUserOps :
    op ∈ tombstonedUserOps (diffTombstones prev desired) prev tenant ↔
      ∃ p, DroppedOut prev desired p ∧ (op = .deprovision ⟨tenant, p⟩ ∨
        ∃ group, (group, p) ∈ prev.memberships ∧ group ≠ everyoneGroup ∧
          op = .groupRemove ⟨tenant, group, p⟩) := by
  have hgone : ∀ p, p ∈ (sortDedup (diffTombstones prev desired)).filterMap
      prev.oidToCanonical.get ↔ DroppedOut prev desired p := by
    intro p
    simp only [List.mem_filterMap, mem_sortDedup, diffTombstones, List.mem_filter,
      decide_eq_true_eq, ← Dict.get_eq_none]
    constructor
    · rintro ⟨oid, ⟨-, hnone⟩, hget⟩
      exact ⟨oid, hget, hnone⟩
    · rintro ⟨oid, hget, hnone⟩
      exact ⟨oid, ⟨Dict.mem_keys.mpr ⟨p, hget⟩, hnone⟩, hget⟩
  simp only [tombstonedUserOps, List.mem_append, List.mem_flatMap, List.mem_map, hgone,
    List.mem_filter, mem_sortedEdges, decide_eq_true_eq]
  constructor
  · rintro (⟨p, hp, ⟨group, member⟩, ⟨hedge, rfl, hne⟩, rfl⟩ | ⟨p, hp, rfl⟩)
    · exact ⟨_, hp, Or.inr ⟨group, hedge, hne, rfl⟩⟩
    · exact ⟨p, hp, Or.inl rfl⟩
  · rintro ⟨p, hp, rfl | ⟨group, hedge, hne, rfl⟩⟩
    · exact Or.inr ⟨p, hp, rfl⟩
    · exact Or.inl ⟨p, hp, (group, p), ⟨hedge, rfl, hne⟩, rfl⟩

theorem mem_toDirectorySnapshot {s : EntraSnapshot} (h : e ∈ s.memberships) :
    e ∈ s.toDirectorySnapshot.memberships := by
  rw [EntraSnapshot.toDirectorySnapshot, mem_sortedEdges]
  exact List.mem_append_left _ h

/-- The calls add what is new, and remove what the old snapshot has. -/
theorem bringsTo_buildCycleOps :
    ∀ op ∈ buildCycleOps prev desired tenant,
      BringsTo (fun e => e ∈ desired.toDirectorySnapshot.memberships ∧
        e ∉ prev.toDirectorySnapshot.memberships) op := by
  intro op hop
  rcases mem_buildCycleOps.mp hop with hbase | hextra
  · rcases mem_buildAdminOps hbase with hnone | ⟨e, he, rfl⟩ | ⟨e, he, rfl⟩
    · cases op with
      | groupAdd req => exact absurd hnone (by simp [opEdge])
      | groupRemove req => exact absurd hnone (by simp [opEdge])
      | _ => trivial
    · exact mem_addedMemberships.mp he
    · exact fun hwanted => hwanted.2 (mem_removedMemberships.mp he).1
  · obtain ⟨p, -, rfl | ⟨group, hedge, -, rfl⟩⟩ := mem_tombstonedUserOps.mp hextra
    · trivial
    · exact fun hwanted => hwanted.2 (mem_toDirectorySnapshot hedge)

/-- They are about memberships that one of the snapshots has. -/
theorem mem_edgesOf_buildCycleOps (h : e ∈ edgesOf (buildCycleOps prev desired tenant)) :
    e ∈ prev.toDirectorySnapshot.memberships ∨ e ∈ desired.toDirectorySnapshot.memberships := by
  obtain ⟨op, hop, hedge⟩ := h
  rcases mem_buildCycleOps.mp hop with hbase | hextra
  · have hdiffers := mem_edgesOf_buildAdminOps.mp ⟨op, hbase, hedge⟩
    tauto
  · obtain ⟨p, -, rfl | ⟨group, hmem, -, rfl⟩⟩ := mem_tombstonedUserOps.mp hextra
    · exact absurd hedge (by simp [opEdge])
    · obtain rfl := Option.some.inj hedge
      exact Or.inl (mem_toDirectorySnapshot hmem)

/-- Who bore the address has dropped out, or nobody bears it any more. -/
def LeftBehind (prev desired : EntraSnapshot) (p : String) : Prop :=
  ∃ oid, prev.oidToCanonical.get oid = some p ∧
    (desired.oidToCanonical.get oid = none ∨ ∀ oid', desired.oidToCanonical.get oid' ≠ some p)

variable (tenant) in
/-- A cycle deprovisions the addresses that are left behind. -/
theorem deprovision_mem_buildCycleOps (hprev : Sound prev) (hdesired : Sound desired) :
    .deprovision ⟨tenant, p⟩ ∈ buildCycleOps prev desired tenant ↔ LeftBehind prev desired p := by
  rw [mem_buildCycleOps, mem_tombstonedUserOps]
  constructor
  · rintro (hbase | ⟨p', ⟨oid, hget, hnone⟩, heq | ⟨group, -, -, heq⟩⟩)
    · obtain ⟨email, hemail, rfl⟩ := deprovision_mem_buildAdminOps_iff.mp hbase
      obtain ⟨hold, hnew⟩ := mem_deprovisioned.mp hemail
      obtain ⟨oid, hget⟩ := (hprev.emails email).mp hold
      refine ⟨oid, hget, Or.inr fun oid' hget' => hnew ?_⟩
      exact (hdesired.emails email).mpr ⟨oid', hget'⟩
    · obtain rfl : p = p' := by simpa using heq
      exact ⟨oid, hget, Or.inl hnone⟩
    · exact absurd heq (by simp)
  · rintro ⟨oid, hget, hnone | hnobody⟩
    · exact Or.inr ⟨p, ⟨oid, hget, hnone⟩, Or.inl rfl⟩
    · obtain ⟨email, rfl⟩ := hprev.canonical oid p hget
      refine Or.inl (deprovision_mem_buildAdminOps.mpr (mem_deprovisioned.mpr ⟨?_, ?_⟩))
      · exact (hprev.emails email).mpr ⟨oid, hget⟩
      · intro hnew
        obtain ⟨oid', hget'⟩ := (hdesired.emails email).mp hnew
        exact hnobody oid' hget'

end Calls

/-! ## Runs -/

section Runs

variable {lower upper strip toLowercase : String → String} {lookup : MembershipGraph → SpiceDb}
  {config : EntraDirectoryConfig}

/-- The cycle found the address left behind, and completed or got as far as to say so. -/
def Deprovisions (tenant : TenantId) (c : EntraCycle) (p : String) : Prop :=
  LeftBehind c.previous c.desired p ∧
    (c.ending = .complete ∨ .deprovision ⟨tenant, p⟩ ∈ c.delivered)

/-- Those revoked are those who were from the start and those deprovisioned by a cycle that is
behind. -/
structure DepartureInv (config : EntraDirectoryConfig) (before : Set String) (s : EntraSync) :
    Prop where
  sound : Sound s.snapshot
  revoked : RevokedAs config.tenantId s.sync.plane
    {p | p ∈ before ∨ ∃ c ∈ s.past, Deprovisions config.tenantId c p}

/-- What a cycle has deprovisioned is what it has delivered. -/
theorem deprovisions_iff_delivered {prev desired : EntraSnapshot} (hprev : Sound prev)
    (hdesired : Sound desired) {now : Time} {plane : IdentityPlane} {stop : Option Nat} :
    Deprovisions config.tenantId
        ⟨prev, desired, (applyOps toLowercase lookup now plane
            (sentOps (buildCycleOps prev desired config.tenantId) stop)).delivered,
          if (stop.isNone && !(applyOps toLowercase lookup now plane
            (sentOps (buildCycleOps prev desired config.tenantId) stop)).refused) = true
          then .complete else .cut⟩ p ↔
      .deprovision ⟨config.tenantId, p⟩ ∈ (applyOps toLowercase lookup now plane
        (sentOps (buildCycleOps prev desired config.tenantId) stop)).delivered := by
  obtain ⟨hinitial, hall⟩ := delivered_applyOps toLowercase lookup now plane
    (sentOps (buildCycleOps prev desired config.tenantId) stop)
  have hsub := mem_of_mem_sentOps (buildCycleOps prev desired config.tenantId) stop
  rw [Deprovisions, ← deprovision_mem_buildCycleOps config.tenantId hprev hdesired]
  generalize applyOps toLowercase lookup now plane _ = applied at *
  constructor
  · rintro ⟨hop, hcomplete | hdelivered⟩
    · have hdone := completed_of_ending hcomplete
      rw [Bool.and_eq_true, Option.isNone_iff_eq_none, Bool.not_eq_true'] at hdone
      obtain ⟨rfl, hrefused⟩ := hdone
      rw [hall hrefused]
      exact hop
    · exact hdelivered
  · intro hdelivered
    exact ⟨hsub _ (hinitial.subset hdelivered), Or.inr hdelivered⟩

theorem departureInv_syncStep {before : Set String} {e : SyncEvent}
    (h : DepartureInv config before s)
    (hstep : syncStep lower upper strip toLowercase lookup config s e = some s') :
    DepartureInv config before s' := by
  cases e with
  | syncStateReset =>
    cases hstep
    refine ⟨sound_empty, h.revoked.congr fun p => ?_⟩
    simp [Deprovisions, or_and_right, exists_or]
  | cycle answers cut now =>
    have hdesired := sound_desiredOf lower upper strip config s answers
    simp only [syncStep] at hstep
    cases hstep
    constructor
    · simp only
      split
      · exact hdesired
      · exact h.sound
    · refine (h.revoked.applyOps toLowercase lookup now
        _).congr fun p => ?_
      simp only [Set.mem_ofPred_eq, List.mem_append, List.mem_singleton, or_and_right, exists_or,
        exists_eq_left, or_assoc]
      rw [deprovisions_iff_delivered h.sound hdesired]

theorem departureInv_of_run {plane : RegistryPlane}
    (hknown : RevokedKnown config.tenantId (EntraSync.start plane).sync.plane)
    {events : List SyncEvent}
    (hrun : run (syncStep lower upper strip toLowercase lookup config) (.start plane) events =
      some s) :
    DepartureInv config
      {p | RevokedIn config.tenantId (EntraSync.start plane).sync.plane p} s := by
  have hstart : DepartureInv config
      {p | RevokedIn config.tenantId (EntraSync.start plane).sync.plane p} (.start plane) := by
    refine ⟨sound_empty, (revokedAs_of_known hknown).congr fun p => ?_⟩
    simp [EntraSync.start]
  exact run_induction (fun s e s' hs hstep => departureInv_syncStep hs hstep) hstart hrun

/-- In every state of every run, an address is revoked exactly if it was from the start, or a cycle
has found that who bore it dropped out, or that nobody bears it any more, and completed or got as
far as to say so; whoever bears it now. It then stays revoked. -/
theorem address_revoked_iff {plane : RegistryPlane}
    (hknown : RevokedKnown config.tenantId (EntraSync.start plane).sync.plane)
    {events : List SyncEvent} {s : EntraSync}
    (hrun : run (syncStep lower upper strip toLowercase lookup config) (.start plane) events =
      some s) (p : String) :
    (RevokedIn config.tenantId s.sync.plane p ↔
        RevokedIn config.tenantId (EntraSync.start plane).sync.plane p ∨
          ∃ c ∈ s.past, Deprovisions config.tenantId c p) ∧
      (RevokedIn config.tenantId s.sync.plane p → ∀ later s',
        run (syncStep lower upper strip toLowercase lookup config) s later = some s' →
          RevokedIn config.tenantId s'.sync.plane p) := by
  have hinv := departureInv_of_run hknown hrun
  refine ⟨hinv.revoked.revokedIn_iff, fun hrevoked later s' hlater => ?_⟩
  have hstill := run_induction (I := fun s : EntraSync => DepartureInv config
      {p | RevokedIn config.tenantId (EntraSync.start plane).sync.plane p} s ∧
        (RevokedIn config.tenantId (EntraSync.start plane).sync.plane p ∨
          ∃ c ∈ s.past, Deprovisions config.tenantId c p))
    ?_ ⟨hinv, hinv.revoked.revokedIn_iff.mp hrevoked⟩ hlater
  · exact hstill.1.revoked.revokedIn_iff.mpr hstill.2
  · rintro s e s' ⟨hs, hp⟩ hstep
    refine ⟨departureInv_syncStep hs hstep, hp.imp_right ?_⟩
    rintro ⟨c, hc, hc'⟩
    refine ⟨c, ?_, hc'⟩
    cases e <;> cases hstep <;> exact List.mem_append_left _ hc

/-- A cycle leaves a tuple that neither snapshot has as it is, wherever it stops. -/
theorem applyOps_buildCycleOps_other {prev desired : EntraSnapshot}
    (hprev : e ∉ prev.toDirectorySnapshot.memberships)
    (hdesired : e ∉ desired.toDirectorySnapshot.memberships) {now : Time} {plane : IdentityPlane}
    {tenant : TenantId} {stop : Option Nat} :
    e.2 ∈ membersOf (applyOps toLowercase lookup now plane
        (sentOps (buildCycleOps prev desired tenant) stop)).plane.graph e.1 ↔
      e.2 ∈ membersOf plane.graph e.1 := by
  have hsub := mem_of_mem_sentOps (buildCycleOps prev desired tenant) stop
  obtain ⟨hinitial, -⟩ := delivered_applyOps toLowercase lookup now plane
    (sentOps (buildCycleOps prev desired tenant) stop)
  have hnone : e ∉ edgesOf (applyOps toLowercase lookup now plane
      (sentOps (buildCycleOps prev desired tenant) stop)).delivered := by
    rintro ⟨op, hop, hedge⟩
    rcases mem_edgesOf_buildCycleOps ⟨op, hsub op (hinitial.subset hop), hedge⟩ with h | h
    · exact hprev h
    · exact hdesired h
  refine (applyOps_members toLowercase lookup now
    (fun op hop => bringsTo_buildCycleOps op (hsub op hop)) plane e.1 e.2).trans ?_
  tauto

/-- Since a state, no cycle has read the membership, and the tuples have it as they did then. -/
def LeavesEdge (past : List EntraCycle) (was : Prop) (e : String × String) (s : EntraSync) : Prop :=
  ∃ newer, s.past = past ++ newer ∧
    ((∀ c ∈ newer, e ∉ c.desired.toDirectorySnapshot.memberships) →
      e ∉ s.snapshot.toDirectorySnapshot.memberships ∧
        (e.2 ∈ membersOf s.sync.plane.graph e.1 ↔ was))

theorem LeavesEdge.syncStep {past : List EntraCycle} {was : Prop} {event : SyncEvent}
    (h : LeavesEdge past was e s)
    (hstep : Entra.syncStep lower upper strip toLowercase lookup config s event = some s') :
    LeavesEdge past was e s' := by
  obtain ⟨newer, hpast, hleaves⟩ := h
  cases event with
  | syncStateReset =>
    cases hstep
    refine ⟨newer ++ [_], by simp only [hpast, List.append_assoc]; rfl, fun hnew => ⟨?_, ?_⟩⟩
    · simp [EntraSnapshot.empty, EntraSnapshot.toDirectorySnapshot, mem_sortedEdges]
    · exact (hleaves fun c hc => hnew c (List.mem_append_left _ hc)).2
  | cycle answers cut now =>
    simp only [Entra.syncStep] at hstep
    cases hstep
    refine ⟨newer ++ [_], by simp only [hpast, List.append_assoc]; rfl, fun hnew => ?_⟩
    obtain ⟨hout, hwas⟩ := hleaves fun c hc => hnew c (List.mem_append_left _ hc)
    have hdesired := hnew _ (List.mem_append_right _ (List.mem_singleton_self _))
    simp only at hdesired ⊢
    constructor
    · split
      · exact hdesired
      · exact hout
    · exact (applyOps_buildCycleOps_other hout hdesired).trans hwas

/-- Since a state, no cycle has read an active member with the address, and it is deprovisioned as
it was then. -/
def LeavesAddress (tenant : TenantId) (past : List EntraCycle) (p : String) (s : EntraSync) :
    Prop :=
  ∃ newer, s.past = past ++ newer ∧
    ((∀ c ∈ newer, ∀ oid, c.desired.oidToCanonical.get oid ≠ some p) →
      (∀ oid, s.snapshot.oidToCanonical.get oid ≠ some p) ∧
        ∀ c ∈ newer, ¬ Deprovisions tenant c p)

theorem LeavesAddress.syncStep {past : List EntraCycle} {event : SyncEvent}
    (h : LeavesAddress config.tenantId past p s)
    (hstep : Entra.syncStep lower upper strip toLowercase lookup config s event = some s') :
    LeavesAddress config.tenantId past p s' := by
  obtain ⟨newer, hpast, hleaves⟩ := h
  cases event with
  | syncStateReset =>
    cases hstep
    refine ⟨newer ++ [_], by simp only [hpast, List.append_assoc]; rfl, fun hnew => ⟨?_, ?_⟩⟩
    · simp [EntraSnapshot.empty]
    · intro c hc
      rcases List.mem_append.mp hc with hc | hc
      · exact (hleaves fun c hc => hnew c (List.mem_append_left _ hc)).2 c hc
      · rw [List.mem_singleton.mp hc]
        rintro ⟨-, hending | hdelivered⟩
        · exact absurd hending (by simp)
        · exact absurd hdelivered (by simp)
  | cycle answers cut now =>
    simp only [Entra.syncStep] at hstep
    cases hstep
    refine ⟨newer ++ [_], by simp only [hpast, List.append_assoc]; rfl, fun hnew => ?_⟩
    obtain ⟨hout, hnot⟩ := hleaves fun c hc => hnew c (List.mem_append_left _ hc)
    have hdesired := hnew _ (List.mem_append_right _ (List.mem_singleton_self _))
    constructor
    · simp only
      split
      · exact hdesired
      · exact hout
    · intro c hc
      rcases List.mem_append.mp hc with hc | hc
      · exact hnot c hc
      · rw [List.mem_singleton.mp hc]
        rintro ⟨⟨oid, hget, -⟩, -⟩
        exact hout oid hget

/-- After a link that Graph does not honour, a tuple stays as it is until some cycle reads the
membership, and an address is as revoked as it is until some cycle reads an active member with it.
What the directory has dropped since the last cycle is never taken back. -/
theorem reset_keeps_dropped {plane : RegistryPlane}
    (hknown : RevokedKnown config.tenantId (EntraSync.start plane).sync.plane)
    {events later : List SyncEvent} {s s' : EntraSync}
    (hrun : run (syncStep lower upper strip toLowercase lookup config) (.start plane) events =
      some s) (hlater : run (syncStep lower upper strip toLowercase lookup config) s
      (.syncStateReset :: later) = some s') :
    (∀ group member, (∀ c ∈ s'.past.drop (s.past.length + 1),
        (group, member) ∉ c.desired.toDirectorySnapshot.memberships) →
      (member ∈ membersOf s'.sync.plane.graph group ↔
        member ∈ membersOf s.sync.plane.graph group)) ∧
    ∀ p, (∀ c ∈ s'.past.drop (s.past.length + 1), ∀ oid,
        c.desired.oidToCanonical.get oid ≠ some p) →
      (RevokedIn config.tenantId s'.sync.plane p ↔ RevokedIn config.tenantId s.sync.plane p) := by
  have hreached := @run_append _ _ _ _ _ events (.syncStateReset :: later) |>.mpr ⟨s, hrun, hlater⟩
  obtain ⟨s₁, hs₁, hrest⟩ := Option.bind_eq_some_iff.mp hlater
  cases hs₁
  constructor
  · intro group member hdropped
    have hstart : LeavesEdge (s.past ++ [⟨s.snapshot, .empty, [], .forgotten⟩])
        (member ∈ membersOf s.sync.plane.graph group) (group, member)
        { sync := s.sync.forget
          snapshot := .empty
          past := s.past ++ [⟨s.snapshot, .empty, [], .forgotten⟩]
          lineage := [] } := by
      refine ⟨[], by simp, fun _ => ⟨?_, Iff.rfl⟩⟩
      simp [EntraSnapshot.empty, EntraSnapshot.toDirectorySnapshot, mem_sortedEdges]
    obtain ⟨newer, hpast, hleaves⟩ := run_induction
      (fun s e s' (hs : LeavesEdge _ _ _ s) hstep => hs.syncStep hstep) hstart hrest
    refine (hleaves fun c hc => hdropped c ?_).2
    rw [hpast, List.drop_left' (by simp)]
    exact hc
  · intro p hdropped
    have hstart : LeavesAddress config.tenantId
        (s.past ++ [⟨s.snapshot, .empty, [], .forgotten⟩]) p
        { sync := s.sync.forget
          snapshot := .empty
          past := s.past ++ [⟨s.snapshot, .empty, [], .forgotten⟩]
          lineage := [] } := by
      refine ⟨[], by simp, fun _ => ⟨?_, by simp⟩⟩
      simp [EntraSnapshot.empty]
    obtain ⟨newer, hpast, hleaves⟩ := run_induction
      (fun s e s' (hs : LeavesAddress _ _ _ s) hstep => hs.syncStep hstep) hstart hrest
    have hnot := (hleaves fun c hc => hdropped c (by
      rw [hpast, List.drop_left' (by simp)]
      exact hc)).2
    rw [(departureInv_of_run hknown hreached).revoked.revokedIn_iff,
      (departureInv_of_run hknown hrun).revoked.revokedIn_iff]
    refine or_congr Iff.rfl ?_
    constructor
    · rintro ⟨c, hc, hp⟩
      rw [hpast] at hc
      rcases List.mem_append.mp hc with hc | hc
      · rcases List.mem_append.mp hc with hc | hc
        · exact ⟨c, hc, hp⟩
        · rw [List.mem_singleton.mp hc] at hp
          exact absurd hp.2 (by simp)
      · exact absurd hp (hnot c hc)
    · rintro ⟨c, hc, hp⟩
      refine ⟨c, ?_, hp⟩
      rw [hpast, List.append_assoc]
      exact List.mem_append_left _ hc

end Runs

/-! ### An address that comes back, and one that leaves during a reset -/

/-- The second user is deleted and created anew, and is back in the group. -/
def recreated : GraphAnswers :=
  { twoMembers true with
    users := [orgMember "1" "ana" true, orgMember "3" "ben" true]
    members := [("staff", ⟨memberTypeUser, "1", false⟩), ("staff", ⟨memberTypeUser, "3", false⟩)]
    userChanges := [{ orgMember "2" "ben" true with removed := true }, orgMember "3" "ben" true]
    groupChanges := [⟨"staff", false, [⟨memberTypeUser, "3", false⟩]⟩] }

/-- The new user is an active member, and revoked. -/
theorem recreated_member_revoked :
    ∃ s, run (syncStep id id id id exactService entraConfig) (.start GDirectory.directoryServer)
        [.cycle (twoMembers true) none 0, .cycle recreated none 1] = some s ∧
      s.snapshot.oidToCanonical.get "3" = some "user:ben" ∧
      RevokedIn 1 s.sync.plane "user:ben" := by
  have hrun : (run (syncStep id id id id exactService entraConfig)
      (.start GDirectory.directoryServer)
      [.cycle (twoMembers true) none 0, .cycle recreated none 1]).map
        (fun s => (s.snapshot.oidToCanonical.get "3", s.past.map fun c =>
          (c.ending, c.previous.oidToCanonical.get "2", c.desired.oidToCanonical.get "2"))) =
      some (some "user:ben", [(.complete, none, some "user:ben"),
        (.complete, some "user:ben", none)]) := by
    decide +kernel
  obtain ⟨s, hs, hview⟩ := Option.map_eq_some_iff.mp hrun
  obtain ⟨hactive, hpast⟩ := Prod.mk.inj hview
  refine ⟨s, hs, hactive, (address_revoked_iff (revokedKnown_of_none (by decide)) hs
    "user:ben").1.mpr (Or.inr ?_)⟩
  have hmem : (Ending.complete, some "user:ben", (none : Option String)) ∈ s.past.map (fun c =>
      (c.ending, c.previous.oidToCanonical.get "2", c.desired.oidToCanonical.get "2")) := by
    rw [hpast]
    simp
  obtain ⟨c, hc, hfields⟩ := List.mem_map.mp hmem
  obtain ⟨hending, hrest⟩ := Prod.mk.inj hfields
  obtain ⟨hprevious, hdesired⟩ := Prod.mk.inj hrest
  exact ⟨c, hc, ⟨"2", hprevious, Or.inl hdesired⟩, Or.inl hending⟩

/-- The tenant without its second user. -/
def oneMember : GraphAnswers :=
  { twoMembers true with
    users := [orgMember "1" "ana" true]
    members := [("staff", ⟨memberTypeUser, "1", false⟩)] }

/-- The second user leaves before the full reading that follows a reset, and is neither removed from
the group nor revoked. -/
theorem leaver_kept_by_reset :
    ∃ s, run (syncStep id id id id exactService entraConfig) (.start GDirectory.directoryServer)
        [.cycle (twoMembers true) none 0, .syncStateReset, .cycle oneMember none 1] = some s ∧
      "user:ben" ∈ membersOf s.sync.plane.graph "group:entra-group-staff" ∧
      ¬ RevokedIn 1 s.sync.plane "user:ben" := by
  have hrun : (run (syncStep id id id id exactService entraConfig)
      (.start GDirectory.directoryServer)
      [.cycle (twoMembers true) none 0, .syncStateReset, .cycle oneMember none 1]).map
        (fun s => (s.past.drop 2).map fun c =>
          (c.desired.toDirectorySnapshot.memberships, c.desired.oidToCanonical.items)) =
      some [([("group:entra-everyone-except-guests", "user:ana"),
        ("group:entra-group-staff", "user:ana")], [("1", "user:ana")])] := by
    decide +kernel
  have hbefore : (run (syncStep id id id id exactService entraConfig)
      (.start GDirectory.directoryServer) [.cycle (twoMembers true) none 0]).map
        (fun s => (s.past.length, s.sync.plane.server.revocations.revokedSet 1,
          membersOf s.sync.plane.graph "group:entra-group-staff")) =
      some (1, [], ["user:ana", "user:ben"]) := by
    decide +kernel
  obtain ⟨s', hs', hread⟩ := Option.map_eq_some_iff.mp hrun
  obtain ⟨s, hs, hlater⟩ := (@run_append _ _ _ _ _ [_] _).mp hs'
  rw [hs] at hbefore
  obtain ⟨hlength, hview⟩ := Prod.mk.inj (Option.some.inj hbefore)
  obtain ⟨hrevoked, hmembers⟩ := Prod.mk.inj hview
  obtain ⟨hedges, haddresses⟩ := reset_keeps_dropped
    (revokedKnown_of_none (by decide)) hs hlater
  rw [hlength] at hedges haddresses
  obtain ⟨c, hsince, hfields⟩ := List.map_eq_singleton_iff.mp hread
  obtain ⟨hmemberships, hitems⟩ := Prod.mk.inj hfields
  refine ⟨s', hs', (hedges _ _ ?_).mpr ?_, fun hgone => ?_⟩
  · rw [hsince]
    intro c' hc'
    rw [List.mem_singleton.mp hc', hmemberships]
    decide
  · rw [hmembers]
    decide
  · obtain ⟨t, -, ht⟩ := (haddresses "user:ben" (by
      rw [hsince]
      intro c' hc' oid hget
      rw [List.mem_singleton.mp hc', ← Dict.mem_items, hitems] at hget
      simp at hget)).mp hgone
    rw [show s.sync.plane.server.revocations.revokedSet entraConfig.tenantId = [] from hrevoked]
      at ht
    exact absurd ht (by simp)

end Entra

end Verity.Analysis
