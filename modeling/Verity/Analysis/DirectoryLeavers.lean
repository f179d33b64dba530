import Verity.Analysis.DirectoryCycles

/-!
# People who leave the directory

A cycle deprovisions the users of the snapshot that the directory no longer lists. The snapshot has
the users of the last cycle that completed, as long as the state file is there, so somebody whom
only interrupted cycles have listed is never deprovisioned, nor is somebody who leaves before the
first cycle after the file was lost. Everybody else who is gone is (`leaver_revoked_iff`). No call
of a cycle reinstates anybody: who comes back to the directory stays revoked.
-/

set_option autoImplicit false

namespace Verity.Analysis

open Verity.Model Verity.Foundation

/-! ## Revoked principals -/

/-- The principal has a token, and the token is revoked until it is reinstated. -/
def RevokedIn (tenant : TenantId) (plane : IdentityPlane) (p : String) : Prop :=
  ∃ t, HasToken plane.server.principals tenant p t ∧ t ∈ plane.server.revocations.revokedSet tenant

theorem mem_revokedSet {tables : RevocationTables} {tenant : TenantId} {t : PrincipalToken} :
    t ∈ tables.revokedSet tenant ↔
      ∃ r ∈ tables.revokedPrincipals,
        r.tenantId = tenant ∧ r.token = t ∧ r.reinstatedAt = none := by
  unfold RevocationTables.revokedSet
  simp only [List.mem_map, List.mem_filter, decide_eq_true_eq]
  constructor
  · rintro ⟨r, ⟨hr, htenant, hstill⟩, rfl⟩
    exact ⟨r, hr, htenant, rfl, hstill⟩
  · rintro ⟨r, hr, htenant, rfl, hstill⟩
    exact ⟨r, ⟨hr, htenant, hstill⟩, rfl⟩

/-- A revocation adds its token to those revoked. -/
theorem mem_revokedSet_revokePrincipal {tables : RevocationTables} {tenant tenant' : TenantId}
    {p : String} {t t' : PrincipalToken} {now : Time} :
    t' ∈ (tables.revokePrincipal tenant p t now).revokedSet tenant' ↔
      t' ∈ tables.revokedSet tenant' ∨ (tenant' = tenant ∧ t' = t) := by
  unfold RevocationTables.revokePrincipal
  split
  · rename_i hany
    obtain ⟨row, hrow, hkey⟩ := List.any_eq_true.mp hany
    obtain ⟨htenant, htoken⟩ := of_decide_eq_true hkey
    simp only [mem_revokedSet, List.mem_map]
    constructor
    · rintro ⟨_, ⟨r, hr, rfl⟩, hr'⟩
      split at hr'
      · rename_i hsame
        exact Or.inr ⟨hr'.1.symm.trans hsame.1, hr'.2.1.symm.trans hsame.2⟩
      · exact Or.inl ⟨r, hr, hr'⟩
    · rintro (⟨r, hr, hr'⟩ | ⟨rfl, rfl⟩)
      · refine ⟨_, ⟨r, hr, rfl⟩, ?_⟩
        split
        · exact ⟨hr'.1, hr'.2.1, rfl⟩
        · exact hr'
      · refine ⟨_, ⟨row, hrow, rfl⟩, ?_⟩
        rw [if_pos ⟨htenant, htoken⟩]
        exact ⟨htenant, htoken, rfl⟩
  · simp only [mem_revokedSet, List.mem_append, List.mem_singleton]
    constructor
    · rintro ⟨r, hr | rfl, hr'⟩
      · exact Or.inl ⟨r, hr, hr'⟩
      · exact Or.inr ⟨hr'.1.symm, hr'.2.1.symm⟩
    · rintro (⟨r, hr, hr'⟩ | ⟨rfl, rfl⟩)
      · exact ⟨r, Or.inl hr, hr'⟩
      · exact ⟨_, Or.inr rfl, rfl, rfl, rfl⟩

/-- The tokens revoked are those of the principals in the set. -/
structure RevokedAs (tenant : TenantId) (plane : IdentityPlane) (gone : Set String) : Prop where
  named : ∀ t ∈ plane.server.revocations.revokedSet tenant,
    ∃ p ∈ gone, HasToken plane.server.principals tenant p t
  done : ∀ p ∈ gone, RevokedIn tenant plane p

theorem RevokedAs.revokedIn_iff {tenant : TenantId} {plane : IdentityPlane} {gone : Set String}
    (h : RevokedAs tenant plane gone) {p : String} : RevokedIn tenant plane p ↔ p ∈ gone := by
  constructor
  · rintro ⟨t, hp, ht⟩
    obtain ⟨q, hq, hqt⟩ := h.named t ht
    rw [hp.principal_eq hqt]
    exact hq
  · exact h.done p

/-- Every revoked token is of a principal that the server knows. -/
def RevokedKnown (tenant : TenantId) (plane : IdentityPlane) : Prop :=
  ∀ t ∈ plane.server.revocations.revokedSet tenant, ∃ p, HasToken plane.server.principals tenant p t

theorem revokedKnown_of_none {tenant : TenantId} {plane : IdentityPlane}
    (h : plane.server.revocations.revokedSet tenant = []) : RevokedKnown tenant plane := by
  intro t ht
  rw [h] at ht
  exact absurd ht (by simp)

theorem revokedAs_of_known {tenant : TenantId} {plane : IdentityPlane}
    (h : RevokedKnown tenant plane) : RevokedAs tenant plane {p | RevokedIn tenant plane p} := by
  constructor
  · intro t ht
    obtain ⟨p, hp⟩ := h t ht
    exact ⟨p, ⟨t, hp, ht⟩, hp⟩
  · intro p hp
    exact hp

theorem RevokedAs.congr {tenant : TenantId} {plane : IdentityPlane} {gone gone' : Set String}
    (h : RevokedAs tenant plane gone) (hsame : ∀ p, p ∈ gone ↔ p ∈ gone') :
    RevokedAs tenant plane gone' := by
  rw [show gone' = gone from Set.ext fun p => (hsame p).symm]
  exact h

section Calls

variable {toLowercase : String → String} {lookup : MembershipGraph → SpiceDb} {now : Time}
  {plane plane' : IdentityPlane} {tenant : TenantId} {gone : Set String}

/-- Where tokens are only allocated and none is revoked, the same principals are revoked. -/
theorem RevokedAs.frame (h : RevokedAs tenant plane gone)
    (hprincipals : Extends plane.server.principals plane'.server.principals)
    (hrevoked : plane'.server.revocations.revokedSet tenant =
      plane.server.revocations.revokedSet tenant) : RevokedAs tenant plane' gone := by
  constructor
  · rw [hrevoked]
    intro t ht
    obtain ⟨p, hp, htoken⟩ := h.named t ht
    exact ⟨p, hp, hprincipals _ htoken⟩
  · intro p hp
    obtain ⟨t, htoken, ht⟩ := h.done p hp
    refine ⟨t, hprincipals _ htoken, ?_⟩
    rw [hrevoked]
    exact ht

theorem adminGroupAdd_extends {sv : Server} {graph : MembershipGraph} {req : GroupMembershipRequest}
    {result : Server × MembershipGraph} (h : adminGroupAdd sv graph req = .ok result) :
    Extends sv.principals result.1.principals := by
  unfold adminGroupAdd at h
  split at h
  · exact absurd h (by simp)
  · split at h
    · exact absurd h (by simp)
    · split at h
      · exact absurd h (by simp)
      · cases h
        exact (upsertPrincipalTokens_spec sv.principals req.tenantId [req.group, req.member]).1

theorem adminGroupRemove_revokedSet {sv : Server} {graph : MembershipGraph}
    {req : GroupMembershipRequest} {result : RevocationTables × MembershipGraph}
    (h : adminGroupRemove sv graph req now = .ok result) :
    result.1.revokedSet tenant = sv.revocations.revokedSet tenant := by
  unfold adminGroupRemove at h
  split at h
  · exact absurd h (by simp)
  · split at h
    · exact absurd h (by simp)
    · split at h
      · exact absurd h (by simp)
      · cases h
        rfl

variable (toLowercase lookup now) in
/-- A call other than a deprovision revokes nobody, and reinstates nobody. -/
theorem RevokedAs.apply_other (h : RevokedAs tenant plane gone) {op : AdminOp}
    (hop : ∀ req, op ≠ .deprovision req) :
    RevokedAs tenant (plane.apply toLowercase lookup now op).1 gone := by
  cases op with
  | registryCanonical req =>
    simp only [IdentityPlane.apply, RegistryPlane.adminRegistryCanonical]
    split <;> exact h.frame (fun _ hr => hr) rfl
  | registryAlias req =>
    simp only [IdentityPlane.apply, RegistryPlane.adminRegistryAlias]
    split <;> exact h.frame (fun _ hr => hr) rfl
  | crosswalk req =>
    simp only [IdentityPlane.apply, IdentityPlane.adminCrosswalkLink]
    split
    · exact h
    · split <;> exact h.frame (fun _ hr => hr) rfl
  | principals tenant' principals =>
    simp only [IdentityPlane.apply, IdentityPlane.adminPrincipals]
    split
    · exact h
    · exact h.frame (upsertPrincipalTokens_spec _ tenant' principals).1 rfl
  | groupAdd req =>
    simp only [IdentityPlane.apply, IdentityPlane.addMembership]
    split
    · exact h
    · rename_i server graph hadd
      exact h.frame (adminGroupAdd_extends hadd) rfl
  | groupRemove req =>
    simp only [IdentityPlane.apply, IdentityPlane.removeMembership]
    split
    · exact h
    · rename_i revocations graph hremove
      exact h.frame (fun _ hr => hr) (adminGroupRemove_revokedSet hremove)
  | deprovision req => exact absurd rfl (hop req)

/-- A deprovision that is accepted revokes its principal. -/
theorem RevokedAs.deprovision (h : RevokedAs tenant plane gone) {req : PrincipalRevokeRequest}
    (hok : plane.deprovision req now = (plane', .ok ())) :
    RevokedAs tenant plane'
      {p | p ∈ gone ∨ (⟨tenant, p⟩ : PrincipalRevokeRequest) = req} := by
  have hplane : plane'.server.principals =
        (plane.server.principals.upsertToken req.tenantId req.principal).1 ∧
      plane'.server.revocations = plane.server.revocations.revokePrincipal req.tenantId
        req.principal (plane.server.principals.upsertToken req.tenantId req.principal).2 now := by
    unfold IdentityPlane.deprovision at hok
    split at hok
    · exact absurd (congrArg Prod.snd hok) (by simp)
    · rename_i registryPlane token hadmin
      obtain rfl := (congrArg Prod.fst hok).symm
      unfold RegistryPlane.adminDeprovision at hadmin
      split at hadmin
      · exact absurd (congrArg Prod.snd hadmin) (by simp)
      · split at hadmin
        · obtain rfl := (congrArg Prod.fst hadmin).symm
          exact ⟨rfl, rfl⟩
        · exact absurd (congrArg Prod.snd hadmin) (by simp)
  obtain ⟨hprincipals, hrevocations⟩ := hplane
  obtain ⟨hext, htoken⟩ := upsertToken_spec plane.server.principals req.tenantId req.principal
  rw [← hprincipals] at hext htoken
  constructor
  · intro t ht
    rw [hrevocations, mem_revokedSet_revokePrincipal] at ht
    rcases ht with ht | ⟨rfl, rfl⟩
    · obtain ⟨p, hp, hpt⟩ := h.named t ht
      exact ⟨p, Or.inl hp, hext _ hpt⟩
    · exact ⟨req.principal, Or.inr rfl, htoken⟩
  · rintro p (hp | rfl)
    · obtain ⟨t, hpt, ht⟩ := h.done p hp
      refine ⟨t, hext _ hpt, ?_⟩
      rw [hrevocations, mem_revokedSet_revokePrincipal]
      exact Or.inl ht
    · refine ⟨_, htoken, ?_⟩
      rw [hrevocations, mem_revokedSet_revokePrincipal]
      exact Or.inr ⟨rfl, rfl⟩

/-- An accepted call revokes the principal it deprovisions, if it deprovisions any. -/
theorem RevokedAs.apply_ok (h : RevokedAs tenant plane gone) {op : AdminOp}
    (hok : plane.apply toLowercase lookup now op = (plane', .ok ())) :
    RevokedAs tenant plane' {p | p ∈ gone ∨ op = .deprovision ⟨tenant, p⟩} := by
  by_cases hop : ∃ req, op = .deprovision req
  · obtain ⟨req, rfl⟩ := hop
    refine (h.deprovision hok).congr fun p => ?_
    simp [eq_comm]
  · have hother := h.apply_other toLowercase lookup now
      fun req hreq => hop ⟨req, hreq⟩
    rw [hok] at hother
    refine hother.congr fun p => ?_
    have hnot : op ≠ .deprovision ⟨tenant, p⟩ := fun hp => hop ⟨_, hp⟩
    simp [hnot]

theorem RevokedAs.apply_refused (h : RevokedAs tenant plane gone) {op : AdminOp} {e : HandlerError}
    (hrefused : plane.apply toLowercase lookup now op = (plane', .error e)) :
    RevokedAs tenant plane' gone := by
  by_cases hop : ∃ req, op = .deprovision req
  · obtain ⟨req, rfl⟩ := hop
    simp only [IdentityPlane.apply, IdentityPlane.deprovision] at hrefused
    split at hrefused
    · obtain rfl := (Prod.mk.inj hrefused).1
      exact h
    · exact absurd (Prod.mk.inj hrefused).2 (by simp)
  · have hother := h.apply_other toLowercase lookup now
      fun req hreq => hop ⟨req, hreq⟩
    rw [hrefused] at hother
    exact hother

variable (toLowercase lookup now) in
/-- After the calls of a cycle, those are revoked who were before or whose deprovision was
delivered. -/
theorem RevokedAs.applyOps (h : RevokedAs tenant plane gone) (ops : List AdminOp) :
    RevokedAs tenant (applyOps toLowercase lookup now plane ops).plane
      {p | p ∈ gone ∨ .deprovision ⟨tenant, p⟩ ∈
        (applyOps toLowercase lookup now plane ops).delivered} := by
  induction ops generalizing plane gone with
  | nil =>
    refine h.congr fun p => ?_
    simp [Verity.Model.applyOps]
  | cons op ops ih =>
    unfold Verity.Model.applyOps
    split
    · rename_i plane' e happly
      refine (h.apply_refused happly).congr fun p => ?_
      simp
    · rename_i plane' happly
      refine (ih (h.apply_ok happly)).congr fun p => ?_
      simp [or_assoc, eq_comm]

end Calls

/-! ## Runs -/

/-- The principals whose deprovision a cycle of the history has delivered. -/
def deprovisionedBy (tenant : TenantId) (past : List CycleRecord) : Set String :=
  {p | ∃ c ∈ past, .deprovision ⟨tenant, p⟩ ∈ c.delivered}

/-- The cycle completed and listed the user. -/
def Listed (email : String) (c : CycleRecord) : Prop :=
  c.ending = .complete ∧ email ∈ c.desired.emails

/-- The state file was not lost then. -/
def FileKept (c : CycleRecord) : Prop :=
  c.ending ≠ .forgotten

/-- A cycle that completed listed the user, and before the state file was next lost, a cycle that
did not list them completed or got as far as the request. -/
def Departed (tenant : TenantId) (past : List CycleRecord) (email : String) : Prop :=
  ∃ before c after, past = before ++ c :: after ∧ Since (Listed email) FileKept before ∧
    email ∉ c.desired.emails ∧
      (c.ending = .complete ∨ .deprovision ⟨tenant, userPrincipal email⟩ ∈ c.delivered)

theorem userPrincipal_injective {a b : String} (h : userPrincipal a = userPrincipal b) : a = b :=
  (@principalString_injective .user .user _ _ h).2

section Past

variable {tenant : TenantId} {past : List CycleRecord} {c : CycleRecord}

theorem departed_concat {email : String} :
    Departed tenant (past ++ [c]) email ↔ Departed tenant past email ∨
      (Since (Listed email) FileKept past ∧ email ∉ c.desired.emails ∧
        (c.ending = .complete ∨ .deprovision ⟨tenant, userPrincipal email⟩ ∈ c.delivered)) := by
  constructor
  · rintro ⟨before, k, after, hsplit, hleft⟩
    rcases split_concat hsplit with ⟨rfl, rfl, -⟩ | ⟨older, -, hpast⟩
    · exact Or.inr hleft
    · exact Or.inl ⟨before, k, older, hpast, hleft⟩
  · rintro (⟨before, k, after, rfl, hleft⟩ | hleft)
    · exact ⟨before, k, after ++ [c], by rw [List.append_assoc, List.cons_append], hleft⟩
    · exact ⟨past, c, [], rfl, hleft⟩

theorem mem_deprovisionedBy_concat {p : String} :
    p ∈ deprovisionedBy tenant (past ++ [c]) ↔
      p ∈ deprovisionedBy tenant past ∨ .deprovision ⟨tenant, p⟩ ∈ c.delivered := by
  simp [deprovisionedBy, or_and_right, exists_or]

end Past

theorem deprovision_mem_buildAdminOps_iff {diff : SyncDiff} {tenant : TenantId}
    {source p : String} :
    .deprovision ⟨tenant, p⟩ ∈ buildAdminOps diff tenant source ↔
      ∃ email ∈ diff.deprovisioned, userPrincipal email = p := by
  constructor
  · intro hop
    simp only [buildAdminOps, List.mem_append, List.mem_map] at hop
    rcases hop with (((hop | hop) | ⟨e, -, he⟩) | ⟨e, -, he⟩) | ⟨email, hemail, heq⟩
    · exact absurd trivial (not_isWithdrawal_buildRegistryOps _ hop)
    · split at hop
      · exact absurd hop (by simp)
      · exact absurd (List.mem_singleton.mp hop) (by simp)
    · exact absurd he (by simp)
    · exact absurd he (by simp)
    · rw [AdminOp.deprovision.injEq, PrincipalRevokeRequest.mk.injEq] at heq
      exact ⟨email, hemail, heq.2⟩
  · rintro ⟨email, hemail, rfl⟩
    simp only [buildAdminOps, List.mem_append, List.mem_map]
    exact Or.inr ⟨email, hemail, rfl⟩

theorem deprovision_mem_buildAdminOps {diff : SyncDiff} {tenant : TenantId}
    {source email : String} :
    .deprovision ⟨tenant, userPrincipal email⟩ ∈ buildAdminOps diff tenant source ↔
      email ∈ diff.deprovisioned := by
  rw [deprovision_mem_buildAdminOps_iff]
  constructor
  · rintro ⟨email', hemail, hsame⟩
    rw [← userPrincipal_injective hsame]
    exact hemail
  · intro hemail
    exact ⟨email, hemail, rfl⟩

namespace GDirectory

open Verity.Model.GDirectory

variable {lower strip toLowercase : String → String} {lookup : MembershipGraph → SpiceDb}
  {config : GDirectoryConfig}

/-- Those revoked are those who were from the start and those whose deprovision was delivered. The
snapshot has users that a complete cycle has listed since the state file was last lost, and whoever
one has listed since then is in the snapshot or was deprovisioned. -/
structure LeaverInv (config : GDirectoryConfig) (before : Set String) (s : DirectorySync) :
    Prop where
  revoked : RevokedAs config.tenantId s.plane (before ∪ deprovisionedBy config.tenantId s.past)
  listed : ∀ email ∈ s.snapshot.emails, Since (Listed email) FileKept s.past
  gone : ∀ email, Since (Listed email) FileKept s.past →
    email ∈ s.snapshot.emails ∨ userPrincipal email ∈ deprovisionedBy config.tenantId s.past
  departed : ∀ email, userPrincipal email ∈ deprovisionedBy config.tenantId s.past ↔
    Departed config.tenantId s.past email

variable {before : Set String}

theorem LeaverInv.forget {s : DirectorySync} (h : LeaverInv config before s) :
    LeaverInv config before s.forget := by
  have hsame : ∀ p, p ∈ deprovisionedBy config.tenantId s.forget.past ↔
      p ∈ deprovisionedBy config.tenantId s.past := by
    intro p
    simp [DirectorySync.forget, mem_deprovisionedBy_concat]
  refine ⟨h.revoked.congr fun p => or_congr Iff.rfl (hsame p).symm, ?_, ?_, ?_⟩
  · intro email hemail
    exact absurd hemail (by simp [DirectorySync.forget, DirectorySnapshot.empty,
      DirectorySnapshot.emails])
  · intro email hsince
    rcases since_concat.mp hsince with ⟨hcomplete, -⟩ | ⟨-, hkept⟩
    · exact absurd hcomplete (by simp)
    · exact absurd rfl hkept
  · intro email
    rw [hsame, h.departed]
    simp [DirectorySync.forget, departed_concat]

/-- A cycle that completes has deprovisioned who was in the snapshot and is not listed. -/
theorem deprovision_delivered {now : Time} {plane : IdentityPlane}
    {prev desired : DirectorySnapshot} {tenant : TenantId} {cut : Option Nat} {email : String}
    (hprev : email ∈ prev.emails) (hleft : email ∉ desired.emails)
    (hdone : (cut.isNone && !(applyOps toLowercase lookup now plane (sentOps (buildAdminOps
      (diffSnapshots prev desired) tenant "gdirectory") cut)).refused) = true) :
    .deprovision ⟨tenant, userPrincipal email⟩ ∈
      (applyOps toLowercase lookup now plane (sentOps (buildAdminOps
        (diffSnapshots prev desired) tenant "gdirectory") cut)).delivered := by
  rw [Bool.and_eq_true, Option.isNone_iff_eq_none, Bool.not_eq_true'] at hdone
  obtain ⟨rfl, hrefused⟩ := hdone
  rw [(delivered_applyOps toLowercase lookup now plane _).2 hrefused]
  exact deprovision_mem_buildAdminOps.mpr (mem_deprovisioned.mpr ⟨hprev, hleft⟩)

/-- A cycle revokes those it no longer lists. -/
theorem LeaverInv.cycle {s : DirectorySync} (h : LeaverInv config before s) (d : Directory)
    (cut : Option Nat) (now : Time) {s' : DirectorySync}
    (hstep : syncStep lower strip toLowercase lookup config s (.cycle d cut now) = some s') :
    LeaverInv config before s' := by
  have hsub := mem_of_mem_sentOps (buildAdminOps
    (diffSnapshots s.snapshot (reconcile lower strip config d)) config.tenantId "gdirectory") cut
  obtain ⟨hinitial, -⟩ := delivered_applyOps toLowercase lookup now s.plane
    (sentOps (buildAdminOps (diffSnapshots s.snapshot (reconcile lower strip config d))
      config.tenantId "gdirectory") cut)
  have hleaver := @deprovision_delivered toLowercase lookup now s.plane s.snapshot
    (reconcile lower strip config d) config.tenantId cut
  have hrevoked := h.revoked.applyOps toLowercase lookup now (sentOps (buildAdminOps
    (diffSnapshots s.snapshot (reconcile lower strip config d)) config.tenantId "gdirectory") cut)
  cases hstep
  refine ⟨hrevoked.congr fun p => ?_, ?_, ?_, ?_⟩ <;> clear hrevoked <;>
    simp only [DirectorySync.cycle] <;>
    generalize applyOps toLowercase lookup now s.plane _ = applied at *
  · refine or_assoc.trans (or_congr Iff.rfl ?_)
    rw [mem_deprovisionedBy_concat]
  · intro email hemail
    rw [since_concat]
    split at hemail
    · rename_i hdone
      exact Or.inl ⟨if_pos hdone, hemail⟩
    · refine Or.inr ⟨h.listed email hemail, ?_⟩
      unfold FileKept
      split <;> simp
  · intro email hsince
    rw [mem_deprovisionedBy_concat]
    rcases since_concat.mp hsince with ⟨hcomplete, hemail⟩ | ⟨hold, -⟩
    · rw [if_pos (completed_of_ending hcomplete)]
      exact Or.inl hemail
    · rcases h.gone email hold with hsnapshot | hdone
      · split
        · rename_i hdone
          by_cases hemail : email ∈ (reconcile lower strip config d).emails
          · exact Or.inl hemail
          · exact Or.inr (Or.inr (hleaver hsnapshot hemail hdone))
        · exact Or.inl hsnapshot
      · exact Or.inr (Or.inl hdone)
  · intro email
    rw [mem_deprovisionedBy_concat, departed_concat, h.departed]
    constructor
    · rintro (hold | hnew)
      · exact Or.inl hold
      · have hop := deprovision_mem_buildAdminOps.mp (hsub _ (hinitial.subset hnew))
        obtain ⟨hsnapshot, hleft⟩ := mem_deprovisioned.mp hop
        exact Or.inr ⟨h.listed email hsnapshot, hleft, Or.inr hnew⟩
    · rintro (hold | ⟨hsince, hleft, hcomplete | hnew⟩)
      · exact Or.inl hold
      · rcases h.gone email hsince with hsnapshot | hdone
        · exact Or.inr (hleaver hsnapshot hleft (completed_of_ending hcomplete))
        · exact Or.inl ((h.departed email).mp hdone)
      · exact Or.inr hnew

/-- In every state of every run, with the state file lost at any time, somebody is revoked exactly
when they were from the start, or a cycle that completed listed them and, before the file was next
lost, a cycle that did not list them completed or got as far as the request. Who is revoked stays
so, whatever the directory lists later. -/
theorem leaver_revoked_iff {plane : RegistryPlane}
    (hknown : RevokedKnown config.tenantId (DirectorySync.start plane).plane)
    {events : List SyncEvent} {s : DirectorySync}
    (hrun : run (syncStep lower strip toLowercase lookup config) (.start plane) events = some s)
    (email : String) :
    (RevokedIn config.tenantId s.plane (userPrincipal email) ↔
        RevokedIn config.tenantId (DirectorySync.start plane).plane (userPrincipal email) ∨
          Departed config.tenantId s.past email) ∧
      (RevokedIn config.tenantId s.plane (userPrincipal email) → ∀ later s',
        run (syncStep lower strip toLowercase lookup config) s later = some s' →
          RevokedIn config.tenantId s'.plane (userPrincipal email)) := by
  have hstart : LeaverInv config
      {p | RevokedIn config.tenantId (DirectorySync.start plane).plane p} (.start plane) := by
    refine ⟨(revokedAs_of_known hknown).congr fun p => ?_, ?_, ?_, ?_⟩
    · simp [DirectorySync.start, deprovisionedBy]
    · simp [DirectorySync.start, DirectorySnapshot.empty, DirectorySnapshot.emails]
    · rintro email ⟨before, c, after, hsplit, -⟩
      exact absurd hsplit (by simp [DirectorySync.start])
    · intro email
      simp [DirectorySync.start, deprovisionedBy, Departed]
  have hkeep : ∀ s e s', LeaverInv config
      {p | RevokedIn config.tenantId (DirectorySync.start plane).plane p} s →
      syncStep lower strip toLowercase lookup config s e = some s' →
        LeaverInv config
          {p | RevokedIn config.tenantId (DirectorySync.start plane).plane p} s' := by
    intro s e s' hs hstep
    cases e with
    | stateFileLost =>
      cases hstep
      exact hs.forget
    | cycle d cut now => exact hs.cycle d cut now hstep
  have hinv := run_induction hkeep hstart hrun
  refine ⟨?_, ?_⟩
  · rw [hinv.revoked.revokedIn_iff, ← hinv.departed]
    exact Iff.rfl
  · intro hrevoked later s' hlater
    rw [hinv.revoked.revokedIn_iff] at hrevoked
    have hstill := run_induction (I := fun s : DirectorySync =>
        LeaverInv config {p | RevokedIn config.tenantId (DirectorySync.start plane).plane p} s ∧
          userPrincipal email ∈
            {p | RevokedIn config.tenantId (DirectorySync.start plane).plane p} ∪
              deprovisionedBy config.tenantId s.past)
      ?_ ⟨hinv, hrevoked⟩ hlater
    · exact hstill.1.revoked.revokedIn_iff.mpr hstill.2
    · rintro s e s' ⟨hs, hp⟩ hstep
      refine ⟨hkeep s e s' hs hstep, ?_⟩
      rcases hp with hp | hp
      · exact Or.inl hp
      · refine Or.inr ?_
        cases e <;> cases hstep <;> exact mem_deprovisionedBy_concat.mpr (Or.inl hp)

/-! ### Somebody who is never deprovisioned -/

/-- A user whom an interrupted cycle adds to the group, and who is suspended before the next. -/
def suspendedEarly : List SyncEvent :=
  [.cycle (twoUsers ["ana", "ben"]) (some 6) 0,
    .cycle { twoUsers ["ana"] with
      users := [⟨"1", "ana", false, false, [], []⟩, ⟨"2", "ben", true, false, [], []⟩] } none 1]

/-- The second cycle is complete and does not list the user, who is a member of the group and not
revoked. -/
theorem suspended_user_not_revoked :
    ∃ s, run (syncStep id id id exactService directoryConfig) (.start directoryServer)
        suspendedEarly = some s ∧
      "user:ben" ∈ membersOf s.plane.graph "group:staff" ∧
      ¬ RevokedIn 1 s.plane (userPrincipal "ben") := by
  have hrun : (run (syncStep id id id exactService directoryConfig) (.start directoryServer)
      suspendedEarly).map (fun s => (membersOf s.plane.graph "group:staff",
        s.past.map fun c => (c.ending, c.desired.emails))) =
      some (["user:ana", "user:ben"], [(.cut, ["ana", "ben"]), (.complete, ["ana"])]) := by
    decide +kernel
  obtain ⟨s, hs, hview⟩ := Option.map_eq_some_iff.mp hrun
  obtain ⟨hmembers, hpast⟩ := Prod.mk.inj hview
  obtain ⟨c₁, rest, hc₁, hfirst, hrest⟩ := List.map_eq_cons_iff.mp hpast
  obtain ⟨c₂, hc₂, hsecond⟩ := List.map_eq_singleton_iff.mp hrest
  subst hc₂
  obtain ⟨hending₁, -⟩ := Prod.mk.inj hfirst
  obtain ⟨-, hemails₂⟩ := Prod.mk.inj hsecond
  refine ⟨s, hs, by rw [hmembers]; simp, ?_⟩
  intro hrevoked
  have hknown : RevokedKnown directoryConfig.tenantId
      (DirectorySync.start directoryServer).plane := revokedKnown_of_none (by decide)
  rcases (leaver_revoked_iff hknown hs "ben").1.mp hrevoked with
    ⟨t, -, ht⟩ | ⟨_, c, after, hsplit, ⟨older, k, newer, rfl, ⟨hcomplete, hemail⟩, -⟩, -⟩
  · exact absurd ht (by decide +revert)
  have hk : k ∈ s.past := by
    rw [hsplit]
    simp
  rw [hc₁] at hk
  rcases List.mem_cons.mp hk with rfl | hk
  · rw [hending₁] at hcomplete
    exact absurd hcomplete (by simp)
  · rw [List.mem_singleton.mp hk, hemails₂] at hemail
    exact absurd hemail (by decide)

end GDirectory

end Verity.Analysis
