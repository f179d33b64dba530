import Verity.Model.ReadPath
import Verity.Analysis.RevocationSubtraction

/-!
# The power of a compiled scope

A scope handle is signed, so the scope compiled from it should never see more than the
payload allows. `scopeFor_spec` says what the compiled principals can be: the payload's own,
less what was revoked; none at all; or, behind a stale watch, the tokens the permission
service gives the subject now, less what was revoked.

The last case does not look at the payload's principals at all. A user who joined a group
after the mint gains its token while the watch is stale. `scopeFor_no_more_power_iff` is the
exact condition; tenant, entity scope, ceiling and the durable revocations hold in all cases.
-/

set_option autoImplicit false

namespace Verity.Analysis

open Verity.Model

/-- The scope stays within the payload, and holds no durably revoked token. -/
structure NoMorePower (st : AppState) (payload : ScopePayload) (scope : Scope) : Prop where
  principals : ∀ t ∈ scope.principals, t ∈ payload.principals
  ceiling : scope.maxConfidentiality ≤ payload.maxConfidentiality
  tenantId : scope.tenantId = payload.tenantId
  entityScope : scope.entityScope = payload.entityScope
  notRevoked : ∀ t ∈ scope.principals, t ∉ st.revocations.revokedSet payload.tenantId

/-- The tokens of the subject and of the groups the permission service lists for it now. -/
def liveTokens (st : AppState) (tenant : TenantId) (subject : String) (groups : List String) :
    List PrincipalToken :=
  (st.principals.upsertPrincipalTokens tenant (subject :: groups)).2.map Prod.snd

/-- What the principals of a compiled scope can be. -/
inductive CompiledPrincipals (st : AppState) (payload : ScopePayload) (clock : Clock) :
    List PrincipalToken → Prop
  | materialized
      (hfresh : st.watch.isStale st.watchStalenessFenceSecs clock.secsSinceStart = false) :
      CompiledPrincipals st payload clock
        (st.revocations.subtract payload.tenantId payload.principals payload.issuedAt clock.now)
  | hidden (hstale : st.watch.isStale st.watchStalenessFenceSecs clock.secsSinceStart = true)
      (hnone : st.rebac = none ∨ payload.subject = none) : CompiledPrincipals st payload clock []
  | live (hstale : st.watch.isStale st.watchStalenessFenceSecs clock.secsSinceStart = true)
      (db : SpiceDb) (subject name : String) (groups : List String) (hdb : st.rebac = some db)
      (hsubject : payload.subject = some subject)
      (hname : parsePrincipal subject = some (.user, name))
      (hgroups : db.userGroups payload.tenantId name = .ok groups) :
      CompiledPrincipals st payload clock
        (st.revocations.subtract payload.tenantId
          (liveTokens st payload.tenantId subject groups) payload.issuedAt clock.now)

theorem liveResolvedTokens_eq_ok {st : AppState} {db : SpiceDb} {payload : ScopePayload}
    {subject : String} {clock : Clock} {table : PrincipalTable} {tokens : List PrincipalToken}
    (h : st.liveResolvedTokens db payload subject clock = .ok (table, tokens)) :
    ∃ name groups, parsePrincipal subject = some (.user, name) ∧
      db.userGroups payload.tenantId name = .ok groups ∧
      tokens = st.revocations.subtract payload.tenantId
        (liveTokens st payload.tenantId subject groups) payload.issuedAt clock.now := by
  unfold AppState.liveResolvedTokens at h
  split at h
  · rename_i name hname
    cases hgroups : db.userGroups payload.tenantId name with
    | error e => simp [hgroups] at h
    | ok groups =>
      simp only [hgroups, Except.ok.injEq, Prod.mk.injEq] at h
      exact ⟨name, groups, hname, hgroups, h.2.symm⟩
  · exact absurd h (by simp)

/-- Everything a compiled scope can be. -/
theorem scopeFor_spec {st : AppState} {payload : ScopePayload} {clock : Clock}
    {table : PrincipalTable} {scope : Scope} (h : st.scopeFor payload clock = .ok (table, scope)) :
    CompiledPrincipals st payload clock scope.principals ∧
      scope.maxConfidentiality = st.readCeiling payload.maxConfidentiality ∧
      scope.tenantId = payload.tenantId ∧ scope.entityScope = payload.entityScope := by
  unfold AppState.scopeFor AppState.fenceStaleScope at h
  simp only [ScopePayload.toScope] at h
  cases hstale : st.watch.isStale st.watchStalenessFenceSecs clock.secsSinceStart with
  | false =>
    simp only [hstale, Bool.not_false, if_true, Except.ok.injEq, Prod.mk.injEq] at h
    obtain ⟨-, rfl⟩ := h
    exact ⟨.materialized hstale, rfl, rfl, rfl⟩
  | true =>
    simp only [hstale, Bool.not_true, Bool.false_eq_true, if_false] at h
    cases hdb : st.rebac with
    | none =>
      simp only [hdb, Except.ok.injEq, Prod.mk.injEq] at h
      obtain ⟨-, rfl⟩ := h
      exact ⟨.hidden hstale (Or.inl hdb), rfl, rfl, rfl⟩
    | some db =>
      cases hsubject : payload.subject with
      | none =>
        simp only [hdb, hsubject, Except.ok.injEq, Prod.mk.injEq] at h
        obtain ⟨-, rfl⟩ := h
        exact ⟨.hidden hstale (Or.inr hsubject), rfl, rfl, rfl⟩
      | some subject =>
        simp only [hdb, hsubject, bind, Except.bind] at h
        cases hlive : st.liveResolvedTokens db payload subject clock with
        | error e => simp [hlive] at h
        | ok live =>
          obtain ⟨table', tokens⟩ := live
          simp only [hlive, pure, Except.pure, Except.ok.injEq, Prod.mk.injEq] at h
          obtain ⟨-, rfl⟩ := h
          obtain ⟨name, groups, hname, hgroups, rfl⟩ := liveResolvedTokens_eq_ok hlive
          exact ⟨.live hstale db subject name groups hdb hsubject hname hgroups,
            rfl, rfl, rfl⟩

theorem readCeiling_le (st : AppState) (ceiling : Confidentiality) :
    st.readCeiling ceiling ≤ ceiling := by
  unfold AppState.readCeiling
  split
  · exact min_le_left _ _
  · exact le_refl _

theorem subtract_subset {tables : RevocationTables} {tenant : TenantId}
    {principals : List PrincipalToken} {issuedAt now : Time} {t : PrincipalToken}
    (h : t ∈ tables.subtract tenant principals issuedAt now) : t ∈ principals :=
  (mem_subtract_iff.mp h).1

theorem subtract_not_revoked {tables : RevocationTables} {tenant : TenantId}
    {principals : List PrincipalToken} {issuedAt now : Time} {t : PrincipalToken}
    (h : t ∈ tables.subtract tenant principals issuedAt now) : t ∉ tables.revokedSet tenant :=
  (mem_subtract_iff.mp h).2.1

/-- Behind a stale watch, with a permission service and a subject to ask it about: every token
the service gives the subject now, and that the subtraction lets through, is one the payload
was signed with. -/
def LiveWithinPayload (st : AppState) (payload : ScopePayload) (clock : Clock) : Prop :=
  st.watch.isStale st.watchStalenessFenceSecs clock.secsSinceStart = true →
    ∀ db subject name groups, st.rebac = some db → payload.subject = some subject →
      parsePrincipal subject = some (.user, name) →
      db.userGroups payload.tenantId name = .ok groups →
      ∀ t ∈ liveTokens st payload.tenantId subject groups,
        t ∈ st.revocations.subtract payload.tenantId [t] payload.issuedAt clock.now →
        t ∈ payload.principals

/-- Whatever the watch, the memberships, the revocations and the settings: a compiled scope
stays within its payload if and only if `LiveWithinPayload` does. -/
theorem scopeFor_no_more_power_iff {st : AppState} {payload : ScopePayload} {clock : Clock}
    {table : PrincipalTable} {scope : Scope} (h : st.scopeFor payload clock = .ok (table, scope)) :
    NoMorePower st payload scope ↔ LiveWithinPayload st payload clock := by
  obtain ⟨hprincipals, hceiling, htenant, hentity⟩ := scopeFor_spec h
  have hpower : NoMorePower st payload scope ↔ ∀ t ∈ scope.principals, t ∈ payload.principals := by
    refine ⟨fun hp => hp.principals, fun hsub => ⟨hsub, ?_, htenant, hentity, ?_⟩⟩
    · rw [hceiling]
      exact readCeiling_le st _
    · intro t ht
      generalize scope.principals = principals at hprincipals ht
      cases hprincipals with
      | materialized => exact subtract_not_revoked ht
      | hidden => exact absurd ht (by simp)
      | live => exact subtract_not_revoked ht
  rw [hpower]
  generalize scope.principals = principals at hprincipals
  cases hprincipals with
  | materialized hfresh =>
    refine ⟨fun _ hstale => ?_, fun _ t ht => subtract_subset ht⟩
    rw [hfresh] at hstale
    exact absurd hstale (by simp)
  | hidden hstale hnone =>
    refine ⟨fun _ _ db subject name groups hdb hsubject => ?_, fun _ t ht => absurd ht (by simp)⟩
    rcases hnone with hnone | hnone
    · rw [hnone] at hdb
      exact absurd hdb (by simp)
    · rw [hnone] at hsubject
      exact absurd hsubject (by simp)
  | live hstale db subject name groups hdb hsubject hname hgroups =>
    constructor
    · intro hsub _ db' subject' name' groups' hdb' hsubject' hname' hgroups' t ht hkept
      rw [hdb, Option.some.injEq] at hdb'
      rw [hsubject, Option.some.injEq] at hsubject'
      subst hdb' hsubject'
      rw [hname, Option.some.injEq, Prod.mk.injEq] at hname'
      obtain ⟨-, rfl⟩ := hname'
      rw [hgroups, Except.ok.injEq] at hgroups'
      subst hgroups'
      exact hsub t (mem_subtract_iff.mpr ⟨ht, (mem_subtract_iff.mp hkept).2⟩)
    · intro hwithin t ht
      obtain ⟨hlive, hrest⟩ := mem_subtract_iff.mp ht
      exact hwithin hstale db subject name groups hdb hsubject hname hgroups t hlive
        (mem_subtract_iff.mpr ⟨by simp, hrest⟩)

/-- A permission service in which every user is a member of the sales group. -/
def salesService : SpiceDb where
  lookupResources := fun _ _ _ => .ok ["sales"]
  lookupSubjects := fun _ _ => .ok ["alice"]

/-- A tenant whose alice and sales group have tokens 1 and 7. -/
def aliceTokens : PrincipalTable :=
  ⟨[⟨1, "user:alice", 1⟩, ⟨1, "group:sales", 7⟩], by decide, by decide⟩

/-- A server with that service, whose watch is on but not connected. -/
def staleServer : AppState where
  rebac := some salesService
  allowRestrictedWithoutRebac := false
  watch := { enabled := true, connected := false, degraded := false, lastAdvanceSecs := 0 }
  watchStalenessFenceSecs := 30
  principals := aliceTokens
  revocations := RevocationTables.empty

/-- A handle of alice with the given tokens. -/
def aliceWith (principals : List PrincipalToken) : ScopePayload :=
  { salesPayload with principals }

def noon : Clock := ⟨seconds 60, 60⟩

/-- The handle of a member whose watch is stale compiles to no more power exactly when the live set
is within its payload. -/
theorem scopeFor_no_more_power_member :
    ∃ table scope, staleServer.scopeFor (aliceWith [1, 7]) noon = .ok (table, scope) ∧
      (NoMorePower staleServer (aliceWith [1, 7]) scope ↔
        LiveWithinPayload staleServer (aliceWith [1, 7]) noon) := by
  have hok : ∃ result, staleServer.scopeFor (aliceWith [1, 7]) noon = .ok result := ⟨_, rfl⟩
  obtain ⟨⟨table, scope⟩, h⟩ := hok
  exact ⟨table, scope, h, scopeFor_no_more_power_iff h⟩

/-- Alice's handle holds only her own token; she has joined the sales group since. Behind the
stale watch her handle reads with the token of the group too. -/
theorem fence_adds_group_token :
    (staleServer.scopeFor (aliceWith [1]) noon).map (fun r => r.2.principals) = .ok [1, 7] ∧
    ∀ table scope, staleServer.scopeFor (aliceWith [1]) noon = .ok (table, scope) →
      ¬ NoMorePower staleServer (aliceWith [1]) scope := by
  have hprincipals : (staleServer.scopeFor (aliceWith [1]) noon).map (fun r => r.2.principals) =
      .ok [1, 7] := by decide +kernel
  refine ⟨hprincipals, ?_⟩
  intro table scope h hpower
  rw [h] at hprincipals
  have heq : scope.principals = [1, 7] := Except.ok.inj hprincipals
  have := hpower.principals 7 (by rw [heq]; simp)
  revert this
  decide

end Verity.Analysis
