import Verity.Analysis.RevocationSubtraction
import Verity.Foundation.Fallible
import Verity.Model.Membership

/-!
# Which deletions the dedupe leaves unmarked

A deletion that the watch processes writes no tombstone for a token that has one of the last few
seconds. A read compares the tombstones of a token with the instant its handle was issued, so the
recent tombstone stands in for the one that is skipped only for the handles that are not younger
than it is. A token that was granted again, signed into a handle and lost once more within the few
seconds stays good for that handle.
-/

set_option autoImplicit false

namespace Verity.Analysis

open Verity.Foundation
open Verity.Model

variable {principals : PrincipalTable} {tables tables' : RevocationTables} {db : SpiceDb}
variable {d : MembershipDelete} {now deletedAt : Time} {lost : List String} {written : Nat}

/-- Some tombstone of the token is at or after the instant a handle was issued. -/
def Bites (tables : RevocationTables) (tenant : TenantId) (t : PrincipalToken) (issuedAt : Time) :
    Prop :=
  ∃ x, Tombstone tables tenant t x ∧ issuedAt ≤ x

/-- The token has a tombstone of the last few seconds. -/
def RecentlyTombstoned (tables : RevocationTables) (tenant : TenantId) (t : PrincipalToken)
    (now : Time) : Prop :=
  ∃ x, Tombstone tables tenant t x ∧ now - seconds dedupeSecs < x

/-- The tokens of the principals that are lost. -/
def lostTokens (principals : PrincipalTable) (tenant : TenantId) (lost : List String) :
    List PrincipalToken :=
  (principals.materialized tenant lost).map Prod.snd

theorem mem_recentlyRevoked_iff {tenant : TenantId} {candidates : List PrincipalToken}
    {t : PrincipalToken} :
    t ∈ recentlyRevoked tables tenant candidates now ↔
      t ∈ candidates ∧ RecentlyTombstoned tables tenant t now := by
  unfold recentlyRevoked RecentlyTombstoned Tombstone
  rw [List.mem_dedup, List.mem_map]
  constructor
  · rintro ⟨r, hr, rfl⟩
    obtain ⟨hmem, hcond⟩ := List.mem_filter.mp hr
    obtain ⟨htenant, hcandidate, hrecent⟩ := of_decide_eq_true hcond
    exact ⟨hcandidate, r.instant, ⟨r, hmem, htenant, rfl, rfl⟩, hrecent⟩
  · rintro ⟨hcandidate, x, ⟨r, hmem, htenant, rfl, rfl⟩, hrecent⟩
    exact ⟨r, List.mem_filter.mpr ⟨hmem, decide_eq_true ⟨htenant, hcandidate, hrecent⟩⟩, rfl⟩

theorem affectedPrincipals_ne_nil {affected : List String}
    (h : affectedPrincipals db d = .ok affected) : affected ≠ [] := by
  unfold affectedPrincipals at h
  split at h
  · cases h
    exact List.cons_ne_nil _ _
  · obtain ⟨users, -, husers⟩ := exists_of_bind_eq_ok h
    cases husers
    exact List.append_ne_nil_of_right_ne_nil _ (List.cons_ne_nil _ _)
  · cases h
    exact List.cons_ne_nil _ _

/-- The lost tokens that the dedupe lets through. -/
theorem exists_fresh_iff {t : PrincipalToken} :
    (∃ l ∈ dedupeLost (principals.materialized d.tenant lost)
      (recentlyRevoked tables d.tenant (lostTokens principals d.tenant lost) now), l.2 = t) ↔
        t ∈ lostTokens principals d.tenant lost ∧ ¬ RecentlyTombstoned tables d.tenant t now := by
  have hfresh : ∀ l, l ∈ dedupeLost (principals.materialized d.tenant lost)
      (recentlyRevoked tables d.tenant (lostTokens principals d.tenant lost) now) ↔
        l ∈ principals.materialized d.tenant lost ∧
          ¬ RecentlyTombstoned tables d.tenant l.2 now := by
    intro l
    unfold dedupeLost
    rw [List.mem_filter, Bool.not_eq_true', ← Bool.not_eq_true, List.contains_iff_mem,
      mem_recentlyRevoked_iff]
    refine and_congr_right fun hl => not_congr ?_
    exact and_iff_right (List.mem_map_of_mem hl)
  constructor
  · rintro ⟨l, hl, rfl⟩
    obtain ⟨hl, hrecent⟩ := (hfresh l).mp hl
    exact ⟨List.mem_map_of_mem hl, hrecent⟩
  · rintro ⟨ht, hrecent⟩
    obtain ⟨l, hl, rfl⟩ := List.mem_map.mp ht
    exact ⟨l, (hfresh l).mpr ⟨hl, hrecent⟩, rfl⟩

/-- A processed deletion marks, at the instant it is processed, the lost tokens that have no recent
tombstone. -/
theorem tombstone_applyDelete_iff (hlost : lostPrincipals db d = .ok lost)
    (happly : applyDelete principals tables db d now = .ok (tables', written))
    {tenant : TenantId} {t : PrincipalToken} {x : Time} :
    Tombstone tables' tenant t x ↔
      Tombstone tables tenant t x ∨ (tenant = d.tenant ∧ x = now ∧
        t ∈ lostTokens principals d.tenant lost ∧ ¬ RecentlyTombstoned tables d.tenant t now) := by
  obtain ⟨affected, haffected, happly⟩ := exists_of_bind_eq_ok happly
  rw [hlost] at happly
  have hrecorded : Tombstone tables' tenant t x ↔ Tombstone (tables.record d.tenant affected
      (dedupeLost (principals.materialized d.tenant lost)
        (recentlyRevoked tables d.tenant (lostTokens principals d.tenant lost) now)) now)
      tenant t x := by
    have hnothing : ∀ {lost : List (String × PrincipalToken)}, lost.isEmpty = true →
        (Tombstone tables tenant t x ↔
          Tombstone (tables.record d.tenant affected lost now) tenant t x) := by
      intro lost hempty
      rw [List.isEmpty_iff.mp hempty, tombstone_record_iff]
      simp
    dsimp only [bind, Except.bind] at happly
    split at happly
    · rename_i hempty
      cases happly
      refine hnothing ?_
      unfold dedupeLost
      rw [List.isEmpty_iff.mp hempty]
      rfl
    · split at happly
      · rename_i hempty
        cases happly
        exact hnothing hempty
      · cases happly
        exact Iff.rfl
  rw [hrecorded, tombstone_record_iff, exists_fresh_iff]
  exact or_congr_right (and_iff_right (affectedPrincipals_ne_nil haffected))

/-- The handle holds the token, and was issued by the time the membership was deleted. -/
def HeldAt (d : MembershipDelete) (deletedAt : Time) (handle : ScopePayload)
    (t : PrincipalToken) : Prop :=
  handle.tenantId = d.tenant ∧ t ∈ handle.principals ∧ handle.issuedAt ≤ deletedAt

/-- Every handle of every lost token is bitten once the deletion is processed, exactly when each of
those tokens that has a recent tombstone has one that bites already. -/
theorem lost_tokens_bitten_iff {handles : List ScopePayload} (hdeleted : deletedAt ≤ now)
    (hlost : lostPrincipals db d = .ok lost)
    (happly : applyDelete principals tables db d now = .ok (tables', written)) :
    (∀ t ∈ lostTokens principals d.tenant lost, ∀ handle ∈ handles,
      HeldAt d deletedAt handle t → Bites tables' d.tenant t handle.issuedAt) ↔
    ∀ t ∈ lostTokens principals d.tenant lost, ∀ handle ∈ handles,
      HeldAt d deletedAt handle t → RecentlyTombstoned tables d.tenant t now →
        Bites tables d.tenant t handle.issuedAt := by
  refine forall₂_congr fun t ht => forall₂_congr fun handle _ => forall_congr' fun hheld => ?_
  constructor
  · rintro ⟨x, hx, hissued⟩ hrecent
    obtain hx | ⟨-, -, -, hfresh⟩ := (tombstone_applyDelete_iff hlost happly).mp hx
    · exact ⟨x, hx, hissued⟩
    · exact absurd hrecent hfresh
  · intro h
    by_cases hrecent : RecentlyTombstoned tables d.tenant t now
    · obtain ⟨x, hx, hissued⟩ := h hrecent
      exact ⟨x, (tombstone_applyDelete_iff hlost happly).mpr (Or.inl hx), hissued⟩
    · refine ⟨now, (tombstone_applyDelete_iff hlost happly).mpr (Or.inr ?_), ?_⟩
      · exact ⟨rfl, rfl, ht, hrecent⟩
      · exact hheld.2.2.trans hdeleted

/-! ## A group that is lost twice -/

/-- The one group that has a token. -/
def salesPrincipals : PrincipalTable :=
  (PrincipalTable.empty.upsertPrincipalTokens 1 ["group:sales"]).1

def aliceLeavesAgain : MembershipDelete := ⟨1, "sales", some (.user, "alice")⟩

/-- The tombstone of an earlier deletion of the same membership. -/
def leftSalesAt (x : Time) : RevocationTables where
  revocations := [⟨1, "user:alice", 1, x⟩]
  revokedPrincipals := []

def salesHandle (issuedAt : Time) : ScopePayload :=
  { salesPayload with principals := [1], issuedAt := issuedAt }

/-- The earlier tombstone bites the handle that was issued before it. -/
theorem lost_tokens_bitten_before_tombstone :
    applyDelete salesPrincipals (leftSalesAt (seconds 4)) (exactService []) aliceLeavesAgain
        (seconds 7) = .ok (leftSalesAt (seconds 4), 0) ∧
      Bites (leftSalesAt (seconds 4)) 1 1 (seconds 3) := by
  have happly : applyDelete salesPrincipals (leftSalesAt (seconds 4)) (exactService [])
      aliceLeavesAgain (seconds 7) = .ok (leftSalesAt (seconds 4), 0) := by decide +kernel
  have hlost : lostPrincipals (exactService []) aliceLeavesAgain = .ok ["group:sales"] := by
    decide +kernel
  have hdeleted : seconds 6 ≤ seconds 7 := by decide
  have hbites : Bites (leftSalesAt (seconds 4)) 1 1 (seconds 3) :=
    ⟨seconds 4, ⟨_, List.mem_singleton_self _, rfl, rfl, rfl⟩, by decide⟩
  have hbitten := @lost_tokens_bitten_iff salesPrincipals _ _ _ _ _ _ _ _
    [salesHandle (seconds 3)] hdeleted hlost happly
  refine ⟨happly, hbitten.mpr ?_ 1 (by decide +kernel) (salesHandle (seconds 3))
    (List.mem_singleton_self _) ⟨rfl, List.mem_singleton_self _, by decide⟩⟩
  intro t ht handle hhandle _ _
  obtain rfl : t = 1 := List.mem_singleton.mp ht
  obtain rfl := List.mem_singleton.mp hhandle
  exact hbites

/-- Alice left the group, was put back and given a handle, and left again, within the few seconds:
the second deletion marks nothing, and the handle keeps the group. -/
theorem regranted_handle_spared :
    ¬ ∀ (principals : PrincipalTable) (tables tables' : RevocationTables) (db : SpiceDb)
        (d : MembershipDelete) (now deletedAt : Time) (lost : List String) (written : Nat)
        (handles : List ScopePayload), deletedAt ≤ now → lostPrincipals db d = .ok lost →
      applyDelete principals tables db d now = .ok (tables', written) →
      ∀ t ∈ lostTokens principals d.tenant lost, ∀ handle ∈ handles,
        HeldAt d deletedAt handle t → Bites tables' d.tenant t handle.issuedAt := by
  intro h
  have happly : applyDelete salesPrincipals (leftSalesAt (seconds 0)) (exactService [])
      aliceLeavesAgain (seconds 7) = .ok (leftSalesAt (seconds 0), 0) := by decide +kernel
  have hlost : lostPrincipals (exactService []) aliceLeavesAgain = .ok ["group:sales"] := by
    decide +kernel
  obtain ⟨x, ⟨r, hr, -, -, rfl⟩, hissued⟩ := h _ _ _ _ _ (seconds 7) (seconds 6) _ _
    [salesHandle (seconds 5)] (by decide) hlost happly 1 (by decide +kernel) _
    (List.mem_singleton_self _) ⟨rfl, List.mem_singleton_self _, by decide⟩
  obtain rfl := List.mem_singleton.mp hr
  exact absurd hissued (by decide)

end Verity.Analysis
