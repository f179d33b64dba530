import Mathlib.Data.List.Dedup
import Verity.Foundation.GroupMin
import Verity.Model.Scope

/-!
# The revocation plane

The two tables a revocation lives in, and the subtraction every scoped read and every mint
goes through. `revocations` is a log of tombstones: a token was revoked at an instant.
`revoked_principal` holds the principals that are revoked until reinstated.

The five-second memoization of both reads and the metrics counter are left out: each call
reads the tables as they are at `now`.
-/

set_option autoImplicit false

namespace Verity.Model

open Verity.Foundation

/-- SOURCE: revocation.rs:77-83 -/
def retentionSecs : Int := maxTtlSeconds + 3600

/-- One tombstone.
SOURCE: migrations/0009_revocations.sql:12-18 -/
structure RevocationRow where
  tenantId : TenantId
  principal : String
  token : PrincipalToken
  instant : Time
deriving DecidableEq, Repr

/-- SOURCE: migrations/0038_revoked_principal.sql:13-20 -/
structure RevokedPrincipalRow where
  tenantId : TenantId
  token : PrincipalToken
  principal : String
  revokedAt : Time
  reinstatedAt : Option Time
deriving DecidableEq, Repr

structure RevocationTables where
  revocations : List RevocationRow
  revokedPrincipals : List RevokedPrincipalRow
deriving DecidableEq, Repr

namespace RevocationTables

def empty : RevocationTables := ⟨[], []⟩

/-- Token to earliest tombstone, among those within the retention window.
SOURCE: revocation.rs:161-186 -/
def retainedTombstones (tables : RevocationTables) (tenant : TenantId) (now : Time) :
    List (PrincipalToken × Time) :=
  groupMin ((tables.revocations.filter fun r =>
    r.tenantId = tenant ∧ now - seconds retentionSecs < r.instant).map fun r =>
      (r.token, r.instant))

/-- The tokens of the principals that are revoked and not reinstated.
SOURCE: revocation.rs:194-215 -/
def revokedSet (tables : RevocationTables) (tenant : TenantId) : List PrincipalToken :=
  (tables.revokedPrincipals.filter fun r => r.tenantId = tenant ∧ r.reinstatedAt = none).map
    RevokedPrincipalRow.token

/-- An upsert on the primary key (tenant, token).
SOURCE: revocation.rs:220-243 -/
def revokePrincipal (tables : RevocationTables) (tenant : TenantId) (principal : String)
    (token : PrincipalToken) (now : Time) : RevocationTables :=
  if tables.revokedPrincipals.any fun r => r.tenantId = tenant ∧ r.token = token then
    { tables with
      revokedPrincipals := tables.revokedPrincipals.map fun r =>
        if r.tenantId = tenant ∧ r.token = token then
          { r with reinstatedAt := none, revokedAt := now, principal := principal }
        else r }
  else
    { tables with
      revokedPrincipals := tables.revokedPrincipals ++
        [{ tenantId := tenant, token, principal, revokedAt := now, reinstatedAt := none }] }

/-- SOURCE: revocation.rs:249-268 -/
def reinstatePrincipal (tables : RevocationTables) (tenant : TenantId) (token : PrincipalToken)
    (now : Time) : RevocationTables :=
  { tables with
    revokedPrincipals := tables.revokedPrincipals.map fun r =>
      if r.tenantId = tenant ∧ r.token = token ∧ r.reinstatedAt = none then
        { r with reinstatedAt := some now }
      else r }

/-- One tombstone per affected principal and lost token, all at the transaction's instant.
SOURCE: revocation.rs:334-363 -/
def record (tables : RevocationTables) (tenant : TenantId) (affectedPrincipals : List String)
    (lostTokens : List (String × PrincipalToken)) (now : Time) : RevocationTables :=
  { tables with
    revocations := tables.revocations ++ affectedPrincipals.flatMap fun principal =>
      lostTokens.map fun lost =>
        { tenantId := tenant, principal, token := lost.2, instant := now } }

/-- Whether a token survives the subtraction of a handle issued at `issuedAt`. -/
def survives (tombstones : List (PrincipalToken × Time)) (revoked : List PrincipalToken)
    (issuedAt : Time) (t : PrincipalToken) : Bool :=
  !revoked.contains t &&
    match tombstones.lookup t with
    | none => true
    | some firstAt => decide (firstAt < issuedAt)

/-- The read-path subtraction.
SOURCE: revocation.rs:276-314 -/
def subtract (tables : RevocationTables) (tenant : TenantId) (principals : List PrincipalToken)
    (issuedAt now : Time) : List PrincipalToken :=
  let tombstones := tables.retainedTombstones tenant now
  let revoked := tables.revokedSet tenant
  if tombstones.isEmpty && revoked.isEmpty then principals
  else principals.filter (survives tombstones revoked issuedAt)

/-- The subtraction at mint time, with the plane's window in seconds.
SOURCE: revocation.rs:321-329, 120-133 -/
def subtractWindow (tables : RevocationTables) (windowSecs : Int) (tenant : TenantId)
    (principals : List PrincipalToken) (now : Time) : List PrincipalToken :=
  tables.subtract tenant principals (now - seconds (max windowSecs 0)) now

/-- The admin plane's own reading of the tombstones of a window.
SOURCE: postgres.rs:2460-2477 -/
def windowedRevokedTokens (tables : RevocationTables) (tenant : TenantId) (windowSecs : Int)
    (now : Time) : List PrincipalToken :=
  ((tables.revocations.filter fun r =>
    r.tenantId = tenant ∧ now - seconds (max windowSecs 0) < r.instant).map
      RevocationRow.token).dedup

end RevocationTables

section Plane

variable {Tag : Type} [DecidableEq Tag] (sign : ScopePayload → Tag)

/-- The revocation plane in time: the clock, the tables, and the handles minted so far. -/
structure Plane (Tag : Type) where
  now : Time
  tables : RevocationTables
  minted : List (Handle Tag)

/-- One timed event. A read changes nothing here, so it is not an event. -/
inductive PlaneEvent where
  | tick (now : Time)
  | record (tenant : TenantId) (affectedPrincipals : List String)
      (lostTokens : List (String × PrincipalToken))
  | revoke (tenant : TenantId) (principal : String) (token : PrincipalToken)
  | reinstate (tenant : TenantId) (token : PrincipalToken)
  | mint (payload : ScopePayload) (ttlSeconds : Int)

/-- The plane after an event. The clock does not run backwards. -/
def Plane.step (s : Plane Tag) : PlaneEvent → Option (Plane Tag)
  | .tick now => if s.now ≤ now then some { s with now } else none
  | .record tenant affectedPrincipals lostTokens =>
    some { s with tables := s.tables.record tenant affectedPrincipals lostTokens s.now }
  | .revoke tenant principal token =>
    some { s with tables := s.tables.revokePrincipal tenant principal token s.now }
  | .reinstate tenant token =>
    some { s with tables := s.tables.reinstatePrincipal tenant token s.now }
  | .mint payload ttlSeconds =>
    some { s with minted := s.minted ++ [mint sign payload ttlSeconds s.now] }

/-- The plane before any event. -/
def Plane.init (now : Time) : Plane Tag where
  now := now
  tables := RevocationTables.empty
  minted := []

end Plane

end Verity.Model
