import Mathlib.Data.Int.Order.Basic
import Mathlib.Order.Lattice
import Mathlib.Order.Monotone.Defs
import Verity.Model.Json

/-!
# The core types

The types of `verity-core/src/types.rs` that the fact store, the scope handles and the
revocation plane exchange, and `factVisible`, the one point-read predicate for facts.
An event carries its time in nanoseconds (`Instant`), and a `timestamptz` column keeps whole
microseconds (`Time`); `Instant.stored` is the step from one to the other. Identifiers (`Uuid`)
are opaque and only ever compared.
-/

set_option autoImplicit false

namespace Verity.Model

/-- An instant as a `timestamptz` column keeps it, in microseconds since the epoch. -/
abbrev Time := Int

/-- Instants are ordered as integers, by the instance that computes. -/
instance : LinearOrder Time := Int.instLinearOrder

/-- `n` seconds, as `chrono::Duration::seconds` and `make_interval(secs => n)`. -/
def seconds (n : Int) : Time := n * 1000000

/-- What a `timestamptz` counts from: 2000-01-01. -/
def timestamptzZero : Time := 946684800000000

/-- The time an event carries (`DateTime<Utc>`), in nanoseconds since the epoch. -/
structure Instant where
  nanos : Int
deriving DecidableEq, Repr

namespace Instant

instance : LinearOrder Instant :=
  LinearOrder.lift' nanos fun a b h => by
    cases a
    cases b
    exact congrArg mk h

/-- A column read back. -/
@[coe]
def ofTime (t : Time) : Instant := ⟨t * 1000⟩

instance : Coe Time Instant := ⟨ofTime⟩

/-- A numeral counts microseconds, as it does for a `Time`. -/
instance (n : Nat) : OfNat Instant n := ⟨ofTime n⟩

/-- The instant as it is written to a column: the microseconds since `timestamptzZero`, with the
rest of a microsecond cut off. -/
def stored (x : Instant) : Time :=
  timestamptzZero + (x.nanos - timestamptzZero * 1000).tdiv 1000

theorem stored_mono ⦃x y : Instant⦄ (h : x ≤ y) : x.stored ≤ y.stored :=
  Int.add_le_add_left (Int.tdiv_le_tdiv (by decide) (Int.sub_le_sub_right h _)) _

@[simp]
theorem stored_ofTime (t : Time) : (t : Instant).stored = t := by
  unfold stored ofTime
  rw [← Int.sub_mul, Int.mul_tdiv_cancel _ (by decide), Int.add_comm]
  exact Int.sub_add_cancel t timestamptzZero

@[simp]
theorem stored_ofNat (n : Nat) : (OfNat.ofNat n : Instant).stored = (n : Time) :=
  stored_ofTime n

/-- An instant that is stored before a stored one is before it. -/
theorem lt_of_stored_lt {x : Instant} {t : Time} (h : x.stored < t) : x < (t : Instant) :=
  Monotone.reflect_lt stored_mono (by rwa [stored_ofTime])

theorem stored_le {x : Instant} {t : Time} (h : x ≤ (t : Instant)) : x.stored ≤ t := by
  simpa using stored_mono h

theorem le_stored {x : Instant} {t : Time} (h : (t : Instant) ≤ x) : t ≤ x.stored := by
  simpa using stored_mono h

@[simp]
theorem ofTime_le_ofTime {s t : Time} : (s : Instant) ≤ (t : Instant) ↔ s ≤ t :=
  ⟨fun h => by simpa using stored_mono h, fun h => Int.mul_le_mul_of_nonneg_right h (by decide)⟩

@[simp]
theorem ofTime_lt_ofTime {s t : Time} : (s : Instant) < (t : Instant) ↔ s < t :=
  lt_iff_lt_of_le_iff_le ofTime_le_ofTime

end Instant

abbrev TenantId := Nat
abbrev FactId := Nat
abbrev EpisodeId := Nat

/-- A materialized principal token (`i32`): the unit of visibility. -/
abbrev PrincipalToken := Int

/-- The confidentiality class, ordered from public to restricted.
SOURCE: types.rs:128-145 -/
inductive Confidentiality where
  | publicClass
  | internal
  | confidential
  | restricted
deriving DecidableEq, Repr

namespace Confidentiality

/-- The stored `smallint` of a class. -/
def toI16 : Confidentiality → Int
  | publicClass => 0
  | internal => 1
  | confidential => 2
  | restricted => 3

/-- The column read back: an unknown value falls to the strictest class.
SOURCE: types.rs:151-158 -/
def fromI16 (v : Int) : Confidentiality :=
  if v = 0 then publicClass
  else if v = 1 then internal
  else if v = 2 then confidential
  else restricted

@[simp]
theorem fromI16_toI16 (c : Confidentiality) : fromI16 c.toI16 = c := by
  cases c <;> rfl

/-- The derived `Ord` of the source: classes compare as their discriminants do. -/
instance : LinearOrder Confidentiality :=
  LinearOrder.lift' toI16 fun a b h => by
    rw [← fromI16_toI16 a, ← fromI16_toI16 b, h]

end Confidentiality

/-- How a memory's visibility was determined.
SOURCE: types.rs:169-190 -/
inductive AclProvenance where
  | mirrored
  | approximated
  | adminAssigned
  | quarantined
  | derived
  | writerScoped
  | declared
deriving DecidableEq, Repr

/-- The L1 key: one current value per (source, entity, field) per tenant. -/
structure FactKey where
  source : String
  entityId : String
  field : String
deriving DecidableEq, Repr

/-- A deterministic L1 write; `validFrom` is event time.
SOURCE: types.rs:262-280 -/
structure FactWrite where
  tenantId : TenantId
  key : FactKey
  value : Json
  validFrom : Instant
  visibility : List PrincipalToken
  confidentiality : Confidentiality
  provenance : EpisodeId
  aclProvenance : AclProvenance
deriving DecidableEq, Repr

/-- The start an event is stored with. -/
def FactWrite.start (fact : FactWrite) : Time := fact.validFrom.stored

/-- One row of the `facts` table.
SOURCE: types.rs:282-302, migrations/0001_init.sql:29-46 -/
structure FactRow where
  id : FactId
  tenantId : TenantId
  key : FactKey
  value : Json
  validFrom : Time
  validTo : Option Time
  supersededBy : Option FactId
  recordedAt : Time
  visibility : List PrincipalToken
  confidentiality : Confidentiality
  provenance : EpisodeId
  aclProvenance : AclProvenance
deriving DecidableEq, Repr

/-- Why a storage call failed.
SOURCE: types.rs:940-947 -/
inductive StorageError where
  | database (msg : String)
  | unknownTenant (tenant : TenantId)
  | invalidInput (msg : String)
deriving DecidableEq, Repr

/-- What one `upsertFact` did.
SOURCE: types.rs:304-315 -/
inductive FactUpsertOutcome where
  | inserted
  | superseded
  | unchanged
  | staleEvent
deriving DecidableEq, Repr

/-- The caller's compiled scope. An empty principal set reads nothing.
SOURCE: types.rs:352-365 -/
structure Scope where
  tenantId : TenantId
  principals : List PrincipalToken
  entityScope : List String
  maxConfidentiality : Confidentiality
deriving DecidableEq, Repr

/-- `factVisible` with the row's three gated columns named: the predicate reads nothing
else of the row. -/
def Scope.sees (scope : Scope) (entityId : String) (visibility : List PrincipalToken)
    (confidentiality : Confidentiality) : Bool :=
  let overlap := scope.principals.any fun p => visibility.contains p
  let confOk := decide (confidentiality ≤ scope.maxConfidentiality)
  let entityOk := scope.entityScope.isEmpty || scope.entityScope.contains entityId
  overlap && confOk && entityOk

/-- The one point-read enforcement predicate for L1 facts.
SOURCE: types.rs:376-382 -/
def factVisible (scope : Scope) (row : FactRow) : Bool :=
  scope.sees row.key.entityId row.visibility row.confidentiality

/-- A scope that shares no token with a visibility set sees nothing behind it. -/
theorem Scope.sees_eq_false_of_disjoint {scope : Scope} {visibility : List PrincipalToken}
    (h : ∀ p ∈ scope.principals, p ∉ visibility) (entityId : String) (c : Confidentiality) :
    scope.sees entityId visibility c = false := by
  have hover : (scope.principals.any fun p => visibility.contains p) = false := by
    rw [List.any_eq_false]
    intro p hp
    simpa using h p hp
  simp only [Scope.sees, hover, Bool.false_and]

/-- Fail closed: a scope without principals sees no row. -/
theorem factVisible_of_no_principals {scope : Scope} (h : scope.principals = []) (row : FactRow) :
    factVisible scope row = false := by
  apply Scope.sees_eq_false_of_disjoint
  simp [h]

end Verity.Model
