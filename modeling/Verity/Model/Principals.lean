import Mathlib.Data.List.Pairwise
import Verity.Model.Types

/-!
# Principal tokens

The `principals` table: a principal's token is allocated on first use and never changes. The
two constraints of the schema, one row per principal and one per token, are fields of
`PrincipalTable`; the allocator takes one more than the greatest token of the tenant, so it
keeps both.
-/

set_option autoImplicit false

namespace Verity.Model

/-- SOURCE: migrations/0007_webhooks_media.sql:36-42 -/
structure PrincipalRow where
  tenantId : TenantId
  principal : String
  token : PrincipalToken
deriving DecidableEq, Repr

structure PrincipalTable where
  rows : List PrincipalRow
  principal_unique : rows.Pairwise fun r r' =>
    ¬ (r.tenantId = r'.tenantId ∧ r.principal = r'.principal)
  token_unique : rows.Pairwise fun r r' => ¬ (r.tenantId = r'.tenantId ∧ r.token = r'.token)
deriving DecidableEq

namespace PrincipalTable

def empty : PrincipalTable := ⟨[], by simp, by simp⟩

/-- The tokens allocated to a tenant. -/
def tokens (t : PrincipalTable) (tenant : TenantId) : List PrincipalToken :=
  (t.rows.filter fun r => r.tenantId = tenant).map PrincipalRow.token

/-- `COALESCE(MAX(token), 0) + 1`. -/
def nextToken (t : PrincipalTable) (tenant : TenantId) : PrincipalToken :=
  ((t.tokens tenant).max?.getD 0) + 1

/-- `SELECT token FROM principals WHERE tenant_id AND principal`. -/
def tokenOf (t : PrincipalTable) (tenant : TenantId) (principal : String) : Option PrincipalToken :=
  (t.rows.find? fun r => r.tenantId = tenant ∧ r.principal = principal).map PrincipalRow.token

theorem tokens_lt_nextToken (t : PrincipalTable) {tenant : TenantId} {token : PrincipalToken}
    (h : token ∈ t.tokens tenant) : token < t.nextToken tenant := by
  unfold nextToken
  cases hmax : (t.tokens tenant).max? with
  | none =>
    rw [List.max?_eq_none_iff] at hmax
    rw [hmax] at h
    exact absurd h (by simp)
  | some m =>
    have hle := (List.max?_eq_some_iff.mp hmax).2 token h
    exact Int.lt_add_one_of_le hle

/-- A new row under the next token of the tenant. -/
def allocate (t : PrincipalTable) (tenant : TenantId) (principal : String)
    (h : t.tokenOf tenant principal = none) : PrincipalTable where
  rows := t.rows ++ [{ tenantId := tenant, principal, token := t.nextToken tenant }]
  principal_unique := by
    rw [List.pairwise_append]
    refine ⟨t.principal_unique, by simp, ?_⟩
    rintro r hr r' hr' ⟨htenant, hprincipal⟩
    rw [List.mem_singleton.mp hr'] at htenant hprincipal
    rw [tokenOf, Option.map_eq_none_iff, List.find?_eq_none] at h
    exact h r hr (by simp [htenant, hprincipal])
  token_unique := by
    rw [List.pairwise_append]
    refine ⟨t.token_unique, by simp, ?_⟩
    rintro r hr r' hr' ⟨htenant, htoken⟩
    rw [List.mem_singleton.mp hr'] at htenant htoken
    have hmem : r.token ∈ t.tokens tenant := by
      unfold tokens
      exact List.mem_map.mpr ⟨r, List.mem_filter.mpr ⟨hr, by simpa using htenant⟩, rfl⟩
    exact absurd htoken (t.tokens_lt_nextToken hmem).ne

/-- One principal of the upsert.
SOURCE: main.rs:5113-5145 -/
def upsertToken (t : PrincipalTable) (tenant : TenantId) (principal : String) :
    PrincipalTable × PrincipalToken :=
  match h : t.tokenOf tenant principal with
  | some token => (t, token)
  | none => (t.allocate tenant principal h, t.nextToken tenant)

/-- The tokens of the given principals, allocated where missing, in one transaction.
SOURCE: main.rs:5099-5148 -/
def upsertPrincipalTokens (t : PrincipalTable) (tenant : TenantId) :
    List String → PrincipalTable × List (String × PrincipalToken)
  | [] => (t, [])
  | principal :: principals =>
    let (t, token) := t.upsertToken tenant principal
    let (t, mappings) := upsertPrincipalTokens t tenant principals
    (t, (principal, token) :: mappings)

/-- The tokens of those of the given principals that ever had one allocated.
SOURCE: main.rs:5945-5955 -/
def materialized (t : PrincipalTable) (tenant : TenantId) (principals : List String) :
    List (String × PrincipalToken) :=
  (t.rows.filter fun r => r.tenantId = tenant ∧ r.principal ∈ principals).map fun r =>
    (r.principal, r.token)

end PrincipalTable

end Verity.Model
