import Verity.Foundation.Table
import Verity.Foundation.Timeline
import Verity.Model.Types

/-!
# The `facts` table

The bi-temporal L1 table of `PostgresAdapter` and the four operations on it that read or
write facts: `upsertFact`, `currentFact`, `factAsOf` and `correctFactAcl`.

The two constraints the schema declares are fields of `FactTable`, so that no operation
can leave them broken: the primary key on `id`, and `facts_current_key_idx`, the partial
unique index that allows one row with `valid_to IS NULL` per (tenant, source, entity,
field). As in Postgres, an insert that would break the index is an error of the insert;
`upsertFact_spec` (in the analysis) shows that `upsertFact` never meets it.
Each operation is one transaction at one instant `now`.
-/

set_option autoImplicit false

namespace Verity.Model

open Verity.Foundation

/-- Two current rows of one key: what `facts_current_key_idx` forbids.
SOURCE: migrations/0001_init.sql:42-44 -/
def FactRow.clashes (r r' : FactRow) : Prop :=
  r.validTo = none ∧ r'.validTo = none ∧ r.tenantId = r'.tenantId ∧ r.key = r'.key

/-- The `facts` table, with the supply of fresh ids (`Uuid::now_v7`).
SOURCE: migrations/0001_init.sql:29-46, migrations/0026_fact_visibility.sql:8-24 -/
structure FactTable where
  rows : List FactRow
  nextId : FactId
  ids_lt : ∀ r ∈ rows, r.id < nextId
  ids_nodup : (rows.map FactRow.id).Nodup
  one_current : rows.Pairwise fun r r' => ¬ r.clashes r'

namespace FactTable

/-- The table before any write. -/
def empty : FactTable where
  rows := []
  nextId := 0
  ids_lt := by simp
  ids_nodup := by simp
  one_current := by simp

/-- The rows of one key, current and superseded. -/
def rowsOf (t : FactTable) (tenant : TenantId) (key : FactKey) : List FactRow :=
  t.rows.filter fun r => r.tenantId = tenant ∧ r.key = key

/-- The row of a key with `valid_to IS NULL`. -/
def currentRow (t : FactTable) (tenant : TenantId) (key : FactKey) : Option FactRow :=
  t.rows.find? fun r => r.tenantId = tenant ∧ r.key = key ∧ r.validTo = none

/-- An `UPDATE` that changes neither a key column nor makes a closed row current again. -/
def updateRows (t : FactTable) (f : FactRow → FactRow)
    (hkey : ∀ r, (f r).id = r.id ∧ (f r).tenantId = r.tenantId ∧ (f r).key = r.key)
    (hcurrent : ∀ r, (f r).validTo = none → r.validTo = none) : FactTable where
  rows := t.rows.map f
  nextId := t.nextId
  ids_lt := by
    intro r hr
    obtain ⟨r₀, hr₀, rfl⟩ := List.mem_map.mp hr
    rw [(hkey r₀).1]
    exact t.ids_lt r₀ hr₀
  ids_nodup := by
    have hids : (t.rows.map f).map FactRow.id = t.rows.map FactRow.id := by
      simp [List.map_map, Function.comp_def, fun r => (hkey r).1]
    rw [hids]
    exact t.ids_nodup
  one_current := by
    rw [List.pairwise_map]
    refine t.one_current.imp ?_
    rintro r r' hne ⟨h, h', htenant, hk⟩
    refine hne ⟨hcurrent r h, hcurrent r' h', ?_, ?_⟩
    · rw [← (hkey r).2.1, ← (hkey r').2.1, htenant]
    · rw [← (hkey r).2.2, ← (hkey r').2.2, hk]

/-- `UPDATE facts SET valid_to = $1 WHERE id = $2`. -/
def setValidTo (t : FactTable) (id : FactId) (validTo : Time) : FactTable :=
  t.updateRows (fun r => if r.id = id then { r with validTo := some validTo } else r)
    (by intro r; split <;> simp) (by intro r; split <;> simp)

/-- `UPDATE facts SET superseded_by = $1 WHERE id = $2`. -/
def setSupersededBy (t : FactTable) (id newId : FactId) : FactTable :=
  t.updateRows (fun r => if r.id = id then { r with supersededBy := some newId } else r)
    (by intro r; split <;> simp) (by intro r; split <;> simp)

/-- `UPDATE facts SET visibility, confidentiality` over every row of a key.
SOURCE: postgres.rs:5407-5419 -/
def setAcl (t : FactTable) (tenant : TenantId) (key : FactKey)
    (visibility : List PrincipalToken) (confidentiality : Confidentiality) : FactTable :=
  t.updateRows
    (fun r =>
      if r.tenantId = tenant ∧ r.key = key then
        { r with visibility := visibility, confidentiality := confidentiality }
      else r)
    (by intro r; split <;> simp) (by intro r; split <;> simp)

end FactTable

/-- The row an event becomes. -/
def FactWrite.toRow (fact : FactWrite) (id : FactId) (now : Time) (validTo : Option Time) :
    FactRow where
  id := id
  tenantId := fact.tenantId
  key := fact.key
  value := fact.value
  validFrom := fact.start
  validTo := validTo
  supersededBy := none
  recordedAt := now
  visibility := fact.visibility
  confidentiality := fact.confidentiality
  provenance := fact.provenance
  aclProvenance := fact.aclProvenance

/-- The insert, refused when it would be a second current row of its key. The id is the
table's next fresh one.
SOURCE: postgres.rs:5808-5836 -/
def insertFactRow (t : FactTable) (now : Time) (fact : FactWrite) (validTo : Option Time) :
    Except StorageError FactTable :=
  if h : validTo = none → t.currentRow fact.tenantId fact.key = none then
    .ok
      { rows := t.rows ++ [fact.toRow t.nextId now validTo]
        nextId := t.nextId + 1
        ids_lt := ids_lt_concat t.ids_lt rfl
        ids_nodup := nodup_ids_concat t.ids_nodup t.ids_lt rfl
        one_current := by
          rw [List.pairwise_append]
          refine ⟨t.one_current, by simp, ?_⟩
          rintro r hr r' hr' ⟨hcur, hcur', htenant, hkey⟩
          rw [List.mem_singleton.mp hr'] at hcur' htenant hkey
          have hnone := List.find?_eq_none.mp (h hcur') r hr
          simp only [FactWrite.toRow] at htenant hkey
          simp [htenant, hkey, hcur] at hnone }
  else .error (.database "duplicate key value violates unique constraint facts_current_key_idx")

/-- One L1 write: the value and the start of the current row alone choose between the four
outcomes. The start is read back from its column, the event's own time is compared as it came:
within the microsecond the current row starts at, only an event that is not after its beginning
counts as late. A superseded row is closed before the insert (the index is checked at
once) and linked to its successor after it.
SOURCE: postgres.rs:3878-3949 -/
def upsertFact (t : FactTable) (now : Time) (fact : FactWrite) :
    Except StorageError (FactTable × FactUpsertOutcome) :=
  match t.currentRow fact.tenantId fact.key with
  | none => do
      let t ← insertFactRow t now fact none
      pure (t, .inserted)
  | some cur =>
    if cur.value = fact.value then
      pure (t, .unchanged)
    else if fact.validFrom ≤ (cur.validFrom : Instant) then do
      let t ← insertFactRow t now fact (some cur.validFrom)
      pure (t, .staleEvent)
    else do
      let newId := t.nextId
      let t ← insertFactRow (t.setValidTo cur.id fact.start) now fact none
      pure (t.setSupersededBy cur.id newId, .superseded)

/-- The SQL pre-filter of a scoped fact read, `visibility && $p AND confidentiality <= $c`. -/
def sqlVisible (scope : Scope) (r : FactRow) : Bool :=
  (r.visibility.any fun p => scope.principals.contains p) &&
    decide (r.confidentiality ≤ scope.maxConfidentiality)

/-- The current value of a key, as far as the scope may see it.
SOURCE: postgres.rs:3951-3980 -/
def currentFact (t : FactTable) (scope : Scope) (key : FactKey) : Option FactRow :=
  if scope.principals.isEmpty then none
  else if !scope.entityScope.isEmpty && !scope.entityScope.contains key.entityId then none
  else
    t.rows.find? fun r =>
      decide (r.tenantId = scope.tenantId ∧ r.key = key ∧ r.validTo = none) && sqlVisible scope r

/-- The value of a key at an instant: of the rows whose validity interval holds the instant, as
the query is sent it, the one that began last (`ORDER BY valid_from DESC LIMIT 1`).
SOURCE: postgres.rs:3982-4018 -/
def factAsOf (t : FactTable) (scope : Scope) (key : FactKey) (asOf : Instant) : Option FactRow :=
  if scope.principals.isEmpty then none
  else if !scope.entityScope.isEmpty && !scope.entityScope.contains key.entityId then none
  else
    latest FactRow.validFrom (t.rows.filter fun r =>
      decide (r.tenantId = scope.tenantId ∧ r.key = key ∧ r.validFrom ≤ asOf.stored) &&
        (match r.validTo with
          | none => true
          | some validTo => decide (asOf.stored < validTo)) &&
        sqlVisible scope r)

/-- The class of a key's live row.
SOURCE: postgres.rs:5303-5322 -/
def currentFactConfidentiality (t : FactTable) (tenant : TenantId) (key : FactKey) :
    Option Confidentiality :=
  (t.currentRow tenant key).map FactRow.confidentiality

/-- One event as it reaches the store: the instant of its transaction and the write. -/
structure Delivery where
  now : Time
  fact : FactWrite
deriving DecidableEq, Repr

/-- A sequence of deliveries, processed in order. -/
def deliver (t : FactTable) : List Delivery → Except StorageError FactTable
  | [] => .ok t
  | d :: ds => do
      let (t, _) ← upsertFact t d.now d.fact
      deliver t ds

end Verity.Model
