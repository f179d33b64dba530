import Verity.Model.Producers

/-!
# The merged view of an entity

`merged_record` gathers the current facts of all members of a canonical entity and picks one value
per field: that of the source the tenant ranks first, of equal ones the most recent. The other
values stay in the answer as alternatives. Nothing is written.

Members are matched by the ref they compose to, because an alias carries the ref cut at its first
colon and a source may contain one. A fact is gathered once for each member it matches.
The order in which the query returns the facts is left open by SQL; the table's order stands for
it here, and the answer does not depend on it. Texts are compared by code point.
-/

set_option autoImplicit false

namespace Verity.Model

open Verity.Foundation

/-! ## Precedence -/

/-- A row of `entity_precedence`; `*` stands for every entity or every field.
SOURCE: migrations/0020_entity_resolution.sql:32-43 -/
structure PrecedenceRow where
  tenantId : TenantId
  canonicalEntity : String
  field : String
  sourceOrder : List String
deriving DecidableEq, Repr

def PrecedenceRow.key (r : PrecedenceRow) : TenantId × String × String :=
  (r.tenantId, r.canonicalEntity, r.field)

/-- The table, with its primary key. -/
structure PrecedenceTable where
  rows : List PrecedenceRow
  keys_nodup : (rows.map PrecedenceRow.key).Nodup

/-- SOURCE: postgres.rs:5928-5937 -/
structure PrecedenceConfig where
  perField : List (String × List String)
  entityDefault : Option (List String)
  globalDefault : Option (List String)
deriving DecidableEq, Repr

namespace PrecedenceConfig

def default : PrecedenceConfig := ⟨[], none, none⟩

/-- A row of the entity replaces what is there for its field; one of `*` is kept only where there
is nothing. SOURCE: postgres.rs:5941-5957 -/
def insert (cfg : PrecedenceConfig) (rowCanonical field canonical : String)
    (order : List String) : PrecedenceConfig :=
  if rowCanonical = canonical then
    if field = "*" then { cfg with entityDefault := some order }
    else { cfg with
      perField := (field, order) :: cfg.perField.filter fun entry => entry.1 ≠ field }
  else if field = "*" then { cfg with globalDefault := some order }
  else if (cfg.perField.lookup field).isSome then cfg
  else { cfg with perField := (field, order) :: cfg.perField }

/-- SOURCE: postgres.rs:5960-5971 -/
def resolve (cfg : PrecedenceConfig) (field : String) : List String :=
  match cfg.perField.lookup field with
  | some order => order
  | none =>
    match cfg.entityDefault with
    | some order => order
    | none => cfg.globalDefault.getD []

end PrecedenceConfig

/-- SOURCE: postgres.rs:3444-3462 -/
def loadPrecedence (t : PrecedenceTable) (tenant : TenantId) (canonical : String) :
    PrecedenceConfig :=
  (t.rows.filter fun r => decide (r.tenantId = tenant) &&
      decide (r.canonicalEntity = canonical ∨ r.canonicalEntity = "*")).foldl
    (fun cfg r => cfg.insert r.canonicalEntity r.field canonical r.sourceOrder)
    PrecedenceConfig.default

/-- The place of a source in the order; one that is not listed comes after all that are.
SOURCE: postgres.rs:5976-5981 -/
def precedenceRank (order : List String) (source : String) : Nat := order.idxOf source

/-! ## The record -/

/-- SOURCE: types.rs:735-739 -/
structure AliasMember where
  source : String
  entityId : String
deriving DecidableEq, Repr

/-- SOURCE: types.rs:693-700 -/
structure MergedAlternative where
  source : String
  value : Json
  entityId : String
  validFrom : Time
  provenance : EpisodeId
deriving DecidableEq, Repr

/-- SOURCE: types.rs:705-716 -/
structure MergedField where
  value : Json
  winningSource : String
  winningEntityId : String
  validFrom : Time
  provenance : EpisodeId
  supersededAlternatives : List MergedAlternative
deriving DecidableEq, Repr

/-- The fields in the order of their names. SOURCE: types.rs:723-732 -/
structure MergedRecord where
  tenantId : TenantId
  canonicalEntity : String
  members : List AliasMember
  fields : List (String × MergedField)
deriving DecidableEq, Repr

/-- SOURCE: postgres.rs:1051-1074 -/
def listEntityAliases (aliases : List EntityAlias) (tenant : TenantId) (canonical : String) :
    List AliasMember :=
  ((aliases.filter fun a => a.tenantId = tenant ∧ a.canonicalEntity = canonical).map
    fun a => ⟨a.source, a.entityId⟩).insertionSort
      (Ascending fun m : AliasMember => toLex (m.source, m.entityId))

/-- The fact answers to the member: the refs of the two are one text. -/
def answersTo (r : FactRow) (m : AliasMember) : Bool :=
  decide (makeRef r.key.source r.key.entityId = makeRef m.source m.entityId)

/-- The join with the members: a row comes once for each member it answers to. Without members
the rows are those keyed on the canonical itself. -/
def joinMembers (members : List AliasMember) (canonical : String) (rows : List FactRow) :
    List FactRow :=
  if members.isEmpty then rows.filter fun r => r.key.entityId = canonical
  else rows.flatMap fun r => (members.filter (answersTo r)).map fun _ => r

/-- The current facts of the members. SOURCE: postgres.rs:3318-3369 -/
def gatherFacts (t : FactTable) (tenant : TenantId) (canonical : String)
    (members : List AliasMember) (visible : FactRow → Bool) : List FactRow :=
  joinMembers members canonical (t.rows.filter fun r =>
    decide (r.tenantId = tenant ∧ r.validTo = none) && visible r)

/-- What the facts of a field are ranked by: precedence, then the most recent start, then the
source, then the entity. SOURCE: postgres.rs:3395-3402 -/
def mergeKey (order : List String) (r : FactRow) : Nat ×ₗ Timeᵒᵈ ×ₗ String ×ₗ String :=
  toLex (precedenceRank order r.key.source, toLex (OrderDual.toDual r.validFrom,
    toLex (r.key.source, r.key.entityId)))

def MergedAlternative.ofRow (r : FactRow) : MergedAlternative :=
  ⟨r.key.source, r.value, r.key.entityId, r.validFrom, r.provenance⟩

def MergedField.ofRows (winner : FactRow) (rest : List FactRow) : MergedField where
  value := winner.value
  winningSource := winner.key.source
  winningEntityId := winner.key.entityId
  validFrom := winner.validFrom
  provenance := winner.provenance
  supersededAlternatives := rest.map MergedAlternative.ofRow

/-- The facts of one field, ranked. SOURCE: postgres.rs:3391-3425 -/
def mergeField (order : List String) (facts : List FactRow) : Option MergedField :=
  match facts.insertionSort (Ascending (mergeKey order)) with
  | [] => none
  | winner :: rest => some (.ofRows winner rest)

/-- SOURCE: postgres.rs:3383-3425 -/
def mergedFields (prec : PrecedenceConfig) (facts : List FactRow) : List (String × MergedField) :=
  (sortDedup (facts.map fun r => r.key.field)).filterMap fun field =>
    (mergeField (prec.resolve field) (facts.filter fun r => r.key.field = field)).map
      fun merged => (field, merged)

/-- The SQL predicate of a scoped read; the admin plane has none. -/
def gatherVisible : Option Scope → FactRow → Bool
  | some scope, r => sqlVisible scope r
  | none, _ => true

/-- The fence of an entity-bound scope, applied to the rows that were gathered.
SOURCE: postgres.rs:3371-3378 -/
def fenceEntities : Option Scope → List FactRow → List FactRow
  | some scope, rows =>
    if scope.entityScope.isEmpty then rows
    else rows.filter fun r => scope.entityScope.contains r.key.entityId
  | none, rows => rows

/-- SOURCE: postgres.rs:3294-3440 -/
def mergedRecordInner (t : FactTable) (aliases : List EntityAlias) (precedence : PrecedenceTable)
    (tenant : TenantId) (canonical : String) (scope : Option Scope) : MergedRecord :=
  if scope.any fun s => s.principals.isEmpty then ⟨tenant, canonical, [], []⟩
  else
    let members := listEntityAliases aliases tenant canonical
    let facts := fenceEntities scope
      (gatherFacts t tenant canonical members (gatherVisible scope))
    ⟨tenant, canonical, members, mergedFields (loadPrecedence precedence tenant canonical) facts⟩

/-- SOURCE: postgres.rs:3273-3276 -/
def mergedRecord (t : FactTable) (aliases : List EntityAlias) (precedence : PrecedenceTable)
    (scope : Scope) (canonical : String) : MergedRecord :=
  mergedRecordInner t aliases precedence scope.tenantId canonical (some scope)

/-- SOURCE: postgres.rs:3282-3288 -/
def mergedRecordAdmin (t : FactTable) (aliases : List EntityAlias)
    (precedence : PrecedenceTable) (tenant : TenantId) (canonical : String) : MergedRecord :=
  mergedRecordInner t aliases precedence tenant canonical none

end Verity.Model
