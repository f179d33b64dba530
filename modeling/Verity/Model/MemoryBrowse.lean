import Mathlib.Data.Prod.Lex
import Verity.Model.Database
import Verity.Model.Qdrant

/-!
# The memories browser

The console reads the chunks, facts and actions of a tenant as rows of one shape, newest first, a
page at a time. `ILIKE`, the text of a JSON value and the collation of the database are parameters.
-/

set_option autoImplicit false

namespace Verity.Model

open Verity.Foundation

/-- `ILIKE` of a pattern and a text, `value::text`, and the order of texts. -/
structure BrowseLibraries where
  ilike : String → String → Bool
  jsonText : Json → String
  collate : String → String → Bool

/-- SOURCE: postgres.rs:300-323 -/
structure MemoryBrowseFilter where
  source : Option String
  entity : Option String
  kind : Option String
  q : Option String
  includeSuperseded : Bool
  limit : Int
  before : Option Time
  beforeId : Option Nat
  id : Option Nat
deriving DecidableEq, Repr

/-- SOURCE: postgres.rs:226-270 -/
structure MemoryBrowseRow where
  kind : String
  id : Nat
  source : String
  preview : String
  previewTruncated : Bool
  entities : List String
  visibleTo : Option Nat
  confidentiality : Option Int
  aclProvenance : Option String
  trustTier : Option Int
  validFrom : Time
  validTo : Option Time
  supersededBy : Option Nat
  provenance : EpisodeId
  entityId : Option String
  field : Option String
  documentId : Option String
  seq : Option Int
  actionType : Option String
  outcome : Option String
  recordedAt : Time
deriving DecidableEq, Repr

def ActionOutcome.asStr : ActionOutcome → String
  | succeeded => "succeeded"
  | failed => "failed"
  | pending => "pending"

/-- The filters every kind of memory has.
SOURCE: postgres.rs:2044-2050, 2069-2075, 2094-2099 -/
def MemoryBrowseFilter.matches (f : MemoryBrowseFilter) (lib : BrowseLibraries)
    (kind source text : String) (tagged : String → Bool) (id : Nat) : Bool :=
  f.kind.all (fun k => decide (k = kind)) && f.source.all (fun s => decide (source = s)) &&
    f.entity.all tagged && f.q.all (fun q => lib.ilike ("%" ++ q ++ "%") text) &&
    f.id.all fun i => decide (id = i)

/-- What the rows are ordered by.
SOURCE: postgres.rs:2109 -/
def MemoryBrowseRow.position (r : MemoryBrowseRow) : Lex (Time × Nat) := toLex (r.recordedAt, r.id)

/-- The rows that come after the cursor of the filter.
SOURCE: postgres.rs:2106-2108 -/
def MemoryBrowseFilter.after (f : MemoryBrowseFilter) (r : MemoryBrowseRow) : Bool :=
  match f.before, f.beforeId with
  | none, _ => true
  | some before, some beforeId =>
    decide (r.recordedAt < before ∨ r.recordedAt = before ∧ r.id < beforeId)
  | some before, none => decide (r.recordedAt < before)

end Verity.Model
