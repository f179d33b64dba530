import Verity.Model.ReadPath
import Verity.Model.Recall

/-!
# The debug trace of a recall

The admin endpoint that explains a recall: it takes the candidates of a query under the tenant
filter alone, checks each condition of the recall on its own and names every one that fails.
The last check repeats what the read path does with restricted rows when there is no permission
service.

The ranking of the candidates, the audit entry and the parts of the reply that only echo the
request or the row are left out.
-/

set_option autoImplicit false

namespace Verity.Model

/-- Why a candidate is not recalled. -/
inductive DropReason where
  | staleSuperseded
  | visibilityEmpty
  | visibilityNoOverlap
  | confidentialityAboveCeiling
  | entityScopeUntagged
  | entityScopeOutside
  | restrictedDroppedNoRebac
deriving DecidableEq, Repr

def DropReason.text : DropReason → String
  | staleSuperseded => "stale_superseded"
  | visibilityEmpty => "visibility_empty"
  | visibilityNoOverlap => "visibility_no_overlap"
  | confidentialityAboveCeiling => "confidentiality_above_ceiling"
  | entityScopeUntagged => "entity_scope_untagged"
  | entityScopeOutside => "entity_scope_outside"
  | restrictedDroppedNoRebac => "restricted_dropped_no_rebac"

inductive TraceNote where
  | restrictedServedWithoutRebac
  | restrictedSubjectToLiveRecheck
deriving DecidableEq, Repr

def TraceNote.text : TraceNote → String
  | restrictedServedWithoutRebac => "restricted_served_without_rebac_by_explicit_override"
  | restrictedSubjectToLiveRecheck => "restricted_subject_to_live_recheck_not_reproduced_here"

/-- SOURCE: main.rs:7296-7298 -/
def staleReasons (c : Chunk) : List DropReason :=
  if c.validTo.isSome then [.staleSuperseded] else []

/-- SOURCE: main.rs:7301-7305 -/
def visibilityReasons (scope : Scope) (c : Chunk) : List DropReason :=
  if c.visibility.isEmpty then [.visibilityEmpty]
  else if !c.visibility.any fun t => scope.principals.contains t then [.visibilityNoOverlap]
  else []

/-- SOURCE: main.rs:7307-7309 -/
def ceilingReasons (scope : Scope) (c : Chunk) : List DropReason :=
  if c.confidentiality.toI16 > scope.maxConfidentiality.toI16 then [.confidentialityAboveCeiling]
  else []

/-- SOURCE: main.rs:7312-7318 -/
def entityReasons (scope : Scope) (c : Chunk) : List DropReason :=
  if !scope.entityScope.isEmpty && decide (c.kind ≠ "knowledge") then
    if c.entityTags.isEmpty then [.entityScopeUntagged]
    else if !c.entityTags.all fun t => scope.entityScope.contains t then [.entityScopeOutside]
    else []
  else []

/-- The conditions that are checked on the row alone. -/
def scopeReasons (scope : Scope) (c : Chunk) : List DropReason :=
  staleReasons c ++ visibilityReasons scope c ++ ceilingReasons scope c ++ entityReasons scope c

/-- What the read path does with a restricted row that passed so far.
SOURCE: main.rs:7321-7329 -/
def restrictedCheck (st : AppState) (scope : Scope) (c : Chunk) :
    List DropReason × List TraceNote :=
  if c.confidentiality.toI16 ≥ Confidentiality.restricted.toI16 ∧ scopeReasons scope c = [] then
    match st.rebac with
    | none =>
      if !st.allowRestrictedWithoutRebac then ([.restrictedDroppedNoRebac], [])
      else ([], [.restrictedServedWithoutRebac])
    | some _ => ([], [.restrictedSubjectToLiveRecheck])
  else ([], [])

/-- One entry of the trace. -/
structure TracedCandidate where
  candidate : Chunk
  admitted : Bool
  dropReasons : List DropReason
  notes : List TraceNote
  contentPreview : String
deriving DecidableEq, Repr

/-- SOURCE: main.rs:7290-7354 -/
def traceCandidate (st : AppState) (scope : Scope) (c : Chunk) : TracedCandidate :=
  let (restricted, notes) := restrictedCheck st scope c
  let dropReasons := scopeReasons scope c ++ restricted
  { candidate := c
    admitted := dropReasons.isEmpty
    dropReasons := dropReasons
    notes := notes
    contentPreview := String.ofList (c.content.toList.take 240) }

/-- The tenant is all that the candidates are selected by. SOURCE: postgres.rs:2310-2385 -/
def debugRecallCandidate (scope : Scope) (c : Chunk) : Bool := decide (c.tenantId = scope.tenantId)

/-- The reply: the compiled scope, and the trace of the rows that the query matches, best first.
SOURCE: main.rs:7248-7395 -/
def adminDebugRecall (st : AppState) (payload : ScopePayload) (clock : Clock) (hasQuery : Bool)
    (candidates : Nat) (matching : List Chunk) :
    Except HandlerError (Scope × List TracedCandidate) :=
  if !hasQuery then .error ⟨422, "debug recall needs text or an embedding"⟩
  else do
    let (_, scope) ← st.scopeFor payload clock
    let limit := max 1 (min candidates 500)
    pure (scope, ((matching.filter (debugRecallCandidate scope)).take limit).map
      (traceCandidate st scope))

end Verity.Model
