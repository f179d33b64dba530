import Mathlib.Data.List.AList
import Verity.Model.Rebac

/-!
# The connectors' ACL-diff lane

On each sync a connector hands every record's principals to `AclDiffLane.observe`. The lane
compares them with the set it saw last, writes the new set back, and posts a correction when
a principal has gone. The set is written back before the correction is posted, and the post,
or the lookup of the tokens it carries, may raise.

The sidecar file the last-seen sets are loaded from and flushed to is left out: a lane starts
with whatever sets the file held.
-/

set_option autoImplicit false

namespace Verity.Model

/-- One record's tightening: the new full set, and who lost access.
SOURCE: acl_diff.py:39-56 -/
structure AclChange where
  source : String
  documentId : Option String
  entityId : Option String
  field : Option String
  newPrincipals : List String
  removedPrincipals : List String
deriving DecidableEq, Repr

/-- The body posted to `/v1/ingest/acl-change`.
SOURCE: acl_diff.py:58-74 -/
structure AclChangeBody where
  tenantId : String
  source : String
  object : Option String
  fact : Option (Option String × Option String)
  visibility : List PrincipalToken
  confidentiality : Confidentiality
  aclProvenance : AclProvenance
  reason : String
deriving DecidableEq, Repr

/-- SOURCE: acl_diff.py:58-74 -/
def AclChange.toRequest (change : AclChange) (tenantId : String)
    (visibility : List PrincipalToken) : AclChangeBody where
  tenantId := tenantId
  source := change.source
  object := change.documentId
  fact := if change.documentId.isSome then none else some (change.entityId, change.field)
  visibility := visibility
  confidentiality := .internal
  aclProvenance := .mirrored
  reason := "source_unshare"

/-- The set last seen of each record.
SOURCE: acl_diff.py:77-111 -/
structure AclState where
  seen : AList fun _ : String => List String

namespace AclState

/-- SOURCE: acl_diff.py:107-108 -/
def lastSeen (state : AclState) (recordId : String) : Option (List String) :=
  state.seen.lookup recordId

/-- SOURCE: acl_diff.py:110-111 -/
def remember (state : AclState) (recordId : String) (principals : List String) : AclState where
  seen := state.seen.insert recordId (sortDedup principals)

@[simp]
theorem lastSeen_remember (state : AclState) (recordId : String) (principals : List String) :
    (state.remember recordId principals).lastSeen recordId = some (sortDedup principals) :=
  AList.lookup_insert _

theorem lastSeen_remember_of_ne {recordId recordId' : String} (h : recordId' ≠ recordId)
    (state : AclState) (principals : List String) :
    (state.remember recordId principals).lastSeen recordId' = state.lastSeen recordId' :=
  AList.lookup_insert_ne h

end AclState

/-- One call of `observe`, with what its environment answers: the tokens the registry maps,
unless the lookup raises, and whether the server takes the post. -/
structure Observation where
  recordId : String
  currentPrincipals : List String
  source : String
  documentId : Option String
  entityId : Option String
  field : Option String
  mapping : Option (List (String × PrincipalToken))
  accepted : Bool
deriving DecidableEq, Repr

/-- The diff against the last-seen set, which is replaced in every case.
SOURCE: acl_diff.py:120-157 -/
def diffAcl (state : AclState) (o : Observation) : AclState × Option AclChange :=
  let current := sortDedup o.currentPrincipals
  let prior := state.lastSeen o.recordId
  let state := state.remember o.recordId current
  match prior with
  | none => (state, none)
  | some prior =>
    let removed := prior.filter fun p => !current.contains p
    if removed.isEmpty then (state, none)
    else
      (state, some {
        source := o.source
        documentId := o.documentId
        entityId := o.entityId
        field := o.field
        newPrincipals := current
        removedPrincipals := removed.insertionSort (· ≤ ·) })

/-- The body that is posted, once the server has taken it; nothing when a call raises.
SOURCE: acl_diff.py:173-193 -/
def emitAclChange (change : AclChange) (tenantId : String) (o : Observation) :
    Option AclChangeBody :=
  match o.mapping with
  | none => none
  | some mapping =>
    let tokens := change.newPrincipals.filterMap fun p => mapping.lookup p
    let body := change.toRequest tenantId (tokens.dedup.insertionSort (· ≤ ·))
    if o.accepted then some body else none

/-- SOURCE: acl_diff.py:196-222 -/
structure AclDiffLane where
  tenantId : String
  state : AclState
  emitted : Nat

/-- What a call of `observe` ends with. -/
inductive ObserveResult where
  | raised
  | returned (change : Option AclChange)
deriving DecidableEq, Repr

/-- SOURCE: acl_diff.py:224-250 -/
def AclDiffLane.observe (lane : AclDiffLane) (o : Observation) : AclDiffLane × ObserveResult :=
  let (state, change) := diffAcl lane.state o
  let lane := { lane with state := state }
  match change with
  | none => (lane, .returned none)
  | some change =>
    match emitAclChange change lane.tenantId o with
    | none => (lane, .raised)
    | some _ => ({ lane with emitted := lane.emitted + 1 }, .returned (some change))

/-- A lane and the calls made on it, oldest first, with what each ended with. -/
structure ObservedLane where
  lane : AclDiffLane
  history : List (Observation × ObserveResult)

/-- A lane no call has been made on. -/
def ObservedLane.start (lane : AclDiffLane) : ObservedLane where
  lane := lane
  history := []

/-- One more call. -/
def ObservedLane.step (s : ObservedLane) (o : Observation) : Option ObservedLane :=
  some {
    lane := (s.lane.observe o).1
    history := s.history ++ [(o, (s.lane.observe o).2)] }

end Verity.Model
