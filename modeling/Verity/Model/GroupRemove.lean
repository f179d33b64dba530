import Verity.Model.Membership
import Verity.Model.OpenScope

/-!
# Removing a member from a group

`admin_group_remove`, in the order its comments give: resolve who loses what while the tuple
is still there, write the tombstones, then delete the tuple. `adminGroupRemove` is the three
steps at one instant; in between, other calls can run.
-/

set_option autoImplicit false

namespace Verity.Model

/-- SOURCE: main.rs:5287-5296 -/
structure GroupMembershipRequest where
  tenantId : TenantId
  group : String
  member : String
deriving DecidableEq, Repr

/-- SOURCE: main.rs:5298-5320 -/
def parseMembership (req : GroupMembershipRequest) : Except HandlerError Membership :=
  match parsePrincipal req.group with
  | some (.group, groupName) =>
    match parsePrincipal req.member with
    | none => .error ⟨422, "member must be \"user:<id>\" or \"group:<name>\""⟩
    | some (memberKind, memberName) =>
      if memberKind = .group ∧ memberName = groupName then
        .error ⟨422, "a group cannot be a member of itself"⟩
      else .ok ⟨groupName, memberKind, memberName⟩
  | _ => .error ⟨422, "group must be \"group:<name>\""⟩

/-- What the first step of a removal finds out. -/
structure Removal where
  tenant : TenantId
  membership : Membership
  affected : List String
  lostTokens : List (String × PrincipalToken)
deriving DecidableEq, Repr

/-- SOURCE: main.rs:5918 -/
def gatewayError (e : RebacError) : HandlerError := ⟨502, "spicedb: " ++ e.text⟩

/-- Step one: the members affected, the group with all groups above it, and the tokens of
those among them that ever had one.
SOURCE: main.rs:5917-5955 -/
def resolveRemoval (db : SpiceDb) (principals : PrincipalTable) (req : GroupMembershipRequest) :
    Except HandlerError Removal :=
  match parseMembership req with
  | .error e => .error e
  | .ok membership =>
    let affected : Except RebacError (List String) :=
      match membership.kind with
      | .user => .ok [req.member]
      | .group => (db.groupUsers req.tenantId membership.member).map (· ++ [req.member])
    match affected with
    | .error e => .error (gatewayError e)
    | .ok affected =>
      match db.groupAndAncestors req.tenantId membership.group with
      | .error e => .error (gatewayError e)
      | .ok lost =>
        .ok { tenant := req.tenantId
              membership := membership
              affected := affected
              lostTokens := principals.materialized req.tenantId lost }

/-- Step two.
SOURCE: main.rs:5957-5961 -/
def Removal.record (r : Removal) (revocations : RevocationTables) (now : Time) : RevocationTables :=
  revocations.record r.tenant r.affected r.lostTokens now

/-- The handler as a whole: the tables and the graph it leaves.
SOURCE: main.rs:5903-5975 -/
def adminGroupRemove (sv : Server) (graph : MembershipGraph) (req : GroupMembershipRequest)
    (now : Time) : Except HandlerError (RevocationTables × MembershipGraph) :=
  if req.tenantId ∉ sv.tenants then .error (storageStatus (.unknownTenant req.tenantId))
  else
    match sv.rebac with
    | none => .error ⟨503, "group management requires ReBAC (set VERITY_SPICEDB_URL)"⟩
    | some db =>
      match resolveRemoval db sv.principals req with
      | .error e => .error e
      | .ok removal =>
        .ok (removal.record sv.revocations now, graph.deleteMembership removal.membership)

/-! ## Mints and removals, interleaved

Any number of `open_scope` and `admin_group_remove` calls on one tenant, each in its three
steps, with any other steps in between. A call that fails or is dropped is one that takes no
further step. Memoization is left out: each step reads the tables and the tuples as they are.
-/

/-- A removal that has written its tombstones, and when it did. -/
structure RecordedRemoval where
  removal : Removal
  recordedAt : Time
deriving DecidableEq, Repr

/-- The shared state, and the calls under way. -/
structure Race (Tag : Type) where
  now : Time
  graph : MembershipGraph
  principals : PrincipalTable
  revocations : RevocationTables
  resolvedOpens : List OpenCall
  subtractedOpens : List SignCall
  resolvedRemovals : List Removal
  recordedRemovals : List RecordedRemoval
  minted : List (Handle Tag)
deriving DecidableEq

inductive RaceEvent where
  | tick (now : Time)
  | openResolve (req : OpenScopeRequest)
  | openSubtract (call : OpenCall)
  | openSign (call : SignCall)
  | removeResolve (req : GroupMembershipRequest)
  | removeRecord (removal : Removal)
  | removeDelete (removal : RecordedRemoval)

namespace Race

variable {Tag : Type}

/-- The server as a call sees it: the configuration `cfg`, over the shared state. -/
def server (lookup : MembershipGraph → SpiceDb) (cfg : Server) (s : Race Tag) : Server :=
  { cfg with
    rebac := some (lookup s.graph)
    principals := s.principals
    revocations := s.revocations }

/-- One step of one call, or time passing. -/
def step (lookup : MembershipGraph → SpiceDb) (sign : ScopePayload → Tag) (cfg : Server)
    (tenant : TenantId) (s : Race Tag) : RaceEvent → Option (Race Tag)
  | .tick now => if s.now ≤ now then some { s with now } else none
  | .openResolve req =>
    if req.tenantId = tenant ∧ req.subject.isSome then
      match openResolve (s.server lookup cfg) req with
      | .error _ => none
      | .ok call => some { s with resolvedOpens := s.resolvedOpens ++ [call] }
    else none
  | .openSubtract call =>
    if call ∈ s.resolvedOpens then
      let result := openSubtract (s.server lookup cfg) call s.now
      some { s with
        principals := result.1
        resolvedOpens := s.resolvedOpens.erase call
        subtractedOpens := s.subtractedOpens ++ [result.2] }
    else none
  | .openSign call =>
    if call ∈ s.subtractedOpens then
      some { s with
        subtractedOpens := s.subtractedOpens.erase call
        minted := s.minted ++ [openSign sign call s.now] }
    else none
  | .removeResolve req =>
    if req.tenantId = tenant then
      match resolveRemoval (lookup s.graph) s.principals req with
      | .error _ => none
      | .ok removal => some { s with resolvedRemovals := s.resolvedRemovals ++ [removal] }
    else none
  | .removeRecord removal =>
    if removal ∈ s.resolvedRemovals then
      some { s with
        revocations := removal.record s.revocations s.now
        resolvedRemovals := s.resolvedRemovals.erase removal
        recordedRemovals := s.recordedRemovals ++ [⟨removal, s.now⟩] }
    else none
  | .removeDelete removal =>
    if removal ∈ s.recordedRemovals then
      some { s with
        graph := s.graph.deleteMembership removal.removal.membership
        recordedRemovals := s.recordedRemovals.erase removal }
    else none

/-- Any graph, any tokens and any revocations, before the first call. -/
def start (now : Time) (graph : MembershipGraph) (principals : PrincipalTable)
    (revocations : RevocationTables) : Race Tag where
  now := now
  graph := graph
  principals := principals
  revocations := revocations
  resolvedOpens := []
  subtractedOpens := []
  resolvedRemovals := []
  recordedRemovals := []
  minted := []

end Race

end Verity.Model
