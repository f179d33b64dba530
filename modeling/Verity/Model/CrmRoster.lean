import Verity.Foundation.MultiMap
import Verity.Model.GroupRemove

/-!
# Mirrored CRM groups

The group rosters the HubSpot and Salesforce connectors read in a poll cycle, and
`sync_group_edges`, which writes them as memberships, one post per edge. A roster is a map
from group principals to member strings. A member is a principal, or a marker of a source
account (`fed:<subject>`, `hubspot-owner:<id>`) that the sink resolves through the server's
crosswalk first; a marker that does not resolve is left out.

Rows are typed as the code reads them: a team or an account without an id is dropped by the
reader, and a `FederationIdentifier` stands for what is left of it after stripping and
lowercasing, empty when there is none.
-/

set_option autoImplicit false

namespace Verity.Model

open Verity.Foundation

/-- A group's members by the group's principal. -/
abbrev GroupMembers := MultiMap String String

/-- `str.startswith`. -/
def startsWith (s start : String) : Bool := (stripStart start s).isSome

/-- SOURCE: crosswalk.py:49 -/
def federationMember (subject : String) : String := "fed:" ++ subject

/-- SOURCE: crosswalk.py:50 -/
def crosswalkMember (ownerId : String) : String := "hubspot-owner:" ++ ownerId

section HubSpot

/-- One owner of the CRM roster, with the ids of the owner's teams.
SOURCE: hubspot.py:552-561 -/
structure OwnerRow where
  id : Option String
  teams : List (Option String)
deriving DecidableEq, Repr

/-- SOURCE: hubspot.py:183-191 -/
def teamPrincipal (teamId : String) : String := "group:hubspot-team-" ++ teamId

/-- The team ids of an owner: `team.get("id")` must be there and not be empty. -/
def OwnerRow.teamIds (row : OwnerRow) : List String :=
  row.teams.filterMap fun team => team.filter fun id => !id.isEmpty

/-- The roster by owner id; a repeated id keeps its last row.
SOURCE: hubspot.py:520-565 -/
def fetchOwners (rows : List OwnerRow) : AList fun _ : String => List String :=
  rows.foldl (fun owners row =>
    match row.id with
    | none => owners
    | some id => owners.insert id row.teamIds) ∅

/-- SOURCE: hubspot.py:567-582 -/
def teamMembers (ownerMap : AList fun _ : String => List String) : GroupMembers :=
  MultiMap.addAll ∅ (ownerMap.entries.flatMap fun owner =>
    owner.2.map fun teamId => (teamPrincipal teamId, crosswalkMember owner.1))

end HubSpot

section Salesforce

/-- SOURCE: salesforce.py:191-210, 965-973 -/
structure SalesforceUser where
  id : String
  subject : String
  isActive : Bool
  userRoleId : Option String
deriving DecidableEq, Repr

/-- A user confers membership only with a subject, and while active. -/
def SalesforceUser.confers (u : SalesforceUser) : Bool := u.isActive && !u.subject.isEmpty

/-- The tables of the source that the roster queries read: `GroupMember` rows as group and
member, roles with the role above, records with their owner, and the assignees of permission
sets that view or modify all data. A user's id is a key. -/
structure SalesforceOrg where
  groupMember : List (String × String)
  users : List SalesforceUser
  userRoles : List (String × Option String)
  recordOwner : List (String × String)
  viewAllAssignees : List String
  users_nodup : (users.map SalesforceUser.id).Nodup
deriving DecidableEq, Repr

def userKeyStart : String := "005"

def groupKeyStart : String := "00G"

/-- SOURCE: salesforce.py:169 -/
def groupExpansionMax : Nat := 5000

/-- SOURCE: salesforce.py:172-177 -/
def salesforceGroup (groupId : String) : String := "group:salesforce-group-" ++ groupId

/-- SOURCE: salesforce.py:180-189 -/
def rolePrincipal (roleId : String) : String := "group:salesforce-role-" ++ roleId

/-- SOURCE: salesforce.py:158 -/
def viewAllGroup : String := "group:salesforce-view-all-data"

/-- SOURCE: salesforce.py:138 -/
def shareQueryChunk : Nat := 200

/-- Consecutive pieces of a list, the last one with what is left.
SOURCE: salesforce.py:288-290 -/
def chunks {α : Type} (items : List α) (size : Nat) : List (List α) :=
  (List.range ((items.length + size - 1) / size)).map fun i => (items.drop (i * size)).take size

/-- The `GroupMember` rows that the queries of a round return: those of the chunk's groups,
chunk by chunk.
SOURCE: salesforce.py:936-942 -/
def groupMemberRows (org : SalesforceOrg) (batch : List String) : List (String × String) :=
  (chunks batch shareQueryChunk).flatMap fun chunk =>
    org.groupMember.filter fun row => row.1 ∈ chunk

/-- The breadth-first walk over `GroupMember`: the groups asked about, and the rows found.
A round asks about the groups of the frontier not asked about yet, as far as the limit
allows; each round asks about one more at least, so `fuel` rounds reach it. The frontier
keeps repetitions, so a group may be in several chunks and its rows be found several times.
SOURCE: salesforce.py:923-950 -/
def expandGroups (org : SalesforceOrg) :
    (fuel : Nat) → (seen frontier : List String) → (rows : List (String × String)) →
      List String × List (String × String)
  | 0, seen, _, rows => (seen, rows)
  | fuel + 1, seen, frontier, rows =>
    if frontier.isEmpty ∨ groupExpansionMax ≤ seen.length then (seen, rows)
    else
      let batch := (frontier.filter (· ∉ seen)).take (groupExpansionMax - seen.length)
      let asked := seen ++ batch.dedup
      if batch.isEmpty then (asked, rows)
      else
        let found := groupMemberRows org batch
        let next := (found.map Prod.snd).filter fun m => startsWith m groupKeyStart ∧ m ∉ asked
        expandGroups org fuel asked next (rows ++ found)

/-- The users of the roster by id.
SOURCE: salesforce.py:957-973 -/
def usersById (org : SalesforceOrg) (ids : List String) : AList fun _ : String => SalesforceUser :=
  (org.users.filter fun u => u.id ∈ ids).foldl (fun byId u => byId.insert u.id u) ∅

/-- The string a `GroupMember` row's member becomes; a user without a subject, an inactive
user and an unknown id become none.
SOURCE: salesforce.py:980-988 -/
def edgeMember (byId : AList fun _ : String => SalesforceUser) (memberId : String) :
    Option String :=
  if startsWith memberId groupKeyStart then some (salesforceGroup memberId)
  else if startsWith memberId userKeyStart then
    match byId.lookup memberId with
    | some u => if u.confers then some (federationMember u.subject) else none
    | none => none
  else none

/-- The groups a roster fetch asks about. -/
def askedGroups (org : SalesforceOrg) (groupIds : List String) : List String :=
  (expandGroups org groupExpansionMax [] groupIds.eraseDups []).1

/-- The group edges of the roster, for the users and groups that records are shared with. A
group with rows has an edge set even if none of its members becomes one.
SOURCE: salesforce.py:882-1002 -/
def fetchRoster (org : SalesforceOrg) (userIds groupIds : List String) : GroupMembers :=
  let rows := (expandGroups org groupExpansionMax [] groupIds.eraseDups []).2
  let memberUserIds := (rows.map Prod.snd).filter fun m =>
    !startsWith m groupKeyStart && startsWith m userKeyStart
  let byId := usersById org (userIds ++ memberUserIds)
  MultiMap.addAll (MultiMap.addKeys ∅ (rows.map fun row => salesforceGroup row.1))
    (rows.filterMap fun row =>
      (edgeMember byId row.2).map fun member => (salesforceGroup row.1, member))

/-- The roles above a role, nearest first; a role met before ends the walk.
SOURCE: salesforce.py:718-726 -/
def ancestors (parent : List (String × Option String)) :
    (fuel : Nat) → (seen : List String) → (role : Option String) → List String
  | 0, _, _ => []
  | _ + 1, _, none => []
  | fuel + 1, seen, some role =>
    match (parent.lookup role).join with
    | none => []
    | some up =>
      if up.isEmpty ∨ up ∈ seen then []
      else up :: ancestors parent fuel (up :: seen) (some up)

/-- The roles whose members read some of the records: those above a record owner's role.
SOURCE: salesforce.py:687-746 -/
def neededRoles (org : SalesforceOrg) (recordIds : List String) : List String :=
  let owners := (org.recordOwner.filter fun row =>
    row.1 ∈ recordIds ∧ startsWith row.2 userKeyStart).map Prod.snd
  let roles := (org.users.filter fun u => u.id ∈ owners).map SalesforceUser.userRoleId
  (roles.flatMap (ancestors org.userRoles (org.userRoles.length + 1) [])).dedup

/-- The members of the roles above the record owners.
SOURCE: salesforce.py:673-789 -/
def fetchRoleHierarchy (org : SalesforceOrg) (recordIds : List String) : GroupMembers :=
  let needed := neededRoles org recordIds
  MultiMap.addAll ∅ (org.users.filterMap fun u =>
    match u.userRoleId with
    | none => none
    | some role =>
      if role ∈ needed ∧ u.confers then some (rolePrincipal role, federationMember u.subject)
      else none)

/-- SOURCE: salesforce.py:791-831 -/
def fetchViewAllSubjects (org : SalesforceOrg) : List String :=
  let assignees := org.viewAllAssignees.filter fun id => startsWith id userKeyStart
  ((org.users.filter fun u => u.id ∈ assignees ∧ u.confers).map SalesforceUser.subject).dedup

end Salesforce

section Sync

/-- The answer of `POST /v1/admin/principals` to the marker of one source account: the
canonical principal the account is linked to. The crosswalk tables are the server's. -/
structure Crosswalk where
  byEmail : String → Option String
  byOwner : String → Option String

/-- SOURCE: hubspot.py:751-779 -/
def Crosswalk.canonicalizeMember (crosswalk : Crosswalk) (member : String) : Option String :=
  match stripStart "fed:" member with
  | some subject => crosswalk.byEmail subject
  | none =>
    match stripStart "hubspot-owner:" member with
    | some ownerId => crosswalk.byOwner ownerId
    | none => some member

/-- `POST /v1/admin/groups`: the tokens of both principals are allocated and the tuple is
written. The permission service is taken to accept the write.
SOURCE: main.rs:5857-5892 -/
def adminGroupAdd (sv : Server) (graph : MembershipGraph) (req : GroupMembershipRequest) :
    Except HandlerError (Server × MembershipGraph) :=
  if req.tenantId ∉ sv.tenants then .error (storageStatus (.unknownTenant req.tenantId))
  else
    match sv.rebac with
    | none => .error ⟨503, "group management requires ReBAC (set VERITY_SPICEDB_URL)"⟩
    | some _ =>
      match parseMembership req with
      | .error e => .error e
      | .ok membership =>
        let (principals, _) :=
          sv.principals.upsertPrincipalTokens req.tenantId [req.group, req.member]
        .ok ({ sv with principals := principals }, graph.writeMembership membership)

/-- What the sink's posts act on, and the number of edges written so far. -/
structure GroupSync where
  server : Server
  graph : MembershipGraph
  written : Nat

/-- One edge of the roster. A refused post raises, and the sync stops there.
SOURCE: hubspot.py:818-829 -/
def syncEdge (crosswalk : Crosswalk) (tenant : TenantId) (st : GroupSync)
    (edge : String × String) : Except HandlerError GroupSync :=
  match crosswalk.canonicalizeMember edge.2 with
  | none => .ok st
  | some canonical =>
    match adminGroupAdd st.server st.graph ⟨tenant, edge.1, canonical⟩ with
    | .error e => .error e
    | .ok (server, graph) => .ok ⟨server, graph, st.written + 1⟩

/-- The edges in the order they are posted. -/
def groupEdges (groupMembers : GroupMembers) : List (String × String) :=
  (groupMembers.keys.insertionSort (· ≤ ·)).flatMap fun group =>
    ((MultiMap.members groupMembers group).insertionSort (· ≤ ·)).map fun member => (group, member)

/-- SOURCE: hubspot.py:792-829 -/
def syncGroupEdges (crosswalk : Crosswalk) (tenant : TenantId) (st : GroupSync)
    (groupMembers : GroupMembers) : Except HandlerError GroupSync :=
  (groupEdges groupMembers).foldlM (syncEdge crosswalk tenant) { st with written := 0 }

end Sync

section Cycles

/-- What a Salesforce poll asks about: the accounts and groups its records are shared with,
and the records themselves, by share object; `denied` are the queries that fail with an HTTP
error. -/
structure SalesforcePoll where
  org : SalesforceOrg
  userIds : List String
  groupIds : List String
  records : List (List String)
  rosterDenied : Bool
  hierarchyDenied : Bool
  viewAllDenied : Bool
deriving DecidableEq, Repr

/-- The edges of the shared groups, and of the roles above the records' owners. A failed
roster query leaves out both.
SOURCE: salesforce.py:610-649 -/
def SalesforcePoll.resolveVisibility (poll : SalesforcePoll) : GroupMembers :=
  if poll.rosterDenied then ∅
  else
    let shared := fetchRoster poll.org poll.userIds poll.groupIds
    if poll.hierarchyDenied then shared
    else poll.records.foldl (fun edges recordIds =>
      MultiMap.update edges (fetchRoleHierarchy poll.org recordIds)) shared

/-- The edges a poll collects, with those of the view-all group.
SOURCE: salesforce.py:519-544 -/
def SalesforcePoll.groupEdges (poll : SalesforcePoll) : GroupMembers :=
  let subjects := if poll.viewAllDenied then [] else fetchViewAllSubjects poll.org
  if subjects.isEmpty then poll.resolveVisibility
  else poll.resolveVisibility.insert viewAllGroup (subjects.map federationMember)

/-- One sync cycle of a connector: the roster as it stands when it is read. The HubSpot
roster is missing when the owners query is refused. -/
inductive CrmCycle where
  | hubspot (owners : Option (List OwnerRow))
  | salesforce (poll : SalesforcePoll)
deriving DecidableEq, Repr

def CrmCycle.groupMembers : CrmCycle → GroupMembers
  | .hubspot none => ∅
  | .hubspot (some rows) => teamMembers (fetchOwners rows)
  | .salesforce poll => poll.groupEdges

/-- The server, the membership graph of the tenant, and the cycles behind. -/
structure CrmMirror where
  server : Server
  graph : MembershipGraph
  past : List CrmCycle

/-- A cycle whose sync runs to completion. -/
def CrmMirror.step (crosswalk : Crosswalk) (tenant : TenantId) (s : CrmMirror)
    (cycle : CrmCycle) : Option CrmMirror :=
  match syncGroupEdges crosswalk tenant ⟨s.server, s.graph, 0⟩ cycle.groupMembers with
  | .error _ => none
  | .ok st => some ⟨st.server, st.graph, s.past ++ [cycle]⟩

/-- A server with no memberships yet. -/
def CrmMirror.start (server : Server) : CrmMirror where
  server := server
  graph := []
  past := []

end Cycles

end Verity.Model
