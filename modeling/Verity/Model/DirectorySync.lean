import Verity.Foundation.Reconcile
import Verity.Model.CrmRoster
import Verity.Model.Registry

/-!
# Directory sync

The Google Workspace directory connector, and the admin requests it makes. A cycle reads the whole
directory into a snapshot, diffs it against the one of the last cycle that ran to its end, and
delivers the differences one request after the other: registry rows, principals, memberships to add,
memberships to remove, users to deprovision. The snapshot is saved after the last request alone, so
a refused request or a crash leaves the old one in the state file.

The pages of a listing are taken as one list, and a reading that fails is a cycle that never starts.
A row of `users.list` has the values of the configured alias schema, as texts; absent texts are
empty. The JSON of the state file, the admin key, the audit and the heartbeat are left out, and the
sweep of the chunks that a deprovision ends with is the one of the token sweep.
-/

set_option autoImplicit false

namespace Verity.Model

open Verity.Foundation

/-! ## The requests of the identity plane -/

/-- SOURCE: migrations/0039_identity_crosswalk.sql:38-46 -/
structure CrosswalkRow where
  tenantId : TenantId
  source : String
  localId : String
  canonical : String
  linkMethod : String
  active : Bool
deriving DecidableEq, Repr

/-- SOURCE: main.rs:6336-6348 -/
structure CrosswalkLinkRequest where
  tenantId : TenantId
  source : String
  localId : String
  canonical : String
  linkMethod : String := "admin_explicit"
deriving DecidableEq, Repr

/-- The row of an account of a source. -/
def CrosswalkRow.isLink (tenant : TenantId) (source localId : String) (x : CrosswalkRow) : Bool :=
  decide (x.tenantId = tenant ∧ x.source = source ∧ x.localId = localId)

/-- The server, its registry, the membership tuples of the tenant and the crosswalk. -/
structure IdentityPlane extends RegistryPlane where
  graph : MembershipGraph
  crosswalk : List CrosswalkRow

namespace IdentityPlane

variable (toLowercase : String → String) (lookup : MembershipGraph → SpiceDb)
  (plane : IdentityPlane)

/-- The server as a request meets it: the permission service, if there is one, answers from the
tuples as they are. -/
def serving : Server :=
  { plane.server with rebac := plane.server.rebac.map fun _ => lookup plane.graph }

/-- SOURCE: main.rs:5166-5233 -/
def adminPrincipals (tenant : TenantId) (principals : List String) :
    IdentityPlane × Except HandlerError Unit :=
  if tenant ∉ plane.server.tenants then
    (plane, .error (storageStatus (.unknownTenant tenant)))
  else
    let table := (plane.server.principals.upsertPrincipalTokens tenant principals).1
    ({ plane with server := { plane.server with principals := table } }, .ok ())

/-- SOURCE: main.rs:6350-6406 -/
def adminCrosswalkLink (req : CrosswalkLinkRequest) : IdentityPlane × Except HandlerError Unit :=
  if req.tenantId ∉ plane.server.tenants then
    (plane, .error (storageStatus (.unknownTenant req.tenantId)))
  else
    match parsePrincipal req.canonical with
    | none =>
      (plane, .error
        ⟨422, "canonical must be \"user:<email>\" or \"group:<name>\": " ++ req.canonical⟩)
    | some _ =>
      let isLink := CrosswalkRow.isLink req.tenantId req.source req.localId
      let rows :=
        if plane.crosswalk.any isLink then
          updateWhere isLink (fun x =>
            { x with canonical := req.canonical, linkMethod := req.linkMethod, active := true })
            plane.crosswalk
        else plane.crosswalk ++
          [⟨req.tenantId, req.source, req.localId, req.canonical, req.linkMethod, true⟩]
      ({ plane with crosswalk := rows }, .ok ())

/-- A membership that is added; the tokens of both principals are allocated.
SOURCE: main.rs:5857-5892 -/
def addMembership (req : GroupMembershipRequest) : IdentityPlane × Except HandlerError Unit :=
  match adminGroupAdd (plane.serving lookup) plane.graph req with
  | .error e => (plane, .error e)
  | .ok (server, graph) =>
    ({ plane with
        server := { plane.server with principals := server.principals }
        graph := graph }, .ok ())

/-- SOURCE: main.rs:5903-5975 -/
def removeMembership (req : GroupMembershipRequest) (now : Time) :
    IdentityPlane × Except HandlerError Unit :=
  match adminGroupRemove (plane.serving lookup) plane.graph req now with
  | .error e => (plane, .error e)
  | .ok (revocations, graph) =>
    ({ plane with
        server := { plane.server with revocations := revocations }
        graph := graph }, .ok ())

/-- The registry row, the crosswalk rows and the durable revocation.
SOURCE: main.rs:6417-6466 -/
def deprovision (req : PrincipalRevokeRequest) (now : Time) :
    IdentityPlane × Except HandlerError Unit :=
  match plane.toRegistryPlane.adminDeprovision req now with
  | (_, .error e) => (plane, .error e)
  | (registryPlane, .ok _) =>
    ({ plane with
        toRegistryPlane := registryPlane
        crosswalk := updateWhere
          (fun x => x.tenantId = req.tenantId ∧ x.canonical = req.principal)
          (fun x => { x with active := false }) plane.crosswalk }, .ok ())

end IdentityPlane

/-- One admin call of a directory connector: the route, with its body.
SOURCE: gdirectory.py:607-613 -/
inductive AdminOp where
  | registryCanonical (req : CanonicalRegistryRequest)
  | registryAlias (req : SsoAliasRequest)
  | crosswalk (req : CrosswalkLinkRequest)
  | principals (tenant : TenantId) (principals : List String)
  | groupAdd (req : GroupMembershipRequest)
  | groupRemove (req : GroupMembershipRequest)
  | deprovision (req : PrincipalRevokeRequest)
deriving DecidableEq, Repr

/-- What a call leaves, and whether it is refused; a refused upload of rows has written those before
the row it is refused at.
SOURCE: gdirectory.py:751-757 -/
def IdentityPlane.apply (toLowercase : String → String) (lookup : MembershipGraph → SpiceDb)
    (now : Time) (plane : IdentityPlane) : AdminOp → IdentityPlane × Except HandlerError Unit
  | .registryCanonical req =>
    let (registryPlane, answer) := plane.toRegistryPlane.adminRegistryCanonical toLowercase req
    ({ plane with toRegistryPlane := registryPlane }, answer.map fun _ => ())
  | .registryAlias req =>
    let (registryPlane, answer) := plane.toRegistryPlane.adminRegistryAlias toLowercase req
    ({ plane with toRegistryPlane := registryPlane }, answer.map fun _ => ())
  | .crosswalk req => plane.adminCrosswalkLink req
  | .principals tenant principals => plane.adminPrincipals tenant principals
  | .groupAdd req => plane.addMembership lookup req
  | .groupRemove req => plane.removeMembership lookup req now
  | .deprovision req => plane.deprovision req now

/-! ## The snapshot of a directory -/

/-- SOURCE: gdirectory.py:263-271 -/
structure DirectoryAlias where
  ssoAlias : String
  source : String
deriving DecidableEq, Repr

/-- SOURCE: gdirectory.py:274-286 -/
structure DirectoryUser where
  directoryId : String
  primaryEmail : String
  aliases : List DirectoryAlias
deriving DecidableEq, Repr

/-- SOURCE: gdirectory.py:284-286 -/
def DirectoryUser.canonical (u : DirectoryUser) : String := userPrincipal u.primaryEmail

/-- SOURCE: gdirectory.py:289-306 -/
structure DirectorySnapshot where
  users : List String
  memberships : List (String × String)
  directoryUsers : List DirectoryUser
deriving DecidableEq, Repr

namespace DirectorySnapshot

def empty : DirectorySnapshot := ⟨[], [], []⟩

/-- SOURCE: gdirectory.py:308-314 -/
def principals (s : DirectorySnapshot) : List String :=
  sortDedup (s.users ++ s.memberships.flatMap fun edge => [edge.1, edge.2])

/-- The record of a user; a repeated email keeps its last record.
SOURCE: gdirectory.py:589 -/
def userOf (s : DirectorySnapshot) (email : String) : Option DirectoryUser :=
  s.directoryUsers.reverse.find? fun u => u.primaryEmail = email

def emails (s : DirectorySnapshot) : List String := s.directoryUsers.map (·.primaryEmail)

end DirectorySnapshot

/-- Pairs are compared as tuples are. -/
def edgeLe (e e' : String × String) : Prop := e.1 < e'.1 ∨ (e.1 = e'.1 ∧ e.2 ≤ e'.2)

instance : DecidableRel edgeLe := fun e e' =>
  inferInstanceAs (Decidable (e.1 < e'.1 ∨ (e.1 = e'.1 ∧ e.2 ≤ e'.2)))

/-- `sorted` of a set of edges. -/
def sortedEdges (edges : List (String × String)) : List (String × String) :=
  edges.dedup.insertionSort edgeLe

namespace GDirectory

/-- SOURCE: gdirectory.py:183-208 -/
structure GDirectoryConfig where
  tenantId : TenantId
  domain : Option String
deriving DecidableEq, Repr

/-- One entry of `users.list`. -/
structure UserRow where
  id : String
  primaryEmail : String
  suspended : Bool
  archived : Bool
  externalIds : List (String × String)
  schemaValues : List String
deriving DecidableEq, Repr

/-- One entry of `members.list`. -/
structure MemberRow where
  type : String
  email : String
deriving DecidableEq, Repr

/-- What the directory answers: its users, its groups, and the members of each group by its
lowercased address. -/
structure Directory where
  users : List UserRow
  groups : List String
  members : List (String × MemberRow)
deriving DecidableEq, Repr

section Reading

variable (lower strip : String → String)

/-- SOURCE: gdirectory.py:453-458 -/
def addAlias (primaryEmail source : String) (aliases : List DirectoryAlias) (value : String) :
    List DirectoryAlias :=
  let text := lower (strip value)
  if text.isEmpty ∨ text = lower primaryEmail ∨ text ∈ aliases.map (·.ssoAlias) then aliases
  else aliases ++ [⟨text, source⟩]

/-- SOURCE: gdirectory.py:442-477 -/
def collectAliases (row : UserRow) : List DirectoryAlias :=
  let declared := row.externalIds.filter fun ext => ext.1 = "custom" ∨ ext.1 = "login_id"
  let aliases := (declared.map Prod.snd).foldl
    (addAlias lower strip row.primaryEmail "google_externalid") []
  row.schemaValues.foldl (addAlias lower strip row.primaryEmail "google_customschema") aliases

/-- The active users by lowercased email; a repeated email keeps its last active record.
SOURCE: gdirectory.py:405-440 -/
def listUsers (rows : List UserRow) : AList fun _ : String => DirectoryUser :=
  rows.foldl (fun active row =>
    let email := lower row.primaryEmail
    if email.isEmpty ∨ row.suspended ∨ row.archived then active
    else active.insert email ⟨row.id, email, collectAliases lower strip row⟩) ∅

/-- SOURCE: gdirectory.py:479-491 -/
def listGroups (groups : List String) : List String :=
  sortDedup ((groups.map lower).filter fun email => !email.isEmpty)

/-- SOURCE: gdirectory.py:317-341 -/
def mapMember (domain : Option String) (activeUsers knownGroups : List String) (group : String)
    (member : MemberRow) : Option String :=
  let email := lower member.email
  if member.type = "USER" then
    if email ∈ activeUsers then some (userPrincipal email) else none
  else if member.type = "GROUP" then
    if email ∈ knownGroups ∧ groupPrincipal email ≠ group then some (groupPrincipal email) else none
  else if member.type = "CUSTOMER" then
    (domain.filter fun d => !d.isEmpty).map fun d => "domain:" ++ lower d
  else none

/-- The edges of the groups that the directory lists.
SOURCE: gdirectory.py:378-385 -/
def directEdges (config : GDirectoryConfig) (d : Directory) : List (String × String) :=
  let active := (listUsers lower strip d.users).keys
  let groups := listGroups lower d.groups
  groups.flatMap fun email =>
    (d.members.filter fun row => row.1 = email).filterMap fun row =>
      (mapMember lower config.domain active groups (groupPrincipal email) row.2).map
        fun member => (groupPrincipal email, member)

/-- SOURCE: gdirectory.py:367-391 -/
def reconcile (config : GDirectoryConfig) (d : Directory) : DirectorySnapshot :=
  let active := listUsers lower strip d.users
  { users := (active.keys.map userPrincipal).insertionSort (· ≤ ·)
    memberships := sortedEdges (directEdges lower strip config d)
    directoryUsers := (active.keys.insertionSort (· ≤ ·)).filterMap fun email =>
      active.lookup email }

end Reading

end GDirectory

/-! ## Differences, as requests -/

/-- SOURCE: gdirectory.py:547-568 -/
structure SyncDiff where
  addedPrincipals : List String
  addedMemberships : List (String × String)
  removedMemberships : List (String × String)
  registryUsers : List DirectoryUser
  deprovisioned : List String
deriving DecidableEq, Repr

/-- SOURCE: gdirectory.py:571-604 -/
def diffSnapshots (previous desired : DirectorySnapshot) : SyncDiff where
  addedPrincipals := sortDedup (desired.principals.filter fun p => p ∉ previous.principals)
  addedMemberships := sortedEdges (desired.memberships.filter fun e => e ∉ previous.memberships)
  removedMemberships := sortedEdges (previous.memberships.filter fun e => e ∉ desired.memberships)
  registryUsers := desired.directoryUsers.filter fun u => previous.userOf u.primaryEmail ≠ some u
  deprovisioned := sortDedup (previous.emails.filter fun email => email ∉ desired.emails)

/-- SOURCE: gdirectory.py:616-678 -/
def buildRegistryOps (users : List DirectoryUser) (tenant : TenantId) (source : String) :
    List AdminOp :=
  if users.isEmpty then []
  else
    let rows : List CanonicalPrincipalRow := users.map fun u =>
      { canonical := u.canonical, kind := "user", idpSubject := u.primaryEmail, active := true }
    let aliases : List SsoAliasRow := users.flatMap fun u => u.aliases.map fun a =>
      ⟨u.canonical, a.ssoAlias, a.source⟩
    let links := (users.filter fun u => !u.directoryId.isEmpty).map fun u =>
      AdminOp.crosswalk ⟨tenant, source, u.directoryId, u.canonical, "directory_vouched"⟩
    .registryCanonical ⟨tenant, rows⟩ ::
      ((if aliases.isEmpty then [] else [.registryAlias ⟨tenant, aliases⟩]) ++ links)

/-- SOURCE: gdirectory.py:681-722 -/
def buildAdminOps (diff : SyncDiff) (tenant : TenantId) (source : String) : List AdminOp :=
  buildRegistryOps diff.registryUsers tenant source ++
    (if diff.addedPrincipals.isEmpty then [] else [.principals tenant diff.addedPrincipals]) ++
    (diff.addedMemberships.map fun e => .groupAdd ⟨tenant, e.1, e.2⟩) ++
    (diff.removedMemberships.map fun e => .groupRemove ⟨tenant, e.1, e.2⟩) ++
    (diff.deprovisioned.map fun email => .deprovision ⟨tenant, userPrincipal email⟩)

/-! ## Cycles -/

/-- What a list of calls has come to. -/
structure OpsApplied where
  plane : IdentityPlane
  delivered : List AdminOp
  refused : Bool

section Cycle

variable (toLowercase : String → String) (lookup : MembershipGraph → SpiceDb) (now : Time)

/-- One call after the other, up to the first that is refused.
SOURCE: gdirectory.py:868-871, 751-757 -/
def applyOps (plane : IdentityPlane) : List AdminOp → OpsApplied
  | [] => ⟨plane, [], false⟩
  | op :: ops =>
    match plane.apply toLowercase lookup now op with
    | (plane', .error _) => ⟨plane', [], true⟩
    | (plane', .ok ()) =>
      let rest := applyOps plane' ops
      ⟨rest.plane, op :: rest.delivered, rest.refused⟩

/-- A cycle that is behind: what it read, what it delivered, and how it ended. -/
structure CycleRecord where
  desired : DirectorySnapshot
  delivered : List AdminOp
  ending : Ending
deriving DecidableEq, Repr

/-- The server, the snapshot of the state file, and the cycles behind. -/
structure DirectorySync where
  plane : IdentityPlane
  snapshot : DirectorySnapshot
  past : List CycleRecord

/-- The calls a cycle gets to make: all of them, or the first `n` before the connector dies. -/
def sentOps (ops : List AdminOp) : (cut : Option Nat) → List AdminOp
  | none => ops
  | some n => ops.take n

/-- The calls are delivered, and the snapshot is saved if the cycle ran on and none was refused.
SOURCE: gdirectory.py:850-879 -/
def DirectorySync.cycle (s : DirectorySync) (desired : DirectorySnapshot) (ops : List AdminOp)
    (cut : Option Nat) : DirectorySync :=
  let applied := applyOps toLowercase lookup now s.plane (sentOps ops cut)
  let completed := cut.isNone && !applied.refused
  { plane := applied.plane
    snapshot := if completed then desired else s.snapshot
    past := s.past ++ [⟨desired, applied.delivered, if completed then .complete else .cut⟩] }

/-- The state file is gone; the next cycle starts from the empty snapshot.
SOURCE: gdirectory.py:802-803 -/
def DirectorySync.forget (s : DirectorySync) : DirectorySync :=
  { s with snapshot := .empty, past := s.past ++ [⟨.empty, [], .forgotten⟩] }

end Cycle

/-- A server with no memberships yet, before the first cycle. -/
def DirectorySync.start (plane : RegistryPlane) : DirectorySync where
  plane := { plane with graph := [], crosswalk := [] }
  snapshot := .empty
  past := []

namespace GDirectory

/-- A cycle over the directory as it is then, which may be interrupted, or the loss of the state
file. -/
inductive SyncEvent where
  | cycle (directory : Directory) (cut : Option Nat) (now : Time)
  | stateFileLost
deriving DecidableEq, Repr

/-- SOURCE: gdirectory.py:850-879 -/
def syncStep (lower strip toLowercase : String → String) (lookup : MembershipGraph → SpiceDb)
    (config : GDirectoryConfig) (s : DirectorySync) : SyncEvent → Option DirectorySync
  | .cycle directory cut now =>
    let desired := reconcile lower strip config directory
    let ops := buildAdminOps (diffSnapshots s.snapshot desired) config.tenantId "gdirectory"
    some (s.cycle toLowercase lookup now desired ops cut)
  | .stateFileLost => some s.forget

end GDirectory

/-! ## The local closure -/

/-- The turns of `transitive_user_closure` for one group: the users collected so far and the groups
visited, with the top of the stack first.
SOURCE: gdirectory.py:523-539 -/
def closureLoop (memberships : List (String × String)) :
    (fuel : Nat) → (stack visited users : List String) → List String
  | 0, _, _, users => users
  | _ + 1, [], _, users => users
  | fuel + 1, current :: stack, visited, users =>
    if current ∈ visited then closureLoop memberships fuel stack visited users
    else
      let members := (memberships.filter fun e => e.1 = current).map Prod.snd
      closureLoop memberships fuel
        ((members.filter fun m =>
          !startsWith m "user:" && startsWith m "group:").reverse ++ stack)
        (current :: visited) (users ++ members.filter fun m => startsWith m "user:")

/-- The users of every group that has members, through all groups in it. No group is opened twice,
so the edges bound the turns.
SOURCE: gdirectory.py:511-544 -/
def transitiveUserClosure (memberships : List (String × String)) : List (String × List String) :=
  (memberships.map Prod.fst).dedup.map fun group =>
    (group, closureLoop memberships (memberships.length + 1) [group] [] [])

end Verity.Model
