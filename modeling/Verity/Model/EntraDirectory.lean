import Verity.Foundation.Dict
import Verity.Model.DirectorySync

/-!
# Entra directory sync

The Microsoft Entra connector. The first cycle reads the whole directory; every later one reads what
has changed since, and folds it into the snapshot of the state file, which it then diffs against
that snapshot as the Google connector does. Users and groups are known by their object id, and only
active members of the organisation, no guests, confer anything.

The pages of a listing are taken as one list, with the link its last page ends with. A row of
`/users` has the fields that the connector selects and reads. The warnings, the alarms, the
heartbeat, the JSON of the state file and the tokens of the transport are left out; the group
records of a delta, which nothing reads, are left out too.
-/

set_option autoImplicit false

namespace Verity.Model

open Verity.Foundation

namespace Entra

/-! ## What Microsoft Graph answers -/

/-- One row of `/users`.
SOURCE: entra_directory.py:858-868, 870-887 -/
structure RawUser where
  id : String
  userPrincipalName : String
  mail : Option String
  userType : Option String
  externalUserState : Option String
  accountEnabled : Bool
  creationType : Option String
  onPremisesImmutableId : Option String
  onPremisesSecurityIdentifier : Option String
  onPremisesSamAccountName : Option String
deriving DecidableEq, Repr

/-- One entry of a user listing, which may say that the user is gone. -/
structure UserEntry where
  removed : Bool
  record : RawUser
deriving DecidableEq, Repr

/-- A member of a group, with its `@odata.type`; a change may say that it is none any more. -/
structure MemberEntry where
  type : String
  id : String
  removed : Bool
deriving DecidableEq, Repr

/-- One entry of a group listing, with its `members@delta`. -/
structure GroupEntry where
  id : String
  removed : Bool
  memberChanges : List MemberEntry
deriving DecidableEq, Repr

/-- What a cycle is answered: the listings from scratch, and those from the links of the state
file. -/
structure GraphAnswers where
  users : List UserEntry
  groups : List GroupEntry
  members : List (String × MemberEntry)
  usersLink : Option String
  groupsLink : Option String
  userChanges : List UserEntry
  groupChanges : List GroupEntry
  nextUsersLink : Option String
  nextGroupsLink : Option String
deriving DecidableEq, Repr

/-- SOURCE: entra_directory.py:229-247 -/
structure EntraDirectoryConfig where
  tenantId : TenantId
  aliasField : Option String
  everyoneGroupEnabled : Bool := true
deriving DecidableEq, Repr

/-! ## Users -/

/-- SOURCE: entra_directory.py:387-390 -/
def groupPrincipal (objectId : String) : String := "group:entra-group-" ++ objectId

/-- SOURCE: entra_directory.py:170 -/
def everyoneGroup : String := "group:entra-everyone-except-guests"

/-- SOURCE: entra_directory.py:185-186 -/
def memberTypeUser : String := "#microsoft.graph.user"

def memberTypeGroup : String := "#microsoft.graph.group"

/-- SOURCE: entra_directory.py:394-407 -/
structure EntraUser where
  objectId : String
  upn : String
  mail : Option String
  userType : Option String
  externalUserState : Option String
  accountEnabled : Bool
  creationType : Option String
  aliases : List DirectoryAlias
deriving DecidableEq, Repr

section Users

variable (lower upper strip : String → String)

/-- SOURCE: entra_directory.py:409-410 -/
def EntraUser.primaryEmail (u : EntraUser) : String :=
  lower ((u.mail.filter fun m => !m.isEmpty).getD u.upn)

/-- SOURCE: entra_directory.py:413-414 -/
def EntraUser.canonical (u : EntraUser) : String := userPrincipal (u.primaryEmail lower)

/-- SOURCE: entra_directory.py:416-424 -/
def EntraUser.asDirectoryUser (u : EntraUser) : DirectoryUser :=
  ⟨u.objectId, u.primaryEmail lower, u.aliases⟩

/-- SOURCE: entra_directory.py:427-439 -/
def isActiveMember (u : EntraUser) : Bool :=
  decide (u.userType = some "Member") && u.externalUserState.isNone && u.accountEnabled &&
    !decide ("#EXT#".toList <:+: (upper u.upn).toList) &&
    !decide (u.creationType = some "Invitation")

/-- The value of the field that the tenant declares as its SSO name, if it may be declared.
SOURCE: entra_directory.py:190-198, 870-887 -/
def RawUser.aliasValue (raw : RawUser) : String → Option String
  | "onPremisesImmutableId" => raw.onPremisesImmutableId
  | "onPremisesSecurityIdentifier" => raw.onPremisesSecurityIdentifier
  | "onPremisesSamAccountName" => raw.onPremisesSamAccountName
  | "userPrincipalName" => some raw.userPrincipalName
  | "mail" => raw.mail
  | _ => none

/-- SOURCE: entra_directory.py:870-887 -/
def collectAliases (config : EntraDirectoryConfig) (raw : RawUser) : List DirectoryAlias :=
  let value := lower (strip ((config.aliasField.bind raw.aliasValue).getD ""))
  let primary := lower ((raw.mail.filter fun m => !m.isEmpty).getD raw.userPrincipalName)
  if value.isEmpty ∨ value = primary then [] else [⟨value, "entra_declared"⟩]

/-- SOURCE: entra_directory.py:858-868 -/
def parseUser (config : EntraDirectoryConfig) (raw : RawUser) : EntraUser where
  objectId := raw.id
  upn := raw.userPrincipalName
  mail := raw.mail.filter fun m => !m.isEmpty
  userType := raw.userType
  externalUserState := raw.externalUserState
  accountEnabled := raw.accountEnabled
  creationType := raw.creationType
  aliases := collectAliases lower strip config raw

end Users

/-! ## Snapshots -/

/-- SOURCE: entra_directory.py:443-467 -/
structure EntraSnapshot where
  users : List String
  memberships : List (String × String)
  everyoneMembers : List String
  directoryUsers : List DirectoryUser
  oidToCanonical : Dict String String
  usersDeltaLink : Option String
  groupsDeltaLink : Option String

namespace EntraSnapshot

def empty : EntraSnapshot := ⟨[], [], [], [], .empty, none, none⟩

/-- Both links are there.
SOURCE: entra_directory.py:654, 1248 -/
def hasLinks (s : EntraSnapshot) : Bool :=
  s.usersDeltaLink.any (fun link => !link.isEmpty) &&
    s.groupsDeltaLink.any fun link => !link.isEmpty

/-- SOURCE: entra_directory.py:476-489 -/
def toDirectorySnapshot (s : EntraSnapshot) : DirectorySnapshot where
  users := s.users.insertionSort (· ≤ ·)
  memberships := sortedEdges (s.memberships ++ s.everyoneMembers.map fun m => (everyoneGroup, m))
  directoryUsers := s.directoryUsers

end EntraSnapshot

section Building

variable (lower upper strip : String → String) (config : EntraDirectoryConfig)

/-- The active members among the users, by object id.
SOURCE: entra_directory.py:598 -/
def activeMembers (users : Dict String EntraUser) : List EntraUser :=
  users.values.filter (isActiveMember upper)

/-- SOURCE: entra_directory.py:599, 627, 664-666 -/
def activeOidToCanonical (users : Dict String EntraUser) : Dict String String :=
  .ofList ((activeMembers upper users).map fun u => (u.objectId, u.canonical lower))

/-- The edges are gated: a user is in them as an active member only.
SOURCE: entra_directory.py:589-622 -/
def buildSnapshot (users : Dict String EntraUser) (memberships : List (String × String))
    (usersLink groupsLink : Option String) : EntraSnapshot :=
  let active := activeMembers upper users
  let oidToCanonical := activeOidToCanonical lower upper users
  let activeCanonicals := oidToCanonical.values
  { users := oidToCanonical.values.insertionSort (· ≤ ·)
    memberships := sortedEdges (memberships.filter fun e =>
      startsWith e.2 "group:entra-group-" || decide (e.2 ∈ activeCanonicals))
    everyoneMembers :=
      if config.everyoneGroupEnabled then sortDedup (active.map (·.canonical lower)) else []
    directoryUsers :=
      (active.insertionSort fun u u' => u.canonical lower ≤ u'.canonical lower).map
        (·.asDirectoryUser lower)
    oidToCanonical := oidToCanonical
    usersDeltaLink := usersLink
    groupsDeltaLink := groupsLink }

/-! ### The full reading -/

/-- SOURCE: entra_directory.py:518-547 -/
def mapMember (group : String) (member : MemberEntry) (active : Dict String String)
    (knownGroups : List String) : Option String :=
  if member.id.isEmpty then none
  else if member.type = memberTypeUser then active.get member.id
  else if member.type = memberTypeGroup then
    if member.id ∈ knownGroups ∧ groupPrincipal member.id ≠ group then
      some (groupPrincipal member.id)
    else none
  else none

/-- The users of a listing from scratch; a repeated id keeps its last row.
SOURCE: entra_directory.py:811-826 -/
def listUsers (entries : List UserEntry) : Dict String EntraUser :=
  entries.foldl (fun users entry =>
    if entry.removed ∨ entry.record.id.isEmpty then users
    else users.set entry.record.id (parseUser lower strip config entry.record)) .empty

/-- SOURCE: entra_directory.py:828-842 -/
def listGroups (entries : List GroupEntry) : List String :=
  ((entries.filter fun entry => !entry.removed && !entry.id.isEmpty).map (·.id)).dedup

/-- SOURCE: entra_directory.py:624-636, 844-856 -/
def walkMemberships (users : Dict String EntraUser) (groups : List String)
    (members : List (String × MemberEntry)) : List (String × String) :=
  groups.flatMap fun oid =>
    (members.filter fun row => row.1 = oid).filterMap fun row =>
      (mapMember (groupPrincipal oid) row.2 (activeOidToCanonical lower upper users) groups).map
        fun member => (groupPrincipal oid, member)

/-- SOURCE: entra_directory.py:575-587 -/
def reconcile (answers : GraphAnswers) : EntraSnapshot :=
  let users := listUsers lower strip config answers.users
  buildSnapshot lower upper config users
    (walkMemberships lower upper users (listGroups answers.groups) answers.members)
    answers.usersLink answers.groupsLink

/-! ### The changes since -/

/-- A user of the state file, of whom it has the address and the aliases.
SOURCE: entra_directory.py:695-709 -/
def priorUser (prev : EntraSnapshot) (oid canonical : String) : EntraUser :=
  let email := (stripStart "user:" canonical).getD canonical
  { objectId := oid
    upn := email
    mail := some email
    userType := some "Member"
    externalUserState := none
    accountEnabled := true
    creationType := none
    aliases := (prev.toDirectorySnapshot.userOf email).elim [] (·.aliases) }

/-- SOURCE: entra_directory.py:695-709 -/
def priorUsers (prev : EntraSnapshot) : Dict String EntraUser :=
  .ofList (prev.oidToCanonical.items.map fun e => (e.1, priorUser prev e.1 e.2))

/-- One entry of `/users/delta`, on the users and the tombstones so far.
SOURCE: entra_directory.py:715-725 -/
def applyUserEntry (state : Dict String EntraUser × List String) (entry : UserEntry) :
    Dict String EntraUser × List String :=
  if entry.record.id.isEmpty then state
  else if entry.removed then
    (state.1.pop entry.record.id, state.2.insert entry.record.id)
  else
    (state.1.set entry.record.id (parseUser lower strip config entry.record),
      state.2.filter (· ≠ entry.record.id))

/-- SOURCE: entra_directory.py:687-726 -/
def usersDelta (prev : EntraSnapshot) (changes : List UserEntry) :
    Dict String EntraUser × List String :=
  changes.foldl (applyUserEntry lower strip config) (priorUsers prev, [])

/-- SOURCE: entra_directory.py:781-801 -/
def mapDeltaMember (group : String) (member : MemberEntry) (active : Dict String String) :
    Option String :=
  if member.id.isEmpty then none
  else if member.type = memberTypeGroup then
    if groupPrincipal member.id ≠ group then some (groupPrincipal member.id) else none
  else active.get member.id

/-- SOURCE: entra_directory.py:766-775 -/
def applyMemberChange (active : Dict String String) (group : String)
    (memberships : List (String × String)) (member : MemberEntry) : List (String × String) :=
  match mapDeltaMember group member active with
  | none => memberships
  | some mapped =>
    if member.removed then memberships.filter (· ≠ (group, mapped))
    else memberships.insert (group, mapped)

/-- SOURCE: entra_directory.py:755-775 -/
def applyGroupEntry (active : Dict String String) (memberships : List (String × String))
    (entry : GroupEntry) : List (String × String) :=
  if entry.id.isEmpty then memberships
  else if entry.removed then memberships.filter fun e => e.1 ≠ groupPrincipal entry.id
  else entry.memberChanges.foldl (applyMemberChange active (groupPrincipal entry.id)) memberships

/-- SOURCE: entra_directory.py:728-779 -/
def groupsDelta (prev : EntraSnapshot) (changes : List GroupEntry) (active : Dict String String) :
    List (String × String) :=
  changes.foldl (applyGroupEntry active)
    (prev.memberships.filter fun e => e.1 ≠ everyoneGroup)

/-- The edges of a deleted user go.
SOURCE: entra_directory.py:674-677 -/
def dropTombstoned (prev : EntraSnapshot) (tombstones : List String)
    (memberships : List (String × String)) : List (String × String) :=
  memberships.filter fun e =>
    tombstones.all fun oid => decide (prev.oidToCanonical.get oid ≠ some e.2)

/-- SOURCE: entra_directory.py:640-685 -/
def reconcileDelta (prev : EntraSnapshot) (answers : GraphAnswers) : EntraSnapshot :=
  if prev.hasLinks then
    let (users, tombstones) := usersDelta lower strip config prev answers.userChanges
    let active := activeOidToCanonical lower upper users
    let memberships := groupsDelta prev answers.groupChanges active
    buildSnapshot lower upper config users (dropTombstoned prev tombstones memberships)
      (answers.nextUsersLink.or prev.usersDeltaLink)
      (answers.nextGroupsLink.or prev.groupsDeltaLink)
  else reconcile lower upper strip config answers

end Building

/-! ## The requests of a cycle -/

/-- The object ids that dropped out.
SOURCE: entra_directory.py:1014-1019 -/
def diffTombstones (prev desired : EntraSnapshot) : List String :=
  prev.oidToCanonical.keys.filter fun oid => oid ∉ desired.oidToCanonical.keys

/-- The edges of the users that dropped out, and then the users.
SOURCE: entra_directory.py:976-1011 -/
def tombstonedUserOps (tombstoned : List String) (prev : EntraSnapshot) (tenant : TenantId) :
    List AdminOp :=
  let gone := (sortDedup tombstoned).filterMap prev.oidToCanonical.get
  (gone.flatMap fun canonical =>
    ((sortedEdges prev.memberships).filter fun e => e.2 = canonical ∧ e.1 ≠ everyoneGroup).map
      fun e => .groupRemove ⟨tenant, e.1, e.2⟩) ++
    gone.map fun canonical => .deprovision ⟨tenant, canonical⟩

/-- SOURCE: entra_directory.py:1175-1199 -/
def buildCycleOps (prev desired : EntraSnapshot) (tenant : TenantId) : List AdminOp :=
  let base := buildAdminOps
    (diffSnapshots prev.toDirectorySnapshot desired.toDirectorySnapshot) tenant "entra"
  (tombstonedUserOps (diffTombstones prev desired) prev tenant).foldl
    (fun merged op => if op ∈ merged then merged else merged ++ [op]) base

/-! ## Cycles -/

/-- A cycle that is behind: the snapshots it went from and to, and how it ended. -/
structure EntraCycle where
  previous : EntraSnapshot
  desired : EntraSnapshot
  delivered : List AdminOp
  ending : Ending

/-- A cycle whose snapshot was saved. -/
structure SavedReading where
  answers : GraphAnswers
  full : Bool
  saved : EntraSnapshot

/-- The server with the snapshot as it is diffed, the snapshot of the state file, the cycles behind,
and those that the saved snapshot comes from, oldest first. -/
structure EntraSync where
  sync : DirectorySync
  snapshot : EntraSnapshot
  past : List EntraCycle
  lineage : List SavedReading

/-- A cycle, which may be interrupted, or a delta link that Graph does not honour. -/
inductive SyncEvent where
  | cycle (answers : GraphAnswers) (cut : Option Nat) (now : Time)
  | syncStateReset
deriving DecidableEq, Repr

section Cycle

variable (lower upper strip toLowercase : String → String) (lookup : MembershipGraph → SpiceDb)

/-- The alias of a call is bound to somebody else.
SOURCE: entra_directory.py:1052-1065 -/
def aliasCollision (plane : IdentityPlane) : AdminOp → Bool
  | .registryAlias req =>
    match (plane.toRegistryPlane.adminRegistryAlias toLowercase req).2 with
    | .ok response => !response.quarantined.isEmpty
    | .error _ => false
  | _ => false

/-- The calls made when the first alias collides, with the one that collides.
SOURCE: entra_directory.py:1267-1279 -/
def firstCollision (now : Time) (plane : IdentityPlane) : List AdminOp → Option Nat
  | [] => none
  | op :: ops =>
    if aliasCollision toLowercase plane op then some 1
    else
      match plane.apply toLowercase lookup now op with
      | (_, .error _) => none
      | (plane', .ok ()) => (firstCollision now plane' ops).map (· + 1)

/-- A connector stops where it dies or where an alias collides, whichever comes first. -/
def stopAt : Option Nat → Option Nat → Option Nat
  | none, m => m
  | some n, none => some n
  | some n, some m => some (min n m)

/-- The snapshot that the cycle reads.
SOURCE: entra_directory.py:1247-1251 -/
def desiredOf (config : EntraDirectoryConfig) (s : EntraSync) (answers : GraphAnswers) :
    EntraSnapshot :=
  if s.snapshot.hasLinks then reconcileDelta lower upper strip config s.snapshot answers
  else reconcile lower upper strip config answers

/-- A reset removes the state file, links and snapshot.
SOURCE: entra_directory.py:1221-1289 -/
def syncStep (config : EntraDirectoryConfig) (s : EntraSync) : SyncEvent → Option EntraSync
  | .cycle answers cut now =>
    let desired := desiredOf lower upper strip config s answers
    let ops := buildCycleOps s.snapshot desired config.tenantId
    let stop := stopAt cut (firstCollision toLowercase lookup now s.sync.plane ops)
    let applied := applyOps toLowercase lookup now s.sync.plane (sentOps ops stop)
    let completed := stop.isNone && !applied.refused
    some
      { sync := s.sync.cycle toLowercase lookup now desired.toDirectorySnapshot ops stop
        snapshot := if completed then desired else s.snapshot
        past := s.past ++ [⟨s.snapshot, desired, applied.delivered,
          if completed then .complete else .cut⟩]
        lineage :=
          if completed then
            if s.snapshot.hasLinks then s.lineage ++ [⟨answers, false, desired⟩]
            else [⟨answers, true, desired⟩]
          else s.lineage }
  | .syncStateReset =>
    some
      { sync := s.sync.forget
        snapshot := .empty
        past := s.past ++ [⟨s.snapshot, .empty, [], .forgotten⟩]
        lineage := [] }

end Cycle

/-- A server with no memberships yet, before the first cycle. -/
def EntraSync.start (plane : RegistryPlane) : EntraSync :=
  ⟨.start plane, .empty, [], []⟩

end Entra

end Verity.Model
