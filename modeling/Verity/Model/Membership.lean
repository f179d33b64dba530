import Verity.Foundation.Closure
import Verity.Model.Principals
import Verity.Model.Rebac
import Verity.Model.Revocation

/-!
# Group memberships and their deletion

The membership tuples the permission service stores for one tenant, and what the watch does
when a tuple is deleted. The schema has one relation, `group#member`, whose subjects are
users or the members of another group; a user belongs to a group along a path of tuples.

`applyDelete` runs some time after the tuple is gone, on the graph as it then is: it resolves
the group with all groups above it and writes tombstones for their tokens.
-/

set_option autoImplicit false

namespace Verity.Model

open Verity.Foundation

/-- One `group#member` tuple: `member` is in `group`.
SOURCE: rebac.rs:382-410 -/
structure Membership where
  group : String
  kind : PrincipalKind
  member : String
deriving DecidableEq, Repr

/-- A user or a group, as a node of the membership graph. -/
abbrev Node := PrincipalKind × String

/-- The tuple as an edge, from the member to the group. -/
def Membership.edge (m : Membership) : Node × Node := ((m.kind, m.member), (.group, m.group))

/-- The tuples of a tenant. -/
abbrev MembershipGraph := List Membership

namespace MembershipGraph

def edges (graph : MembershipGraph) : List (Node × Node) := graph.map Membership.edge

/-- `OPERATION_TOUCH`: writing a tuple that is there changes nothing.
SOURCE: rebac.rs:412-430 -/
def writeMembership (graph : MembershipGraph) (m : Membership) : MembershipGraph :=
  if m ∈ graph then graph else graph ++ [m]

/-- `OPERATION_DELETE`.
SOURCE: rebac.rs:432-449 -/
def deleteMembership (graph : MembershipGraph) (m : Membership) : MembershipGraph :=
  graph.filter (· ≠ m)

/-- The node is the group, or a transitive member of it. -/
def Belongs (graph : MembershipGraph) (node : Node) (group : String) : Prop :=
  Reach graph.edges node (.group, group)

end MembershipGraph

/-- The lookup of a permission service that answers exactly: the groups a subject reaches.
Whether a group's own name is among its answers is left open; the client adds it. -/
def ExactLookup (graph : MembershipGraph) (db : SpiceDb) : Prop :=
  ∀ tenant kind name, ∃ names, db.lookupResources tenant kind name = .ok names ∧
    ∀ group, (PrincipalKind.group, group) ≠ (kind, name) →
      (group ∈ names ↔ graph.Belongs (kind, name) group)

/-- A permission service that computes its answers from the tuples. -/
def exactService (graph : MembershipGraph) : SpiceDb where
  lookupResources := fun _ kind name =>
    .ok ((reachSet graph.edges (kind, name)).filterMap fun node =>
      if node.1 = .group then some node.2 else none)
  lookupSubjects := fun _ group =>
    .ok ((graph.filter fun m => m.kind = .user ∧
      (.group, group) ∈ reachSet graph.edges (.user, m.member)).map Membership.member)

theorem exactLookup_exactService (graph : MembershipGraph) :
    ExactLookup graph (exactService graph) := by
  intro tenant kind name
  refine ⟨_, rfl, ?_⟩
  intro group _
  unfold MembershipGraph.Belongs
  rw [List.mem_filterMap, ← mem_reachSet_iff]
  constructor
  · rintro ⟨⟨kind', name'⟩, hnode, hname⟩
    by_cases hkind : kind' = .group
    · simp only [hkind, if_true, Option.some.injEq] at hname
      rw [← hkind, ← hname] at *
      exact hnode
    · simp [hkind] at hname
  · intro hnode
    exact ⟨(.group, group), hnode, by simp⟩

/-- A deleted tuple, as the watch reports it; a member that does not parse is left out.
SOURCE: rebac_watch.rs:289-299 -/
structure MembershipDelete where
  tenant : TenantId
  group : String
  member : Option (PrincipalKind × String)
deriving DecidableEq, Repr

/-- SOURCE: rebac_watch.rs:95 -/
def dedupeSecs : Int := 15

/-- The principals a deletion takes away: the group and every group above it.
SOURCE: rebac_watch.rs:419-422 -/
def lostPrincipals (db : SpiceDb) (d : MembershipDelete) : Except RebacError (List String) :=
  db.groupAndAncestors d.tenant d.group

/-- The principals recorded with the tombstones, for the audit.
SOURCE: rebac_watch.rs:402-418 -/
def affectedPrincipals (db : SpiceDb) (d : MembershipDelete) : Except RebacError (List String) :=
  match d.member with
  | some (.user, name) => .ok [userPrincipal name]
  | some (.group, name) => do
      let users ← db.groupUsers d.tenant name
      pure (users ++ [groupPrincipal name])
  | none => .ok ["watch:unresolved-member"]

/-- Tokens with a tombstone of the last few seconds.
SOURCE: rebac_watch.rs:439-451 -/
def recentlyRevoked (tables : RevocationTables) (tenant : TenantId)
    (candidates : List PrincipalToken) (now : Time) : List PrincipalToken :=
  ((tables.revocations.filter fun r => r.tenantId = tenant ∧ r.token ∈ candidates ∧
    now - seconds dedupeSecs < r.instant).map RevocationRow.token).dedup

/-- SOURCE: rebac_watch.rs:381-388 -/
def dedupeLost (lost : List (String × PrincipalToken)) (recent : List PrincipalToken) :
    List (String × PrincipalToken) :=
  lost.filter fun l => !recent.contains l.2

/-- The deletion as tombstones: the tables, and the number of rows written.
SOURCE: rebac_watch.rs:397-458 -/
def applyDelete (principals : PrincipalTable) (tables : RevocationTables) (db : SpiceDb)
    (d : MembershipDelete) (now : Time) : Except RebacError (RevocationTables × Nat) := do
  let affected ← affectedPrincipals db d
  let lost ← lostPrincipals db d
  let lostTokens := principals.materialized d.tenant lost
  if lostTokens.isEmpty then pure (tables, 0)
  else
    let fresh := dedupeLost lostTokens
      (recentlyRevoked tables d.tenant (lostTokens.map Prod.snd) now)
    if fresh.isEmpty then pure (tables, 0)
    else pure (tables.record d.tenant affected fresh now, affected.length * fresh.length)

section Log

/-- A tenant's memberships over time: the tuples, the deletions that the watch has yet to
process, and those it has, with the principals each was found to take away. Deletions are
numbered in the order they were made. -/
structure MembershipLog where
  graph : MembershipGraph
  made : Nat
  pending : List (Nat × Membership)
  processed : List (Nat × List String)
deriving DecidableEq, Repr

inductive MembershipEvent where
  | add (m : Membership)
  | delete (m : Membership)
  | process (deletion : Nat × Membership)
deriving DecidableEq, Repr

/-- The log after an event; `lookup` is the permission service over the tuples it holds. Any
pending deletion may be processed next. -/
def MembershipLog.step (lookup : MembershipGraph → SpiceDb) (tenant : TenantId)
    (s : MembershipLog) : MembershipEvent → Option MembershipLog
  | .add m => some { s with graph := s.graph.writeMembership m }
  | .delete m =>
    some { s with
      graph := s.graph.deleteMembership m
      made := s.made + 1
      pending := s.pending ++ [(s.made, m)] }
  | .process deletion =>
    if deletion ∈ s.pending then
      match lostPrincipals (lookup s.graph)
          ⟨tenant, deletion.2.group, some (deletion.2.kind, deletion.2.member)⟩ with
      | .error _ => none
      | .ok lost =>
        some { s with
          pending := s.pending.erase deletion
          processed := s.processed ++ [(deletion.1, lost)] }
    else none

/-- The log over a graph, before any event. -/
def MembershipLog.start (graph : MembershipGraph) : MembershipLog where
  graph := graph
  made := 0
  pending := []
  processed := []

end Log

end Verity.Model
