import Mathlib.Data.List.Dedup
import Mathlib.Data.List.Infix
import Mathlib.Data.List.Sort
import Mathlib.Data.String.Basic
import Verity.Model.Types

/-!
# The ReBAC client

Principal names, and the calls the server makes to the permission service. The service
itself is not part of the repository: `SpiceDb` is what the client sees of it, the two
lookups by name. `membershipClosure` and what is built on it are the client's own.

Object ids, which carry the tenant and escape the name, are left out here: the lookups take
and return names of the tenant they are asked about.
-/

set_option autoImplicit false

namespace Verity.Model

/-- SOURCE: rebac.rs:42-46 -/
inductive PrincipalKind where
  | user
  | group
deriving DecidableEq, Repr

/-- `str::strip_prefix`. -/
def stripStart (start s : String) : Option String :=
  if start.toList <+: s.toList then some (String.ofList (s.toList.drop start.toList.length))
  else none

theorem stripStart_eq_some {start s rest : String} :
    stripStart start s = some rest ↔ s.toList = start.toList ++ rest.toList := by
  unfold stripStart
  constructor
  · intro h
    split at h
    · rename_i hprefix
      rw [← Option.some.inj h, String.toList_ofList]
      exact (List.prefix_iff_eq_append.mp hprefix).symm
    · exact absurd h (by simp)
  · intro h
    rw [h, if_pos (List.prefix_append _ _), List.drop_left, String.ofList_toList]

/-- The rest of `s` after `start`, when there is one and it is not empty. -/
def nameAfter (start s : String) : Option String :=
  (stripStart start s).filter fun name => !name.toList.isEmpty

/-- SOURCE: rebac.rs:59-71 -/
def parsePrincipal (s : String) : Option (PrincipalKind × String) :=
  match nameAfter "user:" s with
  | some name => some (.user, name)
  | none =>
    match nameAfter "group:" s with
    | some name => some (.group, name)
    | none => none

/-- SOURCE: rebac.rs:176-184 -/
inductive RebacError where
  | transport (msg : String)
  | api (status : Nat) (body : String)
  | malformed (msg : String)
deriving DecidableEq, Repr

/-- A membership cycle is answered with this error.
SOURCE: rebac.rs:194-196 -/
def RebacError.isMaxDepth : RebacError → Bool
  | api _ body => decide ("MAXIMUM_DEPTH_EXCEEDED".toList <:+: body.toList)
  | _ => false

/-- SOURCE: rebac.rs:177-184 -/
def RebacError.text : RebacError → String
  | transport msg => "spicedb transport error: " ++ msg
  | api status body => "spicedb returned " ++ toString status ++ ": " ++ body
  | malformed msg => "spicedb response malformed: " ++ msg

/-- The permission service, as the client sees it: the groups a subject is a transitive
member of, and the users that are transitive members of a group. -/
structure SpiceDb where
  lookupResources : TenantId → PrincipalKind → String → Except RebacError (List String)
  lookupSubjects : TenantId → String → Except RebacError (List String)

def groupPrincipal (name : String) : String := "group:" ++ name

def userPrincipal (name : String) : String := "user:" ++ name

/-- `sort` followed by `dedup`. -/
def sortDedup (l : List String) : List String := (l.insertionSort (· ≤ ·)).dedup

namespace SpiceDb

/-- SOURCE: rebac.rs:485-522 -/
def membershipClosure (db : SpiceDb) (tenant : TenantId) (kind : PrincipalKind) (name : String) :
    Except RebacError (List String) := do
  let groups ← db.lookupResources tenant kind name
  pure (sortDedup (groups.map groupPrincipal))

/-- SOURCE: rebac.rs:528-535 -/
def userGroups (db : SpiceDb) (tenant : TenantId) (userName : String) :
    Except RebacError (List String) :=
  db.membershipClosure tenant .user userName

/-- The group itself is added when the lookup leaves it out.
SOURCE: rebac.rs:539-552 -/
def groupAndAncestors (db : SpiceDb) (tenant : TenantId) (groupName : String) :
    Except RebacError (List String) := do
  let set ← db.membershipClosure tenant .group groupName
  let own := groupPrincipal groupName
  pure (if set.contains own then set else set ++ [own])

/-- SOURCE: rebac.rs:557-588 -/
def groupUsers (db : SpiceDb) (tenant : TenantId) (groupName : String) :
    Except RebacError (List String) := do
  let users ← db.lookupSubjects tenant groupName
  pure (sortDedup (users.map userPrincipal))

end SpiceDb

theorem mem_sortDedup {l : List String} {s : String} : s ∈ sortDedup l ↔ s ∈ l := by
  simp [sortDedup]

theorem sortDedup_sorted (l : List String) : (sortDedup l).Pairwise (· < ·) := by
  have hle : (sortDedup l).Pairwise (· ≤ ·) :=
    (List.pairwise_insertionSort (· ≤ ·) l).sublist (List.dedup_sublist _)
  have hne : (sortDedup l).Pairwise (· ≠ ·) := List.nodup_dedup _
  exact hle.imp₂ (fun _ _ h h' => lt_of_le_of_ne h h') hne

/-- The listing of a set of texts depends on the set alone. -/
theorem sortDedup_congr {l l' : List String} (h : ∀ s, s ∈ l ↔ s ∈ l') :
    sortDedup l = sortDedup l' := by
  refine (sortDedup_sorted l).eq_of_mem_iff (sortDedup_sorted l') ?_
  intro s
  exact mem_sortDedup.trans ((h s).trans mem_sortDedup.symm)

end Verity.Model
