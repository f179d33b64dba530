import Verity.Analysis.DirectoryCycles
import Verity.Model.EntraDirectory

/-!
# Snapshots that are folded forward

After the first cycle the Entra connector never reads a group as a whole again. A membership is in
the snapshot because some cycle was told of it, or read it with everything else, and because every
cycle since has found the member active under the same address (`delta_edge_iff`). A member who was
away for one cycle, suspended or renamed, stays a member for Graph, which therefore reports nothing,
and is none in the snapshot.

`Explains` is what Graph promises of a delta: the last entry about a user or a membership is how
things are, and what no entry is about is as it was. The memberships of a deleted user are promised
nothing about.
-/

set_option autoImplicit false

namespace Verity.Analysis

open Verity.Model Verity.Foundation

namespace Entra

open Verity.Model.Entra

variable {r : SavedReading} {group canonical : String} {raw : RawUser} {answers : GraphAnswers}
  {prev : EntraSnapshot} {users : Dict String EntraUser} {s : EntraSync} {enabled : Bool}

/-! ## What the answers say -/

/-- The row that an entry of a full listing gives to an object id. -/
def userRow (oid : String) (entry : UserEntry) : Option RawUser :=
  if entry.removed ∨ entry.record.id.isEmpty ∨ entry.record.id ≠ oid then none
  else some entry.record

/-- The user of the object id. -/
def userOf (answers : GraphAnswers) (oid : String) : Option RawUser :=
  lastSet (userRow oid) answers.users

/-- What an entry of a delta makes of the user of an object id. -/
def userEntryChange (oid : String) (entry : UserEntry) : Option (Option RawUser) :=
  if entry.record.id.isEmpty ∨ entry.record.id ≠ oid then none
  else some (if entry.removed then none else some entry.record)

def userChange (answers : GraphAnswers) (oid : String) : Option (Option RawUser) :=
  lastSet (userEntryChange oid) answers.userChanges

/-- What an entry of `members@delta` makes of the membership of a user. -/
def memberChange (oid : String) (member : MemberEntry) : Option Bool :=
  if member.id = oid ∧ member.type ≠ memberTypeGroup then some !member.removed else none

/-- What an entry of a group delta makes of the membership of a user in a group. -/
def groupEntryChange (group oid : String) (entry : GroupEntry) : Option Bool :=
  if entry.id.isEmpty ∨ entry.id ≠ group then none
  else if entry.removed then some false
  else lastSet (memberChange oid) entry.memberChanges

def membershipChange (answers : GraphAnswers) (group oid : String) : Option Bool :=
  lastSet (groupEntryChange group oid) answers.groupChanges

/-- The user is a member of the group. -/
def IsMember (answers : GraphAnswers) (group oid : String) : Prop :=
  group ∈ listGroups answers.groups ∧
    ∃ m, (group, m) ∈ answers.members ∧ m.type = memberTypeUser ∧ m.id = oid

/-- What a delta promises: the last entry about a user, or about a membership of a user who is
there, is how things are now, and without one they are as they were. -/
structure Explains (old new : GraphAnswers) : Prop where
  users : ∀ oid, userOf new oid = (userChange new oid).getD (userOf old oid)
  members : ∀ group oid, (userOf new oid).isSome →
    (IsMember new group oid ↔
      (membershipChange new group oid).elim (IsMember old group oid) (· = true))

section Reading

variable (lower upper strip : String → String) (config : EntraDirectoryConfig)

/-- The user of the object id is an active member with this principal. -/
def Bears (answers : GraphAnswers) (oid canonical : String) : Prop :=
  ∃ raw, userOf answers oid = some raw ∧
    isActiveMember upper (parseUser lower strip config raw) = true ∧
    (parseUser lower strip config raw).canonical lower = canonical

/-- No two active members have an address in common. -/
def OwnAddresses (answers : GraphAnswers) : Prop :=
  ∀ oid oid' canonical, Bears lower upper strip config answers oid canonical →
    Bears lower upper strip config answers oid' canonical → oid = oid'

/-- No address passes from one to the other. -/
def KeepAddresses (old new : GraphAnswers) : Prop :=
  ∀ oid oid' canonical, Bears lower upper strip config old oid canonical →
    Bears lower upper strip config new oid' canonical → oid = oid'

end Reading

/-- Some cycle was told of the membership or read everything, and the member has been active under
the principal in it and ever since. -/
def ReadSince (lineage : List SavedReading) (group oid canonical : String) : Prop :=
  ∃ before r after, lineage = before ++ r :: after ∧
    (r.full = true ∨ (membershipChange r.answers group oid).isSome) ∧
    ∀ r' ∈ r :: after, r'.saved.oidToCanonical.get oid = some canonical

/-- With one more cycle: it is told of the membership, or was before. -/
theorem readSince_concat (lineage : List SavedReading) {oid : String}
    (hget : r.saved.oidToCanonical.get oid = some canonical) :
    ReadSince (lineage ++ [r]) group oid canonical ↔
      (r.full = true ∨ (membershipChange r.answers group oid).isSome) ∨
        ReadSince lineage group oid canonical := by
  constructor
  · rintro ⟨before, r', after, hsplit, htold, hsince⟩
    rcases split_concat hsplit with ⟨rfl, rfl, rfl⟩ | ⟨older, rfl, rfl⟩
    · exact Or.inl htold
    · refine Or.inr ⟨before, r', older, rfl, htold, fun r₀ hr₀ => hsince r₀ ?_⟩
      rw [← List.cons_append]
      exact List.mem_append_left _ hr₀
  · rintro (htold | ⟨before, r', after, rfl, htold, hsince⟩)
    · refine ⟨lineage, r, [], rfl, htold, ?_⟩
      intro r' hr'
      rw [List.mem_singleton.mp hr']
      exact hget
    · refine ⟨before, r', after ++ [r], by simp, htold, ?_⟩
      intro r₀ hr₀
      rw [← List.cons_append] at hr₀
      rcases List.mem_append.mp hr₀ with hr₀ | hr₀
      · exact hsince r₀ hr₀
      · rw [List.mem_singleton.mp hr₀]
        exact hget

/-- A membership that was read since belongs to somebody the last snapshot has. -/
theorem ReadSince.last {lineage : List SavedReading} {oid : String}
    (h : ReadSince lineage group oid canonical) (hlast : lineage.getLast? = some r) :
    r.saved.oidToCanonical.get oid = some canonical := by
  obtain ⟨before, r', after, rfl, -, hsince⟩ := h
  refine hsince r ?_
  rw [List.getLast?_append_of_ne_nil _ (by simp)] at hlast
  exact List.mem_of_getLast? hlast

/-! ## Users -/

section Users

variable {lower upper strip : String → String} {config : EntraDirectoryConfig}

theorem userRow_id {oid : String} {entry : UserEntry} (h : userRow oid entry = some raw) :
    raw.id = oid ∧ oid ≠ "" := by
  unfold userRow at h
  split at h
  · exact absurd h (by simp)
  · rename_i hnot
    obtain rfl := Option.some.inj h
    push Not at hnot
    refine ⟨hnot.2.2, ?_⟩
    rintro rfl
    exact hnot.2.1 (by rw [hnot.2.2]; rfl)

theorem userOf_id {oid : String} (h : userOf answers oid = some raw) : raw.id = oid ∧ oid ≠ "" := by
  obtain ⟨entry, -, hrow⟩ := exists_of_lastSet_eq_some h
  exact userRow_id hrow

theorem userChange_id {oid : String} (h : userChange answers oid = some (some raw)) :
    raw.id = oid := by
  obtain ⟨entry, -, hset⟩ := exists_of_lastSet_eq_some h
  unfold userEntryChange at hset
  split at hset
  · exact absurd hset (by simp)
  · rename_i hnot
    push Not at hnot
    split at hset
    · exact absurd hset (by simp)
    · rw [← Option.some.inj (Option.some.inj hset)]
      exact hnot.2

/-- The full listing has of every object id its last row. -/
theorem get_listUsers (answers : GraphAnswers) (oid : String) :
    (listUsers lower strip config answers.users).get oid =
      (userOf answers oid).map (parseUser lower strip config) := by
  have h := obs_foldl (fun users entry =>
      if entry.removed ∨ entry.record.id.isEmpty then users
      else users.set entry.record.id (parseUser lower strip config entry.record))
    (fun d : Dict String EntraUser => d.get oid)
    (fun entry => (userRow oid entry).map (some ∘ parseUser lower strip config)) ?_
    .empty answers.users
  · rw [listUsers, h, lastSet_map, Dict.get_empty, userOf]
    cases lastSet (userRow oid) answers.users <;> rfl
  · intro users entry
    unfold userRow
    by_cases hskip : entry.removed ∨ entry.record.id.isEmpty
    · rw [if_pos hskip, if_pos (by tauto)]
      rfl
    · rw [if_neg hskip, Dict.get_set]
      by_cases hid : entry.record.id = oid
      · rw [if_pos hid.symm, if_neg (by tauto)]
        rfl
      · rw [if_neg (Ne.symm hid), if_pos (by tauto)]
        rfl

theorem get_priorUsers (prev : EntraSnapshot) (oid : String) :
    (priorUsers prev).get oid = (prev.oidToCanonical.get oid).map (priorUser prev oid) := by
  refine Option.ext fun u => ?_
  have hunique : ∀ k v v',
      (k, v) ∈ prev.oidToCanonical.items.map (fun e => (e.1, priorUser prev e.1 e.2)) →
      (k, v') ∈ prev.oidToCanonical.items.map (fun e => (e.1, priorUser prev e.1 e.2)) →
      v = v' := by
    intro k v v' h h'
    obtain ⟨⟨k₁, c⟩, hc, hv⟩ := List.mem_map.mp h
    obtain ⟨⟨k₂, c'⟩, hc', hv'⟩ := List.mem_map.mp h'
    obtain ⟨rfl, rfl⟩ := Prod.mk.inj hv
    obtain ⟨rfl, rfl⟩ := Prod.mk.inj hv'
    have hsame := (Dict.mem_items.mp hc).symm.trans (Dict.mem_items.mp hc')
    rw [Option.some.inj hsame]
  rw [priorUsers, Dict.get_ofList_iff hunique, List.mem_map, Option.map_eq_some_iff]
  constructor
  · rintro ⟨⟨k, c⟩, hc, heq⟩
    obtain ⟨rfl, rfl⟩ := Prod.mk.inj heq
    exact ⟨c, Dict.mem_items.mp hc, rfl⟩
  · rintro ⟨c, hc, rfl⟩
    exact ⟨(oid, c), Dict.mem_items.mpr hc, rfl⟩

/-- A delta has of every object id its last entry, or the user of the state file. -/
theorem get_usersDelta (prev : EntraSnapshot) (answers : GraphAnswers) (oid : String) :
    (usersDelta lower strip config prev answers.userChanges).1.get oid =
      (userChange answers oid).elim ((prev.oidToCanonical.get oid).map (priorUser prev oid))
        (·.map (parseUser lower strip config)) := by
  have h := obs_foldl (applyUserEntry lower strip config)
    (fun s : Dict String EntraUser × List String => s.1.get oid)
    (fun entry => (userEntryChange oid entry).map (·.map (parseUser lower strip config))) ?_
    (priorUsers prev, []) answers.userChanges
  · rw [usersDelta, h, lastSet_map, get_priorUsers, userChange]
    cases lastSet (userEntryChange oid) answers.userChanges <;> rfl
  · intro s entry
    unfold applyUserEntry userEntryChange
    by_cases hempty : entry.record.id.isEmpty
    · rw [if_pos hempty, if_pos (Or.inl hempty)]
      rfl
    · rw [if_neg hempty]
      by_cases hid : entry.record.id = oid
      · have hmine : ¬ (entry.record.id.isEmpty = true ∨ entry.record.id ≠ oid) := by tauto
        rw [if_neg hmine]
        cases entry.removed <;> simp [Dict.get_pop, Dict.get_set, hid]
      · rw [if_pos (Or.inr hid)]
        split <;> simp [Dict.get_pop, Dict.get_set, Ne.symm hid]

/-- The tombstones are the object ids whose last entry says that the user is gone. -/
theorem mem_tombstones {oid : String} :
    oid ∈ (usersDelta lower strip config prev answers.userChanges).2 ↔
      userChange answers oid = some none := by
  have h := obs_foldl (applyUserEntry lower strip config)
    (fun s : Dict String EntraUser × List String => decide (oid ∈ s.2))
    (fun entry => (userEntryChange oid entry).map Option.isNone) ?_
    (priorUsers prev, []) answers.userChanges
  · have hlast : decide (oid ∈ (usersDelta lower strip config prev answers.userChanges).2) =
        ((userChange answers oid).map Option.isNone).getD false := by
      rw [usersDelta, h, lastSet_map, userChange]
      rfl
    rw [← decide_eq_true_iff (p := oid ∈ _), hlast]
    rcases userChange answers oid with - | - | raw <;> simp
  · intro s entry
    unfold applyUserEntry userEntryChange
    by_cases hempty : entry.record.id.isEmpty
    · rw [if_pos hempty, if_pos (Or.inl hempty)]
      rfl
    · rw [if_neg hempty]
      by_cases hid : entry.record.id = oid
      · have hmine : ¬ (entry.record.id.isEmpty = true ∨ entry.record.id ≠ oid) := by tauto
        rw [if_neg hmine]
        cases entry.removed <;> simp [hid]
      · rw [if_pos (Or.inr hid)]
        split <;> simp [Ne.symm hid]

/-- Every user is under its own object id. -/
def Keyed (users : Dict String EntraUser) : Prop :=
  ∀ oid u, users.get oid = some u → u.objectId = oid

variable (lower strip config) in
theorem keyed_listUsers (answers : GraphAnswers) :
    Keyed (listUsers lower strip config answers.users) := by
  intro oid u hu
  rw [get_listUsers, Option.map_eq_some_iff] at hu
  obtain ⟨raw, hraw, rfl⟩ := hu
  exact (userOf_id hraw).1

theorem keyed_usersDelta (prev : EntraSnapshot) (answers : GraphAnswers) :
    Keyed (usersDelta lower strip config prev answers.userChanges).1 := by
  intro oid u hu
  rw [get_usersDelta] at hu
  rcases hchange : userChange answers oid with - | - | raw <;> rw [hchange] at hu
  · obtain ⟨c, -, rfl⟩ := Option.map_eq_some_iff.mp hu
    rfl
  · exact absurd hu (by simp)
  · obtain rfl := Option.some.inj hu
    exact userChange_id hchange

theorem mem_activeMembers {u : EntraUser} :
    u ∈ activeMembers upper users ↔
      ∃ oid, users.get oid = some u ∧ isActiveMember upper u = true := by
  rw [activeMembers, List.mem_filter, Dict.mem_values]
  constructor
  · rintro ⟨⟨oid, hget⟩, hactive⟩
    exact ⟨oid, hget, hactive⟩
  · rintro ⟨oid, hget, hactive⟩
    exact ⟨⟨oid, hget⟩, hactive⟩

/-- The principals of the active members, by their object ids. -/
theorem get_activeOidToCanonical (hkeyed : Keyed users) {oid : String} :
    (activeOidToCanonical lower upper users).get oid = some canonical ↔
      ∃ u, users.get oid = some u ∧ isActiveMember upper u = true ∧
        u.canonical lower = canonical := by
  have hmem : ∀ k c, (k, c) ∈ (activeMembers upper users).map
      (fun u => (u.objectId, u.canonical lower)) ↔
      ∃ u, users.get k = some u ∧ isActiveMember upper u = true ∧ u.canonical lower = c := by
    intro k c
    simp only [List.mem_map, mem_activeMembers, Prod.mk.injEq]
    constructor
    · rintro ⟨u, ⟨oid, hget, hactive⟩, rfl, rfl⟩
      rw [hkeyed oid u hget]
      exact ⟨u, hget, hactive, rfl⟩
    · rintro ⟨u, hget, hactive, rfl⟩
      exact ⟨u, ⟨k, hget, hactive⟩, hkeyed k u hget, rfl⟩
  rw [activeOidToCanonical, Dict.get_ofList_iff, hmem]
  intro k v v' h h'
  obtain ⟨u, hu, -, rfl⟩ := (hmem k v).mp h
  obtain ⟨u', hu', -, rfl⟩ := (hmem k v').mp h'
  rw [Option.some.inj (hu.symm.trans hu')]

end Users

/-! ## Memberships -/

theorem groupPrincipal_injective {a b : String}
    (h : Entra.groupPrincipal a = Entra.groupPrincipal b) : a = b := by
  have hlist := congrArg String.toList h
  unfold Entra.groupPrincipal at hlist
  rw [String.toList_append, String.toList_append] at hlist
  exact String.toList_inj.mp ((List.append_right_inj _).mp hlist)

theorem userPrincipal_ne_groupPrincipal (email oid : String) :
    userPrincipal email ≠ Entra.groupPrincipal oid := by
  intro h
  have hlist := congrArg String.toList h
  unfold userPrincipal Entra.groupPrincipal at hlist
  rw [String.toList_append, String.toList_append] at hlist
  simp at hlist

theorem startsWith_userPrincipal (email : String) :
    startsWith (userPrincipal email) "group:entra-group-" = false := by
  rw [Bool.eq_false_iff]
  intro h
  obtain ⟨rest, hrest⟩ := startsWith_eq_true.mp h
  exact userPrincipal_ne_groupPrincipal email rest hrest

theorem everyoneGroup_ne_groupPrincipal (oid : String) :
    everyoneGroup ≠ Entra.groupPrincipal oid := by
  intro h
  have hlist := congrArg String.toList h
  unfold everyoneGroup Entra.groupPrincipal at hlist
  rw [String.toList_append] at hlist
  simp at hlist

section Memberships

variable {lower upper strip : String → String} {config : EntraDirectoryConfig}

/-- A user is in the edges of a snapshot as an active member only. -/
theorem user_edge_buildSnapshot {edges : List (String × String)}
    {usersLink groupsLink : Option String} {email : String} :
    (group, userPrincipal email) ∈
        (buildSnapshot lower upper config users edges usersLink groupsLink).memberships ↔
      (group, userPrincipal email) ∈ edges ∧
        ∃ oid, (activeOidToCanonical lower upper users).get oid = some (userPrincipal email) := by
  rw [buildSnapshot, mem_sortedEdges, List.mem_filter, startsWith_userPrincipal, Bool.false_or,
    decide_eq_true_eq, Dict.mem_values]

/-- A user is mapped to the principal of an active member. -/
theorem mapMember_eq_user {email : String} {member : MemberEntry} {active : Dict String String}
    {groups : List String} :
    mapMember group member active groups = some (userPrincipal email) ↔
      member.id ≠ "" ∧ member.type = memberTypeUser ∧
        active.get member.id = some (userPrincipal email) := by
  unfold mapMember
  by_cases hid : member.id.isEmpty
  · rw [if_pos hid]
    simp [String.isEmpty_iff.mp hid]
  · rw [if_neg hid]
    rw [String.isEmpty_iff] at hid
    by_cases huser : member.type = memberTypeUser
    · simp [hid, huser]
    · rw [if_neg huser]
      have hgroup : some (Entra.groupPrincipal member.id) ≠ some (userPrincipal email) := by
        rw [Ne, Option.some.injEq]
        exact (userPrincipal_ne_groupPrincipal email member.id).symm
      split
      · split <;> simp_all
      · simp [huser]

/-- The full reading has a user in a group whom the listing of the group has. -/
theorem user_edge_walkMemberships {groups : List String} {members : List (String × MemberEntry)}
    {email : String} :
    (Entra.groupPrincipal group, userPrincipal email) ∈
        walkMemberships lower upper users groups members ↔
      group ∈ groups ∧ ∃ m, (group, m) ∈ members ∧ m.type = memberTypeUser ∧ m.id ≠ "" ∧
        (activeOidToCanonical lower upper users).get m.id = some (userPrincipal email) := by
  simp only [walkMemberships, List.mem_flatMap, List.mem_filterMap, List.mem_filter,
    decide_eq_true_eq, Option.map_eq_some_iff, Prod.mk.injEq]
  constructor
  · rintro ⟨oid, hoid, ⟨oid', m⟩, ⟨hrow, rfl⟩, c, hmapped, hgroup, rfl⟩
    obtain rfl := groupPrincipal_injective hgroup
    obtain ⟨hid, htype, hget⟩ := mapMember_eq_user.mp hmapped
    exact ⟨hoid, m, hrow, htype, hid, hget⟩
  · rintro ⟨hoid, m, hrow, htype, hid, hget⟩
    exact ⟨group, hoid, (group, m), ⟨hrow, rfl⟩, userPrincipal email,
      mapMember_eq_user.mpr ⟨hid, htype, hget⟩, rfl, rfl⟩

section Fold

variable {active : Dict String String} {oid email : String}

/-- A member change is about the membership of a user, or leaves it as it is. -/
theorem mem_applyMemberChange (hoid : oid ≠ "")
    (howner : ∀ oid', active.get oid' = some (userPrincipal email) ↔ oid' = oid)
    (group : String) (edges : List (String × String)) (member : MemberEntry) :
    decide ((group, userPrincipal email) ∈ applyMemberChange active group edges member) =
      (memberChange oid member).getD (decide ((group, userPrincipal email) ∈ edges)) := by
  have hother : ∀ mapped, mapped ≠ userPrincipal email →
      decide ((group, userPrincipal email) ∈
        (if member.removed then edges.filter (· ≠ (group, mapped))
          else edges.insert (group, mapped))) =
        decide ((group, userPrincipal email) ∈ edges) := by
    intro mapped hne
    split <;> simp [hne.symm]
  unfold applyMemberChange mapDeltaMember memberChange
  by_cases hempty : member.id.isEmpty
  · have hne : member.id ≠ oid := fun h => hoid (h ▸ String.isEmpty_iff.mp hempty)
    simp [hempty, hne]
  · rw [if_neg hempty]
    by_cases htype : member.type = memberTypeGroup
    · have hnone : ¬ (member.id = oid ∧ member.type ≠ memberTypeGroup) := fun h => h.2 htype
      rw [if_pos htype, if_neg hnone, Option.getD_none]
      split
      · rfl
      · rename_i mapped hmapped
        refine hother mapped ?_
        split at hmapped
        · rw [← Option.some.inj hmapped]
          exact (userPrincipal_ne_groupPrincipal email member.id).symm
        · exact absurd hmapped (by simp)
    · rw [if_neg htype]
      by_cases hid : member.id = oid
      · rw [if_pos ⟨hid, htype⟩, (howner member.id).mpr hid]
        cases member.removed <;> simp
      · have hnone : ¬ (member.id = oid ∧ member.type ≠ memberTypeGroup) := fun h => hid h.1
        rw [if_neg hnone, Option.getD_none]
        split
        · rfl
        · rename_i mapped hmapped
          refine hother mapped fun hsame => hid ?_
          rw [← howner, hmapped, hsame]

/-- The changes of another group leave an edge as it is. -/
theorem mem_applyMemberChange_other {group' : String} (hgroup : group ≠ group') (c : String)
    (edges : List (String × String)) (changes : List MemberEntry) :
    (group, c) ∈ changes.foldl (applyMemberChange active group') edges ↔ (group, c) ∈ edges := by
  induction changes generalizing edges with
  | nil => exact Iff.rfl
  | cons member changes ih =>
    rw [List.foldl_cons, ih, applyMemberChange]
    split
    · exact Iff.rfl
    · split <;> simp [hgroup]

/-- After a group delta, a membership of an active member is what the last entry about it says, or
as it was. -/
theorem user_edge_groupsDelta (hoid : oid ≠ "")
    (howner : ∀ oid', active.get oid' = some (userPrincipal email) ↔ oid' = oid) :
    (Entra.groupPrincipal group, userPrincipal email) ∈
        groupsDelta prev answers.groupChanges active ↔
      (membershipChange answers group oid).elim
        ((Entra.groupPrincipal group, userPrincipal email) ∈ prev.memberships) (· = true) := by
  have hentry : ∀ (edges : List (String × String)) (entry : GroupEntry),
      decide ((Entra.groupPrincipal group, userPrincipal email) ∈
          applyGroupEntry active edges entry) =
        (groupEntryChange group oid entry).getD
          (decide ((Entra.groupPrincipal group, userPrincipal email) ∈ edges)) := by
    intro edges entry
    unfold applyGroupEntry groupEntryChange
    by_cases hempty : entry.id.isEmpty
    · rw [if_pos hempty, if_pos (Or.inl hempty), Option.getD_none]
    · rw [if_neg hempty]
      by_cases hsame : entry.id = group
      · have hmine : ¬ (entry.id.isEmpty = true ∨ entry.id ≠ group) := by tauto
        rw [if_neg hmine, hsame]
        cases entry.removed with
        | true => simp
        | false =>
          simp only [Bool.false_eq_true, if_false]
          exact obs_foldl _ (fun edges : List (String × String) =>
              decide ((Entra.groupPrincipal group, userPrincipal email) ∈ edges)) _
            (mem_applyMemberChange hoid howner _) edges entry.memberChanges
      · have hne : Entra.groupPrincipal group ≠ Entra.groupPrincipal entry.id :=
          fun h => hsame (groupPrincipal_injective h).symm
        rw [if_pos (Or.inr hsame), Option.getD_none]
        split
        · simp [hne]
        · rw [decide_eq_decide]
          exact mem_applyMemberChange_other hne _ _ _
  have hstart : (Entra.groupPrincipal group, userPrincipal email) ∈
      prev.memberships.filter (fun e => e.1 ≠ everyoneGroup) ↔
        (Entra.groupPrincipal group, userPrincipal email) ∈ prev.memberships := by
    simp [(everyoneGroup_ne_groupPrincipal group).symm]
  have hfold := obs_foldl _ (fun edges : List (String × String) =>
    decide ((Entra.groupPrincipal group, userPrincipal email) ∈ edges)) _ hentry
    (prev.memberships.filter fun e => e.1 ≠ everyoneGroup) answers.groupChanges
  rw [← decide_eq_true_iff (p := _ ∈ groupsDelta _ _ _), groupsDelta, hfold, membershipChange]
  cases lastSet (groupEntryChange group oid) answers.groupChanges with
  | none => rw [Option.getD_none, decide_eq_true_eq, hstart, Option.elim_none]
  | some b => rfl

end Fold

end Memberships

/-! ## Cycles -/

section Cycles

variable {lower upper strip toLowercase : String → String}
  {lookup : MembershipGraph → SpiceDb} {config : EntraDirectoryConfig}

/-- The snapshot is that of the last reading; its users are active members, and a user is in a group
of it as a member, of whom some reading has been told and whom every one since has found active. -/
structure Current (lower upper strip : String → String) (config : EntraDirectoryConfig)
    (lineage : List SavedReading) (s : EntraSnapshot) (r : SavedReading) : Prop where
  last : lineage.getLast? = some r
  saved : r.saved = s
  bears : ∀ oid canonical, s.oidToCanonical.get oid = some canonical →
    Bears lower upper strip config r.answers oid canonical
  gated : ∀ group email, (group, userPrincipal email) ∈ s.memberships →
    ∃ oid, s.oidToCanonical.get oid = some (userPrincipal email)
  edges : ∀ group oid email, s.oidToCanonical.get oid = some (userPrincipal email) →
    ((Entra.groupPrincipal group, userPrincipal email) ∈ s.memberships ↔
      IsMember r.answers group oid ∧ ReadSince lineage group oid (userPrincipal email))

/-- A full reading reads every membership. -/
theorem current_reconcile (hown : OwnAddresses lower upper strip config answers) :
    Current lower upper strip config
      [⟨answers, true, reconcile lower upper strip config answers⟩]
      (reconcile lower upper strip config answers)
      ⟨answers, true, reconcile lower upper strip config answers⟩ := by
  have hkeyed := keyed_listUsers lower strip config answers
  have hget : ∀ oid canonical,
      (activeOidToCanonical lower upper (listUsers lower strip config answers.users)).get oid =
        some canonical ↔ Bears lower upper strip config answers oid canonical := by
    intro oid canonical
    rw [get_activeOidToCanonical hkeyed]
    constructor
    · rintro ⟨u, hu, hactive, hcanonical⟩
      rw [get_listUsers] at hu
      obtain ⟨raw, hraw, rfl⟩ := Option.map_eq_some_iff.mp hu
      exact ⟨raw, hraw, hactive, hcanonical⟩
    · rintro ⟨raw, hraw, hactive, hcanonical⟩
      refine ⟨_, ?_, hactive, hcanonical⟩
      rw [get_listUsers, hraw, Option.map_some]
  refine ⟨rfl, rfl, fun oid canonical h => (hget oid canonical).mp h, ?_, ?_⟩
  · intro group email hedge
    exact (user_edge_buildSnapshot.mp hedge).2
  · intro group oid email howner
    have hread : ReadSince [⟨answers, true, reconcile lower upper strip config answers⟩] group oid
        (userPrincipal email) :=
      (readSince_concat [] howner).mpr (Or.inl (Or.inl rfl))
    rw [reconcile, user_edge_buildSnapshot, user_edge_walkMemberships]
    have hbears := (hget oid _).mp howner
    constructor
    · rintro ⟨⟨hlisted, m, hrow, htype, -, hmember⟩, -⟩
      refine ⟨⟨hlisted, m, hrow, htype, ?_⟩, hread⟩
      exact hown _ _ _ ((hget _ _).mp hmember) hbears
    · rintro ⟨⟨hlisted, m, hrow, htype, rfl⟩, -⟩
      obtain ⟨raw, hraw, -, -⟩ := hbears
      exact ⟨⟨hlisted, m, hrow, htype, (userOf_id hraw).2, howner⟩, m.id, howner⟩

/-- The user of the state file has the address that the state file has. -/
theorem canonical_priorUser (hidem : ∀ t, lower (lower t) = lower t) {oid text : String} :
    (priorUser prev oid (userPrincipal (lower text))).canonical lower =
      userPrincipal (lower text) := by
  have hemail : (stripStart "user:" (userPrincipal (lower text))).getD
      (userPrincipal (lower text)) = lower text := by
    rw [show stripStart "user:" (userPrincipal (lower text)) = some (lower text) from
      stripStart_eq_some.mpr (by rw [userPrincipal, String.toList_append]), Option.getD_some]
  simp only [EntraUser.canonical, EntraUser.primaryEmail, priorUser, hemail]
  rcases Option.eq_none_or_eq_some ((some (lower text)).filter fun m => !m.isEmpty) with
    hnone | ⟨m, hsome⟩
  · rw [hnone, Option.getD_none, hidem]
  · have hsame : m = lower text := (Option.some.inj (Option.filter_eq_some_iff.mp hsome).1).symm
    rw [hsome, Option.getD_some, hsame, hidem]

/-- Who is active after a delta is so for Graph. -/
theorem bears_usersDelta (hidem : ∀ t, lower (lower t) = lower t) {old new : GraphAnswers}
    (hprev : ∀ oid canonical, prev.oidToCanonical.get oid = some canonical →
      Bears lower upper strip config old oid canonical) (hexplains : Explains old new)
    {oid : String} (hget : (activeOidToCanonical lower upper
      (usersDelta lower strip config prev new.userChanges).1).get oid = some canonical) :
    Bears lower upper strip config new oid canonical := by
  rw [get_activeOidToCanonical (keyed_usersDelta prev new)] at hget
  obtain ⟨u, hu, hactive, hcanonical⟩ := hget
  rw [get_usersDelta] at hu
  have huser := hexplains.users oid
  rcases hchange : userChange new oid with - | - | raw <;> rw [hchange] at hu huser
  · obtain ⟨canonical', hold, rfl⟩ := Option.map_eq_some_iff.mp hu
    obtain ⟨raw, hraw, hactive', rfl⟩ := hprev oid canonical' hold
    refine ⟨raw, huser.trans hraw, hactive', ?_⟩
    rw [← hcanonical]
    exact (canonical_priorUser hidem).symm
  · exact absurd hu (by simp)
  · obtain rfl := Option.some.inj hu
    exact ⟨raw, huser, hactive, hcanonical⟩

/-- A delta carries a snapshot forward. -/
theorem Current.delta (hidem : ∀ t, lower (lower t) = lower t) {lineage : List SavedReading}
    {s : EntraSnapshot} (h : Current lower upper strip config lineage s r)
    (hlinks : s.hasLinks = true) (hexplains : Explains r.answers answers)
    (hown : OwnAddresses lower upper strip config answers)
    (hkeep : KeepAddresses lower upper strip config r.answers answers) :
    Current lower upper strip config
      (lineage ++ [⟨answers, false, reconcileDelta lower upper strip config s answers⟩])
      (reconcileDelta lower upper strip config s answers)
      ⟨answers, false, reconcileDelta lower upper strip config s answers⟩ := by
  have hbears : ∀ oid canonical,
      (reconcileDelta lower upper strip config s answers).oidToCanonical.get oid =
        some canonical → Bears lower upper strip config answers oid canonical := by
    intro oid canonical hget
    rw [reconcileDelta, if_pos hlinks] at hget
    exact bears_usersDelta hidem h.bears hexplains hget
  have hedge : ∀ group email,
      (group, userPrincipal email) ∈
          (reconcileDelta lower upper strip config s answers).memberships ↔
        ((group, userPrincipal email) ∈ groupsDelta s answers.groupChanges
            (activeOidToCanonical lower upper
              (usersDelta lower strip config s answers.userChanges).1) ∧
          ∀ oid, userChange answers oid = some none →
            s.oidToCanonical.get oid ≠ some (userPrincipal email)) ∧
        ∃ oid, (reconcileDelta lower upper strip config s answers).oidToCanonical.get oid =
          some (userPrincipal email) := by
    intro group email
    simp only [reconcileDelta, if_pos hlinks]
    rw [user_edge_buildSnapshot, dropTombstoned, List.mem_filter, List.all_eq_true]
    simp only [mem_tombstones, decide_eq_true_eq]
    exact Iff.rfl
  refine ⟨by rw [List.getLast?_concat], rfl, hbears, fun group email he =>
    ((hedge group email).mp he).2, ?_⟩
  intro group oid email howner
  have hmine := hbears oid _ howner
  have hpresent : (userOf answers oid).isSome := by
    obtain ⟨raw, hraw, -⟩ := hmine
    rw [hraw]
    rfl
  have honly : ∀ oid', (reconcileDelta lower upper strip config s answers).oidToCanonical.get oid' =
      some (userPrincipal email) ↔ oid' = oid := by
    intro oid'
    constructor
    · intro hget
      exact hown _ _ _ (hbears oid' _ hget) hmine
    · rintro rfl
      exact howner
  -- Whoever had the address in the state file is the one who has it now, and is not deleted.
  have hsame : ∀ oid', s.oidToCanonical.get oid' = some (userPrincipal email) → oid' = oid :=
    fun oid' hget => hkeep _ _ _ (h.bears oid' _ hget) hmine
  have hkept : ∀ oid', userChange answers oid' = some none →
      s.oidToCanonical.get oid' ≠ some (userPrincipal email) := by
    rintro oid' hgone hget
    obtain rfl := hsame oid' hget
    have huser := hexplains.users oid'
    rw [hgone] at huser
    rw [huser] at hpresent
    exact absurd hpresent (by simp)
  have hfold : (Entra.groupPrincipal group, userPrincipal email) ∈
      groupsDelta s answers.groupChanges (activeOidToCanonical lower upper
        (usersDelta lower strip config s answers.userChanges).1) ↔
      (membershipChange answers group oid).elim
        ((Entra.groupPrincipal group, userPrincipal email) ∈ s.memberships) (· = true) := by
    refine user_edge_groupsDelta ?_ ?_
    · obtain ⟨raw, hraw, -⟩ := hmine
      exact (userOf_id hraw).2
    · intro oid'
      rw [← honly oid', reconcileDelta, if_pos hlinks]
      rfl
  rw [hedge, readSince_concat _ howner, hexplains.members group oid hpresent]
  rw [show (∃ oid', (reconcileDelta lower upper strip config s answers).oidToCanonical.get oid' =
    some (userPrincipal email)) ↔ True from iff_of_true ⟨oid, howner⟩ trivial, and_true, hfold,
    and_iff_left hkept]
  cases hchange : membershipChange answers group oid with
  | some b => simp
  | none =>
    simp only [Option.elim_none, Bool.false_eq_true, Option.isSome_none, or_self, false_or]
    by_cases hbefore : s.oidToCanonical.get oid = some (userPrincipal email)
    · exact h.edges group oid email hbefore
    · refine iff_of_false ?_ ?_
      · intro hold
        obtain ⟨oid', hget⟩ := h.gated _ _ hold
        obtain rfl := hsame oid' hget
        exact hbefore hget
      · rintro ⟨-, hsince⟩
        have hlast := hsince.last h.last
        rw [h.saved] at hlast
        exact hbefore hlast

/-- What Graph and the tenant keep to when a cycle reads: addresses are not shared, and, if the
cycle reads what has changed, the changes are those since the reading of the state file and no
address has passed on since. -/
def Follows (lower upper strip : String → String) (config : EntraDirectoryConfig) (s : EntraSync) :
    SyncEvent → Prop
  | .cycle answers _ _ =>
    OwnAddresses lower upper strip config answers ∧
      (s.snapshot.hasLinks = true → ∀ r, s.lineage.getLast? = some r →
        Explains r.answers answers ∧ KeepAddresses lower upper strip config r.answers answers)
  | .syncStateReset => True

/-- The state file has nothing yet, or a current snapshot. -/
def Tracks (lower upper strip : String → String) (config : EntraDirectoryConfig)
    (s : EntraSync) : Prop :=
  (s.snapshot = .empty ∧ s.lineage = []) ∨
    ∃ r, Current lower upper strip config s.lineage s.snapshot r

/-- A sync step keeps the snapshot on track. -/
theorem tracks_syncStep (hidem : ∀ t, lower (lower t) = lower t) {s' : EntraSync} {e : SyncEvent}
    (h : Tracks lower upper strip config s) (hfollows : Follows lower upper strip config s e)
    (hstep : syncStep lower upper strip toLowercase lookup config s e = some s') :
    Tracks lower upper strip config s' := by
  cases e with
  | syncStateReset =>
    cases hstep
    exact Or.inl ⟨rfl, rfl⟩
  | cycle answers cut now =>
    obtain ⟨hown, hdelta⟩ := hfollows
    simp only [syncStep] at hstep
    cases hstep
    generalize ((stopAt _ _).isNone && !_) = completed
    cases completed with
    | false => exact h
    | true =>
      refine Or.inr ?_
      by_cases hlinks : s.snapshot.hasLinks = true
      · rcases h with ⟨hempty, -⟩ | ⟨r, hr⟩
        · rw [hempty] at hlinks
          exact absurd hlinks (by simp [EntraSnapshot.empty, EntraSnapshot.hasLinks])
        · obtain ⟨hexplains, hkeep⟩ := hdelta hlinks r hr.last
          have hnext := hr.delta hidem hlinks hexplains hown hkeep
          simp only [desiredOf, if_pos hlinks, if_true]
          exact ⟨_, hnext⟩
      · have hnext := current_reconcile hown
        simp only [desiredOf, if_neg hlinks, if_true]
        exact ⟨_, hnext⟩

/-- In every state of every run, a user is in a group of the snapshot exactly if the user is an
active member who is a member of the group, some cycle since the last full reading, or that one, has
been told of the membership, and every cycle since has found the member active under the address. -/
theorem delta_edge_iff (hidem : ∀ t, lower (lower t) = lower t) {plane : RegistryPlane}
    {events : List SyncEvent} {s : EntraSync}
    (hfollows : Along (syncStep lower upper strip toLowercase lookup config)
      (Follows lower upper strip config) (.start plane) events)
    (hrun : run (syncStep lower upper strip toLowercase lookup config) (.start plane) events =
      some s) (group email : String) :
    (Entra.groupPrincipal group, userPrincipal email) ∈ s.snapshot.memberships ↔
      ∃ r oid, s.lineage.getLast? = some r ∧
        Bears lower upper strip config r.answers oid (userPrincipal email) ∧
        IsMember r.answers group oid ∧ ReadSince s.lineage group oid (userPrincipal email) := by
  have htracks : Tracks lower upper strip config s :=
    run_invariant (fun s e s' hs he hstep => tracks_syncStep hidem hs he hstep)
      (Or.inl ⟨rfl, rfl⟩) hfollows hrun
  rcases htracks with ⟨hempty, hnone⟩ | ⟨r, hr⟩
  · rw [hempty, hnone]
    simp [EntraSnapshot.empty]
  · constructor
    · intro hedge
      obtain ⟨oid, hget⟩ := hr.gated _ _ hedge
      obtain ⟨hmember, hsince⟩ := (hr.edges group oid email hget).mp hedge
      exact ⟨r, oid, hr.last, hr.bears oid _ hget, hmember, hsince⟩
    · rintro ⟨r', oid, hlast, -, hmember, hsince⟩
      obtain rfl := Option.some.inj (hr.last.symm.trans hlast)
      have hget := hsince.last hr.last
      rw [hr.saved] at hget
      exact (hr.edges group oid email hget).mpr ⟨hmember, hsince⟩

end Cycles

/-! ### A member who was suspended once -/

def entraConfig : EntraDirectoryConfig := ⟨1, none, true⟩

/-- A user who is a member of the organisation, enabled or not. -/
def orgMember (id name : String) (enabled : Bool) : UserEntry where
  removed := false
  record := ⟨id, name, some name, some "Member", none, enabled, none, none, none, none⟩

/-- Two users in one group, the second of them enabled or not, which is what has changed. -/
def twoMembers (enabled : Bool) : GraphAnswers where
  users := [orgMember "1" "ana" true, orgMember "2" "ben" enabled]
  groups := [⟨"staff", false, []⟩]
  members := [("staff", ⟨memberTypeUser, "1", false⟩), ("staff", ⟨memberTypeUser, "2", false⟩)]
  usersLink := some "users"
  groupsLink := some "groups"
  userChanges := [orgMember "2" "ben" enabled]
  groupChanges := []
  nextUsersLink := some "users"
  nextGroupsLink := some "groups"

theorem userOf_twoMembers (enabled : Bool) (oid : String) :
    userOf (twoMembers enabled) oid =
      if oid = "2" then some (orgMember "2" "ben" enabled).record
      else if oid = "1" then some (orgMember "1" "ana" true).record else none := by
  have hempty : ∀ name, name ∈ ["1", "2"] → name.isEmpty = false := by decide
  by_cases htwo : oid = "2"
  · subst htwo
    simp [userOf, twoMembers, lastSet, userRow, orgMember, hempty]
  · by_cases hone : oid = "1"
    · subst hone
      simp [userOf, twoMembers, lastSet, userRow, orgMember, hempty]
    · simp [userOf, twoMembers, lastSet, userRow, orgMember, htwo, hone, Ne.symm htwo,
        Ne.symm hone]

theorem bears_twoMembers {oid : String}
    (h : Bears id id id entraConfig (twoMembers enabled) oid canonical) :
    (oid = "1" ∧ canonical = "user:ana") ∨ (oid = "2" ∧ canonical = "user:ben") := by
  obtain ⟨raw, hraw, -, rfl⟩ := h
  rw [userOf_twoMembers] at hraw
  split at hraw
  · rename_i hoid
    obtain rfl := Option.some.inj hraw
    exact Or.inr ⟨hoid, by cases enabled <;> decide⟩
  · split at hraw
    · rename_i hoid
      obtain rfl := Option.some.inj hraw
      exact Or.inl ⟨hoid, by decide⟩
    · exact absurd hraw (by simp)

theorem bears_twoMembers_inj {enabled' : Bool} {oid oid' : String}
    (h : Bears id id id entraConfig (twoMembers enabled) oid canonical)
    (h' : Bears id id id entraConfig (twoMembers enabled') oid' canonical) : oid = oid' := by
  rcases bears_twoMembers h with ⟨rfl, rfl⟩ | ⟨rfl, rfl⟩ <;>
    rcases bears_twoMembers h' with ⟨rfl, hsame⟩ | ⟨rfl, hsame⟩
  · rfl
  · exact absurd hsame (by decide)
  · exact absurd hsame (by decide)
  · rfl

theorem explains_twoMembers (enabled enabled' : Bool) :
    Explains (twoMembers enabled) (twoMembers enabled') := by
  constructor
  · intro oid
    rw [userOf_twoMembers, userOf_twoMembers]
    by_cases htwo : oid = "2"
    · subst htwo
      have hempty : ("2" : String).isEmpty = false := by decide
      simp [userChange, twoMembers, lastSet, userEntryChange, orgMember, hempty]
    · simp [userChange, twoMembers, lastSet, userEntryChange, orgMember, htwo, Ne.symm htwo]
  · intro group oid _
    exact Iff.rfl

/-- The readings are of the two members. -/
def ReadsTwo (s : EntraSync) : Prop :=
  ∀ r ∈ s.lineage, ∃ enabled, r.answers = twoMembers enabled

/-- Graph and the tenant keep to what they have promised. -/
theorem follows_twoMembers (h : ReadsTwo s) (enabled : Bool) (cut : Option Nat) (now : Time) :
    Follows id id id entraConfig s (.cycle (twoMembers enabled) cut now) := by
  refine ⟨fun oid oid' canonical => bears_twoMembers_inj, fun _ r hlast => ?_⟩
  obtain ⟨enabled', hanswers⟩ := h r (List.mem_of_getLast? hlast)
  rw [hanswers]
  exact ⟨explains_twoMembers enabled' enabled, fun oid oid' canonical => bears_twoMembers_inj⟩

theorem readsTwo_syncStep {s' : EntraSync} (h : ReadsTwo s) {cut : Option Nat} {now : Time}
    (hstep : syncStep id id id id exactService entraConfig s (.cycle (twoMembers enabled) cut now) =
      some s') : ReadsTwo s' := by
  simp only [syncStep] at hstep
  cases hstep
  intro r hr
  simp only at hr
  split at hr
  · split at hr
    · rcases List.mem_append.mp hr with hr | hr
      · exact h r hr
      · exact ⟨enabled, by rw [List.mem_singleton.mp hr]⟩
    · exact ⟨enabled, by rw [List.mem_singleton.mp hr]⟩
  · exact h r hr

/-- A member who is suspended between two cycles and back at the next. -/
def suspendedOnce : List SyncEvent :=
  [.cycle (twoMembers true) none 0, .cycle (twoMembers false) none 1,
    .cycle (twoMembers true) none 2]

/-- The member is active and in the group, and the snapshot has no such edge: no cycle has been told
of the membership since the suspension. -/
theorem suspended_member_loses_groups :
    ∃ s, run (syncStep id id id id exactService entraConfig) (.start GDirectory.directoryServer)
        suspendedOnce = some s ∧
      IsMember (twoMembers true) "staff" "2" ∧
      (Entra.groupPrincipal "staff", userPrincipal "ben") ∉ s.snapshot.memberships ∧
      ¬ ReadSince s.lineage "staff" "2" (userPrincipal "ben") := by
  have hrun : (run (syncStep id id id id exactService entraConfig)
      (.start GDirectory.directoryServer) suspendedOnce).map
        (fun s => (s.snapshot.memberships, s.lineage.getLast?.map (·.answers))) =
      some ([("group:entra-group-staff", "user:ana")], some (twoMembers true)) := by
    decide +kernel
  obtain ⟨s, hs, hview⟩ := Option.map_eq_some_iff.mp hrun
  obtain ⟨hmemberships, hlast⟩ := Prod.mk.inj hview
  obtain ⟨r, hr, hanswers⟩ := Option.map_eq_some_iff.mp hlast
  have hstart : ReadsTwo (.start GDirectory.directoryServer) := fun r hr => absurd hr (by
    simp [EntraSync.start])
  have hfollows : Along (syncStep id id id id exactService entraConfig)
      (Follows id id id entraConfig) (.start GDirectory.directoryServer) suspendedOnce :=
    ⟨follows_twoMembers hstart true none 0, fun s₁ h₁ =>
      have hs₁ := readsTwo_syncStep hstart h₁
      ⟨follows_twoMembers hs₁ false none 1, fun s₂ h₂ =>
        ⟨follows_twoMembers (readsTwo_syncStep hs₁ h₂) true none 2, fun _ _ => trivial⟩⟩⟩
  have hmember : IsMember (twoMembers true) "staff" "2" := by
    refine ⟨by decide, ⟨memberTypeUser, "2", false⟩, by decide, rfl, rfl⟩
  have hbears : Bears id id id entraConfig r.answers "2" (userPrincipal "ben") := by
    rw [hanswers]
    exact ⟨_, (userOf_twoMembers true "2").trans (if_pos rfl), by decide, by decide⟩
  have hout : (Entra.groupPrincipal "staff", userPrincipal "ben") ∉ s.snapshot.memberships := by
    rw [hmemberships]
    decide
  refine ⟨s, hs, hmember, hout, fun hsince => hout ?_⟩
  refine (delta_edge_iff (fun _ => rfl) hfollows hs "staff" "ben").mpr
    ⟨r, "2", hr, hbears, ?_, hsince⟩
  rw [hanswers]
  exact hmember

end Entra

end Verity.Analysis
