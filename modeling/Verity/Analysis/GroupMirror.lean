import Verity.Foundation.Fallible
import Verity.Foundation.Run
import Verity.Model.CrmRoster

/-!
# Mirrored groups only grow

A sync cycle writes the edges of the roster it has read and deletes none. So the members a
mirrored group has in the membership graph are those of all rosters read so far
(`accumulated_run`), and the mirror is exact after a cycle if and only if nobody listed for
the group by an earlier cycle is missing from this cycle's roster.
-/

set_option autoImplicit false

namespace Verity.Analysis

open Verity.Model Verity.Foundation

variable {m : Membership} {graph : MembershipGraph} {group : String} {crosswalk : Crosswalk}
  {tenant : TenantId} {x : String} {org : SalesforceOrg} {id : String} {recordIds : List String}
  {edges : GroupMembers} {poll : SalesforcePoll} {cycle : CrmCycle} {s s' : CrmMirror}

/-! ## Principals as strings -/

theorem eq_append_of_stripStart {start s rest : String} (h : stripStart start s = some rest) :
    s = start ++ rest := by
  rw [stripStart_eq_some] at h
  apply String.toList_injective
  rw [h, String.toList_append]

/-- The string of a principal, which `parsePrincipal` reads back. -/
def principalString : PrincipalKind → String → String
  | .user, name => userPrincipal name
  | .group, name => groupPrincipal name

theorem principalString_of_parsePrincipal {s name : String} {kind : PrincipalKind}
    (h : parsePrincipal s = some (kind, name)) : principalString kind name = s := by
  have after : ∀ start, nameAfter start s = some name → start ++ name = s := by
    intro start hname
    obtain ⟨hstrip, _⟩ := Option.filter_eq_some_iff.mp hname
    exact (eq_append_of_stripStart hstrip).symm
  unfold parsePrincipal at h
  split at h
  · rename_i name' hname
    cases h
    exact after _ hname
  · split at h
    · rename_i name' hname
      cases h
      exact after _ hname
    · exact absurd h (by simp)

/-! ## The members of a group -/

/-- The principals that are direct members of a group in the graph. -/
def membersOf (graph : MembershipGraph) (group : String) : List String :=
  (graph.filter fun m => groupPrincipal m.group = group).map fun m =>
    principalString m.kind m.member

/-- A tuple that a request is read as stands for the request's own strings. -/
theorem parseMembership_ok {req : GroupMembershipRequest} (h : parseMembership req = .ok m) :
    groupPrincipal m.group = req.group ∧ principalString m.kind m.member = req.member := by
  unfold parseMembership at h
  split at h
  · rename_i groupName hgroup
    split at h
    · exact absurd h (by simp)
    · rename_i kind memberName hmember
      split at h
      · exact absurd h (by simp)
      · cases h
        exact ⟨principalString_of_parsePrincipal hgroup,
          principalString_of_parsePrincipal hmember⟩
  · exact absurd h (by simp)

theorem mem_writeMembership {m' : Membership} :
    m' ∈ graph.writeMembership m ↔ m' ∈ graph ∨ m' = m := by
  unfold MembershipGraph.writeMembership
  split
  · rename_i hin
    constructor
    · exact Or.inl
    · rintro (h | rfl)
      · exact h
      · exact hin
  · simp

theorem mem_membersOf_writeMembership {c : String} :
    c ∈ membersOf (graph.writeMembership m) group ↔
      c ∈ membersOf graph group ∨
        (groupPrincipal m.group = group ∧ principalString m.kind m.member = c) := by
  simp only [membersOf, List.mem_map, List.mem_filter, mem_writeMembership, decide_eq_true_eq]
  constructor
  · rintro ⟨m', ⟨hm' | rfl, hgroup⟩, hc⟩
    · exact Or.inl ⟨m', ⟨hm', hgroup⟩, hc⟩
    · exact Or.inr ⟨hgroup, hc⟩
  · rintro (⟨m', ⟨hm', hgroup⟩, hc⟩ | ⟨hgroup, hc⟩)
    · exact ⟨m', ⟨Or.inl hm', hgroup⟩, hc⟩
    · exact ⟨m, ⟨Or.inr rfl, hgroup⟩, hc⟩

/-! ## What a sync writes -/

theorem adminGroupAdd_ok {sv : Server} {req : GroupMembershipRequest}
    {result : Server × MembershipGraph} (h : adminGroupAdd sv graph req = .ok result) :
    ∃ m, parseMembership req = .ok m ∧ result.2 = graph.writeMembership m := by
  unfold adminGroupAdd at h
  split at h
  · exact absurd h (by simp)
  · split at h
    · exact absurd h (by simp)
    · split at h
      · exact absurd h (by simp)
      · rename_i m hparse
        cases h
        exact ⟨m, hparse, rfl⟩

theorem syncEdge_members {st st' : GroupSync} {edge : String × String}
    (h : syncEdge crosswalk tenant st edge = .ok st') (group c : String) :
    c ∈ membersOf st'.graph group ↔ c ∈ membersOf st.graph group ∨
      (edge.1 = group ∧ crosswalk.canonicalizeMember edge.2 = some c) := by
  unfold syncEdge at h
  split at h
  · rename_i hnone
    cases h
    simp [hnone]
  · rename_i canonical hsome
    split at h
    · exact absurd h (by simp)
    · rename_i server graph hadd
      cases h
      obtain ⟨m, hparse, hgraph⟩ := adminGroupAdd_ok hadd
      obtain ⟨hgroup, hmember⟩ := parseMembership_ok hparse
      dsimp only at hgraph hgroup hmember
      rw [hgraph, mem_membersOf_writeMembership, hgroup, hmember, hsome]
      simp

/-- A completed sync adds the canonical members of the roster, and changes nothing else. -/
theorem syncEdges_members {edges : List (String × String)} {st st' : GroupSync}
    (h : edges.foldlM (syncEdge crosswalk tenant) st = .ok st') (group c : String) :
    c ∈ membersOf st'.graph group ↔ c ∈ membersOf st.graph group ∨
      ∃ x, (group, x) ∈ edges ∧ crosswalk.canonicalizeMember x = some c := by
  induction edges generalizing st with
  | nil =>
    cases h
    simp
  | cons edge edges ih =>
    obtain ⟨st₁, hedge, hrest⟩ := exists_of_foldlM_cons_eq_ok h
    rw [ih hrest, syncEdge_members hedge]
    simp only [List.mem_cons]
    constructor
    · rintro ((hold | ⟨rfl, hc⟩) | ⟨x, hx, hc⟩)
      · exact Or.inl hold
      · exact Or.inr ⟨edge.2, Or.inl rfl, hc⟩
      · exact Or.inr ⟨x, Or.inr hx, hc⟩
    · rintro (hold | ⟨x, rfl | hx, hc⟩)
      · exact Or.inl (Or.inl hold)
      · exact Or.inl (Or.inr ⟨rfl, hc⟩)
      · exact Or.inr ⟨x, hx, hc⟩

theorem mem_groupEdges {groupMembers : GroupMembers} :
    (group, x) ∈ groupEdges groupMembers ↔ x ∈ MultiMap.members groupMembers group := by
  simp only [groupEdges, List.mem_flatMap, List.mem_insertionSort, List.mem_map, Prod.mk.injEq]
  constructor
  · rintro ⟨g, _, y, hy, rfl, rfl⟩
    exact hy
  · intro hx
    exact ⟨group, MultiMap.mem_keys_of_mem_members hx, x, hx, rfl, rfl⟩

/-! ## What a roster lists -/

/-- An owner of the roster with the team among the owner's teams. -/
def TeamLists (rows : List OwnerRow) (group x : String) : Prop :=
  ∃ ownerId teams teamId, (fetchOwners rows).lookup ownerId = some teams ∧ teamId ∈ teams ∧
    group = teamPrincipal teamId ∧ x = crosswalkMember ownerId

theorem mem_teamMembers {rows : List OwnerRow} :
    x ∈ MultiMap.members (teamMembers (fetchOwners rows)) group ↔ TeamLists rows group x := by
  unfold teamMembers TeamLists
  simp only [MultiMap.mem_members_addAll, MultiMap.members_empty, List.not_mem_nil, or_false,
    List.mem_flatMap, List.mem_map, Prod.mk.injEq]
  constructor
  · rintro ⟨⟨ownerId, teams⟩, hentry, teamId, hteam, rfl, rfl⟩
    exact ⟨ownerId, teams, teamId, AList.mem_lookup_iff.mpr hentry, hteam, rfl, rfl⟩
  · rintro ⟨ownerId, teams, teamId, hlookup, hteam, rfl, rfl⟩
    exact ⟨⟨ownerId, teams⟩, AList.mem_lookup_iff.mp hlookup, teamId, hteam, rfl, rfl⟩

/-- The user with this id, as a member: active, and with a subject. -/
def UserLists (org : SalesforceOrg) (userId x : String) : Prop :=
  ∃ u ∈ org.users, u.id = userId ∧ u.confers ∧ x = federationMember u.subject

/-- A `GroupMember` row of a group that was asked about: a nested group, or a user. -/
def SharedGroupLists (org : SalesforceOrg) (groupIds : List String) (group x : String) : Prop :=
  ∃ row ∈ org.groupMember, row.1 ∈ askedGroups org groupIds ∧ group = salesforceGroup row.1 ∧
    ((startsWith row.2 groupKeyStart ∧ x = salesforceGroup row.2) ∨
      (startsWith row.2 userKeyStart ∧ UserLists org row.2 x))

/-- A user of a role above the owner of one of the records. -/
def RoleLists (org : SalesforceOrg) (recordIds : List String) (group x : String) : Prop :=
  ∃ u ∈ org.users, ∃ role ∈ neededRoles org recordIds, u.userRoleId = some role ∧ u.confers ∧
    group = rolePrincipal role ∧ x = federationMember u.subject

/-- A user to whom a permission set that views all data is assigned. -/
def ViewAllLists (org : SalesforceOrg) (group x : String) : Prop :=
  group = viewAllGroup ∧
    ∃ userId ∈ org.viewAllAssignees, startsWith userId userKeyStart ∧ UserLists org userId x

/-- A list is cut into its first piece and the pieces of the rest. -/
theorem chunks_eq_cons {α : Type} {items : List α} {size : Nat} (hsize : 0 < size)
    (hitems : items ≠ []) :
    chunks items size = items.take size :: chunks (items.drop size) size := by
  have hpos : 0 < items.length := List.length_pos_of_ne_nil hitems
  have hcount : (items.length + size - 1) / size =
      ((items.drop size).length + size - 1) / size + 1 := by
    rw [List.length_drop]
    by_cases hlong : size ≤ items.length
    · have hlen : items.length + size - 1 = items.length - size + size - 1 + size := by omega
      rw [hlen, Nat.add_div_right _ hsize]
    · have hlen : items.length + size - 1 = items.length - 1 + size := by omega
      rw [hlen, Nat.add_div_right _ hsize, Nat.div_eq_of_lt (by omega),
        Nat.div_eq_of_lt (by omega)]
  unfold chunks
  rw [hcount, List.range_succ_eq_map, List.map_cons, List.map_map]
  simp only [Nat.zero_mul, List.drop_zero, List.cons.injEq, true_and]
  apply List.map_congr_left
  intro i _
  rw [Function.comp_apply, List.drop_drop, Nat.succ_mul, Nat.add_comm size]

theorem flatten_chunks {α : Type} {size : Nat} (hsize : 0 < size) (items : List α) :
    (chunks items size).flatten = items := by
  induction hlen : items.length using Nat.strong_induction_on generalizing items with
  | _ n ih =>
    by_cases hitems : items = []
    · subst hitems
      simp [chunks, Nat.div_eq_of_lt (Nat.sub_lt hsize Nat.one_pos)]
    · have hshorter : (items.drop size).length < n := by
        have hpos := List.length_pos_of_ne_nil hitems
        rw [List.length_drop]
        omega
      rw [chunks_eq_cons hsize hitems, List.flatten_cons, ih _ hshorter _ rfl,
        List.take_append_drop]

theorem shareQueryChunk_pos : 0 < shareQueryChunk := by decide

/-- The queries of a round return the rows of its groups. -/
theorem mem_groupMemberRows {batch : List String} {row : String × String} :
    row ∈ groupMemberRows org batch ↔ row ∈ org.groupMember ∧ row.1 ∈ batch := by
  have hbatch : row.1 ∈ batch ↔ ∃ chunk ∈ chunks batch shareQueryChunk, row.1 ∈ chunk := by
    rw [← List.mem_flatten, flatten_chunks shareQueryChunk_pos]
  simp only [groupMemberRows, List.mem_flatMap, List.mem_filter, decide_eq_true_eq, hbatch]
  constructor
  · rintro ⟨chunk, hchunk, hrow, hin⟩
    exact ⟨hrow, chunk, hchunk, hin⟩
  · rintro ⟨hrow, chunk, hchunk, hin⟩
    exact ⟨chunk, hchunk, hrow, hin⟩

/-- The rows the walk has collected are those of the groups it has asked about. -/
theorem expandGroups_rows {fuel : Nat} {seen frontier : List String} {rows : List (String × String)}
    (h : ∀ row, row ∈ rows ↔ row ∈ org.groupMember ∧ row.1 ∈ seen) (row : String × String) :
    row ∈ (expandGroups org fuel seen frontier rows).2 ↔
      row ∈ org.groupMember ∧ row.1 ∈ (expandGroups org fuel seen frontier rows).1 := by
  induction fuel generalizing seen frontier rows with
  | zero => exact h row
  | succ fuel ih =>
    unfold expandGroups
    split
    · exact h row
    · dsimp only
      split
      · rename_i hempty
        rw [List.isEmpty_iff.mp hempty]
        simpa using h row
      · apply ih
        intro row'
        simp only [List.mem_append, mem_groupMemberRows, h row', List.mem_dedup]
        constructor
        · rintro (⟨hrow, hseen⟩ | ⟨hrow, hbatch⟩)
          · exact ⟨hrow, Or.inl hseen⟩
          · exact ⟨hrow, Or.inr hbatch⟩
        · rintro ⟨hrow, hseen | hbatch⟩
          · exact Or.inl ⟨hrow, hseen⟩
          · exact Or.inr ⟨hrow, hbatch⟩

/-- Folding rows with distinct ids into a map finds each row under its id. -/
theorem lookup_foldl_insert {users : List SalesforceUser}
    (hnodup : (users.map SalesforceUser.id).Nodup) (byId : AList fun _ : String => SalesforceUser)
    (id : String) :
    (users.foldl (fun byId u => byId.insert u.id u) byId).lookup id =
      (users.find? fun u => u.id = id).or (byId.lookup id) := by
  induction users generalizing byId with
  | nil => simp
  | cons u users ih =>
    obtain ⟨hfresh, hrest⟩ := List.nodup_cons.mp hnodup
    rw [List.foldl_cons, ih hrest]
    by_cases hid : u.id = id
    · subst hid
      have hnone : (users.find? fun u' => u'.id = u.id) = none := by
        rw [List.find?_eq_none]
        intro u' hu' heq
        apply hfresh
        rw [← of_decide_eq_true heq]
        exact List.mem_map_of_mem hu'
      simp [hnone, AList.lookup_insert]
    · rw [AList.lookup_insert_ne (Ne.symm hid), List.find?_cons_of_neg (by simpa using hid)]

theorem usersById_lookup {ids : List String} {u : SalesforceUser} :
    (usersById org ids).lookup id = some u ↔ u ∈ org.users ∧ u.id = id ∧ id ∈ ids := by
  have hnodup : ((org.users.filter fun u => u.id ∈ ids).map SalesforceUser.id).Nodup :=
    org.users_nodup.sublist (List.filter_sublist.map _)
  have hlookup : (usersById org ids).lookup id =
      (org.users.filter fun u => u.id ∈ ids).find? fun u => u.id = id := by
    unfold usersById
    rw [lookup_foldl_insert hnodup]
    simp
  rw [hlookup]
  constructor
  · intro hfind
    obtain ⟨hu, hid⟩ := List.mem_filter.mp (List.mem_of_find?_eq_some hfind)
    obtain rfl : u.id = id := by simpa using List.find?_some hfind
    exact ⟨hu, rfl, of_decide_eq_true hid⟩
  · rintro ⟨hu, rfl, hid⟩
    have hmem : u ∈ org.users.filter fun u => u.id ∈ ids :=
      List.mem_filter.mpr ⟨hu, decide_eq_true hid⟩
    refine find?_unique hmem (decide_eq_true rfl) fun u' hu' hid' => ?_
    exact List.inj_on_of_nodup_map hnodup hu' hmem (of_decide_eq_true hid')

/-- A user key is not a group key. -/
theorem not_groupKey_of_userKey (h : startsWith id userKeyStart) :
    startsWith id groupKeyStart = false := by
  unfold startsWith at *
  obtain ⟨rest, hrest⟩ := Option.isSome_iff_exists.mp h
  rw [eq_append_of_stripStart hrest]
  unfold stripStart
  rw [if_neg]
  · rfl
  · simp [userKeyStart, groupKeyStart]

/-- Members whose users were looked up become what the source lists them as. -/
theorem edgeMember_eq_some {ids : List String} (hids : startsWith id userKeyStart → id ∈ ids) :
    edgeMember (usersById org ids) id = some x ↔
      (startsWith id groupKeyStart ∧ x = salesforceGroup id) ∨
        (startsWith id userKeyStart ∧ UserLists org id x) := by
  unfold edgeMember
  by_cases hgroup : startsWith id groupKeyStart
  · have huser : ¬ startsWith id userKeyStart := by
      intro huser
      rw [not_groupKey_of_userKey huser] at hgroup
      exact absurd hgroup (by simp)
    simp [hgroup, huser, eq_comm]
  · by_cases huser : startsWith id userKeyStart
    · rw [Bool.not_eq_true] at hgroup
      simp only [hgroup, huser, Bool.false_eq_true, if_false, if_true, false_and, false_or,
        true_and]
      constructor
      · intro h
        split at h
        · rename_i u hlookup
          obtain ⟨hu, hid, _⟩ := usersById_lookup.mp hlookup
          split at h
          · rename_i hconfers
            exact ⟨u, hu, hid, hconfers, (Option.some.inj h).symm⟩
          · exact absurd h (by simp)
        · exact absurd h (by simp)
      · rintro ⟨u, hu, hid, hconfers, rfl⟩
        rw [usersById_lookup.mpr ⟨hu, hid, hids huser⟩]
        simp [hconfers]
    · simp [hgroup, huser]

/-- The roster has what the shared lists say. -/
theorem mem_fetchRoster {userIds groupIds : List String} :
    x ∈ MultiMap.members (fetchRoster org userIds groupIds) group ↔
      SharedGroupLists org groupIds group x := by
  have hrows : ∀ row, row ∈ (expandGroups org groupExpansionMax [] groupIds.eraseDups []).2 ↔
      row ∈ org.groupMember ∧ row.1 ∈ askedGroups org groupIds := expandGroups_rows (by simp)
  unfold fetchRoster SharedGroupLists
  simp only [MultiMap.mem_members_addAll, MultiMap.members_addKeys, MultiMap.members_empty,
    List.not_mem_nil, or_false, List.mem_filterMap, Option.map_eq_some_iff, Prod.mk.injEq, hrows]
  -- a user that a row names is among the users asked about
  have hasked : ∀ row, row ∈ org.groupMember ∧ row.1 ∈ askedGroups org groupIds →
      startsWith row.2 userKeyStart → row.2 ∈ userIds ++
        ((expandGroups org groupExpansionMax [] groupIds.eraseDups []).2.map Prod.snd).filter
          fun m => !startsWith m groupKeyStart && startsWith m userKeyStart := by
    intro row hrow huser
    apply List.mem_append_right
    refine List.mem_filter.mpr ⟨List.mem_map_of_mem ((hrows row).mpr hrow), ?_⟩
    rw [not_groupKey_of_userKey huser, huser]
    rfl
  constructor
  · rintro ⟨row, hrow, member, hmember, rfl, rfl⟩
    exact ⟨row, hrow.1, hrow.2, rfl, (edgeMember_eq_some (hasked row hrow)).mp hmember⟩
  · rintro ⟨row, hrow, hgroup, rfl, hlists⟩
    exact ⟨row, ⟨hrow, hgroup⟩, x, (edgeMember_eq_some (hasked row ⟨hrow, hgroup⟩)).mpr hlists,
      rfl, rfl⟩

theorem mem_fetchRoleHierarchy :
    x ∈ MultiMap.members (fetchRoleHierarchy org recordIds) group ↔
      RoleLists org recordIds group x := by
  unfold fetchRoleHierarchy RoleLists
  simp only [MultiMap.mem_members_addAll, MultiMap.members_empty, List.not_mem_nil, or_false,
    List.mem_filterMap]
  constructor
  · rintro ⟨u, hu, hedge⟩
    split at hedge
    · exact absurd hedge (by simp)
    · rename_i role hrole
      split at hedge
      · rename_i hneeded
        cases hedge
        exact ⟨u, hu, role, hneeded.1, hrole, hneeded.2, rfl, rfl⟩
      · exact absurd hedge (by simp)
  · rintro ⟨u, hu, role, hneeded, hrole, hconfers, rfl, rfl⟩
    refine ⟨u, hu, ?_⟩
    simp [hrole, hneeded, hconfers]

theorem mem_fetchViewAllSubjects :
    x ∈ (fetchViewAllSubjects org).map federationMember ↔ ViewAllLists org viewAllGroup x := by
  unfold fetchViewAllSubjects ViewAllLists UserLists
  simp only [List.mem_map, List.mem_dedup, List.mem_filter, decide_eq_true_eq, true_and]
  constructor
  · rintro ⟨_, ⟨u, ⟨hu, ⟨hassigned, hkey⟩, hconfers⟩, rfl⟩, rfl⟩
    exact ⟨u.id, hassigned, hkey, u, hu, rfl, hconfers, rfl⟩
  · rintro ⟨_, hassigned, hkey, u, hu, rfl, hconfers, rfl⟩
    exact ⟨u.subject, ⟨u, ⟨hu, ⟨hassigned, hkey⟩, hconfers⟩, rfl⟩, rfl⟩

/-- The groups of a role fetch are roles above a record's owner. -/
theorem exists_role_of_mem_keys (h : group ∈ (fetchRoleHierarchy org recordIds).keys) :
    ∃ role ∈ neededRoles org recordIds, group = rolePrincipal role := by
  unfold fetchRoleHierarchy at h
  rw [MultiMap.mem_keys_addAll] at h
  rcases h with ⟨x, hx⟩ | h
  · obtain ⟨u, _, hedge⟩ := List.mem_filterMap.mp hx
    split at hedge
    · exact absurd hedge (by simp)
    · rename_i role _
      split at hedge
      · rename_i hneeded
        cases hedge
        exact ⟨role, hneeded.1, rfl⟩
      · exact absurd hedge (by simp)
  · exact absurd h (by simp)

/-- The character after the source's name tells the three kinds of groups apart. -/
def groupKind (group : String) : Option Char := group.toList[17]?

theorem groupKind_append (start rest : String) (h : 17 < start.toList.length) :
    groupKind (start ++ rest) = groupKind start := by
  unfold groupKind
  rw [String.toList_append, List.getElem?_append_left h]

theorem groupKind_salesforceGroup (id : String) : groupKind (salesforceGroup id) = some 'g' :=
  (groupKind_append "group:salesforce-group-" id (by decide)).trans (by decide)

theorem groupKind_rolePrincipal (id : String) : groupKind (rolePrincipal id) = some 'r' :=
  (groupKind_append "group:salesforce-role-" id (by decide)).trans (by decide)

theorem groupKind_viewAllGroup : groupKind viewAllGroup = some 'v' := by decide

theorem append_left_injective {start a b : String} (h : start ++ a = start ++ b) : a = b := by
  apply String.toList_injective
  have h' := congrArg String.toList h
  rw [String.toList_append, String.toList_append] at h'
  exact List.append_cancel_left h'

theorem rolePrincipal_injective {a b : String} (h : rolePrincipal a = rolePrincipal b) : a = b :=
  append_left_injective h

/-- What a poll lists for a group. -/
def PollLists (poll : SalesforcePoll) (group x : String) : Prop :=
  (poll.rosterDenied = false ∧ SharedGroupLists poll.org poll.groupIds group x) ∨
  (poll.rosterDenied = false ∧ poll.hierarchyDenied = false ∧
    ∃ recordIds ∈ poll.records, RoleLists poll.org recordIds group x) ∨
  (poll.viewAllDenied = false ∧ ViewAllLists poll.org group x)

/-- Edges of role groups that are as complete as a role fetch would make them. -/
def RolesComplete (org : SalesforceOrg) (edges : GroupMembers) : Prop :=
  ∀ group x role, x ∈ MultiMap.members edges group → group = rolePrincipal role →
    ∀ recordIds, role ∈ neededRoles org recordIds → RoleLists org recordIds group x

theorem mem_update_roles (hedges : RolesComplete org edges) :
    x ∈ MultiMap.members (MultiMap.update edges (fetchRoleHierarchy org recordIds)) group ↔
      x ∈ MultiMap.members edges group ∨ RoleLists org recordIds group x := by
  rw [MultiMap.mem_members_update, mem_fetchRoleHierarchy]
  intro hkey hx
  obtain ⟨role, hneeded, hgroup⟩ := exists_role_of_mem_keys hkey
  rw [mem_fetchRoleHierarchy]
  exact hedges group x role hx hgroup recordIds hneeded

theorem RolesComplete.update (hedges : RolesComplete org edges) (recordIds : List String) :
    RolesComplete org (MultiMap.update edges (fetchRoleHierarchy org recordIds)) := by
  intro group x role hx hgroup recordIds' hneeded
  rcases (mem_update_roles hedges).mp hx with hx | ⟨u, hu, role', _, hrole, hconfers, hname, hx⟩
  · exact hedges group x role hx hgroup recordIds' hneeded
  · -- the roles are the same one, and its members do not depend on the records
    obtain rfl := rolePrincipal_injective (hname.symm.trans hgroup)
    exact ⟨u, hu, role', hneeded, hrole, hconfers, hname, hx⟩

theorem mem_foldl_update {records : List (List String)} (hedges : RolesComplete org edges) :
    x ∈ MultiMap.members (records.foldl (fun edges recordIds =>
      MultiMap.update edges (fetchRoleHierarchy org recordIds)) edges) group ↔
      x ∈ MultiMap.members edges group ∨
        ∃ recordIds ∈ records, RoleLists org recordIds group x := by
  induction records generalizing edges with
  | nil => simp
  | cons recordIds records ih =>
    rw [List.foldl_cons, ih (hedges.update recordIds), mem_update_roles hedges]
    simp only [List.mem_cons, exists_eq_or_imp]
    exact or_assoc

theorem mem_resolveVisibility :
    x ∈ MultiMap.members poll.resolveVisibility group ↔
      (poll.rosterDenied = false ∧ SharedGroupLists poll.org poll.groupIds group x) ∨
      (poll.rosterDenied = false ∧ poll.hierarchyDenied = false ∧
        ∃ recordIds ∈ poll.records, RoleLists poll.org recordIds group x) := by
  unfold SalesforcePoll.resolveVisibility
  cases hroster : poll.rosterDenied with
  | true => simp
  | false =>
    have hcomplete : RolesComplete poll.org
        (fetchRoster poll.org poll.userIds poll.groupIds) := by
      intro group x role hx hgroup
      obtain ⟨row, _, _, hname, _⟩ := mem_fetchRoster.mp hx
      have hkind := congrArg groupKind (hname.symm.trans hgroup)
      rw [groupKind_salesforceGroup, groupKind_rolePrincipal] at hkind
      exact absurd hkind (by decide)
    cases hhier : poll.hierarchyDenied with
    | true => simp [mem_fetchRoster]
    | false => simp [mem_foldl_update hcomplete, mem_fetchRoster]

/-- None of the groups so far is the view-all group. -/
theorem not_mem_resolveVisibility_viewAll :
    x ∉ MultiMap.members poll.resolveVisibility viewAllGroup := by
  rw [mem_resolveVisibility]
  rintro (⟨_, row, _, _, hname, _⟩ | ⟨_, _, _, _, u, _, role, _, _, _, hname, _⟩)
  · have hkind := congrArg groupKind hname
    rw [groupKind_salesforceGroup, groupKind_viewAllGroup] at hkind
    exact absurd hkind (by decide)
  · have hkind := congrArg groupKind hname
    rw [groupKind_rolePrincipal, groupKind_viewAllGroup] at hkind
    exact absurd hkind (by decide)

theorem mem_poll_groupEdges :
    x ∈ MultiMap.members poll.groupEdges group ↔ PollLists poll group x := by
  unfold SalesforcePoll.groupEdges PollLists
  rw [← or_assoc, ← mem_resolveVisibility]
  cases hdenied : poll.viewAllDenied with
  | true => simp
  | false =>
    simp only [Bool.false_eq_true, if_false, true_and]
    have hsubjects : x ∈ (fetchViewAllSubjects poll.org).map federationMember ↔
        ViewAllLists poll.org viewAllGroup x := mem_fetchViewAllSubjects
    by_cases hgroup : group = viewAllGroup
    · subst hgroup
      rw [← hsubjects, or_iff_right not_mem_resolveVisibility_viewAll]
      split
      · rename_i hempty
        rw [List.isEmpty_iff.mp hempty]
        exact iff_of_false not_mem_resolveVisibility_viewAll List.not_mem_nil
      · rw [MultiMap.members_insert, if_pos rfl]
    · have hnot : ¬ ViewAllLists poll.org group x := fun h => hgroup h.1
      rw [or_iff_left hnot]
      split
      · rfl
      · rw [MultiMap.members_insert, if_neg hgroup]

/-! ## The mirror -/

/-- The cycle has read the group's members: every team with the owner roster, and of
Salesforce the groups asked about, the roles needed and the view-all group. -/
def Reads : CrmCycle → String → Prop
  | .hubspot owners, group => owners.isSome ∧ ∃ teamId, group = teamPrincipal teamId
  | .salesforce poll, group =>
    (poll.rosterDenied = false ∧
      ∃ id ∈ askedGroups poll.org poll.groupIds, group = salesforceGroup id) ∨
    (poll.rosterDenied = false ∧ poll.hierarchyDenied = false ∧
      ∃ recordIds ∈ poll.records, ∃ role ∈ neededRoles poll.org recordIds,
        group = rolePrincipal role) ∨
    (poll.viewAllDenied = false ∧ group = viewAllGroup)

/-- The roster the cycle has read lists the member for the group. -/
def Lists : CrmCycle → String → String → Prop
  | .hubspot owners, group, x => ∃ rows ∈ owners, TeamLists rows group x
  | .salesforce poll, group, x => PollLists poll group x

theorem mem_groupMembers : x ∈ MultiMap.members cycle.groupMembers group ↔ Lists cycle group x := by
  cases cycle with
  | hubspot owners =>
    cases owners with
    | none => simp [CrmCycle.groupMembers, Lists]
    | some rows => simp [CrmCycle.groupMembers, Lists, mem_teamMembers]
  | salesforce poll => exact mem_poll_groupEdges

/-- The canonical members the roster of a cycle lists for a group. -/
def CanonicalMember (crosswalk : Crosswalk) (cycle : CrmCycle) (group c : String) : Prop :=
  ∃ x, Lists cycle group x ∧ crosswalk.canonicalizeMember x = some c

theorem step_members (h : s.step crosswalk tenant cycle = some s') (group c : String) :
    c ∈ membersOf s'.graph group ↔
      c ∈ membersOf s.graph group ∨ CanonicalMember crosswalk cycle group c := by
  unfold CrmMirror.step at h
  split at h
  · exact absurd h (by simp)
  · rename_i st hsync
    cases h
    rw [syncEdges_members hsync]
    simp only [mem_groupEdges, mem_groupMembers, CanonicalMember]

/-- The members of a mirrored group are those of all the rosters behind. -/
def Accumulated (crosswalk : Crosswalk) (s : CrmMirror) : Prop :=
  ∀ group c, c ∈ membersOf s.graph group ↔
    ∃ cycle ∈ s.past, CanonicalMember crosswalk cycle group c

theorem past_step (h : s.step crosswalk tenant cycle = some s') : s'.past = s.past ++ [cycle] := by
  unfold CrmMirror.step at h
  split at h
  · exact absurd h (by simp)
  · cases h
    rfl

theorem getLast?_past (h : s.step crosswalk tenant cycle = some s') :
    s'.past.getLast? = some cycle := by
  rw [past_step h, List.getLast?_concat]

theorem Accumulated.step (h : Accumulated crosswalk s)
    (hstep : s.step crosswalk tenant cycle = some s') : Accumulated crosswalk s' := by
  intro group c
  rw [step_members hstep, h group c, past_step hstep]
  constructor
  · rintro (⟨earlier, hearlier, hc⟩ | hc)
    · exact ⟨earlier, List.mem_append_left _ hearlier, hc⟩
    · exact ⟨cycle, List.mem_append_right _ (List.mem_singleton_self _), hc⟩
  · rintro ⟨earlier, hearlier, hc⟩
    rcases List.mem_append.mp hearlier with hearlier | hearlier
    · exact Or.inl ⟨earlier, hearlier, hc⟩
    · rw [List.mem_singleton.mp hearlier] at hc
      exact Or.inr hc

theorem accumulated_run {server : Server} {cycles : List CrmCycle}
    (hrun : run (CrmMirror.step crosswalk tenant) (.start server) cycles = some s) :
    Accumulated crosswalk s := by
  apply run_induction (fun s cycle s' h hstep => Accumulated.step h hstep) ?_ hrun
  intro group c
  simp [CrmMirror.start, membersOf]

/-- After its last cycle, the mirror holds exactly the roster of that cycle, for every group
the cycle has read. -/
def MirrorExact (crosswalk : Crosswalk) (s : CrmMirror) : Prop :=
  ∀ cycle ∈ s.past.getLast?, ∀ group, Reads cycle group → ∀ c,
    c ∈ membersOf s.graph group ↔ CanonicalMember crosswalk cycle group c

/-- Nobody an earlier cycle listed for a group that the cycle reads has left it. -/
def NobodyLeft (crosswalk : Crosswalk) (s : CrmMirror) (cycle : CrmCycle) : Prop :=
  ∀ group, Reads cycle group → ∀ earlier ∈ s.past, ∀ c,
    CanonicalMember crosswalk earlier group c → CanonicalMember crosswalk cycle group c

/-- In every run of completed sync cycles from an empty graph, the mirror is exact after each
cycle if and only if nobody ever leaves a group between two readings of it. -/
theorem mirror_exact_iff_nobody_left (crosswalk : Crosswalk) (tenant : TenantId) (server : Server)
    (cycles : List CrmCycle) :
    (∀ past s, past <+: cycles →
      run (CrmMirror.step crosswalk tenant) (.start server) past = some s →
      MirrorExact crosswalk s) ↔
    Along (CrmMirror.step crosswalk tenant)
      (fun s cycle => (s.step crosswalk tenant cycle).isSome → NobodyLeft crosswalk s cycle)
      (.start server) cycles := by
  constructor
  · intro hexact
    rw [along_iff_forall_split]
    rintro before cycle after s rfl hrun hsome group hreads earlier hearlier c hc
    obtain ⟨s', hstep⟩ := Option.isSome_iff_exists.mp hsome
    have hrun' : run (CrmMirror.step crosswalk tenant) (.start server) (before ++ [cycle]) =
        some s' := run_append.mpr ⟨s, hrun, by simp [run, hstep]⟩
    have hmember : c ∈ membersOf s'.graph group :=
      (step_members hstep group c).mpr
        (Or.inl ((accumulated_run hrun group c).mpr ⟨earlier, hearlier, hc⟩))
    exact (hexact _ s' ⟨after, by simp⟩ hrun' cycle (getLast?_past hstep) group hreads c).mp hmember
  · rintro halong past s ⟨rest, rfl⟩ hrun
    have hpast := (along_append.mp halong).1
    rcases List.eq_nil_or_concat past with rfl | ⟨before, cycle, rfl⟩
    · cases hrun
      intro cycle hcycle
      exact absurd hcycle (by simp [CrmMirror.start])
    · rw [List.concat_eq_append] at hpast hrun
      obtain ⟨s₀, hbefore, hlast⟩ := run_append.mp hrun
      obtain ⟨_, hnext⟩ := along_append.mp hpast
      have hstep : s₀.step crosswalk tenant cycle = some s := by simpa [run] using hlast
      have hnobody := (hnext s₀ hbefore).1 (by rw [hstep]; rfl)
      intro cycle' hcycle' group hreads c
      obtain rfl : cycle' = cycle := by
        rw [getLast?_past hstep] at hcycle'
        exact (Option.some.inj hcycle').symm
      rw [step_members hstep, accumulated_run hbefore group c]
      constructor
      · rintro (⟨earlier, hearlier, hc⟩ | hc)
        · exact hnobody group hreads earlier hearlier c hc
        · exact hc
      · exact Or.inr

/-! ## A user who leaves a team -/

/-- A permission service and a tenant, nothing written yet. -/
def mirrorServer : Server where
  rebac := some (exactService [])
  allowRestrictedWithoutRebac := false
  watch := { enabled := false, connected := false, degraded := false, lastAdvanceSecs := 0 }
  watchStalenessFenceSecs := 30
  principals := PrincipalTable.empty
  revocations := RevocationTables.empty
  tenants := [1]
  purposes := []
  windowSecs := 3600

/-- Two owners, each linked to a user. -/
def ownerLinks : Crosswalk where
  byEmail := fun _ => none
  byOwner := fun id =>
    if id = "1" then some "user:ana" else if id = "2" then some "user:ben" else none

/-- Both owners on team 10, and the roster after the second has left it. -/
def teamBeforeAndAfter : List CrmCycle :=
  [.hubspot (some [⟨some "1", [some "10"]⟩, ⟨some "2", [some "10"]⟩]),
    .hubspot (some [⟨some "1", [some "10"]⟩, ⟨some "2", []⟩])]

/-- The second cycle has read the team and does not list the user who left, who is a member
of the team in the graph all the same. -/
theorem left_team_still_member :
    ∃ s, run (CrmMirror.step ownerLinks 1) (.start mirrorServer) teamBeforeAndAfter = some s ∧
      membersOf s.graph "group:hubspot-team-10" = ["user:ana", "user:ben"] ∧
      ¬ MirrorExact ownerLinks s := by
  have hrun : (run (CrmMirror.step ownerLinks 1) (.start mirrorServer) teamBeforeAndAfter).map
      (fun s => (membersOf s.graph "group:hubspot-team-10", s.past)) =
      some (["user:ana", "user:ben"], teamBeforeAndAfter) := by decide +kernel
  obtain ⟨s, hs, hview⟩ := Option.map_eq_some_iff.mp hrun
  obtain ⟨hmembers, hpast⟩ := Prod.mk.inj hview
  refine ⟨s, hs, hmembers, ?_⟩
  intro hexact
  have hlast : .hubspot (some [⟨some "1", [some "10"]⟩, ⟨some "2", []⟩]) ∈ s.past.getLast? := by
    rw [hpast]
    rfl
  have hben := (hexact _ hlast "group:hubspot-team-10" ⟨rfl, "10", by decide⟩ "user:ben").mp
    (by rw [hmembers]; simp)
  obtain ⟨x, hx, hcanonical⟩ := hben
  have hlisted := mem_groupMembers.mpr hx
  have honly : MultiMap.members (CrmCycle.hubspot (some [⟨some "1", [some "10"]⟩,
      ⟨some "2", []⟩])).groupMembers "group:hubspot-team-10" = ["hubspot-owner:1"] := by
    decide +kernel
  rw [honly, List.mem_singleton] at hlisted
  rw [hlisted] at hcanonical
  exact absurd hcanonical (by decide +kernel)

end Verity.Analysis
