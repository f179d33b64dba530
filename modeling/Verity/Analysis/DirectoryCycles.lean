import Verity.Analysis.DirectoryMirror

/-!
# Which directory cycles complete

The route that adds a membership takes users and groups. A `CUSTOMER` member stands for the whole
domain and is read as `domain:<name>`, which the route refuses, and memberships are added before any
is removed and before anyone is deprovisioned. So a cycle that is not interrupted completes exactly
when the directory lists no such member (`cycle_completes_iff`), and as long as it does, no cycle
takes anything away from anybody.
-/

set_option autoImplicit false

namespace Verity.Analysis

open Verity.Model Verity.Foundation

variable {name email : String}

/-! ## Principals that parse -/

theorem nameAfter_append (start : String) (h : name ≠ "") :
    nameAfter start (start ++ name) = some name := by
  have hstrip : stripStart start (start ++ name) = some name :=
    stripStart_eq_some.mpr String.toList_append
  have hname : (!name.toList.isEmpty) = true := by
    rw [Bool.not_eq_true', List.isEmpty_eq_false_iff]
    intro hnil
    exact h (String.toList_eq_nil_iff.mp hnil)
  unfold nameAfter
  rw [hstrip, Option.filter_some, if_pos hname]

theorem parsePrincipal_userPrincipal (h : name ≠ "") :
    parsePrincipal (userPrincipal name) = some (.user, name) := by
  unfold parsePrincipal userPrincipal
  rw [nameAfter_append "user:" h]

/-- A text that begins otherwise has no name after `start`. -/
theorem nameAfter_of_not_prefix {start s : String} (h : ¬ start.toList <+: s.toList) :
    nameAfter start s = none := by
  unfold nameAfter stripStart
  rw [if_neg h, Option.filter_none]

theorem parsePrincipal_group_of_ne (h : name ≠ "") :
    parsePrincipal (groupPrincipal name) = some (.group, name) := by
  have huser : nameAfter "user:" ("group:" ++ name) = none :=
    nameAfter_of_not_prefix (by simp [String.toList_append])
  unfold parsePrincipal groupPrincipal
  rw [huser, nameAfter_append "group:" h]

def domainPrincipal (name : String) : String := "domain:" ++ name

theorem parsePrincipal_domainPrincipal (name : String) :
    parsePrincipal (domainPrincipal name) = none := by
  have huser : nameAfter "user:" ("domain:" ++ name) = none :=
    nameAfter_of_not_prefix (by simp [String.toList_append])
  have hgroup : nameAfter "group:" ("domain:" ++ name) = none :=
    nameAfter_of_not_prefix (by simp [String.toList_append])
  unfold parsePrincipal domainPrincipal
  rw [huser, hgroup]

theorem parseMembership_domain (tenant : TenantId) (group name : String) :
    ∃ e, parseMembership ⟨tenant, group, domainPrincipal name⟩ = .error e := by
  unfold parseMembership
  split
  · rw [parsePrincipal_domainPrincipal]
    exact ⟨_, rfl⟩
  · exact ⟨_, rfl⟩

/-! ## Calls that are accepted -/

/-- A call of the tenant that names principals as its route wants them. -/
def WellFormed (tenant : TenantId) : AdminOp → Prop
  | .registryCanonical req =>
    req.tenantId = tenant ∧ ∀ row ∈ req.principals, parsePrincipal row.canonical ≠ none
  | .registryAlias req =>
    req.tenantId = tenant ∧ ∀ row ∈ req.aliases, parsePrincipal row.canonical ≠ none
  | .crosswalk req => req.tenantId = tenant ∧ parsePrincipal req.canonical ≠ none
  | .principals tenant' _ => tenant' = tenant
  | .groupAdd req => req.tenantId = tenant ∧ ∃ m, parseMembership req = .ok m
  | .groupRemove req => req.tenantId = tenant ∧ ∃ m, parseMembership req = .ok m
  | .deprovision req =>
    req.tenantId = tenant ∧ ∃ name, parsePrincipal req.principal = some (.user, name)

/-- The permission service answers every question. -/
def Answers (lookup : MembershipGraph → SpiceDb) : Prop :=
  ∀ graph tenant,
    (∀ kind name, ∃ names, (lookup graph).lookupResources tenant kind name = .ok names) ∧
    ∀ group, ∃ names, (lookup graph).lookupSubjects tenant group = .ok names

/-- The server knows the tenant, and has a permission service. -/
def ServesTenant (tenant : TenantId) (plane : IdentityPlane) : Prop :=
  tenant ∈ plane.server.tenants ∧ plane.server.rebac.isSome

section Accepted

variable {toLowercase : String → String} {lookup : MembershipGraph → SpiceDb} {now : Time}
  {plane : IdentityPlane} {tenant : TenantId}

theorem uploadRows_ok {Row : Type} {canonical : Row → String} (refusal : String)
    (upsert : Registry → Row → Option Registry) (written : Row → String)
    (quarantine : Row → QuarantinedLink) {rows : List Row}
    (h : ∀ row ∈ rows, parsePrincipal (canonical row) ≠ none) (r : Registry)
    (out : RegistryResponse) :
    ∃ out', (uploadRows canonical refusal upsert written quarantine r rows out).2 = .ok out' := by
  induction rows generalizing r out with
  | nil => exact ⟨out, rfl⟩
  | cons row rows ih =>
    have hrest := fun row' hrow' => h row' (List.mem_cons_of_mem row hrow')
    unfold uploadRows
    split
    · rename_i hnone
      exact absurd hnone (h row List.mem_cons_self)
    · split
      · exact ih hrest _ _
      · exact ih hrest _ _

theorem resolveRemoval_answered {db : SpiceDb} (principals : PrincipalTable)
    {req : GroupMembershipRequest} {m : Membership} (hparse : parseMembership req = .ok m)
    (hgroups : ∀ kind name, ∃ names, db.lookupResources req.tenantId kind name = .ok names)
    (husers : ∀ group, ∃ names, db.lookupSubjects req.tenantId group = .ok names) :
    ∃ removal, resolveRemoval db principals req = .ok removal := by
  have hlost : ∃ lost, db.groupAndAncestors req.tenantId m.group = .ok lost := by
    obtain ⟨names, hnames⟩ := hgroups .group m.group
    unfold SpiceDb.groupAndAncestors SpiceDb.membershipClosure
    rw [hnames]
    exact ⟨_, rfl⟩
  obtain ⟨lost, hlost⟩ := hlost
  obtain ⟨names, hnames⟩ := husers m.member
  unfold resolveRemoval
  rw [hparse]
  simp only [hlost, SpiceDb.groupUsers, hnames]
  cases m.kind <;> exact ⟨_, rfl⟩

variable (toLowercase now) in
/-- A well-formed call is accepted by a server that serves the tenant. -/
theorem apply_wellFormed (hanswers : Answers lookup) (hserving : ServesTenant tenant plane)
    {op : AdminOp} (h : WellFormed tenant op) :
    (plane.apply toLowercase lookup now op).2 = .ok () := by
  obtain ⟨htenant, hrebac⟩ := hserving
  obtain ⟨db, hdb⟩ := Option.isSome_iff_exists.mp hrebac
  have hserves : (plane.serving lookup).rebac = some (lookup plane.graph) := by
    simp [IdentityPlane.serving, hdb]
  cases op with
  | registryCanonical req =>
    obtain ⟨rfl, hrows⟩ := h
    simp only [IdentityPlane.apply, RegistryPlane.adminRegistryCanonical, htenant, not_true,
      if_false]
    obtain ⟨out, hout⟩ := uploadRows_ok _ _ _ _ hrows plane.registry ⟨[], []⟩
    rw [hout]
    rfl
  | registryAlias req =>
    obtain ⟨rfl, hrows⟩ := h
    simp only [IdentityPlane.apply, RegistryPlane.adminRegistryAlias, htenant, not_true, if_false]
    obtain ⟨out, hout⟩ := uploadRows_ok _ _ _ _ hrows plane.registry ⟨[], []⟩
    rw [hout]
    rfl
  | crosswalk req =>
    obtain ⟨rfl, hparse⟩ := h
    simp only [IdentityPlane.apply, IdentityPlane.adminCrosswalkLink, htenant, not_true, if_false]
    split
    · rename_i hnone
      exact absurd hnone hparse
    · rfl
  | principals tenant' principals =>
    obtain rfl : tenant' = tenant := h
    simp only [IdentityPlane.apply, IdentityPlane.adminPrincipals, htenant, not_true, if_false]
  | groupAdd req =>
    obtain ⟨rfl, m, hparse⟩ := h
    have hadd : ∃ result, adminGroupAdd (plane.serving lookup) plane.graph req = .ok result := by
      unfold adminGroupAdd
      rw [hserves, hparse]
      simp only [IdentityPlane.serving, htenant, not_true, if_false]
      exact ⟨_, rfl⟩
    obtain ⟨result, hresult⟩ := hadd
    simp only [IdentityPlane.apply, IdentityPlane.addMembership, hresult]
  | groupRemove req =>
    obtain ⟨rfl, m, hparse⟩ := h
    obtain ⟨hgroups, husers⟩ := hanswers plane.graph req.tenantId
    obtain ⟨removal, hresolve⟩ :=
      resolveRemoval_answered plane.server.principals hparse hgroups husers
    have hremove : ∃ result,
        adminGroupRemove (plane.serving lookup) plane.graph req now = .ok result := by
      unfold adminGroupRemove
      rw [hserves]
      simp only [IdentityPlane.serving, htenant, not_true, if_false, hresolve]
      exact ⟨_, rfl⟩
    obtain ⟨result, hresult⟩ := hremove
    simp only [IdentityPlane.apply, IdentityPlane.removeMembership, hresult]
  | deprovision req =>
    obtain ⟨rfl, name, hparse⟩ := h
    simp only [IdentityPlane.apply, IdentityPlane.deprovision, RegistryPlane.adminDeprovision,
      htenant, not_true, if_false, hparse]

/-- A call for a membership that is read as none is refused. -/
theorem apply_refuses {req : GroupMembershipRequest} {e : HandlerError}
    (hparse : parseMembership req = .error e) :
    ∃ e', (plane.apply toLowercase lookup now (.groupAdd req)).2 = .error e' := by
  have hadd : ∃ e', adminGroupAdd (plane.serving lookup) plane.graph req = .error e' := by
    unfold adminGroupAdd
    split
    · exact ⟨_, rfl⟩
    · split
      · exact ⟨_, rfl⟩
      · rw [hparse]
        exact ⟨_, rfl⟩
  obtain ⟨e', he'⟩ := hadd
  exact ⟨e', by simp only [IdentityPlane.apply, IdentityPlane.addMembership, he']⟩

variable (toLowercase lookup now) in
theorem servesTenant_apply (hserving : ServesTenant tenant plane) (op : AdminOp) :
    ServesTenant tenant (plane.apply toLowercase lookup now op).1 := by
  cases op with
  | registryCanonical req =>
    simp only [IdentityPlane.apply, RegistryPlane.adminRegistryCanonical]
    split <;> exact hserving
  | registryAlias req =>
    simp only [IdentityPlane.apply, RegistryPlane.adminRegistryAlias]
    split <;> exact hserving
  | crosswalk req =>
    simp only [IdentityPlane.apply, IdentityPlane.adminCrosswalkLink]
    split
    · exact hserving
    · split <;> exact hserving
  | principals tenant' principals =>
    simp only [IdentityPlane.apply, IdentityPlane.adminPrincipals]
    split <;> exact hserving
  | groupAdd req =>
    simp only [IdentityPlane.apply, IdentityPlane.addMembership]
    split <;> exact hserving
  | groupRemove req =>
    simp only [IdentityPlane.apply, IdentityPlane.removeMembership]
    split <;> exact hserving
  | deprovision req =>
    simp only [IdentityPlane.apply, IdentityPlane.deprovision]
    split
    · exact hserving
    · rename_i registryPlane token hdeprovision
      unfold RegistryPlane.adminDeprovision at hdeprovision
      split at hdeprovision
      · exact absurd (congrArg Prod.snd hdeprovision) (by simp)
      · split at hdeprovision
        · obtain rfl := (congrArg Prod.fst hdeprovision).symm
          exact hserving
        · exact absurd (congrArg Prod.snd hdeprovision) (by simp)

variable (toLowercase now) in
/-- Well-formed calls are all delivered. -/
theorem applyOps_wellFormed (hanswers : Answers lookup) {ops : List AdminOp}
    (h : ∀ op ∈ ops, WellFormed tenant op) (hserving : ServesTenant tenant plane) :
    (applyOps toLowercase lookup now plane ops).refused = false := by
  induction ops generalizing plane with
  | nil => rfl
  | cons op ops ih =>
    have hok := apply_wellFormed toLowercase now hanswers hserving
      (h op List.mem_cons_self)
    have hstill := servesTenant_apply toLowercase lookup now
      hserving op
    unfold applyOps
    split
    · rename_i plane' e happly
      rw [happly] at hok
      exact absurd hok (by simp)
    · rename_i plane' happly
      rw [happly] at hstill
      exact ih (fun op' hop' => h op' (List.mem_cons_of_mem op hop')) hstill

/-- A call that no server accepts ends the delivery before it. -/
theorem applyOps_refused {op : AdminOp}
    (hrefused : ∀ plane : IdentityPlane, ∃ e, (plane.apply toLowercase lookup now op).2 = .error e)
    (before after : List AdminOp) (plane : IdentityPlane) :
    (applyOps toLowercase lookup now plane (before ++ op :: after)).refused = true ∧
      (applyOps toLowercase lookup now plane (before ++ op :: after)).delivered <+: before := by
  induction before generalizing plane with
  | nil =>
    obtain ⟨e, he⟩ := hrefused plane
    rw [List.nil_append, applyOps]
    split
    · exact ⟨rfl, List.prefix_rfl⟩
    · rename_i plane' happly
      rw [happly] at he
      exact absurd he (by simp)
  | cons first before ih =>
    rw [List.cons_append, applyOps]
    split
    · exact ⟨rfl, List.nil_prefix⟩
    · rename_i plane' happly
      obtain ⟨hstops, hinitial⟩ := ih plane'
      exact ⟨hstops, (List.prefix_cons_inj first).mpr hinitial⟩

end Accepted

/-! ## Cycles over readings -/

/-- A call that takes something away from somebody. -/
def IsWithdrawal : AdminOp → Prop
  | .groupRemove _ => True
  | .deprovision _ => True
  | _ => False

/-- Memberships that the group routes take, of users with an address. -/
structure SnapshotDeliverable (s : DirectorySnapshot) : Prop where
  memberships : ∀ e ∈ s.memberships, ∀ tenant, ∃ m, parseMembership ⟨tenant, e.1, e.2⟩ = .ok m
  emails : ∀ email ∈ s.emails, email ≠ ""

theorem snapshotDeliverable_empty : SnapshotDeliverable .empty := by
  constructor
  · intro e he
    exact absurd he (by simp [DirectorySnapshot.empty])
  · intro email hemail
    exact absurd hemail (by simp [DirectorySnapshot.empty, DirectorySnapshot.emails])

section Diffs

variable {previous desired : DirectorySnapshot} {tenant : TenantId} {source : String}

theorem wellFormed_buildRegistryOps {users : List DirectoryUser}
    (h : ∀ u ∈ users, u.primaryEmail ≠ "") :
    ∀ op ∈ buildRegistryOps users tenant source, WellFormed tenant op := by
  have hcanonical : ∀ u ∈ users, parsePrincipal u.canonical ≠ none := by
    intro u hu
    unfold DirectoryUser.canonical
    rw [parsePrincipal_userPrincipal (h u hu)]
    simp
  intro op hop
  unfold buildRegistryOps at hop
  split at hop
  · exact absurd hop (by simp)
  · rcases List.mem_cons.mp hop with rfl | hop
    · refine ⟨rfl, ?_⟩
      intro row hrow
      obtain ⟨u, hu, rfl⟩ := List.mem_map.mp hrow
      exact hcanonical u hu
    · rcases List.mem_append.mp hop with hop | hop
      · split at hop
        · exact absurd hop (by simp)
        · rw [List.mem_singleton.mp hop]
          refine ⟨rfl, ?_⟩
          intro row hrow
          obtain ⟨u, hu, hrow⟩ := List.mem_flatMap.mp hrow
          obtain ⟨a, -, rfl⟩ := List.mem_map.mp hrow
          exact hcanonical u hu
      · obtain ⟨u, hu, rfl⟩ := List.mem_map.mp hop
        exact ⟨rfl, hcanonical u (List.mem_filter.mp hu).1⟩

theorem mem_deprovisioned :
    email ∈ (diffSnapshots previous desired).deprovisioned ↔
      email ∈ previous.emails ∧ email ∉ desired.emails := by
  unfold diffSnapshots
  rw [mem_sortDedup, List.mem_filter, decide_eq_true_eq]

variable (source) in
/-- The calls that take one deliverable snapshot to another are all well formed. -/
theorem wellFormed_buildAdminOps (hprevious : SnapshotDeliverable previous)
    (hdesired : SnapshotDeliverable desired) :
    ∀ op ∈ buildAdminOps (diffSnapshots previous desired) tenant source, WellFormed tenant op := by
  intro op hop
  simp only [buildAdminOps, List.mem_append, List.mem_map] at hop
  rcases hop with (((hop | hop) | ⟨e, he, rfl⟩) | ⟨e, he, rfl⟩) | ⟨email, hemail, rfl⟩
  · refine wellFormed_buildRegistryOps ?_ op hop
    intro u hu
    refine hdesired.emails _ (List.mem_map_of_mem ?_)
    exact (List.mem_filter.mp hu).1
  · split at hop
    · exact absurd hop (by simp)
    · rw [List.mem_singleton.mp hop]
      rfl
  · exact ⟨rfl, hdesired.memberships e (mem_addedMemberships.mp he).1 tenant⟩
  · exact ⟨rfl, hprevious.memberships e (mem_removedMemberships.mp he).1 tenant⟩
  · exact ⟨rfl, email,
      parsePrincipal_userPrincipal (hprevious.emails email (mem_deprovisioned.mp hemail).1)⟩

theorem not_isWithdrawal_buildRegistryOps {users : List DirectoryUser} :
    ∀ op ∈ buildRegistryOps users tenant source, ¬ IsWithdrawal op := by
  intro op hop
  unfold buildRegistryOps at hop
  split at hop
  · exact absurd hop (by simp)
  · rcases List.mem_cons.mp hop with rfl | hop
    · exact id
    · rcases List.mem_append.mp hop with hop | hop
      · split at hop
        · exact absurd hop (by simp)
        · rw [List.mem_singleton.mp hop]
          exact id
      · obtain ⟨u, -, rfl⟩ := List.mem_map.mp hop
        exact id

variable (tenant source) in
/-- The calls up to one that adds a membership take nothing away. -/
theorem split_at_groupAdd {diff : SyncDiff} {e : String × String} (he : e ∈ diff.addedMemberships) :
    ∃ before after, buildAdminOps diff tenant source =
        before ++ .groupAdd ⟨tenant, e.1, e.2⟩ :: after ∧ ∀ op ∈ before, ¬ IsWithdrawal op := by
  obtain ⟨earlier, later, hadds⟩ := List.append_of_mem he
  refine ⟨buildRegistryOps diff.registryUsers tenant source ++
      (if diff.addedPrincipals.isEmpty then [] else [.principals tenant diff.addedPrincipals]) ++
      (earlier.map fun e => .groupAdd ⟨tenant, e.1, e.2⟩),
    (later.map fun e => .groupAdd ⟨tenant, e.1, e.2⟩) ++
      (diff.removedMemberships.map fun e => .groupRemove ⟨tenant, e.1, e.2⟩) ++
      (diff.deprovisioned.map fun email => .deprovision ⟨tenant, userPrincipal email⟩), ?_, ?_⟩
  · unfold buildAdminOps
    rw [hadds]
    simp
  · intro op hop
    simp only [List.mem_append, List.mem_map] at hop
    rcases hop with (hop | hop) | ⟨e, -, rfl⟩
    · exact not_isWithdrawal_buildRegistryOps op hop
    · split at hop
      · exact absurd hop (by simp)
      · rw [List.mem_singleton.mp hop]
        exact id
    · exact id

end Diffs

namespace GDirectory

open Verity.Model.GDirectory

variable {d : Directory} {lower strip toLowercase : String → String} {config : GDirectoryConfig}

/-! ### What a reading holds -/

/-- Every active user is under an address of its own, which is not empty. -/
theorem listUsers_spec (rows : List UserRow) :
    ∀ email u, (listUsers lower strip rows).lookup email = some u →
      email ≠ "" ∧ u.primaryEmail = email := by
  suffices h : ∀ active : AList fun _ : String => DirectoryUser,
      (∀ email u, active.lookup email = some u → email ≠ "" ∧ u.primaryEmail = email) →
      ∀ email u, (rows.foldl (fun active row =>
        let email := lower row.primaryEmail
        if email.isEmpty ∨ row.suspended ∨ row.archived then active
        else active.insert email ⟨row.id, email, collectAliases lower strip row⟩)
        active).lookup email = some u → email ≠ "" ∧ u.primaryEmail = email by
    exact h ∅ (by simp)
  induction rows with
  | nil => exact fun active h => h
  | cons row rows ih =>
    intro active h
    rw [List.foldl_cons]
    refine ih _ ?_
    dsimp only
    split
    · exact h
    · rename_i hactive
      intro email u hlookup
      by_cases hemail : email = lower row.primaryEmail
      · rw [hemail, AList.lookup_insert] at hlookup
        obtain rfl := Option.some.inj hlookup
        rw [hemail]
        refine ⟨?_, rfl⟩
        intro hempty
        exact hactive (Or.inl (String.isEmpty_iff.mpr hempty))
      · rw [AList.lookup_insert_ne hemail] at hlookup
        exact h email u hlookup

theorem ne_empty_of_mem_listUsers {rows : List UserRow}
    (h : email ∈ (listUsers lower strip rows).keys) : email ≠ "" := by
  obtain ⟨u, hu⟩ := Option.isSome_iff_exists.mp (AList.lookup_isSome.mpr h)
  exact (listUsers_spec rows email u hu).1

theorem ne_empty_of_mem_listGroups {groups : List String} (h : email ∈ listGroups lower groups) :
    email ≠ "" := by
  unfold listGroups at h
  rw [mem_sortDedup, List.mem_filter, Bool.not_eq_true'] at h
  intro hempty
  rw [hempty] at h
  exact absurd h.2 (by decide)

theorem emails_reconcile (h : email ∈ (reconcile lower strip config d).emails) :
    email ∈ (listUsers lower strip d.users).keys := by
  unfold DirectorySnapshot.emails reconcile at h
  obtain ⟨u, hu, rfl⟩ := List.mem_map.mp h
  obtain ⟨email, hkey, hlookup⟩ := List.mem_filterMap.mp hu
  rw [(listUsers_spec d.users email u hlookup).2]
  exact (List.mem_insertionSort _).mp hkey

/-- A membership of a reading is one of a listed group, as its row is mapped. -/
theorem mem_memberships_reconcile {e : String × String} :
    e ∈ (reconcile lower strip config d).memberships ↔
      ∃ email ∈ listGroups lower d.groups, e.1 = groupPrincipal email ∧
        ∃ row ∈ d.members, row.1 = email ∧
          mapMember lower config.domain (listUsers lower strip d.users).keys
            (listGroups lower d.groups) (groupPrincipal email) row.2 = some e.2 := by
  unfold reconcile directEdges
  simp only [mem_sortedEdges, List.mem_flatMap, List.mem_filterMap, List.mem_filter,
    decide_eq_true_eq, Option.map_eq_some_iff]
  constructor
  · rintro ⟨email, hgroup, row, ⟨hrow, hkey⟩, member, hmember, rfl⟩
    exact ⟨email, hgroup, rfl, row, hrow, hkey, hmember⟩
  · rintro ⟨email, hgroup, hfirst, row, hrow, hkey, hmember⟩
    exact ⟨email, hgroup, row, ⟨hrow, hkey⟩, e.2, hmember, Prod.ext hfirst.symm rfl⟩

/-- A member is an active user, another listed group, or the whole domain. -/
theorem mapMember_eq_some {domain : Option String} {active groups : List String} {group c : String}
    {row : MemberRow} (h : mapMember lower domain active groups group row = some c) :
    (∃ email ∈ active, c = userPrincipal email) ∨
      (∃ email ∈ groups, groupPrincipal email ≠ group ∧ c = groupPrincipal email) ∨
      (row.type = "CUSTOMER" ∧ ∃ name, domain = some name ∧ name ≠ "" ∧
        c = domainPrincipal (lower name)) := by
  unfold mapMember at h
  dsimp only at h
  split at h
  · split at h
    · rename_i hactive
      exact Or.inl ⟨_, hactive, (Option.some.inj h).symm⟩
    · exact absurd h (by simp)
  · split at h
    · split at h
      · rename_i hknown
        exact Or.inr (Or.inl ⟨_, hknown.1, hknown.2, (Option.some.inj h).symm⟩)
      · exact absurd h (by simp)
    · split at h
      · rename_i htype
        obtain ⟨name, hname, rfl⟩ := Option.map_eq_some_iff.mp h
        obtain ⟨hdomain, hne⟩ := Option.filter_eq_some_iff.mp hname
        refine Or.inr (Or.inr ⟨htype, name, hdomain, ?_, rfl⟩)
        rintro rfl
        exact absurd hne (by decide)
      · exact absurd h (by simp)

/-- A listed group has the whole domain as a member, and the connector is told its name. -/
def ListsDomain (lower : String → String) (config : GDirectoryConfig) (d : Directory) : Prop :=
  (∃ name, config.domain = some name ∧ name ≠ "") ∧
    ∃ row ∈ d.members, row.1 ∈ listGroups lower d.groups ∧ row.2.type = "CUSTOMER"

variable (strip) in
theorem listsDomain_iff :
    ListsDomain lower config d ↔
      ∃ e ∈ (reconcile lower strip config d).memberships, ∃ name, e.2 = domainPrincipal name := by
  constructor
  · rintro ⟨⟨name, hname, hne⟩, row, hrow, hgroup, htype⟩
    have hfilter : (some name).filter (fun d : String => !d.isEmpty) = some name := by
      rw [Option.filter_some, if_pos]
      rw [Bool.not_eq_true']
      exact Bool.eq_false_iff.mpr fun h => hne (String.isEmpty_iff.mp h)
    refine ⟨(groupPrincipal row.1, domainPrincipal (lower name)), ?_, lower name, rfl⟩
    refine mem_memberships_reconcile.mpr ⟨row.1, hgroup, rfl, row, hrow, rfl, ?_⟩
    simp [mapMember, htype, hname, hfilter, domainPrincipal]
  · rintro ⟨e, he, name, hname⟩
    obtain ⟨email, hgroup, -, row, hrow, rfl, hmember⟩ := mem_memberships_reconcile.mp he
    rw [hname] at hmember
    rcases mapMember_eq_some hmember with
      ⟨u, -, hu⟩ | ⟨g, -, -, hg⟩ | ⟨htype, name', hdomain, hne, -⟩
    · have hlist := congrArg String.toList hu
      simp [domainPrincipal, userPrincipal, String.toList_append] at hlist
    · have hlist := congrArg String.toList hg
      simp [domainPrincipal, groupPrincipal, String.toList_append] at hlist
    · exact ⟨⟨name', hdomain, hne⟩, row, hrow, hgroup, htype⟩

variable (strip) in
/-- A reading without the whole domain can be delivered. -/
theorem snapshotDeliverable_reconcile (h : ¬ ListsDomain lower config d) :
    SnapshotDeliverable (reconcile lower strip config d) := by
  constructor
  · intro e he tenant
    have hnot : ∀ name, e.2 ≠ domainPrincipal name := by
      intro name hname
      exact h ((listsDomain_iff strip).mpr ⟨e, he, name, hname⟩)
    obtain ⟨email, hgroup, hfirst, row, -, -, hmember⟩ := mem_memberships_reconcile.mp he
    have hparse := parsePrincipal_group_of_ne (ne_empty_of_mem_listGroups hgroup)
    unfold parseMembership
    rw [hfirst, hparse]
    rcases mapMember_eq_some hmember with ⟨u, hu, hc⟩ | ⟨g, hg, hne, hc⟩ | ⟨-, name, -, -, hc⟩
    · rw [hc]
      dsimp only
      rw [parsePrincipal_userPrincipal (ne_empty_of_mem_listUsers hu)]
      simp
    · have hother : g ≠ email := by
        rintro rfl
        exact hne rfl
      rw [hc]
      dsimp only
      rw [parsePrincipal_group_of_ne (ne_empty_of_mem_listGroups hg)]
      simp [hother]
    · exact absurd hc (hnot _)
  · intro email hemail
    exact ne_empty_of_mem_listUsers (emails_reconcile hemail)

/-! ### Cycles -/

/-- The server serves the tenant, and what the state file holds can be delivered. -/
structure Ready (config : GDirectoryConfig) (s : DirectorySync) : Prop where
  serving : ServesTenant config.tenantId s.plane
  deliverable : SnapshotDeliverable s.snapshot

section Runs

variable {lookup : MembershipGraph → SpiceDb}

theorem servesTenant_applyOps {tenant : TenantId} {now : Time} {plane : IdentityPlane}
    {ops : List AdminOp} (h : ServesTenant tenant plane) :
    ServesTenant tenant (applyOps toLowercase lookup now plane ops).plane := by
  induction ops generalizing plane with
  | nil => exact h
  | cons op ops ih =>
    have hstill := servesTenant_apply toLowercase lookup now h op
    unfold applyOps
    split <;> rename_i happly <;> rw [happly] at hstill
    · exact hstill
    · exact ih hstill

variable (strip toLowercase lookup) in
/-- A membership with the whole domain is in no snapshot that can be delivered, so its call is made
and refused. -/
theorem domain_cycle {s : DirectorySync} (hready : Ready config s)
    (hdomain : ListsDomain lower config d) (now : Time) (plane : IdentityPlane) :
    let ops := buildAdminOps (diffSnapshots s.snapshot (reconcile lower strip config d))
      config.tenantId "gdirectory"
    ∀ cut, ((applyOps toLowercase lookup now plane (sentOps ops cut)).refused = true ∨ cut ≠ none) ∧
      ∀ op ∈ (applyOps toLowercase lookup now plane (sentOps ops cut)).delivered,
        ¬ IsWithdrawal op := by
  intro ops cut
  obtain ⟨e, he, name, hname⟩ := (listsDomain_iff strip).mp hdomain
  have hnew : e ∉ s.snapshot.memberships := by
    intro hold
    obtain ⟨m, hm⟩ := hready.deliverable.memberships e hold config.tenantId
    obtain ⟨error, herror⟩ := parseMembership_domain config.tenantId e.1 name
    rw [hname, herror] at hm
    exact absurd hm (by simp)
  obtain ⟨before, after, hsplit, hkeeps⟩ := split_at_groupAdd config.tenantId
    "gdirectory" (mem_addedMemberships.mpr ⟨he, hnew⟩)
  have hrefused : ∀ plane : IdentityPlane, ∃ error,
      (plane.apply toLowercase lookup now (.groupAdd ⟨config.tenantId, e.1, e.2⟩)).2 =
        .error error := by
    intro plane
    obtain ⟨error, herror⟩ := parseMembership_domain config.tenantId e.1 name
    rw [hname]
    exact apply_refuses herror
  have hops : ops = before ++ .groupAdd ⟨config.tenantId, e.1, e.2⟩ :: after := hsplit
  cases cut with
  | none =>
    obtain ⟨hstops, hinitial⟩ := applyOps_refused hrefused before after plane
    simp only [sentOps, hops]
    exact ⟨Or.inl hstops, fun op hop => hkeeps op (hinitial.subset hop)⟩
  | some n =>
    refine ⟨Or.inr (by simp), ?_⟩
    simp only [sentOps, hops]
    by_cases hn : n ≤ before.length
    · intro op hop
      rw [List.take_append_of_le_length hn] at hop
      have hinitial := (delivered_applyOps toLowercase lookup now plane (before.take n)).1
      exact hkeeps op (List.mem_of_mem_take (hinitial.subset hop))
    · obtain ⟨m, hm⟩ : ∃ m, n - before.length = m + 1 := ⟨n - before.length - 1, by omega⟩
      rw [List.take_append, List.take_of_length_le (by omega), hm, List.take_succ_cons]
      obtain ⟨-, hinitial⟩ := applyOps_refused hrefused before (after.take m) plane
      exact fun op hop => hkeeps op (hinitial.subset hop)

theorem Ready.syncStep {s s' : DirectorySync} {e : SyncEvent} (h : Ready config s)
    (hstep : GDirectory.syncStep lower strip toLowercase lookup config s e = some s') :
    Ready config s' := by
  cases e with
  | stateFileLost =>
    cases hstep
    exact ⟨h.serving, snapshotDeliverable_empty⟩
  | cycle d cut now =>
    cases hstep
    refine ⟨servesTenant_applyOps h.serving, ?_⟩
    simp only [DirectorySync.cycle]
    split
    · rename_i hdone
      rw [Bool.and_eq_true, Option.isNone_iff_eq_none, Bool.not_eq_true'] at hdone
      refine snapshotDeliverable_reconcile strip ?_
      intro hdomain
      obtain ⟨hstops, -⟩ := domain_cycle strip toLowercase lookup h hdomain now s.plane cut
      rcases hstops with hrefused | hcut
      · rw [hdone.2] at hrefused
        exact absurd hrefused (by simp)
      · exact hcut hdone.1
    · exact h.deliverable

/-- In every run, a cycle that is not interrupted completes exactly when the directory lists no
group with the whole domain, and interrupted or not, one that does takes nothing away. -/
theorem cycle_completes_iff (hanswers : Answers lookup) {plane : RegistryPlane}
    (htenant : config.tenantId ∈ plane.server.tenants) (hrebac : plane.server.rebac.isSome)
    {events : List SyncEvent} {d : Directory} {cut : Option Nat} {now : Time} {s : DirectorySync}
    (hrun : run (GDirectory.syncStep lower strip toLowercase lookup config) (.start plane)
      (events ++ [.cycle d cut now]) = some s) :
    ∃ c, s.past.getLast? = some c ∧
      (cut = none → (c.ending = .complete ↔ ¬ ListsDomain lower config d)) ∧
      (ListsDomain lower config d → ∀ op ∈ c.delivered, ¬ IsWithdrawal op) := by
  obtain ⟨s₁, hbefore, hlast⟩ := run_append.mp hrun
  have hready : Ready config s₁ := by
    refine run_induction (fun s e s' hs hstep => hs.syncStep hstep) ?_ hbefore
    exact ⟨⟨htenant, hrebac⟩, snapshotDeliverable_empty⟩
  obtain ⟨s₂, hs₂, hend⟩ := Option.bind_eq_some_iff.mp hlast
  cases hend
  cases hs₂
  refine ⟨_, List.getLast?_concat, ?_, ?_⟩
  · rintro rfl
    constructor
    · intro hcomplete hdomain
      have hdone := completed_of_ending hcomplete
      rw [Bool.and_eq_true, Bool.not_eq_true'] at hdone
      obtain ⟨hstops, -⟩ := domain_cycle strip toLowercase lookup hready hdomain now s₁.plane none
      rw [hdone.2] at hstops
      exact absurd hstops (by simp)
    · intro hnone
      have haccepted := applyOps_wellFormed toLowercase now hanswers
        (wellFormed_buildAdminOps "gdirectory" hready.deliverable
          (snapshotDeliverable_reconcile strip hnone)) hready.serving
      simp only [sentOps, haccepted]
      rfl
  · intro hdomain
    exact (domain_cycle strip toLowercase lookup hready
      hdomain now s₁.plane cut).2

theorem answers_exactService : Answers exactService :=
  fun _ _ => ⟨fun _ _ => ⟨_, rfl⟩, fun _ => ⟨_, rfl⟩⟩

/-- The staff after one of them has left, and a group that the whole domain is in. -/
def leaverAndDomain : Directory :=
  { twoUsers ["ana"] with
    groups := ["all", "staff"]
    members := [("staff", ⟨"USER", "ana"⟩), ("all", ⟨"CUSTOMER", ""⟩)] }

/-- The cycle is refused, and the member who left stays. -/
theorem domain_member_blocks_cycle :
    ∃ s c, run (GDirectory.syncStep id id id exactService ⟨1, some "corp.example"⟩)
        (.start directoryServer)
        ([.cycle (twoUsers ["ana", "ben"]) none 0] ++ [.cycle leaverAndDomain none 1]) = some s ∧
      s.past.getLast? = some c ∧ c.ending ≠ .complete ∧ (∀ op ∈ c.delivered, ¬ IsWithdrawal op) ∧
      "user:ben" ∈ membersOf s.plane.graph "group:staff" := by
  have hrun : (run (GDirectory.syncStep id id id exactService ⟨1, some "corp.example"⟩)
      (.start directoryServer)
      ([.cycle (twoUsers ["ana", "ben"]) none 0] ++ [.cycle leaverAndDomain none 1])).map
        (fun s => membersOf s.plane.graph "group:staff") =
      some ["user:ana", "user:ben"] := by decide +kernel
  obtain ⟨s, hs, hmembers⟩ := Option.map_eq_some_iff.mp hrun
  have hdomain : ListsDomain id ⟨1, some "corp.example"⟩ leaverAndDomain :=
    ⟨⟨"corp.example", rfl, by decide⟩, ("all", ⟨"CUSTOMER", ""⟩), by decide, by decide +kernel, rfl⟩
  obtain ⟨c, hlast, hcomplete, hkeeps⟩ :=
    cycle_completes_iff answers_exactService (by decide) (by decide) hs
  refine ⟨s, c, hs, hlast, fun h => (hcomplete rfl).mp h hdomain, hkeeps hdomain, ?_⟩
  rw [hmembers]
  simp

end Runs

end GDirectory

end Verity.Analysis
