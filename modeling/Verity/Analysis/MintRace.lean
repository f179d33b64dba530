import Verity.Analysis.ScopePower
import Verity.Model.GroupRemove

/-!
# Mints against removals

A removal writes its tombstones before it deletes the tuple, so that a handle minted before
loses the group's token by `at >= issued_at`, and a mint after it does not find the group or
finds the tombstone in its window. The two rules leave a gap around the mint instant: a
tombstone written after the mint subtracted and before it stamped is too late for the one
and too early for the other.

The invariant `HandleInv` says what keeps a handle harmless: for each group token it holds,
the subject belongs to the group, or the token is dropped from the handle for good
(`Dropped`). Time, other mints and other tombstones keep it (`HandleInv.later`). The two
steps that can break it are the stamp and the deletion; `StepsApart` is the condition on
them under which they do not.
-/

set_option autoImplicit false

namespace Verity.Analysis

open Verity.Model Verity.Foundation

variable {table : PrincipalTable} {p : String} {t : PrincipalToken}

/-! ## Principals and their tokens

A token, once allocated, stands for one principal for good: the allocator only adds rows, and
the table allows one row per principal and per token. So a token found in a handle names the
same group at every later moment.
-/

/-- Principal `p` of the tenant has token `t`. -/
def HasToken (table : PrincipalTable) (tenant : TenantId) (p : String) (t : PrincipalToken) :
    Prop :=
  (⟨tenant, p, t⟩ : PrincipalRow) ∈ table.rows

theorem HasToken.principal_eq {tenant : TenantId} {p' : String} (h : HasToken table tenant p t)
    (h' : HasToken table tenant p' t) : p = p' := by
  have : Std.Symm fun r r' : PrincipalRow => ¬ (r.tenantId = r'.tenantId ∧ r.token = r'.token) :=
    ⟨fun _ _ hne heq => hne ⟨heq.1.symm, heq.2.symm⟩⟩
  by_contra hne
  exact table.token_unique.forall h h' (by simpa using hne) ⟨rfl, rfl⟩

theorem hasToken_of_tokenOf {tenant : TenantId} (h : table.tokenOf tenant p = some t) :
    HasToken table tenant p t := by
  obtain ⟨r, hfind, rfl⟩ := Option.map_eq_some_iff.mp h
  have hr := List.find?_some hfind
  rw [decide_eq_true_iff] at hr
  obtain ⟨rfl, rfl⟩ := hr
  exact List.mem_of_find?_eq_some hfind

/-! ### The allocator -/

/-- Nothing is taken from the table, only added. -/
def Extends (table table' : PrincipalTable) : Prop := ∀ r ∈ table.rows, r ∈ table'.rows

theorem upsertToken_spec (table : PrincipalTable) (tenant : TenantId) (p : String) :
    Extends table (table.upsertToken tenant p).1 ∧
      HasToken (table.upsertToken tenant p).1 tenant p (table.upsertToken tenant p).2 := by
  unfold PrincipalTable.upsertToken
  split
  · rename_i token h
    exact ⟨fun _ hr => hr, hasToken_of_tokenOf h⟩
  · refine ⟨fun _ hr => List.mem_append_left _ hr, ?_⟩
    unfold HasToken PrincipalTable.allocate
    simp

/-- The upsert gives every principal it was asked for the token that the table then has for
it. -/
theorem upsertPrincipalTokens_spec (table : PrincipalTable) (tenant : TenantId) (ps : List String) :
    Extends table (table.upsertPrincipalTokens tenant ps).1 ∧
      ∀ m ∈ (table.upsertPrincipalTokens tenant ps).2, m.1 ∈ ps ∧
        HasToken (table.upsertPrincipalTokens tenant ps).1 tenant m.1 m.2 := by
  induction ps generalizing table with
  | nil => exact ⟨fun _ hr => hr, by simp [PrincipalTable.upsertPrincipalTokens]⟩
  | cons p ps ih =>
    obtain ⟨hext₁, htoken₁⟩ := upsertToken_spec table tenant p
    obtain ⟨hext₂, htokens⟩ := ih (table.upsertToken tenant p).1
    refine ⟨fun r hr => hext₂ r (hext₁ r hr), ?_⟩
    intro m hm
    rcases List.mem_cons.mp hm with rfl | hm
    · exact ⟨by simp, hext₂ _ htoken₁⟩
    · obtain ⟨hmem, htoken⟩ := htokens m hm
      exact ⟨List.mem_cons_of_mem _ hmem, htoken⟩

/-- A token that was allocated before still names the principal it named. -/
theorem HasToken.of_extends {table' : PrincipalTable} {tenant : TenantId} {q : String}
    (hext : Extends table table') (hq : HasToken table tenant q t)
    (hp : HasToken table' tenant p t) : HasToken table tenant p t := by
  have hq' : HasToken table' tenant q t := hext _ hq
  rw [hp.principal_eq hq']
  exact hq

/-! ### Names of groups and users -/

theorem groupPrincipal_injective {a b : String} (h : groupPrincipal a = groupPrincipal b) :
    a = b := by
  have hlist := congrArg String.toList h
  simp only [groupPrincipal, String.toList_append] at hlist
  exact String.toList_inj.mp (List.append_cancel_left hlist)

/-- A group principal is never read as a user. -/
theorem parsePrincipal_groupPrincipal (group name : String) :
    parsePrincipal (groupPrincipal group) ≠ some (.user, name) := by
  have hstart : stripStart "user:" (groupPrincipal group) = none := by
    unfold stripStart
    rw [if_neg]
    intro h
    simp [groupPrincipal, String.toList_append] at h
  intro h
  unfold parsePrincipal nameAfter at h
  rw [hstart] at h
  simp only [Option.filter_none] at h
  split at h
  · exact absurd h (by simp)
  · exact absurd h (by simp)

/-- With an exact lookup, the groups of a user are those it belongs to. -/
theorem mem_userGroups {graph : MembershipGraph} {db : SpiceDb} (hexact : ExactLookup graph db)
    {tenant : TenantId} {name : String} {groups : List String}
    (hgroups : db.userGroups tenant name = .ok groups) {group : String} :
    groupPrincipal group ∈ groups ↔ graph.Belongs (.user, name) group := by
  obtain ⟨names, hnames, hmem⟩ := hexact tenant .user name
  simp only [SpiceDb.userGroups, SpiceDb.membershipClosure, hnames, bind, Except.bind, pure,
    Except.pure, Except.ok.injEq] at hgroups
  subst hgroups
  rw [mem_sortDedup, List.mem_map, ← hmem group (by simp)]
  constructor
  · rintro ⟨group', hin, heq⟩
    rw [← groupPrincipal_injective heq]
    exact hin
  · intro hin
    exact ⟨group, hin, rfl⟩

/-! ## Mints and removals -/

variable {Tag : Type} {lookup : MembershipGraph → SpiceDb} {sign : ScopePayload → Tag}
  {cfg : Server} {tenant : TenantId}

/-- The name of the user a handle or a call is for. -/
def SubjectName (subject : Option String) (name : String) : Prop :=
  ∃ s, subject = some s ∧ parsePrincipal s = some (.user, name)

/-- Token `t` has a tombstone at or after `issuedAt`, and no retained one before it. -/
def Dropped (tables : RevocationTables) (tenant : TenantId) (t : PrincipalToken)
    (issuedAt now : Time) : Prop :=
  (∃ x, Tombstone tables tenant t x ∧ issuedAt ≤ x) ∧
    ∀ y, Tombstone tables tenant t y → Retained now y → issuedAt ≤ y

/-- The side condition on a run. When a handle is stamped, its subject still belongs to every
group whose token it signs. When a removal deletes its tuple, and a handle that is still
accepted holds a token of a group that the deletion takes from its subject, then the removal
had found that token, it recorded its tombstones no earlier than the handle was stamped, and
the token has no retained tombstone from before the stamp. -/
def StepsApart (tenant : TenantId) (s : Race Tag) : RaceEvent → Prop
  | .openSign call => ∀ name group t, SubjectName call.subject name →
      HasToken s.principals tenant (groupPrincipal group) t → t ∈ call.tokens →
      s.graph.Belongs (.user, name) group
  | .removeDelete r => ∀ h ∈ s.minted, s.now ≤ h.body.expiresAt →
      ∀ name group t, SubjectName h.body.subject name →
        HasToken s.principals tenant (groupPrincipal group) t → t ∈ h.body.principals →
        s.graph.Belongs (.user, name) group →
        ¬ (s.graph.deleteMembership r.removal.membership).Belongs (.user, name) group →
          (groupPrincipal group, t) ∈ r.removal.lostTokens ∧ h.body.issuedAt ≤ r.recordedAt ∧
          ∀ y, Tombstone s.revocations tenant t y → Retained s.now y → h.body.issuedAt ≤ y
  | _ => True

/-! ## One handle over time -/

structure HandleInv (tenant : TenantId) (s : Race Tag) (h : Handle Tag) : Prop where
  tenantId : h.body.tenantId = tenant
  bounded : Bounded h.body
  issued : h.body.issuedAt ≤ s.now
  tokens : ∀ t ∈ h.body.principals, ∃ p, HasToken s.principals tenant p t
  covered : s.now ≤ h.body.expiresAt → ∀ name group t, SubjectName h.body.subject name →
    HasToken s.principals tenant (groupPrincipal group) t → t ∈ h.body.principals →
    s.graph.Belongs (.user, name) group ∨
      Dropped s.revocations tenant t h.body.issuedAt s.now

/-- Everything but a deletion: time moves on, tokens are allocated, tombstones are written at
the present instant. -/
structure Later (tenant : TenantId) (s s' : Race Tag) : Prop where
  now_le : s.now ≤ s'.now
  graph_eq : s'.graph = s.graph
  principals_ext : Extends s.principals s'.principals
  tombstone_kept : ∀ t x, Tombstone s.revocations tenant t x → Tombstone s'.revocations tenant t x
  tombstone_new : ∀ t x, Tombstone s'.revocations tenant t x →
    Tombstone s.revocations tenant t x ∨ s.now ≤ x

theorem Dropped.later {s s' : Race Tag} (hlater : Later tenant s s') {issuedAt : Time}
    (hissued : issuedAt ≤ s.now) (h : Dropped s.revocations tenant t issuedAt s.now) :
    Dropped s'.revocations tenant t issuedAt s'.now := by
  obtain ⟨⟨x, hx, hxafter⟩, hall⟩ := h
  refine ⟨⟨x, hlater.tombstone_kept t x hx, hxafter⟩, ?_⟩
  intro y hy hret
  rcases hlater.tombstone_new t y hy with hold | hnew
  · apply hall y hold
    have hnow := hlater.now_le
    unfold Retained seconds Time at *
    omega
  · exact hissued.trans hnew

theorem HandleInv.later {s s' : Race Tag} (hlater : Later tenant s s') {h : Handle Tag}
    (hinv : HandleInv tenant s h) : HandleInv tenant s' h where
  tenantId := hinv.tenantId
  bounded := hinv.bounded
  issued := hinv.issued.trans hlater.now_le
  tokens := by
    intro t ht
    obtain ⟨p, hp⟩ := hinv.tokens t ht
    exact ⟨p, hlater.principals_ext _ hp⟩
  covered := by
    intro halive name group t hname htoken ht
    -- the token was allocated when the handle was signed, so it named this group already
    obtain ⟨p, hp⟩ := hinv.tokens t ht
    have htoken' := HasToken.of_extends hlater.principals_ext hp htoken
    rcases hinv.covered (hlater.now_le.trans halive) name group t hname htoken' ht with
      hbelongs | hdropped
    · left
      rw [hlater.graph_eq]
      exact hbelongs
    · exact Or.inr (hdropped.later hlater hinv.issued)

/-- A deletion keeps a handle harmless, if it meets the side condition. -/
theorem HandleInv.delete {s : Race Tag} {h : Handle Tag} (hinv : HandleInv tenant s h)
    (hmem : h ∈ s.minted) {r : RecordedRemoval} (hsafe : StepsApart tenant s (.removeDelete r))
    (hrecorded : ∀ l ∈ r.removal.lostTokens, Tombstone s.revocations tenant l.2 r.recordedAt)
    {rest : List RecordedRemoval} :
    HandleInv tenant { s with
      graph := s.graph.deleteMembership r.removal.membership, recordedRemovals := rest } h where
  tenantId := hinv.tenantId
  bounded := hinv.bounded
  issued := hinv.issued
  tokens := hinv.tokens
  covered := by
    intro halive name group t hname htoken ht
    rcases hinv.covered halive name group t hname htoken ht with hbelongs | hdropped
    · by_cases hstill : (s.graph.deleteMembership r.removal.membership).Belongs (.user, name) group
      · exact Or.inl hstill
      · obtain ⟨hfound, hafter, hnone⟩ :=
          hsafe h hmem halive name group t hname htoken ht hbelongs hstill
        exact Or.inr ⟨⟨r.recordedAt, hrecorded _ hfound, hafter⟩, hnone⟩
    · exact Or.inr hdropped

/-! ## The whole state -/

structure RaceInv (tenant : TenantId) (s : Race Tag) : Prop where
  opens : ∀ c ∈ s.resolvedOpens, c.req.tenantId = tenant ∧ ∃ subject, c.subject = some subject
  calls : ∀ c ∈ s.subtractedOpens, c.req.tenantId = tenant ∧
    ∀ t ∈ c.tokens, ∃ p, HasToken s.principals tenant p t
  removals : ∀ r ∈ s.resolvedRemovals, r.tenant = tenant ∧ r.affected ≠ []
  recorded : ∀ r ∈ s.recordedRemovals, ∀ l ∈ r.removal.lostTokens,
    Tombstone s.revocations tenant l.2 r.recordedAt
  handles : ∀ h ∈ s.minted, HandleInv tenant s h

theorem raceInv_start (now : Time) (graph : MembershipGraph) (principals : PrincipalTable)
    (revocations : RevocationTables) :
    RaceInv tenant (Race.start now graph principals revocations : Race Tag) := by
  constructor <;> simp [Race.start]

theorem openResolve_eq_ok {sv : Server} {req : OpenScopeRequest} {call : OpenCall}
    (h : openResolve sv req = .ok call) :
    call.req = req ∧ (req.subject.isSome → ∃ subject, call.subject = some subject) := by
  unfold openResolve at h
  split at h
  · exact absurd h (by simp)
  split at h
  · exact absurd h (by simp)
  split at h
  · split at h
    · exact absurd h (by simp)
    split at h
    · exact absurd h (by simp)
    · cases h
      exact ⟨rfl, fun _ => ⟨_, rfl⟩⟩
  · exact absurd h (by simp)
  · rename_i hnone
    cases h
    refine ⟨rfl, ?_⟩
    rw [hnone]
    intro hsome
    exact absurd hsome (by simp)

/-- The tokens a mint signs are in the principal table it leaves. -/
theorem mintTokens_spec (principals : PrincipalTable) (revocations : RevocationTables)
    (windowSecs : Int) (tenant : TenantId) (subject : String) (groups : List String) (now : Time) :
    Extends principals
        (mintTokens principals revocations windowSecs tenant subject groups now).1 ∧
      ∀ t ∈ (mintTokens principals revocations windowSecs tenant subject groups now).2,
        ∃ p, HasToken
          (mintTokens principals revocations windowSecs tenant subject groups now).1
          tenant p t := by
  unfold mintTokens
  obtain ⟨hext₁, -⟩ := upsertToken_spec principals tenant subject
  obtain ⟨hext₂, htokens⟩ := upsertPrincipalTokens_spec (principals.upsertToken tenant subject).1
    tenant (if (revocations.revokedSet tenant).contains (principals.upsertToken tenant subject).2
      then groups else subject :: groups)
  refine ⟨fun r hr => hext₂ r (hext₁ r hr), ?_⟩
  intro t ht
  obtain ⟨m, hm, rfl⟩ := List.mem_map.mp (mem_subtract_iff.mp ht).1
  exact ⟨m.1, (htokens m hm).2⟩

theorem openSubtract_spec (sv : Server) {call : OpenCall} (now : Time) {subject : String}
    (hsubject : call.subject = some subject) :
    (openSubtract sv call now).2.req = call.req ∧
      Extends sv.principals (openSubtract sv call now).1 ∧
      ∀ t ∈ (openSubtract sv call now).2.tokens,
        ∃ p, HasToken (openSubtract sv call now).1 call.req.tenantId p t := by
  unfold openSubtract
  rw [hsubject]
  exact ⟨rfl, mintTokens_spec sv.principals sv.revocations sv.windowSecs call.req.tenantId subject
    call.groups now⟩

theorem resolveRemoval_eq_ok {db : SpiceDb} {principals : PrincipalTable}
    {req : GroupMembershipRequest} {removal : Removal}
    (h : resolveRemoval db principals req = .ok removal) :
    removal.tenant = req.tenantId ∧ removal.affected ≠ [] := by
  unfold resolveRemoval at h
  split at h
  · exact absurd h (by simp)
  rename_i membership _
  simp only at h
  split at h
  · exact absurd h (by simp)
  rename_i affected haffected
  split at h
  · exact absurd h (by simp)
  cases h
  refine ⟨rfl, ?_⟩
  cases hkind : membership.kind with
  | user =>
    simp only [hkind, Except.ok.injEq] at haffected
    simp [← haffected]
  | group =>
    simp only [hkind] at haffected
    cases husers : db.groupUsers req.tenantId membership.member with
    | error e => simp [husers, Except.map] at haffected
    | ok users =>
      simp only [husers, Except.map, Except.ok.injEq] at haffected
      simp [← haffected]

/-- The invariant after a step that deletes nothing and leaves the calls it does not mention
as they were. -/
theorem RaceInv.later {s s' : Race Tag} (hinv : RaceInv tenant s) (hlater : Later tenant s s')
    (hopens : ∀ c ∈ s'.resolvedOpens,
      c ∈ s.resolvedOpens ∨ (c.req.tenantId = tenant ∧ ∃ subject, c.subject = some subject))
    (hcalls : ∀ c ∈ s'.subtractedOpens, c ∈ s.subtractedOpens ∨ (c.req.tenantId = tenant ∧
      ∀ t ∈ c.tokens, ∃ p, HasToken s'.principals tenant p t))
    (hremovals : ∀ r ∈ s'.resolvedRemovals,
      r ∈ s.resolvedRemovals ∨ (r.tenant = tenant ∧ r.affected ≠ []))
    (hrecorded : ∀ r ∈ s'.recordedRemovals, r ∈ s.recordedRemovals ∨
      ∀ l ∈ r.removal.lostTokens, Tombstone s'.revocations tenant l.2 r.recordedAt)
    (hminted : ∀ h ∈ s'.minted, h ∈ s.minted ∨ HandleInv tenant s' h) : RaceInv tenant s' where
  opens := fun c hc => (hopens c hc).elim (hinv.opens c) id
  calls := by
    intro c hc
    rcases hcalls c hc with hc | hc
    · refine ⟨(hinv.calls c hc).1, fun t ht => ?_⟩
      obtain ⟨p, hp⟩ := (hinv.calls c hc).2 t ht
      exact ⟨p, hlater.principals_ext _ hp⟩
    · exact hc
  removals := fun r hr => (hremovals r hr).elim (hinv.removals r) id
  recorded := by
    intro r hr l hl
    rcases hrecorded r hr with hr | hr
    · exact hlater.tombstone_kept _ _ (hinv.recorded r hr l hl)
    · exact hr l hl
  handles := fun h hh => (hminted h hh).elim (fun hh => (hinv.handles h hh).later hlater) id

/-- A step that touches neither the clock, the tuples, the tokens nor the tombstones. -/
theorem later_of_eq {s s' : Race Tag} (hnow : s'.now = s.now) (hgraph : s'.graph = s.graph)
    (hprincipals : s'.principals = s.principals) (hrevocations : s'.revocations = s.revocations) :
    Later tenant s s' where
  now_le := hnow.ge
  graph_eq := hgraph
  principals_ext := by
    rw [hprincipals]
    exact fun _ hr => hr
  tombstone_kept := by
    rw [hrevocations]
    exact fun _ _ hx => hx
  tombstone_new := by
    rw [hrevocations]
    exact fun _ _ hx => Or.inl hx

theorem later_record {s : Race Tag} {removal : Removal} {resolved : List Removal}
    {recorded : List RecordedRemoval} :
    Later tenant s { s with
      revocations := removal.record s.revocations s.now
      resolvedRemovals := resolved
      recordedRemovals := recorded } := by
  refine ⟨le_refl _, rfl, fun _ hr => hr, ?_, ?_⟩
  · intro t x hx
    exact tombstone_record_iff.mpr (Or.inl hx)
  · intro t x hx
    rcases tombstone_record_iff.mp hx with hx | ⟨-, -, rfl, -⟩
    · exact Or.inl hx
    · exact Or.inr (le_refl _)

/-- A call that joins a list: everything in it is old, or is the new one. -/
theorem mem_concat_or {α : Type} {l : List α} {a : α} {P : α → Prop} (ha : P a) :
    ∀ x ∈ l ++ [a], x ∈ l ∨ P x := by
  intro x hx
  rcases List.mem_append.mp hx with hx | hx
  · exact Or.inl hx
  · rw [List.mem_singleton.mp hx]
    exact Or.inr ha

/-- Every step keeps the invariant, if it meets the side condition. -/
theorem RaceInv.step {s s' : Race Tag} {e : RaceEvent} (hinv : RaceInv tenant s)
    (hsafe : StepsApart tenant s e) (hstep : s.step lookup sign cfg tenant e = some s') :
    RaceInv tenant s' := by
  cases e with
  | tick now =>
    simp only [Race.step, Option.ite_none_right_eq_some, Option.some.injEq] at hstep
    obtain ⟨hle, rfl⟩ := hstep
    have hlater : Later tenant s { s with now } :=
      ⟨hle, rfl, fun _ hr => hr, fun _ _ hx => hx, fun _ _ hx => Or.inl hx⟩
    exact hinv.later hlater (fun _ hc => Or.inl hc) (fun _ hc => Or.inl hc)
      (fun _ hr => Or.inl hr) (fun _ hr => Or.inl hr) (fun _ hh => Or.inl hh)
  | openResolve req =>
    simp only [Race.step] at hstep
    split at hstep
    · rename_i hreq
      split at hstep
      · exact absurd hstep (by simp)
      · rename_i call hcall
        cases hstep
        obtain ⟨hcreq, hsubject⟩ := openResolve_eq_ok hcall
        have htenant : call.req.tenantId = tenant := by
          rw [hcreq]
          exact hreq.1
        exact hinv.later (later_of_eq rfl rfl rfl rfl)
          (mem_concat_or ⟨htenant, hsubject hreq.2⟩) (fun _ hc => Or.inl hc)
          (fun _ hr => Or.inl hr) (fun _ hr => Or.inl hr) (fun _ hh => Or.inl hh)
    · exact absurd hstep (by simp)
  | openSubtract call =>
    simp only [Race.step, Option.ite_none_right_eq_some, Option.some.injEq] at hstep
    obtain ⟨hmem, rfl⟩ := hstep
    obtain ⟨htenant, subject, hsubject⟩ := hinv.opens call hmem
    obtain ⟨hreq, hext, htokens⟩ := openSubtract_spec (s.server lookup cfg) s.now hsubject
    rw [htenant] at htokens
    exact hinv.later ⟨le_refl _, rfl, hext, fun _ _ hx => hx, fun _ _ hx => Or.inl hx⟩
      (fun _ hc => Or.inl (List.mem_of_mem_erase hc))
      (mem_concat_or ⟨by rw [hreq]; exact htenant, htokens⟩)
      (fun _ hr => Or.inl hr) (fun _ hr => Or.inl hr) (fun _ hh => Or.inl hh)
  | openSign call =>
    simp only [Race.step, Option.ite_none_right_eq_some, Option.some.injEq] at hstep
    obtain ⟨hmem, rfl⟩ := hstep
    obtain ⟨htenant, htokens⟩ := hinv.calls call hmem
    refine hinv.later (later_of_eq rfl rfl rfl rfl) (fun _ hc => Or.inl hc)
      (fun _ hc => Or.inl (List.mem_of_mem_erase hc)) (fun _ hr => Or.inl hr)
      (fun _ hr => Or.inl hr) (mem_concat_or ?_)
    refine ⟨htenant, bounded_stampPayload _ _ _, le_refl _, htokens, ?_⟩
    intro _ name group t hname htoken ht
    exact Or.inl (hsafe name group t hname htoken ht)
  | removeResolve req =>
    simp only [Race.step] at hstep
    split at hstep
    · rename_i hreq
      split at hstep
      · exact absurd hstep (by simp)
      · rename_i removal hremoval
        cases hstep
        obtain ⟨htenant, haffected⟩ := resolveRemoval_eq_ok hremoval
        exact hinv.later (later_of_eq rfl rfl rfl rfl) (fun _ hc => Or.inl hc)
          (fun _ hc => Or.inl hc) (mem_concat_or ⟨htenant.trans hreq, haffected⟩)
          (fun _ hr => Or.inl hr) (fun _ hh => Or.inl hh)
    · exact absurd hstep (by simp)
  | removeRecord removal =>
    simp only [Race.step, Option.ite_none_right_eq_some, Option.some.injEq] at hstep
    obtain ⟨hmem, rfl⟩ := hstep
    obtain ⟨htenant, haffected⟩ := hinv.removals removal hmem
    refine hinv.later later_record (fun _ hc => Or.inl hc) (fun _ hc => Or.inl hc)
      (fun _ hr => Or.inl (List.mem_of_mem_erase hr)) (mem_concat_or ?_) (fun _ hh => Or.inl hh)
    intro l hl
    exact tombstone_record_iff.mpr (Or.inr ⟨haffected, htenant.symm, rfl, l, hl, rfl⟩)
  | removeDelete r =>
    simp only [Race.step, Option.ite_none_right_eq_some, Option.some.injEq] at hstep
    obtain ⟨hmem, rfl⟩ := hstep
    exact
      { opens := hinv.opens
        calls := hinv.calls
        removals := hinv.removals
        recorded := fun r' hr' => hinv.recorded r' (List.mem_of_mem_erase hr')
        handles := fun h hh => (hinv.handles h hh).delete hh hsafe (hinv.recorded r hmem) }

/-! ## What a handle reads with -/

/-- A call that nothing comes between is its three steps in a row, and mints the same handle. -/
theorem run_of_openScope {s : Race Tag} {req : OpenScopeRequest} (htenant : req.tenantId = tenant)
    (hsubject : req.subject.isSome = true) {principals : PrincipalTable} {handle : Handle Tag}
    (h : openScope sign (s.server lookup cfg) req s.now = .ok (principals, handle)) :
    ∃ call signed s', run (Race.step lookup sign cfg tenant) s
        [.openResolve req, .openSubtract call, .openSign signed] = some s' ∧
      s'.principals = principals ∧ s'.minted = s.minted ++ [handle] := by
  unfold openScope at h
  split at h
  · cases h
  · rename_i call hresolve
    obtain ⟨rfl, rfl⟩ := Prod.mk.inj (Except.ok.inj h)
    let resolved : Race Tag := { s with resolvedOpens := s.resolvedOpens ++ [call] }
    let result := openSubtract (s.server lookup cfg) call s.now
    have hresolved : Race.step lookup sign cfg tenant s (.openResolve req) = some resolved := by
      refine (if_pos ⟨htenant, hsubject⟩).trans ?_
      rw [hresolve]
    have hsubtracted : Race.step lookup sign cfg tenant resolved (.openSubtract call) =
        some { resolved with
          principals := result.1
          resolvedOpens := resolved.resolvedOpens.erase call
          subtractedOpens := s.subtractedOpens ++ [result.2] } :=
      if_pos (List.mem_append_right _ (List.mem_singleton_self call))
    have hsigned : result.2 ∈ s.subtractedOpens ++ [result.2] :=
      List.mem_append_right _ (List.mem_singleton_self _)
    refine ⟨call, result.2, _, Option.bind_eq_some_iff.mpr ⟨resolved, hresolved,
      Option.bind_eq_some_iff.mpr ⟨_, hsubtracted, Option.bind_eq_some_iff.mpr
        ⟨_, if_pos hsigned, rfl⟩⟩⟩, ?_, ?_⟩ <;> rfl

/-- A dropped token does not survive the subtraction of a handle that is still accepted. -/
theorem Dropped.not_mem_subtract {tables : RevocationTables} {payload : ScopePayload} {now : Time}
    (h : Dropped tables payload.tenantId t payload.issuedAt now) (hbounded : Bounded payload)
    (halive : now ≤ payload.expiresAt) (principals : List PrincipalToken) :
    t ∉ tables.subtract payload.tenantId principals payload.issuedAt now := by
  obtain ⟨⟨x, hx, hafter⟩, hall⟩ := h
  intro hmem
  obtain ⟨-, -, hsome⟩ := mem_subtract_iff.mp hmem
  obtain ⟨y, ⟨hy, hret⟩, hlt⟩ := hsome ⟨x, hx, retained_of_accepted hbounded halive hafter⟩
  exact absurd (hall y hy hret) (not_le.mpr hlt)

/-- The state a scope is compiled in: the shared tables, under any watch status. -/
def readState (lookup : MembershipGraph → SpiceDb) (cfg : Server) (s : Race Tag)
    (watch : WatchStatus) : AppState :=
  { (s.server lookup cfg).toAppState with watch }

variable [DecidableEq Tag]

/-- Take any graph, any tokens and revocations to start from, and any interleaving of any
number of mints and removals whose steps meet the side condition `StepsApart`. In every
state reached, a handle that is accepted reads with no token of a group to which its subject
does not belong (so with none that a removal took from it), whatever the watch says. -/
theorem no_mint_slips_through (hexact : ∀ graph, ExactLookup graph (lookup graph)) {now : Time}
    {graph : MembershipGraph} {principals : PrincipalTable} {revocations : RevocationTables}
    {events : List RaceEvent} {s : Race Tag}
    (hsafe : Along (Race.step lookup sign cfg tenant) (StepsApart tenant)
      (Race.start now graph principals revocations) events)
    (hrun : run (Race.step lookup sign cfg tenant)
      (Race.start now graph principals revocations) events = some s) {h : Handle Tag}
    (hminted : h ∈ s.minted) {payload : ScopePayload}
    (haccepted : verify sign h s.now = .ok payload) {watch : WatchStatus} {secsSinceStart : Nat}
    {table : PrincipalTable} {scope : Scope}
    (hscope : (readState lookup cfg s watch).scopeFor payload ⟨s.now, secsSinceStart⟩ =
      .ok (table, scope)) {name group : String} (hname : SubjectName payload.subject name)
    {t : PrincipalToken} (htoken : HasToken s.principals tenant (groupPrincipal group) t)
    (hlost : ¬ s.graph.Belongs (.user, name) group) : t ∉ scope.principals := by
  have hinv : RaceInv tenant s :=
    run_invariant (fun _ _ _ h hs hstep => h.step hs hstep) (raceInv_start _ _ _ _) hsafe hrun
  have hhandle := hinv.handles h hminted
  obtain ⟨-, halive, rfl⟩ := verify_eq_ok_iff.mp haccepted
  intro hmem
  obtain ⟨hprincipals, -⟩ := scopeFor_spec hscope
  generalize scope.principals = compiled at hprincipals hmem
  cases hprincipals with
  | materialized =>
    have ht := subtract_subset hmem
    rcases hhandle.covered halive name group t hname htoken ht with hbelongs | hdropped
    · exact hlost hbelongs
    · rw [← hhandle.tenantId] at hdropped
      exact hdropped.not_mem_subtract hhandle.bounded halive _ hmem
  | hidden => exact absurd hmem (by simp)
  | live hstale db subject name' groups hdb hsubject hname' hgroups =>
    -- the live set holds the subject's own token and those of the groups it belongs to
    obtain ⟨m, hm, rfl⟩ := List.mem_map.mp (subtract_subset hmem)
    rw [hhandle.tenantId] at hm hgroups
    obtain ⟨hext, htokens⟩ := upsertPrincipalTokens_spec s.principals tenant (subject :: groups)
    obtain ⟨hin, hhas⟩ := htokens m hm
    have heq : m.1 = groupPrincipal group := hhas.principal_eq (hext _ htoken)
    have hnames : name' = name := by
      obtain ⟨subject', hsubject', hparse⟩ := hname
      rw [hsubject, Option.some.injEq] at hsubject'
      rw [← hsubject', hname', Option.some.injEq, Prod.mk.injEq] at hparse
      exact hparse.2
    have hdb' : db = lookup s.graph := (Option.some.inj hdb).symm
    rw [heq] at hin
    rcases List.mem_cons.mp hin with hself | hgroup
    · rw [← hself] at hname'
      exact parsePrincipal_groupPrincipal group name' hname'
    · rw [hdb'] at hgroups
      rw [mem_userGroups (hexact s.graph) hgroups, hnames] at hgroup
      exact hlost hgroup

def aliceInSales : MembershipGraph := [⟨"sales", .user, "alice"⟩]

def mintServer : Server where
  rebac := none
  allowRestrictedWithoutRebac := false
  watch := WatchStatus.new
  watchStalenessFenceSecs := 30
  principals := aliceTokens
  revocations := RevocationTables.empty
  tenants := [1]
  purposes := []
  windowSecs := 300

def aliceRequest : OpenScopeRequest where
  tenantId := 1
  principals := []
  subject := some "user:alice"
  entityScope := []
  maxConfidentiality := .internal
  actorSub := none
  actorAzp := none
  ttlSeconds := 3600
  purpose := none

def aliceResolved : OpenCall := ⟨aliceRequest, .internal, some "user:alice", ["group:sales"]⟩

def aliceSubtracted : SignCall := ⟨aliceRequest, .internal, some "user:alice", [1, 7]⟩

/-- Alice leaves the sales group. -/
def aliceRemoval : Removal :=
  ⟨1, ⟨"sales", .user, "alice"⟩, ["user:alice"], [("group:sales", 7)]⟩

/-- The mint completes, and the removal follows. -/
def mintThenRemove : List RaceEvent :=
  [.openResolve aliceRequest, .openSubtract aliceResolved, .openSign aliceSubtracted,
    .tick (seconds 10), .removeResolve ⟨1, "group:sales", "user:alice"⟩,
    .removeRecord aliceRemoval, .removeDelete ⟨aliceRemoval, seconds 10⟩]

/-- The removal runs between the mint's subtraction and its stamp. -/
def removeInsideMint : List RaceEvent :=
  [.openResolve aliceRequest, .openSubtract aliceResolved, .tick (seconds 10),
    .removeResolve ⟨1, "group:sales", "user:alice"⟩, .removeRecord aliceRemoval,
    .removeDelete ⟨aliceRemoval, seconds 10⟩, .tick (seconds 20), .openSign aliceSubtracted]

/-- Both calls have finished, and alice's handle was stamped at the given instant. -/
def raceEnd (now issuedAt : Time) : Race ScopePayload where
  now := now
  graph := []
  principals := aliceTokens
  revocations := ⟨[⟨1, "user:alice", 7, seconds 10⟩], []⟩
  resolvedOpens := []
  subtractedOpens := []
  resolvedRemovals := []
  recordedRemovals := []
  minted := [openSign id aliceSubtracted issuedAt]

theorem hasToken_aliceTokens {group : String}
    (h : HasToken aliceTokens 1 (groupPrincipal group) t) : group = "sales" ∧ t = 7 := by
  have hrow : (⟨1, groupPrincipal group, t⟩ : PrincipalRow) = ⟨1, "user:alice", 1⟩ ∨
      (⟨1, groupPrincipal group, t⟩ : PrincipalRow) = ⟨1, "group:sales", 7⟩ := by
    simpa [HasToken, aliceTokens] using h
  simp only [PrincipalRow.mk.injEq, true_and] at hrow
  rcases hrow with ⟨hp, -⟩ | ⟨hp, ht⟩
  · have hparse : parsePrincipal (groupPrincipal group) = some (.user, "alice") := by
      rw [hp]
      decide +kernel
    exact absurd hparse (parsePrincipal_groupPrincipal group "alice")
  · have hsales : "group:sales" = groupPrincipal "sales" := by decide +kernel
    exact ⟨groupPrincipal_injective (hp.trans hsales), ht⟩

/-- A mint that is complete when the removal begins: the handle loses the token. -/
theorem removal_after_mint_bites :
    ∃ scope : Scope, (readState exactService mintServer (raceEnd (seconds 10) 0)
        WatchStatus.new).scopeFor (openSign id aliceSubtracted 0).body
          ⟨(raceEnd (seconds 10) 0).now, 10⟩ = .ok (aliceTokens, scope) ∧
      7 ∉ scope.principals := by
  have hname : ∀ name, SubjectName (some "user:alice") name → name = "alice" := by
    rintro name ⟨_, hs, hparse⟩
    rw [Option.some.injEq] at hs
    have hparse' : parsePrincipal "user:alice" = some (.user, "alice") := by decide +kernel
    rw [← hs, hparse', Option.some.injEq, Prod.mk.injEq] at hparse
    exact hparse.2.symm
  have hfirst : run (Race.step exactService id mintServer 1)
      (Race.start 0 aliceInSales aliceTokens RevocationTables.empty)
      [.openResolve aliceRequest, .openSubtract aliceResolved] =
        some { (Race.start 0 aliceInSales aliceTokens RevocationTables.empty : Race ScopePayload)
          with subtractedOpens := [aliceSubtracted] } := by decide +kernel
  have hsecond : run (Race.step exactService id mintServer 1)
      { (Race.start 0 aliceInSales aliceTokens RevocationTables.empty : Race ScopePayload)
          with subtractedOpens := [aliceSubtracted] }
      [.openSign aliceSubtracted, .tick (seconds 10),
        .removeResolve ⟨1, "group:sales", "user:alice"⟩, .removeRecord aliceRemoval] =
        some { raceEnd (seconds 10) 0 with
          graph := aliceInSales, recordedRemovals := [⟨aliceRemoval, seconds 10⟩] } := by
    decide +kernel
  have hsafe : Along (Race.step exactService id mintServer 1) (StepsApart 1)
      (Race.start 0 aliceInSales aliceTokens RevocationTables.empty) mintThenRemove := by
    have hsplit : mintThenRemove =
        [RaceEvent.openResolve aliceRequest, .openSubtract aliceResolved] ++
          ([RaceEvent.openSign aliceSubtracted, .tick (seconds 10),
            .removeResolve ⟨1, "group:sales", "user:alice"⟩, .removeRecord aliceRemoval] ++
          [RaceEvent.removeDelete ⟨aliceRemoval, seconds 10⟩]) := rfl
    rw [hsplit]
    refine along_append.mpr ⟨⟨trivial, fun _ _ => ⟨trivial, fun _ _ => trivial⟩⟩, ?_⟩
    intro s hs
    rw [hfirst, Option.some.injEq] at hs
    subst hs
    refine along_append.mpr ⟨?_, ?_⟩
    · refine ⟨?_, fun _ _ => ⟨trivial, fun _ _ => ⟨trivial, fun _ _ => ⟨trivial, fun _ _ =>
        trivial⟩⟩⟩⟩
      intro name group t hn htoken _
      obtain ⟨rfl, rfl⟩ := hasToken_aliceTokens htoken
      rw [hname name hn]
      show aliceInSales.Belongs (.user, "alice") "sales"
      unfold MembershipGraph.Belongs
      decide +kernel
    · intro s hs
      rw [hsecond, Option.some.injEq] at hs
      subst hs
      refine ⟨?_, fun _ _ => trivial⟩
      intro h hh _ name group t _ htoken _ _ _
      obtain ⟨rfl, rfl⟩ := hasToken_aliceTokens htoken
      rw [List.mem_singleton.mp hh]
      refine ⟨by decide +kernel, by decide +kernel, ?_⟩
      rintro y ⟨r, hr, -, -, rfl⟩ -
      rw [List.mem_singleton.mp hr]
      decide +kernel
  have hrun : run (Race.step exactService id mintServer 1)
      (Race.start 0 aliceInSales aliceTokens RevocationTables.empty) mintThenRemove =
        some (raceEnd (seconds 10) 0) := by decide +kernel
  have haccepted : verify id (openSign id aliceSubtracted 0) (raceEnd (seconds 10) 0).now =
      .ok (openSign id aliceSubtracted 0).body := by decide +kernel
  have hlost : ¬ (raceEnd (seconds 10) 0).graph.Belongs (.user, "alice") "sales" := by
    unfold MembershipGraph.Belongs
    decide +kernel
  have hscope : (readState exactService mintServer (raceEnd (seconds 10) 0)
      WatchStatus.new).scopeFor (openSign id aliceSubtracted 0).body
        ⟨(raceEnd (seconds 10) 0).now, 10⟩ = .ok (aliceTokens, ⟨1, [1], [], .internal⟩) := by
    decide +kernel
  refine ⟨_, hscope, ?_⟩
  exact no_mint_slips_through exactLookup_exactService hsafe hrun (List.mem_singleton.mpr rfl)
    haccepted hscope ⟨"user:alice", rfl, by decide +kernel⟩
    (by unfold HasToken; decide +kernel : HasToken aliceTokens 1 (groupPrincipal "sales") 7) hlost

/-- The removal between the mint's subtraction and its stamp: when both are done, alice is in
no group, and her handle reads with the token of the sales group. -/
theorem removal_inside_mint_leaks :
    run (Race.step exactService id mintServer 1)
        (Race.start 0 aliceInSales aliceTokens RevocationTables.empty) removeInsideMint =
      some (raceEnd (seconds 20) (seconds 20)) ∧
    aliceInSales.Belongs (.user, "alice") "sales" ∧
    ¬ (raceEnd (seconds 20) (seconds 20)).graph.Belongs (.user, "alice") "sales" ∧
    HasToken (raceEnd (seconds 20) (seconds 20)).principals 1 (groupPrincipal "sales") 7 ∧
    verify id (openSign id aliceSubtracted (seconds 20)) (seconds 20) =
      .ok (openSign id aliceSubtracted (seconds 20)).body ∧
    ((readState exactService mintServer (raceEnd (seconds 20) (seconds 20))
        WatchStatus.new).scopeFor (openSign id aliceSubtracted (seconds 20)).body
          ⟨seconds 20, 20⟩).map (fun r => r.2.principals) = .ok [1, 7] := by
  unfold MembershipGraph.Belongs HasToken
  refine ⟨?_, ?_, ?_, ?_, ?_, ?_⟩ <;> decide +kernel

end Verity.Analysis
