import Verity.Foundation.Run
import Verity.Model.Revocation

/-!
# What the revocation subtraction drops

A token should be dropped from a handle when some tombstone of it is at or after the
handle's mint instant. The plane keeps, for each token, only the earliest tombstone of the
retention window, and compares that one (`mem_subtract_iff`): the token is dropped when all
its retained tombstones are at or after the instant. The two agree unless the token has
tombstones on both sides of it.

The rest of the design holds together. A tombstone at or after the mint instant of a handle
that is still accepted is always retained, because no handle lives longer than
`maxTtlSeconds` and the retention window is an hour longer (`retained_of_accepted`).

`subtract_drops_revoked_iff` is the read path, over every run of revocations, re-grants and
mints. `mint_agrees_with_admin_iff` is the same collapse against the admin plane, which
reads the tombstones row by row.
-/

set_option autoImplicit false

namespace Verity.Analysis

open Verity.Model Verity.Foundation

variable {tables : RevocationTables} {tenant : TenantId} {now x : Time} {t : PrincipalToken}

/-! ## The subtraction in terms of tombstones -/

/-- Token `t` was revoked at instant `x`. -/
def Tombstone (tables : RevocationTables) (tenant : TenantId) (t : PrincipalToken) (x : Time) :
    Prop :=
  ∃ r ∈ tables.revocations, r.tenantId = tenant ∧ r.token = t ∧ r.instant = x

/-- The retention window of a read at `now` reaches back to `x`. -/
def Retained (now x : Time) : Prop := now - seconds retentionSecs < x

theorem mem_retained_rows_iff :
    (t, x) ∈ ((tables.revocations.filter fun r =>
      r.tenantId = tenant ∧ now - seconds retentionSecs < r.instant).map fun r =>
        (r.token, r.instant)) ↔ Tombstone tables tenant t x ∧ Retained now x := by
  simp only [List.mem_map, List.mem_filter, decide_eq_true_eq, Prod.mk.injEq]
  constructor
  · rintro ⟨r, ⟨hr, htenant, hret⟩, rfl, rfl⟩
    exact ⟨⟨r, hr, htenant, rfl, rfl⟩, hret⟩
  · rintro ⟨⟨r, hr, htenant, rfl, rfl⟩, hret⟩
    exact ⟨r, ⟨hr, htenant, hret⟩, rfl, rfl⟩

theorem survives_iff {tombstones : List (PrincipalToken × Time)} {revoked : List PrincipalToken}
    {issuedAt : Time} :
    RevocationTables.survives tombstones revoked issuedAt t = true ↔
      t ∉ revoked ∧ ∀ m, tombstones.lookup t = some m → m < issuedAt := by
  unfold RevocationTables.survives
  cases tombstones.lookup t with
  | none => simp
  | some m => simp

/-- A token is kept when it is not durably revoked and not all of its retained tombstones,
of which there is at least one, are at or after the instant. -/
theorem mem_subtract_iff {principals : List PrincipalToken} {issuedAt : Time} :
    t ∈ tables.subtract tenant principals issuedAt now ↔
      t ∈ principals ∧ t ∉ tables.revokedSet tenant ∧
        ((∃ x, Tombstone tables tenant t x ∧ Retained now x) →
          ∃ x, (Tombstone tables tenant t x ∧ Retained now x) ∧ x < issuedAt) := by
  have hfilter : t ∈ principals.filter (RevocationTables.survives
      (tables.retainedTombstones tenant now) (tables.revokedSet tenant) issuedAt) ↔
      t ∈ principals ∧ t ∉ tables.revokedSet tenant ∧
        ((∃ x, Tombstone tables tenant t x ∧ Retained now x) →
          ∃ x, (Tombstone tables tenant t x ∧ Retained now x) ∧ x < issuedAt) := by
    rw [List.mem_filter, survives_iff, RevocationTables.retainedTombstones,
      lookup_groupMin_forall_le]
    simp only [mem_retained_rows_iff]
  rw [← hfilter]
  unfold RevocationTables.subtract
  -- with neither tombstones nor revoked principals the filter keeps everything
  by_cases hempty : ((tables.retainedTombstones tenant now).isEmpty &&
      (tables.revokedSet tenant).isEmpty) = true
  · rw [if_pos hempty]
    rw [Bool.and_eq_true, List.isEmpty_iff, List.isEmpty_iff] at hempty
    rw [List.mem_filter, survives_iff, hempty.1, hempty.2]
    simp
  · rw [if_neg hempty]

/-- The tombstones after a record: those before it, and one of each lost token at its
instant, when there is a principal to record them for. -/
theorem tombstone_record_iff {tenant' : TenantId} {affected : List String}
    {lost : List (String × PrincipalToken)} :
    Tombstone (tables.record tenant affected lost now) tenant' t x ↔
      Tombstone tables tenant' t x ∨
        (affected ≠ [] ∧ tenant' = tenant ∧ x = now ∧ ∃ l ∈ lost, l.2 = t) := by
  unfold Tombstone RevocationTables.record
  constructor
  · rintro ⟨r, hr, rfl, rfl, rfl⟩
    rcases List.mem_append.mp hr with hr | hr
    · exact Or.inl ⟨r, hr, rfl, rfl, rfl⟩
    · obtain ⟨principal, hp, hr⟩ := List.mem_flatMap.mp hr
      obtain ⟨l, hl, rfl⟩ := List.mem_map.mp hr
      exact Or.inr ⟨List.ne_nil_of_mem hp, rfl, rfl, l, hl, rfl⟩
  · rintro (⟨r, hr, hrest⟩ | ⟨hne, rfl, rfl, l, hl, rfl⟩)
    · exact ⟨r, List.mem_append_left _ hr, hrest⟩
    · obtain ⟨principal, hp⟩ := List.exists_mem_of_ne_nil _ hne
      refine ⟨⟨tenant', principal, l.2, x⟩, List.mem_append_right _ ?_, rfl, rfl, rfl⟩
      exact List.mem_flatMap.mpr ⟨principal, hp, List.mem_map.mpr ⟨l, hl, rfl⟩⟩

theorem mem_windowedRevokedTokens_iff {windowSecs : Int} :
    t ∈ tables.windowedRevokedTokens tenant windowSecs now ↔
      ∃ x, Tombstone tables tenant t x ∧ now - seconds (max windowSecs 0) < x := by
  unfold RevocationTables.windowedRevokedTokens
  simp only [List.mem_dedup, List.mem_map, List.mem_filter, decide_eq_true_eq]
  constructor
  · rintro ⟨r, ⟨hr, htenant, hin⟩, rfl⟩
    exact ⟨r.instant, ⟨r, hr, htenant, rfl, rfl⟩, hin⟩
  · rintro ⟨x, ⟨r, hr, htenant, rfl, rfl⟩, hin⟩
    exact ⟨r, ⟨hr, htenant, hin⟩, rfl⟩

/-! ## The mint and the admin view -/

/-- Take any tombstones of a tenant without durably revoked principals, any window within
the retention, and any instant whose window edge meets no tombstone. The mint drops exactly
the tokens of a principal list that the admin plane reports, which are those with a
tombstone inside the window, if and only if no token of the list with a tombstone inside the
window also has a retained one before it. -/
theorem mint_agrees_with_admin_iff {tables : RevocationTables} {tenant : TenantId}
    {windowSecs : Int} {now : Time} {principals : List PrincipalToken}
    (hdurable : tables.revokedSet tenant = []) (hnonneg : 0 ≤ windowSecs)
    (hwindow : windowSecs ≤ retentionSecs)
    (hedge : ∀ t x, Tombstone tables tenant t x → x ≠ now - seconds windowSecs) :
    (∀ t ∈ principals,
      (t ∉ tables.subtractWindow windowSecs tenant principals now ↔
        t ∈ tables.windowedRevokedTokens tenant windowSecs now) ∧
      (t ∈ tables.windowedRevokedTokens tenant windowSecs now ↔
        ∃ x, Tombstone tables tenant t x ∧ now - seconds windowSecs < x)) ↔
    (∀ t ∈ principals, ∀ x y, Tombstone tables tenant t x → Tombstone tables tenant t y →
      now - seconds windowSecs < x → Retained now y → ¬ y < now - seconds windowSecs) := by
  have hmax : max windowSecs 0 = windowSecs := max_eq_left hnonneg
  have hretained : ∀ x, now - seconds windowSecs < x → Retained now x := by
    intro x hx
    unfold Retained seconds Time at *
    omega
  have hreported : ∀ t, t ∈ tables.windowedRevokedTokens tenant windowSecs now ↔
      ∃ x, Tombstone tables tenant t x ∧ now - seconds windowSecs < x := by
    intro t
    rw [mem_windowedRevokedTokens_iff, hmax]
  have hkept : ∀ t ∈ principals, t ∈ tables.subtractWindow windowSecs tenant principals now ↔
      ((∃ x, Tombstone tables tenant t x ∧ Retained now x) →
        ∃ x, (Tombstone tables tenant t x ∧ Retained now x) ∧ x < now - seconds windowSecs) := by
    intro t ht
    unfold RevocationTables.subtractWindow
    rw [mem_subtract_iff, hmax, hdurable]
    simp [ht]
  constructor
  · intro hagree t ht x y hx hy hxin hyret hylt
    have hdropped := ((hagree t ht).1).mpr ((hreported t).mpr ⟨x, hx, hxin⟩)
    rw [hkept t ht] at hdropped
    exact hdropped fun _ => ⟨y, ⟨hy, hyret⟩, hylt⟩
  · intro hone t ht
    refine ⟨?_, hreported t⟩
    rw [hkept t ht, hreported]
    constructor
    · intro hdropped
      simp only [not_exists, not_and, not_lt, Classical.not_imp] at hdropped
      obtain ⟨⟨x, hx, hret⟩, hall⟩ := hdropped
      exact ⟨x, hx, lt_of_le_of_ne (hall x ⟨hx, hret⟩) (hedge t x hx).symm⟩
    · rintro ⟨x, hx, hxin⟩ hsome
      obtain ⟨y, ⟨hy, hyret⟩, hylt⟩ := hsome ⟨x, hx, hretained x hxin⟩
      exact hone t ht x y hx hy hxin hyret hylt

/-- One tenant's log: token 7 was revoked at the given seconds. -/
def revokedAt (instants : List Int) : RevocationTables where
  revocations := instants.map fun x =>
    { tenantId := 1, principal := "user:alice", token := 7, instant := seconds x }
  revokedPrincipals := []

/-- One tombstone inside the window: the mint and the admin view agree on the token it names and on
another. -/
theorem mint_agrees_with_admin_one_tombstone :
    (∀ t ∈ [7, 9],
      (t ∉ (revokedAt [1000]).subtractWindow 300 1 [7, 9] (seconds 1200) ↔
        t ∈ (revokedAt [1000]).windowedRevokedTokens 1 300 (seconds 1200)) ∧
      (t ∈ (revokedAt [1000]).windowedRevokedTokens 1 300 (seconds 1200) ↔
        ∃ x, Tombstone (revokedAt [1000]) 1 t x ∧ seconds 1200 - seconds 300 < x)) ↔
    (∀ t ∈ [7, 9], ∀ x y, Tombstone (revokedAt [1000]) 1 t x →
      Tombstone (revokedAt [1000]) 1 t y → seconds 1200 - seconds 300 < x →
      Retained (seconds 1200) y → ¬ y < seconds 1200 - seconds 300) := by
  refine mint_agrees_with_admin_iff (by decide) (by decide) (by decide) ?_
  rintro t x ⟨r, hr, -, -, rfl⟩
  simp only [revokedAt, List.map_cons, List.map_nil, List.mem_singleton] at hr
  subst hr
  decide

/-- Token 7 revoked twenty minutes and one minute before `now`, with a window of five
minutes: the admin plane reports it, the mint keeps it. -/
theorem mint_keeps_token_revoked_twice :
    (revokedAt [0, 1140]).revokedSet 1 = [] ∧
    7 ∈ (revokedAt [0, 1140]).windowedRevokedTokens 1 300 (seconds 1200) ∧
    7 ∈ (revokedAt [0, 1140]).subtractWindow 300 1 [7, 9] (seconds 1200) := by
  decide

/-! ## The read path -/

section Reads

variable {Tag : Type} [DecidableEq Tag] {sign : ScopePayload → Tag}

theorem clampTtl_le (ttlSeconds : Int) : clampTtl ttlSeconds ≤ maxTtlSeconds := by
  unfold clampTtl maxTtlSeconds
  split
  · omega
  · split <;> omega

/-- What the minter signs lives at most `maxTtlSeconds`. -/
def Bounded (payload : ScopePayload) : Prop :=
  payload.expiresAt ≤ payload.issuedAt + seconds maxTtlSeconds

theorem bounded_stampPayload (payload : ScopePayload) (ttlSeconds : Int) (now : Time) :
    Bounded (stampPayload payload ttlSeconds now) := by
  have hle := clampTtl_le ttlSeconds
  show now + seconds (clampTtl ttlSeconds) ≤ now + seconds maxTtlSeconds
  unfold seconds Time
  omega

theorem verify_eq_ok_iff {handle : Handle Tag} {payload : ScopePayload} :
    verify sign handle now = .ok payload ↔
      handle.sig = sign handle.body ∧ now ≤ handle.body.expiresAt ∧ payload = handle.body := by
  unfold verify
  by_cases hsig : handle.sig = sign handle.body
  · by_cases hexp : handle.body.expiresAt < now
    · simp [hsig, hexp, not_le.mpr hexp]
    · simp [hsig, hexp, not_lt.mp hexp, eq_comm]
  · simp [hsig]

/-- A tombstone at or after the mint instant of a handle that is still accepted has not left
the retention window. -/
theorem retained_of_accepted {payload : ScopePayload} (hbounded : Bounded payload)
    (haccepted : now ≤ payload.expiresAt) (hx : payload.issuedAt ≤ x) : Retained now x := by
  unfold Bounded Retained retentionSecs seconds Time at *
  omega

omit [DecidableEq Tag] in
/-- Every handle of a run was signed by the minter. -/
theorem minted_bounded {start : Time} {events : List PlaneEvent} {s : Plane Tag}
    (hrun : run (Plane.step sign) (Plane.init start) events = some s) :
    ∀ h ∈ s.minted, Bounded h.body := by
  refine run_induction (I := fun s => ∀ h ∈ s.minted, Bounded h.body) ?_
    (by simp [Plane.init]) hrun
  intro s e s' hs hstep
  cases e with
  | tick now =>
    simp only [Plane.step, Option.ite_none_right_eq_some, Option.some.injEq] at hstep
    rw [← hstep.2]
    exact hs
  | record tenant affected lost =>
    cases hstep
    exact hs
  | revoke tenant principal token =>
    cases hstep
    exact hs
  | reinstate tenant token =>
    cases hstep
    exact hs
  | mint payload ttlSeconds =>
    cases hstep
    intro h hh
    rcases List.mem_append.mp hh with hh | hh
    · exact hs h hh
    · rw [List.mem_singleton.mp hh]
      exact bounded_stampPayload payload ttlSeconds s.now

/-- In every run of tombstones, revocations, reinstatements and mints, and for every handle of
it that is accepted: the subtraction keeps exactly those of its tokens that are not durably
revoked and have no tombstone at or after its mint instant, if and only if no token of it
that is not durably revoked has a tombstone at or after the mint instant and a retained one
before it. -/
theorem subtract_drops_revoked_iff {start : Time} {events : List PlaneEvent} {s : Plane Tag}
    {handle : Handle Tag} {payload : ScopePayload}
    (hrun : run (Plane.step sign) (Plane.init start) events = some s) (hminted : handle ∈ s.minted)
    (haccepted : verify sign handle s.now = .ok payload) :
    (∀ t ∈ payload.principals,
      (t ∈ s.tables.subtract payload.tenantId payload.principals payload.issuedAt s.now ↔
        t ∉ s.tables.revokedSet payload.tenantId ∧
          ∀ x, Tombstone s.tables payload.tenantId t x → x < payload.issuedAt)) ↔
    (∀ t ∈ payload.principals, t ∉ s.tables.revokedSet payload.tenantId →
      ∀ x y, Tombstone s.tables payload.tenantId t x → Tombstone s.tables payload.tenantId t y →
        payload.issuedAt ≤ x → Retained s.now y → ¬ y < payload.issuedAt) := by
  obtain ⟨-, halive, rfl⟩ := verify_eq_ok_iff.mp haccepted
  have hbounded := minted_bounded hrun handle hminted
  constructor
  · intro hexact t ht hdurable x y hx hy hxafter hyret hylt
    have hkept : t ∈ s.tables.subtract handle.body.tenantId handle.body.principals
        handle.body.issuedAt s.now :=
      mem_subtract_iff.mpr ⟨ht, hdurable, fun _ => ⟨y, ⟨hy, hyret⟩, hylt⟩⟩
    have := ((hexact t ht).mp hkept).2 x hx
    exact absurd hxafter (not_le.mpr this)
  · intro hone t ht
    rw [mem_subtract_iff]
    constructor
    · rintro ⟨-, hdurable, hsome⟩
      refine ⟨hdurable, ?_⟩
      intro x hx
      by_contra hafter
      have hxafter := not_lt.mp hafter
      have hxret := retained_of_accepted hbounded halive hxafter
      obtain ⟨y, ⟨hy, hyret⟩, hylt⟩ := hsome ⟨x, hx, hxret⟩
      exact hone t ht hdurable x y hx hy hxafter hyret hylt
    · rintro ⟨hdurable, hall⟩
      refine ⟨ht, hdurable, ?_⟩
      rintro ⟨x, hx, hxret⟩
      exact ⟨x, ⟨hx, hxret⟩, hall x hx⟩

end Reads

/-- A payload of tenant 1 holding token 7. -/
def salesPayload : ScopePayload where
  tenantId := 1
  principals := [7]
  entityScope := []
  maxConfidentiality := .internal
  actorSub := none
  actorAzp := none
  subject := some "user:alice"
  issuedAt := 0
  expiresAt := 0

/-- Token 7 is revoked, granted again and signed into a handle, then revoked again. -/
def revokedAgain : List PlaneEvent :=
  [.record 1 ["user:alice"] [("group:sales", 7)], .tick (seconds 60), .mint salesPayload 3600,
    .tick (seconds 120), .record 1 ["user:alice"] [("group:sales", 7)]]

/-- The plane at the end of that run, with the identity as tag. -/
def revokedAgainPlane : Plane ScopePayload where
  now := seconds 120
  tables :=
    { revocations :=
        [{ tenantId := 1, principal := "user:alice", token := 7, instant := 0 },
          { tenantId := 1, principal := "user:alice", token := 7, instant := seconds 120 }]
      revokedPrincipals := [] }
  minted := [mint id salesPayload 3600 (seconds 60)]

/-- A token revoked before the handle was issued and once more after it: the handle keeps the token,
since the earliest tombstone is the one compared. -/
theorem subtract_drops_revoked_iff_second_revocation :
    (∀ t ∈ [(7 : PrincipalToken)],
      (t ∈ revokedAgainPlane.tables.subtract 1 [7] (seconds 60) (seconds 120) ↔
        t ∉ revokedAgainPlane.tables.revokedSet 1 ∧
          ∀ x, Tombstone revokedAgainPlane.tables 1 t x → x < seconds 60)) ↔
    (∀ t ∈ [(7 : PrincipalToken)], t ∉ revokedAgainPlane.tables.revokedSet 1 →
      ∀ x y, Tombstone revokedAgainPlane.tables 1 t x →
        Tombstone revokedAgainPlane.tables 1 t y →
        seconds 60 ≤ x → Retained (seconds 120) y → ¬ y < seconds 60) :=
  have hrun : run (Plane.step id) (Plane.init 0) revokedAgain = some revokedAgainPlane := rfl
  have haccepted : verify id (mint id salesPayload 3600 (seconds 60)) revokedAgainPlane.now =
      .ok (stampPayload salesPayload 3600 (seconds 60)) := rfl
  subtract_drops_revoked_iff hrun (List.mem_singleton.mpr rfl) haccepted

/-- The second revocation does not bite the handle minted before it: the first one, an
older tombstone of the same token, stands in front of it. -/
theorem second_revocation_spares_handle :
    run (Plane.step id) (Plane.init 0) revokedAgain = some revokedAgainPlane ∧
    verify id (mint id salesPayload 3600 (seconds 60)) revokedAgainPlane.now =
      .ok (stampPayload salesPayload 3600 (seconds 60)) ∧
    Tombstone revokedAgainPlane.tables 1 7 (seconds 120) ∧
    (stampPayload salesPayload 3600 (seconds 60)).issuedAt ≤ seconds 120 ∧
    7 ∈ revokedAgainPlane.tables.subtract 1 [7]
      (stampPayload salesPayload 3600 (seconds 60)).issuedAt revokedAgainPlane.now :=
  ⟨rfl, rfl, ⟨_, List.mem_cons_of_mem _ (List.mem_singleton.mpr rfl), rfl, rfl, rfl⟩, by decide,
    by decide⟩

end Verity.Analysis
