import Verity.Foundation.Run
import Verity.Model.Registry
import Verity.Model.Text

/-!
# The subjects of the registry

A subject is bound to a canonical principal by the row of the principal or by an alias. Within
either table a subject is bound once, and nothing compares the two tables. So a subject has one
canonical in every state the requests lead through exactly when every row that is written finds its
subject free in the other table, or bound there to the same canonical.
-/

set_option autoImplicit false

namespace Verity.Analysis

open Verity.Foundation
open Verity.Model
open Verity.Model.Registry

/-! ## Bindings -/

/-- A principal, active or not, has the subject, or an alias of the principal is it. -/
def Binds (r : Registry) (tenant : TenantId) (subject canonical : String) : Prop :=
  (∃ p ∈ r.canonicals, p.tenantId = tenant ∧ p.idpSubject = subject ∧ p.canonical = canonical) ∨
    ∃ a ∈ r.aliases, a.tenantId = tenant ∧ a.ssoAlias = subject ∧ a.canonical = canonical

/-- No subject is bound to two canonicals. -/
def OneCanonical (r : Registry) : Prop :=
  ∀ tenant subject c c', Binds r tenant subject c → Binds r tenant subject c' → c = c'

/-- No subject resolves to another principal once one is deactivated. -/
def AnswersStay (r : Registry) : Prop :=
  ∀ tenant canonical tenant' subject c c', r.resolveSubject tenant' subject = some c →
    (r.deactivate tenant canonical).resolveSubject tenant' subject = some c' → c' = c

section Bindings

variable {r : Registry} {tenant tenant' : TenantId} {subject canonical c : String}

theorem binds_of_resolveSubject (h : r.resolveSubject tenant subject = some c) :
    Binds r tenant subject c := by
  unfold resolveSubject at h
  obtain hdirect | ⟨-, hvia⟩ := Option.or_eq_some_iff.mp h
  · obtain ⟨p, hfind, rfl⟩ := Option.map_eq_some_iff.mp hdirect
    have hrow := List.find?_some hfind
    obtain ⟨htenant, hsubject, -⟩ := of_decide_eq_true hrow
    exact Or.inl ⟨p, List.mem_of_find?_eq_some hfind, htenant, hsubject, rfl⟩
  · obtain ⟨p, hbind, rfl⟩ := Option.map_eq_some_iff.mp hvia
    obtain ⟨a, hfind, hp⟩ := Option.bind_eq_some_iff.mp hbind
    have halias := List.find?_some hfind
    have hrow := List.find?_some hp
    obtain ⟨htenant, halias⟩ := of_decide_eq_true halias
    obtain ⟨-, hcanonical, -⟩ := of_decide_eq_true hrow
    exact Or.inr ⟨a, List.mem_of_find?_eq_some hfind, htenant, halias, hcanonical.symm⟩

theorem binds_deactivate :
    Binds (r.deactivate tenant canonical) tenant' subject c ↔ Binds r tenant' subject c := by
  unfold Binds
  refine or_congr_left ?_
  constructor
  · rintro ⟨p, hp, hbinds⟩
    obtain ⟨p', hp', rfl⟩ := List.mem_map.mp hp
    refine ⟨p', hp', ?_⟩
    split at hbinds <;> exact hbinds
  · rintro ⟨p, hp, hbinds⟩
    refine ⟨_, List.mem_map_of_mem hp, ?_⟩
    split <;> exact hbinds

theorem answersStay_of_oneCanonical (h : OneCanonical r) : AnswersStay r := by
  intro tenant canonical tenant' subject c c' hbefore hafter
  exact h tenant' subject c' c (binds_deactivate.mp (binds_of_resolveSubject hafter))
    (binds_of_resolveSubject hbefore)

/-- What a principal that is written has the subject for. -/
theorem mem_setCanonical {row : CanonicalPrincipalRow}
    {h : r.subjectConflict tenant subject row.canonical = none} {p : CanonicalPrincipal}
    (hp : p ∈ (r.setCanonical tenant subject row h).canonicals) :
    p ∈ r.canonicals ∨
      p.tenantId = tenant ∧ p.idpSubject = subject ∧ p.canonical = row.canonical := by
  unfold setCanonical at hp
  dsimp only at hp
  split at hp
  · obtain ⟨p', hp', rfl⟩ := List.mem_map.mp hp
    split
    · rename_i hrow
      obtain ⟨htenant, hcanonical⟩ := of_decide_eq_true hrow
      exact Or.inr ⟨htenant, rfl, hcanonical⟩
    · exact Or.inl hp'
  · obtain hp | hp := List.mem_append.mp hp
    · exact Or.inl hp
    · obtain rfl := List.mem_singleton.mp hp
      exact Or.inr ⟨rfl, rfl, rfl⟩

theorem exists_setCanonical (row : CanonicalPrincipalRow)
    (h : r.subjectConflict tenant subject row.canonical = none) :
    ∃ p ∈ (r.setCanonical tenant subject row h).canonicals,
      p.tenantId = tenant ∧ p.idpSubject = subject ∧ p.canonical = row.canonical := by
  unfold setCanonical
  dsimp only
  split
  · rename_i hany
    obtain ⟨p, hp, hrow⟩ := List.any_eq_true.mp hany
    obtain ⟨htenant, hcanonical⟩ := of_decide_eq_true hrow
    refine ⟨_, List.mem_map_of_mem hp, ?_⟩
    rw [if_pos hrow]
    exact ⟨htenant, rfl, hcanonical⟩
  · exact ⟨_, List.mem_append_right _ (List.mem_singleton_self _), rfl, rfl, rfl⟩

end Bindings

/-! ## Writes -/

/-- What a row of an upload, or a deprovisioning, is to write. -/
inductive RegistryWrite where
  | canonical (tenant : TenantId) (row : CanonicalPrincipalRow)
  | ssoAlias (tenant : TenantId) (row : SsoAliasRow)
  | deactivate (tenant : TenantId) (canonical : String)
deriving DecidableEq, Repr

section Writes

variable (toLowercase : String → String)

/-- The registry once a row is written or skipped. -/
def registryStep (r : Registry) : RegistryWrite → Option Registry
  | .canonical tenant row =>
    some ((r.upsertCanonical tenant (toLowercase row.idpSubject) row).getD r)
  | .ssoAlias tenant row => some ((r.upsertAlias tenant (toLowercase row.ssoAlias) row).getD r)
  | .deactivate tenant canonical => some (r.deactivate tenant canonical)

/-- The subject of a row that is written is not bound to another canonical in the other table. -/
def Guarded (r : Registry) : RegistryWrite → Prop
  | .canonical tenant row =>
    r.subjectConflict tenant (toLowercase row.idpSubject) row.canonical = none →
      ∀ a ∈ r.aliases, a.tenantId = tenant → a.ssoAlias = toLowercase row.idpSubject →
        a.canonical = row.canonical
  | .ssoAlias tenant row =>
    r.aliases.find? (isAlias tenant (toLowercase row.ssoAlias)) = none →
      ∀ p ∈ r.canonicals, p.tenantId = tenant → p.idpSubject = toLowercase row.ssoAlias →
        p.canonical = row.canonical
  | .deactivate _ _ => True

variable {toLowercase} {r r' : Registry}

/-- One binding more, of a subject that is not bound to another canonical. -/
theorem oneCanonical_bind (tenant : TenantId) (subject canonical : String) (h : OneCanonical r)
    (hbinds : ∀ tenant' subject' c, Binds r' tenant' subject' c → Binds r tenant' subject' c ∨
      tenant' = tenant ∧ subject' = subject ∧ c = canonical)
    (hsame : ∀ c, Binds r tenant subject c → c = canonical) : OneCanonical r' := by
  intro tenant' subject' c c' hc hc'
  obtain hold | ⟨rfl, rfl, rfl⟩ := hbinds tenant' subject' c hc
  · obtain hold' | ⟨rfl, rfl, rfl⟩ := hbinds tenant' subject' c' hc'
    · exact h tenant' subject' c c' hold hold'
    · exact hsame c hold
  · obtain hold' | ⟨-, -, rfl⟩ := hbinds tenant' subject' c' hc'
    · exact (hsame c' hold').symm
    · rfl

theorem oneCanonical_setCanonical {tenant : TenantId} {subject : String}
    {row : CanonicalPrincipalRow} {hnone : r.subjectConflict tenant subject row.canonical = none}
    (h : OneCanonical r) :
    OneCanonical (r.setCanonical tenant subject row hnone) ↔
      ∀ a ∈ r.aliases, a.tenantId = tenant → a.ssoAlias = subject →
        a.canonical = row.canonical := by
  constructor
  · intro hone a ha htenant halias
    exact hone tenant subject a.canonical row.canonical (Or.inr ⟨a, ha, htenant, halias, rfl⟩)
      (Or.inl (exists_setCanonical row hnone))
  · intro hguard
    refine oneCanonical_bind tenant subject row.canonical h ?_ ?_
    · rintro tenant' subject' c (⟨p, hp, rfl, rfl, rfl⟩ | ⟨a, ha, hbinds⟩)
      · obtain hp | hrow := mem_setCanonical hp
        · exact Or.inl (Or.inl ⟨p, hp, rfl, rfl, rfl⟩)
        · exact Or.inr hrow
      · exact Or.inl (Or.inr ⟨a, ha, hbinds⟩)
    · rintro c (⟨p, hp, htenant, hsubject, rfl⟩ | ⟨a, ha, htenant, halias, rfl⟩)
      · exact ne_of_subjectConflict hnone hp htenant hsubject
      · exact hguard a ha htenant halias

theorem oneCanonical_insertAlias {tenant : TenantId} {subject : String} {row : SsoAliasRow}
    {hnone : r.aliases.find? (isAlias tenant subject) = none} (h : OneCanonical r) :
    OneCanonical (r.insertAlias tenant subject row hnone) ↔
      ∀ p ∈ r.canonicals, p.tenantId = tenant → p.idpSubject = subject →
        p.canonical = row.canonical := by
  have hbound : Binds (r.insertAlias tenant subject row hnone) tenant subject row.canonical :=
    Or.inr ⟨_, List.mem_append_right _ (List.mem_singleton_self _), rfl, rfl, rfl⟩
  constructor
  · intro hone p hp htenant hsubject
    exact hone tenant subject p.canonical row.canonical (Or.inl ⟨p, hp, htenant, hsubject, rfl⟩)
      hbound
  · intro hguard
    refine oneCanonical_bind tenant subject row.canonical h ?_ ?_
    · rintro tenant' subject' c (hp | ⟨a, ha, htenant, halias, hcanonical⟩)
      · exact Or.inl (Or.inl hp)
      · obtain ha | ha := List.mem_append.mp ha
        · exact Or.inl (Or.inr ⟨a, ha, htenant, halias, hcanonical⟩)
        · obtain rfl := List.mem_singleton.mp ha
          exact Or.inr ⟨htenant.symm, halias.symm, hcanonical.symm⟩
    · rintro c (⟨p, hp, htenant, hsubject, rfl⟩ | ⟨a, ha, htenant, halias, -⟩)
      · exact hguard p hp htenant hsubject
      · exact absurd (decide_eq_true ⟨htenant, halias⟩) (List.find?_eq_none.mp hnone a ha)

theorem binds_updateAlias {tenant tenant' : TenantId} {ssoAlias source subject c : String} :
    Binds (r.updateAlias tenant ssoAlias source) tenant' subject c ↔
      Binds r tenant' subject c := by
  unfold Binds
  refine or_congr_right ?_
  constructor
  · rintro ⟨a, ha, hbinds⟩
    obtain ⟨a', ha', rfl⟩ := List.mem_map.mp ha
    refine ⟨a', ha', ?_⟩
    split at hbinds <;> exact hbinds
  · rintro ⟨a, ha, hbinds⟩
    refine ⟨_, List.mem_map_of_mem ha, ?_⟩
    split <;> exact hbinds

theorem oneCanonical_congr
    (h : ∀ {tenant subject c}, Binds r' tenant subject c ↔ Binds r tenant subject c) :
    OneCanonical r' ↔ OneCanonical r := by
  unfold OneCanonical
  simp only [h]

/-- A step keeps one canonical for each subject exactly when it is guarded. -/
theorem oneCanonical_step {w : RegistryWrite} (h : OneCanonical r)
    (hstep : registryStep toLowercase r w = some r') :
    OneCanonical r' ↔ Guarded toLowercase r w := by
  cases w with
  | canonical tenant row =>
    cases hstep
    unfold upsertCanonical Guarded
    split
    · rename_i hnone
      rw [Option.getD_some, oneCanonical_setCanonical h]
      exact ⟨fun hguard _ => hguard, fun hguard => hguard hnone⟩
    · rename_i hconflict
      exact ⟨fun _ hnone => absurd hnone hconflict, fun _ => h⟩
  | ssoAlias tenant row =>
    cases hstep
    unfold upsertAlias Guarded
    split
    · rename_i hnone
      rw [Option.getD_some, oneCanonical_insertAlias h]
      exact ⟨fun hguard _ => hguard, fun hguard => hguard hnone⟩
    · rename_i a hfind
      have hsome : r.aliases.find? (isAlias tenant (toLowercase row.ssoAlias)) ≠ none := by
        rw [hfind]
        exact Option.some_ne_none a
      refine ⟨fun _ hnone => absurd hnone hsome, fun _ => ?_⟩
      split
      · exact (oneCanonical_congr binds_updateAlias).mpr h
      · exact h
  | deactivate tenant canonical =>
    cases hstep
    exact ⟨fun _ => trivial, fun _ => (oneCanonical_congr binds_deactivate).mpr h⟩

end Writes

/-! ## Requests -/

section Requests

/-- The rows of an upload before the first whose canonical is no principal. -/
def acceptedRows {Row : Type} (canonical : Row → String) (rows : List Row) : List Row :=
  rows.takeWhile fun row => (parsePrincipal (canonical row)).isSome

/-- What a request comes to write, where these are the tenants. -/
def requestWrites (tenants : List TenantId) : RegistryRequest → List RegistryWrite
  | .canonical req =>
    if req.tenantId ∈ tenants then
      (acceptedRows (·.canonical) req.principals).map (.canonical req.tenantId)
    else []
  | .ssoAlias req =>
    if req.tenantId ∈ tenants then
      (acceptedRows (·.canonical) req.aliases).map (.ssoAlias req.tenantId)
    else []
  | .deprovision req _ =>
    if req.tenantId ∈ tenants then
      match parsePrincipal req.principal with
      | some (.user, _) => [.deactivate req.tenantId req.principal]
      | _ => []
    else []

variable {toLowercase : String → String}

/-- An upload leaves what its accepted rows write in turn. -/
theorem run_uploadRows {Row : Type} {canonical : Row → String} {refusal : String}
    {upsert : Registry → Row → Option Registry} {written : Row → String}
    {quarantine : Row → QuarantinedLink} {write : Row → RegistryWrite}
    (hwrite : ∀ r row, registryStep toLowercase r (write row) = some ((upsert r row).getD r))
    (rows : List Row) (r : Registry) (out : RegistryResponse) :
    run (registryStep toLowercase) r ((acceptedRows canonical rows).map write) =
      some (uploadRows canonical refusal upsert written quarantine r rows out).1 := by
  induction rows generalizing r out with
  | nil => rfl
  | cons row rows ih =>
    unfold acceptedRows uploadRows
    rw [List.takeWhile_cons]
    cases hparse : parsePrincipal (canonical row) with
    | none => rfl
    | some principal =>
      rw [Option.isSome_some, if_pos rfl, List.map_cons, run, hwrite, Option.bind_some]
      cases hupsert : upsert r row with
      | none => exact ih r _
      | some r' => exact ih r' _

/-- A request leaves what the rows it writes do. -/
theorem run_handle (plane : RegistryPlane) (req : RegistryRequest) :
    run (registryStep toLowercase) plane.registry (requestWrites plane.server.tenants req) =
      some (plane.handle toLowercase req).registry := by
  cases req with
  | canonical req =>
    simp only [RegistryPlane.handle, RegistryPlane.adminRegistryCanonical, requestWrites]
    by_cases htenant : req.tenantId ∈ plane.server.tenants
    · rw [if_pos htenant, if_neg (not_not.mpr htenant)]
      exact run_uploadRows (fun _ _ => rfl) req.principals plane.registry ⟨[], []⟩
    · rw [if_neg htenant, if_pos htenant]
      rfl
  | ssoAlias req =>
    simp only [RegistryPlane.handle, RegistryPlane.adminRegistryAlias, requestWrites]
    by_cases htenant : req.tenantId ∈ plane.server.tenants
    · rw [if_pos htenant, if_neg (not_not.mpr htenant)]
      exact run_uploadRows (fun _ _ => rfl) req.aliases plane.registry ⟨[], []⟩
    · rw [if_neg htenant, if_pos htenant]
      rfl
  | deprovision req now =>
    simp only [RegistryPlane.handle, RegistryPlane.adminDeprovision, requestWrites]
    by_cases htenant : req.tenantId ∈ plane.server.tenants
    · rw [if_pos htenant, if_neg (not_not.mpr htenant)]
      cases parsePrincipal req.principal with
      | none => rfl
      | some principal =>
        obtain ⟨kind, name⟩ := principal
        cases kind <;> rfl
    · rw [if_neg htenant, if_pos htenant]
      rfl

theorem handle_tenants (plane : RegistryPlane) (req : RegistryRequest) :
    (plane.handle toLowercase req).server.tenants = plane.server.tenants := by
  cases req with
  | canonical req =>
    simp only [RegistryPlane.handle, RegistryPlane.adminRegistryCanonical]
    split <;> rfl
  | ssoAlias req =>
    simp only [RegistryPlane.handle, RegistryPlane.adminRegistryAlias]
    split <;> rfl
  | deprovision req now =>
    simp only [RegistryPlane.handle, RegistryPlane.adminDeprovision]
    split
    · rfl
    · split <;> rfl

/-- The requests leave what the rows they come to write do. -/
theorem run_handleAll (plane : RegistryPlane) (reqs : List RegistryRequest) :
    run (registryStep toLowercase) plane.registry
        (reqs.flatMap (requestWrites plane.server.tenants)) =
      some (reqs.foldl (RegistryPlane.handle toLowercase) plane).registry := by
  induction reqs generalizing plane with
  | nil => rfl
  | cons req reqs ih =>
    have hrest := ih (plane.handle toLowercase req)
    rw [handle_tenants] at hrest
    rw [List.flatMap_cons, List.foldl_cons]
    exact run_append.mpr ⟨_, run_handle plane req, hrest⟩

/-- Over every sequence of uploads of principals and of aliases and of deprovisionings, refused ones
too: in every state that is committed each subject has one canonical and keeps the principal it
resolves to when another is deactivated, exactly when every row that is written finds its subject
not bound to another canonical in the other table. -/
theorem oneCanonical_iff_guarded (tenants : List TenantId) (reqs : List RegistryRequest) :
    (∀ before after r, reqs.flatMap (requestWrites tenants) = before ++ after →
      run (registryStep toLowercase) Registry.empty before = some r →
        OneCanonical r ∧ AnswersStay r) ↔
      Along (registryStep toLowercase) (Guarded toLowercase) Registry.empty
        (reqs.flatMap (requestWrites tenants)) := by
  have hempty : OneCanonical Registry.empty := by
    rintro tenant subject c c' (⟨p, hp, -⟩ | ⟨a, ha, -⟩)
    · cases hp
    · cases ha
  have htotal : ∀ ws r, ∃ r', run (registryStep toLowercase) r ws = some r' := by
    intro ws
    induction ws with
    | nil => exact fun r => ⟨r, rfl⟩
    | cons w ws ih =>
      intro r
      cases w with
      | canonical tenant row => exact ih _
      | ssoAlias tenant row => exact ih _
      | deactivate tenant canonical => exact ih _
  obtain ⟨r, hrun⟩ := htotal (reqs.flatMap (requestWrites tenants)) Registry.empty
  rw [← run_invariant_iff (I := fun _ => True) (G := OneCanonical) (fun _ _ _ _ _ => trivial)
    (fun _ _ _ _ h hstep => oneCanonical_step h hstep) trivial hempty hrun]
  constructor
  · intro h before after r₁ hsplit hbefore
    exact (h before after r₁ hsplit hbefore).1
  · intro h before after r₁ hsplit hbefore
    have hone := h before after r₁ hsplit hbefore
    exact ⟨hone, answersStay_of_oneCanonical hone⟩

end Requests

/-- Alice and Bob with their addresses, and hers declared as an alias of him. -/
def borrowedAddress : List RegistryRequest :=
  [.canonical ⟨1, [⟨"user:alice@corp.com", "user", "alice@corp.com", true, 1⟩,
    ⟨"user:bob@corp.com", "user", "bob@corp.com", true, 1⟩]⟩,
    .ssoAlias ⟨1, [⟨"user:bob@corp.com", "alice@corp.com", "admin_declared"⟩]⟩]

/-- Once Alice is deprovisioned her address resolves to Bob. -/
theorem borrowed_address_resolves :
    ¬ ∀ (tenants : List TenantId) (reqs : List RegistryRequest) (r : Registry),
      run (registryStep toAsciiLowercase) Registry.empty (reqs.flatMap (requestWrites tenants)) =
        some r → OneCanonical r ∧ AnswersStay r := by
  intro hclaim
  have hview : (run (registryStep toAsciiLowercase) Registry.empty
      (borrowedAddress.flatMap (requestWrites [1]))).map (fun r =>
        (r.resolveSubject 1 "alice@corp.com",
          (r.deactivate 1 "user:alice@corp.com").resolveSubject 1 "alice@corp.com")) =
      some (some "user:alice@corp.com", some "user:bob@corp.com") := by
    decide +kernel
  obtain ⟨r, hrun, hview⟩ := Option.map_eq_some_iff.mp hview
  obtain ⟨hbefore, hafter⟩ := Prod.mk.inj hview
  have hsame := (hclaim [1] borrowedAddress r hrun).2 1 "user:alice@corp.com" 1 "alice@corp.com"
    "user:alice@corp.com" "user:bob@corp.com" hbefore hafter
  exact absurd hsame (by decide)

end Verity.Analysis
