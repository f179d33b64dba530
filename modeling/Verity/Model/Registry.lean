import Verity.Model.OpenScope

/-!
# The registry of canonical principals

A person is one canonical principal, a row of `canonical_principal` with the subject the identity
provider knows the person by; `principal_sso_alias` has further subjects. The uploads of both tables
skip a subject that is bound to another principal in the same table, and a deprovisioned principal
stays in the table without being active.

Every row is committed on its own, so a refused row leaves those before it. The crosswalk table, the
audit of the requests, the admin key and the sweep of the chunks are left out.
-/

set_option autoImplicit false

namespace Verity.Model

open Verity.Foundation

/-- SOURCE: migrations/0039_identity_crosswalk.sql:16-25 -/
structure CanonicalPrincipal where
  tenantId : TenantId
  canonical : String
  kind : String
  idpSubject : String
  active : Bool
  epoch : Int
deriving DecidableEq, Repr

/-- SOURCE: migrations/0039_identity_crosswalk.sql:27-33 -/
structure SsoAlias where
  tenantId : TenantId
  canonical : String
  ssoAlias : String
  source : String
deriving DecidableEq, Repr

/-- The two tables, with the key and the unique constraints of the schema. -/
structure Registry where
  canonicals : List CanonicalPrincipal
  aliases : List SsoAlias
  canonical_unique : canonicals.Pairwise fun r r' =>
    ¬ (r.tenantId = r'.tenantId ∧ r.canonical = r'.canonical)
  subject_unique : canonicals.Pairwise fun r r' =>
    ¬ (r.tenantId = r'.tenantId ∧ r.idpSubject = r'.idpSubject)
  alias_unique : aliases.Pairwise fun a a' =>
    ¬ (a.tenantId = a'.tenantId ∧ a.ssoAlias = a'.ssoAlias)

/-- SOURCE: main.rs:6125-6140 -/
structure CanonicalPrincipalRow where
  canonical : String
  kind : String
  idpSubject : String
  active : Bool := true
  epoch : Int := 1
deriving DecidableEq, Repr

/-- SOURCE: main.rs:6242-6247 -/
structure SsoAliasRow where
  canonical : String
  ssoAlias : String
  source : String
deriving DecidableEq, Repr

namespace Registry

def empty : Registry := ⟨[], [], by simp, by simp, by simp⟩

/-- A canonical principal other than this one that has the subject.
SOURCE: main.rs:6183-6192 -/
def subjectConflict (r : Registry) (tenant : TenantId) (subject canonical : String) :
    Option String :=
  (r.canonicals.find? fun p =>
    p.tenantId = tenant ∧ p.idpSubject = subject ∧ p.canonical ≠ canonical).map (·.canonical)

/-- The row of a canonical principal, whatever it is now. -/
def isCanonical (tenant : TenantId) (canonical : String) (p : CanonicalPrincipal) : Bool :=
  decide (p.tenantId = tenant ∧ p.canonical = canonical)

/-- What an upload makes of a row it meets. -/
def assignRow (row : CanonicalPrincipalRow) (subject : String) (p : CanonicalPrincipal) :
    CanonicalPrincipal :=
  { p with kind := row.kind, idpSubject := subject, active := row.active, epoch := row.epoch }

theorem isCanonical_once (r : Registry) (tenant : TenantId) (canonical : String) :
    r.canonicals.Pairwise fun p p' =>
      ¬ (isCanonical tenant canonical p = true ∧ isCanonical tenant canonical p' = true) := by
  refine r.canonical_unique.imp ?_
  rintro p p' hne ⟨hp, hp'⟩
  obtain ⟨htenant, hcanonical⟩ := of_decide_eq_true hp
  obtain ⟨htenant', hcanonical'⟩ := of_decide_eq_true hp'
  exact hne ⟨htenant.trans htenant'.symm, hcanonical.trans hcanonical'.symm⟩

theorem ne_of_subjectConflict {r : Registry} {tenant : TenantId} {subject canonical : String}
    (h : r.subjectConflict tenant subject canonical = none) {p : CanonicalPrincipal}
    (hp : p ∈ r.canonicals) (htenant : p.tenantId = tenant) (hsubject : p.idpSubject = subject) :
    p.canonical = canonical := by
  unfold subjectConflict at h
  rw [Option.map_eq_none_iff, List.find?_eq_none] at h
  have hnot := h p hp
  rw [decide_eq_true_iff] at hnot
  by_contra hne
  exact hnot ⟨htenant, hsubject, hne⟩

/-- The row of a canonical principal under a subject that no other one has.
SOURCE: main.rs:6201-6218 -/
def setCanonical (r : Registry) (tenant : TenantId) (subject : String) (row : CanonicalPrincipalRow)
    (h : r.subjectConflict tenant subject row.canonical = none) : Registry where
  aliases := r.aliases
  alias_unique := r.alias_unique
  canonicals :=
    if r.canonicals.any (isCanonical tenant row.canonical) then
      updateWhere (isCanonical tenant row.canonical) (assignRow row subject) r.canonicals
    else r.canonicals ++ [⟨tenant, row.canonical, row.kind, subject, row.active, row.epoch⟩]
  canonical_unique := by
    split
    · refine pairwise_updateWhere r.canonical_unique (r.isCanonical_once tenant row.canonical) ?_
      intro p hp p' _ hp'
      obtain ⟨rfl, hcanonical⟩ := of_decide_eq_true hp
      have hne := of_decide_eq_false hp'
      rw [← hcanonical] at hne
      exact ⟨fun h => hne ⟨h.1.symm, h.2.symm⟩, fun h => hne h⟩
    · rename_i hany
      rw [List.pairwise_append]
      refine ⟨r.canonical_unique, List.pairwise_singleton _ _, ?_⟩
      rintro p hp p' hp' ⟨htenant, hcanonical⟩
      obtain rfl := List.mem_singleton.mp hp'
      exact hany (List.any_eq_true.mpr ⟨p, hp, decide_eq_true ⟨htenant, hcanonical⟩⟩)
  subject_unique := by
    split
    · refine pairwise_updateWhere r.subject_unique (r.isCanonical_once tenant row.canonical) ?_
      intro p hp p' hmem hp'
      obtain ⟨htenant, -⟩ := of_decide_eq_true hp
      have hother : p'.tenantId = tenant → p'.idpSubject ≠ subject := by
        intro htenant' hsubject
        exact of_decide_eq_false hp' ⟨htenant', ne_of_subjectConflict h hmem htenant' hsubject⟩
      constructor
      · rintro ⟨hsame, hsubject⟩
        exact hother (hsame.symm.trans htenant) hsubject.symm
      · rintro ⟨hsame, hsubject⟩
        exact hother (hsame.trans htenant) hsubject
    · rename_i hany
      rw [List.pairwise_append]
      refine ⟨r.subject_unique, List.pairwise_singleton _ _, ?_⟩
      rintro p hp p' hp' ⟨htenant, hsubject⟩
      obtain rfl := List.mem_singleton.mp hp'
      exact hany (List.any_eq_true.mpr
        ⟨p, hp, decide_eq_true ⟨htenant, ne_of_subjectConflict h hp htenant hsubject⟩⟩)

/-- One row of an upload of canonical principals, unless its subject is bound to another.
SOURCE: main.rs:6180-6219 -/
def upsertCanonical (r : Registry) (tenant : TenantId) (subject : String)
    (row : CanonicalPrincipalRow) : Option Registry :=
  if h : r.subjectConflict tenant subject row.canonical = none then
    some (r.setCanonical tenant subject row h)
  else none

/-- The alias of a tenant. -/
def isAlias (tenant : TenantId) (ssoAlias : String) (a : SsoAlias) : Bool :=
  decide (a.tenantId = tenant ∧ a.ssoAlias = ssoAlias)

/-- A new alias. -/
def insertAlias (r : Registry) (tenant : TenantId) (ssoAlias : String) (row : SsoAliasRow)
    (h : r.aliases.find? (isAlias tenant ssoAlias) = none) : Registry :=
  { r with
    aliases := r.aliases ++ [⟨tenant, row.canonical, ssoAlias, row.source⟩]
    alias_unique := by
      rw [List.pairwise_append]
      refine ⟨r.alias_unique, List.pairwise_singleton _ _, ?_⟩
      rintro a ha a' ha' ⟨htenant, halias⟩
      obtain rfl := List.mem_singleton.mp ha'
      exact List.find?_eq_none.mp h a ha (decide_eq_true ⟨htenant, halias⟩) }

/-- The source of an alias is another one. -/
def updateAlias (r : Registry) (tenant : TenantId) (ssoAlias source : String) : Registry :=
  { r with
    aliases :=
      updateWhere (isAlias tenant ssoAlias) (fun a => { a with source := source }) r.aliases
    alias_unique := by
      unfold updateWhere
      rw [List.pairwise_map]
      refine r.alias_unique.imp ?_
      intro a a' hne
      split <;> split <;> exact hne }

/-- One row of an upload of aliases; nothing where the alias is bound to another principal.
SOURCE: main.rs:6284-6312 -/
def upsertAlias (r : Registry) (tenant : TenantId) (ssoAlias : String) (row : SsoAliasRow) :
    Option Registry :=
  match h : r.aliases.find? (isAlias tenant ssoAlias) with
  | none => some (r.insertAlias tenant ssoAlias row h)
  | some a =>
    if a.canonical = row.canonical then some (r.updateAlias tenant ssoAlias row.source) else none

/-- SOURCE: main.rs:6442-6450 -/
def deactivate (r : Registry) (tenant : TenantId) (canonical : String) : Registry :=
  { r with
    canonicals :=
      updateWhere (isCanonical tenant canonical) (fun p => { p with active := false }) r.canonicals
    canonical_unique := by
      unfold updateWhere
      rw [List.pairwise_map]
      refine r.canonical_unique.imp ?_
      intro p p' hne
      split <;> split <;> exact hne
    subject_unique := by
      unfold updateWhere
      rw [List.pairwise_map]
      refine r.subject_unique.imp ?_
      intro p p' hne
      split <;> split <;> exact hne }

/-- The principal a subject resolves to: the active one that has it, else the one of its alias when
that is active. -/
def resolveSubject (r : Registry) (tenant : TenantId) (subject : String) : Option String :=
  let direct := r.canonicals.find? fun p =>
    p.tenantId = tenant ∧ p.idpSubject = subject ∧ p.active = true
  let viaAlias := (r.aliases.find? (isAlias tenant subject)).bind fun a =>
    r.canonicals.find? fun p => p.tenantId = tenant ∧ p.canonical = a.canonical ∧ p.active = true
  (direct.map (·.canonical)).or (viaAlias.map (·.canonical))

/-- SOURCE: main.rs:5052-5092 -/
def resolveIdpSubject (r : Registry) (tenant : TenantId) (subjects : List String) :
    List (Option String) :=
  subjects.map (r.resolveSubject tenant)

end Registry

/-! ## The requests -/

/-- SOURCE: main.rs:6143-6147 -/
structure CanonicalRegistryRequest where
  tenantId : TenantId
  principals : List CanonicalPrincipalRow
deriving DecidableEq, Repr

/-- SOURCE: main.rs:6249-6253 -/
structure SsoAliasRequest where
  tenantId : TenantId
  aliases : List SsoAliasRow
deriving DecidableEq, Repr

/-- SOURCE: main.rs:5974-5980 -/
structure PrincipalRevokeRequest where
  tenantId : TenantId
  principal : String
deriving DecidableEq, Repr

/-- A row that is not written, pending an admin. -/
structure QuarantinedLink where
  canonical : String
  subject : String
  reason : String
deriving DecidableEq, Repr

structure RegistryResponse where
  upserted : List String
  quarantined : List QuarantinedLink
deriving DecidableEq, Repr

/-- The rows of an upload, one after the other. The first whose canonical is no principal ends it,
with what was written before. -/
def uploadRows {Row : Type} (canonical : Row → String) (refusal : String)
    (upsert : Registry → Row → Option Registry) (written : Row → String)
    (quarantine : Row → QuarantinedLink) (r : Registry) :
    List Row → RegistryResponse → Registry × Except HandlerError RegistryResponse
  | [], out => (r, .ok out)
  | row :: rows, out =>
    match parsePrincipal (canonical row) with
    | none => (r, .error ⟨422, refusal ++ canonical row⟩)
    | some _ =>
      match upsert r row with
      | some r' =>
        uploadRows canonical refusal upsert written quarantine r' rows
          { out with upserted := out.upserted ++ [written row] }
      | none =>
        uploadRows canonical refusal upsert written quarantine r rows
          { out with quarantined := out.quarantined ++ [quarantine row] }

/-- The server, and its registry. -/
structure RegistryPlane where
  server : Server
  registry : Registry

namespace RegistryPlane

variable (toLowercase : String → String) (plane : RegistryPlane)

/-- SOURCE: main.rs:6154-6240 -/
def adminRegistryCanonical (req : CanonicalRegistryRequest) :
    RegistryPlane × Except HandlerError RegistryResponse :=
  if req.tenantId ∉ plane.server.tenants then
    (plane, .error (storageStatus (.unknownTenant req.tenantId)))
  else
    let (registry, answer) :=
      uploadRows (·.canonical) "canonical must be \"user:<email>\" or \"group:<name>\": "
        (fun r row => r.upsertCanonical req.tenantId (toLowercase row.idpSubject) row)
        (·.canonical)
        (fun row => ⟨row.canonical, toLowercase row.idpSubject, "idp_subject_already_bound"⟩)
        plane.registry req.principals ⟨[], []⟩
    ({ plane with registry := registry }, answer)

/-- SOURCE: main.rs:6259-6331 -/
def adminRegistryAlias (req : SsoAliasRequest) :
    RegistryPlane × Except HandlerError RegistryResponse :=
  if req.tenantId ∉ plane.server.tenants then
    (plane, .error (storageStatus (.unknownTenant req.tenantId)))
  else
    let (registry, answer) :=
      uploadRows (·.canonical) "canonical must be \"user:<email>\"/\"group:<name>\": "
        (fun r row => r.upsertAlias req.tenantId (toLowercase row.ssoAlias) row)
        (fun row => toLowercase row.ssoAlias)
        (fun row => ⟨row.canonical, toLowercase row.ssoAlias, "alias_already_bound"⟩)
        plane.registry req.aliases ⟨[], []⟩
    ({ plane with registry := registry }, answer)

/-- The principal is inactive from now on, and revoked.
SOURCE: main.rs:6417-6457, 5986-5996 -/
def adminDeprovision (req : PrincipalRevokeRequest) (now : Time) :
    RegistryPlane × Except HandlerError PrincipalToken :=
  if req.tenantId ∉ plane.server.tenants then
    (plane, .error (storageStatus (.unknownTenant req.tenantId)))
  else
    match parsePrincipal req.principal with
    | some (.user, _) =>
      let (principals, token) := plane.server.principals.upsertToken req.tenantId req.principal
      let revocations :=
        plane.server.revocations.revokePrincipal req.tenantId req.principal token now
      let server := { plane.server with principals := principals, revocations := revocations }
      (⟨server, plane.registry.deactivate req.tenantId req.principal⟩, .ok token)
    | _ =>
      (plane, .error ⟨422, "principal must be a user principal: \"user:<verified-email>\" " ++
        "(group-membership revocation is /v1/admin/groups)"⟩)

end RegistryPlane

inductive RegistryRequest where
  | canonical (req : CanonicalRegistryRequest)
  | ssoAlias (req : SsoAliasRequest)
  | deprovision (req : PrincipalRevokeRequest) (now : Time)
deriving DecidableEq, Repr

/-- What a request leaves, whether it is refused or not. -/
def RegistryPlane.handle (toLowercase : String → String) (plane : RegistryPlane) :
    RegistryRequest → RegistryPlane
  | .canonical req => (plane.adminRegistryCanonical toLowercase req).1
  | .ssoAlias req => (plane.adminRegistryAlias toLowercase req).1
  | .deprovision req now => (plane.adminDeprovision req now).1

end Verity.Model
