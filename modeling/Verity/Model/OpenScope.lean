import Verity.Model.ReadPath

/-!
# Minting a handle

`open_scope`. With a permission service configured, the handle of a `subject` is made in
three steps that other calls can come between: the subject's groups are read from the
service (`openResolve`), their tokens are allocated and the recent tombstones subtracted
(`openSubtract`), and the payload is stamped and signed (`openSign`). `openScope` is their
composition at one instant.
-/

set_option autoImplicit false

namespace Verity.Model

/-- SOURCE: purpose.rs:51-54 -/
structure PurposeRule where
  maxConfidentiality : Confidentiality
  requireEntityScope : Bool
deriving DecidableEq, Repr

/-- The server's state, with what minting reads of its configuration. -/
structure Server extends AppState where
  tenants : List TenantId
  purposes : List (String × PurposeRule)
  windowSecs : Int

/-- SOURCE: main.rs:2203-2232 -/
structure OpenScopeRequest where
  tenantId : TenantId
  principals : List PrincipalToken
  subject : Option String
  entityScope : List String
  maxConfidentiality : Confidentiality
  actorSub : Option String
  actorAzp : Option String
  ttlSeconds : Int
  purpose : Option String
deriving DecidableEq, Repr

/-- The requested ceiling, lowered to what the purpose allows.
SOURCE: main.rs:2264-2281 -/
def purposeCeiling (purposes : List (String × PurposeRule)) (req : OpenScopeRequest) :
    Except HandlerError Confidentiality :=
  match req.purpose with
  | none => .ok req.maxConfidentiality
  | some purpose =>
    match purposes.lookup purpose with
    | none => .error ⟨422, "unknown purpose " ++ purpose.quote⟩
    | some rule =>
      if rule.requireEntityScope && req.entityScope.isEmpty then
        .error ⟨422, "purpose " ++ purpose.quote ++ " requires a non-empty entity_scope"⟩
      else .ok (min req.maxConfidentiality rule.maxConfidentiality)

/-- The user name of a subject that may be resolved: the caller names no principals itself.
SOURCE: main.rs:2295-2308 -/
def mintSubject (req : OpenScopeRequest) (subject : String) : Except HandlerError String :=
  if !req.principals.isEmpty then
    .error ⟨422, "supply either subject or principals, not both — " ++
      "principals are resolved server-side when identity is live"⟩
  else
    match parsePrincipal subject with
    | some (.user, name) => .ok name
    | _ => .error ⟨422, "subject must be a user principal: \"user:<id>\""⟩

/-- The subject's groups. A membership cycle leaves the subject without any; every other
failure refuses the mint.
SOURCE: main.rs:2309-2335 -/
def mintGroups (db : SpiceDb) (tenant : TenantId) (name : String) :
    Except HandlerError (List String) :=
  match db.userGroups tenant name with
  | .ok groups => .ok groups
  | .error e =>
    if e.isMaxDepth then .ok []
    else .error ⟨502, "identity resolution failed: " ++ e.text⟩

/-- The tokens to sign: the subject's own, unless it is durably revoked, and its groups',
less those with a tombstone inside the window.
SOURCE: main.rs:2346-2384 -/
def mintTokens (principals : PrincipalTable) (revocations : RevocationTables) (windowSecs : Int)
    (tenant : TenantId) (subject : String) (groups : List String) (now : Time) :
    PrincipalTable × List PrincipalToken :=
  let (principals, selfToken) := principals.upsertToken tenant subject
  let subjectRevoked := (revocations.revokedSet tenant).contains selfToken
  let principalStrings := if subjectRevoked then groups else subject :: groups
  let (principals, mappings) := principals.upsertPrincipalTokens tenant principalStrings
  (principals, revocations.subtractWindow windowSecs tenant (mappings.map Prod.snd) now)

/-- The payload handed to the minter, which overwrites the two instants.
SOURCE: main.rs:2394-2406 -/
def mintPayload (req : OpenScopeRequest) (ceiling : Confidentiality)
    (principals : List PrincipalToken) (subject : Option String) (now : Time) : ScopePayload where
  tenantId := req.tenantId
  principals := principals
  entityScope := req.entityScope
  maxConfidentiality := ceiling
  actorSub := req.actorSub
  actorAzp := req.actorAzp
  subject := subject
  issuedAt := now
  expiresAt := now

/-- An `open_scope` call after its first step. -/
structure OpenCall where
  req : OpenScopeRequest
  ceiling : Confidentiality
  subject : Option String
  groups : List String
deriving DecidableEq, Repr

/-- An `open_scope` call after its second step. -/
structure SignCall where
  req : OpenScopeRequest
  ceiling : Confidentiality
  subject : Option String
  tokens : List PrincipalToken
deriving DecidableEq, Repr

/-- Step one: the checks, and the subject's groups.
SOURCE: main.rs:2242-2335 -/
def openResolve (sv : Server) (req : OpenScopeRequest) : Except HandlerError OpenCall :=
  if req.tenantId ∉ sv.tenants then
    .error ⟨404, "\x7b\"error\":\"unknown tenant\",\"hint\":\"create one: " ++
      "POST /v1/admin/tenants, or run verity-cli dev\"\x7d"⟩
  else
    match purposeCeiling sv.purposes req with
    | .error e => .error e
    | .ok ceiling =>
      match sv.rebac, req.subject with
      | some db, some subject =>
        match mintSubject req subject with
        | .error e => .error e
        | .ok name =>
          match mintGroups db req.tenantId name with
          | .error e => .error e
          | .ok groups => .ok ⟨req, sv.readCeiling ceiling, some subject, groups⟩
      | none, some _ =>
        .error ⟨422, "subject-based scopes require ReBAC (set VERITY_SPICEDB_URL); " ++
          "supply principals directly in dev mode"⟩
      | _, none => .ok ⟨req, sv.readCeiling ceiling, none, []⟩

/-- Step two: the tokens to sign; without a subject, those the caller named.
SOURCE: main.rs:2346-2393 -/
def openSubtract (sv : Server) (call : OpenCall) (now : Time) : PrincipalTable × SignCall :=
  match call.subject with
  | some subject =>
    let (principals, tokens) := mintTokens sv.principals sv.revocations sv.windowSecs
      call.req.tenantId subject call.groups now
    (principals, ⟨call.req, call.ceiling, some subject, tokens⟩)
  | none => (sv.principals, ⟨call.req, call.ceiling, none, call.req.principals⟩)

/-- Step three.
SOURCE: main.rs:2394-2407 -/
def openSign {Tag : Type} (sign : ScopePayload → Tag) (call : SignCall) (now : Time) : Handle Tag :=
  mint sign (mintPayload call.req call.ceiling call.tokens call.subject now) call.req.ttlSeconds now

/-- SOURCE: main.rs:2242-2411 -/
def openScope {Tag : Type} (sign : ScopePayload → Tag) (sv : Server) (req : OpenScopeRequest)
    (now : Time) : Except HandlerError (PrincipalTable × Handle Tag) :=
  match openResolve sv req with
  | .error e => .error e
  | .ok call =>
    let (principals, call) := openSubtract sv call now
    .ok (principals, openSign sign call now)

end Verity.Model
