import Verity.Model.Types

/-!
# Scope handles

`ScopeMinter`: a handle is a payload with a keyed tag over it. Minting stamps the payload
with its issue and expiry instants; verifying checks the tag and the expiry, and nothing
else. The tag function (HMAC-SHA256 under the server key) is a parameter; the text encoding
of a handle is left out, so a handle here is one that decodes.
-/

set_option autoImplicit false

namespace Verity.Model

/-- SOURCE: scope.rs:27 -/
def maxTtlSeconds : Int := 12 * 60 * 60

/-- SOURCE: scope.rs:38-66 -/
structure ScopePayload where
  tenantId : TenantId
  principals : List PrincipalToken
  entityScope : List String
  maxConfidentiality : Confidentiality
  actorSub : Option String
  actorAzp : Option String
  subject : Option String
  issuedAt : Time
  expiresAt : Time
deriving DecidableEq, Repr

/-- SOURCE: scope.rs:68-77 -/
def ScopePayload.toScope (payload : ScopePayload) : Scope where
  tenantId := payload.tenantId
  principals := payload.principals
  entityScope := payload.entityScope
  maxConfidentiality := payload.maxConfidentiality

/-- SOURCE: scope.rs:79-87 -/
inductive ScopeError where
  | malformed
  | badSignature
  | expired
deriving DecidableEq, Repr

/-- A decoded handle: the signed body and its tag. -/
structure Handle (Tag : Type) where
  body : ScopePayload
  sig : Tag
deriving DecidableEq, Repr

/-- `i64::clamp(60, MAX_TTL_SECONDS)`. -/
def clampTtl (ttlSeconds : Int) : Int :=
  if ttlSeconds < 60 then 60
  else if maxTtlSeconds < ttlSeconds then maxTtlSeconds
  else ttlSeconds

section Minter

variable {Tag : Type} [DecidableEq Tag] (sign : ScopePayload → Tag)

/-- The payload as it is signed: the instants the caller supplied are overwritten.
SOURCE: scope.rs:197-201 -/
def stampPayload (payload : ScopePayload) (ttlSeconds : Int) (now : Time) : ScopePayload :=
  { payload with issuedAt := now, expiresAt := now + seconds (clampTtl ttlSeconds) }

/-- SOURCE: scope.rs:197-212 -/
def mint (payload : ScopePayload) (ttlSeconds : Int) (now : Time) : Handle Tag :=
  let body := stampPayload payload ttlSeconds now
  { body, sig := sign body }

/-- SOURCE: scope.rs:241-261 -/
def verify (handle : Handle Tag) (now : Time) : Except ScopeError ScopePayload :=
  if handle.sig ≠ sign handle.body then .error .badSignature
  else if handle.body.expiresAt < now then .error .expired
  else .ok handle.body

end Minter

end Verity.Model
