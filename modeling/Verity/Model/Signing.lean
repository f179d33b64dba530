import Verity.Foundation.Base64
import Verity.Foundation.Fallible
import Verity.Model.Canon
import Verity.Model.Scope

/-!
# The signing surfaces of the server key

`ScopeMinter` signs three kinds of messages under one key: the JSON body of a scope handle, the
text `media:<id>:<exp>` of a signed media address, and bytes under a domain, `<domain>:<bytes>`.
Tags and bodies travel as base64 texts; a handle is `vs_<body>.<tag>`. The tag function
(HMAC-SHA256 under the key) and the JSON reading and writing of a payload are parameters.
`Model.mint` and `Model.verify` are the same two methods on a handle that is already decoded.
-/

set_option autoImplicit false

namespace Verity.Model

open Verity.Foundation

/-- A media id: sixteen bytes. -/
structure Uuid where
  bytes : List UInt8
  length_bytes : bytes.length = 16
deriving DecidableEq

/-- A hexadecimal digit, lower case. -/
def hexDigit (n : Nat) : Char := if n < 10 then Char.ofNat (n + 48) else Char.ofNat (n + 87)

/-- The two digits of a byte. -/
def hexByte (b : UInt8) : List Char := [hexDigit (b.toNat / 16), hexDigit (b.toNat % 16)]

/-- `Display for Uuid`: groups of 4, 2, 2, 2 and 6 bytes joined by hyphens. -/
def Uuid.text (id : Uuid) : List Char :=
  (id.bytes.take 4).flatMap hexByte ++ '-' ::
    (((id.bytes.drop 4).take 2).flatMap hexByte ++ '-' ::
      (((id.bytes.drop 6).take 2).flatMap hexByte ++ '-' ::
        (((id.bytes.drop 8).take 2).flatMap hexByte ++ '-' ::
          (id.bytes.drop 10).flatMap hexByte)))

/-- The server's minter: HMAC-SHA256 under its key, and `serde_json::to_vec` and
`serde_json::from_slice` at the payload type.
SOURCE: scope.rs:89-96 -/
structure ScopeMinter where
  hmac : List UInt8 → List UInt8
  toVec : ScopePayload → List UInt8
  fromSlice : List UInt8 → Option ScopePayload

/-- `URL_SAFE_NO_PAD.encode`. -/
def encodeText (bytes : List UInt8) : String := String.ofList (Base64.encode bytes)

/-- `URL_SAFE_NO_PAD.decode`. -/
def decodeText (s : String) : Except ScopeError (List UInt8) :=
  okOr (Base64.decode s.toList) .malformed

/-- The message under a domain.
SOURCE: scope.rs:171-173 -/
def bytesMessage (domain : String) (msg : List UInt8) : List UInt8 :=
  utf8 domain.toList ++ UInt8.ofNat ':'.toNat :: msg

/-- `format!("media:{media_id}:{expires_at}")`.
SOURCE: scope.rs:218 -/
def mediaMessage (mediaId : Uuid) (expiresAt : Int) : List UInt8 :=
  utf8 ("media".toList ++ ':' :: (mediaId.text ++ ':' :: expiresAt.repr.toList))

/-- The two parts of a handle: the text between the prefix and the first dot, and the text
after it.
SOURCE: scope.rs:242-243 -/
def splitHandle (handle : String) : Option (String × String) :=
  (handle.toList.dropPrefix? "vs_".toList).bind fun rest => splitOnceAt '.' (String.ofList rest)

namespace ScopeMinter

/-- SOURCE: scope.rs:169-175 -/
def signBytes (m : ScopeMinter) (domain : String) (msg : List UInt8) : String :=
  encodeText (m.hmac (bytesMessage domain msg))

/-- `Mac::verify_slice`. -/
def verifySlice (m : ScopeMinter) (message sig : List UInt8) : Except ScopeError Unit :=
  if m.hmac message = sig then .ok () else .error .badSignature

/-- SOURCE: scope.rs:186-195 -/
def verifyBytes (m : ScopeMinter) (domain : String) (msg : List UInt8) (sig : String) :
    Except ScopeError Unit := do
  let sig ← decodeText sig
  m.verifySlice (bytesMessage domain msg) sig

/-- SOURCE: scope.rs:197-212 -/
def mint (m : ScopeMinter) (payload : ScopePayload) (ttlSeconds : Int) (now : Time) :
    String × Time :=
  let payload := stampPayload payload ttlSeconds now
  let body := m.toVec payload
  (String.ofList ("vs_".toList ++ (Base64.encode body ++ '.' :: Base64.encode (m.hmac body))),
    payload.expiresAt)

/-- SOURCE: scope.rs:216-220 -/
def signMedia (m : ScopeMinter) (mediaId : Uuid) (expiresAt : Int) : String :=
  encodeText (m.hmac (mediaMessage mediaId expiresAt))

/-- The unix seconds of `now` are compared, rounded down.
SOURCE: scope.rs:224-239 -/
def verifyMedia (m : ScopeMinter) (mediaId : Uuid) (expiresAt : Int) (sig : String) (now : Time) :
    Except ScopeError Unit :=
  if expiresAt < now / 1000000 then .error .expired
  else do
    let sig ← decodeText sig
    m.verifySlice (mediaMessage mediaId expiresAt) sig

/-- SOURCE: scope.rs:241-261 -/
def verify (m : ScopeMinter) (handle : String) (now : Time) : Except ScopeError ScopePayload := do
  let (bodyB64, sigB64) ← okOr (splitHandle handle) .malformed
  let body ← decodeText bodyB64
  let sig ← decodeText sigB64
  m.verifySlice body sig
  let payload ← okOr (m.fromSlice body) .malformed
  if payload.expiresAt < now then .error .expired else .ok payload

end ScopeMinter

/-- SOURCE: compliance.rs:23 -/
def purgeReportDomain : String := "verity.erasure.purge-report.v1"

end Verity.Model
