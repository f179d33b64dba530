import Verity.Model.ManifestSchema
import Verity.Model.Rebac

/-!
# The manifest runtime

One inbound payload becomes the writes of every entity block whose route claims it, with one ACL
envelope, or it is quarantined as a whole. The loops over the entities, the mapped fields and the
content share one counter of the bytes written so far.

The routes and paths are parsed again from their text, so that the runtime can also answer on a
manifest that was never validated.
-/

set_option autoImplicit false

namespace Verity.Model

open Verity.Foundation

/-- A `chrono::DateTime<Utc>`, in nanoseconds since the epoch. -/
abbrev DateTime := Int

/-- What the runtime uses of other crates: `{:?}` of a string and the text of a JSON value, and
the three conversions of `chrono`. -/
structure ManifestCrates where
  debug : String → String
  display : Json → String
  parseFromRfc3339 : String → Option DateTime
  timestampMillisOpt : Int → Option DateTime
  toRfc3339Millis : DateTime → String

/-! ## The result -/

/-- SOURCE: runtime.rs:47-58 -/
inductive AclEnvelope where
  | static (principals : Option (List String))
  | mapped (principals : List String) (approximated : Bool)
deriving DecidableEq, Repr

/-- SOURCE: runtime.rs:87-97 -/
structure EntityWrites where
  entityType : String
  entityId : String
  validFrom : DateTime
  fields : List (String × Json)
  content : Option String
deriving DecidableEq, Repr

/-- Why a payload is held back. -/
inductive QuarantineReason where
  | payloadDepth
  | unparseableRoute (type : String)
  | noRouteMatched
  | primaryKeyPath (type : String) (e : PathError)
  | primaryKeyMissing (type primaryKey : String)
  | validFromExpr (type : String) (e : PathError)
  | validFromMissing (type expr : String)
  | mapExpr (type field : String) (e : PathError)
  | mapMissing (type field expr : String)
  | mapValueTooLarge (type field : String)
  | contentPath (type : String) (e : PathError)
  | contentMissing (type expr : String)
  | contentNotText (type expr : String)
  | contentTooLarge (type : String)
  | outputTooLarge
  | aclAbsent
  | aclQuarantine
  | mapWithoutPrincipals
  | aclPrincipalsPath (e : PathError)
  | mapWithoutNamespace
  | principalsMatchedNothing (expr : String)
  | tooManyPrincipals
  | principalNotScalar (expr : String) (hit : Json)
deriving DecidableEq, Repr

def QuarantineReason.text (crates : ManifestCrates) : QuarantineReason → String
  | .payloadDepth =>
    "payload nesting exceeds the " ++ toString Limits.maxPayloadDepth ++ " level cap"
  | .unparseableRoute t => "entity " ++ crates.debug t ++ ": unparseable route"
  | .noRouteMatched => "no entity route matched the payload"
  | .primaryKeyPath t e => "entity " ++ crates.debug t ++ " primary_key: " ++ e.text crates.debug
  | .primaryKeyMissing t primaryKey =>
    "entity " ++ crates.debug t ++ ": primary_key " ++ crates.debug primaryKey ++
      " missing or non-scalar — quarantining, not mis-filing"
  | .validFromExpr t e => "entity " ++ crates.debug t ++ " valid_from: " ++ e.text crates.debug
  | .validFromMissing t expr =>
    "entity " ++ crates.debug t ++ ": valid_from " ++ crates.debug expr ++
      " missing or not a timestamp — quarantining, not mis-filing"
  | .mapExpr t field e =>
    "entity " ++ crates.debug t ++ " map." ++ field ++ ": " ++ e.text crates.debug
  | .mapMissing t field expr =>
    "entity " ++ crates.debug t ++ ": map." ++ field ++ " path " ++ crates.debug expr ++
      " missing or non-scalar — quarantining, not mis-filing"
  | .mapValueTooLarge t field =>
    "entity " ++ crates.debug t ++ ": map." ++ field ++ " exceeds the " ++
      toString Limits.maxValueBytes ++ " byte value cap"
  | .contentPath t e => "entity " ++ crates.debug t ++ " content: " ++ e.text crates.debug
  | .contentMissing t expr =>
    "entity " ++ crates.debug t ++ ": content path " ++ crates.debug expr ++
      " missing — quarantining, not mis-filing"
  | .contentNotText t expr =>
    "entity " ++ crates.debug t ++ ": content at " ++ crates.debug expr ++ " is not text"
  | .contentTooLarge t =>
    "entity " ++ crates.debug t ++ ": content exceeds the " ++ toString Limits.maxValueBytes ++
      " byte cap"
  | .outputTooLarge =>
    "payload output exceeds the " ++ toString Limits.maxOutputBytes ++ " byte cap"
  | .aclAbsent => "acl_policy absent — manifest can only quarantine until an admin adds one"
  | .aclQuarantine => "acl_policy.mode is quarantine"
  | .mapWithoutPrincipals => "acl_policy.mode map without principals"
  | .aclPrincipalsPath e => "acl principals path: " ++ e.text crates.debug
  | .mapWithoutNamespace => "acl_policy.mode map without identity_namespace"
  | .principalsMatchedNothing expr =>
    "acl principal extraction " ++ crates.debug expr ++ " matched nothing — refusing to index"
  | .tooManyPrincipals =>
    "acl principal extraction produced more than " ++ toString Limits.maxPrincipals ++
      " principals"
  | .principalNotScalar expr hit =>
    "acl principal at " ++ crates.debug expr ++ " is not a scalar: " ++ crates.display hit

/-- SOURCE: runtime.rs:118-131 -/
inductive Applied where
  | writes (source : String) (writes : List EntityWrites) (acl : AclEnvelope)
  | quarantine (reason : QuarantineReason)
deriving DecidableEq, Repr

section Runtime

variable (crates : ManifestCrates) (payload : Json) (now : DateTime)

/-! ## Extraction -/

/-- SOURCE: runtime.rs:395-402 -/
def scalarToString : Json → Option String
  | .str s => some s
  | .posInt n => some (crates.display (.posInt n))
  | .negInt n => some (crates.display (.negInt n))
  | .float bits => some (crates.display (.float bits))
  | .bool b => some (if b then "true" else "false")
  | _ => none

/-- SOURCE: runtime.rs:378-392 -/
def evalTimestamp : MapExpr → Option DateTime
  | .now => some now
  | .path path =>
    (path.evalScalar payload).bind fun value =>
      match value with
      | .str s => crates.parseFromRfc3339 s
      | value => value.asI64.bind crates.timestampMillisOpt

/-- The bytes of one more value, within its own cap and that of the whole output.
SOURCE: runtime.rs:327-340, 355-367 -/
def charge (tooLarge : QuarantineReason) (size outputBytes : Nat) : Except QuarantineReason Nat :=
  if Limits.maxValueBytes < size then .error tooLarge
  else if Limits.maxOutputBytes < outputBytes + size then .error .outputTooLarge
  else .ok (outputBytes + size)

/-- The value of one mapped field. SOURCE: runtime.rs:313-326 -/
def mapValue (t field exprText : String) : Except QuarantineReason Json :=
  ((MapExpr.parse exprText).mapError (.mapExpr t field)).bind fun expr =>
    match expr with
    | .now => .ok (.str (crates.toRfc3339Millis now))
    | .path path => okOr (path.evalScalar payload) (.mapMissing t field exprText)

/-- The loop over the mapped fields. SOURCE: runtime.rs:311-342 -/
def extractFields (t : String) :
    List (String × String) → Nat → Except QuarantineReason (List (String × Json) × Nat)
  | [], outputBytes => .ok ([], outputBytes)
  | (field, exprText) :: map, outputBytes =>
    (mapValue crates payload now t field exprText).bind fun value =>
    (charge (.mapValueTooLarge t field) (crates.display value).utf8ByteSize
      outputBytes).bind fun outputBytes =>
    (extractFields t map outputBytes).map fun (fields, outputBytes) =>
      ((field, value) :: fields, outputBytes)

/-- SOURCE: runtime.rs:344-371 -/
def extractContent (t : String) (content : Option String) (outputBytes : Nat) :
    Except QuarantineReason (Option String × Nat) :=
  match content with
  | none => .ok (none, outputBytes)
  | some exprText =>
    ((DotPath.parse exprText).mapError (.contentPath t)).bind fun path =>
    (okOr (path.evalScalar payload) (.contentMissing t exprText)).bind fun value =>
    (okOr value.asStr (.contentNotText t exprText)).bind fun text =>
    (charge (.contentTooLarge t) text.utf8ByteSize outputBytes).map fun outputBytes =>
      (some text, outputBytes)

/-- SOURCE: runtime.rs:282-293 -/
def extractId (entity : EntitySpec) : Except QuarantineReason String :=
  ((DotPath.parse entity.primaryKey).mapError (.primaryKeyPath entity.type)).bind fun path =>
  okOr ((path.evalScalar payload).bind (scalarToString crates))
    (.primaryKeyMissing entity.type entity.primaryKey)

/-- SOURCE: runtime.rs:295-308 -/
def extractValidFrom (entity : EntitySpec) : Except QuarantineReason DateTime :=
  match entity.validFrom with
  | none => .ok now
  | some exprText =>
    ((MapExpr.parse exprText).mapError (.validFromExpr entity.type)).bind fun expr =>
    okOr (evalTimestamp crates payload now expr) (.validFromMissing entity.type exprText)

/-- SOURCE: runtime.rs:275-376 -/
def extractEntity (entity : EntitySpec) (outputBytes : Nat) :
    Except QuarantineReason (EntityWrites × Nat) :=
  (extractId crates payload entity).bind fun entityId =>
  (extractValidFrom crates payload now entity).bind fun validFrom =>
  (extractFields crates payload now entity.type entity.map.entries outputBytes).bind
    fun (fields, outputBytes) =>
  (extractContent payload entity.type entity.content outputBytes).map
    fun (content, outputBytes) => (⟨entity.type, entityId, validFrom, fields, content⟩, outputBytes)

/-! ## The ACL gate -/

/-- SOURCE: runtime.rs:267-273 -/
def namespacedPrincipal (ns : IdentityNamespace) (sourceName raw : String) : String :=
  match ns with
  | .email => "user:" ++ raw
  | .sourceNativeId => sourceName ++ ":" ++ raw
  | .verityGroup => "group:" ++ raw

/-- The loop over the selected principals. SOURCE: runtime.rs:248-253 -/
def namespacedPrincipals (ns : IdentityNamespace) (sourceName expr : String) :
    List Json → Except QuarantineReason (List String)
  | [] => .ok []
  | hit :: hits =>
    (okOr (scalarToString crates hit) (.principalNotScalar expr hit)).bind fun raw =>
    (namespacedPrincipals ns sourceName expr hits).map fun principals =>
      namespacedPrincipal ns sourceName raw :: principals

/-- The `map` mode. SOURCE: runtime.rs:227-261 -/
def mappedAcl (sourceName : String) (policy : AclPolicy) : Except QuarantineReason AclEnvelope :=
  (okOr policy.principals .mapWithoutPrincipals).bind fun expr =>
  ((DotPath.parse expr).mapError .aclPrincipalsPath).bind fun path =>
  (okOr policy.identityNamespace .mapWithoutNamespace).bind fun ns =>
  let hits := path.eval payload
  if hits = [] then .error (.principalsMatchedNothing expr)
  else if Limits.maxPrincipals < hits.length then .error .tooManyPrincipals
  else
    (namespacedPrincipals crates ns sourceName expr hits).map fun principals =>
      .mapped (sortDedup principals) policy.approximation

/-- SOURCE: runtime.rs:217-263 -/
def evaluateAcl (m : Manifest) : Except QuarantineReason AclEnvelope :=
  (okOr m.aclPolicy .aclAbsent).bind fun policy =>
    match policy.mode with
    | .quarantine => .error .aclQuarantine
    | .static => .ok (.static policy.staticVisibility)
    | .map => mappedAcl crates payload m.source.name policy

/-! ## The whole payload -/

/-- The loop over the entity blocks. SOURCE: runtime.rs:187-199 -/
def applyEntities : List EntitySpec → Nat → Outcome QuarantineReason (List EntityWrites)
  | [], _ => .ok []
  | entity :: entities, outputBytes =>
    match Predicate.parse entity.routeWhen with
    | .diverges => .diverges
    | .error _ => .error (.unparseableRoute entity.type)
    | .ok route =>
      if !route.matches payload then applyEntities entities outputBytes
      else
        match extractEntity crates payload now entity outputBytes with
        | .error reason => .error reason
        | .ok (w, outputBytes) =>
          (applyEntities entities outputBytes).bind fun writes => .ok (w :: writes)

/-- The answer for one payload, if the runtime returns. SOURCE: runtime.rs:178-215 -/
def apply (m : Manifest) : Option Applied :=
  if Limits.maxPayloadDepth < valueDepth payload then some (.quarantine .payloadDepth)
  else
    match applyEntities crates payload now m.entities 0 with
    | .diverges => none
    | .error reason => some (.quarantine reason)
    | .ok writes =>
      if writes = [] then some (.quarantine .noRouteMatched)
      else
        match evaluateAcl crates payload m with
        | .error reason => some (.quarantine reason)
        | .ok acl => some (.writes m.source.name writes acl)

end Runtime

end Verity.Model
