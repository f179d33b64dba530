import Mathlib.Data.String.Basic
import Verity.Model.ManifestPredicate

/-!
# Source manifests

The schema of a manifest, its validation at parse time and the activation contract of the human
gate. A manifest without an `acl_policy` is valid, and can never be activated.

Reading the YAML text is a parameter (`serde_yaml_ng`). The poll block, the shape of a
credential, the scheme of a signature and the expectations of a fixture are data that neither
validation nor the runtime reads, and are left out.
-/

set_option autoImplicit false

namespace Verity.Model

open Verity.Foundation

/-! ## The schema -/

/-- SOURCE: schema.rs:75-80 -/
inductive Tier where
  | a
  | b
  | c
deriving DecidableEq, Repr

/-- SOURCE: schema.rs:107-116 -/
structure SignatureSpec where
  header : String
  secretRef : String
deriving DecidableEq, Repr

/-- `authRef` is the reference of `auth`, and `signature` that of `webhook`.
SOURCE: schema.rs:57-73 -/
structure ManifestSource where
  name : String
  tier : Option Tier
  authRef : Option String
  signature : Option SignatureSpec
deriving DecidableEq, Repr

/-- A `BTreeMap<String, String>`: its entries, by increasing key. -/
structure StringMap where
  entries : List (String × String)
  sorted : entries.Pairwise fun kv kv' => kv.1 < kv'.1
deriving DecidableEq

def StringMap.singleton (key value : String) : StringMap :=
  ⟨[(key, value)], List.pairwise_singleton _ _⟩

/-- An entity block; `routeWhen` is the `when` of its `route`. SOURCE: schema.rs:126-162 -/
structure EntitySpec where
  type : String
  routeWhen : String
  primaryKey : String
  validFrom : Option String
  observedAt : Option String
  map : StringMap
  content : Option String
deriving DecidableEq

/-- SOURCE: schema.rs:185-190 -/
inductive AclMode where
  | map
  | static
  | quarantine
deriving DecidableEq, Repr

/-- SOURCE: schema.rs:198-202 -/
inductive IdentityNamespace where
  | email
  | sourceNativeId
  | verityGroup
deriving DecidableEq, Repr

/-- SOURCE: schema.rs:206-223 -/
structure AclPolicy where
  mode : AclMode
  identityNamespace : Option IdentityNamespace
  principals : Option String
  approximation : Bool
  note : Option String
  staticVisibility : Option (List String)
deriving DecidableEq, Repr

/-- `fixtures` are the input paths of the fixtures. SOURCE: schema.rs:39-55 -/
structure Manifest where
  manifestVersion : Nat
  source : ManifestSource
  entities : List EntitySpec
  aclPolicy : Option AclPolicy
  fixtures : List String
deriving DecidableEq

/-! ## Errors -/

/-- What validation refuses a manifest for. -/
inductive InvalidManifest where
  | unsupportedVersion (version : Nat)
  | sourceName (name : String)
  | notSecretRef (what r : String)
  | badSecretName (what name : String)
  | emptyHeader
  | noEntities
  | tooManyEntities
  | emptyEntityType
  | routeWhen (type : String) (e : PredicateError)
  | primaryKey (type : String) (e : PathError)
  | validFrom (type : String) (e : PathError)
  | observedAt (type : String) (e : PathError)
  | tooManyFields (type : String)
  | emptyFieldName (type : String)
  | mapField (type field : String) (e : PathError)
  | content (type : String) (e : PathError)
  | mapWithoutPrincipals
  | aclPrincipals (e : PathError)
  | mapWithoutNamespace
  | mapWithStaticVisibility
  | staticWithPrincipals
  | emptyStaticVisibility
  | quarantineWithPrincipals
  | emptyFixtureInput
deriving DecidableEq, Repr

/-- What the gate refuses a valid manifest for. -/
inductive Refusal where
  | noAclPolicy
  | tierAApproximation
  | tierAMode (mode : AclMode)
  | tierBApproximation
  | tierBNote
  | tierBMode (mode : AclMode)
  | tierCMode (mode : AclMode)
deriving DecidableEq, Repr

/-- SOURCE: schema.rs:19-31 -/
inductive ManifestError where
  | tooLarge
  | yaml (message : String)
  | invalid (reason : InvalidManifest)
  | activationRefused (reason : Refusal)
deriving DecidableEq, Repr

/-- `{:?}` of a mode. -/
def AclMode.debug : AclMode → String
  | .map => "Map"
  | .static => "Static"
  | .quarantine => "Quarantine"

def InvalidManifest.text (debug : String → String) : InvalidManifest → String
  | .unsupportedVersion version =>
    "unsupported manifest_version " ++ toString version ++ " (this build speaks 1)"
  | .sourceName name => "source.name " ++ debug name ++ " must be non-empty [a-z0-9_-]"
  | .notSecretRef what r =>
    what ++ " must be a secret store reference (secret://<name>), got " ++ debug r ++
      " — credentials never appear inline"
  | .badSecretName what name => what ++ ": bad secret name " ++ debug name
  | .emptyHeader => "webhook.signature.header must be non-empty"
  | .noEntities => "entities must be non-empty"
  | .tooManyEntities => "at most " ++ toString Limits.maxEntities ++ " entities per manifest"
  | .emptyEntityType => "entity type must be non-empty"
  | .routeWhen t e => "entity " ++ debug t ++ " route.when: " ++ e.text debug
  | .primaryKey t e => "entity " ++ debug t ++ " primary_key: " ++ e.text debug
  | .validFrom t e => "entity " ++ debug t ++ " valid_from: " ++ e.text debug
  | .observedAt t e => "entity " ++ debug t ++ " observed_at: " ++ e.text debug
  | .tooManyFields t =>
    "entity " ++ debug t ++ " maps more than " ++ toString Limits.maxMapFields ++ " fields"
  | .emptyFieldName t => "entity " ++ debug t ++ " has an empty map field name"
  | .mapField t field e => "entity " ++ debug t ++ " map." ++ field ++ ": " ++ e.text debug
  | .content t e => "entity " ++ debug t ++ " content: " ++ e.text debug
  | .mapWithoutPrincipals => "acl_policy.mode map requires \x60principals\x60"
  | .aclPrincipals e => "acl_policy.principals: " ++ e.text debug
  | .mapWithoutNamespace => "acl_policy.mode map requires \x60identity_namespace\x60"
  | .mapWithStaticVisibility => "static_visibility belongs to mode: static, not map"
  | .staticWithPrincipals => "\x60principals\x60 belongs to mode: map, not static"
  | .emptyStaticVisibility => "static_visibility must be absent or a non-empty list of principals"
  | .quarantineWithPrincipals => "mode quarantine takes no principals/static_visibility"
  | .emptyFixtureInput => "fixture input path must be non-empty"

def Refusal.text : Refusal → String
  | .noAclPolicy =>
    "manifest has no acl_policy — drafts without one can only quarantine " ++
      "(add an admin-reviewed acl_policy block, then activate)"
  | .tierAApproximation => "Tier A sources mirror real ACLs: approximation must be false"
  | .tierAMode mode =>
    "Tier A sources MUST use acl_policy.mode: map (got " ++ mode.debug ++ ")"
  | .tierBApproximation => "Tier B container-membership mapping MUST set approximation: true"
  | .tierBNote => "Tier B requires a human-readable approximation note"
  | .tierBMode mode =>
    "Tier B sources MUST use acl_policy.mode: map (got " ++ mode.debug ++ ")"
  | .tierCMode mode =>
    "Tier C sources MUST use acl_policy.mode: static (got " ++ mode.debug ++ ")"

def ManifestError.text (debug : String → String) : ManifestError → String
  | .tooLarge => "manifest exceeds " ++ toString Limits.maxManifestBytes ++ " bytes"
  | .yaml message => "yaml parse error: " ++ message
  | .invalid reason => "invalid manifest: " ++ reason.text debug
  | .activationRefused reason => "activation refused: " ++ reason.text

/-! ## Validation -/

/-- A check of validation. -/
abbrev Check := Outcome InvalidManifest Unit

/-- The parse of an expression, as a check. -/
def parses {ε α : Type} (e : ε → InvalidManifest) : Outcome ε α → Check
  | .ok _ => .ok ()
  | .error err => .error (e err)
  | .diverges => .diverges

/-- SOURCE: schema.rs:450-466 -/
def validateSecretRef (what r : String) : Check :=
  if "secret://".toList.isPrefixOf r.toList then
    let name := r.toList.drop "secret://".length
    .require (name ≠ [] ∧
        name.all fun c => isAsciiAlphanumeric c || c == '_' || c == '-' || c == '.')
      (.badSecretName what (String.ofList name))
  else .error (.notSecretRef what r)

/-- SOURCE: schema.rs:411-447 -/
def AclPolicy.validate (policy : AclPolicy) : Check :=
  match policy.mode with
  | .map =>
    match policy.principals with
    | none => .error .mapWithoutPrincipals
    | some principals =>
      (parses .aclPrincipals (.ofExcept (DotPath.parse principals))).bind fun _ =>
      (Outcome.require (policy.identityNamespace ≠ none) .mapWithoutNamespace).bind fun _ =>
      .require (policy.staticVisibility = none) .mapWithStaticVisibility
  | .static =>
    (Outcome.require (policy.principals = none) .staticWithPrincipals).bind fun _ =>
    .forSome (fun vis => .require (vis ≠ [] ∧ ∀ p ∈ vis, trim p ≠ "") .emptyStaticVisibility)
      policy.staticVisibility
  | .quarantine =>
    .require (policy.principals = none ∧ policy.staticVisibility = none) .quarantineWithPrincipals

/-- The checks of one entity block. SOURCE: schema.rs:299-331 -/
def EntitySpec.validate (entity : EntitySpec) : Check :=
  let t := entity.type
  (Outcome.require (trim t ≠ "") .emptyEntityType).bind fun _ =>
  (parses (.routeWhen t) (Predicate.parse entity.routeWhen)).bind fun _ =>
  (parses (.primaryKey t) (.ofExcept (DotPath.parse entity.primaryKey))).bind fun _ =>
  (Outcome.forSome (fun vf => parses (.validFrom t) (.ofExcept (MapExpr.parse vf)))
    entity.validFrom).bind fun _ =>
  (Outcome.forSome (fun oa => parses (.observedAt t) (.ofExcept (MapExpr.parse oa)))
    entity.observedAt).bind fun _ =>
  (Outcome.require (entity.map.entries.length ≤ Limits.maxMapFields)
    (.tooManyFields t)).bind fun _ =>
  (Outcome.forEach (fun (field, expr) =>
    (Outcome.require (trim field ≠ "") (.emptyFieldName t)).bind fun _ =>
    parses (.mapField t field) (.ofExcept (MapExpr.parse expr))) entity.map.entries).bind fun _ =>
  .forSome (fun content => parses (.content t) (.ofExcept (DotPath.parse content))) entity.content

/-- SOURCE: schema.rs:259-341 -/
def Manifest.validate (m : Manifest) : Check :=
  let name := m.source.name
  (Outcome.require (m.manifestVersion = 1) (.unsupportedVersion m.manifestVersion)).bind fun _ =>
  (Outcome.require
    (name ≠ "" ∧ name.toList.all fun c =>
      decide ('a' ≤ c ∧ c ≤ 'z') || isAsciiDigit c || c == '_' || c == '-')
    (.sourceName name)).bind fun _ =>
  (Outcome.forSome (validateSecretRef "source.auth.ref") m.source.authRef).bind fun _ =>
  (Outcome.forSome (fun sig =>
    (validateSecretRef "webhook.signature.secret_ref" sig.secretRef).bind fun _ =>
    .require (trim sig.header ≠ "") .emptyHeader) m.source.signature).bind fun _ =>
  (Outcome.require (m.entities ≠ []) .noEntities).bind fun _ =>
  (Outcome.require (m.entities.length ≤ Limits.maxEntities) .tooManyEntities).bind fun _ =>
  (Outcome.forEach EntitySpec.validate m.entities).bind fun _ =>
  (Outcome.forSome AclPolicy.validate m.aclPolicy).bind fun _ =>
  .forEach (fun input => .require (trim input ≠ "") .emptyFixtureInput) m.fixtures

/-- Parse and validate; `fromStr` reads the YAML. SOURCE: schema.rs:249-257 -/
def Manifest.fromYaml (fromStr : String → Except String Manifest) (yaml : String) :
    Outcome ManifestError Manifest :=
  if Limits.maxManifestBytes < yaml.utf8ByteSize then .error .tooLarge
  else
    match fromStr yaml with
    | .error message => .error (.yaml message)
    | .ok m => (m.validate.mapError ManifestError.invalid).bind fun _ => .ok m

/-! ## The gate -/

/-- SOURCE: schema.rs:355-405 -/
def Manifest.activationCheck (m : Manifest) : Except Refusal Unit :=
  match m.aclPolicy with
  | none => .error .noAclPolicy
  | some policy =>
    match m.source.tier, policy.mode with
    | some .a, .map => if policy.approximation then .error .tierAApproximation else .ok ()
    | some .a, other => .error (.tierAMode other)
    | some .b, .map =>
      if !policy.approximation then .error .tierBApproximation
      else if (policy.note.map trim).getD "" = "" then .error .tierBNote
      else .ok ()
    | some .b, other => .error (.tierBMode other)
    | some .c, .static => .ok ()
    | some .c, other => .error (.tierCMode other)
    | none, _ => .ok ()

end Verity.Model
