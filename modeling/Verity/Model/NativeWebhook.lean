import Verity.Model.ManifestDelivery
import Verity.Model.Retirement

/-!
# Native webhook payloads

What a minted webhook without a manifest writes for a posted payload: one chunk with the content,
and one fact for each entry of `facts`. The payload may narrow the visibility the webhook is bound
to, and name some of the entities it is bound to. A payload that is not understood is quarantined.

A delivery starts where the row of the webhook was found. It is given what serde makes of the body,
the ids it uses and one clock reading. The counts of the reply, the content hashes, the embedding
and the freshness sample are left out.
-/

set_option autoImplicit false

namespace Verity.Model

open Verity.Foundation

/-- The columns of a webhook without a manifest. SOURCE: webhooks.rs:160-170 -/
structure NativeWebhook extends Webhook where
  id : Nat
  name : String
  entityScope : List String
deriving DecidableEq, Repr

/-- SOURCE: webhooks.rs:150-158 -/
structure NativeFact where
  source : String
  entityId : String
  field : String
  value : Json
  validFrom : Option Instant
deriving DecidableEq

/-- SOURCE: webhooks.rs:135-148 -/
structure NativePayload where
  content : Option String
  observation : Option String
  entities : List String
  facts : List NativeFact
  visibility : Option (List PrincipalToken)
deriving DecidableEq

/-- A posted body: its JSON and its text, the shape it parses into, or why it does not, and the
time by the clocks of the server and of the database. -/
structure NativeDelivery where
  raw : Json
  rawText : String
  parsed : Except String NativePayload
  episodeId : EpisodeId
  quarantineId : Nat
  receivedAt : Instant
  now : Time

inductive WebhookReply where
  | quarantined
  | accepted (episodeId : EpisodeId)
deriving DecidableEq, Repr

/-- SOURCE: webhooks.rs:250 -/
def NativePayload.text (native : NativePayload) : Option String :=
  native.content.or native.observation

namespace NativeWebhook

def source (hook : NativeWebhook) : String := "webhook:" ++ hook.name

/-- SOURCE: webhooks.rs:262-273 -/
def narrowVisibility (hook : NativeWebhook) (native : NativePayload) :
    Except HandlerError (List PrincipalToken) :=
  match native.visibility with
  | none => .ok hook.visibility
  | some requested =>
    if ∀ t ∈ requested, t ∈ hook.visibility then .ok requested
    else .error ⟨403,
      "payload visibility may narrow the webhook's bound set, never widen it"⟩

/-- SOURCE: webhooks.rs:274-290 -/
def bindEntities (hook : NativeWebhook) (native : NativePayload) :
    Except HandlerError (List String) :=
  if hook.entityScope.isEmpty then .ok native.entities
  else if native.entities.isEmpty then .ok hook.entityScope
  else if ∀ e ∈ native.entities, e ∈ hook.entityScope then .ok native.entities
  else .error ⟨403, "entities outside the webhook's entity_scope"⟩

/-- SOURCE: webhooks.rs:293-308 -/
def episode (hook : NativeWebhook) (d : NativeDelivery) (entities : List String) : Episode where
  id := d.episodeId
  tenantId := hook.tenantId
  source := hook.source
  sourceEntity := entities.head?
  kind := .webhook
  payload := .other d.raw
  trustTier := .authoritative
  writerSub := none
  writerAzp := some ("webhook:" ++ toString hook.id)
  recordedAt := d.now

/-- SOURCE: webhooks.rs:312-336 -/
def chunk (hook : NativeWebhook) (d : NativeDelivery) (visibility : List PrincipalToken)
    (entities : List String) (text : String) : ChunkWrite where
  tenantId := hook.tenantId
  source := hook.source
  documentId := "wh:" ++ toString d.episodeId
  seq := 0
  content := text
  visibility := visibility
  entityTags := entities
  confidentiality := hook.confidentiality
  trustTier := .authoritative
  validFrom := d.receivedAt
  provenance := d.episodeId
  aclProvenance := .adminAssigned
  derivedFrom := []

/-- SOURCE: webhooks.rs:339-364 -/
def fact (hook : NativeWebhook) (d : NativeDelivery) (visibility : List PrincipalToken)
    (f : NativeFact) : FactWrite where
  tenantId := hook.tenantId
  key := ⟨f.source, f.entityId, f.field⟩
  value := f.value
  validFrom := f.validFrom.getD d.receivedAt
  visibility := visibility
  confidentiality := hook.confidentiality
  provenance := d.episodeId
  aclProvenance := .adminAssigned

end NativeWebhook

namespace Database

/-- SOURCE: webhooks.rs:172-192 -/
def quarantinePayload (db : Database) (hook : NativeWebhook) (d : NativeDelivery)
    (reason : String) : Database :=
  { db with
    quarantine := db.quarantine ++
      [⟨d.quarantineId, hook.tenantId, hook.id, d.rawText, reason, d.now⟩] }

/-- What an accepted payload writes: the episode, the chunk and the facts, in this order.
SOURCE: webhooks.rs:292-382 -/
def writeNative (db : Database) (hook : NativeWebhook) (d : NativeDelivery)
    (native : NativePayload) (visibility : List PrincipalToken) (entities : List String) :
    Database × Except HandlerError WebhookReply :=
  let db := { db with episodes := db.episodes ++ [hook.episode d entities] }
  let db :=
    match native.text with
    | none => db
    | some text => db.upsertChunks d.now [hook.chunk d visibility entities text]
  match deliver db.facts (native.facts.map fun f => ⟨d.now, hook.fact d visibility f⟩) with
  | .error e => (db, .error ⟨500, (storageStatus e).message⟩)
  | .ok facts => ({ db with facts := facts }, .ok (.accepted d.episodeId))

/-- SOURCE: webhooks.rs:228-382 -/
def webhookPost (db : Database) (hook : NativeWebhook) (d : NativeDelivery) :
    Database × Except HandlerError WebhookReply :=
  match d.parsed with
  | .error reason => (db.quarantinePayload hook d reason, .ok .quarantined)
  | .ok native =>
    if native.text.isNone && native.facts.isEmpty then
      (db.quarantinePayload hook d "payload carries neither content/observation nor facts",
        .ok .quarantined)
    else
      match hook.narrowVisibility native with
      | .error e => (db, .error e)
      | .ok visibility =>
        match hook.bindEntities native with
        | .error e => (db, .error e)
        | .ok entities => db.writeNative hook d native visibility entities

end Database

end Verity.Model
