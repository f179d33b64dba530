import Verity.Model.Retirement

/-!
# Re-ingesting a quarantined payload

An admin supplies the access list of a quarantined payload, which is then written as an episode, a
chunk and facts. The item is claimed first and reopened when a later step fails. Each step is a
transaction of its own, and which of them fail comes with the call.

The admin key, the audit of the call, the embedding and the count of the chunks are left out.
-/

set_option autoImplicit false

namespace Verity.Model

open Verity.Foundation

inductive QuarantineResolution where
  | reingested
  | dismissed
deriving DecidableEq, Repr

def QuarantineResolution.asStr : QuarantineResolution → String
  | .reingested => "reingested"
  | .dismissed => "dismissed"

/-- A row of `quarantine_preview` with its disposition. SOURCE: postgres.rs:181-190,
migrations/0007_webhooks_media.sql:23-30, 0023_quarantine_lifecycle.sql:8-11 -/
structure QuarantineItem where
  id : Nat
  tenantId : TenantId
  webhookId : Nat
  payload : Json
  reason : String
  instant : Time
  resolution : Option QuarantineResolution
  resolvedAt : Option Time
  resolutionNote : Option String
deriving DecidableEq

/-- SOURCE: main.rs:7436-7455 -/
structure QuarantineReingestRequest where
  tenantId : TenantId
  visibility : List PrincipalToken
  confidentiality : Confidentiality
  entityTags : List String := []
  content : Option String := none
  note : Option String := none
deriving DecidableEq, Repr

/-- SOURCE: main.rs:7457-7466 -/
structure ReingestFact where
  source : String
  entityId : String
  field : String
  value : Json
  validFrom : Option Instant
deriving DecidableEq

/-- The steps of a call that read or write the store. -/
inductive ReingestStep where
  | item
  | claim
  | source
  | episode
  | chunk
  | fact (index : Nat)
  | reopen
deriving DecidableEq, Repr

/-- A call: its request, the id its episode gets, the time by the clocks of the server and of the
database, and the steps that fail, with the text of the error. -/
structure ReingestCall where
  req : QuarantineReingestRequest
  episodeId : EpisodeId
  receivedAt : Instant
  now : Time
  fails : ReingestStep → Option String

/-- The tables, the quarantined items with their primary key, and the names of the webhooks. -/
structure QuarantinePlane where
  db : Database
  items : List QuarantineItem
  ids_nodup : (items.map QuarantineItem.id).Nodup
  webhooks : List (Nat × String)

structure ReingestReply where
  quarantineId : Nat
  episodeId : EpisodeId
  factsWritten : Nat
  factsUnparseableSkipped : Bool
  rawTextTruncatedAtCapture : Bool
deriving DecidableEq, Repr

/-- What a call leaves and answers, and how many facts it wrote. -/
structure ReingestOutcome where
  plane : QuarantinePlane
  factsWritten : Nat
  reply : Except HandlerError ReingestReply

/-- A text field of a payload. -/
def payloadText (payload : Json) (field : String) : Option String :=
  (payload.get field).bind Json.asStr

/-- SOURCE: main.rs:7507-7534 -/
def reingestContent (req : QuarantineReingestRequest) (payload : Json) : Option String :=
  (((req.content).or (payloadText payload "content")).or (payloadText payload "observation")).or
    (payloadText payload "raw")

/-- The facts of a payload, and whether they are skipped since they do not parse.
SOURCE: main.rs:7535-7543 -/
def reingestFacts (parseFacts : Json → Option (List ReingestFact)) (payload : Json) :
    List ReingestFact × Bool :=
  match payload.get "facts" with
  | none => ([], false)
  | some v =>
    match parseFacts v with
    | some facts => (facts, false)
    | none => ([], true)

namespace QuarantinePlane

def updateItems (s : QuarantinePlane) (p : QuarantineItem → Bool)
    (f : QuarantineItem → QuarantineItem) (hf : ∀ i, (f i).id = i.id) : QuarantinePlane :=
  { s with
    items := updateWhere p f s.items
    ids_nodup := by
      rw [map_updateWhere hf]
      exact s.ids_nodup }

/-- SOURCE: postgres.rs:3046-3073 -/
def quarantineItem (s : QuarantinePlane) (tenant : TenantId) (id : Nat) : Option QuarantineItem :=
  s.items.find? fun i => i.tenantId = tenant ∧ i.id = id

/-- The item is claimed if it is open.
SOURCE: postgres.rs:3080-3105 -/
def resolveQuarantine (s : QuarantinePlane) (tenant : TenantId) (id : Nat)
    (resolution : QuarantineResolution) (note : Option String) (now : Time) :
    Option QuarantinePlane :=
  let isOpen (i : QuarantineItem) : Bool :=
    decide (i.tenantId = tenant ∧ i.id = id ∧ i.resolution = none)
  if s.items.any isOpen then
    some (s.updateItems isOpen (fun i =>
      { i with resolution := some resolution, resolvedAt := some now, resolutionNote := note })
      fun _ => rfl)
  else none

/-- SOURCE: postgres.rs:3110-3122 -/
def reopenQuarantine (s : QuarantinePlane) (tenant : TenantId) (id : Nat) : QuarantinePlane :=
  s.updateItems (fun i => decide (i.tenantId = tenant ∧ i.id = id)) (fun i =>
    { i with resolution := none, resolvedAt := none, resolutionNote := none }) fun _ => rfl

end QuarantinePlane

namespace ReingestCall

variable (call : ReingestCall)

/-- Who a re-ingest writes its episode as. -/
def writer (id : Nat) : String := "admin-reingest:" ++ toString id

/-- SOURCE: main.rs:7577-7593 -/
def episode (id : Nat) (source : String) (payload : Json) : Episode where
  id := call.episodeId
  tenantId := call.req.tenantId
  source := source
  sourceEntity := call.req.entityTags.head?
  kind := .webhook
  payload := .other payload
  trustTier := .authoritative
  writerSub := none
  writerAzp := some (writer id)
  recordedAt := call.now

/-- SOURCE: main.rs:7599-7618 -/
def chunk (source text : String) : ChunkWrite where
  tenantId := call.req.tenantId
  source := source
  documentId := "qr:" ++ toString call.episodeId
  seq := 0
  content := text
  visibility := call.req.visibility
  entityTags := call.req.entityTags
  confidentiality := call.req.confidentiality
  trustTier := .authoritative
  validFrom := call.receivedAt
  provenance := call.episodeId
  aclProvenance := .adminAssigned
  derivedFrom := []

/-- SOURCE: main.rs:7627-7643 -/
def fact (f : ReingestFact) : FactWrite where
  tenantId := call.req.tenantId
  key := ⟨f.source, f.entityId, f.field⟩
  value := f.value
  validFrom := f.validFrom.getD call.receivedAt
  visibility := call.req.visibility
  confidentiality := call.req.confidentiality
  provenance := call.episodeId
  aclProvenance := .adminAssigned

/-- The facts one after the other, up to the first that fails, and how many are written.
SOURCE: main.rs:7622-7647 -/
def writeFacts (db : Database) : List ReingestFact → Nat → Database × Nat × Option HandlerError
  | [], written => (db, written, none)
  | f :: facts, written =>
    match call.fails (.fact written) with
    | some msg => (db, written, some ⟨500, msg⟩)
    | none =>
      match db.upsertFact call.now (call.fact f) with
      | .error e => (db, written, some ⟨500, (storageStatus e).message⟩)
      | .ok (db, _) => writeFacts db facts (written + 1)

/-- SOURCE: main.rs:7567-7576 -/
def sourceOf (webhooks : List (Nat × String)) (item : QuarantineItem) : String :=
  match webhooks.lookup item.webhookId with
  | some name => "webhook:" ++ name
  | none => "webhook:" ++ toString item.webhookId

/-- The writes after the episode.
SOURCE: main.rs:7594-7648 -/
def writeRest (db : Database) (source : String) (content : Option String)
    (facts : List ReingestFact) : Database × Nat × Option HandlerError :=
  match content with
  | none => call.writeFacts db facts 0
  | some text =>
    match call.fails .chunk with
    | some msg => (db, 0, some ⟨500, msg⟩)
    | none => call.writeFacts (db.upsertChunks call.now [call.chunk source text]) facts 0

/-- The writes of a claimed item.
SOURCE: main.rs:7566-7653 -/
def ingest (s : QuarantinePlane) (item : QuarantineItem) (content : Option String)
    (facts : List ReingestFact) : Database × Nat × Option HandlerError :=
  match call.fails .source with
  | some msg => (s.db, 0, some ⟨500, msg⟩)
  | none =>
    let source := sourceOf s.webhooks item
    match call.fails .episode with
    | some msg => (s.db, 0, some ⟨500, msg⟩)
    | none =>
      let db := { s.db with
        episodes := s.db.episodes ++ [call.episode item.id source item.payload] }
      call.writeRest db source content facts

end ReingestCall

/-- SOURCE: main.rs:7483-7697 -/
def adminQuarantineReingest (parseFacts : Json → Option (List ReingestFact))
    (s : QuarantinePlane) (id : Nat) (call : ReingestCall) : ReingestOutcome :=
  let refuse (e : HandlerError) : ReingestOutcome := ⟨s, 0, .error e⟩
  let tenant := call.req.tenantId
  match call.fails .item with
  | some msg => refuse ⟨500, msg⟩
  | none =>
    match s.quarantineItem tenant id with
    | none => refuse ⟨404, "no such quarantined item"⟩
    | some item =>
      match item.resolution with
      | some res =>
        refuse ⟨409, "quarantine item already resolved (" ++ res.asStr ++ ")"⟩
      | none =>
        let content := reingestContent call.req item.payload
        let (facts, factsUnparseable) := reingestFacts parseFacts item.payload
        if content.isNone && facts.isEmpty then
          refuse ⟨422, "payload carries nothing ingestible (no content/observation/raw " ++
            "text, no parseable facts); re-ingest never fabricates content — supply a " ++
            "corrected `content` extraction or fix at the source"⟩
        else
          match call.fails .claim with
          | some msg => refuse (storageStatus (.database msg))
          | none =>
            match s.resolveQuarantine tenant id .reingested call.req.note call.now with
            | none => refuse ⟨409, "quarantine item already resolved"⟩
            | some s =>
              match call.ingest s item content facts with
              | (db, written, some e) =>
                let s := { s with db := db }
                match call.fails .reopen with
                | some _ => ⟨s, written, .error e⟩
                | none => ⟨s.reopenQuarantine tenant id, written, .error e⟩
              | (db, written, none) =>
                ⟨{ s with db := db }, written, .ok
                  { quarantineId := id
                    episodeId := call.episodeId
                    factsWritten := written
                    factsUnparseableSkipped := factsUnparseable
                    rawTextTruncatedAtCapture :=
                      call.req.content.isNone &&
                        (payloadText item.payload "content").isNone &&
                        (payloadText item.payload "observation").isNone &&
                        (item.payload.get "raw").isSome }⟩

end Verity.Model
