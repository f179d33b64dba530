import Verity.Model.ResolutionScheduler

/-!
# Change-event envelopes

`parse_envelope` normalizes one Debezium envelope and resolves its ACL: an inline block goes before
the policy that is bound to the connector. The raw payload is left out: nothing here reads it.
-/

set_option autoImplicit false

namespace Verity.Model

open Verity.Foundation (okOr)

/-- `Value::to_string`, the debug form of an optional text, and chrono's reading of milliseconds
(nothing where they are out of its range). -/
structure EnvelopeLibraries where
  toText : Json → String
  debugOption : Option String → String
  timestampMillis : Int → Option Instant

/-- SOURCE: ingest.rs:67-77 -/
inductive IngestError where
  | notAnEnvelope
  | unsupportedOp (op : String)
  | missingRowImage
  | missingPk (pk : String)
deriving DecidableEq, Repr

/-- SOURCE: ingest.rs:67-77 -/
def IngestError.text (debug : String → String) : IngestError → String
  | .notAnEnvelope => "not a Debezium envelope: missing payload.op"
  | .unsupportedOp op => "unsupported op " ++ debug op
  | .missingRowImage => "missing row image for op"
  | .missingPk pk => "primary key field " ++ debug pk ++ " absent from row image"

/-- The wrapped payload, or a bare one.
SOURCE: ingest.rs:90-94 -/
def envelopePayload (body : Json) : Option Json :=
  match (body.get "payload").filter fun p => (p.get "op").isSome with
  | some p => some p
  | none => if (body.get "op").isSome then some body else none

/-- SOURCE: ingest.rs:96-100 -/
def envelopeOp (lib : EnvelopeLibraries) (payload : Json) : Except IngestError ChangeOp :=
  let op := (payload.get "op").bind Json.asStr
  if op = some "c" ∨ op = some "u" ∨ op = some "r" then .ok .upsert
  else if op = some "d" then .ok .delete
  else .error (.unsupportedOp (lib.debugOption op))

/-- SOURCE: ingest.rs:211-217 -/
def nonEmpty (s fallback : String) : String := if s = "" then fallback else s

/-- SOURCE: ingest.rs:102-116 -/
def envelopeSource (sourceMeta : Json) : String :=
  let get (k : String) : String := ((sourceMeta.get k).bind Json.asStr).getD ""
  let source := nonEmpty (get "connector") "debezium" ++ ":" ++
    String.intercalate "." ([get "db", get "schema", get "table"].filter (· ≠ ""))
  if ":".toList <:+ source.toList then source ++ "unknown" else source

/-- SOURCE: ingest.rs:118-123 -/
def envelopeImage (payload : Json) : ChangeOp → Option Json
  | .upsert => (payload.get "after").bind Json.asObject
  | .delete => ((payload.get "before").or (payload.get "after")).bind Json.asObject

/-- SOURCE: ingest.rs:219-225 -/
def jsonScalarToString (lib : EnvelopeLibraries) : Json → String
  | .str s => s
  | v => lib.toText v

/-- The entries of an object. -/
def Json.entries : Json → List (String × Json)
  | .obj kvs => kvs
  | _ => []

/-- SOURCE: ingest.rs:84-165 -/
def parseEnvelope (lib : EnvelopeLibraries) (now : Instant) (body : Json) (pk : String)
    (boundPolicy : Option ResolvedAcl) : Except IngestError ChangeEvent := do
  let payload ← okOr (envelopePayload body) .notAnEnvelope
  let op ← envelopeOp lib payload
  let sourceMeta := (payload.get "source").getD .null
  let image ← okOr (envelopeImage payload op) .missingRowImage
  let entityId ← okOr ((image.get pk).map (jsonScalarToString lib)) (.missingPk pk)
  let tsMs := ((sourceMeta.get "ts_ms").or (payload.get "ts_ms")).bind Json.asI64
  return {
    source := envelopeSource sourceMeta
    entityId := entityId
    op := op
    fields :=
      match op with
      | .delete => []
      | .upsert => image.entries.filter fun kv => kv.1 ≠ pk
    occurredAt := (tsMs.bind lib.timestampMillis).getD now
    acl :=
      match op with
      | .delete => none
      | .upsert => (parseInlineAcl payload).or boundPolicy }

end Verity.Model
