import Verity.Foundation.Keyset
import Verity.Model.Chunks
import Verity.Model.Facts

/-!
# ACL correction in place

The store behind the server's cache, as far as ACL corrections touch it, and the dispatch
both correction routes share. A correction rewrites the ACL of every row of a fact key or
of a document lineage, current and superseded, and appends to an audit log. The rewrite is
one committed transaction; the check that it met any row comes after it, so a refused
correction may still leave its audit row behind.
-/

set_option autoImplicit false

namespace Verity.Model

open Verity.Foundation

/-! ## The inline ACL block

`parse_inline_acl` of the ingest path: the `verity_acl` block a connector puts beside a row
image, which the ACL-correction routes decode through the same function. A block that is
absent or malformed reads as nothing.
-/

/-- A resolved ACL: what an upsert stamps on a row.
SOURCE: ingest.rs:20-35 -/
structure ResolvedAcl where
  visibility : List PrincipalToken
  confidentiality : Confidentiality
  provenance : AclProvenance
deriving DecidableEq, Repr

/-- The variant name of a unit enum, as serde reads it from a value: a string, or an object
whose only entry maps the name to null. -/
def enumVariant : Json → Option String
  | .str s => some s
  | .obj [(name, .null)] => some name
  | _ => none

/-- The wire names of a class, with their lowercase aliases.
SOURCE: types.rs:122-139 -/
def Confidentiality.ofName (name : String) : Option Confidentiality :=
  if name = "Public" ∨ name = "public" then some .publicClass
  else if name = "Internal" ∨ name = "internal" then some .internal
  else if name = "Confidential" ∨ name = "confidential" then some .confidential
  else if name = "Restricted" ∨ name = "restricted" then some .restricted
  else none

/-- The kebab-case wire names.
SOURCE: types.rs:167-190 -/
def AclProvenance.ofName (name : String) : Option AclProvenance :=
  if name = "mirrored" then some .mirrored
  else if name = "approximated" then some .approximated
  else if name = "admin-assigned" then some .adminAssigned
  else if name = "quarantined" then some .quarantined
  else if name = "derived" then some .derived
  else if name = "writer-scoped" then some .writerScoped
  else if name = "declared" then some .declared
  else none

/-- `n as i32`: the low 32 bits, read as a signed word. -/
def asPrincipalToken (n : Int) : PrincipalToken := n.bmod 4294967296

/-- The `verity_acl` block of a payload.
SOURCE: ingest.rs:167-209 -/
def parseInlineAcl (payload : Json) : Option ResolvedAcl := do
  let block ← (← payload.get "verity_acl").asObject
  let entries ← (← block.get "visibility").asArray
  let visibility ← entries.mapM fun v => v.asI64.map asPrincipalToken
  let confidentiality ←
    match block.get "confidentiality" with
    | none => some Confidentiality.internal
    | some v => (enumVariant v).bind Confidentiality.ofName
  let provenance ←
    match block.get "acl_provenance" with
    | none => some AclProvenance.mirrored
    | some v => (enumVariant v).bind AclProvenance.ofName
  pure { visibility, confidentiality, provenance }

/-! ## The corrections -/

/-- Why an ACL was rewritten.
SOURCE: postgres.rs:5272-5295 -/
inductive AclCorrectionReason where
  | sourceReshare
  | sourceUnshare
  | adminCorrection
  | rebacWatchDelete
  | principalRevoke
deriving DecidableEq, Repr

def AclCorrectionReason.asStr : AclCorrectionReason → String
  | sourceReshare => "source_reshare"
  | sourceUnshare => "source_unshare"
  | adminCorrection => "admin_correction"
  | rebacWatchDelete => "rebac_watch_delete"
  | principalRevoke => "principal_revoke"

/-- SOURCE: types.rs:192-204 -/
def AclProvenance.asStr : AclProvenance → String
  | mirrored => "mirrored"
  | approximated => "approximated"
  | adminAssigned => "admin-assigned"
  | quarantined => "quarantined"
  | derived => "derived"
  | writerScoped => "writer-scoped"
  | declared => "declared"

/-- The columns of `chunks` that identify a row's lineage and decide who reads it.
SOURCE: migrations/0001_init.sql:54-72, migrations/0005_knowledge.sql:41 -/
structure ChunkRow where
  id : Nat
  tenantId : TenantId
  source : String
  documentId : String
  seq : Int
  kind : String
  entityTags : List String
  visibility : List PrincipalToken
  confidentiality : Confidentiality
  validTo : Option Time
deriving DecidableEq, Repr

/-- SOURCE: migrations/0026_fact_visibility.sql:26-43 -/
structure FactAclAudit where
  tenantId : TenantId
  key : FactKey
  factId : Option FactId
  oldVisibility : Option (List PrincipalToken)
  newVisibility : List PrincipalToken
  oldConfidentiality : Option Confidentiality
  newConfidentiality : Confidentiality
  reason : String
  aclProvenance : String
  changedBy : Option String
deriving DecidableEq, Repr

/-- SOURCE: migrations/0036_chunk_acl_audit.sql -/
structure ChunkAclAudit where
  tenantId : TenantId
  source : String
  documentId : String
  seq : Int
  chunkId : Nat
  oldVisibility : List PrincipalToken
  newVisibility : List PrincipalToken
  oldConfidentiality : Confidentiality
  newConfidentiality : Confidentiality
  reason : String
  aclProvenance : String
  changedBy : Option String
deriving DecidableEq, Repr

/-- The tables of `PostgresAdapter` that facts and ACL corrections live in. -/
structure Store where
  tenants : List TenantId
  facts : FactTable
  chunks : List ChunkRow
  factAclAudit : List FactAclAudit
  chunkAclAudit : List ChunkAclAudit

namespace Store

/-- SOURCE: postgres.rs:833-844 -/
def ensureTenant (s : Store) (tenant : TenantId) : Except StorageError Unit :=
  if tenant ∈ s.tenants then .ok () else .error (.unknownTenant tenant)

/-- The rows of a document lineage, current and superseded. -/
def lineage (s : Store) (tenant : TenantId) (source documentId : String) : List ChunkRow :=
  s.chunks.filter fun r => r.tenantId = tenant ∧ r.source = source ∧ r.documentId = documentId

/-- The strictest class among the live chunks of a lineage.
SOURCE: postgres.rs:5324-5345 -/
def currentChunkConfidentiality (s : Store) (tenant : TenantId) (source documentId : String) :
    Option Confidentiality :=
  (((s.lineage tenant source documentId).filter fun r => r.validTo = none).map
    ChunkRow.confidentiality).max?

/-- The rewrite of a fact key, with its one audit row: the rows met are counted.
SOURCE: postgres.rs:5361-5448 -/
def correctFactAcl (s : Store) (tenant : TenantId) (key : FactKey)
    (newVisibility : List PrincipalToken) (newConfidentiality : Confidentiality)
    (reason : AclCorrectionReason) (aclProvenance : AclProvenance) (changedBy : Option String) :
    Store × Nat :=
  let current := s.facts.currentRow tenant key
  let audit : FactAclAudit :=
    { tenantId := tenant
      key := key
      factId := current.map FactRow.id
      oldVisibility := current.map FactRow.visibility
      newVisibility := newVisibility
      oldConfidentiality := current.map FactRow.confidentiality
      newConfidentiality := newConfidentiality
      reason := reason.asStr
      aclProvenance := aclProvenance.asStr
      changedBy := changedBy }
  ({ s with
      facts := s.facts.setAcl tenant key newVisibility newConfidentiality
      factAclAudit := s.factAclAudit ++ [audit] },
    (s.facts.rowsOf tenant key).length)

/-- The rewrite of a document lineage, with one audit row per live chunk.
SOURCE: postgres.rs:5469-5554 -/
def correctChunkAcl (s : Store) (tenant : TenantId) (source documentId : String)
    (newVisibility : List PrincipalToken) (newConfidentiality : Confidentiality)
    (reason : AclCorrectionReason) (aclProvenance : AclProvenance) (changedBy : Option String) :
    Store × Nat :=
  let current := (s.lineage tenant source documentId).filter fun r => r.validTo = none
  let audit (row : ChunkRow) : ChunkAclAudit :=
    { tenantId := tenant
      source := source
      documentId := documentId
      seq := row.seq
      chunkId := row.id
      oldVisibility := row.visibility
      newVisibility := newVisibility
      oldConfidentiality := row.confidentiality
      newConfidentiality := newConfidentiality
      reason := reason.asStr
      aclProvenance := aclProvenance.asStr
      changedBy := changedBy }
  ({ s with
      chunks := s.chunks.map fun r =>
        if r.tenantId = tenant ∧ r.source = source ∧ r.documentId = documentId then
          { r with visibility := newVisibility, confidentiality := newConfidentiality }
        else r
      chunkAclAudit := s.chunkAclAudit ++ current.map audit },
    (s.lineage tenant source documentId).length)

end Store

/-- An HTTP refusal: the status code and the text. -/
structure HandlerError where
  status : Nat
  message : String
deriving DecidableEq, Repr

/-- SOURCE: main.rs:7754-7768, types.rs:939-947 -/
def storageStatus : StorageError → HandlerError
  | .unknownTenant t => ⟨404, "unknown tenant " ++ toString t⟩
  | .invalidInput msg => ⟨422, msg⟩
  | .database msg => ⟨500, "database error: " ++ msg⟩

/-- The body of both correction routes; `object` is the document id, `fact` the entity id
and field.
SOURCE: main.rs:3858-3903 -/
structure AclChangeRequest where
  tenantId : TenantId
  source : String
  object : Option String
  fact : Option (String × String)
  verityAcl : Json
deriving DecidableEq, Repr

/-- SOURCE: main.rs:4030-4035 -/
structure AclChangeReply where
  kind : String
  source : String
  id : String
  rowsRewritten : Nat
deriving DecidableEq, Repr

/-- The class a correction stamps: an un-share never lowers the one in force.
SOURCE: main.rs:3938-3961, 3985-3996 -/
def correctedConfidentiality (reason : AclCorrectionReason) (requested : Confidentiality)
    (current : Option Confidentiality) : Confidentiality :=
  if reason = .sourceUnshare then
    match current with
    | some cur => max requested cur
    | none => requested
  else requested

/-- The fact key a request names. -/
def AclChangeRequest.factKey (req : AclChangeRequest) (fact : String × String) : FactKey where
  source := req.source
  entityId := fact.1
  field := fact.2

/-- The answer to a rewrite: one that met no row is refused, after the fact.
SOURCE: main.rs:4018-4035 -/
def AclChangeRequest.reply (req : AclChangeRequest) (kind id : String) (result : Store × Nat) :
    Store × Except HandlerError AclChangeReply :=
  if result.2 = 0 then
    (result.1, .error ⟨404,
      "no " ++ kind ++ " rows for " ++ req.source ++ ":" ++ id ++ " — nothing rewritten"⟩)
  else (result.1, .ok { kind, source := req.source, id, rowsRewritten := result.2 })

/-- The answer leaves the rewrite as it is, refused or not. -/
theorem AclChangeRequest.reply_fst (req : AclChangeRequest) (kind id : String)
    (result : Store × Nat) : (req.reply kind id result).1 = result.1 := by
  unfold AclChangeRequest.reply
  split <;> rfl

/-- The dispatch of both correction routes. The store is returned with the refusal too.
SOURCE: main.rs:3911-4036 -/
def dispatchAclCorrection (s : Store) (req : AclChangeRequest) (reason : AclCorrectionReason)
    (changedBy : String) : Store × Except HandlerError AclChangeReply :=
  match parseInlineAcl (.obj [("verity_acl", req.verityAcl)]) with
  | none => (s, .error ⟨422, "verity_acl is absent or malformed (expected " ++
      "\x7bvisibility:[...], confidentiality, acl_provenance\x7d); " ++
      "refusing rather than defaulting permissive"⟩)
  | some resolved =>
  if resolved.provenance = .quarantined then
    (s, .error ⟨422, "acl_provenance must be mirrored, approximated, or admin-assigned"⟩)
  else match s.ensureTenant req.tenantId with
  | .error e => (s, .error (storageStatus e))
  | .ok () =>
  match req.object, req.fact with
  | some documentId, none =>
    let conf := correctedConfidentiality reason resolved.confidentiality
      (s.currentChunkConfidentiality req.tenantId req.source documentId)
    req.reply "document" documentId
      (s.correctChunkAcl req.tenantId req.source documentId resolved.visibility conf reason
        resolved.provenance (some changedBy))
  | none, some fact =>
    let key := req.factKey fact
    let conf := correctedConfidentiality reason resolved.confidentiality
      (currentFactConfidentiality s.facts req.tenantId key)
    req.reply "fact" (key.entityId ++ "/" ++ key.field)
      (s.correctFactAcl req.tenantId key resolved.visibility conf reason resolved.provenance
        (some changedBy))
  | _, _ => (s, .error ⟨422, "exactly one of `object` (document_id) or " ++
      "`fact` (entity_id, field) is required"⟩)

/-! ## Retracting a token from the chunks

When a principal loses its direct grants its own token is taken out of the visibility of every chunk
of the tenant, current and superseded. The rows are rewritten in batches by id, each batch in a
transaction of its own; a current row leaves a row in the audit log. The loop has no bound of its
own, so it is given fuel. A statement that fails ends the call with an error, which is left out.
-/

/-- A row of the tenant that carries the token. -/
def Chunk.carriesToken (c : Chunk) (tenant : TenantId) (token : PrincipalToken) : Bool :=
  decide (c.tenantId = tenant) && c.visibility.contains token

section Sweep

variable (tenant : TenantId) (token : PrincipalToken) (reason : AclCorrectionReason)
  (changedBy : String)

end Sweep

end Verity.Model
