import Verity.Model.DriveRetraction

/-!
# The two drivers of the Drive connector

`GDrivePollRunner` of the orchestrator and `run_once` of the connector module poll the same change
feed and build the same body for each event. They differ in what they do with a body that the
documents endpoint does not accept, and only `run_once` knows the ledger of parked retractions.

A driver is a function of what the server answers to its calls; an answer may depend on the calls
made before. An exception of `deliver` leaves the cycle and the cursor stays. The connector-status
heartbeats, the fact lane and the ACL-diff lane are left out: none is a delivery or a retirement.
The codecs of the content and the principal registry are parameters.
-/

set_option autoImplicit false

namespace Verity.Model

/-! ## The body of an event -/

/-- SOURCE: connector.py:52-61 -/
structure DriveAclEnvelope where
  resolvable : Bool
  principals : List String
  groups : List String
deriving DecidableEq, Repr

/-- SOURCE: connector.py:39-48, gdrive.py:218-228 -/
structure GDriveDocumentEvent where
  source : String
  documentId : DocumentId
  content : List UInt8
  mimeType : String
  acl : DriveAclEnvelope
  entityTags : List String
  modifiedTime : String
  name : String
  removed : Bool
deriving DecidableEq, Repr

/-- A body for `/v1/ingest/documents`. A key that is not in the body, or that is null, is `none`.
SOURCE: gdrive.py:1070-1114 -/
structure DocumentBody where
  tenantId : String
  source : String
  documentId : DocumentId
  removed : Bool
  entities : List String
  validFrom : String
  content : Option String
  contentBase64 : Option String
  filename : Option String
  visibility : Option (List PrincipalToken)
  aclProvenance : Option String
deriving DecidableEq, Repr

/-- What the connector builds bodies with: `bytes.decode` with replacement, `b64encode`, and the
tokens that `registry.resolve` returns for a list of principals. -/
structure DriveLibraries where
  decodeUtf8 : List UInt8 → String
  base64 : List UInt8 → String
  resolve : List String → String → Option PrincipalToken

/-- SOURCE: gdrive.py:168 -/
def googleDocMime : String := "application/vnd.google-apps.document"

/-- SOURCE: gdrive.py:235-253 -/
def binaryExtractableMimes : List String :=
  ["application/pdf",
   "application/vnd.openxmlformats-officedocument.wordprocessingml.document",
   "application/msword",
   "application/vnd.openxmlformats-officedocument.presentationml.presentation",
   "application/vnd.openxmlformats-officedocument.spreadsheetml.sheet",
   "application/vnd.ms-excel",
   "image/png",
   "image/jpeg"]

/-- SOURCE: gdrive.py:256-262 -/
def isExtractable (mimeType : String) : Bool :=
  decide (mimeType = googleDocMime) || "text/".toList.isPrefixOf mimeType.toList ||
    decide (mimeType = "application/json")

/-- SOURCE: gdrive.py:265-267 -/
def isBinaryExtractable (mimeType : String) : Bool := decide (mimeType ∈ binaryExtractableMimes)

section Body

variable (lib : DriveLibraries)

/-- The principals in order, each once. SOURCE: gdrive.py:1102-1105 -/
def orderedPrincipals (acl : DriveAclEnvelope) : List String :=
  (acl.principals ++ acl.groups).foldl
    (fun ordered principal => if principal ∈ ordered then ordered else ordered ++ [principal]) []

/-- SOURCE: gdrive.py:1106-1107 -/
def resolvedVisibility (acl : DriveAclEnvelope) : List PrincipalToken :=
  (orderedPrincipals acl).filterMap (lib.resolve (orderedPrincipals acl))

/-- SOURCE: gdrive.py:1054-1114 -/
def buildDocumentRequest (event : GDriveDocumentEvent) (tenantId : String) : DocumentBody :=
  if event.removed then
    { tenantId := tenantId
      source := event.source
      documentId := event.documentId
      removed := true
      entities := []
      validFrom := event.modifiedTime
      content := none
      contentBase64 := none
      filename := none
      visibility := none
      aclProvenance := none }
  else
    let binary := event.acl.resolvable && isBinaryExtractable event.mimeType
    let body : DocumentBody :=
      { tenantId := tenantId
        source := event.source
        documentId := event.documentId
        removed := false
        entities := event.entityTags
        validFrom := event.modifiedTime
        content :=
          if !binary && event.acl.resolvable && isExtractable event.mimeType then
            some (lib.decodeUtf8 event.content)
          else none
        contentBase64 := if binary then some (lib.base64 event.content) else none
        filename := if binary && event.name ≠ "" then some event.name else none
        visibility := none
        aclProvenance := none }
    if !event.acl.resolvable then { body with aclProvenance := some "quarantined" }
    else
      let visibility := resolvedVisibility lib event.acl
      if visibility.isEmpty then { body with aclProvenance := some "quarantined" }
      else { body with visibility := some visibility, aclProvenance := some "mirrored" }

/-- SOURCE: gdrive.py:1574-1587 -/
def isIndexableBody (body : DocumentBody) : Bool :=
  !body.removed && decide (body.aclProvenance ≠ some "quarantined")

/-- The fields that have no default, and the label that the endpoint refuses.
SOURCE: main.rs:3824-3855, 4146-4151 -/
def refusedByIngestDocuments (body : DocumentBody) : Bool :=
  body.visibility.isNone || body.aclProvenance.isNone ||
    decide (body.aclProvenance = some "quarantined")

end Body

/-! ## The server -/

/-- A retirement of a document. SOURCE: gdrive.py:1709-1714 -/
structure RetireBody where
  tenantId : String
  documentId : DocumentId
  reason : String
deriving DecidableEq, Repr

/-- A call of a driver. -/
inductive DriveCall where
  | deliver (body : DocumentBody)
  | retire (body : RetireBody)
deriving DecidableEq, Repr

/-- Whether a call is answered with a 2xx, after the calls made so far. -/
structure DriveServer where
  accepts : List DriveCall → DriveCall → Bool
  refuses : ∀ calls body, refusedByIngestDocuments body = true →
    accepts calls (.deliver body) = false

/-- What a cycle has sent, whether all of it was accepted, and the cursor afterwards. -/
structure CycleResult where
  calls : List DriveCall
  allAccepted : Bool
  cursor : Option String
deriving DecidableEq, Repr

section Drivers

variable (lib : DriveLibraries) (server : DriveServer) (tenantId : String)

/-! ## The orchestrated driver -/

/-- Every body is delivered, until one is refused. SOURCE: runners.py:170-173 -/
def deliverAll : List GDriveDocumentEvent → List DriveCall → List DriveCall × Bool
  | [], calls => (calls, true)
  | event :: events, calls =>
    let call := DriveCall.deliver (buildDocumentRequest lib event tenantId)
    if server.accepts calls call then deliverAll events (calls ++ [call])
    else (calls ++ [call], false)

/-- SOURCE: runners.py:161-181 -/
def GDrivePollRunner.runCycle (poll : Option String → List GDriveDocumentEvent × String)
    (cursor : Option String) : CycleResult :=
  let (events, nextCursor) := poll cursor
  let (calls, accepted) := deliverAll lib server tenantId events []
  { calls := calls
    allAccepted := accepted
    cursor := if accepted then some nextCursor else cursor }

/-! ## The connector's own driver -/

/-- What a cycle of `run_once` holds. -/
structure OnceState where
  calls : List DriveCall
  allAccepted : Bool
  ledger : LedgerFile
  deliveredIds : List DocumentId
  parked : List ParkedEntry
deriving DecidableEq, Repr

/-- SOURCE: gdrive.py:1607-1611 -/
def parkedBody (event : GDriveDocumentEvent) (body : DocumentBody) : ParkedEntry where
  documentId := event.documentId
  reason := if body.removed then "removed" else "quarantined"

/-- The retirements of a drain, and the entries that remain. SOURCE: gdrive.py:1707-1728 -/
def drainEntries : List ParkedEntry → List DriveCall → List DriveCall × List ParkedEntry
  | [], calls => (calls, [])
  | entry :: entries, calls =>
    let call := DriveCall.retire ⟨tenantId, entry.documentId, entry.reason⟩
    let (sent, remaining) := drainEntries entries (calls ++ [call])
    (sent, if server.accepts calls call then remaining else entry :: remaining)

/-- A sink without a retire transport drains nothing. SOURCE: gdrive.py:1684-1728 -/
def OnceState.drain (canRetire : Bool) (s : OnceState) : OnceState :=
  let ledger := if canRetire then s.ledger.entries else []
  let (calls, remaining) := drainEntries server tenantId ledger s.calls
  { s with
    calls := calls
    allAccepted := s.allAccepted && remaining.isEmpty
    ledger := s.ledger.writeRemaining ledger remaining }

/-- The loop over the events; a delivery that is refused leaves the cycle.
SOURCE: gdrive.py:1788-1801 -/
def deliverIndexable : List GDriveDocumentEvent → OnceState → OnceState × Bool
  | [], s => (s, true)
  | event :: events, s =>
    let body := buildDocumentRequest lib event tenantId
    if !isIndexableBody body then
      deliverIndexable events { s with
        parked := s.parked ++ [parkedBody event body]
        deliveredIds := s.deliveredIds.filter (· ≠ event.documentId) }
    else
      let call := DriveCall.deliver body
      let sent := s.calls ++ [call]
      if server.accepts s.calls call then
        deliverIndexable events { s with
          calls := sent
          deliveredIds := event.documentId :: s.deliveredIds
          parked := s.parked.filter fun e => e.documentId ≠ event.documentId }
      else ({ s with calls := sent, allAccepted := false }, false)

/-- One cycle over the ledger file as it was. SOURCE: gdrive.py:1746-1843 -/
def runOnce (canRetire : Bool) (ledger : LedgerFile)
    (poll : Option String → List GDriveDocumentEvent × String) (cursor : Option String) :
    CycleResult :=
  let (events, nextCursor) := poll cursor
  let start := OnceState.drain server tenantId canRetire ⟨[], true, ledger, [], []⟩
  let (s, finished) := deliverIndexable lib server tenantId events start
  if finished then
    let ledger := (s.ledger.unparkDelivered s.deliveredIds).parkRetractions s.parked
    let s := OnceState.drain server tenantId canRetire { s with ledger := ledger }
    { calls := s.calls, allAccepted := s.allAccepted, cursor := some nextCursor }
  else { calls := s.calls, allAccepted := s.allAccepted, cursor := cursor }

end Drivers

end Verity.Model
