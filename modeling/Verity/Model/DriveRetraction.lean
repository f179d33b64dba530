import Mathlib.Data.List.Basic
import Verity.Model.Types

/-!
# The Drive connector's retraction ledger

`run_once` of the Drive connector, step by step. A cycle loads the cursor and polls; it posts
the retractions that are parked from earlier cycles; it delivers what the poll has brought,
noting what cannot be delivered because the file is removed or quarantined; it takes the
delivered documents out of the ledger file, parks what it has noted, posts the ledger again,
and at last saves the cursor.

The process may stop between any two steps, and a failed delivery or any other exception that
leaves `run_once` is the same as a stop: what the cycle held in memory is gone, the cursor
file and the ledger file are as last written. `Path.write_text` truncates the file before it
writes, so a stop in the middle of a write leaves a file that does not parse. The poll is
taken to return any events: the state of a file is read when it is polled, so the same window
may bring other events the next time.

The ledger's `first_seen` and `last_seen` stamps, which nothing reads, are left out, as are the
fact lane and the ACL-diff lane, which touch neither file.
-/

set_option autoImplicit false

namespace Verity.Model

abbrev DocumentId := String

/-- A polled change. `visibility` is what the registry resolves of the file's principals.
SOURCE: gdrive.py:954-980, 1054-1114 -/
structure DriveEvent where
  documentId : DocumentId
  removed : Bool
  resolvable : Bool
  visibility : List PrincipalToken
deriving DecidableEq, Repr

/-- Whether the documents endpoint accepts the body built from the event.
SOURCE: gdrive.py:1070-1114, 1574-1587 -/
def DriveEvent.isIndexable (event : DriveEvent) : Bool :=
  !event.removed && event.resolvable && !event.visibility.isEmpty

/-- SOURCE: gdrive.py:1607-1611 -/
structure ParkedEntry where
  documentId : DocumentId
  reason : String
deriving DecidableEq, Repr

/-- SOURCE: gdrive.py:1607-1611 -/
def parkedEntry (event : DriveEvent) : ParkedEntry where
  documentId := event.documentId
  reason := if event.removed then "removed" else "quarantined"

/-- `gdrive_parked_retractions.json`. -/
inductive LedgerFile where
  | missing
  | corrupt
  | parsed (ledger : List ParkedEntry)
deriving DecidableEq, Repr

namespace LedgerFile

/-- The entries a reader finds; a file that does not parse is left to the parking step. -/
def entries : LedgerFile → List ParkedEntry
  | parsed ledger => ledger
  | missing => []
  | corrupt => []

/-- One retraction into the ledger: a document that is parked gets the new reason. -/
def parkOne (ledger : List ParkedEntry) (entry : ParkedEntry) : List ParkedEntry :=
  if ∃ e ∈ ledger, e.documentId = entry.documentId then
    ledger.map fun e =>
      if e.documentId = entry.documentId then { e with reason := entry.reason } else e
  else ledger ++ [entry]

/-- A corrupt file is moved aside in every case; without entries nothing is written.
SOURCE: gdrive.py:1614-1657 -/
def parkRetractions (file : LedgerFile) (parked : List ParkedEntry) : LedgerFile :=
  if parked.isEmpty then
    match file with
    | corrupt => missing
    | file => file
  else parsed (parked.foldl parkOne file.entries)

/-- SOURCE: gdrive.py:1660-1681 -/
def unparkDelivered (file : LedgerFile) (deliveredIds : List DocumentId) : LedgerFile :=
  let remaining := file.entries.filter fun e => e.documentId ∉ deliveredIds
  if remaining.length = file.entries.length then file else parsed remaining

/-- The ledger after its entries have been posted: those refused remain.
SOURCE: gdrive.py:1726-1728 -/
def writeRemaining (file : LedgerFile) (ledger remaining : List ParkedEntry) : LedgerFile :=
  if remaining.length = ledger.length then file else parsed remaining

end LedgerFile

/-- The cursor file next to the ledger. -/
inductive CursorFile where
  | missing
  | corrupt
  | saved (cursor : String)
deriving DecidableEq, Repr

/-- What a cycle holds in memory.
SOURCE: gdrive.py:1778-1787 -/
structure DriveCycle where
  nextCursor : String
  events : List DriveEvent
  deliveredIds : List DocumentId
  parked : List ParkedEntry
deriving DecidableEq, Repr

/-- Where `run_once` is. A drain has read `ledger`, still has to post `todo`, and keeps what
was refused. -/
inductive DrivePhase where
  | idle
  | preDrain (ledger todo remaining : List ParkedEntry) (cycle : DriveCycle)
  | delivering (cycle : DriveCycle)
  | unparking (cycle : DriveCycle)
  | parking (cycle : DriveCycle)
  | postDrain (ledger todo remaining : List ParkedEntry) (cycle : DriveCycle)
  | saving (cycle : DriveCycle)
deriving DecidableEq, Repr

/-- What the connector and the server have done, in order. -/
inductive DriveLog where
  | polled
  | noted (documentId : DocumentId)
  | delivered (documentId : DocumentId)
  | posted (documentId : DocumentId) (acknowledged : Bool)
  | saved
deriving DecidableEq, Repr

/-- The two files, the running cycle, and the record of what was done. `canRetire` is whether
the sink has a retire transport at all. -/
structure DriveWorld where
  canRetire : Bool
  cursor : CursorFile
  ledger : LedgerFile
  phase : DrivePhase
  log : List DriveLog
deriving DecidableEq, Repr

/-- Nothing polled yet. -/
def DriveWorld.start (canRetire : Bool) : DriveWorld where
  canRetire := canRetire
  cursor := .missing
  ledger := .missing
  phase := .idle
  log := []

/-- One thing that happens: the next step of the code, with what the server answers to a
post, or the process stops, between two steps or inside a write. -/
inductive DriveEventStep where
  | poll (events : List DriveEvent) (nextCursor : String)
  | advance (accepted : Bool)
  | stop
  | tear
deriving DecidableEq, Repr

namespace DriveWorld

/-- The entries a drain sets out to post.
SOURCE: gdrive.py:1696-1706 -/
def toDrain (w : DriveWorld) : List ParkedEntry := if w.canRetire then w.ledger.entries else []

/-- SOURCE: gdrive.py:1708-1725 -/
def postRetraction (entry : ParkedEntry) (accepted : Bool) (remaining : List ParkedEntry) :
    List ParkedEntry :=
  if accepted then remaining else remaining ++ [entry]

/-- The loop over the polled events: a retraction is noted, a body is delivered, and a
refused delivery ends the cycle.
SOURCE: gdrive.py:1788-1801 -/
def deliverNext (w : DriveWorld) (cycle : DriveCycle) (event : DriveEvent)
    (rest : List DriveEvent) (accepted : Bool) : DriveWorld :=
  if !event.isIndexable then
    { w with
      phase := .delivering { cycle with
        events := rest
        parked := cycle.parked ++ [parkedEntry event]
        deliveredIds := cycle.deliveredIds.filter (· ≠ event.documentId) }
      log := w.log ++ [.noted event.documentId] }
  else if accepted then
    { w with
      phase := .delivering { cycle with
        events := rest
        parked := cycle.parked.filter fun e => e.documentId ≠ event.documentId
        deliveredIds := event.documentId :: cycle.deliveredIds }
      log := w.log ++ [.delivered event.documentId] }
  else { w with phase := .idle }

/-- The next step of a running cycle.
SOURCE: gdrive.py:1746-1843 -/
def advance (w : DriveWorld) (accepted : Bool) : Option DriveWorld :=
  match w.phase with
  | .idle => none
  | .preDrain ledger (entry :: todo) remaining cycle =>
    some { w with
      phase := .preDrain ledger todo (postRetraction entry accepted remaining) cycle
      log := w.log ++ [.posted entry.documentId accepted] }
  | .preDrain ledger [] remaining cycle =>
    some { w with
      ledger := w.ledger.writeRemaining ledger remaining
      phase := .delivering cycle }
  | .delivering cycle =>
    match cycle.events with
    | event :: rest => some (w.deliverNext cycle event rest accepted)
    | [] => some { w with phase := .unparking cycle }
  | .unparking cycle =>
    some { w with
      ledger := w.ledger.unparkDelivered cycle.deliveredIds
      phase := .parking cycle }
  | .parking cycle =>
    let ledger := w.ledger.parkRetractions cycle.parked
    let todo := toDrain { w with ledger := ledger }
    some { w with ledger := ledger, phase := .postDrain todo todo [] cycle }
  | .postDrain ledger (entry :: todo) remaining cycle =>
    some { w with
      phase := .postDrain ledger todo (postRetraction entry accepted remaining) cycle
      log := w.log ++ [.posted entry.documentId accepted] }
  | .postDrain ledger [] remaining cycle =>
    some { w with
      ledger := w.ledger.writeRemaining ledger remaining
      phase := .saving cycle }
  | .saving cycle =>
    some { w with
      cursor := .saved cycle.nextCursor
      phase := .idle
      log := w.log ++ [.saved] }

/-- A stop inside the write the code is about to make, if it makes one. -/
def tear (w : DriveWorld) : Option DriveWorld :=
  let torn (before after : LedgerFile) : Option DriveWorld :=
    if before = after then none else some { w with ledger := .corrupt, phase := .idle }
  match w.phase with
  | .preDrain ledger [] remaining _ => torn w.ledger (w.ledger.writeRemaining ledger remaining)
  | .unparking cycle => torn w.ledger (w.ledger.unparkDelivered cycle.deliveredIds)
  | .parking cycle =>
    if cycle.parked.isEmpty then none
    else some { w with ledger := .corrupt, phase := .idle }
  | .postDrain ledger [] remaining _ => torn w.ledger (w.ledger.writeRemaining ledger remaining)
  | .saving _ => some { w with cursor := .corrupt, phase := .idle }
  | _ => none

/-- A cursor that does not parse keeps every later cycle from starting.
SOURCE: gdrive.py:1564-1571, 1778-1784 -/
def step (w : DriveWorld) : DriveEventStep → Option DriveWorld
  | .poll events nextCursor =>
    if w.phase = .idle ∧ w.cursor ≠ .corrupt then
      some { w with
        phase := .preDrain w.toDrain w.toDrain [] ⟨nextCursor, events, [], []⟩
        log := w.log ++ [.polled] }
    else none
  | .advance accepted => w.advance accepted
  | .stop => some { w with phase := .idle }
  | .tear => w.tear

end DriveWorld

end Verity.Model
