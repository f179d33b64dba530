import Verity.Model.AclCorrection
import Verity.Model.ConnectorPlane

/-!
# The scheduler of continuous sync

A source that a tenant has polled again and again has a row in `sync_schedules`, which all server
processes share, and a loop in each process that has armed it. A toggle writes the row and then arms
or disarms the loop of the process that serves it, under the admission lock of that process. A
process that starts arms the loops of the rows that are enabled then, and serves requests after
that.

A request is dropped wherever it waits when its client goes away. What it has sent to the database
may then still be carried out, at any later time. When a loop fires, and what, is left out.
-/

set_option autoImplicit false

namespace Verity.Model

open Verity.Foundation

/-! ## Schedules -/

/-- SOURCE: types.rs:71-95, migrations/0033_sync_schedules.sql:31-59 -/
structure SyncSchedule where
  tenantId : TenantId
  source : String
  intervalSecs : Int
  enabled : Bool
deriving DecidableEq, Repr

def SyncSchedule.key (row : SyncSchedule) : WorkerKey := (row.tenantId, row.source)

/-- SOURCE: postgres.rs:3760-3764 -/
def syncIntervalFloorSecs : Int := 60

/-- SOURCE: connectors_admin.rs:1582-1588 -/
def syncDefaultIntervalSecs : Int := 300

/-- SOURCE: postgres.rs:750-768 -/
def getSyncSchedule (rows : List SyncSchedule) (key : WorkerKey) : Option SyncSchedule :=
  rows.find? fun row => row.key = key

/-- The new table, and the row that was written. SOURCE: postgres.rs:704-748 -/
def upsertSyncSchedule (rows : List SyncSchedule) (key : WorkerKey) (intervalSecs : Int)
    (enabled : Bool) : Except StorageError (List SyncSchedule × SyncSchedule) :=
  if intervalSecs < syncIntervalFloorSecs then
    .error (.invalidInput ("continuous-sync interval " ++ toString intervalSecs ++
      "s is below the " ++ toString syncIntervalFloorSecs ++ "s floor — refusing to arm a " ++
      "schedule that would hammer the source API"))
  else
    let row : SyncSchedule := ⟨key.1, key.2, intervalSecs, enabled⟩
    if (getSyncSchedule rows key).isSome then
      .ok (updateWhere (fun r => r.key = key) (fun _ => row) rows, row)
    else .ok (rows ++ [row], row)

/-- SOURCE: postgres.rs:770-786 -/
def listEnabledSyncSchedules (rows : List SyncSchedule) : List SyncSchedule :=
  (rows.filter fun row => row.enabled).mergeSort fun a b =>
    a.tenantId < b.tenantId || (a.tenantId = b.tenantId && a.source ≤ b.source)

/-! ## Toggles -/

/-- SOURCE: connectors_admin.rs:53-104 -/
def connectorSources : List String :=
  ["folder", "gdrive", "gmail", "gdirectory", "hubspot", "salesforce", "notion", "intercom",
    "slack", "zoom"]

/-- SOURCE: connector_worker.rs:541-555 -/
def pollCursorBasename (source : String) : Option String :=
  if source = "hubspot" then some "hubspot_cursor"
  else if source = "notion" then some "notion_cursor"
  else if source = "intercom" then some "intercom_cursor"
  else if source = "gdrive" then some "gdrive_cursor.json"
  else if source = "gmail" then some "gmail_cursor.json"
  else none

/-- SOURCE: connector_worker.rs:190-200, connectors_admin.rs:1590-1597 -/
def syncEligible (source : String) : Bool := (pollCursorBasename source).isSome

/-- SOURCE: connectors_admin.rs:1599-1607 -/
structure SyncToggleBody where
  tenantId : TenantId
  enabled : Bool
  intervalSecs : Option Int
deriving DecidableEq, Repr

/-- What a toggle that was let through persists. -/
structure SyncToggle where
  key : WorkerKey
  intervalSecs : Int
  enabled : Bool
deriving DecidableEq, Repr

/-- Why a source has no schedule of its own. SOURCE: connectors_admin.rs:1637-1673 -/
def scheduleRefusal (source : String) : Option HandlerError :=
  if source ∉ connectorSources then
    some ⟨404, "unknown source '" ++ source ++ "' — expected one of folder, gdrive, gmail, " ++
      "gdirectory, hubspot, salesforce"⟩
  else if source = "gdirectory" then
    some ⟨422, "use directory sync for gdirectory — its continuous sync is the directory plane, " ++
      "not a connector poll schedule; toggle it via POST /v1/admin/planes/directory/start and " ++
      "/stop (the directory worker reconciles the full directory on every pass)"⟩
  else if !syncEligible source then
    some ⟨422,
      if source = "folder" then
        "continuous sync is not applicable to folder — local folder watches ingest " ++
          "synchronously when added and catch up on server boot"
      else if source = "salesforce" then
        "continuous sync is not wired for salesforce yet — the connector is fixtures-only until " ++
          "a test org lands"
      else "continuous sync is not wired for " ++ source⟩
  else none

/-- The checks of a toggle, the stored interval that a disabling one keeps, and the one that an
enabling one asks for. Whether the tenant is known and its credential can be resolved comes from
outside. SOURCE: connectors_admin.rs:1626-1729 -/
def syncSource (rows : List SyncSchedule) (source : String) (body : SyncToggleBody)
    (tenantKnown : Bool) (identity : Except HandlerError Unit) : Except HandlerError SyncToggle :=
  match scheduleRefusal source with
  | some refusal => .error refusal
  | none =>
    let key := (body.tenantId, source)
    if !tenantKnown then .error (storageStatus (.unknownTenant body.tenantId))
    else if !body.enabled then
      let stored := (getSyncSchedule rows key).map fun row => row.intervalSecs
      .ok ⟨key, stored.getD syncDefaultIntervalSecs, false⟩
    else
      let interval := body.intervalSecs.getD syncDefaultIntervalSecs
      if interval < syncIntervalFloorSecs then
        .error ⟨422, "continuous-sync interval " ++ toString interval ++ "s is below the " ++
          toString syncIntervalFloorSecs ++ "s floor — continuous sync must never hammer a " ++
          "source API / trip rate limits; use >= " ++ toString syncIntervalFloorSecs ++
          "s (default " ++ toString syncDefaultIntervalSecs ++ "s)"⟩
      else identity.map fun _ => ⟨key, interval, true⟩

/-! ## The planes -/

abbrev ServerId := Nat

/-- SOURCE: sync_scheduler.rs:53-60 -/
structure ArmedSchedule where
  task : Nat
  intervalSecs : Int
deriving DecidableEq, Repr

/-- How far the toggle is that holds the admission lock. -/
inductive ToggleStage where
  | admitted
  | persisted
  | applied
deriving DecidableEq, Repr

/-- The plane of one server process, with the rows that its boot has yet to arm.
SOURCE: sync_scheduler.rs:68-81 -/
structure SyncPlane where
  loops : WorkerKey → Option ArmedSchedule
  admission : Option (SyncToggle × ToggleStage)
  rearming : List SyncSchedule

/-- The task of a loop. One that was cancelled ends the next time it looks.
SOURCE: sync_scheduler.rs:177-201 -/
structure SyncLoop where
  id : Nat
  server : ServerId
  key : WorkerKey
  intervalSecs : Int
  cancelled : Bool
deriving DecidableEq, Repr

/-- The schedules, the processes that are up, the loops that run in them and the statements that
requests left behind. -/
structure SyncService where
  schedules : List SyncSchedule
  planes : ServerId → Option SyncPlane
  tasks : List SyncLoop
  nextTask : Nat
  stray : List (ServerId × SyncToggle)

inductive SchedulerEvent where
  | boot (p : ServerId) (listed : Bool)
  | rearm (p : ServerId)
  | toggle (p : ServerId) (source : String) (body : SyncToggleBody) (tenantKnown : Bool)
      (identity : Except HandlerError Unit)
  | persist (p : ServerId) (t : SyncToggle)
  | apply (p : ServerId) (t : SyncToggle)
  | leave (p : ServerId) (sent : Bool)
  | land (p : ServerId) (t : SyncToggle)
  | exit (id : Nat)
  | stop (p : ServerId) (sent : Bool)

namespace SyncService

/-- No schedule is stored, and no process is up. -/
def start : SyncService where
  schedules := []
  planes := fun _ => none
  tasks := []
  nextTask := 0
  stray := []

def setPlane (s : SyncService) (p : ServerId) (plane : SyncPlane) : SyncService :=
  { s with planes := Function.update s.planes p (some plane) }

/-- The signal reaches the task through the handle of its loop. -/
def cancel (tasks : List SyncLoop) : Option ArmedSchedule → List SyncLoop
  | none => tasks
  | some armed =>
    updateWhere (fun t => t.id = armed.task) (fun t => { t with cancelled := true }) tasks

/-- SOURCE: sync_scheduler.rs:128-161 -/
def arm (s : SyncService) (p : ServerId) (plane : SyncPlane) (key : WorkerKey)
    (intervalSecs : Int) : SyncService :=
  { s.setPlane p { plane with
      loops := Function.update plane.loops key (some ⟨s.nextTask, intervalSecs⟩) } with
    tasks := cancel s.tasks (plane.loops key) ++ [⟨s.nextTask, p, key, intervalSecs, false⟩]
    nextTask := s.nextTask + 1 }

/-- SOURCE: sync_scheduler.rs:163-175 -/
def disarm (s : SyncService) (p : ServerId) (plane : SyncPlane) (key : WorkerKey) : SyncService :=
  { s.setPlane p { plane with loops := Function.update plane.loops key none } with
    tasks := cancel s.tasks (plane.loops key) }

/-- A process starts and reads the rows to arm, or fails to. SOURCE: sync_scheduler.rs:322-331 -/
def boot (s : SyncService) (p : ServerId) (listed : Bool) : Option SyncService :=
  match s.planes p with
  | some _ => none
  | none => some (s.setPlane p
      ⟨fun _ => none, none, if listed then listEnabledSyncSchedules s.schedules else []⟩)

/-- SOURCE: sync_scheduler.rs:332-343 -/
def rearm (s : SyncService) (p : ServerId) : Option SyncService := do
  let plane ← s.planes p
  match plane.rearming with
  | [] => none
  | row :: rest => some (s.arm p { plane with rearming := rest } row.key row.intervalSecs)

/-- A toggle gets the lock and passes its checks, or is refused.
SOURCE: connectors_admin.rs:1675-1718 -/
def toggle (s : SyncService) (p : ServerId) (source : String) (body : SyncToggleBody)
    (tenantKnown : Bool) (identity : Except HandlerError Unit) : Option SyncService := do
  let plane ← s.planes p
  if plane.rearming ≠ [] then none
  else match syncSource s.schedules source body tenantKnown identity with
    | .error _ => some s
    | .ok t =>
      if plane.admission = none then
        some (s.setPlane p { plane with admission := some (t, .admitted) })
      else none

/-- SOURCE: connectors_admin.rs:1701-1705, 1737-1742 -/
def persist (s : SyncService) (p : ServerId) (t : SyncToggle) : Option SyncService := do
  let plane ← s.planes p
  if plane.admission = some (t, .admitted) then
    match upsertSyncSchedule s.schedules t.key t.intervalSecs t.enabled with
    | .error _ => some (s.setPlane p { plane with admission := none })
    | .ok (rows, _) =>
      some { s.setPlane p { plane with admission := some (t, .persisted) } with
        schedules := rows }
  else none

/-- SOURCE: connectors_admin.rs:1706, 1744-1755 -/
def apply (s : SyncService) (p : ServerId) (t : SyncToggle) : Option SyncService := do
  let plane ← s.planes p
  if plane.admission = some (t, .persisted) then
    let plane := { plane with admission := some (t, .applied) }
    if t.enabled then some (s.arm p plane t.key t.intervalSecs) else some (s.disarm p plane t.key)
  else none

/-- What a toggle leaves behind that ends after it has sent its statement and before that is
answered. -/
def leftBy (p : ServerId) (admission : Option (SyncToggle × ToggleStage)) (sent : Bool) :
    List (ServerId × SyncToggle) :=
  match admission, sent with
  | some (t, .admitted), true => [(p, t)]
  | _, _ => []

/-- The toggle that holds the lock is answered, fails or is dropped. -/
def leave (s : SyncService) (p : ServerId) (sent : Bool) : Option SyncService := do
  let plane ← s.planes p
  if plane.admission = none then none
  else some { s.setPlane p { plane with admission := none } with
    stray := leftBy p plane.admission sent ++ s.stray }

/-- A statement that was left behind is carried out. -/
def land (s : SyncService) (p : ServerId) (t : SyncToggle) : Option SyncService :=
  if (p, t) ∈ s.stray then
    match upsertSyncSchedule s.schedules t.key t.intervalSecs t.enabled with
    | .error _ => some { s with stray := s.stray.erase (p, t) }
    | .ok (rows, _) => some { s with schedules := rows, stray := s.stray.erase (p, t) }
  else none

/-- A task that was cancelled ends. SOURCE: sync_scheduler.rs:193-195 -/
def exit (s : SyncService) (id : Nat) : Option SyncService :=
  if s.tasks.any fun t => t.id = id && t.cancelled then
    some { s with tasks := deleteWhere (fun t => t.id = id) s.tasks }
  else none

/-- A process ends, and its tasks with it. -/
def stop (s : SyncService) (p : ServerId) (sent : Bool) : Option SyncService := do
  let plane ← s.planes p
  some { s with
    planes := Function.update s.planes p none
    tasks := deleteWhere (fun t => t.server = p) s.tasks
    stray := leftBy p plane.admission sent ++ s.stray }

def step (s : SyncService) : SchedulerEvent → Option SyncService
  | .boot p listed => s.boot p listed
  | .rearm p => s.rearm p
  | .toggle p source body tenantKnown identity => s.toggle p source body tenantKnown identity
  | .persist p t => s.persist p t
  | .apply p t => s.apply p t
  | .leave p sent => s.leave p sent
  | .land p t => s.land p t
  | .exit id => s.exit id
  | .stop p sent => s.stop p sent

end SyncService

end Verity.Model
