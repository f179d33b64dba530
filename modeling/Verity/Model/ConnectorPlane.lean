import Mathlib.Data.List.Perm.Basic
import Mathlib.Logic.Function.Basic
import Verity.Model.Text
import Verity.Model.Types

/-!
# The plane of the connector children

A backfill or a poll of a source is a child process of the server. Each (tenant, source) has a slot
for its worker, guarded by a lock of its own. A start holds the admission lock while it looks for a
live child, in its own slot and then in those of the other tenants, spawns and fills the slot; a
task polls the slot of each child that was started until the child has ended, and records how.

An event is what happens under one hold of a lock, or between two. When a child ends, what it posts
and which pids are given out come from outside; the run ids and the pids are new ones. The identity
of a child, its credential file and the times it was started at are left out.
-/

set_option autoImplicit false

namespace Verity.Model

abbrev WorkerKey := TenantId × String

/-- SOURCE: connector_worker.rs:211-219 -/
inductive SpawnMode where
  | backfill
  | pollOnce
deriving DecidableEq, Repr

/-- SOURCE: connector_worker.rs:83-108 -/
structure ConnectorWorker where
  pid : Nat
  tenantId : TenantId
  source : String
  runId : Nat
  mode : SpawnMode
deriving DecidableEq, Repr

def ConnectorWorker.key (w : ConnectorWorker) : WorkerKey := (w.tenantId, w.source)

/-- What waiting for a child that has ended yields, its exit code or an error, and the lines of its
log where that can be read. -/
structure ChildExit where
  wait : Except String (Option Int)
  log : Option (List String)

/-- A child process; it is live as long as it has no exit. -/
structure Child where
  worker : ConnectorWorker
  exit : Option ChildExit

/-- SOURCE: connector_worker.rs:695-711 -/
structure TerminalExit where
  code : Option Int
  success : Bool
  finishedAt : Time
  tail : String
  degradedAcl : Bool
deriving DecidableEq, Repr

/-- SOURCE: connector_worker.rs:78 -/
def degradedAclSignal : String := "verity.backfill.degraded_acl"

/-- SOURCE: connector_worker.rs:1060-1064 -/
def logSignalsDegradedAcl (log : Option (List String)) : Bool :=
  (log.getD []).any fun line => trim line = degradedAclSignal

/-- SOURCE: connector_worker.rs:679-686 -/
def tailLog (log : Option (List String)) (n : Nat) : String :=
  let lines := log.getD []
  "\n".intercalate (lines.drop (lines.length - n))

/-- SOURCE: connector_worker.rs:981-1028 -/
def ChildExit.terminal (exit : ChildExit) (now : Time) : TerminalExit :=
  match exit.wait with
  | .ok code =>
    let success := decide (code = some 0)
    { code := code
      success := success
      finishedAt := now
      tail := if success then "" else tailLog exit.log 20
      degradedAcl := success && logSignalsDegradedAcl exit.log }
  | .error e =>
    { code := none
      success := false
      finishedAt := now
      tail := "wait() failed while reaping the backfill child: " ++ e
      degradedAcl := false }

/-! ## Runs -/

/-- SOURCE: backfill.rs:37, migrations/0031_backfill_degraded_acl_state.sql -/
inductive BackfillState where
  | running
  | paused
  | completed
  | failed
  | degradedAcl
deriving DecidableEq, Repr

/-- SOURCE: migrations/0021_backfill_runs.sql:18-48 -/
structure BackfillRun where
  tenantId : TenantId
  source : String
  state : BackfillState
  error : Option String
deriving DecidableEq, Repr

/-- A progress post of a child. The row that is proposed always has a state, so that a post without
one puts an existing row back to running. SOURCE: backfill.rs:76-104 -/
def recordProgress (w : ConnectorWorker) (state : Option BackfillState) (error : Option String)
    (row : Option BackfillRun) : BackfillRun :=
  match row with
  | none => ⟨w.tenantId, w.source, state.getD .running, error⟩
  | some row => { row with state := state.getD .running, error := error }

/-- SOURCE: connector_worker.rs:1086-1092 -/
def TerminalExit.state (exit : TerminalExit) : BackfillState :=
  if !exit.success then .failed else if exit.degradedAcl then .degradedAcl else .completed

/-- SOURCE: connector_worker.rs:1093-1114 -/
def TerminalExit.error (exit : TerminalExit) : Option String :=
  if !exit.success then
    let code :=
      match exit.code with
      | some c => "exit code " ++ toString c
      | none => "killed by signal (no exit code)"
    if exit.tail = "" then some ("backfill child exited non-zero (" ++ code ++ ")")
    else some ("backfill child exited non-zero (" ++ code ++ ")\n" ++ exit.tail)
  else if exit.degradedAcl then
    some ("owner/team ACLs unavailable (HubSpot owners-read scope missing) — every record " ++
      "ingested under the admin-assigned visibility policy")
  else none

/-- SOURCE: connector_worker.rs:1079-1134 -/
def reconcileTerminal (key : WorkerKey) (exit : TerminalExit) (row : Option BackfillRun) :
    BackfillRun :=
  match row with
  | none => ⟨key.1, key.2, exit.state, exit.error⟩
  | some row => { row with state := exit.state, error := exit.error }

/-! ## The plane -/

/-- What a start that does not succeed answers. SOURCE: connector_worker.rs:126-153 -/
inductive SpawnError where
  | alreadyRunning (pid : Nat)
  | sourceBusy (tenant : TenantId) (pid : Nat)
  | refused (msg : String)
deriving DecidableEq, Repr

/-- How far the start is that holds the admission lock: its own slot is to be checked, then the
slots of the other tenants are to be listed, those that are left of them to be checked, or the
worker to be put into the slot. -/
inductive StartPoint where
  | own
  | others
  | elsewhere (candidates : List WorkerKey)
  | inserting (worker : ConnectorWorker)
deriving DecidableEq, Repr

structure Starting where
  key : WorkerKey
  mode : SpawnMode
  runId : Nat
  point : StartPoint
deriving DecidableEq, Repr

/-- How far the task is that reaps a child. -/
inductive ReapPhase where
  | polling
  | exited (worker : ConnectorWorker) (terminal : TerminalExit)
  | reconciled (worker : ConnectorWorker) (terminal : TerminalExit)
  | ended
deriving DecidableEq, Repr

structure Reap where
  key : WorkerKey
  pid : Nat
  phase : ReapPhase
deriving DecidableEq, Repr

/-- The children that were ever spawned, the keys of the map and the slots, the start that holds the
admission lock, the tasks that reap, the rows of `backfill_run` by their run ids, the exits put into
`last_exit` and the answers of the starts, the last first. -/
structure ConnectorPlane where
  children : List Child
  keys : List WorkerKey
  slot : WorkerKey → Option ConnectorWorker
  starting : Option Starting
  reaps : List Reap
  runs : Nat → Option BackfillRun
  lastExits : List (WorkerKey × TerminalExit)
  answers : List (Except SpawnError Nat)

inductive PlaneStep where
  | exit (pid : Nat) (exit : ChildExit)
  | post (pid : Nat) (state : Option BackfillState) (error : Option String)
  | enter (key : WorkerKey)
  | status (key : WorkerKey)
  | acquire (key : WorkerKey) (mode : SpawnMode) (runId : Nat)
  | checkOwn
  | snapshot (candidates : List WorkerKey)
  | checkElsewhere
  | spawn (spawned : Except String Nat)
  | insert
  | stop (key : WorkerKey)
  | poll (reap : Nat) (now : Time)
  | reconcile (reap : Nat)
  | record (reap : Nat)

namespace ConnectorPlane

def empty : ConnectorPlane where
  children := []
  keys := []
  slot := fun _ => none
  starting := none
  reaps := []
  runs := fun _ => none
  lastExits := []
  answers := []

variable (s : ConnectorPlane)

/-- `try_wait`: the exit of a child that has ended. -/
def exitOf (pid : Nat) : Option ChildExit :=
  (s.children.find? fun c => c.worker.pid = pid).bind (·.exit)

/-- The child ends, if it has not. -/
def endChild (pid : Nat) (exit : ChildExit) : ConnectorPlane :=
  { s with
    children := s.children.map fun c =>
      if c.worker.pid = pid then { c with exit := some (c.exit.getD exit) } else c }

def setSlot (key : WorkerKey) (w : Option ConnectorWorker) : ConnectorPlane :=
  { s with slot := Function.update s.slot key w }

/-- SOURCE: connector_worker.rs:770-777 -/
def entry (key : WorkerKey) : ConnectorPlane :=
  if s.keys.contains key then s else { s with keys := s.keys ++ [key] }

/-- Under the lock of a slot: its worker when that is live; one that has ended is cleared.
SOURCE: connector_worker.rs:786-801, 818-824, 867-874 -/
def probe (key : WorkerKey) : ConnectorPlane × Option ConnectorWorker :=
  match s.slot key with
  | none => (s, none)
  | some w => if (s.exitOf w.pid).isSome then (s.setSlot key none, none) else (s, some w)

/-- SOURCE: connector_worker.rs:783-802 -/
def ownedLive (key : WorkerKey) : ConnectorPlane × Option ConnectorWorker :=
  (s.entry key).probe key

/-- SOURCE: connector_worker.rs:934-951 -/
def status (key : WorkerKey) : ConnectorPlane × Option ConnectorWorker × Option TerminalExit :=
  let (s, live) := s.ownedLive key
  (s, live, s.lastExits.lookup key)

/-- The start answers, and gives the admission lock back. -/
def answer (a : Except SpawnError Nat) : ConnectorPlane :=
  { s with starting := none, answers := a :: s.answers }

/-- A child was spawned for the run. -/
def usesRun (runId : Nat) : Bool :=
  s.children.any fun c => c.worker.runId = runId

/-- SOURCE: connector_worker.rs:847-908, and connectors_admin.rs:1381 and sync_scheduler.rs:235 for
the run id -/
def startStep (start : Starting) : PlaneStep → Option ConnectorPlane
  | .checkOwn =>
    match start.point with
    | .own =>
      let (s, live) := s.probe start.key
      match live with
      | some w => some (s.answer (.error (.alreadyRunning w.pid)))
      | none => some { s with starting := some { start with point := .others } }
    | _ => none
  -- a snapshot of the map, in any order: SOURCE: connector_worker.rs:810-817
  | .snapshot candidates =>
    match start.point with
    | .others =>
      let others (key : WorkerKey) : Bool :=
        decide (key.2 = start.key.2 ∧ key.1 ≠ start.key.1)
      if candidates.Perm (s.keys.filter others) then
        some { s with starting := some { start with point := .elsewhere candidates } }
      else none
    | _ => none
  | .checkElsewhere =>
    match start.point with
    | .elsewhere (key :: rest) =>
      let (s, live) := s.probe key
      match live with
      | some w => some (s.answer (.error (.sourceBusy key.1 w.pid)))
      | none => some { s with starting := some { start with point := .elsewhere rest } }
    | _ => none
  | .spawn spawned =>
    match start.point with
    | .elsewhere [] =>
      match spawned with
      | .error msg => some (s.answer (.error (.refused msg)))
      | .ok pid =>
        if s.children.any fun c => c.worker.pid = pid then none
        else
          let w : ConnectorWorker :=
            ⟨pid, start.key.1, start.key.2, start.runId, start.mode⟩
          some { s with
            children := s.children ++ [⟨w, none⟩]
            starting := some { start with point := .inserting w } }
    | _ => none
  -- the worker is in its slot, and its reap task started
  | .insert =>
    match start.point with
    | .inserting w =>
      let started : ConnectorPlane :=
        { s.setSlot start.key (some w) with
          reaps := s.reaps ++ [⟨start.key, w.pid, .polling⟩] }
      some (started.answer (.ok w.pid))
    | _ => none
  | _ => none

def setReap (i : Nat) (r : Reap) (phase : ReapPhase) : ConnectorPlane :=
  { s with reaps := s.reaps.set i { r with phase := phase } }

/-- SOURCE: connector_worker.rs:953-1053 -/
def reapStep (i : Nat) (r : Reap) : PlaneStep → Option ConnectorPlane
  | .poll _ now =>
    match r.phase with
    | .polling =>
      match s.slot r.key with
      | none => some (s.setReap i r .ended)
      | some w =>
        if w.pid ≠ r.pid then some (s.setReap i r .ended)
        else
          match s.exitOf w.pid with
          | none => some s
          | some exit =>
            some ((s.setSlot r.key none).setReap i r (.exited w (exit.terminal now)))
    | _ => none
  | .reconcile _ =>
    match r.phase with
    | .exited w terminal =>
      let s :=
        if w.mode = .backfill then
          { s with
            runs := Function.update s.runs w.runId
              (some (reconcileTerminal r.key terminal (s.runs w.runId))) }
        else s
      some (s.setReap i r (.reconciled w terminal))
    | _ => none
  | .record _ =>
    match r.phase with
    | .reconciled _ terminal =>
      let recorded : ConnectorPlane := { s with lastExits := (r.key, terminal) :: s.lastExits }
      some (recorded.setReap i r .ended)
    | _ => none
  | _ => none

/-- One event of the plane. -/
def step (e : PlaneStep) : Option ConnectorPlane :=
  match e with
  | .exit pid exit =>
    if (s.children.find? fun c => c.worker.pid = pid).any fun c => c.exit.isNone then
      some (s.endChild pid exit)
    else none
  -- only a backfill is given the run id: SOURCE: connector_worker.rs:1275-1282
  | .post pid state error =>
    match s.children.find? fun c => c.worker.pid = pid with
    | some ⟨w, none⟩ =>
      if w.mode = .backfill then
        some { s with
          runs := Function.update s.runs w.runId
            (some (recordProgress w state error (s.runs w.runId))) }
      else none
    | _ => none
  -- a status or a stop that has yet to take the lock of the slot
  | .enter key => some (s.entry key)
  | .status key => some (s.status key).1
  | .acquire key mode runId =>
    match s.starting with
    | none =>
      if s.usesRun runId then none
      else some { s.entry key with starting := some ⟨key, mode, runId, .own⟩ }
    | some _ => none
  -- SOURCE: connector_worker.rs:913-930
  | .stop key =>
    let s := s.entry key
    match s.slot key with
    | some w => some ((s.endChild w.pid ⟨.ok none, none⟩).setSlot key none)
    | none => some s
  | .poll i _ | .reconcile i | .record i => (s.reaps[i]?).bind fun r => s.reapStep i r e
  | .checkOwn | .snapshot _ | .checkElsewhere | .spawn _ | .insert =>
    s.starting.bind fun start => s.startStep start e

end ConnectorPlane

end Verity.Model
