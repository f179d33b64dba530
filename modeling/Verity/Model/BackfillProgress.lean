import Verity.Model.ConnectorPlane

/-!
# The progress of a backfill

The row of a run is written from two sides: the connector posts its progress, and the reap
reconciles the state with the exit of the child. A post that would take a count past what the column
holds fails, and the row stays as it is.
-/

set_option autoImplicit false

namespace Verity.Model

def maxI64 : Int := 9223372036854775807

/-- A number that fits a `bigint`. -/
abbrev I64 : Type := {n : Int // -9223372036854775808 ≤ n ∧ n ≤ maxI64}

/-- A row of `backfill_run` with its counts. SOURCE: migrations/0021_backfill_runs.sql:24-48,
0032_backfill_skipped.sql -/
structure BackfillRunRow extends BackfillRun where
  total : Option I64
  processed : Int
  skipped : Int
  cursor : Option String
deriving DecidableEq

/-- The state is one of those that the handler accepts. SOURCE: backfill.rs:39-71 -/
structure BackfillProgressRequest where
  tenantId : TenantId
  source : String
  state : Option BackfillState
  total : Option I64
  processedDelta : I64
  skippedDelta : I64
  cursor : Option String
  error : Option String

/-- `COALESCE` with a column that is not null. -/
def coalesce {α : Type} (excluded : Option α) (stored : α) : α := excluded.getD stored

namespace BackfillProgressRequest

/-- The row that is proposed for insertion, which a conflict reads as `EXCLUDED`.
SOURCE: backfill.rs:81-84 -/
def proposed (req : BackfillProgressRequest) : BackfillRunRow where
  tenantId := req.tenantId
  source := req.source
  state := coalesce req.state .running
  total := req.total
  processed := max req.processedDelta 0
  skipped := max req.skippedDelta 0
  cursor := req.cursor
  error := req.error

/-- SOURCE: backfill.rs:76-105 -/
def recordProgress (req : BackfillProgressRequest) : Option BackfillRunRow → Option BackfillRunRow
  | none => some req.proposed
  | some row =>
    let excluded := req.proposed
    let processed := row.processed + excluded.processed
    let skipped := row.skipped + excluded.skipped
    if processed ≤ maxI64 ∧ skipped ≤ maxI64 then
      some
        { row with
          state := coalesce (some excluded.state) row.state
          total := excluded.total.or row.total
          processed := processed
          skipped := skipped
          cursor := excluded.cursor.or row.cursor
          error := excluded.error }
    else none

end BackfillProgressRequest

/-- SOURCE: connector_worker.rs:1115-1130 -/
def reconcileRow (key : WorkerKey) (exit : TerminalExit) : Option BackfillRunRow → BackfillRunRow
  | none =>
    { reconcileTerminal key exit none with
      total := none
      processed := 0
      skipped := 0
      cursor := none }
  | some row => { row with toBackfillRun := reconcileTerminal key exit (some row.toBackfillRun) }

/-- What is written to the row of a run. -/
inductive RunWrite where
  | post (req : BackfillProgressRequest)
  | reconcile (key : WorkerKey) (exit : TerminalExit)

/-- A post that fails leaves the row as it is. -/
def RunWrite.apply (row : Option BackfillRunRow) : RunWrite → Option BackfillRunRow
  | .post req => (req.recordProgress row).or row
  | .reconcile key exit => some (reconcileRow key exit row)

/-- The row after a history of writes. -/
def storedRow (writes : List RunWrite) : Option BackfillRunRow := writes.foldl RunWrite.apply none

/-- The state and the error that a post leaves are those of the plane's model of it. -/
theorem toBackfillRun_recordProgress {req : BackfillProgressRequest} {w : ConnectorWorker}
    (htenant : w.tenantId = req.tenantId) (hsource : w.source = req.source)
    {row : Option BackfillRunRow} {row' : BackfillRunRow} (h : req.recordProgress row = some row') :
    row'.toBackfillRun = recordProgress w req.state req.error (row.map (·.toBackfillRun)) := by
  cases row with
  | none =>
    obtain rfl := Option.some.inj h
    simp [recordProgress, BackfillProgressRequest.proposed, coalesce, htenant, hsource]
  | some row =>
    rw [BackfillProgressRequest.recordProgress] at h
    split at h
    · obtain rfl := Option.some.inj h
      rfl
    · cases h

theorem toBackfillRun_reconcileRow (key : WorkerKey) (exit : TerminalExit)
    (row : Option BackfillRunRow) : (reconcileRow key exit row).toBackfillRun =
      reconcileTerminal key exit (row.map (·.toBackfillRun)) := by
  cases row <;> rfl

/-! ## The logs of the backfills

The children of a source write to one log, whatever tenant they run for. A spawn opens the log at
its end, and the reap of a child that has ended cleanly reads the log whole.

The children print whole lines, so that a log ends with one whenever a child is spawned. A run is
taken in one step here: the children of a source run one after another.
-/

/-! ### Lines -/

/-- The line that has been read so far, without the carriage return before its end. -/
def lineOf (current : List Char) : String :=
  String.ofList (match current with
    | '\r' :: rest => rest.reverse
    | _ => current.reverse)

/-- The lines of a text behind what has been read of the first one, backwards. -/
def linesFrom : List Char → List Char → List String
  | [], [] => []
  | c :: current, [] => [String.ofList (c :: current).reverse]
  | current, '\n' :: rest => lineOf current :: linesFrom [] rest
  | current, c :: rest => linesFrom (c :: current) rest

/-- `str::lines`. -/
def textLines (text : List Char) : List String := linesFrom [] text

/-- A text of whole lines, each with its end. -/
structure LogText where
  text : List Char
  whole : text = [] ∨ text.getLast? = some '\n'
deriving DecidableEq

namespace LogText

def empty : LogText := ⟨[], Or.inl rfl⟩

def append (log more : LogText) : LogText where
  text := log.text ++ more.text
  whole := by
    rcases more.whole with hnil | hlast
    · rw [hnil, List.append_nil]
      exact log.whole
    · exact Or.inr (by rw [List.getLast?_append, hlast, Option.some_or])

def lines (log : LogText) : List String := textLines log.text

end LogText

/-! ### Runs -/

/-- SOURCE: connector_worker.rs:233-238 -/
def SpawnMode.logName (mode : SpawnMode) (source : String) : String :=
  match mode with
  | .backfill => source ++ ".log"
  | .pollOnce => source ++ "-poll.log"

/-- A backfill that ends cleanly: what it posts as it goes, what it prints, when it is reaped. -/
structure CleanRun where
  pid : Nat
  tenantId : TenantId
  source : String
  runId : Nat
  posts : List (Option BackfillState × Option String)
  output : LogText
  reapedAt : Time

def CleanRun.worker (r : CleanRun) : ConnectorWorker where
  pid := r.pid
  tenantId := r.tenantId
  source := r.source
  runId := r.runId
  mode := .backfill

def CleanRun.logName (r : CleanRun) : String := r.worker.mode.logName r.source

/-- The log files by their names, and the rows of the runs. -/
structure BackfillHost where
  logs : String → Option LogText
  runs : Nat → Option BackfillRun

namespace BackfillHost

/-- Created if it is missing, and written at its end. SOURCE: connector_worker.rs:1316-1341 -/
def openBackfillLog (h : BackfillHost) (logName : String) : BackfillHost :=
  { h with logs := Function.update h.logs logName (some ((h.logs logName).getD .empty)) }

/-- What the child prints. -/
def print (h : BackfillHost) (logName : String) (output : LogText) : BackfillHost :=
  { h with logs := Function.update h.logs logName ((h.logs logName).map (·.append output)) }

/-- What the child posts. -/
def posted (h : BackfillHost) (r : CleanRun) : BackfillHost :=
  r.posts.foldl (fun h post =>
    { h with
      runs := Function.update h.runs r.runId
        (some (recordProgress r.worker post.1 post.2 (h.runs r.runId))) }) h

/-- The exit as the reap finds it. SOURCE: connector_worker.rs:982-1006 -/
def exitOf (h : BackfillHost) (logName : String) : ChildExit where
  wait := .ok (some 0)
  log := (h.logs logName).map LogText.lines

/-- SOURCE: connector_worker.rs:960-1052 -/
def reap (h : BackfillHost) (r : CleanRun) : BackfillHost :=
  let terminal := (h.exitOf r.logName).terminal r.reapedAt
  { h with
    runs := Function.update h.runs r.runId
      (some (reconcileTerminal r.worker.key terminal (h.runs r.runId))) }

/-- A backfill from its spawn to its reap. SOURCE: connector_worker.rs:1245-1274 -/
def runBackfill (h : BackfillHost) (r : CleanRun) : BackfillHost :=
  ((((h.openBackfillLog r.logName).print r.logName r.output).posted r).reap r)

end BackfillHost

end Verity.Model
