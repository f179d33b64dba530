import Mathlib.Logic.Function.Basic
import Verity.Model.Membership
import Verity.Model.ReadPath

/-!
# The watch loop

`rebac_watch::run` on any number of replicas. They share a database (the cursor row, the
advisory lock, the leader row, the tombstones) and the permission service, whose updates are
a log; a stream or a cursor is a position in it. A step is one await of one replica's loop,
or something outside: an update is committed, time passes, a lock connection dies.

The stream is taken to be what the service promises: opened at a cursor it delivers every
update after it, in order, cut off at any point; opened without one it starts at the end of
the log, at the moment of the request.

A line of the stream is a batch of relationship updates with the token to resume from, or an
error; `parseWatchLine` keeps the deletions of `group#member` tuples and drops everything else.
Object ids are split by `parse_any_object_id`, and errors are shown as JSON text; both are
parameters there.
-/

set_option autoImplicit false

namespace Verity.Model

/-! ## Watch lines -/

/-- `Index` by key: null where there is no such entry. -/
def Json.index (v : Json) (key : String) : Json := (v.get key).getD .null

/-- SOURCE: rebac_watch.rs:306-316 -/
inductive WatchLine where
  | updates (deletes : List MembershipDelete) (token : Option String)
  | error (msg : String)
deriving DecidableEq, Repr

section Parse

variable (parseAnyObjectId : String → Option (TenantId × String)) (display : Json → String)

/-- The member of a deleted tuple. A member of another tenant counts as one that does not
parse.
SOURCE: rebac_watch.rs:350-361 -/
def deletedMember (tenant : TenantId) (rel : Json) : Option (PrincipalKind × String) := do
  let object := (rel.index "subject").index "object"
  let objectType ← (object.index "objectType").asStr
  let kind ← if objectType = "user" then some .user
    else if objectType = "group" then some .group
    else none
  let objectId ← (object.index "objectId").asStr
  let (memberTenant, name) ← parseAnyObjectId objectId
  if memberTenant = tenant then some (kind, name) else none

/-- The deletion of a `group#member` tuple, if the update is one and its group's id parses.
SOURCE: rebac_watch.rs:333-366 -/
def membershipDelete (update : Json) : Option MembershipDelete :=
  let rel := update.index "relationship"
  if (update.index "operation").asStr ≠ some "OPERATION_DELETE" then none
  else if ((rel.index "resource").index "objectType").asStr ≠ some "group" ∨
      (rel.index "relation").asStr ≠ some "member" then none
  else do
    let objectId ← ((rel.index "resource").index "objectId").asStr
    let (tenant, group) ← parseAnyObjectId objectId
    some ⟨tenant, group, deletedMember parseAnyObjectId tenant rel⟩

/-- SOURCE: rebac_watch.rs:322-370 -/
def parseWatchLine (line : Except String Json) : Except String WatchLine :=
  match line with
  | .error e => .error ("bad watch line: " ++ e)
  | .ok v =>
    match v.get "error" with
    | some err => .ok (.error (display err))
    | none =>
      match v.get "result" with
      | none => .error ("no result in watch line: " ++ display v)
      | some r =>
        let token := ((r.index "changesThrough").index "token").asStr
        let updates := ((r.index "updates").asArray).getD []
        .ok (.updates (updates.filterMap (membershipDelete parseAnyObjectId)) token)

end Parse

/-- `str::to_ascii_lowercase` and `str::contains`, over the error text.
SOURCE: rebac_watch.rs:375-378 -/
def cursorRejected (msg : String) : Bool :=
  let m := msg.toList.map Char.toLower
  decide ("failed_precondition".toList <:+: m) || decide ("garbage collected".toList <:+: m)

/-- Why a stream ended. The texts, which only reach the status page, are left out.
SOURCE: rebac_watch.rs:462-470 -/
inductive StreamEnd where
  | closed
  | failed
  | gap
deriving DecidableEq, Repr

/-- An error line ends the stream.
SOURCE: rebac_watch.rs:504-510 -/
def errorLineEnd (msg : String) : StreamEnd :=
  if cursorRejected msg then .gap else .failed

/-! ## Replicas -/

/-- The number of updates before a point of the log; a `ZedToken` stands for one. -/
abbrev Position := Nat

/-- A line of updates being handled: the deletions still to be applied, with their positions,
where the stream stands after it, and whether it carries a token. -/
structure Frame where
  todo : List (Position × MembershipDelete)
  stop : Position
  token : Bool
deriving DecidableEq, Repr

/-- Where a replica's loop is. A connection is anchored at `start` when it is requested;
`verified` is the instant of the last probe, if it succeeded.
SOURCE: rebac_watch.rs:598-750 -/
inductive Phase where
  | idle
  | acquired
  | beaten
  | loaded (cursor : Option Position)
  | connecting (cursor : Option Position) (start : Position) (verified : Option Time)
  | streaming (pos : Position) (frame : Option Frame)
deriving DecidableEq, Repr

structure Replica where
  startedAt : Time
  status : WatchStatus
  phase : Phase
deriving DecidableEq, Repr

/-- The `watch_leader` row. `vouched` is not stored, and no step reads it: it says that the
holder has had a stream, or a successful probe, since the row was written.
SOURCE: migrations/0037_watch_leader.sql:17-22 -/
structure LeaderRow (ι : Type) where
  holder : Option ι
  heartbeatAt : Time
  vouched : Bool
deriving DecidableEq, Repr

/-- The replicas and what they share. `since` (the end of the log at the first successful
connect) and `applied` (the deletions `apply_delete` was done with) are only recorded. -/
structure WatchLoop (ι : Type) where
  now : Time
  log : List Json
  tables : RevocationTables
  cursor : Option Position
  lock : Option ι
  leaderRow : LeaderRow ι
  replicas : ι → Replica
  since : Option Position
  applied : List Position

inductive WatchEvent (ι : Type) where
  | commit (update : Json)
  | tick (now : Time)
  | writeTables (tables : RevocationTables)
  | loseLock (r : ι)
  | acquire (r : ι)
  | poll (r : ι)
  | heartbeat (r : ι) (written : Bool)
  | loadCursor (r : ι)
  | loadError (r : ι)
  | connect (r : ι)
  | probeOk (r : ι) (written : Bool)
  | probeError (r : ι)
  | connectOk (r : ι)
  | connectError (r : ι) (err : RebacError) (cleared : Bool)
  | beat (r : ι)
  | frame (r : ι) (stop : Position) (token : Bool)
  | apply (r : ι) (db : SpiceDb) (principals : PrincipalTable)
  | finish (r : ι)
  | closed (r : ι)
  | failed (r : ι)
  | errorLine (r : ι) (msg : String) (cleared : Bool)
  | panic (r : ι)

/-- Three heartbeats.
SOURCE: rebac_watch.rs:801 -/
def followerLeaderFreshSecs : Int := 15

/-- The follower's query of the leader row.
SOURCE: rebac_watch.rs:818-824 -/
def LeaderRow.isFresh {ι : Type} (row : LeaderRow ι) (now : Time) : Bool :=
  decide (now - seconds followerLeaderFreshSecs < row.heartbeatAt)

/-- SOURCE: rebac_watch.rs:817-832 -/
def followerFreshnessFromLeader {ι : Type} (row : LeaderRow ι) (now : Time) (secsSinceStart : Nat)
    (w : WatchStatus) : WatchStatus :=
  if row.isFresh now then (w.setConnected true).markAdvance secsSinceStart else w

/-- A refused cursor: any answer of the service but a stream, when there was a cursor.
SOURCE: rebac_watch.rs:726 -/
def connectGap (err : RebacError) (cursor : Option Position) : Bool :=
  match err with
  | .api _ _ => cursor.isSome
  | _ => false

/-- The membership deletions in a stretch of the log, with their positions. -/
def deletesBetween (parseAnyObjectId : String → Option (TenantId × String)) (log : List Json)
    (pos stop : Position) : List (Position × MembershipDelete) :=
  (List.range' pos (stop - pos)).filterMap fun i =>
    (log[i]?.bind (membershipDelete parseAnyObjectId)).map fun d => (i, d)

namespace WatchLoop

variable {ι : Type} [DecidableEq ι]

def phase (s : WatchLoop ι) (r : ι) : Phase := (s.replicas r).phase

/-- `secs_since_start` in one replica's process. -/
def secsSinceStart (s : WatchLoop ι) (r : ι) : Nat :=
  ((s.now - (s.replicas r).startedAt) / seconds 1).toNat

def setPhase (s : WatchLoop ι) (r : ι) (phase : Phase) : WatchLoop ι :=
  { s with replicas := Function.update s.replicas r { s.replicas r with phase } }

def setStatus (s : WatchLoop ι) (r : ι) (status : WatchStatus) : WatchLoop ι :=
  { s with replicas := Function.update s.replicas r { s.replicas r with status } }

def markAdvance (s : WatchLoop ι) (r : ι) : WatchLoop ι :=
  s.setStatus r ((s.replicas r).status.markAdvance (s.secsSinceStart r))

/-- `set_connected(true)` and `mark_advance`. -/
def markFresh (s : WatchLoop ι) (r : ι) : WatchLoop ι :=
  s.setStatus r (((s.replicas r).status.setConnected true).markAdvance (s.secsSinceStart r))

def setConnected (s : WatchLoop ι) (r : ι) (connected : Bool) : WatchLoop ι :=
  s.setStatus r ((s.replicas r).status.setConnected connected)

/-- The loop goes back to its top: the guard is released or dropped.
SOURCE: rebac_watch.rs:745, watch_leader.rs:128-134 -/
def relinquish (s : WatchLoop ι) (r : ι) : WatchLoop ι :=
  { s.setPhase r .idle with lock := if s.lock = some r then none else s.lock }

/-- SOURCE: watch_leader.rs:143-149 -/
def writeHeartbeat (s : WatchLoop ι) (r : ι) (vouched : Bool) : WatchLoop ι :=
  { s with leaderRow := ⟨some r, s.now, vouched⟩ }

theorem phase_setPhase (s : WatchLoop ι) (r r' : ι) (p : Phase) :
    (s.setPhase r p).phase r' = if r' = r then p else s.phase r' := by
  unfold phase setPhase
  by_cases h : r' = r
  · subst h
    simp
  · simp [h]

@[simp]
theorem phase_setPhase_self (s : WatchLoop ι) (r : ι) (p : Phase) :
    (s.setPhase r p).phase r = p := by
  simp [phase_setPhase]

@[simp]
theorem phase_setStatus (s : WatchLoop ι) (r r' : ι) (status : WatchStatus) :
    (s.setStatus r status).phase r' = s.phase r' := by
  unfold phase setStatus
  by_cases h : r' = r
  · subst h
    simp
  · simp [h]

@[simp]
theorem status_setPhase (s : WatchLoop ι) (r r' : ι) (p : Phase) :
    ((s.setPhase r p).replicas r').status = (s.replicas r').status := by
  unfold setPhase
  by_cases h : r' = r
  · subst h
    simp
  · simp [h]

theorem status_setStatus (s : WatchLoop ι) (r r' : ι) (status : WatchStatus) :
    ((s.setStatus r status).replicas r').status =
      if r' = r then status else (s.replicas r').status := by
  unfold setStatus
  by_cases h : r' = r
  · subst h
    simp
  · simp [h]

/-- `mark_gap`, and `clear_cursor` if it succeeds.
SOURCE: rebac_watch.rs:715-716, 727-728 -/
def markGap (s : WatchLoop ι) (r : ι) (cleared : Bool) : WatchLoop ι :=
  { s.setStatus r (s.replicas r).status.markGap with
    cursor := if cleared then none else s.cursor }

/-- SOURCE: rebac_watch.rs:703-723, 745 -/
def streamEnded (s : WatchLoop ι) (r : ι) (reason : StreamEnd) (cleared : Bool) : WatchLoop ι :=
  let s := s.setConnected r false
  match reason with
  | .closed | .failed => s.relinquish r
  | .gap => (s.markGap r cleared).relinquish r

/-- One await of one replica, or a step outside. A heartbeat goes over the connection that
holds the lock, so it is only written while the lock is held. What a replica does when its
lock connection is dead and it has not noticed is the same as what a leader does. -/
def step (parseAnyObjectId : String → Option (TenantId × String)) (s : WatchLoop ι) :
    WatchEvent ι → Option (WatchLoop ι)
  | .commit update => some { s with log := s.log ++ [update] }
  | .tick now => if s.now ≤ now then some { s with now } else none
  | .writeTables tables => some { s with tables }
  | .loseLock r => if s.lock = some r then some { s with lock := none } else none
  | .acquire r =>
    if s.phase r = .idle ∧ s.lock = none then
      some { s.setPhase r .acquired with lock := some r }
    else none
  | .poll r =>
    -- the lock is taken: idle, and the leader's heartbeat stands in for a stream
    if s.phase r = .idle ∧ s.lock.isSome then
      some (s.setStatus r (followerFreshnessFromLeader s.leaderRow s.now (s.secsSinceStart r)
        (s.replicas r).status))
    else none
  | .heartbeat r written =>
    -- at the top of the loop, before any connection; a failure is ignored
    if s.phase r = .acquired ∧ (written → s.lock = some r) then
      let s := if written then s.writeHeartbeat r false else s
      some (s.setPhase r .beaten)
    else none
  | .loadCursor r =>
    if s.phase r = .beaten then some (s.setPhase r (.loaded s.cursor)) else none
  | .loadError r => if s.phase r = .beaten then some (s.relinquish r) else none
  | .connect r =>
    match s.phase r with
    | .loaded cursor => some (s.setPhase r (.connecting cursor (cursor.getD s.log.length) none))
    | _ => none
  | .probeOk r written =>
    match s.phase r with
    | .connecting cursor start _ =>
      if written then
        if s.lock = some r then
          some (((s.markFresh r).writeHeartbeat r true).setPhase r
            (.connecting cursor start (some s.now)))
        else none
      else some ((s.markFresh r).relinquish r)
    | _ => none
  | .probeError r =>
    match s.phase r with
    | .connecting cursor start _ =>
      some ((s.setConnected r false).setPhase r (.connecting cursor start none))
    | _ => none
  | .connectOk r =>
    match s.phase r with
    | .connecting _ start _ =>
      let s := { (s.markFresh r).setPhase r (.streaming start none) with
        since := s.since.or (some s.log.length) }
      some { s with leaderRow := { s.leaderRow with
        vouched := s.leaderRow.vouched || decide (s.leaderRow.holder = some r) } }
    | _ => none
  | .connectError r err cleared =>
    match s.phase r with
    | .connecting cursor _ _ =>
      if connectGap err cursor then some ((s.markGap r cleared).relinquish r)
      else some (s.relinquish r)
    | _ => none
  | .beat r =>
    match s.phase r with
    | .streaming _ _ =>
      if s.lock = some r then
        some ((s.writeHeartbeat r true).markAdvance r)
      else none
    | _ => none
  | .frame r stop token =>
    match s.phase r with
    | .streaming pos none =>
      if pos ≤ stop ∧ stop ≤ s.log.length then
        some (s.setPhase r (.streaming pos
          (some ⟨deletesBetween parseAnyObjectId s.log pos stop, stop, token⟩)))
      else none
    | _ => none
  | .apply r db principals =>
    match s.phase r with
    | .streaming pos (some ⟨(i, d) :: todo, stop, token⟩) =>
      match applyDelete principals s.tables db d s.now with
      | .error _ => none
      | .ok (tables, _) =>
        some { s.setPhase r (.streaming pos (some ⟨todo, stop, token⟩)) with
          tables := tables
          applied := i :: s.applied }
    | _ => none
  | .finish r =>
    match s.phase r with
    | .streaming _ (some ⟨[], stop, token⟩) =>
      -- the cursor moves only when every deletion of the line is recorded
      if token then
        some { (s.markAdvance r).setPhase r (.streaming stop none) with cursor := some stop }
      else some (s.setPhase r (.streaming stop none))
    | _ => none
  | .closed r =>
    match s.phase r with
    | .streaming _ none => some (s.streamEnded r .closed false)
    | _ => none
  | .failed r =>
    -- a read error, a bad line, a failed apply or cursor write, a failed heartbeat
    match s.phase r with
    | .streaming _ _ => some (s.streamEnded r .failed false)
    | _ => none
  | .errorLine r msg cleared =>
    match s.phase r with
    | .streaming _ none => some (s.streamEnded r (errorLineEnd msg) cleared)
    | _ => none
  | .panic r =>
    -- the guard is dropped and the task respawned; the status keeps what it said
    if s.phase r = .idle then none else some (s.relinquish r)

/-- All replicas at the top of their loops. The leader row is as the migration or an earlier
leader left it. -/
def start (now : Time) (log : List Json) (tables : RevocationTables) (cursor : Option Position)
    (holder : Option ι) (heartbeatAt : Time) (startedAt : ι → Time) : WatchLoop ι where
  now := now
  log := log
  tables := tables
  cursor := cursor
  lock := none
  leaderRow := ⟨holder, heartbeatAt, false⟩
  replicas := fun r => ⟨startedAt r, { WatchStatus.new with enabled := true }, .idle⟩
  since := none
  applied := []

/-! ## The step, case by case -/

/-- What each event does when it is enabled. -/
inductive Step (parseAnyObjectId : String → Option (TenantId × String)) (s : WatchLoop ι) :
    WatchEvent ι → WatchLoop ι → Prop where
  | commit (update : Json) :
      Step parseAnyObjectId s (.commit update) { s with log := s.log ++ [update] }
  | tick (now : Time) (hle : s.now ≤ now) : Step parseAnyObjectId s (.tick now) { s with now }
  | writeTables (tables : RevocationTables) :
      Step parseAnyObjectId s (.writeTables tables) { s with tables }
  | loseLock (r : ι) : Step parseAnyObjectId s (.loseLock r) { s with lock := none }
  | acquire (r : ι) (hphase : s.phase r = .idle) :
      Step parseAnyObjectId s (.acquire r) { s.setPhase r .acquired with lock := some r }
  | poll (r : ι) :
      Step parseAnyObjectId s (.poll r) (s.setStatus r
        (followerFreshnessFromLeader s.leaderRow s.now (s.secsSinceStart r)
          (s.replicas r).status))
  | heartbeatWritten (r : ι) (hphase : s.phase r = .acquired) :
      Step parseAnyObjectId s (.heartbeat r true) ((s.writeHeartbeat r false).setPhase r .beaten)
  | heartbeatError (r : ι) (hphase : s.phase r = .acquired) :
      Step parseAnyObjectId s (.heartbeat r false) (s.setPhase r .beaten)
  | loadCursor (r : ι) (hphase : s.phase r = .beaten) :
      Step parseAnyObjectId s (.loadCursor r) (s.setPhase r (.loaded s.cursor))
  | loadError (r : ι) (hphase : s.phase r = .beaten) :
      Step parseAnyObjectId s (.loadError r) (s.relinquish r)
  | connect (r : ι) (cursor : Option Position) (hphase : s.phase r = .loaded cursor) :
      Step parseAnyObjectId s (.connect r)
        (s.setPhase r (.connecting cursor (cursor.getD s.log.length) none))
  | probeWritten (r : ι) (cursor : Option Position) (start : Position) (verified : Option Time)
      (hphase : s.phase r = .connecting cursor start verified) :
      Step parseAnyObjectId s (.probeOk r true)
        (((s.markFresh r).writeHeartbeat r true).setPhase r
          (.connecting cursor start (some s.now)))
  | probeUnwritten (r : ι) (cursor : Option Position) (start : Position) (verified : Option Time)
      (hphase : s.phase r = .connecting cursor start verified) :
      Step parseAnyObjectId s (.probeOk r false) ((s.markFresh r).relinquish r)
  | probeError (r : ι) (cursor : Option Position) (start : Position) (verified : Option Time)
      (hphase : s.phase r = .connecting cursor start verified) :
      Step parseAnyObjectId s (.probeError r)
        ((s.setConnected r false).setPhase r (.connecting cursor start none))
  | connectOk (r : ι) (cursor : Option Position) (start : Position) (verified : Option Time)
      (hphase : s.phase r = .connecting cursor start verified) :
      Step parseAnyObjectId s (.connectOk r)
        { (s.markFresh r).setPhase r (.streaming start none) with
          since := s.since.or (some s.log.length)
          leaderRow := { s.leaderRow with
            vouched := s.leaderRow.vouched || decide (s.leaderRow.holder = some r) } }
  | connectGap (r : ι) (err : RebacError) (cleared : Bool) :
      Step parseAnyObjectId s (.connectError r err cleared) ((s.markGap r cleared).relinquish r)
  | connectError (r : ι) (err : RebacError) (cleared : Bool) (cursor : Option Position)
      (start : Position) (verified : Option Time)
      (hphase : s.phase r = .connecting cursor start verified)
      (hgap : Model.connectGap err cursor = false) :
      Step parseAnyObjectId s (.connectError r err cleared) (s.relinquish r)
  | beat (r : ι) (pos : Position) (frame : Option Frame)
      (hphase : s.phase r = .streaming pos frame) :
      Step parseAnyObjectId s (.beat r) ((s.writeHeartbeat r true).markAdvance r)
  | frame (r : ι) (stop : Position) (token : Bool) (pos : Position)
      (hphase : s.phase r = .streaming pos none) (hstop : stop ≤ s.log.length) :
      Step parseAnyObjectId s (.frame r stop token) (s.setPhase r (.streaming pos
        (some ⟨deletesBetween parseAnyObjectId s.log pos stop, stop, token⟩)))
  | apply (r : ι) (db : SpiceDb) (principals : PrincipalTable) (pos i stop : Position)
      (d : MembershipDelete) (todo : List (Position × MembershipDelete)) (token : Bool)
      (tables : RevocationTables) (rows : Nat)
      (hphase : s.phase r = .streaming pos (some ⟨(i, d) :: todo, stop, token⟩))
      (happly : applyDelete principals s.tables db d s.now = .ok (tables, rows)) :
      Step parseAnyObjectId s (.apply r db principals)
        { s.setPhase r (.streaming pos (some ⟨todo, stop, token⟩)) with
          tables := tables
          applied := i :: s.applied }
  | finishStored (r : ι) (pos stop : Position)
      (hphase : s.phase r = .streaming pos (some ⟨[], stop, true⟩)) :
      Step parseAnyObjectId s (.finish r)
        { (s.markAdvance r).setPhase r (.streaming stop none) with cursor := some stop }
  | finish (r : ι) (pos stop : Position)
      (hphase : s.phase r = .streaming pos (some ⟨[], stop, false⟩)) :
      Step parseAnyObjectId s (.finish r) (s.setPhase r (.streaming stop none))
  | closed (r : ι) : Step parseAnyObjectId s (.closed r) (s.streamEnded r .closed false)
  | failed (r : ι) : Step parseAnyObjectId s (.failed r) (s.streamEnded r .failed false)
  | errorLine (r : ι) (msg : String) (cleared : Bool) :
      Step parseAnyObjectId s (.errorLine r msg cleared)
        (s.streamEnded r (errorLineEnd msg) cleared)
  | panic (r : ι) : Step parseAnyObjectId s (.panic r) (s.relinquish r)

/-- What a step of the loop can be. -/
theorem step_cases {parseAnyObjectId : String → Option (TenantId × String)} {s s' : WatchLoop ι}
    {e : WatchEvent ι} (hstep : s.step parseAnyObjectId e = some s') :
    Step parseAnyObjectId s e s' := by
  cases e with
  | commit update =>
    cases hstep
    exact .commit update
  | tick now =>
    simp only [step, Option.ite_none_right_eq_some, Option.some.injEq] at hstep
    obtain ⟨hle, rfl⟩ := hstep
    exact .tick now hle
  | writeTables tables =>
    cases hstep
    exact .writeTables tables
  | loseLock r =>
    simp only [step, Option.ite_none_right_eq_some, Option.some.injEq] at hstep
    obtain ⟨-, rfl⟩ := hstep
    exact .loseLock r
  | acquire r =>
    simp only [step, Option.ite_none_right_eq_some, Option.some.injEq] at hstep
    obtain ⟨⟨hphase, -⟩, rfl⟩ := hstep
    exact .acquire r hphase
  | poll r =>
    simp only [step, Option.ite_none_right_eq_some, Option.some.injEq] at hstep
    obtain ⟨-, rfl⟩ := hstep
    exact .poll r
  | heartbeat r written =>
    simp only [step, Option.ite_none_right_eq_some, Option.some.injEq] at hstep
    obtain ⟨⟨hphase, -⟩, rfl⟩ := hstep
    cases written with
    | false => exact .heartbeatError r hphase
    | true => exact .heartbeatWritten r hphase
  | loadCursor r =>
    simp only [step, Option.ite_none_right_eq_some, Option.some.injEq] at hstep
    obtain ⟨hphase, rfl⟩ := hstep
    exact .loadCursor r hphase
  | loadError r =>
    simp only [step, Option.ite_none_right_eq_some, Option.some.injEq] at hstep
    obtain ⟨hphase, rfl⟩ := hstep
    exact .loadError r hphase
  | connect r =>
    simp only [step] at hstep
    split at hstep
    · rename_i cursor hphase
      cases hstep
      exact .connect r cursor hphase
    · exact absurd hstep (by simp)
  | probeOk r written =>
    simp only [step] at hstep
    split at hstep
    · rename_i cursor start verified hphase
      cases written with
      | true =>
        simp only [if_true, Option.ite_none_right_eq_some, Option.some.injEq] at hstep
        obtain ⟨-, rfl⟩ := hstep
        exact .probeWritten r cursor start verified hphase
      | false =>
        simp only [Bool.false_eq_true, if_false, Option.some.injEq] at hstep
        subst hstep
        exact .probeUnwritten r cursor start verified hphase
    · exact absurd hstep (by simp)
  | probeError r =>
    simp only [step] at hstep
    split at hstep
    · rename_i cursor start verified hphase
      cases hstep
      exact .probeError r cursor start verified hphase
    · exact absurd hstep (by simp)
  | connectOk r =>
    simp only [step] at hstep
    split at hstep
    · rename_i cursor start verified hphase
      cases hstep
      exact .connectOk r cursor start verified hphase
    · exact absurd hstep (by simp)
  | connectError r err cleared =>
    simp only [step] at hstep
    split at hstep
    · rename_i cursor start verified hphase
      split at hstep
      · cases hstep
        exact .connectGap r err cleared
      · rename_i hgap
        cases hstep
        exact .connectError r err cleared cursor start verified hphase
          (Bool.eq_false_iff.mpr hgap)
    · exact absurd hstep (by simp)
  | beat r =>
    simp only [step] at hstep
    split at hstep
    · rename_i pos frame hphase
      simp only [Option.ite_none_right_eq_some, Option.some.injEq] at hstep
      obtain ⟨-, rfl⟩ := hstep
      exact .beat r pos frame hphase
    · exact absurd hstep (by simp)
  | frame r stop token =>
    simp only [step] at hstep
    split at hstep
    · rename_i pos hphase
      simp only [Option.ite_none_right_eq_some, Option.some.injEq] at hstep
      obtain ⟨⟨-, hstop⟩, rfl⟩ := hstep
      exact .frame r stop token pos hphase hstop
    · exact absurd hstep (by simp)
  | apply r db principals =>
    simp only [step] at hstep
    split at hstep
    · rename_i pos i d todo stop token hphase
      split at hstep
      · exact absurd hstep (by simp)
      · rename_i tables rows happly
        cases hstep
        exact .apply r db principals pos i stop d todo token tables rows hphase happly
    · exact absurd hstep (by simp)
  | finish r =>
    simp only [step] at hstep
    split at hstep
    · rename_i pos stop token hphase
      cases token with
      | true =>
        cases hstep
        exact .finishStored r pos stop hphase
      | false =>
        cases hstep
        exact .finish r pos stop hphase
    · exact absurd hstep (by simp)
  | closed r =>
    simp only [step] at hstep
    split at hstep
    · cases hstep
      exact .closed r
    · exact absurd hstep (by simp)
  | failed r =>
    simp only [step] at hstep
    split at hstep
    · cases hstep
      exact .failed r
    · exact absurd hstep (by simp)
  | errorLine r msg cleared =>
    simp only [step] at hstep
    split at hstep
    · cases hstep
      exact .errorLine r msg cleared
    · exact absurd hstep (by simp)
  | panic r =>
    simp only [step, Option.ite_none_left_eq_some, Option.some.injEq] at hstep
    obtain ⟨-, rfl⟩ := hstep
    exact .panic r

end WatchLoop

end Verity.Model
