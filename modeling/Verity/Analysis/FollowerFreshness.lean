import Verity.Analysis.WatchCursor

/-!
# What a follower's freshness rests on

A follower takes the leader's heartbeat for a stream of its own. The heartbeat is written in
three places: at the top of the loop, after a successful probe, and while a stream is open.
The last two vouch for a stream; the first is written before anything is known about one.

`leaderRow_step` lists what a step can do to the leader row, and `run_history` turns it into
a statement about the past of a run: a vouched row has, behind it, a moment no earlier than
its heartbeat at which its holder had a stream.
-/

set_option autoImplicit false

namespace Verity.Analysis

open Verity.Model Verity.Foundation

variable {ι : Type} {parseId : String → Option (TenantId × String)}

/-- At this moment the replica has a connected watch stream, or has just verified that the
endpoint of the stream it waits for is reachable. -/
def HasStream (s : WatchLoop ι) (r : ι) : Prop :=
  match s.phase r with
  | .streaming _ _ => True
  | .connecting _ _ verified => verified = some s.now
  | _ => False

/-- The side condition on a run: no follower polls a fresh row whose holder has not had a
stream since it wrote it. -/
def PollsVouched (s : WatchLoop ι) : WatchEvent ι → Prop
  | .poll _ => s.leaderRow.isFresh s.now = true → s.leaderRow.vouched = true
  | _ => True

/-! ## The leader row -/

/-- What a step makes of the leader row. -/
inductive RowStep (s s' : WatchLoop ι) : Prop where
  | same (hrow : s'.leaderRow = s.leaderRow) (hnow : s.now ≤ s'.now)
  | top (r : ι) (hrow : s'.leaderRow = ⟨some r, s.now, false⟩) (hnow : s'.now = s.now)
  | beat (r : ι) (hrow : s'.leaderRow = ⟨some r, s.now, true⟩) (hnow : s'.now = s.now)
      (hstream : HasStream s' r)
  | connected (r : ι) (hholder : s'.leaderRow.holder = s.leaderRow.holder)
      (hat : s'.leaderRow.heartbeatAt = s.leaderRow.heartbeatAt)
      (hvouched : s'.leaderRow.vouched = true →
        s.leaderRow.vouched = true ∨ s.leaderRow.holder = some r)
      (hnow : s'.now = s.now) (hstream : HasStream s' r)

/-- The past behind the leader row. -/
structure RowInv (past : List (WatchLoop ι)) (s : WatchLoop ι) : Prop where
  written : s.leaderRow.heartbeatAt ≤ s.now
  vouched : s.leaderRow.vouched = true → ∃ leader, s.leaderRow.holder = some leader ∧
    ∃ s₁ ∈ past, HasStream s₁ leader ∧ s.leaderRow.heartbeatAt ≤ s₁.now

/-- Every step keeps what the heartbeat row stands for. -/
theorem RowInv.step {past : List (WatchLoop ι)} {s s' : WatchLoop ι} (h : RowInv past s)
    (hrow : RowStep s s') : RowInv (past ++ [s']) s' := by
  have hlast : s' ∈ past ++ [s'] := by simp
  cases hrow with
  | same hrow hnow =>
    refine ⟨?_, ?_⟩
    · rw [hrow]
      exact h.written.trans hnow
    · rw [hrow]
      intro hv
      obtain ⟨leader, hholder, s₁, hs₁, hstream, hat⟩ := h.vouched hv
      exact ⟨leader, hholder, s₁, List.mem_append_left _ hs₁, hstream, hat⟩
  | top r hrow hnow =>
    refine ⟨?_, ?_⟩
    · rw [hrow, hnow]
    · rw [hrow]
      intro hv
      exact absurd hv (by simp)
  | beat r hrow hnow hstream =>
    refine ⟨?_, ?_⟩
    · rw [hrow, hnow]
    · rw [hrow]
      intro _
      exact ⟨r, rfl, s', hlast, hstream, hnow.ge⟩
  | connected r hholder hat hvouched hnow hstream =>
    refine ⟨?_, ?_⟩
    · rw [hat, hnow]
      exact h.written
    · intro hv
      rw [hholder, hat]
      rcases hvouched hv with hold | hself
      · obtain ⟨leader, hleader, s₁, hs₁, hstream₁, hat₁⟩ := h.vouched hold
        exact ⟨leader, hleader, s₁, List.mem_append_left _ hs₁, hstream₁, hat₁⟩
      · -- the connection is younger than the heartbeat
        refine ⟨r, hself, s', hlast, hstream, ?_⟩
        rw [hnow]
        exact h.written

theorem hasStream_streaming {s : WatchLoop ι} {r : ι} {pos : Position} {frame : Option Frame}
    (hphase : s.phase r = .streaming pos frame) : HasStream s r := by
  unfold HasStream
  rw [hphase]
  trivial

section Steps

variable [DecidableEq ι]

theorem leaderRow_streamEnded (s : WatchLoop ι) (r : ι) (reason : StreamEnd) (cleared : Bool) :
    (s.streamEnded r reason cleared).leaderRow = s.leaderRow := by
  cases reason <;> rfl

theorem now_streamEnded (s : WatchLoop ι) (r : ι) (reason : StreamEnd) (cleared : Bool) :
    (s.streamEnded r reason cleared).now = s.now := by
  cases reason <;> rfl

/-- Only the three heartbeats and a new connection touch the row. -/
theorem leaderRow_step {s s' : WatchLoop ι} {e : WatchEvent ι}
    (hstep : s.step parseId e = some s') : RowStep s s' := by
  cases WatchLoop.step_cases hstep with
  | tick now hle => exact .same rfl hle
  | heartbeatWritten r hphase => exact .top r rfl rfl
  | probeWritten r cursor start verified hphase =>
    refine .beat r rfl rfl ?_
    unfold HasStream
    rw [WatchLoop.phase_setPhase_self]
    rfl
  | connectOk r cursor start verified hphase =>
    refine .connected r rfl rfl ?_ rfl ?_
    · intro hv
      simpa using hv
    · exact hasStream_streaming (WatchLoop.phase_setPhase_self (s.markFresh r) r _)
  | beat r pos frame hphase =>
    refine .beat r rfl rfl ?_
    exact hasStream_streaming ((WatchLoop.phase_setStatus _ r r _).trans hphase)
  | errorLine r msg cleared =>
    exact .same (leaderRow_streamEnded _ _ _ _) (now_streamEnded _ _ _ _).ge
  | _ => exact .same rfl (le_refl s.now)

/-- Every poll of every run that meets the side condition `PollsVouched`, on any number of
replicas: if the poll finds a fresh heartbeat, and so marks the follower connected and
advanced, then the replica that wrote it had a connected or verified stream at some moment of
the last `followerLeaderFreshSecs` seconds. And a leader that has had none in the whole run
leaves the follower's status as it was. -/
theorem fresh_follower_has_healthy_leader {now : Time} {log : List Json} {tables : RevocationTables}
    {cursor : Option Position} {holder : Option ι} {heartbeatAt : Time} {startedAt : ι → Time}
    (hclock : heartbeatAt ≤ now) {events : List (WatchEvent ι)} {r : ι} {s s' : WatchLoop ι}
    (hsafe : Along (WatchLoop.step parseId) PollsVouched
      (WatchLoop.start now log tables cursor holder heartbeatAt startedAt)
      (events ++ [.poll r])) (hrun : run (WatchLoop.step parseId)
      (WatchLoop.start now log tables cursor holder heartbeatAt startedAt) events = some s)
    (hpoll : s.step parseId (.poll r) = some s') :
    (s.leaderRow.isFresh s.now = true → ∃ leader, s.leaderRow.holder = some leader ∧
      ∃ s₁ ∈ visited (WatchLoop.step parseId)
          (WatchLoop.start now log tables cursor holder heartbeatAt startedAt) events,
        HasStream s₁ leader ∧ s.now - seconds followerLeaderFreshSecs < s₁.now) ∧
    ((∀ leader, s.leaderRow.holder = some leader →
        ∀ s₁ ∈ visited (WatchLoop.step parseId)
          (WatchLoop.start now log tables cursor holder heartbeatAt startedAt) events,
        ¬ HasStream s₁ leader) →
      (s'.replicas r).status = (s.replicas r).status) := by
  have hinv : RowInv ([] ++ visited (WatchLoop.step parseId)
      (WatchLoop.start now log tables cursor holder heartbeatAt startedAt) events) s := by
    refine run_history (fun past s o s' h hstep => h.step (leaderRow_step hstep)) ?_ hrun
    exact ⟨hclock, fun hv => absurd hv (by simp [WatchLoop.start])⟩
  rw [List.nil_append] at hinv
  have hvouched : s.leaderRow.isFresh s.now = true → s.leaderRow.vouched = true :=
    ((along_append.mp hsafe).2 s hrun).1
  have hhealthy : s.leaderRow.isFresh s.now = true → ∃ leader, s.leaderRow.holder = some leader ∧
      ∃ s₁ ∈ visited (WatchLoop.step parseId)
          (WatchLoop.start now log tables cursor holder heartbeatAt startedAt) events,
        HasStream s₁ leader ∧ s.now - seconds followerLeaderFreshSecs < s₁.now := by
    intro hfresh
    obtain ⟨leader, hholder, s₁, hs₁, hstream, hat⟩ := hinv.vouched (hvouched hfresh)
    refine ⟨leader, hholder, s₁, hs₁, hstream, ?_⟩
    exact lt_of_lt_of_le (of_decide_eq_true hfresh) hat
  refine ⟨hhealthy, ?_⟩
  intro hnone
  cases WatchLoop.step_cases hpoll with
  | poll r =>
    rw [WatchLoop.status_setStatus, if_pos rfl]
    unfold followerFreshnessFromLeader
    by_cases hfresh : s.leaderRow.isFresh s.now = true
    · obtain ⟨leader, hholder, s₁, hs₁, hstream, -⟩ := hhealthy hfresh
      exact absurd hstream (hnone leader hholder s₁ hs₁)
    · rw [if_neg hfresh]

end Steps

/-! ## Two runs -/

section Runs

instance (s : WatchLoop ι) (r : ι) : Decidable (HasStream s r) :=
  match h : s.phase r with
  | .streaming _ _ => isTrue (by simp only [HasStream, h])
  | .connecting _ _ verified =>
    decidable_of_iff (verified = some s.now) (by simp only [HasStream, h])
  | .idle | .acquired | .beaten | .loaded _ => isFalse (by simp [HasStream, h])

/-- The leader beats while its stream is open; the follower polls three seconds later. -/
def beatThenPoll : List (WatchEvent Bool) :=
  connectFirst false ++ [.tick (seconds 5), .beat false, .tick (seconds 8)]

/-- The poll of the follower finds a fresh row, and the holder had its stream open within the
window. -/
theorem poll_after_beat :
    ∃ s ∈ run (WatchLoop.step parseSales) (freshWatch Bool) beatThenPoll,
      s.leaderRow.isFresh s.now = true ∧ ∃ leader, s.leaderRow.holder = some leader ∧
        ∃ s₁ ∈ visited (WatchLoop.step parseSales) (freshWatch Bool) beatThenPoll,
          HasStream s₁ leader ∧ s.now - seconds followerLeaderFreshSecs < s₁.now := by
  have hrun : ∃ s ∈ run (WatchLoop.step parseSales) (freshWatch Bool) beatThenPoll,
      s.leaderRow.isFresh s.now = true ∧ s.leaderRow.vouched = true ∧
        (s.step parseSales (.poll true)).isSome := by decide +kernel
  obtain ⟨s, hs, hfresh, hvouched, hpoll⟩ := hrun
  obtain ⟨s', hs'⟩ := Option.isSome_iff_exists.mp hpoll
  have hsafe : Along (WatchLoop.step parseSales) PollsVouched (freshWatch Bool)
      (beatThenPoll ++ [.poll true]) := by
    refine along_append.mpr ⟨?_, ?_⟩
    · -- nobody polls before
      simp [beatThenPoll, connectFirst, Along, PollsVouched]
    · intro s₁ hs₁
      rw [Option.mem_def.mp hs, Option.some.injEq] at hs₁
      subst hs₁
      exact ⟨fun _ => hvouched, fun _ _ => trivial⟩
  have hclock : (0 : Time) ≤ 0 := le_refl 0
  exact ⟨s, hs, hfresh, (fresh_follower_has_healthy_leader hclock hsafe hs hs').1 hfresh⟩

/-- The leader's endpoint refuses every connection; the follower polls right after the second
attempt has begun. -/
def retryThenPoll : List (WatchEvent Bool) :=
  [.acquire false, .heartbeat false true, .loadCursor false, .connect false,
    .connectError false (.transport "connection refused") false, .tick (seconds 10),
    .acquire false, .heartbeat false true, .poll true]

/-- The leader never had a stream, and its heartbeat makes the follower look fresh: connected,
advanced at its eleventh second, and not stale. -/
theorem retrying_leader_looks_healthy :
    (∀ s₁ ∈ visited (WatchLoop.step parseSales) (freshWatch Bool) retryThenPoll,
      ¬ HasStream s₁ false) ∧
    ∃ s ∈ run (WatchLoop.step parseSales) (freshWatch Bool) retryThenPoll,
      s.leaderRow.holder = some false ∧ (s.replicas true).status = ⟨true, true, false, 11⟩ ∧
      (s.replicas true).status.isStale 30 (s.secsSinceStart true) = false := by
  decide +kernel

end Runs

end Verity.Analysis
