import Verity.Foundation.Run
import Verity.Model.SyncScheduler

/-!
# Loops of continuous sync

In each process, a source of a tenant has at most one loop that is not cancelled, the one that the
map of the process holds, and it keeps to the floor (`one_loop_per_key`). A toggle that another
process serves does not reach it (`loop_outlives_toggles_elsewhere`).
-/

set_option autoImplicit false

namespace Verity.Analysis

open Verity.Model Verity.Foundation

variable {tasks : List SyncLoop} {key : WorkerKey} {t : SyncToggle} {sent : Bool}
  {plane : SyncPlane} {e : SchedulerEvent} {rows : List SyncSchedule} {row : SyncSchedule}
  {intervalSecs : Int}

/-! ## Tasks -/

/-- The tasks of a source in a process that run on. -/
def liveLoops (tasks : List SyncLoop) (p : ServerId) (key : WorkerKey) : List SyncLoop :=
  tasks.filter fun t => t.server = p && t.key = key && !t.cancelled

theorem mem_liveLoops {p : ServerId} {t : SyncLoop} :
    t ∈ liveLoops tasks p key ↔
      t ∈ tasks ∧ t.server = p ∧ t.key = key ∧ t.cancelled = false := by
  unfold liveLoops
  rw [List.mem_filter]
  simp [and_assoc]

/-- The loop that a process has armed for a source. -/
def armedAt (s : SyncService) (p : ServerId) (key : WorkerKey) : Option ArmedSchedule :=
  (s.planes p).bind fun plane => plane.loops key

/-- The task behind a handle. -/
def taskOf (p : ServerId) (key : WorkerKey) (armed : ArmedSchedule) : SyncLoop :=
  ⟨armed.task, p, key, armed.intervalSecs, false⟩

/-- Each handle has its task, and each task that runs on has its handle. -/
structure Wired (s : SyncService) : Prop where
  ids_lt : ∀ t ∈ s.tasks, t.id < s.nextTask
  ids_nodup : (s.tasks.map fun t => t.id).Nodup
  live : ∀ p key, liveLoops s.tasks p key = ((armedAt s p key).map (taskOf p key)).toList

theorem map_id_cancel (tasks : List SyncLoop) (old : Option ArmedSchedule) :
    (SyncService.cancel tasks old).map (fun t => t.id) = tasks.map fun t => t.id := by
  cases old with
  | none => rfl
  | some armed => exact map_updateWhere fun _ => rfl

theorem ids_lt_cancel {next : Nat} (h : ∀ t ∈ tasks, t.id < next) (old : Option ArmedSchedule) :
    ∀ t ∈ SyncService.cancel tasks old, t.id < next := by
  intro t ht
  have hid : t.id ∈ tasks.map fun t => t.id := by
    rw [← map_id_cancel tasks old]
    exact List.mem_map_of_mem ht
  obtain ⟨t', ht', heq⟩ := List.mem_map.mp hid
  rw [← heq]
  exact h t' ht'

theorem liveLoops_cancel_some (tasks : List SyncLoop) (armed : ArmedSchedule) (p : ServerId)
    (key : WorkerKey) :
    liveLoops (SyncService.cancel tasks (some armed)) p key =
      (liveLoops tasks p key).filter fun t => ¬ t.id = armed.task := by
  have hmoved := filter_map_moved
    (q := fun t : SyncLoop => t.server = p && t.key = key && !t.cancelled)
    (p := fun t => t.id = armed.task) (f := fun t => { t with cancelled := true })
    (by intro t; simp) tasks
  simpa [liveLoops, SyncService.cancel, updateWhere] using hmoved

/-- A handle is of one process and source. -/
theorem Wired.armedAt_injective {s : SyncService} (h : Wired s) {p q : ServerId} {key' : WorkerKey}
    {armed armed' : ArmedSchedule} (hp : armedAt s p key = some armed)
    (hq : armedAt s q key' = some armed') (hid : armed.task = armed'.task) :
    p = q ∧ key = key' := by
  have hlive : taskOf p key armed ∈ liveLoops s.tasks p key := by
    rw [h.live, hp]
    exact List.mem_singleton_self _
  have hlive' : taskOf q key' armed' ∈ liveLoops s.tasks q key' := by
    rw [h.live, hq]
    exact List.mem_singleton_self _
  have hmem := (mem_liveLoops.mp hlive).1
  have hmem' := (mem_liveLoops.mp hlive').1
  have heq := List.inj_on_of_nodup_map h.ids_nodup hmem hmem' hid
  exact ⟨congrArg SyncLoop.server heq, congrArg SyncLoop.key heq⟩

/-- Cancelling the loop of a source leaves it without one, and the other loops as they are. -/
theorem Wired.live_cancel {s : SyncService} (h : Wired s) (p : ServerId) (key : WorkerKey)
    (q : ServerId) (key' : WorkerKey) :
    liveLoops (SyncService.cancel s.tasks (armedAt s p key)) q key' =
      if q = p ∧ key' = key then [] else ((armedAt s q key').map (taskOf q key')).toList := by
  cases hp : armedAt s p key with
  | none =>
    show liveLoops s.tasks q key' = _
    rw [h.live]
    split
    · rename_i hsame
      rw [hsame.1, hsame.2, hp]
      rfl
    · rfl
  | some armed =>
    rw [liveLoops_cancel_some, h.live]
    split
    · rename_i hsame
      rw [hsame.1, hsame.2, hp]
      simp [taskOf]
    · rename_i hother
      cases hq : armedAt s q key' with
      | none => rfl
      | some armed' =>
        have hne : ¬ armed'.task = armed.task := by
          intro hid
          exact hother (h.armedAt_injective hq hp hid)
        simp [taskOf, hne]

/-! ## What a step does -/

section

variable {s s' : SyncService} {p : ServerId}

theorem boot_cases {listed : Bool} (h : s.boot p listed = some s') :
    s.planes p = none ∧ s' = s.setPlane p
      ⟨fun _ => none, none, if listed then listEnabledSyncSchedules s.schedules else []⟩ := by
  unfold SyncService.boot at h
  split at h
  · cases h
  · rename_i hdown
    exact ⟨hdown, (Option.some.inj h).symm⟩

theorem rearm_cases (h : s.rearm p = some s') :
    ∃ plane row rest, s.planes p = some plane ∧ plane.rearming = row :: rest ∧
      s' = s.arm p { plane with rearming := rest } row.key row.intervalSecs := by
  obtain ⟨plane, hplane, h⟩ := Option.bind_eq_some_iff.mp h
  split at h
  · cases h
  · rename_i row rest hrows
    exact ⟨plane, row, rest, hplane, hrows, (Option.some.inj h).symm⟩

theorem toggle_cases {source : String} {body : SyncToggleBody} {tenantKnown : Bool}
    {identity : Except HandlerError Unit}
    (h : s.toggle p source body tenantKnown identity = some s') :
    ∃ plane, s.planes p = some plane ∧ plane.rearming = [] ∧
      (s' = s ∨ ∃ t, syncSource s.schedules source body tenantKnown identity = .ok t ∧
        plane.admission = none ∧
        s' = s.setPlane p { plane with admission := some (t, .admitted) }) := by
  obtain ⟨plane, hplane, h⟩ := Option.bind_eq_some_iff.mp h
  refine ⟨plane, hplane, ?_⟩
  split at h
  · cases h
  · rename_i hserving
    refine ⟨not_not.mp hserving, ?_⟩
    split at h
    · exact Or.inl (Option.some.inj h).symm
    · rename_i t ht
      split at h
      · rename_i hfree
        exact Or.inr ⟨t, ht, hfree, (Option.some.inj h).symm⟩
      · cases h

theorem persist_cases (h : s.persist p t = some s') :
    ∃ plane, s.planes p = some plane ∧ plane.admission = some (t, .admitted) ∧
      ((∃ err, upsertSyncSchedule s.schedules t.key t.intervalSecs t.enabled = .error err ∧
          s' = s.setPlane p { plane with admission := none }) ∨
        ∃ rows row,
          upsertSyncSchedule s.schedules t.key t.intervalSecs t.enabled = .ok (rows, row) ∧
          s' = { s.setPlane p { plane with admission := some (t, .persisted) } with
            schedules := rows }) := by
  obtain ⟨plane, hplane, h⟩ := Option.bind_eq_some_iff.mp h
  refine ⟨plane, hplane, ?_⟩
  split at h
  · rename_i hadmitted
    refine ⟨hadmitted, ?_⟩
    split at h
    · rename_i err herr
      exact Or.inl ⟨err, herr, (Option.some.inj h).symm⟩
    · rename_i rows row hrows
      exact Or.inr ⟨rows, row, hrows, (Option.some.inj h).symm⟩
  · cases h

theorem apply_cases (h : s.apply p t = some s') :
    ∃ plane, s.planes p = some plane ∧ plane.admission = some (t, .persisted) ∧
      s' = if t.enabled then
          s.arm p { plane with admission := some (t, .applied) } t.key t.intervalSecs
        else s.disarm p { plane with admission := some (t, .applied) } t.key := by
  obtain ⟨plane, hplane, h⟩ := Option.bind_eq_some_iff.mp h
  refine ⟨plane, hplane, ?_⟩
  split at h
  · rename_i hpersisted
    refine ⟨hpersisted, ?_⟩
    dsimp only at h
    split at h
    · rename_i henabled
      rw [if_pos henabled]
      exact (Option.some.inj h).symm
    · rename_i hdisabled
      rw [if_neg hdisabled]
      exact (Option.some.inj h).symm
  · cases h

theorem leave_cases (h : s.leave p sent = some s') :
    ∃ plane, s.planes p = some plane ∧
      s' = { s.setPlane p { plane with admission := none } with
        stray := SyncService.leftBy p plane.admission sent ++ s.stray } := by
  obtain ⟨plane, hplane, h⟩ := Option.bind_eq_some_iff.mp h
  split at h
  · cases h
  · exact ⟨plane, hplane, (Option.some.inj h).symm⟩

theorem land_cases (h : s.land p t = some s') :
    (p, t) ∈ s.stray ∧
      ((∃ err, upsertSyncSchedule s.schedules t.key t.intervalSecs t.enabled = .error err ∧
          s' = { s with stray := s.stray.erase (p, t) }) ∨
        ∃ rows row,
          upsertSyncSchedule s.schedules t.key t.intervalSecs t.enabled = .ok (rows, row) ∧
          s' = { s with schedules := rows, stray := s.stray.erase (p, t) }) := by
  unfold SyncService.land at h
  split at h
  · rename_i hstray
    refine ⟨hstray, ?_⟩
    split at h
    · rename_i err herr
      exact Or.inl ⟨err, herr, (Option.some.inj h).symm⟩
    · rename_i rows row hrows
      exact Or.inr ⟨rows, row, hrows, (Option.some.inj h).symm⟩
  · cases h

theorem exit_cases {id : Nat} (h : s.exit id = some s') :
    (∃ t ∈ s.tasks, t.id = id ∧ t.cancelled = true) ∧
      s' = { s with tasks := deleteWhere (fun t => t.id = id) s.tasks } := by
  unfold SyncService.exit at h
  split at h
  · rename_i hany
    refine ⟨?_, (Option.some.inj h).symm⟩
    simpa using hany
  · cases h

theorem stop_cases (h : s.stop p sent = some s') :
    ∃ plane, s.planes p = some plane ∧
      s' = { s with
        planes := Function.update s.planes p none
        tasks := deleteWhere (fun t => t.server = p) s.tasks
        stray := SyncService.leftBy p plane.admission sent ++ s.stray } := by
  obtain ⟨plane, hplane, h⟩ := Option.bind_eq_some_iff.mp h
  exact ⟨plane, hplane, (Option.some.inj h).symm⟩

end

theorem mem_leftBy {p : ServerId} {admission : Option (SyncToggle × ToggleStage)}
    {left : ServerId × SyncToggle} (h : left ∈ SyncService.leftBy p admission sent) :
    admission = some (left.2, .admitted) := by
  unfold SyncService.leftBy at h
  split at h
  · rw [List.mem_singleton.mp h]
  · cases h

/-! ## One loop for each source -/

theorem planes_setPlane (s : SyncService) (p : ServerId) (plane : SyncPlane) (q : ServerId) :
    (s.setPlane p plane).planes q = if q = p then some plane else s.planes q :=
  Function.update_apply s.planes p (some plane) q

theorem armedAt_of_plane {s : SyncService} {p : ServerId} (h : s.planes p = some plane)
    (key : WorkerKey) : armedAt s p key = plane.loops key := by
  rw [armedAt, h]
  rfl

theorem armedAt_setPlane (s : SyncService) (p : ServerId) (plane : SyncPlane) (q : ServerId)
    (key : WorkerKey) :
    armedAt (s.setPlane p plane) q key = if q = p then plane.loops key else armedAt s q key := by
  rw [armedAt, planes_setPlane]
  split <;> rfl

/-- What holds the lock is not what is armed. -/
theorem armedAt_admission {s : SyncService} {p : ServerId} (h : s.planes p = some plane)
    (admission : Option (SyncToggle × ToggleStage)) (q : ServerId) (key : WorkerKey) :
    armedAt (s.setPlane p { plane with admission := admission }) q key = armedAt s q key := by
  rw [armedAt_setPlane]
  split
  · rename_i hq
    rw [hq, armedAt_of_plane h]
  · rfl

theorem armedAt_arm {s : SyncService} {p : ServerId}
    (hloops : ∀ key, armedAt s p key = plane.loops key) (key : WorkerKey) (intervalSecs : Int)
    (q : ServerId) (key' : WorkerKey) :
    armedAt (s.arm p plane key intervalSecs) q key' =
      if q = p ∧ key' = key then some ⟨s.nextTask, intervalSecs⟩ else armedAt s q key' := by
  show armedAt (s.setPlane p _) q key' = _
  rw [armedAt_setPlane]
  by_cases hq : q = p
  · rw [if_pos hq, hq]
    show Function.update plane.loops key _ key' = _
    rw [Function.update_apply, hloops]
    simp
  · rw [if_neg hq, if_neg fun h => hq h.1]

theorem armedAt_disarm {s : SyncService} {p : ServerId}
    (hloops : ∀ key, armedAt s p key = plane.loops key) (key : WorkerKey) (q : ServerId)
    (key' : WorkerKey) :
    armedAt (s.disarm p plane key) q key' =
      if q = p ∧ key' = key then none else armedAt s q key' := by
  show armedAt (s.setPlane p _) q key' = _
  rw [armedAt_setPlane]
  by_cases hq : q = p
  · rw [if_pos hq, hq]
    show Function.update plane.loops key _ key' = _
    rw [Function.update_apply, hloops]
    simp
  · rw [if_neg hq, if_neg fun h => hq h.1]

theorem liveLoops_concat (tasks : List SyncLoop) (p : ServerId) (key : WorkerKey) (id : Nat)
    (intervalSecs : Int) (q : ServerId) (key' : WorkerKey) :
    liveLoops (tasks ++ [⟨id, p, key, intervalSecs, false⟩]) q key' =
      liveLoops tasks q key' ++
        if q = p ∧ key' = key then [taskOf q key' ⟨id, intervalSecs⟩] else [] := by
  unfold liveLoops
  rw [List.filter_append]
  congr 1
  by_cases hsame : q = p ∧ key' = key
  · rw [if_pos hsame, hsame.1, hsame.2]
    simp [taskOf]
  · rw [if_neg hsame]
    refine List.filter_eq_nil_iff.mpr ?_
    intro t ht
    rw [List.mem_singleton.mp ht]
    simp only [Bool.not_false, Bool.and_true, Bool.and_eq_true, decide_eq_true_eq]
    exact fun h => hsame ⟨h.1.symm, h.2.symm⟩

theorem Wired.same {s s' : SyncService} (h : Wired s) (htasks : s'.tasks = s.tasks)
    (hnext : s'.nextTask = s.nextTask) (harmed : ∀ p key, armedAt s' p key = armedAt s p key) :
    Wired s' where
  ids_lt := by
    rw [htasks, hnext]
    exact h.ids_lt
  ids_nodup := by
    rw [htasks]
    exact h.ids_nodup
  live p key := by
    rw [htasks, harmed]
    exact h.live p key

theorem Wired.arm {s : SyncService} {p : ServerId} (h : Wired s)
    (hloops : ∀ key, armedAt s p key = plane.loops key) (key : WorkerKey) (intervalSecs : Int) :
    Wired (s.arm p plane key intervalSecs) where
  ids_lt := ids_lt_concat (ids_lt_cancel h.ids_lt _) rfl
  ids_nodup := by
    refine nodup_ids_concat ?_ (ids_lt_cancel h.ids_lt _) rfl
    rw [map_id_cancel]
    exact h.ids_nodup
  live q key' := by
    show liveLoops (SyncService.cancel s.tasks (plane.loops key) ++ _) q key' = _
    rw [liveLoops_concat, ← hloops, h.live_cancel, armedAt_arm hloops]
    by_cases hsame : q = p ∧ key' = key
    · rw [if_pos hsame, if_pos hsame, if_pos hsame]
      rfl
    · rw [if_neg hsame, if_neg hsame, if_neg hsame, List.append_nil]

theorem Wired.disarm {s : SyncService} {p : ServerId} (h : Wired s)
    (hloops : ∀ key, armedAt s p key = plane.loops key) (key : WorkerKey) :
    Wired (s.disarm p plane key) where
  ids_lt := ids_lt_cancel h.ids_lt _
  ids_nodup := by
    show ((SyncService.cancel s.tasks (plane.loops key)).map fun t => t.id).Nodup
    rw [map_id_cancel]
    exact h.ids_nodup
  live q key' := by
    show liveLoops (SyncService.cancel s.tasks (plane.loops key)) q key' = _
    rw [← hloops, h.live_cancel, armedAt_disarm hloops]
    by_cases hsame : q = p ∧ key' = key
    · rw [if_pos hsame, if_pos hsame]
      rfl
    · rw [if_neg hsame, if_neg hsame]

theorem Wired.delete {s s' : SyncService} (h : Wired s) {gone : SyncLoop → Bool}
    (htasks : s'.tasks = deleteWhere gone s.tasks) (hnext : s'.nextTask = s.nextTask)
    (hlive : ∀ p key, liveLoops (deleteWhere gone s.tasks) p key =
      ((armedAt s' p key).map (taskOf p key)).toList) : Wired s' where
  ids_lt := by
    intro t ht
    rw [htasks] at ht
    rw [hnext]
    exact h.ids_lt t (mem_deleteWhere.mp ht).1
  ids_nodup := by
    rw [htasks]
    exact h.ids_nodup.sublist (List.filter_sublist.map _)
  live p key := by
    rw [htasks]
    exact hlive p key

theorem Wired.exit {s s' : SyncService} {id : Nat} (h : Wired s) (hstep : s.exit id = some s') :
    Wired s' := by
  obtain ⟨⟨t, ht, hid, hcancelled⟩, rfl⟩ := exit_cases hstep
  refine h.delete rfl rfl ?_
  intro p key
  show _ = ((armedAt s p key).map (taskOf p key)).toList
  rw [← h.live p key]
  refine filter_deleteWhere ?_
  intro t' ht' hlive
  -- the only task with this id is cancelled
  refine decide_eq_false ?_
  intro hid'
  obtain rfl := List.inj_on_of_nodup_map h.ids_nodup ht' ht (hid'.trans hid.symm)
  simp [hcancelled] at hlive

theorem armedAt_stop {s s' : SyncService} {p : ServerId} (hstep : s.stop p sent = some s')
    (q : ServerId) (key : WorkerKey) :
    armedAt s' q key = if q = p then none else armedAt s q key := by
  obtain ⟨plane, -, rfl⟩ := stop_cases hstep
  show (Function.update s.planes p none q).bind _ = _
  rw [Function.update_apply]
  split
  · rfl
  · rfl

theorem Wired.stop {s s' : SyncService} {p : ServerId} (h : Wired s)
    (hstep : s.stop p sent = some s') : Wired s' := by
  have harmed := armedAt_stop hstep
  obtain ⟨plane, hplane, rfl⟩ := stop_cases hstep
  refine h.delete rfl rfl ?_
  intro q key
  rw [harmed]
  split
  · rename_i hq
    refine List.filter_eq_nil_iff.mpr ?_
    intro t ht
    have hserver := of_decide_eq_false (mem_deleteWhere.mp ht).2
    simp [hq, hserver]
  · rename_i hq
    rw [← h.live q key]
    refine filter_deleteWhere ?_
    intro t _ hlive
    refine decide_eq_false ?_
    intro hserver
    simp [hserver, Ne.symm hq] at hlive

/-- Every step keeps each handle with its task. -/
theorem wired_step {s s' : SyncService} (h : Wired s) (hstep : s.step e = some s') : Wired s' := by
  cases e with
  | boot p listed =>
    obtain ⟨hdown, rfl⟩ := boot_cases hstep
    refine h.same rfl rfl ?_
    intro q key
    rw [armedAt_setPlane]
    split
    · rename_i hq
      rw [hq, armedAt, hdown]
      rfl
    · rfl
  | rearm p =>
    obtain ⟨plane, row, rest, hplane, -, rfl⟩ := rearm_cases hstep
    refine h.arm ?_ row.key row.intervalSecs
    intro key
    show armedAt s p key = plane.loops key
    exact armedAt_of_plane hplane key
  | toggle p source body tenantKnown identity =>
    obtain ⟨plane, hplane, -, rfl | ⟨t, -, -, rfl⟩⟩ := toggle_cases hstep
    · exact h
    · exact h.same rfl rfl (armedAt_admission hplane _)
  | persist p t =>
    obtain ⟨plane, hplane, -, ⟨err, -, rfl⟩ | ⟨rows, row, -, rfl⟩⟩ := persist_cases hstep
    · exact h.same rfl rfl (armedAt_admission hplane _)
    · exact h.same rfl rfl (armedAt_admission hplane _)
  | apply p t =>
    obtain ⟨plane, hplane, -, rfl⟩ := apply_cases hstep
    have hloops : ∀ key, armedAt s p key =
        { plane with admission := some (t, ToggleStage.applied) }.loops key := by
      intro key
      show armedAt s p key = plane.loops key
      exact armedAt_of_plane hplane key
    split
    · exact h.arm hloops t.key t.intervalSecs
    · exact h.disarm hloops t.key
  | leave p sent =>
    obtain ⟨plane, hplane, rfl⟩ := leave_cases hstep
    exact h.same rfl rfl (armedAt_admission hplane _)
  | land p t =>
    obtain ⟨-, ⟨err, -, rfl⟩ | ⟨rows, row, -, rfl⟩⟩ := land_cases hstep
    · exact h.same rfl rfl fun _ _ => rfl
    · exact h.same rfl rfl fun _ _ => rfl
  | exit id => exact h.exit hstep
  | stop p sent => exact h.stop hstep

theorem wired_start : Wired SyncService.start where
  ids_lt := by
    intro t ht
    cases ht
  ids_nodup := List.nodup_nil
  live := fun _ _ => rfl

/-! ## The rows of the table -/

/-- A cadence that keeps to the floor, of a source that can be polled. -/
def OnSchedule (key : WorkerKey) (intervalSecs : Int) : Prop :=
  syncIntervalFloorSecs ≤ intervalSecs ∧ syncEligible key.2 = true

def rowKeys (rows : List SyncSchedule) : List WorkerKey := rows.map SyncSchedule.key

theorem getSyncSchedule_eq_some_iff (hkeys : (rowKeys rows).Nodup) :
    getSyncSchedule rows key = some row ↔ row ∈ rows ∧ row.key = key := by
  unfold getSyncSchedule
  constructor
  · intro h
    have hkey := List.find?_some h
    exact ⟨List.mem_of_find?_eq_some h, of_decide_eq_true hkey⟩
  · rintro ⟨hrow, hkey⟩
    refine find?_unique hrow (decide_eq_true hkey) ?_
    intro row' hrow' hkey'
    exact List.inj_on_of_nodup_map hkeys hrow' hrow ((of_decide_eq_true hkey').trans hkey.symm)

/-- The row of the key is the new one, and the others are as they were. -/
theorem upsertSyncSchedule_ok {rows' : List SyncSchedule} (hkeys : (rowKeys rows).Nodup)
    {enabled : Bool} (h : upsertSyncSchedule rows key intervalSecs enabled = .ok (rows', row)) :
    syncIntervalFloorSecs ≤ intervalSecs ∧ (rowKeys rows').Nodup ∧
      ∀ r, r ∈ rows' ↔ r = ⟨key.1, key.2, intervalSecs, enabled⟩ ∨ r ∈ rows ∧ r.key ≠ key := by
  unfold upsertSyncSchedule at h
  split at h
  · cases h
  rename_i hfloor
  refine ⟨Int.not_lt.mp hfloor, ?_⟩
  have hkey : (⟨key.1, key.2, intervalSecs, enabled⟩ : SyncSchedule).key = key := rfl
  dsimp only at h
  split at h
  · rename_i hstored
    obtain ⟨rfl, -⟩ := Prod.mk.inj (Except.ok.inj h)
    obtain ⟨old, hold⟩ := Option.isSome_iff_exists.mp hstored
    obtain ⟨hmem, holdkey⟩ := (getSyncSchedule_eq_some_iff hkeys).mp hold
    constructor
    · have hsame : rowKeys (updateWhere (fun r => r.key = key)
          (fun _ => ⟨key.1, key.2, intervalSecs, enabled⟩) rows) = rowKeys rows := by
        unfold rowKeys updateWhere
        rw [List.map_map]
        apply List.map_congr_left
        intro r _
        rw [Function.comp_apply]
        split
        · rename_i hr
          rw [hkey, of_decide_eq_true hr]
        · rfl
      rw [hsame]
      exact hkeys
    · intro r
      unfold updateWhere
      rw [List.mem_map]
      constructor
      · rintro ⟨r', hr', rfl⟩
        split
        · exact Or.inl rfl
        · rename_i hr
          exact Or.inr ⟨hr', fun heq => hr (decide_eq_true heq)⟩
      · rintro (rfl | ⟨hr, hne⟩)
        · refine ⟨old, hmem, ?_⟩
          rw [if_pos (decide_eq_true holdkey)]
        · refine ⟨r, hr, ?_⟩
          rw [if_neg fun heq => hne (of_decide_eq_true heq)]
  · rename_i hnone
    obtain ⟨rfl, -⟩ := Prod.mk.inj (Except.ok.inj h)
    have hnew : ∀ r ∈ rows, r.key ≠ key := by
      intro r hr heq
      refine hnone ?_
      rw [(getSyncSchedule_eq_some_iff hkeys).mpr ⟨hr, heq⟩]
      rfl
    refine ⟨nodup_keys_concat hkeys hnew, ?_⟩
    intro r
    rw [List.mem_append, List.mem_singleton, or_comm]
    constructor
    · rintro (rfl | hr)
      · exact Or.inl rfl
      · exact Or.inr ⟨hr, hnew r hr⟩
    · rintro (rfl | ⟨hr, -⟩)
      · exact Or.inl rfl
      · exact Or.inr hr

theorem perm_listEnabled (rows : List SyncSchedule) :
    (listEnabledSyncSchedules rows).Perm (rows.filter fun row => row.enabled) :=
  List.mergeSort_perm _ _

theorem nodup_keys_listEnabled (hkeys : (rowKeys rows).Nodup) :
    (rowKeys (listEnabledSyncSchedules rows)).Nodup := by
  refine (((perm_listEnabled rows).map SyncSchedule.key).nodup_iff).mpr ?_
  exact hkeys.sublist (List.filter_sublist.map _)

/-! ## Floors -/

structure PlaneFloored (plane : SyncPlane) : Prop where
  admission : ∀ t stage, plane.admission = some (t, stage) → OnSchedule t.key t.intervalSecs
  rearming : ∀ row ∈ plane.rearming, OnSchedule row.key row.intervalSecs
  rearming_keys : (rowKeys plane.rearming).Nodup
  serving : plane.admission ≠ none → plane.rearming = []

/-- Whatever a row, a loop or a statement under way says keeps to the floor. -/
structure Floored (s : SyncService) : Prop where
  schedules : ∀ row ∈ s.schedules, OnSchedule row.key row.intervalSecs
  keys : (rowKeys s.schedules).Nodup
  planes : ∀ p plane, s.planes p = some plane → PlaneFloored plane
  stray : ∀ p t, (p, t) ∈ s.stray → OnSchedule t.key t.intervalSecs
  tasks : ∀ t ∈ s.tasks, OnSchedule t.key t.intervalSecs

theorem onSchedule_of_syncSource (hrows : ∀ row ∈ rows, OnSchedule row.key row.intervalSecs)
    {source : String} {body : SyncToggleBody} {tenantKnown : Bool}
    {identity : Except HandlerError Unit}
    (h : syncSource rows source body tenantKnown identity = .ok t) :
    OnSchedule t.key t.intervalSecs := by
  unfold syncSource at h
  cases hrefused : scheduleRefusal source with
  | some refusal =>
    rw [hrefused] at h
    cases h
  | none =>
    have heligible : syncEligible source = true := by
      unfold scheduleRefusal at hrefused
      split_ifs at hrefused with hunknown hdirectory hpoll
      simpa using hpoll
    rw [hrefused] at h
    dsimp only at h
    split_ifs at h with htenant hdisable hfloor
    · obtain rfl := Except.ok.inj h
      refine ⟨?_, heligible⟩
      show syncIntervalFloorSecs ≤ Option.getD _ syncDefaultIntervalSecs
      cases hstored : getSyncSchedule rows (body.tenantId, source) with
      | none => decide
      | some row => exact (hrows row (List.mem_of_find?_eq_some hstored)).1
    · cases hidentity : identity with
      | error refusal =>
        rw [hidentity] at h
        cases h
      | ok u =>
        rw [hidentity] at h
        obtain rfl := Except.ok.inj h
        exact ⟨Int.not_lt.mp hfloor, heligible⟩

theorem upsertSyncSchedule_of_floor (h : OnSchedule key intervalSecs) (rows : List SyncSchedule)
    (enabled : Bool) (err : StorageError) :
    upsertSyncSchedule rows key intervalSecs enabled ≠ .error err := by
  unfold upsertSyncSchedule
  rw [if_neg (Int.not_lt.mpr h.1)]
  dsimp only
  split <;> exact fun herr => nomatch herr

theorem Floored.setPlane {s : SyncService} (h : Floored s) (p : ServerId)
    (hplane : PlaneFloored plane) : Floored (s.setPlane p plane) where
  schedules := h.schedules
  keys := h.keys
  planes := by
    intro q plane' hq
    rw [planes_setPlane] at hq
    split at hq
    · rw [← Option.some.inj hq]
      exact hplane
    · exact h.planes q plane' hq
  stray := h.stray
  tasks := h.tasks

theorem onSchedule_cancel (h : ∀ t ∈ tasks, OnSchedule t.key t.intervalSecs)
    (old : Option ArmedSchedule) :
    ∀ t ∈ SyncService.cancel tasks old, OnSchedule t.key t.intervalSecs := by
  cases old with
  | none => exact h
  | some armed =>
    intro t ht
    obtain ⟨t', ht', rfl⟩ := List.mem_map.mp ht
    split
    · exact h t' ht'
    · exact h t' ht'

theorem Floored.arm {s : SyncService} (h : Floored s) (p : ServerId) (hplane : PlaneFloored plane)
    (hkey : OnSchedule key intervalSecs) : Floored (s.arm p plane key intervalSecs) := by
  have hnew : PlaneFloored { plane with
      loops := Function.update plane.loops key (some ⟨s.nextTask, intervalSecs⟩) } :=
    ⟨hplane.admission, hplane.rearming, hplane.rearming_keys, hplane.serving⟩
  have harmed := h.setPlane p hnew
  refine ⟨harmed.schedules, harmed.keys, harmed.planes, harmed.stray, ?_⟩
  intro t ht
  rcases List.mem_append.mp ht with ht | ht
  · exact onSchedule_cancel h.tasks _ t ht
  · rw [List.mem_singleton.mp ht]
    exact hkey

theorem Floored.disarm {s : SyncService} (h : Floored s) (p : ServerId)
    (hplane : PlaneFloored plane) (key : WorkerKey) : Floored (s.disarm p plane key) := by
  have hnew : PlaneFloored { plane with loops := Function.update plane.loops key none } :=
    ⟨hplane.admission, hplane.rearming, hplane.rearming_keys, hplane.serving⟩
  have hdisarmed := h.setPlane p hnew
  exact ⟨hdisarmed.schedules, hdisarmed.keys, hdisarmed.planes, hdisarmed.stray,
    onSchedule_cancel h.tasks _⟩

theorem Floored.upsert {s : SyncService} (h : Floored s) (ht : OnSchedule t.key t.intervalSecs)
    (hrows : upsertSyncSchedule s.schedules t.key t.intervalSecs t.enabled = .ok (rows, row)) :
    Floored { s with schedules := rows } where
  schedules := by
    obtain ⟨-, -, hmem⟩ := upsertSyncSchedule_ok h.keys hrows
    intro r hr
    rcases (hmem r).mp hr with rfl | ⟨hr, -⟩
    · exact ht
    · exact h.schedules r hr
  keys := (upsertSyncSchedule_ok h.keys hrows).2.1
  planes := h.planes
  stray := h.stray
  tasks := h.tasks

theorem PlaneFloored.locked (h : PlaneFloored plane) (ht : OnSchedule t.key t.intervalSecs)
    (hserving : plane.rearming = []) (stage : ToggleStage) :
    PlaneFloored { plane with admission := some (t, stage) } where
  admission := by
    intro t' stage' hadmission
    obtain ⟨rfl, -⟩ := Prod.mk.inj (Option.some.inj hadmission)
    exact ht
  rearming := h.rearming
  rearming_keys := h.rearming_keys
  serving := fun _ => hserving

theorem PlaneFloored.free (h : PlaneFloored plane) :
    PlaneFloored { plane with admission := none } where
  admission := by
    intro t stage hadmission
    cases hadmission
  rearming := h.rearming
  rearming_keys := h.rearming_keys
  serving := fun hheld => absurd rfl hheld

/-- The toggle that holds the lock keeps to the floor, and its process has booted. -/
theorem PlaneFloored.held (h : PlaneFloored plane) {stage : ToggleStage}
    (hheld : plane.admission = some (t, stage)) :
    OnSchedule t.key t.intervalSecs ∧ plane.rearming = [] := by
  refine ⟨h.admission t stage hheld, h.serving ?_⟩
  rw [hheld]
  exact Option.some_ne_none _

theorem onSchedule_leftBy {s : SyncService} (h : Floored s) {p : ServerId}
    (hplane : s.planes p = some plane) (sent : Bool) (q : ServerId) (t : SyncToggle)
    (hleft : (q, t) ∈ SyncService.leftBy p plane.admission sent ++ s.stray) :
    OnSchedule t.key t.intervalSecs := by
  rcases List.mem_append.mp hleft with hleft | hleft
  · exact (h.planes p plane hplane).admission t .admitted (mem_leftBy hleft)
  · exact h.stray q t hleft

/-- No step brings an interval below the floor. -/
theorem floored_step {s s' : SyncService} (h : Floored s) (hstep : s.step e = some s') :
    Floored s' := by
  cases e with
  | boot p listed =>
    obtain ⟨-, rfl⟩ := boot_cases hstep
    refine h.setPlane p (PlaneFloored.mk (fun _ _ hadmission => nomatch hadmission) ?_ ?_
      fun hheld => absurd rfl hheld)
    · intro row hrow
      cases listed with
      | false => cases hrow
      | true =>
        have hlisted := (perm_listEnabled s.schedules).mem_iff.mp hrow
        exact h.schedules row (List.mem_of_mem_filter hlisted)
    · cases listed with
      | false => exact List.nodup_nil
      | true => exact nodup_keys_listEnabled h.keys
  | rearm p =>
    obtain ⟨plane, row, rest, hplane, hrows, rfl⟩ := rearm_cases hstep
    have hfloored := h.planes p plane hplane
    have hbooting : plane.admission = none := by
      refine not_not.mp fun hheld => ?_
      rw [hfloored.serving hheld] at hrows
      cases hrows
    have hmem : ∀ r ∈ row :: rest, OnSchedule r.key r.intervalSecs := by
      rw [← hrows]
      exact hfloored.rearming
    have hkeys := hfloored.rearming_keys
    rw [hrows] at hkeys
    have hrest : PlaneFloored { plane with rearming := rest } := by
      refine ⟨hfloored.admission, ?_, (List.nodup_cons.mp hkeys).2, ?_⟩
      · intro r hr
        exact hmem r (List.mem_cons_of_mem row hr)
      · exact fun hheld => absurd hbooting hheld
    exact h.arm p hrest (hmem row List.mem_cons_self)
  | toggle p source body tenantKnown identity =>
    obtain ⟨plane, hplane, hserving, rfl | ⟨t, ht, -, rfl⟩⟩ := toggle_cases hstep
    · exact h
    · exact h.setPlane p ((h.planes p plane hplane).locked
        (onSchedule_of_syncSource h.schedules ht) hserving .admitted)
  | persist p t =>
    obtain ⟨plane, hplane, hadmitted, ⟨err, -, rfl⟩ | ⟨rows, row, hrows, rfl⟩⟩ :=
      persist_cases hstep
    · exact h.setPlane p (h.planes p plane hplane).free
    · obtain ⟨ht, hserving⟩ := (h.planes p plane hplane).held hadmitted
      have hheld := (h.planes p plane hplane).locked ht hserving .persisted
      exact (h.upsert ht hrows).setPlane p hheld
  | apply p t =>
    obtain ⟨plane, hplane, hpersisted, rfl⟩ := apply_cases hstep
    obtain ⟨ht, hserving⟩ := (h.planes p plane hplane).held hpersisted
    have hfloored := (h.planes p plane hplane).locked ht hserving .applied
    split
    · exact h.arm p hfloored ht
    · exact h.disarm p hfloored t.key
  | leave p sent =>
    obtain ⟨plane, hplane, rfl⟩ := leave_cases hstep
    have hfree := h.setPlane p (h.planes p plane hplane).free
    exact ⟨hfree.schedules, hfree.keys, hfree.planes, onSchedule_leftBy h hplane sent,
      hfree.tasks⟩
  | land p t =>
    obtain ⟨hstray, ⟨err, -, rfl⟩ | ⟨rows, row, hrows, rfl⟩⟩ := land_cases hstep
    · exact ⟨h.schedules, h.keys, h.planes,
        fun q t' ht' => h.stray q t' (List.mem_of_mem_erase ht'), h.tasks⟩
    · have hrows := h.upsert (h.stray p t hstray) hrows
      exact ⟨hrows.schedules, hrows.keys, hrows.planes,
        fun q t' ht' => h.stray q t' (List.mem_of_mem_erase ht'), hrows.tasks⟩
  | exit id =>
    obtain ⟨-, rfl⟩ := exit_cases hstep
    exact ⟨h.schedules, h.keys, h.planes, h.stray,
      fun t ht => h.tasks t (mem_deleteWhere.mp ht).1⟩
  | stop p sent =>
    obtain ⟨plane, hplane, rfl⟩ := stop_cases hstep
    refine ⟨h.schedules, h.keys, ?_, onSchedule_leftBy h hplane sent,
      fun t ht => h.tasks t (mem_deleteWhere.mp ht).1⟩
    intro q plane' hq
    by_cases hsame : q = p
    · rw [hsame] at hq
      dsimp only at hq
      rw [Function.update_self] at hq
      cases hq
    · refine h.planes q plane' ?_
      dsimp only at hq
      rwa [Function.update_of_ne hsame] at hq

theorem floored_start : Floored SyncService.start where
  schedules := fun _ hrow => nomatch hrow
  keys := List.nodup_nil
  planes := fun _ _ hplane => nomatch hplane
  stray := fun _ _ ht => nomatch ht
  tasks := fun _ ht => nomatch ht

/-- In a process, a source has one loop that runs on, the one its map holds, or none. Each loop is
of a source that can be polled, and keeps to the floor. -/
theorem one_loop_per_key {events : List SchedulerEvent} {s : SyncService}
    (hrun : run SyncService.step SyncService.start events = some s) (p : ServerId)
    (key : WorkerKey) :
    liveLoops s.tasks p key = ((armedAt s p key).map (taskOf p key)).toList ∧
      ∀ t ∈ s.tasks, syncIntervalFloorSecs ≤ t.intervalSecs ∧ syncEligible t.key.2 = true := by
  have hwired := run_induction (fun _ _ _ h hstep => wired_step h hstep) wired_start hrun
  have hfloored := run_induction (fun _ _ _ h hstep => floored_step h hstep) floored_start hrun
  exact ⟨hwired.live p key, hfloored.tasks⟩

/-- The events of a toggle that a process serves from its checks to its answer. -/
def served (p : ServerId) (body : SyncToggleBody) (t : SyncToggle) : List SchedulerEvent :=
  [.toggle p t.key.2 body true (.ok ()), .persist p t, .apply p t, .leave p false]

/-- A source is enabled again at another cadence: the task of its first loop has yet to end. -/
theorem enabled_twice_one_loop :
    ∃ s, run SyncService.step SyncService.start
        (.boot 1 true :: (served 1 ⟨7, true, some 120⟩ ⟨(7, "gdrive"), 120, true⟩ ++
          served 1 ⟨7, true, some 60⟩ ⟨(7, "gdrive"), 60, true⟩)) = some s ∧
      s.tasks.length = 2 ∧ (liveLoops s.tasks 1 (7, "gdrive")).length = 1 := by
  have hview : (run SyncService.step SyncService.start
      (.boot 1 true :: (served 1 ⟨7, true, some 120⟩ ⟨(7, "gdrive"), 120, true⟩ ++
        served 1 ⟨7, true, some 60⟩ ⟨(7, "gdrive"), 60, true⟩))).map (fun s =>
          (s.tasks.length, armedAt s 1 (7, "gdrive"))) = some (2, some ⟨1, 60⟩) := by
    decide +kernel
  obtain ⟨s, hs, hread⟩ := Option.map_eq_some_iff.mp hview
  obtain ⟨htasks, harmed⟩ := Prod.mk.inj hread
  refine ⟨s, hs, htasks, ?_⟩
  rw [(one_loop_per_key hs 1 (7, "gdrive")).1, harmed]
  rfl

/-! ## Toggles elsewhere -/

/-- An event that can change the loop of a source in a process: the process boots or stops, its
boot comes to the row of that source, or it applies a toggle of it. -/
def Heeds (p : ServerId) (key : WorkerKey) (s : SyncService) : SchedulerEvent → Prop
  | .boot q _ => q = p
  | .rearm q => q = p ∧ ∃ plane ∈ s.planes p, ∃ row ∈ plane.rearming.head?, row.key = key
  | .apply q t => q = p ∧ t.key = key
  | .stop q _ => q = p
  | _ => False

/-- A loop stays as it is where the step does not heed it. -/
theorem armedAt_step {s s' : SyncService} (hstep : s.step e = some s') {p : ServerId}
    (h : ¬ Heeds p key s e) : armedAt s' p key = armedAt s p key := by
  cases e with
  | boot q listed =>
    obtain ⟨-, rfl⟩ := boot_cases hstep
    rw [armedAt_setPlane, if_neg fun heq => h heq.symm]
  | rearm q =>
    obtain ⟨plane, row, rest, hplane, hrows, rfl⟩ := rearm_cases hstep
    have hother : ¬ (p = q ∧ key = row.key) := by
      rintro ⟨rfl, rfl⟩
      exact h ⟨rfl, plane, hplane, row, by rw [hrows]; rfl, rfl⟩
    rw [armedAt_arm, if_neg hother]
    intro key'
    show armedAt s q key' = plane.loops key'
    exact armedAt_of_plane hplane key'
  | toggle q source body tenantKnown identity =>
    obtain ⟨plane, hplane, -, rfl | ⟨t, -, -, rfl⟩⟩ := toggle_cases hstep
    · rfl
    · exact armedAt_admission hplane _ p key
  | persist q t =>
    obtain ⟨plane, hplane, -, ⟨err, -, rfl⟩ | ⟨rows, row, -, rfl⟩⟩ := persist_cases hstep
    · exact armedAt_admission hplane _ p key
    · exact armedAt_admission hplane _ p key
  | apply q t =>
    obtain ⟨plane, hplane, -, rfl⟩ := apply_cases hstep
    have hother : ¬ (p = q ∧ key = t.key) := fun hsame => h ⟨hsame.1.symm, hsame.2.symm⟩
    have hloops : ∀ key, armedAt s q key =
        { plane with admission := some (t, ToggleStage.applied) }.loops key := by
      intro key'
      show armedAt s q key' = plane.loops key'
      exact armedAt_of_plane hplane key'
    split
    · rw [armedAt_arm hloops, if_neg hother]
    · rw [armedAt_disarm hloops, if_neg hother]
  | leave q sent =>
    obtain ⟨plane, hplane, rfl⟩ := leave_cases hstep
    exact armedAt_admission hplane none p key
  | land q t =>
    obtain ⟨-, ⟨err, -, rfl⟩ | ⟨rows, row, -, rfl⟩⟩ := land_cases hstep
    · rfl
    · rfl
  | exit id' =>
    obtain ⟨-, rfl⟩ := exit_cases hstep
    rfl
  | stop q sent => rw [armedAt_stop hstep, if_neg fun heq => h heq.symm]

/-- A loop that a process has armed runs on as the one loop of its source, whatever the other
processes toggle, until the process applies a toggle of that source, its boot arms the row of that
source, or it ends. -/
theorem loop_outlives_toggles_elsewhere {events events' : List SchedulerEvent} {s s' : SyncService}
    (hrun : run SyncService.step SyncService.start events = some s)
    (hrun' : run SyncService.step s events' = some s') {p : ServerId} {key : WorkerKey}
    {armed : ArmedSchedule} (harmed : armedAt s p key = some armed)
    (hquiet : Along SyncService.step (fun s e => ¬ Heeds p key s e) s events') :
    liveLoops s'.tasks p key = [taskOf p key armed] := by
  have hkept : armedAt s' p key = some armed := by
    refine run_invariant (I := fun s => armedAt s p key = some armed) ?_ harmed hquiet hrun'
    intro s₁ e s₂ hs₁ he hstep
    rw [armedAt_step hstep he]
    exact hs₁
  have hwired := run_induction (fun _ _ _ h hstep => wired_step h hstep) wired_start
    (run_append.mpr ⟨s, hrun, hrun'⟩)
  rw [hwired.live, hkept]
  rfl

/-- A second process disables the source that the first one has enabled. -/
theorem disabled_elsewhere_runs_on :
    ∃ s s', run SyncService.step SyncService.start
        (.boot 1 true :: served 1 ⟨7, true, none⟩ ⟨(7, "gdrive"), 300, true⟩) = some s ∧
      run SyncService.step s
        (.boot 2 false :: served 2 ⟨7, false, none⟩ ⟨(7, "gdrive"), 300, false⟩) = some s' ∧
      s'.schedules = [⟨7, "gdrive", 300, false⟩] ∧
      liveLoops s'.tasks 1 (7, "gdrive") = [⟨0, 1, (7, "gdrive"), 300, false⟩] := by
  have hfirst : (run SyncService.step SyncService.start
      (.boot 1 true :: served 1 ⟨7, true, none⟩ ⟨(7, "gdrive"), 300, true⟩)).map
        (fun s => armedAt s 1 (7, "gdrive")) = some (some ⟨0, 300⟩) := by
    decide +kernel
  have hboth : (run SyncService.step SyncService.start
      ((.boot 1 true :: served 1 ⟨7, true, none⟩ ⟨(7, "gdrive"), 300, true⟩) ++
        (.boot 2 false :: served 2 ⟨7, false, none⟩ ⟨(7, "gdrive"), 300, false⟩))).map
          (fun s => s.schedules) = some [⟨7, "gdrive", 300, false⟩] := by
    decide +kernel
  obtain ⟨s', hrun, hrows⟩ := Option.map_eq_some_iff.mp hboth
  obtain ⟨s, hs, hs'⟩ := run_append.mp hrun
  rw [hs] at hfirst
  refine ⟨s, s', hs, hs', hrows, ?_⟩
  refine loop_outlives_toggles_elsewhere hs hs' (Option.some.inj hfirst) ?_
  refine along_iff_forall_split.mpr ?_
  intro before e after s₁ hsplit _
  have he : e ∈ SchedulerEvent.boot 2 false ::
      served 2 ⟨7, false, none⟩ ⟨(7, "gdrive"), 300, false⟩ := by
    rw [hsplit]
    simp
  simp only [served, List.mem_cons, List.not_mem_nil, or_false] at he
  rcases he with rfl | rfl | rfl | rfl | rfl <;> simp [Heeds]

end Verity.Analysis
