import Verity.Foundation.Table
import Verity.Model.ConnectorPlane

/-!
# What the starts and the reaps of a plane do

The steps of the start that holds the admission lock, and of the task that reaps a child, one by
one; and the probe of a slot, that each look for a live child goes through.
-/

set_option autoImplicit false

namespace Verity.Analysis

open Verity.Foundation
open Verity.Model

variable {s s' : ConnectorPlane} {start : Starting} {e : PlaneStep}

/-! ## The probe of a slot -/

/-- The children have pids of their own. -/
def OwnPids (s : ConnectorPlane) : Prop :=
  (s.children.map fun c => c.worker.pid).Nodup

theorem child_eq_of_pid (hpids : OwnPids s) {c c' : Child} (hc : c ∈ s.children)
    (hc' : c' ∈ s.children) (hpid : c.worker.pid = c'.worker.pid) : c = c' :=
  List.inj_on_of_nodup_map hpids hc hc' hpid

theorem find_child (hpids : OwnPids s) {c : Child} (hc : c ∈ s.children) :
    (s.children.find? fun c' => c'.worker.pid = c.worker.pid) = some c := by
  refine find?_unique hc (decide_eq_true rfl) fun c' hc' hpid => ?_
  exact child_eq_of_pid hpids hc' hc (of_decide_eq_true hpid)

theorem exitOf_child (hpids : OwnPids s) {c : Child} (hc : c ∈ s.children) :
    s.exitOf c.worker.pid = c.exit := by
  unfold ConnectorPlane.exitOf
  rw [find_child hpids hc]
  rfl

theorem probe_cases (s : ConnectorPlane) (key : WorkerKey) :
    (s.slot key = none ∧ s.probe key = (s, none)) ∨
      (∃ w, s.slot key = some w ∧ (s.exitOf w.pid).isSome = true ∧
        s.probe key = (s.setSlot key none, none)) ∨
      ∃ w, s.slot key = some w ∧ s.exitOf w.pid = none ∧ s.probe key = (s, some w) := by
  unfold ConnectorPlane.probe
  cases hslot : s.slot key with
  | none => exact Or.inl ⟨rfl, rfl⟩
  | some w =>
    dsimp only
    cases hexit : s.exitOf w.pid with
    | some exit =>
      refine Or.inr (Or.inl ⟨w, rfl, ?_, rfl⟩)
      rw [hexit]
      rfl
    | none => exact Or.inr (Or.inr ⟨w, rfl, hexit, rfl⟩)

theorem slot_setSlot (s : ConnectorPlane) (key : WorkerKey) (w : Option ConnectorWorker) :
    (s.setSlot key w).slot key = w := by
  unfold ConnectorPlane.setSlot
  exact Function.update_self ..

theorem slot_setSlot_of_ne {key key' : WorkerKey} (s : ConnectorPlane)
    (w : Option ConnectorWorker) (h : key' ≠ key) : (s.setSlot key w).slot key' = s.slot key' := by
  unfold ConnectorPlane.setSlot
  exact Function.update_of_ne h ..

/-- A probe that answers no live child leaves the slot empty. -/
theorem slot_probe_of_none {key : WorkerKey} (h : (s.probe key).2 = none) :
    (s.probe key).1.slot key = none := by
  rcases probe_cases s key with ⟨hslot, hprobe⟩ | ⟨w, -, -, hprobe⟩ | ⟨w, -, -, hprobe⟩
  · rw [hprobe]
    exact hslot
  · rw [hprobe]
    exact slot_setSlot s key none
  · rw [hprobe] at h
    cases h

/-- A probe changes nothing but the slot. -/
theorem probe_frame (s : ConnectorPlane) (key : WorkerKey) :
    (s.probe key).1 = { s with slot := (s.probe key).1.slot } := by
  rcases probe_cases s key with ⟨-, hprobe⟩ | ⟨w, -, -, hprobe⟩ | ⟨w, -, -, hprobe⟩
  all_goals rw [hprobe]
  rfl

theorem children_probe (s : ConnectorPlane) (key : WorkerKey) :
    (s.probe key).1.children = s.children := by
  rw [probe_frame]

theorem reaps_probe (s : ConnectorPlane) (key : WorkerKey) : (s.probe key).1.reaps = s.reaps := by
  rw [probe_frame]

theorem starting_probe (s : ConnectorPlane) (key : WorkerKey) :
    (s.probe key).1.starting = s.starting := by
  rw [probe_frame]

/-- Handing out a handle changes nothing but the keys. -/
theorem entry_frame (s : ConnectorPlane) (key : WorkerKey) :
    s.entry key = { s with keys := (s.entry key).keys } := by
  unfold ConnectorPlane.entry
  split
  · rfl
  · rfl

theorem starting_entry (s : ConnectorPlane) (key : WorkerKey) :
    (s.entry key).starting = s.starting := by
  rw [entry_frame]

/-! ## What a start does -/

/-- The start goes on to a point. -/
def reach (s : ConnectorPlane) (start : Starting) (point : StartPoint) : ConnectorPlane :=
  { s with starting := some { start with point := point } }

/-- The worker that a start spawns. -/
def spawnedBy (start : Starting) (pid : Nat) : ConnectorWorker :=
  ⟨pid, start.key.1, start.key.2, start.runId, start.mode⟩

/-- The steps of a start. -/
inductive StartMove (s : ConnectorPlane) (start : Starting) : PlaneStep → ConnectorPlane → Prop
  | ownBusy {w : ConnectorWorker} (hpoint : start.point = .own)
      (hprobe : (s.probe start.key).2 = some w) :
      StartMove s start .checkOwn ((s.probe start.key).1.answer (.error (.alreadyRunning w.pid)))
  | ownFree (hpoint : start.point = .own) (hprobe : (s.probe start.key).2 = none) :
      StartMove s start .checkOwn (reach (s.probe start.key).1 start .others)
  | listed {candidates : List WorkerKey} (hpoint : start.point = .others)
      (hperm : candidates.Perm
        (s.keys.filter fun key => decide (key.2 = start.key.2 ∧ key.1 ≠ start.key.1))) :
      StartMove s start (.snapshot candidates) (reach s start (.elsewhere candidates))
  | elsewhereBusy {key : WorkerKey} {rest : List WorkerKey} {w : ConnectorWorker}
      (hpoint : start.point = .elsewhere (key :: rest)) (hprobe : (s.probe key).2 = some w) :
      StartMove s start .checkElsewhere
        ((s.probe key).1.answer (.error (.sourceBusy key.1 w.pid)))
  | elsewhereFree {key : WorkerKey} {rest : List WorkerKey}
      (hpoint : start.point = .elsewhere (key :: rest)) (hprobe : (s.probe key).2 = none) :
      StartMove s start .checkElsewhere (reach (s.probe key).1 start (.elsewhere rest))
  | refused {msg : String} (hpoint : start.point = .elsewhere []) :
      StartMove s start (.spawn (.error msg)) (s.answer (.error (.refused msg)))
  | spawned {pid : Nat} (hpoint : start.point = .elsewhere [])
      (hnew : ∀ c ∈ s.children, c.worker.pid ≠ pid) :
      StartMove s start (.spawn (.ok pid))
        (reach { s with children := s.children ++ [⟨spawnedBy start pid, none⟩] } start
          (.inserting (spawnedBy start pid)))
  | inserted {w : ConnectorWorker} (hpoint : start.point = .inserting w) :
      StartMove s start .insert
        (ConnectorPlane.answer { s.setSlot start.key (some w) with
          reaps := s.reaps ++ [⟨start.key, w.pid, .polling⟩] } (.ok w.pid))

/-- What a step of a start can be. -/
theorem startMove_of_startStep (h : s.startStep start e = some s') : StartMove s start e s' := by
  unfold ConnectorPlane.startStep at h
  cases e with
  | checkOwn =>
    dsimp only at h
    split at h
    · rename_i hpoint
      split at h
      · rename_i w hprobe
        cases h
        exact .ownBusy hpoint hprobe
      · rename_i hprobe
        cases h
        exact .ownFree hpoint hprobe
    · cases h
  | snapshot candidates =>
    dsimp only at h
    split at h
    · rename_i hpoint
      split at h
      · rename_i hperm
        cases h
        exact .listed hpoint hperm
      · cases h
    · cases h
  | checkElsewhere =>
    dsimp only at h
    split at h
    · rename_i key rest hpoint
      split at h
      · rename_i w hprobe
        cases h
        exact .elsewhereBusy hpoint hprobe
      · rename_i hprobe
        cases h
        exact .elsewhereFree hpoint hprobe
    · cases h
  | spawn spawned =>
    dsimp only at h
    split at h
    · rename_i hpoint
      cases spawned with
      | error msg =>
        cases h
        exact .refused hpoint
      | ok pid =>
        dsimp only at h
        split at h
        · cases h
        · rename_i hused
          cases h
          refine .spawned hpoint fun c hc hpid => hused ?_
          exact List.any_eq_true.mpr ⟨c, hc, decide_eq_true hpid⟩
    · cases h
  | insert =>
    dsimp only at h
    split at h
    · rename_i w hpoint
      cases h
      exact .inserted hpoint
    · cases h
  | _ => cases h

/-! ## What a reap does -/

/-- The steps of the task that reaps a child. -/
inductive ReapMove (s : ConnectorPlane) (i : Nat) (r : Reap) : PlaneStep → ConnectorPlane → Prop
  | gone {j : Nat} {now : Time} (hphase : r.phase = .polling)
      (hslot : ∀ w, s.slot r.key = some w → w.pid ≠ r.pid) :
      ReapMove s i r (.poll j now) (s.setReap i r .ended)
  | running {j : Nat} {now : Time} : ReapMove s i r (.poll j now) s
  | exited {j : Nat} {now : Time} {w : ConnectorWorker} {exit : ChildExit}
      (hphase : r.phase = .polling) (hslot : s.slot r.key = some w) (hpid : w.pid = r.pid)
      (hexit : s.exitOf w.pid = some exit) :
      ReapMove s i r (.poll j now)
        ((s.setSlot r.key none).setReap i r (.exited w (exit.terminal now)))
  | reconciled {j : Nat} {w : ConnectorWorker} {terminal : TerminalExit}
      (hphase : r.phase = .exited w terminal) (hmode : w.mode = .backfill) :
      ReapMove s i r (.reconcile j)
        (ConnectorPlane.setReap { s with
          runs := Function.update s.runs w.runId
            (some (reconcileTerminal r.key terminal (s.runs w.runId))) }
          i r (.reconciled w terminal))
  | passed {j : Nat} {w : ConnectorWorker} {terminal : TerminalExit}
      (hphase : r.phase = .exited w terminal) (hmode : w.mode ≠ .backfill) :
      ReapMove s i r (.reconcile j) (s.setReap i r (.reconciled w terminal))
  | recorded {j : Nat} {w : ConnectorWorker} {terminal : TerminalExit}
      (hphase : r.phase = .reconciled w terminal) :
      ReapMove s i r (.record j)
        (ConnectorPlane.setReap { s with lastExits := (r.key, terminal) :: s.lastExits }
          i r .ended)

/-- What a step of a reap can be. -/
theorem reapMove_of_reapStep {i : Nat} {r : Reap} (h : s.reapStep i r e = some s') :
    ReapMove s i r e s' := by
  unfold ConnectorPlane.reapStep at h
  cases e with
  | poll j now =>
    dsimp only at h
    split at h
    · rename_i hphase
      split at h
      · rename_i hslot
        cases h
        refine .gone hphase fun w hw => ?_
        rw [hslot] at hw
        cases hw
      · rename_i w hslot
        split at h
        · rename_i hpid
          cases h
          refine .gone hphase fun w' hw' => ?_
          rw [hslot] at hw'
          cases hw'
          exact hpid
        · rename_i hpid
          split at h
          · cases h
            exact .running
          · rename_i exit hexit
            cases h
            exact .exited hphase hslot (not_not.mp hpid) hexit
    · cases h
  | reconcile j =>
    dsimp only at h
    split at h
    · rename_i w terminal hphase
      cases h
      by_cases hmode : w.mode = .backfill
      · rw [if_pos hmode]
        exact .reconciled hphase hmode
      · rw [if_neg hmode]
        exact .passed hphase hmode
    · cases h
  | record j =>
    dsimp only at h
    split at h
    · rename_i w terminal hphase
      cases h
      exact .recorded hphase
    · cases h
  | _ => cases h

end Verity.Analysis
