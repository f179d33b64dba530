import Mathlib.Algebra.Ring.Int.Defs
import Verity.Model.BackfillProgress

/-!
# What a history of progress posts leaves

The counts of a run are the sums of what is posted, and its total and its cursor those that were
posted last. Its state is that of the last write, and a post without one writes "running": the
state is the one that was given last exactly if the last write gives one, or that one is running.
-/

set_option autoImplicit false

namespace Verity.Analysis

open Verity.Model

namespace BackfillProgress

/-! ## What a history says -/

/-- The state that a write gives, if it does. -/
def givenState : RunWrite → Option BackfillState
  | .post req => req.state
  | .reconcile _ exit => some exit.state

/-- What of a post is a count, a total or a cursor; a reconcile has none of them. -/
def postOf : RunWrite → Option BackfillProgressRequest
  | .post req => some req
  | .reconcile _ _ => none

/-- The last of the values that some writes give. -/
def lastGiven {α : Type} (given : RunWrite → Option α) (writes : List RunWrite) : Option α :=
  writes.foldl (fun last w => (given w).or last) none

/-- The state that was given last, or that of a run that has just begun. -/
def lastState (writes : List RunWrite) : BackfillState :=
  (lastGiven givenState writes).getD .running

/-- The deltas that are posted, without those below zero. -/
def sumOf (delta : BackfillProgressRequest → I64) (writes : List RunWrite) : Int :=
  (writes.map fun w => ((postOf w).map fun req => max (delta req).val 0).getD 0).sum

/-- The counts of the history fit their columns. -/
def Fits (writes : List RunWrite) : Prop :=
  sumOf (·.processedDelta) writes ≤ maxI64 ∧ sumOf (·.skippedDelta) writes ≤ maxI64

/-- The row is what the history says, but for its state. -/
structure Counts (writes : List RunWrite) (row : BackfillRunRow) : Prop where
  processed : row.processed = sumOf (·.processedDelta) writes
  skipped : row.skipped = sumOf (·.skippedDelta) writes
  total : row.total = lastGiven (fun w => (postOf w).bind (·.total)) writes
  cursor : row.cursor = lastGiven (fun w => (postOf w).bind (·.cursor)) writes

/-! ## One write more -/

section Append

variable (writes : List RunWrite) (w : RunWrite)

theorem lastGiven_append {α : Type} (given : RunWrite → Option α) :
    lastGiven given (writes ++ [w]) = (given w).or (lastGiven given writes) := by
  rw [lastGiven, List.foldl_append]
  rfl

theorem sumOf_append (delta : BackfillProgressRequest → I64) :
    sumOf delta (writes ++ [w]) =
      sumOf delta writes + ((postOf w).map fun req => max (delta req).val 0).getD 0 := by
  rw [sumOf, List.map_append, List.sum_append, List.map_singleton, List.sum_singleton]
  rfl

theorem delta_nonneg (delta : BackfillProgressRequest → I64) :
    0 ≤ ((postOf w).map fun req => max (delta req).val 0).getD 0 := by
  cases w with
  | post req => exact le_max_right _ _
  | reconcile key exit => exact le_refl _

theorem Fits.of_append (h : Fits (writes ++ [w])) : Fits writes := by
  obtain ⟨hprocessed, hskipped⟩ := h
  rw [sumOf_append] at hprocessed hskipped
  have hp := delta_nonneg w (·.processedDelta)
  have hs := delta_nonneg w (·.skippedDelta)
  exact ⟨by omega, by omega⟩

theorem storedRow_append : storedRow (writes ++ [w]) = w.apply (storedRow writes) := by
  rw [storedRow, List.foldl_append]
  rfl

end Append

/-- The first write makes the row. -/
theorem counts_first (w : RunWrite) : ∃ row, storedRow [w] = some row ∧ Counts [w] row ∧
    row.state = (givenState w).getD .running := by
  cases w with
  | post req =>
    refine ⟨req.proposed, rfl, ⟨?_, ?_, ?_, ?_⟩, rfl⟩
    · exact (Int.add_zero _).symm
    · exact (Int.add_zero _).symm
    · exact (Option.or_none).symm
    · exact (Option.or_none).symm
  | reconcile key exit => exact ⟨reconcileRow key exit none, rfl, ⟨rfl, rfl, rfl, rfl⟩, rfl⟩

/-- A write to a row that has the counts of the history so far, if those with the write fit. -/
theorem counts_apply {writes : List RunWrite} {w : RunWrite} {row : BackfillRunRow}
    (hrow : Counts writes row) (hfits : Fits (writes ++ [w])) :
    ∃ row', w.apply (some row) = some row' ∧ Counts (writes ++ [w]) row' ∧
      row'.state = (givenState w).getD .running := by
  cases w with
  | post req =>
    obtain ⟨hprocessed, hskipped⟩ := hfits
    rw [sumOf_append] at hprocessed hskipped
    have hfit : row.processed + req.proposed.processed ≤ maxI64 ∧
        row.skipped + req.proposed.skipped ≤ maxI64 := by
      rw [hrow.processed, hrow.skipped]
      exact ⟨hprocessed, hskipped⟩
    refine ⟨_, by rw [RunWrite.apply, BackfillProgressRequest.recordProgress, if_pos hfit,
      Option.some_or], ⟨?_, ?_, ?_, ?_⟩, rfl⟩
    · rw [sumOf_append, ← hrow.processed]
      rfl
    · rw [sumOf_append, ← hrow.skipped]
      rfl
    · rw [lastGiven_append, ← hrow.total]
      rfl
    · rw [lastGiven_append, ← hrow.cursor]
      rfl
  | reconcile key exit =>
    refine ⟨_, rfl, ⟨?_, ?_, ?_, ?_⟩, rfl⟩
    · rw [sumOf_append, ← hrow.processed]
      exact (Int.add_zero _).symm
    · rw [sumOf_append, ← hrow.skipped]
      exact (Int.add_zero _).symm
    · rw [lastGiven_append, ← hrow.total]
      rfl
    · rw [lastGiven_append, ← hrow.cursor]
      rfl

/-! ## A history -/

/-- What the last write gives for a state. -/
def givenLast (writes : List RunWrite) : Option BackfillState := writes.getLast?.bind givenState

theorem givenLast_append (writes : List RunWrite) (w : RunWrite) :
    givenLast (writes ++ [w]) = givenState w := by
  rw [givenLast, List.getLast?_concat, Option.bind_some]

/-- Where the counts fit, all writes arrive, and the row is what they say but for its state: that is
the state of the last write. -/
theorem counts_storedRow (first : RunWrite) (rest : List RunWrite)
    (hfits : Fits (first :: rest)) : ∃ row, storedRow (first :: rest) = some row ∧
      Counts (first :: rest) row ∧ row.state = (givenLast (first :: rest)).getD .running := by
  induction rest using List.reverseRecOn with
  | nil => exact counts_first first
  | append_singleton rest w ih =>
    rw [← List.cons_append] at hfits ⊢
    obtain ⟨row, hrow, hcounts, -⟩ := ih hfits.of_append
    rw [storedRow_append, hrow, givenLast_append]
    exact counts_apply hcounts hfits

/-- The columns hold what they hold. -/
theorem le_of_storedRow {writes : List RunWrite} {row : BackfillRunRow}
    (h : storedRow writes = some row) : row.processed ≤ maxI64 ∧ row.skipped ≤ maxI64 := by
  have hzero : (0 : Int) ≤ maxI64 := by decide
  have hproposed : ∀ req : BackfillProgressRequest,
      req.proposed.processed ≤ maxI64 ∧ req.proposed.skipped ≤ maxI64 := fun req =>
    ⟨max_le req.processedDelta.2.2 hzero, max_le req.skippedDelta.2.2 hzero⟩
  induction writes using List.reverseRecOn generalizing row with
  | nil => cases h
  | append_singleton writes w ih =>
    rw [storedRow_append] at h
    cases w with
    | post req =>
      rw [RunWrite.apply, Option.or_eq_some_iff] at h
      rcases h with hpost | ⟨-, hkept⟩
      · cases hstored : storedRow writes with
        | none =>
          rw [hstored] at hpost
          obtain rfl := Option.some.inj hpost
          exact hproposed req
        | some before =>
          rw [hstored, BackfillProgressRequest.recordProgress] at hpost
          split at hpost
          · rename_i hfit
            obtain rfl := Option.some.inj hpost
            exact hfit
          · cases hpost
      · exact ih hkept
    | reconcile key exit =>
      obtain rfl := Option.some.inj h
      cases hstored : storedRow writes with
      | none => exact ⟨hzero, hzero⟩
      | some before =>
        have hbefore := ih hstored
        exact hbefore

/-- The row is what the history says, with the state that was given last. -/
def AsPosted (writes : List RunWrite) : Prop :=
  ∃ row, storedRow writes = some row ∧ Counts writes row ∧ row.state = lastState writes

theorem lastState_of_givenLast {writes : List RunWrite} {state : BackfillState}
    (h : givenLast writes = some state) : lastState writes = state := by
  rcases List.eq_nil_or_concat writes with rfl | ⟨front, w, rfl⟩
  · cases h
  · rw [List.concat_eq_append] at h ⊢
    rw [givenLast_append] at h
    rw [lastState, lastGiven_append, h]
    rfl

/-- A history is stored as it was posted exactly if its counts fit and its last write gives a state,
unless the state that was given last is running. -/
theorem as_posted_iff (first : RunWrite) (rest : List RunWrite) :
    AsPosted (first :: rest) ↔
      Fits (first :: rest) ∧
        ((givenLast (first :: rest)).isSome = true ∨ lastState (first :: rest) = .running) := by
  constructor
  · rintro ⟨row, hrow, hcounts, hstate⟩
    obtain ⟨hprocessed, hskipped⟩ := le_of_storedRow hrow
    rw [hcounts.processed] at hprocessed
    rw [hcounts.skipped] at hskipped
    refine ⟨⟨hprocessed, hskipped⟩, ?_⟩
    obtain ⟨row', hrow', -, hlast⟩ := counts_storedRow first rest ⟨hprocessed, hskipped⟩
    obtain rfl := Option.some.inj (hrow'.symm.trans hrow)
    cases hgiven : givenLast (first :: rest) with
    | none =>
      rw [hgiven] at hlast
      exact Or.inr (hstate.symm.trans hlast)
    | some state => exact Or.inl rfl
  · rintro ⟨hfits, hcases⟩
    obtain ⟨row, hrow, hcounts, hlast⟩ := counts_storedRow first rest hfits
    refine ⟨row, hrow, hcounts, ?_⟩
    cases hgiven : givenLast (first :: rest) with
    | none =>
      rw [hgiven] at hlast hcases
      exact hlast.trans (hcases.resolve_left (by simp)).symm
    | some state =>
      rw [hgiven] at hlast
      exact hlast.trans (lastState_of_givenLast hgiven).symm

/-! ## A late post -/

/-- A post of some items, with a state or without one. -/
def itemsPost (state : Option BackfillState) : BackfillProgressRequest where
  tenantId := 1
  source := "gdrive"
  state := state
  total := none
  processedDelta := ⟨40, by decide⟩
  skippedDelta := ⟨0, by decide⟩
  cursor := none
  error := none

def cleanExit : TerminalExit := ⟨some 0, true, 1, "", false⟩

/-- The run is reconciled as completed, and a post that comes late puts it back to running. -/
theorem late_post_reopens :
    ¬∀ (first : RunWrite) (rest : List RunWrite), AsPosted (first :: rest) := by
  intro hall
  obtain ⟨row, hrow, -, hstate⟩ := hall (.post (itemsPost (some .running)))
    [.reconcile (1, "gdrive") cleanExit, .post (itemsPost none)]
  have hstored : (storedRow [.post (itemsPost (some .running)),
      .reconcile (1, "gdrive") cleanExit, .post (itemsPost none)]).map (·.state) =
        some .running := by decide +kernel
  have hlast : lastState [.post (itemsPost (some .running)),
      .reconcile (1, "gdrive") cleanExit, .post (itemsPost none)] = .completed := by
    decide +kernel
  rw [hrow, Option.map_some, Option.some.injEq, hstate, hlast] at hstored
  exact absurd hstored (by decide)

end BackfillProgress

end Verity.Analysis
