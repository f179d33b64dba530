import Verity.Model.BackfillProgress

/-!
# Whose signal a badge shows

A reap looks for the signal in all of the log, and the log is that of all backfills of the source so
far. The badge of a backfill is its own exactly if it has printed the signal, or none of the
backfills of the source before it has and the log was without it at the start.
-/

set_option autoImplicit false

namespace Verity.Analysis

open Verity.Model

namespace BackfillBadge

/-! ## The lines of a log -/

theorem linesFrom_newline (current rest : List Char) :
    linesFrom current ('\n' :: rest) = lineOf current :: linesFrom [] rest := by
  cases current <;> rw [linesFrom]

theorem linesFrom_cons {c : Char} (hc : c ≠ '\n') (current rest : List Char) :
    linesFrom current (c :: rest) = linesFrom (c :: current) rest := by
  cases current with
  | nil =>
    rw [linesFrom]
    exact hc
  | cons d current =>
    rw [linesFrom]
    exact hc

theorem linesFrom_append (current front back : List Char) :
    linesFrom current (front ++ '\n' :: back) =
      linesFrom current (front ++ ['\n']) ++ linesFrom [] back := by
  induction front generalizing current with
  | nil =>
    rw [List.nil_append, List.nil_append, linesFrom_newline, linesFrom_newline]
    rfl
  | cons c front ih =>
    by_cases hc : c = '\n'
    · rw [hc, List.cons_append, List.cons_append, linesFrom_newline, linesFrom_newline, ih,
        List.cons_append]
    · rw [List.cons_append, List.cons_append, linesFrom_cons hc, linesFrom_cons hc, ih]

theorem lines_append (log more : LogText) : (log.append more).lines = log.lines ++ more.lines := by
  change textLines (log.text ++ more.text) = textLines log.text ++ textLines more.text
  rcases log.whole with hnil | hlast
  · rw [hnil]
    rfl
  · obtain ⟨front, hfront⟩ := List.getLast?_eq_some_iff.mp hlast
    rw [hfront, List.append_assoc]
    exact linesFrom_append [] front more.text

/-- The signal is on a line of the log. -/
def signals (log : LogText) : Bool := logSignalsDegradedAcl (some log.lines)

theorem signals_append (log more : LogText) :
    signals (log.append more) = (signals log || signals more) := by
  rw [signals, lines_append, signals, signals, logSignalsDegradedAcl, logSignalsDegradedAcl,
    logSignalsDegradedAcl, Option.getD_some, Option.getD_some, Option.getD_some, List.any_append]

/-- A backfill that has printed the signal. -/
def prints (r : CleanRun) : Bool := signals r.output

/-- The log of a source has the signal; a missing log has none. -/
def signalled (h : BackfillHost) (source : String) : Bool :=
  logSignalsDegradedAcl ((h.logs (SpawnMode.backfill.logName source)).map LogText.lines)

theorem logName_inj {source source' : String}
    (h : SpawnMode.backfill.logName source = SpawnMode.backfill.logName source') :
    source = source' := by
  simpa [SpawnMode.logName, String.append_left_inj] using h

/-! ## A run -/

section Run

variable (h : BackfillHost) (r : CleanRun)

theorem logs_posted : (h.posted r).logs = h.logs := by
  rw [BackfillHost.posted]
  induction r.posts generalizing h with
  | nil => rfl
  | cons post posts ih => exact ih _

/-- The log as the reap reads it: what was there, and what the run has printed. -/
theorem logs_runBackfill : (h.runBackfill r).logs = Function.update h.logs r.logName
    (some (((h.logs r.logName).getD .empty).append r.output)) := by
  rw [BackfillHost.runBackfill, BackfillHost.reap, logs_posted]
  funext name
  by_cases hname : name = r.logName
  · subst hname
    simp [BackfillHost.print, BackfillHost.openBackfillLog]
  · simp [BackfillHost.print, BackfillHost.openBackfillLog, hname]

/-- The signal stays in a log, and a run adds its own. -/
theorem signalled_runBackfill (source : String) :
    signalled (h.runBackfill r) source =
      (signalled h source || (decide (r.source = source) && prints r)) := by
  by_cases hsource : r.source = source
  · subst hsource
    have hlog : signalled h r.source = signals ((h.logs r.logName).getD .empty) := by
      rw [signalled, signals]
      change logSignalsDegradedAcl ((h.logs r.logName).map LogText.lines) = _
      cases h.logs r.logName <;> rfl
    rw [hlog, decide_eq_true rfl, Bool.true_and, prints, ← signals_append, signalled,
      logs_runBackfill]
    change logSignalsDegradedAcl ((Function.update h.logs r.logName _ r.logName).map _) = _
    rw [Function.update_self]
    rfl
  · have hname : SpawnMode.backfill.logName source ≠ r.logName :=
      fun heq => hsource (logName_inj heq).symm
    rw [decide_eq_false hsource, Bool.false_and, Bool.or_false, signalled, signalled,
      logs_runBackfill, Function.update_of_ne hname]

theorem state_reconcileTerminal (key : WorkerKey) (exit : TerminalExit)
    (row : Option BackfillRun) : (reconcileTerminal key exit row).state = exit.state := by
  cases row <;> rfl

/-- What a reap makes of a clean exit goes by the log alone. -/
theorem state_exitOf (name : String) (now : Time) :
    ((h.exitOf name).terminal now).state =
      if logSignalsDegradedAcl ((h.logs name).map LogText.lines) then .degradedAcl
      else .completed := by
  simp [TerminalExit.state, BackfillHost.exitOf, ChildExit.terminal]

/-- The state of a backfill after its reap. -/
theorem state_runBackfill : ∃ row, (h.runBackfill r).runs r.runId = some row ∧
    row.state = if signalled h r.source || prints r then .degradedAcl else .completed := by
  have hread := signalled_runBackfill h r r.source
  rw [decide_eq_true rfl, Bool.true_and] at hread
  rw [← hread]
  refine ⟨_, Function.update_self _ _ _, ?_⟩
  rw [state_reconcileTerminal, state_exitOf]
  rfl

end Run

/-! ## A history of runs -/

/-- The backfills one after another. -/
def runBackfills (h : BackfillHost) (rs : List CleanRun) : BackfillHost :=
  rs.foldl BackfillHost.runBackfill h

/-- A backfill of the source among them has printed the signal. -/
def printed (rs : List CleanRun) (source : String) : Bool :=
  rs.any fun r => decide (r.source = source) && prints r

theorem signalled_runBackfills (h : BackfillHost) (rs : List CleanRun) (source : String) :
    signalled (runBackfills h rs) source = (signalled h source || printed rs source) := by
  induction rs generalizing h with
  | nil => exact (Bool.or_false _).symm
  | cons r rs ih =>
    rw [runBackfills, List.foldl_cons]
    refine (ih (h.runBackfill r)).trans ?_
    rw [signalled_runBackfill, printed, printed, List.any_cons, Bool.or_assoc]

/-- A backfill behind others is reconciled as degraded exactly if it has printed the signal. -/
def OwnBadge (h : BackfillHost) (earlier : List CleanRun) (r : CleanRun) : Prop :=
  ∃ row, (runBackfills h (earlier ++ [r])).runs r.runId = some row ∧
    (row.state = .degradedAcl ↔ prints r = true)

/-- The badge is a backfill's own exactly if it has printed the signal, or nothing that is in the
log before it has. -/
theorem badge_own_iff (h : BackfillHost) (earlier : List CleanRun) (r : CleanRun) :
    OwnBadge h earlier r ↔
      prints r = true ∨
        (signalled h r.source = false ∧
          ∀ e ∈ earlier, e.source = r.source → prints e = false) := by
  obtain ⟨row, hrow, hstate⟩ := state_runBackfill (runBackfills h earlier) r
  have hrun : runBackfills h (earlier ++ [r]) = (runBackfills h earlier).runBackfill r := by
    rw [runBackfills, List.foldl_append]
    rfl
  have hdegraded : row.state = .degradedAcl ↔
      signalled (runBackfills h earlier) r.source = true ∨ prints r = true := by
    rw [hstate]
    split
    · rename_i hread
      exact iff_of_true rfl (Bool.or_eq_true_iff.mp hread)
    · rename_i hread
      exact iff_of_false BackfillState.noConfusion fun hor => hread (Bool.or_eq_true_iff.mpr hor)
  have hbefore : signalled (runBackfills h earlier) r.source = false ↔
      signalled h r.source = false ∧ ∀ e ∈ earlier, e.source = r.source → prints e = false := by
    rw [signalled_runBackfills, Bool.or_eq_false_iff, printed, List.any_eq_false]
    simp
  rw [← hbefore]
  constructor
  · rintro ⟨row', hrow', hown⟩
    rw [hrun, hrow, Option.some.injEq] at hrow'
    subst hrow'
    by_cases hprints : prints r = true
    · exact Or.inl hprints
    · refine Or.inr ?_
      by_contra hsignalled
      rw [Bool.not_eq_false] at hsignalled
      exact hprints (hown.mp (hdegraded.mpr (Or.inl hsignalled)))
  · intro hcases
    refine ⟨row, hrun ▸ hrow, hdegraded.trans ?_⟩
    rcases hcases with hprints | hquiet
    · exact iff_of_true (Or.inr hprints) hprints
    · rw [hquiet]
      simp

/-! ## Two tenants -/

/-- A host before any backfill. -/
def freshHost : BackfillHost := ⟨fun _ => none, fun _ => none⟩

/-- A crawl that had to coarsen what it delivers. -/
def coarsenedCrawl : CleanRun where
  pid := 1
  tenantId := 1
  source := "hubspot"
  runId := 1
  posts := []
  output := ⟨"verity.backfill.degraded_acl\n".toList, Or.inr (by decide)⟩
  reapedAt := 1

/-- A crawl for another tenant, with nothing to report. -/
def cleanCrawl : CleanRun where
  pid := 2
  tenantId := 2
  source := "hubspot"
  runId := 2
  posts := []
  output := ⟨"backfill delivered 12\n".toList, Or.inr (by decide)⟩
  reapedAt := 2

/-- The second crawl does not print the signal, and is degraded by that of the first. -/
theorem clean_crawl_degraded :
    ¬∀ (earlier : List CleanRun) (r : CleanRun), OwnBadge freshHost earlier r := by
  intro hall
  obtain ⟨row, hrow, hown⟩ := hall [coarsenedCrawl] cleanCrawl
  have hstate : ((runBackfills freshHost [coarsenedCrawl, cleanCrawl]).runs 2).map
      BackfillRun.state = some .degradedAcl := by decide +kernel
  have hquiet : prints cleanCrawl = false := by decide +kernel
  have hrow' : (runBackfills freshHost [coarsenedCrawl, cleanCrawl]).runs 2 = some row := hrow
  rw [hrow', Option.map_some, Option.some.injEq] at hstate
  rw [hown.mp hstate] at hquiet
  exact absurd hquiet (by decide)

end BackfillBadge

end Verity.Analysis
