import Verity.Analysis.OneCrawl

/-!
# Which finished backfills are reconciled

The reap of a backfill reads the exit of its child from the slot, so it has something to record only
if it is the first to see that the child has ended. A status, or a check of a start, that is there
before it clears the slot, and the reap then ends without a word. Where none of them comes to a slot
between the end of its backfill and the poll of the reap, every finished backfill is reconciled.
-/

set_option autoImplicit false

namespace Verity.Analysis

open Verity.Foundation
open Verity.Model

variable {s s' : ConnectorPlane} {start : Starting} {e : PlaneStep}

variable {key : WorkerKey} {phase : ReapPhase} {t : ConnectorPlane} {a : Except SpawnError Nat}

/-- The states that a run does not leave by itself. -/
def terminalState : BackfillState → Bool
  | .running | .paused => false
  | .completed | .failed | .degradedAcl => true

def RowTerminal (s : ConnectorPlane) (runId : Nat) : Prop :=
  ∃ row, s.runs runId = some row ∧ terminalState row.state = true

/-- The terminal exit is the one that a reap reads off the child. -/
def EndedWith (c : Child) (terminal : TerminalExit) : Prop :=
  ∃ exit now, c.exit = some exit ∧ terminal = exit.terminal now

/-- The backfills whose reap has ended: the exit of the child was put into `last_exit`, which holds
it when the reap ends, and the row of the run is in a terminal state. -/
structure BackfillsReconciled (s : ConnectorPlane) : Prop where
  recorded : ∀ r ∈ s.reaps, r.phase = .ended → ∀ c ∈ s.children, c.worker.pid = r.pid →
    c.worker.mode = .backfill → c.exit ≠ none →
      (∃ terminal, EndedWith c terminal ∧ (c.worker.key, terminal) ∈ s.lastExits) ∧
        RowTerminal s c.worker.runId
  held : ∀ i r e s', s.reaps[i]? = some r → s.reapStep i r e = some s' → r.phase ≠ .ended →
    s'.reaps[i]?.map Reap.phase = some .ended → ∀ c ∈ s.children, c.worker.pid = r.pid →
      c.worker.mode = .backfill → c.exit ≠ none →
        ∃ terminal, EndedWith c terminal ∧ s'.lastExits.lookup c.worker.key = some terminal

/-- The slot holds a backfill that has ended. -/
def awaitsReap (s : ConnectorPlane) (key : WorkerKey) : Bool :=
  (s.slot key).any fun w => decide (w.mode = .backfill) && (s.exitOf w.pid).isSome

/-- The slot that an event other than those of a reap looks into for a live child. -/
def probed (s : ConnectorPlane) : PlaneStep → Option WorkerKey
  | .status key => some key
  | .checkOwn => s.starting.map Starting.key
  | .checkElsewhere =>
    s.starting.bind fun start =>
      match start.point with
      | .elsewhere candidates => candidates.head?
      | _ => none
  | _ => none

/-- The reap of a backfill that has ended is not forestalled. -/
def Unforestalled (s : ConnectorPlane) (e : PlaneStep) : Prop :=
  ∀ key ∈ probed s e, awaitsReap s key = false

instance (s : ConnectorPlane) (e : PlaneStep) : Decidable (Unforestalled s e) := by
  unfold Unforestalled
  infer_instance

def isStop : PlaneStep → Bool
  | .stop _ => true
  | _ => false

/-! ## What the reap of a backfill has to go by -/

/-- How a reap stands to its child, a backfill. -/
def GoesBy (s : ConnectorPlane) (c : Child) (key : WorkerKey) : ReapPhase → Prop
  | .polling => s.slot key = some c.worker
  | .exited w terminal => w = c.worker ∧ EndedWith c terminal
  | .reconciled w terminal => w = c.worker ∧ EndedWith c terminal ∧ RowTerminal s c.worker.runId
  | .ended =>
    ∃ terminal, EndedWith c terminal ∧ (key, terminal) ∈ s.lastExits ∧
      RowTerminal s c.worker.runId

/-- What happens takes nothing away from the reap of a child. -/
structure Spares (s s' : ConnectorPlane) (key : WorkerKey) (c c' : Child) : Prop where
  worker : c'.worker = c.worker
  exit : c.exit ≠ none → c' = c
  slot : s.slot key = some c.worker → s'.slot key = some c.worker
  row : c.exit ≠ none → RowTerminal s c.worker.runId → RowTerminal s' c.worker.runId
  lastExits : ∀ x ∈ s.lastExits, x ∈ s'.lastExits

/-- What happens takes nothing away from any reap of a backfill. -/
def Spared (s s' : ConnectorPlane) : Prop :=
  ∀ c ∈ s.children, ∃ c' ∈ s'.children, c'.worker = c.worker ∧
    (c.worker.mode = .backfill → ∀ key, Spares s s' key c c')

theorem Spares.goesBy {c c' : Child} (h : Spares s s' key c c') (ht : GoesBy s c key phase) :
    GoesBy s' c' key phase := by
  have hended : ∀ terminal, EndedWith c terminal → c.exit ≠ none := by
    rintro terminal ⟨exit, now, hexit, -⟩
    rw [hexit]
    exact Option.some_ne_none exit
  cases phase with
  | polling => exact (h.slot ht).trans (congrArg some h.worker.symm)
  | exited w terminal =>
    obtain ⟨hw, hexit⟩ := ht
    rw [h.exit (hended terminal hexit)]
    exact ⟨hw, hexit⟩
  | reconciled w terminal =>
    obtain ⟨hw, hexit, hrow⟩ := ht
    rw [h.exit (hended terminal hexit)]
    exact ⟨hw, hexit, h.row (hended terminal hexit) hrow⟩
  | ended =>
    obtain ⟨terminal, hexit, hlast, hrow⟩ := ht
    rw [h.exit (hended terminal hexit)]
    exact ⟨terminal, hexit, h.lastExits _ hlast, h.row (hended terminal hexit) hrow⟩

/-- A reap has the child it was started for, and if that is a backfill goes by it. -/
def Attends (s : ConnectorPlane) (r : Reap) : Prop :=
  ∃ c ∈ s.children, c.worker.pid = r.pid ∧ c.worker.key = r.key ∧
    (c.worker.mode = .backfill → GoesBy s c r.key r.phase)

theorem attends_of_spares {r : Reap} (hr : Attends s r)
    (h : ∀ c ∈ s.children, c.worker.pid = r.pid →
      ∃ c' ∈ s'.children, c'.worker = c.worker ∧
        (c.worker.mode = .backfill → Spares s s' r.key c c')) : Attends s' r := by
  obtain ⟨c, hc, hpid, hkey, hgoes⟩ := hr
  obtain ⟨c', hc', hworker, hspares⟩ := h c hc hpid
  refine ⟨c', hc', ?_, ?_, fun hmode => ?_⟩
  · rw [hworker, hpid]
  · rw [hworker, hkey]
  · rw [hworker] at hmode
    exact (hspares hmode).goesBy (hgoes hmode)

structure ReapInvariant (s : ConnectorPlane) : Prop where
  crawl : CrawlInvariant s
  runIds : (s.children.map fun c => c.worker.runId).Nodup
  unused : ∀ start, s.starting = some start → BeforeSpawn start.point →
    ∀ c ∈ s.children, c.worker.runId ≠ start.runId
  reapPids : (s.reaps.map Reap.pid).Nodup
  attends : ∀ r ∈ s.reaps, Attends s r
  unreaped : ∀ w, Inserting s w → ∀ r ∈ s.reaps, r.pid ≠ w.pid

/-! ## The events -/

theorem rowTerminal_update {runId runId' : Nat} {row : BackfillRun}
    (h : runId' = runId → terminalState row.state = true) (hrow : RowTerminal s runId') :
    RowTerminal { s with runs := Function.update s.runs runId (some row) } runId' := by
  by_cases hsame : runId' = runId
  · refine ⟨row, ?_, h hsame⟩
    rw [hsame]
    exact Function.update_self ..
  · obtain ⟨row', hrow', hstate⟩ := hrow
    refine ⟨row', ?_, hstate⟩
    exact (Function.update_of_ne hsame ..).trans hrow'

theorem terminalState_reconcileTerminal (key : WorkerKey) (exit : TerminalExit)
    (row : Option BackfillRun) : terminalState (reconcileTerminal key exit row).state = true := by
  have hexit : terminalState exit.state = true := by
    unfold TerminalExit.state
    split
    · rfl
    · split
      · rfl
      · rfl
  unfold reconcileTerminal
  cases row with
  | none => exact hexit
  | some row => exact hexit

/-- The start that holds the admission lock, if one does, held it before, and has spawned no worker
since. -/
def Continues (s s' : ConnectorPlane) : Prop :=
  ∀ start', s'.starting = some start' → ∃ start, s.starting = some start ∧
    start.runId = start'.runId ∧ (BeforeSpawn start'.point → BeforeSpawn start.point) ∧
      ∀ w, start'.point = .inserting w → start.point = .inserting w

theorem continues_same (h : s'.starting = s.starting) : Continues s s' := by
  intro start' hstart'
  exact ⟨start', h.symm.trans hstart', rfl, id, fun _ => id⟩

theorem continues_reach {point : StartPoint} (hstart : s.starting = some start)
    (hbefore : BeforeSpawn start.point) (hpoint : BeforeSpawn point) :
    Continues s (reach t start point) := by
  intro start' hstart'
  cases hstart'
  refine ⟨start, hstart, rfl, fun _ => hbefore, fun w hw => ?_⟩
  rw [show point = .inserting w from hw] at hpoint
  exact hpoint.elim

theorem continues_answer : Continues s (t.answer a) := by
  intro start' hstart'
  cases hstart'

/-- An event that starts no reap and spawns no child. -/
theorem ReapInvariant.of_spares (hs : ReapInvariant s) (hcrawl : CrawlInvariant s')
    (hworkers : s'.children.map Child.worker = s.children.map Child.worker)
    (hreaps : s'.reaps = s.reaps)
    (hspares : Spared s s') (hstarting : Continues s s') : ReapInvariant s' where
  crawl := hcrawl
  runIds := by
    have hsame := congrArg (List.map ConnectorWorker.runId) hworkers
    rw [List.map_map, List.map_map] at hsame
    exact Eq.subst (motive := List.Nodup) hsame.symm hs.runIds
  unused start' hstart' hbefore c' hc' := by
    obtain ⟨start, hstart, hrunId, hback, -⟩ := hstarting start' hstart'
    have hmem := List.mem_map_of_mem (f := Child.worker) hc'
    rw [hworkers] at hmem
    obtain ⟨c, hc, hworker⟩ := List.mem_map.mp hmem
    rw [← hworker, ← hrunId]
    exact hs.unused start hstart (hback hbefore) c hc
  reapPids := by
    rw [hreaps]
    exact hs.reapPids
  attends r hr := by
    rw [hreaps] at hr
    refine attends_of_spares (hs.attends r hr) fun c hc _ => ?_
    obtain ⟨c', hc', hworker, h⟩ := hspares c hc
    exact ⟨c', hc', hworker, fun hmode => h hmode r.key⟩
  unreaped w hins r hr := by
    rw [hreaps] at hr
    obtain ⟨start', hstart', hpoint⟩ := hins
    obtain ⟨start, hstart, -, -, hsame⟩ := hstarting start' hstart'
    exact hs.unreaped w ⟨start, hstart, hsame w hpoint⟩ r hr

theorem spares_same {c : Child} (hslot : s.slot key = some c.worker → s'.slot key = some c.worker)
    (hruns : s'.runs = s.runs) (hlast : s'.lastExits = s.lastExits) : Spares s s' key c c where
  worker := rfl
  exit _ := rfl
  slot := hslot
  row _ hrow := by
    unfold RowTerminal
    rw [hruns]
    exact hrow
  lastExits := by
    rw [hlast]
    exact fun _ => id

theorem Spared.congr (h : Spared s t) (hchildren : s'.children = t.children)
    (hslot : s'.slot = t.slot) (hruns : s'.runs = t.runs) (hlast : s'.lastExits = t.lastExits) :
    Spared s s' := by
  intro c hc
  obtain ⟨c', hc', hworker, hspares⟩ := h c hc
  refine ⟨c', hchildren ▸ hc', hworker, fun hmode key => ?_⟩
  have h := hspares hmode key
  constructor
  case worker => exact h.worker
  case exit => exact h.exit
  case slot =>
    rw [hslot]
    exact h.slot
  case row =>
    unfold RowTerminal
    rw [hruns]
    exact h.row
  case lastExits =>
    rw [hlast]
    exact h.lastExits

theorem spared_refl (s : ConnectorPlane) : Spared s s :=
  fun c hc => ⟨c, hc, rfl, fun _ _ => spares_same id rfl rfl⟩

theorem spared_endChild (s : ConnectorPlane) (pid : Nat) (exit : ChildExit) :
    Spared s (s.endChild pid exit) := by
  intro c hc
  refine ⟨_, List.mem_map_of_mem hc, ?_, fun _ key => ?_⟩
  · split
    · rfl
    · rfl
  · constructor
    case worker =>
      split
      · rfl
      · rfl
    case exit =>
      intro hexit
      obtain ⟨exit', hexit'⟩ := Option.ne_none_iff_exists'.mp hexit
      split
      · exact congrArg (Child.mk c.worker) (by rw [hexit']; rfl)
      · rfl
    case slot => exact id
    case row => exact fun _ => id
    case lastExits => exact fun _ => id

/-- A live child posts to no row but that of its own run. -/
theorem spared_post (hrunIds : (s.children.map fun c => c.worker.runId).Nodup) {live : Child}
    (hlive : live ∈ s.children) (hexit : live.exit = none) (row : BackfillRun) :
    Spared s { s with runs := Function.update s.runs live.worker.runId (some row) } := by
  intro c hc
  refine ⟨c, hc, rfl, fun _ key => ?_⟩
  have hsame : Spares s s key c c := spares_same id rfl rfl
  refine { hsame with row := fun hended hrow => ?_ }
  refine rowTerminal_update (fun hrunId => ?_) hrow
  rw [List.inj_on_of_nodup_map hrunIds hc hlive hrunId] at hended
  exact absurd hexit hended

/-- A probe clears no slot of a backfill but one that awaits its reap. -/
theorem spared_probe (hreap : awaitsReap s key = false) : Spared s (s.probe key).1 := by
  rcases probe_cases s key with ⟨-, hprobe⟩ | ⟨w, hslot, hexit, hprobe⟩ | ⟨w, -, -, hprobe⟩
  · rw [hprobe]
    exact spared_refl s
  · rw [hprobe]
    refine fun c hc => ⟨c, hc, rfl, fun hmode key' => spares_same (fun hw => ?_) rfl rfl⟩
    by_cases hkey : key' = key
    · rw [hkey, hslot] at hw
      obtain rfl := Option.some.inj hw
      unfold awaitsReap at hreap
      rw [hslot, Option.any_some, decide_eq_true hmode, hexit] at hreap
      cases hreap
    · rwa [slot_setSlot_of_ne s none hkey]
  · rw [hprobe]
    exact spared_refl s

/-! ## The starts -/

section Start

variable (hs : ReapInvariant s) (hstart : s.starting = some start)

include hs hstart

/-- A child that a start spawns. -/
theorem reapInvariant_spawned {pid : Nat} (hbefore : BeforeSpawn start.point)
    (hnew : ∀ c ∈ s.children, c.worker.pid ≠ pid) (hcrawl : CrawlInvariant
      (reach { s with children := s.children ++ [⟨spawnedBy start pid, none⟩] } start
        (.inserting (spawnedBy start pid)))) :
    ReapInvariant (reach { s with children := s.children ++ [⟨spawnedBy start pid, none⟩] } start
      (.inserting (spawnedBy start pid))) where
  crawl := hcrawl
  runIds := by
    unfold reach
    rw [List.map_append, List.map_singleton]
    refine List.Nodup.append hs.runIds (List.nodup_singleton _) ?_
    rw [List.disjoint_singleton]
    intro hmem
    obtain ⟨c, hc, hrunId⟩ := List.mem_map.mp hmem
    exact hs.unused start hstart hbefore c hc hrunId
  unused start' hstart' hafter := by
    cases hstart'
    exact hafter.elim
  reapPids := hs.reapPids
  attends r hr := by
    refine attends_of_spares (hs.attends r hr) fun c hc _ => ?_
    exact ⟨c, List.mem_append_left _ hc, rfl, fun _ => spares_same id rfl rfl⟩
  unreaped w hins r hr := by
    obtain ⟨start', hstart', hpoint⟩ := hins
    cases hstart'
    obtain rfl := StartPoint.inserting.inj hpoint
    obtain ⟨c, hc, hpid, -⟩ := hs.attends r hr
    rw [← hpid]
    exact hnew c hc

/-- The reap of a child that is put into its slot. -/
theorem reapInvariant_inserted {w : ConnectorWorker} (hpoint : start.point = .inserting w)
    (hcrawl : CrawlInvariant (ConnectorPlane.answer { s.setSlot start.key (some w) with
      reaps := s.reaps ++ [⟨start.key, w.pid, .polling⟩] } a)) :
    ReapInvariant (ConnectorPlane.answer { s.setSlot start.key (some w) with
      reaps := s.reaps ++ [⟨start.key, w.pid, .polling⟩] } a) := by
  have hreached := (hs.crawl.started start hstart).2
  rw [hpoint] at hreached
  obtain ⟨hempty, hw, c, hc, rfl⟩ := hreached
  have hslots : ∀ key w', s.slot key = some w' →
      (s.setSlot start.key (some c.worker)).slot key = some w' := by
    intro key w' hslot
    refine (slot_setSlot_of_ne s _ fun hkey => ?_).trans hslot
    rw [hkey, hempty] at hslot
    cases hslot
  constructor
  case crawl => exact hcrawl
  case runIds => exact hs.runIds
  case unused =>
    intro start' hstart'
    cases hstart'
  case reapPids =>
    unfold ConnectorPlane.answer
    rw [List.map_append, List.map_singleton]
    refine List.Nodup.append hs.reapPids (List.nodup_singleton _) ?_
    rw [List.disjoint_singleton]
    intro hmem
    obtain ⟨r, hr, hpid⟩ := List.mem_map.mp hmem
    exact hs.unreaped c.worker ⟨start, hstart, hpoint⟩ r hr hpid
  case attends =>
    intro r hr
    rcases List.mem_append.mp hr with hr | hr
    · refine attends_of_spares (hs.attends r hr) fun c' hc' _ => ?_
      exact ⟨c', hc', rfl, fun _ => spares_same (hslots r.key c'.worker) rfl rfl⟩
    · obtain rfl := List.mem_singleton.mp hr
      exact ⟨c, hc, rfl, hw, fun _ => slot_setSlot s start.key _⟩
  case unreaped =>
    rintro w ⟨start', hstart', -⟩
    cases hstart'

omit hstart in
/-- The start is refused for what it has found in a slot. -/
theorem reapInvariant_busy (hreap : awaitsReap s key = false)
    (hcrawl : CrawlInvariant ((s.probe key).1.answer a)) :
    ReapInvariant ((s.probe key).1.answer a) := by
  exact hs.of_spares hcrawl (congrArg _ (children_probe s key)) (reaps_probe s key)
    ((spared_probe hreap).congr rfl rfl rfl rfl) continues_answer

/-- The start goes on from a slot without a live child. -/
theorem reapInvariant_free {point : StartPoint} (hreap : awaitsReap s key = false)
    (hbefore : BeforeSpawn start.point) (hpoint : BeforeSpawn point)
    (hcrawl : CrawlInvariant (reach (s.probe key).1 start point)) :
    ReapInvariant (reach (s.probe key).1 start point) := by
  exact hs.of_spares hcrawl (congrArg _ (children_probe s key)) (reaps_probe s key)
    ((spared_probe hreap).congr rfl rfl rfl rfl) (continues_reach hstart hbefore hpoint)

theorem reapInvariant_startMove (hcalls : Unforestalled s e) (h : StartMove s start e s')
    (hcrawl : CrawlInvariant s') : ReapInvariant s' := by
  cases h with
  | ownBusy hpoint hprobe =>
    exact reapInvariant_busy hs (hcalls start.key (by rw [probed, hstart]; rfl)) hcrawl
  | ownFree hpoint hprobe =>
    have hreap := hcalls start.key (by rw [probed, hstart]; rfl)
    exact reapInvariant_free hs hstart hreap (by rw [hpoint]; trivial) trivial hcrawl
  | listed hpoint hperm =>
    refine hs.of_spares hcrawl rfl rfl ((spared_refl s).congr rfl rfl rfl rfl)
      (continues_reach hstart ?_ trivial)
    rw [hpoint]
    trivial
  | @elsewhereBusy key rest w hpoint hprobe =>
    have hreap := hcalls key (by rw [probed, hstart, Option.bind_some, hpoint]; rfl)
    exact reapInvariant_busy hs hreap hcrawl
  | @elsewhereFree key rest hpoint hprobe =>
    have hreap := hcalls key (by rw [probed, hstart, Option.bind_some, hpoint]; rfl)
    exact reapInvariant_free hs hstart hreap (by rw [hpoint]; trivial) trivial hcrawl
  | refused hpoint =>
    exact hs.of_spares hcrawl rfl rfl ((spared_refl s).congr rfl rfl rfl rfl) continues_answer
  | spawned hpoint hnew =>
    refine reapInvariant_spawned hs hstart ?_ hnew hcrawl
    rw [hpoint]
    trivial
  | inserted hpoint => exact reapInvariant_inserted hs hstart hpoint hcrawl

end Start

/-! ## The reaps -/

section Reap

variable (hs : ReapInvariant s) {i : Nat} {r : Reap} (hr : s.reaps[i]? = some r)

include hs hr

/-- Once a reap has gone on, each reap is that one or one of another child. -/
theorem mem_set_reap {r₁ r' : Reap} (h : r' ∈ s.reaps.set i r₁) :
    r' = r₁ ∨ (r' ∈ s.reaps ∧ r'.pid ≠ r.pid) := by
  obtain ⟨j, hj⟩ := List.mem_iff_getElem?.mp h
  rw [List.getElem?_set] at hj
  split at hj
  · split at hj
    · exact Or.inl (Option.some.inj hj).symm
    · cases hj
  · rename_i hne
    refine Or.inr ⟨List.mem_of_getElem? hj, fun hpid => hne ?_⟩
    have hi : (s.reaps.map Reap.pid)[i]? = some r.pid := by rw [List.getElem?_map, hr]; rfl
    have hj : (s.reaps.map Reap.pid)[j]? = some r.pid := by rw [List.getElem?_map, hj, ← hpid]; rfl
    have hlt : i < (s.reaps.map Reap.pid).length := (List.getElem?_eq_some_iff.mp hi).1
    exact (List.getElem?_inj hlt hs.reapPids).mp (hi.trans hj.symm)

omit hs in
theorem phase_setReap (hreaps : t.reaps = s.reaps) :
    (t.setReap i r phase).reaps[i]?.map Reap.phase = some phase := by
  have hlt : i < s.reaps.length := (List.getElem?_eq_some_iff.mp hr).1
  unfold ConnectorPlane.setReap
  rw [hreaps, List.getElem?_set, if_pos rfl, if_pos hlt]
  rfl

/-- The child of the reap. -/
theorem child_of_reap : ∃ c ∈ s.children, c.worker.pid = r.pid ∧ c.worker.key = r.key ∧
    (c.worker.mode = .backfill → GoesBy s c r.key r.phase) :=
  hs.attends r (List.mem_of_getElem? hr)

/-- A reap goes on to a phase. -/
theorem reapInvariant_setReap (hcrawl : CrawlInvariant (t.setReap i r phase))
    (hchildren : t.children = s.children) (hstarting : t.starting = s.starting)
    (hreaps : t.reaps = s.reaps)
    (hself : ∀ c ∈ s.children, c.worker.pid = r.pid → c.worker.mode = .backfill →
      GoesBy s c r.key r.phase → GoesBy t c r.key phase)
    (hothers : ∀ c ∈ s.children, c.worker.pid ≠ r.pid → c.worker.mode = .backfill →
      ∀ key, Spares s t key c c) : ReapInvariant (t.setReap i r phase) where
  crawl := hcrawl
  runIds := by
    unfold ConnectorPlane.setReap
    rw [hchildren]
    exact hs.runIds
  unused start hstart hbefore c hc := by
    unfold ConnectorPlane.setReap at hstart hc
    rw [hstarting] at hstart
    rw [hchildren] at hc
    exact hs.unused start hstart hbefore c hc
  reapPids := by
    have hsame : ((t.setReap i r phase).reaps.map Reap.pid) = s.reaps.map Reap.pid := by
      unfold ConnectorPlane.setReap
      obtain ⟨hi, rfl⟩ := List.getElem?_eq_some_iff.mp hr
      rw [hreaps, List.map_set]
      dsimp only
      rw [← List.getElem_map Reap.pid (h := by rwa [List.length_map])]
      exact List.set_getElem_self _
    rw [hsame]
    exact hs.reapPids
  attends r' hr' := by
    unfold ConnectorPlane.setReap at hr'
    rw [hreaps] at hr'
    have hmem : ∀ c ∈ s.children, c ∈ (t.setReap i r phase).children := by
      intro c hc
      exact hchildren.symm ▸ hc
    rcases mem_set_reap hs hr hr' with rfl | ⟨hold, hne⟩
    · obtain ⟨c, hc, hpid, hkey, hgoes⟩ := child_of_reap hs hr
      exact ⟨c, hmem c hc, hpid, hkey, fun hmode => hself c hc hpid hmode (hgoes hmode)⟩
    · refine attends_of_spares (hs.attends r' hold) fun c hc hpid => ?_
      refine ⟨c, hmem c hc, rfl, fun hmode => ?_⟩
      have h := hothers c hc (hpid ▸ hne) hmode r'.key
      exact ⟨h.worker, h.exit, h.slot, h.row, h.lastExits⟩
  unreaped w hins r' hr' := by
    obtain ⟨start, hstart, hpoint⟩ := hins
    unfold ConnectorPlane.setReap at hstart hr'
    rw [hstarting] at hstart
    rw [hreaps] at hr'
    have hunreaped := hs.unreaped w ⟨start, hstart, hpoint⟩
    rcases mem_set_reap hs hr hr' with rfl | ⟨hold, -⟩
    · exact hunreaped r (List.mem_of_getElem? hr)
    · exact hunreaped r' hold

theorem reapInvariant_reapMove (h : ReapMove s i r e s') (hcrawl : CrawlInvariant s') :
    ReapInvariant s' := by
  have hsame : ∀ c ∈ s.children, c.worker.pid ≠ r.pid → c.worker.mode = .backfill →
      ∀ key, Spares s s key c c := fun _ _ _ _ _ => spares_same id rfl rfl
  cases h with
  | gone hphase hslot =>
    refine reapInvariant_setReap hs hr hcrawl rfl rfl rfl (fun c _ hpid _ hgoes => ?_) hsame
    rw [hphase] at hgoes
    exact absurd hpid (hslot c.worker hgoes)
  | running => exact hs
  | @exited j now w exit hphase hslot hpid hexit =>
    refine reapInvariant_setReap hs hr hcrawl rfl rfl rfl (fun c hc hc' _ hgoes => ?_) ?_
    · rw [hphase] at hgoes
      obtain rfl := Option.some.inj (hslot.symm.trans hgoes)
      rw [exitOf_child hs.crawl.pids hc] at hexit
      exact ⟨rfl, exit, now, hexit, rfl⟩
    · intro c _ hne _ key
      refine spares_same (fun hw => ?_) rfl rfl
      refine (slot_setSlot_of_ne s none fun hkey => ?_).trans hw
      rw [hkey, hslot] at hw
      rw [← Option.some.inj hw] at hne
      exact hne hpid
  | @reconciled j w terminal hphase hmode =>
    have hterminal := terminalState_reconcileTerminal r.key terminal (s.runs w.runId)
    refine reapInvariant_setReap hs hr hcrawl rfl rfl rfl (fun c _ _ _ hgoes => ?_) ?_
    · rw [hphase] at hgoes
      obtain ⟨rfl, hended⟩ := hgoes
      exact ⟨rfl, hended, _, Function.update_self .., hterminal⟩
    · intro c hc hne hbackfill key
      refine { hsame c hc hne hbackfill key with row := fun _ hrow => ?_ }
      exact rowTerminal_update (fun _ => hterminal) hrow
  | passed hphase hmode =>
    refine reapInvariant_setReap hs hr hcrawl rfl rfl rfl (fun c _ _ hc hgoes => ?_) hsame
    rw [hphase] at hgoes
    obtain ⟨rfl, -⟩ := hgoes
    exact absurd hc hmode
  | recorded hphase =>
    refine reapInvariant_setReap hs hr hcrawl rfl rfl rfl (fun c _ _ _ hgoes => ?_) ?_
    · rw [hphase] at hgoes
      obtain ⟨rfl, hended, hrow⟩ := hgoes
      exact ⟨_, hended, List.mem_cons_self, hrow⟩
    · intro c hc hne hbackfill key
      refine { hsame c hc hne hbackfill key with lastExits := fun x hx => ?_ }
      exact List.mem_cons_of_mem _ hx

end Reap

/-! ## Every run -/

theorem reapInvariant_empty : ReapInvariant ConnectorPlane.empty where
  crawl := crawlInvariant_empty
  runIds := List.nodup_nil
  unused := by
    intro start hstart
    cases hstart
  reapPids := List.nodup_nil
  attends := by
    intro r hr
    cases hr
  unreaped := by
    intro w _ r hr
    cases hr

theorem reapInvariant_entry (hs : ReapInvariant s) (key : WorkerKey) :
    ReapInvariant (s.entry key) := by
  have hcrawl := (eases_entry s key).invariant_of_same hs.crawl (starting_entry s key)
  rw [entry_frame] at hcrawl ⊢
  exact hs.of_spares hcrawl rfl rfl ((spared_refl s).congr rfl rfl rfl rfl) (continues_same rfl)

theorem awaitsReap_entry (s : ConnectorPlane) (key : WorkerKey) :
    awaitsReap (s.entry key) key = awaitsReap s key := by
  rw [entry_frame]
  rfl

/-- Every step but a stop keeps the invariant. -/
theorem reapInvariant_step (hs : ReapInvariant s) (hstop : isStop e = false)
    (hcalls : Unforestalled s e) (h : s.step e = some s') : ReapInvariant s' := by
  have hcrawl : CrawlInvariant s' := crawlInvariant_step hs.crawl h
  unfold ConnectorPlane.step at h
  cases e with
  | exit pid exit =>
    dsimp only at h
    split at h
    · cases h
      exact hs.of_spares hcrawl (eases_endChild s pid exit).workers rfl
        (spared_endChild s pid exit) (continues_same rfl)
    · cases h
  | post pid state error =>
    dsimp only at h
    split at h
    · rename_i w hfound
      split at h
      · cases h
        exact hs.of_spares hcrawl rfl rfl
          (spared_post hs.runIds (List.mem_of_find?_eq_some hfound) rfl _) (continues_same rfl)
      · cases h
    · cases h
  | enter key =>
    cases h
    exact reapInvariant_entry hs key
  | status key =>
    cases h
    have hreap := (awaitsReap_entry s key).trans (hcalls key rfl)
    exact (reapInvariant_entry hs key).of_spares hcrawl
      (congrArg _ (children_probe (s.entry key) key)) (reaps_probe (s.entry key) key)
      (spared_probe hreap) (continues_same (starting_probe (s.entry key) key))
  | acquire key mode runId =>
    dsimp only at h
    split at h
    · split at h
      · cases h
      · rename_i hused
        cases h
        have hentry := reapInvariant_entry hs key
        refine { hentry with crawl := hcrawl, unused := ?_, unreaped := ?_ }
        · intro start hstart _ c hc hrunId
          cases hstart
          rw [entry_frame] at hc
          exact hused (List.any_eq_true.mpr ⟨c, hc, decide_eq_true hrunId⟩)
        · rintro w ⟨start, hstart, hpoint⟩
          cases hstart
          cases hpoint
    · cases h
  | stop key => cases hstop
  | poll i | reconcile i | record i =>
    obtain ⟨r, hr, hmove⟩ := Option.bind_eq_some_iff.mp h
    exact reapInvariant_reapMove hs hr (reapMove_of_reapStep hmove) hcrawl
  | checkOwn | snapshot | checkElsewhere | spawn | insert =>
    obtain ⟨start, hstart, hmove⟩ := Option.bind_eq_some_iff.mp h
    exact reapInvariant_startMove hs hstart hcalls (startMove_of_startStep hmove) hcrawl

theorem ReapInvariant.backfillsReconciled (hs : ReapInvariant s) : BackfillsReconciled s where
  recorded r hr hphase c hc hpid hmode _ := by
    obtain ⟨c', hc', hpid', hkey, hgoes⟩ := hs.attends r hr
    obtain rfl := child_eq_of_pid hs.crawl.pids hc hc' (hpid.trans hpid'.symm)
    have hended := hgoes hmode
    rw [hphase] at hended
    obtain ⟨terminal, hexit, hlast, hrow⟩ := hended
    exact ⟨⟨terminal, hexit, hkey ▸ hlast⟩, hrow⟩
  held i r e s' hr hstep hphase hended c hc hpid hmode _ := by
    obtain ⟨c', hc', hpid', hkey, hgoes⟩ := child_of_reap hs hr
    obtain rfl := child_eq_of_pid hs.crawl.pids hc hc' (hpid.trans hpid'.symm)
    have hgoes := hgoes hmode
    cases reapMove_of_reapStep hstep with
    | gone hpolling hslot =>
      rw [hpolling] at hgoes
      exact absurd hpid (hslot c.worker hgoes)
    | running =>
      rw [hr] at hended
      exact absurd (Option.some.inj hended) hphase
    | recorded hreconciled =>
      rw [hreconciled] at hgoes
      obtain ⟨rfl, hexit, -⟩ := hgoes
      refine ⟨_, hexit, ?_⟩
      rw [hkey]
      exact List.lookup_cons_self
    | exited | reconciled | passed =>
      have hmoved := hended.symm.trans (phase_setReap hr rfl)
      cases hmoved

/-- The condition under which the reaps do what they are for: no call of `stop`, and no look into a
slot between the end of the backfill in it and the poll of its reap. -/
theorem backfillsReconciled_of_unforestalled {events : List PlaneStep}
    (hcalls : Along ConnectorPlane.step (fun s e => isStop e = false ∧ Unforestalled s e)
      ConnectorPlane.empty events)
    (hrun : run ConnectorPlane.step ConnectorPlane.empty events = some s) :
    BackfillsReconciled s := by
  have hstep : ∀ s e s', ReapInvariant s → isStop e = false ∧ Unforestalled s e →
      s.step e = some s' → ReapInvariant s' := by
    intro s e s' hs ⟨hstop, hcalls⟩ h
    exact reapInvariant_step hs hstop hcalls h
  exact (run_invariant hstep reapInvariant_empty hcalls hrun).backfillsReconciled

/-- A status, and the start of a second tenant, look into the slot while the backfill is live, and a
status once its reap has polled it. -/
theorem backfills_reconciled_after_status :
    ∃ s, run ConnectorPlane.step ConnectorPlane.empty
        [.acquire (1, "gdrive") .backfill 7, .checkOwn, .snapshot [], .spawn (.ok 100), .insert,
          .post 100 (some .running) none, .status (1, "gdrive"),
          .acquire (2, "gdrive") .pollOnce 8, .checkOwn, .snapshot [(1, "gdrive")],
          .checkElsewhere, .exit 100 ⟨.ok (some 0), none⟩, .poll 0 5, .status (1, "gdrive"),
          .reconcile 0, .record 0] = some s ∧
      s.reaps = [⟨(1, "gdrive"), 100, .ended⟩] ∧ BackfillsReconciled s := by
  have hview : (run ConnectorPlane.step ConnectorPlane.empty
      [.acquire (1, "gdrive") .backfill 7, .checkOwn, .snapshot [], .spawn (.ok 100), .insert,
        .post 100 (some .running) none, .status (1, "gdrive"),
        .acquire (2, "gdrive") .pollOnce 8, .checkOwn, .snapshot [(1, "gdrive")],
        .checkElsewhere, .exit 100 ⟨.ok (some 0), none⟩, .poll 0 5, .status (1, "gdrive"),
        .reconcile 0, .record 0]).map
      ConnectorPlane.reaps = some [⟨(1, "gdrive"), 100, .ended⟩] := by
    decide +kernel
  obtain ⟨s, hrun, hreaps⟩ := Option.map_eq_some_iff.mp hview
  exact ⟨s, hrun, hreaps, backfillsReconciled_of_unforestalled (by decide +kernel) hrun⟩

/-- A status that comes between the end of the backfill and the poll of its reap: the run is left
running, and `last_exit` empty. -/
theorem finished_backfill_left_running :
    ¬ ∀ (events : List PlaneStep) (s : ConnectorPlane), (∀ e ∈ events, isStop e = false) →
      run ConnectorPlane.step ConnectorPlane.empty events = some s → BackfillsReconciled s := by
  intro h
  have hview : (run ConnectorPlane.step ConnectorPlane.empty
      [.acquire (1, "gdrive") .backfill 7, .checkOwn, .snapshot [], .spawn (.ok 100), .insert,
        .post 100 (some .running) none, .exit 100 ⟨.ok (some 0), none⟩, .status (1, "gdrive"),
        .poll 0 5]).map (fun s => (s.reaps.map fun r => (r.pid, decide (r.phase = .ended)),
          s.children.map fun c => (c.worker.pid, decide (c.worker.mode = .backfill), c.exit.isSome),
          (s.runs 7).map BackfillRun.state, s.lastExits.length)) =
      some ([(100, true)], [(100, true, true)], some .running, 0) := by
    decide +kernel
  obtain ⟨s, hrun, hfields⟩ := Option.map_eq_some_iff.mp hview
  obtain ⟨hreaps, hfields⟩ := Prod.mk.inj hfields
  obtain ⟨hchildren, hfields⟩ := Prod.mk.inj hfields
  obtain ⟨r, hr, hphase⟩ := List.map_eq_singleton_iff.mp hreaps
  obtain ⟨c, hc, hended⟩ := List.map_eq_singleton_iff.mp hchildren
  obtain ⟨hrpid, hphase⟩ := Prod.mk.inj hphase
  obtain ⟨hcpid, hended⟩ := Prod.mk.inj hended
  obtain ⟨hmode, hexit⟩ := Prod.mk.inj hended
  obtain ⟨⟨terminal, -, hlast⟩, -⟩ := (h _ s (by decide) hrun).recorded r
    (hr ▸ List.mem_singleton_self r) (of_decide_eq_true hphase) c
    (hc ▸ List.mem_singleton_self c) (hcpid.trans hrpid.symm) (of_decide_eq_true hmode)
    (Option.isSome_iff_ne_none.mp hexit)
  rw [List.eq_nil_of_length_eq_zero (Prod.mk.inj hfields).2] at hlast
  cases hlast

end Verity.Analysis
