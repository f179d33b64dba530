import Verity.Analysis.PlaneMoves
import Verity.Foundation.Run

/-!
# One live crawl per source

A slot is filled only under the admission lock, by a start that has found its own slot without a
live child and then each slot of the source of another tenant. Everything else that touches a slot
clears it, and only of a child that has ended. So while a start is past its own check no slot of
the source gains a child but through it.
-/

set_option autoImplicit false

namespace Verity.Analysis

open Verity.Foundation
open Verity.Model

variable {s s' t : ConnectorPlane} {start : Starting} {e : PlaneStep}

variable {w : ConnectorWorker} {key : WorkerKey}

/-! ## Events that fill no slot -/

/-- No child comes, no slot is filled, and no slot of a live child is cleared. -/
structure Eases (s s' : ConnectorPlane) : Prop where
  workers : s'.children.map Child.worker = s.children.map Child.worker
  ended : ∀ c ∈ s'.children, c.exit = none → c ∈ s.children
  slot : ∀ key w, s'.slot key = some w → s.slot key = some w
  live : ∀ c ∈ s'.children, c.exit = none → ∀ key, s.slot key = some c.worker →
    s'.slot key = some c.worker
  keys : ∀ key ∈ s.keys, key ∈ s'.keys

namespace Eases

theorem refl (s : ConnectorPlane) : Eases s s :=
  ⟨rfl, fun _ hc _ => hc, fun _ _ h => h, fun _ _ _ _ h => h, fun _ h => h⟩

theorem trans (h : Eases s t) (h' : Eases t s') : Eases s s' where
  workers := h'.workers.trans h.workers
  ended c hc hexit := h.ended c (h'.ended c hc hexit) hexit
  slot key w hslot := h.slot key w (h'.slot key w hslot)
  live c hc hexit key hslot :=
    h'.live c hc hexit key (h.live c (h'.ended c hc hexit) hexit key hslot)
  keys key hkey := h'.keys key (h.keys key hkey)

/-- Only the children, the slots and the keys are spoken of. -/
theorem congr (h : Eases s t) (hchildren : s'.children = t.children) (hslot : s'.slot = t.slot)
    (hkeys : s'.keys = t.keys) : Eases s s' where
  workers := by rw [hchildren, h.workers]
  ended := by rw [hchildren]; exact h.ended
  slot := by rw [hslot]; exact h.slot
  live := by rw [hchildren, hslot]; exact h.live
  keys := by rw [hkeys]; exact h.keys

theorem worker_mem (h : Eases s s') (hw : ∃ c ∈ s.children, c.worker = w) :
    ∃ c ∈ s'.children, c.worker = w := by
  have hmem := List.mem_map.mpr hw
  rw [← h.workers] at hmem
  exact List.mem_map.mp hmem

theorem ownPids (h : Eases s s') (hpids : OwnPids s) : OwnPids s' := by
  have hsame := congrArg (List.map ConnectorWorker.pid) h.workers
  rw [List.map_map, List.map_map] at hsame
  exact Eq.subst (motive := List.Nodup) hsame.symm hpids

end Eases

theorem eases_entry (s : ConnectorPlane) (key : WorkerKey) : Eases s (s.entry key) := by
  unfold ConnectorPlane.entry
  split
  · exact Eases.refl s
  · exact { Eases.refl s with keys := fun key h => List.mem_append_left _ h }

theorem mem_entry (s : ConnectorPlane) (key : WorkerKey) : key ∈ (s.entry key).keys := by
  unfold ConnectorPlane.entry
  split
  · rename_i hkey
    exact List.contains_iff_mem.mp hkey
  · exact List.mem_append_right _ (List.mem_singleton_self key)

/-- A slot is cleared whose child has ended. -/
theorem eases_clear (h : ∀ c ∈ s.children, s.slot key = some c.worker → c.exit ≠ none) :
    Eases s (s.setSlot key none) where
  workers := rfl
  ended _ hc _ := hc
  slot key' w hslot := by
    by_cases hkey : key' = key
    · rw [hkey, slot_setSlot] at hslot
      cases hslot
    · rwa [slot_setSlot_of_ne s none hkey] at hslot
  live c hc hexit key' hslot := by
    by_cases hkey : key' = key
    · exact absurd hexit (h c hc (hkey ▸ hslot))
    · rwa [slot_setSlot_of_ne s none hkey]
  keys _ hkey := hkey

theorem eases_endChild (s : ConnectorPlane) (pid : Nat) (exit : ChildExit) :
    Eases s (s.endChild pid exit) where
  workers := by
    unfold ConnectorPlane.endChild
    rw [List.map_map]
    refine List.map_congr_left fun c _ => ?_
    rw [Function.comp_apply]
    split
    · rfl
    · rfl
  ended c hc hexit := by
    obtain ⟨c₀, hc₀, hended⟩ := List.mem_map.mp hc
    split at hended
    · rw [← hended] at hexit
      cases hexit
    · exact hended ▸ hc₀
  slot _ _ hslot := hslot
  live _ _ _ _ hslot := hslot
  keys _ hkey := hkey

theorem exit_endChild {pid : Nat} {exit : ChildExit} {c : Child}
    (hc : c ∈ (s.endChild pid exit).children) (hpid : c.worker.pid = pid) : c.exit ≠ none := by
  obtain ⟨c₀, -, hended⟩ := List.mem_map.mp hc
  split at hended
  · rw [← hended]
    exact Option.some_ne_none _
  · rename_i hne
    exact absurd (hended ▸ hpid) hne

theorem eases_probe (hpids : OwnPids s) (key : WorkerKey) : Eases s (s.probe key).1 := by
  rcases probe_cases s key with ⟨-, hprobe⟩ | ⟨w, hslot, hexit, hprobe⟩ | ⟨w, -, -, hprobe⟩
  · rw [hprobe]
    exact Eases.refl s
  · rw [hprobe]
    refine eases_clear fun c hc hw hlive => ?_
    obtain rfl := Option.some.inj (hslot.symm.trans hw)
    rw [exitOf_child hpids hc, hlive] at hexit
    cases hexit
  · rw [hprobe]
    exact Eases.refl s

/-! ## The invariant -/

/-- The worker has been spawned, and is not in its slot yet. -/
def Inserting (s : ConnectorPlane) (w : ConnectorWorker) : Prop :=
  ∃ start, s.starting = some start ∧ start.point = .inserting w

/-- What a start has found out up to its point. -/
def Reached (s : ConnectorPlane) (start : Starting) : StartPoint → Prop
  | .own => True
  | .others => s.slot start.key = none
  | .elsewhere candidates =>
    s.slot start.key = none ∧
      ∀ c ∈ s.children, c.exit = none → c.worker.source = start.key.2 →
        c.worker.key ∈ candidates
  | .inserting w =>
    s.slot start.key = none ∧ w.key = start.key ∧ ∃ c ∈ s.children, c.worker = w

structure CrawlInvariant (s : ConnectorPlane) : Prop where
  pids : OwnPids s
  slots : ∀ key w, s.slot key = some w →
    key ∈ s.keys ∧ w.key = key ∧ ∃ c ∈ s.children, c.worker = w
  held : ∀ c ∈ s.children, c.exit = none →
    s.slot c.worker.key = some c.worker ∨ Inserting s c.worker
  one : ∀ c ∈ s.children, ∀ c' ∈ s.children, c.exit = none → c'.exit = none →
    c.worker.source = c'.worker.source → c = c'
  started : ∀ start, s.starting = some start →
    start.key ∈ s.keys ∧ Reached s start start.point

theorem Eases.reached (h : Eases s s') {point : StartPoint} (hs : Reached s start point) :
    Reached s' start point := by
  have hempty : ∀ key, s.slot key = none → s'.slot key = none := by
    intro key hslot
    cases hslot' : s'.slot key with
    | none => rfl
    | some w =>
      rw [h.slot key w hslot'] at hslot
      cases hslot
  cases point with
  | own => trivial
  | others => exact hempty _ hs
  | elsewhere candidates =>
    refine ⟨hempty _ hs.1, fun c hc hexit => ?_⟩
    exact hs.2 c (h.ended c hc hexit) hexit
  | inserting w => exact ⟨hempty _ hs.1, hs.2.1, h.worker_mem hs.2.2⟩

/-- An event that fills no slot keeps the invariant, if the start that holds the admission lock
afterwards has found out what its point says, and none has lost its worker. -/
theorem Eases.invariant (h : Eases s s') (hs : CrawlInvariant s)
    (hinserting : ∀ w, Inserting s w → Inserting s' w)
    (hstarted : ∀ start, s'.starting = some start →
      start.key ∈ s'.keys ∧ Reached s' start start.point) : CrawlInvariant s' where
  pids := h.ownPids hs.pids
  slots key w hslot := by
    obtain ⟨hkey, hw, hmem⟩ := hs.slots key w (h.slot key w hslot)
    exact ⟨h.keys key hkey, hw, h.worker_mem hmem⟩
  held c hc hexit := by
    rcases hs.held c (h.ended c hc hexit) hexit with hslot | hins
    · exact Or.inl (h.live c hc hexit _ hslot)
    · exact Or.inr (hinserting _ hins)
  one c hc c' hc' hexit hexit' hsource :=
    hs.one c (h.ended c hc hexit) c' (h.ended c' hc' hexit') hexit hexit' hsource
  started := hstarted

/-- An event outside the starts. -/
theorem Eases.invariant_of_same (h : Eases s s') (hs : CrawlInvariant s)
    (hstarting : s'.starting = s.starting) : CrawlInvariant s' := by
  refine h.invariant hs ?_ ?_
  · rintro w ⟨start, hstart, hpoint⟩
    exact ⟨start, hstarting.trans hstart, hpoint⟩
  · intro start hstart
    obtain ⟨hkey, hreached⟩ := hs.started start (hstarting ▸ hstart)
    exact ⟨h.keys _ hkey, h.reached hreached⟩

def BeforeSpawn : StartPoint → Prop
  | .inserting _ => False
  | _ => True

theorem not_inserting (hstart : s.starting = some start) (hbefore : BeforeSpawn start.point) :
    ¬ Inserting s w := by
  rintro ⟨start', hstart', hpoint⟩
  rw [hstart] at hstart'
  cases hstart'
  rw [hpoint] at hbefore
  exact hbefore

/-! ## The steps of a start -/

section Start

variable (hs : CrawlInvariant s) (hstart : s.starting = some start)

include hs hstart

/-- The start goes on, before it spawns. -/
theorem invariant_reach {point : StartPoint} (h : Eases s t) (hbefore : BeforeSpawn start.point)
    (hreached : Reached t start point) : CrawlInvariant (reach t start point) := by
  have heases : Eases s (reach t start point) := h.congr rfl rfl rfl
  refine heases.invariant hs ?_ ?_
  · intro w hins
    exact absurd hins (not_inserting hstart hbefore)
  · intro start' hstart'
    cases hstart'
    refine ⟨h.keys _ (hs.started start hstart).1, ?_⟩
    exact (Eases.congr (Eases.refl t) rfl rfl rfl).reached hreached

theorem invariant_answer {a : Except SpawnError Nat} (h : Eases s t)
    (hbefore : BeforeSpawn start.point) : CrawlInvariant (t.answer a) := by
  have heases : Eases s (t.answer a) := h.congr rfl rfl rfl
  refine heases.invariant hs ?_ ?_
  · intro w hins
    exact absurd hins (not_inserting hstart hbefore)
  · intro start' hstart'
    cases hstart'

/-- A live child of the source is in a slot of another tenant, and that is listed. -/
theorem listed_of_live {candidates : List WorkerKey} (hpoint : start.point = .others)
    (hperm : candidates.Perm
      (s.keys.filter fun key => decide (key.2 = start.key.2 ∧ key.1 ≠ start.key.1)))
    {c : Child} (hc : c ∈ s.children) (hexit : c.exit = none)
    (hsource : c.worker.source = start.key.2) : c.worker.key ∈ candidates := by
  have hempty : s.slot start.key = none := by
    have hreached := (hs.started start hstart).2
    rwa [hpoint] at hreached
  have hslot : s.slot c.worker.key = some c.worker :=
    (hs.held c hc hexit).resolve_right (not_inserting hstart (by rw [hpoint]; trivial))
  rw [hperm.mem_iff, List.mem_filter]
  refine ⟨(hs.slots _ _ hslot).1, decide_eq_true ⟨hsource, fun htenant => ?_⟩⟩
  have hkey : c.worker.key = start.key := Prod.ext htenant hsource
  rw [hkey, hempty] at hslot
  cases hslot

/-- A slot without a live child is none of those that a live child of the source may be in. -/
theorem reached_rest {rest : List WorkerKey} (hpoint : start.point = .elsewhere (key :: rest))
    (hprobe : (s.probe key).2 = none) : Reached (s.probe key).1 start (.elsewhere rest) := by
  have hreached := (hs.started start hstart).2
  rw [hpoint] at hreached
  have heases := eases_probe hs.pids key
  obtain ⟨hempty, hlive⟩ := heases.reached hreached
  refine ⟨hempty, fun c hc hexit hsource => ?_⟩
  refine (List.mem_cons.mp (hlive c hc hexit hsource)).resolve_left fun hkey => ?_
  have hchild := heases.ended c hc hexit
  have hslot : s.slot c.worker.key = some c.worker :=
    (hs.held c hchild hexit).resolve_right (not_inserting hstart (by rw [hpoint]; trivial))
  have hstays := heases.live c hc hexit _ hslot
  rw [hkey, slot_probe_of_none hprobe] at hstays
  cases hstays

theorem invariant_spawned {pid : Nat} (hpoint : start.point = .elsewhere [])
    (hnew : ∀ c ∈ s.children, c.worker.pid ≠ pid) :
    CrawlInvariant (reach { s with children := s.children ++ [⟨spawnedBy start pid, none⟩] } start
      (.inserting (spawnedBy start pid))) := by
  obtain ⟨hkey, hreached⟩ := hs.started start hstart
  rw [hpoint] at hreached
  obtain ⟨hempty, hlive⟩ := hreached
  have hnone : ∀ c ∈ s.children, c.exit = none → c.worker.source ≠ start.key.2 := by
    intro c hc hexit hsource
    exact absurd (hlive c hc hexit hsource) List.not_mem_nil
  constructor
  case pids =>
    unfold OwnPids reach
    rw [List.map_append, List.map_singleton]
    refine List.Nodup.append hs.pids (List.nodup_singleton _) ?_
    rw [List.disjoint_singleton]
    intro hmem
    obtain ⟨c, hc, hpid⟩ := List.mem_map.mp hmem
    exact hnew c hc hpid
  case slots =>
    intro key w hslot
    obtain ⟨hmem, hw, c, hc, hcw⟩ := hs.slots key w hslot
    exact ⟨hmem, hw, c, List.mem_append_left _ hc, hcw⟩
  case held =>
    intro c hc hexit
    rcases List.mem_append.mp hc with hc | hc
    · refine Or.inl ((hs.held c hc hexit).resolve_right (not_inserting hstart ?_))
      rw [hpoint]
      trivial
    · obtain rfl := List.mem_singleton.mp hc
      exact Or.inr ⟨_, rfl, rfl⟩
  case one =>
    intro c hc c' hc' hexit hexit' hsource
    rcases List.mem_append.mp hc with hc | hc <;> rcases List.mem_append.mp hc' with hc' | hc'
    · exact hs.one c hc c' hc' hexit hexit' hsource
    · obtain rfl := List.mem_singleton.mp hc'
      exact absurd hsource (hnone c hc hexit)
    · obtain rfl := List.mem_singleton.mp hc
      exact absurd hsource.symm (hnone c' hc' hexit')
    · rw [List.mem_singleton.mp hc, List.mem_singleton.mp hc']
  case started =>
    intro start' hstart'
    cases hstart'
    exact ⟨hkey, hempty, rfl, _, List.mem_append_right _ (List.mem_singleton_self _), rfl⟩

theorem invariant_inserted {a : Except SpawnError Nat} {reaps : List Reap}
    (hpoint : start.point = .inserting w) :
    CrawlInvariant
      (ConnectorPlane.answer { s.setSlot start.key (some w) with reaps := reaps } a) := by
  obtain ⟨hkey, hreached⟩ := hs.started start hstart
  rw [hpoint] at hreached
  obtain ⟨hempty, hw, hchild⟩ := hreached
  constructor
  case pids => exact hs.pids
  case slots =>
    intro key w' hslot
    by_cases hsame : key = start.key
    · rw [hsame] at hslot ⊢
      obtain rfl := Option.some.inj ((slot_setSlot s start.key (some w)).symm.trans hslot)
      exact ⟨hkey, hw, hchild⟩
    · exact hs.slots key w' ((slot_setSlot_of_ne s (some w) hsame).symm.trans hslot)
  case held =>
    intro c hc hexit
    refine Or.inl ?_
    rcases hs.held c hc hexit with hslot | ⟨start', hstart', hins⟩
    · refine (slot_setSlot_of_ne s (some w) fun hsame => ?_).trans hslot
      rw [hsame, hempty] at hslot
      cases hslot
    · rw [hstart] at hstart'
      obtain rfl := Option.some.inj hstart'
      rw [hpoint] at hins
      obtain rfl := StartPoint.inserting.inj hins
      rw [hw]
      exact slot_setSlot s start.key _
  case one => exact hs.one
  case started =>
    intro start' hstart'
    cases hstart'

theorem invariant_startMove (h : StartMove s start e s') : CrawlInvariant s' := by
  cases h with
  | ownBusy hpoint hprobe =>
    refine invariant_answer hs hstart (eases_probe hs.pids _) ?_
    rw [hpoint]
    trivial
  | ownFree hpoint hprobe =>
    refine invariant_reach hs hstart (eases_probe hs.pids _) ?_ (slot_probe_of_none hprobe)
    rw [hpoint]
    trivial
  | listed hpoint hperm =>
    have hreached := (hs.started start hstart).2
    rw [hpoint] at hreached
    refine invariant_reach hs hstart (Eases.refl s) ?_ ⟨hreached, ?_⟩
    · rw [hpoint]
      trivial
    · intro c hc hexit hsource
      exact listed_of_live hs hstart hpoint hperm hc hexit hsource
  | elsewhereBusy hpoint hprobe =>
    refine invariant_answer hs hstart (eases_probe hs.pids _) ?_
    rw [hpoint]
    trivial
  | elsewhereFree hpoint hprobe =>
    refine invariant_reach hs hstart (eases_probe hs.pids _) ?_
      (reached_rest hs hstart hpoint hprobe)
    rw [hpoint]
    trivial
  | refused hpoint =>
    refine invariant_answer hs hstart (Eases.refl s) ?_
    rw [hpoint]
    trivial
  | spawned hpoint hnew => exact invariant_spawned hs hstart hpoint hnew
  | inserted hpoint => exact invariant_inserted hs hstart hpoint

end Start

/-! ## The steps of a reap -/

theorem eases_reapMove (hpids : OwnPids s) {i : Nat} {r : Reap} (h : ReapMove s i r e s') :
    Eases s s' ∧ s'.starting = s.starting := by
  cases h with
  | running => exact ⟨Eases.refl s, rfl⟩
  | exited hphase hslot hpid hexit =>
    refine ⟨Eases.congr (eases_clear fun c hc hw hlive => ?_) rfl rfl rfl, rfl⟩
    obtain rfl := Option.some.inj (hslot.symm.trans hw)
    rw [exitOf_child hpids hc, hlive] at hexit
    cases hexit
  | gone | reconciled | passed | recorded => exact ⟨Eases.congr (Eases.refl s) rfl rfl rfl, rfl⟩

/-- A reap clears no slot but that of the child it was started for. -/
theorem slot_reapMove {i : Nat} {r : Reap} (h : ReapMove s i r e s') (hslot : s.slot key = some w)
    (hcleared : s'.slot key ≠ some w) : w.pid = r.pid := by
  cases h with
  | @exited _ _ w' _ hphase hslot' hpid hexit =>
    by_cases hkey : key = r.key
    · rw [hkey, hslot'] at hslot
      rw [← Option.some.inj hslot, hpid]
    · exact absurd ((slot_setSlot_of_ne s none hkey).trans hslot) hcleared
  | running | gone | reconciled | passed | recorded => exact absurd hslot hcleared

/-! ## Every run -/

theorem crawlInvariant_empty : CrawlInvariant ConnectorPlane.empty where
  pids := List.nodup_nil
  slots := by
    intro key w hslot
    cases hslot
  held := by
    intro c hc
    cases hc
  one := by
    intro c hc
    cases hc
  started := by
    intro start hstart
    cases hstart

/-- No step starts a second child of a key. -/
theorem crawlInvariant_step (hs : CrawlInvariant s) (h : s.step e = some s') :
    CrawlInvariant s' := by
  unfold ConnectorPlane.step at h
  cases e with
  | exit pid exit =>
    dsimp only at h
    split at h
    · cases h
      exact (eases_endChild s pid exit).invariant_of_same hs rfl
    · cases h
  | post pid state error =>
    dsimp only at h
    split at h
    · split at h
      · cases h
        exact Eases.invariant_of_same (Eases.congr (Eases.refl s) rfl rfl rfl) hs rfl
      · cases h
    · cases h
  | enter key =>
    cases h
    exact (eases_entry s key).invariant_of_same hs (starting_entry s key)
  | status key =>
    cases h
    have hentry := eases_entry s key
    refine (hentry.trans (eases_probe (hentry.ownPids hs.pids) key)).invariant_of_same hs ?_
    exact (starting_probe (s.entry key) key).trans (starting_entry s key)
  | acquire key mode runId =>
    dsimp only at h
    split at h
    · rename_i hnone
      split at h
      · cases h
      · cases h
        have hentry := eases_entry s key
        refine Eases.invariant (Eases.congr hentry rfl rfl rfl) hs ?_ ?_
        · rintro w ⟨start, hstart, -⟩
          rw [hnone] at hstart
          cases hstart
        · intro start hstart
          cases hstart
          exact ⟨mem_entry s key, trivial⟩
    · cases h
  | stop key =>
    dsimp only at h
    have hentry := eases_entry s key
    split at h
    · rename_i w hslot
      cases h
      have hended := hentry.trans (eases_endChild (s.entry key) w.pid ⟨.ok none, none⟩)
      refine Eases.invariant_of_same (hended.trans (eases_clear fun c hc hw => ?_)) hs ?_
      · obtain rfl := Option.some.inj (hslot.symm.trans hw)
        exact exit_endChild hc rfl
      · exact starting_entry s key
    · cases h
      exact hentry.invariant_of_same hs (starting_entry s key)
  | poll i | reconcile i | record i =>
    obtain ⟨r, -, hr⟩ := Option.bind_eq_some_iff.mp h
    obtain ⟨heases, hstarting⟩ := eases_reapMove hs.pids (reapMove_of_reapStep hr)
    exact heases.invariant_of_same hs hstarting
  | checkOwn | snapshot | checkElsewhere | spawn | insert =>
    obtain ⟨start, hstart, hmove⟩ := Option.bind_eq_some_iff.mp h
    exact invariant_startMove hs hstart (startMove_of_startStep hmove)

/-- The live children of a source. -/
def liveChildren (s : ConnectorPlane) (source : String) : List Child :=
  s.children.filter fun c => c.exit.isNone && decide (c.worker.source = source)

/-- One live child of each source at most; each live child in its own slot, unless the start that
spawned it has not returned; and a reap that takes a worker out of a slot is that worker's own. -/
structure OneCrawl (s : ConnectorPlane) : Prop where
  one : ∀ source, (liveChildren s source).length ≤ 1
  held : ∀ c ∈ s.children, c.exit = none →
    s.slot c.worker.key = some c.worker ∨ Inserting s c.worker
  kept : ∀ i r e s', s.reaps[i]? = some r → s.reapStep i r e = some s' →
    ∀ key w, s.slot key = some w → s'.slot key ≠ some w → w.pid = r.pid

theorem CrawlInvariant.oneCrawl (hs : CrawlInvariant s) : OneCrawl s where
  one source := by
    have hsame : ∀ c ∈ liveChildren s source, ∀ c' ∈ liveChildren s source, c = c' := by
      intro c hc c' hc'
      obtain ⟨hmem, hlive⟩ := List.mem_filter.mp hc
      obtain ⟨hmem', hlive'⟩ := List.mem_filter.mp hc'
      rw [Bool.and_eq_true, Option.isNone_iff_eq_none, decide_eq_true_iff] at hlive hlive'
      exact hs.one c hmem c' hmem' hlive.1 hlive'.1 (hlive.2.trans hlive'.2.symm)
    have hnodup : (liveChildren s source).Nodup := (hs.pids.of_map _).filter _
    match hlist : liveChildren s source with
    | [] => exact Nat.zero_le 1
    | [_] => exact le_refl 1
    | c :: c' :: rest =>
      rw [hlist] at hsame hnodup
      have hne : c ≠ c' := fun h => (List.nodup_cons.mp hnodup).1 (h ▸ List.mem_cons_self)
      exact absurd (hsame c List.mem_cons_self c' (List.mem_cons_of_mem _ List.mem_cons_self))
        hne
  held := hs.held
  kept i r e s' _ hstep key w hslot hcleared :=
    slot_reapMove (reapMove_of_reapStep hstep) hslot hcleared

/-- In every state of every run of the connector plane a source has at most one live crawl, which is
in the slot of its worker, and no reap takes another's worker out of a slot. -/
theorem oneCrawl_of_run {events : List PlaneStep}
    (hrun : run ConnectorPlane.step ConnectorPlane.empty events = some s) : OneCrawl s :=
  (run_induction (fun _ _ _ => crawlInvariant_step) crawlInvariant_empty hrun).oneCrawl

/-- A second tenant is refused while the child of the first is live, and started once it has ended;
its child is then stopped. -/
theorem two_tenants_one_crawl :
    ∃ s, run ConnectorPlane.step ConnectorPlane.empty
        [.acquire (1, "gdrive") .backfill 7, .checkOwn, .snapshot [], .spawn (.ok 100), .insert,
          .acquire (2, "gdrive") .pollOnce 8, .checkOwn, .snapshot [(1, "gdrive")],
          .checkElsewhere, .exit 100 ⟨.ok (some 0), none⟩, .poll 0 5, .reconcile 0, .record 0,
          .acquire (2, "gdrive") .pollOnce 9, .checkOwn, .snapshot [(1, "gdrive")],
          .checkElsewhere, .spawn (.ok 101), .insert, .stop (2, "gdrive"), .poll 1 6] = some s ∧
      s.answers = [.ok 101, .error (.sourceBusy 1 100), .ok 100] ∧ OneCrawl s := by
  have hview : (run ConnectorPlane.step ConnectorPlane.empty
      [.acquire (1, "gdrive") .backfill 7, .checkOwn, .snapshot [], .spawn (.ok 100), .insert,
        .acquire (2, "gdrive") .pollOnce 8, .checkOwn, .snapshot [(1, "gdrive")],
        .checkElsewhere, .exit 100 ⟨.ok (some 0), none⟩, .poll 0 5, .reconcile 0, .record 0,
        .acquire (2, "gdrive") .pollOnce 9, .checkOwn, .snapshot [(1, "gdrive")],
        .checkElsewhere, .spawn (.ok 101), .insert, .stop (2, "gdrive"), .poll 1 6]).map
      ConnectorPlane.answers = some [.ok 101, .error (.sourceBusy 1 100), .ok 100] := by
    decide +kernel
  obtain ⟨s, hrun, hanswers⟩ := Option.map_eq_some_iff.mp hview
  exact ⟨s, hrun, hanswers, oneCrawl_of_run hrun⟩

end Verity.Analysis
