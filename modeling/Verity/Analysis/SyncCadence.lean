import Verity.Analysis.SyncScheduler

/-!
# Cadences of continuous sync

The cadence of a source in a process is what the table says, except where, since the process
started, the row was last written elsewhere, or by a toggle of its own that it has not applied, or
where it could not list the rows when it started (`cadence_follows_schedule`).
-/

set_option autoImplicit false

namespace Verity.Analysis

open Verity.Model Verity.Foundation

variable {rows rows' : List SyncSchedule} {t : SyncToggle} {row : SyncSchedule} {plane : SyncPlane}
  {p : ServerId} {events : List SchedulerEvent} {e : SchedulerEvent}

/-- What the table says about the cadence of a source. -/
def wantedCadence (rows : List SyncSchedule) (key : WorkerKey) : Option Int :=
  ((getSyncSchedule rows key).filter fun row => row.enabled).map fun row => row.intervalSecs

def cadenceOf (t : SyncToggle) : Option Int := if t.enabled then some t.intervalSecs else none

/-- The cadence of a source in a process, where one whose boot has yet to arm a row is taken to have
armed it. -/
def cadenceIn (plane : SyncPlane) (key : WorkerKey) : Option Int :=
  match getSyncSchedule plane.rearming key with
  | some row => some row.intervalSecs
  | none => (plane.loops key).map fun armed => armed.intervalSecs

theorem wantedCadence_upsert (hkeys : (rowKeys rows).Nodup)
    (h : upsertSyncSchedule rows t.key t.intervalSecs t.enabled = .ok (rows', row))
    (key : WorkerKey) :
    wantedCadence rows' key = if key = t.key then cadenceOf t else wantedCadence rows key := by
  obtain ⟨-, hkeys', hmem⟩ := upsertSyncSchedule_ok hkeys h
  unfold wantedCadence
  split
  · rename_i hkey
    have hget : getSyncSchedule rows' key = some ⟨t.key.1, t.key.2, t.intervalSecs, t.enabled⟩ := by
      refine (getSyncSchedule_eq_some_iff hkeys').mpr ⟨(hmem _).mpr (Or.inl rfl), ?_⟩
      rw [hkey]
      rfl
    rw [hget, cadenceOf]
    cases t.enabled <;> rfl
  · rename_i hkey
    have hget : getSyncSchedule rows' key = getSyncSchedule rows key := by
      apply Option.ext
      intro r
      rw [getSyncSchedule_eq_some_iff hkeys', getSyncSchedule_eq_some_iff hkeys, hmem]
      constructor
      · rintro ⟨rfl | ⟨hr, -⟩, hrkey⟩
        · exact absurd hrkey.symm hkey
        · exact ⟨hr, hrkey⟩
      · rintro ⟨hr, hrkey⟩
        exact ⟨Or.inr ⟨hr, fun heq => hkey (hrkey.symm.trans heq)⟩, hrkey⟩
    rw [hget]

/-- The rows that a boot reads are those that are wanted. -/
theorem getSyncSchedule_listEnabled (hkeys : (rowKeys rows).Nodup) (key : WorkerKey) :
    getSyncSchedule (listEnabledSyncSchedules rows) key =
      (getSyncSchedule rows key).filter fun row => row.enabled := by
  apply Option.ext
  intro r
  rw [getSyncSchedule_eq_some_iff (nodup_keys_listEnabled hkeys), (perm_listEnabled rows).mem_iff,
    List.mem_filter, Option.filter_eq_some_iff, getSyncSchedule_eq_some_iff hkeys]
  exact and_right_comm

theorem cadenceIn_boot (hkeys : (rowKeys rows).Nodup) (key : WorkerKey) :
    cadenceIn ⟨fun _ => none, none, listEnabledSyncSchedules rows⟩ key =
      wantedCadence rows key := by
  unfold cadenceIn wantedCadence
  rw [getSyncSchedule_listEnabled hkeys]
  cases (getSyncSchedule rows key).filter fun row => row.enabled <;> rfl

theorem cadenceIn_rearm {rest : List SyncSchedule} (hrows : plane.rearming = row :: rest)
    (hkeys : (rowKeys plane.rearming).Nodup) (task : Nat) (key : WorkerKey) :
    cadenceIn { plane with
      rearming := rest
      loops := Function.update plane.loops row.key (some ⟨task, row.intervalSecs⟩) } key =
      cadenceIn plane key := by
  rw [hrows] at hkeys
  unfold cadenceIn
  rw [hrows]
  by_cases hkey : key = row.key
  · have hnone : getSyncSchedule rest key = none := by
      refine List.find?_eq_none.mpr ?_
      intro r hr heq
      refine (List.nodup_cons.mp hkeys).1 ?_
      rw [← hkey, ← of_decide_eq_true heq]
      exact List.mem_map_of_mem hr
    have hsome : getSyncSchedule (row :: rest) key = some row :=
      List.find?_cons_of_pos (decide_eq_true hkey.symm)
    dsimp only
    rw [hnone, hsome, hkey, Function.update_self]
    rfl
  · have hskip : getSyncSchedule (row :: rest) key = getSyncSchedule rest key :=
      List.find?_cons_of_neg fun heq => hkey (of_decide_eq_true heq).symm
    dsimp only
    rw [hskip, Function.update_of_ne hkey]

/-! ## Why a cadence differs -/

def WritesRow (key : WorkerKey) : SchedulerEvent → Prop
  | .persist _ t => t.key = key
  | .land _ t => t.key = key
  | _ => False

/-- The row is written, but not by a toggle that the process serves to its end. -/
def WritesElsewhere (p : ServerId) (key : WorkerKey) : SchedulerEvent → Prop
  | .persist q t => q ≠ p ∧ t.key = key
  | .land _ t => t.key = key
  | _ => False

def Persists (p : ServerId) (key : WorkerKey) : SchedulerEvent → Prop
  | .persist q t => q = p ∧ t.key = key
  | _ => False

def Applies (p : ServerId) (key : WorkerKey) : SchedulerEvent → Prop
  | .apply q t => q = p ∧ t.key = key
  | _ => False

def Boots (p : ServerId) : SchedulerEvent → Prop
  | .boot q _ => q = p
  | _ => False

/-- Since the process started, the row was last written elsewhere. -/
def Overwritten (p : ServerId) (key : WorkerKey) (events : List SchedulerEvent) : Prop :=
  Since (WritesElsewhere p key) (fun e => ¬ WritesRow key e ∧ ¬ Boots p e) events

/-- The row was last written by a toggle that the process has not applied since. -/
def Unapplied (p : ServerId) (key : WorkerKey) (events : List SchedulerEvent) : Prop :=
  Since (Persists p key) (fun e => ¬ WritesRow key e ∧ ¬ Boots p e ∧ ¬ Applies p key e) events

/-- The process failed to list the rows when it started, and has applied no toggle since. -/
def Unlisted (p : ServerId) (key : WorkerKey) (events : List SchedulerEvent) : Prop :=
  Since (fun e => e = .boot p false) (fun e => ¬ Boots p e ∧ ¬ Applies p key e) events

def Unheeded (p : ServerId) (key : WorkerKey) (events : List SchedulerEvent) : Prop :=
  Overwritten p key events ∨ Unapplied p key events ∨ Unlisted p key events

theorem Unheeded.concat {key : WorkerKey} (h : Unheeded p key events) (hwrites : ¬ WritesRow key e)
    (hboots : ¬ Boots p e) (happlies : ¬ Applies p key e) : Unheeded p key (events ++ [e]) := by
  rcases h with h | h | h
  · exact Or.inl (h.concat ⟨hwrites, hboots⟩)
  · exact Or.inr (Or.inl (h.concat ⟨hwrites, hboots, happlies⟩))
  · exact Or.inr (Or.inr (h.concat ⟨hboots, happlies⟩))

/-- Where the cadence of a process differs from the table, the run says why. -/
structure Explained (events : List SchedulerEvent) (rows : List SyncSchedule) (p : ServerId)
    (plane : SyncPlane) : Prop where
  persisted : ∀ t, plane.admission = some (t, .persisted) →
    wantedCadence rows t.key = cadenceOf t ∨ Overwritten p t.key events
  cadence : ∀ key, cadenceIn plane key = wantedCadence rows key ∨ Unheeded p key events

/-- An event that neither writes a row nor touches the loops of the process. -/
theorem Explained.quiet {plane' : SyncPlane} (h : Explained events rows p plane)
    (hwrites : ∀ key, ¬ WritesRow key e) (hboots : ¬ Boots p e)
    (happlies : ∀ key, ¬ Applies p key e)
    (hcadence : ∀ key, cadenceIn plane' key = cadenceIn plane key)
    (hheld : ∀ t,
      plane'.admission = some (t, .persisted) → plane.admission = some (t, .persisted)) :
    Explained (events ++ [e]) rows p plane' where
  persisted := by
    intro t ht
    rcases h.persisted t (hheld t ht) with heq | hover
    · exact Or.inl heq
    · exact Or.inr (hover.concat ⟨hwrites t.key, hboots⟩)
  cadence := by
    intro key
    rw [hcadence]
    rcases h.cadence key with heq | hunheeded
    · exact Or.inl heq
    · exact Or.inr (hunheeded.concat (hwrites key) hboots (happlies key))

/-- Such an event, where it leaves the plane of the process as it is. -/
theorem Explained.unmoved (h : Explained events rows p plane) (hwrites : ∀ key, ¬ WritesRow key e)
    (hboots : ¬ Boots p e) (happlies : ∀ key, ¬ Applies p key e) :
    Explained (events ++ [e]) rows p plane :=
  h.quiet hwrites hboots happlies (fun _ => rfl) (fun _ => id)

/-- A row is written elsewhere. -/
theorem Explained.overwritten (h : Explained events rows p plane) (hkeys : (rowKeys rows).Nodup)
    (hrows : upsertSyncSchedule rows t.key t.intervalSecs t.enabled = .ok (rows', row))
    (hwrite : WritesElsewhere p t.key e) (hwrites : ∀ key, WritesRow key e → key = t.key)
    (hboots : ¬ Boots p e) (happlies : ∀ key, ¬ Applies p key e) :
    Explained (events ++ [e]) rows' p plane where
  persisted := by
    intro t' ht'
    rw [wantedCadence_upsert hkeys hrows]
    split
    · rename_i hkey
      rw [hkey]
      exact Or.inr (since_of_last hwrite)
    · rename_i hkey
      rcases h.persisted t' ht' with heq | hover
      · exact Or.inl heq
      · exact Or.inr (hover.concat ⟨fun hw => hkey (hwrites _ hw), hboots⟩)
  cadence := by
    intro key
    rw [wantedCadence_upsert hkeys hrows]
    split
    · rename_i hkey
      rw [hkey]
      exact Or.inr (Or.inl (since_of_last hwrite))
    · rename_i hkey
      rcases h.cadence key with heq | hunheeded
      · exact Or.inl heq
      · exact Or.inr (hunheeded.concat (fun hw => hkey (hwrites _ hw)) hboots (happlies key))

/-- The process itself writes the row of the toggle it serves. -/
theorem Explained.persist (h : Explained events rows p plane) (hkeys : (rowKeys rows).Nodup)
    (hrows : upsertSyncSchedule rows t.key t.intervalSecs t.enabled = .ok (rows', row)) :
    Explained (events ++ [.persist p t]) rows' p
      { plane with admission := some (t, .persisted) } where
  persisted := by
    intro t' ht'
    obtain ⟨rfl, -⟩ := Prod.mk.inj (Option.some.inj ht')
    rw [wantedCadence_upsert hkeys hrows, if_pos rfl]
    exact Or.inl rfl
  cadence := by
    intro key
    rw [wantedCadence_upsert hkeys hrows]
    split
    · rename_i hkey
      rw [hkey]
      exact Or.inr (Or.inr (Or.inl (since_of_last ⟨rfl, rfl⟩)))
    · rename_i hkey
      rcases h.cadence key with heq | hunheeded
      · exact Or.inl heq
      · exact Or.inr (hunheeded.concat (fun hw => hkey hw.symm) id id)

/-- It then arms or disarms the loop of that row. -/
theorem Explained.apply {plane' : SyncPlane} (h : Explained events rows p plane)
    (hheld : plane.admission = some (t, .persisted))
    (hfree : ∀ t', plane'.admission ≠ some (t', .persisted))
    (hcadence : ∀ key, cadenceIn plane' key =
      if key = t.key then cadenceOf t else cadenceIn plane key) :
    Explained (events ++ [.apply p t]) rows p plane' where
  persisted := fun t' ht' => absurd ht' (hfree t')
  cadence := by
    intro key
    rw [hcadence]
    split
    · rename_i hkey
      rw [hkey]
      rcases h.persisted t hheld with heq | hover
      · exact Or.inl heq.symm
      · exact Or.inr (Or.inl (hover.concat ⟨id, id⟩))
    · rename_i hkey
      rcases h.cadence key with heq | hunheeded
      · exact Or.inl heq
      · exact Or.inr (hunheeded.concat id id fun happlies => hkey happlies.2.symm)

/-- A boot that could read the table has the cadences it wants. -/
theorem explained_boot (hkeys : (rowKeys rows).Nodup) (p : ServerId) (listed : Bool)
    (events : List SchedulerEvent) :
    Explained (events ++ [.boot p listed]) rows p
      ⟨fun _ => none, none, if listed then listEnabledSyncSchedules rows else []⟩ where
  persisted := fun t ht => nomatch ht
  cadence := by
    intro key
    cases listed with
    | true => exact Or.inl (cadenceIn_boot hkeys key)
    | false => exact Or.inr (Or.inr (Or.inr (since_of_last rfl)))

theorem planes_arm (s : SyncService) (p : ServerId) (plane : SyncPlane) (key : WorkerKey)
    (intervalSecs : Int) (q : ServerId) :
    (s.arm p plane key intervalSecs).planes q =
      if q = p then some { plane with
        loops := Function.update plane.loops key (some ⟨s.nextTask, intervalSecs⟩) }
      else s.planes q :=
  planes_setPlane s p _ q

theorem planes_disarm (s : SyncService) (p : ServerId) (plane : SyncPlane) (key : WorkerKey)
    (q : ServerId) :
    (s.disarm p plane key).planes q =
      if q = p then some { plane with loops := Function.update plane.loops key none }
      else s.planes q :=
  planes_setPlane s p _ q

/-- What a toggle does to the cadences of a process that serves it. -/
theorem cadenceIn_toggle (hserving : plane.rearming = []) (t : SyncToggle) (task : Nat)
    (admission : Option (SyncToggle × ToggleStage)) (key : WorkerKey) :
    cadenceIn { plane with
        admission := admission
        loops := Function.update plane.loops t.key
          (if t.enabled then some ⟨task, t.intervalSecs⟩ else none) } key =
      if key = t.key then cadenceOf t else cadenceIn plane key := by
  have hnone : getSyncSchedule plane.rearming key = none := by
    rw [hserving]
    rfl
  unfold cadenceIn
  dsimp only
  rw [hnone]
  dsimp only
  rw [Function.update_apply]
  split
  · unfold cadenceOf
    cases t.enabled <;> rfl
  · rfl

/-- Every process that is up is explained by the run. -/
def AllExplained (events : List SchedulerEvent) (s : SyncService) : Prop :=
  ∀ p plane, s.planes p = some plane → Explained events s.schedules p plane

/-- Every step keeps the planes explained. -/
theorem explained_step {past : List SchedulerEvent} {s s' : SyncService} (hfloored : Floored s)
    (h : AllExplained past s) (hstep : s.step e = some s') : AllExplained (past ++ [e]) s' := by
  intro p plane' hp
  cases e with
  | boot q listed =>
    obtain ⟨-, rfl⟩ := boot_cases hstep
    rw [planes_setPlane] at hp
    split at hp
    · rename_i hsame
      rw [← Option.some.inj hp, ← hsame]
      exact explained_boot hfloored.keys p listed past
    · rename_i hother
      exact (h p plane' hp).unmoved (fun _ => id) (fun heq => hother heq.symm) (fun _ => id)
  | rearm q =>
    obtain ⟨plane, row, rest, hplane, hrows, rfl⟩ := rearm_cases hstep
    rw [planes_arm] at hp
    split at hp
    · rename_i hsame
      rw [← hsame] at hplane
      rw [← Option.some.inj hp]
      exact (h p plane hplane).quiet (fun _ => id) id (fun _ => id)
        (cadenceIn_rearm hrows (hfloored.planes p plane hplane).rearming_keys s.nextTask)
        (fun _ => id)
    · exact (h p plane' hp).unmoved (fun _ => id) id (fun _ => id)
  | toggle q source body tenantKnown identity =>
    obtain ⟨plane, hplane, -, rfl | ⟨t, -, -, rfl⟩⟩ := toggle_cases hstep
    · exact (h p plane' hp).unmoved (fun _ => id) id (fun _ => id)
    · rw [planes_setPlane] at hp
      split at hp
      · rename_i hsame
        rw [← hsame] at hplane
        rw [← Option.some.inj hp]
        exact (h p plane hplane).quiet (fun _ => id) id (fun _ => id) (fun _ => rfl)
          (fun _ hheld => nomatch hheld)
      · exact (h p plane' hp).unmoved (fun _ => id) id (fun _ => id)
  | persist q t =>
    obtain ⟨plane, hplane, hadmitted, ⟨err, herr, -⟩ | ⟨rows, row, hrows, rfl⟩⟩ :=
      persist_cases hstep
    · obtain ⟨ht, -⟩ := (hfloored.planes q plane hplane).held hadmitted
      exact absurd herr (upsertSyncSchedule_of_floor ht _ _ err)
    · dsimp only at hp
      rw [planes_setPlane] at hp
      split at hp
      · rename_i hsame
        rw [← hsame] at hplane ⊢
        rw [← Option.some.inj hp]
        exact (h p plane hplane).persist hfloored.keys hrows
      · rename_i hother
        exact (h p plane' hp).overwritten hfloored.keys hrows ⟨Ne.symm hother, rfl⟩
          (fun _ => Eq.symm) id (fun _ => id)
  | apply q t =>
    obtain ⟨plane, hplane, hpersisted, rfl⟩ := apply_cases hstep
    have hserving := ((hfloored.planes q plane hplane).held hpersisted).2
    by_cases hsame : p = q
    · rw [← hsame] at hplane ⊢
      cases henabled : t.enabled with
      | true =>
        rw [henabled, if_pos rfl, planes_arm, if_pos hsame] at hp
        rw [← Option.some.inj hp]
        refine (h p plane hplane).apply hpersisted (fun _ hheld => nomatch hheld) ?_
        intro key
        have htoggle := cadenceIn_toggle hserving t s.nextTask (some (t, .applied)) key
        rwa [henabled] at htoggle
      | false =>
        rw [henabled, if_neg Bool.false_ne_true, planes_disarm, if_pos hsame] at hp
        rw [← Option.some.inj hp]
        refine (h p plane hplane).apply hpersisted (fun _ hheld => nomatch hheld) ?_
        intro key
        have htoggle := cadenceIn_toggle hserving t s.nextTask (some (t, .applied)) key
        rwa [henabled] at htoggle
    · have hold : s.planes p = some plane' := by
        split at hp
        · rwa [planes_arm, if_neg hsame] at hp
        · rwa [planes_disarm, if_neg hsame] at hp
      have hunmoved := (h p plane' hold).unmoved (e := .apply q t) (fun _ => id) id
        (fun _ happlies => hsame happlies.1.symm)
      split
      · exact hunmoved
      · exact hunmoved
  | leave q sent =>
    obtain ⟨plane, hplane, rfl⟩ := leave_cases hstep
    dsimp only at hp
    rw [planes_setPlane] at hp
    split at hp
    · rename_i hsame
      rw [← hsame] at hplane
      rw [← Option.some.inj hp]
      exact (h p plane hplane).quiet (fun _ => id) id (fun _ => id) (fun _ => rfl)
        (fun _ hheld => nomatch hheld)
    · exact (h p plane' hp).unmoved (fun _ => id) id (fun _ => id)
  | land q t =>
    obtain ⟨hstray, ⟨err, herr, -⟩ | ⟨rows, row, hrows, rfl⟩⟩ := land_cases hstep
    · exact absurd herr (upsertSyncSchedule_of_floor (hfloored.stray q t hstray) _ _ err)
    · exact (h p plane' hp).overwritten hfloored.keys hrows rfl (fun _ => Eq.symm) id
        (fun _ => id)
  | exit id' =>
    obtain ⟨-, rfl⟩ := exit_cases hstep
    exact (h p plane' hp).unmoved (fun _ => id) id (fun _ => id)
  | stop q sent =>
    obtain ⟨plane, hplane, rfl⟩ := stop_cases hstep
    dsimp only at hp
    by_cases hsame : p = q
    · rw [hsame, Function.update_self] at hp
      cases hp
    · rw [Function.update_of_ne hsame] at hp
      exact (h p plane' hp).unmoved (fun _ => id) id (fun _ => id)

/-- In each process that is up, the cadence of a source is what the table says, unless since the
process started the row was last written elsewhere, or by a toggle of its own that it has not
applied since, or the start could not list the rows. -/
theorem cadence_follows_schedule {events : List SchedulerEvent} {s : SyncService}
    (hrun : run SyncService.step SyncService.start events = some s) {p : ServerId}
    {plane : SyncPlane} (hplane : s.planes p = some plane) (key : WorkerKey) :
    cadenceIn plane key = wantedCadence s.schedules key ∨ Unheeded p key events := by
  have hexplained : Floored s ∧ AllExplained events s := by
    refine run_trace (I := fun events s => Floored s ∧ AllExplained events s)
      ⟨floored_start, fun p plane hplane => nomatch hplane⟩ ?_ hrun
    intro past s₁ e s₂ _ h hstep
    exact ⟨floored_step h.1 hstep, explained_step h.1 h.2 hstep⟩
  exact (hexplained.2 p plane hplane).cadence key

/-- A second process disables the source that the first one has enabled. -/
theorem disabled_elsewhere_unheeded :
    ∃ s plane, run SyncService.step SyncService.start
        (.boot 1 true :: (served 1 ⟨7, true, none⟩ ⟨(7, "gdrive"), 300, true⟩ ++
          .boot 2 false :: served 2 ⟨7, false, none⟩ ⟨(7, "gdrive"), 300, false⟩)) = some s ∧
      s.planes 1 = some plane ∧ cadenceIn plane (7, "gdrive") = some 300 ∧
      wantedCadence s.schedules (7, "gdrive") = none ∧
      Unheeded 1 (7, "gdrive")
        (.boot 1 true :: (served 1 ⟨7, true, none⟩ ⟨(7, "gdrive"), 300, true⟩ ++
          .boot 2 false :: served 2 ⟨7, false, none⟩ ⟨(7, "gdrive"), 300, false⟩)) := by
  have hview : (run SyncService.step SyncService.start
      (.boot 1 true :: (served 1 ⟨7, true, none⟩ ⟨(7, "gdrive"), 300, true⟩ ++
        .boot 2 false :: served 2 ⟨7, false, none⟩ ⟨(7, "gdrive"), 300, false⟩))).bind (fun s =>
          (s.planes 1).map fun plane =>
            (cadenceIn plane (7, "gdrive"), wantedCadence s.schedules (7, "gdrive"))) =
      some (some 300, none) := by
    decide +kernel
  obtain ⟨s, hs, hread⟩ := Option.bind_eq_some_iff.mp hview
  obtain ⟨plane, hplane, hcadences⟩ := Option.map_eq_some_iff.mp hread
  obtain ⟨harmed, hwanted⟩ := Prod.mk.inj hcadences
  refine ⟨s, plane, hs, hplane, harmed, hwanted, ?_⟩
  refine (cadence_follows_schedule hs hplane (7, "gdrive")).resolve_left ?_
  rw [harmed, hwanted]
  exact Option.some_ne_none 300

end Verity.Analysis
