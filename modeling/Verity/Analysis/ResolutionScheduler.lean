import Verity.Analysis.FactLifecycle
import Verity.Model.ResolutionScheduler

/-!
# The trigger of the resolver

A tenant whose facts have changed since the last run read them is marked, or an ingest that changed
them is still in flight. Three steps break this: an ingest that fails after it has changed facts, a
delivery to a manifest, which never marks, and a stamp, which clears the mark of an ingest that
ended while the run was on. `triggered_of_safe`: in every interleaving in which these steps leave a
change behind that is accounted for, no trigger is lost.
-/

set_option autoImplicit false

namespace Verity.Analysis

open Verity.Foundation
open Verity.Model

variable {tenant : TenantId} {ingests : List Ingest} {i : Nat} {ing : Ingest}

/-! ## Marks -/

theorem entryOf_modify (s : ResolutionScheduler) (tenant : TenantId)
    (f : TenantState → TenantState) (tenant' : TenantId) :
    (s.modify tenant f).entryOf tenant' =
      if tenant' = tenant then some (f ((s.entryOf tenant).getD ⟨false, none⟩))
      else s.entryOf tenant' := by
  unfold ResolutionScheduler.modify
  cases hentry : s.entryOf tenant with
  | none =>
    unfold ResolutionScheduler.entryOf at hentry ⊢
    dsimp only
    rw [List.find?_append, Option.map_or]
    by_cases htenant : tenant' = tenant
    · subst htenant
      rw [hentry, if_pos rfl]
      simp
    · rw [if_neg htenant]
      have hne : ¬ tenant = tenant' := fun h => htenant h.symm
      simp [hne]
  | some st =>
    unfold ResolutionScheduler.entryOf at hentry ⊢
    dsimp only
    rw [find?_updateWhere (f := fun e => (e.1, f e.2)) (fun _ => rfl), Option.map_map]
    by_cases htenant : tenant' = tenant
    · subst htenant
      rw [if_pos rfl]
      obtain ⟨e, he, rfl⟩ := Option.map_eq_some_iff.mp hentry
      have hkey := List.find?_some he
      rw [he, Option.map_some, Function.comp_apply, hkey, if_pos rfl]
      rfl
    · rw [if_neg htenant]
      cases hfind : s.tenants.find? fun e => decide (e.1 = tenant') with
      | none => rfl
      | some e =>
        have hkey := List.find?_some hfind
        rw [decide_eq_true_eq] at hkey
        have hother : decide (e.1 = tenant) = false :=
          decide_eq_false fun h => htenant (hkey.symm.trans h)
        rw [Option.map_some, Option.map_some, Function.comp_apply, hother]
        rfl

theorem isDirty_markDirty {s : ResolutionScheduler} {debounce : Nat}
    (hdebounce : s.debounce = some debounce) (tenant tenant' : TenantId) :
    (s.markDirty tenant).isDirty tenant' = (decide (tenant' = tenant) || s.isDirty tenant') := by
  unfold ResolutionScheduler.markDirty ResolutionScheduler.isDirty
  rw [hdebounce, if_neg (by simp), entryOf_modify]
  by_cases htenant : tenant' = tenant
  · simp [htenant]
  · simp [htenant]

theorem isDirty_stampResolved (s : ResolutionScheduler) (tenant : TenantId) (now : Nat)
    (tenant' : TenantId) :
    (s.stampResolved tenant now).isDirty tenant' =
      (decide (tenant' ≠ tenant) && s.isDirty tenant') := by
  unfold ResolutionScheduler.stampResolved ResolutionScheduler.isDirty
  rw [entryOf_modify]
  by_cases htenant : tenant' = tenant
  · simp [htenant]
  · simp [htenant]

theorem debounce_markDirty (s : ResolutionScheduler) (tenant : TenantId) :
    (s.markDirty tenant).debounce = s.debounce := by
  unfold ResolutionScheduler.markDirty
  split
  · rfl
  · rfl

/-- A marked tenant is due once the window is over. -/
theorem exists_due_of_isDirty {s : ResolutionScheduler} {debounce : Nat}
    (hdebounce : s.debounce = some debounce) (hwindow : 0 < debounce)
    (h : s.isDirty tenant = true) : ∃ start, ∀ now, start ≤ now → tenant ∈ s.dueTenants now := by
  obtain ⟨st, hentry, hdirty⟩ := (Option.any_eq_true _ _).mp h
  obtain ⟨e, he, rfl⟩ := Option.map_eq_some_iff.mp hentry
  have htenant := List.find?_some he
  rw [decide_eq_true_eq] at htenant
  refine ⟨e.2.lastResolve.getD 0 + debounce, fun now hnow => ?_⟩
  unfold ResolutionScheduler.dueTenants
  rw [hdebounce]
  refine List.mem_map.mpr ⟨e, List.mem_filter.mpr ⟨List.mem_of_find?_eq_some he, ?_⟩, htenant⟩
  have hzero : (debounce == 0) = false := beq_eq_false_iff_ne.mpr hwindow.ne'
  unfold due
  rw [hdirty, hzero]
  cases hlast : e.2.lastResolve with
  | none => rfl
  | some last =>
    rw [hlast, Option.getD_some] at hnow
    show decide (debounce ≤ now - last) = true
    rw [decide_eq_true_eq]
    omega

/-! ## Fact writes -/

/-- A write changes the current facts of no other tenant, and counts if it changes those of its
own. -/
theorem currentFacts_execute {db db' : Database} {now : Time} {change : FactChange} {count : Nat}
    (htenant : ∀ fact, change = .upsertFact fact → fact.tenantId = tenant)
    (h : change.execute db tenant now = .ok (db', count)) (tenant' : TenantId)
    (hother : tenant' ≠ tenant ∨ count = 0) :
    currentFacts db' tenant' = currentFacts db tenant' := by
  unfold currentFacts
  cases change with
  | upsertFact fact =>
    obtain ⟨t, o, hok, hup⟩ := upsertFact_database db now fact
    unfold FactChange.execute at h
    dsimp only at h
    rw [hok] at h
    cases h
    have hfact := htenant fact rfl
    generalize hrows : t.rows = rows at hup
    have hnew : ∀ validTo, tenant' ≠ tenant ∨ validTo ≠ none →
        [fact.toRow db.facts.nextId now validTo].filter
          (fun r => decide (r.tenantId = tenant' ∧ r.validTo = none)) = [] := by
      intro validTo hne
      rw [List.filter_eq_nil_iff]
      intro r hr
      obtain rfl := List.mem_singleton.mp hr
      rw [decide_eq_true_eq]
      rintro ⟨hsame, hnone⟩
      exact hne.elim (fun hne => hne (hsame.symm.trans hfact)) fun hne => hne hnone
    cases hup with
    | inserted hnone =>
      have hne : tenant' ≠ tenant := hother.resolve_right (by simp)
      rw [List.filter_append, hnew none (Or.inl hne), List.append_nil]
    | unchanged cur hcur hvalue => rfl
    | stale cur hcur hvalue hle =>
      rw [List.filter_append, hnew _ (Or.inr (by simp)), List.append_nil]
    | superseded cur hcur hvalue hlt =>
      have hne : tenant' ≠ tenant := hother.resolve_right (by simp)
      rw [List.filter_append, hnew none (Or.inl hne), List.append_nil]
      apply filter_map_frame
      intro r hr
      by_cases hid : r.id = cur.id
      · have hmem := currentRow_eq_some_iff.mp hcur
        obtain rfl := eq_of_id_eq hr hmem.1 hid
        have htenant' : r.tenantId ≠ tenant' := by
          rw [hmem.2.1, hfact]
          exact hne.symm
        refine Or.inr ⟨?_, ?_⟩
        · simp [htenant']
        · rw [(closeRow_key _ _ _ r).1]
          simp [htenant']
      · exact Or.inl (if_neg hid)
  | retireEntity source entityId deletedAt =>
    cases h
    apply filter_map_frame
    intro r hr
    by_cases hhit : (decide (r.tenantId = tenant ∧ r.key.source = source ∧
        r.key.entityId = entityId) && decide (r.validTo = none)) = true
    · rcases hother with hne | hzero
      · obtain ⟨hkey, -⟩ := (Bool.and_eq_true _ _).mp hhit
        have htenant' : r.tenantId ≠ tenant' := by
          rw [(of_decide_eq_true hkey).1]
          exact hne.symm
        refine Or.inr ⟨?_, ?_⟩
        · simp [htenant']
        · rw [if_pos hhit]
          simp
      · have hnone := List.length_eq_zero_iff.mp hzero
        exact absurd hhit (by simpa using List.filter_eq_nil_iff.mp hnone r hr)
    · exact Or.inl (if_neg hhit)

/-! ## What is accounted for -/

/-- An ingest of the tenant in flight has changed facts. -/
def Owed (ingests : List Ingest) (tenant : TenantId) : Prop :=
  ∃ ing ∈ ingests, ing.tenant = tenant ∧ 0 < ing.changed

/-- The current facts of the tenant are not those its last run read. -/
def ChangedSince (s : ResolvingServer) (tenant : TenantId) : Prop :=
  currentFacts s.db tenant ≠ s.lastRead tenant

/-- When nothing is in flight for a tenant whose facts have changed since its last run read them,
the tenant is marked. -/
def Triggered (s : ResolvingServer) : Prop :=
  ∀ tenant, (∀ ing ∈ s.ingests, ing.tenant ≠ tenant) → (∀ run ∈ s.running, run.1 ≠ tenant) →
    ChangedSince s tenant → s.scheduler.isDirty tenant = true

/-- The invariant: a change is marked, or an ingest that made one is in flight. -/
structure Scheduled (debounce : Nat) (s : ResolvingServer) : Prop where
  enabled : s.scheduler.debounce = some debounce
  tenants : ∀ ing ∈ s.ingests, ∀ fact, some (.upsertFact fact) ∈ ing.todo →
    fact.tenantId = ing.tenant
  marked : ∀ tenant, ChangedSince s tenant →
    s.scheduler.isDirty tenant = true ∨ Owed s.ingests tenant

/-- The ingest at a position can end without a mark: it has changed nothing, or what it changed is
read by a run or accounted for without it. -/
def EndsSafely (s : ResolvingServer) (i : Nat) (ing : Ingest) : Prop :=
  0 < ing.changed → ChangedSince s ing.tenant →
    s.scheduler.isDirty ing.tenant = true ∨ Owed (s.ingests.eraseIdx i) ing.tenant

/-- The step leaves no change unaccounted for: an ingest that ends without a mark ends safely, and
a run is stamped with the current facts as it read them, unless an ingest that changed some is still
in flight. -/
def SafeStep (s : ResolvingServer) : ResolvingEvent → Prop
  | .fail i => ∀ ing ∈ s.ingests[i]?, EndsSafely s i ing
  | .finish i => ∀ ing ∈ s.ingests[i]?, ing.marks = false → EndsSafely s i ing
  | .stamp _ => ∀ run ∈ s.running, currentFacts s.db run.1 ≠ run.2 → Owed s.ingests run.1
  | _ => True

instance decidableSafeStep (s : ResolvingServer) : (event : ResolvingEvent) →
    Decidable (SafeStep s event)
  | .fail i => inferInstanceAs (Decidable (∀ ing ∈ s.ingests[i]?, 0 < ing.changed →
      currentFacts s.db ing.tenant ≠ s.lastRead ing.tenant →
      s.scheduler.isDirty ing.tenant = true ∨
        ∃ other ∈ s.ingests.eraseIdx i, other.tenant = ing.tenant ∧ 0 < other.changed))
  | .finish i => inferInstanceAs (Decidable (∀ ing ∈ s.ingests[i]?, ing.marks = false →
      0 < ing.changed → currentFacts s.db ing.tenant ≠ s.lastRead ing.tenant →
      s.scheduler.isDirty ing.tenant = true ∨
        ∃ other ∈ s.ingests.eraseIdx i, other.tenant = ing.tenant ∧ 0 < other.changed))
  | .stamp _ => inferInstanceAs (Decidable (∀ run ∈ s.running, currentFacts s.db run.1 ≠ run.2 →
      ∃ ing ∈ s.ingests, ing.tenant = run.1 ∧ 0 < ing.changed))
  | .begin _ | .write _ _ | .tick _ _ | .read => isTrue trivial

/-- The fact writes of an ingest are for its own tenant. -/
theorem tenant_of_mem_start {request : IngestRequest} {fact : FactWrite}
    (h : some (.upsertFact fact) ∈ request.start.todo) : fact.tenantId = request.start.tenant := by
  cases request with
  | debezium tenant envelopes =>
    obtain ⟨⟨episode, event⟩, -, hmem⟩ := List.mem_flatMap.mp h
    cases event with
    | none => simp at hmem
    | some ev =>
      obtain ⟨change, hchange, heq⟩ := List.mem_map.mp hmem
      cases heq
      unfold ChangeEvent.changes at hchange
      cases hop : ev.op with
      | delete =>
        rw [hop] at hchange
        simp at hchange
      | upsert =>
        rw [hop] at hchange
        cases hacl : ev.acl with
        | none =>
          rw [hacl] at hchange
          cases hchange
        | some acl =>
          rw [hacl] at hchange
          obtain ⟨field, -, hfact⟩ := List.mem_map.mp hchange
          cases hfact
          rfl
  | documents tenant => cases h
  | file tenant => cases h
  | webhook _ _ _ _ | reingest _ =>
    obtain ⟨f, -, hfact⟩ := List.mem_map.mp h
    cases hfact
    rfl
  | manifest instant ctx writes =>
    obtain ⟨w, hw, hfact⟩ := List.mem_map.mp h
    cases hfact
    obtain ⟨entity, -, hw⟩ := List.mem_flatMap.mp hw
    obtain ⟨field, -, rfl⟩ := List.mem_map.mp hw
    rfl

theorem Owed.append (h : Owed ingests tenant) (ing : Ingest) : Owed (ingests ++ [ing]) tenant := by
  obtain ⟨ing', hmem, hing⟩ := h
  exact ⟨ing', List.mem_append_left _ hmem, hing⟩

/-- An ingest that goes on owes what it owed. -/
theorem Owed.set (h : Owed ingests tenant) {ing' : Ingest} (hi : ingests[i]? = some ing)
    (htenant : ing'.tenant = ing.tenant) (hchanged : ing.changed ≤ ing'.changed) :
    Owed (ingests.set i ing') tenant := by
  obtain ⟨other, hmem, howner, hpos⟩ := h
  obtain ⟨j, hj⟩ := List.mem_iff_getElem?.mp hmem
  obtain ⟨hlt, -⟩ := List.getElem?_eq_some_iff.mp hi
  by_cases hij : i = j
  · subst hij
    rw [hi] at hj
    cases hj
    refine ⟨ing', List.mem_iff_getElem?.mpr ⟨i, List.getElem?_set_self hlt⟩, ?_, ?_⟩
    · rw [htenant, howner]
    · exact lt_of_lt_of_le hpos hchanged
  · refine ⟨other, List.mem_iff_getElem?.mpr ⟨j, ?_⟩, howner, hpos⟩
    rw [List.getElem?_set_ne hij, hj]

/-- When an ingest ends, the others owe what they owed. -/
theorem Owed.eraseIdx (h : Owed ingests tenant) (hi : ingests[i]? = some ing)
    (hend : ing.tenant = tenant → ing.changed = 0) : Owed (ingests.eraseIdx i) tenant := by
  obtain ⟨other, hmem, howner, hpos⟩ := h
  obtain ⟨j, hj⟩ := List.mem_iff_getElem?.mp hmem
  refine ⟨other, List.mem_eraseIdx_iff_getElem?.mpr ⟨j, ?_, hj⟩, howner, hpos⟩
  rintro rfl
  rw [hi] at hj
  cases hj
  exact hpos.ne' (hend howner)

section Steps

variable {debounce : Nat} {s s' : ResolvingServer}

theorem scheduled_boot (db : Database) (debounce : Nat) :
    Scheduled debounce (ResolvingServer.boot db debounce) :=
  ⟨rfl, fun _ hing => absurd hing List.not_mem_nil, fun _ hchanged => absurd rfl hchanged⟩

theorem Scheduled.begin (h : Scheduled debounce s) (request : IngestRequest) :
    Scheduled debounce { s with ingests := s.ingests ++ [request.start] } := by
  refine ⟨h.enabled, fun ing hing fact hfact => ?_, fun tenant hchanged => ?_⟩
  · rcases List.mem_append.mp hing with hing | hing
    · exact h.tenants ing hing fact hfact
    · obtain rfl := List.mem_singleton.mp hing
      exact tenant_of_mem_start hfact
  · exact (h.marked tenant hchanged).imp_right fun howed => howed.append request.start

theorem Scheduled.write (h : Scheduled debounce s) {now : Time} {path : IngestPath}
    {change : FactChange} {todo : List (Option FactChange)} {changed : Nat}
    (hi : s.ingests[i]? = some ⟨path, tenant, some change :: todo, changed⟩) {db : Database}
    {count : Nat} (hexecute : change.execute s.db tenant now = .ok (db, count)) :
    Scheduled debounce { s with
      db := db
      ingests := s.ingests.set i ⟨path, tenant, todo, changed + count⟩ } := by
  have hmem := List.mem_iff_getElem?.mpr ⟨i, hi⟩
  have hown : ∀ fact, change = .upsertFact fact → fact.tenantId = tenant := by
    rintro fact rfl
    exact h.tenants _ hmem fact List.mem_cons_self
  refine ⟨h.enabled, fun ing hing fact hfact => ?_, fun tenant' hchanged => ?_⟩
  · rcases List.mem_or_eq_of_mem_set hing with hing | rfl
    · exact h.tenants ing hing fact hfact
    · exact h.tenants _ hmem fact (List.mem_cons_of_mem _ hfact)
  · by_cases hcounts : tenant' = tenant ∧ count ≠ 0
    · obtain ⟨rfl, hcount⟩ := hcounts
      obtain ⟨hlt, -⟩ := List.getElem?_eq_some_iff.mp hi
      refine Or.inr ⟨_, List.mem_iff_getElem?.mpr ⟨i, List.getElem?_set_self hlt⟩, rfl, ?_⟩
      exact Nat.add_pos_right _ (Nat.pos_of_ne_zero hcount)
    · have hother : tenant' ≠ tenant ∨ count = 0 := by
        by_cases hsame : tenant' = tenant
        · exact Or.inr (by_contra fun hcount => hcounts ⟨hsame, hcount⟩)
        · exact Or.inl hsame
      have hsame := currentFacts_execute hown hexecute tenant' hother
      have hbefore : ChangedSince s tenant' := fun heq => hchanged (hsame.trans heq)
      exact (h.marked tenant' hbefore).imp_right fun howed =>
        howed.set hi rfl (Nat.le_add_right _ _)

/-- An ingest ends without a mark. -/
theorem Scheduled.leave (h : Scheduled debounce s) (hi : s.ingests[i]? = some ing)
    (hsafe : EndsSafely s i ing) :
    Scheduled debounce { s with ingests := s.ingests.eraseIdx i } := by
  refine ⟨h.enabled, fun ing' hing' fact hfact => ?_, fun tenant hchanged => ?_⟩
  · exact h.tenants ing' (List.mem_of_mem_eraseIdx hing') fact hfact
  · by_cases howes : ing.tenant = tenant ∧ ing.changed ≠ 0
    · obtain ⟨rfl, hne⟩ := howes
      exact hsafe (Nat.pos_of_ne_zero hne) hchanged
    · refine (h.marked tenant hchanged).imp_right fun howed => howed.eraseIdx hi fun htenant => ?_
      exact by_contra fun hne => howes ⟨htenant, hne⟩

/-- An ingest ends with a mark. -/
theorem Scheduled.mark (h : Scheduled debounce s) (hi : s.ingests[i]? = some ing) :
    Scheduled debounce { s with
      ingests := s.ingests.eraseIdx i
      scheduler := s.scheduler.markDirty ing.tenant } := by
  refine ⟨?_, fun ing' hing' fact hfact => ?_, fun tenant hchanged => ?_⟩
  · exact (debounce_markDirty s.scheduler ing.tenant).trans h.enabled
  · exact h.tenants ing' (List.mem_of_mem_eraseIdx hing') fact hfact
  · dsimp only
    rw [isDirty_markDirty h.enabled]
    by_cases htenant : tenant = ing.tenant
    · exact Or.inl (by simp [htenant])
    · rcases h.marked tenant hchanged with hdirty | howed
      · exact Or.inl (by rw [hdirty, Bool.or_true])
      · exact Or.inr (howed.eraseIdx hi fun hsame => absurd hsame.symm htenant)

theorem Scheduled.stamp (h : Scheduled debounce s) (now : Nat) {rows : List FactRow}
    (hsafe : currentFacts s.db tenant ≠ rows → Owed s.ingests tenant) :
    Scheduled debounce { s with
      scheduler := s.scheduler.stampResolved tenant now
      running := none
      lastRead := Function.update s.lastRead tenant rows } := by
  refine ⟨h.enabled, h.tenants, fun tenant' hchanged => ?_⟩
  unfold ChangedSince at hchanged
  dsimp only at hchanged ⊢
  by_cases htenant : tenant' = tenant
  · subst htenant
    rw [Function.update_self] at hchanged
    exact Or.inr (hsafe hchanged)
  · rw [Function.update_of_ne htenant] at hchanged
    rw [isDirty_stampResolved, decide_eq_true htenant, Bool.true_and]
    exact h.marked tenant' hchanged

/-- What one safe step keeps. -/
theorem scheduled_step {event : ResolvingEvent} (h : Scheduled debounce s)
    (hsafe : SafeStep s event) (hstep : s.step event = some s') : Scheduled debounce s' := by
  unfold ResolvingServer.step at hstep
  cases event with
  | begin request =>
    cases hstep
    exact h.begin request
  | write i now =>
    dsimp only at hstep
    split at hstep
    · rename_i hi
      split at hstep
      · cases hstep
      · rename_i hexecute
        cases hstep
        exact h.write hi hexecute
    · cases hstep
  | fail i =>
    dsimp only at hstep
    split at hstep
    · cases hstep
    · rename_i ing hi
      cases hstep
      exact h.leave hi (hsafe ing hi)
  | finish i =>
    dsimp only at hstep
    split at hstep
    · rename_i ing hi
      split at hstep
      · cases hstep
        cases hmarks : ing.marks with
        | false => exact h.leave hi (hsafe ing hi hmarks)
        | true => exact h.mark hi
      · cases hstep
    · cases hstep
  | tick _ _ | read =>
    dsimp only at hstep
    split at hstep
    · cases hstep
      exact ⟨h.enabled, h.tenants, h.marked⟩
    · cases hstep
  | stamp now =>
    dsimp only at hstep
    split at hstep
    · cases hstep
    · rename_i tenant rows hrunning
      cases hstep
      exact h.stamp now (hsafe (tenant, rows) hrunning)

theorem Scheduled.triggered (h : Scheduled debounce s) : Triggered s := by
  intro tenant hquiet _ hchanged
  refine (h.marked tenant hchanged).resolve_right ?_
  rintro ⟨ing, hing, htenant, -⟩
  exact hquiet ing hing htenant

end Steps

/-- From the start of the server with auto-resolve enabled, in every interleaving of ingests with
the loop whose steps are all safe: a tenant whose facts have changed since they were last read is
marked when nothing of it is in flight, and a marked tenant is due once the window is over. -/
theorem triggered_of_safe (db : Database) {debounce : Nat} {events : List ResolvingEvent}
    {s : ResolvingServer} (hrun : run ResolvingServer.step (.boot db debounce) events = some s)
    (hsafe : Along ResolvingServer.step SafeStep (.boot db debounce) events) :
    Triggered s ∧ (0 < debounce → ∀ tenant, s.scheduler.isDirty tenant = true →
      ∃ start, ∀ now, start ≤ now → tenant ∈ s.scheduler.dueTenants now) := by
  have h : Scheduled debounce s :=
    run_invariant (fun _ _ _ h hsafe hstep => scheduled_step h hsafe hstep)
      (scheduled_boot db debounce) hsafe hrun
  exact ⟨h.triggered, fun hwindow _ hdirty => exists_due_of_isDirty h.enabled hwindow hdirty⟩

/-- The owner of a deal, as the CRM's database changes it. -/
def ownerBatch (owner : String) (occurredAt : Instant)
    (rest : List (EpisodeId × Option ChangeEvent)) : IngestRequest :=
  .debezium 1 ((1, some
    { source := "crm"
      entityId := "1"
      op := .upsert
      fields := [("owner", .str owner)]
      occurredAt := occurredAt
      acl := some ⟨[10], .internal, .adminAssigned⟩ }) :: rest)

/-- A second batch writes while the run is on, and marks after it. -/
def lateMark : List ResolvingEvent :=
  [.begin (ownerBatch "ann" 5 []), .write 0 6, .finish 0, .begin (ownerBatch "bob" 11 []),
    .tick 10 [1], .read, .write 0 12, .stamp 20, .finish 0]

/-- The batch that writes during the run marks after the stamp, so the tenant is dirty and the next
run is triggered. -/
theorem late_mark_triggers :
    ∃ s, run ResolvingServer.step (.boot .empty 900) lateMark = some s ∧
      s.scheduler.isDirty 1 = true ∧ Triggered s := by
  have hview : (run ResolvingServer.step (.boot .empty 900) lateMark).map
      (fun s => s.scheduler.isDirty 1) = some true := by
    decide +kernel
  obtain ⟨s, hrun, hdirty⟩ := Option.map_eq_some_iff.mp hview
  exact ⟨s, hrun, hdirty, (triggered_of_safe .empty hrun (by decide +kernel)).1⟩

/-- A second batch writes and marks while the run is on. -/
def earlyMark : List ResolvingEvent :=
  [.begin (ownerBatch "ann" 5 []), .write 0 6, .finish 0, .tick 10 [1], .read,
    .begin (ownerBatch "bob" 11 []), .write 0 12, .finish 0, .stamp 20]

/-- The second envelope of a batch does not parse. -/
def brokenBatch : List ResolvingEvent :=
  [.begin (ownerBatch "ann" 5 [(2, none)]), .write 0 6, .fail 0]

/-- A delivery to a manifest ends well. -/
def manifestBatch : List ResolvingEvent :=
  [.begin (.manifest (⟨·⟩) ⟨1, "crm", [10], .internal, .adminAssigned, 1⟩
      [⟨"deal", "1", 5, [("owner", .str "ann")], none⟩]), .write 0 6, .finish 0]

/-- After the run nothing is in flight, the facts of a tenant have changed since they were last
read, and it is not marked. -/
def LosesTrigger (events : List ResolvingEvent) : Prop :=
  ∃ s, run ResolvingServer.step (.boot .empty 900) events = some s ∧ s.ingests = [] ∧
    s.running = none ∧ ¬ Triggered s

theorem losesTrigger_of_view {events : List ResolvingEvent}
    (hview : (run ResolvingServer.step (.boot .empty 900) events).map (fun s =>
      (s.ingests.isEmpty, s.running.isNone, decide (currentFacts s.db 1 = s.lastRead 1),
        s.scheduler.isDirty 1)) = some (true, true, false, false)) : LosesTrigger events := by
  obtain ⟨s, hrun, hview⟩ := Option.map_eq_some_iff.mp hview
  obtain ⟨hingests, hview⟩ := Prod.mk.inj hview
  obtain ⟨hrunning, hview⟩ := Prod.mk.inj hview
  obtain ⟨hchanged, hclean⟩ := Prod.mk.inj hview
  rw [List.isEmpty_iff] at hingests
  rw [Option.isNone_iff_eq_none] at hrunning
  refine ⟨s, hrun, hingests, hrunning, fun h => ?_⟩
  have hdirty := h 1 (by simp [hingests]) (by simp [hrunning]) (of_decide_eq_false hchanged)
  rw [hclean] at hdirty
  cases hdirty

/-- A mark that the stamp of a run clears, a batch that fails after its facts, and a delivery to a
manifest: each leaves a change that nothing triggers a run for. -/
theorem triggers_lost :
    LosesTrigger earlyMark ∧ LosesTrigger brokenBatch ∧ LosesTrigger manifestBatch :=
  ⟨losesTrigger_of_view (by decide +kernel), losesTrigger_of_view (by decide +kernel),
    losesTrigger_of_view (by decide +kernel)⟩

end Verity.Analysis
