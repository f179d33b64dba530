import Verity.Analysis.FactUpsert

/-!
# Delivery order of the bi-temporal fact store

The store is meant to be a timeline (`Foundation.latest`, `Foundation.latestAt`): whatever
order the events of a key arrive in, the current value is that of the latest event, and
the value as of an instant is that of the latest event not after it.

An event that is written into the table keeps the table a timeline (`Tracks.keep`): its
row is closed, if at all, at the start of a later event, which is all that the lookup by
interval needs. Two things go wrong. An event whose value equals the current value is not
written. `upsertFact` drops it without comparing event times, so a later event is
forgotten when its value is already current (and a late one in between then wins), and an
earlier one leaves a hole in the history. And events are told apart by the nanosecond, but
rows and reads by the microsecond: of two events of one microsecond, the one delivered last
stands. `every_order_answers_latest_iff` is the exact condition: all orders of a set of events
answer as the timeline does if and only if the events that carry one value are those that are
stored at one microsecond, and every such microsecond begins with an event (`StoredApart`).
-/

set_option autoImplicit false

namespace Verity.Analysis

open Verity.Model Verity.Foundation

variable {t : FactTable} {tenant : TenantId} {key : FactKey} {kept : List FactWrite} {r : FactRow}
  {e : FactWrite} {t' : FactTable} {now : Time} {o : FactUpsertOutcome} {scope : Scope}
  {events : List FactWrite}

/-! ## Runs of writes -/

/-- The invariant rule for runs of writes: what every write of the run keeps holds after
the run, and the run ends. -/
theorem deliver_invariant {P : FactTable → Prop} (ds : List Delivery)
    (hstep : ∀ d ∈ ds, ∀ t t' o, P t → upsertFact t d.now d.fact = .ok (t', o) →
      Upserted t d.now d.fact t'.rows o → P t')
    (t : FactTable) (ht : P t) : ∃ t', deliver t ds = .ok t' ∧ P t' := by
  induction ds generalizing t with
  | nil => exact ⟨t, rfl, ht⟩
  | cons d ds ih =>
    obtain ⟨t₁, o, hok, hrows⟩ := upsertFact_spec t d.now d.fact
    have ht₁ : P t₁ := hstep d (by simp) t t₁ o ht hok hrows
    obtain ⟨t', hrun, ht'⟩ := ih (fun d' hd' => hstep d' (List.mem_cons_of_mem d hd')) t₁ ht₁
    refine ⟨t', ?_, ht'⟩
    simp [deliver, hok, bind, Except.bind, hrun]

theorem deliver_append (t : FactTable) (ds ds' : List Delivery) :
    deliver t (ds ++ ds') = (deliver t ds).bind fun t' => deliver t' ds' := by
  induction ds generalizing t with
  | nil => rfl
  | cons d ds ih =>
    obtain ⟨t₁, o, hok, -⟩ := upsertFact_spec t d.now d.fact
    simp only [List.cons_append, deliver, hok, bind, Except.bind]
    exact ih t₁

/-! ## The table as a timeline -/

/-- A row holds what its event said. -/
structure Matches (r : FactRow) (e : FactWrite) : Prop where
  value : r.value = e.value
  validFrom : r.validFrom = e.start
  visibility : r.visibility = e.visibility
  confidentiality : r.confidentiality = e.confidentiality

/-- The rows of a key are a timeline of the given events: every event has a row of its start and
value, closed only at the start of a later event, the current one being the latest. -/
structure Tracks (t : FactTable) (tenant : TenantId) (key : FactKey) (kept : List FactWrite) :
    Prop where
  row_of : ∀ e ∈ kept, ∃ r ∈ t.rowsOf tenant key, r.validFrom = e.start ∧ r.value = e.value
  of_row : ∀ r ∈ t.rowsOf tenant key, ∃ e ∈ kept, Matches r e
  stop_later : ∀ r ∈ t.rowsOf tenant key, ∀ x, r.validTo = some x →
    r.validFrom < x ∧ ∃ e ∈ kept, e.start = x
  current : kept ≠ [] → ∃ r, t.currentRow tenant key = some r ∧
    ∀ e ∈ kept, e.start ≤ r.validFrom

theorem Tracks.nil (h : t.rowsOf tenant key = []) : Tracks t tenant key [] where
  row_of := by simp
  of_row := by simp [h]
  stop_later := by simp [h]
  current := by simp

theorem Tracks.perm {kept' : List FactWrite} (h : Tracks t tenant key kept) (hp : kept.Perm kept') :
    Tracks t tenant key kept' where
  row_of := fun e he => h.row_of e (hp.mem_iff.mpr he)
  of_row := by
    intro r hr
    obtain ⟨e, he, hre⟩ := h.of_row r hr
    exact ⟨e, hp.mem_iff.mp he, hre⟩
  stop_later := by
    intro r hr x hx
    obtain ⟨hlt, e, he, hex⟩ := h.stop_later r hr x hx
    exact ⟨hlt, e, hp.mem_iff.mp he, hex⟩
  current := by
    intro hne
    obtain ⟨r, hr, hmax⟩ := h.current fun hnil => hne (by rw [hnil] at hp; exact hp.nil_eq.symm)
    exact ⟨r, hr, fun e he => hmax e (hp.mem_iff.mpr he)⟩

theorem matches_toRow (e : FactWrite) (id : FactId) (now : Time) (validTo : Option Time) :
    Matches (e.toRow id now validTo) e :=
  ⟨rfl, rfl, rfl, rfl⟩

theorem closeRow_matches (h : Matches r e) (id newId : FactId) (x : Time) :
    Matches (closeRow id x newId r) e := by
  unfold closeRow
  split
  · exact ⟨h.value, h.validFrom, h.visibility, h.confidentiality⟩
  · exact h

/-- One more row, with the others rewritten only in where they end: still a timeline, if an
interval that newly ends does so at the new event, and the new one ends at a kept event. -/
theorem Tracks.extend {f : FactRow → FactRow} {id : FactId} {validTo : Option Time}
    (h : Tracks t e.tenantId e.key kept) (hf : ∀ r, (f r).tenantId = r.tenantId ∧ (f r).key = r.key)
    (hrows : t'.rows = t.rows.map f ++ [e.toRow id now validTo])
    (hmatch : ∀ r e', Matches r e' → Matches (f r) e')
    (hstop : ∀ r ∈ t.rowsOf e.tenantId e.key, ∀ x, (f r).validTo = some x →
      r.validTo = some x ∨ (r.validFrom < x ∧ e.start = x))
    (hstopNew : ∀ x, validTo = some x → e.start < x ∧ ∃ e' ∈ kept, e'.start = x)
    (hcurrent : ∃ r, t'.currentRow e.tenantId e.key = some r ∧ e.start ≤ r.validFrom ∧
      ∀ e' ∈ kept, e'.start ≤ r.validFrom) : Tracks t' e.tenantId e.key (kept ++ [e]) := by
  have hmem := mem_rowsOf_write hf hrows
  constructor
  · intro e' he'
    rw [List.mem_append, List.mem_singleton] at he'
    rcases he' with he' | rfl
    · obtain ⟨r, hr, hfrom, hvalue⟩ := h.row_of e' he'
      obtain ⟨e₀, -, hre⟩ := h.of_row r hr
      have hfr := hmatch r e₀ hre
      refine ⟨f r, (hmem _).mpr (Or.inl ⟨r, hr, rfl⟩), ?_, ?_⟩
      · rw [hfr.validFrom, ← hre.validFrom, hfrom]
      · rw [hfr.value, ← hre.value, hvalue]
    · exact ⟨_, (hmem _).mpr (Or.inr rfl), rfl, rfl⟩
  · intro r hr
    rcases (hmem r).mp hr with ⟨r₀, hr₀, rfl⟩ | rfl
    · obtain ⟨e', he', hre⟩ := h.of_row r₀ hr₀
      exact ⟨e', List.mem_append_left _ he', hmatch r₀ e' hre⟩
    · exact ⟨e, by simp, matches_toRow e _ _ _⟩
  · intro r hr x hx
    rcases (hmem r).mp hr with ⟨r₀, hr₀, rfl⟩ | rfl
    · obtain ⟨e', -, hre⟩ := h.of_row r₀ hr₀
      have hfrom : (f r₀).validFrom = r₀.validFrom := by
        rw [(hmatch r₀ e' hre).validFrom, hre.validFrom]
      rw [hfrom]
      rcases hstop r₀ hr₀ x hx with hx | ⟨hlt, heq⟩
      · obtain ⟨hlt, e', he', hex⟩ := h.stop_later r₀ hr₀ x hx
        exact ⟨hlt, e', List.mem_append_left _ he', hex⟩
      · exact ⟨hlt, e, by simp, heq⟩
    · obtain ⟨hlt, e', he', hex⟩ := hstopNew x hx
      exact ⟨hlt, e', List.mem_append_left _ he', hex⟩
  · intro _
    obtain ⟨r, hr, hnew, hkept⟩ := hcurrent
    refine ⟨r, hr, ?_⟩
    intro e' he'
    rw [List.mem_append, List.mem_singleton] at he'
    rcases he' with he' | rfl
    · exact hkept e' he'
    · exact hnew

/-- An event keeps the table a timeline, of one more event, where its value is that of the events
stored at its start and of no others. A dropped one has a row already. -/
theorem Tracks.keep (h : Tracks t tenant key kept) (hkey : e.tenantId = tenant ∧ e.key = key)
    (hvalues : ∀ e' ∈ kept, e'.value = e.value ↔ e'.start = e.start)
    (hup : Upserted t now e t'.rows o) : Tracks t' tenant key (kept ++ [e]) := by
  obtain ⟨rfl, rfl⟩ := hkey
  generalize hrows : t'.rows = rows at hup
  cases hup with
  | inserted hnone =>
    -- the key had no current row, so no event was kept before
    have hkept : kept = [] := by
      by_contra hne
      obtain ⟨r, hr, -⟩ := h.current hne
      rw [hnone] at hr
      exact Option.some_ne_none r hr.symm
    subst hkept
    rw [← List.map_id t.rows] at hrows
    refine h.extend (fun _ => ⟨rfl, rfl⟩) hrows (fun _ _ hre => hre) (fun _ _ _ hx => Or.inl hx)
      (by simp) ⟨e.toRow t.nextId now none, ?_, le_refl _, by simp⟩
    rw [currentRow_eq_some_iff, hrows]
    exact ⟨by simp, rfl, rfl, rfl⟩
  | unchanged cur hcur hvalue =>
    obtain ⟨ecur, hecur, hmatch⟩ := h.of_row cur (currentRow_mem_rowsOf hcur)
    have hstart : ecur.start = e.start :=
      (hvalues ecur hecur).mp (by rw [← hmatch.value, hvalue])
    have hsame := rowsOf_congr hrows e.tenantId e.key
    constructor
    · rw [hsame]
      intro e' he'
      rcases List.mem_append.mp he' with he' | he'
      · exact h.row_of e' he'
      · rw [List.mem_singleton.mp he']
        exact ⟨cur, currentRow_mem_rowsOf hcur, by rw [hmatch.validFrom, hstart], hvalue⟩
    · rw [hsame]
      intro r hr
      obtain ⟨e', he', hre⟩ := h.of_row r hr
      exact ⟨e', List.mem_append_left _ he', hre⟩
    · rw [hsame]
      intro r hr x hx
      obtain ⟨hlt, e', he', hex⟩ := h.stop_later r hr x hx
      exact ⟨hlt, e', List.mem_append_left _ he', hex⟩
    · intro _
      obtain ⟨r, hr, hmax⟩ := h.current (List.ne_nil_of_mem hecur)
      refine ⟨r, (currentRow_congr hrows _ _).trans hr, fun e' he' => ?_⟩
      rcases List.mem_append.mp he' with he' | he'
      · exact hmax e' he'
      · rw [List.mem_singleton.mp he', ← hstart]
        exact hmax ecur hecur
  | stale cur hcur hvalue hle =>
    obtain ⟨ecur, hecur, hmatch⟩ := h.of_row cur (currentRow_mem_rowsOf hcur)
    obtain ⟨r, hr, hmax⟩ := h.current (List.ne_nil_of_mem hecur)
    have hreq : r = cur := by rw [hcur] at hr; exact (Option.some.inj hr).symm
    subst hreq
    have hlt : e.start < r.validFrom := by
      refine lt_of_le_of_ne (Instant.stored_le hle) fun heq => hvalue ?_
      rw [hmatch.value]
      exact (hvalues ecur hecur).mpr (by rw [← hmatch.validFrom, ← heq])
    rw [← List.map_id t.rows] at hrows
    refine h.extend (fun _ => ⟨rfl, rfl⟩) hrows (fun _ _ hre => hre) (fun _ _ _ hx => Or.inl hx)
      ?_ ⟨r, ?_, hlt.le, hmax⟩
    · intro x hx
      rw [Option.some.injEq] at hx
      subst hx
      exact ⟨hlt, ecur, hecur, hmatch.validFrom.symm⟩
    · have hr' := currentRow_eq_some_iff.mp hcur
      rw [currentRow_eq_some_iff, hrows]
      exact ⟨by simp [hr'.1], hr'.2⟩
  | superseded cur hcur hvalue hlt =>
    obtain ⟨ecur, hecur, hmatch⟩ := h.of_row cur (currentRow_mem_rowsOf hcur)
    obtain ⟨r, hr, hmax⟩ := h.current (List.ne_nil_of_mem hecur)
    have hreq : r = cur := by rw [hcur] at hr; exact (Option.some.inj hr).symm
    subst hreq
    have hlt : r.validFrom < e.start := by
      refine lt_of_le_of_ne (Instant.le_stored hlt.le) fun heq => hvalue ?_
      rw [hmatch.value]
      exact (hvalues ecur hecur).mpr (by rw [← hmatch.validFrom, heq])
    refine h.extend (fun r₀ => ⟨(closeRow_key r.id t.nextId e.start r₀).1,
      (closeRow_key r.id t.nextId e.start r₀).2.1⟩) hrows
      (fun _ _ hre => closeRow_matches hre _ _ _) ?_ (by simp)
      ⟨e.toRow t.nextId now none, ?_, le_refl _, fun e' he' => (hmax e' he').trans hlt.le⟩
    · intro r₀ hr₀ x hx
      by_cases hid : r₀.id = r.id
      · -- the row just closed ends where the new event begins
        have hr₀r : r₀ = r := eq_of_id_eq (mem_rowsOf.mp hr₀).1
          (currentRow_eq_some_iff.mp hcur).1 hid
        simp only [closeRow, hid, if_true, Option.some.injEq] at hx
        subst hx
        exact Or.inr ⟨hr₀r ▸ hlt, rfl⟩
      · simp only [closeRow, hid, if_false] at hx
        exact Or.inl hx
    · rw [currentRow_eq_some_iff, hrows]
      exact ⟨by simp, rfl, rfl, rfl⟩

/-! ## What the reads of a timeline answer -/

/-- The store answers as the timeline of the events does, to one scope. -/
structure AnswersLatest (t : FactTable) (scope : Scope) (key : FactKey)
    (events : List FactWrite) : Prop where
  current : (currentFact t scope key).map FactRow.value =
    (latest FactWrite.validFrom events).map FactWrite.value
  asOf : ∀ instant, (factAsOf t scope key instant).map FactRow.value =
    (latestAt FactWrite.validFrom instant events).map FactWrite.value

/-- The rows that a read as of an instant selects, before `ORDER BY valid_from DESC LIMIT 1`. The
query is sent the instant as a `timestamptz`. -/
def rowsAsOf (t : FactTable) (scope : Scope) (key : FactKey) (asOf : Time) : List FactRow :=
  if scope.principals.isEmpty then []
  else if !scope.entityScope.isEmpty && !scope.entityScope.contains key.entityId then []
  else
    t.rows.filter fun r =>
      decide (r.tenantId = scope.tenantId ∧ r.key = key ∧ r.validFrom ≤ asOf) &&
        (match r.validTo with
          | none => true
          | some validTo => decide (asOf < validTo)) &&
        sqlVisible scope r

theorem factAsOf_eq (t : FactTable) (scope : Scope) (key : FactKey) (asOf : Instant) :
    factAsOf t scope key asOf = latest FactRow.validFrom (rowsAsOf t scope key asOf.stored) := by
  unfold factAsOf rowsAsOf
  split
  · rfl
  split
  · rfl
  rfl

theorem mem_rowsAsOf {instant : Time} (h : r ∈ rowsAsOf t scope key instant) :
    r ∈ t.rowsOf scope.tenantId key ∧ r.validFrom ≤ instant := by
  unfold rowsAsOf at h
  split at h
  · exact absurd h List.not_mem_nil
  split at h
  · exact absurd h List.not_mem_nil
  simp only [List.mem_filter, Bool.and_eq_true, decide_eq_true_eq] at h
  exact ⟨mem_rowsOf.mpr ⟨h.1, h.2.1.1.1, h.2.1.1.2.1⟩, h.2.1.1.2.2⟩

theorem factAsOf_mem {instant : Instant} (h : factAsOf t scope key instant = some r) :
    r ∈ t.rowsOf scope.tenantId key ∧ r.validFrom ≤ instant.stored := by
  rw [factAsOf_eq] at h
  exact mem_rowsAsOf (List.argmax_mem h)

/-- When the scope sees every row of the key, a read as of an instant selects the rows whose
interval holds the instant. -/
theorem rowsAsOf_eq_filter
    (hvisible : ∀ r ∈ t.rowsOf scope.tenantId key, factVisible scope r = true) (instant : Time) :
    rowsAsOf t scope key instant =
      (t.rowsOf scope.tenantId key).filter (holds FactRow.validFrom FactRow.validTo instant) := by
  by_cases hnil : t.rowsOf scope.tenantId key = []
  · rw [hnil, List.filter_nil, List.eq_nil_iff_forall_not_mem]
    intro r hr
    have hmem := (mem_rowsAsOf hr).1
    rw [hnil] at hmem
    exact absurd hmem List.not_mem_nil
  obtain ⟨r₀, hr₀⟩ := List.exists_mem_of_ne_nil _ hnil
  have hsees := hvisible r₀ hr₀
  have hkey₀ := (mem_rowsOf.mp hr₀).2.2
  have hprin : scope.principals ≠ [] := by
    intro h
    rw [factVisible_of_no_principals h] at hsees
    exact Bool.noConfusion hsees
  have hentity : (scope.entityScope.isEmpty || scope.entityScope.contains key.entityId) = true := by
    simp only [factVisible, Scope.sees, Bool.and_eq_true, hkey₀] at hsees
    exact hsees.2
  unfold rowsAsOf
  rw [if_neg (by simp [hprin]), if_neg (by simpa [or_iff_not_imp_left] using hentity)]
  rw [FactTable.rowsOf, List.filter_filter]
  apply List.filter_congr
  intro r hr
  by_cases hk : r.tenantId = scope.tenantId ∧ r.key = key
  · have hvis := hvisible r (mem_rowsOf.mpr ⟨hr, hk⟩)
    rw [← sqlVisible_eq scope r (by rw [hk.2]; exact hentity)] at hvis
    rw [hvis, Bool.and_true, decide_eq_true hk, Bool.and_true]
    unfold holds
    cases r.validTo <;> simp [hk]
  · have hfalse : decide (r.tenantId = scope.tenantId ∧ r.key = key ∧ r.validFrom ≤ instant)
        = false := decide_eq_false fun h => hk ⟨h.1, h.2.1⟩
    rw [hfalse, decide_eq_false hk]
    simp

/-- A read as of an instant, when the scope sees every row of the key: the row that began
last among those whose interval holds the instant. -/
theorem factAsOf_eq_latest
    (hvisible : ∀ r ∈ t.rowsOf scope.tenantId key, factVisible scope r = true) (instant : Instant) :
    factAsOf t scope key instant =
      latest FactRow.validFrom ((t.rowsOf scope.tenantId key).filter
        (holds FactRow.validFrom FactRow.validTo instant.stored)) := by
  rw [factAsOf_eq, rowsAsOf_eq_filter hvisible]

/-- Rows that hold events a scope sees are visible to it. -/
theorem rowsOf_visible (hof : ∀ r ∈ t.rowsOf scope.tenantId key, ∃ e ∈ events, Matches r e)
    (hvisible : ∀ e ∈ events, scope.sees key.entityId e.visibility e.confidentiality = true) :
    ∀ r ∈ t.rowsOf scope.tenantId key, factVisible scope r = true := by
  intro r hr
  obtain ⟨e, he, hre⟩ := hof r hr
  rw [factVisible, (mem_rowsOf.mp hr).2.2, hre.visibility, hre.confidentiality]
  exact hvisible e he

theorem currentRow_eq_none_of_nil (hof : ∀ r ∈ t.rowsOf tenant key, ∃ e ∈ events, Matches r e)
    (hnil : events = []) : t.currentRow tenant key = none := by
  rw [currentRow_eq_none_iff]
  intro r hr htenant hkey
  obtain ⟨e, he, -⟩ := hof r (mem_rowsOf.mpr ⟨hr, htenant, hkey⟩)
  rw [hnil] at he
  exact absurd he List.not_mem_nil

/-- The events that carry one value are those that are stored at one microsecond, and every such
microsecond begins with an event. -/
structure StoredApart (events : List FactWrite) : Prop where
  value_iff : ∀ e ∈ events, ∀ e' ∈ events, e.value = e'.value ↔ e.start = e'.start
  first : ∀ e ∈ events, ∃ e₁ ∈ events, e₁.start = e.start ∧
    ∀ x : Instant, x.stored = e.start → e₁.validFrom ≤ x

theorem StoredApart.cutsWell (h : StoredApart events) :
    CutsWell Instant.stored FactWrite.validFrom FactWrite.value events where
  same := fun e he e' he' heq => (h.value_iff e he e' he').mpr heq
  first := h.first

theorem Tracks.coarseTable (h : Tracks t tenant key events)
    (hvalues : ∀ e ∈ events, ∀ e' ∈ events, e.value = e'.value ↔ e.start = e'.start) :
    CoarseTable FactRow.validFrom FactRow.validTo FactWrite.start FactRow.value FactWrite.value
      (t.rowsOf tenant key) events where
  entry_of_row := by
    intro r hr
    obtain ⟨e, he, hre⟩ := h.of_row r hr
    exact ⟨e, he, hre.validFrom.symm, hre.value.symm⟩
  row_of_entry := by
    intro e he
    obtain ⟨r, hr, hfrom, -⟩ := h.row_of e he
    refine ⟨r, hr, hfrom.le, ?_, ?_⟩
    · intro e' he' hle hge
      rw [hfrom] at hle
      exact (hvalues e' he' e he).mpr (le_antisymm hge hle)
    · rw [← hfrom]
      exact h.stop_later r hr

/-- A timeline of events that the scope sees is read as such. -/
theorem Tracks.answersLatest (h : Tracks t scope.tenantId key events)
    (hvisible : ∀ e ∈ events, scope.sees key.entityId e.visibility e.confidentiality = true)
    (hdist : StampsDistinct FactWrite.validFrom events) (hapart : StoredApart events) :
    AnswersLatest t scope key events := by
  have hrowVisible := rowsOf_visible h.of_row hvisible
  constructor
  · rw [currentFact_eq_filter]
    cases hlatest : latest FactWrite.validFrom events with
    | none =>
      have hcur := currentRow_eq_none_of_nil h.of_row (List.argmax_eq_none.mp hlatest)
      simp [hcur]
    | some m =>
      have hm : m ∈ events := List.argmax_mem hlatest
      obtain ⟨r, hr, hmax⟩ := h.current (List.ne_nil_of_mem hm)
      have hmem := currentRow_mem_rowsOf hr
      obtain ⟨e, he, hre⟩ := h.of_row r hmem
      -- the current row is of the microsecond of the latest event
      have hstart : e.start = m.start := by
        refine le_antisymm (Instant.stored_mono (List.le_of_mem_argmax he hlatest)) ?_
        rw [← hre.validFrom]
        exact hmax m hm
      have hvalue : r.value = m.value := by
        rw [hre.value]
        exact (hapart.value_iff e he m hm).mpr hstart
      simp [hr, Option.filter, hrowVisible r hmem, hvalue]
  · intro instant
    have htable : CoarseTable FactRow.validFrom FactRow.validTo
        (fun e : FactWrite => e.validFrom.stored) FactRow.value FactWrite.value
        (t.rowsOf scope.tenantId key) events := h.coarseTable hapart.value_iff
    rw [factAsOf_eq_latest hrowVisible]
    cases hread : latest FactRow.validFrom ((t.rowsOf scope.tenantId key).filter
        (holds FactRow.validFrom FactRow.validTo instant.stored)) with
    | none =>
      have hnone := htable.latestAt_eq_none Instant.stored_mono (List.argmax_eq_none.mp hread)
      rw [hnone]
      rfl
    | some r =>
      have hsome := htable.latestAt_eq Instant.stored_mono hapart.cutsWell hdist
        (List.argmax_mem hread) fun r' hr' => List.le_of_mem_argmax hr' hread
      rw [hsome]
      rfl

/-! ## Values apart: every event has a row -/

/-- A run of events of which those of one start, and only these, carry one value leaves a row of
each. -/
theorem deliver_tracks (ds : List Delivery) (kept : List FactWrite) (ht : Tracks t tenant key kept)
    (hkey : ∀ d ∈ ds, d.fact.tenantId = tenant ∧ d.fact.key = key)
    (hvalues : ∀ e ∈ kept ++ ds.map Delivery.fact, ∀ e' ∈ kept ++ ds.map Delivery.fact,
      e.value = e'.value ↔ e.start = e'.start) :
    ∃ t', deliver t ds = .ok t' ∧ Tracks t' tenant key (kept ++ ds.map Delivery.fact) := by
  induction ds generalizing t kept with
  | nil => exact ⟨t, rfl, by simpa using ht⟩
  | cons d ds ih =>
    obtain ⟨t₁, o, hok, hup⟩ := upsertFact_spec t d.now d.fact
    have hapart : ∀ e' ∈ kept, e'.value = d.fact.value ↔ e'.start = d.fact.start :=
      fun e' he' => hvalues e' (List.mem_append_left _ he') d.fact (by simp)
    have happend : kept ++ (d :: ds).map Delivery.fact =
        (kept ++ [d.fact]) ++ ds.map Delivery.fact := by simp
    rw [happend] at hvalues ⊢
    obtain ⟨t', hrun, ht'⟩ := ih (kept ++ [d.fact]) (ht.keep (hkey d (by simp)) hapart hup)
      (fun d' hd' => hkey d' (List.mem_cons_of_mem d hd')) hvalues
    exact ⟨t', by simp [deliver, hok, bind, Except.bind, hrun], ht'⟩

/-! ## A repeated value: an order that loses an event -/

/-- Events whose value is already current change nothing. -/
theorem deliver_current_value {cur : FactRow} (hcur : t.currentRow tenant key = some cur)
    (ds : List Delivery)
    (hds : ∀ d ∈ ds, d.fact.tenantId = tenant ∧ d.fact.key = key ∧ d.fact.value = cur.value) :
    deliver t ds = .ok t := by
  induction ds with
  | nil => rfl
  | cons d ds ih =>
    obtain ⟨htenant, hkey, hvalue⟩ := hds d (by simp)
    have hok : upsertFact t d.now d.fact = .ok (t, .unchanged) := by
      unfold upsertFact
      rw [htenant, hkey, hcur]
      simp [hvalue, pure, Except.pure]
    simp only [deliver, hok, bind, Except.bind]
    exact ih fun d' hd' => hds d' (List.mem_cons_of_mem d hd')

/-- Writing other values never gives a row of value `v` a new start. -/
theorem upserted_value_start {v : Json} {start : Time}
    (h : ∀ r ∈ t.rowsOf tenant key, r.value = v → r.validFrom = start) (he : e.value ≠ v)
    (hup : Upserted t now e t'.rows o) :
    ∀ r ∈ t'.rowsOf tenant key, r.value = v → r.validFrom = start := by
  have hnew : ∀ (id : FactId) (validTo : Option Time), (e.toRow id now validTo).value ≠ v :=
    fun _ _ => he
  intro r hr hv
  rw [mem_rowsOf] at hr
  generalize t'.rows = rows at hup hr
  cases hup with
  | unchanged => exact h r (mem_rowsOf.mpr hr) hv
  | inserted | stale =>
    rw [List.mem_append, List.mem_singleton] at hr
    rcases hr with ⟨hr | rfl, hk⟩
    · exact h r (mem_rowsOf.mpr ⟨hr, hk⟩) hv
    · exact absurd hv (hnew _ _)
  | superseded cur =>
    rw [List.mem_append, List.mem_singleton, List.mem_map] at hr
    rcases hr with ⟨⟨r₀, hr₀, rfl⟩ | rfl, hk⟩
    · have hk₀ := closeRow_key cur.id t.nextId e.start r₀
      rw [hk₀.1, hk₀.2.1] at hk
      rw [hk₀.2.2.2] at hv
      rw [hk₀.2.2.1]
      exact h r₀ (mem_rowsOf.mpr ⟨hr₀, hk⟩) hv
    · exact absurd hv (hnew _ _)

/-- The first write of a key is inserted as its current row. -/
theorem Upserted.rows_of_fresh {rows : List FactRow} (hup : Upserted t now e rows o)
    (hfresh : t.rowsOf e.tenantId e.key = []) : rows = t.rows ++ [e.toRow t.nextId now none] := by
  have hnone : t.currentRow e.tenantId e.key = none := by
    rw [currentRow_eq_none_iff]
    intro r hr htenant hkey
    have hmem : r ∈ t.rowsOf e.tenantId e.key := mem_rowsOf.mpr ⟨hr, htenant, hkey⟩
    rw [hfresh] at hmem
    exact absurd hmem List.not_mem_nil
  exact (hup.of_none hnone).1

/-- Two events of one value, stored apart: delivering the later one first, then the other events of
that value, then the rest, is an order after which the history lacks the earlier event. -/
theorem exists_order_losing_event (hfresh : t.rowsOf scope.tenantId key = [])
    (hkey : ∀ e ∈ events, e.tenantId = scope.tenantId ∧ e.key = key)
    (hdist : StampsDistinct FactWrite.validFrom events) {a b : FactWrite} (ha : a ∈ events)
    (hb : b ∈ events) (hvalue : a.value = b.value) (hlt : a.start < b.start) :
    ∃ ds : List Delivery, (ds.map Delivery.fact).Perm events ∧
      ∀ t', deliver t ds = .ok t' → ¬ AnswersLatest t' scope key events := by
  let same := (events.erase b).filter fun e => e.value = b.value
  let others := (events.erase b).filter fun e => !decide (e.value = b.value)
  let ds := (b :: (same ++ others)).map (Delivery.mk 0)
  have hperm : (b :: (same ++ others)).Perm events :=
    ((List.filter_append_perm _ _).cons b).trans (List.perm_cons_erase hb).symm
  refine ⟨ds, by simpa [ds, Function.comp_def] using hperm, ?_⟩
  -- the first event becomes the current row
  obtain ⟨t₁, o, hok, hup⟩ := upsertFact_spec t 0 b
  have hfreshb : t.rowsOf b.tenantId b.key = [] := by
    rw [(hkey b hb).1, (hkey b hb).2]
    exact hfresh
  have hrows₁ : t₁.rows = t.rows ++ [b.toRow t.nextId 0 none] := hup.rows_of_fresh hfreshb
  have hcur₁ : t₁.currentRow scope.tenantId key = some (b.toRow t.nextId 0 none) := by
    rw [currentRow_eq_some_iff, hrows₁]
    exact ⟨by simp, (hkey b hb).1, (hkey b hb).2, rfl⟩
  have hstart₁ : ∀ r ∈ t₁.rowsOf scope.tenantId key, r.value = b.value →
      r.validFrom = b.start := by
    intro r hr _
    rw [mem_rowsOf, hrows₁, List.mem_append, List.mem_singleton] at hr
    rcases hr with ⟨hr | rfl, hk⟩
    · have : r ∈ t.rowsOf scope.tenantId key := mem_rowsOf.mpr ⟨hr, hk⟩
      rw [hfresh] at this
      simp at this
    · rfl
  -- the other events of its value are dropped, the rest are of other values
  have hsame : deliver t₁ (same.map (Delivery.mk 0)) = .ok t₁ := by
    apply deliver_current_value hcur₁
    intro d hd
    obtain ⟨e, he, rfl⟩ := List.mem_map.mp hd
    rw [List.mem_filter, decide_eq_true_eq] at he
    have hek := hkey e (List.mem_of_mem_erase he.1)
    exact ⟨hek.1, hek.2, he.2⟩
  obtain ⟨t₂, hothers, hstart₂⟩ := deliver_invariant
    (P := fun t => ∀ r ∈ t.rowsOf scope.tenantId key, r.value = b.value →
      r.validFrom = b.start) (others.map (Delivery.mk 0)) (by
    intro d hd t t' o ht _ hup
    obtain ⟨e, he, rfl⟩ := List.mem_map.mp hd
    rw [List.mem_filter] at he
    exact upserted_value_start ht (by simpa using he.2) hup) t₁ hstart₁
  have hrun : deliver t ds = .ok t₂ := by
    show deliver t (Delivery.mk 0 b :: (same ++ others).map (Delivery.mk 0)) = .ok t₂
    rw [List.map_append]
    simp only [deliver, hok, bind, Except.bind]
    rw [deliver_append, hsame]
    exact hothers
  intro t' ht' hans
  rw [hrun] at ht'
  have ht₂ := Except.ok.inj ht'
  subst ht₂
  have hlat : latestAt FactWrite.validFrom a.validFrom events = some a := by
    rw [latestAt_eq_some_iff hdist]
    exact ⟨ha, le_refl _, fun _ _ h => h⟩
  have hread := hans.asOf a.validFrom
  rw [hlat, Option.map_some, Option.map_eq_some_iff] at hread
  obtain ⟨r, hr, hrv⟩ := hread
  obtain ⟨hmem, hle⟩ := factAsOf_mem hr
  have := hstart₂ r hmem (hrv.trans hvalue)
  rw [this] at hle
  exact absurd hlt (not_lt.mpr hle)

/-! ## The exact condition -/

/-- Take a key without rows and any finite set of events for it, at distinct event times,
all visible to a scope. Every order of delivery answers as the timeline of the events does,
if and only if the events that carry one value are those stored at one microsecond, and every
such microsecond begins with an event. -/
theorem every_order_answers_latest_iff {t : FactTable} {scope : Scope} {key : FactKey}
    {events : List FactWrite} (hfresh : t.rowsOf scope.tenantId key = [])
    (hkey : ∀ e ∈ events, e.tenantId = scope.tenantId ∧ e.key = key)
    (hvisible : ∀ e ∈ events, scope.sees key.entityId e.visibility e.confidentiality = true)
    (hdist : StampsDistinct FactWrite.validFrom events) :
    (∀ ds : List Delivery, (ds.map Delivery.fact).Perm events →
      ∃ t', deliver t ds = .ok t' ∧ AnswersLatest t' scope key events) ↔
    StoredApart events := by
  constructor
  · intro hall
    have hone : ∀ a ∈ events, ∀ b ∈ events, a.value = b.value → ¬ a.start < b.start := by
      intro a ha b hb hvalue hlt
      obtain ⟨ds, hperm, hbad⟩ := exists_order_losing_event hfresh hkey hdist ha hb hvalue hlt
      obtain ⟨t', hrun, hans⟩ := hall ds hperm
      exact hbad t' hrun hans
    have hstart : ∀ a ∈ events, ∀ b ∈ events, a.value = b.value → a.start = b.start :=
      fun a ha b hb hvalue => le_antisymm (not_lt.mp (hone b hb a ha hvalue.symm))
        (not_lt.mp (hone a ha b hb hvalue))
    -- a read as of an instant is sent the microsecond alone
    obtain ⟨t', -, hans⟩ := hall (events.map (Delivery.mk 0)) (by simp [Function.comp_def])
    have hwell : CutsWell Instant.stored FactWrite.validFrom FactWrite.value events := by
      refine cutsWell_of_answers hdist hstart fun x x' hx => ?_
      rw [← hans.asOf x, ← hans.asOf x', factAsOf_eq, factAsOf_eq, hx]
    exact ⟨fun a ha b hb => ⟨hstart a ha b hb, hwell.same a ha b hb⟩, hwell.first⟩
  · intro hapart ds hperm
    have hmem : ∀ e, e ∈ ds.map Delivery.fact ↔ e ∈ events := fun e => hperm.mem_iff
    have hkey' : ∀ d ∈ ds, d.fact.tenantId = scope.tenantId ∧ d.fact.key = key :=
      fun d hd => hkey d.fact ((hmem d.fact).mp (List.mem_map_of_mem hd))
    obtain ⟨t', hrun, htracks⟩ := deliver_tracks ds [] (Tracks.nil hfresh) hkey' (by
      intro e he e' he'
      exact hapart.value_iff e ((hmem e).mp he) e' ((hmem e').mp he'))
    rw [List.nil_append] at htracks
    exact ⟨t', hrun, (htracks.perm hperm).answersLatest hvisible hdist hapart⟩

/-- An event for one fact key, visible to token 1. -/
def amountAt (validFrom : Instant) (amount : UInt64) (visibility : List PrincipalToken) :
    FactWrite where
  tenantId := 1
  key := ⟨"hubspot", "deal-42", "amount"⟩
  value := .posInt amount
  validFrom := validFrom
  visibility := visibility
  confidentiality := .internal
  provenance := 1
  aclProvenance := .adminAssigned

/-- A scope of tenant 1 holding the given tokens. -/
def readScope (principals : List PrincipalToken) : Scope where
  tenantId := 1
  principals := principals
  entityScope := []
  maxConfidentiality := .restricted

/-- The two amounts of different values are at different microseconds, so every order of them
answers the later one. -/
theorem every_order_answers_latest_two_values :
    (∀ ds : List Delivery, (ds.map Delivery.fact).Perm [amountAt 1 50 [1], amountAt 2 84 [1]] →
      ∃ t', deliver FactTable.empty ds = .ok t' ∧
        AnswersLatest t' (readScope [1]) ⟨"hubspot", "deal-42", "amount"⟩
          [amountAt 1 50 [1], amountAt 2 84 [1]]) ↔
    StoredApart [amountAt 1 50 [1], amountAt 2 84 [1]] :=
  every_order_answers_latest_iff rfl (by decide) (by decide) (by unfold StampsDistinct; decide)

/-- Amount 50 at times 1 and 3, amount 84 at time 2, delivered in the order 1, 3, 2: the
event of time 3 is dropped, so the late event of time 2 becomes the current value. -/
theorem late_event_clobbers_repeated_value :
    StampsDistinct FactWrite.validFrom
      [amountAt 1 50 [1], amountAt 3 50 [1], amountAt 2 84 [1]] ∧
    ∃ t', deliver FactTable.empty
        ([amountAt 1 50 [1], amountAt 3 50 [1], amountAt 2 84 [1]].map (Delivery.mk 9)) = .ok t' ∧
      (currentFact t' (readScope [1]) ⟨"hubspot", "deal-42", "amount"⟩).map FactRow.value =
        some (.posInt 84) ∧
      ¬ AnswersLatest t' (readScope [1]) ⟨"hubspot", "deal-42", "amount"⟩
        [amountAt 1 50 [1], amountAt 3 50 [1], amountAt 2 84 [1]] := by
  refine ⟨by unfold StampsDistinct; decide, _, rfl, by decide, ?_⟩
  intro h
  have := h.current
  revert this
  decide

end Verity.Analysis
