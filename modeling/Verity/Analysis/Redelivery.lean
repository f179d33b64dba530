import Verity.Analysis.FactOrder
import Verity.Foundation.OrderLimit
import Verity.Foundation.Run

/-!
# Redelivered events

A feed that delivers at least once repeats events it has delivered before. `upsertFact` does not
recognise a repeated event: it compares it with the current row alone, drops it when its value is
current, and otherwise adds one more closed row for it, which overlaps rows that are there already.

Without repetitions, events in order leave rows that follow each other, one for each instant
(`Sequential`). The rows that repetitions add lie over these (`Shadows`), and the reads do not see
them as long as each begins where its value is what is read already (`Overlay.held_eq`).

It always is where the events lie in different microseconds, or repeat one value within one
(`RedeliveryFits.of_alone`). Of two events in one microsecond, though, the table keeps no order: an
event is compared by the nanosecond with a start that has lost them, so that the earlier one,
delivered again, supersedes the later one. `redelivery_harmless_iff` is the exact condition.
-/

set_option autoImplicit false

namespace Verity.Analysis

open Verity.Model Verity.Foundation

variable {e : FactWrite} {ds : List Delivery} {tenant : TenantId} {cur r : FactRow} {t' : FactTable}
  {now : Time} {o : FactUpsertOutcome} {instant : Time} {e₀ : FactWrite} {log : List Delivery}

/-! ## Logs with repetitions -/

/-- The same event, possibly written under another episode. -/
def SameEvent (e e' : FactWrite) : Prop := { e with provenance := e'.provenance } = e'

instance (e e' : FactWrite) : Decidable (SameEvent e e') :=
  inferInstanceAs (Decidable (_ = _))

theorem SameEvent.trans {e' e'' : FactWrite} (h : SameEvent e e') (h' : SameEvent e' e'') :
    SameEvent e e'' := by
  unfold SameEvent at h h' ⊢
  rw [← h', ← h]

theorem SameEvent.fields {e' : FactWrite} (h : SameEvent e e') :
    e.value = e'.value ∧ e.validFrom = e'.validFrom ∧ e.visibility = e'.visibility ∧
      e.confidentiality = e'.confidentiality := by
  unfold SameEvent at h
  rw [← h]
  exact ⟨rfl, rfl, rfl, rfl⟩

/-- The deliveries of a log that repeat no event delivered before them. -/
def firstDeliveries (seen : List FactWrite) : List Delivery → List Delivery
  | [] => []
  | d :: ds =>
    if ∃ e ∈ seen, SameEvent d.fact e then firstDeliveries seen ds
    else d :: firstDeliveries (seen ++ [d.fact]) ds

theorem firstDeliveries_append (seen : List FactWrite) (ds ds' : List Delivery) :
    firstDeliveries seen (ds ++ ds') =
      firstDeliveries seen ds ++
        firstDeliveries (seen ++ (firstDeliveries seen ds).map Delivery.fact) ds' := by
  induction ds generalizing seen with
  | nil => simp [firstDeliveries]
  | cons d ds ih =>
    rw [List.cons_append, firstDeliveries, firstDeliveries]
    by_cases hagain : ∃ e ∈ seen, SameEvent d.fact e
    · rw [if_pos hagain, if_pos hagain, ih]
    · rw [if_neg hagain, if_neg hagain, ih, List.cons_append, List.map_cons, List.append_assoc,
        List.singleton_append]

theorem mem_firstDeliveries {seen : List FactWrite} : ∀ d ∈ firstDeliveries seen ds, d ∈ ds := by
  induction ds generalizing seen with
  | nil => simp [firstDeliveries]
  | cons d ds ih =>
    intro d' hd'
    rw [firstDeliveries] at hd'
    split at hd'
    · exact List.mem_cons_of_mem d (ih d' hd')
    · rcases List.mem_cons.mp hd' with rfl | hd'
      · exact List.mem_cons_self
      · exact List.mem_cons_of_mem d (ih d' hd')

/-- Every delivery repeats one of the first. -/
theorem exists_firstDelivery (seen : List FactWrite) :
    ∀ d ∈ ds, ∃ e ∈ seen ++ (firstDeliveries seen ds).map Delivery.fact, SameEvent d.fact e := by
  induction ds generalizing seen with
  | nil => simp
  | cons d ds ih =>
    intro d' hd'
    rw [firstDeliveries]
    split
    · rename_i hagain
      rcases List.mem_cons.mp hd' with rfl | hd'
      · obtain ⟨e, he, hsame⟩ := hagain
        exact ⟨e, List.mem_append_left _ he, hsame⟩
      · exact ih _ d' hd'
    · have happend : seen ++ (d :: firstDeliveries (seen ++ [d.fact]) ds).map Delivery.fact =
          (seen ++ [d.fact]) ++ (firstDeliveries (seen ++ [d.fact]) ds).map Delivery.fact := by
        simp
      rcases List.mem_cons.mp hd' with rfl | hd'
      · exact ⟨d'.fact, by simp, rfl⟩
      · rw [happend]
        exact ih _ d' hd'

/-! ## Deliveries in order -/

/-- What is closed in the rows of a key ends before the current row begins. -/
def ClosedBefore (t : FactTable) (tenant : TenantId) (key : FactKey) : Prop :=
  ∀ r ∈ t.rowsOf tenant key, ∀ x, r.validTo = some x →
    ∃ cur, t.currentRow tenant key = some cur ∧ x ≤ cur.validFrom

theorem ClosedBefore.rowsOf_eq_nil {t : FactTable} {key : FactKey} (h : ClosedBefore t tenant key)
    (hnone : t.currentRow tenant key = none) : t.rowsOf tenant key = [] := by
  rw [List.eq_nil_iff_forall_not_mem]
  intro r hr
  cases hstop : r.validTo with
  | none =>
    obtain ⟨hmem, htenant, hkey⟩ := mem_rowsOf.mp hr
    exact currentRow_eq_none_iff.mp hnone r hmem htenant hkey hstop
  | some x =>
    obtain ⟨cur, hcur, -⟩ := h r hr x hstop
    exact absurd (hnone.symm.trans hcur) (by simp)

/-- Superseding the current row gives an end to what is open. -/
theorem closeRow_validTo {t : FactTable} {key : FactKey} (hcur : t.currentRow tenant key = some cur)
    (hr : r ∈ t.rowsOf tenant key) (x : Time) (newId : FactId) :
    (closeRow cur.id x newId r).validTo = r.validTo.or (some x) := by
  obtain ⟨hmem, htenant, hkey⟩ := mem_rowsOf.mp hr
  obtain ⟨hcmem, -, -, hopen⟩ := currentRow_eq_some_iff.mp hcur
  unfold closeRow
  by_cases hid : r.id = cur.id
  · rw [if_pos hid, eq_of_id_eq hmem hcmem hid, hopen]
    rfl
  · rw [if_neg hid]
    cases hstop : r.validTo with
    | some y => rfl
    | none =>
      have hrcur := currentRow_eq_some_iff.mpr ⟨hmem, htenant, hkey, hstop⟩
      rw [hcur] at hrcur
      exact absurd (congrArg FactRow.id (Option.some.inj hrcur)).symm hid

/-- A closed row ends at the start of the current row at the latest, whatever is written. -/
theorem ClosedBefore.write {t : FactTable} (h : ClosedBefore t e.tenantId e.key)
    (hup : Upserted t now e t'.rows o) : ClosedBefore t' e.tenantId e.key := by
  intro r hr x hx
  cases hcur : t.currentRow e.tenantId e.key with
  | none =>
    obtain ⟨hrows, -⟩ := hup.rowsOf_of_none hcur
    rw [hrows, h.rowsOf_eq_nil hcur, List.nil_append, List.mem_singleton] at hr
    rw [hr] at hx
    cases hx
  | some cur =>
    have hold : ∀ r₀ ∈ t.rowsOf e.tenantId e.key, ∀ y, r₀.validTo = some y →
        y ≤ cur.validFrom := by
      intro r₀ hr₀ y hy
      obtain ⟨cur', hcur', hle⟩ := h r₀ hr₀ y hy
      rw [hcur] at hcur'
      rwa [Option.some.inj hcur']
    rcases hup.rowsOf_of_current hcur with ⟨-, hrows, hcurrent⟩ | ⟨-, hle, hrows, hcurrent⟩ |
        ⟨-, hlt, hrows, hcurrent⟩
    · rw [hrows] at hr
      exact ⟨cur, hcurrent, hold r hr x hx⟩
    · rw [hrows, List.mem_append, List.mem_singleton] at hr
      refine ⟨cur, hcurrent, ?_⟩
      rcases hr with hr | rfl
      · exact hold r hr x hx
      · exact (Option.some.inj hx).ge
    · rw [hrows, List.mem_append, List.mem_singleton] at hr
      refine ⟨_, hcurrent, ?_⟩
      rcases hr with hr | rfl
      · obtain ⟨r₀, hr₀, rfl⟩ := List.mem_map.mp hr
        rw [closeRow_validTo hcur hr₀] at hx
        cases hstop : r₀.validTo with
        | none =>
          rw [hstop] at hx
          exact (Option.some.inj hx).ge
        | some y =>
          rw [hstop] at hx
          obtain rfl := Option.some.inj hx
          exact (hold r₀ hr₀ y hstop).trans (Instant.le_stored hlt.le)
      · cases hx

/-- What is written is of the event, and the old rows stay with theirs. -/
theorem exists_matches_write {t : FactTable} {events : List FactWrite}
    (hof : ∀ r ∈ t.rowsOf e.tenantId e.key, ∃ e' ∈ events, Matches r e')
    (hup : Upserted t now e t'.rows o) :
    ∀ r ∈ t'.rowsOf e.tenantId e.key, ∃ e' ∈ events ++ [e], Matches r e' := by
  have hold : ∀ r ∈ t.rowsOf e.tenantId e.key, ∃ e' ∈ events ++ [e], Matches r e' := by
    intro r hr
    obtain ⟨e', he', hre⟩ := hof r hr
    exact ⟨e', List.mem_append_left _ he', hre⟩
  have hnew : ∀ id validTo, ∃ e' ∈ events ++ [e], Matches (e.toRow id now validTo) e' :=
    fun id validTo => ⟨e, by simp, matches_toRow e id now validTo⟩
  cases hcur : t.currentRow e.tenantId e.key with
  | none =>
    rw [(hup.rowsOf_of_none hcur).1]
    exact List.forall_mem_append.mpr ⟨hold, List.forall_mem_singleton.mpr (hnew _ _)⟩
  | some cur =>
    rcases hup.rowsOf_of_current hcur with ⟨-, hrows, -⟩ | ⟨-, -, hrows, -⟩ | ⟨-, -, hrows, -⟩
    · rwa [hrows]
    · rw [hrows]
      exact List.forall_mem_append.mpr ⟨hold, List.forall_mem_singleton.mpr (hnew _ _)⟩
    · rw [hrows]
      refine List.forall_mem_append.mpr ⟨?_, List.forall_mem_singleton.mpr (hnew _ _)⟩
      intro r hr
      obtain ⟨r₀, hr₀, rfl⟩ := List.mem_map.mp hr
      obtain ⟨e', he', hre⟩ := hold r₀ hr₀
      exact ⟨e', he', closeRow_matches hre _ _ _⟩

/-- Whether a row of the key holds an instant. -/
abbrev holdsAt (instant : Time) (r : FactRow) : Bool :=
  holds FactRow.validFrom FactRow.validTo instant r

/-- The rows of a key that events in order have left: they begin at the events, and from the first
event on one of them holds each instant. -/
structure Sequential (t : FactTable) (tenant : TenantId) (key : FactKey)
    (events : List FactWrite) : Prop where
  of_row : ∀ r ∈ t.rowsOf tenant key, ∃ e ∈ events, Matches r e
  held : ∀ e ∈ events, ∀ instant, e.start ≤ instant →
    ∃ r ∈ t.rowsOf tenant key, holdsAt instant r = true
  held_once : ∀ instant, ∀ r ∈ t.rowsOf tenant key, ∀ r' ∈ t.rowsOf tenant key,
    holdsAt instant r = true → holdsAt instant r' = true → r = r'
  closed : ClosedBefore t tenant key

theorem Sequential.nil {t : FactTable} {key : FactKey} (h : t.rowsOf tenant key = []) :
    Sequential t tenant key [] where
  of_row := by simp [h]
  held := by simp
  held_once := by simp [h]
  closed := by simp [ClosedBefore, h]

theorem Sequential.exists_current {t : FactTable} {key : FactKey} {events : List FactWrite}
    (h : Sequential t tenant key events) (he : e ∈ events) :
    ∃ cur, t.currentRow tenant key = some cur := by
  cases hcur : t.currentRow tenant key with
  | some cur => exact ⟨cur, rfl⟩
  | none =>
    obtain ⟨r, hr, -⟩ := h.held e he e.start le_rfl
    rw [h.closed.rowsOf_eq_nil hcur] at hr
    exact absurd hr List.not_mem_nil

/-- The current row holds every instant from its start on. -/
theorem holdsAt_current {t : FactTable} {key : FactKey} (hcur : t.currentRow tenant key = some cur)
    (hle : cur.validFrom ≤ instant) : holdsAt instant cur = true := by
  refine holds_iff.mpr ⟨hle, fun x hx => ?_⟩
  rw [(currentRow_eq_some_iff.mp hcur).2.2.2] at hx
  cases hx

/-- The row of a new event holds every instant from the event on. -/
theorem holdsAt_toRow_iff {id : FactId} :
    holdsAt instant (e.toRow id now none) = true ↔ e.start ≤ instant := by
  rw [holdsAt, holds_iff]
  refine ⟨And.left, fun hle => ⟨hle, fun x hx => ?_⟩⟩
  cases hx

/-- What a superseded row held, it holds up to the new event. -/
theorem holdsAt_closeRow_iff {t : FactTable} {key : FactKey} (h : ClosedBefore t tenant key)
    (hcur : t.currentRow tenant key = some cur) {x : Time} (hx : cur.validFrom ≤ x) (newId : FactId)
    (hr : r ∈ t.rowsOf tenant key) (instant : Time) :
    holdsAt instant (closeRow cur.id x newId r) = true ↔
      holdsAt instant r = true ∧ instant < x := by
  refine holds_close_iff (closeRow_key _ _ _ r).2.2.1 (closeRow_validTo hcur hr _ _) ?_ _
  intro y hy
  obtain ⟨cur', hcur', hle⟩ := h r hr y hy
  rw [hcur] at hcur'
  rw [← Option.some.inj hcur'] at hle
  exact hle.trans hx

/-- An event that is not before the others is one more in order. -/
theorem Sequential.write {t : FactTable} {events : List FactWrite}
    (h : Sequential t e.tenantId e.key events) (hlast : ∀ e' ∈ events, e'.start ≤ e.start)
    (hup : Upserted t now e t'.rows o) : Sequential t' e.tenantId e.key (events ++ [e]) := by
  have hclosed := h.closed.write hup
  have hof := exists_matches_write h.of_row hup
  cases hcur : t.currentRow e.tenantId e.key with
  | none =>
    obtain ⟨hrows, -⟩ := hup.rowsOf_of_none hcur
    rw [h.closed.rowsOf_eq_nil hcur, List.nil_append] at hrows
    refine ⟨hof, ?_, ?_, hclosed⟩
    · intro e' he' instant hle
      rcases List.mem_append.mp he' with he' | he'
      · obtain ⟨cur, hcur'⟩ := h.exists_current he'
        exact absurd (hcur.symm.trans hcur') (by simp)
      · rw [List.mem_singleton.mp he'] at hle
        refine ⟨e.toRow t.nextId now none, by rw [hrows]; simp, holds_iff.mpr ⟨hle, ?_⟩⟩
        intro x hx
        cases hx
    · rw [hrows]
      intro instant r hr r' hr' _ _
      rw [List.mem_singleton.mp hr, List.mem_singleton.mp hr']
  | some cur =>
    obtain ⟨ecur, hecur, hmatch⟩ := h.of_row cur (currentRow_mem_rowsOf hcur)
    have hfrom : cur.validFrom ≤ e.start := hmatch.validFrom ▸ hlast ecur hecur
    rcases hup.rowsOf_of_current hcur with ⟨-, hrows, -⟩ | ⟨-, hle, hrows, -⟩ | ⟨-, hlt, hrows, -⟩
    · refine ⟨hof, ?_, by rw [hrows]; exact h.held_once, hclosed⟩
      rw [hrows]
      intro e' he' instant hle
      rcases List.mem_append.mp he' with he' | he'
      · exact h.held e' he' instant hle
      · rw [List.mem_singleton.mp he'] at hle
        exact ⟨cur, currentRow_mem_rowsOf hcur, holdsAt_current hcur (hfrom.trans hle)⟩
    · -- the new row ends where it begins: it is of the microsecond of the current row
      have hempty : ∀ instant,
          holdsAt instant (e.toRow t.nextId now (some cur.validFrom)) = false := by
        intro instant
        rw [Bool.eq_false_iff]
        intro hholds
        obtain ⟨hge, hlt⟩ := holds_iff.mp hholds
        exact absurd (hlt cur.validFrom rfl) (not_lt.mpr (hfrom.trans hge))
      refine ⟨hof, ?_, ?_, hclosed⟩
      · rw [hrows]
        intro e' he' instant hle
        rcases List.mem_append.mp he' with he' | he'
        · obtain ⟨r, hr, hholds⟩ := h.held e' he' instant hle
          exact ⟨r, List.mem_append_left _ hr, hholds⟩
        · rw [List.mem_singleton.mp he'] at hle
          exact ⟨cur, List.mem_append_left _ (currentRow_mem_rowsOf hcur),
            holdsAt_current hcur (hfrom.trans hle)⟩
      · rw [hrows]
        intro instant r hr r' hr' hholds hholds'
        rcases List.mem_append.mp hr with hr | hr
        · rcases List.mem_append.mp hr' with hr' | hr'
          · exact h.held_once instant r hr r' hr' hholds hholds'
          · rw [List.mem_singleton.mp hr', hempty] at hholds'
            cases hholds'
        · rw [List.mem_singleton.mp hr, hempty] at hholds
          cases hholds
    · -- the old rows hold what they held before the event, the new one the rest
      have hclose := fun r hr instant =>
        holdsAt_closeRow_iff (r := r) h.closed hcur hfrom t.nextId hr instant
      refine ⟨hof, ?_, ?_, hclosed⟩
      · rw [hrows]
        intro e' he' instant hle
        by_cases hlt' : instant < e.start
        · rcases List.mem_append.mp he' with he' | he'
          · obtain ⟨r, hr, hholds⟩ := h.held e' he' instant hle
            exact ⟨_, List.mem_append_left _ (List.mem_map_of_mem hr),
              (hclose r hr instant).mpr ⟨hholds, hlt'⟩⟩
          · rw [List.mem_singleton.mp he'] at hle
            exact absurd hlt' (not_lt.mpr hle)
        · exact ⟨e.toRow t.nextId now none, by simp, holdsAt_toRow_iff.mpr (not_lt.mp hlt')⟩
      · rw [hrows]
        intro instant r hr r' hr' hholds hholds'
        rcases List.mem_append.mp hr with hr | hr
        · obtain ⟨r₀, hr₀, rfl⟩ := List.mem_map.mp hr
          obtain ⟨hholds, hlt'⟩ := (hclose r₀ hr₀ instant).mp hholds
          rcases List.mem_append.mp hr' with hr' | hr'
          · obtain ⟨r₁, hr₁, rfl⟩ := List.mem_map.mp hr'
            rw [h.held_once instant r₀ hr₀ r₁ hr₁ hholds ((hclose r₁ hr₁ instant).mp hholds').1]
          · rw [List.mem_singleton.mp hr', holdsAt_toRow_iff] at hholds'
            exact absurd hlt' (not_lt.mpr hholds')
        · rw [List.mem_singleton.mp hr, holdsAt_toRow_iff] at hholds
          rcases List.mem_append.mp hr' with hr' | hr'
          · obtain ⟨r₁, hr₁, rfl⟩ := List.mem_map.mp hr'
            exact absurd ((hclose r₁ hr₁ instant).mp hholds').2 (not_lt.mpr hholds)
          · rw [List.mem_singleton.mp hr, List.mem_singleton.mp hr']

/-! ## Deliveries with repetitions -/

/-- The rows of a key of which some events were delivered again, beside those of the run without:
they lie over them, and the same is current. -/
structure Shadows (t₀ t : FactTable) (tenant : TenantId) (key : FactKey)
    (events : List FactWrite) : Prop where
  sequential : Sequential t₀ tenant key events
  overlay : Overlay FactRow.validFrom FactRow.validTo FactRow.value (t₀.rowsOf tenant key)
    (t.rowsOf tenant key)
  current : (t.currentRow tenant key).map (fun r => (r.validFrom, r.value)) =
    (t₀.currentRow tenant key).map fun r => (r.validFrom, r.value)
  of_row : ∀ r ∈ t.rowsOf tenant key, ∃ e ∈ events, Matches r e
  closed : ClosedBefore t tenant key

theorem Shadows.nil {t : FactTable} {key : FactKey} (h : t.rowsOf tenant key = []) :
    Shadows t t tenant key [] where
  sequential := .nil h
  overlay := ⟨by simp [h], by simp [h]⟩
  current := rfl
  of_row := by simp [h]
  closed := by simp [ClosedBefore, h]

theorem Shadows.exists_current {t₀ t : FactTable} {key : FactKey} {events : List FactWrite}
    (h : Shadows t₀ t tenant key events) (he : e ∈ events) :
    ∃ cur₀ cur, t₀.currentRow tenant key = some cur₀ ∧
      t.currentRow tenant key = some cur ∧ cur.validFrom = cur₀.validFrom ∧
      cur.value = cur₀.value := by
  obtain ⟨cur₀, hcur₀⟩ := h.sequential.exists_current he
  have hsame := h.current
  rw [hcur₀, Option.map_some, Option.map_eq_some_iff] at hsame
  obtain ⟨cur, hcur, hpair⟩ := hsame
  exact ⟨cur₀, cur, hcur₀, hcur, congrArg Prod.fst hpair, congrArg Prod.snd hpair⟩

/-- Whatever began last among the rows that hold an instant is of the value that the other run
holds there. -/
theorem Shadows.value_eq {t₀ t : FactTable} {key : FactKey} {events : List FactWrite}
    (h : Shadows t₀ t tenant key events) {b : FactRow}
    (hr : r ∈ (t.rowsOf tenant key).filter (holdsAt instant))
    (hlast : ∀ r' ∈ (t.rowsOf tenant key).filter (holdsAt instant), r'.validFrom ≤ r.validFrom)
    (hb : b ∈ (t₀.rowsOf tenant key).filter (holdsAt instant)) : r.value = b.value := by
  refine h.overlay.held_eq ?_ hr hlast hb
  intro b' hb' b'' hb'' hholds' hholds''
  rw [h.sequential.held_once instant b' hb' b'' hb'' hholds' hholds'']

/-- A delivered event that is delivered again, with another value than the current one, is not
after the beginning of the current row, and begins where its value is what is read, or with the
current row. -/
def RedeliveryFits (t : FactTable) (e : FactWrite) : Prop :=
  ∀ cur, t.currentRow e.tenantId e.key = some cur → cur.value ≠ e.value →
    e.validFrom ≤ (cur.validFrom : Instant) ∧
    (e.start < cur.validFrom →
      ∀ r ∈ (t.rowsOf e.tenantId e.key).filter (holdsAt e.start),
        (∀ r' ∈ (t.rowsOf e.tenantId e.key).filter (holdsAt e.start),
          r'.validFrom ≤ r.validFrom) → r.value = e.value)

/-- A repetition that fits adds a row that lies over the others, or none. -/
theorem Shadows.again {t₀ t : FactTable} {events : List FactWrite}
    (h : Shadows t₀ t e.tenantId e.key events) (he₀ : e₀ ∈ events) (hsame : SameEvent e e₀)
    (hfits : RedeliveryFits t e) (hup : Upserted t now e t'.rows o) :
    Shadows t₀ t' e.tenantId e.key events := by
  have hclosed := h.closed.write hup
  obtain ⟨hvalue₀, hfrom₀, hvisibility, hclass⟩ := hsame.fields
  have hstart₀ : e₀.start = e.start := congrArg Instant.stored hfrom₀.symm
  obtain ⟨-, cur, -, hcur, -, -⟩ := h.exists_current he₀
  rcases hup.rowsOf_of_current hcur with ⟨-, hrows, hcurrent⟩ | ⟨hvalue, hle, hrows, hcurrent⟩ |
      ⟨hvalue, hlt, -, -⟩
  · refine ⟨h.sequential, by rw [hrows]; exact h.overlay, ?_, by rw [hrows]; exact h.of_row,
      hclosed⟩
    rw [hcurrent, ← hcur]
    exact h.current
  · refine ⟨h.sequential, ?_, ?_, ?_, hclosed⟩
    · rw [hrows]
      refine h.overlay.lay fun instant hholds => ?_
      obtain ⟨hfrom, hto⟩ := holds_iff.mp hholds
      have hbefore : e.start < cur.validFrom := hfrom.trans_lt (hto cur.validFrom rfl)
      obtain ⟨b, hb, hbholds⟩ := h.sequential.held e₀ he₀ instant (hstart₀ ▸ hfrom)
      refine ⟨b, hb, hbholds, ?_⟩
      by_cases hafter : e.start < b.validFrom
      · exact Or.inl hafter
      · -- the row that holds the instant holds the event, and what is read there is its value
        right
        have hbevent : b ∈ (t₀.rowsOf e.tenantId e.key).filter (holdsAt e.start) := by
          refine List.mem_filter.mpr ⟨hb, holds_iff.mpr ⟨not_lt.mp hafter, fun x hx => ?_⟩⟩
          exact hfrom.trans_lt ((holds_iff.mp hbholds).2 x hx)
        have hne : (t.rowsOf e.tenantId e.key).filter (holdsAt e.start) ≠ [] := by
          intro hnil
          rw [h.overlay.filter_holds_eq_nil_iff] at hnil
          rw [hnil] at hbevent
          cases hbevent
        cases hlast : ((t.rowsOf e.tenantId e.key).filter (holdsAt e.start)).argmax
            FactRow.validFrom with
        | none => exact absurd (List.argmax_eq_none.mp hlast) hne
        | some r =>
          have hmax : ∀ r' ∈ (t.rowsOf e.tenantId e.key).filter (holdsAt e.start),
              r'.validFrom ≤ r.validFrom := fun r' hr' => List.le_of_mem_argmax hr' hlast
          have hread := (hfits cur hcur hvalue).2 hbefore r (List.argmax_mem hlast) hmax
          exact (h.value_eq (List.argmax_mem hlast) hmax hbevent).symm.trans hread
    · rw [hcurrent, ← hcur]
      exact h.current
    · rw [hrows]
      intro r hr
      rcases List.mem_append.mp hr with hr | hr
      · exact h.of_row r hr
      · rw [List.mem_singleton.mp hr]
        exact ⟨e₀, he₀, hvalue₀, hstart₀.symm, hvisibility, hclass⟩
  · exact absurd hlt (not_lt.mpr (hfits cur hcur hvalue).1)

/-- A new event does the same in both runs. -/
theorem Shadows.fresh {t₀ t t₀' : FactTable} {events : List FactWrite} {now₀ : Time}
    {o₀ : FactUpsertOutcome} (h : Shadows t₀ t e.tenantId e.key events)
    (hlast : ∀ e' ∈ events, e'.start ≤ e.start) (hup₀ : Upserted t₀ now₀ e t₀'.rows o₀)
    (hup : Upserted t now e t'.rows o) : Shadows t₀' t' e.tenantId e.key (events ++ [e]) := by
  have hsequential := h.sequential.write hlast hup₀
  have hclosed := h.closed.write hup
  have hof := exists_matches_write h.of_row hup
  cases hcur₀ : t₀.currentRow e.tenantId e.key with
  | none =>
    have hnone : t.currentRow e.tenantId e.key = none := by
      have hsame := h.current
      rwa [hcur₀, Option.map_none, Option.map_eq_none_iff] at hsame
    obtain ⟨hrows₀, hcurrent₀⟩ := hup₀.rowsOf_of_none hcur₀
    obtain ⟨hrows, hcurrent⟩ := hup.rowsOf_of_none hnone
    refine ⟨hsequential, ?_, by rw [hcurrent, hcurrent₀]; rfl, hof, hclosed⟩
    rw [hrows, hrows₀]
    exact h.overlay.append rfl rfl rfl
  | some cur₀ =>
    obtain ⟨ecur, hecur, hmatch⟩ := h.sequential.of_row cur₀ (currentRow_mem_rowsOf hcur₀)
    obtain ⟨cur₁, cur, hcur₁, hcur, hfrom, hvalue⟩ := h.exists_current hecur
    obtain rfl : cur₀ = cur₁ := Option.some.inj (hcur₀.symm.trans hcur₁)
    rcases hup₀.rowsOf_of_current hcur₀ with ⟨hsame₀, hrows₀, hcurrent₀⟩ |
        ⟨hother₀, hle₀, hrows₀, hcurrent₀⟩ | ⟨hother₀, hlt₀, hrows₀, hcurrent₀⟩
    · rcases hup.rowsOf_of_current hcur with ⟨-, hrows, hcurrent⟩ | ⟨hother, -⟩ | ⟨hother, -⟩
      · refine ⟨hsequential, by rw [hrows, hrows₀]; exact h.overlay, ?_, hof, hclosed⟩
        rw [hcurrent, hcurrent₀, ← hcur, ← hcur₀]
        exact h.current
      · exact absurd (hvalue.trans hsame₀) hother
      · exact absurd (hvalue.trans hsame₀) hother
    · rcases hup.rowsOf_of_current hcur with ⟨hsame, -⟩ | ⟨-, -, hrows, hcurrent⟩ | ⟨-, hlt, -⟩
      · exact absurd (hvalue.symm.trans hsame) hother₀
      · refine ⟨hsequential, ?_, ?_, hof, hclosed⟩
        · rw [hrows, hrows₀]
          exact h.overlay.append rfl (congrArg some hfrom) rfl
        · rw [hcurrent, hcurrent₀, ← hcur, ← hcur₀]
          exact h.current
      · rw [hfrom] at hlt
        exact absurd hle₀ (not_le.mpr hlt)
    · rcases hup.rowsOf_of_current hcur with ⟨hsame, -⟩ | ⟨-, hle, -⟩ | ⟨-, -, hrows, hcurrent⟩
      · exact absurd (hvalue.symm.trans hsame) hother₀
      · rw [hfrom] at hle
        exact absurd hle (not_le.mpr hlt₀)
      · have hto : ∀ r ∈ t.rowsOf e.tenantId e.key, ∀ y, r.validTo = some y → y ≤ e.start := by
          intro r hr y hy
          obtain ⟨cur', hcur', hle⟩ := h.closed r hr y hy
          rw [hcur] at hcur'
          rw [← Option.some.inj hcur', hfrom, hmatch.validFrom] at hle
          exact hle.trans (hlast ecur hecur)
        refine ⟨hsequential, ?_, by rw [hcurrent, hcurrent₀]; rfl, hof, hclosed⟩
        rw [hrows, hrows₀]
        refine Overlay.append (h.overlay.close ?_ ?_ hto) rfl rfl rfl
        · intro b hb
          have hkeep := closeRow_key cur₀.id t₀.nextId e.start b
          exact ⟨hkeep.2.2.1, hkeep.2.2.2, closeRow_validTo hcur₀ hb _ _⟩
        · intro r hr
          have hkeep := closeRow_key cur.id t.nextId e.start r
          exact ⟨hkeep.2.2.1, hkeep.2.2.2, closeRow_validTo hcur hr _ _⟩

/-! ## What is read -/

/-- The reads of two tables answer the same values, whichever of the rows that began last an as-of
read returns. -/
structure AnswersAlike (t₁ t₂ : FactTable) (scope : Scope) (key : FactKey) : Prop where
  current : (currentFact t₁ scope key).map FactRow.value =
    (currentFact t₂ scope key).map FactRow.value
  asOf : ∀ instant, (factAsOf t₁ scope key instant).map FactRow.value =
    (factAsOf t₂ scope key instant).map FactRow.value
  tied : ∀ (instant : Instant) answer₁ answer₂,
    AnswersLimit (Descending FactRow.validFrom) 1 (rowsAsOf t₁ scope key instant.stored) answer₁ →
    AnswersLimit (Descending FactRow.validFrom) 1 (rowsAsOf t₂ scope key instant.stored) answer₂ →
      answer₁.map FactRow.value = answer₂.map FactRow.value

theorem factAsOf_answers (t : FactTable) (scope : Scope) (key : FactKey) (instant : Instant) :
    AnswersLimit (Descending FactRow.validFrom) 1 (rowsAsOf t scope key instant.stored)
      (factAsOf t scope key instant).toList := by
  rw [factAsOf_eq, latest, answersLimit_descending_one_iff]
  cases harg : (rowsAsOf t scope key instant.stored).argmax FactRow.validFrom with
  | none => exact Or.inl ⟨List.argmax_eq_none.mp harg, rfl⟩
  | some r =>
    exact Or.inr ⟨r, List.argmax_mem harg, fun b hb => List.le_of_mem_argmax hb harg, rfl⟩

section Read

variable {t₀ t : FactTable} {scope : Scope} {key : FactKey} {events : List FactWrite}

/-- The reads do not see the rows that lie over others. -/
theorem Shadows.answersAlike (h : Shadows t₀ t scope.tenantId key events)
    (hvisible : ∀ e ∈ events, scope.sees key.entityId e.visibility e.confidentiality = true) :
    AnswersAlike t t₀ scope key := by
  have hseen := rowsOf_visible h.of_row hvisible
  have hseen₀ := rowsOf_visible h.sequential.of_row hvisible
  have htied : ∀ (instant : Instant) answer₁ answer₂,
      AnswersLimit (Descending FactRow.validFrom) 1 (rowsAsOf t scope key instant.stored) answer₁ →
      AnswersLimit (Descending FactRow.validFrom) 1 (rowsAsOf t₀ scope key instant.stored)
        answer₂ → answer₁.map FactRow.value = answer₂.map FactRow.value := by
    intro instant answer₁ answer₂ hanswer₁ hanswer₂
    rw [rowsAsOf_eq_filter hseen, answersLimit_descending_one_iff] at hanswer₁
    rw [rowsAsOf_eq_filter hseen₀, answersLimit_descending_one_iff] at hanswer₂
    have hnil := h.overlay.filter_holds_eq_nil_iff instant.stored
    rcases hanswer₁ with ⟨hnone, rfl⟩ | ⟨r, hr, hmax, rfl⟩
    · rcases hanswer₂ with ⟨-, rfl⟩ | ⟨b, hb, -, rfl⟩
      · rfl
      · rw [hnil.mp hnone] at hb
        cases hb
    · rcases hanswer₂ with ⟨hnone, rfl⟩ | ⟨b, hb, -, rfl⟩
      · rw [hnil.mpr hnone] at hr
        cases hr
      · rw [List.map_singleton, List.map_singleton, h.value_eq hr hmax hb]
  refine ⟨?_, fun instant => ?_, htied⟩
  · have hsame := h.current
    rw [currentFact_eq_filter, currentFact_eq_filter]
    cases hcur₀ : t₀.currentRow scope.tenantId key with
    | none =>
      rw [hcur₀, Option.map_none, Option.map_eq_none_iff] at hsame
      rw [hsame]
    | some cur₀ =>
      rw [hcur₀, Option.map_some, Option.map_eq_some_iff] at hsame
      obtain ⟨cur, hcur, hpair⟩ := hsame
      rw [hcur, Option.filter_some_pos (hseen cur (currentRow_mem_rowsOf hcur)),
        Option.filter_some_pos (hseen₀ cur₀ (currentRow_mem_rowsOf hcur₀))]
      exact congrArg some (congrArg Prod.snd hpair)
  · have hread := htied instant _ _ (factAsOf_answers t scope key instant)
      (factAsOf_answers t₀ scope key instant)
    rw [← Option.toList_map, ← Option.toList_map] at hread
    have hhead := congrArg List.head? hread
    rwa [Option.head?_toList, Option.head?_toList] at hhead

/-- Where the reads answer alike after a repetition too, the repetition fits. -/
theorem Shadows.fits_of_answersAlike (h : Shadows t₀ t scope.tenantId key events)
    (hkey : e.tenantId = scope.tenantId ∧ e.key = key)
    (hvisible : ∀ e ∈ events, scope.sees key.entityId e.visibility e.confidentiality = true)
    (he₀ : e₀ ∈ events) (hsame : SameEvent e e₀) (hup : Upserted t now e t'.rows o)
    (halike : AnswersAlike t' t₀ scope key) : RedeliveryFits t e := by
  obtain ⟨-, -, hvisibility, hclass⟩ := hsame.fields
  obtain ⟨htenant, rfl⟩ := hkey
  rw [← htenant] at h
  have hof : ∀ r ∈ t.rowsOf scope.tenantId e.key, ∃ e' ∈ events, Matches r e' :=
    htenant ▸ h.of_row
  have hof₀ : ∀ r ∈ t₀.rowsOf scope.tenantId e.key, ∃ e' ∈ events, Matches r e' :=
    htenant ▸ h.sequential.of_row
  have hseen₀ := rowsOf_visible hof₀ hvisible
  have hnew : ∀ id validTo, factVisible scope (e.toRow id now validTo) = true := by
    intro id validTo
    have hsees := hvisible e₀ he₀
    rwa [← hvisibility, ← hclass] at hsees
  obtain ⟨cur₀, cur₁, hcur₀, hcur₁, -, hvalue₀⟩ := h.exists_current he₀
  intro cur hcur hvalue
  obtain rfl : cur₁ = cur := Option.some.inj (hcur₁.symm.trans hcur)
  rcases hup.rowsOf_of_current hcur with ⟨hval, -⟩ | ⟨-, hle, hrows, -⟩ | ⟨-, -, -, hcurrent⟩
  · exact absurd hval hvalue
  · refine ⟨hle, fun hlt r hr hmax => ?_⟩
    have hseen' : ∀ r ∈ t'.rowsOf scope.tenantId e.key, factVisible scope r = true := by
      rw [← htenant, hrows]
      intro r hr
      rcases List.mem_append.mp hr with hr | hr
      · exact rowsOf_visible hof hvisible r (htenant ▸ hr)
      · rw [List.mem_singleton.mp hr]
        exact hnew _ _
    obtain ⟨hrmem, hrholds⟩ := List.mem_filter.mp hr
    obtain ⟨b, hb, hbholds, -⟩ := h.overlay.covered r hrmem e.start hrholds
    have hbmem := List.mem_filter.mpr ⟨hb, hbholds⟩
    -- the new row may be read at the event, and the other run reads one row there
    have hread := halike.tied e.validFrom [e.toRow t.nextId now (some cur₁.validFrom)] [b] (by
      rw [rowsAsOf_eq_filter hseen', answersLimit_descending_one_iff, ← htenant, hrows]
      refine Or.inr ⟨_, List.mem_filter.mpr ⟨by simp, holds_iff.mpr ⟨le_rfl, ?_⟩⟩, ?_, rfl⟩
      · intro x hx
        exact Option.some.inj hx ▸ hlt
      · intro r' hr'
        exact (holds_iff.mp (List.mem_filter.mp hr').2).1) (by
      rw [rowsAsOf_eq_filter hseen₀, answersLimit_descending_one_iff, ← htenant]
      refine Or.inr ⟨b, hbmem, fun b' hb' => ?_, rfl⟩
      obtain ⟨hb', hholds'⟩ := List.mem_filter.mp hb'
      rw [h.sequential.held_once e.start b' hb' b hb hholds' hbholds])
    rw [List.map_singleton, List.map_singleton, List.singleton_inj] at hread
    rw [h.value_eq hr hmax hbmem, ← hread]
    rfl
  · -- the repetition became current, and the other run still reads the value before
    have hread := halike.current
    rw [currentFact_eq_filter, currentFact_eq_filter, ← htenant, hcurrent, hcur₀,
      Option.filter_some_pos (hnew _ _),
      Option.filter_some_pos (hseen₀ cur₀ (htenant ▸ currentRow_mem_rowsOf hcur₀)),
      Option.map_some, Option.map_some, Option.some.injEq] at hread
    exact absurd (hvalue₀.trans hread.symm) hvalue

end Read

/-! ## The two runs -/

/-- Every delivery of the log that repeats one before it fits the table it meets. -/
def RedeliveriesFit (t : FactTable) (log : List Delivery) : Prop :=
  ∀ before d after t', log = before ++ d :: after → deliver t before = .ok t' →
    (∃ d' ∈ before, SameEvent d.fact d'.fact) → RedeliveryFits t' d.fact

theorem RedeliveriesFit.before {t : FactTable} {d : Delivery} (h : RedeliveriesFit t (log ++ [d])) :
    RedeliveriesFit t log := by
  rintro before d' after t' rfl hrun hagain
  exact h before d' (after ++ [d]) t' (by simp) hrun hagain

/-- One more delivery, to the table that the others leave. -/
theorem RedeliveriesFit.concat {t : FactTable} {d : Delivery} (h : RedeliveriesFit t log)
    (hlast : ∀ t', deliver t log = .ok t' → (∃ d' ∈ log, SameEvent d.fact d'.fact) →
      RedeliveryFits t' d.fact) : RedeliveriesFit t (log ++ [d]) := by
  intro before d' after t' hsplit hrun hagain
  rcases split_concat hsplit with ⟨rfl, rfl, -⟩ | ⟨older, -, hlog⟩
  · exact hlast t' hrun hagain
  · exact h before d' older t' hlog hrun hagain

theorem repeated_iff :
    (∃ d ∈ log, SameEvent e d.fact) ↔
      ∃ e₀ ∈ (firstDeliveries [] log).map Delivery.fact, SameEvent e e₀ := by
  constructor
  · rintro ⟨d, hd, hsame⟩
    obtain ⟨e₀, he₀, hsame₀⟩ := exists_firstDelivery [] d hd
    exact ⟨e₀, he₀, hsame.trans hsame₀⟩
  · rintro ⟨e₀, he₀, hsame⟩
    obtain ⟨d, hd, rfl⟩ := List.mem_map.mp he₀
    exact ⟨d, mem_firstDeliveries d hd, hsame⟩

theorem firstDeliveries_concat (log : List Delivery) (d : Delivery) :
    firstDeliveries [] (log ++ [d]) =
      if ∃ e₀ ∈ (firstDeliveries [] log).map Delivery.fact, SameEvent d.fact e₀ then
        firstDeliveries [] log
      else firstDeliveries [] log ++ [d] := by
  rw [firstDeliveries_append, List.nil_append, firstDeliveries]
  split
  · rw [firstDeliveries, List.append_nil]
  · rw [firstDeliveries]

theorem deliver_concat {t t₁ t₂ : FactTable} {d : Delivery} (hrun : deliver t log = .ok t₁)
    (hok : upsertFact t₁ d.now d.fact = .ok (t₂, o)) : deliver t (log ++ [d]) = .ok t₂ := by
  rw [deliver_append, hrun]
  simp [Except.bind, deliver, hok, bind]

/-- Where the first deliveries of a log come in order and the others fit, the rows it leaves lie
over those of the first deliveries alone. -/
theorem deliver_shadows {t : FactTable} {key : FactKey} (hfresh : t.rowsOf tenant key = [])
    (hkey : ∀ d ∈ log, d.fact.tenantId = tenant ∧ d.fact.key = key)
    (hincr : (firstDeliveries [] log).Pairwise fun d d' => d.fact.validFrom < d'.fact.validFrom)
    (hfit : RedeliveriesFit t log) :
    ∃ t₁ t₀, deliver t log = .ok t₁ ∧ deliver t (firstDeliveries [] log) = .ok t₀ ∧
      Shadows t₀ t₁ tenant key ((firstDeliveries [] log).map Delivery.fact) := by
  induction log using List.reverseRecOn with
  | nil => exact ⟨t, t, rfl, rfl, .nil hfresh⟩
  | append_singleton log d ih =>
    have hd := hkey d (by simp)
    obtain ⟨rfl, rfl⟩ := hd
    have hbefore := firstDeliveries_append [] log [d]
    rw [hbefore, List.pairwise_append] at hincr
    obtain ⟨t₁, t₀, hrun₁, hrun₀, hshadows⟩ := ih (fun d' hd' => hkey d' (by simp [hd'])) hincr.1
      hfit.before
    obtain ⟨t₁', o₁, hok₁, hup₁⟩ := upsertFact_spec t₁ d.now d.fact
    have hconcat := firstDeliveries_concat log d
    by_cases hagain : ∃ e₀ ∈ (firstDeliveries [] log).map Delivery.fact, SameEvent d.fact e₀
    · rw [if_pos hagain] at hconcat
      have hfits := hfit log d [] t₁ rfl hrun₁ (repeated_iff.mpr hagain)
      obtain ⟨e₀, he₀, hsame⟩ := hagain
      rw [hconcat]
      exact ⟨t₁', t₀, deliver_concat hrun₁ hok₁, hrun₀, hshadows.again he₀ hsame hfits hup₁⟩
    · rw [if_neg hagain] at hconcat
      have hlast : ∀ e ∈ (firstDeliveries [] log).map Delivery.fact, e.start ≤ d.fact.start := by
        intro e he
        obtain ⟨d', hd', rfl⟩ := List.mem_map.mp he
        have hmem :
            d ∈ firstDeliveries ([] ++ (firstDeliveries [] log).map Delivery.fact) [d] := by
          rw [List.nil_append, firstDeliveries, if_neg hagain]
          exact List.mem_cons_self
        exact Instant.stored_mono (hincr.2.2 d' hd' d hmem).le
      obtain ⟨t₀', o₀, hok₀, hup₀⟩ := upsertFact_spec t₀ d.now d.fact
      rw [hconcat, List.map_append]
      exact ⟨t₁', t₀', deliver_concat hrun₁ hok₁, deliver_concat hrun₀ hok₀,
        hshadows.fresh hlast hup₀ hup₁⟩

theorem firstDeliveries_pairwise_initial {R : Delivery → Delivery → Prop} {before : List Delivery}
    (h : before <+: log) (hlog : (firstDeliveries [] log).Pairwise R) :
    (firstDeliveries [] before).Pairwise R := by
  obtain ⟨after, rfl⟩ := h
  rw [firstDeliveries_append, List.pairwise_append] at hlog
  exact hlog.1

/-- Take a key without rows and a log of deliveries for it, all visible to a scope, whose first
deliveries come at strictly increasing event times; the others repeat events delivered before.
After every part of the log, the current value and the value as of every instant are those of
the run without the repetitions, also where rows tie for the as-of read, if and only if every
repetition fits the table it meets. -/
theorem redelivery_harmless_iff {t : FactTable} {scope : Scope} {key : FactKey}
    {log : List Delivery} (hfresh : t.rowsOf scope.tenantId key = [])
    (hkey : ∀ d ∈ log, d.fact.tenantId = scope.tenantId ∧ d.fact.key = key)
    (hvisible : ∀ d ∈ log, scope.sees key.entityId d.fact.visibility d.fact.confidentiality = true)
    (hincr : (firstDeliveries [] log).Pairwise fun d d' => d.fact.validFrom < d'.fact.validFrom) :
    (∀ before, before <+: log →
      ∃ t₁ t₀, deliver t before = .ok t₁ ∧ deliver t (firstDeliveries [] before) = .ok t₀ ∧
        AnswersAlike t₁ t₀ scope key) ↔
    RedeliveriesFit t log := by
  have hsees : ∀ before, before <+: log → ∀ e ∈ (firstDeliveries [] before).map Delivery.fact,
      scope.sees key.entityId e.visibility e.confidentiality = true := by
    intro before hbefore e he
    obtain ⟨d, hd, rfl⟩ := List.mem_map.mp he
    exact hvisible d (hbefore.subset (mem_firstDeliveries d hd))
  constructor
  · intro halike
    induction log using List.reverseRecOn with
    | nil =>
      intro before d after t' hsplit
      exact absurd hsplit (by simp)
    | append_singleton log d ih =>
      have hinit : log <+: log ++ [d] := List.prefix_append log [d]
      have hlogKey := fun d' hd' => hkey d' (hinit.subset hd')
      have hlogIncr := firstDeliveries_pairwise_initial hinit hincr
      have hlog : RedeliveriesFit t log :=
        ih hlogKey (fun d' hd' => hvisible d' (hinit.subset hd')) hlogIncr
          (fun before hbefore => hsees before (hbefore.trans hinit))
          (fun before hbefore => halike before (hbefore.trans hinit))
      refine hlog.concat fun t' hrun hagain => ?_
      obtain ⟨t₁, t₀, hrun₁, hrun₀, hshadows⟩ := deliver_shadows hfresh hlogKey hlogIncr hlog
      obtain rfl := Except.ok.inj (hrun₁.symm.trans hrun)
      obtain ⟨t₁', o, hok, hup⟩ := upsertFact_spec t₁ d.now d.fact
      obtain ⟨t₂, t₀', hrun₂, hrun₀', hread⟩ := halike (log ++ [d]) (List.prefix_refl _)
      have hfirst := firstDeliveries_concat log d
      rw [if_pos (repeated_iff.mp hagain)] at hfirst
      rw [hfirst] at hrun₀'
      obtain rfl := Except.ok.inj (hrun₀.symm.trans hrun₀')
      obtain rfl := Except.ok.inj ((deliver_concat hrun₁ hok).symm.trans hrun₂)
      obtain ⟨e₀, he₀, hsame⟩ := repeated_iff.mp hagain
      exact hshadows.fits_of_answersAlike (hkey d (by simp)) (hsees log hinit) he₀ hsame hup
        hread
  · intro hfit before hbefore
    have hbeforeFit : RedeliveriesFit t before := by
      obtain ⟨after, rfl⟩ := hbefore
      rintro before' d after' t' rfl hrun hagain
      exact hfit before' d (after' ++ after) t' (by simp) hrun hagain
    obtain ⟨t₁, t₀, hrun₁, hrun₀, hshadows⟩ := deliver_shadows hfresh
      (fun d hd => hkey d (hbefore.subset hd)) (firstDeliveries_pairwise_initial hbefore hincr)
      hbeforeFit
    exact ⟨t₁, t₀, hrun₁, hrun₀, hshadows.answersAlike (hsees before hbefore)⟩

/-! ## Events that the microsecond keeps apart -/

/-- No event of another value is stored at the microsecond of the event. -/
def AloneInValue (events : List FactWrite) (e : FactWrite) : Prop :=
  ∀ e' ∈ events, e'.start = e.start → e'.value = e.value

/-- The row that holds the start of an event is of its value, where the event is alone in value. -/
def HoldsAlone (t : FactTable) (tenant : TenantId) (key : FactKey) (events : List FactWrite) :
    Prop :=
  ∀ e ∈ events, AloneInValue events e →
    ∃ r ∈ t.rowsOf tenant key, holdsAt e.start r = true ∧ r.value = e.value

/-- One more event in order. -/
theorem HoldsAlone.write {t : FactTable} {events : List FactWrite}
    (h : HoldsAlone t e.tenantId e.key events) (hseq : Sequential t e.tenantId e.key events)
    (hlast : ∀ e' ∈ events, e'.start ≤ e.start) (hup : Upserted t now e t'.rows o) :
    HoldsAlone t' e.tenantId e.key (events ++ [e]) := by
  intro e' he' halone
  have hold : e' ∈ events → ∃ r ∈ t.rowsOf e.tenantId e.key, holdsAt e'.start r = true ∧
      r.value = e'.value := fun he' =>
    h e' he' fun e'' he'' => halone e'' (List.mem_append_left _ he'')
  cases hcur : t.currentRow e.tenantId e.key with
  | none =>
    rcases List.mem_append.mp he' with he' | he'
    · obtain ⟨cur, hcur'⟩ := hseq.exists_current he'
      exact absurd (hcur.symm.trans hcur') (by simp)
    · rw [List.mem_singleton.mp he', (hup.rowsOf_of_none hcur).1]
      exact ⟨e.toRow t.nextId now none, by simp, holdsAt_toRow_iff.mpr le_rfl, rfl⟩
  | some cur =>
    obtain ⟨ecur, hecur, hmatch⟩ := hseq.of_row cur (currentRow_mem_rowsOf hcur)
    have hfrom : cur.validFrom ≤ e.start := hmatch.validFrom ▸ hlast ecur hecur
    rcases hup.rowsOf_of_current hcur with ⟨hvalue, hrows, -⟩ | ⟨hvalue, hle, hrows, -⟩ |
        ⟨-, -, hrows, -⟩
    · rw [hrows]
      rcases List.mem_append.mp he' with he' | he'
      · exact hold he'
      · rw [List.mem_singleton.mp he']
        exact ⟨cur, currentRow_mem_rowsOf hcur, holdsAt_current hcur hfrom, hvalue⟩
    · rw [hrows]
      rcases List.mem_append.mp he' with he' | he'
      · obtain ⟨r, hr, hrest⟩ := hold he'
        exact ⟨r, List.mem_append_left _ hr, hrest⟩
      · -- the current row is of the same microsecond, and of another value
        rw [List.mem_singleton.mp he'] at halone
        have hstart : ecur.start = e.start :=
          hmatch.validFrom.symm.trans (le_antisymm hfrom (Instant.stored_le hle))
        have hsame := halone ecur (List.mem_append_left _ hecur) hstart
        exact absurd (hmatch.value.trans hsame) hvalue
    · rw [hrows]
      have hnew : e.start ≤ e'.start → e'.value = e.value →
          ∃ r ∈ (t.rowsOf e.tenantId e.key).map (closeRow cur.id e.start t.nextId) ++
            [e.toRow t.nextId now none], holdsAt e'.start r = true ∧ r.value = e'.value :=
        fun hle hvalue => ⟨e.toRow t.nextId now none, by simp, holdsAt_toRow_iff.mpr hle,
          hvalue.symm⟩
      rcases List.mem_append.mp he' with he' | he'
      · rcases (hlast e' he').lt_or_eq with hlt | heq
        · obtain ⟨r, hr, hholds, hvalue⟩ := hold he'
          refine ⟨_, List.mem_append_left _ (List.mem_map_of_mem hr), ?_, ?_⟩
          · exact (holdsAt_closeRow_iff hseq.closed hcur hfrom _ hr _).mpr ⟨hholds, hlt⟩
          · rw [(closeRow_key cur.id t.nextId e.start r).2.2.2, hvalue]
        · exact hnew heq.ge (halone e (by simp) heq.symm).symm
      · rw [List.mem_singleton.mp he'] at hnew ⊢
        exact hnew le_rfl rfl

/-- A repetition of an event that is alone in value fits. -/
theorem RedeliveryFits.of_alone {t₀ t : FactTable} {events : List FactWrite}
    (h : Shadows t₀ t e.tenantId e.key events) (halone : HoldsAlone t₀ e.tenantId e.key events)
    (he₀ : e₀ ∈ events) (hsame : SameEvent e e₀) (hvalues : AloneInValue events e₀) :
    RedeliveryFits t e := by
  obtain ⟨hvalue₀, hfrom₀, -, -⟩ := hsame.fields
  have hstart₀ : e₀.start = e.start := congrArg Instant.stored hfrom₀.symm
  obtain ⟨b, hb, hbholds, hbvalue⟩ := halone e₀ he₀ hvalues
  rw [hstart₀] at hbholds
  have hbmem := List.mem_filter.mpr ⟨hb, hbholds⟩
  obtain ⟨cur₀, cur₁, hcur₀, hcur₁, hfrom, hcurValue⟩ := h.exists_current he₀
  intro cur hcur hvalue
  obtain rfl : cur₁ = cur := Option.some.inj (hcur₁.symm.trans hcur)
  refine ⟨?_, fun _ r hr hmax => ?_⟩
  · by_contra hlt
    -- else the current row holds the event, and is the one row that does
    have hle : cur₀.validFrom ≤ e.start := hfrom ▸ Instant.le_stored (not_le.mp hlt).le
    have hone := h.sequential.held_once e.start cur₀ (currentRow_mem_rowsOf hcur₀) b hb
      (holdsAt_current hcur₀ hle) hbholds
    rw [← hone, ← hvalue₀, ← hcurValue] at hbvalue
    exact hvalue hbvalue
  · rw [h.value_eq hr hmax hbmem, hbvalue, ← hvalue₀]

/-- The run without repetitions. -/
theorem deliver_holdsAlone {t t₀ : FactTable} {key : FactKey} (hfresh : t.rowsOf tenant key = [])
    (hkey : ∀ d ∈ ds, d.fact.tenantId = tenant ∧ d.fact.key = key)
    (hincr : ds.Pairwise fun d d' => d.fact.validFrom < d'.fact.validFrom)
    (hrun : deliver t ds = .ok t₀) :
    Sequential t₀ tenant key (ds.map Delivery.fact) ∧
      HoldsAlone t₀ tenant key (ds.map Delivery.fact) := by
  induction ds using List.reverseRecOn generalizing t₀ with
  | nil =>
    obtain rfl := Except.ok.inj hrun
    exact ⟨.nil hfresh, by simp [HoldsAlone]⟩
  | append_singleton ds d ih =>
    obtain ⟨rfl, rfl⟩ := hkey d (by simp)
    rw [List.pairwise_append] at hincr
    have hlast : ∀ e ∈ ds.map Delivery.fact, e.start ≤ d.fact.start := by
      intro e he
      obtain ⟨d', hd', rfl⟩ := List.mem_map.mp he
      exact Instant.stored_mono (hincr.2.2 d' hd' d (by simp)).le
    obtain ⟨t₁, hrun₁, -⟩ := deliver_invariant (P := fun _ => True) ds (fun _ _ _ _ _ _ _ _ =>
      trivial) t trivial
    obtain ⟨t₂, o, hok, hup⟩ := upsertFact_spec t₁ d.now d.fact
    obtain rfl := Except.ok.inj ((deliver_concat hrun₁ hok).symm.trans hrun)
    obtain ⟨hseq, halone⟩ := ih (fun d' hd' => hkey d' (by simp [hd'])) hincr.1 hrun₁
    rw [List.map_append]
    exact ⟨hseq.write hlast hup, halone.write hseq hlast hup⟩

/-- Where events that are stored at one microsecond carry one value, every repetition fits. -/
theorem redeliveriesFit_of_alone {t : FactTable} {key : FactKey} (hfresh : t.rowsOf tenant key = [])
    (hkey : ∀ d ∈ log, d.fact.tenantId = tenant ∧ d.fact.key = key)
    (hincr : (firstDeliveries [] log).Pairwise fun d d' => d.fact.validFrom < d'.fact.validFrom)
    (hvalues : ∀ d ∈ log, ∀ d' ∈ log, d.fact.start = d'.fact.start → d.fact.value = d'.fact.value) :
    RedeliveriesFit t log := by
  induction log using List.reverseRecOn with
  | nil =>
    intro before d after t' hsplit
    exact absurd hsplit (by simp)
  | append_singleton log d ih =>
    have hinit : log <+: log ++ [d] := List.prefix_append log [d]
    have hlogKey := fun d' hd' => hkey d' (hinit.subset hd')
    have hlogIncr := firstDeliveries_pairwise_initial hinit hincr
    have hlog := ih hlogKey hlogIncr fun d₁ hd₁ d₂ hd₂ =>
      hvalues d₁ (hinit.subset hd₁) d₂ (hinit.subset hd₂)
    refine hlog.concat fun t' hrun hagain => ?_
    obtain ⟨rfl, rfl⟩ := hkey d (by simp)
    obtain ⟨t₁, t₀, hrun₁, hrun₀, hshadows⟩ := deliver_shadows hfresh hlogKey hlogIncr hlog
    obtain rfl := Except.ok.inj (hrun₁.symm.trans hrun)
    have hfirstKey := fun d' (hd' : d' ∈ firstDeliveries [] log) =>
      hlogKey d' (mem_firstDeliveries d' hd')
    obtain ⟨-, halone⟩ := deliver_holdsAlone hfresh hfirstKey hlogIncr hrun₀
    obtain ⟨e₀, he₀, hsame⟩ := repeated_iff.mp hagain
    refine .of_alone hshadows halone he₀ hsame fun e he hstart => ?_
    obtain ⟨d₁, hd₁, rfl⟩ := List.mem_map.mp he
    obtain ⟨d₂, hd₂, rfl⟩ := List.mem_map.mp he₀
    exact hvalues d₁ (hinit.subset (mem_firstDeliveries d₁ hd₁)) d₂
      (hinit.subset (mem_firstDeliveries d₂ hd₂)) hstart

/-- Amounts 50, 84 and 50 again, each delivered, and the first two repeated in between and at the
end. -/
def alternatingLog : List Delivery :=
  [amountAt 1 50 [1], amountAt 2 84 [1], amountAt 1 50 [1], amountAt 3 50 [1], amountAt 2 84 [1],
    amountAt 1 50 [1]].map (Delivery.mk 9)

/-- After every prefix of the log the answers are those of the first deliveries alone. -/
theorem redelivery_harmless_alternatingLog :
    RedeliveriesFit FactTable.empty alternatingLog ∧ ∀ before, before <+: alternatingLog →
      ∃ t₁ t₀, deliver FactTable.empty before = .ok t₁ ∧
        deliver FactTable.empty (firstDeliveries [] before) = .ok t₀ ∧
        AnswersAlike t₁ t₀ (readScope [1]) ⟨"hubspot", "deal-42", "amount"⟩ := by
  have hfresh : FactTable.empty.rowsOf 1 ⟨"hubspot", "deal-42", "amount"⟩ = [] := rfl
  have hfit : RedeliveriesFit FactTable.empty alternatingLog :=
    redeliveriesFit_of_alone hfresh (by decide) (by decide) (by decide)
  exact ⟨hfit, (redelivery_harmless_iff rfl (by decide) (by decide) (by decide)).mpr hfit⟩

/-- Amount 50 a hundred nanoseconds after a microsecond begins, amount 84 two hundred after it, and
the first again. -/
def sameMicrosecondLog : List Delivery :=
  [amountAt ⟨1700000000000000100⟩ 50 [1], amountAt ⟨1700000000000000200⟩ 84 [1],
    amountAt ⟨1700000000000000100⟩ 50 [1]].map (Delivery.mk 9)

/-- Both events are stored at the microsecond, so the repetition of the first is after the current
row's start and supersedes it. -/
theorem repeated_amount_supersedes_later :
    (firstDeliveries [] sameMicrosecondLog).Pairwise
      (fun d d' => d.fact.validFrom < d'.fact.validFrom) ∧
    ∃ t₁ t₀, deliver FactTable.empty sameMicrosecondLog = .ok t₁ ∧
      deliver FactTable.empty (firstDeliveries [] sameMicrosecondLog) = .ok t₀ ∧
      (currentFact t₀ (readScope [1]) ⟨"hubspot", "deal-42", "amount"⟩).map FactRow.value =
        some (.posInt 84) ∧
      (currentFact t₁ (readScope [1]) ⟨"hubspot", "deal-42", "amount"⟩).map FactRow.value =
        some (.posInt 50) ∧
      ¬ AnswersAlike t₁ t₀ (readScope [1]) ⟨"hubspot", "deal-42", "amount"⟩ := by
  refine ⟨by decide, _, _, rfl, rfl, by decide, by decide, ?_⟩
  intro h
  have hcurrent := h.current
  revert hcurrent
  decide

end Verity.Analysis
