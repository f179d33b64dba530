import Verity.Foundation.Fallible
import Verity.Foundation.Run
import Verity.Analysis.FactOrder

/-!
# Reads of the past by a scope

A row that is superseded ends where its successor starts. An event that comes late is stored up to
the start of the current row, and the rows it falls between keep their ends: their intervals overlap
its own. Among the rows that hold an instant a read takes the one that began last, but only among
those its scope sees. So a scope that sees an older row and not the late one, or the late one and
not a newer one, is answered a value that had been replaced by then.

`asOf_never_outdated_iff` is the exact condition: whoever sees a row that a late event falls into
sees the event too, and whoever sees the event sees the rows that fall into its interval.
-/

set_option autoImplicit false

namespace Verity.Analysis

open Verity.Foundation
open Verity.Model

/-- What a scope is answered as of an instant had not been replaced by then. -/
def NeverOutdated (t : FactTable) (tenant : TenantId) (key : FactKey) : Prop :=
  ∀ scope : Scope, scope.tenantId = tenant → ∀ (instant : Instant) (r : FactRow),
    factAsOf t scope key instant = some r →
      ∀ r' ∈ t.rowsOf tenant key, r.validFrom < r'.validFrom → instant < (r'.validFrom : Instant)

/-- Whoever sees the row sees one that starts at `x` and lasts longer. -/
def SeenOn (rows : List FactRow) (r : FactRow) (x : Time) : Prop :=
  ∀ p ∈ r.visibility, ∃ s ∈ rows, s.validFrom = x ∧
    holds FactRow.validFrom FactRow.validTo x s = true ∧ p ∈ s.visibility ∧
    s.confidentiality ≤ r.confidentiality

instance (rows : List FactRow) (r : FactRow) (x : Time) : Decidable (SeenOn rows r x) :=
  inferInstanceAs (Decidable (∀ p ∈ r.visibility, ∃ s ∈ rows, _))

/-- Every row is seen on at each start inside its interval. -/
def OverlapsSeen (rows : List FactRow) : Prop :=
  ∀ r ∈ rows, ∀ r' ∈ rows, r.validFrom < r'.validFrom →
    holds FactRow.validFrom FactRow.validTo r'.validFrom r = true → SeenOn rows r r'.validFrom

/-! ## The read -/

theorem rowsAsOf_shown {t : FactTable} {scope : Scope} {key : FactKey}
    (hprincipals : scope.principals ≠ [])
    (hentity : (scope.entityScope.isEmpty || scope.entityScope.contains key.entityId) = true)
    (instant : Time) :
    rowsAsOf t scope key instant = (t.rowsOf scope.tenantId key).filter fun r =>
      holds FactRow.validFrom FactRow.validTo instant r && sqlVisible scope r := by
  unfold rowsAsOf
  rw [if_neg (by simp [hprincipals]), if_neg (by simpa [or_iff_not_imp_left] using hentity),
    FactTable.rowsOf, List.filter_filter]
  apply List.filter_congr
  intro r _
  unfold holds
  by_cases hkey : r.tenantId = scope.tenantId ∧ r.key = key
  · rw [decide_eq_true hkey, Bool.and_true]
    cases r.validTo <;> simp [hkey]
  · have hnot : decide (r.tenantId = scope.tenantId ∧ r.key = key ∧ r.validFrom ≤ instant) =
        false := decide_eq_false fun h => hkey ⟨h.1, h.2.1⟩
    rw [hnot, decide_eq_false hkey]
    simp

/-- A row that is answered was chosen among those the scope sees. -/
theorem factAsOf_shown {t : FactTable} {scope : Scope} {key : FactKey} {instant : Instant}
    {r : FactRow} (h : factAsOf t scope key instant = some r) :
    latest FactRow.validFrom ((t.rowsOf scope.tenantId key).filter fun r =>
      holds FactRow.validFrom FactRow.validTo instant.stored r && sqlVisible scope r) =
        some r := by
  rw [factAsOf_eq] at h
  by_cases hprincipals : scope.principals = []
  · unfold rowsAsOf at h
    rw [if_pos (by simp [hprincipals])] at h
    cases h
  by_cases hentity : (scope.entityScope.isEmpty || scope.entityScope.contains key.entityId) = true
  · rw [rowsAsOf_shown hprincipals hentity] at h
    exact h
  · unfold rowsAsOf at h
    rw [if_neg (by simp [hprincipals]), if_pos (by simpa [not_or] using hentity)] at h
    cases h

theorem sqlVisible_iff {scope : Scope} {r : FactRow} :
    sqlVisible scope r = true ↔
      (∃ p ∈ r.visibility, p ∈ scope.principals) ∧
        r.confidentiality ≤ scope.maxConfidentiality := by
  unfold sqlVisible
  simp

/-- Where every interval ends at the start of a row, no scope is answered an outdated row exactly
when every overlap is seen. -/
theorem neverOutdated_iff {t : FactTable} {tenant : TenantId} {key : FactKey}
    (hstop : ∀ r ∈ t.rowsOf tenant key, ∀ x, r.validTo = some x →
      ∃ r' ∈ t.rowsOf tenant key, r'.validFrom = x) :
    NeverOutdated t tenant key ↔ OverlapsSeen (t.rowsOf tenant key) := by
  constructor
  · intro hnever r hr r' hr' hlt hholds p hp
    -- the scope that holds one principal of the row, and its class
    let scope : Scope := ⟨tenant, [p], [], r.confidentiality⟩
    have hread : ∀ instant : Time, factAsOf t scope key instant =
        latest FactRow.validFrom ((t.rowsOf tenant key).filter fun r =>
          holds FactRow.validFrom FactRow.validTo instant r && sqlVisible scope r) := by
      intro instant
      rw [factAsOf_eq, rowsAsOf_shown (List.cons_ne_nil p []) rfl, Instant.stored_ofTime]
    have hcover := (latest_shown_current_iff hstop).mp fun instant r hlat r' hr' hlt =>
      Instant.ofTime_lt_ofTime.mp
        (hnever scope rfl instant r ((hread instant).trans hlat) r' hr' hlt)
    obtain ⟨s, hs, hshown, hstart, hsholds⟩ := hcover r hr
      (sqlVisible_iff.mpr ⟨⟨p, hp, List.mem_singleton.mpr rfl⟩, le_rfl⟩) r' hr' hlt hholds
    obtain ⟨⟨q, hq, hqp⟩, hconf⟩ := sqlVisible_iff.mp hshown
    obtain rfl : q = p := List.mem_singleton.mp hqp
    exact ⟨s, hs, hstart, hsholds, hq, hconf⟩
  · rintro hseen scope rfl instant r hread r' hr' hlt
    refine Instant.lt_of_stored_lt ?_
    refine (latest_shown_current_iff hstop).mpr ?_ instant.stored r (factAsOf_shown hread) r' hr'
      hlt
    intro r hr hshown r' hr' hlt hholds
    obtain ⟨⟨p, hp, hscope⟩, hconf⟩ := sqlVisible_iff.mp hshown
    obtain ⟨s, hs, hstart, hsholds, hps, hsconf⟩ := hseen r hr r' hr' hlt hholds p hp
    exact ⟨s, hs, sqlVisible_iff.mpr ⟨⟨p, hps, hscope⟩, hsconf.trans hconf⟩, hstart, hsholds⟩

/-! ## One event -/

/-- One more row: the rows it starts inside are seen on at its start, and it is seen on at the
starts inside its own interval. -/
theorem overlapsSeen_append_iff {rows : List FactRow} {late : FactRow} (h : OverlapsSeen rows) :
    OverlapsSeen (rows ++ [late]) ↔
      (∀ r ∈ rows, r.validFrom < late.validFrom →
        holds FactRow.validFrom FactRow.validTo late.validFrom r = true →
          SeenOn (rows ++ [late]) r late.validFrom) ∧
      ∀ r ∈ rows, late.validFrom < r.validFrom →
        holds FactRow.validFrom FactRow.validTo r.validFrom late = true →
          SeenOn rows late r.validFrom := by
  have hlast : late ∈ rows ++ [late] := List.mem_append_right _ (List.mem_singleton.mpr rfl)
  constructor
  · intro hseen
    refine ⟨fun r hr hlt hholds => hseen r (List.mem_append_left _ hr) late hlast hlt hholds, ?_⟩
    intro r hr hlt hholds p hp
    obtain ⟨s, hs, hstart, hrest⟩ :=
      hseen late hlast r (List.mem_append_left _ hr) hlt hholds p hp
    rcases List.mem_append.mp hs with hs | hs
    · exact ⟨s, hs, hstart, hrest⟩
    · obtain rfl := List.mem_singleton.mp hs
      exact absurd hlt (hstart ▸ lt_irrefl _)
  · rintro ⟨hinto, hover⟩ r hr r' hr' hlt hholds
    rcases List.mem_append.mp hr with hold | hnew
    · rcases List.mem_append.mp hr' with hold' | hnew'
      · intro p hp
        obtain ⟨s, hs, hrest⟩ := h r hold r' hold' hlt hholds p hp
        exact ⟨s, List.mem_append_left _ hs, hrest⟩
      · obtain rfl := List.mem_singleton.mp hnew'
        exact hinto r hold hlt hholds
    · obtain rfl := List.mem_singleton.mp hnew
      rcases List.mem_append.mp hr' with hold' | hnew'
      · intro p hp
        obtain ⟨s, hs, hrest⟩ := hover r' hold' hlt hholds p hp
        exact ⟨s, List.mem_append_left _ hs, hrest⟩
      · obtain rfl := List.mem_singleton.mp hnew'
        exact absurd hlt (lt_irrefl _)

/-- The rows of a key: each ends at the start of one, and the current one starts last. -/
structure Chained (t : FactTable) (tenant : TenantId) (key : FactKey) : Prop where
  stop_starts : ∀ r ∈ t.rowsOf tenant key, ∀ x, r.validTo = some x →
    ∃ r' ∈ t.rowsOf tenant key, r'.validFrom = x
  current_last : t.rowsOf tenant key ≠ [] → ∃ cur, t.currentRow tenant key = some cur ∧
    ∀ r ∈ t.rowsOf tenant key, r.validFrom ≤ cur.validFrom

theorem Chained.rowsOf_eq_nil {t : FactTable} {tenant : TenantId} {key : FactKey}
    (h : Chained t tenant key) (hnone : t.currentRow tenant key = none) :
    t.rowsOf tenant key = [] := by
  by_contra hne
  obtain ⟨cur, hcur, -⟩ := h.current_last hne
  rw [hnone] at hcur
  cases hcur

/-- No row outlasts the start of the current one, but the current one. -/
theorem Chained.stop_le {t : FactTable} {tenant : TenantId} {key : FactKey} {cur r : FactRow}
    (h : Chained t tenant key) (hcur : t.currentRow tenant key = some cur)
    (hr : r ∈ t.rowsOf tenant key) : r.validFrom ≤ cur.validFrom ∧
      ∀ x, r.validTo = some x → x ≤ cur.validFrom := by
  obtain ⟨cur', hcur', hlast⟩ := h.current_last (List.ne_nil_of_mem hr)
  obtain rfl := Option.some.inj (hcur.symm.trans hcur')
  refine ⟨hlast r hr, fun x hx => ?_⟩
  obtain ⟨r', hr', rfl⟩ := h.stop_starts r hr x hx
  exact hlast r' hr'

/-- A write leaves the rows of other keys as they are. -/
theorem Upserted.rowsOf_other {t t' : FactTable} {now : Time} {fact : FactWrite}
    {o : FactUpsertOutcome} (h : Upserted t now fact t'.rows o) {tenant : TenantId} {key : FactKey}
    (hother : ¬ (fact.tenantId = tenant ∧ fact.key = key)) :
    t'.rowsOf tenant key = t.rowsOf tenant key := by
  have hnew : ∀ validTo, [fact.toRow t.nextId now validTo].filter
      (fun r => decide (r.tenantId = tenant ∧ r.key = key)) = [] := by
    intro validTo
    rw [List.filter_eq_nil_iff]
    intro r hr
    obtain rfl := List.mem_singleton.mp hr
    exact mt of_decide_eq_true hother
  unfold FactTable.rowsOf
  generalize t'.rows = rows at h
  cases h with
  | inserted => rw [List.filter_append, hnew, List.append_nil]
  | unchanged => rfl
  | stale => rw [List.filter_append, hnew, List.append_nil]
  | superseded cur hcur hvalue hlt =>
    obtain ⟨hmem, hct, hck, -⟩ := currentRow_eq_some_iff.mp hcur
    have hkept : ∀ r ∈ t.rows.filter fun r => decide (r.tenantId = tenant ∧ r.key = key),
        closeRow cur.id fact.start t.nextId r = r := by
      intro r hr
      obtain ⟨hr, hkey⟩ := List.mem_filter.mp hr
      refine if_neg fun hid => hother ?_
      obtain rfl := eq_of_id_eq hr hmem hid
      obtain ⟨ht, hk⟩ := of_decide_eq_true hkey
      exact ⟨hct.symm.trans ht, hck.symm.trans hk⟩
    have hsel : ((fun r : FactRow => decide (r.tenantId = tenant ∧ r.key = key)) ∘
        closeRow cur.id fact.start t.nextId) =
          fun r => decide (r.tenantId = tenant ∧ r.key = key) := by
      funext r
      obtain ⟨ht, hk, -⟩ := closeRow_key cur.id t.nextId fact.start r
      rw [Function.comp_apply, ht, hk]
    rw [List.filter_append, hnew, List.append_nil, List.filter_map, hsel,
      List.map_congr_left hkept, List.map_id']

theorem closeRow_acl (id newId : FactId) (x : Time) (r : FactRow) :
    (closeRow id x newId r).visibility = r.visibility ∧
      (closeRow id x newId r).confidentiality = r.confidentiality := by
  unfold closeRow
  split <;> exact ⟨rfl, rfl⟩

/-- Before it is closed the superseded row holds what it held. -/
theorem holds_closeRow {cur r : FactRow} {g x : Time} (newId : FactId)
    (hcur : r.id = cur.id → r.validTo = none) (hx : x < g) :
    holds FactRow.validFrom FactRow.validTo x (closeRow cur.id g newId r) =
      holds FactRow.validFrom FactRow.validTo x r := by
  unfold closeRow
  by_cases hid : r.id = cur.id
  · rw [if_pos hid]
    unfold holds
    rw [hcur hid]
    dsimp only
    rw [decide_eq_true hx]
  · rw [if_neg hid]

section Superseded

variable {t : FactTable} {tenant : TenantId} {key : FactKey} {cur : FactRow} {g : Time}

/-- None of them lasts into the new row. -/
theorem not_holds_closeRow (hchained : Chained t tenant key)
    (hcur : t.currentRow tenant key = some cur) (hle : cur.validFrom ≤ g) (newId : FactId)
    {r : FactRow} (hr : r ∈ t.rowsOf tenant key) :
    ¬ holds FactRow.validFrom FactRow.validTo g (closeRow cur.id g newId r) = true := by
  intro hholds
  have hstop := (holds_iff.mp hholds).2
  unfold closeRow at hstop
  by_cases hid : r.id = cur.id
  · rw [if_pos hid] at hstop
    exact lt_irrefl g (hstop g rfl)
  · rw [if_neg hid] at hstop
    cases hto : r.validTo with
    | none =>
      obtain ⟨hmem, ht, hk⟩ := mem_rowsOf.mp hr
      have heq := hcur.symm.trans (currentRow_eq_some_iff.mpr ⟨hmem, ht, hk, hto⟩)
      exact hid (congrArg FactRow.id (Option.some.inj heq).symm)
    | some x =>
      exact absurd (hstop x hto) (not_lt.mpr (((hchained.stop_le hcur hr).2 x hto).trans hle))

/-- The closed rows, when the current one is superseded. -/
theorem overlapsSeen_closeRow (hchained : Chained t tenant key)
    (hcur : t.currentRow tenant key = some cur) (hle : cur.validFrom ≤ g)
    (h : OverlapsSeen (t.rowsOf tenant key)) (newId : FactId) :
    OverlapsSeen ((t.rowsOf tenant key).map (closeRow cur.id g newId)) := by
  have hbefore : ∀ r ∈ t.rowsOf tenant key, ∀ x, x < g →
      holds FactRow.validFrom FactRow.validTo x (closeRow cur.id g newId r) =
        holds FactRow.validFrom FactRow.validTo x r := by
    intro r hr x hx
    refine holds_closeRow newId (fun hid => ?_) hx
    obtain ⟨hmem, -, -, hopen⟩ := currentRow_eq_some_iff.mp hcur
    rw [eq_of_id_eq (mem_rowsOf.mp hr).1 hmem hid]
    exact hopen
  intro r₁ hr₁ r₂ hr₂ hlt' hholds
  obtain ⟨r, hr, rfl⟩ := List.mem_map.mp hr₁
  obtain ⟨r', hr', rfl⟩ := List.mem_map.mp hr₂
  have hfrom := fun r => (closeRow_key cur.id newId g r).2.2.1
  rw [hfrom, hfrom] at hlt'
  rw [hfrom] at hholds
  -- a row that starts with the new one lies in no closed row
  have hg : r'.validFrom < g := by
    refine lt_of_le_of_ne ((hchained.stop_le hcur hr').1.trans hle) fun heq => ?_
    rw [heq] at hholds
    exact not_holds_closeRow hchained hcur hle newId hr hholds
  rw [hbefore r hr _ hg] at hholds
  intro p hp
  rw [(closeRow_acl cur.id newId g r).1] at hp
  obtain ⟨s, hs, hstart, hsholds, hps, hconf⟩ := h r hr r' hr' hlt' hholds p hp
  refine ⟨_, List.mem_map_of_mem hs, ?_, ?_, ?_, ?_⟩
  · rw [hfrom, hfrom, hstart]
  · rw [hfrom, hbefore s hs _ hg]
    exact hsholds
  · rw [(closeRow_acl cur.id newId g s).1]
    exact hps
  · rw [(closeRow_acl cur.id newId g s).2, (closeRow_acl cur.id newId g r).2]
    exact hconf

end Superseded

/-! ## Runs of events -/

/-- One event, stored in one transaction. -/
def factDelivery (t : FactTable) (d : Delivery) : Option FactTable :=
  (upsertFact t d.now d.fact).toOption.map Prod.fst

/-- Where the event comes late, whoever sees a row that it starts inside sees one that starts with
it, and whoever sees the event sees a row at each start inside its interval. -/
def LateSeen (t : FactTable) (d : Delivery) : Prop :=
  ∀ cur, t.currentRow d.fact.tenantId d.fact.key = some cur → cur.value ≠ d.fact.value →
    d.fact.validFrom ≤ (cur.validFrom : Instant) →
      let late := d.fact.toRow t.nextId d.now (some cur.validFrom)
      let rows := t.rowsOf d.fact.tenantId d.fact.key
      (∀ r ∈ rows, r.validFrom < late.validFrom →
        holds FactRow.validFrom FactRow.validTo late.validFrom r = true →
          SeenOn (rows ++ [late]) r late.validFrom) ∧
      ∀ r ∈ rows, late.validFrom < r.validFrom →
        holds FactRow.validFrom FactRow.validTo r.validFrom late = true →
          SeenOn rows late r.validFrom

theorem factDelivery_cases {t t' : FactTable} {d : Delivery} (h : factDelivery t d = some t') :
    ∃ o, Upserted t d.now d.fact t'.rows o := by
  obtain ⟨t₁, o, hok, hup⟩ := upsertFact_spec t d.now d.fact
  unfold factDelivery at h
  rw [hok] at h
  cases h
  exact ⟨o, hup⟩

section Runs

variable {tenant : TenantId} {key : FactKey}

/-- One more row, that ends at the start of a row if at all. -/
theorem Chained.append {t : FactTable} {rows : List FactRow} {new cur : FactRow}
    (hrows : t.rowsOf tenant key = rows ++ [new])
    (hstop : ∀ r ∈ rows, ∀ x, r.validTo = some x → ∃ r' ∈ rows ++ [new], r'.validFrom = x)
    (hnew : ∀ x, new.validTo = some x → ∃ r' ∈ rows, r'.validFrom = x)
    (hcur : t.currentRow tenant key = some cur)
    (hlast : new.validFrom ≤ cur.validFrom ∧ ∀ r ∈ rows, r.validFrom ≤ cur.validFrom) :
    Chained t tenant key := by
  constructor
  case stop_starts =>
    rw [hrows]
    intro r hr x hx
    rcases List.mem_append.mp hr with hr | hr
    · exact hstop r hr x hx
    · obtain rfl := List.mem_singleton.mp hr
      obtain ⟨r', hr', hstart⟩ := hnew x hx
      exact ⟨r', List.mem_append_left _ hr', hstart⟩
  case current_last =>
    intro _
    refine ⟨cur, hcur, ?_⟩
    rw [hrows]
    exact List.forall_mem_append.mpr ⟨hlast.2, List.forall_mem_singleton.mpr hlast.1⟩

/-- An event leaves the rows of its key a chain. -/
theorem Chained.factDelivery {t t' : FactTable} {d : Delivery} (h : Chained t tenant key)
    (hstep : factDelivery t d = some t') : Chained t' tenant key := by
  obtain ⟨o, hup⟩ := factDelivery_cases hstep
  by_cases hown : d.fact.tenantId = tenant ∧ d.fact.key = key
  · obtain ⟨rfl, rfl⟩ := hown
    cases hcur : t.currentRow d.fact.tenantId d.fact.key with
    | none =>
      obtain ⟨hrows, hcur'⟩ := hup.rowsOf_of_none hcur
      rw [h.rowsOf_eq_nil hcur] at hrows
      exact Chained.append hrows (fun r hr => absurd hr List.not_mem_nil)
        (fun x hx => absurd hx (Option.some_ne_none x).symm) hcur'
        ⟨le_rfl, fun r hr => absurd hr List.not_mem_nil⟩
    | some cur =>
      rcases hup.rowsOf_of_current hcur with ⟨-, hrows, hcur'⟩ | ⟨-, hle, hrows, hcur'⟩ |
        ⟨-, hlt, hrows, hcur'⟩
      · constructor
        case stop_starts =>
          rw [hrows]
          exact h.stop_starts
        case current_last =>
          rw [hrows, hcur', ← hcur]
          exact h.current_last
      · refine Chained.append hrows ?_ ?_ hcur'
          ⟨Instant.stored_le hle, fun r hr => (h.stop_le hcur hr).1⟩
        · intro r hr x hx
          obtain ⟨r', hr', hstart⟩ := h.stop_starts r hr x hx
          exact ⟨r', List.mem_append_left _ hr', hstart⟩
        · intro x hx
          exact ⟨cur, currentRow_mem_rowsOf hcur, Option.some.inj hx⟩
      · refine Chained.append hrows ?_ (fun x hx => absurd hx (Option.some_ne_none x).symm) hcur'
          ⟨le_rfl, ?_⟩
        · intro r₁ hr₁ x hx
          obtain ⟨r, hr, rfl⟩ := List.mem_map.mp hr₁
          unfold closeRow at hx
          by_cases hid : r.id = cur.id
          · rw [if_pos hid] at hx
            exact ⟨_, List.mem_append_right _ (List.mem_singleton.mpr rfl), Option.some.inj hx⟩
          · rw [if_neg hid] at hx
            obtain ⟨r', hr', hstart⟩ := h.stop_starts r hr x hx
            refine ⟨_, List.mem_append_left _ (List.mem_map_of_mem hr'), ?_⟩
            rw [(closeRow_key cur.id t.nextId d.fact.start r').2.2.1]
            exact hstart
        · intro r₁ hr₁
          obtain ⟨r, hr, rfl⟩ := List.mem_map.mp hr₁
          rw [(closeRow_key cur.id t.nextId d.fact.start r).2.2.1]
          exact (h.stop_le hcur hr).1.trans (Instant.le_stored hlt.le)
  · have hcurrent := hup.currentRow_eq tenant key
    rw [if_neg fun hsame => hown ⟨hsame.1.1.symm, hsame.1.2.symm⟩] at hcurrent
    constructor
    case stop_starts =>
      rw [hup.rowsOf_other hown]
      exact h.stop_starts
    case current_last =>
      rw [hup.rowsOf_other hown, hcurrent]
      exact h.current_last

/-- One event: the overlaps are seen after it exactly when it is seen where it is late. -/
theorem overlapsSeen_factDelivery_iff {t t' : FactTable} {d : Delivery}
    (hchained : Chained t tenant key) (h : OverlapsSeen (t.rowsOf tenant key))
    (hstep : factDelivery t d = some t') :
    OverlapsSeen (t'.rowsOf tenant key) ↔
      (d.fact.tenantId = tenant ∧ d.fact.key = key → LateSeen t d) := by
  obtain ⟨o, hup⟩ := factDelivery_cases hstep
  by_cases hown : d.fact.tenantId = tenant ∧ d.fact.key = key
  · obtain ⟨rfl, rfl⟩ := hown
    rw [forall_prop_of_true ⟨rfl, rfl⟩]
    cases hcur : t.currentRow d.fact.tenantId d.fact.key with
    | none =>
      rw [(hup.rowsOf_of_none hcur).1, overlapsSeen_append_iff h, hchained.rowsOf_eq_nil hcur]
      refine iff_of_true ⟨fun r hr => absurd hr List.not_mem_nil,
        fun r hr => absurd hr List.not_mem_nil⟩ ?_
      intro cur hcur'
      rw [hcur] at hcur'
      cases hcur'
    | some cur =>
      have hlate : cur.value = d.fact.value ∨ (cur.validFrom : Instant) < d.fact.validFrom →
          LateSeen t d := by
        intro hcase cur' hcur' hvalue hle
        obtain rfl := Option.some.inj (hcur.symm.trans hcur')
        rcases hcase with hsame | hlt
        · exact absurd hsame hvalue
        · exact absurd hle (not_le.mpr hlt)
      rcases hup.rowsOf_of_current hcur with ⟨hvalue, hrows, -⟩ | ⟨hvalue, hle, hrows, -⟩ |
        ⟨-, hlt, hrows, -⟩
      · rw [hrows]
        exact iff_of_true h (hlate (Or.inl hvalue))
      · rw [hrows, overlapsSeen_append_iff h]
        constructor
        · intro hseen cur' hcur' _ _
          obtain rfl := Option.some.inj (hcur.symm.trans hcur')
          exact hseen
        · exact fun hseen => hseen cur hcur hvalue hle
      · have hstart : cur.validFrom ≤ d.fact.start := Instant.le_stored hlt.le
        refine iff_of_true ?_ (hlate (Or.inr hlt))
        rw [hrows, overlapsSeen_append_iff
          (overlapsSeen_closeRow hchained hcur hstart h t.nextId)]
        refine ⟨?_, ?_⟩
        · intro r₁ hr₁ _ hholds
          obtain ⟨r, hr, rfl⟩ := List.mem_map.mp hr₁
          exact absurd hholds (not_holds_closeRow hchained hcur hstart t.nextId hr)
        · intro r₁ hr₁ hlt'
          obtain ⟨r, hr, rfl⟩ := List.mem_map.mp hr₁
          rw [(closeRow_key cur.id t.nextId d.fact.start r).2.2.1] at hlt'
          exact absurd (hlt'.trans_le (hchained.stop_le hcur hr).1) (not_lt.mpr hstart)
  · rw [hup.rowsOf_other hown]
    exact iff_of_true h fun hsame => absurd hsame hown

theorem run_factDelivery (t : FactTable) (ds : List Delivery) :
    ∃ t', run factDelivery t ds = some t' := by
  induction ds generalizing t with
  | nil => exact ⟨t, rfl⟩
  | cons d ds ih =>
    obtain ⟨t₁, o, hok, -⟩ := upsertFact_spec t d.now d.fact
    have hstep : factDelivery t d = some t₁ := by
      unfold factDelivery
      rw [hok]
      rfl
    obtain ⟨t', hrun⟩ := ih t₁
    exact ⟨t', Option.bind_eq_some_iff.mpr ⟨t₁, hstep, hrun⟩⟩

/-- In every state of a run of events no scope is answered a value of the key that had been
replaced, exactly when every event of the key that comes late is seen. -/
theorem asOf_never_outdated_iff {t : FactTable} (hnone : t.rowsOf tenant key = [])
    (ds : List Delivery) :
    (∀ before after t₁, ds = before ++ after → run factDelivery t before = some t₁ →
      NeverOutdated t₁ tenant key) ↔
    Along factDelivery (fun t d => d.fact.tenantId = tenant ∧ d.fact.key = key → LateSeen t d)
      t ds := by
  obtain ⟨t', hrun⟩ := run_factDelivery t ds
  have hstart : Chained t tenant key := by
    constructor
    case stop_starts =>
      rw [hnone]
      exact fun r hr => absurd hr List.not_mem_nil
    case current_last => exact fun hne => absurd hnone hne
  have hchained : ∀ {before t₁}, run factDelivery t before = some t₁ → Chained t₁ tenant key :=
    fun hbefore => run_induction (I := fun t => Chained t tenant key)
      (fun _ _ _ h hstep => h.factDelivery hstep) hstart hbefore
  have hiff := run_invariant_iff
    (P := fun t d => d.fact.tenantId = tenant ∧ d.fact.key = key → LateSeen t d)
    (I := fun t => Chained t tenant key) (G := fun t => OverlapsSeen (t.rowsOf tenant key))
    (fun _ _ _ h hstep => h.factDelivery hstep)
    (fun _ _ _ h hseen hstep => overlapsSeen_factDelivery_iff h hseen hstep) hstart
    (by rw [hnone]; exact fun r hr => absurd hr List.not_mem_nil) hrun
  rw [← hiff]
  constructor
  · intro hnever before after t₁ hsplit hbefore
    exact (neverOutdated_iff (hchained hbefore).stop_starts).mp
      (hnever before after t₁ hsplit hbefore)
  · intro hseen before after t₁ hsplit hbefore
    exact (neverOutdated_iff (hchained hbefore).stop_starts).mpr
      (hseen before after t₁ hsplit hbefore)

end Runs

/-- An amount that token 1 sees, one that it does not see, and one that comes late between them:
token 1 is answered the first amount as of an instant at which the late one held. -/
theorem late_unseen_amount_outdates :
    ¬ ∀ (ds : List Delivery) (t : FactTable), run factDelivery FactTable.empty ds = some t →
      NeverOutdated t 1 ⟨"hubspot", "deal-42", "amount"⟩ := by
  intro hclaim
  have hread : (run factDelivery FactTable.empty
      [⟨100, amountAt 10 50 [1]⟩, ⟨101, amountAt 20 70 [1]⟩, ⟨102, amountAt 15 60 [2]⟩]).map
        (fun t => ((factAsOf t (readScope [1]) ⟨"hubspot", "deal-42", "amount"⟩ 17).map
            FactRow.validFrom,
          (t.rowsOf 1 ⟨"hubspot", "deal-42", "amount"⟩).map FactRow.validFrom)) =
      some (some 10, [10, 20, 15]) := by
    decide +kernel
  obtain ⟨t, hrun, hpair⟩ := Option.map_eq_some_iff.mp hread
  obtain ⟨hanswer, hstarts⟩ := Prod.mk.inj hpair
  obtain ⟨r, hr, hfrom⟩ := Option.map_eq_some_iff.mp hanswer
  obtain ⟨r', hr', hfrom'⟩ : ∃ r' ∈ t.rowsOf 1 ⟨"hubspot", "deal-42", "amount"⟩,
      r'.validFrom = 15 :=
    List.mem_map.mp (hstarts ▸ (by decide : (15 : Time) ∈ [10, 20, 15]))
  have hlater := hclaim _ t hrun (readScope [1]) rfl 17 r hr r' hr'
    (by rw [hfrom, hfrom']; decide)
  rw [hfrom'] at hlater
  exact absurd hlater (by decide)

/-- A late amount that everybody sees. -/
theorem late_seen_amount_answers :
    (∀ before after t₁, [Delivery.mk 100 (amountAt 10 50 [1]), ⟨101, amountAt 20 70 [2]⟩,
        ⟨102, amountAt 15 60 [1]⟩] = before ++ after →
      run factDelivery FactTable.empty before = some t₁ →
        NeverOutdated t₁ 1 ⟨"hubspot", "deal-42", "amount"⟩) ↔
    Along factDelivery (fun t d => d.fact.tenantId = 1 ∧
        d.fact.key = ⟨"hubspot", "deal-42", "amount"⟩ → LateSeen t d) FactTable.empty
      [⟨100, amountAt 10 50 [1]⟩, ⟨101, amountAt 20 70 [2]⟩, ⟨102, amountAt 15 60 [1]⟩] :=
  asOf_never_outdated_iff rfl _

end Verity.Analysis
