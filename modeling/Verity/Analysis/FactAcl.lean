import Verity.Analysis.FactOrder

/-!
# The ACL of the current row

A connector that re-delivers a record states its ACL as of now, so the current row of a key
should carry the ACL of the last event. `upsertFact` chooses its outcome by value: a new
value brings its ACL with it, but an event that repeats the current value is dropped, and
its ACL with it.

The current row is that of the last event that took its place (`upserted_current`), and
`each_event_acl_current_iff` reads off when its ACL is that of every event. Along a run of
increasing event times the only events that do not take the place are those that repeat the value,
so that the condition is on neighbours: no event repeats the value of the one before it under
another ACL. Events from before 2000 are the exception, as their columns are rounded to a later
microsecond.
-/

set_option autoImplicit false

namespace Verity.Analysis

open Verity.Model

/-- The key's current row carries the ACL of `fact`, so that a scope reads the key exactly
when it sees what that ACL shows. -/
structure AclCurrent (t : FactTable) (fact : FactWrite) : Prop where
  row : ∃ r, t.currentRow fact.tenantId fact.key = some r ∧
    r.visibility = fact.visibility ∧ r.confidentiality = fact.confidentiality
  reads : ∀ scope : Scope, scope.tenantId = fact.tenantId →
    (currentFact t scope fact.key).isSome =
      scope.sees fact.key.entityId fact.visibility fact.confidentiality

/-- After each event of a run, the current row carries the ACL of that event. -/
def EachEventAclCurrent (t : FactTable) : List Delivery → Prop
  | [] => True
  | d :: ds => ∃ t' o, upsertFact t d.now d.fact = .ok (t', o) ∧ AclCurrent t' d.fact ∧
      EachEventAclCurrent t' ds

/-- The event does not take the place of the row of `kept`: it repeats the value, or is not after
the start. -/
def Yields (fact kept : FactWrite) : Prop :=
  kept.value = fact.value ∨ fact.validFrom ≤ (kept.start : Instant)

instance (fact kept : FactWrite) : Decidable (Yields fact kept) :=
  inferInstanceAs (Decidable (_ ∨ _))

def SameAcl (fact fact' : FactWrite) : Prop :=
  fact.visibility = fact'.visibility ∧ fact.confidentiality = fact'.confidentiality

/-- Where the row of `kept` is current, every event that does not take its place has its ACL, and so
on with the events that do. -/
def YieldsKeepAcl (kept : FactWrite) : List Delivery → Prop
  | [] => True
  | d :: ds =>
    if Yields d.fact kept then SameAcl kept d.fact ∧ YieldsKeepAcl kept ds
    else YieldsKeepAcl d.fact ds

/-- Every event that does not take the place of the current row has the row's ACL. -/
def AclsKept : List Delivery → Prop
  | [] => True
  | d :: ds => YieldsKeepAcl d.fact ds

/-- Two consecutive events agree on the ACL, if they agree on the value. -/
def KeepsAcl (d d' : Delivery) : Prop :=
  d.fact.value = d'.fact.value → SameAcl d.fact d'.fact

theorem aclCurrent_of_row {t : FactTable} {fact : FactWrite} {r : FactRow}
    (hr : t.currentRow fact.tenantId fact.key = some r) (hvis : r.visibility = fact.visibility)
    (hconf : r.confidentiality = fact.confidentiality) : AclCurrent t fact := by
  refine ⟨⟨r, hr, hvis, hconf⟩, ?_⟩
  intro scope htenant
  have hkey : r.key = fact.key := (currentRow_eq_some_iff.mp hr).2.2.1
  have hsees : factVisible scope r =
      scope.sees fact.key.entityId fact.visibility fact.confidentiality := by
    rw [factVisible, hkey, hvis, hconf]
  rw [currentFact_eq_filter, htenant, hr, ← hsees, Option.filter_some]
  cases factVisible scope r <;> rfl

/-- An event takes the place of the current row, unless it repeats its value or is not after its
start. -/
theorem upserted_current {t t' : FactTable} {now : Time} {fact kept : FactWrite}
    {o : FactUpsertOutcome} {cur : FactRow} (hcur : t.currentRow fact.tenantId fact.key = some cur)
    (hkept : Matches cur kept) (hup : Upserted t now fact t'.rows o) :
    t'.currentRow fact.tenantId fact.key =
      if Yields fact kept then some cur else some (fact.toRow t.nextId now none) := by
  have hcurrent := hup.currentRow_eq fact.tenantId fact.key
  have hyields : Yields fact kept ↔
      cur.value = fact.value ∨ fact.validFrom ≤ (cur.validFrom : Instant) := by
    rw [Yields, hkept.value, hkept.validFrom]
  rcases hup.of_current hcur with ⟨hvalue, -, rfl⟩ | ⟨-, hle, -, rfl⟩ | ⟨hvalue, hlt, -, rfl⟩
  · rw [if_neg (by simp), hcur] at hcurrent
    rw [if_pos (hyields.mpr (Or.inl hvalue)), hcurrent]
  · rw [if_neg (by simp), hcur] at hcurrent
    rw [if_pos (hyields.mpr (Or.inr hle)), hcurrent]
  · rw [if_pos (by simp)] at hcurrent
    rw [if_neg (fun h => (hyields.mp h).elim hvalue (not_le.mpr hlt)), hcurrent]

theorem each_event_acl_current_cons {t t' : FactTable} {d : Delivery} {ds : List Delivery}
    {o : FactUpsertOutcome} (hok : upsertFact t d.now d.fact = .ok (t', o)) :
    EachEventAclCurrent t (d :: ds) ↔ AclCurrent t' d.fact ∧ EachEventAclCurrent t' ds := by
  constructor
  · rintro ⟨t'', o'', hok'', hacl, hds⟩
    rw [hok, Except.ok.injEq, Prod.mk.injEq] at hok''
    rw [hok''.1]
    exact ⟨hacl, hds⟩
  · rintro ⟨hacl, hds⟩
    exact ⟨t', o, hok, hacl, hds⟩

/-- The run from a state where the row of `kept` is current. -/
theorem each_event_acl_current_after {tenant : TenantId} {key : FactKey} (ds : List Delivery)
    {t : FactTable} {kept : FactWrite} {cur : FactRow} (hcur : t.currentRow tenant key = some cur)
    (hkept : Matches cur kept) (hkey : ∀ d' ∈ ds, d'.fact.tenantId = tenant ∧ d'.fact.key = key) :
    EachEventAclCurrent t ds ↔ YieldsKeepAcl kept ds := by
  induction ds generalizing t kept cur with
  | nil => simp [EachEventAclCurrent, YieldsKeepAcl]
  | cons e es ih =>
    obtain ⟨rfl, rfl⟩ := hkey e (by simp)
    obtain ⟨t', o, hok, hup⟩ := upsertFact_spec t e.now e.fact
    have hkey' := fun d' hd' => hkey d' (List.mem_cons_of_mem e hd')
    have hcur' := upserted_current hcur hkept hup
    rw [each_event_acl_current_cons hok, YieldsKeepAcl]
    by_cases hyields : Yields e.fact kept
    · -- the row stays: its ACL is the event's only if it is the one already there
      rw [if_pos hyields] at hcur' ⊢
      rw [ih hcur' hkept hkey']
      refine and_congr_left fun _ => ?_
      constructor
      · rintro ⟨⟨r, hr, hrvis, hrconf⟩, -⟩
        rw [hcur', Option.some.injEq] at hr
        subst hr
        exact ⟨hkept.visibility.symm.trans hrvis, hkept.confidentiality.symm.trans hrconf⟩
      · rintro ⟨hvis, hconf⟩
        exact aclCurrent_of_row hcur' (hkept.visibility.trans hvis)
          (hkept.confidentiality.trans hconf)
    · rw [if_neg hyields] at hcur' ⊢
      rw [ih hcur' (matches_toRow e.fact _ _ _) hkey']
      exact and_iff_right (aclCurrent_of_row hcur' rfl rfl)

/-- Where no event is stored later than it is, an event after the others yields only to its own
value. -/
theorem yieldsKeepAcl_iff_isChain (ds : List Delivery) {kept : FactWrite} {d : Delivery}
    (hvalue : kept.value = d.fact.value) (hle : kept.start ≤ d.fact.start)
    (hacl : SameAcl kept d.fact)
    (hinc : (d :: ds).Pairwise fun d d' => d.fact.validFrom < d'.fact.validFrom)
    (hdated : ∀ d' ∈ d :: ds, (d'.fact.start : Instant) ≤ d'.fact.validFrom) :
    YieldsKeepAcl kept ds ↔ (d :: ds).IsChain KeepsAcl := by
  induction ds generalizing kept d with
  | nil => simp [YieldsKeepAcl]
  | cons e es ih =>
    rw [List.pairwise_cons] at hinc
    have hafter : ¬ e.fact.validFrom ≤ (kept.start : Instant) := by
      rw [not_le]
      exact ((Instant.ofTime_le_ofTime.mpr hle).trans (hdated d (by simp))).trans_lt
        (hinc.1 e (by simp))
    have hstart : kept.start ≤ e.fact.start := Instant.le_stored (not_le.mp hafter).le
    have hdated' := fun d' hd' => hdated d' (List.mem_cons_of_mem d hd')
    rw [YieldsKeepAcl, List.isChain_cons_cons]
    by_cases hsame : kept.value = e.fact.value
    · rw [if_pos (show Yields e.fact kept from Or.inl hsame)]
      constructor
      · rintro ⟨hkeep, hes⟩
        refine ⟨fun _ => ⟨hacl.1.symm.trans hkeep.1, hacl.2.symm.trans hkeep.2⟩, ?_⟩
        exact (ih hsame hstart hkeep hinc.2 hdated').mp hes
      · rintro ⟨hkeep, hchain⟩
        obtain ⟨hvis, hconf⟩ := hkeep (hvalue.symm.trans hsame)
        have hkept : SameAcl kept e.fact := ⟨hacl.1.trans hvis, hacl.2.trans hconf⟩
        exact ⟨hkept, (ih hsame hstart hkept hinc.2 hdated').mpr hchain⟩
    · rw [if_neg (show ¬ Yields e.fact kept from fun h => h.elim hsame hafter),
        ih rfl le_rfl ⟨rfl, rfl⟩ hinc.2 hdated']
      exact (and_iff_right fun heq => absurd (hvalue.trans heq) hsame).symm

/-- Take a key without a current row and any sequence of events for it, in strictly
increasing event time. After each event the current row carries the visibility and
confidentiality of that event (and the reads are decided by them), if and only if every event that
does not take the place of the current row has its ACL. Where no event is stored later than it is,
so for all events from 2000 on, this is if and only if no event repeats the value of its
predecessor under another visibility or confidentiality. -/
theorem each_event_acl_current_iff {t : FactTable} {tenant : TenantId} {key : FactKey}
    {ds : List Delivery} (hnone : t.currentRow tenant key = none)
    (hkey : ∀ d ∈ ds, d.fact.tenantId = tenant ∧ d.fact.key = key)
    (hinc : ds.Pairwise fun d d' => d.fact.validFrom < d'.fact.validFrom) :
    (EachEventAclCurrent t ds ↔ AclsKept ds) ∧
    ((∀ d ∈ ds, (d.fact.start : Instant) ≤ d.fact.validFrom) →
      (EachEventAclCurrent t ds ↔ ds.IsChain KeepsAcl)) := by
  cases ds with
  | nil => simp [EachEventAclCurrent, AclsKept]
  | cons d ds =>
    obtain ⟨rfl, rfl⟩ := hkey d (by simp)
    obtain ⟨t', o, hok, hup⟩ := upsertFact_spec t d.now d.fact
    obtain ⟨-, hcur⟩ := hup.rowsOf_of_none hnone
    have hiff : EachEventAclCurrent t (d :: ds) ↔ AclsKept (d :: ds) := by
      rw [each_event_acl_current_cons hok, AclsKept, ← each_event_acl_current_after ds hcur
        (matches_toRow d.fact _ _ _) (fun d' hd' => hkey d' (List.mem_cons_of_mem d hd'))]
      exact and_iff_right (aclCurrent_of_row hcur rfl rfl)
    refine ⟨hiff, fun hdated => hiff.trans ?_⟩
    exact yieldsKeepAcl_iff_isChain ds rfl le_rfl ⟨rfl, rfl⟩ hinc hdated

/-- Three events with audiences and values of their own, one after the other: the current row has
the ACL of the event after each of them. -/
theorem each_event_acl_current_widened :
    (EachEventAclCurrent FactTable.empty
        [⟨9, amountAt 1 50 [1]⟩, ⟨9, amountAt 2 84 [1, 2]⟩, ⟨9, amountAt 3 50 [2]⟩] ↔
      AclsKept [⟨9, amountAt 1 50 [1]⟩, ⟨9, amountAt 2 84 [1, 2]⟩, ⟨9, amountAt 3 50 [2]⟩]) ∧
    (EachEventAclCurrent FactTable.empty
        [⟨9, amountAt 1 50 [1]⟩, ⟨9, amountAt 2 84 [1, 2]⟩, ⟨9, amountAt 3 50 [2]⟩] ↔
      [Delivery.mk 9 (amountAt 1 50 [1]), ⟨9, amountAt 2 84 [1, 2]⟩,
        ⟨9, amountAt 3 50 [2]⟩].IsChain KeepsAcl) :=
  have hnone : FactTable.empty.currentRow 1 ⟨"hubspot", "deal-42", "amount"⟩ = none := rfl
  (each_event_acl_current_iff hnone (by decide) (by decide)).imp_right fun h => h (by decide)

/-- Amount 50 shared with tokens 1 and 2, then re-delivered at a later event time with token
2 dropped: the second event is lost, and token 2 still reads the value. -/
theorem dropped_principal_still_reads :
    ¬ EachEventAclCurrent FactTable.empty
        [⟨9, amountAt 1 50 [1, 2]⟩, ⟨9, amountAt 2 50 [1]⟩] ∧
    ∃ t', deliver FactTable.empty [⟨9, amountAt 1 50 [1, 2]⟩, ⟨9, amountAt 2 50 [1]⟩] = .ok t' ∧
      (currentFact t' (readScope [2]) ⟨"hubspot", "deal-42", "amount"⟩).map FactRow.value =
        some (.posInt 50) := by
  refine ⟨?_, _, rfl, by decide⟩
  rintro ⟨t₁, o₁, h₁, -, t₂, o₂, h₂, hacl, -⟩
  have hreads := hacl.reads (readScope [2]) rfl
  cases h₁
  cases h₂
  revert hreads
  decide

end Verity.Analysis
