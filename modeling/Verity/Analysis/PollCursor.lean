import Mathlib.Data.List.Nodup
import Verity.Model.CrmPoll

/-!
# The single cursor of a poll cycle

The next cursor is the greatest instant of all queries of a cycle, while each query sees its
own type only, and only at its own moment. So a cycle may leave a record behind that is older
than the cursor it returns: one changed after its type was asked about, when a record of a
type asked about later changes after it; or one cut off by the result limit, when another
query returns a newer record. In runs without either, every record that has not been returned
is newer than the cursor (`unreturned_newer_than_cursor`).
-/

set_option autoImplicit false

namespace Verity.Analysis

open Verity.Model Verity.Foundation

variable {connector : CrmConnector}

variable {next : Nat} {source : CrmSource} {objectType : String} {cursor : Option Nat}
  {r : CrmRecord} {s : PollState} {cycle : PollCycle}

/-! ## Queries -/

theorem advanceCursor_lt {m : Nat} {records : List CrmRecord} :
    advanceCursor next records < m ↔ next < m ∧ ∀ r ∈ records, r.modified < m := by
  unfold advanceCursor
  induction records generalizing next with
  | nil => simp
  | cons r records ih =>
    rw [List.foldl_cons, ih, List.forall_mem_cons, ← and_assoc]
    refine and_congr_left fun _ => ?_
    split <;> omega

theorem mem_pending :
    r ∈ connector.pending source objectType cursor ↔
      r ∈ source.records ∧ r.objectType = objectType ∧ connector.selects cursor r := by
  simp [CrmConnector.pending]

/-- What a query matches is returned or cut off. -/
theorem mem_query_or_cutOff :
    r ∈ connector.query source objectType cursor ∨ r ∈ connector.cutOff source objectType cursor ↔
      r ∈ connector.pending source objectType cursor := by
  unfold CrmConnector.query CrmConnector.cutOff
  cases connector.resultCap with
  | none => simp
  | some cap =>
    dsimp only
    rw [← List.mem_append, List.take_append_drop]

theorem mem_source_of_mem_query (h : r ∈ connector.query source objectType cursor) :
    r ∈ source.records ∧ r.objectType = objectType := by
  obtain ⟨hr, htype, _⟩ := mem_pending.mp (mem_query_or_cutOff.mp (Or.inl h))
  exact ⟨hr, htype⟩

theorem filterInstant_le (cursor : Nat) : connector.filterInstant cursor ≤ cursor := by
  cases connector with
  | hubspot => exact le_refl _
  | salesforce => exact Nat.div_mul_le_self _ _

/-- A record newer than the cursor is selected. -/
theorem selects_of_newer (h : ∀ c ∈ cursor, c < r.modified) : connector.selects cursor r := by
  cases cursor with
  | none => rfl
  | some c => exact decide_eq_true (lt_of_le_of_lt (filterInstant_le c) (h c rfl))

/-! ## The side condition -/

/-- The record was changed after its type was asked about. -/
def ChangedSinceAsked (cycle : PollCycle) (r : CrmRecord) : Prop :=
  ∃ query ∈ cycle.asked, r.objectType = query.objectType ∧ query.clock < r.modified

instance (cycle : PollCycle) (r : CrmRecord) : Decidable (ChangedSinceAsked cycle r) :=
  inferInstanceAs (Decidable (∃ query ∈ cycle.asked, _ ∧ _))

/-- Once a record of a type already asked about has changed, no record of a type still to be
asked about does; and a record that was cut off is newer than everything the cycle returns. -/
def Orderly (s : PollState) : PollEvent → Prop
  | .change r => ∀ cycle ∈ s.cycle, r.objectType ∈ cycle.remaining →
      ∀ r' ∈ s.source.records, ¬ ChangedSinceAsked cycle r'
  | .finishCycle => ∀ cycle ∈ s.cycle, ∀ query ∈ cycle.asked, ∀ r ∈ query.cutOff,
      r ∈ s.source.records → ∀ e ∈ cycle.events, e.modified < r.modified
  | _ => True

instance (s : PollState) : (event : PollEvent) → Decidable (Orderly s event)
  | .change r => inferInstanceAs (Decidable (∀ cycle ∈ s.cycle, r.objectType ∈ cycle.remaining →
      ∀ r' ∈ s.source.records, ¬ ChangedSinceAsked cycle r'))
  | .finishCycle => inferInstanceAs (Decidable (∀ cycle ∈ s.cycle, ∀ query ∈ cycle.asked,
      ∀ r ∈ query.cutOff, r ∈ s.source.records → ∀ e ∈ cycle.events, e.modified < r.modified))
  | .startCycle => isTrue trivial
  | .runQuery => isTrue trivial

/-! ## The invariant -/

/-- What a cycle under way keeps. -/
structure CycleTracked (connector : CrmConnector) (s : PollState) (cycle : PollCycle) :
    Prop where
  types : (cycle.asked.map PollQuery.objectType).reverse ++ cycle.remaining =
    connector.objectTypes
  asked_past : ∀ query ∈ cycle.asked, query.clock ≤ s.source.clock
  next_past : cycle.nextCursor ≤ s.source.clock
  /-- The next cursor is one of the instants met, or where the cycle started. -/
  next_met : ∀ m, 0 < m → (∀ c ∈ s.cursor, c < m) → (∀ e ∈ cycle.events, e.modified < m) →
    cycle.nextCursor < m
  /-- A record of a type asked about was returned or cut off, unless it changed since. -/
  seen : ∀ r ∈ s.source.records, r ∉ s.returned → ∀ query ∈ cycle.asked,
    r.objectType = query.objectType → r.modified ≤ query.clock →
    r ∈ cycle.events ∨ r ∈ query.cutOff
  /-- A record changed since its type was asked about is newer than all that was met, and
  than all that can still be met. -/
  late : ∀ r ∈ s.source.records, ChangedSinceAsked cycle r →
    cycle.nextCursor < r.modified ∧
      ∀ r' ∈ s.source.records, r'.objectType ∈ cycle.remaining → r'.modified < r.modified

/-- What every state of an orderly run keeps. -/
structure Tracked (connector : CrmConnector) (s : PollState) : Prop where
  positive : ∀ r ∈ s.source.records, 0 < r.modified
  past : ∀ r ∈ s.source.records, r.modified ≤ s.source.clock
  cursor_past : ∀ c ∈ s.cursor, c ≤ s.source.clock
  unreturned : ∀ r ∈ s.source.records, r.objectType ∈ connector.objectTypes → r ∉ s.returned →
    ∀ c ∈ s.cursor, c < r.modified
  cycle : ∀ cycle ∈ s.cycle, CycleTracked connector s cycle

theorem objectTypes_nodup (connector : CrmConnector) : connector.objectTypes.Nodup := by
  cases connector <;> decide

/-- A type asked about is not asked about again. -/
theorem CycleTracked.not_mem_remaining (h : CycleTracked connector s cycle) {query : PollQuery}
    (hquery : query ∈ cycle.asked) : query.objectType ∉ cycle.remaining := by
  have hnodup := objectTypes_nodup connector
  rw [← h.types] at hnodup
  have hdisjoint := (List.nodup_append.mp hnodup).2.2
  intro hmem
  have hasked : query.objectType ∈ (cycle.asked.map PollQuery.objectType).reverse :=
    List.mem_reverse.mpr (List.mem_map_of_mem hquery)
  exact hdisjoint _ hasked _ hmem rfl

theorem mem_change {source' : CrmSource} (h : source.change r = some source') :
    source.clock < r.modified ∧ source'.clock = r.modified ∧
      ∀ r', r' ∈ source'.records → r' = r ∨ r' ∈ source.records := by
  unfold CrmSource.change at h
  split at h
  · rename_i hclock
    cases h
    refine ⟨hclock, rfl, ?_⟩
    intro r' hr'
    rcases List.mem_cons.mp hr' with hr' | hr'
    · exact Or.inl hr'
    · exact Or.inr (List.mem_of_mem_filter hr')
  · exact absurd h (by simp)

/-! ## One event -/

/-- A change that comes during a cycle: the new version is newer than all there was. -/
theorem CycleTracked.change (hs : Tracked connector s) (h : CycleTracked connector s cycle)
    (horderly : r.objectType ∈ cycle.remaining →
      ∀ r' ∈ s.source.records, ¬ ChangedSinceAsked cycle r')
    (hchange : s.source.change r = some source) :
    CycleTracked connector { s with source := source } cycle := by
  obtain ⟨hnew, hclock, hrecords⟩ := mem_change hchange
  have hgrow : s.source.clock ≤ source.clock := by
    rw [hclock]
    exact le_of_lt hnew
  refine ⟨h.types, fun query hq => le_trans (h.asked_past query hq) hgrow,
    le_trans h.next_past hgrow, h.next_met, ?_, ?_⟩
  · intro r' hr' hreturned query hquery htype hold
    rcases hrecords r' hr' with rfl | hr'
    · have := h.asked_past query hquery
      omega
    · exact h.seen r' hr' hreturned query hquery htype hold
  · intro r' hr' hlate
    rcases hrecords r' hr' with rfl | hr'
    · -- the new version itself; its type has been asked about, so it is not a remaining one
      refine ⟨lt_of_le_of_lt h.next_past hnew, ?_⟩
      intro r'' hr'' hremaining
      rcases hrecords r'' hr'' with rfl | hr''
      · obtain ⟨query, hquery, htype, _⟩ := hlate
        rw [htype] at hremaining
        exact absurd hremaining (h.not_mem_remaining hquery)
      · exact lt_of_le_of_lt (hs.past r'' hr'') hnew
    · obtain ⟨hnext, hremain⟩ := h.late r' hr' hlate
      refine ⟨hnext, ?_⟩
      intro r'' hr'' hremaining
      rcases hrecords r'' hr'' with rfl | hr''
      · exact absurd hlate (horderly hremaining r' hr')
      · exact hremain r'' hr'' hremaining

/-- The next query of a cycle. -/
theorem CycleTracked.query {asked : List PollQuery} {remaining : List String}
    {events : List CrmRecord} (hs : Tracked connector s)
    (h : CycleTracked connector s ⟨asked, objectType :: remaining, next, events⟩)
    (hcycle : cycle = {
      asked := ⟨objectType, s.source.clock, connector.cutOff s.source objectType s.cursor⟩ :: asked
      remaining := remaining
      nextCursor := advanceCursor next (connector.query s.source objectType s.cursor)
      events := events ++ connector.query s.source objectType s.cursor }) :
    CycleTracked connector { s with cycle := some cycle } cycle := by
  subst hcycle
  have htypes := h.types
  refine ⟨?_, ?_, ?_, ?_, ?_, ?_⟩
  · simpa using htypes
  · intro query hquery
    rcases List.mem_cons.mp hquery with rfl | hquery
    · exact le_refl _
    · exact h.asked_past query hquery
  · apply Nat.le_of_lt_succ
    rw [advanceCursor_lt]
    refine ⟨Nat.lt_succ_of_le h.next_past, ?_⟩
    intro r hr
    exact Nat.lt_succ_of_le (hs.past r (mem_source_of_mem_query hr).1)
  · intro m hm hcursor hevents
    rw [advanceCursor_lt]
    refine ⟨h.next_met m hm hcursor fun e he => hevents e (List.mem_append_left _ he), ?_⟩
    intro r hr
    exact hevents r (List.mem_append_right _ hr)
  · intro r hr hreturned query hquery htype hold
    rcases List.mem_cons.mp hquery with rfl | hquery
    · -- the record is newer than the cursor, so the query matches it
      have hconfigured : r.objectType ∈ connector.objectTypes := by
        rw [← htypes, htype]
        exact List.mem_append_right _ List.mem_cons_self
      have hselects : connector.selects s.cursor r :=
        selects_of_newer (hs.unreturned r hr hconfigured hreturned)
      rcases mem_query_or_cutOff.mpr (mem_pending.mpr ⟨hr, htype, hselects⟩) with hfound | hcut
      · exact Or.inl (List.mem_append_right _ hfound)
      · exact Or.inr hcut
    · rcases h.seen r hr hreturned query hquery htype hold with hevent | hcut
      · exact Or.inl (List.mem_append_left _ hevent)
      · exact Or.inr hcut
  · intro r hr hlate
    have hlate' : ChangedSinceAsked ⟨asked, objectType :: remaining, next, events⟩ r := by
      obtain ⟨query, hquery, htype, hchanged⟩ := hlate
      rcases List.mem_cons.mp hquery with rfl | hquery
      · exact absurd (hs.past r hr) (by simpa using hchanged)
      · exact ⟨query, hquery, htype, hchanged⟩
    obtain ⟨hnext, hremain⟩ := h.late r hr hlate'
    refine ⟨advanceCursor_lt.mpr ⟨hnext, ?_⟩, ?_⟩
    · intro r' hr'
      obtain ⟨hr', htype⟩ := mem_source_of_mem_query hr'
      exact hremain r' hr' (by rw [htype]; exact List.mem_cons_self)
    · intro r' hr' hremaining
      exact hremain r' hr' (List.mem_cons_of_mem _ hremaining)

/-- At the end of a cycle, what is not returned is newer than the next cursor. -/
theorem CycleTracked.newer_than_next {asked : List PollQuery} {events : List CrmRecord}
    (hs : Tracked connector s) (h : CycleTracked connector s ⟨asked, [], next, events⟩)
    (hcut : ∀ query ∈ asked, ∀ r ∈ query.cutOff, r ∈ s.source.records →
      ∀ e ∈ events, e.modified < r.modified) (hr : r ∈ s.source.records)
    (htype : r.objectType ∈ connector.objectTypes) (hreturned : r ∉ s.returned ++ events) :
    next < r.modified := by
  rw [List.mem_append, not_or] at hreturned
  have hasked : ∃ query ∈ asked, query.objectType = r.objectType := by
    rw [← h.types, List.append_nil, List.mem_reverse] at htype
    exact List.mem_map.mp htype
  obtain ⟨query, hquery, hobject⟩ := hasked
  by_cases hlate : query.clock < r.modified
  · exact (h.late r hr ⟨query, hquery, hobject.symm, hlate⟩).1
  · rcases h.seen r hr hreturned.1 query hquery hobject.symm (not_lt.mp hlate) with hevent | hoff
    · exact absurd hevent hreturned.2
    · apply h.next_met r.modified (hs.positive r hr)
      · exact hs.unreturned r hr htype hreturned.1
      · exact hcut query hquery r hoff hr

/-- A cycle starts with nothing asked and the stored cursor as its next one. -/
theorem Tracked.startCycle (h : Tracked connector s)
    (hcycle : cycle = ⟨[], connector.objectTypes, s.cursor.getD 0, []⟩) :
    CycleTracked connector { s with cycle := some cycle } cycle := by
  subst hcycle
  refine ⟨by simp, by simp, ?_, ?_, by simp, ?_⟩
  · cases hcursor : s.cursor with
    | none => simp
    | some c => exact h.cursor_past c hcursor
  · intro m hm hmet _
    cases hcursor : s.cursor with
    | none => exact hm
    | some c => exact hmet c hcursor
  · rintro r _ ⟨query, hquery, _⟩
    exact absurd hquery List.not_mem_nil

/-- A change at the source is newer than every cursor the poller has stored. -/
theorem Tracked.change (h : Tracked connector s) (horderly : Orderly s (.change r))
    (hchange : s.source.change r = some source) :
    Tracked connector { s with source := source } := by
  obtain ⟨hnew, hclock, hrecords⟩ := mem_change hchange
  have hcursor : ∀ c ∈ s.cursor, c < r.modified := fun c hc =>
    lt_of_le_of_lt (h.cursor_past c hc) hnew
  refine ⟨?_, ?_, ?_, ?_, ?_⟩
  · intro r' hr'
    rcases hrecords r' hr' with rfl | hr'
    · exact lt_of_le_of_lt (Nat.zero_le _) hnew
    · exact h.positive r' hr'
  · intro r' hr'
    dsimp only
    rw [hclock]
    rcases hrecords r' hr' with rfl | hr'
    · exact le_refl _
    · exact le_of_lt (lt_of_le_of_lt (h.past r' hr') hnew)
  · intro c hc
    dsimp only
    rw [hclock]
    exact le_of_lt (hcursor c hc)
  · intro r' hr' htype hreturned
    rcases hrecords r' hr' with rfl | hr'
    · exact hcursor
    · exact h.unreturned r' hr' htype hreturned
  · intro cycle hcycle
    exact (h.cycle cycle hcycle).change h (horderly cycle hcycle) hchange

/-- A step of an orderly poll keeps track. -/
theorem Tracked.step {s' : PollState} {event : PollEvent} (h : Tracked connector s)
    (horderly : Orderly s event) (hstep : s.step connector event = some s') :
    Tracked connector s' := by
  cases event with
  | change r =>
    simp only [PollState.step] at hstep
    split at hstep
    · exact absurd hstep (by simp)
    · rename_i source hchange
      cases hstep
      exact h.change horderly hchange
  | startCycle =>
    simp only [PollState.step] at hstep
    split at hstep
    · exact absurd hstep (by simp)
    · cases hstep
      refine ⟨h.positive, h.past, h.cursor_past, h.unreturned, ?_⟩
      intro cycle hcycle
      obtain rfl := Option.some.inj hcycle
      exact h.startCycle rfl
  | runQuery =>
    simp only [PollState.step] at hstep
    split at hstep
    · rename_i asked objectType remaining next events hcycle
      cases hstep
      refine ⟨h.positive, h.past, h.cursor_past, h.unreturned, ?_⟩
      intro cycle hnew
      obtain rfl := Option.some.inj hnew
      exact (h.cycle _ hcycle).query h rfl
    · exact absurd hstep (by simp)
  | finishCycle =>
    simp only [PollState.step] at hstep
    split at hstep
    · rename_i asked next events hcycle
      cases hstep
      have htracked := h.cycle _ hcycle
      refine ⟨h.positive, h.past, ?_, ?_, by simp⟩
      · intro c hc
        obtain rfl := Option.some.inj hc
        exact htracked.next_past
      · intro r hr htype hreturned c hc
        obtain rfl := Option.some.inj hc
        exact htracked.newer_than_next h (horderly _ hcycle) hr htype hreturned
    · exact absurd hstep (by simp)

theorem tracked_start (connector : CrmConnector) : Tracked connector .start := by
  constructor <;> simp [PollState.start]

/-- Every version of a record that no cycle has returned is newer than the stored cursor. -/
def MissesNothing (connector : CrmConnector) (s : PollState) : Prop :=
  s.cycle = none → ∀ r ∈ s.source.records, r.objectType ∈ connector.objectTypes →
    r ∉ s.returned → ∀ c ∈ s.cursor, c < r.modified

instance (connector : CrmConnector) (s : PollState) : Decidable (MissesNothing connector s) :=
  inferInstanceAs (Decidable (s.cycle = none → ∀ r ∈ s.source.records,
    r.objectType ∈ connector.objectTypes → r ∉ s.returned → ∀ c ∈ s.cursor, c < r.modified))

/-- In every orderly run of a connector, with changes of the source anywhere between its
queries, no version is missed. -/
theorem unreturned_newer_than_cursor {connector : CrmConnector} {events : List PollEvent}
    {s : PollState} (horderly : Along (PollState.step connector) Orderly .start events)
    (hrun : run (PollState.step connector) .start events = some s) : MissesNothing connector s := by
  have hstep : ∀ s event s', Tracked connector s → Orderly s event →
      s.step connector event = some s' → Tracked connector s' :=
    fun s event s' h ho hs => h.step ho hs
  have htracked := run_invariant hstep (tracked_start connector) horderly hrun
  intro _
  exact htracked.unreturned

/-! ## Runs of two cycles -/

/-- A cycle of the connector's queries, with changes before each of them and at the end. -/
def pollCycle (changes : List (List CrmRecord)) : List PollEvent :=
  .startCycle :: (changes.dropLast.flatMap fun rs => rs.map PollEvent.change ++ [.runQuery]) ++
    (changes.getLastD []).map PollEvent.change ++ [.finishCycle]

/-- Contacts change while companies and deals are asked about, and nothing after them. -/
def orderlyCycles : List PollEvent :=
  pollCycle [[⟨"contacts", "a", 1⟩, ⟨"deals", "d", 2⟩], [], [⟨"contacts", "b", 3⟩], []] ++
    pollCycle [[⟨"companies", "c", 4⟩], [], [], [⟨"deals", "d", 5⟩]]

/-- The two cycles return all four changes. -/
theorem orderly_cycles_miss_nothing :
    ∃ s, run (PollState.step .hubspot) .start orderlyCycles = some s ∧
      s.returned.length = 4 ∧ MissesNothing .hubspot s := by
  have hrun : (run (PollState.step .hubspot) .start orderlyCycles).map
      (fun s => s.returned.length) = some 4 := by decide +kernel
  obtain ⟨s, hs, hlength⟩ := Option.map_eq_some_iff.mp hrun
  exact ⟨s, hs, hlength, unreturned_newer_than_cursor (by decide +kernel) hs⟩

/-- A record of the first type changes after its query, and one of the second type before
its own. -/
def overtakenCycle (first second : String) (types : Nat) : List PollEvent :=
  pollCycle ([[], [⟨first, "a", 1000⟩, ⟨second, "b", 3000⟩]] ++ List.replicate (types - 1) [])

/-- The cursor passes the first record's change, which no cycle has returned: with either
connector. -/
theorem overtaken_change_missed :
    (∃ s ∈ run (PollState.step .hubspot) .start (overtakenCycle "contacts" "companies" 3),
      s.cursor = some 3000 ∧ ¬ MissesNothing .hubspot s) ∧
    (∃ s ∈ run (PollState.step .salesforce) .start (overtakenCycle "Account" "Contact" 4),
      s.cursor = some 3000 ∧ ¬ MissesNothing .salesforce s) := by
  decide +kernel

end Verity.Analysis
