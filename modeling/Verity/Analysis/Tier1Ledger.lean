import Verity.Foundation.Run
import Verity.Model.Producers

/-!
# Tier-1 evidence and the facts it came from

The producers only append. A live Tier-1 row is what they derived from the facts that were
current in some run, this one or an earlier one, and whatever they derived in a run stays live
(`live_tier1_rows_were_derived`). A row is not withdrawn when its fact changes: a contact that
moved from one account to another links both (`moved_contact_links_both_accounts`).
-/

set_option autoImplicit false

namespace Verity.Analysis

open Verity.Foundation Verity.Model

variable {crates : Crates}

variable {tenant : TenantId} {ev : EvidenceWrite} {db : Database} {past : List ResolutionEvent}
  {event : ResolutionEvent} {w : ResolutionWorld}

/-! ## What the producers emit -/

theorem crmFkEdge_tenant {f : CrmContactFact} (h : crmFkEdge tenant f = some ev) :
    ev.tenantId = tenant ∧ ev.tier = 1 := by
  unfold crmFkEdge at h
  dsimp only at h
  split at h
  · exact absurd h (by simp)
  · split at h
    · exact absurd h (by simp)
    · cases h
      exact ⟨rfl, rfl⟩

theorem pairEdges_tenant {method keyValue keyNamespace : String} {refs : List String}
    (h : ev ∈ pairEdges tenant method keyValue keyNamespace refs) :
    ev.tenantId = tenant ∧ ev.tier = 1 := by
  obtain ⟨p, -, rfl⟩ := List.mem_map.mp h
  exact ⟨rfl, rfl⟩

theorem emailEvidence_tenant {facts : List EmailFact} {denylist : List String}
    (h : ev ∈ tier1EmailWithinNamespaceEvidence tenant facts denylist) :
    ev.tenantId = tenant ∧ ev.tier = 1 := by
  obtain ⟨g, -, hg⟩ := List.mem_flatMap.mp ((List.mem_insertionSort _).mp h)
  exact pairEdges_tenant hg

theorem externalIdEvidence_tenant {facts : List ExternalIdFact} {denylist : List String}
    (h : ev ∈ tier1ExternalIdEvidence tenant facts denylist) :
    ev.tenantId = tenant ∧ ev.tier = 1 := by
  obtain ⟨g, -, hg⟩ := List.mem_flatMap.mp ((List.mem_insertionSort _).mp h)
  exact pairEdges_tenant hg

/-- A run for a tenant writes rows of this tenant, and of tier 1. -/
theorem tier1Evidence_tenant {facts : FactTable} {s : ResolutionStore}
    (h : ev ∈ tier1Evidence crates facts s tenant) : ev.tenantId = tenant ∧ ev.tier = 1 := by
  unfold tier1Evidence at h
  dsimp only at h
  rcases List.mem_append.mp h with h | h
  · rcases List.mem_append.mp h with h | h
    · obtain ⟨f, -, hf⟩ := List.mem_filterMap.mp h
      exact crmFkEdge_tenant hf
    · obtain ⟨g, -, hg⟩ := List.mem_flatMap.mp h
      split at hg
      · exact absurd hg List.not_mem_nil
      · exact emailEvidence_tenant hg
  · obtain ⟨g, -, hg⟩ := List.mem_flatMap.mp h
    split at hg
    · exact absurd hg List.not_mem_nil
    · split at hg
      · exact absurd hg List.not_mem_nil
      · exact externalIdEvidence_tenant hg

/-! ## What a run of the producers does to the ledger -/

/-- The write a row of the ledger came from. -/
def asWrite (row : EvidenceRow) : EvidenceWrite where
  tenantId := row.tenantId
  leftRef := row.leftRef
  rightRef := row.rightRef
  tier := row.tier
  method := row.method
  keyValue := row.keyValue
  keyNamespace := row.keyNamespace
  polarity := row.polarity

/-- One write is there already under its id, or becomes a live row at the end. -/
theorem persistTier1_cases (crates : Crates) (now : Time) (acc : ResolutionStore × Nat)
    (ev : EvidenceWrite) :
    (∃ row ∈ acc.1.evidence, row.evidenceId = deterministicEvidenceId crates ev ∧
        (persistTier1 crates now acc ev).1 = acc.1) ∨
      ∃ row, row.evidenceId = deterministicEvidenceId crates ev ∧ row.validTo = none ∧
        asWrite row = ev ∧
        (persistTier1 crates now acc ev).1.evidence = acc.1.evidence ++ [row] := by
  unfold persistTier1 ResolutionStore.insertEvidenceWithId
  dsimp only
  split
  · rename_i hany
    obtain ⟨row, hrow, hid⟩ := List.any_eq_true.mp hany
    exact Or.inl ⟨row, hrow, of_decide_eq_true hid, rfl⟩
  · exact Or.inr ⟨_, rfl, rfl, rfl, rfl⟩

/-- A run appends live rows that say what was written, keeps all others, and has a row for each
of its writes afterwards. -/
structure Appended (crates : Crates) (writes : List EvidenceWrite)
    (before after : List EvidenceRow) : Prop where
  kept : before ⊆ after
  new : ∀ row ∈ after, row ∈ before ∨ (row.validTo = none ∧ asWrite row ∈ writes)
  present : ∀ ev ∈ writes, ∃ row ∈ after, row.evidenceId = deterministicEvidenceId crates ev

theorem appended_persistTier1 (crates : Crates) (now : Time) (acc : ResolutionStore × Nat)
    (writes : List EvidenceWrite) :
    Appended crates writes acc.1.evidence
      (writes.foldl (persistTier1 crates now) acc).1.evidence := by
  induction writes generalizing acc with
  | nil => exact ⟨List.Subset.refl _, fun row hrow => Or.inl hrow, by simp⟩
  | cons ev writes ih =>
    rw [List.foldl_cons]
    have hrest := ih (persistTier1 crates now acc ev)
    rcases persistTier1_cases crates now acc ev with
      ⟨row, hrow, hid, hsame⟩ | ⟨row, hid, hlive, hsays, happend⟩
    · rw [hsame] at hrest
      refine ⟨hrest.kept, ?_, ?_⟩
      · intro r hr
        exact (hrest.new r hr).imp_right fun h => ⟨h.1, List.mem_cons_of_mem _ h.2⟩
      · exact List.forall_mem_cons.mpr ⟨⟨row, hrest.kept hrow, hid⟩, hrest.present⟩
    · rw [happend] at hrest
      have hrow : row ∈ acc.1.evidence ++ [row] := by simp
      refine ⟨fun r hr => hrest.kept (List.mem_append_left _ hr), ?_, ?_⟩
      · intro r hr
        rcases hrest.new r hr with hold | hnew
        · rcases List.mem_append.mp hold with hold | hlast
          · exact Or.inl hold
          · rw [List.mem_singleton.mp hlast]
            exact Or.inr ⟨hlive, hsays ▸ List.mem_cons_self⟩
        · exact Or.inr ⟨hnew.1, List.mem_cons_of_mem _ hnew.2⟩
      · exact List.forall_mem_cons.mpr ⟨⟨row, hrest.kept hrow, hid⟩, hrest.present⟩

/-! ## Whole runs -/

/-- The producers derived the write for the tenant in a run that is one of the events, from the
facts that were current by then. -/
def DerivedIn (crates : Crates) (db : Database) (events : List ResolutionEvent)
    (tenant : TenantId) (ev : EvidenceWrite) : Prop :=
  ∃ before now writes after w, events = before ++ .produce now tenant writes :: after ∧
    run (ResolutionWorld.step crates) (.boot db) before = some w ∧
    ev ∈ tier1Evidence crates w.db.facts w.resolution tenant

theorem derivedIn_concat :
    DerivedIn crates db (past ++ [event]) tenant ev ↔
      DerivedIn crates db past tenant ev ∨
        ∃ now writes w, event = .produce now tenant writes ∧
          run (ResolutionWorld.step crates) (.boot db) past = some w ∧
          ev ∈ tier1Evidence crates w.db.facts w.resolution tenant := by
  constructor
  · rintro ⟨before, now, writes, after, w, hevents, hrun, hev⟩
    rcases split_concat hevents with ⟨rfl, rfl, -⟩ | ⟨older, -, hpast⟩
    · exact Or.inr ⟨now, writes, w, rfl, hrun, hev⟩
    · exact Or.inl ⟨before, now, writes, older, w, hpast, hrun, hev⟩
  · rintro (⟨before, now, writes, after, w, rfl, hrun, hev⟩ | ⟨now, writes, w, rfl, hrun, hev⟩)
    · refine ⟨before, now, writes, after ++ [event], w, ?_, hrun, hev⟩
      rw [List.append_assoc, List.cons_append]
    · exact ⟨past, now, writes, [], w, rfl, hrun, hev⟩

/-- The ledger after the events: live rows that a run derived, and one for each write derived. -/
structure LedgerFollows (crates : Crates) (db : Database) (events : List ResolutionEvent)
    (w : ResolutionWorld) : Prop where
  derived : ∀ row ∈ w.resolution.evidence, row.validTo = none ∧
    DerivedIn crates db events row.tenantId (asWrite row)
  kept : ∀ tenant ev, DerivedIn crates db events tenant ev →
    ∃ row ∈ w.resolution.evidence, row.evidenceId = deterministicEvidenceId crates ev

/-- An event that is no run of the producers, and leaves the ledger alone. -/
theorem LedgerFollows.idle {w' : ResolutionWorld} (h : LedgerFollows crates db past w)
    (hsame : w'.resolution.evidence = w.resolution.evidence)
    (hidle : ∀ now tenant writes, event ≠ .produce now tenant writes) :
    LedgerFollows crates db (past ++ [event]) w' := by
  refine ⟨?_, ?_⟩
  · rw [hsame]
    exact fun row hrow => (h.derived row hrow).imp_right fun hd => derivedIn_concat.mpr (Or.inl hd)
  · rw [hsame]
    intro tenant ev hev
    rcases derivedIn_concat.mp hev with hpast | ⟨now, writes, w₀, hevent, -⟩
    · exact h.kept tenant ev hpast
    · exact absurd hevent (hidle now tenant writes)

theorem evidence_writeResolutionConfig (s : ResolutionStore) (cfg : EntityResolutionConfig) :
    (s.writeResolutionConfig cfg).evidence = s.evidence := by
  unfold ResolutionStore.writeResolutionConfig
  dsimp only
  split <;> rfl

/-- A producer appends what it proposes. -/
theorem LedgerFollows.produce (h : LedgerFollows crates db past w)
    (hrun : run (ResolutionWorld.step crates) (.boot db) past = some w) {now : Time}
    {writes : List EvidenceWrite} {result : ResolutionStore × Nat}
    (hproduce : produceTier1Evidence crates now w.db.facts w.resolution tenant writes =
      some result) :
    LedgerFollows crates db (past ++ [.produce now tenant writes])
      { w with resolution := result.1 } := by
  unfold produceTier1Evidence at hproduce
  split at hproduce
  · rename_i hperm
    cases hproduce
    have happ := appended_persistTier1 crates now (w.resolution, 0) writes
    refine ⟨?_, ?_⟩
    · intro row hrow
      rcases happ.new row hrow with hold | ⟨hlive, hev⟩
      · exact (h.derived row hold).imp_right fun hd => derivedIn_concat.mpr (Or.inl hd)
      · have hmem := hperm.mem_iff.mp hev
        have htenant : row.tenantId = tenant := (tier1Evidence_tenant hmem).1
        rw [htenant]
        exact ⟨hlive, derivedIn_concat.mpr (Or.inr ⟨now, writes, w, rfl, hrun, hmem⟩)⟩
    · intro tenant' ev hev
      rcases derivedIn_concat.mp hev with hpast | ⟨now', writes', w', hevent, hrun', hmem⟩
      · obtain ⟨row, hrow, hid⟩ := h.kept tenant' ev hpast
        exact ⟨row, happ.kept hrow, hid⟩
      · cases hevent
        rw [hrun, Option.some.injEq] at hrun'
        subst hrun'
        exact happ.present ev (hperm.mem_iff.mpr hmem)
  · exact absurd hproduce (by simp)

theorem LedgerFollows.step {w' : ResolutionWorld} (h : LedgerFollows crates db past w)
    (hrun : run (ResolutionWorld.step crates) (.boot db) past = some w)
    (hstep : w.step crates event = some w') : LedgerFollows crates db (past ++ [event]) w' := by
  cases event with
  | upsertFact now fact =>
    unfold ResolutionWorld.step at hstep
    dsimp only at hstep
    split at hstep
    · cases hstep
      exact h.idle rfl (by simp)
    · cases hstep
      exact h.idle rfl (by simp)
  | forget now tenant ref =>
    cases hstep
    exact h.idle rfl (by simp)
  | retireEntity tenant source entityId deletedAt =>
    cases hstep
    exact h.idle rfl (by simp)
  | writeResolutionConfig cfg =>
    cases hstep
    exact h.idle (evidence_writeResolutionConfig _ cfg) (by simp)
  | produce now tenant writes =>
    obtain ⟨result, hproduce, hw'⟩ := Option.map_eq_some_iff.mp hstep
    cases hw'
    exact h.produce hrun hproduce

/-- After any sequence of fact writes, retirements, configuration changes and runs of the
producers, every live Tier-1 row of a tenant is what the producers derived in one of the runs for
this tenant from the facts current in that run, and every write they derived in one of these runs
has a live row under its id. -/
theorem live_tier1_rows_were_derived {db : Database} {events : List ResolutionEvent}
    {w : ResolutionWorld}
    (hrun : run (ResolutionWorld.step crates) (.boot db) events = some w) (tenant : TenantId) :
    (∀ row ∈ w.resolution.evidence, row.tenantId = tenant → row.tier = 1 → row.validTo = none →
        DerivedIn crates db events tenant (asWrite row)) ∧
      ∀ ev, DerivedIn crates db events tenant ev →
        ∃ row ∈ w.resolution.evidence, row.evidenceId = deterministicEvidenceId crates ev ∧
          row.validTo = none := by
  have hstart : LedgerFollows crates db [] (.boot db) := by
    refine ⟨fun row hrow => absurd hrow List.not_mem_nil, ?_⟩
    rintro tenant ev ⟨before, now, writes, after, w, hevents, -⟩
    exact absurd hevents (by simp)
  have hledger : LedgerFollows crates db events w :=
    run_trace hstart (fun past w₁ event w₂ hpast h hstep => LedgerFollows.step h hpast hstep) hrun
  refine ⟨?_, ?_⟩
  · rintro row hrow rfl - -
    exact (hledger.derived row hrow).2
  · intro ev hev
    obtain ⟨row, hrow, hid⟩ := hledger.kept tenant ev hev
    exact ⟨row, hrow, hid, (hledger.derived row hrow).1⟩

/-- Crates with a number for every name, and no two names of one number. -/
def codedCrates : Crates where
  floatText bits := toString bits.toNat
  uuidText tenant := toString tenant
  uuidV5 name := name.toList.foldl (fun n c => n * 1114112 + c.toNat) 1

/-- The account of a contact, from a time on. -/
def accountFrom (validFrom : Time) (account : String) : FactWrite where
  tenantId := 1
  key := ⟨"salesforce", "003J", "AccountId"⟩
  value := .str account
  validFrom := validFrom
  visibility := [1]
  confidentiality := .internal
  provenance := 1
  aclProvenance := .adminAssigned

def accountEdge (account : String) : EvidenceWrite where
  tenantId := 1
  leftRef := "salesforce:" ++ account
  rightRef := "salesforce:003J"
  tier := 1
  method := "crm_fk"
  keyValue := some ("account:" ++ account)
  keyNamespace := none
  polarity := 1

/-- The contact moves from account 001A to account 001B, with a run after each write. -/
def contactMoves : List ResolutionEvent :=
  [.upsertFact 9 (accountFrom 1 "001A"), .produce 10 1 [accountEdge "001A"],
    .upsertFact 11 (accountFrom 2 "001B"), .produce 12 1 [accountEdge "001B"]]

/-- What the run leaves: two rows, one of them not derived from the current facts, and the aliases
that the fold makes of them. -/
theorem contactMoves_view :
    (run (ResolutionWorld.step codedCrates) (.boot .empty) contactMoves).map (fun w =>
      (w.resolution.evidence.map asWrite,
        decide (∃ row ∈ w.resolution.evidence, row.tenantId = 1 ∧ row.tier = 1 ∧
          row.validTo = none ∧
            asWrite row ∉ tier1Evidence codedCrates w.db.facts w.resolution 1),
        (fold (w.resolution.allLiveEvidence 1) (.defaults 1)).aliases)) =
      some ([accountEdge "001A", accountEdge "001B"], true,
        [⟨"salesforce", "001A", "canon:salesforce:001A"⟩,
          ⟨"salesforce", "001B", "canon:salesforce:001A"⟩,
          ⟨"salesforce", "003J", "canon:salesforce:001A"⟩]) := by decide +kernel

/-- The contact moves from one account to the other, and both rows of the ledger come from writes of
the run. -/
theorem contact_rows_were_derived :
    ∃ w, run (ResolutionWorld.step codedCrates) (.boot .empty) contactMoves = some w ∧
      w.resolution.evidence.map asWrite = [accountEdge "001A", accountEdge "001B"] ∧
      ∀ row ∈ w.resolution.evidence, row.tenantId = 1 → row.tier = 1 → row.validTo = none →
        DerivedIn codedCrates .empty contactMoves 1 (asWrite row) := by
  obtain ⟨w, hrun, hview⟩ := Option.map_eq_some_iff.mp contactMoves_view
  obtain ⟨hrows, -⟩ := Prod.mk.inj hview
  exact ⟨w, hrun, hrows, (live_tier1_rows_were_derived hrun 1).1⟩

/-- After the second run the row of the old account is live, though the producers do not derive
it from the current facts, and the fold makes one entity of the two accounts. -/
theorem moved_contact_links_both_accounts :
    ∃ w, run (ResolutionWorld.step codedCrates) (.boot .empty) contactMoves = some w ∧
      (∃ row ∈ w.resolution.evidence, row.tenantId = 1 ∧ row.tier = 1 ∧ row.validTo = none ∧
        asWrite row ∉ tier1Evidence codedCrates w.db.facts w.resolution 1) ∧
      (fold (w.resolution.allLiveEvidence 1) (.defaults 1)).aliases =
        [⟨"salesforce", "001A", "canon:salesforce:001A"⟩,
          ⟨"salesforce", "001B", "canon:salesforce:001A"⟩,
          ⟨"salesforce", "003J", "canon:salesforce:001A"⟩] := by
  obtain ⟨w, hrun, hview⟩ := Option.map_eq_some_iff.mp contactMoves_view
  obtain ⟨-, hview⟩ := Prod.mk.inj hview
  obtain ⟨hrow, haliases⟩ := Prod.mk.inj hview
  exact ⟨w, hrun, of_decide_eq_true hrow, haliases⟩

end Verity.Analysis
