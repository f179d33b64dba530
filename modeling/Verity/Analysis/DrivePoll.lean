import Verity.Model.DrivePoll

/-!
# Agreement of the two Drive drivers

`run_once` parks what the documents endpoint does not accept and posts it as retirements. The
orchestrated driver has no such case: it delivers every body, the endpoint refuses the removal
marker or the quarantined body, and the cycle ends there, this time and whenever it is retried
(`runCycle_stuck`). Without such bodies and with nothing left in the ledger the two drivers make the
same calls, whatever the server answers (`cyclesAgree_iff`).
-/

set_option autoImplicit false

namespace Verity.Analysis

open Verity.Model

variable {calls : List DriveCall} {poll : Option String → List GDriveDocumentEvent × String}
  {cursor : Option String} {s : OnceState} {body : DocumentBody} {ledger : LedgerFile}

/-- Two cycles over one batch: they send the same deliveries and the same retirements, they end at
one cursor where everything is accepted, and nothing is posted that cannot be indexed. -/
structure CyclesAgree (r o : CycleResult) : Prop where
  deliveries : ∀ body, .deliver body ∈ r.calls ↔ .deliver body ∈ o.calls
  retirements : ∀ body, .retire body ∈ r.calls ↔ .retire body ∈ o.calls
  cursor : r.allAccepted = true → o.allAccepted = true → r.cursor = o.cursor
  indexable : ∀ body, .deliver body ∈ r.calls ++ o.calls → isIndexableBody body = true

section Bodies

variable (lib : DriveLibraries) (tenantId : String)

/-- Of the bodies that the connector builds, the endpoint refuses those that are not indexable. -/
theorem refused_buildDocumentRequest (event : GDriveDocumentEvent) :
    refusedByIngestDocuments (buildDocumentRequest lib event tenantId) =
      !isIndexableBody (buildDocumentRequest lib event tenantId) := by
  unfold buildDocumentRequest
  split
  · rfl
  · dsimp only
    split
    · rfl
    · split
      · rfl
      · rfl

/-- As the retraction lane has it. -/
theorem isIndexableBody_buildDocumentRequest (event : GDriveDocumentEvent) :
    isIndexableBody (buildDocumentRequest lib event tenantId) =
      DriveEvent.isIndexable ⟨event.documentId, event.removed, event.acl.resolvable,
        resolvedVisibility lib event.acl⟩ := by
  unfold buildDocumentRequest DriveEvent.isIndexable
  cases event.removed with
  | true => rfl
  | false =>
    cases event.acl.resolvable with
    | false => rfl
    | true =>
      dsimp only
      cases (resolvedVisibility lib event.acl).isEmpty <;> rfl

end Bodies

section Cycles

variable {lib : DriveLibraries} {server : DriveServer} {tenantId : String} {canRetire : Bool}
  {events : List GDriveDocumentEvent}

/-! ## The orchestrated driver -/

theorem subset_deliverAll (events : List GDriveDocumentEvent) (calls : List DriveCall) :
    calls ⊆ (deliverAll lib server tenantId events calls).1 := by
  induction events generalizing calls with
  | nil => exact List.Subset.refl calls
  | cons event events ih =>
    unfold deliverAll
    dsimp only
    split
    · exact List.Subset.trans (List.subset_append_left _ _) (ih _)
    · exact List.subset_append_left _ _

/-- It sends deliveries only, of bodies of the events. -/
theorem mem_deliverAll {call : DriveCall}
    (h : call ∈ (deliverAll lib server tenantId events calls).1) :
    call ∈ calls ∨ ∃ event ∈ events, call = .deliver (buildDocumentRequest lib event tenantId) := by
  induction events generalizing calls with
  | nil => exact Or.inl h
  | cons event events ih =>
    unfold deliverAll at h
    dsimp only at h
    have hsent : ∀ calls',
        calls' = calls ++ [.deliver (buildDocumentRequest lib event tenantId)] →
        call ∈ calls' → call ∈ calls ∨
          ∃ e ∈ event :: events, call = .deliver (buildDocumentRequest lib e tenantId) := by
      rintro calls' rfl hcall
      rcases List.mem_append.mp hcall with hcall | hcall
      · exact Or.inl hcall
      · exact Or.inr ⟨event, List.mem_cons_self, List.mem_singleton.mp hcall⟩
    split at h
    · rcases ih h with hcall | ⟨e, he, hcall⟩
      · exact hsent _ rfl hcall
      · exact Or.inr ⟨e, List.mem_cons_of_mem _ he, hcall⟩
    · exact hsent _ rfl h

/-- A body that is not indexable is refused, and the cycle does not get past it. -/
theorem deliverAll_refused
    (h : ∃ event ∈ events, isIndexableBody (buildDocumentRequest lib event tenantId) = false) :
    (deliverAll lib server tenantId events calls).2 = false := by
  induction events generalizing calls with
  | nil =>
    obtain ⟨event, hevent, -⟩ := h
    cases hevent
  | cons event events ih =>
    unfold deliverAll
    dsimp only
    by_cases haccepts : server.accepts calls
        (.deliver (buildDocumentRequest lib event tenantId)) = true
    · rw [if_pos haccepts]
      obtain ⟨e, he, hnot⟩ := h
      rcases List.mem_cons.mp he with rfl | he
      · have hrefused := refused_buildDocumentRequest lib tenantId e
        rw [hnot] at hrefused
        rw [server.refuses calls _ hrefused] at haccepts
        cases haccepts
      · exact ih ⟨e, he, hnot⟩
    · rw [if_neg haccepts]

/-- A batch with such a body never gets the orchestrated driver past its cursor. -/
theorem runCycle_stuck (h : ∃ event ∈ (poll cursor).1,
      isIndexableBody (buildDocumentRequest lib event tenantId) = false) :
    (GDrivePollRunner.runCycle lib server tenantId poll cursor).cursor = cursor := by
  unfold GDrivePollRunner.runCycle
  dsimp only
  rw [deliverAll_refused h]
  rfl

/-! ## The connector's own driver -/

theorem subset_drainEntries (entries : List ParkedEntry) (calls : List DriveCall) :
    calls ⊆ (drainEntries server tenantId entries calls).1 := by
  induction entries generalizing calls with
  | nil => exact List.Subset.refl calls
  | cons entry entries ih =>
    exact List.Subset.trans (List.subset_append_left _ _) (ih _)

theorem drain_calls (s : OnceState) :
    (s.drain server tenantId canRetire).calls = (drainEntries server tenantId
      (if canRetire then s.ledger.entries else []) s.calls).1 := rfl

/-- With nothing to drain, a drain does nothing. -/
theorem drain_eq_self (h : canRetire = true → s.ledger.entries = []) :
    s.drain server tenantId canRetire = s := by
  have hnone : (if canRetire then s.ledger.entries else []) = [] := by
    cases canRetire with
    | false => rfl
    | true => exact h rfl
  unfold OnceState.drain
  rw [hnone]
  simp [drainEntries, LedgerFile.writeRemaining]

theorem subset_deliverIndexable (events : List GDriveDocumentEvent) (s : OnceState) :
    s.calls ⊆ (deliverIndexable lib server tenantId events s).1.calls := by
  induction events generalizing s with
  | nil => exact List.Subset.refl _
  | cons event events ih =>
    unfold deliverIndexable
    dsimp only
    split
    · refine List.Subset.trans ?_ (ih _)
      exact List.Subset.refl _
    · split
      · refine List.Subset.trans ?_ (ih _)
        exact List.subset_append_left _ _
      · exact List.subset_append_left _ _

/-- Where every body is indexable, the deliveries are those of the orchestrated driver. -/
theorem deliverIndexable_of_indexable (server : DriveServer)
    (h : ∀ event ∈ events, isIndexableBody (buildDocumentRequest lib event tenantId) = true)
    (hparked : s.parked = []) :
    let r := deliverIndexable lib server tenantId events s
    (r.1.calls, r.2) = deliverAll lib server tenantId events s.calls ∧ r.1.parked = [] ∧
      r.1.ledger = s.ledger := by
  induction events generalizing s with
  | nil => exact ⟨rfl, hparked, rfl⟩
  | cons event events ih =>
    have hevent := h event List.mem_cons_self
    have hrest : ∀ e ∈ events, isIndexableBody (buildDocumentRequest lib e tenantId) = true :=
      fun e he => h e (List.mem_cons_of_mem _ he)
    unfold deliverIndexable deliverAll
    dsimp only
    rw [hevent, Bool.not_true, if_neg Bool.false_ne_true]
    by_cases haccepts : server.accepts s.calls
        (.deliver (buildDocumentRequest lib event tenantId)) = true
    · rw [if_pos haccepts, if_pos haccepts]
      apply ih hrest
      rw [hparked]
      rfl
    · rw [if_neg haccepts, if_neg haccepts]
      exact ⟨rfl, hparked, rfl⟩

/-- It posts no body that is not indexable. -/
theorem indexable_of_mem_deliverIndexable
    (h : .deliver body ∈ (deliverIndexable lib server tenantId events s).1.calls) :
    .deliver body ∈ s.calls ∨ isIndexableBody body = true := by
  induction events generalizing s with
  | nil => exact Or.inl h
  | cons event events ih =>
    unfold deliverIndexable at h
    dsimp only at h
    split at h
    · have hrest := ih h
      exact hrest
    · rename_i hindexable
      have hevent : isIndexableBody (buildDocumentRequest lib event tenantId) = true := by
        simpa using hindexable
      have hsent : .deliver body ∈ s.calls ++
          [DriveCall.deliver (buildDocumentRequest lib event tenantId)] →
            .deliver body ∈ s.calls ∨ isIndexableBody body = true := by
        intro hmem
        rcases List.mem_append.mp hmem with hmem | hmem
        · exact Or.inl hmem
        · rw [DriveCall.deliver.inj (List.mem_singleton.mp hmem)]
          exact Or.inr hevent
      split at h
      · rcases ih h with h | h
        · exact hsent h
        · exact Or.inr h
      · exact hsent h

theorem deliver_mem_drainEntries {entries : List ParkedEntry} :
    .deliver body ∈ (drainEntries server tenantId entries calls).1 ↔ .deliver body ∈ calls := by
  induction entries generalizing calls with
  | nil => exact Iff.rfl
  | cons entry entries ih =>
    refine ih.trans ?_
    simp

/-- The calls of a cycle, between the two drains. -/
theorem runOnce_calls (lib : DriveLibraries) (server : DriveServer) (tenantId : String)
    (canRetire : Bool) (ledger : LedgerFile)
    (poll : Option String → List GDriveDocumentEvent × String) (cursor : Option String) :
    let start := OnceState.drain server tenantId canRetire ⟨[], true, ledger, [], []⟩
    let calls := (deliverIndexable lib server tenantId (poll cursor).1 start).1.calls
    ∃ entries, (runOnce lib server tenantId canRetire ledger poll cursor).calls =
      (drainEntries server tenantId entries calls).1 := by
  unfold runOnce
  dsimp only
  split
  · exact ⟨_, rfl⟩
  · exact ⟨[], rfl⟩

theorem indexable_of_mem_runOnce
    (h : .deliver body ∈ (runOnce lib server tenantId canRetire ledger poll cursor).calls) :
    isIndexableBody body = true := by
  obtain ⟨entries, hcalls⟩ := runOnce_calls lib server tenantId canRetire ledger poll cursor
  rw [hcalls, deliver_mem_drainEntries] at h
  refine (indexable_of_mem_deliverIndexable h).resolve_left ?_
  rw [drain_calls, deliver_mem_drainEntries]
  exact List.not_mem_nil

/-! ## Agreement -/

/-- A ledger without entries stays so where nothing is parked. -/
theorem entries_after_unpark (h : ledger.entries = []) (deliveredIds : List DocumentId) :
    ((ledger.unparkDelivered deliveredIds).parkRetractions []).entries = [] := by
  have hkept : ledger.unparkDelivered deliveredIds = ledger := by
    unfold LedgerFile.unparkDelivered
    rw [h]
    rfl
  rw [hkept]
  cases ledger with
  | missing => rfl
  | corrupt => rfl
  | parsed entries => exact h

/-- The cycles are the same where there is nothing to retire. -/
theorem runOnce_eq_runCycle (lib : DriveLibraries) (server : DriveServer) (tenantId : String)
    (hindexable : ∀ event ∈ (poll cursor).1,
      isIndexableBody (buildDocumentRequest lib event tenantId) = true)
    (hledger : canRetire = true → ledger.entries = []) :
    (runOnce lib server tenantId canRetire ledger poll cursor).calls =
        (GDrivePollRunner.runCycle lib server tenantId poll cursor).calls ∧
      (runOnce lib server tenantId canRetire ledger poll cursor).cursor =
        (GDrivePollRunner.runCycle lib server tenantId poll cursor).cursor := by
  set start : OnceState := ⟨[], true, ledger, [], []⟩ with hstart
  have hdrained : start.drain server tenantId canRetire = start := drain_eq_self hledger
  obtain ⟨hsent, hparked, hkept⟩ :=
    deliverIndexable_of_indexable server hindexable (s := start) rfl
  obtain ⟨hcalls, hfinished⟩ := Prod.mk.inj hsent
  unfold runOnce GDrivePollRunner.runCycle
  dsimp only
  rw [← hstart, hdrained, ← hcalls, ← hfinished]
  split
  · refine ⟨?_, rfl⟩
    rw [drain_eq_self]
    intro hretire
    rw [hparked, hkept]
    exact entries_after_unpark (hledger hretire) _
  · exact ⟨rfl, rfl⟩

/-- What is in the ledger is posted at the start of a cycle. -/
theorem exists_retirement_sent (lib : DriveLibraries) (server : DriveServer) (tenantId : String)
    (poll : Option String → List GDriveDocumentEvent × String) (cursor : Option String)
    (hretire : canRetire = true) (hentries : ledger.entries ≠ []) :
    ∃ body, .retire body ∈ (runOnce lib server tenantId canRetire ledger poll cursor).calls := by
  obtain ⟨entries, hcalls⟩ := runOnce_calls lib server tenantId canRetire ledger poll cursor
  obtain ⟨entry, rest, hledger⟩ := List.exists_cons_of_ne_nil hentries
  refine ⟨⟨tenantId, entry.documentId, entry.reason⟩, ?_⟩
  rw [hcalls]
  apply subset_drainEntries
  apply subset_deliverIndexable
  rw [drain_calls, if_pos hretire]
  change _ ∈ (drainEntries server tenantId ledger.entries []).1
  rw [hledger]
  exact subset_drainEntries rest _ (List.mem_singleton.mpr rfl)

/-- A server that accepts all it may. -/
def DriveServer.lenient : DriveServer where
  accepts _ call :=
    match call with
    | .deliver body => !refusedByIngestDocuments body
    | .retire _ => true
  refuses := by
    intro _ body hrefused
    simp only [hrefused, Bool.not_true]

theorem lenient_accepts {event : GDriveDocumentEvent}
    (h : isIndexableBody (buildDocumentRequest lib event tenantId) = true) :
    DriveServer.lenient.accepts calls (.deliver (buildDocumentRequest lib event tenantId)) =
      true := by
  have hrefused := refused_buildDocumentRequest lib tenantId event
  rw [h] at hrefused
  simp only [DriveServer.lenient, hrefused, Bool.not_true, Bool.not_false]

/-- With such a server the first body that is not indexable is posted. -/
theorem exists_not_indexable_sent (calls : List DriveCall)
    (h : ∃ event ∈ events, isIndexableBody (buildDocumentRequest lib event tenantId) = false) :
    ∃ body, .deliver body ∈ (deliverAll lib DriveServer.lenient tenantId events calls).1 ∧
      isIndexableBody body = false := by
  induction events generalizing calls with
  | nil =>
    obtain ⟨event, hevent, -⟩ := h
    cases hevent
  | cons event events ih =>
    by_cases hevent : isIndexableBody (buildDocumentRequest lib event tenantId) = true
    · have hrest : ∃ e ∈ events,
          isIndexableBody (buildDocumentRequest lib e tenantId) = false := by
        obtain ⟨e, he, hnot⟩ := h
        rcases List.mem_cons.mp he with rfl | he
        · rw [hevent] at hnot
          cases hnot
        · exact ⟨e, he, hnot⟩
      unfold deliverAll
      dsimp only
      rw [if_pos (lenient_accepts hevent)]
      exact ih _ hrest
    · refine ⟨_, ?_, Bool.not_eq_true _ ▸ hevent⟩
      unfold deliverAll
      dsimp only
      split
      · exact subset_deliverAll _ _ (List.mem_append_right _ (List.mem_singleton.mpr rfl))
      · exact List.mem_append_right _ (List.mem_singleton.mpr rfl)

/-- Whatever the server answers, the two drivers agree on a batch, exactly when every body of it is
indexable and the ledger has nothing for the connector's own driver to retire. -/
theorem cyclesAgree_iff (lib : DriveLibraries) (tenantId : String) (canRetire : Bool)
    (ledger : LedgerFile) (poll : Option String → List GDriveDocumentEvent × String)
    (cursor : Option String) :
    (∀ server, CyclesAgree (GDrivePollRunner.runCycle lib server tenantId poll cursor)
        (runOnce lib server tenantId canRetire ledger poll cursor)) ↔
      (∀ event ∈ (poll cursor).1,
        isIndexableBody (buildDocumentRequest lib event tenantId) = true) ∧
      (canRetire = true → ledger.entries = []) := by
  constructor
  · intro hagree
    have hlenient := hagree DriveServer.lenient
    constructor
    · intro event hevent
      by_contra hne
      obtain ⟨body, hsent, hbody⟩ :=
        exists_not_indexable_sent [] ⟨event, hevent, Bool.eq_false_of_not_eq_true hne⟩
      have hindexable := hlenient.indexable body (List.mem_append_left _ hsent)
      rw [hbody] at hindexable
      cases hindexable
    · intro hretire
      by_contra hentries
      obtain ⟨body, hbody⟩ := exists_retirement_sent lib DriveServer.lenient tenantId poll cursor
        hretire hentries
      have hsent := (hlenient.retirements body).mpr hbody
      rcases mem_deliverAll hsent with hnone | ⟨event, -, hdeliver⟩
      · cases hnone
      · cases hdeliver
  · rintro ⟨hindexable, hledger⟩ server
    obtain ⟨hcalls, hcursor⟩ :=
      runOnce_eq_runCycle lib server tenantId hindexable hledger
    refine ⟨fun body => by rw [hcalls], fun body => by rw [hcalls], fun _ _ => hcursor.symm, ?_⟩
    intro body hbody
    rw [hcalls, List.mem_append, or_self, ← hcalls] at hbody
    exact indexable_of_mem_runOnce hbody

end Cycles

/-- Two files of one batch, one shared and one removed. -/
def sharedAndRemoved : List GDriveDocumentEvent :=
  [⟨"gdrive", "plan", [], "text/plain", ⟨true, ["user:ana"], []⟩, [], "2026-01-02", "plan.txt",
      false⟩,
    ⟨"gdrive", "notes", [], "", ⟨false, [], []⟩, [], "2026-01-03", "", true⟩]

/-- A registry that knows everyone. -/
def openLibraries : DriveLibraries := ⟨fun _ => "", fun _ => "", fun _ _ => some 7⟩

/-- The orchestrated driver posts the removal marker, and keeps its cursor; the other one retires
the removed file and moves on. -/
theorem removed_file_stops_runner :
    ¬ ∀ (lib : DriveLibraries) (server : DriveServer)
      (poll : Option String → List GDriveDocumentEvent × String) (cursor : Option String),
      CyclesAgree (GDrivePollRunner.runCycle lib server "acme" poll cursor)
        (runOnce lib server "acme" true .missing poll cursor) := by
  intro hclaim
  have hagree := hclaim openLibraries DriveServer.lenient (fun _ => (sharedAndRemoved, "2"))
    (some "1")
  have hretired : .retire ⟨"acme", "notes", "removed"⟩ ∈ (runOnce openLibraries DriveServer.lenient
      "acme" true .missing (fun _ => (sharedAndRemoved, "2")) (some "1")).calls := by decide +kernel
  exact absurd ((hagree.retirements _).mpr hretired) (by decide +kernel)

end Verity.Analysis
