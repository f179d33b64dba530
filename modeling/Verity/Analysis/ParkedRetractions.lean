import Verity.Foundation.Run
import Verity.Model.DriveRetraction

/-!
# Parked retractions

What a Drive cycle notes as removed and passes with its cursor is acknowledged by the server,
or parked, or superseded by a later delivery of the same document: `Kept`. The steps in
between hold it in the cycle's own list, which a stop loses together with the cycle's
progress. Only a stop inside a write of the ledger can lose what earlier cycles have parked.

What is parked is newer than the last delivery of its document, so that posting it takes
nothing away that came later: `Fresh`. A cycle breaks this between the delivery of a document
and the step that takes it out of the ledger; a stop there, and only there, leaves an entry
that the next cycle posts over the newer content.
-/

set_option autoImplicit false

namespace Verity.Analysis

open Verity.Model Verity.Foundation

variable {d : DocumentId} {x : DriveLog} {log : List DriveLog} {ledger : List ParkedEntry}
  {entry : ParkedEntry} {phase : DrivePhase} {todo remaining : List ParkedEntry}
  {cycle : DriveCycle} {w w' : DriveWorld} {accepted : Bool}

/-! ## The record of what was done -/

/-- After this part of the record began, the server has acknowledged the document's
retraction, or a delivery of the document. -/
def Answered (d : DocumentId) (rest : List DriveLog) : Prop :=
  .posted d true ∈ rest ∨ .delivered d ∈ rest

/-- The cycle that made the record before `rest` went on to save its cursor. -/
def Passed (rest : List DriveLog) : Prop :=
  ∃ mid post, rest = mid ++ .saved :: post ∧ .polled ∉ mid

/-- The last that is known of the document is that it was to be retracted. -/
def LastNoted (d : DocumentId) (log : List DriveLog) : Prop :=
  ∃ pre rest, log = pre ++ .noted d :: rest ∧ .delivered d ∉ rest

theorem Answered.append {rest : List DriveLog} (h : Answered d rest) (x : DriveLog) :
    Answered d (rest ++ [x]) := by
  rcases h with h | h
  · exact Or.inl (List.mem_append_left _ h)
  · exact Or.inr (List.mem_append_left _ h)

theorem passed_of_append {rest : List DriveLog} (h : Passed (rest ++ [x])) :
    Passed rest ∨ (x = .saved ∧ .polled ∉ rest) := by
  obtain ⟨mid, post, hsplit, hmid⟩ := h
  rcases split_concat hsplit with ⟨rfl, hx, _⟩ | ⟨older, _, hrest⟩
  · exact Or.inr ⟨hx, hmid⟩
  · exact Or.inl ⟨mid, older, hrest, hmid⟩

theorem LastNoted.append (h : LastNoted d log) (hx : x ≠ .delivered d) :
    LastNoted d (log ++ [x]) := by
  obtain ⟨pre, rest, rfl, hrest⟩ := h
  refine ⟨pre, rest ++ [x], by simp, ?_⟩
  rw [List.mem_append, List.mem_singleton, not_or]
  exact ⟨hrest, fun h => hx h.symm⟩

theorem lastNoted_concat (d : DocumentId) (log : List DriveLog) :
    LastNoted d (log ++ [.noted d]) := ⟨log, [], rfl, by simp⟩

/-! ## The ledger file -/

/-- The documents the ledger has an entry for. -/
def Parked (file : LedgerFile) (d : DocumentId) : Prop :=
  ∃ e ∈ file.entries, e.documentId = d

/-- Parking one entry adds its document and keeps the others. -/
theorem exists_parkOne :
    (∃ e ∈ LedgerFile.parkOne ledger entry, e.documentId = d) ↔
      (∃ e ∈ ledger, e.documentId = d) ∨ entry.documentId = d := by
  unfold LedgerFile.parkOne
  split
  · rename_i hthere
    simp only [List.mem_map]
    constructor
    · rintro ⟨_, ⟨e, he, rfl⟩, hd⟩
      refine Or.inl ⟨e, he, ?_⟩
      split at hd <;> exact hd
    · rintro (⟨e, he, rfl⟩ | rfl)
      · refine ⟨_, ⟨e, he, rfl⟩, ?_⟩
        split <;> rfl
      · obtain ⟨e, he, hsame⟩ := hthere
        refine ⟨_, ⟨e, he, rfl⟩, ?_⟩
        rw [if_pos hsame]
        exact hsame
  · simp [or_and_right, exists_or]

theorem parked_parkRetractions {file : LedgerFile} {parked : List ParkedEntry} :
    Parked (file.parkRetractions parked) d ↔
      Parked file d ∨ ∃ e ∈ parked, e.documentId = d := by
  have hfold : ∀ ledger : List ParkedEntry,
      (∃ e ∈ parked.foldl LedgerFile.parkOne ledger, e.documentId = d) ↔
        (∃ e ∈ ledger, e.documentId = d) ∨ ∃ e ∈ parked, e.documentId = d := by
    induction parked with
    | nil => simp
    | cons entry parked ih =>
      intro ledger
      rw [List.foldl_cons, ih, exists_parkOne]
      simp [or_assoc]
  unfold LedgerFile.parkRetractions Parked
  split
  · rename_i hempty
    rw [List.isEmpty_iff.mp hempty]
    cases file <;> simp [LedgerFile.entries]
  · exact hfold file.entries

theorem parked_unparkDelivered {file : LedgerFile} {ids : List DocumentId} :
    Parked (file.unparkDelivered ids) d ↔ Parked file d ∧ d ∉ ids := by
  unfold LedgerFile.unparkDelivered Parked
  dsimp only
  split
  · rename_i hlength
    rw [List.length_filter_eq_length_iff] at hlength
    constructor
    · rintro ⟨e, he, rfl⟩
      exact ⟨⟨e, he, rfl⟩, of_decide_eq_true (hlength e he)⟩
    · exact And.left
  · simp only [LedgerFile.entries, List.mem_filter, decide_eq_true_eq]
    constructor
    · rintro ⟨e, ⟨he, hids⟩, rfl⟩
      exact ⟨⟨e, he, rfl⟩, hids⟩
    · rintro ⟨⟨e, he, rfl⟩, hids⟩
      exact ⟨e, ⟨he, hids⟩, rfl⟩

/-! ## Nothing noted is lost -/

/-- The cycle in memory. -/
def cycleOf : DrivePhase → Option DriveCycle
  | .idle => none
  | .preDrain _ _ _ cycle => some cycle
  | .delivering cycle => some cycle
  | .unparking cycle => some cycle
  | .parking cycle => some cycle
  | .postDrain _ _ _ cycle => some cycle
  | .saving cycle => some cycle

/-- A note of the running cycle may still rest in its own list; that of a cycle which has
stopped will be polled again. -/
def Open : DrivePhase → DocumentId → Prop
  | .idle, _ => True
  | .delivering cycle, d => ∃ e ∈ cycle.parked, e.documentId = d
  | .unparking cycle, d => ∃ e ∈ cycle.parked, e.documentId = d
  | .parking cycle, d => ∃ e ∈ cycle.parked, e.documentId = d
  | _, _ => False

/-- The phase is one of the two drains. -/
def Draining (phase : DrivePhase) (ledger todo remaining : List ParkedEntry)
    (cycle : DriveCycle) : Prop :=
  phase = .preDrain ledger todo remaining cycle ∨ phase = .postDrain ledger todo remaining cycle

theorem Draining.cycleOf_eq (h : Draining phase ledger todo remaining cycle) :
    cycleOf phase = some cycle := by
  rcases h with rfl | rfl <;> rfl

theorem Draining.not_open (h : Draining phase ledger todo remaining cycle) (d : DocumentId) :
    ¬ Open phase d := by
  rcases h with rfl | rfl <;> exact id

theorem Draining.unique {ledger' todo' remaining' : List ParkedEntry} {cycle' : DriveCycle}
    (h : Draining phase ledger todo remaining cycle)
    (h' : Draining phase ledger' todo' remaining' cycle') :
    ledger' = ledger ∧ todo' = todo ∧ remaining' = remaining ∧ cycle' = cycle := by
  rcases h with rfl | rfl <;> rcases h' with h' | h' <;> cases h' <;> exact ⟨rfl, rfl, rfl, rfl⟩

/-- Every note is answered, or parked, or not passed by the cursor. -/
def NotesKept (w : DriveWorld) : Prop :=
  ∀ pre d rest, w.log = pre ++ .noted d :: rest →
    Answered d rest ∨ Parked w.ledger d ∨ (¬ Passed rest ∧ (.polled ∉ rest → Open w.phase d))

/-- Every note of the document came before the entry `x` of the record. -/
def NotesBefore (log : List DriveLog) (d : DocumentId) (x : DriveLog) : Prop :=
  ∀ pre rest, log = pre ++ .noted d :: rest → x ∈ rest

theorem NotesBefore.append {y : DriveLog} (h : NotesBefore log d x) (hy : y ≠ .noted d) :
    NotesBefore (log ++ [y]) d x := by
  intro pre rest hsplit
  rcases split_concat hsplit with ⟨_, hnew, _⟩ | ⟨older, rfl, hold⟩
  · exact absurd hnew hy
  · exact List.mem_append_left _ (h pre older hold)

theorem notesBefore_concat (hx : x ≠ .noted d) (log : List DriveLog) :
    NotesBefore (log ++ [x]) d x := by
  intro pre rest hsplit
  rcases split_concat hsplit with ⟨_, hnew, _⟩ | ⟨older, rfl, _⟩
  · exact absurd hnew hx
  · exact List.mem_append_right _ (List.mem_singleton_self _)

/-- A drain has not dropped anything: what is in the ledger is still to be posted, was
refused, or has been acknowledged. A drain that posts nothing has read nothing. -/
def DrainKept (w : DriveWorld) (ledger todo remaining : List ParkedEntry) : Prop :=
  (ledger = [] ∧ todo = [] ∧ remaining = []) ∨
    ∀ e ∈ w.ledger.entries, e ∈ todo ∨ e ∈ remaining ∨
      NotesBefore w.log e.documentId (.posted e.documentId true)

/-- What the steps of a cycle keep of the notes, as long as no write is torn. -/
structure Kept (w : DriveWorld) : Prop where
  notes : NotesKept w
  drain : ∀ ledger todo remaining cycle, Draining w.phase ledger todo remaining cycle →
    DrainKept w ledger todo remaining
  delivered : ∀ cycle ∈ cycleOf w.phase, ∀ d ∈ cycle.deliveredIds,
    NotesBefore w.log d (.delivered d)

/-- A step that writes the ledger and adds nothing to the record. -/
theorem NotesKept.write (h : NotesKept w) (hlog : w'.log = w.log)
    (hledger : ∀ d, Parked w.ledger d → Parked w'.ledger d ∨
      NotesBefore w.log d (.posted d true) ∨ NotesBefore w.log d (.delivered d))
    (hopen : ∀ d, Open w.phase d → Open w'.phase d ∨ Parked w'.ledger d) : NotesKept w' := by
  intro pre d rest hsplit
  rw [hlog] at hsplit
  rcases h pre d rest hsplit with hanswered | hparked | ⟨hpassed, hheld⟩
  · exact Or.inl hanswered
  · rcases hledger d hparked with hparked | hacknowledged | hsuperseded
    · exact Or.inr (Or.inl hparked)
    · exact Or.inl (Or.inl (hacknowledged pre rest hsplit))
    · exact Or.inl (Or.inr (hsuperseded pre rest hsplit))
  · by_cases hpolled : .polled ∈ rest
    · exact Or.inr (Or.inr ⟨hpassed, fun hnot => absurd hpolled hnot⟩)
    · rcases hopen d (hheld hpolled) with hopen | hparked
      · exact Or.inr (Or.inr ⟨hpassed, fun _ => hopen⟩)
      · exact Or.inr (Or.inl hparked)

/-- A step that adds one entry to the record and leaves the ledger as it is. -/
theorem NotesKept.append (h : NotesKept w) (hlog : w'.log = w.log ++ [x])
    (hledger : w'.ledger = w.ledger) (hnew : ∀ d, x = .noted d → Open w'.phase d)
    (hopen : ∀ d, Open w.phase d → Open w'.phase d ∨ x = .delivered d ∨ x = .polled)
    (hsaved : x = .saved → ∀ d, ¬ Open w.phase d) : NotesKept w' := by
  intro pre d rest hsplit
  rw [hlog] at hsplit
  rw [hledger]
  rcases split_concat hsplit with ⟨_, hx, rfl⟩ | ⟨older, rfl, hold⟩
  · right
    right
    refine ⟨?_, fun _ => hnew d hx⟩
    rintro ⟨mid, post, hnil, _⟩
    exact absurd hnil (by simp)
  · rcases h pre d older hold with hanswered | hparked | ⟨hpassed, hheld⟩
    · exact Or.inl (hanswered.append x)
    · exact Or.inr (Or.inl hparked)
    · have hpassed' : ¬ Passed (older ++ [x]) := by
        intro hpass
        rcases passed_of_append hpass with hpass | ⟨hx, hpolled⟩
        · exact hpassed hpass
        · exact hsaved hx d (hheld hpolled)
      by_cases hpolled : .polled ∈ older ++ [x]
      · exact Or.inr (Or.inr ⟨hpassed', fun hnot => absurd hpolled hnot⟩)
      · rw [List.mem_append, List.mem_singleton, not_or] at hpolled
        rcases hopen d (hheld hpolled.1) with hopen | hdelivered | hx
        · exact Or.inr (Or.inr ⟨hpassed', fun _ => hopen⟩)
        · exact Or.inl (Or.inr (List.mem_append_right _ (by rw [hdelivered]; simp)))
        · exact absurd hx.symm hpolled.2

theorem DrainKept.post (h : DrainKept w ledger (entry :: todo) remaining) (accepted : Bool)
    (hledger : w'.ledger = w.ledger)
    (hlog : w'.log = w.log ++ [.posted entry.documentId accepted]) :
    DrainKept w' ledger todo (DriveWorld.postRetraction entry accepted remaining) := by
  rcases h with ⟨_, hnil, _⟩ | h
  · exact absurd hnil (by simp)
  · right
    intro e he
    rw [hledger] at he
    rw [hlog]
    unfold DriveWorld.postRetraction
    rcases h e he with htodo | hremaining | hbefore
    · rcases List.mem_cons.mp htodo with rfl | htodo
      · cases accepted with
        | true => exact Or.inr (Or.inr (notesBefore_concat (by simp) _))
        | false => exact Or.inr (Or.inl (by simp))
      · exact Or.inl htodo
    · refine Or.inr (Or.inl ?_)
      split
      · exact hremaining
      · exact List.mem_append_left _ hremaining
    · exact Or.inr (Or.inr (hbefore.append (by simp)))

/-- At the end of a drain, what leaves the ledger has been acknowledged. -/
theorem DrainKept.parked (h : DrainKept w ledger [] remaining) (hd : Parked w.ledger d) :
    Parked (w.ledger.writeRemaining ledger remaining) d ∨
      NotesBefore w.log d (.posted d true) := by
  unfold LedgerFile.writeRemaining
  split
  · exact Or.inl hd
  · rename_i hlength
    rcases h with ⟨rfl, _, rfl⟩ | h
    · exact absurd rfl hlength
    · obtain ⟨e, he, rfl⟩ := hd
      rcases h e he with hnil | hremaining | hbefore
      · exact absurd hnil List.not_mem_nil
      · exact Or.inl ⟨e, hremaining, rfl⟩
      · exact Or.inr hbefore

/-- A drain sets out with the whole ledger, or with nothing. -/
theorem drainKept_toDrain (w : DriveWorld) : DrainKept w w.toDrain w.toDrain [] := by
  unfold DriveWorld.toDrain
  split
  · exact Or.inr fun e he => Or.inl he
  · exact Or.inl ⟨rfl, rfl, rfl⟩

theorem mem_toDrain {e : ParkedEntry} (he : e ∈ w.toDrain) : e ∈ w.ledger.entries := by
  unfold DriveWorld.toDrain at he
  split at he
  · exact he
  · exact absurd he List.not_mem_nil

/-- A delivery loses no noted removal. -/
theorem Kept.deliverNext {event : DriveEvent} {rest : List DriveEvent} (h : Kept w)
    (hphase : w.phase = .delivering cycle) (accepted : Bool) :
    Kept (w.deliverNext cycle event rest accepted) := by
  have hdelivered := h.delivered cycle (by rw [hphase]; rfl)
  unfold DriveWorld.deliverNext
  split
  · -- a retraction is noted
    refine ⟨?_, by simp [Draining], ?_⟩
    · refine h.notes.append rfl rfl ?_ ?_ ?_
      · intro d hd
        cases hd
        exact ⟨parkedEntry event, by simp, rfl⟩
      · intro d hopen
        rw [hphase] at hopen
        obtain ⟨e, he, hd⟩ := hopen
        exact Or.inl ⟨e, List.mem_append_left _ he, hd⟩
      · simp
    · intro cycle' hcycle' d hd
      obtain rfl := Option.some.inj hcycle'
      obtain ⟨hd, hne⟩ := List.mem_filter.mp hd
      refine (hdelivered d hd).append ?_
      intro hnoted
      cases hnoted
      simp at hne
  · split
    · -- a body is delivered
      refine ⟨?_, by simp [Draining], ?_⟩
      · refine h.notes.append rfl rfl ?_ ?_ ?_
        · simp
        · intro d hopen
          rw [hphase] at hopen
          obtain ⟨e, he, rfl⟩ := hopen
          by_cases hsame : e.documentId = event.documentId
          · exact Or.inr (Or.inl (by rw [hsame]))
          · exact Or.inl ⟨e, List.mem_filter.mpr ⟨he, by simpa using hsame⟩, rfl⟩
        · simp
      · intro cycle' hcycle' d hd
        obtain rfl := Option.some.inj hcycle'
        rcases List.mem_cons.mp hd with rfl | hd
        · exact notesBefore_concat (by simp) _
        · exact (hdelivered d hd).append (by simp)
    · -- the delivery is refused, and the cycle over
      refine ⟨?_, by simp [Draining], by simp [cycleOf]⟩
      refine h.notes.write rfl ?_ ?_
      · exact fun d hd => Or.inl hd
      · exact fun d _ => Or.inl trivial

/-- One entry of a drain is posted. -/
theorem Kept.posted (h : Kept w) (hphase : Draining w.phase ledger (entry :: todo) remaining cycle)
    (hlog : w'.log = w.log ++ [.posted entry.documentId accepted]) (hledger : w'.ledger = w.ledger)
    (hphase' : Draining w'.phase ledger todo
      (DriveWorld.postRetraction entry accepted remaining) cycle) : Kept w' where
  notes := by
    refine h.notes.append hlog hledger (by simp) ?_ (by simp)
    intro d hopen
    exact absurd hopen (hphase.not_open d)
  drain := by
    intro ledger' todo' remaining' cycle' hdraining
    obtain ⟨rfl, rfl, rfl, rfl⟩ := hphase'.unique hdraining
    exact (h.drain _ _ _ _ hphase).post accepted hledger hlog
  delivered := by
    intro cycle' hcycle' d hd
    rw [hphase'.cycleOf_eq] at hcycle'
    obtain rfl := Option.some.inj hcycle'
    rw [hlog]
    exact (h.delivered cycle hphase.cycleOf_eq d hd).append (by simp)

/-- A drain is over, and what was refused is written back. -/
theorem Kept.drained (h : Kept w) (hphase : Draining w.phase ledger [] remaining cycle)
    (hlog : w'.log = w.log) (hledger : w'.ledger = w.ledger.writeRemaining ledger remaining)
    (hphase' : w'.phase = .delivering cycle ∨ w'.phase = .saving cycle) : Kept w' where
  notes := by
    refine h.notes.write hlog ?_ ?_
    · intro d hd
      rw [hledger]
      rcases (h.drain _ _ _ _ hphase).parked hd with hparked | hbefore
      · exact Or.inl hparked
      · exact Or.inr (Or.inl hbefore)
    · intro d hopen
      exact absurd hopen (hphase.not_open d)
  drain := by
    rcases hphase' with hphase' | hphase' <;> simp [hphase', Draining]
  delivered := by
    intro cycle' hcycle'
    have hcycle : cycleOf w'.phase = some cycle := by
      rcases hphase' with hphase' | hphase' <;> rw [hphase'] <;> rfl
    rw [hcycle] at hcycle'
    obtain rfl := Option.some.inj hcycle'
    rw [hlog]
    exact h.delivered cycle hphase.cycleOf_eq

/-- A step of a cycle loses no noted removal. -/
theorem Kept.advance (h : Kept w) (hstep : w.advance accepted = some w') : Kept w' := by
  unfold DriveWorld.advance at hstep
  split at hstep
  · exact absurd hstep (by simp)
  · rename_i hphase
    cases hstep
    exact h.posted (Or.inl hphase) rfl rfl (Or.inl rfl)
  · rename_i hphase
    cases hstep
    exact h.drained (Or.inl hphase) rfl rfl (Or.inl rfl)
  · rename_i cycle hphase
    split at hstep
    · cases hstep
      exact h.deliverNext hphase accepted
    · cases hstep
      refine ⟨h.notes.write rfl (fun d hd => Or.inl hd) ?_, by simp [Draining], ?_⟩
      · intro d hopen
        rw [hphase] at hopen
        exact Or.inl hopen
      · intro cycle' hcycle'
        obtain rfl := Option.some.inj hcycle'
        exact h.delivered cycle (by rw [hphase]; rfl)
  · rename_i cycle hphase
    cases hstep
    have hdelivered := h.delivered cycle (by rw [hphase]; rfl)
    refine ⟨?_, by simp [Draining], ?_⟩
    · refine h.notes.write rfl ?_ ?_
      · intro d hd
        by_cases hids : d ∈ cycle.deliveredIds
        · exact Or.inr (Or.inr (hdelivered d hids))
        · exact Or.inl (parked_unparkDelivered.mpr ⟨hd, hids⟩)
      · intro d hopen
        rw [hphase] at hopen
        exact Or.inl hopen
    · intro cycle' hcycle'
      obtain rfl := Option.some.inj hcycle'
      exact hdelivered
  · rename_i cycle hphase
    cases hstep
    refine ⟨?_, ?_, ?_⟩
    · refine h.notes.write rfl ?_ ?_
      · exact fun d hd => Or.inl (parked_parkRetractions.mpr (Or.inl hd))
      · intro d hopen
        rw [hphase] at hopen
        exact Or.inr (parked_parkRetractions.mpr (Or.inr hopen))
    · rintro ledger' todo' remaining' cycle' (hsame | hsame)
      · exact absurd hsame (by simp)
      · cases hsame
        exact drainKept_toDrain _
    · intro cycle' hcycle'
      obtain rfl := Option.some.inj hcycle'
      exact h.delivered cycle (by rw [hphase]; rfl)
  · rename_i hphase
    cases hstep
    exact h.posted (Or.inr hphase) rfl rfl (Or.inr rfl)
  · rename_i hphase
    cases hstep
    exact h.drained (Or.inr hphase) rfl rfl (Or.inr rfl)
  · rename_i cycle hphase
    cases hstep
    refine ⟨?_, by simp [Draining], by simp [cycleOf]⟩
    exact h.notes.append rfl rfl (by simp) (by simp [hphase, Open]) (by simp [hphase, Open])

theorem kept_start (canRetire : Bool) : Kept (.start canRetire) where
  notes := by
    intro pre d rest hsplit
    exact absurd hsplit (by simp [DriveWorld.start])
  drain := by simp [DriveWorld.start, Draining]
  delivered := by simp [DriveWorld.start, cycleOf]

/-- A cycle that is over leaves its notes to the next poll of the same window. -/
theorem Kept.idle (h : Kept w) (hlog : w'.log = w.log) (hledger : w'.ledger = w.ledger)
    (hphase : w'.phase = .idle) : Kept w' where
  notes := by
    refine h.notes.write hlog ?_ ?_
    · intro d hd
      rw [hledger]
      exact Or.inl hd
    · intro d _
      rw [hphase]
      exact Or.inl trivial
  drain := by simp [hphase, Draining]
  delivered := by simp [hphase, cycleOf]

/-- No write of the ledger is cut short. A stop inside the write of the cursor does no harm. -/
def WritesWhole (w : DriveWorld) (o : DriveEventStep) : Prop :=
  o = .tear → ∃ cycle ∈ cycleOf w.phase, w.phase = .saving cycle

theorem Kept.step {o : DriveEventStep} (h : Kept w) (hwhole : WritesWhole w o)
    (hstep : w.step o = some w') : Kept w' := by
  cases o with
  | poll events nextCursor =>
    simp only [DriveWorld.step] at hstep
    split at hstep
    · rename_i henabled
      cases hstep
      refine ⟨?_, ?_, ?_⟩
      · exact h.notes.append rfl rfl (by simp) (by simp) (by simp)
      · rintro ledger todo remaining cycle (hsame | hsame)
        · cases hsame
          exact drainKept_toDrain _
        · exact absurd hsame (by simp)
      · intro cycle hcycle
        obtain rfl := Option.some.inj hcycle
        simp
    · exact absurd hstep (by simp)
  | advance accepted => exact h.advance hstep
  | stop =>
    cases hstep
    exact h.idle rfl rfl rfl
  | tear =>
    obtain ⟨cycle, _, hphase⟩ := hwhole rfl
    simp only [DriveWorld.step, DriveWorld.tear, hphase] at hstep
    cases hstep
    exact h.idle rfl rfl rfl

/-! ## Nothing is posted over newer content -/

/-- The documents delivered in this cycle that the ledger may still have an entry for. -/
def pendingUnpark : DrivePhase → List DocumentId
  | .delivering cycle => cycle.deliveredIds
  | .unparking cycle => cycle.deliveredIds
  | _ => []

/-- Whether the step ends the cycle before its time: a stop, or a delivery that fails. -/
def endsCycle (w : DriveWorld) : DriveEventStep → Bool
  | .stop => true
  | .advance accepted =>
    match w.phase with
    | .delivering cycle =>
      match cycle.events with
      | event :: _ => event.isIndexable && !accepted
      | [] => false
    | _ => false
  | _ => false

/-- A cycle that ends early has not delivered a document the ledger still has an entry for. -/
def StaleFree (w : DriveWorld) (o : DriveEventStep) : Prop :=
  endsCycle w o = true → ∀ e ∈ w.ledger.entries, e.documentId ∉ pendingUnpark w.phase

instance (w : DriveWorld) (o : DriveEventStep) : Decidable (StaleFree w o) :=
  inferInstanceAs (Decidable (endsCycle w o = true →
    ∀ e ∈ w.ledger.entries, e.documentId ∉ pendingUnpark w.phase))

/-- What is posted, parked, on its way to be posted or to be parked is the last that is known
of its document. -/
structure Fresh (w : DriveWorld) : Prop where
  posted : ∀ pre d acknowledged post, w.log = pre ++ .posted d acknowledged :: post →
    LastNoted d pre
  ledger : ∀ d, Parked w.ledger d → LastNoted d w.log ∨ d ∈ pendingUnpark w.phase
  drain : ∀ ledger todo remaining cycle, Draining w.phase ledger todo remaining cycle →
    ∀ e ∈ todo ++ remaining, LastNoted e.documentId w.log
  cycle : ∀ cycle ∈ cycleOf w.phase, ∀ e ∈ cycle.parked, LastNoted e.documentId w.log

/-- The record of posts after an entry that is none, or that is one of a document last noted. -/
theorem Fresh.posted_append (h : Fresh w)
    (hx : ∀ d acknowledged, x = .posted d acknowledged → LastNoted d w.log) :
    ∀ pre d acknowledged post, w.log ++ [x] = pre ++ .posted d acknowledged :: post →
      LastNoted d pre := by
  intro pre d acknowledged post hsplit
  rcases split_concat hsplit with ⟨rfl, hnew, _⟩ | ⟨older, _, hold⟩
  · exact hx d acknowledged hnew
  · exact h.posted pre d acknowledged older hold

theorem mem_postRetraction {e : ParkedEntry}
    (he : e ∈ DriveWorld.postRetraction entry accepted remaining) : e ∈ remaining ∨ e = entry := by
  unfold DriveWorld.postRetraction at he
  split at he
  · exact Or.inl he
  · rcases List.mem_append.mp he with he | he
    · exact Or.inl he
    · exact Or.inr (List.mem_singleton.mp he)

/-- One entry of a drain is posted. -/
theorem lastNoted_post (h : ∀ e ∈ entry :: todo ++ remaining, LastNoted e.documentId log) :
    ∀ e ∈ todo ++ DriveWorld.postRetraction entry accepted remaining,
      LastNoted e.documentId (log ++ [.posted entry.documentId accepted]) := by
  intro e he
  refine (h e ?_).append (by simp)
  rcases List.mem_append.mp he with he | he
  · exact List.mem_append_left _ (List.mem_cons_of_mem _ he)
  · rcases mem_postRetraction he with he | rfl
    · exact List.mem_append_right _ he
    · exact List.mem_append_left _ List.mem_cons_self

/-- A drain that is over has put back only what it had read. -/
theorem lastNoted_writeRemaining (hledger : ∀ d, Parked w.ledger d → LastNoted d w.log)
    (hremaining : ∀ e ∈ remaining, LastNoted e.documentId w.log)
    (hd : Parked (w.ledger.writeRemaining ledger remaining) d) : LastNoted d w.log := by
  unfold LedgerFile.writeRemaining at hd
  split at hd
  · exact hledger d hd
  · obtain ⟨e, he, rfl⟩ := hd
    exact hremaining e he

theorem Draining.pendingUnpark_eq (h : Draining phase ledger todo remaining cycle) :
    pendingUnpark phase = [] := by
  rcases h with rfl | rfl <;> rfl

/-- Where nothing waits to be unparked, the whole ledger is fresh. -/
theorem Fresh.lastNoted (h : Fresh w) (hd : Parked w.ledger d)
    (hpending : d ∉ pendingUnpark w.phase) : LastNoted d w.log :=
  (h.ledger d hd).resolve_right hpending

/-- One entry of a drain is posted. -/
theorem Fresh.post (h : Fresh w) (hphase : Draining w.phase ledger (entry :: todo) remaining cycle)
    (hlog : w'.log = w.log ++ [.posted entry.documentId accepted]) (hledger : w'.ledger = w.ledger)
    (hphase' : Draining w'.phase ledger todo
      (DriveWorld.postRetraction entry accepted remaining) cycle) : Fresh w' where
  posted := by
    rw [hlog]
    apply h.posted_append
    intro d acknowledged hx
    cases hx
    exact h.drain _ _ _ _ hphase entry (by simp)
  ledger := by
    intro d hd
    rw [hledger] at hd
    rw [hlog]
    exact Or.inl ((h.lastNoted hd (by rw [hphase.pendingUnpark_eq]; simp)).append (by simp))
  drain := by
    intro ledger' todo' remaining' cycle' hdraining
    obtain ⟨rfl, rfl, rfl, rfl⟩ := hphase'.unique hdraining
    rw [hlog]
    exact lastNoted_post (h.drain _ _ _ _ hphase)
  cycle := by
    intro cycle' hcycle' e he
    rw [hphase'.cycleOf_eq] at hcycle'
    obtain rfl := Option.some.inj hcycle'
    rw [hlog]
    exact (h.cycle cycle hphase.cycleOf_eq e he).append (by simp)

/-- A step that posts nothing and adds nothing to the record: what it parks must be fresh. -/
theorem Fresh.write (h : Fresh w) (hlog : w'.log = w.log)
    (hledger : ∀ d, Parked w'.ledger d → LastNoted d w.log ∨ d ∈ pendingUnpark w'.phase)
    (hdrain : ∀ ledger todo remaining cycle, Draining w'.phase ledger todo remaining cycle →
      ∀ e ∈ todo ++ remaining, LastNoted e.documentId w.log)
    (hcycle : ∀ cycle ∈ cycleOf w'.phase, cycle ∈ cycleOf w.phase) : Fresh w' where
  posted := by
    rw [hlog]
    exact h.posted
  ledger := by
    rw [hlog]
    exact hledger
  drain := by
    rw [hlog]
    exact hdrain
  cycle := by
    intro cycle' hcycle'
    rw [hlog]
    exact h.cycle cycle' (hcycle cycle' hcycle')

/-- A drain is over, and what was refused is written back. -/
theorem Fresh.drained (h : Fresh w) (hphase : Draining w.phase ledger [] remaining cycle)
    (hlog : w'.log = w.log) (hledger : w'.ledger = w.ledger.writeRemaining ledger remaining)
    (hphase' : w'.phase = .delivering cycle ∨ w'.phase = .saving cycle) : Fresh w' := by
  refine h.write hlog ?_ ?_ ?_
  · intro d hd
    rw [hledger] at hd
    refine Or.inl (lastNoted_writeRemaining ?_ ?_ hd)
    · exact fun d hd => h.lastNoted hd (by rw [hphase.pendingUnpark_eq]; simp)
    · exact fun e he => h.drain _ _ _ _ hphase e (List.mem_append_right _ he)
  · rcases hphase' with hphase' | hphase' <;> simp [hphase', Draining]
  · rw [hphase.cycleOf_eq]
    rcases hphase' with hphase' | hphase' <;> simp [hphase', cycleOf]

/-- A cycle is over: what the ledger holds is fresh if nothing was waiting to be unparked. -/
theorem Fresh.idle (h : Fresh w) (hlog : w'.log = w.log)
    (hledger : ∀ d, Parked w'.ledger d → Parked w.ledger d ∧ d ∉ pendingUnpark w.phase)
    (hphase : w'.phase = .idle) : Fresh w' := by
  refine h.write hlog ?_ (by simp [hphase, Draining]) (by simp [hphase, cycleOf])
  intro d hd
  obtain ⟨hparked, hpending⟩ := hledger d hd
  exact Or.inl (h.lastNoted hparked hpending)

/-- A delivery that is not stale keeps the ledger fresh. -/
theorem Fresh.deliverNext {event : DriveEvent} {rest : List DriveEvent} (h : Fresh w)
    (hphase : w.phase = .delivering cycle) (hevents : cycle.events = event :: rest)
    (hstale : StaleFree w (.advance accepted)) :
    Fresh (w.deliverNext cycle event rest accepted) := by
  have hparked := h.cycle cycle (by rw [hphase]; rfl)
  have hledger := h.ledger
  rw [hphase] at hledger
  unfold DriveWorld.deliverNext
  split
  · -- the note is the newest of its document
    refine ⟨h.posted_append (by simp), ?_, by simp [Draining], ?_⟩
    · intro d hd
      by_cases hsame : d = event.documentId
      · subst hsame
        exact Or.inl (lastNoted_concat _ _)
      · rcases hledger d hd with hlast | hpending
        · exact Or.inl (hlast.append (by simp))
        · exact Or.inr (List.mem_filter.mpr ⟨hpending, by simpa using hsame⟩)
    · intro cycle' hcycle' e he
      obtain rfl := Option.some.inj hcycle'
      rcases List.mem_append.mp he with he | he
      · exact (hparked e he).append (by simp)
      · obtain rfl := List.mem_singleton.mp he
        exact lastNoted_concat _ _
  · split
    · -- the delivery is newer than the ledger's entry, which now waits to be unparked
      refine ⟨h.posted_append (by simp), ?_, by simp [Draining], ?_⟩
      · intro d hd
        by_cases hsame : d = event.documentId
        · exact Or.inr (by rw [hsame]; exact List.mem_cons_self)
        · rcases hledger d hd with hlast | hpending
          · exact Or.inl (hlast.append (by simpa using fun h => hsame h.symm))
          · exact Or.inr (List.mem_cons_of_mem _ hpending)
      · intro cycle' hcycle' e he
        obtain rfl := Option.some.inj hcycle'
        obtain ⟨he, hne⟩ := List.mem_filter.mp he
        refine (hparked e he).append ?_
        simpa using fun h => of_decide_eq_true hne h.symm
    · rename_i hindexable haccepted
      have hends : endsCycle w (.advance accepted) = true := by
        simp only [Bool.not_eq_true, Bool.not_eq_false'] at hindexable haccepted
        simp [endsCycle, hphase, hevents, hindexable, haccepted]
      refine h.idle rfl ?_ rfl
      rintro d ⟨e, he, rfl⟩
      exact ⟨⟨e, he, rfl⟩, hstale hends e he⟩

/-- A step that is not stale keeps the ledger fresh. -/
theorem Fresh.advance (h : Fresh w) (hstale : StaleFree w (.advance accepted))
    (hstep : w.advance accepted = some w') : Fresh w' := by
  unfold DriveWorld.advance at hstep
  split at hstep
  · exact absurd hstep (by simp)
  · rename_i hphase
    cases hstep
    exact h.post (Or.inl hphase) rfl rfl (Or.inl rfl)
  · rename_i hphase
    cases hstep
    exact h.drained (Or.inl hphase) rfl rfl (Or.inl rfl)
  · rename_i cycle hphase
    split at hstep
    · rename_i hevents
      cases hstep
      exact h.deliverNext hphase hevents hstale
    · cases hstep
      have hledger := h.ledger
      rw [hphase] at hledger
      exact h.write rfl hledger (by simp [Draining]) (by simp [hphase, cycleOf])
  · rename_i cycle hphase
    cases hstep
    refine h.write rfl ?_ (by simp [Draining]) (by simp [hphase, cycleOf])
    intro d hd
    obtain ⟨hparked, hdelivered⟩ := parked_unparkDelivered.mp hd
    exact Or.inl (h.lastNoted hparked (by rw [hphase]; exact hdelivered))
  · rename_i cycle hphase
    cases hstep
    have hledger : ∀ d, Parked (w.ledger.parkRetractions cycle.parked) d → LastNoted d w.log := by
      intro d hd
      rcases parked_parkRetractions.mp hd with hparked | ⟨e, he, rfl⟩
      · exact h.lastNoted hparked (by simp [hphase, pendingUnpark])
      · exact h.cycle cycle (by rw [hphase]; rfl) e he
    refine h.write rfl (fun d hd => Or.inl (hledger d hd)) ?_ (by simp [hphase, cycleOf])
    rintro ledger' todo' remaining' cycle' (hsame | hsame) e he
    · exact absurd hsame (by simp)
    · cases hsame
      rw [List.append_nil] at he
      exact hledger _ ⟨e, mem_toDrain he, rfl⟩
  · rename_i hphase
    cases hstep
    exact h.post (Or.inr hphase) rfl rfl (Or.inr rfl)
  · rename_i hphase
    cases hstep
    exact h.drained (Or.inr hphase) rfl rfl (Or.inr rfl)
  · rename_i cycle hphase
    cases hstep
    refine ⟨h.posted_append (by simp), ?_, by simp [Draining], by simp [cycleOf]⟩
    intro d hd
    exact Or.inl ((h.lastNoted hd (by simp [hphase, pendingUnpark])).append (by simp))

/-- A torn write of the ledger leaves nothing to post; a torn cursor leaves the ledger. -/
theorem Fresh.tear (h : Fresh w) (hstep : w.tear = some w') : Fresh w' := by
  have htorn : Fresh { w with ledger := .corrupt, phase := .idle } :=
    h.idle rfl (by simp [Parked, LedgerFile.entries]) rfl
  unfold DriveWorld.tear at hstep
  dsimp only at hstep
  split at hstep
  · split at hstep
    · exact absurd hstep (by simp)
    · cases hstep
      exact htorn
  · split at hstep
    · exact absurd hstep (by simp)
    · cases hstep
      exact htorn
  · split at hstep
    · exact absurd hstep (by simp)
    · cases hstep
      exact htorn
  · split at hstep
    · exact absurd hstep (by simp)
    · cases hstep
      exact htorn
  · rename_i hphase
    cases hstep
    exact h.idle rfl (fun d hd => ⟨hd, by simp [hphase, pendingUnpark]⟩) rfl
  · exact absurd hstep (by simp)

theorem Fresh.step {o : DriveEventStep} (h : Fresh w) (hstale : StaleFree w o)
    (hstep : w.step o = some w') : Fresh w' := by
  cases o with
  | poll events nextCursor =>
    simp only [DriveWorld.step] at hstep
    split at hstep
    · rename_i henabled
      cases hstep
      have hledger : ∀ d, Parked w.ledger d → LastNoted d (w.log ++ [.polled]) := by
        intro d hd
        exact (h.lastNoted hd (by simp [henabled.1, pendingUnpark])).append (by simp)
      refine ⟨h.posted_append (by simp), fun d hd => Or.inl (hledger d hd), ?_, ?_⟩
      · rintro ledger todo remaining cycle (hsame | hsame) e he
        · cases hsame
          rw [List.append_nil] at he
          exact hledger _ ⟨e, mem_toDrain he, rfl⟩
        · exact absurd hsame (by simp)
      · intro cycle hcycle
        obtain rfl := Option.some.inj hcycle
        simp
    · exact absurd hstep (by simp)
  | advance accepted => exact h.advance hstale hstep
  | stop =>
    cases hstep
    refine h.idle rfl ?_ rfl
    rintro d ⟨e, he, rfl⟩
    exact ⟨⟨e, he, rfl⟩, hstale rfl e he⟩
  | tear => exact h.tear hstep

theorem fresh_start (canRetire : Bool) : Fresh (.start canRetire) where
  posted := by simp [DriveWorld.start]
  ledger := by simp [DriveWorld.start, Parked, LedgerFile.entries]
  drain := by simp [DriveWorld.start, Draining]
  cycle := by simp [DriveWorld.start, cycleOf]

/-! ## Whole runs -/

/-- Over every run of polls, deliveries, retractions and stops: a removal that the cursor has
passed is acknowledged, or parked, or superseded by a later delivery, as long as no write of
the ledger is cut short; and a retraction is posted only where the last that is known of the
document is that it was removed, as long as no cycle ends early between the delivery of a
document and the step that takes it out of the ledger. -/
theorem retractions_kept_and_fresh {canRetire : Bool} {events : List DriveEventStep}
    {w : DriveWorld} (hrun : run DriveWorld.step (.start canRetire) events = some w) :
    (Along DriveWorld.step WritesWhole (.start canRetire) events →
      ∀ pre d rest, w.log = pre ++ .noted d :: rest → Passed rest →
        .posted d true ∈ rest ∨ .delivered d ∈ rest ∨ Parked w.ledger d) ∧
    (Along DriveWorld.step StaleFree (.start canRetire) events →
      ∀ pre d acknowledged post, w.log = pre ++ .posted d acknowledged :: post →
        LastNoted d pre) := by
  constructor
  · intro hwhole pre d rest hsplit hpassed
    have hkept : Kept w :=
      run_invariant (fun _ _ _ h hwhole hstep => h.step hwhole hstep) (kept_start canRetire)
        hwhole hrun
    rcases hkept.notes pre d rest hsplit with (hposted | hdelivered) | hparked | ⟨hopen, _⟩
    · exact Or.inl hposted
    · exact Or.inr (Or.inl hdelivered)
    · exact Or.inr (Or.inr hparked)
    · exact absurd hpassed hopen
  · intro hstale
    have hfresh : Fresh w :=
      run_invariant (fun _ _ _ h hstale hstep => h.step hstale hstep) (fresh_start canRetire)
        hstale hrun
    exact hfresh.posted

/-- A file is removed while the server refuses the retraction, and restored before it is
accepted. -/
def restoredFile : List DriveEventStep :=
  [.poll [⟨"f", true, true, []⟩] "c1", .advance true, .advance true, .advance true,
    .advance true, .advance true, .advance false, .advance true, .advance true,
    .poll [⟨"f", false, true, [1]⟩] "c2", .advance false, .advance true, .advance true,
    .advance true, .advance true, .advance true, .advance true, .advance true]

instance (w : DriveWorld) (o : DriveEventStep) : Decidable (WritesWhole w o) :=
  inferInstanceAs (Decidable (o = .tear → ∃ cycle ∈ cycleOf w.phase, w.phase = .saving cycle))

/-- The world after the file was restored: its entry is gone from the ledger. -/
def restoredWorld : DriveWorld where
  canRetire := true
  cursor := .saved "c2"
  ledger := .parsed []
  phase := .idle
  log := [.polled, .noted "f", .posted "f" false, .saved,
    .polled, .posted "f" false, .delivered "f", .saved]

/-- The removal that was noted is accounted for, since the restored file was delivered; until then
it was the last that was noted of the file. -/
theorem restored_file_kept_and_fresh :
    (.posted "f" true ∈ restoredWorld.log ∨ .delivered "f" ∈ restoredWorld.log ∨
      Parked restoredWorld.ledger "f") ∧
    LastNoted "f" [.polled, .noted "f", .posted "f" false, .saved, .polled] := by
  have hrun : run DriveWorld.step (.start true) restoredFile = some restoredWorld := by
    decide +kernel
  obtain ⟨hkept, hfresh⟩ := retractions_kept_and_fresh hrun
  constructor
  · rcases hkept (by decide +kernel) [.polled] "f"
        [.posted "f" false, .saved, .polled, .posted "f" false, .delivered "f", .saved] rfl
        ⟨[.posted "f" false], [.polled, .posted "f" false, .delivered "f", .saved], rfl, by simp⟩
      with hposted | hdelivered | hparked
    · exact Or.inl (List.mem_cons_of_mem _ (List.mem_cons_of_mem _ hposted))
    · exact Or.inr (Or.inl (List.mem_cons_of_mem _ (List.mem_cons_of_mem _ hdelivered)))
    · exact Or.inr (Or.inr hparked)
  · exact hfresh (by decide +kernel) [.polled, .noted "f", .posted "f" false, .saved, .polled]
      "f" false [.delivered "f", .saved] rfl

/-- The cursor has passed the removal, the server has not acknowledged it, and it is no longer
parked: the delivery of the restored file has taken its place. -/
theorem restored_removal_superseded :
    run DriveWorld.step (.start true) restoredFile = some restoredWorld ∧
    restoredWorld.log = [.polled] ++ .noted "f" ::
      [.posted "f" false, .saved, .polled, .posted "f" false, .delivered "f", .saved] ∧
    Passed [.posted "f" false, .saved, .polled, .posted "f" false, .delivered "f", .saved] ∧
    .posted "f" true ∉ restoredWorld.log ∧ ¬ Parked restoredWorld.ledger "f" := by
  refine ⟨by decide +kernel, rfl, ⟨[.posted "f" false], _, rfl, by simp⟩, by decide, ?_⟩
  rintro ⟨e, he, _⟩
  exact absurd he List.not_mem_nil

end Verity.Analysis
