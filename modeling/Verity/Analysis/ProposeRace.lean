import Verity.Analysis.KnowledgeLifecycle

/-!
# First proposals of one lesson

A live row for a statement keeps further ones out: a proposal that looks for a twin while it is
there gains it support. What no lookup sees is a row that is not yet committed. Two proposals that
both found no twin both insert. `Apart` is the condition on the inserts under which there is one
live row for a statement in every state, and without which there is not.
-/

set_option autoImplicit false

namespace Verity.Analysis

open Verity.Foundation
open Verity.Model
open Verity.Model.Database

variable {db : Database} {text : UnicodeText} {s : ProposeRace}

/-- A tenant has one live row for a statement at most. Rows are known by their id. -/
def NoClones (db : Database) : Prop :=
  ∀ k ∈ db.knowledge.rows, ∀ k' ∈ db.knowledge.rows, Live k.status → Live k'.status →
    k.tenantId = k'.tenantId → k.statement = k'.statement → k.id = k'.id

/-- When a clean proposal that found no twin inserts its row under a free id, no live row of the
tenant has been committed with its statement. -/
def Apart (s : ProposeRace) : ProposeEvent → Prop
  | .write m => m.twin = none → m.screened.leaked = none →
      m.screened.admitted.id ∉ s.db.knowledge.rows.map KnowledgeRow.id →
      ∀ k ∈ s.db.knowledge.rows, Live k.status →
        k.tenantId = m.screened.admitted.proposal.tenantId →
        k.statement ≠ m.screened.admitted.proposal.statement
  | _ => True

instance (db : Database) : Decidable (NoClones db) :=
  inferInstanceAs (Decidable (∀ k ∈ db.knowledge.rows, ∀ k' ∈ db.knowledge.rows, Live k.status →
    Live k'.status → k.tenantId = k'.tenantId → k.statement = k'.statement → k.id = k'.id))

instance decidableApart (s : ProposeRace) : (event : ProposeEvent) → Decidable (Apart s event)
  | .write m => inferInstanceAs (Decidable (m.twin = none → m.screened.leaked = none →
      m.screened.admitted.id ∉ s.db.knowledge.rows.map KnowledgeRow.id →
      ∀ k ∈ s.db.knowledge.rows, Live k.status →
        k.tenantId = m.screened.admitted.proposal.tenantId →
        k.statement ≠ m.screened.admitted.proposal.statement))
  | .lookRejected _ => isTrue trivial
  | .readEvidence _ => isTrue trivial
  | .lookTwin _ => isTrue trivial

/-! ## Writes -/

/-- What tells clones apart. -/
def cloneKey (k : KnowledgeRow) : KnowledgeId × TenantId × String × KnowledgeStatus :=
  (k.id, k.tenantId, k.statement, k.status)

theorem noClones_iff_keys : NoClones db ↔
    ∀ x ∈ db.knowledge.rows.map cloneKey, ∀ y ∈ db.knowledge.rows.map cloneKey,
      Live x.2.2.2 → Live y.2.2.2 → x.2.1 = y.2.1 → x.2.2.1 = y.2.2.1 → x.1 = y.1 := by
  simp only [List.forall_mem_map]
  rfl

theorem noClones_accrue (db : Database) (twin : KnowledgeRow) (categories : List String)
    (episodes : List Episode) : NoClones (db.accrue twin categories episodes) ↔ NoClones db := by
  have hkeys : (db.accrue twin categories episodes).knowledge.rows.map cloneKey =
      db.knowledge.rows.map cloneKey := map_updateWhere fun _ => rfl
  rw [noClones_iff_keys, noClones_iff_keys, hkeys]

/-- A row under a new id clones nothing exactly when it is not live or its statement has no live
row yet. -/
theorem noClones_insert {db' : Database} {new : KnowledgeRow}
    (hrows : db'.knowledge.rows = db.knowledge.rows ++ [new])
    (hfresh : new.id ∉ db.knowledge.rows.map KnowledgeRow.id) (h : NoClones db) :
    NoClones db' ↔ (Live new.status → ∀ k ∈ db.knowledge.rows, Live k.status →
      k.tenantId = new.tenantId → k.statement ≠ new.statement) := by
  have hnew : new ∈ db'.knowledge.rows := by
    rw [hrows]
    exact List.mem_append_right _ (List.mem_singleton_self new)
  constructor
  · intro hclean hlive k hk hklive htenant hstatement
    have hk' : k ∈ db'.knowledge.rows := by
      rw [hrows]
      exact List.mem_append_left _ hk
    have hid := hclean k hk' new hnew hklive hlive htenant hstatement
    exact hfresh (hid ▸ List.mem_map_of_mem hk)
  · intro hnone k hk k' hk' hlive hlive' htenant hstatement
    rw [hrows, List.mem_append, List.mem_singleton] at hk hk'
    rcases hk with hold | rfl
    · rcases hk' with hold' | rfl
      · exact h k hold k' hold' hlive hlive' htenant hstatement
      · exact absurd hstatement (hnone hlive' k hold hlive htenant)
    · rcases hk' with hold' | rfl
      · exact absurd hstatement.symm (hnone hlive k' hold' hlive' htenant.symm)
      · rfl

theorem insertKnowledge_of_fresh (text : UnicodeText) (now : Time) {id : KnowledgeId}
    {p : KnowledgeProposal} (leaked : Option String) (episodes : List Episode)
    (hfresh : id ∉ db.knowledge.rows.map KnowledgeRow.id) :
    ∃ db', db.insertKnowledge text now id p leaked episodes = .ok db' := by
  have hinsert : ∃ t, db.knowledge.insert
      (newKnowledge now id p leaked text (countEpisodes episodes)) = .ok t :=
    ⟨_, dif_neg hfresh⟩
  obtain ⟨t, ht⟩ := hinsert
  unfold Database.insertKnowledge
  rw [ht]
  exact ⟨_, rfl⟩

/-- A commit clones nothing exactly when its proposal does not insert a row beside a live one. -/
theorem noClones_commit (m : MatchedProposal) (h : NoClones s.db) :
    NoClones (ProposeRace.commit text s.db m) ↔ Apart s (.write m) := by
  unfold ProposeRace.commit
  dsimp only
  cases htwin : m.twin with
  | some twin =>
    refine (noClones_accrue s.db twin _ _).trans (iff_of_true h ?_)
    intro hnone
    rw [htwin] at hnone
    cases hnone
  | none =>
    dsimp only
    cases hinsert : s.db.insertKnowledge text m.screened.admitted.now m.screened.admitted.id
      m.screened.admitted.proposal m.screened.leaked m.screened.episodes with
    | error e =>
      refine iff_of_true h fun _ _ hfresh => ?_
      obtain ⟨db', hok⟩ := insertKnowledge_of_fresh text m.screened.admitted.now
        m.screened.leaked m.screened.episodes hfresh
      rw [hok] at hinsert
      cases hinsert
    | ok db' =>
      obtain ⟨hfresh, hrows, -, -⟩ := insertKnowledge_ok hinsert
      rw [noClones_insert hrows hfresh h]
      unfold Apart
      cases hleaked : m.screened.leaked with
      | some term =>
        -- a statement that names an entity is held back, and its row is not live
        refine iff_of_true (fun hlive => ?_) (fun _ hnone => ?_)
        · rcases hlive with hlive | hlive <;> cases hlive
        · rw [hleaked] at hnone
          cases hnone
      | none =>
        constructor
        · exact fun hclean _ _ _ => hclean (Or.inl rfl)
        · exact fun hclean _ => hclean htwin hleaked hfresh

/-! ## Runs -/

/-- The tables after a step: only a commit changes them. -/
def committed (text : UnicodeText) (db : Database) : ProposeEvent → Database
  | .write m => ProposeRace.commit text db m
  | _ => db

theorem db_step {s' : ProposeRace} {event : ProposeEvent}
    (hstep : ProposeRace.step text s event = some s') : s'.db = committed text s.db event := by
  unfold ProposeRace.step at hstep
  cases event with
  | lookRejected call =>
    dsimp only at hstep
    split at hstep
    · cases hstep
      rfl
    · cases hstep
      rfl
  | readEvidence _ | write _ =>
    dsimp only at hstep
    split at hstep
    · cases hstep
      rfl
    · cases hstep
  | lookTwin call =>
    dsimp only at hstep
    generalize (if call.leaked.isSome then none
      else s.db.twinOf call.admitted.proposal) = twin at hstep
    split at hstep
    · split at hstep
      · cases hstep
      · cases hstep
        rfl
    · cases hstep

/-- One step from a state without clones leads to one without clones exactly when it is apart. -/
theorem noClones_step_iff {s' : ProposeRace} {event : ProposeEvent} (h : NoClones s.db)
    (hstep : ProposeRace.step text s event = some s') : NoClones s'.db ↔ Apart s event := by
  have hdb := db_step hstep
  cases event with
  | lookRejected _ | readEvidence _ | lookTwin _ => exact iff_of_true (hdb ▸ h) trivial
  | write m =>
    rw [hdb]
    exact noClones_commit m h

/-- In every state of an interleaving of proposals there is one live row for a statement, exactly
when no insert comes after the commit of a live row with its statement. -/
theorem noClones_iff (text : UnicodeText) {db₀ : Database} (h₀ : NoClones db₀)
    {events : List ProposeEvent} {s : ProposeRace}
    (hrun : run (ProposeRace.step text) (ProposeRace.start db₀) events = some s) :
    (∀ before after s₁, events = before ++ after →
      run (ProposeRace.step text) (ProposeRace.start db₀) before = some s₁ → NoClones s₁.db) ↔
      Along (ProposeRace.step text) Apart (ProposeRace.start db₀) events :=
  run_invariant_iff (I := fun _ => True) (G := fun s => NoClones s.db) (fun _ _ _ _ _ => trivial)
    (fun _ _ _ _ hclean hstep => noClones_step_iff hclean hstep) trivial h₀ hrun

/-! ## One after another -/

/-- A transaction that has taken its first three steps on the same tables. -/
def screenedAlone (text : UnicodeText) (db : Database) (call : AdmittedProposal) :
    ScreenedProposal where
  admitted := call
  episodes := db.proposalEpisodes call.proposal
  leaked := (db.lexicon call.proposal.tenantId).findSome?
    (leakedTerm text call.proposal.statement)

def matchedAlone (text : UnicodeText) (db : Database) (call : AdmittedProposal) :
    MatchedProposal where
  screened := screenedAlone text db call
  twin := if (screenedAlone text db call).leaked.isSome then none
    else db.twinOf call.proposal

/-- A lookup that finds no twin has seen that there is no live row with the statement. -/
theorem twinOf_eq_none {p : KnowledgeProposal} (h : db.twinOf p = none) :
    ∀ k ∈ db.knowledge.rows, Live k.status → k.tenantId = p.tenantId →
      k.statement ≠ p.statement := by
  intro k hk hlive htenant hstatement
  unfold Database.twinOf at h
  rw [List.head?_eq_none_iff] at h
  have hlength := congrArg List.length h
  rw [List.length_insertionSort] at hlength
  apply List.filter_eq_nil_iff.mp (List.eq_nil_of_length_eq_zero hlength) k hk
  rw [Bool.and_eq_true, Bool.or_eq_true]
  exact ⟨decide_eq_true ⟨htenant, hlive⟩, Or.inr (decide_eq_true hstatement)⟩

theorem apart_alone (text : UnicodeText) (s : ProposeRace) (call : AdmittedProposal) :
    Apart s (.write (matchedAlone text s.db call)) := by
  intro htwin hleaked _
  unfold matchedAlone at htwin hleaked
  dsimp only at htwin hleaked
  rw [hleaked] at htwin
  exact twinOf_eq_none htwin

/-- The last step of a transaction that nothing interleaves with is the rest of the call. -/
theorem commit_alone (text : UnicodeText) {call : AdmittedProposal}
    (hadmitted : db.rejectedBefore call.proposal = false) :
    ProposeRace.commit text db (matchedAlone text db call) =
      ((db.proposeKnowledge text call.now call.id call.proposal).map
        Prod.fst).toOption.getD db := by
  have hgate : ¬ db.rejectedBefore call.proposal = true := by
    rw [hadmitted]
    decide
  unfold ProposeRace.commit matchedAlone screenedAlone Database.proposeKnowledge
  rw [if_neg hgate]
  dsimp only
  cases hleaked : (db.lexicon call.proposal.tenantId).findSome?
      (leakedTerm text call.proposal.statement) with
  | some term =>
    dsimp only
    cases db.insertKnowledge text call.now call.id call.proposal (some term)
      (db.proposalEpisodes call.proposal) with
    | ok db' => rfl
    | error e => rfl
  | none =>
    cases htwin : db.twinOf call.proposal with
    | some twin => rfl
    | none =>
      cases db.insertKnowledge text call.now call.id call.proposal none
        (db.proposalEpisodes call.proposal) with
      | ok db' => rfl
      | error e => rfl

/-- The four steps with nothing in between. -/
def stepsAlone (text : UnicodeText) (db : Database) (call : AdmittedProposal) : List ProposeEvent :=
  [.lookRejected call, .readEvidence call, .lookTwin (screenedAlone text db call),
    .write (matchedAlone text db call)]

/-- They are the call. -/
theorem run_alone (text : UnicodeText) {call : AdmittedProposal}
    (hadmitted : db.rejectedBefore call.proposal = false) :
    run (ProposeRace.step text) (ProposeRace.start db) (stepsAlone text db call) =
      some (ProposeRace.start (((db.proposeKnowledge text call.now call.id
        call.proposal).map Prod.fst).toOption.getD db)) := by
  have hlook : ProposeRace.step text (ProposeRace.start db) (.lookRejected call) =
      some ⟨db, [call], [], []⟩ := by
    unfold ProposeRace.step ProposeRace.start
    dsimp only
    rw [hadmitted]
    rfl
  have hread : ProposeRace.step text ⟨db, [call], [], []⟩ (.readEvidence call) =
      some ⟨db, [], [screenedAlone text db call], []⟩ := by
    simp [ProposeRace.step, screenedAlone]
  have hmatch : ProposeRace.step text ⟨db, [], [screenedAlone text db call], []⟩
      (.lookTwin (screenedAlone text db call)) =
      some ⟨db, [], [], [matchedAlone text db call]⟩ := by
    have hfree : (matchedAlone text db call).twin.any
        (ProposeRace.locked ⟨db, [], [screenedAlone text db call], []⟩) = false := by
      cases (matchedAlone text db call).twin with
      | none => rfl
      | some twin => rfl
    have hunlocked : (if (matchedAlone text db call).twin.any
        (ProposeRace.locked ⟨db, [], [screenedAlone text db call], []⟩) then none
        else some (⟨db, [], [screenedAlone text db call].erase (screenedAlone text db call),
          [] ++ [matchedAlone text db call]⟩ : ProposeRace)) =
        some ⟨db, [], [], [matchedAlone text db call]⟩ := by
      rw [hfree]
      simp
    rw [← hunlocked]
    exact if_pos (List.mem_singleton_self _)
  have hwrite : ProposeRace.step text ⟨db, [], [], [matchedAlone text db call]⟩
      (.write (matchedAlone text db call)) = some (ProposeRace.start
        (((db.proposeKnowledge text call.now call.id call.proposal).map
          Prod.fst).toOption.getD db)) := by
    rw [← commit_alone text hadmitted]
    simp [ProposeRace.step, ProposeRace.start]
  simp only [stepsAlone, run, hlook, hread, hmatch, hwrite, Option.bind_some]

/-! ## Two first proposals -/

/-- Four customers' episodes, before any proposal. -/
def lessonEpisodes : Database :=
  { Database.empty with
    episodes := [lessonEpisode 1 "acme" "crm-agent", lessonEpisode 2 "globex" "crm-agent",
      lessonEpisode 3 "initech" "crm-agent", lessonEpisode 4 "umbrella" "mail-agent"] }

/-- Two agents propose the lesson, each with two customers behind it. -/
def firstProposal : AdmittedProposal := ⟨20, 7, { lesson with evidence := [1, 2] }⟩

def secondProposal : AdmittedProposal := ⟨21, 8, { lesson with evidence := [3, 4] }⟩

/-- Both look for a twin before either has written. -/
def lessonRace : List ProposeEvent :=
  let first := matchedAlone asciiLibraries.text lessonEpisodes firstProposal
  let second := matchedAlone asciiLibraries.text lessonEpisodes secondProposal
  [.lookRejected firstProposal, .lookRejected secondProposal,
    .readEvidence firstProposal, .readEvidence secondProposal,
    .lookTwin first.screened, .lookTwin second.screened, .write first, .write second]

/-- The lesson is cloned, with two customers behind each row. -/
theorem lesson_cloned :
    (run (ProposeRace.step asciiLibraries.text) (ProposeRace.start lessonEpisodes)
        lessonRace).map (fun s => (itemForms s.db, s.db.knowledge.rows.map fun k =>
          k.distinctEntities)) =
      some ([⟨7, lesson.statement, none, .candidate⟩, ⟨8, lesson.statement, none, .candidate⟩],
        [2, 2]) ∧
    (run (ProposeRace.step asciiLibraries.text) (ProposeRace.start lessonEpisodes)
        lessonRace).any (fun s => decide (¬ NoClones s.db)) = true := by
  decide +kernel

/-- The first proposal alone. -/
theorem lesson_not_cloned :
    ∃ s, run (ProposeRace.step asciiLibraries.text) (ProposeRace.start lessonEpisodes)
        (stepsAlone asciiLibraries.text lessonEpisodes firstProposal) = some s ∧
      ∀ before after s₁,
        stepsAlone asciiLibraries.text lessonEpisodes firstProposal = before ++ after →
        run (ProposeRace.step asciiLibraries.text) (ProposeRace.start lessonEpisodes) before =
          some s₁ → NoClones s₁.db := by
  have hadmitted : lessonEpisodes.rejectedBefore firstProposal.proposal = false := rfl
  have hempty : NoClones lessonEpisodes := fun _ hk => absurd hk List.not_mem_nil
  have hapart : Along (ProposeRace.step asciiLibraries.text) Apart
      (ProposeRace.start lessonEpisodes)
      (stepsAlone asciiLibraries.text lessonEpisodes firstProposal) := by
    decide +kernel
  have hrun := run_alone asciiLibraries.text hadmitted
  exact ⟨_, hrun, (noClones_iff asciiLibraries.text hempty hrun).mpr hapart⟩

end Verity.Analysis
