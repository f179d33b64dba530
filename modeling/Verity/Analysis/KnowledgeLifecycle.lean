import Mathlib.Logic.Relation
import Verity.Analysis.KnowledgeFloor

/-!
# The life of a knowledge item

An item keeps its id, its tenant, its statement and its canonical form for good, and its status
moves along `StatusMove` only. A new item starts as a candidate whose statement was screened, or in
quarantine. `lifecycle_curationStep` says so once for all calls. Two results rest on it.

A rejection is final, so a proposal that recalls a rejected item changes nothing
(`rejected_never_back`). What a proposal recalls an item by is its canonical form where it has one,
and only then its statement.
-/

set_option autoImplicit false

namespace Verity.Analysis

open Verity.Foundation
open Verity.Model
open Verity.Model.Database

variable {new : KnowledgeRow → Prop} {db db' : Database} {now : Time} {tenant : TenantId}
  {id : KnowledgeId} {k : KnowledgeRow} {text : UnicodeText} {statement : String}
  {lib : CurationLibraries}

/-! ## Statuses -/

/-- The status of an item that can be reinforced, rejected or published. -/
def Live (s : KnowledgeStatus) : Prop := s = .candidate ∨ s = .eligible

instance (s : KnowledgeStatus) : Decidable (Live s) :=
  inferInstanceAs (Decidable (s = .candidate ∨ s = .eligible))

/-- The moves the statements make. -/
inductive StatusMove : KnowledgeStatus → KnowledgeStatus → Prop
  | hold : StatusMove .candidate .eligible
  | reject {s : KnowledgeStatus} (h : Live s) : StatusMove s .rejected
  | publish {s : KnowledgeStatus} (h : Live s) : StatusMove s .published
  | retract : StatusMove .published .invalidated

/-- A rejection is final. -/
theorem rejected_final {s : KnowledgeStatus}
    (h : Relation.ReflTransGen StatusMove .rejected s) : s = .rejected := by
  rcases Relation.ReflTransGen.cases_head h with heq | ⟨s', hmove, -⟩
  · exact heq.symm
  · cases hmove with
    | reject hlive => rcases hlive with hlive | hlive <;> cases hlive
    | publish hlive => rcases hlive with hlive | hlive <;> cases hlive

/-- An item that is live has been so all along. -/
theorem live_of_reaches {s s' : KnowledgeStatus} (h : Relation.ReflTransGen StatusMove s s')
    (hlive : Live s') : Live s := by
  induction h with
  | refl => exact hlive
  | tail _ hmove ih =>
    apply ih
    cases hmove with
    | hold => exact Or.inl rfl
    | reject | publish | retract => rcases hlive with hlive | hlive <;> cases hlive

/-- The item later on. -/
structure Follows (k k' : KnowledgeRow) : Prop where
  id : k'.id = k.id
  tenantId : k'.tenantId = k.tenantId
  statement : k'.statement = k.statement
  canonicalStatement : k'.canonicalStatement = k.canonicalStatement
  status : Relation.ReflTransGen StatusMove k.status k'.status

theorem Follows.refl (k : KnowledgeRow) : Follows k k := ⟨rfl, rfl, rfl, rfl, .refl⟩

theorem Follows.trans (k k' k'' : KnowledgeRow) (h : Follows k k') (h' : Follows k' k'') :
    Follows k k'' where
  id := h'.id.trans h.id
  tenantId := h'.tenantId.trans h.tenantId
  statement := h'.statement.trans h.statement
  canonicalStatement := h'.canonicalStatement.trans h.canonicalStatement
  status := h.status.trans h'.status

/-! ## What a call does to the items -/

/-- The items after a call, and those it has added. -/
structure Lifecycle (new : KnowledgeRow → Prop) (db db' : Database) : Prop where
  forth : ∀ k ∈ db.knowledge.rows, ∃ k' ∈ db'.knowledge.rows, Follows k k'
  back : ∀ k' ∈ db'.knowledge.rows, (∃ k ∈ db.knowledge.rows, Follows k k') ∨ new k'

theorem Lifecycle.of_evolves (h : Evolves Follows db.knowledge.rows db'.knowledge.rows) :
    Lifecycle new db db' :=
  ⟨h.forth, fun k' hk' => Or.inl (h.back k' hk')⟩

theorem Lifecycle.of_knowledge_eq (h : db'.knowledge = db.knowledge) : Lifecycle new db db' := by
  apply Lifecycle.of_evolves
  rw [h]
  exact Evolves.refl Follows.refl _

theorem evolves_setSupport (db : Database) (kid : KnowledgeId) (distinct episodes : Nat) :
    Evolves Follows db.knowledge.rows (db.setSupport kid distinct episodes).knowledge.rows :=
  evolves_updateWhere Follows.refl fun _ _ _ => ⟨rfl, rfl, rfl, rfl, .refl⟩

theorem evolves_settleSupport (reason : String) (tenant : TenantId) (now : Time) (db : Database)
    (kid : KnowledgeId) :
    Evolves Follows db.knowledge.rows
      (settleSupport reason tenant now db kid).knowledge.rows := by
  have hset := evolves_setSupport db kid (recount db.evidence kid).distinctEntities
    (recount db.evidence kid).episodeCount
  have hretract : ∀ rows : List KnowledgeRow, Evolves Follows rows
      (updateWhere (retracts kid) (fun k => { k with
        status := .invalidated
        invalidatedAt := some now
        invalidatedReason := some reason }) rows) := by
    intro rows
    refine evolves_updateWhere Follows.refl fun k _ hk => ⟨rfl, rfl, rfl, rfl, ?_⟩
    have hpublished : k.status = .published := (of_decide_eq_true hk).2
    rw [hpublished]
    exact .single .retract
  unfold settleSupport
  dsimp only
  split
  · split
    · exact hset.trans Follows.trans (hretract _)
    · exact hset.trans Follows.trans (hretract _)
  · exact hset

theorem evolves_foldl_withdrawSupport (tenant : TenantId) (episodeId : EpisodeId) (now : Time)
    (kids : List KnowledgeId) (db : Database) :
    Evolves Follows db.knowledge.rows
      (kids.foldl (withdrawSupport tenant episodeId now) db).knowledge.rows := by
  refine evolves_foldl Follows.refl Follows.trans (fun db : Database => db.knowledge.rows) ?_
    kids db
  intro db kid
  have hturn := evolves_settleSupport "support_withdrawn" tenant now { db with
    evidence := deleteWhere (fun e => decide (e.knowledgeId = kid ∧ e.episodeId = episodeId))
      db.evidence } kid
  rw [← withdrawSupport_eq] at hturn
  exact hturn

theorem evolves_forget (db : Database) (now : Time) (tenant : TenantId) (ref : ForgetRef) :
    Evolves Follows db.knowledge.rows (db.forget now tenant ref).1.knowledge.rows := by
  cases ref with
  | chunk chunkId => exact Evolves.refl Follows.refl _
  | episode episodeId =>
    exact evolves_foldl_withdrawSupport tenant episodeId now _
      ((db.retireChunks now fun c =>
        decide (c.tenantId = tenant ∧ c.provenance = episodeId)).1.retireFacts now fun r =>
        decide (r.tenantId = tenant ∧ r.provenance = episodeId)).1

theorem evolves_foldl_recountSupport (tenant : TenantId) (now : Time) (kids : List KnowledgeId)
    (acc : Database × Nat) :
    Evolves Follows acc.1.knowledge.rows
      (kids.foldl (recountSupport tenant now) acc).1.knowledge.rows := by
  refine evolves_foldl Follows.refl Follows.trans
    (fun acc : Database × Nat => acc.1.knowledge.rows) ?_ kids acc
  intro acc kid
  rw [recountSupport_eq]
  exact evolves_settleSupport _ tenant now acc.1 kid

theorem evolves_withdrawEvidence (db : Database) (tenant : TenantId) (ids : List EpisodeId)
    (now : Time) :
    Evolves Follows db.knowledge.rows (db.withdrawEvidence tenant ids now).1.knowledge.rows :=
  evolves_foldl_recountSupport tenant now _ ({ db with
    evidence := deleteWhere (withdraws (db.affectedKnowledge tenant ids) ids) db.evidence }, 0)

theorem evolves_erase {ilike : String → String → Bool} {sha256Hex : String → String}
    {t : ErasureTarget} {report : ErasureReport}
    (h : erase ilike sha256Hex now db t = .ok (db', report)) :
    Evolves Follows db.knowledge.rows db'.knowledge.rows := by
  obtain ⟨-, db₁, row, hwalk, -, -, rfl⟩ := erase_eq_ok h
  unfold Database.walkLineage at hwalk
  dsimp only at hwalk
  obtain ⟨db₂, hchunks, hwalk⟩ := exists_of_bind_eq_ok hwalk
  obtain ⟨db₃, hfacts, hwalk⟩ := exists_of_bind_eq_ok hwalk
  obtain ⟨db₄, hepisodes, hwalk⟩ := exists_of_bind_eq_ok hwalk
  obtain ⟨rfl, -⟩ := Prod.mk.inj (Except.ok.inj hwalk)
  have hknowledge : db.knowledge = db₃.knowledge := by
    obtain rfl := deleteChunks_eq_ok hchunks
    obtain rfl := deleteFacts_eq_ok hfacts
    rfl
  obtain rfl := deleteEpisodes_eq_ok hepisodes
  rw [hknowledge]
  exact evolves_withdrawEvidence db₃ t.tenant (db.erasedEpisodes t) now

theorem evolves_accrue (db : Database) (twin : KnowledgeRow) (categories : List String)
    (episodes : List Episode) :
    Evolves Follows db.knowledge.rows (db.accrue twin categories episodes).knowledge.rows :=
  evolves_updateWhere Follows.refl fun _ _ _ => ⟨rfl, rfl, rfl, rfl, .refl⟩

theorem evolves_mergeEvidence (db : Database) (now : Time) (tenant : TenantId)
    (kid : KnowledgeId) (evidence : List EpisodeId) :
    Evolves Follows db.knowledge.rows
      (db.mergeEvidence now tenant kid evidence).knowledge.rows :=
  evolves_updateWhere Follows.refl fun _ _ _ => ⟨rfl, rfl, rfl, rfl, .refl⟩

theorem evolves_setStatus {p : KnowledgeRow → Bool} {status : KnowledgeStatus}
    (h : ∀ k, p k = true → StatusMove k.status status) :
    Evolves Follows db.knowledge.rows (db.setStatus p status).knowledge.rows :=
  evolves_updateWhere Follows.refl fun k _ hk => ⟨rfl, rfl, rfl, rfl, .single (h k hk)⟩

theorem evolves_markKnowledgeEligible (db : Database) (tenant : TenantId) (kid : KnowledgeId) :
    Evolves Follows db.knowledge.rows (db.markKnowledgeEligible tenant kid).1.knowledge.rows := by
  refine evolves_setStatus fun k hk => ?_
  rw [decide_eq_true_eq] at hk
  rw [hk.2.2]
  exact .hold

theorem evolves_rejectKnowledge (h : db.rejectKnowledge tenant id = some db') :
    Evolves Follows db.knowledge.rows db'.knowledge.rows := by
  unfold Database.rejectKnowledge at h
  dsimp only at h
  split at h
  · cases h
    refine evolves_setStatus fun k hk => ?_
    rw [decide_eq_true_eq] at hk
    exact .reject hk.2.2
  · cases h

/-- The gates let a live item through. -/
theorem publishGates_live {kMin : Int} (h : publishGates k kMin = .ok ()) : Live k.status := by
  unfold publishGates at h
  split at h
  · cases h
  · rename_i hlive
    by_contra hnot
    unfold Live at hnot
    rw [not_or] at hnot
    exact hlive hnot

theorem evolves_publishKnowledge {episodeId : EpisodeId} {visibility : List PrincipalToken}
    {kMin : Int} (h : db.publishKnowledge now tenant id episodeId visibility kMin = .ok db') :
    Evolves Follows db.knowledge.rows db'.knowledge.rows := by
  obtain ⟨k, hk, -, rfl, hgates, -, rfl⟩ := publishKnowledge_eq_ok h
  refine evolves_updateWhere Follows.refl fun k' hk' hid => ⟨rfl, rfl, rfl, rfl, ?_⟩
  have hsame : k' = k :=
    List.inj_on_of_nodup_map db.knowledge.ids_nodup hk' hk (of_decide_eq_true hid)
  subst hsame
  exact .single (.publish (publishGates_live hgates))

theorem evolves_promoteIfEligible (settings : KnowledgeSettings) (db : Database) (now : Time)
    (tenant : TenantId) (kid : KnowledgeId) (episodeId : EpisodeId) :
    Evolves Follows db.knowledge.rows
      (db.promoteIfEligible settings now tenant kid episodeId).1.knowledge.rows := by
  rcases db.promoteIfEligible_cases settings now tenant kid episodeId with
    ⟨-, hsame | hmarked⟩ | ⟨-, visibility, hok⟩
  · rw [hsame]
    exact Evolves.refl Follows.refl _
  · rw [hmarked]
    exact evolves_markKnowledgeEligible db tenant kid
  · exact evolves_publishKnowledge hok

/-! ## Proposals -/

/-- The statement holds no term of the lexicon of four bytes or more, nor the part of one after
its last colon. -/
def Screened (text : UnicodeText) (db : Database) (tenant : TenantId) (statement : String) : Prop :=
  ∀ term ∈ db.lexicon tenant, ∀ t ∈ [term, ((rsplitOnce term).map Prod.snd).getD term],
    4 ≤ t.utf8ByteSize →
      ¬ (text.toLowercase t).toList <:+: (text.toLowercase statement).toList

theorem screened_of_findSome?_eq_none
    (h : (db.lexicon tenant).findSome? (leakedTerm text statement) = none) :
    Screened text db tenant statement := by
  intro term hterm t ht hfour hinfix
  have hnone := List.findSome?_eq_none_iff.mp h term hterm
  have hfalse := List.find?_eq_none.mp hnone t ht
  rw [Bool.and_eq_true, decide_eq_true_eq, decide_eq_true_eq] at hfalse
  exact hfalse ⟨hfour, hinfix⟩

/-- The item a proposal inserts. -/
structure Proposed (text : UnicodeText) (db : Database) (id : KnowledgeId)
    (p : KnowledgeProposal) (k : KnowledgeRow) : Prop where
  fresh : id ∉ db.knowledge.rows.map KnowledgeRow.id
  id : k.id = id
  tenantId : k.tenantId = p.tenantId
  statement : k.statement = p.statement
  status : k.status = .quarantined ∨
    k.status = .candidate ∧ Screened text db p.tenantId p.statement

theorem lifecycle_proposeKnowledge {p : KnowledgeProposal} {o : ProposeOutcome}
    (hok : db.proposeKnowledge text now id p = .ok (db', o)) :
    Lifecycle (Proposed text db id p) db db' := by
  rcases proposeKnowledge_cases hok with rfl | ⟨twin, -, rfl⟩ | hinsert
  · exact Lifecycle.of_knowledge_eq rfl
  · exact Lifecycle.of_evolves (evolves_accrue db twin _ _)
  · obtain ⟨hfresh, hrows, -, -⟩ := insertKnowledge_ok hinsert
    constructor
    · intro k hk
      rw [hrows]
      exact ⟨k, List.mem_append_left _ hk, Follows.refl k⟩
    · intro k' hk'
      rw [hrows] at hk'
      rcases List.mem_append.mp hk' with hk' | hk'
      · exact Or.inl ⟨k', hk', Follows.refl k'⟩
      · obtain rfl := List.mem_singleton.mp hk'
        refine Or.inr ⟨hfresh, rfl, rfl, rfl, ?_⟩
        cases hleaked : (db.lexicon p.tenantId).findSome? (leakedTerm text p.statement) with
        | some term => exact Or.inl rfl
        | none => exact Or.inr ⟨rfl, screened_of_findSome?_eq_none hleaked⟩

/-- The items a call may add: that of a proposal. -/
def Introduces (text : UnicodeText) (db : Database) (call : CurationCall) (k : KnowledgeRow) :
    Prop :=
  ∃ now id p, call = .propose now id p ∧ Proposed text db id p k

/-- What a call does to the items. -/
theorem lifecycle_curationStep {call : CurationCall} (hstep : db.curationStep lib call = some db') :
    Lifecycle (Introduces lib.text db call) db db' := by
  have hsame : Lifecycle (Introduces lib.text db call) db db := Lifecycle.of_knowledge_eq rfl
  cases call with
  | appendEpisode e =>
    cases hstep
    cases hok : db.appendEpisode e with
    | error e' => exact hsame
    | ok db₁ =>
      unfold Database.appendEpisode at hok
      split at hok
      · cases hok
      · cases hok
        exact Lifecycle.of_knowledge_eq rfl
  | propose now id p =>
    cases hstep
    cases hok : db.proposeKnowledge lib.text now id p with
    | error e => exact hsame
    | ok result =>
      obtain ⟨hforth, hback⟩ := lifecycle_proposeKnowledge hok
      exact ⟨hforth, fun k' hk' => (hback k' hk').imp_right fun h => ⟨now, id, p, rfl, h⟩⟩
  | merge now tenant id evidence =>
    cases hstep
    split
    · exact Lifecycle.of_evolves (evolves_mergeEvidence db now tenant id evidence)
    · exact hsame
  | promote settings now tenant id episodeId =>
    cases hstep
    exact Lifecycle.of_evolves (evolves_promoteIfEligible settings db now tenant id episodeId)
  | publish now tenant id episodeId visibility kMin =>
    cases hstep
    cases hok : db.publishRequest now tenant id episodeId visibility kMin with
    | error e => exact hsame
    | ok db₁ => exact Lifecycle.of_evolves (evolves_publishKnowledge hok)
  | reject tenant id =>
    cases hstep
    cases hok : db.rejectKnowledge tenant id with
    | none => exact hsame
    | some db₁ => exact Lifecycle.of_evolves (evolves_rejectKnowledge hok)
  | forget now tenant ref =>
    cases hstep
    exact Lifecycle.of_evolves (evolves_forget db now tenant ref)
  | erase now target =>
    cases hstep
    cases hok : Model.erase lib.ilike lib.sha256Hex now db target with
    | error e => exact hsame
    | ok result =>
      obtain ⟨db₁, report⟩ := result
      exact Lifecycle.of_evolves (evolves_erase hok)

/-! ## The memory of rejections -/

/-- The form a proposal is recognised by: its canonical form where it has one, else the
statement. -/
def Recalls (p : KnowledgeProposal) (statement : String) (canonical : Option String) : Prop :=
  match p.canon with
  | some canon => canonical = some canon
  | none => p.statement = statement

/-- An item of the tenant has been rejected with the statement and the canonical form. -/
def RejectedForm (tenant : TenantId) (statement : String) (canonical : Option String)
    (db : Database) : Prop :=
  ∃ k ∈ db.knowledge.rows, k.tenantId = tenant ∧ k.status = .rejected ∧
    k.statement = statement ∧ k.canonicalStatement = canonical

/-- No call takes a rejection back. -/
theorem RejectedForm.lifecycle {canonical : Option String}
    (h : RejectedForm tenant statement canonical db) (hlife : Lifecycle new db db') :
    RejectedForm tenant statement canonical db' := by
  obtain ⟨k, hk, htenant, hstatus, hstatement, hcanonical⟩ := h
  obtain ⟨k', hk', hfollows⟩ := hlife.forth k hk
  have hreaches := hfollows.status
  rw [hstatus] at hreaches
  exact ⟨k', hk', hfollows.tenantId.trans htenant, rejected_final hreaches,
    hfollows.statement.trans hstatement, hfollows.canonicalStatement.trans hcanonical⟩

theorem rejectedForm_rejectKnowledge (h : db.rejectKnowledge tenant id = some db')
    (hk : k ∈ db.knowledge.rows) (hid : k.id = id) :
    RejectedForm tenant k.statement k.canonicalStatement db' := by
  unfold Database.rejectKnowledge at h
  dsimp only at h
  split at h
  · rename_i hany
    cases h
    obtain ⟨k', hk', hrejectable⟩ := List.any_eq_true.mp hany
    have hsame : k' = k := List.inj_on_of_nodup_map db.knowledge.ids_nodup hk' hk
      ((of_decide_eq_true hrejectable).2.1.trans hid.symm)
    subst hsame
    refine ⟨{ k' with status := .rejected }, List.mem_map.mpr ⟨k', hk', if_pos hrejectable⟩, ?_⟩
    exact ⟨(of_decide_eq_true hrejectable).1, rfl, rfl, rfl⟩
  · cases h

/-- A proposal that recalls a rejected item is answered with the memory of it. -/
theorem proposeKnowledge_remembered {p : KnowledgeProposal} {canonical : Option String}
    (h : RejectedForm p.tenantId statement canonical db)
    (hrecalls : Recalls p statement canonical) :
    db.proposeKnowledge text now id p = .ok (db, .remembered) := by
  obtain ⟨k, hk, htenant, hstatus, rfl, rfl⟩ := h
  have hremembered : db.rejectedBefore p = true := by
    unfold Database.rejectedBefore
    rw [List.any_eq_true]
    refine ⟨k, hk, ?_⟩
    rw [Bool.and_eq_true, decide_eq_true_eq]
    refine ⟨⟨htenant, hstatus⟩, ?_⟩
    unfold Recalls at hrecalls
    cases hcanon : p.canon with
    | some canon =>
      rw [hcanon] at hrecalls
      exact decide_eq_true hrecalls
    | none =>
      rw [hcanon] at hrecalls
      exact decide_eq_true hrecalls.symm
  unfold Database.proposeKnowledge
  rw [if_pos hremembered]

/-- Once an item is rejected, a proposal that recalls it changes nothing, whatever calls came
between. -/
theorem rejected_never_back (lib : CurationLibraries) {db₀ db₁ db : Database} {tenant : TenantId}
    {id : KnowledgeId} (hreject : db₀.rejectKnowledge tenant id = some db₁) {k : KnowledgeRow}
    (hk : k ∈ db₀.knowledge.rows) (hid : k.id = id) {calls : List CurationCall}
    (hrun : run (curationStep lib) db₁ calls = some db) (now : Time) (id' : KnowledgeId)
    {p : KnowledgeProposal} (htenant : p.tenantId = tenant)
    (hrecalls : Recalls p k.statement k.canonicalStatement) :
    db.proposeKnowledge lib.text now id' p = .ok (db, .remembered) := by
  have hstart := rejectedForm_rejectKnowledge hreject hk hid
  have hrejected : RejectedForm tenant k.statement k.canonicalStatement db :=
    run_induction (fun _ _ _ h hstep => h.lifecycle (lifecycle_curationStep hstep)) hstart hrun
  exact proposeKnowledge_remembered (htenant ▸ hrejected) hrecalls

/-- What a reviewer sees of an item. -/
structure ItemForm where
  id : KnowledgeId
  statement : String
  canonicalStatement : Option String
  status : KnowledgeStatus
deriving DecidableEq

def itemForms (db : Database) : List ItemForm :=
  db.knowledge.rows.map fun k => ⟨k.id, k.statement, k.canonicalStatement, k.status⟩

/-- The lesson is rejected, and another proposed in between. -/
theorem rejected_never_back_lesson :
    ∃ db, run (curationStep asciiLibraries) Database.empty
        (lessonCuration ++ [.reject 1 7,
          .propose 30 8 { lesson with statement := "customers ask for a pilot" }]) = some db ∧
      db.proposeKnowledge asciiLibraries.text 40 9 lesson = .ok (db, .remembered) := by
  have hview : (run (curationStep asciiLibraries) Database.empty lessonCuration).map (fun db =>
      (itemForms db, (db.rejectKnowledge 1 7).isSome)) =
      some ([⟨7, lesson.statement, none, .candidate⟩], true) := by
    decide +kernel
  obtain ⟨db₀, hbefore, hview⟩ := Option.map_eq_some_iff.mp hview
  obtain ⟨hforms, hsome⟩ := Prod.mk.inj hview
  obtain ⟨k, hrows, hform⟩ := List.map_eq_singleton_iff.mp hforms
  obtain ⟨hid, hstatement, hcanonical, -⟩ := ItemForm.mk.inj hform
  obtain ⟨db₁, hreject⟩ := Option.isSome_iff_exists.mp hsome
  have hstep : db₀.curationStep asciiLibraries (.reject 1 7) = some db₁ := by
    show some ((db₀.rejectKnowledge 1 7).getD db₀) = some db₁
    rw [hreject]
    rfl
  obtain ⟨db, hafter⟩ : ∃ db, run (curationStep asciiLibraries) db₁
      [.propose 30 8 { lesson with statement := "customers ask for a pilot" }] = some db :=
    ⟨_, rfl⟩
  refine ⟨db, run_append.mpr ⟨db₀, hbefore, ?_⟩, ?_⟩
  · exact Option.bind_eq_some_iff.mpr ⟨db₁, hstep, hafter⟩
  · apply rejected_never_back asciiLibraries hreject (k := k) (hrows ▸ List.mem_cons_self) hid
      hafter 40 9 rfl
    rw [hstatement, hcanonical]
    rfl

/-- The rejected lesson is proposed again with a canonical form, and is back as a candidate. -/
theorem rejected_back_with_canonical_form :
    (run (curationStep asciiLibraries) Database.empty (lessonCuration ++ [.reject 1 7])).map
        itemForms = some [⟨7, lesson.statement, none, .rejected⟩] ∧
      (run (curationStep asciiLibraries) Database.empty (lessonCuration ++ [.reject 1 7,
          .propose 30 8 { lesson with canonicalStatement := some "sso first" }])).map itemForms =
        some [⟨7, lesson.statement, none, .rejected⟩,
          ⟨8, lesson.statement, some "sso first", .candidate⟩] := by
  decide +kernel

/-! ## What was screened of a published statement

The lexicon is asked once, when a statement is proposed. A statement that names none of its terms
becomes a candidate, and nothing changes it from then on, so what a publish serves is free of the
terms of that time (`published_screened`). Terms that entered the lexicon since are not asked about.
-/

/-- The item was proposed in the course of the calls, with a statement that named no term of the
lexicon of then. -/
def ScreenedAtProposal (lib : CurationLibraries) (db₀ : Database) (calls : List LexiconCall)
    (k : KnowledgeRow) : Prop :=
  ∃ before after now p db, calls = before ++ .curate (.propose now k.id p) :: after ∧
    run (lexiconStep lib) db₀ before = some db ∧ p.tenantId = k.tenantId ∧
    p.statement = k.statement ∧ Screened lib.text db k.tenantId k.statement

theorem ScreenedAtProposal.append {db₀ : Database} {calls : List LexiconCall} {k' : KnowledgeRow}
    (h : ScreenedAtProposal lib db₀ calls k) (hfollows : Follows k k') (call : LexiconCall) :
    ScreenedAtProposal lib db₀ (calls ++ [call]) k' := by
  obtain ⟨before, after, now, p, db, rfl, hrun, htenant, hstatement, hscreened⟩ := h
  unfold ScreenedAtProposal
  rw [hfollows.id, hfollows.tenantId, hfollows.statement]
  refine ⟨before, after ++ [call], now, p, db, ?_, hrun, htenant, hstatement, hscreened⟩
  rw [List.append_assoc, List.cons_append]

/-- A call adds items by a proposal only, and advances those that are there. -/
theorem lifecycle_lexiconStep {call : LexiconCall} (hstep : db.lexiconStep lib call = some db') :
    Lifecycle (fun k => ∃ curation, call = .curate curation ∧ Introduces lib.text db curation k)
      db db' := by
  cases call with
  | curate curation =>
    obtain ⟨hforth, hback⟩ := lifecycle_curationStep hstep
    exact ⟨hforth, fun k' hk' => (hback k' hk').imp_right fun h => ⟨curation, rfl, h⟩⟩
  | upsertFact now fact =>
    cases hstep
    cases hok : db.upsertFact now fact with
    | error e => exact Lifecycle.of_knowledge_eq rfl
    | ok result =>
      obtain ⟨⟨facts, outcome⟩, -, hpure⟩ := exists_of_bind_eq_ok hok
      cases hpure
      exact Lifecycle.of_knowledge_eq rfl
  | upsertChunks _ _ | setEntityTags _ _ _ _ _ | recordAction _ _ _ =>
    cases hstep
    exact Lifecycle.of_knowledge_eq rfl

/-- Live items were screened at their proposal. -/
theorem screened_of_run {db₀ : Database} (hstart : ∀ k ∈ db₀.knowledge.rows, ¬ Live k.status)
    {calls : List LexiconCall} (hrun : run (lexiconStep lib) db₀ calls = some db) :
    ∀ k ∈ db.knowledge.rows, Live k.status → ScreenedAtProposal lib db₀ calls k := by
  refine run_trace (I := fun calls db => ∀ k ∈ db.knowledge.rows, Live k.status →
    ScreenedAtProposal lib db₀ calls k) (fun k hk hlive => absurd hlive (hstart k hk)) ?_ hrun
  intro past db₁ call db₂ hpast hscreened hstep k' hk' hlive
  rcases (lifecycle_lexiconStep hstep).back k' hk' with ⟨k, hk, hfollows⟩ | hadded
  · exact (hscreened k hk (live_of_reaches hfollows.status hlive)).append hfollows call
  · obtain ⟨curation, rfl, now, id, p, rfl, hproposed⟩ := hadded
    obtain rfl := hproposed.id
    refine ⟨past, [], now, p, db₁, rfl, hpast, hproposed.tenantId.symm,
      hproposed.statement.symm, ?_⟩
    rcases hproposed.status with hquarantined | ⟨-, hclean⟩
    · rw [hquarantined] at hlive
      rcases hlive with hlive | hlive <;> cases hlive
    · rw [hproposed.tenantId, hproposed.statement]
      exact hclean

/-- What a publish serves is the statement of its item, and named no term of the lexicon at the
time it was proposed. -/
theorem published_screened (lib : CurationLibraries) {db₀ db db' : Database}
    (hstart : ∀ k ∈ db₀.knowledge.rows, ¬ Live k.status) {calls : List LexiconCall}
    (hrun : run (lexiconStep lib) db₀ calls = some db) {now : Time} {tenant : TenantId}
    {id : KnowledgeId} {episodeId : EpisodeId} {visibility : List PrincipalToken} {kMin : Int}
    (hpublish : db.publishKnowledge now tenant id episodeId visibility kMin = .ok db') :
    ∃ k ∈ db.knowledge.rows, k.tenantId = tenant ∧ k.id = id ∧
      knowledgeChunk db.chunks now k episodeId visibility ∈ db'.chunks.rows ∧
      (knowledgeChunk db.chunks now k episodeId visibility).content = k.statement ∧
      ScreenedAtProposal lib db₀ calls k := by
  obtain ⟨k, hk, htenant, hid, hgates, -, rfl⟩ := publishKnowledge_eq_ok hpublish
  refine ⟨k, hk, htenant, hid, List.mem_append_right _ (List.mem_singleton_self _), rfl, ?_⟩
  exact screened_of_run hstart hrun k hk (publishGates_live hgates)

/-- A lesson that names a customer the lexicon does not know yet. -/
def acmeLesson : KnowledgeProposal := { lesson with statement := "acme asks for SSO first" }

/-- Four customers' episodes, and the lesson. -/
def acmeProposed : List LexiconCall :=
  [.curate (.appendEpisode (lessonEpisode 1 "acme" "crm-agent")),
    .curate (.appendEpisode (lessonEpisode 2 "globex" "crm-agent")),
    .curate (.appendEpisode (lessonEpisode 3 "initech" "crm-agent")),
    .curate (.appendEpisode (lessonEpisode 4 "umbrella" "mail-agent")),
    .curate (.propose 20 7 acmeLesson)]

/-- The first fact about that customer. -/
def acmeFact : FactWrite where
  tenantId := 1
  key := ⟨"crm", "acme", "stage"⟩
  value := .str "pilot"
  validFrom := 25
  visibility := [1]
  confidentiality := .internal
  provenance := 1
  aclProvenance := .adminAssigned

/-- The statement that is published was screened when it was proposed. -/
theorem acme_screened_at_proposal :
    ∃ db db', run (lexiconStep asciiLibraries) Database.empty
        (acmeProposed ++ [.upsertFact 25 acmeFact]) = some db ∧
      db.publishKnowledge 30 1 7 9 [1] 3 = .ok db' ∧
      ∃ k ∈ db.knowledge.rows, k.tenantId = 1 ∧ k.id = 7 ∧
        knowledgeChunk db.chunks 30 k 9 [1] ∈ db'.chunks.rows ∧
        (knowledgeChunk db.chunks 30 k 9 [1]).content = k.statement ∧
        ScreenedAtProposal asciiLibraries Database.empty
          (acmeProposed ++ [.upsertFact 25 acmeFact]) k := by
  have hview : (run (lexiconStep asciiLibraries) Database.empty
      (acmeProposed ++ [.upsertFact 25 acmeFact])).map (fun db =>
        (db.publishKnowledge 30 1 7 9 [1] 3).isOk) = some true := by
    decide +kernel
  obtain ⟨db, hrun, hok⟩ := Option.map_eq_some_iff.mp hview
  cases hpublish : db.publishKnowledge 30 1 7 9 [1] 3 with
  | error e =>
    rw [hpublish] at hok
    cases hok
  | ok db' =>
    refine ⟨db, db', hrun, hpublish, ?_⟩
    exact published_screened asciiLibraries (fun _ hk => absurd hk List.not_mem_nil) hrun
      hpublish

/-- By then the lexicon has the customer, and the published statement names it. -/
theorem published_names_entity :
    (run (lexiconStep asciiLibraries) Database.empty
        (acmeProposed ++ [.upsertFact 25 acmeFact])).map (fun db =>
          (db.lexicon 1, db.knowledge.rows.map KnowledgeRow.statement,
            (db.publishKnowledge 30 1 7 9 [1] 3).isOk)) =
      some (["acme"], ["acme asks for SSO first"], true) ∧
    4 ≤ ("acme" : String).utf8ByteSize ∧
    (asciiLibraries.text.toLowercase "acme").toList <:+:
      (asciiLibraries.text.toLowercase "acme asks for SSO first").toList := by
  decide +kernel

end Verity.Analysis
