import Verity.Model.Briefs

/-!
# Curating the knowledge layer

What the server does to an item after it was proposed: the consolidation path adds support to it
and promotes it when it has enough, a reviewer rejects or publishes it. A promoted item waits as
eligible, or is published at once where the tenant has opted in and named an audience.

The settings are the texts the two keys hold, read for the tenant before the global ones. The
reason and the instant of a rejection and the reason of a merge are left out: nothing modelled
here reads them. The support tier on the served chunk is a column beside these tables.
-/

set_option autoImplicit false

namespace Verity.Model

open Verity.Foundation

/-- SOURCE: consolidation.rs:82 -/
def kSupportMin : Int := 3

/-- The settings `knowledge_auto_publish` and `knowledge_auto_publish_visibility`. -/
structure KnowledgeSettings where
  autoPublish : Option String
  autoPublishVisibility : Option String
deriving DecidableEq, Repr

namespace KnowledgeSettings

/-- SOURCE: postgres.rs:877-890 -/
def knowledgeAutoPublish (s : KnowledgeSettings) : Bool :=
  s.autoPublish.any fun v => eqIgnoreAsciiCase (trim v) "true"

/-- SOURCE: consolidation.rs:884-911 -/
def defaultPublishVisibility (s : KnowledgeSettings) : Option (List PrincipalToken) :=
  s.autoPublishVisibility.bind fun v =>
    let tokens := (splitAtChar ',' v).filterMap fun t => parseI32 (trim t)
    if tokens.isEmpty then none else some tokens

end KnowledgeSettings

/-- What became of an item that was looked at for promotion. -/
inductive PromotionAction where
  | unchanged
  | markedEligible
  | autoPublished
  | refused
deriving DecidableEq, Repr

namespace Database

/-- The item, if the tenant has it. SOURCE: postgres.rs:857-869 -/
def knowledgeItem (db : Database) (tenant : TenantId) (id : KnowledgeId) : Option KnowledgeRow :=
  db.knowledge.rows.find? fun k => decide (k.tenantId = tenant ∧ k.id = id)

def setStatus (db : Database) (p : KnowledgeRow → Bool) (status : KnowledgeStatus) : Database :=
  { db with
    knowledge := db.knowledge.updateRows p (fun k => { k with status := status }) (fun _ => rfl) }

/-- SOURCE: postgres.rs:919-929 -/
def markKnowledgeEligible (db : Database) (tenant : TenantId) (id : KnowledgeId) :
    Database × Bool :=
  let moved (k : KnowledgeRow) : Bool :=
    decide (k.tenantId = tenant ∧ k.id = id ∧ k.status = .candidate)
  (db.setStatus moved .eligible, db.knowledge.rows.any moved)

/-- Nothing comes back when there is no such candidate or eligible item.
SOURCE: postgres.rs:938-961 -/
def rejectKnowledge (db : Database) (tenant : TenantId) (id : KnowledgeId) : Option Database :=
  let rejectable (k : KnowledgeRow) : Bool :=
    decide (k.tenantId = tenant ∧ k.id = id ∧ (k.status = .candidate ∨ k.status = .eligible))
  if db.knowledge.rows.any rejectable then some (db.setStatus rejectable .rejected) else none

/-- Whether evidence may be merged into the item. SOURCE: consolidation.rs:617-625 -/
def mergeable (db : Database) (tenant : TenantId) (id : KnowledgeId) : Bool :=
  db.knowledge.rows.any fun k =>
    decide (k.tenantId = tenant ∧ k.id = id ∧ (k.status = .candidate ∨ k.status = .published))

/-- SOURCE: consolidation.rs:916-988 -/
def mergeEvidence (db : Database) (now : Time) (tenant : TenantId) (kid : KnowledgeId)
    (evidence : List EpisodeId) : Database :=
  let episodes := db.episodes.filter fun e =>
    decide (e.tenantId = tenant) && evidence.contains e.id
  let db := db.addEvidence kid episodes
  let count := recount db.evidence kid
  { db with
    knowledge := db.knowledge.updateRows (fun k => decide (k.id = kid ∧ k.tenantId = tenant))
      (fun k => { k.setSupport
        { count with hasTier1Evidence := k.hasTier1Evidence || count.hasTier1Evidence } with
          lastReinforced := now })
      (fun _ => rfl) }

/-- The ids of the publish are fresh, as for `publishKnowledge`. SOURCE: consolidation.rs:735-834 -/
def promoteIfEligible (settings : KnowledgeSettings) (db : Database) (now : Time)
    (tenant : TenantId) (kid : KnowledgeId) (episodeId : EpisodeId) : Database × PromotionAction :=
  match db.knowledgeItem tenant kid with
  | none => (db, .unchanged)
  | some item =>
    if item.status ≠ .candidate then (db, .unchanged)
    else if (item.distinctEntities : Int) < kSupportMin ∨
        ¬ (2 ≤ item.writerCount ∨ item.hasTier1Evidence = true) then (db, .unchanged)
    else
      let hold : Database × PromotionAction :=
        let (db, moved) := db.markKnowledgeEligible tenant kid
        (db, if moved then .markedEligible else .unchanged)
      if settings.knowledgeAutoPublish = false then hold
      else
        match settings.defaultPublishVisibility with
        | none => hold
        | some visibility =>
          match db.publishKnowledge now tenant kid episodeId visibility kSupportMin with
          | .ok db => (db, .autoPublished)
          | .error _ => (db, .refused)

/-- What becomes of an item that is looked at: at most it is marked, unless it is published. -/
theorem promoteIfEligible_cases (settings : KnowledgeSettings) (db : Database) (now : Time)
    (tenant : TenantId) (kid : KnowledgeId) (episodeId : EpisodeId) :
    let result := db.promoteIfEligible settings now tenant kid episodeId
    (result.2 ≠ .autoPublished ∧
      (result.1 = db ∨ result.1 = (db.markKnowledgeEligible tenant kid).1)) ∨
    (result.2 = .autoPublished ∧ ∃ visibility,
      db.publishKnowledge now tenant kid episodeId visibility kSupportMin = .ok result.1) := by
  have hhold : (if (db.markKnowledgeEligible tenant kid).2 then PromotionAction.markedEligible
      else .unchanged) ≠ .autoPublished := by
    split
    · decide
    · decide
  have hkept : PromotionAction.unchanged ≠ .autoPublished := by decide
  have hrefused : PromotionAction.refused ≠ .autoPublished := by decide
  unfold promoteIfEligible
  dsimp only
  split
  · exact .inl ⟨hkept, .inl rfl⟩
  · split
    · exact .inl ⟨hkept, .inl rfl⟩
    · split
      · exact .inl ⟨hkept, .inl rfl⟩
      · split
        · exact .inl ⟨hhold, .inr rfl⟩
        · split
          · exact .inl ⟨hhold, .inr rfl⟩
          · rename_i visibility _
            split
            · rename_i hok
              exact .inr ⟨rfl, visibility, hok⟩
            · exact .inl ⟨hrefused, .inl rfl⟩

/-- The handler: the caller's floor is raised to three. SOURCE: main.rs:7157-7193 -/
def publishRequest (db : Database) (now : Time) (tenant : TenantId) (id : KnowledgeId)
    (episodeId : EpisodeId) (visibility : List PrincipalToken) (kMin : Int) :
    Except StorageError Database :=
  db.publishKnowledge now tenant id episodeId visibility (max kMin 3)

end Database

/-- The calls that move an item, its evidence or its chunk. -/
inductive CurationCall where
  | appendEpisode (e : Episode)
  | propose (now : Time) (id : KnowledgeId) (p : KnowledgeProposal)
  | merge (now : Time) (tenant : TenantId) (id : KnowledgeId) (evidence : List EpisodeId)
  | promote (settings : KnowledgeSettings) (now : Time) (tenant : TenantId) (id : KnowledgeId)
      (episodeId : EpisodeId)
  | publish (now : Time) (tenant : TenantId) (id : KnowledgeId) (episodeId : EpisodeId)
      (visibility : List PrincipalToken) (kMin : Int)
  | reject (tenant : TenantId) (id : KnowledgeId)
  | forget (now : Time) (tenant : TenantId) (ref : ForgetRef)
  | erase (now : Time) (target : ErasureTarget)
deriving DecidableEq

/-- What the calls use of libraries. -/
structure CurationLibraries where
  text : UnicodeText
  ilike : String → String → Bool
  sha256Hex : String → String

/-- The database after a call; a call that fails leaves it as it was. -/
def Database.curationStep (lib : CurationLibraries) (db : Database) : CurationCall → Option Database
  | .appendEpisode e => some ((db.appendEpisode e).toOption.getD db)
  | .propose now id p =>
    some (((db.proposeKnowledge lib.text now id p).map Prod.fst).toOption.getD db)
  | .merge now tenant id evidence =>
    some (if db.mergeable tenant id then db.mergeEvidence now tenant id evidence else db)
  | .promote settings now tenant id episodeId =>
    some (db.promoteIfEligible settings now tenant id episodeId).1
  | .publish now tenant id episodeId visibility kMin =>
    some ((db.publishRequest now tenant id episodeId visibility kMin).toOption.getD db)
  | .reject tenant id => some ((db.rejectKnowledge tenant id).getD db)
  | .forget now tenant ref => some (db.forget now tenant ref).1
  | .erase now target =>
    some (((Model.erase lib.ilike lib.sha256Hex now db target).map Prod.fst).toOption.getD db)

/-- The calls of the knowledge layer, and the writes the lexicon is read from. -/
inductive LexiconCall where
  | curate (call : CurationCall)
  | upsertFact (now : Time) (fact : FactWrite)
  | upsertChunks (now : Time) (writes : List ChunkWrite)
  | setEntityTags (tenant : TenantId) (source documentId : String) (seq : Int)
      (tags : List String)
  | recordAction (now : Time) (episodeId : EpisodeId) (action : ActionWrite)
deriving DecidableEq

def Database.lexiconStep (lib : CurationLibraries) (db : Database) : LexiconCall → Option Database
  | .curate call => db.curationStep lib call
  | .upsertFact now fact => some (((db.upsertFact now fact).map Prod.fst).toOption.getD db)
  | .upsertChunks now writes => some (db.upsertChunks now writes)
  | .setEntityTags tenant source documentId seq tags =>
    some (db.setEntityTags tenant source documentId seq tags).1
  | .recordAction now episodeId action => some (db.recordAction now episodeId action).1

/-! ## Proposals, interleaved

Any number of `propose_knowledge` transactions, each in its four steps: the lookup of a rejected
item, the reads of the evidence and of the lexicon, the lookup of a live twin, and the insert or
the accrual with the commit. Each step sees what is committed. The lookup of the twin locks the
row it finds until its transaction ends; where it finds none there is nothing to lock. A
transaction that fails or is dropped is one that takes no further step.
-/

/-- A proposal that recalled no rejected item. -/
structure AdmittedProposal where
  now : Time
  id : KnowledgeId
  proposal : KnowledgeProposal
deriving DecidableEq

/-- It has read its evidence and the lexicon. -/
structure ScreenedProposal where
  admitted : AdmittedProposal
  episodes : List Episode
  leaked : Option String
deriving DecidableEq

/-- It has looked for a twin, and holds the lock of the one it found. -/
structure MatchedProposal where
  screened : ScreenedProposal
  twin : Option KnowledgeRow
deriving DecidableEq

/-- The committed tables, and the transactions under way. -/
structure ProposeRace where
  db : Database
  admitted : List AdmittedProposal
  screened : List ScreenedProposal
  matching : List MatchedProposal

inductive ProposeEvent where
  | lookRejected (call : AdmittedProposal)
  | readEvidence (call : AdmittedProposal)
  | lookTwin (call : ScreenedProposal)
  | write (call : MatchedProposal)
deriving DecidableEq

namespace ProposeRace

/-- A transaction under way holds the lock of the row. -/
def locked (s : ProposeRace) (k : KnowledgeRow) : Bool :=
  s.matching.any fun m => m.twin.any fun twin => decide (twin.id = k.id)

/-- The accrual or the insert. An insert that fails is rolled back.
SOURCE: postgres.rs:4404-4487 -/
def commit (text : UnicodeText) (db : Database) (m : MatchedProposal) : Database :=
  let call := m.screened.admitted
  match m.twin with
  | some twin => db.accrue twin call.proposal.categories m.screened.episodes
  | none =>
    match db.insertKnowledge text call.now call.id call.proposal m.screened.leaked
        m.screened.episodes with
    | .ok db => db
    | .error _ => db

/-- One step of one transaction. A lookup that finds a locked row waits.
SOURCE: postgres.rs:4281-4488 -/
def step (text : UnicodeText) (s : ProposeRace) : ProposeEvent → Option ProposeRace
  | .lookRejected call =>
    if s.db.rejectedBefore call.proposal then some s
    else some { s with admitted := s.admitted ++ [call] }
  | .readEvidence call =>
    if call ∈ s.admitted then
      some { s with
        admitted := s.admitted.erase call
        screened := s.screened ++ [{
          admitted := call
          episodes := s.db.proposalEpisodes call.proposal
          leaked := (s.db.lexicon call.proposal.tenantId).findSome?
            (leakedTerm text call.proposal.statement) }] }
    else none
  | .lookTwin call =>
    if call ∈ s.screened then
      let twin := if call.leaked.isSome then none else s.db.twinOf call.admitted.proposal
      if twin.any s.locked then none
      else
        some { s with
          screened := s.screened.erase call
          matching := s.matching ++ [⟨call, twin⟩] }
    else none
  | .write call =>
    if call ∈ s.matching then
      some { s with
        db := commit text s.db call
        matching := s.matching.erase call }
    else none

/-- Any tables, before the first transaction. -/
def start (db : Database) : ProposeRace := ⟨db, [], [], []⟩

end ProposeRace

end Verity.Model
