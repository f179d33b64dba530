import Verity.Model.KnowledgeCuration

/-!
# The support tier of a served chunk

The chunk that serves a published item carries the bucket of the item's support, so that recall
discloses a tier and never the count. The column is a copy: `publish_knowledge` writes it with the
chunk, and `merge_evidence` writes it again. Retractions recount the item and leave it alone.

The column stands beside the tables, by the id of the chunk; chunks that are written without a
tier have none.
-/

set_option autoImplicit false

namespace Verity.Model

open Verity.Foundation

/-- SOURCE: types.rs:534-543 -/
inductive SupportTier where
  | emerging
  | established
  | extensive
deriving DecidableEq, Repr

namespace SupportTier

/-- SOURCE: types.rs:546-555 -/
def fromDistinct (distinct : Int) : Option SupportTier :=
  if 10 ≤ distinct then some .extensive
  else if 5 ≤ distinct then some .established
  else if 3 ≤ distinct then some .emerging
  else none

/-- SOURCE: types.rs:557-563 -/
def asStr : SupportTier → String
  | .emerging => "emerging"
  | .established => "established"
  | .extensive => "extensive"

end SupportTier

/-- The `CASE` of the statement that writes the tier again. SOURCE: consolidation.rs:970-974 -/
def tierCase (distinct : Nat) : Option String :=
  if 10 ≤ distinct then some "extensive"
  else if 5 ≤ distinct then some "established"
  else if 3 ≤ distinct then some "emerging"
  else none

/-- The two spellings of the buckets agree. -/
theorem tierCase_eq (distinct : Nat) :
    tierCase distinct = (SupportTier.fromDistinct distinct).map SupportTier.asStr := by
  unfold tierCase SupportTier.fromDistinct
  split_ifs
  all_goals first | rfl | omega

/-- The tables, and the column `chunks.support_tier`. -/
structure TieredDatabase where
  db : Database
  supportTier : ChunkId → Option String

namespace TieredDatabase

/-- The chunks whose tier is written again. SOURCE: consolidation.rs:976-978 -/
def restamped (tenant : TenantId) (kid : KnowledgeId) (c : Chunk) : Bool :=
  decide (c.tenantId = tenant ∧ c.documentId = "knowledge:" ++ toString kid ∧ c.validTo = none ∧
    c.kind = "knowledge")

/-- The evidence and the counters, and then the tier of an item that is published.
SOURCE: consolidation.rs:916-988 -/
def mergeEvidence (s : TieredDatabase) (now : Time) (tenant : TenantId) (kid : KnowledgeId)
    (evidence : List EpisodeId) : TieredDatabase :=
  let db := s.db.mergeEvidence now tenant kid evidence
  let published (k : KnowledgeRow) : Bool :=
    decide (k.id = kid ∧ k.tenantId = tenant ∧ k.status = .published)
  match db.knowledge.rows.find? published with
  | none => { s with db := db }
  | some k =>
    { db := db
      supportTier := fun id =>
        if db.chunks.rows.any fun c => restamped tenant kid c && decide (c.id = id) then
          tierCase k.distinctEntities
        else s.supportTier id }

/-- The chunk of a publish is written with the tier of the count that was read.
SOURCE: postgres.rs:4544-4597 -/
def stampPublished (s : TieredDatabase) (tenant : TenantId) (kid : KnowledgeId) (db : Database) :
    TieredDatabase :=
  { db := db
    supportTier := Function.update s.supportTier s.db.chunks.nextId
      ((s.db.knowledgeItem tenant kid).bind fun k =>
        (SupportTier.fromDistinct k.distinctEntities).map SupportTier.asStr) }

/-- SOURCE: main.rs:7157-7193 -/
def publishRequest (s : TieredDatabase) (now : Time) (tenant : TenantId) (kid : KnowledgeId)
    (episodeId : EpisodeId) (visibility : List PrincipalToken) (kMin : Int) : TieredDatabase :=
  match s.db.publishRequest now tenant kid episodeId visibility kMin with
  | .ok db => s.stampPublished tenant kid db
  | .error _ => s

/-- SOURCE: consolidation.rs:735-834 -/
def promoteIfEligible (settings : KnowledgeSettings) (s : TieredDatabase) (now : Time)
    (tenant : TenantId) (kid : KnowledgeId) (episodeId : EpisodeId) : TieredDatabase :=
  match s.db.promoteIfEligible settings now tenant kid episodeId with
  | (db, .autoPublished) => s.stampPublished tenant kid db
  | (db, _) => { s with db := db }

/-- The tables and the column after a call; a call that fails leaves them as they were. -/
def tieredStep (lib : CurationLibraries) (s : TieredDatabase) (call : CurationCall) :
    Option TieredDatabase :=
  match call with
  | .merge now tenant kid evidence =>
    some (if s.db.mergeable tenant kid then s.mergeEvidence now tenant kid evidence else s)
  | .promote settings now tenant kid episodeId =>
    some (s.promoteIfEligible settings now tenant kid episodeId)
  | .publish now tenant kid episodeId visibility kMin =>
    some (s.publishRequest now tenant kid episodeId visibility kMin)
  | call => (s.db.curationStep lib call).map fun db => { s with db := db }

/-- The tables go their own way. -/
theorem db_tieredStep (lib : CurationLibraries) (s : TieredDatabase) (call : CurationCall) :
    (s.tieredStep lib call).map db = s.db.curationStep lib call := by
  cases call with
  | merge now tenant kid evidence =>
    unfold tieredStep Database.curationStep mergeEvidence
    dsimp only
    split
    · split
      · rfl
      · rfl
    · rfl
  | promote settings now tenant kid episodeId =>
    unfold tieredStep Database.curationStep promoteIfEligible
    dsimp only
    split
    · rename_i hpromoted
      rw [hpromoted]
      rfl
    · rename_i hpromoted
      rw [hpromoted]
      rfl
  | publish now tenant kid episodeId visibility kMin =>
    unfold tieredStep Database.curationStep publishRequest
    dsimp only
    split
    · rename_i hpublished
      rw [hpublished]
      rfl
    · rename_i hrefused
      rw [hrefused]
      rfl
  | appendEpisode e => rfl
  | propose now id p => rfl
  | reject tenant id => rfl
  | forget now tenant ref => rfl
  | erase now target => rfl

end TieredDatabase

end Verity.Model
