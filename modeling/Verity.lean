import Verity.Analysis.FactAcl
import Verity.Analysis.CacheCoherence
import Verity.Analysis.MembershipLoss
import Verity.Analysis.FollowerFreshness
import Verity.Analysis.AclTightening
import Verity.Analysis.PollCursor
import Verity.Analysis.ParkedRetractions
import Verity.Analysis.DerivedWrites
import Verity.Analysis.LiveDelivery
import Verity.Analysis.RecallEngines
import Verity.Analysis.Proposals
import Verity.Analysis.ArrivalOrder
import Verity.Analysis.ChunkEvidence
import Verity.Analysis.CacheRefinement
import Verity.Analysis.Tier1Ledger
import Verity.Analysis.MergedView
import Verity.Analysis.ManifestApply
import Verity.Analysis.ManifestGate
import Verity.Analysis.ManifestFacts
import Verity.Analysis.Redelivery
import Verity.Analysis.Consolidation
import Verity.Analysis.NativeWebhook
import Verity.Analysis.ResolutionScheduler
import Verity.Analysis.QdrantRetry
import Verity.Analysis.DrivePoll
import Verity.Analysis.FolderCatchUp
import Verity.Analysis.SubjectBindings
import Verity.Analysis.QuarantineReingest
import Verity.Analysis.BackfillReconciled
import Verity.Analysis.TombstoneDedupe
import Verity.Analysis.CanonFixedPoints
import Verity.Analysis.EmailPairs
import Verity.Analysis.DriftGuard
import Verity.Analysis.JustifyingEvidence
import Verity.Analysis.ScopedHistory
import Verity.Analysis.TokenSweep
import Verity.Analysis.MemoryPages
import Verity.Analysis.PredicateRoundTrip
import Verity.Analysis.SupportTiers
import Verity.Analysis.RankFusion
import Verity.Analysis.CanonicalIds
import Verity.Analysis.InlineAcl
import Verity.Analysis.SourceFreshness
import Verity.Analysis.CanonicalStatement
import Verity.Analysis.SubscriptionDrain
import Verity.Analysis.BackfillBadge
import Verity.Analysis.BackfillProgress
import Verity.Analysis.RosterWalk
import Verity.Analysis.PngPredictor
import Verity.Analysis.OfficeXml
import Verity.Analysis.WordPieces
import Verity.Analysis.DirectoryClosure
import Verity.Analysis.EntraCycles
import Verity.Analysis.EmbeddingRoutes
import Verity.Analysis.SyncCadence
