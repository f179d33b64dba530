import Mathlib.Data.List.AList
import Verity.Foundation.Rounding
import Verity.Model.Qdrant

/-!
# Reciprocal-rank fusion

A recall with an embedding and a text runs two queries and fuses their ranked lists: each list
contributes the reciprocal of the rank to the score of a chunk, and the best scores are answered
with. Both storage profiles have the same copy of `rrf_fuse`.

The scores are `f32`. Those of a fusion are positive and far from the ends of the range, so a
rational that is rounded to twenty-four significant bits after every operation is one. The map
that the scores are added up in is a hash map: its values come in an order that is no part of the
program. The two queries are parameters, and the tier and the instant of freshness of a hit are
left out.
-/

set_option autoImplicit false

namespace Verity.Model

open Verity.Foundation

/-- A hit with its score. SOURCE: types.rs:395-424 -/
structure ScoredHit extends RecallHit where
  score : ℚ
deriving DecidableEq

/-- The result of an `f32` operation. -/
def toF32 (x : ℚ) : ℚ := roundBits 24 x

/-- `const RRF_K: f32`. -/
def rrfK : ℚ := 60

/-- `1.0 / (RRF_K + rank as f32 + 1.0)`. SOURCE: postgres.rs:3785 -/
def reciprocalRank (rank : Nat) : ℚ := toF32 (1 / toF32 (toF32 (rrfK + toF32 rank) + 1))

/-- `HashMap<Uuid, (f32, RecallHit)>`. -/
abbrev ScoreMap := AList fun _ : ChunkId => ℚ × ScoredHit

/-- The entry of a chunk after a hit: the first hit is kept. SOURCE: postgres.rs:3786-3789 -/
def entryAfter (entry : Option (ℚ × ScoredHit)) (hit : ScoredHit) (rank : Nat) : ℚ × ScoredHit :=
  match entry with
  | some (score, first) => (toF32 (score + reciprocalRank rank), first)
  | none => (reciprocalRank rank, hit)

def addHit (scores : ScoreMap) (ranked : ScoredHit × Nat) : ScoreMap :=
  scores.insert ranked.1.chunkId
    (entryAfter (scores.lookup ranked.1.chunkId) ranked.1 ranked.2)

/-- SOURCE: postgres.rs:3782-3791 -/
def addLists (lists : List (List ScoredHit)) : ScoreMap :=
  lists.foldl (fun scores list => list.zipIdx.foldl addHit scores) ∅

/-- The order in which a hash map gives its values. -/
structure IterationOrder where
  values : List (ℚ × ScoredHit) → List (ℚ × ScoredHit)
  perm : ∀ entries, (values entries).Perm entries

/-- `into_values`. -/
def intoValues (order : IterationOrder) (scores : ScoreMap) : List (ℚ × ScoredHit) :=
  order.values (scores.entries.map Sigma.snd)

/-- SOURCE: postgres.rs:3780-3802, qdrant.rs:513-535 -/
def rrfFuse (order : IterationOrder) (lists : List (List ScoredHit)) (k : Nat) : List ScoredHit :=
  ((intoValues order (addLists lists)).insertionSort (Descending Prod.fst)).take k |>.map
    fun (score, hit) => { hit with score := score }

/-- SOURCE: types.rs:384-392 -/
structure RecallQuery where
  scope : Scope
  embedding : Option (List ℚ)
  text : Option String
  k : Nat

/-- The two queries of a recall. -/
structure RecallLegs where
  dense : RecallQuery → List ℚ → Except StorageError (List ScoredHit)
  bm25 : RecallQuery → String → Except StorageError (List ScoredHit)

/-- SOURCE: postgres.rs:4123-4143 -/
def RecallLegs.recall (order : IterationOrder) (legs : RecallLegs) (query : RecallQuery) :
    Except StorageError (List ScoredHit) :=
  if query.scope.principals.isEmpty then .ok []
  else
    match query.embedding, query.text with
    | some embedding, some text => do
        let dense ← legs.dense query embedding
        let sparse ← legs.bm25 query text
        pure (rrfFuse order [dense, sparse] query.k)
    | some embedding, none => legs.dense query embedding
    | none, some text => legs.bm25 query text
    | none, none => .error (.invalidInput "recall requires an embedding, text, or both")

end Verity.Model
