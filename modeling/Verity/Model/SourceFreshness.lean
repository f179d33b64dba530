import Verity.Model.Qdrant
import Verity.Model.Rebac

/-!
# The gate on stale sources

A recall may set a bound on the age of the last heartbeat of a hit's source. The heartbeats come
from a map that is memoized per tenant; the map, the clock and what storage returns are parameters.
The header that discloses the drops is left out.
-/

set_option autoImplicit false

namespace Verity.Model

/-- A hit with the last heartbeat of its source. SOURCE: types.rs:395-424 -/
structure SyncedHit extends RecallHit where
  sourceSyncedAt : Option Time
deriving DecidableEq, Repr

/-- SOURCE: source_freshness.rs:55-65 -/
def connectorChunkSources : List String :=
  ["gdrive", "gmail", "hubspot", "salesforce", "notion", "intercom", "sharepoint", "slack", "zoom"]

/-- `HashMap<String, DateTime<Utc>>`. SOURCE: source_freshness.rs:67-68 -/
abbrev SyncedMap := String → Option Time

/-- The stricter of the two bounds. SOURCE: source_freshness.rs:101-110 -/
def effectiveMaxSecs (maxSecs requested : Option UInt64) : Option UInt64 :=
  match requested, maxSecs with
  | some r, some e => some (min r e)
  | r, e => r.or e

/-- SOURCE: source_freshness.rs:159-172 -/
inductive Verdict where
  | exempt
  | fresh (at' : Time)
  | stale (at' : Time)
  | neverSynced
deriving DecidableEq, Repr

/-- SOURCE: source_freshness.rs:174-178 -/
def Verdict.passes : Verdict → Bool
  | exempt | fresh _ => true
  | stale _ | neverSynced => false

/-- A source that has no connector. SOURCE: source_freshness.rs:189-191 -/
def servedLocally (source : String) : Bool :=
  source == "agent" || "webhook:".toList.isPrefixOf source.toList ||
    "folder:".toList.isPrefixOf source.toList

/-- `TimeDelta::num_seconds`: whole seconds, towards zero. -/
def numSeconds (d : Int) : Int := d.tdiv 1000000

/-- `max_secs as i64`. -/
def u64AsI64 (n : UInt64) : Int := (n.toNat : Int).bmod 18446744073709551616

/-- SOURCE: source_freshness.rs:183-200 -/
def verdict (source : String) (syncedAt : Option Time) (now : Time) (maxSecs : UInt64) : Verdict :=
  if servedLocally source then .exempt
  else
    match syncedAt with
    | some at' => if numSeconds (now - at') ≤ u64AsI64 maxSecs then .fresh at' else .stale at'
    | none => if connectorChunkSources.contains source then .neverSynced else .exempt

/-- SOURCE: source_freshness.rs:202-209 -/
structure GateOutcome where
  hits : List SyncedHit
  dropped : Nat
  staleSources : List String
deriving DecidableEq, Repr

/-- SOURCE: source_freshness.rs:222-224 -/
def annotate (synced : SyncedMap) (hit : SyncedHit) : SyncedHit :=
  { hit with sourceSyncedAt := synced hit.source }

/-- The hits that are kept, and the sources of the others as they turn up.
SOURCE: source_freshness.rs:234-243 -/
def retainFresh (passes : SyncedHit → Bool) :
    List SyncedHit → List String → List SyncedHit × List String
  | [], staleSources => ([], staleSources)
  | hit :: hits, staleSources =>
    if passes hit then
      let (kept, staleSources) := retainFresh passes hits staleSources
      (hit :: kept, staleSources)
    else
      retainFresh passes hits
        (if staleSources.contains hit.source then staleSources
          else staleSources ++ [hit.source])

/-- SOURCE: source_freshness.rs:215-253 -/
def annotateAndGate (hits : List SyncedHit) (synced : SyncedMap) (maxSecs : Option UInt64)
    (now : Time) (k : Nat) : GateOutcome :=
  let hits := hits.map (annotate synced)
  match maxSecs with
  | none => { hits := hits, dropped := 0, staleSources := [] }
  | some max =>
    let (kept, staleSources) := retainFresh
      (fun hit => (verdict hit.source (synced hit.source) now max).passes) hits []
    { hits := kept.take k
      dropped := hits.length - kept.length
      staleSources := staleSources.insertionSort (· ≤ ·) }

/-- What a recall answers with, from what storage returns for so many hits.
SOURCE: main.rs:2549-2583 -/
def recallFresh (fetch : Nat → List SyncedHit) (synced : SyncedMap)
    (maxSecs requested : Option UInt64) (now : Time) (k : Nat) : GateOutcome :=
  let effective := effectiveMaxSecs maxSecs requested
  let k := min k 100
  let fetchK := if effective.isSome then min (k * 2) 100 else k
  annotateAndGate (fetch fetchK) synced effective now k

end Verity.Model
