import Std.Data.TreeMap
import Std.Data.TreeMap.Lemmas
import Std.Data.TreeSet
import Std.Data.TreeSet.Lemmas
import Verity.Model.EvidenceLedger

/-!
# The fold

`fold_with_known_canonicals`: from the live evidence of a tenant to the plan of what is to be
written, namely aliases, chunk tags, badges and items for review. It is a function of its
arguments and passes over the evidence several times: anti-links and confirmations; candidate
edges, with the stars of shared keys; the edges that too few keys support; the keys that fan
out; union-find over the edges that are left; one outcome for each component; and the tags of
chunks.

A component's number of members is taken to fit the `i32` it is compared as. The number of
keys behind an edge and the number of rows behind a badge wrap as the casts to `i16` do.
-/

set_option autoImplicit false

namespace Verity.Model

open Std (TreeMap TreeSet)

/-! ## Union-find over refs

A map from each ref to its parent. The larger of two roots is pointed at the smaller, so that
a root does not depend on the order of the unions. The search for a root follows parents until
a ref is its own parent or has none. The loop of the source has no bound; here it may take as
many steps as there are refs, which is enough because a parent is never larger than its child.
-/

/-- SOURCE: fold.rs:1114-1116 -/
structure UnionFind where
  parent : TreeMap String String

namespace UnionFind

def empty : UnionFind := ⟨∅⟩

/-- SOURCE: fold.rs:1119-1123 -/
def touch (uf : UnionFind) (x : String) : UnionFind :=
  ⟨uf.parent.alter x fun p => some (p.getD x)⟩

/-- At most `fuel` steps from `cur` towards its root. -/
def climb (uf : UnionFind) : Nat → String → String
  | 0, cur => cur
  | fuel + 1, cur =>
    match uf.parent[cur]? with
    | some p => if p ≠ cur then uf.climb fuel p else cur
    | none => cur

/-- SOURCE: fold.rs:1125-1133 -/
def findRoot (uf : UnionFind) (x : String) : String := uf.climb uf.parent.size x

/-- SOURCE: fold.rs:1135-1147 -/
def union (uf : UnionFind) (x y : String) : UnionFind :=
  let uf := (uf.touch x).touch y
  let rx := uf.findRoot x
  let ry := uf.findRoot y
  if rx = ry then uf
  else if rx ≤ ry then ⟨uf.parent.insert ry rx⟩
  else ⟨uf.parent.insert rx ry⟩

/-- Every ref that was touched, in order. SOURCE: fold.rs:1149-1151 -/
def members (uf : UnionFind) : List String := uf.parent.keys

/-- The refs of each root, by root: the map that the fold collects.
SOURCE: fold.rs:481-485 -/
def components (uf : UnionFind) : List (List String) :=
  (sortDedup (uf.members.map uf.findRoot)).map fun root =>
    uf.members.filter fun ref => uf.findRoot ref = root

theorem members_nodup (uf : UnionFind) : uf.members.Nodup := by
  refine List.Pairwise.imp ?_ uf.parent.distinct_keys
  intro a b hne hab
  exact hne (compare_eq_iff_eq.mpr hab)

/-- No ref is listed twice in a component. -/
theorem nodup_of_mem_components {uf : UnionFind} {component : List String}
    (h : component ∈ uf.components) : component.Nodup := by
  obtain ⟨root, _, rfl⟩ := List.mem_map.mp h
  exact uf.members_nodup.filter _

/-- No ref is in two components. -/
theorem components_disjoint (uf : UnionFind) : uf.components.Pairwise List.Disjoint := by
  refine List.Pairwise.map _ ?_ (List.nodup_dedup _)
  intro root root' hne ref href href'
  have hroot : uf.findRoot ref = root := by simpa using (List.mem_filter.mp href).2
  have hroot' : uf.findRoot ref = root' := by simpa using (List.mem_filter.mp href').2
  exact hne (hroot.symm.trans hroot')

end UnionFind

/-- `as i16`. -/
def asI16 (n : Nat) : Int := Int.bmod n 65536

/-- Ids in order, without repetition: what a `BTreeSet` of them lists. -/
def sortIds (ids : List EvidenceId) : List EvidenceId := (ids.insertionSort (· ≤ ·)).dedup

/-! ## The plan -/

/-- SOURCE: fold.rs:49-53 -/
structure AliasWrite where
  source : String
  entityId : String
  canonicalEntity : String
deriving DecidableEq, Repr

instance : LinearOrder AliasWrite :=
  LinearOrder.lift' (fun a => toLex (a.source, toLex (a.entityId, a.canonicalEntity)))
    fun a b h => by
      cases a
      cases b
      simpa using h

/-- SOURCE: fold.rs:62-65 -/
structure ChunkTagWrite where
  subjectRef : String
  tags : List String
deriving DecidableEq, Repr

instance : LinearOrder ChunkTagWrite :=
  LinearOrder.lift' (fun c => toLex (c.subjectRef, c.tags)) fun a b h => by
    cases a
    cases b
    simpa using h

/-- Why a component was not merged. SOURCE: fold.rs:71-94 -/
inductive ReviewReason where
  | antiLinkSplit
  | sizeCapExceeded (size : Nat) (cap : Int)
  | keyFanOut (key : String) (members : Nat)
  | clusterDrift (leftCanonical rightCanonical : String)
deriving DecidableEq, Repr

/-- The derived order: by constructor, then by the fields. -/
def ReviewReason.orderKey : ReviewReason → Nat ×ₗ String ×ₗ String ×ₗ Nat ×ₗ Int
  | antiLinkSplit => toLex (0, toLex ("", toLex ("", toLex (0, 0))))
  | sizeCapExceeded size cap => toLex (1, toLex ("", toLex ("", toLex (size, cap))))
  | keyFanOut key members => toLex (2, toLex (key, toLex ("", toLex (members, 0))))
  | clusterDrift left right => toLex (3, toLex (left, toLex (right, toLex (0, 0))))

instance : LinearOrder ReviewReason :=
  LinearOrder.lift' ReviewReason.orderKey fun a b h => by
    cases a <;> cases b <;> simp_all [ReviewReason.orderKey]

/-- SOURCE: fold.rs:97-101 -/
structure ReviewItem where
  refs : List String
  reason : ReviewReason
  evidence : List EvidenceId
deriving DecidableEq, Repr

instance : LinearOrder ReviewItem :=
  LinearOrder.lift' (fun i => toLex (i.refs, toLex (i.reason, i.evidence))) fun a b h => by
    cases a
    cases b
    simpa using h

/-- What a row of `entity_link_meta` is about. SOURCE: types.rs:878 -/
inductive SubjectKind where
  | aliasMember
  | chunkTag
deriving DecidableEq, Repr

def SubjectKind.asStr : SubjectKind → String
  | aliasMember => "alias_member"
  | chunkTag => "chunk_tag"

/-- SOURCE: types.rs:884 -/
inductive LinkConfidence where
  | deterministic
  | humanConfirmed
  | approximated
deriving DecidableEq, Repr

/-- SOURCE: types.rs:876-892 -/
structure EntityLinkMeta where
  tenantId : TenantId
  subjectKind : SubjectKind
  subjectRef : String
  canonicalEntity : String
  confidence : LinkConfidence
  strongestMethod : Option String
  justifyingEvidence : List EvidenceId
  evidenceCount : Int
deriving DecidableEq, Repr

/-- SOURCE: fold.rs:895-901 -/
def metaKey (m : EntityLinkMeta) : String ×ₗ String ×ₗ String :=
  toLex (m.subjectKind.asStr, toLex (m.subjectRef, m.canonicalEntity))

/-- SOURCE: fold.rs:108-130 -/
structure FoldPlan where
  aliases : List AliasWrite
  chunkTags : List ChunkTagWrite
  linkMeta : List EntityLinkMeta
  review : List ReviewItem
  canonicals : List String
deriving DecidableEq, Repr

/-! ## Pairs and the rows that decide about them -/

/-- A pair of refs, the lesser one first. SOURCE: fold.rs:726-745 -/
structure UnorderedPair where
  a : String
  b : String
deriving DecidableEq, Repr

instance : Ord UnorderedPair := ⟨compareLex (compareOn UnorderedPair.a) (compareOn UnorderedPair.b)⟩

instance : Std.TransOrd UnorderedPair :=
  inferInstanceAs
    (Std.TransCmp (compareLex (compareOn UnorderedPair.a) (compareOn UnorderedPair.b)))

instance : Std.LawfulEqOrd UnorderedPair where
  eq_of_compare {p q} h := by
    obtain ⟨ha, hb⟩ := Ordering.then_eq_eq.mp h
    have ha' : p.a = q.a := Std.LawfulEqOrd.eq_of_compare ha
    have hb' : p.b = q.b := Std.LawfulEqOrd.eq_of_compare hb
    cases p
    cases q
    simp_all

def UnorderedPair.new (x y : String) : UnorderedPair := if x ≤ y then ⟨x, y⟩ else ⟨y, x⟩

/-- Both refs of the pair are in the component. -/
def UnorderedPair.inside (pair : UnorderedPair) (component : List String) : Bool :=
  component.contains pair.a && component.contains pair.b

def EvidenceRow.pair (e : EvidenceRow) : UnorderedPair := .new e.leftRef e.rightRef

/-- A row with negative polarity, or a human rejection whatever its polarity.
SOURCE: fold.rs:321-337 -/
def EvidenceRow.isAntiLink (e : EvidenceRow) : Bool :=
  decide (e.polarity < 0) || decide (e.method = "human_rejected")

/-- SOURCE: fold.rs:328-330, 396-400 -/
def EvidenceRow.isConfirmation (e : EvidenceRow) : Bool :=
  decide (0 ≤ e.polarity) && decide (e.method = "human_confirmed")

/-- Whether the pair is in the set `human_confirmed`. -/
def humanConfirmed (evidence : List EvidenceRow) (pair : UnorderedPair) : Bool :=
  evidence.any fun e => e.isConfirmation && decide (e.pair = pair)

/-- SOURCE: fold.rs:765-780 -/
def strongMethod (method : String) : Bool :=
  method ∈ ["crm_fk", "external_id", "admin_crosswalk", "human_confirmed"]

/-- SOURCE: fold.rs:782-792 -/
def keyKindOf (e : EvidenceRow) : String :=
  if e.method = "domain_match" then "domain"
  else if e.method = "email_exact" then "email"
  else if e.method = "external_id" then "external_id"
  else if e.method = "crm_fk" then "crm_fk"
  else if e.method = "admin_crosswalk" then "admin"
  else "*"

/-- SOURCE: fold.rs:794-796 -/
def namespaceOf (e : EvidenceRow) : String := e.keyNamespace.getD "*"

/-- SOURCE: fold.rs:878-885 -/
def keyNodeKind (keyRef : String) : String :=
  (((stripStart "key:" keyRef).bind splitOnce).map Prod.fst).getD ""

/-! ## Candidate edges -/

/-- SOURCE: fold.rs:748-763 -/
structure EdgeEvidence where
  evidenceIds : List EvidenceId := []
  strongSingleKey : Bool := false
  viaKeyNode : Option String := none
  bestMethod : Option String := none
  bestTier : Int := 0
  dominantKeyKind : String := ""
  dominantNamespace : String := ""
deriving DecidableEq, Repr

/-- The row of the lowest tier seen so far gives the edge its method and its key.
SOURCE: fold.rs:865-876 -/
def recordEdgeMeta (entry : EdgeEvidence) (e : EvidenceRow) : EdgeEvidence :=
  let entry :=
    if entry.bestMethod.isNone || decide (e.tier < entry.bestTier) then
      { entry with
        bestMethod := some e.method
        bestTier := e.tier
        dominantKeyKind := keyKindOf e
        dominantNamespace := namespaceOf e }
    else entry
  if strongMethod e.method then { entry with strongSingleKey := true } else entry

/-- What the second pass collects: the edges, the leaves of each key node, and the distinct
keys behind each pair. SOURCE: fold.rs:344-349 -/
structure Candidates where
  edges : TreeMap UnorderedPair EdgeEvidence := ∅
  keyStar : TreeMap String (TreeSet String) := ∅
  pairKeys : TreeMap UnorderedPair (List (String × String)) := ∅

/-- The edge between a new leaf of a key node and another leaf. SOURCE: fold.rs:833-847 -/
def addLeafEdge (keyRef memberRef : String) (e : EvidenceRow) (c : Candidates) (other : String) :
    Candidates :=
  if other = memberRef then c
  else
    let pair := UnorderedPair.new memberRef other
    { c with
      edges := c.edges.alter pair fun entry =>
        let entry := entry.getD {}
        some (recordEdgeMeta { entry with
          evidenceIds := entry.evidenceIds ++ [e.evidenceId]
          viaKeyNode := some keyRef } e)
      pairKeys := c.pairKeys.alter pair fun keys =>
        some ((keys.getD []).insert (keyKindOf e, e.keyValue.getD "")) }

/-- A row between two members is an edge; a row between a member and a key node makes the
member a leaf, with an edge to every other leaf; a row between two key nodes is ignored.
SOURCE: fold.rs:802-863 -/
def addCandidateEdge (c : Candidates) (e : EvidenceRow) : Candidates :=
  let leftIsKey := isKeyNode e.leftRef
  let rightIsKey := isKeyNode e.rightRef
  if leftIsKey != rightIsKey then
    let keyRef := if leftIsKey then e.leftRef else e.rightRef
    let memberRef := if leftIsKey then e.rightRef else e.leftRef
    let leaves := (c.keyStar.getD keyRef ∅).insert memberRef
    leaves.toList.foldl (addLeafEdge keyRef memberRef e)
      { c with keyStar := c.keyStar.insert keyRef leaves }
  else if leftIsKey && rightIsKey then c
  else
    { c with
      edges := c.edges.alter e.pair fun entry =>
        let entry := entry.getD {}
        some (recordEdgeMeta { entry with
          evidenceIds := entry.evidenceIds ++ [e.evidenceId]
          strongSingleKey := entry.strongSingleKey || strongMethod e.method } e)
      pairKeys := c.pairKeys.alter e.pair fun keys =>
        some ((keys.getD []).insert (keyKindOf e, e.keyValue.getD e.method)) }

/-- Whether the second pass takes the row: its key may form edges, is not denylisted, and the
row clears the bar of its tier. SOURCE: fold.rs:351-394 -/
def formsEdge (config : FoldConfig) (evidence : List EvidenceRow) (e : EvidenceRow) : Bool :=
  let cfg := config.get (keyKindOf e) (namespaceOf e)
  if e.isAntiLink then false
  else if !cfg.eligibleAsEdge then false
  else if e.keyValue.any fun v => cfg.denylistValues.contains v then false
  else if e.tier = 1 then cfg.autoMergeTier1
  else if e.tier = 2 then humanConfirmed evidence e.pair
  else false

/-- The rows that clear their bar, then the confirmations, which are edges whatever their tier.
SOURCE: fold.rs:340-400 -/
def candidates (config : FoldConfig) (evidence : List EvidenceRow) : Candidates :=
  (evidence.filter (formsEdge config evidence) ++ evidence.filter (·.isConfirmation)).foldl
    addCandidateEdge {}

/-! ## Which edges count -/

/-- Too few distinct keys support the pair. SOURCE: fold.rs:407-423 -/
def suppressedForMinKeys (config : FoldConfig) (evidence : List EvidenceRow) (c : Candidates)
    (pair : UnorderedPair) (ev : EdgeEvidence) : Bool :=
  if ev.strongSingleKey || humanConfirmed evidence pair then false
  else
    let effectiveMin :=
      max (config.get ev.dominantKeyKind ev.dominantNamespace).minIndependentKeys 1
    let distinct := asI16 ((c.pairKeys[pair]?.map List.length).getD 0)
    decide (distinct < effectiveMin)

/-- A key of no strong kind with more than two leaves. SOURCE: fold.rs:433-441 -/
def fannedOut (keyRef : String) (leaves : TreeSet String) : Bool :=
  decide (2 < leaves.size) && !(keyNodeKind keyRef ∈ ["external_id", "crm_fk", "admin"])

def suppressedKeyNode (c : Candidates) (keyRef : String) : Bool :=
  c.keyStar[keyRef]?.any (fannedOut keyRef)

/-- SOURCE: fold.rs:456-477 -/
def survivingEdges (config : FoldConfig) (evidence : List EvidenceRow) (c : Candidates) :
    List (UnorderedPair × EdgeEvidence) :=
  c.edges.toList.filter fun edge =>
    !suppressedForMinKeys config evidence c edge.1 edge.2 &&
      !edge.2.viaKeyNode.any (suppressedKeyNode c)

/-- Every ref of the evidence is touched, and the surviving edges are united in the order of
their pairs. SOURCE: fold.rs:456-477 -/
def foldUnionFind (config : FoldConfig) (evidence : List EvidenceRow) (c : Candidates) :
    UnionFind :=
  let touched := evidence.foldl (fun uf e => (uf.touch e.leftRef).touch e.rightRef) .empty
  (survivingEdges config evidence c).foldl (fun uf edge => uf.union edge.1.a edge.1.b) touched

/-- SOURCE: fold.rs:904-912 -/
def keyStarEvidence (c : Candidates) (keyRef : String) : List EvidenceId :=
  sortIds ((c.edges.toList.filter fun edge => edge.2.viaKeyNode = some keyRef).flatMap
    fun edge => edge.2.evidenceIds)

/-- SOURCE: fold.rs:431-453 -/
def fanoutReviews (c : Candidates) : List ReviewItem :=
  (c.keyStar.toList.filter fun star => fannedOut star.1 star.2).map fun star =>
    { refs := (star.2.toList ++ [star.1]).insertionSort (· ≤ ·)
      reason := .keyFanOut star.1 star.2.size
      evidence := keyStarEvidence c star.1 }

/-! ## Components -/

/-- The candidate edges with both ends in the component. -/
def edgesInside (c : Candidates) (component : List String) : List (UnorderedPair × EdgeEvidence) :=
  c.edges.toList.filter fun edge => edge.1.inside component

/-- SOURCE: fold.rs:915-926 -/
def componentEvidence (c : Candidates) (component : List String) : List EvidenceId :=
  sortIds ((edgesInside c component).flatMap fun edge => edge.2.evidenceIds)

/-- The confidence of a component's links, and the rows behind them. -/
structure ComponentBadge where
  strongestMethod : Option String
  confidence : LinkConfidence
  justifyingEvidence : List EvidenceId
  evidenceCount : Int
deriving DecidableEq, Repr

/-- The method of the lowest tier, the first in the order of the pairs.
SOURCE: fold.rs:945-951 -/
def strongestOf (edges : List (UnorderedPair × EdgeEvidence)) : Int × Option String :=
  edges.foldl (fun best edge =>
    match edge.2.bestMethod with
    | some m => if edge.2.bestTier < best.1 then (edge.2.bestTier, some m) else best
    | none => best) (32767, none)

/-- SOURCE: fold.rs:930-969 -/
def componentBadge (evidence : List EvidenceRow) (c : Candidates) (component : List String) :
    ComponentBadge :=
  let edges := edgesInside c component
  let just := componentEvidence c component
  { strongestMethod := (strongestOf edges).2
    confidence :=
      if edges.any fun edge => edge.2.bestTier = 1 then .deterministic
      else if edges.any fun edge => humanConfirmed evidence edge.1 then .humanConfirmed
      else .approximated
    justifyingEvidence := just
    evidenceCount := asI16 just.length }

/-- `canon:` and the least member; a component that is given a canonical has members.
SOURCE: fold.rs:890-893 -/
def canonicalFor (members : List MemberRef) : String :=
  match members.min? with
  | some m => "canon:" ++ m.source ++ ":" ++ m.entityId
  | none => ""

/-- What becomes of one component: left alone, kept for review, or merged. -/
inductive ComponentOutcome where
  | single
  | review (item : ReviewItem)
  | merged (canonical : String) (members : List MemberRef) (badge : ComponentBadge)
deriving DecidableEq, Repr

/-- The rows of the anti-links with both ends in the component. SOURCE: fold.rs:511-521 -/
def antiLinkEvidence (evidence : List EvidenceRow) (component : List String) : List EvidenceId :=
  sortIds ((evidence.filter fun e => e.isAntiLink && e.pair.inside component).map
    EvidenceRow.evidenceId)

/-- SOURCE: fold.rs:491-567 -/
def componentOutcome (config : FoldConfig) (evidence : List EvidenceRow) (c : Candidates)
    (component : List String) : ComponentOutcome :=
  let members := component.filterMap splitMemberRef
  if members.length < 2 then .single
  else if evidence.any fun e => e.isAntiLink && e.pair.inside component then
    .review ⟨component, .antiLinkSplit, antiLinkEvidence evidence component⟩
  else
    match config.componentSizeCap with
    | some cap =>
      if (members.length : Int) > cap then
        .review ⟨component, .sizeCapExceeded members.length cap, componentEvidence c component⟩
      else .merged (canonicalFor members) members (componentBadge evidence c component)
    | none => .merged (canonicalFor members) members (componentBadge evidence c component)

namespace ComponentOutcome

def aliases : ComponentOutcome → List AliasWrite
  | merged canonical members _ => members.map fun m => ⟨m.source, m.entityId, canonical⟩
  | _ => []

def canonicals : ComponentOutcome → List String
  | merged canonical _ _ => [canonical]
  | _ => []

def reviews : ComponentOutcome → List ReviewItem
  | review item => [item]
  | _ => []

/-- SOURCE: fold.rs:556-566 -/
def linkMeta (tenant : TenantId) : ComponentOutcome → List EntityLinkMeta
  | merged canonical members badge => members.map fun m =>
    { tenantId := tenant
      subjectKind := .aliasMember
      subjectRef := m.source ++ ":" ++ m.entityId
      canonicalEntity := canonical
      confidence := badge.confidence
      strongestMethod := badge.strongestMethod
      justifyingEvidence := badge.justifyingEvidence
      evidenceCount := badge.evidenceCount }
  | _ => []

end ComponentOutcome

/-! ## Chunk tags -/

/-- The chunk a row is about, the left one first, and the ref that is asserted of it.
SOURCE: fold.rs:1002-1009 -/
def chunkMention (e : EvidenceRow) : Option (String × String) :=
  if isChunkRef e.leftRef then some (e.leftRef, e.rightRef)
  else if isChunkRef e.rightRef then some (e.rightRef, e.leftRef)
  else none

/-- The rows that assert something of the chunk. SOURCE: fold.rs:998-1025 -/
def chunkMentions (evidence : List EvidenceRow) (chunkRef : String) : List EvidenceRow :=
  evidence.filter fun e =>
    decide (0 ≤ e.polarity) && (chunkMention e).any fun p => p.1 = chunkRef

/-- A row of tier one or two, or a confirmation, is on the chunk. SOURCE: fold.rs:1013-1016 -/
def chunkCosignal (evidence : List EvidenceRow) (chunkRef : String) : Bool :=
  (chunkMentions evidence chunkRef).any fun e =>
    decide (e.tier ≤ 2) || decide (e.method = "human_confirmed")

/-- Whether the row has the chunk on one of its sides. SOURCE: fold.rs:1032-1035, 1100-1102 -/
def touchesChunk (chunkRef : String) (e : EvidenceRow) : Bool :=
  (isChunkRef e.leftRef && e.leftRef = chunkRef) ||
    (isChunkRef e.rightRef && e.rightRef = chunkRef)

/-- The configuration that governs a chunk: that of the namespace of its first row.
SOURCE: fold.rs:1030-1039 -/
def chunkConfig (config : FoldConfig) (evidence : List EvidenceRow) (chunkRef : String) :
    EntityResolutionConfig :=
  let ns := ((evidence.find? (touchesChunk chunkRef)).bind EvidenceRow.keyNamespace).getD "*"
  config.get "*" ns

/-- The tag a mention gives, if it names something that is folded.
SOURCE: fold.rs:1060-1071 -/
def tagOf (folded : List String) (cosignal : Bool) (cand : String) : Option String :=
  if folded.contains cand then some cand
  else
    (splitMemberRef cand).bind fun m =>
      let own := "canon:" ++ m.source ++ ":" ++ m.entityId
      if cosignal && folded.contains own then some own else none

/-- SOURCE: fold.rs:1027-1075 -/
def chunkTagsFor (config : FoldConfig) (evidence : List EvidenceRow) (folded : List String)
    (chunkRef : String) : List String :=
  let cosignal := chunkCosignal evidence chunkRef
  if (chunkConfig config evidence chunkRef).autoLinkTier3 || cosignal then
    sortDedup (((chunkMentions evidence chunkRef).filterMap chunkMention).filterMap
      fun p => tagOf folded cosignal p.2)
  else []

/-- SOURCE: fold.rs:1097-1107 -/
def chunkTagEvidence (evidence : List EvidenceRow) (chunkRef : String) : List EvidenceId :=
  sortIds ((evidence.filter (touchesChunk chunkRef)).map EvidenceRow.evidenceId)

/-- The chunks that something is asserted of. -/
def mentionedChunks (evidence : List EvidenceRow) : List String :=
  sortDedup (((evidence.filter fun e => decide (0 ≤ e.polarity)).filterMap chunkMention).map
    Prod.fst)

/-- A chunk without tags is left as it is. SOURCE: fold.rs:985-1095 -/
def chunkTagWrites (config : FoldConfig) (evidence : List EvidenceRow) (folded : List String) :
    List ChunkTagWrite :=
  ((mentionedChunks evidence).map fun chunkRef =>
    ⟨chunkRef, chunkTagsFor config evidence folded chunkRef⟩).filter fun w => !w.tags.isEmpty

/-- SOURCE: fold.rs:1078-1094 -/
def chunkTagMeta (config : FoldConfig) (evidence : List EvidenceRow) (w : ChunkTagWrite) :
    List EntityLinkMeta :=
  w.tags.map fun t =>
    { tenantId := config.tenantId
      subjectKind := .chunkTag
      subjectRef := w.subjectRef
      canonicalEntity := t
      confidence :=
        if (chunkConfig config evidence w.subjectRef).autoLinkTier3 &&
            !chunkCosignal evidence w.subjectRef then .approximated
        else .deterministic
      strongestMethod := some "llm_mention"
      justifyingEvidence := chunkTagEvidence evidence w.subjectRef
      evidenceCount := 1 }

/-! ## The fold -/

/-- The tenant's rows, oldest first. SOURCE: fold.rs:300-309 -/
def workingOrder (config : FoldConfig) (liveEvidence : List EvidenceRow) : List EvidenceRow :=
  (liveEvidence.filter fun e => e.tenantId = config.tenantId).insertionSort fun a b =>
    a.validFrom < b.validFrom ∨ (a.validFrom = b.validFrom ∧ a.evidenceId ≤ b.evidenceId)

/-- The outcome of every component. SOURCE: fold.rs:481-568 -/
def foldOutcomes (config : FoldConfig) (evidence : List EvidenceRow) : List ComponentOutcome :=
  let c := candidates config evidence
  (foldUnionFind config evidence c).components.map (componentOutcome config evidence c)

/-- SOURCE: fold.rs:289-592 -/
def foldWithKnownCanonicals (liveEvidence : List EvidenceRow) (config : FoldConfig)
    (knownCanonicals : List String) : FoldPlan :=
  let evidence := workingOrder config liveEvidence
  let outcomes := foldOutcomes config evidence
  let canonicals := outcomes.flatMap (·.canonicals)
  let tags := chunkTagWrites config evidence (knownCanonicals ++ canonicals)
  { aliases := (outcomes.flatMap (·.aliases)).insertionSort (· ≤ ·)
    chunkTags := tags.insertionSort (· ≤ ·)
    linkMeta := (outcomes.flatMap (·.linkMeta config.tenantId) ++
      tags.flatMap (chunkTagMeta config evidence)).insertionSort fun a b => metaKey a ≤ metaKey b
    review := (fanoutReviews (candidates config evidence) ++
      outcomes.flatMap (·.reviews)).insertionSort (· ≤ ·)
    canonicals := sortDedup canonicals }

/-- The aliases of a plan are those of the outcomes, in order. -/
theorem aliases_perm (liveEvidence : List EvidenceRow) (config : FoldConfig)
    (knownCanonicals : List String) :
    (foldWithKnownCanonicals liveEvidence config knownCanonicals).aliases.Perm
      ((foldOutcomes config (workingOrder config liveEvidence)).flatMap (·.aliases)) := by
  unfold foldWithKnownCanonicals
  dsimp only
  apply List.perm_insertionSort

/-- SOURCE: fold.rs:276-278 -/
def fold (liveEvidence : List EvidenceRow) (config : FoldConfig) : FoldPlan :=
  foldWithKnownCanonicals liveEvidence config []

/-! ## The incremental fold

`refold_incremental` folds the evidence around one ref and holds back what would fuse two
clusters that were apart before: a new component whose members come from two prior canonicals or
more is withdrawn to review when one of them was large, or when the badge of the component says
that no Tier-1 key and no human stands behind it.
-/

/-- What is known of the clusters before the fold: the canonical of a member ref, and the size
of a canonical's component. -/
structure PriorClusters where
  canonicalOf : String → Option String
  sizeOf : String → Option Nat

/-- The refs of a plan's members by canonical, in the order of the canonicals.
SOURCE: fold.rs:643-650 -/
def newComponents (plan : FoldPlan) : List (String × List String) :=
  (sortDedup (plan.aliases.map AliasWrite.canonicalEntity)).map fun canonical =>
    (canonical, (plan.aliases.filter fun a => a.canonicalEntity = canonical).map fun a =>
      a.source ++ ":" ++ a.entityId)

/-- The canonicals that the members of a component had before. SOURCE: fold.rs:653-659 -/
def priorSet (prior : PriorClusters) (members : List String) : List String :=
  sortDedup (members.filterMap prior.canonicalOf)

/-- The badge of the component, by the first row of its links. SOURCE: fold.rs:672-677 -/
def badgeConfidence (plan : FoldPlan) (canonical : String) : LinkConfidence :=
  ((plan.linkMeta.find? fun m =>
    decide (m.canonicalEntity = canonical ∧ m.subjectKind = .aliasMember)).map
      EntityLinkMeta.confidence).getD .approximated

/-- Whether the component fuses clusters that must not be joined without review.
SOURCE: fold.rs:660-681 -/
def drifts (plan : FoldPlan) (prior : PriorClusters) (largeComponentFloor : Nat)
    (component : String × List String) : Bool :=
  let priors := priorSet prior component.2
  let anyLarge := priors.any fun pc => decide (largeComponentFloor ≤ (prior.sizeOf pc).getD 0)
  let belowTier1 := badgeConfidence plan component.1 ≠ .deterministic ∧
    badgeConfidence plan component.1 ≠ .humanConfirmed
  decide (2 ≤ priors.length) && (anyLarge || decide belowTier1)

/-- SOURCE: fold.rs:682-701 -/
def driftReview (plan : FoldPlan) (prior : PriorClusters) (component : String × List String) :
    ReviewItem :=
  let priors := priorSet prior component.2
  { refs := component.2.insertionSort (· ≤ ·)
    reason := .clusterDrift (priors[0]?.getD "") (priors[1]?.getD "")
    evidence := sortIds ((plan.linkMeta.filter fun m => m.canonicalEntity = component.1).flatMap
      EntityLinkMeta.justifyingEvidence) }

/-- SOURCE: fold.rs:629-718 -/
def refoldIncremental (neighborhoodEvidence : List EvidenceRow) (config : FoldConfig)
    (prior : PriorClusters) (largeComponentFloor : Nat) : FoldPlan :=
  let plan := fold neighborhoodEvidence config
  let fused := (newComponents plan).filter (drifts plan prior largeComponentFloor)
  let dropped := fused.map Prod.fst
  if dropped.isEmpty then plan
  else
    { plan with
      aliases := plan.aliases.filter fun a => !dropped.contains a.canonicalEntity
      linkMeta := plan.linkMeta.filter fun m => !dropped.contains m.canonicalEntity
      canonicals := plan.canonicals.filter fun c => !dropped.contains c
      review := (plan.review ++ fused.map (driftReview plan prior)).insertionSort (· ≤ ·) }

/-- The incremental fold aliases nothing that the fold does not. -/
theorem aliases_refoldIncremental (neighborhoodEvidence : List EvidenceRow) (config : FoldConfig)
    (prior : PriorClusters) (largeComponentFloor : Nat) :
    (refoldIncremental neighborhoodEvidence config prior largeComponentFloor).aliases ⊆
      (fold neighborhoodEvidence config).aliases := by
  unfold refoldIncremental
  generalize fold neighborhoodEvidence config = plan
  dsimp only
  split
  · exact List.Subset.refl _
  · exact List.filter_sublist.subset

end Verity.Model
