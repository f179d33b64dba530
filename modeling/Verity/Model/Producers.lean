import Verity.Model.Canon
import Verity.Model.Resolver
import Verity.Model.Retirement

/-!
# The Tier-1 producers

`produce_tier1_evidence` reads the current facts of a tenant, maps each entity to the inputs of
three producers, and inserts what they emit into the evidence ledger: foreign keys within a CRM,
emails shared within a population, and shared external ids. The id of a row is derived from its
content, and a row that is already there is left as it is.

The hash maps of the source are lists of entries here, in the order of the first fact of each
key. A hash map yields its entries in any order, so a run may insert its writes in any order
(`ResolutionEvent.produce`). The lineage pointers of the inputs are left out, as in the ledger.
-/

set_option autoImplicit false

namespace Verity.Model

/-- What the producers use of the crates outside the repository: the text of a float
(`serde_json`), the text of a uuid, and the uuid of version 5 of a name (`uuid`). -/
structure Crates where
  floatText : UInt64 → String
  uuidText : TenantId → String
  uuidV5 : String → EvidenceId

/-- SOURCE: producers.rs:47-49 -/
def makeRef (source entityId : String) : String := source ++ ":" ++ entityId

/-- SOURCE: producers.rs:54-60 -/
def ordered (a b : String) : String × String := if a ≤ b then (a, b) else (b, a)

/-! ## The inputs of the producers -/

/-- SOURCE: producers.rs:72-80 -/
structure CrmContactFact where
  source : String
  entityId : String
  parentKind : String
  parentId : String
deriving DecidableEq, Repr

/-- SOURCE: producers.rs:87-96 -/
structure EmailFact where
  source : String
  entityId : String
  email : String
  keyNamespace : KeyNamespace
deriving DecidableEq, Repr

/-- SOURCE: producers.rs:104-112 -/
structure ExternalIdFact where
  source : String
  entityId : String
  idKind : String
  idValue : String
deriving DecidableEq, Repr

/-! ## The producers -/

/-- The entries of a hash map from keys to lists that a loop has pushed the elements to. -/
def groupsOf {α κ : Type} [DecidableEq κ] (key : α → κ) (l : List α) : List (κ × List α) :=
  (l.map key).reverse.dedup.reverse.map fun k => (k, l.filter fun a => key a = k)

/-- The pairs of an earlier and a later element. -/
def pairsOf {α : Type} : List α → List (α × α)
  | [] => []
  | a :: l => l.map (fun b => (a, b)) ++ pairsOf l

/-- The link of a child and its parent, both in the source of the child.
SOURCE: producers.rs:130-155 -/
def crmFkEdge (tenant : TenantId) (f : CrmContactFact) : Option EvidenceWrite :=
  let parentId := trim f.parentId
  let childId := trim f.entityId
  if parentId = "" ∨ childId = "" ∨ trim f.source = "" then none
  else
    let childRef := makeRef f.source childId
    let parentRef := makeRef f.source parentId
    if childRef = parentRef then none
    else
      let (leftRef, rightRef) := ordered childRef parentRef
      some
        { tenantId := tenant
          leftRef := leftRef
          rightRef := rightRef
          tier := 1
          method := "crm_fk"
          keyValue := some (trim f.parentKind ++ ":" ++ parentId)
          keyNamespace := none
          polarity := 1 }

/-- SOURCE: producers.rs:127-155 -/
def tier1CrmFkEvidence (tenant : TenantId) (facts : List CrmContactFact) : List EvidenceWrite :=
  facts.filterMap (crmFkEdge tenant)

/-- The links of every two refs of a group that share a key. -/
def pairEdges (tenant : TenantId) (method keyValue keyNamespace : String) (refs : List String) :
    List EvidenceWrite :=
  (pairsOf (sortDedup refs)).map fun p =>
    let (leftRef, rightRef) := ordered p.1 p.2
    { tenantId := tenant
      leftRef := leftRef
      rightRef := rightRef
      tier := 1
      method := method
      keyValue := some keyValue
      keyNamespace := some keyNamespace
      polarity := 1 }

/-- SOURCE: producers.rs:304-306 -/
def isTenantDenied (key : CanonKey) (denylist : List String) : Bool :=
  denylist.any fun d => eqIgnoreAsciiCase d key.value

/-- The key an email fact is grouped under and the ref it adds to the group.
SOURCE: producers.rs:180-195 -/
def emailMember (denylist : List String) (f : EmailFact) :
    Option ((KeyNamespace × String) × String) :=
  if trim f.source = "" ∨ trim f.entityId = "" then none
  else
    (canonicalizeEmail f.email f.keyNamespace).bind fun key =>
      if isTenantDenied key denylist then none
      else some ((key.keyNamespace, key.value), makeRef (trim f.source) (trim f.entityId))

/-- SOURCE: producers.rs:172-230 -/
def tier1EmailWithinNamespaceEvidence (tenant : TenantId) (facts : List EmailFact)
    (denylist : List String) : List EvidenceWrite :=
  let groups := groupsOf Prod.fst (facts.filterMap (emailMember denylist))
  (groups.flatMap fun g =>
    pairEdges tenant "email_exact" g.1.2 g.1.1.asStr (g.2.map Prod.snd)).insertionSort
      fun a b => toLex (a.leftRef, toLex (a.rightRef, a.keyValue.toList)) ≤
        toLex (b.leftRef, toLex (b.rightRef, b.keyValue.toList))

/-- SOURCE: producers.rs:246-263 -/
def externalIdMember (denylist : List String) (f : ExternalIdFact) :
    Option ((String × String) × String) :=
  let idValue := trim f.idValue
  let idKind := trim f.idKind
  if idValue = "" ∨ idKind = "" ∨ trim f.source = "" ∨ trim f.entityId = "" then none
  else if denylist.any fun d => eqIgnoreAsciiCase d idValue then none
  else some ((idKind, idValue), makeRef (trim f.source) (trim f.entityId))

/-- SOURCE: producers.rs:239-299 -/
def tier1ExternalIdEvidence (tenant : TenantId) (facts : List ExternalIdFact)
    (denylist : List String) : List EvidenceWrite :=
  let groups := groupsOf Prod.fst (facts.filterMap (externalIdMember denylist))
  (groups.flatMap fun g =>
    pairEdges tenant "external_id" g.1.2 g.1.1 (g.2.map Prod.snd)).insertionSort
      fun a b => toLex (a.leftRef, toLex (a.rightRef, a.keyNamespace.toList)) ≤
        toLex (b.leftRef, toLex (b.rightRef, b.keyNamespace.toList))

/-! ## From the current facts to the inputs -/

/-- The current facts of one entity. SOURCE: postgres.rs:18 -/
abbrev GroupedFacts := (String × String) × List (String × Json)

/-- A row goes to the last group when it is of the same entity. SOURCE: postgres.rs:1196-1207 -/
def pushFact (out : List GroupedFacts) (r : FactRow) : List GroupedFacts :=
  let key := (r.key.source, r.key.entityId)
  match out.getLast? with
  | some (k, fields) =>
    if k = key then out.dropLast ++ [(k, fields ++ [(r.key.field, r.value)])]
    else out ++ [(key, [(r.key.field, r.value)])]
  | none => out ++ [(key, [(r.key.field, r.value)])]

/-- SOURCE: postgres.rs:1185-1209 -/
def listCurrentFactsGrouped (facts : FactTable) (tenant : TenantId) : List GroupedFacts :=
  let rows := (facts.rows.filter fun r => r.tenantId = tenant ∧ r.validTo = none).insertionSort
    fun a b => toLex (a.key.source, toLex (a.key.entityId, a.key.field)) ≤
      toLex (b.key.source, toLex (b.key.entityId, b.key.field))
  rows.foldl pushFact []

/-- SOURCE: producers.rs:476-489 -/
def factStr (crates : Crates) (v : Json) : Option String :=
  let text : Option String :=
    match v with
    | .str s => some s
    | .posInt n => some (toString n.toNat)
    | .negInt n => some (toString n)
    | .float bits => some (crates.floatText bits)
    | .bool b => some (if b then "true" else "false")
    | .null | .arr _ | .obj _ => none
  (text.map trim).filter fun t => t ≠ ""

/-- SOURCE: producers.rs:492-500 -/
def fieldCi (fields : List (String × Json)) (name : String) : Option Json :=
  (fields.find? fun f => eqIgnoreAsciiCase f.1 name).map Prod.snd

/-- SOURCE: producers.rs:505-509 -/
structure Tier1Inputs where
  crmFks : List CrmContactFact
  emails : List EmailFact
  externalIds : List ExternalIdFact
deriving DecidableEq, Repr

/-- SOURCE: producers.rs:577 -/
def crmFkFields : List String := ["AccountId", "associatedcompanyid"]

/-- SOURCE: producers.rs:581-593 -/
def emailFields : List String :=
  ["Email", "email", "assignee.email", "assignee_email", "creator.email", "creator_email",
    "actor.email", "actor_email", "user.email", "user_email", "reporter.email"]

/-- SOURCE: producers.rs:600-606 -/
def isExternalIdField (lower : String) : Bool :=
  ["external_id", "stripe_customer_id", "stripe_customer", "duns", "duns_number"].contains lower

/-- SOURCE: producers.rs:526-574 -/
def mapEntityToInputs (crates : Crates) (inputs : Tier1Inputs) (entity : GroupedFacts) :
    Tier1Inputs :=
  let ((source, entityId), fields) := entity
  { crmFks := inputs.crmFks ++ crmFkFields.filterMap fun fkField =>
      ((fieldCi fields fkField).bind (factStr crates)).map fun parent =>
        ⟨source, entityId, "account", parent⟩
    emails := inputs.emails ++ emailFields.filterMap fun emailField =>
      ((fieldCi fields emailField).bind (factStr crates)).map fun raw =>
        ⟨source, entityId, raw, namespaceForSourceField source emailField⟩
    externalIds := inputs.externalIds ++ fields.filterMap fun f =>
      let lower := toAsciiLowercase f.1
      if isExternalIdField lower then
        (factStr crates f.2).map fun idValue => ⟨source, entityId, lower, idValue⟩
      else none }

def tier1Inputs (crates : Crates) (facts : FactTable) (tenant : TenantId) : Tier1Inputs :=
  (listCurrentFactsGrouped facts tenant).foldl (mapEntityToInputs crates) ⟨[], [], []⟩

/-! ## The run -/

/-- SOURCE: postgres.rs:1267-1306 -/
def ResolutionStore.readResolutionConfig (s : ResolutionStore) (tenant : TenantId)
    (keyKind keyNamespace : String) : EntityResolutionConfig :=
  (s.config.find? fun c =>
    c.tenantId = tenant ∧ c.keyKind = keyKind ∧ c.keyNamespace = keyNamespace).getD
      (EntityResolutionConfig.defaults tenant keyKind keyNamespace)

/-- What the producers emit from the current facts, each key kind under its configuration.
SOURCE: producers.rs:622-686 -/
def tier1Evidence (crates : Crates) (facts : FactTable) (s : ResolutionStore)
    (tenant : TenantId) : List EvidenceWrite :=
  let inputs := tier1Inputs crates facts tenant
  let emailEdges := (groupsOf (fun f => f.keyNamespace.asStr) inputs.emails).flatMap fun g =>
    let cfg := s.readResolutionConfig tenant KeyKind.email.asStr g.1
    if !cfg.eligibleAsEdge then []
    else tier1EmailWithinNamespaceEvidence tenant g.2 cfg.denylistValues
  let externalIdEdges := (groupsOf (fun f => trim f.idKind) inputs.externalIds).flatMap fun g =>
    if g.1 = "" then []
    else
      let cfg := s.readResolutionConfig tenant KeyKind.externalId.asStr g.1
      if !cfg.eligibleAsEdge then []
      else tier1ExternalIdEvidence tenant g.2 cfg.denylistValues
  tier1CrmFkEvidence tenant inputs.crmFks ++ emailEdges ++ externalIdEdges

/-- The name is the fields between zero characters. SOURCE: producers.rs:454-467 -/
def deterministicEvidenceId (crates : Crates) (ev : EvidenceWrite) : EvidenceId :=
  crates.uuidV5 ("\x00".intercalate
    [crates.uuidText ev.tenantId, ev.leftRef, ev.rightRef, ev.method, ev.keyValue.getD "",
      ev.keyNamespace.getD ""])

/-- `ON CONFLICT (evidence_id) DO NOTHING`, and whether a row was inserted.
SOURCE: postgres.rs:1148-1175 -/
def ResolutionStore.insertEvidenceWithId (s : ResolutionStore) (id : EvidenceId) (now : Time)
    (ev : EvidenceWrite) : ResolutionStore × Bool :=
  if s.evidence.any fun e => e.evidenceId = id then (s, false)
  else (s.insertEvidence id now ev, true)

/-- One write, and the count of the rows inserted so far. SOURCE: producers.rs:690-695 -/
def persistTier1 (crates : Crates) (now : Time) (acc : ResolutionStore × Nat)
    (w : EvidenceWrite) : ResolutionStore × Nat :=
  let (s, new) := acc.1.insertEvidenceWithId (deterministicEvidenceId crates w) now w
  (s, if new then acc.2 + 1 else acc.2)

/-- The run that inserts its writes in the given order; nothing when they are not the ones the
producers emit. SOURCE: producers.rs:622-699 -/
def produceTier1Evidence (crates : Crates) (now : Time) (facts : FactTable) (s : ResolutionStore)
    (tenant : TenantId) (writes : List EvidenceWrite) : Option (ResolutionStore × Nat) :=
  if writes.Perm (tier1Evidence crates facts s tenant) then
    some (writes.foldl (persistTier1 crates now) (s, 0))
  else none

/-- The tables the producers read and write. -/
structure ResolutionWorld where
  db : Database
  resolution : ResolutionStore

/-- What happens to the facts, to the configuration and to the ledger. A run of the producers
inserts its writes in some order. -/
inductive ResolutionEvent where
  | upsertFact (now : Time) (fact : FactWrite)
  | forget (now : Time) (tenant : TenantId) (ref : ForgetRef)
  | retireEntity (tenant : TenantId) (source entityId : String) (deletedAt : Time)
  | writeResolutionConfig (cfg : EntityResolutionConfig)
  | produce (now : Time) (tenant : TenantId) (writes : List EvidenceWrite)

namespace ResolutionWorld

/-- Tables of facts, and a ledger without evidence. -/
def boot (db : Database) : ResolutionWorld where
  db := db
  resolution := .start db.chunks

/-- One step. A write of a fact that fails does nothing. -/
def step (crates : Crates) (w : ResolutionWorld) : ResolutionEvent → Option ResolutionWorld
  | .upsertFact now fact =>
    match w.db.upsertFact now fact with
    | .error _ => some w
    | .ok (db, _) => some { w with db := db }
  | .forget now tenant ref => some { w with db := (w.db.forget now tenant ref).1 }
  | .retireEntity tenant source entityId deletedAt =>
    some { w with db := (w.db.retireEntity tenant source entityId deletedAt).1 }
  | .writeResolutionConfig cfg =>
    some { w with resolution := w.resolution.writeResolutionConfig cfg }
  | .produce now tenant writes =>
    (produceTier1Evidence crates now w.db.facts w.resolution tenant writes).map fun result =>
      { w with resolution := result.1 }

end ResolutionWorld

end Verity.Model
