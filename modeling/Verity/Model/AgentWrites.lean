import Verity.Model.ReadPath
import Verity.Model.Recall

/-!
# What agents write

The two verbs that store what an agent says: `remember` and `record_action`. `remember` decides
who may read an observation: with declared lineage, those who may read every input; with an
explicit policy, those it names, within a ceiling; otherwise the writer's compiled scope. It
writes an episode and then a chunk. `record_action` writes an episode, an action and a chunk in
one transaction.

Everything is decided before anything is written, and every storage call is taken to succeed:
a refusal is an answer of the handler. A uuid is written in messages as its number. The
embedding, the content hashes, the audit log and the freshness samples are left out.
-/

set_option autoImplicit false

namespace Verity.Model

/-! ## The tables -/

/-- SOURCE: types.rs:233-241 -/
inductive EpisodeKind where
  | cdcEvent
  | webhook
  | docVersion
  | observation
  | agentAction
  | knowledgePublish
  | webSnapshot
deriving DecidableEq, Repr

/-- SOURCE: types.rs:428-432 -/
inductive ActionOutcome where
  | succeeded
  | failed
  | pending
deriving DecidableEq, Repr

/-- SOURCE: types.rs:448-463 -/
structure ActionWrite where
  tenantId : TenantId
  actionId : String
  actorSub : Option String
  actorAzp : Option String
  actionType : String
  entities : List String
  summary : String
  payload : Json
  outcome : ActionOutcome
  occurredAt : Instant
  visibility : List PrincipalToken
  confidentiality : Confidentiality
deriving DecidableEq

/-- The payloads the agent verbs give an episode, and that of any other. -/
inductive EpisodePayload where
  | observation (observation : String) (entities : List String) (derivedFrom : List EpisodeId)
  | action (write : ActionWrite)
  | other (payload : Json)
deriving DecidableEq

/-- A row of `episodes`. SOURCE: migrations/0001_init.sql:15-27 -/
structure Episode where
  id : EpisodeId
  tenantId : TenantId
  source : String
  sourceEntity : Option String
  kind : EpisodeKind
  payload : EpisodePayload
  trustTier : TrustTier
  writerSub : Option String
  writerAzp : Option String
  recordedAt : Time
deriving DecidableEq

/-- A row of `actions`. SOURCE: migrations/0002_actions.sql:5-22 -/
structure ActionRow where
  id : Nat
  write : ActionWrite
  recordedAt : Time
  provenance : EpisodeId
deriving DecidableEq

/-- The tables the agent verbs write, with the supply of fresh episode ids. -/
structure MemoryStore where
  episodes : List Episode
  nextEpisode : EpisodeId
  chunks : ChunkTable
  actions : List ActionRow

/-- SOURCE: postgres.rs:3870-3876 -/
def MemoryStore.appendEpisode (store : MemoryStore) (now : Time) (tenant : TenantId)
    (sourceEntity : Option String) (kind : EpisodeKind) (payload : EpisodePayload)
    (writerSub writerAzp : Option String) : MemoryStore :=
  { store with
    nextEpisode := store.nextEpisode + 1
    episodes := store.episodes ++ [
      { id := store.nextEpisode
        tenantId := tenant
        source := "agent"
        sourceEntity := sourceEntity
        kind := kind
        payload := payload
        trustTier := .observation
        writerSub := writerSub
        writerAzp := writerAzp
        recordedAt := now }] }

/-! ## Entities, lineage and policy -/

/-- A bound scope lends its entities to a write that names none, and refuses others.
SOURCE: main.rs:673-691 -/
def resolveEntities (payload : ScopePayload) (requested : List String) :
    Except HandlerError (List String) :=
  if payload.entityScope.isEmpty then .ok requested
  else if requested.isEmpty then .ok payload.entityScope
  else if containedIn requested payload.entityScope then .ok requested
  else .error ⟨403, "entities outside the scope's entity_scope"⟩

/-- SOURCE: types.rs:348-353 -/
structure DerivationInput where
  reference : Nat
  episodeId : EpisodeId
  visibility : List PrincipalToken
  confidentiality : Confidentiality
deriving DecidableEq, Repr

/-- The row is the chunk of that id, or a chunk of the episode of that id. -/
def Chunk.named (c : Chunk) (reference : Nat) : Bool :=
  decide (c.id = reference) || decide (c.provenance = reference)

/-- What the loop over the rows has of one ref so far. SOURCE: postgres.rs:4187-4189 -/
structure DerivationAcc where
  episodeId : Option EpisodeId
  visibility : Option (List PrincipalToken)
  confidentiality : Confidentiality
deriving DecidableEq, Repr

/-- SOURCE: postgres.rs:4190-4206 -/
def DerivationAcc.addRow (reference : Nat) (acc : DerivationAcc) (c : Chunk) : DerivationAcc :=
  if !c.named reference then acc
  else
    { episodeId := some c.provenance
      confidentiality := max acc.confidentiality c.confidentiality
      visibility := some (
        match acc.visibility with
        | none => c.visibility
        | some vis => vis.filter fun t => t ∈ c.visibility) }

/-- SOURCE: postgres.rs:4186-4216 -/
def derivationInput (rows : List Chunk) (reference : Nat) : Option DerivationInput :=
  let acc := rows.foldl (DerivationAcc.addRow reference) ⟨none, none, .publicClass⟩
  match acc.episodeId, acc.visibility with
  | some episodeId, some visibility => some ⟨reference, episodeId, visibility, acc.confidentiality⟩
  | _, _ => none

/-- The refs resolve under the predicate of recall.
SOURCE: postgres.rs:4145-4219 -/
def resolveDerivationInputs (chunks : ChunkTable) (scope : Scope) (refs : List Nat) :
    List DerivationInput :=
  if scope.principals.isEmpty || refs.isEmpty then []
  else
    let rows := chunks.rows.filter fun c => recallDense scope c && refs.any c.named
    refs.filterMap (derivationInput rows)

/-- `str` in `{:?}`: quotes, backslashes and the common control characters are escaped. -/
def debugStr (s : String) : String :=
  let escape (c : Char) : String :=
    match c with
    | '"' => "\\\""
    | '\\' => "\\\\"
    | '\n' => "\\n"
    | '\r' => "\\r"
    | '\t' => "\\t"
    | c => c.toString
  "\"" ++ s.toList.foldl (fun acc c => acc ++ escape c) "" ++ "\""

/-- SOURCE: main.rs:4449-4456 -/
def policyError (principal ceilingDesc : String) : HandlerError :=
  ⟨422, "visibility_policy principal " ++ debugStr principal ++ " is not within " ++ ceilingDesc ++
    " — a policy may narrow visibility, never widen it"⟩

/-- One principal of a policy: its token, if it has one within the ceiling.
SOURCE: main.rs:4437-4459 -/
def policyToken (principals : PrincipalTable) (tenant : TenantId)
    (ceiling : List PrincipalToken) (ceilingDesc : String) (tokens : List PrincipalToken)
    (principal : String) : Except HandlerError (List PrincipalToken) :=
  match principals.tokenOf tenant principal with
  | some token =>
    if ceiling.contains token then
      .ok (if tokens.contains token then tokens else tokens ++ [token])
    else .error (policyError principal ceilingDesc)
  | none => .error (policyError principal ceilingDesc)

/-- SOURCE: main.rs:4420-4461 -/
def resolveVisibilityPolicy (principals : PrincipalTable) (scope : Scope) (policy : List String)
    (ceiling : List PrincipalToken) (ceilingDesc : String) :
    Except HandlerError (List PrincipalToken) :=
  policy.foldlM (policyToken principals scope.tenantId ceiling ceilingDesc) []

/-! ## remember -/

/-- The body, without the handle. SOURCE: main.rs:4383-4407 -/
structure RememberRequest where
  observation : String
  entities : List String
  derivedFrom : Option (List Nat)
  visibilityPolicy : Option (List String)
deriving DecidableEq, Repr

/-- What is shared by the inputs a write declares. -/
structure Lineage where
  visibility : List PrincipalToken
  confidentiality : Confidentiality
  episodes : List EpisodeId
deriving DecidableEq, Repr

/-- The intersection of the visibilities, the greatest class, and the episodes once each.
SOURCE: main.rs:4521-4533 -/
def lineageOf (first : DerivationInput) (inputs : List DerivationInput) : Lineage :=
  inputs.foldl (fun l input =>
    { visibility := l.visibility.filter fun t => t ∈ input.visibility
      confidentiality := max l.confidentiality input.confidentiality
      episodes :=
        if input.episodeId ∈ l.episodes then l.episodes else l.episodes ++ [input.episodeId] })
    ⟨first.visibility, first.confidentiality, []⟩

/-- A ref the writer cannot see refuses the whole write. With every ref resolved there is a
first input. SOURCE: main.rs:4485-4535 -/
def resolveLineage (chunks : ChunkTable) (scope : Scope) (refs : List Nat) :
    Except HandlerError (Option Lineage) :=
  if refs.isEmpty then .ok none
  else
    let inputs := resolveDerivationInputs chunks scope refs
    let unresolved := refs.filter fun r => !(inputs.map DerivationInput.reference).contains r
    if !unresolved.isEmpty then
      .error ⟨403, "derived_from refs not visible in this scope: [" ++
        String.intercalate ", " (unresolved.map toString) ++ "] — nothing was written"⟩
    else
      match inputs with
      | first :: rest => .ok (some (lineageOf first (first :: rest)))
      | [] => .ok none

/-- The audience of a write. -/
structure WriteAcl where
  visibility : List PrincipalToken
  aclProvenance : AclProvenance
  confidentiality : Confidentiality
deriving DecidableEq, Repr

/-- SOURCE: main.rs:4537-4628 -/
def rememberAcl (requireLineage : Bool) (principals : PrincipalTable) (scope : Scope)
    (payload : ScopePayload) (lineage : Option Lineage) (policy : Option (List String)) :
    Except HandlerError WriteAcl :=
  match lineage, policy with
  | some l, some policy => do
      let tokens ← resolveVisibilityPolicy principals scope policy l.visibility
        ("the lineage intersection (with declared derived_from, " ++
          "a policy may only narrow within the inputs' shared audience)")
      pure ⟨tokens, .declared, l.confidentiality⟩
  | none, some policy =>
    if requireLineage then
      .error ⟨422, "VERITY_REMEMBER_REQUIRE_LINEAGE is set: " ++
        "remember requires derived_from lineage; " ++
        "an explicit visibility_policy alone does not satisfy it"⟩
    else do
      let tokens ← resolveVisibilityPolicy principals scope policy scope.principals
        "the writer's own principal set"
      pure ⟨tokens, .declared, payload.maxConfidentiality⟩
  | some l, none => .ok ⟨l.visibility, .derived, l.confidentiality⟩
  | none, none =>
    if requireLineage then
      .error ⟨422, "VERITY_REMEMBER_REQUIRE_LINEAGE is set: " ++
        "remember requires derived_from lineage"⟩
    else .ok ⟨scope.principals, .writerScoped, payload.maxConfidentiality⟩

/-- SOURCE: main.rs:4692-4706 -/
structure RememberReply where
  episodeId : EpisodeId
  visibilityCount : Nat
  aclProvenance : AclProvenance
  hint : Option String
deriving DecidableEq, Repr

/-- The chunk an observation is stored as. SOURCE: main.rs:4660-4680 -/
def observationChunk (payload : ScopePayload) (episodeId : EpisodeId) (observation : String)
    (entities : List String) (acl : WriteAcl) (derivedEpisodes : List EpisodeId) (now : Time) :
    ChunkWrite where
  tenantId := payload.tenantId
  source := "agent"
  documentId := "obs:" ++ toString episodeId
  seq := 0
  content := observation
  visibility := acl.visibility
  entityTags := entities
  confidentiality := acl.confidentiality
  trustTier := .observation
  validFrom := now
  provenance := episodeId
  aclProvenance := acl.aclProvenance
  derivedFrom := derivedEpisodes

/-- The episode, then the chunk. SOURCE: main.rs:4630-4682 -/
def writeObservation (store : MemoryStore) (payload : ScopePayload) (observation : String)
    (entities : List String) (acl : WriteAcl) (derivedEpisodes : List EpisodeId) (now : Time) :
    MemoryStore :=
  let episodeId := store.nextEpisode
  let store := store.appendEpisode now payload.tenantId entities.head? .observation
    (.observation observation entities derivedEpisodes) payload.actorSub payload.actorAzp
  { store with
    chunks := store.chunks.upsertChunks now
      [observationChunk payload episodeId observation entities acl derivedEpisodes now] }

/-- The handler under a compiled scope, with the entities resolved. -/
def rememberUnder (requireLineage : Bool) (principals : PrincipalTable) (scope : Scope)
    (store : MemoryStore) (payload : ScopePayload) (entities : List String)
    (req : RememberRequest) (now : Time) : MemoryStore × Except HandlerError RememberReply :=
  let decision : Except HandlerError (Option Lineage × WriteAcl) := do
    let lineage ← resolveLineage store.chunks scope (req.derivedFrom.getD [])
    let acl ← rememberAcl requireLineage principals scope payload lineage req.visibilityPolicy
    pure (lineage, acl)
  match decision with
  | .error e => (store, .error e)
  | .ok (lineage, acl) =>
    let derivedEpisodes := (lineage.map Lineage.episodes).getD []
    (writeObservation store payload req.observation entities acl derivedEpisodes now,
      .ok
        { episodeId := store.nextEpisode
          visibilityCount := acl.visibility.length
          aclProvenance := acl.aclProvenance
          hint :=
            if acl.visibility.isEmpty then
              some ("empty visibility: narrow derived_from to the inputs actually used, " ++
                "or pass visibility_policy")
            else none })

/-- `payload` is that of the verified handle. SOURCE: main.rs:4463-4708 -/
def remember (st : AppState) (requireLineage : Bool) (store : MemoryStore) (payload : ScopePayload)
    (req : RememberRequest) (clock : Clock) : MemoryStore × Except HandlerError RememberReply :=
  match resolveEntities payload req.entities with
  | .error e => (store, .error e)
  | .ok entities =>
    match st.scopeFor payload clock with
    | .error e => (store, .error e)
    | .ok (principals, scope) =>
      rememberUnder requireLineage principals scope store payload entities req clock.now

/-! ## record_action -/

/-- The body, without the handle. SOURCE: main.rs:4721-4732 -/
structure RecordActionRequest where
  actionId : String
  actionType : String
  entities : List String
  summary : String
  payload : Json
  outcome : ActionOutcome
  occurredAt : Instant
deriving DecidableEq

/-- The summary of an action as a chunk. SOURCE: postgres.rs:5773-5806 -/
def actionChunk (a : ActionWrite) (episode : EpisodeId) : ChunkWrite where
  tenantId := a.tenantId
  source := "agent"
  documentId := "action:" ++ a.actionId
  seq := 0
  content := a.actionType ++ ": " ++ a.summary
  visibility := a.visibility
  entityTags := a.entities
  confidentiality := a.confidentiality
  trustTier := .observation
  validFrom := a.occurredAt
  provenance := episode
  aclProvenance := .adminAssigned
  derivedFrom := []

/-- A replay of an action id writes nothing. SOURCE: postgres.rs:4221-4275 -/
def MemoryStore.recordAction (store : MemoryStore) (now : Time) (a : ActionWrite) :
    MemoryStore × Bool :=
  if store.actions.any fun r => r.write.tenantId = a.tenantId ∧ r.write.actionId = a.actionId then
    (store, false)
  else
    let episode := store.nextEpisode
    let store := store.appendEpisode now a.tenantId (some a.actionId) .agentAction (.action a)
      a.actorSub a.actorAzp
    ({ store with
        actions := store.actions ++ [⟨store.actions.length, a, now, episode⟩]
        chunks := store.chunks.insert now (actionChunk a episode) }, true)

/-- The visibility is the handle's own principal list. SOURCE: main.rs:4734-4760 -/
def recordAction (store : MemoryStore) (payload : ScopePayload) (req : RecordActionRequest)
    (now : Time) : MemoryStore × Except HandlerError Bool :=
  match resolveEntities payload req.entities with
  | .error e => (store, .error e)
  | .ok entities =>
    let (store, recorded) := store.recordAction now
      { tenantId := payload.tenantId
        actionId := req.actionId
        actorSub := payload.actorSub
        actorAzp := payload.actorAzp
        actionType := req.actionType
        entities := entities
        summary := req.summary
        payload := req.payload
        outcome := req.outcome
        occurredAt := req.occurredAt
        visibility := payload.principals
        confidentiality := payload.maxConfidentiality }
    (store, .ok recorded)

end Verity.Model
