import Mathlib.Data.List.Forall2
import Verity.Analysis.FactUpsert
import Verity.Model.AclCorrection
import Verity.Model.Recall

/-!
# What an un-share shows

A correction lays one visibility and one class over every row of a fact key or of a document
lineage, so that a history row answers to the ACL of now. An un-share takes the strictest
class among the current rows with it, and when its visibility lies in that of every current
row, a scope that sees any row afterwards could see every current row before. A superseded row
with a narrower ACL of its own does become wider: it answers to what the current rows
answered to.
-/

set_option autoImplicit false

namespace Verity.Analysis

open Verity.Model

/-! ## What a scope sees -/

/-- The ACL of a row lets the scope through, whatever entity the row is about. -/
def Clears (scope : Scope) (visibility : List PrincipalToken) (c : Confidentiality) : Prop :=
  (∃ p ∈ scope.principals, p ∈ visibility) ∧ c ≤ scope.maxConfidentiality

theorem Clears.mono {scope : Scope} {visibility visibility' : List PrincipalToken}
    {c c' : Confidentiality} (h : Clears scope visibility c) (hsub : visibility ⊆ visibility')
    (hclass : c' ≤ c) : Clears scope visibility' c' := by
  obtain ⟨⟨p, hp, hin⟩, hle⟩ := h
  exact ⟨⟨p, hp, hsub hin⟩, le_trans hclass hle⟩

/-- The fence of an entity-bound scope.
SOURCE: postgres.rs:3668-3675 -/
def entityFence (scope : Scope) (r : ChunkRow) : Bool :=
  scope.entityScope.isEmpty || decide (r.kind = "knowledge") ||
    (!r.entityTags.isEmpty && containedIn r.entityTags scope.entityScope)

/-- The scope part of a recall query, for a row of the lineage columns.
SOURCE: postgres.rs:3571-3582 -/
def chunkVisible (scope : Scope) (r : ChunkRow) : Bool :=
  overlaps r.visibility scope.principals &&
    decide (r.confidentiality ≤ scope.maxConfidentiality) && entityFence scope r

theorem chunkVisible_iff {scope : Scope} {r : ChunkRow} : chunkVisible scope r = true ↔
    Clears scope r.visibility r.confidentiality ∧ entityFence scope r = true := by
  simp only [chunkVisible, Clears, overlaps, Bool.and_eq_true, List.any_eq_true,
    List.contains_iff_mem, decide_eq_true_eq]
  constructor
  · rintro ⟨⟨⟨p, hvis, hin⟩, hle⟩, hfence⟩
    exact ⟨⟨⟨p, hin, hvis⟩, hle⟩, hfence⟩
  · rintro ⟨⟨⟨p, hin, hvis⟩, hle⟩, hfence⟩
    exact ⟨⟨⟨p, hvis, hin⟩, hle⟩, hfence⟩

theorem factVisible_iff {scope : Scope} {r : FactRow} : factVisible scope r = true ↔
    Clears scope r.visibility r.confidentiality ∧
      (scope.entityScope.isEmpty || scope.entityScope.contains r.key.entityId) = true := by
  simp only [factVisible, Scope.sees, Clears, Bool.and_eq_true, List.any_eq_true,
    List.contains_iff_mem, decide_eq_true_eq]

/-! ## The rows a correction is about -/

/-- The block of the request, as the dispatch reads it. -/
def requestedAcl (req : AclChangeRequest) : Option ResolvedAcl :=
  parseInlineAcl (.obj [("verity_acl", req.verityAcl)])

/-- A row of the fact key the request names. -/
def NamesFact (req : AclChangeRequest) (r : FactRow) : Prop :=
  ∃ fact, req.fact = some fact ∧ r.tenantId = req.tenantId ∧ r.key = req.factKey fact

/-- A row of the document lineage the request names. -/
def NamesChunk (req : AclChangeRequest) (r : ChunkRow) : Prop :=
  ∃ documentId, req.object = some documentId ∧ r.tenantId = req.tenantId ∧
    r.source = req.source ∧ r.documentId = documentId

/-- The new visibility lies in that of every current row. -/
def Narrows (s : Store) (req : AclChangeRequest) : Prop :=
  ∀ acl, requestedAcl req = some acl →
    (∀ r ∈ s.facts.rows, NamesFact req r → r.validTo = none → acl.visibility ⊆ r.visibility) ∧
    (∀ r ∈ s.chunks, NamesChunk req r → r.validTo = none → acl.visibility ⊆ r.visibility)

/-- No row, current or superseded, is visible to a scope that could not see it. -/
def NoneWidens (s s' : Store) : Prop :=
  ∀ scope,
    List.Forall₂ (fun r r' => factVisible scope r' = true → factVisible scope r = true)
      s.facts.rows s'.facts.rows ∧
    List.Forall₂ (fun r r' => chunkVisible scope r' = true → chunkVisible scope r = true)
      s.chunks s'.chunks

/-! ## What a correction does -/

/-- A correction leaves the store as it is, or rewrites one lineage, or one fact key. -/
theorem dispatchAclCorrection_cases (s : Store) (req : AclChangeRequest)
    (reason : AclCorrectionReason) (changedBy : String) :
    (dispatchAclCorrection s req reason changedBy).1 = s ∨
    (∃ acl documentId, requestedAcl req = some acl ∧ req.object = some documentId ∧
      (dispatchAclCorrection s req reason changedBy).1 =
        (s.correctChunkAcl req.tenantId req.source documentId acl.visibility
          (correctedConfidentiality reason acl.confidentiality
            (s.currentChunkConfidentiality req.tenantId req.source documentId))
          reason acl.provenance (some changedBy)).1) ∨
    (∃ acl fact, requestedAcl req = some acl ∧ req.fact = some fact ∧
      (dispatchAclCorrection s req reason changedBy).1 =
        (s.correctFactAcl req.tenantId (req.factKey fact) acl.visibility
          (correctedConfidentiality reason acl.confidentiality
            (currentFactConfidentiality s.facts req.tenantId (req.factKey fact)))
          reason acl.provenance (some changedBy)).1) := by
  unfold dispatchAclCorrection requestedAcl
  cases parseInlineAcl (.obj [("verity_acl", req.verityAcl)]) with
  | none => exact Or.inl rfl
  | some acl =>
    dsimp only
    split
    · exact Or.inl rfl
    · cases s.ensureTenant req.tenantId with
      | error e => exact Or.inl rfl
      | ok u =>
        dsimp only
        cases hobject : req.object with
        | some documentId =>
          cases req.fact with
          | some fact => exact Or.inl rfl
          | none =>
            refine Or.inr (Or.inl ⟨acl, documentId, rfl, rfl, ?_⟩)
            exact req.reply_fst _ _ _
        | none =>
          cases hfact : req.fact with
          | none => exact Or.inl rfl
          | some fact =>
            refine Or.inr (Or.inr ⟨acl, fact, rfl, rfl, ?_⟩)
            exact req.reply_fst _ _ _

/-- The class an un-share stamps is not below the one in force. -/
theorem le_correctedConfidentiality {requested c : Confidentiality}
    {current : Option Confidentiality} (h : current = some c) :
    c ≤ correctedConfidentiality .sourceUnshare requested current := by
  rw [h]
  exact le_max_right _ _

theorem le_currentChunkConfidentiality {s : Store} {tenant : TenantId} {source documentId : String}
    {r : ChunkRow} (hr : r ∈ s.lineage tenant source documentId) (hcurrent : r.validTo = none) :
    ∃ c, s.currentChunkConfidentiality tenant source documentId = some c ∧
      r.confidentiality ≤ c := by
  have hin : r.confidentiality ∈ ((s.lineage tenant source documentId).filter fun r =>
      r.validTo = none).map ChunkRow.confidentiality := by
    apply List.mem_map_of_mem
    rw [List.mem_filter]
    exact ⟨hr, by simpa using hcurrent⟩
  cases hmax : s.currentChunkConfidentiality tenant source documentId with
  | none =>
    unfold Store.currentChunkConfidentiality at hmax
    rw [List.max?_eq_none_iff] at hmax
    rw [hmax] at hin
    exact absurd hin List.not_mem_nil
  | some c => exact ⟨c, rfl, (List.max?_eq_some_iff.mp hmax).2 _ hin⟩

/-- A fact key has one current row at most, so its class is the one in force. -/
theorem currentFactConfidentiality_of_current {t : FactTable} {r : FactRow}
    (hr : r ∈ t.rows) (hcurrent : r.validTo = none) :
    currentFactConfidentiality t r.tenantId r.key = some r.confidentiality := by
  unfold currentFactConfidentiality
  rw [currentRow_eq_some_iff.mpr ⟨hr, rfl, rfl, hcurrent⟩, Option.map_some]

/-! ## Un-shares -/

/-- What a row may gain from an un-share: nothing, or, for a superseded row, the scopes that
could see every current row it was superseded by. -/
def Gains (current : Prop) (couldSeeCurrent : Prop) (before after : Bool) : Prop :=
  after = true → before = true ∨ (¬ current ∧ couldSeeCurrent)

/-- What a scope gains and loses in the chunks. -/
theorem chunks_unshare {s : Store} {req : AclChangeRequest} {acl : ResolvedAcl}
    {documentId : String} (hobject : req.object = some documentId)
    (hsub : ∀ r ∈ s.chunks, NamesChunk req r → r.validTo = none → acl.visibility ⊆ r.visibility)
    (provenance : AclProvenance) (changedBy : Option String) (scope : Scope) :
    List.Forall₂ (fun r r' => Gains (r.validTo = none)
        (NamesChunk req r ∧ ∀ cur ∈ s.chunks, NamesChunk req cur → cur.validTo = none →
          entityFence scope cur = true → chunkVisible scope cur = true)
        (chunkVisible scope r) (chunkVisible scope r'))
      s.chunks (s.correctChunkAcl req.tenantId req.source documentId acl.visibility
        (correctedConfidentiality .sourceUnshare acl.confidentiality
          (s.currentChunkConfidentiality req.tenantId req.source documentId))
        .sourceUnshare provenance changedBy).1.chunks := by
  have hcurrent : ∀ cur ∈ s.chunks, NamesChunk req cur → cur.validTo = none →
      Clears scope acl.visibility (correctedConfidentiality .sourceUnshare acl.confidentiality
        (s.currentChunkConfidentiality req.tenantId req.source documentId)) →
      Clears scope cur.visibility cur.confidentiality := by
    intro cur hcur hnames hnone hclears
    refine hclears.mono (hsub cur hcur hnames hnone) ?_
    obtain ⟨_, hdoc, htenant, hsource, hid⟩ := hnames
    obtain rfl := Option.some.inj (hobject.symm.trans hdoc)
    have hlineage : cur ∈ s.lineage req.tenantId req.source documentId := by
      unfold Store.lineage
      rw [List.mem_filter]
      exact ⟨hcur, by simp [htenant, hsource, hid]⟩
    obtain ⟨c, hc, hle⟩ := le_currentChunkConfidentiality hlineage hnone
    exact le_trans hle (le_correctedConfidentiality hc)
  refine List.forall₂_map_right_iff.mpr (List.forall₂_same.mpr ?_)
  intro r hr hafter
  split at hafter
  · rename_i hrow
    have hnames : NamesChunk req r := ⟨documentId, hobject, hrow⟩
    obtain ⟨hclears, hfence⟩ := chunkVisible_iff.mp hafter
    by_cases hnone : r.validTo = none
    · exact Or.inl (chunkVisible_iff.mpr ⟨hcurrent r hr hnames hnone hclears, hfence⟩)
    · refine Or.inr ⟨hnone, hnames, ?_⟩
      intro cur hcur hnames' hnone' hfence'
      exact chunkVisible_iff.mpr ⟨hcurrent cur hcur hnames' hnone' hclears, hfence'⟩
  · exact Or.inl hafter

/-- What a scope gains and loses in the facts. -/
theorem facts_unshare {s : Store} {req : AclChangeRequest} {acl : ResolvedAcl}
    {fact : String × String} (hfact : req.fact = some fact)
    (hsub : ∀ r ∈ s.facts.rows, NamesFact req r → r.validTo = none → acl.visibility ⊆ r.visibility)
    (provenance : AclProvenance) (changedBy : Option String) (scope : Scope) :
    List.Forall₂ (fun r r' => Gains (r.validTo = none)
        (NamesFact req r ∧ ∀ cur ∈ s.facts.rows, NamesFact req cur → cur.validTo = none →
          factVisible scope cur = true)
        (factVisible scope r) (factVisible scope r'))
      s.facts.rows (s.correctFactAcl req.tenantId (req.factKey fact) acl.visibility
        (correctedConfidentiality .sourceUnshare acl.confidentiality
          (currentFactConfidentiality s.facts req.tenantId (req.factKey fact)))
        .sourceUnshare provenance changedBy).1.facts.rows := by
  have hcurrent : ∀ cur ∈ s.facts.rows, NamesFact req cur → cur.validTo = none →
      Clears scope acl.visibility (correctedConfidentiality .sourceUnshare acl.confidentiality
        (currentFactConfidentiality s.facts req.tenantId (req.factKey fact))) →
      Clears scope cur.visibility cur.confidentiality := by
    intro cur hcur hnames hnone hclears
    refine hclears.mono (hsub cur hcur hnames hnone) ?_
    obtain ⟨_, hsome, htenant, hkey⟩ := hnames
    obtain rfl := Option.some.inj (hfact.symm.trans hsome)
    rw [← htenant, ← hkey]
    exact le_correctedConfidentiality (currentFactConfidentiality_of_current hcur hnone)
  refine List.forall₂_map_right_iff.mpr (List.forall₂_same.mpr ?_)
  intro r hr hafter
  split at hafter
  · rename_i hrow
    have hnames : NamesFact req r := ⟨fact, hfact, hrow⟩
    obtain ⟨hclears, hfence⟩ := factVisible_iff.mp hafter
    by_cases hnone : r.validTo = none
    · exact Or.inl (factVisible_iff.mpr ⟨hcurrent r hr hnames hnone hclears, hfence⟩)
    · refine Or.inr ⟨hnone, hnames, ?_⟩
      intro cur hcur hnames' hnone'
      -- all rows of the key are of one entity
      have hentity : cur.key = r.key := by
        obtain ⟨_, hsome, _, hkey⟩ := hnames'
        obtain rfl := Option.some.inj (hfact.symm.trans hsome)
        rw [hkey, hrow.2]
      refine factVisible_iff.mpr ⟨hcurrent cur hcur hnames' hnone' hclears, ?_⟩
      rw [hentity]
      exact hfence
  · exact Or.inl hafter

/-- An un-share whose visibility lies in that of every current row shows no current row to a
scope that could not see it, and a superseded row of the key or lineage only to scopes that
could see every current row of it (for a lineage, every one their fence lets through). -/
theorem unshare_widens_no_current_row (s : Store) (req : AclChangeRequest) (changedBy : String)
    (hnarrows : Narrows s req) (scope : Scope) :
    List.Forall₂ (fun r r' => Gains (r.validTo = none)
        (NamesFact req r ∧ ∀ cur ∈ s.facts.rows, NamesFact req cur → cur.validTo = none →
          factVisible scope cur = true)
        (factVisible scope r) (factVisible scope r'))
      s.facts.rows (dispatchAclCorrection s req .sourceUnshare changedBy).1.facts.rows ∧
    List.Forall₂ (fun r r' => Gains (r.validTo = none)
        (NamesChunk req r ∧ ∀ cur ∈ s.chunks, NamesChunk req cur → cur.validTo = none →
          entityFence scope cur = true → chunkVisible scope cur = true)
        (chunkVisible scope r) (chunkVisible scope r'))
      s.chunks (dispatchAclCorrection s req .sourceUnshare changedBy).1.chunks := by
  have hsame {α : Type} {R : α → α → Prop} (hR : ∀ r, R r r) (rows : List α) :
      List.Forall₂ R rows rows := List.forall₂_same.mpr fun r _ => hR r
  rcases dispatchAclCorrection_cases s req .sourceUnshare changedBy with
    heq | ⟨acl, documentId, hacl, hobject, heq⟩ | ⟨acl, fact, hacl, hfact, heq⟩
  · rw [heq]
    exact ⟨hsame (fun r => Or.inl) _, hsame (fun r => Or.inl) _⟩
  · rw [heq]
    exact ⟨hsame (fun r => Or.inl) _, chunks_unshare hobject (hnarrows acl hacl).2 _ _ scope⟩
  · rw [heq]
    exact ⟨facts_unshare hfact (hnarrows acl hacl).1 _ _ scope, hsame (fun r => Or.inl) _⟩

/-! ## A history row that was kept closer -/

/-- A plan first kept to token 1, then shared with tokens 1, 2 and 3. -/
def planLineage : Store where
  tenants := [1]
  facts := FactTable.empty
  chunks := [
    { id := 1, tenantId := 1, source := "gdrive", documentId := "plan", seq := 0,
      kind := "content", entityTags := [], visibility := [1], confidentiality := .internal,
      validTo := some 5 },
    { id := 2, tenantId := 1, source := "gdrive", documentId := "plan", seq := 0,
      kind := "content", entityTags := [], visibility := [1, 2, 3], confidentiality := .internal,
      validTo := none }]
  factAclAudit := []
  chunkAclAudit := []

/-- Token 3 loses the plan. -/
def unsharePlan : AclChangeRequest where
  tenantId := 1
  source := "gdrive"
  object := some "plan"
  fact := none
  verityAcl := .obj [("visibility", .arr [.posInt 1, .posInt 2])]

/-- Someone who holds token 2. -/
def secondReader : Scope where
  tenantId := 1
  principals := [2]
  entityScope := []
  maxConfidentiality := .internal

/-- What tokens 1 and 2 keep is within what the current plan shows. -/
theorem narrows_unsharePlan : Narrows planLineage unsharePlan := by
  have hacl : requestedAcl unsharePlan = some ⟨[1, 2], .internal, .mirrored⟩ := by
    decide +kernel
  intro acl hsome
  obtain rfl := Option.some.inj (hacl.symm.trans hsome)
  refine ⟨fun r hr => absurd hr List.not_mem_nil, ?_⟩
  intro r hr _ hnone
  rcases List.mem_pair.mp hr with rfl | rfl
  · cases hnone
  · decide

/-- After the un-share token 2 reaches the version that only token 1 could read. -/
theorem unshare_shows_kept_version : ¬ ∀ (s : Store) (req : AclChangeRequest)
    (changedBy : String), Narrows s req →
      NoneWidens s (dispatchAclCorrection s req .sourceUnshare changedBy).1 := by
  intro h
  have hwidens := (h planLineage unsharePlan "connector" narrows_unsharePlan secondReader).2
  have hafter :
      (dispatchAclCorrection planLineage unsharePlan .sourceUnshare "connector").1.chunks =
      planLineage.chunks.map fun r => { r with visibility := [1, 2] } := by decide +kernel
  rw [hafter, List.forall₂_map_right_iff] at hwidens
  have hfirst := List.forall₂_same.mp hwidens _ List.mem_cons_self
  exact absurd (hfirst (by decide)) (by decide)

/-- The correction gains the second reader only rows of the history, of a document whose current row
the reader could see. -/
theorem unshare_plan_widens_no_current_row :
    List.Forall₂ (fun r r' => Gains (r.validTo = none)
        (NamesChunk unsharePlan r ∧ ∀ cur ∈ planLineage.chunks, NamesChunk unsharePlan cur →
          cur.validTo = none → entityFence secondReader cur = true →
            chunkVisible secondReader cur = true)
        (chunkVisible secondReader r) (chunkVisible secondReader r'))
      planLineage.chunks
      (dispatchAclCorrection planLineage unsharePlan .sourceUnshare "connector").1.chunks :=
  (unshare_widens_no_current_row planLineage unsharePlan "connector" narrows_unsharePlan
    secondReader).2

end Verity.Analysis
