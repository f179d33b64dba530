import Verity.Foundation.Fallible
import Verity.Foundation.Label
import Verity.Foundation.Run
import Verity.Model.AgentWrites

/-!
# Derived writes

A chunk that `remember` stores with declared lineage lies under every chunk its refs named:
its audience is part of theirs and its class is at least theirs. The label is computed in two
stages, over the rows of each ref and over the refs, and a policy can only narrow it; both
stages are meets. As no write changes the label of a stored row, this carries along chains of
citations.

Without lineage the audience of what `remember` stores is part of the compiled scope.
-/

set_option autoImplicit false

namespace Verity.Analysis

open Verity.Model Verity.Foundation

variable {reference : Nat} {acc : DerivationAcc} {c : Chunk} {rows : List Chunk}
  {input : DerivationInput} {chunks : ChunkTable} {scope : Scope} {refs : List Nat}
  {principals : PrincipalTable} {payload : ScopePayload} {acl : WriteAcl}

/-! ## Labels -/

/-- Who may read the chunk, and its class. -/
def labelOf (c : Chunk) : Label PrincipalToken Confidentiality := ⟨c.visibility, c.confidentiality⟩

def inputLabel (i : DerivationInput) : Label PrincipalToken Confidentiality :=
  ⟨i.visibility, i.confidentiality⟩

def lineageLabel (l : Lineage) : Label PrincipalToken Confidentiality :=
  ⟨l.visibility, l.confidentiality⟩

/-- A row that is named narrows what the loop has so far, and brings it under itself. -/
theorem addRow_under {vis : List PrincipalToken}
    (h : (acc.addRow reference c).visibility = some vis) :
    (∀ vis₀, acc.visibility = some vis₀ →
      Label.Under ⟨vis, (acc.addRow reference c).confidentiality⟩ ⟨vis₀, acc.confidentiality⟩) ∧
    (c.named reference = true →
      Label.Under ⟨vis, (acc.addRow reference c).confidentiality⟩ (labelOf c)) := by
  unfold DerivationAcc.addRow at h ⊢
  cases hnamed : c.named reference with
  | false =>
    simp only [hnamed, Bool.not_false, if_true] at h ⊢
    refine ⟨?_, by simp⟩
    intro vis₀ hvis₀
    obtain rfl := Option.some.inj (h.symm.trans hvis₀)
    exact Label.Under.refl _
  | true =>
    simp only [hnamed, Bool.not_true, Bool.false_eq_true, if_false] at h ⊢
    cases hacc : acc.visibility with
    | none =>
      rw [hacc] at h
      obtain rfl := Option.some.inj h
      exact ⟨by simp, fun _ => ⟨List.Subset.refl _, le_max_right _ _⟩⟩
    | some vis₁ =>
      rw [hacc] at h
      obtain rfl := Option.some.inj h
      have hrow := Label.meet_under_right ⟨vis₁, acc.confidentiality⟩ (labelOf c)
      have hacc' := Label.meet_under_left ⟨vis₁, acc.confidentiality⟩ (labelOf c)
      refine ⟨?_, fun _ => hrow⟩
      intro vis₀ hvis₀
      obtain rfl := Option.some.inj hvis₀
      exact hacc'

/-- Once a visibility is there, it stays there. -/
theorem addRow_isSome (h : acc.visibility.isSome) : (acc.addRow reference c).visibility.isSome := by
  unfold DerivationAcc.addRow
  split
  · exact h
  · rfl

/-- The loop over the rows of a ref: the result lies under every row that the ref names. -/
theorem foldl_addRow_under {vis : List PrincipalToken}
    (h : (rows.foldl (DerivationAcc.addRow reference) acc).visibility = some vis) :
    (∀ vis₀, acc.visibility = some vis₀ →
      Label.Under ⟨vis, (rows.foldl (DerivationAcc.addRow reference) acc).confidentiality⟩
        ⟨vis₀, acc.confidentiality⟩) ∧
    ∀ c ∈ rows, c.named reference = true →
      Label.Under ⟨vis, (rows.foldl (DerivationAcc.addRow reference) acc).confidentiality⟩
        (labelOf c) := by
  induction rows generalizing acc with
  | nil =>
    refine ⟨?_, by simp⟩
    intro vis₀ hvis₀
    obtain rfl := Option.some.inj (h.symm.trans hvis₀)
    exact Label.Under.refl _
  | cons c rows ih =>
    rw [List.foldl_cons] at h ⊢
    obtain ⟨hstart, hrows⟩ := ih h
    constructor
    · intro vis₀ hvis₀
      have hsome : (acc.addRow reference c).visibility.isSome :=
        addRow_isSome (by rw [hvis₀]; rfl)
      obtain ⟨vis₁, hvis₁⟩ := Option.isSome_iff_exists.mp hsome
      exact (hstart vis₁ hvis₁).trans ((addRow_under hvis₁).1 vis₀ hvis₀)
    · intro c' hc' hnamed
      rcases List.mem_cons.mp hc' with rfl | hc'
      · have hsome : (acc.addRow reference c').visibility.isSome := by
          unfold DerivationAcc.addRow
          simp [hnamed]
        obtain ⟨vis₁, hvis₁⟩ := Option.isSome_iff_exists.mp hsome
        exact (hstart vis₁ hvis₁).trans ((addRow_under hvis₁).2 hnamed)
      · exact hrows c' hc' hnamed

/-- An input lies under every row its ref names. -/
theorem derivationInput_under (h : derivationInput rows reference = some input) (hc : c ∈ rows)
    (hnamed : c.named reference = true) : (inputLabel input).Under (labelOf c) := by
  unfold derivationInput at h
  dsimp only at h
  split at h
  · rename_i hvisibility
    obtain rfl := Option.some.inj h
    exact (foldl_addRow_under hvisibility).2 c hc hnamed
  · exact absurd h (by simp)

theorem derivationInput_reference (h : derivationInput rows reference = some input) :
    input.reference = reference := by
  unfold derivationInput at h
  dsimp only at h
  split at h
  · obtain rfl := Option.some.inj h
    rfl
  · exact absurd h (by simp)

/-- The loop over the inputs is a meet. -/
theorem lineageLabel_lineageOf (first : DerivationInput) (inputs : List DerivationInput) :
    lineageLabel (lineageOf first inputs) = (inputLabel first).meetAll (inputs.map inputLabel) := by
  have hfold : ∀ l : Lineage,
      lineageLabel (inputs.foldl (fun l input =>
        { visibility := l.visibility.filter fun t => t ∈ input.visibility
          confidentiality := max l.confidentiality input.confidentiality
          episodes :=
            if input.episodeId ∈ l.episodes then l.episodes
            else l.episodes ++ [input.episodeId] }) l) =
        (lineageLabel l).meetAll (inputs.map inputLabel) := by
    induction inputs with
    | nil => exact fun l => rfl
    | cons input inputs ih =>
      intro l
      rw [List.foldl_cons, ih]
      rfl
  exact hfold _

/-! ## The lineage of a write -/

/-- The chunks a write cites: those the writer's scope admits that a ref names. -/
def citedRows (scope : Scope) (refs : List Nat) (chunks : ChunkTable) : List Chunk :=
  chunks.rows.filter fun c => recallDense scope c && refs.any c.named

theorem mem_resolveDerivationInputs (h : input ∈ resolveDerivationInputs chunks scope refs) :
    ∃ r ∈ refs, derivationInput (citedRows scope refs chunks) r = some input := by
  unfold resolveDerivationInputs at h
  split at h
  · exact absurd h List.not_mem_nil
  · exact List.mem_filterMap.mp h

/-- Lineage that resolves lies under every cited chunk. -/
theorem resolveLineage_under {l : Lineage} (h : resolveLineage chunks scope refs = .ok (some l))
    (hc : c ∈ citedRows scope refs chunks) : (lineageLabel l).Under (labelOf c) := by
  unfold resolveLineage at h
  split at h
  · exact absurd h (by simp)
  · dsimp only at h
    split at h
    · exact absurd h (by simp)
    · rename_i hresolved
      have hrefs : ∀ r ∈ refs, ∃ input ∈ resolveDerivationInputs chunks scope refs,
          input.reference = r := by
        simpa [List.filter_eq_nil_iff] using hresolved
      split at h
      · rename_i first rest hinputs
        obtain rfl := Option.some.inj (Except.ok.inj h)
        rw [lineageLabel_lineageOf]
        -- the ref that names the chunk has an input, and the input lies under the chunk
        obtain ⟨r, hr, hnamed⟩ := List.any_eq_true.mp (Bool.and_eq_true_iff.mp
          (List.mem_filter.mp hc).2).2
        obtain ⟨input, hinput, hreference⟩ := hrefs r hr
        obtain ⟨r', _, hderived⟩ := mem_resolveDerivationInputs hinput
        obtain rfl : r' = r := (derivationInput_reference hderived).symm.trans hreference
        rw [hinputs] at hinput
        exact (Label.meetAll_under_mem (inputLabel first) (List.mem_map_of_mem hinput)).trans
          (derivationInput_under hderived hc hnamed)
      · exact absurd h (by simp)

/-- With refs, a write that is not refused has lineage. -/
theorem resolveLineage_isSome {lineage : Option Lineage}
    (h : resolveLineage chunks scope refs = .ok lineage) (hrefs : refs ≠ []) :
    ∃ l, lineage = some l := by
  unfold resolveLineage at h
  rw [if_neg (by simpa using hrefs)] at h
  dsimp only at h
  split at h
  · exact absurd h (by simp)
  · rename_i hresolved
    split at h
    · exact ⟨_, (Except.ok.inj h).symm⟩
    · rename_i hinputs
      obtain ⟨r, rest, rfl⟩ := List.exists_cons_of_ne_nil hrefs
      simp [hinputs] at hresolved

theorem resolveLineage_nil (chunks : ChunkTable) (scope : Scope) :
    resolveLineage chunks scope [] = .ok none := rfl

/-- One principal adds a token of the ceiling. -/
theorem policyToken_subset {tenant : TenantId} {ceiling start tokens : List PrincipalToken}
    {ceilingDesc principal : String} (hstart : start ⊆ ceiling)
    (h : policyToken principals tenant ceiling ceilingDesc start principal = .ok tokens) :
    tokens ⊆ ceiling := by
  unfold policyToken at h
  split at h
  · split at h
    · rename_i hceiling
      obtain rfl := Except.ok.inj h
      split
      · exact hstart
      · exact List.append_subset.mpr ⟨hstart, by simpa using hceiling⟩
    · exact absurd h (by simp)
  · exact absurd h (by simp)

/-- A policy yields tokens of its ceiling. -/
theorem resolveVisibilityPolicy_subset {policy : List String} {ceiling tokens : List PrincipalToken}
    {ceilingDesc : String}
    (h : resolveVisibilityPolicy principals scope policy ceiling ceilingDesc = .ok tokens) :
    tokens ⊆ ceiling :=
  foldlM_invariant (I := fun tokens => tokens ⊆ ceiling)
    (fun _ _ _ hstart hstep => policyToken_subset hstart hstep) (List.nil_subset _) h

/-- The audience of a write lies under its lineage; without lineage, in the scope. -/
theorem rememberAcl_under {requireLineage : Bool} {lineage : Option Lineage}
    {policy : Option (List String)}
    (h : rememberAcl requireLineage principals scope payload lineage policy = .ok acl) :
    (∀ l, lineage = some l →
      Label.Under ⟨acl.visibility, acl.confidentiality⟩ (lineageLabel l)) ∧
    (lineage = none → acl.visibility ⊆ scope.principals) := by
  unfold rememberAcl at h
  split at h
  · obtain ⟨tokens, htokens, hacl⟩ := exists_of_bind_eq_ok h
    obtain rfl := Except.ok.inj hacl
    refine ⟨?_, by simp⟩
    intro l' hl'
    obtain rfl := Option.some.inj hl'
    exact ⟨resolveVisibilityPolicy_subset htokens, le_refl _⟩
  · split at h
    · exact absurd h (by simp)
    · obtain ⟨tokens, htokens, hacl⟩ := exists_of_bind_eq_ok h
      obtain rfl := Except.ok.inj hacl
      exact ⟨by simp, fun _ => resolveVisibilityPolicy_subset htokens⟩
  · obtain rfl := Except.ok.inj h
    refine ⟨?_, by simp⟩
    intro l' hl'
    obtain rfl := Option.some.inj hl'
    exact Label.Under.refl _
  · split at h
    · exact absurd h (by simp)
    · obtain rfl := Except.ok.inj h
      exact ⟨by simp, fun _ => List.Subset.refl _⟩

/-! ## One call -/

/-- A call leaves the store as it is, or stores one observation that lies under what it cites
or, without refs, in the compiled scope. -/
theorem remember_cases (st : AppState) (requireLineage : Bool) (store : MemoryStore)
    (payload : ScopePayload) (req : RememberRequest) (clock : Clock) :
    ((remember st requireLineage store payload req clock).1 = store ∧
      ∃ e, (remember st requireLineage store payload req clock).2 = .error e) ∨
    ∃ table scope entities acl episodes,
      st.scopeFor payload clock = .ok (table, scope) ∧
      (remember st requireLineage store payload req clock).1 =
        writeObservation store payload req.observation entities acl episodes clock.now ∧
      (∃ reply, (remember st requireLineage store payload req clock).2 = .ok reply) ∧
      (req.derivedFrom.getD [] = [] → acl.visibility ⊆ scope.principals) ∧
      ∀ c ∈ citedRows scope (req.derivedFrom.getD []) store.chunks,
        Label.Under ⟨acl.visibility, acl.confidentiality⟩ (labelOf c) := by
  unfold remember
  split
  · exact Or.inl ⟨rfl, _, rfl⟩
  · rename_i entities _
    split
    · exact Or.inl ⟨rfl, _, rfl⟩
    · rename_i table scope hscope
      unfold rememberUnder
      dsimp only
      split
      · exact Or.inl ⟨rfl, _, rfl⟩
      · rename_i lineage acl hdecision
        obtain ⟨lineage', hlineage, hrest⟩ := exists_of_bind_eq_ok hdecision
        obtain ⟨acl', hacl, hpair⟩ := exists_of_bind_eq_ok hrest
        cases hpair
        obtain ⟨hunder, hwithin⟩ := rememberAcl_under hacl
        refine Or.inr ⟨table, scope, entities, acl, _, hscope, rfl, ⟨_, rfl⟩, ?_, ?_⟩
        · intro hnone
          rw [hnone, resolveLineage_nil] at hlineage
          exact hwithin (Except.ok.inj hlineage).symm
        · intro c hc
          have hrefs : req.derivedFrom.getD [] ≠ [] := by
            intro hnone
            rw [hnone] at hc
            simp [citedRows] at hc
          obtain ⟨l, rfl⟩ := resolveLineage_isSome hlineage hrefs
          exact (hunder l rfl).trans (resolveLineage_under hlineage hc)

theorem exists_of_mem_writeObservation {store : MemoryStore} {observation : String}
    {entities : List String} {episodes : List EpisodeId} {now : Time}
    (h : c ∈ (writeObservation store payload observation entities acl episodes now).chunks.rows) :
    (∃ c₀ ∈ store.chunks.rows, c.id = c₀.id ∧ labelOf c = labelOf c₀) ∨
      (c.id = store.chunks.nextId ∧ labelOf c = ⟨acl.visibility, acl.confidentiality⟩) := by
  rcases ChunkTable.exists_of_mem_upsertChunks_single h with
    ⟨c₀, hc₀, validTo, rfl⟩ | ⟨validTo, rfl⟩
  · exact Or.inl ⟨c₀, hc₀, rfl, rfl⟩
  · exact Or.inr ⟨rfl, rfl⟩

/-! ## Sequences of calls -/

/-- The store, and beside it which chunk cites which: for each stored observation, the chunks
that its refs named and the writer's scope admitted at the time of the call. -/
structure CitedStore where
  store : MemoryStore
  cites : List (ChunkId × ChunkId)

/-- A call of `remember` under any handle and any state of the server, or content delivered
from elsewhere. -/
inductive MemoryOp where
  | remember (st : AppState) (requireLineage : Bool) (payload : ScopePayload)
      (req : RememberRequest) (clock : Clock)
  | deliver (now : Time) (writes : List ChunkWrite)

/-- What a call cites. -/
def citedBy (st : AppState) (payload : ScopePayload) (req : RememberRequest) (clock : Clock)
    (chunks : ChunkTable) : List Chunk :=
  match st.scopeFor payload clock with
  | .ok (_, scope) => citedRows scope (req.derivedFrom.getD []) chunks
  | .error _ => []

/-- The ids given out between two states of the table. -/
def newIds (before after : ChunkTable) : List ChunkId :=
  List.range' before.nextId (after.nextId - before.nextId)

def CitedStore.step (w : CitedStore) : MemoryOp → Option CitedStore
  | .remember st requireLineage payload req clock =>
    let after := (Model.remember st requireLineage w.store payload req clock).1
    let cited := citedBy st payload req clock w.store.chunks
    some
      { store := after
        cites := w.cites ++ (newIds w.store.chunks after.chunks).flatMap fun id =>
          cited.map fun c => (id, c.id) }
  | .deliver now writes =>
    some { w with store := { w.store with chunks := w.store.chunks.upsertChunks now writes } }

/-- One chunk of the store cites another. -/
def Cites (w : CitedStore) (c d : Chunk) : Prop :=
  c ∈ w.store.chunks.rows ∧ d ∈ w.store.chunks.rows ∧ (c.id, d.id) ∈ w.cites

/-- Citations are between ids that were given out, and every chunk lies under those it cites. -/
structure CitationsUnder (w : CitedStore) : Prop where
  known : ∀ p ∈ w.cites, p.1 < w.store.chunks.nextId ∧ p.2 < w.store.chunks.nextId
  under : ∀ c d, Cites w c d → (labelOf c).Under (labelOf d)

/-- Two rows of one id are the same row. -/
theorem eq_of_chunk_id_eq {t : ChunkTable} {d : Chunk} (hc : c ∈ t.rows) (hd : d ∈ t.rows)
    (h : c.id = d.id) : c = d :=
  List.inj_on_of_nodup_map t.ids_nodup hc hd h

/-- A step that adds no citation and keeps the labels of the rows there were. -/
theorem CitationsUnder.keep {w : CitedStore} (h : CitationsUnder w) (store : MemoryStore)
    (hrows : ∀ c ∈ store.chunks.rows,
      (∃ c₀ ∈ w.store.chunks.rows, c.id = c₀.id ∧ labelOf c = labelOf c₀) ∨
        w.store.chunks.nextId ≤ c.id) :
    ∀ c ∈ store.chunks.rows, ∀ d ∈ store.chunks.rows, (c.id, d.id) ∈ w.cites →
      (labelOf c).Under (labelOf d) := by
  intro c hc d hd hcites
  obtain ⟨hcid, hdid⟩ := h.known _ hcites
  rcases hrows c hc with ⟨c₀, hc₀, hid, hlabel⟩ | hnew
  · rcases hrows d hd with ⟨d₀, hd₀, hid', hlabel'⟩ | hnew
    · rw [hlabel, hlabel']
      apply h.under
      rw [hid, hid'] at hcites
      exact ⟨hc₀, hd₀, hcites⟩
    · exact absurd hdid (Nat.not_lt.mpr hnew)
  · exact absurd hcid (Nat.not_lt.mpr hnew)

theorem mem_newIds {before after : ChunkTable} (hle : before.nextId ≤ after.nextId)
    {id : ChunkId} : id ∈ newIds before after ↔ before.nextId ≤ id ∧ id < after.nextId := by
  unfold newIds
  rw [List.mem_range'_1, Nat.add_sub_cancel' hle]

theorem nextId_le_writeObservation (store : MemoryStore) (payload : ScopePayload)
    (observation : String) (entities : List String) (acl : WriteAcl) (episodes : List EpisodeId)
    (now : Time) : store.chunks.nextId ≤
      (writeObservation store payload observation entities acl episodes now).chunks.nextId :=
  ChunkTable.nextId_le_upsertChunks _ _ _

/-- An observation is stored under all that it cites. -/
theorem CitationsUnder.observe {w : CitedStore} (h : CitationsUnder w) (payload : ScopePayload)
    (observation : String) (entities : List String) (episodes : List EpisodeId) (now : Time)
    {cited : List Chunk} (hcited : ∀ d ∈ cited, d ∈ w.store.chunks.rows ∧
      Label.Under ⟨acl.visibility, acl.confidentiality⟩ (labelOf d)) :
    CitationsUnder
      { store := writeObservation w.store payload observation entities acl episodes now
        cites := w.cites ++ (newIds w.store.chunks (writeObservation w.store payload observation
          entities acl episodes now).chunks).flatMap fun id => cited.map fun c => (id, c.id) } := by
  have hnext := nextId_le_writeObservation w.store payload observation entities acl episodes now
  refine ⟨?_, ?_⟩
  · intro p hp
    rcases List.mem_append.mp hp with hp | hp
    · obtain ⟨h₁, h₂⟩ := h.known p hp
      exact ⟨Nat.lt_of_lt_of_le h₁ hnext, Nat.lt_of_lt_of_le h₂ hnext⟩
    · obtain ⟨id, hid, hp⟩ := List.mem_flatMap.mp hp
      obtain ⟨d, hd, rfl⟩ := List.mem_map.mp hp
      have hold := w.store.chunks.ids_lt d (hcited d hd).1
      exact ⟨((mem_newIds hnext).mp hid).2, Nat.lt_of_lt_of_le hold hnext⟩
  · rintro c d ⟨hc, hd, hcites⟩
    rcases List.mem_append.mp hcites with hcites | hcites
    · refine h.keep _ ?_ c hc d hd hcites
      intro c hc
      rcases exists_of_mem_writeObservation hc with hold | ⟨hid, _⟩
      · exact Or.inl hold
      · exact Or.inr hid.ge
    · -- the new chunk, and a row it cites
      obtain ⟨id, hid, hpair⟩ := List.mem_flatMap.mp hcites
      obtain ⟨d₁, hd₁, heq⟩ := List.mem_map.mp hpair
      obtain ⟨rfl, hd₁id⟩ := Prod.mk.inj heq
      obtain ⟨hd₁row, hunder⟩ := hcited d₁ hd₁
      have hd₁old := w.store.chunks.ids_lt d₁ hd₁row
      have hclabel : labelOf c = ⟨acl.visibility, acl.confidentiality⟩ := by
        rcases exists_of_mem_writeObservation hc with ⟨c₀, hc₀, hcid, _⟩ | ⟨_, hlabel⟩
        · have hlt := w.store.chunks.ids_lt c₀ hc₀
          rw [← hcid] at hlt
          exact absurd ((mem_newIds hnext).mp hid).1 (Nat.not_le.mpr hlt)
        · exact hlabel
      have hdlabel : labelOf d = labelOf d₁ := by
        rcases exists_of_mem_writeObservation hd with ⟨d₀, hd₀, hdid, hlabel⟩ | ⟨hdid, _⟩
        · rw [hlabel, eq_of_chunk_id_eq hd₀ hd₁row (hdid.symm.trans hd₁id.symm)]
        · rw [← hd₁id] at hdid
          exact absurd hdid hd₁old.ne
      rw [hclabel, hdlabel]
      exact hunder

/-- Every write keeps the citations under their ceilings. -/
theorem CitationsUnder.step {w w' : CitedStore} {op : MemoryOp} (h : CitationsUnder w)
    (hstep : w.step op = some w') : CitationsUnder w' := by
  cases op with
  | deliver now writes =>
    cases hstep
    have hnext := ChunkTable.nextId_le_upsertChunks w.store.chunks now writes
    refine ⟨?_, ?_⟩
    · intro p hp
      obtain ⟨h₁, h₂⟩ := h.known p hp
      exact ⟨Nat.lt_of_lt_of_le h₁ hnext, Nat.lt_of_lt_of_le h₂ hnext⟩
    · rintro c d ⟨hc, hd, hcites⟩
      refine h.keep { w.store with chunks := w.store.chunks.upsertChunks now writes } ?_ c hc d hd
        hcites
      intro c hc
      rcases ChunkTable.exists_of_mem_upsertChunks hc with ⟨c₀, hc₀, validTo, rfl⟩ | hnew
      · exact Or.inl ⟨c₀, hc₀, rfl, rfl⟩
      · exact Or.inr hnew
  | remember st requireLineage payload req clock =>
    cases hstep
    rcases remember_cases st requireLineage w.store payload req clock with
      ⟨hsame, _⟩ | ⟨table, scope, entities, acl, episodes, hscope, hstore, _, _, hunder⟩
    · -- a refused call gives out no id
      have hnone : newIds w.store.chunks w.store.chunks = [] := by simp [newIds]
      rw [hsame, hnone, List.flatMap_nil, List.append_nil]
      exact h
    · have hcited : citedBy st payload req clock w.store.chunks =
          citedRows scope (req.derivedFrom.getD []) w.store.chunks := by
        unfold citedBy
        rw [hscope]
      rw [hstore, hcited]
      apply h.observe
      intro d hd
      exact ⟨(List.mem_filter.mp hd).1, hunder d hd⟩

/-! ## No escalation -/

/-- A refused call leaves the store as it was. -/
theorem remember_refused {st : AppState} {requireLineage : Bool} {store : MemoryStore}
    {req : RememberRequest} {clock : Clock} {e : HandlerError}
    (h : (remember st requireLineage store payload req clock).2 = .error e) :
    (remember st requireLineage store payload req clock).1 = store := by
  rcases remember_cases st requireLineage store payload req clock with
    ⟨hsame, _⟩ | ⟨_, _, _, _, _, _, _, ⟨reply, hreply⟩, _, _⟩
  · exact hsame
  · rw [h] at hreply
    exact absurd hreply (by simp)

/-- After any sequence of calls and deliveries, a chunk lies under every chunk it cites, directly
or along a chain; and a call that is refused in the state reached changes nothing. -/
theorem derived_writes_never_escalate {store : MemoryStore} {ops : List MemoryOp} {w : CitedStore}
    (hrun : run CitedStore.step ⟨store, []⟩ ops = some w) :
    (∀ c d, Relation.TransGen (Cites w) c d →
      c.visibility ⊆ d.visibility ∧ d.confidentiality ≤ c.confidentiality) ∧
    ∀ st requireLineage payload req clock e,
      (remember st requireLineage w.store payload req clock).2 = .error e →
        (remember st requireLineage w.store payload req clock).1 = w.store := by
  have hstart : CitationsUnder ⟨store, []⟩ := by
    refine ⟨by simp, ?_⟩
    rintro c d ⟨_, _, hcites⟩
    exact absurd hcites List.not_mem_nil
  have hreached : CitationsUnder w :=
    run_induction (fun _ _ _ h hstep => h.step hstep) hstart hrun
  refine ⟨?_, ?_⟩
  · intro c d hchain
    exact Label.under_of_transGen hreached.under hchain
  · intro st requireLineage payload req clock e herror
    exact remember_refused herror

/-- A server without a permission service. -/
def plainServer : AppState where
  rebac := none
  allowRestrictedWithoutRebac := false
  watch := WatchStatus.new
  watchStalenessFenceSecs := 30
  principals := PrincipalTable.empty
  revocations := RevocationTables.empty

/-- A handle of tenant 1 with the given tokens and ceiling. -/
def handleWith (principals : List PrincipalToken) (ceiling : Confidentiality) : ScopePayload where
  tenantId := 1
  principals := principals
  entityScope := []
  maxConfidentiality := ceiling
  actorSub := none
  actorAzp := none
  subject := none
  issuedAt := 0
  expiresAt := seconds 3600

def noted (observation : String) (derivedFrom : Option (List Nat)) : RememberRequest :=
  ⟨observation, [], derivedFrom, none⟩

def emptyMemory : MemoryStore := ⟨[], 100, ChunkTable.empty, []⟩

/-- Chunk 0 is written for 1 and 2, chunk 1 from it, and chunk 2 from chunk 1 by its episode. -/
def notesInChain : List MemoryOp :=
  [.remember plainServer false (handleWith [1, 2] .internal) (noted "plan" none) ⟨seconds 1, 1⟩,
   .remember plainServer false (handleWith [1] .confidential) (noted "gist" (some [0]))
     ⟨seconds 2, 2⟩,
   .remember plainServer false (handleWith [2] .confidential) (noted "note" (some [101]))
     ⟨seconds 3, 3⟩]

/-- The three notes have the audience of the first, and each is at least as narrow as what it cites,
directly or through another. -/
theorem notes_in_chain_never_escalate :
    ∃ w, run CitedStore.step ⟨emptyMemory, []⟩ notesInChain = some w ∧
      (w.cites = [(1, 0), (2, 1)] ∧
        w.store.chunks.rows.map (fun c => (c.id, c.visibility)) =
          [(0, [1, 2]), (1, [1, 2]), (2, [1, 2])]) ∧
      ∀ c d, Relation.TransGen (Cites w) c d →
        c.visibility ⊆ d.visibility ∧ d.confidentiality ≤ c.confidentiality := by
  have hview : (run CitedStore.step ⟨emptyMemory, []⟩ notesInChain).map
      (fun w => (w.cites, w.store.chunks.rows.map fun c => (c.id, c.visibility))) =
        some ([(1, 0), (2, 1)], [(0, [1, 2]), (1, [1, 2]), (2, [1, 2])]) := by
    decide +kernel
  obtain ⟨w, hw, heq⟩ := Option.map_eq_some_iff.mp hview
  obtain ⟨hcites, hrows⟩ := Prod.mk.inj heq
  exact ⟨w, hw, ⟨hcites, hrows⟩, (derived_writes_never_escalate hw).1⟩

/-! ## Live powers -/

/-- The audience of every row a call adds: without refs part of the compiled scope, with refs
part of the audience of every cited row. -/
theorem remember_stamps_live_powers {st : AppState} {requireLineage : Bool} {store : MemoryStore}
    {payload : ScopePayload} {req : RememberRequest} {clock : Clock} {c : Chunk}
    (hc : c ∈ (remember st requireLineage store payload req clock).1.chunks.rows)
    (hnew : ∀ c₀ ∈ store.chunks.rows, c₀.id ≠ c.id) :
    ∃ table scope, st.scopeFor payload clock = .ok (table, scope) ∧
      (req.derivedFrom.getD [] = [] → c.visibility ⊆ scope.principals) ∧
      ∀ d ∈ citedRows scope (req.derivedFrom.getD []) store.chunks,
        c.visibility ⊆ d.visibility := by
  rcases remember_cases st requireLineage store payload req clock with
    ⟨hsame, _⟩ | ⟨table, scope, entities, acl, episodes, hscope, hstore, _, hwithin, hunder⟩
  · rw [hsame] at hc
    exact absurd rfl (hnew c hc)
  · rw [hstore] at hc
    rcases exists_of_mem_writeObservation hc with ⟨c₀, hc₀, hid, _⟩ | ⟨_, hlabel⟩
    · exact absurd hid.symm (hnew c₀ hc₀)
    · have hvisibility : c.visibility = acl.visibility := congrArg Label.audience hlabel
      refine ⟨table, scope, hscope, ?_, ?_⟩
      · intro hnone
        rw [hvisibility]
        exact hwithin hnone
      · intro d hd
        rw [hvisibility]
        exact (hunder d hd).1

/-- A store that holds one chunk for 1 and 2. -/
def planMemory : MemoryStore :=
  (remember plainServer false emptyMemory (handleWith [1, 2] .internal) (noted "plan" none)
    ⟨seconds 1, 1⟩).1

/-- Token 2 of the tenant is revoked, and was not reinstated. -/
def revokedServer : AppState :=
  { plainServer with revocations := ⟨[], [⟨1, 2, "user:bob", seconds 2, none⟩]⟩ }

/-- The audiences of the rows after a call under a handle with tokens 1 and 2. -/
def audiencesAfter (derivedFrom : Option (List Nat)) : List (ChunkId × List PrincipalToken) :=
  (remember revokedServer false planMemory (handleWith [1, 2] .confidential)
    (noted "gist" derivedFrom) ⟨seconds 3, 3⟩).1.chunks.rows.map fun c => (c.id, c.visibility)

/-- A note without lineage is stamped with the one token that is left to the live scope. -/
theorem bare_write_stamps_live_powers :
    ∃ c ∈ (remember revokedServer false planMemory (handleWith [1, 2] .confidential)
        (noted "gist" none) ⟨seconds 3, 3⟩).1.chunks.rows,
      c.visibility = [1] ∧
      ∃ table scope, revokedServer.scopeFor (handleWith [1, 2] .confidential) ⟨seconds 3, 3⟩ =
        .ok (table, scope) ∧ c.visibility ⊆ scope.principals := by
  have hrows : audiencesAfter none = [(0, [1, 2]), (1, [1])] := by decide +kernel
  have hmem : ((1, [1]) : ChunkId × List PrincipalToken) ∈ audiencesAfter none := by
    rw [hrows]
    simp
  obtain ⟨c, hc, heq⟩ := List.mem_map.mp hmem
  obtain ⟨hid, hvisibility⟩ := Prod.mk.inj heq
  have hnew : ∀ c₀ ∈ planMemory.chunks.rows, c₀.id ≠ c.id := by
    rw [hid]
    decide +kernel
  obtain ⟨table, scope, hscope, hwithin, _⟩ := remember_stamps_live_powers hc hnew
  exact ⟨c, hc, hvisibility, table, scope, hscope, hwithin rfl⟩

/-- With declared lineage the audience is that of the inputs: the token revoked from the writer
is stamped on the new chunk, for the compiled scope no longer holds it but the input does. -/
theorem derived_write_stamps_revoked_token :
    ∃ table scope, ∃ c ∈ (remember revokedServer false planMemory (handleWith [1, 2] .confidential)
        (noted "gist" (some [0])) ⟨seconds 3, 3⟩).1.chunks.rows,
      revokedServer.scopeFor (handleWith [1, 2] .confidential) ⟨seconds 3, 3⟩ =
        .ok (table, scope) ∧
      (∀ c₀ ∈ planMemory.chunks.rows, c₀.id ≠ c.id) ∧
      ¬ c.visibility ⊆ scope.principals := by
  have hscope : ∃ result, revokedServer.scopeFor (handleWith [1, 2] .confidential)
      ⟨seconds 3, 3⟩ = .ok result := ⟨_, rfl⟩
  obtain ⟨⟨table, scope⟩, hscope⟩ := hscope
  have hprincipals : (revokedServer.scopeFor (handleWith [1, 2] .confidential)
      ⟨seconds 3, 3⟩).map (fun r => r.2.principals) = .ok [1] := by decide +kernel
  rw [hscope] at hprincipals
  have hlive : scope.principals = [1] := Except.ok.inj hprincipals
  have hrows : audiencesAfter (some [0]) = [(0, [1, 2]), (1, [1, 2])] := by decide +kernel
  have hmem : ((1, [1, 2]) : ChunkId × List PrincipalToken) ∈ audiencesAfter (some [0]) := by
    rw [hrows]
    simp
  obtain ⟨c, hc, heq⟩ := List.mem_map.mp hmem
  obtain ⟨hid, hvisibility⟩ := Prod.mk.inj heq
  refine ⟨table, scope, c, hc, hscope, ?_, ?_⟩
  · rw [hid]
    decide +kernel
  · rw [hvisibility, hlive]
    decide

end Verity.Analysis
