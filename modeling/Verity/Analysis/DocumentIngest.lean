import Verity.Analysis.DocumentVersions
import Verity.Model.FolderWatch

/-!
# The version of a document that is served

An ingest delivers the chunks its text is split into. Which positions are closed is read off these
chunks, so an ingest without any leaves the rows as they are: what was current stays so after the
document was emptied, or came as bytes no text is extracted from. A text is split into no chunks
exactly when it is blank (`splitText_eq_nil_iff`). Besides, an ingest that is stored with the start
of an earlier one finds its positions taken. The newest version is the one served exactly in the
runs in which no blank version follows one with text, and versions that are stored with one start
repeat each other (`newest_served_iff`).
-/

set_option autoImplicit false

namespace Verity.Analysis

open Verity.Foundation
open Verity.Model

/-! ## Blank texts -/

theorem hardSplit_ne_nil {max : Nat} {para cut : List Char} (h : cut ++ para ≠ []) :
    (hardSplit max cut para).1 ≠ [] ∨ (hardSplit max cut para).2 ≠ [] := by
  induction para generalizing cut with
  | nil =>
    rw [List.append_nil] at h
    exact Or.inr h
  | cons c para ih =>
    unfold hardSplit
    split
    · exact Or.inl (List.cons_ne_nil _ _)
    · exact ih (by simp)

/-- A paragraph adds to what is read, unless it is blank. -/
theorem splitStep_eq_nil_iff {max : Nat} {st : List (List Char) × List Char} {para : List Char} :
    splitStep max st para = ([], []) ↔ st = ([], []) ∧ ∀ c ∈ para, isWhitespace c = true := by
  have hblank : (para.rdropWhile isWhitespace).isEmpty = true ↔
      ∀ c ∈ para, isWhitespace c = true := by
    rw [List.isEmpty_iff, List.rdropWhile_eq_nil_iff]
  rw [← hblank]
  unfold splitStep
  dsimp only
  generalize para.rdropWhile isWhitespace = trimmed
  cases trimmed with
  | nil => simp
  | cons c trimmed =>
    rw [if_neg (by simp)]
    refine iff_of_false ?_ fun h => absurd h.2 (by simp)
    generalize (if (!st.2.isEmpty) = true ∧ max < byteLen st.2 + 2 + byteLen (c :: trimmed) then
      (st.1 ++ [st.2], []) else st) = st'
    split
    · intro h
      obtain ⟨hchunks, hlast⟩ := Prod.mk.inj h
      have hpieces : (hardSplit max [] (c :: trimmed)).1 ≠ [] ∨
          (hardSplit max [] (c :: trimmed)).2 ≠ [] :=
        hardSplit_ne_nil (List.cons_ne_nil c trimmed)
      rcases hpieces with hne | hne
      · exact hne (List.append_eq_nil_iff.mp hchunks).2
      · exact hne hlast
    · split
      · intro h
        exact absurd (Prod.mk.inj h).2 (by simp)
      · intro h
        exact absurd (Prod.mk.inj h).2 (by simp)

theorem foldl_splitStep_eq_nil_iff {max : Nat} {st : List (List Char) × List Char}
    {paras : List (List Char)} :
    paras.foldl (splitStep max) st = ([], []) ↔
      st = ([], []) ∧ ∀ para ∈ paras, ∀ c ∈ para, isWhitespace c = true := by
  induction paras generalizing st with
  | nil => simp
  | cons para paras ih =>
    rw [List.foldl_cons, ih, splitStep_eq_nil_iff, List.forall_mem_cons, and_assoc]

/-- Between the paragraphs there are line feeds only. -/
theorem splitParagraphs_blank_iff {current text : List Char} :
    (∀ para ∈ splitParagraphs current text, ∀ c ∈ para, isWhitespace c = true) ↔
      ∀ c ∈ current ++ text, isWhitespace c = true := by
  fun_induction splitParagraphs current text with
  | case1 current rest ih =>
    have hfeed : isWhitespace '\n' = true := by decide
    simp only [List.forall_mem_cons, ih, List.nil_append, List.forall_mem_append, hfeed, true_and]
  | case2 current c rest hpara ih =>
    rw [ih, List.append_assoc, List.singleton_append]
  | case3 current => simp

/-- A text is split into no chunks exactly when it is blank. -/
theorem splitText_eq_nil_iff {text : String} {max : Nat} :
    splitText text max = [] ↔ ∀ c ∈ text.toList, isWhitespace c = true := by
  have hfold : (splitParagraphs [] text.toList).foldl (splitStep max) ([], []) = ([], []) ↔ _ :=
    foldl_splitStep_eq_nil_iff
  rw [splitParagraphs_blank_iff, List.nil_append] at hfold
  rw [← (hfold.trans (and_iff_right rfl))]
  unfold splitText
  generalize (splitParagraphs [] text.toList).foldl (splitStep max) ([], []) = read
  obtain ⟨chunks, current⟩ := read
  cases current with
  | nil => simp
  | cons c current => simp

/-! ## Ingests of one document -/

/-- A call of `ingest_document`: the time it is received, the instant of its transaction and the
episode it appends. -/
structure IngestCall where
  receivedAt : Instant
  now : Time
  episode : EpisodeId
  req : DocumentIngest
deriving DecidableEq

namespace IngestCall

/-- SOURCE: main.rs:4271 -/
def validFrom (c : IngestCall) : Instant := c.req.validFrom.getD c.receivedAt

/-- The text that was delivered, or extracted from what was.
SOURCE: main.rs:4275-4308 -/
def text (lib : FileLibraries) (c : IngestCall) : Option String :=
  match c.req.delivered with
  | .text content => some content
  | .bytes raw => lib.extract raw c.req.filename
  | .none => none

/-- There is no text, or a blank one. -/
def Blank (lib : FileLibraries) (c : IngestCall) : Prop :=
  ∀ content, c.text lib = some content → ∀ a ∈ content.toList, isWhitespace a = true

/-- The chunks of a call, which it hands to `upsert_chunks`.
SOURCE: main.rs:4340-4365 -/
def writes (lib : FileLibraries) (c : IngestCall) : List ChunkWrite :=
  (splitText ((c.text lib).getD "") chunkChars).zipIdx.map fun part =>
    { tenantId := c.req.tenantId
      source := c.req.source
      documentId := c.req.documentId
      seq := part.2
      content := part.1
      visibility := c.req.visibility
      entityTags := c.req.entities
      confidentiality := c.req.confidentiality
      trustTier := .authoritative
      validFrom := c.validFrom
      provenance := c.episode
      aclProvenance := c.req.aclProvenance
      derivedFrom := [] }

theorem writes_eq_nil_iff (lib : FileLibraries) (c : IngestCall) :
    c.writes lib = [] ↔ c.Blank lib := by
  unfold writes Blank
  rw [List.map_eq_nil_iff, List.zipIdx_eq_nil_iff, splitText_eq_nil_iff]
  cases c.text lib with
  | none => simp
  | some content => simp

instance (lib : FileLibraries) (c : IngestCall) : Decidable (c.Blank lib) :=
  decidable_of_iff _ (c.writes_eq_nil_iff lib)

end IngestCall

/-- SOURCE: main.rs:4261-4378 -/
def ingestStep (lib : FileLibraries) (db : Database) (c : IngestCall) : Option Database :=
  documentStep c.req.tenantId c.req.source c.req.documentId db
    (.deliver (c.req.delivery lib c.receivedAt c.now c.episode))

section Document

variable (tenant : TenantId) (source documentId : String)

/-- The call is for the document. -/
def IngestCall.Of (c : IngestCall) : Prop :=
  c.req.tenantId = tenant ∧ c.req.source = source ∧ c.req.documentId = documentId

/-- The version a call delivers. -/
def IngestCall.version (lib : FileLibraries) (c : IngestCall) :
    DocumentVersion tenant source documentId :=
  deliveredVersion tenant source documentId (c.req.delivery lib c.receivedAt c.now c.episode)

/-- The versions of the calls with text. -/
def textDeliveries (lib : FileLibraries) (calls : List IngestCall) :
    List (VersionDelivery tenant source documentId) :=
  (calls.filter fun c => c.writes lib ≠ []).map fun c =>
    (c.now, c.version tenant source documentId lib)

/-- A call without text follows such calls only, and a call repeats, as rows keep them, the chunks
of the calls before it that are stored with its start. -/
def Supplants (lib : FileLibraries) (before : List IngestCall) (c : IngestCall) : Prop :=
  (c.Blank lib → ∀ e ∈ before, e.Blank lib) ∧
    ∀ e ∈ before, e.validFrom.stored = c.validFrom.stored →
      ∀ w ∈ e.writes lib, w.stored ∈ (c.writes lib).map ChunkWrite.stored

instance (lib : FileLibraries) (before : List IngestCall) (c : IngestCall) :
    Decidable (Supplants lib before c) :=
  inferInstanceAs (Decidable (_ ∧ _))

variable {tenant source documentId} {lib : FileLibraries} {c : IngestCall}
  {before : List IngestCall}

theorem IngestCall.version_writes (hdoc : c.Of tenant source documentId) :
    (c.version tenant source documentId lib).writes = c.writes lib := by
  obtain ⟨rfl, rfl, rfl⟩ := hdoc
  unfold IngestCall.version deliveredVersion DocumentIngest.delivery IngestCall.writes
  dsimp only
  rw [List.zipIdx_map, List.map_map]
  rfl

/-- An ingest upserts the version its text is split into. -/
theorem ingestStep_eq (hdoc : c.Of tenant source documentId) (db : Database) :
    ingestStep lib db c =
      some (db.upsertChunks c.now (c.version tenant source documentId lib).writes) := by
  obtain ⟨rfl, rfl, rfl⟩ := hdoc
  rfl

theorem textDeliveries_concat :
    textDeliveries tenant source documentId lib (before ++ [c]) =
      textDeliveries tenant source documentId lib before ++
        if c.writes lib = [] then [] else [(c.now, c.version tenant source documentId lib)] := by
  unfold textDeliveries
  rw [List.filter_append, List.map_append, List.filter_cons]
  split
  · rename_i hsome
    rw [if_neg (of_decide_eq_true hsome)]
    rfl
  · rename_i hnone
    rw [if_pos (by simpa using hnone)]
    rfl

theorem textDeliveries_eq_nil_iff :
    textDeliveries tenant source documentId lib before = [] ↔
      ∀ e ∈ before, e.Blank lib := by
  unfold textDeliveries
  rw [List.map_eq_nil_iff, List.filter_eq_nil_iff]
  simp only [decide_eq_true_eq, not_not, IngestCall.writes_eq_nil_iff]

/-- Nothing is current only where no call had text. -/
theorem Serving.currentWrites_eq_nil_iff {t : ChunkTable}
    (h : Serving (textDeliveries tenant source documentId lib before) t)
    (hdoc : ∀ e ∈ before, e.Of tenant source documentId) :
    currentWrites tenant source documentId t = [] ↔ ∀ e ∈ before, e.Blank lib := by
  rw [← @textDeliveries_eq_nil_iff tenant source documentId lib before]
  constructor
  · intro hnil
    by_contra hne
    obtain ⟨n, hn⟩ := exists_newest hne
    obtain ⟨e, he, rfl⟩ := List.mem_map.mp hn.1
    obtain ⟨he, hsome⟩ := List.mem_filter.mp he
    have hserved := h.newest _ hn
    rw [hnil, IngestCall.version_writes (hdoc e he)] at hserved
    exact of_decide_eq_true hsome (List.map_eq_nil_iff.mp hserved.symm.eq_nil)
  · intro hnone
    rw [currentWrites_eq, List.map_eq_nil_iff, List.filter_eq_nil_iff]
    intro r hr
    obtain ⟨-, e, he, -⟩ := h.rows_of r hr
    rw [hnone] at he
    exact absurd he List.not_mem_nil

/-- One ingest, where those before it were served: it is served exactly when it supplants them. -/
theorem Serving.ingest_iff {db db' : Database}
    (h : Serving (textDeliveries tenant source documentId lib before) db.chunks)
    (hbefore : ∀ e ∈ before, e.Of tenant source documentId) (hdoc : c.Of tenant source documentId)
    (hlater : ∀ e ∈ before, e.validFrom < c.validFrom) (hstep : ingestStep lib db c = some db') :
    ((currentWrites tenant source documentId db'.chunks).Perm
        ((c.writes lib).map ChunkWrite.stored) ↔ Supplants lib before c) ∧
    (Supplants lib before c →
      Serving (textDeliveries tenant source documentId lib (before ++ [c])) db'.chunks) := by
  rw [ingestStep_eq hdoc db] at hstep
  cases hstep
  rw [textDeliveries_concat]
  by_cases hblank : c.writes lib = []
  · -- nothing is written, and nothing closed
    have hkept : (db.upsertChunks c.now (c.version tenant source documentId lib).writes).chunks =
        db.chunks := by
      rw [IngestCall.version_writes hdoc, hblank]
      rfl
    rw [hkept, if_pos hblank, List.append_nil, hblank, List.map_nil, List.perm_nil,
      h.currentWrites_eq_nil_iff hbefore]
    refine ⟨?_, fun _ => h⟩
    constructor
    · intro hall
      refine ⟨fun _ => hall, fun e he _ w hw => ?_⟩
      rw [(e.writes_eq_nil_iff lib).mpr (hall e he)] at hw
      cases hw
    · exact fun hsupplants => hsupplants.1 ((c.writes_eq_nil_iff lib).mp hblank)
  · rw [if_neg hblank]
    have hwrites : (c.version tenant source documentId lib).writes = _ :=
      IngestCall.version_writes hdoc
    have hsome : (c.version tenant source documentId lib).writes ≠ [] := by
      rw [hwrites]
      exact hblank
    have hfirst : ∀ d ∈ textDeliveries tenant source documentId lib before,
        d.2.validFrom < (c.version tenant source documentId lib).validFrom := by
      intro d hd
      obtain ⟨e, he, rfl⟩ := List.mem_map.mp hd
      exact hlater e (List.mem_filter.mp he).1
    have hrepeats : RepeatsEarlier (textDeliveries tenant source documentId lib before)
        (c.version tenant source documentId lib) ↔ Supplants lib before c := by
      unfold RepeatsEarlier
      rw [hwrites]
      constructor
      · intro hrepeats
        refine ⟨fun hb => absurd ((c.writes_eq_nil_iff lib).mpr hb) hblank, ?_⟩
        intro e he hstart w hw
        have hmem : (e.now, e.version tenant source documentId lib) ∈
            textDeliveries tenant source documentId lib before :=
          List.mem_map_of_mem
            (List.mem_filter.mpr ⟨he, decide_eq_true (List.ne_nil_of_mem hw)⟩)
        refine hrepeats _ hmem hstart w ?_
        rw [IngestCall.version_writes (hbefore e he)]
        exact hw
      · intro hsupplants d hd hstart w hw
        obtain ⟨e, he, rfl⟩ := List.mem_map.mp hd
        have he := (List.mem_filter.mp he).1
        rw [IngestCall.version_writes (hbefore e he)] at hw
        exact hsupplants.2 e he hstart w hw
    rw [← hrepeats, ← hwrites]
    exact ⟨h.currentWrites_iff (d := (c.now, _)) hsome hfirst,
      h.arrival (d := (c.now, _)) hsome hfirst⟩

theorem run_ingestStep (lib : FileLibraries) (db : Database) (calls : List IngestCall) :
    ∃ db', run (ingestStep lib) db calls = some db' :=
  run_total (fun _ _ => ⟨_, rfl⟩) db calls

/-- In a run of ingests of one document, each later than those before, the current rows are the
chunks of the last one after every ingest, exactly when every ingest supplants those before. -/
theorem newest_served_iff (lib : FileLibraries) {db : Database}
    (hnone : documentRows tenant source documentId db.chunks = []) (calls : List IngestCall)
    (hdoc : ∀ c ∈ calls, c.Of tenant source documentId)
    (horder : calls.Pairwise fun e c => e.validFrom < c.validFrom) :
    (∀ before c after, calls = before ++ c :: after →
      ∀ db', run (ingestStep lib) db (before ++ [c]) = some db' →
        (currentWrites tenant source documentId db'.chunks).Perm
          ((c.writes lib).map ChunkWrite.stored)) ↔
      ∀ before c after, calls = before ++ c :: after → Supplants lib before c := by
  refine forall_split_iff (I := fun before => ∀ db', run (ingestStep lib) db before = some db' →
    Serving (textDeliveries tenant source documentId lib before) db'.chunks) ?_ ?_
  · intro db' hrun
    cases hrun
    exact serving_nil hnone
  · rintro before c after rfl hserving
    obtain ⟨-, -, hlater⟩ := List.pairwise_append.mp horder
    obtain ⟨db₁, hrun⟩ := run_ingestStep lib db before
    obtain ⟨db', hstep⟩ : ∃ db', ingestStep lib db₁ c = some db' := ⟨_, rfl⟩
    have hone : run (ingestStep lib) db (before ++ [c]) = some db' := by
      refine run_append.mpr ⟨db₁, hrun, ?_⟩
      rw [run, hstep]
      rfl
    obtain ⟨hiff, hnext⟩ := (hserving db₁ hrun).ingest_iff
      (fun e he => hdoc e (List.mem_append_left _ he))
      (hdoc c (List.mem_append_right _ List.mem_cons_self))
      (fun e he => hlater e he c List.mem_cons_self) hstep
    rw [hone]
    refine ⟨?_, fun hsupplants db'' hdb'' => ?_⟩
    · rw [← hiff]
      exact ⟨fun hserved => hserved db' rfl,
        fun hserved db'' hdb'' => Option.some.inj hdb'' ▸ hserved⟩
    · exact Option.some.inj hdb'' ▸ hnext hsupplants

end Document

/-- Libraries that extract nothing. -/
def noExtraction : FileLibraries := ⟨fun _ => none, fun _ => false, fun _ _ => none⟩

/-- A version of the plan that is delivered as `delivered`. -/
def planIngest (validFrom : Instant) (delivered : DeliveredContent) : IngestCall :=
  ⟨validFrom, validFrom.stored, 1,
    ⟨1, "gdrive", "plan", none, [], [7], .internal, .mirrored, some validFrom, delivered⟩⟩

/-- A plan that is first empty, and then changes. -/
def changingPlan : List IngestCall :=
  [planIngest 10 .none, planIngest 20 (.text "draft"), planIngest 30 (.text "final")]

/-- After each of the calls the current rows are the chunks of that call. -/
theorem changed_plan_is_served :
    changingPlan.Pairwise (fun e c => e.validFrom < c.validFrom) ∧
      ∀ before c after, changingPlan = before ++ c :: after →
        ∀ db', run (ingestStep noExtraction) Database.empty (before ++ [c]) = some db' →
          (currentWrites 1 "gdrive" "plan" db'.chunks).Perm
            ((c.writes noExtraction).map ChunkWrite.stored) := by
  have horder : changingPlan.Pairwise fun e c => e.validFrom < c.validFrom := by decide
  exact ⟨horder, (newest_served_iff noExtraction rfl changingPlan
    (by unfold IngestCall.Of; decide) horder).mpr (by decide +kernel)⟩

/-- The plan is emptied, and its text stays current. -/
theorem emptied_plan_stays_current :
    ¬ ∀ (lib : FileLibraries) (calls : List IngestCall),
      (∀ c ∈ calls, c.Of 1 "gdrive" "plan") →
      (calls.Pairwise fun e c => e.validFrom < c.validFrom) →
      ∀ before c after, calls = before ++ c :: after →
        ∀ db', run (ingestStep lib) Database.empty (before ++ [c]) = some db' →
          (currentWrites 1 "gdrive" "plan" db'.chunks).Perm
            ((c.writes lib).map ChunkWrite.stored) := by
  intro hclaim
  have hview : (run (ingestStep noExtraction) Database.empty
      [planIngest 10 (.text "draft"), planIngest 20 (.text "")]).map
        (fun db => (currentWrites 1 "gdrive" "plan" db.chunks).map ChunkWrite.content) =
      some ["draft"] := by
    decide +kernel
  obtain ⟨db, hrun, hdraft⟩ := Option.map_eq_some_iff.mp hview
  have hserved := hclaim noExtraction [planIngest 10 (.text "draft"), planIngest 20 (.text "")]
    (by unfold IngestCall.Of; decide) (by decide) [planIngest 10 (.text "draft")]
    (planIngest 20 (.text "")) [] rfl db hrun
  have hnone := hserved.map ChunkWrite.content
  rw [hdraft] at hnone
  exact absurd hnone (by decide +kernel)

end Verity.Analysis
