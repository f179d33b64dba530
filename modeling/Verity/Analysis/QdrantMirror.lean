import Verity.Analysis.BriefFreshness
import Verity.Analysis.ChunkVersions
import Verity.Analysis.KnowledgeFloor
import Verity.Model.QdrantMirror

/-!
# The mirror of the chunk table

The vector store is to hold exactly one point for every row of `chunks`, and that point is computed
from the row as it stands. What an operation does to the table is said once (`Amends`): the versions
it writes, and a condition that every row that was not there before meets. Each verb sends at least
the rows that meet the condition, so the rows that are closed on the way are mirrored too.

A point id is made from a name that joins the fields of the key with bars, and source and document
ids are free texts. Two versions whose sources and documents differ can so have one name
(`pointName_eq_iff`), and then the later one takes the other's point. The store is a mirror all
along a run exactly when no operation writes a version that has the name of another
(`mirrored_iff_namesApart`).
-/

set_option autoImplicit false

namespace Verity.Analysis

open Verity.Foundation
open Verity.Model
open Verity.Model.ChunkTable

variable {t t' : ChunkTable} {p : Chunk → Prop} {c : Chunk} {now : Time} {tenant : TenantId}
  {writes : List ChunkWrite} {episodeId : EpisodeId} {call : MirrorCall}

/-! ## Names -/

/-- The source and the document as a name has them. -/
def documentName (v : Version) : String := v.1.2.1 ++ "|" ++ v.1.2.2.1

/-- Two versions of a tenant that differ in nothing but where the source ends. -/
def SameName (v v' : Version) : Prop :=
  v.1.1 = v'.1.1 ∧ documentName v = documentName v' ∧ v.1.2.2.2 = v'.1.2.2.2 ∧ v.2 = v'.2

instance (v v' : Version) : Decidable (SameName v v') :=
  inferInstanceAs (Decidable (_ ∧ _ ∧ _ ∧ _))

/-- A text ending in a bar and a number is split there in one way. -/
theorem append_bar_int_inj {s s' : String} {n n' : Int}
    (h : s ++ "|" ++ toString n = s' ++ "|" ++ toString n') : s = s' ∧ n = n' := by
  have hbar : ∀ m : Int, '|' ∉ (toString m).toList := not_mem_int_repr (by decide) (by decide)
  have hlists : s.toList ++ '|' :: (toString n).toList =
      s'.toList ++ '|' :: (toString n').toList := by
    have := congrArg String.toList h
    rw [String.toList_append, String.toList_append, String.toList_append, String.toList_append,
      List.append_assoc, List.append_assoc] at this
    exact this
  obtain ⟨hs, hn⟩ := append_last_separator_inj (hbar n) (hbar n') hlists
  exact ⟨String.toList_inj.mp hs, int_repr_injective (String.toList_inj.mp hn)⟩

section Names

variable {ι : Type} {ids : PointIds ι}

theorem pointName_eq (v : Version) :
    pointName ids v = ids.uuidText v.1.1 ++ "|" ++ documentName v ++ "|" ++ toString v.1.2.2.2 ++
      "|" ++ toString v.2 := by
  unfold pointName documentName
  simp only [String.append_assoc]

/-- Within a tenant, names tell versions apart but for the bar between source and document. -/
theorem pointName_eq_iff {v v' : Version} (htenant : v.1.1 = v'.1.1) :
    pointName ids v = pointName ids v' ↔ SameName v v' := by
  rw [pointName_eq, pointName_eq, ← htenant]
  constructor
  · intro h
    obtain ⟨hrest, hfrom⟩ := append_bar_int_inj h
    obtain ⟨hdocument, hseq⟩ := append_bar_int_inj hrest
    exact ⟨htenant, (String.append_right_inj _).mp hdocument, hseq, hfrom⟩
  · rintro ⟨-, hdocument, hseq, hfrom⟩
    rw [hdocument, hseq, hfrom]

/-- The address of the point of a version. -/
def pointAddress (ids : PointIds ι) (v : Version) : TenantId × ι := (v.1.1, pointId ids v)

theorem pointAddress_eq_iff (hids : Function.Injective ids.uuidV5) {v v' : Version} :
    pointAddress ids v = pointAddress ids v' ↔ SameName v v' := by
  unfold pointAddress pointId
  rw [Prod.mk.injEq, hids.eq_iff]
  constructor
  · rintro ⟨htenant, hname⟩
    exact (pointName_eq_iff htenant).mp hname
  · intro h
    exact ⟨h.1, (pointName_eq_iff h.1).mpr h⟩

end Names

/-! ## What an operation does to the table -/

/-- The versions are as before with the written ones, and a row that was not there meets the
condition. -/
structure Amends (t t' : ChunkTable) (written : List Version) (p : Chunk → Prop) : Prop where
  mem_versions : ∀ v, v ∈ versions t' ↔ v ∈ versions t ∨ v ∈ written
  nodup_versions : (versions t).Nodup → (versions t').Nodup
  rows : ∀ c ∈ t'.rows, c ∈ t.rows ∨ p c

theorem Amends.refl (t : ChunkTable) (p : Chunk → Prop) : Amends t t [] p where
  mem_versions := by simp
  nodup_versions := id
  rows := fun _ hc => Or.inl hc

theorem Amends.mono {written : List Version} {q : Chunk → Prop} (h : Amends t t' written p)
    (hpq : ∀ c ∈ t'.rows, p c → q c) : Amends t t' written q where
  mem_versions := h.mem_versions
  nodup_versions := h.nodup_versions
  rows := fun c hc => (h.rows c hc).imp_right (hpq c hc)

/-- A statement that writes no version comes after. -/
theorem Amends.andThen {t'' : ChunkTable} {written : List Version} (h : Amends t t' written p)
    (h' : Amends t' t'' [] p) : Amends t t'' written p where
  mem_versions := by
    intro v
    rw [h'.mem_versions, h.mem_versions]
    simp
  nodup_versions := fun hkeys => h'.nodup_versions (h.nodup_versions hkeys)
  rows := by
    intro c hc
    rcases h'.rows c hc with hc | hp
    · exact h.rows c hc
    · exact Or.inr hp

/-- The same operation comes once more. -/
theorem Amends.trans {t'' : ChunkTable} {written : List Version} (h : Amends t t' written p)
    (h' : Amends t' t'' written p) : Amends t t'' written p where
  mem_versions := by
    intro v
    rw [h'.mem_versions, h.mem_versions, or_assoc, or_self]
  nodup_versions := fun hkeys => h'.nodup_versions (h.nodup_versions hkeys)
  rows := fun c hc => (h'.rows c hc).elim (h.rows c) Or.inr

/-- A loop whose turns write no version. -/
theorem amends_foldl {σ β : Type} (table : σ → ChunkTable) {turn : σ → β → σ} {xs : List β}
    (h : ∀ s, ∀ x ∈ xs, Amends (table s) (table (turn s x)) [] p) (s : σ) :
    Amends (table s) (table (xs.foldl turn s)) [] p := by
  induction xs generalizing s with
  | nil => exact Amends.refl _ p
  | cons x xs ih =>
    have hrest := ih (fun s x hx => h s x (List.mem_cons_of_mem _ hx)) (turn s x)
    exact (h s x List.mem_cons_self).andThen hrest

/-- An update of the rows that a condition selects, which leaves their versions alone. -/
theorem amends_update {sel : Chunk → Prop} [DecidablePred sel] {g : Chunk → Chunk}
    (hrows : t'.rows = t.rows.map fun c => if sel c then g c else c)
    (hversion : ∀ c, (g c).version = c.version) (hp : ∀ c ∈ t.rows, sel c → p (g c)) :
    Amends t t' [] p := by
  have hsame : versions t' = versions t := by
    unfold versions
    rw [hrows, List.map_map]
    apply List.map_congr_left
    intro c _
    rw [Function.comp_apply]
    split
    · exact hversion c
    · rfl
  constructor
  · simp [hsame]
  · rw [hsame]
    exact id
  · intro c' hc'
    rw [hrows] at hc'
    obtain ⟨c, hc, rfl⟩ := List.mem_map.mp hc'
    by_cases hsel : sel c
    · rw [if_pos hsel]
      exact Or.inr (hp c hc hsel)
    · rw [if_neg hsel]
      exact Or.inl hc

theorem amends_append (hrows : t'.rows = t.rows ++ [c]) (hfresh : c.version ∉ versions t)
    (hp : p c) : Amends t t' [c.version] p := by
  have hversions : versions t' = versions t ++ [c.version] := by
    unfold versions
    rw [hrows, List.map_append, List.map_singleton]
  constructor
  · intro v
    rw [hversions, List.mem_append]
  · intro hkeys
    rw [hversions, ← List.concat_eq_append]
    exact List.Nodup.concat hfresh hkeys
  · intro c' hc'
    rw [hrows, List.mem_append, List.mem_singleton] at hc'
    rcases hc' with hc' | rfl
    · exact Or.inl hc'
    · exact Or.inr hp

theorem amends_insert {w : ChunkWrite} (hp : p (t.rowOf now w)) :
    Amends t (t.insert now w) [w.version] p := by
  by_cases hmem : w.version ∈ versions t
  · have hsame : t.insert now w = t := if_pos (conflicts_iff.mpr hmem)
    rw [hsame]
    constructor
    · intro v
      rw [List.mem_singleton]
      refine ⟨Or.inl, ?_⟩
      rintro (h | rfl)
      · exact h
      · exact hmem
    · exact id
    · exact fun _ hc => Or.inl hc
  · refine amends_append ?_ hmem hp
    unfold ChunkTable.insert
    rw [if_neg (mt conflicts_iff.mp hmem)]

theorem amends_closeWhere {source documentId : String} {validFrom : Time} {sel : Int → Bool}
    (hp : ∀ c : Chunk, c.ofDocument tenant source documentId = true → sel c.seq = true →
      p (c.close validFrom)) :
    Amends t (t.closeWhere tenant source documentId validFrom sel) [] p := by
  refine amends_update rfl ?_ ?_
  · intro c
    unfold Chunk.close
    split <;> rfl
  · intro c _ hsel
    obtain ⟨hdocument, hseq⟩ := Bool.and_eq_true_iff.mp hsel
    exact hp c hdocument hseq

/-- The row is at a delivered position, or past the end of a delivered document. -/
def InDelivery (writes : List ChunkWrite) (c : Chunk) : Prop :=
  ∃ w ∈ writes, c.ofDocument w.tenantId w.source w.documentId = true ∧
    (c.seq = w.seq ∨ (tailOf writes w).2 < c.seq)

theorem inDelivery_close {validFrom : Time} :
    InDelivery writes (c.close validFrom) ↔ InDelivery writes c := by
  unfold Chunk.close
  split <;> rfl

theorem rows_foldl_upsertChunk {all : List ChunkWrite} (hsub : ∀ w ∈ writes, w ∈ all)
    (hc : c ∈ (writes.foldl (fun t w => t.upsertChunk now w) t).rows) :
    c ∈ t.rows ∨ InDelivery all c := by
  induction writes generalizing t with
  | nil => exact Or.inl hc
  | cons w writes ih =>
    have hw := hsub w List.mem_cons_self
    have hself : InDelivery all ((t.closeWhere w.tenantId w.source w.documentId w.start
        (· = w.seq)).rowOf now w) :=
      ⟨w, hw, ofDocument_iff.mpr ⟨rfl, rfl, rfl⟩, Or.inl rfl⟩
    have hclosed : Amends t (t.closeWhere w.tenantId w.source w.documentId w.start
        (· = w.seq)) [] (InDelivery all) := by
      apply amends_closeWhere
      intro c hdocument hseq
      exact inDelivery_close.mpr ⟨w, hw, hdocument, Or.inl (of_decide_eq_true hseq)⟩
    rcases ih (fun w hw => hsub w (List.mem_cons_of_mem _ hw)) hc with hc | hdelivered
    · rcases (amends_insert hself).rows c hc with hc | hdelivered
      · exact hclosed.rows c hc
      · exact Or.inr hdelivered
    · exact Or.inr hdelivered

theorem amends_upsertChunks (t : ChunkTable) (now : Time) (writes : List ChunkWrite) :
    Amends t (t.upsertChunks now writes) (writes.map ChunkWrite.version) (InDelivery writes) := by
  have hwrites : Amends t (writes.foldl (fun t w => t.upsertChunk now w) t)
      (writes.map ChunkWrite.version) (InDelivery writes) :=
    ⟨fun _ => mem_versions_foldl, fun hkeys => nodup_versions_foldl hkeys now writes,
      fun _ => rows_foldl_upsertChunk fun _ hw => hw⟩
  refine hwrites.andThen (amends_foldl (fun t => t) ?_ _)
  intro t w hw
  apply amends_closeWhere
  intro c hdocument hseq
  exact inDelivery_close.mpr ⟨w, hw, hdocument, Or.inr (of_decide_eq_true hseq)⟩

theorem amends_retireChunks {db : Database} {sel : Chunk → Bool}
    (hp : ∀ c ∈ db.chunks.rows, sel c && decide (c.validTo = none) →
      p { c with validTo := some now }) :
    Amends db.chunks (db.retireChunks now sel).1.chunks [] p :=
  amends_update rfl (fun _ => rfl) hp

theorem amends_retireDocument (db : Database) (now : Time) (tenant : TenantId)
    (source documentId : String) :
    Amends db.chunks (db.retireDocument now tenant source documentId).1.chunks []
      fun c => c.ofDocument tenant source documentId = true := by
  refine amends_update rfl (fun _ => rfl) ?_
  intro c _ hsel
  exact (Bool.and_eq_true_iff.mp hsel).1

/-- The rows that a forget closes. The chunk of an item that is taken back goes with it. -/
def Forgotten (tenant : TenantId) (ref : ForgetRef) (c : Chunk) : Prop :=
  c.tenantId = tenant ∧
    match ref with
    | .chunk chunkId => c.id = chunkId
    | .episode episodeId =>
      c.provenance = episodeId ∨ "knowledge:".toList <+: c.documentId.toList ∧ c.validTo.isSome

theorem amends_withdrawSupport (now : Time) (db : Database) (kid : KnowledgeId) :
    Amends db.chunks (Database.withdrawSupport tenant episodeId now db kid).chunks []
      (Forgotten tenant (.episode episodeId)) := by
  unfold Database.withdrawSupport
  dsimp only
  split
  · split
    · refine amends_update rfl (fun _ => rfl) ?_
      rintro c - ⟨htenant, hdocument, -⟩
      refine ⟨htenant, Or.inr ⟨?_, rfl⟩⟩
      rw [hdocument, String.toList_append]
      exact List.prefix_append _ _
    · exact Amends.refl _ _
  · exact Amends.refl _ _

theorem amends_forget (db : Database) (now : Time) (tenant : TenantId) (ref : ForgetRef) :
    Amends db.chunks (db.forget now tenant ref).1.chunks [] (Forgotten tenant ref) := by
  cases ref with
  | chunk chunkId =>
    apply amends_retireChunks
    intro c _ hsel
    obtain ⟨htenant, hid⟩ := of_decide_eq_true (Bool.and_eq_true_iff.mp hsel).1
    exact ⟨htenant, hid⟩
  | episode episodeId =>
    have hclosed : Amends db.chunks (db.retireChunks now fun c =>
        decide (c.tenantId = tenant ∧ c.provenance = episodeId)).1.chunks []
          (Forgotten tenant (.episode episodeId)) := by
      apply amends_retireChunks
      intro c _ hsel
      obtain ⟨htenant, hprovenance⟩ := of_decide_eq_true (Bool.and_eq_true_iff.mp hsel).1
      exact ⟨htenant, Or.inl hprovenance⟩
    have hwithdrawn : ∀ (db : Database) (kids : List KnowledgeId), Amends db.chunks
        (kids.foldl (Database.withdrawSupport tenant episodeId now) db).chunks []
          (Forgotten tenant (.episode episodeId)) := by
      intro db kids
      exact amends_foldl Database.chunks (fun db kid _ => amends_withdrawSupport now db kid) db
    -- the facts are closed in between
    exact hclosed.andThen (hwithdrawn ((db.retireChunks now _).1.retireFacts now _).1 _)

/-- The version of the chunk of a published item. -/
def knowledgeVersion (now : Time) (tenant : TenantId) (id : KnowledgeId) : Version :=
  ((tenant, "knowledge", "knowledge:" ++ toString id, 0), now)

theorem amends_publishKnowledge {db db' : Database} {id : KnowledgeId}
    {visibility : List PrincipalToken} {kMin : Int}
    (h : db.publishKnowledge now tenant id episodeId visibility kMin = .ok db') :
    Amends db.chunks db'.chunks [knowledgeVersion now tenant id]
      fun c => c.tenantId = tenant ∧ c.source = "knowledge" ∧
        c.documentId = "knowledge:" ++ toString id := by
  unfold Database.publishKnowledge at h
  split at h
  · cases h
  split at h
  · cases h
  rename_i k hfind
  have hk := List.find?_some hfind
  obtain ⟨rfl, rfl⟩ := of_decide_eq_true hk
  split at h
  · cases h
  split at h
  · cases h
  split at h
  · cases h
  rename_i hunique
  cases h
  refine amends_append (c := Database.knowledgeChunk db.chunks now k episodeId visibility) rfl ?_
    ⟨rfl, rfl, rfl⟩
  intro hmem
  obtain ⟨c, hc, hversion⟩ := List.mem_map.mp hmem
  refine hunique (List.any_eq_true.mpr ⟨c, hc, decide_eq_true ?_⟩)
  simpa [Chunk.version, Chunk.position, Database.knowledgeChunk, and_assoc] using hversion

/-! ## The mirror -/

section Mirror

variable {ι : Type} [DecidableEq ι] (ids : PointIds ι)

/-- There is one point for each row, computed from the row, and no two rows share a point. -/
def Mirrored (s : QdrantAdapter ι) : Prop :=
  Mirrors MirrorPoint.address (mirrorPoint ids) s.points s.inner.chunks.rows

/-- No written version takes the point of another. -/
def AddressesApart (t : ChunkTable) (written : List Version) : Prop :=
  ∀ v ∈ written, ∀ v' ∈ versions t ++ written, pointAddress ids v = pointAddress ids v' → v = v'

instance (t : ChunkTable) (written : List Version) : Decidable (AddressesApart ids t written) :=
  inferInstanceAs (Decidable (∀ v ∈ written, ∀ v' ∈ versions t ++ written, _ → _))

/-- No written version has the name of another. -/
def NamesApart (t : ChunkTable) (written : List Version) : Prop :=
  ∀ v ∈ written, ∀ v' ∈ versions t ++ written, SameName v v' → v = v'

instance (t : ChunkTable) (written : List Version) : Decidable (NamesApart t written) :=
  inferInstanceAs (Decidable (∀ v ∈ written, ∀ v' ∈ versions t ++ written, _ → _))

variable {ids} {s : QdrantAdapter ι} {db : Database} {written : List Version}

omit [DecidableEq ι] in
theorem addressesApart_iff (hids : Function.Injective ids.uuidV5) :
    AddressesApart ids t written ↔ NamesApart t written := by
  unfold AddressesApart NamesApart
  simp only [pointAddress_eq_iff hids]

omit [DecidableEq ι] in
theorem nodup_addresses_iff :
    (t.rows.map fun c => (mirrorPoint ids c).address).Nodup ↔
      ((versions t).map (pointAddress ids)).Nodup := by
  unfold versions
  rw [List.map_map]
  exact Iff.rfl

omit [DecidableEq ι] in
theorem Mirrored.nodup_versions (h : Mirrored ids s) : (versions s.inner.chunks).Nodup :=
  List.Nodup.of_map _ (nodup_addresses_iff.mp h.apart)

/-- An operation whose changes are all among the mirrored rows. -/
theorem mirrored_mirrorRows_iff (h : Mirrored ids s) {sel : Chunk → Bool}
    (hamends :
      Amends s.inner.chunks db.chunks written fun c => c.tenantId = tenant ∧ sel c = true) :
    Mirrored ids (s.mirrorRows ids db tenant sel) ↔ AddressesApart ids s.inner.chunks written := by
  have hold := nodup_addresses_iff.mp h.apart
  constructor
  · intro hnext v hv v' hv' haddress
    have hmem : ∀ v ∈ versions s.inner.chunks ++ written, v ∈ versions db.chunks := by
      intro v hv
      exact (hamends.mem_versions v).mpr (List.mem_append.mp hv)
    exact List.inj_on_of_nodup_map (nodup_addresses_iff.mp hnext.apart)
      (hmem v (List.mem_append_right _ hv)) (hmem v' hv') haddress
  · intro hapart
    refine mirrors_upsertPoints h ?_ ?_ ?_
    · intro c hc
      have hmem := (hamends.mem_versions _).mpr (Or.inl (List.mem_map_of_mem hc))
      obtain ⟨c', hc', hversion⟩ := List.mem_map.mp hmem
      exact ⟨c', hc', congrArg (pointAddress ids) hversion⟩
    · intro c hc
      refine (hamends.rows c hc).imp_right ?_
      rintro ⟨htenant, hsel⟩
      exact Bool.and_eq_true_iff.mpr ⟨decide_eq_true htenant, hsel⟩
    · rw [nodup_addresses_iff,
        List.nodup_map_iff_inj_on (hamends.nodup_versions h.nodup_versions)]
      intro v hv v' hv' heq
      rcases (hamends.mem_versions v).mp hv with hv | hv
      · rcases (hamends.mem_versions v').mp hv' with hv' | hv'
        · exact List.inj_on_of_nodup_map hold hv hv' heq
        · exact (hapart v' hv' v (List.mem_append_left _ hv) heq.symm).symm
      · exact hapart v hv v' (List.mem_append.mpr ((hamends.mem_versions v').mp hv')) heq

omit [DecidableEq ι] in
/-- An operation that leaves the table alone and mirrors nothing. -/
theorem mirrored_of_chunks_eq (h : Mirrored ids s) (hchunks : db.chunks = s.inner.chunks) :
    Mirrored ids { s with inner := db } ↔ AddressesApart ids s.inner.chunks [] := by
  refine ⟨fun _ _ hv => absurd hv List.not_mem_nil, fun _ => ?_⟩
  unfold Mirrored
  rw [hchunks]
  exact h

end Mirror

/-! ## The operations -/

/-- The versions that an operation writes, new or not. -/
def writtenVersions (db : Database) : MirrorCall → List Version
  | .upsertChunks _ writes => writes.map ChunkWrite.version
  | .recordAction _ _ a =>
    if db.actions.any fun r => r.write.tenantId = a.tenantId ∧ r.write.actionId = a.actionId then
      []
    else [((a.tenantId, "agent", "action:" ++ a.actionId, 0), a.occurredAt.stored)]
  | .publishKnowledge now tenant id _ _ _ => [knowledgeVersion now tenant id]
  | _ => []

section Operations

variable {ι : Type} [DecidableEq ι] {ids : PointIds ι} {text : UnicodeText}
  {s s' : QdrantAdapter ι}

/-- What a step can do: it writes no version and leaves the rows alone, or it mirrors every row it
has changed. -/
def Mirroring (ids : PointIds ι) (s : QdrantAdapter ι) (written : List Version)
    (s' : QdrantAdapter ι) : Prop :=
  (written = [] ∧ ∃ db : Database, db.chunks = s.inner.chunks ∧ s' = { s with inner := db }) ∨
    ∃ (db : Database) (tenant : TenantId) (sel : Chunk → Bool),
      s' = s.mirrorRows ids db tenant sel ∧
        Amends s.inner.chunks db.chunks written fun c => c.tenantId = tenant ∧ sel c = true

/-- The operation mirrors every row that meets a condition, and it changes no others. -/
def Resends (ids : PointIds ι) (s : QdrantAdapter ι) (written : List Version) (p : Chunk → Prop)
    (s' : QdrantAdapter ι) : Prop :=
  ∃ (db : Database) (tenant : TenantId) (sel : Chunk → Bool),
    s' = s.mirrorRows ids db tenant sel ∧ Amends s.inner.chunks db.chunks written p ∧
      ∀ c ∈ db.chunks.rows, p c → c.tenantId = tenant ∧ sel c = true

theorem Resends.mirroring {written : List Version} (h : Resends ids s written p s') :
    Mirroring ids s written s' := by
  obtain ⟨db, tenant, sel, rfl, hamends, hsel⟩ := h
  exact Or.inr ⟨db, tenant, sel, rfl, hamends.mono hsel⟩

theorem docMax_eq (writes : List ChunkWrite) (w : ChunkWrite) :
    docMax writes w = (tailOf writes w).2 := by
  unfold docMax tailOf
  generalize (writes.filter fun v => decide (documentOf v = documentOf w)) = ws
  have hsnd : ∀ (ws : List ChunkWrite) (tail : Instant × Int),
      (ws.foldl (fun tail w => (max tail.1 w.validFrom, max tail.2 w.seq)) tail).2 =
        ws.foldl (fun m v => max m v.seq) tail.2 := by
    intro ws
    induction ws with
    | nil => exact fun _ => rfl
    | cons w ws ih => exact fun tail => ih _
  exact (hsnd ws (w.validFrom, w.seq)).symm

theorem resends_upsertChunks (hsome : writes ≠ []) (h : s.upsertChunks ids now writes = .ok s') :
    Resends ids s (writes.map ChunkWrite.version) (InDelivery writes) s' := by
  cases writes with
  | nil => exact absurd rfl hsome
  | cons first rest =>
    unfold QdrantAdapter.upsertChunks at h
    dsimp only at h
    split at h
    · cases h
    rename_i hone
    cases h
    have htenant : ∀ w ∈ first :: rest, w.tenantId = first.tenantId := by
      intro w hw
      by_contra hne
      exact hone (List.any_eq_true.mpr ⟨w, hw, decide_eq_true hne⟩)
    refine ⟨s.inner.upsertChunks now (first :: rest), first.tenantId, _, rfl,
      amends_upsertChunks s.inner.chunks now (first :: rest), ?_⟩
    rintro c hc ⟨w, hw, hdocument, hseq⟩
    obtain ⟨hc_tenant, hsource, hdoc⟩ := ofDocument_iff.mp hdocument
    refine ⟨hc_tenant.trans (htenant w hw), decide_eq_true (List.mem_append.mpr ?_)⟩
    rcases hseq with hseq | hbeyond
    · refine Or.inl (List.mem_map.mpr ⟨w, hw, ?_⟩)
      unfold Chunk.place ChunkWrite.place
      rw [hsource, hdoc, hseq]
    · refine Or.inr (List.mem_flatMap.mpr ⟨w, hw, List.mem_map_of_mem ?_⟩)
      refine List.mem_filter.mpr ⟨hc, Bool.and_eq_true_iff.mpr ⟨?_, decide_eq_true ?_⟩⟩
      · rw [← htenant w hw]
        exact hdocument
      · rw [docMax_eq]
        exact hbeyond

theorem mirroring_upsertChunks (h : s.upsertChunks ids now writes = .ok s') :
    Mirroring ids s (writes.map ChunkWrite.version) s' := by
  by_cases hsome : writes = []
  · subst hsome
    cases h
    exact Or.inl ⟨rfl, s.inner, rfl, rfl⟩
  · exact (resends_upsertChunks hsome h).mirroring

theorem mirroring_recordAction (s : QdrantAdapter ι) (now : Time) (episodeId : EpisodeId)
    (a : ActionWrite) :
    Mirroring ids s (writtenVersions s.inner (.recordAction now episodeId a))
      (s.recordAction ids now episodeId a) := by
  unfold QdrantAdapter.recordAction Database.recordAction MemoryStore.recordAction writtenVersions
  dsimp only
  split
  · exact Or.inl ⟨rfl, _, rfl, rfl⟩
  · refine Or.inr ⟨_, a.tenantId, _, rfl, ?_⟩
    exact amends_insert ⟨rfl, decide_eq_true ⟨rfl, rfl⟩⟩

theorem mirroring_publishKnowledge {id : KnowledgeId} {visibility : List PrincipalToken}
    {kMin : Int} (h : s.publishKnowledge ids now tenant id episodeId visibility kMin = .ok s') :
    Mirroring ids s [knowledgeVersion now tenant id] s' := by
  obtain ⟨db, hdb, hend⟩ := exists_of_bind_eq_ok h
  cases hend
  refine Or.inr ⟨db, tenant, _, rfl, (amends_publishKnowledge hdb).mono ?_⟩
  rintro c - ⟨htenant, hplace⟩
  exact ⟨htenant, decide_eq_true hplace⟩

theorem resends_forget (s : QdrantAdapter ι) (now : Time) (tenant : TenantId)
    (ref : ForgetRef) : Resends ids s [] (Forgotten tenant ref) (s.forget ids now tenant ref) := by
  have hforget := amends_forget s.inner now tenant ref
  unfold QdrantAdapter.forget
  dsimp only
  cases ref with
  | chunk chunkId =>
    refine ⟨_, tenant, _, rfl, hforget, ?_⟩
    rintro c - ⟨htenant, hid⟩
    exact ⟨htenant, decide_eq_true hid⟩
  | episode episodeId =>
    refine ⟨_, tenant, _, rfl, hforget, ?_⟩
    rintro c - ⟨htenant, hprovenance | ⟨hitem, hclosed⟩⟩
    · exact ⟨htenant, Bool.or_eq_true_iff.mpr (Or.inl (decide_eq_true hprovenance))⟩
    · refine ⟨htenant, Bool.or_eq_true_iff.mpr (Or.inr ?_)⟩
      exact Bool.and_eq_true_iff.mpr ⟨decide_eq_true hitem, hclosed⟩

theorem mirroring_retireEntity (s : QdrantAdapter ι) (tenant : TenantId)
    (source entityId : String) (deletedAt : Time) :
    Mirroring ids s [] (s.retireEntity ids tenant source entityId deletedAt) := by
  refine Or.inr ⟨_, tenant, _, rfl, ?_⟩
  apply amends_retireChunks
  intro c hc hsel
  refine ⟨(of_decide_eq_true (Bool.and_eq_true_iff.mp hsel).1).1, decide_eq_true ?_⟩
  exact List.mem_map.mpr ⟨c, List.mem_filter.mpr ⟨hc, hsel⟩, rfl⟩

theorem resends_retireDocument (s : QdrantAdapter ι) (now : Time) (tenant : TenantId)
    (source documentId : String) :
    Resends ids s [] (fun c => c.ofDocument tenant source documentId = true)
      (s.retireDocument ids now tenant source documentId) := by
  refine ⟨_, tenant, _, rfl, amends_retireDocument s.inner now tenant source documentId, ?_⟩
  intro c hc hdocument
  refine ⟨(ofDocument_iff.mp hdocument).1, decide_eq_true ?_⟩
  exact List.mem_map_of_mem (List.mem_filter.mpr ⟨hc, hdocument⟩)

/-- A call sends every row that it changes. -/
theorem mirroring_step (h : s.step ids text call = some s') :
    Mirroring ids s (writtenVersions s.inner call) s' := by
  cases call with
  | appendEpisode e =>
    obtain ⟨db, hdb, rfl⟩ := Option.map_eq_some_iff.mp h
    refine Or.inl ⟨rfl, db, ?_, rfl⟩
    have hok := toOption_eq_some_iff.mp hdb
    unfold Database.appendEpisode at hok
    split at hok
    · cases hok
    · cases hok
      rfl
  | upsertFact now fact =>
    obtain ⟨⟨db, outcome⟩, hdb, rfl⟩ := Option.map_eq_some_iff.mp h
    refine Or.inl ⟨rfl, db, ?_, rfl⟩
    obtain ⟨⟨facts, outcome'⟩, -, hend⟩ := exists_of_bind_eq_ok (toOption_eq_some_iff.mp hdb)
    cases hend
    rfl
  | proposeKnowledge now id p =>
    obtain ⟨⟨db, outcome⟩, hdb, rfl⟩ := Option.map_eq_some_iff.mp h
    refine Or.inl ⟨rfl, db, ?_, rfl⟩
    rcases proposeKnowledge_cases (toOption_eq_some_iff.mp hdb) with
      rfl | ⟨twin, -, rfl⟩ | hinsert
    · rfl
    · rfl
    · obtain ⟨knowledge, -, hend⟩ := exists_of_bind_eq_ok hinsert
      cases hend
      rfl
  | upsertChunks now writes => exact mirroring_upsertChunks (toOption_eq_some_iff.mp h)
  | recordAction now episodeId action =>
    cases h
    exact mirroring_recordAction s now episodeId action
  | publishKnowledge now tenant id episodeId visibility kMin =>
    exact mirroring_publishKnowledge (toOption_eq_some_iff.mp h)
  | forget now tenant ref =>
    cases h
    exact (resends_forget s now tenant ref).mirroring
  | retireEntity tenant source entityId deletedAt =>
    cases h
    exact mirroring_retireEntity s tenant source entityId deletedAt
  | retireDocument now tenant source documentId =>
    cases h
    exact (resends_retireDocument s now tenant source documentId).mirroring

theorem nodup_versions_step (hkeys : (versions s.inner.chunks).Nodup)
    (h : s.step ids text call = some s') : (versions s'.inner.chunks).Nodup := by
  rcases mirroring_step h with ⟨-, db, hchunks, rfl⟩ | ⟨db, tenant, sel, rfl, hamends⟩
  · rw [hchunks]
    exact hkeys
  · exact hamends.nodup_versions hkeys

theorem mirrored_step_iff (hids : Function.Injective ids.uuidV5) (hmirrored : Mirrored ids s)
    (h : s.step ids text call = some s') :
    Mirrored ids s' ↔ NamesApart s.inner.chunks (writtenVersions s.inner call) := by
  rw [← addressesApart_iff hids]
  rcases mirroring_step h with ⟨hnone, db, hchunks, rfl⟩ | ⟨db, tenant, sel, rfl, hamends⟩
  · rw [hnone]
    exact mirrored_of_chunks_eq hmirrored hchunks
  · exact mirrored_mirrorRows_iff hmirrored hamends

/-- From a mirror of a table with its unique key, every state of a run is a mirror exactly when no
operation of the run writes a version that has the name of another. -/
theorem mirrored_iff_namesApart (hids : Function.Injective ids.uuidV5) {calls : List MirrorCall}
    (hkeys : (versions s.inner.chunks).Nodup) (hmirrored : Mirrored ids s)
    (hrun : run (QdrantAdapter.step ids text) s calls = some s') :
    (∀ before after s₁, calls = before ++ after →
        run (QdrantAdapter.step ids text) s before = some s₁ → Mirrored ids s₁) ↔
      Along (QdrantAdapter.step ids text)
        (fun s call => NamesApart s.inner.chunks (writtenVersions s.inner call)) s calls :=
  run_invariant_iff (fun _ _ _ hkeys hstep => nodup_versions_step hkeys hstep)
    (fun _ _ _ _ hmirrored hstep => mirrored_step_iff hids hmirrored hstep) hkeys
    hmirrored hrun

end Operations

/-- Two stores before any write. -/
def emptyStores (ι : Type) : QdrantAdapter ι := ⟨Database.empty, []⟩

/-- Names in place of their uuids. -/
def plainIds : PointIds String := ⟨fun tenant => toString tenant, id⟩

theorem mirrored_emptyStores : Mirrored plainIds (emptyStores String) :=
  ⟨List.Perm.nil, List.nodup_nil⟩

/-- A delivery of two documents, a new version of the first, and what closes rows. -/
def planCalls : List MirrorCall :=
  [.upsertChunks 10 [planChunk "plan" "basic" 10, { planChunk "plan" "terms" 10 with seq := 1 },
      planChunk "offer" "ten seats" 10],
    .upsertChunks 20 [planChunk "plan" "pro" 20],
    .forget 30 1 (.chunk 2),
    .retireEntity 1 "crm" "acme" 40,
    .retireDocument 50 1 "crm" "plan"]

/-- No two of the documents have one name. -/
theorem planCalls_mirrored :
    ∃ s, run (QdrantAdapter.step plainIds asciiLibraries.text) (emptyStores String) planCalls =
        some s ∧
      s.inner.chunks.rows.map Chunk.validTo = [some 20, some 20, some 40, some 40] ∧
      Mirrored plainIds s := by
  have hview : (run (QdrantAdapter.step plainIds asciiLibraries.text) (emptyStores String)
      planCalls).map (fun s => s.inner.chunks.rows.map Chunk.validTo) =
        some [some 20, some 20, some 40, some 40] := by decide +kernel
  obtain ⟨s, hrun, hs⟩ := Option.map_eq_some_iff.mp hview
  refine ⟨s, hrun, hs, ?_⟩
  have hkeys : (versions (emptyStores String).inner.chunks).Nodup := List.nodup_nil
  exact (mirrored_iff_namesApart Function.injective_id hkeys mirrored_emptyStores hrun).mpr
    (by decide +kernel) planCalls [] s (List.append_nil _).symm hrun

/-- The document "c" of a source "a|b" and the document "b|c" of a source "a" have one name: two
rows, and the second one's point in place of the first. -/
theorem barred_document_takes_point :
    ¬ ∀ (ids : PointIds String) (text : UnicodeText) (calls : List MirrorCall)
      (s : QdrantAdapter String), Function.Injective ids.uuidV5 →
      run (QdrantAdapter.step ids text) (emptyStores String) calls = some s → Mirrored ids s := by
  intro hclaim
  have hview : (run (QdrantAdapter.step plainIds asciiLibraries.text) (emptyStores String)
      [.upsertChunks 10 [{ planChunk "c" "basic" 10 with source := "a|b" }],
        .upsertChunks 20 [{ planChunk "b|c" "pro" 10 with source := "a" }]]).map
      (fun s => (s.inner.chunks.rows.length, s.points.length)) = some (2, 1) := by decide +kernel
  obtain ⟨s, hrun, hs⟩ := Option.map_eq_some_iff.mp hview
  obtain ⟨hrows, hpoints⟩ := Prod.mk.inj hs
  have hlength := (hclaim _ _ _ s Function.injective_id hrun).points.length_eq
  rw [List.length_map, hrows, hpoints] at hlength
  cases hlength

end Verity.Analysis
