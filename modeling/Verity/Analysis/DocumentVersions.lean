import Verity.Analysis.ChunkVersions
import Verity.Model.Retirement

/-!
# The versions of a document

A version of a document is delivered as the chunks at positions from zero on, all with one start.
A version that is later than all before it closes them, position by position and past its end, and
opens its own rows. A version that arrived before finds its rows there and nothing current that is
older, so that its delivery changes no row (`rows_upsertChunks_replay`).

Later means later as starts are stored. A version that follows another one within one microsecond
finds the positions of that one taken: it closes nothing, and opens its rows beyond them only
(`currentWrites_upsertChunks`). So the newest version is the current one exactly where such a
version repeats the one before it, position by position (`newest_version_current_iff`).

The rows of the document are looked at as what was written and the end of its validity.
-/

set_option autoImplicit false

namespace Verity.Model

/-- The write as its row keeps it. -/
def ChunkWrite.stored (w : ChunkWrite) : ChunkWrite := { w with validFrom := (w.start : Instant) }

@[simp]
theorem ChunkWrite.stored_seq (w : ChunkWrite) : w.stored.seq = w.seq := rfl

@[simp]
theorem ChunkWrite.stored_start (w : ChunkWrite) : w.stored.start = w.start :=
  Instant.stored_ofTime w.start

end Verity.Model

namespace Verity.Analysis

open Verity.Foundation
open Verity.Model
open Verity.Model.ChunkTable

/-! ## The rows of a document -/

/-- The write a row was stored for. -/
def toWrite (c : Chunk) : ChunkWrite where
  tenantId := c.tenantId
  source := c.source
  documentId := c.documentId
  seq := c.seq
  content := c.content
  visibility := c.visibility
  entityTags := c.entityTags
  confidentiality := c.confidentiality
  trustTier := c.trustTier
  validFrom := (c.validFrom : Instant)
  provenance := c.provenance
  aclProvenance := c.aclProvenance
  derivedFrom := c.derivedFrom

theorem toWrite_start (c : Chunk) : (toWrite c).start = c.validFrom :=
  Instant.stored_ofTime c.validFrom

/-- What was written, and the end of its validity. -/
abbrev DocumentRow := ChunkWrite × Option Time

variable {g : Time} {r : DocumentRow} {p : Int → Bool} {rows : List DocumentRow} {w : ChunkWrite}
  {ws : List ChunkWrite}

/-- The row ends where it is selected, current and older. -/
def endRow (g : Time) (p : Int → Bool) (r : DocumentRow) : DocumentRow :=
  if p r.1.seq ∧ r.2 = none ∧ r.1.start < g then (r.1, some g) else r

theorem endRow_fst (g : Time) (p : Int → Bool) (r : DocumentRow) : (endRow g p r).1 = r.1 := by
  unfold endRow
  split <;> rfl

/-- A row that starts with the delivery is not closed by it. -/
theorem endRow_of_le (h : g ≤ r.1.start) (p : Int → Bool) : endRow g p r = r :=
  if_neg fun hclosed => absurd hclosed.2.2 (not_lt.mpr h)

theorem endRow_endRow (g : Time) (p q : Int → Bool) (r : DocumentRow) :
    endRow g q (endRow g p r) = endRow g (fun seq => p seq || q seq) r := by
  unfold endRow
  by_cases hold : r.2 = none ∧ r.1.start < g
  · by_cases hp : p r.1.seq = true
    · simp [hp, hold]
    · simp [hp, hold]
  · have hnot : ∀ b : Bool, ¬ (b = true ∧ r.2 = none ∧ r.1.start < g) := fun b h => hold h.2
    rw [if_neg (hnot _), if_neg (hnot _), if_neg (hnot _)]

theorem endRow_congr {q : Int → Bool} (h : p r.1.seq = q r.1.seq) :
    endRow g p r = endRow g q r := by
  unfold endRow
  rw [h]

/-- The position of the write has a row with its start. -/
def Occupied (rows : List DocumentRow) (w : ChunkWrite) : Prop :=
  ∃ r ∈ rows, r.1.seq = w.seq ∧ r.1.start = w.start

instance (rows : List DocumentRow) (w : ChunkWrite) : Decidable (Occupied rows w) :=
  inferInstanceAs (Decidable (∃ r ∈ rows, _))

/-- The rows that writes add: those of the writes whose positions are free. -/
def addedRows (rows : List DocumentRow) (ws : List ChunkWrite) : List DocumentRow :=
  (ws.filter fun w => ¬ Occupied rows w).map fun w => (w.stored, none)

/-- Closing leaves a position occupied, or free. -/
theorem occupied_map_endRow : Occupied (rows.map (endRow g p)) w ↔ Occupied rows w := by
  unfold Occupied
  simp only [List.mem_map, exists_exists_and_eq_and, endRow_fst]

theorem addedRows_congr {rows' : List DocumentRow}
    (h : ∀ w ∈ ws, Occupied rows' w ↔ Occupied rows w) :
    addedRows rows' ws = addedRows rows ws := by
  unfold addedRows
  congr 1
  apply List.filter_congr
  intro w hw
  rw [decide_eq_decide, h w hw]

/-- In a document without rows every position is free. -/
theorem addedRows_nil (ws : List ChunkWrite) :
    addedRows [] ws = ws.map fun w => (w.stored, none) := by
  have hfree : ∀ w, ¬ Occupied [] w := fun w ⟨r, hr, _⟩ => List.not_mem_nil hr
  unfold addedRows
  rw [List.filter_eq_self.mpr fun w _ => decide_eq_true (hfree w)]

theorem addedRows_append (rows : List DocumentRow) (ws ws' : List ChunkWrite) :
    addedRows rows (ws ++ ws') = addedRows rows ws ++ addedRows rows ws' := by
  unfold addedRows
  rw [List.filter_append, List.map_append]

/-- Added rows start with their writes, so closing at that start leaves them. -/
theorem map_endRow_addedRows (hstart : ∀ w ∈ ws, w.start = g) (p : Int → Bool) :
    (addedRows rows ws).map (endRow g p) = addedRows rows ws := by
  unfold addedRows
  rw [List.map_map]
  apply List.map_congr_left
  intro w hw
  exact endRow_of_le (by rw [ChunkWrite.stored_start, hstart w (List.mem_filter.mp hw).1]) p

section Document

variable (tenant : TenantId) (source documentId : String)

def documentRows (t : ChunkTable) : List DocumentRow :=
  (t.rows.filter fun c => c.ofDocument tenant source documentId).map fun c => (toWrite c, c.validTo)

/-- What the rows of the document with no end were written for. -/
def currentWrites (t : ChunkTable) : List ChunkWrite :=
  (t.rows.filter fun c => c.ofDocument tenant source documentId && decide (c.validTo = none)).map
    toWrite

/-- A version of the document: its chunks are at the positions from zero on, and start together. -/
structure DocumentVersion where
  validFrom : Instant
  writes : List ChunkWrite
  ofDocument : ∀ w ∈ writes, documentOf w = (tenant, source, documentId)
  starts : ∀ w ∈ writes, w.validFrom = validFrom
  positions : (writes.map ChunkWrite.seq).Perm ((List.range writes.length).map Int.ofNat)
deriving DecidableEq

/-- The start its rows are stored with. -/
def DocumentVersion.start {tenant : TenantId} {source documentId : String}
    (v : DocumentVersion tenant source documentId) : Time := v.validFrom.stored

/-- The version a connector delivers. -/
def deliveredVersion (d : DocumentDelivery) : DocumentVersion tenant source documentId where
  validFrom := d.validFrom
  writes := d.parts.zipIdx.map (d.write tenant source documentId)
  ofDocument := by
    intro w hw
    obtain ⟨part, -, rfl⟩ := List.mem_map.mp hw
    rfl
  starts := by
    intro w hw
    obtain ⟨part, -, rfl⟩ := List.mem_map.mp hw
    rfl
  positions := by
    have hseq : (d.parts.zipIdx.map (d.write tenant source documentId)).map ChunkWrite.seq =
        (d.parts.zipIdx.map Prod.snd).map Int.ofNat := by
      rw [List.map_map, List.map_map]
      rfl
    rw [hseq, List.zipIdx_map_snd, List.length_map, List.length_zipIdx, List.range_eq_range']

variable {tenant source documentId}

theorem currentWrites_eq (t : ChunkTable) :
    currentWrites tenant source documentId t =
      ((documentRows tenant source documentId t).filter fun r => decide (r.2 = none)).map
        Prod.fst := by
  unfold currentWrites documentRows
  rw [List.filter_map, List.map_map, List.filter_filter]
  have hsel : ∀ c : Chunk, (c.ofDocument tenant source documentId && decide (c.validTo = none)) =
      (decide (c.validTo = none) && c.ofDocument tenant source documentId) := fun c =>
    Bool.and_comm _ _
  simp only [hsel]
  rfl

/-- An update that leaves the document of a row alone. -/
theorem documentRows_update {t t' : ChunkTable} {f : Chunk → Chunk} {g : DocumentRow → DocumentRow}
    (hrows : t'.rows = t.rows.map f)
    (hkey : ∀ c, (f c).ofDocument tenant source documentId = c.ofDocument tenant source documentId)
    (hrow : ∀ c, c.ofDocument tenant source documentId = true →
      (toWrite (f c), (f c).validTo) = g (toWrite c, c.validTo)) :
    documentRows tenant source documentId t' =
      (documentRows tenant source documentId t).map g := by
  unfold documentRows
  rw [hrows]
  exact map_filter_update hkey hrow t.rows

theorem documentRows_closeWhere (t : ChunkTable) (g : Time) (p : Int → Bool) :
    documentRows tenant source documentId (t.closeWhere tenant source documentId g p) =
      (documentRows tenant source documentId t).map (endRow g p) := by
  refine documentRows_update rfl ?_ ?_
  · intro c
    split
    · unfold Chunk.close
      split <;> rfl
    · rfl
  · intro c hc
    have hstart : (toWrite c).start = c.validFrom := toWrite_start c
    unfold endRow
    by_cases hp : p c.seq = true
    · rw [if_pos (Bool.and_eq_true_iff.mpr ⟨hc, hp⟩)]
      unfold Chunk.close
      by_cases hold : c.validTo = none ∧ c.validFrom < g
      · rw [if_pos hold, if_pos ⟨hp, hold.1, hstart ▸ hold.2⟩]
        rfl
      · rw [if_neg hold, if_neg fun h => hold ⟨h.2.1, hstart ▸ h.2.2⟩]
    · rw [if_neg fun h => hp (Bool.and_eq_true_iff.mp h).2, if_neg fun h => hp h.1]

theorem mem_documentRows {t : ChunkTable} :
    r ∈ documentRows tenant source documentId t ↔
      ∃ c ∈ t.rows, documentOf (toWrite c) = (tenant, source, documentId) ∧
        (toWrite c, c.validTo) = r := by
  unfold documentRows
  simp only [List.mem_map, List.mem_filter, ofDocument_iff, documentOf, toWrite, Prod.mk.injEq,
    and_assoc]

/-! ## One version -/

theorem occupied_iff {t : ChunkTable} (hdoc : documentOf w = (tenant, source, documentId)) :
    Occupied (documentRows tenant source documentId t) w ↔ w.version ∈ versions t := by
  obtain ⟨rfl, rfl, rfl⟩ := documentOf_eq_iff.mp hdoc
  unfold Occupied versions
  simp only [List.mem_map, Chunk.version, Chunk.position, ChunkWrite.version, ChunkWrite.position,
    Prod.mk.injEq]
  constructor
  · rintro ⟨r, hr, hseq, hstart⟩
    obtain ⟨c, hc, hof, rfl⟩ := mem_documentRows.mp hr
    obtain ⟨ht, hs, hd⟩ := documentOf_eq_iff.mp hof
    exact ⟨c, hc, ⟨ht, hs, hd, hseq⟩, (toWrite_start c).symm.trans hstart⟩
  · rintro ⟨c, hc, ⟨ht, hs, hd, hseq⟩, hstart⟩
    refine ⟨(toWrite c, c.validTo), mem_documentRows.mpr ⟨c, hc, ?_, rfl⟩, hseq, ?_⟩
    · exact documentOf_eq_iff.mpr ⟨ht, hs, hd⟩
    · exact (toWrite_start c).trans hstart

theorem documentRows_insert (hdoc : documentOf w = (tenant, source, documentId)) (t : ChunkTable)
    (now : Time) :
    documentRows tenant source documentId (t.insert now w) =
      documentRows tenant source documentId t ++
        addedRows (documentRows tenant source documentId t) [w] := by
  have hoccupied : t.conflicts w = true ↔ Occupied (documentRows tenant source documentId t) w :=
    conflicts_iff.trans (occupied_iff hdoc).symm
  unfold ChunkTable.insert addedRows
  by_cases hconf : t.conflicts w = true
  · rw [if_pos hconf, List.filter_eq_nil_iff.mpr (by simpa using hoccupied.mp hconf), List.map_nil,
      List.append_nil]
  · obtain ⟨ht, hs, hd⟩ := documentOf_eq_iff.mp hdoc
    have hrow : (t.rowOf now w).ofDocument tenant source documentId = true :=
      ofDocument_iff.mpr ⟨ht, hs, hd⟩
    rw [if_neg hconf, List.filter_eq_self.mpr (by simpa using mt hoccupied.mpr hconf)]
    unfold documentRows
    rw [List.filter_append, List.map_append, List.filter_cons, if_pos hrow]
    rfl

theorem documentRows_upsertChunk (hdoc : documentOf w = (tenant, source, documentId))
    (t : ChunkTable) (now : Time) :
    documentRows tenant source documentId (t.upsertChunk now w) =
      (documentRows tenant source documentId t).map
          (endRow w.start fun seq => decide (seq = w.seq)) ++
        addedRows (documentRows tenant source documentId t) [w] := by
  have hclosed : documentRows tenant source documentId
        (t.closeWhere w.tenantId w.source w.documentId w.start fun seq => decide (seq = w.seq)) =
      (documentRows tenant source documentId t).map
        (endRow w.start fun seq => decide (seq = w.seq)) := by
    obtain ⟨ht, hs, hd⟩ := documentOf_eq_iff.mp hdoc
    rw [ht, hs, hd]
    exact documentRows_closeWhere t w.start _
  unfold upsertChunk
  rw [documentRows_insert hdoc, hclosed, addedRows_congr fun w _ => occupied_map_endRow]

/-- The writes of one start, at positions of their own: the older rows at these positions are
closed, and the writes added where the positions are free. -/
theorem documentRows_foldl (now : Time)
    (hdoc : ∀ w ∈ ws, documentOf w = (tenant, source, documentId)) (hstart : ∀ w ∈ ws, w.start = g)
    (hseq : (ws.map ChunkWrite.seq).Nodup) (t : ChunkTable) :
    documentRows tenant source documentId (ws.foldl (fun t w => t.upsertChunk now w) t) =
      (documentRows tenant source documentId t).map
          (endRow g fun seq => (ws.map ChunkWrite.seq).contains seq) ++
        addedRows (documentRows tenant source documentId t) ws := by
  induction ws generalizing t with
  | nil =>
    have hkept : (endRow g fun seq => (([] : List ChunkWrite).map ChunkWrite.seq).contains seq) =
        id := funext fun r => if_neg fun h => absurd h.1 Bool.false_ne_true
    rw [hkept, List.map_id]
    exact (List.append_nil _).symm
  | cons w ws ih =>
    rw [List.map_cons, List.nodup_cons] at hseq
    have hfrom := hstart w List.mem_cons_self
    have hone := documentRows_upsertChunk (hdoc w List.mem_cons_self) t now
    set rows := documentRows tenant source documentId t
    -- the first write is at none of the other positions
    have hother : ∀ w' ∈ ws, Occupied
        (rows.map (endRow w.start fun seq => decide (seq = w.seq)) ++ addedRows rows [w]) w' ↔
          Occupied rows w' := by
      intro w' hw'
      refine Iff.trans ?_
        (occupied_map_endRow (g := w.start) (p := fun seq => decide (seq = w.seq)))
      refine ⟨?_, fun ⟨r, hr, hsame⟩ => ⟨r, List.mem_append_left _ hr, hsame⟩⟩
      rintro ⟨r, hr, hsame⟩
      rcases List.mem_append.mp hr with hr | hr
      · exact ⟨r, hr, hsame⟩
      · obtain ⟨w₀, hw₀, rfl⟩ := List.mem_map.mp hr
        obtain rfl := List.mem_singleton.mp (List.mem_filter.mp hw₀).1
        exact absurd (List.mem_map.mpr ⟨w', hw', hsame.1.symm⟩) hseq.1
    rw [List.foldl_cons, ih (fun w hw => hdoc w (List.mem_cons_of_mem _ hw))
      (fun w hw => hstart w (List.mem_cons_of_mem _ hw)) hseq.2, hone, addedRows_congr hother,
      List.map_append, List.map_map, List.append_assoc,
      map_endRow_addedRows (by simpa using hfrom), ← addedRows_append]
    congr 1
    apply List.map_congr_left
    intro r _
    rw [Function.comp_apply, hfrom, endRow_endRow]
    apply endRow_congr
    rw [List.map_cons, List.contains_cons]
    rfl

theorem DocumentVersion.nodup_seq (v : DocumentVersion tenant source documentId) :
    (v.writes.map ChunkWrite.seq).Nodup := by
  rw [v.positions.nodup_iff]
  exact List.nodup_range.map fun _ _ h => Int.ofNat.inj h

theorem DocumentVersion.mem_seq (v : DocumentVersion tenant source documentId) {seq : Int} :
    seq ∈ v.writes.map ChunkWrite.seq ↔ 0 ≤ seq ∧ seq < v.writes.length := by
  rw [v.positions.mem_iff, List.mem_map]
  constructor
  · rintro ⟨i, hi, rfl⟩
    exact ⟨Int.natCast_nonneg i, Int.ofNat_lt.mpr (List.mem_range.mp hi)⟩
  · rintro ⟨hpos, hlt⟩
    refine ⟨seq.toNat, List.mem_range.mpr ?_, Int.toNat_of_nonneg hpos⟩
    omega

/-- The tail of a version starts past its last position. -/
theorem DocumentVersion.tail (v : DocumentVersion tenant source documentId) (hw : w ∈ v.writes) :
    (tailOf v.writes w).1 = v.validFrom ∧ (tailOf v.writes w).2 < v.writes.length := by
  obtain ⟨hfrom, hseq⟩ := tail_of_same_start
    (v.writes.filter fun w' => documentOf w' = documentOf w) (w.validFrom, w.seq)
    (fun w' hw' => v.starts w' (List.mem_filter.mp hw').1) (v.starts w hw)
  have hlt : ∀ w' ∈ v.writes, w'.seq < v.writes.length := fun w' hw' =>
    (v.mem_seq.mp (List.mem_map_of_mem hw')).2
  refine ⟨hfrom, ?_⟩
  rcases hseq with hseq | ⟨w', hw', hseq⟩
  · exact hseq.trans_lt (hlt w hw)
  · exact hseq.trans_lt (hlt w' (List.mem_filter.mp hw').1)

theorem documentRows_closeTails (v : DocumentVersion tenant source documentId) (t : ChunkTable) :
    documentRows tenant source documentId (t.closeTails v.writes) =
      (documentRows tenant source documentId t).map (endRow v.start fun seq =>
        v.writes.any fun w => decide ((tailOf v.writes w).2 < seq)) := by
  have htails : ∀ (ws : List ChunkWrite) (t : ChunkTable), (∀ w ∈ ws, w ∈ v.writes) →
      documentRows tenant source documentId (ws.foldl (fun t w =>
          t.closeWhere w.tenantId w.source w.documentId (tailOf v.writes w).1.stored
            ((tailOf v.writes w).2 < ·)) t) =
        (documentRows tenant source documentId t).map (endRow v.start fun seq =>
          ws.any fun w => decide ((tailOf v.writes w).2 < seq)) := by
    intro ws
    induction ws with
    | nil =>
      intro t _
      have hkept : (endRow v.start fun seq =>
          ([] : List ChunkWrite).any fun w => decide ((tailOf v.writes w).2 < seq)) = id :=
        funext fun r => if_neg fun h => absurd h.1 Bool.false_ne_true
      rw [hkept, List.map_id]
      rfl
    | cons w ws ih =>
      intro t hsub
      have hw := hsub w List.mem_cons_self
      obtain ⟨ht, hs, hd⟩ := documentOf_eq_iff.mp (v.ofDocument w hw)
      rw [List.foldl_cons, ih _ fun w hw => hsub w (List.mem_cons_of_mem _ hw), (v.tail hw).1, ht,
        hs, hd, documentRows_closeWhere, List.map_map]
      apply List.map_congr_left
      intro r _
      exact endRow_endRow v.start _ _ r
  exact htails v.writes t fun _ hw => hw

theorem DocumentVersion.start_of_mem (v : DocumentVersion tenant source documentId)
    (hw : w ∈ v.writes) : w.start = v.start :=
  congrArg Instant.stored (v.starts w hw)

/-- A version closes the rows that are current and older, and opens its own at the positions that
are free. -/
theorem documentRows_upsertChunks (v : DocumentVersion tenant source documentId)
    (hsome : v.writes ≠ []) {t : ChunkTable}
    (hseq : ∀ r ∈ documentRows tenant source documentId t, 0 ≤ r.1.seq) (now : Time) :
    documentRows tenant source documentId (t.upsertChunks now v.writes) =
      (documentRows tenant source documentId t).map (endRow v.start fun _ => true) ++
        addedRows (documentRows tenant source documentId t) v.writes := by
  unfold upsertChunks
  rw [documentRows_closeTails, documentRows_foldl now v.ofDocument (fun w => v.start_of_mem)
    v.nodup_seq, List.map_append, List.map_map, map_endRow_addedRows fun w => v.start_of_mem]
  congr 1
  apply List.map_congr_left
  intro r hr
  rw [Function.comp_apply, endRow_endRow]
  apply endRow_congr
  -- a position is one of those delivered, or past all of them
  rw [Bool.or_eq_true]
  by_cases hlt : r.1.seq < v.writes.length
  · exact Or.inl (List.contains_iff_mem.mpr (v.mem_seq.mpr ⟨hseq r hr, hlt⟩))
  · obtain ⟨w, hw⟩ := List.exists_mem_of_ne_nil _ hsome
    refine Or.inr (List.any_eq_true.mpr ⟨w, hw, decide_eq_true ?_⟩)
    exact (v.tail hw).2.trans_le (not_lt.mp hlt)

/-- No row starts after `g`, and those that start at `g` are current. -/
def UpTo (g : Time) (rows : List DocumentRow) : Prop :=
  ∀ r ∈ rows, 0 ≤ r.1.seq ∧ r.1.start ≤ g ∧ (r.1.start = g → r.2 = none)

/-- After a version the current rows are those that start with it. -/
theorem UpTo.upsertChunks {v : DocumentVersion tenant source documentId} {t : ChunkTable}
    (h : UpTo v.start (documentRows tenant source documentId t)) (hsome : v.writes ≠ [])
    (now : Time) :
    ∀ r ∈ documentRows tenant source documentId (t.upsertChunks now v.writes),
      0 ≤ r.1.seq ∧ r.1.start ≤ v.start ∧ (r.2 = none ↔ r.1.start = v.start) := by
  rw [documentRows_upsertChunks v hsome fun r hr => (h r hr).1]
  intro r hr
  rcases List.mem_append.mp hr with hr | hr
  · obtain ⟨r, hmem, rfl⟩ := List.mem_map.mp hr
    obtain ⟨hseq, hle, hcurrent⟩ := h r hmem
    rw [endRow_fst]
    refine ⟨hseq, hle, ?_, fun heq => ?_⟩
    · intro hopen
      by_contra hne
      unfold endRow at hopen
      by_cases hold : r.2 = none
      · rw [if_pos ⟨rfl, hold, lt_of_le_of_ne hle hne⟩] at hopen
        cases hopen
      · rw [if_neg fun h => hold h.2.1] at hopen
        exact hold hopen
    · rw [endRow_of_le heq.ge]
      exact hcurrent heq
  · obtain ⟨w, hw, rfl⟩ := List.mem_map.mp hr
    have hmem := (List.mem_filter.mp hw).1
    have hstart : w.stored.start = v.start := w.stored_start.trans (v.start_of_mem hmem)
    exact ⟨(v.mem_seq.mp (List.mem_map_of_mem hmem)).1, hstart.le, fun _ => hstart, fun _ => rfl⟩

/-- A version leaves current what starts with it, and adds its chunks at the other positions. -/
theorem currentWrites_upsertChunks (v : DocumentVersion tenant source documentId)
    (hsome : v.writes ≠ []) {t : ChunkTable}
    (h : UpTo v.start (documentRows tenant source documentId t)) (now : Time) :
    currentWrites tenant source documentId (t.upsertChunks now v.writes) =
      ((documentRows tenant source documentId t).filter fun r =>
          decide (r.1.start = v.start)).map Prod.fst ++
        (v.writes.filter fun w => ¬ Occupied (documentRows tenant source documentId t) w).map
          ChunkWrite.stored := by
  have hafter : ∀ r ∈ documentRows tenant source documentId (t.upsertChunks now v.writes),
      decide (r.2 = none) = decide (r.1.start = v.start) := by
    intro r hr
    rw [decide_eq_decide]
    exact (h.upsertChunks hsome now r hr).2.2
  rw [currentWrites_eq, List.filter_congr hafter,
    documentRows_upsertChunks v hsome fun r hr => (h r hr).1, List.filter_append, List.map_append]
  congr 1
  · rw [List.filter_map, List.map_map]
    have hsel : ((fun r : DocumentRow => decide (r.1.start = v.start)) ∘
        endRow v.start fun _ => true) = fun r => decide (r.1.start = v.start) := by
      funext r
      rw [Function.comp_apply, endRow_fst]
    rw [hsel]
    exact List.map_congr_left fun r _ => endRow_fst _ _ r
  · rw [List.filter_eq_self.mpr, addedRows, List.map_map]
    · rfl
    · intro r hr
      obtain ⟨w, hw, rfl⟩ := List.mem_map.mp hr
      exact decide_eq_true (w.stored_start.trans (v.start_of_mem (List.mem_filter.mp hw).1))

/-! ## A version again -/

/-- Closing where nothing selected is current and older. -/
theorem rows_closeWhere_of_forall {t : ChunkTable}
    (hopen : ∀ r ∈ documentRows tenant source documentId t, r.2 = none → g ≤ r.1.start) :
    (t.closeWhere tenant source documentId g p).rows = t.rows := by
  unfold closeWhere update
  refine (List.map_congr_left ?_).trans (List.map_id t.rows)
  intro c hc
  by_cases hsel : (c.ofDocument tenant source documentId && p c.seq) = true
  · rw [if_pos hsel, Chunk.close, if_neg, id]
    rintro ⟨hcurrent, hlt⟩
    obtain ⟨ht, hs, hd⟩ := ofDocument_iff.mp (Bool.and_eq_true_iff.mp hsel).1
    have hrow : (toWrite c, c.validTo) ∈ documentRows tenant source documentId t :=
      mem_documentRows.mpr ⟨c, hc, by simp [documentOf, toWrite, ht, hs, hd], rfl⟩
    have hle : g ≤ c.validFrom := toWrite_start c ▸ hopen _ hrow hcurrent
    exact absurd hlt (not_lt.mpr hle)
  · rw [if_neg hsel, id]

theorem documentRows_congr {t t' : ChunkTable} (h : t'.rows = t.rows) :
    documentRows tenant source documentId t' = documentRows tenant source documentId t := by
  unfold documentRows
  rw [h]

/-- A version whose rows are there, when nothing current is older. -/
theorem rows_upsertChunks_replay (v : DocumentVersion tenant source documentId) {t : ChunkTable}
    (hthere : ∀ w ∈ v.writes, w.version ∈ versions t)
    (hopen : ∀ r ∈ documentRows tenant source documentId t, r.2 = none → v.start ≤ r.1.start)
    (now : Time) : (t.upsertChunks now v.writes).rows = t.rows := by
  have hwrites : (v.writes.foldl (fun t w => t.upsertChunk now w) t).rows = t.rows := by
    refine List.foldlRecOn (motive := fun t' : ChunkTable => t'.rows = t.rows) _ _ rfl ?_
    intro t' hrows w hw
    obtain ⟨ht, hs, hd⟩ := documentOf_eq_iff.mp (v.ofDocument w hw)
    have hclosed : (t'.closeWhere w.tenantId w.source w.documentId w.start
        fun seq => decide (seq = w.seq)).rows = t.rows := by
      rw [ht, hs, hd, v.start_of_mem hw]
      refine (rows_closeWhere_of_forall ?_).trans hrows
      rw [documentRows_congr hrows]
      exact hopen
    unfold upsertChunk ChunkTable.insert
    rw [if_pos (conflicts_iff.mpr ?_)]
    · exact hclosed
    · unfold versions
      rw [hclosed]
      exact hthere w hw
  unfold upsertChunks closeTails
  refine List.foldlRecOn (motive := fun t' : ChunkTable => t'.rows = t.rows) _ _ hwrites ?_
  intro t' hrows w hw
  obtain ⟨ht, hs, hd⟩ := documentOf_eq_iff.mp (v.ofDocument w hw)
  dsimp only
  rw [ht, hs, hd, (v.tail hw).1]
  refine (rows_closeWhere_of_forall ?_).trans hrows
  rw [documentRows_congr hrows]
  exact hopen

/-! ## Runs of deliveries -/

/-- One call with a version of the document, at the instant of its transaction. -/
abbrev VersionDelivery (tenant : TenantId) (source documentId : String) :=
  Time × DocumentVersion tenant source documentId

def deliverVersion (t : ChunkTable) (d : VersionDelivery tenant source documentId) : ChunkTable :=
  t.upsertChunks d.1 d.2.writes

/-- Each delivery is of a version that arrived before, or of one later than all that did. -/
def FirstInOrder (ds : List (VersionDelivery tenant source documentId)) : Prop :=
  ∀ before d after, ds = before ++ d :: after →
    d.2 ∈ before.map Prod.snd ∨ ∀ e ∈ before, e.2.validFrom < d.2.validFrom

instance (ds : List (VersionDelivery tenant source documentId)) : Decidable (FirstInOrder ds) :=
  inferInstanceAs (Decidable (∀ before d after, ds = before ++ d :: after → _))

/-- The delivery is the newest of those that arrived. -/
def Newest (ds : List (VersionDelivery tenant source documentId))
    (n : VersionDelivery tenant source documentId) : Prop :=
  n ∈ ds ∧ ∀ e ∈ ds, e.2.validFrom ≤ n.2.validFrom

theorem exists_newest {ds : List (VersionDelivery tenant source documentId)} (h : ds ≠ []) :
    ∃ n, Newest ds n := by
  let stamp := fun d : VersionDelivery tenant source documentId => d.2.validFrom
  cases hmax : ds.argmax stamp with
  | none => exact absurd (List.argmax_eq_none.mp hmax) h
  | some n =>
    exact ⟨n, List.argmax_mem hmax, fun e he => List.le_of_mem_argmax (f := stamp) he hmax⟩

instance (ds : List (VersionDelivery tenant source documentId))
    (n : VersionDelivery tenant source documentId) : Decidable (Newest ds n) :=
  inferInstanceAs (Decidable (_ ∧ _))

/-- The version repeats, as rows keep them, the chunks of those before it that are stored with the
same start. -/
def RepeatsEarlier (before : List (VersionDelivery tenant source documentId))
    (v : DocumentVersion tenant source documentId) : Prop :=
  ∀ e ∈ before, e.2.start = v.start → ∀ w ∈ e.2.writes, w.stored ∈ v.writes.map ChunkWrite.stored

instance (before : List (VersionDelivery tenant source documentId))
    (v : DocumentVersion tenant source documentId) : Decidable (RepeatsEarlier before v) :=
  inferInstanceAs (Decidable (∀ e ∈ before, _))

/-- What the versions that arrived leave: their rows, of which the newest version's are current. -/
structure Serving (ds : List (VersionDelivery tenant source documentId)) (t : ChunkTable) :
    Prop where
  arrived : ∀ e ∈ ds, ∀ w ∈ e.2.writes, w.version ∈ versions t
  rows_of : ∀ r ∈ documentRows tenant source documentId t,
    0 ≤ r.1.seq ∧ ∃ e ∈ ds, r.1.start = e.2.start
  newest : ∀ n, Newest ds n →
    (currentWrites tenant source documentId t).Perm (n.2.writes.map ChunkWrite.stored)
  open_iff : ∀ n, Newest ds n → ∀ r ∈ documentRows tenant source documentId t,
    r.2 = none ↔ r.1.start = n.2.start
  repeated : ∀ n, Newest ds n → RepeatsEarlier ds n.2

section Arrival

variable {ds : List (VersionDelivery tenant source documentId)} {t : ChunkTable}
  {d : VersionDelivery tenant source documentId}

theorem serving_nil (hnone : documentRows tenant source documentId t = []) :
    Serving ([] : List (VersionDelivery tenant source documentId)) t := by
  constructor
  case arrived => exact fun e he => absurd he List.not_mem_nil
  case rows_of =>
    rw [hnone]
    exact fun r hr => absurd hr List.not_mem_nil
  case newest => exact fun n hn => absurd hn.1 List.not_mem_nil
  case open_iff => exact fun n hn => absurd hn.1 List.not_mem_nil
  case repeated => exact fun n hn => absurd hn.1 List.not_mem_nil

/-- A version that arrived before changes no row. -/
theorem Serving.replay (h : Serving ds t) (hd : d.2 ∈ ds.map Prod.snd) :
    (deliverVersion t d).rows = t.rows ∧ Serving (ds ++ [d]) (deliverVersion t d) := by
  obtain ⟨e, he, hversion⟩ := List.mem_map.mp hd
  have hthere : ∀ w ∈ d.2.writes, w.version ∈ versions t := hversion ▸ h.arrived e he
  have hopen : ∀ r ∈ documentRows tenant source documentId t,
      r.2 = none → d.2.start ≤ r.1.start := by
    intro r hr hcurrent
    obtain ⟨n, hn⟩ := exists_newest (List.ne_nil_of_mem he)
    rw [(h.open_iff n hn r hr).mp hcurrent, ← hversion]
    exact Instant.stored_mono (hn.2 e he)
  have hrows : (deliverVersion t d).rows = t.rows :=
    rows_upsertChunks_replay d.2 hthere hopen d.1
  have hkept : documentRows tenant source documentId (deliverVersion t d) =
      documentRows tenant source documentId t := documentRows_congr hrows
  -- what is newest now was so before
  have hbefore : ∀ n, Newest (ds ++ [d]) n → ∃ n', Newest ds n' ∧ n'.2 = n.2 := by
    rintro n ⟨hn, hmax⟩
    have hmax' : ∀ e ∈ ds, e.2.validFrom ≤ n.2.validFrom := fun e he =>
      hmax e (List.mem_append_left _ he)
    rcases List.mem_append.mp hn with hn | hn
    · exact ⟨n, ⟨hn, hmax'⟩, rfl⟩
    · obtain rfl := List.mem_singleton.mp hn
      exact ⟨e, ⟨he, fun e' he' => hversion ▸ hmax' e' he'⟩, hversion⟩
  refine ⟨hrows, ?_⟩
  constructor
  case arrived =>
    intro e' he' w hw
    unfold versions
    rw [hrows]
    rcases List.mem_append.mp he' with he' | he'
    · exact h.arrived e' he' w hw
    · obtain rfl := List.mem_singleton.mp he'
      exact hthere w hw
  case rows_of =>
    rw [hkept]
    intro r hr
    obtain ⟨hseq, e', he', hfrom⟩ := h.rows_of r hr
    exact ⟨hseq, e', List.mem_append_left _ he', hfrom⟩
  case newest =>
    intro n hn
    obtain ⟨n', hn', hsame⟩ := hbefore n hn
    rw [currentWrites_eq, hkept, ← currentWrites_eq, ← hsame]
    exact h.newest n' hn'
  case open_iff =>
    intro n hn
    obtain ⟨n', hn', hsame⟩ := hbefore n hn
    rw [hkept, ← hsame]
    exact h.open_iff n' hn'
  case repeated =>
    intro n hn
    obtain ⟨n', hn', hsame⟩ := hbefore n hn
    rw [← hsame]
    intro e' he'
    rcases List.mem_append.mp he' with he' | he'
    · exact h.repeated n' hn' e' he'
    · rw [List.mem_singleton.mp he', ← hversion]
      exact h.repeated n' hn' e he

/-- The rows that start with a version to come are those of the newest one, if that starts with
it. -/
theorem Serving.standing (h : Serving ds t) (hd : ∀ e ∈ ds, e.2.validFrom < d.2.validFrom) :
    UpTo d.2.start (documentRows tenant source documentId t) ∧
      ((∃ n, Newest ds n ∧ n.2.start = d.2.start ∧
          (documentRows tenant source documentId t).filter (fun r =>
              decide (r.1.start = d.2.start)) =
            (documentRows tenant source documentId t).filter fun r => decide (r.2 = none)) ∨
        (∀ e ∈ ds, e.2.start ≠ d.2.start) ∧
          (documentRows tenant source documentId t).filter (fun r =>
            decide (r.1.start = d.2.start)) = []) := by
  have hmatch : ∀ e ∈ ds, e.2.start = d.2.start → ∃ n, Newest ds n ∧ n.2.start = d.2.start := by
    intro e he heq
    obtain ⟨n, hn⟩ := exists_newest (List.ne_nil_of_mem he)
    refine ⟨n, hn, le_antisymm (Instant.stored_mono (hd n hn.1).le) ?_⟩
    rw [← heq]
    exact Instant.stored_mono (hn.2 e he)
  refine ⟨?_, ?_⟩
  · intro r hr
    obtain ⟨hseq, e, he, hfrom⟩ := h.rows_of r hr
    refine ⟨hseq, hfrom ▸ Instant.stored_mono (hd e he).le, fun heq => ?_⟩
    obtain ⟨n, hn, hstart⟩ := hmatch e he (hfrom.symm.trans heq)
    exact (h.open_iff n hn r hr).mpr (heq.trans hstart.symm)
  · by_cases hex : ∃ n, Newest ds n ∧ n.2.start = d.2.start
    · obtain ⟨n, hn, hstart⟩ := hex
      refine Or.inl ⟨n, hn, hstart, List.filter_congr fun r hr => ?_⟩
      rw [decide_eq_decide, h.open_iff n hn r hr, hstart]
    · refine Or.inr ⟨fun e he heq => hex (hmatch e he heq), List.filter_eq_nil_iff.mpr ?_⟩
      intro r hr hstart
      obtain ⟨-, e, he, hfrom⟩ := h.rows_of r hr
      exact hex (hmatch e he (hfrom.symm.trans (of_decide_eq_true hstart)))

/-- A version that is later than all before it is the current one exactly when it repeats
them. -/
theorem Serving.currentWrites_iff (h : Serving ds t) (hsome : d.2.writes ≠ [])
    (hd : ∀ e ∈ ds, e.2.validFrom < d.2.validFrom) :
    (currentWrites tenant source documentId (deliverVersion t d)).Perm
        (d.2.writes.map ChunkWrite.stored) ↔ RepeatsEarlier ds d.2 := by
  obtain ⟨hupTo, hstanding⟩ := h.standing hd
  rw [deliverVersion, currentWrites_upsertChunks d.2 hsome hupTo]
  set old := ((documentRows tenant source documentId t).filter fun r =>
    decide (r.1.start = d.2.start)).map Prod.fst with hold
  -- a position is occupied where one of these rows has it
  have hfree : (d.2.writes.filter fun w =>
        ¬ Occupied (documentRows tenant source documentId t) w).map ChunkWrite.stored =
      (d.2.writes.map ChunkWrite.stored).filter fun w => w.seq ∉ old.map ChunkWrite.seq := by
    rw [List.filter_map]
    congr 1
    apply List.filter_congr
    intro w hw
    rw [Function.comp_apply, decide_eq_decide, not_iff_not, ChunkWrite.stored_seq, hold,
      List.map_map, List.mem_map]
    unfold Occupied
    simp only [List.mem_filter, decide_eq_true_eq, d.2.start_of_mem hw, Function.comp_apply,
      and_assoc, and_comm (a := _ = d.2.start)]
  have hnew : ((d.2.writes.map ChunkWrite.stored).map ChunkWrite.seq).Nodup := by
    rw [List.map_map]
    exact d.2.nodup_seq
  rw [hfree]
  rcases hstanding with ⟨n, hn, hstart, hrows⟩ | ⟨hnone, hrows⟩
  · have hserved : old.Perm (n.2.writes.map ChunkWrite.stored) := by
      rw [hold, hrows, ← currentWrites_eq]
      exact h.newest n hn
    have hnodup : (old.map ChunkWrite.seq).Nodup := by
      rw [(hserved.map ChunkWrite.seq).nodup_iff, List.map_map]
      exact n.2.nodup_seq
    rw [perm_insert_absent_iff hnodup hnew]
    constructor
    · intro hsub e he hsame w hw
      refine hsub _ (hserved.mem_iff.mpr ?_)
      exact h.repeated n hn e he (hsame.trans hstart.symm) w hw
    · intro hrepeats w hw
      obtain ⟨w', hw', rfl⟩ := List.mem_map.mp (hserved.mem_iff.mp hw)
      exact hrepeats n hn.1 hstart w' hw'
  · have hempty : old = [] := by rw [hold, hrows, List.map_nil]
    refine iff_of_true ?_ fun e he hstart => absurd hstart (hnone e he)
    rw [hempty, List.nil_append, List.filter_eq_self.mpr (by simp)]

/-- A newer version that repeats its ties is served. -/
theorem Serving.arrival (h : Serving ds t) (hsome : d.2.writes ≠ [])
    (hd : ∀ e ∈ ds, e.2.validFrom < d.2.validFrom) (hrepeats : RepeatsEarlier ds d.2) :
    Serving (ds ++ [d]) (deliverVersion t d) := by
  obtain ⟨hupTo, -⟩ := h.standing hd
  have hlast : d ∈ ds ++ [d] := List.mem_append_right _ (List.mem_singleton.mpr rfl)
  have hnewest : ∀ n, Newest (ds ++ [d]) n → n = d := by
    rintro n ⟨hn, hmax⟩
    rcases List.mem_append.mp hn with hn | hn
    · exact absurd (hmax d hlast) (not_le.mpr (hd n hn))
    · exact List.mem_singleton.mp hn
  constructor
  case arrived =>
    intro e he w hw
    rw [deliverVersion, mem_versions_upsertChunks]
    rcases List.mem_append.mp he with he | he
    · exact Or.inl (h.arrived e he w hw)
    · obtain rfl := List.mem_singleton.mp he
      exact Or.inr (List.mem_map_of_mem hw)
  case rows_of =>
    rw [deliverVersion, documentRows_upsertChunks d.2 hsome fun r hr => (hupTo r hr).1]
    intro r hr
    rcases List.mem_append.mp hr with hr | hr
    · obtain ⟨r₀, hr₀, rfl⟩ := List.mem_map.mp hr
      rw [endRow_fst]
      obtain ⟨hseq, e, he, hfrom⟩ := h.rows_of r₀ hr₀
      exact ⟨hseq, e, List.mem_append_left _ he, hfrom⟩
    · obtain ⟨w, hw, rfl⟩ := List.mem_map.mp hr
      have hmem := (List.mem_filter.mp hw).1
      exact ⟨(d.2.mem_seq.mp (List.mem_map_of_mem hmem)).1, d, hlast,
        w.stored_start.trans (d.2.start_of_mem hmem)⟩
  case newest =>
    intro n hn
    rw [hnewest n hn]
    exact (h.currentWrites_iff hsome hd).mpr hrepeats
  case open_iff =>
    intro n hn r hr
    rw [hnewest n hn]
    exact (hupTo.upsertChunks hsome d.1 r hr).2.2
  case repeated =>
    intro n hn e he
    rw [hnewest n hn]
    rcases List.mem_append.mp he with he | he
    · exact hrepeats e he
    · rw [List.mem_singleton.mp he]
      exact fun _ w hw => List.mem_map_of_mem hw

end Arrival

/-- Along deliveries whose first arrivals are each later than all before: after every delivery the
current rows of the document are the chunks of the newest version that arrived, and a version that
arrived before changes no row, exactly when every first arrival repeats the chunks of the versions
before it that are stored with its start. -/
theorem newest_version_current_iff {t : ChunkTable}
    (hnone : documentRows tenant source documentId t = [])
    (ds : List (VersionDelivery tenant source documentId)) (hsome : ∀ d ∈ ds, d.2.writes ≠ [])
    (horder : FirstInOrder ds) :
    (∀ before d after, ds = before ++ d :: after →
      (∀ n, Newest (before ++ [d]) n →
        (currentWrites tenant source documentId ((before ++ [d]).foldl deliverVersion t)).Perm
          (n.2.writes.map ChunkWrite.stored)) ∧
      (d.2 ∈ before.map Prod.snd →
        ((before ++ [d]).foldl deliverVersion t).rows = (before.foldl deliverVersion t).rows)) ↔
    ∀ before d after, ds = before ++ d :: after →
      (∀ e ∈ before, e.2.validFrom < d.2.validFrom) → RepeatsEarlier before d.2 := by
  refine forall_split_iff (I := fun before => Serving before (before.foldl deliverVersion t))
    (serving_nil hnone) ?_
  intro before d after hsplit hserving
  have hd : d.2.writes ≠ [] := hsome d (by simp [hsplit])
  rw [List.foldl_append, List.foldl_cons, List.foldl_nil]
  rcases horder before d after hsplit with hreplay | hlater
  · obtain ⟨hrows, hnext⟩ := hserving.replay hreplay
    have hnot : ¬ ∀ e ∈ before, e.2.validFrom < d.2.validFrom := by
      intro hlater
      obtain ⟨e, he, hsame⟩ := List.mem_map.mp hreplay
      exact absurd (hlater e he) (hsame ▸ lt_irrefl _)
    exact ⟨iff_of_true ⟨hnext.newest, fun _ => hrows⟩ fun hlater => absurd hlater hnot,
      fun _ => hnext⟩
  · have hfirst : d.2 ∉ before.map Prod.snd := by
      intro hreplay
      obtain ⟨e, he, hsame⟩ := List.mem_map.mp hreplay
      exact absurd (hlater e he) (hsame ▸ lt_irrefl _)
    have hlast : Newest (before ++ [d]) d := by
      refine ⟨by simp, fun e he => ?_⟩
      rcases List.mem_append.mp he with he | he
      · exact (hlater e he).le
      · exact (congrArg (fun e => e.2.validFrom) (List.mem_singleton.mp he)).le
    have hcurrent := hserving.currentWrites_iff hd hlater
    refine ⟨?_, fun hrepeats => hserving.arrival hd hlater (hrepeats hlater)⟩
    constructor
    · exact fun hserved _ => hcurrent.mp (hserved.1 d hlast)
    · intro hrepeats
      exact ⟨(hserving.arrival hd hlater (hrepeats hlater)).newest,
        fun hreplay => absurd hreplay hfirst⟩

end Document

/-- A version of a thread with these messages. -/
def threadVersion (validFrom : Instant) (messages : List String) :
    DocumentVersion 1 "slack" "thread" :=
  deliveredVersion 1 "slack" "thread"
    ⟨0, validFrom, 1, .mirrored, messages.map fun content => ⟨content, [101], [], .internal⟩⟩

/-- A thread of three messages, of which two are deleted. -/
def shrinkingThread : List (VersionDelivery 1 "slack" "thread") :=
  [(10, threadVersion 10 ["a", "b", "c"]), (20, threadVersion 20 ["a"])]

/-- The first version, delivered once more. -/
def firstAgain : VersionDelivery 1 "slack" "thread" := (21, threadVersion 10 ["a", "b", "c"])

/-- The shorter version stays the current one, and no row changes. -/
theorem shrunk_thread_is_current :
    (∀ n, Newest (shrinkingThread ++ [firstAgain]) n →
      (currentWrites 1 "slack" "thread"
        ((shrinkingThread ++ [firstAgain]).foldl deliverVersion ChunkTable.empty)).Perm
          (n.2.writes.map ChunkWrite.stored)) ∧
    ((shrinkingThread ++ [firstAgain]).foldl deliverVersion ChunkTable.empty).rows =
      (shrinkingThread.foldl deliverVersion ChunkTable.empty).rows := by
  have hcurrent := (newest_version_current_iff (t := ChunkTable.empty) rfl
    (shrinkingThread ++ [firstAgain]) (by decide) (by decide +kernel)).mpr
      (by decide +kernel) shrinkingThread firstAgain [] rfl
  exact ⟨hcurrent.1, hcurrent.2 (by decide +kernel)⟩

/-- Two edits of a thread within one microsecond. -/
def hastyThread : List (VersionDelivery 1 "slack" "thread") :=
  [(10, threadVersion ⟨10100⟩ ["draft"]), (11, threadVersion ⟨10200⟩ ["final"])]

/-- The first edit stays the current one. -/
theorem second_edit_within_microsecond_dropped :
    ¬ ∀ ds : List (VersionDelivery 1 "slack" "thread"), (∀ d ∈ ds, d.2.writes ≠ []) →
      FirstInOrder ds → ∀ before d after, ds = before ++ d :: after →
        ∀ n, Newest (before ++ [d]) n →
          (currentWrites 1 "slack" "thread"
            ((before ++ [d]).foldl deliverVersion ChunkTable.empty)).Perm
              (n.2.writes.map ChunkWrite.stored) := by
  intro hclaim
  have hcurrent := hclaim hastyThread (by decide) (by decide +kernel)
    [(10, threadVersion ⟨10100⟩ ["draft"])] (11, threadVersion ⟨10200⟩ ["final"]) [] rfl
    (11, threadVersion ⟨10200⟩ ["final"]) (by decide +kernel)
  exact absurd (hcurrent.map ChunkWrite.content) (by decide +kernel)

end Verity.Analysis
