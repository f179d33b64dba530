import Mathlib.Order.MinMax
import Verity.Foundation.Run
import Verity.Model.Chunks

/-!
# The current version of a chunk position

A delivery closes the versions that are older than what it brings and opens its own. It does not
look at the versions that are newer: a version that comes late is opened beside the newer one, or
in its place where the newer one was closed with the tail of its document. So the current version
of a position is the newest one delivered exactly in the runs whose deliveries bring no version
late (`currentNewest_iff_timely`).

A version is a position and a start as it is stored: writes of a position within one microsecond
are one version. `versions` and `CurrentIn` say which versions a table holds and which of them are
current; the analysis is about these two, one lemma per statement of `upsert_chunks`.
-/

set_option autoImplicit false

namespace Verity.Model

/-- One call of `upsert_chunks`, at the instant of its transaction. -/
structure ChunkDelivery where
  now : Time
  writes : List ChunkWrite
deriving DecidableEq, Repr

/-- A delivery is one transaction. -/
def chunkStep (t : ChunkTable) (d : ChunkDelivery) : Option ChunkTable :=
  some (t.upsertChunks d.now d.writes)

end Verity.Model

namespace Verity.Analysis

open Verity.Foundation
open Verity.Model
open Verity.Model.ChunkTable

variable {tenant : TenantId} {source documentId : String} {w : ChunkWrite} {t : ChunkTable}
  {v : Version} {now : Time} {writes : List ChunkWrite}

/-- The versions of a table, current or not. -/
def versions (t : ChunkTable) : List Version := t.rows.map Chunk.version

def CurrentIn (t : ChunkTable) (v : Version) : Prop :=
  ∃ c ∈ t.rows, c.validTo = none ∧ c.version = v

/-- At most one row of a position is current, and it starts last of all that was delivered for
the position, as starts are stored. -/
def CurrentNewest (delivered : List ChunkWrite) (t : ChunkTable) : Prop :=
  ∀ c ∈ t.rows, c.validTo = none →
    (∀ c' ∈ t.rows, c'.validTo = none → c'.position = c.position → c' = c) ∧
    c.version ∈ delivered.map ChunkWrite.version ∧
    ∀ w ∈ delivered, w.position = c.position → w.start ≤ c.validFrom

instance (delivered : List ChunkWrite) (t : ChunkTable) : Decidable (CurrentNewest delivered t) :=
  inferInstanceAs (Decidable (∀ c ∈ t.rows, c.validTo = none → _))

/-- The write brings a version the position does not have, when it has a newer one already, and
no later write of the delivery is newer. -/
def Late (t : ChunkTable) (before : List ChunkWrite) (w : ChunkWrite) (after : List ChunkWrite) :
    Prop :=
  w.version ∉ versions t ++ before.map ChunkWrite.version ∧
  (∃ v ∈ versions t ++ before.map ChunkWrite.version, v.1 = w.position ∧ w.start < v.2) ∧
  ∀ w' ∈ after, w'.position = w.position → w'.start ≤ w.start

/-- The delivery brings no version late. -/
def Timely (t : ChunkTable) (d : ChunkDelivery) : Prop :=
  ∀ before w after, d.writes = before ++ w :: after → ¬ Late t before w after

/-! ## The statements of a delivery -/

theorem ofDocument_iff {c : Chunk} :
    c.ofDocument tenant source documentId = true ↔
      c.tenantId = tenant ∧ c.source = source ∧ c.documentId = documentId := by
  simp [Chunk.ofDocument]

theorem documentOf_eq_iff :
    documentOf w = (tenant, source, documentId) ↔
      w.tenantId = tenant ∧ w.source = source ∧ w.documentId = documentId := by
  simp [documentOf]

/-- Closing keeps the versions. -/
@[simp]
theorem versions_closeWhere (t : ChunkTable) (tenant : TenantId) (source documentId : String)
    (validFrom : Time) (p : Int → Bool) :
    versions (t.closeWhere tenant source documentId validFrom p) = versions t := by
  unfold versions closeWhere update
  rw [List.map_map]
  apply List.map_congr_left
  intro c _
  rw [Function.comp_apply]
  split
  · unfold Chunk.close
    split <;> rfl
  · rfl

/-- Closing leaves current what is not selected and what is not older. -/
theorem currentIn_closeWhere {validFrom : Time} {p : Int → Bool} :
    CurrentIn (t.closeWhere tenant source documentId validFrom p) v ↔
      CurrentIn t v ∧
        ∀ seq, v.1 = (tenant, source, documentId, seq) → p seq → validFrom ≤ v.2 := by
  unfold CurrentIn closeWhere update
  simp only [List.mem_map]
  constructor
  · rintro ⟨_, ⟨c, hc, rfl⟩, hcur, rfl⟩
    by_cases hsel : (c.ofDocument tenant source documentId && p c.seq) = true
    · rw [if_pos hsel] at hcur ⊢
      unfold Chunk.close at hcur ⊢
      by_cases hold : c.validTo = none ∧ c.validFrom < validFrom
      · rw [if_pos hold] at hcur
        cases hcur
      · rw [if_neg hold] at hcur ⊢
        refine ⟨⟨c, hc, hcur, rfl⟩, fun _ _ _ => ?_⟩
        exact not_lt.mp fun hlt => hold ⟨hcur, hlt⟩
    · rw [if_neg hsel] at hcur ⊢
      refine ⟨⟨c, hc, hcur, rfl⟩, ?_⟩
      intro seq hpos hp
      simp only [Chunk.version, Chunk.position, Prod.mk.injEq] at hpos
      obtain ⟨ht, hs, hd, rfl⟩ := hpos
      exact absurd (Bool.and_eq_true_iff.mpr ⟨ofDocument_iff.mpr ⟨ht, hs, hd⟩, hp⟩) hsel
  · rintro ⟨⟨c, hc, hcur, rfl⟩, hopen⟩
    have hsame : (if c.ofDocument tenant source documentId && p c.seq then c.close validFrom
        else c) = c := by
      by_cases hsel : (c.ofDocument tenant source documentId && p c.seq) = true
      · obtain ⟨hdoc, hp⟩ := Bool.and_eq_true_iff.mp hsel
        obtain ⟨rfl, rfl, rfl⟩ := ofDocument_iff.mp hdoc
        rw [if_pos hsel, Chunk.close, if_neg]
        rintro ⟨-, hlt⟩
        exact absurd hlt (not_lt.mpr (hopen c.seq rfl hp))
      · exact if_neg hsel
    exact ⟨c, ⟨c, hc, hsame⟩, hcur, rfl⟩

theorem conflicts_iff : t.conflicts w = true ↔ w.version ∈ versions t := by
  unfold conflicts versions
  simp only [List.any_eq_true, Bool.and_eq_true, decide_eq_true_eq, ofDocument_iff, List.mem_map,
    Chunk.version, Chunk.position, ChunkWrite.version, ChunkWrite.position, Prod.mk.injEq,
    and_assoc]

/-- The insert adds its version, when that is not there. -/
theorem versions_insert (t : ChunkTable) (now : Time) (w : ChunkWrite) :
    versions (t.insert now w) =
      if w.version ∈ versions t then versions t else versions t ++ [w.version] := by
  unfold ChunkTable.insert
  by_cases hconf : t.conflicts w = true
  · rw [if_pos hconf, if_pos (conflicts_iff.mp hconf)]
  · rw [if_neg hconf, if_neg (mt conflicts_iff.mpr hconf), versions, List.map_append,
      List.map_singleton]
    rfl

/-- The insert makes its version current, when that is not there. -/
theorem currentIn_insert :
    CurrentIn (t.insert now w) v ↔ CurrentIn t v ∨ (v ∉ versions t ∧ v = w.version) := by
  unfold ChunkTable.insert
  by_cases hconf : t.conflicts w = true
  · rw [if_pos hconf]
    refine ⟨Or.inl, ?_⟩
    rintro (h | ⟨hfresh, rfl⟩)
    · exact h
    · exact absurd (conflicts_iff.mp hconf) hfresh
  · rw [if_neg hconf]
    unfold CurrentIn
    constructor
    · rintro ⟨c, hc, hcur, hv⟩
      rcases List.mem_append.mp hc with hc | hc
      · exact Or.inl ⟨c, hc, hcur, hv⟩
      · obtain rfl := List.mem_singleton.mp hc
        subst hv
        exact Or.inr ⟨mt conflicts_iff.mpr hconf, rfl⟩
    · rintro (⟨c, hc, hcur, hv⟩ | ⟨-, rfl⟩)
      · exact ⟨c, List.mem_append_left _ hc, hcur, hv⟩
      · exact ⟨t.rowOf now w, List.mem_append_right _ (List.mem_singleton.mpr rfl), rfl, rfl⟩

/-! ## The writes of a delivery -/

theorem mem_versions_upsertChunk :
    v ∈ versions (t.upsertChunk now w) ↔ v ∈ versions t ∨ v = w.version := by
  unfold upsertChunk
  rw [versions_insert, versions_closeWhere]
  split
  · rename_i hmem
    refine ⟨Or.inl, ?_⟩
    rintro (h | rfl)
    · exact h
    · exact hmem
  · rw [List.mem_append, List.mem_singleton]

theorem nodup_versions_upsertChunk (h : (versions t).Nodup) (now : Time) (w : ChunkWrite) :
    (versions (t.upsertChunk now w)).Nodup := by
  unfold upsertChunk
  rw [versions_insert, versions_closeWhere]
  split
  · exact h
  · rename_i hmem
    rw [← List.concat_eq_append]
    exact List.Nodup.concat hmem h

/-- What is current after a write: the current versions it does not close, and its own when that
is new. -/
theorem currentIn_upsertChunk :
    CurrentIn (t.upsertChunk now w) v ↔
      (CurrentIn t v ∧ (w.position = v.1 → w.start ≤ v.2)) ∨
        (v ∉ versions t ∧ v = w.version) := by
  unfold upsertChunk
  rw [currentIn_insert, currentIn_closeWhere, versions_closeWhere]
  have hopen : (∀ seq, v.1 = (w.tenantId, w.source, w.documentId, seq) →
      decide (seq = w.seq) = true → w.start ≤ v.2) ↔
      (w.position = v.1 → w.start ≤ v.2) := by
    constructor
    · intro h hpos
      exact h w.seq hpos.symm (decide_eq_true rfl)
    · intro h seq hpos hseq
      rw [of_decide_eq_true hseq] at hpos
      exact h hpos.symm
  rw [hopen]

theorem mem_versions_foldl :
    v ∈ versions (writes.foldl (fun t w => t.upsertChunk now w) t) ↔
      v ∈ versions t ∨ v ∈ writes.map ChunkWrite.version := by
  induction writes generalizing t with
  | nil => simp
  | cons w writes ih =>
    rw [List.foldl_cons, ih, mem_versions_upsertChunk, List.map_cons, List.mem_cons, or_assoc]

theorem nodup_versions_foldl (h : (versions t).Nodup) (now : Time) (writes : List ChunkWrite) :
    (versions (writes.foldl (fun t w => t.upsertChunk now w) t)).Nodup := by
  induction writes generalizing t with
  | nil => exact h
  | cons w writes ih => exact ih (nodup_versions_upsertChunk h now w)

/-- What is current after the writes: an old version that none of them closes, or a new one that
none of those after it closes. -/
theorem currentIn_foldl :
    CurrentIn (writes.foldl (fun t w => t.upsertChunk now w) t) v ↔
      (CurrentIn t v ∧ ∀ w ∈ writes, w.position = v.1 → w.start ≤ v.2) ∨
        ∃ before w after, writes = before ++ w :: after ∧ v = w.version ∧
          v ∉ versions t ++ before.map ChunkWrite.version ∧
          ∀ w' ∈ after, w'.position = v.1 → w'.start ≤ v.2 := by
  induction writes generalizing t with
  | nil => simp
  | cons w writes ih =>
    rw [List.foldl_cons, ih, currentIn_upsertChunk]
    constructor
    · rintro (⟨⟨hcur, hw⟩ | ⟨hfresh, hv⟩, hrest⟩ | ⟨before, w', after, rfl, hv, hfresh, hrest⟩)
      · exact Or.inl ⟨hcur, List.forall_mem_cons.mpr ⟨hw, hrest⟩⟩
      · exact Or.inr ⟨[], w, writes, rfl, hv, by simpa using hfresh, hrest⟩
      · refine Or.inr ⟨w :: before, w', after, rfl, hv, ?_, hrest⟩
        rw [List.mem_append, mem_versions_upsertChunk] at hfresh
        rw [List.map_cons, List.mem_append, List.mem_cons]
        rintro (h | h | h)
        · exact hfresh (Or.inl (Or.inl h))
        · exact hfresh (Or.inl (Or.inr h))
        · exact hfresh (Or.inr h)
    · rintro (⟨hcur, hall⟩ | ⟨before, w', after, hsplit, hv, hfresh, hrest⟩)
      · obtain ⟨hw, hrest⟩ := List.forall_mem_cons.mp hall
        exact Or.inl ⟨Or.inl ⟨hcur, hw⟩, hrest⟩
      cases before with
      | nil =>
        obtain ⟨rfl, rfl⟩ := List.cons.inj hsplit
        exact Or.inl ⟨Or.inr ⟨by simpa using hfresh, hv⟩, hrest⟩
      | cons w₀ before =>
        rw [List.cons_append] at hsplit
        obtain ⟨rfl, rfl⟩ := List.cons.inj hsplit
        refine Or.inr ⟨before, w', after, rfl, hv, ?_, hrest⟩
        rw [List.map_cons, List.mem_append, List.mem_cons] at hfresh
        rw [List.mem_append, mem_versions_upsertChunk]
        rintro ((h | h) | h)
        · exact hfresh (Or.inl h)
        · exact hfresh (Or.inr (Or.inl h))
        · exact hfresh (Or.inr (Or.inr h))

/-! ## The tail -/

theorem versions_closeTails (t : ChunkTable) (writes : List ChunkWrite) :
    versions (t.closeTails writes) = versions t := by
  unfold closeTails
  generalize tailOf writes = tail
  induction writes generalizing t with
  | nil => rfl
  | cons w writes ih => rw [List.foldl_cons, ih, versions_closeWhere]

/-- A write of the document is not beyond the tail. -/
theorem seq_le_tailOf {first : ChunkWrite} (hw : w ∈ writes)
    (hdoc : documentOf w = documentOf first) : w.seq ≤ (tailOf writes first).2 := by
  unfold tailOf
  have hmem : w ∈ writes.filter fun w => documentOf w = documentOf first :=
    List.mem_filter.mpr ⟨hw, decide_eq_true hdoc⟩
  generalize (writes.filter fun w => documentOf w = documentOf first) = ws at hmem
  generalize (first.validFrom, first.seq) = tail
  have hgrow : ∀ (ws : List ChunkWrite) (tail : Instant × Int),
      tail.2 ≤ (ws.foldl (fun tail w => (max tail.1 w.validFrom, max tail.2 w.seq)) tail).2 := by
    intro ws
    induction ws with
    | nil => exact fun _ => le_refl _
    | cons w ws ih => exact fun tail => (le_max_left _ _).trans (ih _)
  induction ws generalizing tail with
  | nil => cases hmem
  | cons w' ws ih =>
    rcases List.mem_cons.mp hmem with rfl | hmem
    · exact (le_max_right _ _).trans (hgrow ws _)
    · exact ih hmem _

/-- The tail of writes that start together starts with them, past one of them. -/
theorem tail_of_same_start {g : Instant} (ws : List ChunkWrite) (tail : Instant × Int)
    (hstart : ∀ w ∈ ws, w.validFrom = g) (htail : tail.1 = g) :
    (ws.foldl (fun tail w => (max tail.1 w.validFrom, max tail.2 w.seq)) tail).1 = g ∧
      ((ws.foldl (fun tail w => (max tail.1 w.validFrom, max tail.2 w.seq)) tail).2 = tail.2 ∨
        ∃ w ∈ ws, (ws.foldl (fun tail w => (max tail.1 w.validFrom, max tail.2 w.seq)) tail).2 =
          w.seq) := by
  induction ws generalizing tail with
  | nil => exact ⟨htail, Or.inl rfl⟩
  | cons w ws ih =>
    have hw := hstart w List.mem_cons_self
    obtain ⟨hfrom, hseq⟩ := ih (max tail.1 w.validFrom, max tail.2 w.seq)
      (fun w hw => hstart w (List.mem_cons_of_mem _ hw)) (by rw [htail, hw, max_self])
    refine ⟨hfrom, ?_⟩
    rcases hseq with hseq | ⟨w', hw', hseq⟩
    · rcases max_choice tail.2 w.seq with hmax | hmax
      · exact Or.inl (hseq.trans hmax)
      · exact Or.inr ⟨w, List.mem_cons_self, hseq.trans hmax⟩
    · exact Or.inr ⟨w', List.mem_cons_of_mem _ hw', hseq⟩

/-- The tail closes nothing where the delivery has a write, and opens nothing. -/
theorem currentIn_closeTails :
    (CurrentIn (t.closeTails writes) v → CurrentIn t v) ∧
      (CurrentIn t v → (∃ w ∈ writes, w.position = v.1) → CurrentIn (t.closeTails writes) v) := by
  have hfold : ∀ (ws : List ChunkWrite) (t : ChunkTable),
      CurrentIn (ws.foldl (fun t w => t.closeWhere w.tenantId w.source w.documentId
          (tailOf writes w).1.stored ((tailOf writes w).2 < ·)) t) v ↔
        CurrentIn t v ∧ ∀ w ∈ ws, ∀ seq, v.1 = (w.tenantId, w.source, w.documentId, seq) →
          decide ((tailOf writes w).2 < seq) = true → (tailOf writes w).1.stored ≤ v.2 := by
    intro ws
    induction ws with
    | nil => simp
    | cons w ws ih =>
      intro t
      rw [List.foldl_cons, ih, currentIn_closeWhere, List.forall_mem_cons, and_assoc]
  have hiff := hfold writes t
  refine ⟨fun h => (hiff.mp h).1, ?_⟩
  rintro hcur ⟨w, hw, hpos⟩
  refine hiff.mpr ⟨hcur, ?_⟩
  intro w' _ seq hv hlt
  -- the version is at a delivered position, which is not beyond the tail of its document
  rw [← hpos, ChunkWrite.position, Prod.mk.injEq, Prod.mk.injEq, Prod.mk.injEq] at hv
  obtain ⟨ht, hs, hd, rfl⟩ := hv
  have hle := seq_le_tailOf hw (show documentOf w = documentOf w' by
    rw [documentOf, documentOf, ht, hs, hd])
  exact absurd (of_decide_eq_true hlt) (not_lt.mpr hle)

/-! ## Runs of deliveries -/

theorem mem_versions_upsertChunks :
    v ∈ versions (t.upsertChunks now writes) ↔
      v ∈ versions t ∨ v ∈ writes.map ChunkWrite.version := by
  unfold upsertChunks
  rw [versions_closeTails, mem_versions_foldl]

/-- What is current starts last of the versions of its position. -/
def NewestOpen (t : ChunkTable) : Prop :=
  ∀ v, CurrentIn t v → ∀ v' ∈ versions t, v'.1 = v.1 → v'.2 ≤ v.2

/-- A delivery keeps the newest version the current one exactly when it brings none late. -/
theorem newestOpen_upsertChunks_iff (h : NewestOpen t) (d : ChunkDelivery) :
    NewestOpen (t.upsertChunks d.now d.writes) ↔ Timely t d := by
  constructor
  · rintro hnext before w after hsplit ⟨hfresh, ⟨v, hv, hpos, hlt⟩, hafter⟩
    have hcur : CurrentIn (t.upsertChunks d.now d.writes) w.version := by
      refine currentIn_closeTails.2 ?_ ⟨w, by simp [hsplit], rfl⟩
      exact currentIn_foldl.mpr (Or.inr ⟨before, w, after, hsplit, rfl, hfresh, hafter⟩)
    have hmem : v ∈ versions (t.upsertChunks d.now d.writes) := by
      rw [mem_versions_upsertChunks, hsplit]
      rcases List.mem_append.mp hv with hv | hv
      · exact Or.inl hv
      · exact Or.inr (by rw [List.map_append]; exact List.mem_append_left _ hv)
    exact absurd hlt (not_lt.mpr (hnext _ hcur v hmem hpos))
  · intro htimely v hcur v' hv' hpos
    rw [mem_versions_upsertChunks] at hv'
    rcases currentIn_foldl.mp (currentIn_closeTails.1 hcur) with
      ⟨hold, hwrites⟩ | ⟨before, w, after, hsplit, rfl, hfresh, hafter⟩
    · rcases hv' with hv' | hv'
      · exact h v hold v' hv' hpos
      · obtain ⟨w, hw, rfl⟩ := List.mem_map.mp hv'
        exact hwrites w hw hpos
    · -- a version opened by this delivery was not late, so nothing before it is newer
      by_contra hnewer
      refine htimely before w after hsplit ⟨hfresh, ?_, hafter⟩
      rw [hsplit, List.map_append, List.map_cons, List.mem_append, List.mem_cons] at hv'
      rcases hv' with hv' | hv' | rfl | hv'
      · exact ⟨v', List.mem_append_left _ hv', hpos, not_le.mp hnewer⟩
      · exact ⟨v', List.mem_append_right _ hv', hpos, not_le.mp hnewer⟩
      · exact absurd (le_refl _) hnewer
      · obtain ⟨w', hw', rfl⟩ := List.mem_map.mp hv'
        exact absurd (hafter w' hw' hpos) hnewer

/-- Every run keeps the versions distinct, and has a row for every version delivered. -/
theorem versions_of_run {ds : List ChunkDelivery} (h : run chunkStep ChunkTable.empty ds = some t) :
    (versions t).Nodup ∧
      ∀ v, v ∈ versions t ↔ v ∈ (ds.flatMap ChunkDelivery.writes).map ChunkWrite.version := by
  refine run_trace (I := fun ds t => (versions t).Nodup ∧ ∀ v, v ∈ versions t ↔
    v ∈ (ds.flatMap ChunkDelivery.writes).map ChunkWrite.version) ?_ ?_ h
  · exact ⟨List.nodup_nil, fun v => Iff.rfl⟩
  · rintro past t d _ _ ⟨hnodup, hmem⟩ hstep
    cases hstep
    refine ⟨?_, ?_⟩
    · unfold upsertChunks
      rw [versions_closeTails]
      exact nodup_versions_foldl hnodup d.now d.writes
    · intro v
      rw [mem_versions_upsertChunks, hmem, List.flatMap_append, List.map_append, List.mem_append,
        List.flatMap_singleton]

/-- Where the rows are what was delivered, `NewestOpen` is what is wanted of them. -/
theorem currentNewest_iff {delivered : List ChunkWrite} (hnodup : (versions t).Nodup)
    (hmem : ∀ v, v ∈ versions t ↔ v ∈ delivered.map ChunkWrite.version) :
    CurrentNewest delivered t ↔ NewestOpen t := by
  constructor
  · rintro h v ⟨c, hc, hcur, rfl⟩ v' hv' hpos
    obtain ⟨w, hw, rfl⟩ := List.mem_map.mp ((hmem v').mp hv')
    exact (h c hc hcur).2.2 w hw hpos
  · intro h c hc hcur
    have hin : ∀ c ∈ t.rows, c.version ∈ versions t := fun c hc => List.mem_map_of_mem hc
    refine ⟨?_, (hmem _).mp (hin c hc), ?_⟩
    · intro c' hc' hcur' hpos
      have hle := h c.version ⟨c, hc, hcur, rfl⟩ c'.version (hin c' hc') hpos
      have hge := h c'.version ⟨c', hc', hcur', rfl⟩ c.version (hin c hc) hpos.symm
      refine List.inj_on_of_nodup_map hnodup hc' hc ?_
      exact Prod.ext hpos (le_antisymm hle hge)
    · intro w hw hpos
      exact h c.version ⟨c, hc, hcur, rfl⟩ w.version
        ((hmem _).mpr (List.mem_map_of_mem hw)) hpos

theorem run_chunkStep (t : ChunkTable) (ds : List ChunkDelivery) :
    ∃ t', run chunkStep t ds = some t' :=
  run_total (fun _ _ => ⟨_, rfl⟩) t ds

/-- In every state of a run of deliveries the current row of each position is one, and is the
newest version delivered, starts compared as they are stored, exactly when no delivery of the run
brings a version late. -/
theorem currentNewest_iff_timely (ds : List ChunkDelivery) :
    (∀ before after t, ds = before ++ after →
      run chunkStep ChunkTable.empty before = some t →
        CurrentNewest (before.flatMap ChunkDelivery.writes) t) ↔
      Along chunkStep Timely ChunkTable.empty ds := by
  obtain ⟨t', hrun⟩ := run_chunkStep ChunkTable.empty ds
  have hempty : NewestOpen ChunkTable.empty := by
    rintro v ⟨c, hc, -⟩
    exact absurd hc List.not_mem_nil
  have hiff := run_invariant_iff (P := Timely) (I := fun _ => True)
    (G := NewestOpen) (fun _ _ _ _ _ => trivial)
    (by
      intro t d t' _ hG hstep
      cases hstep
      exact newestOpen_upsertChunks_iff hG d)
    trivial hempty hrun
  rw [← hiff]
  constructor
  · intro h before after t hsplit hbefore
    obtain ⟨hnodup, hmem⟩ := versions_of_run hbefore
    exact (currentNewest_iff hnodup hmem).mp (h before after t hsplit hbefore)
  · intro h before after t hsplit hbefore
    obtain ⟨hnodup, hmem⟩ := versions_of_run hbefore
    exact (currentNewest_iff hnodup hmem).mpr (h before after t hsplit hbefore)

/-- A version of the first chunk of a document. -/
def noteVersion (validFrom : Instant) (content : String) : ChunkWrite where
  tenantId := 1
  source := "notes"
  documentId := "doc"
  seq := 0
  content := content
  visibility := [1]
  entityTags := []
  confidentiality := .internal
  trustTier := .authoritative
  validFrom := validFrom
  provenance := 1
  aclProvenance := .mirrored
  derivedFrom := []

/-- The older version arrives second, and both are current. -/
theorem late_version_current_beside_newer :
    ∃ t, run chunkStep ChunkTable.empty
        [⟨100, [noteVersion 10 "new"]⟩, ⟨101, [noteVersion 5 "old"]⟩] = some t ∧
      ¬ CurrentNewest [noteVersion 10 "new", noteVersion 5 "old"] t ∧
      (t.rows.filter fun c => c.validTo = none).map Chunk.content = ["new", "old"] := by
  refine ⟨_, rfl, ?_, ?_⟩ <;> decide +kernel

end Verity.Analysis
