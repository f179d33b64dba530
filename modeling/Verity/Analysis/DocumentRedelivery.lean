import Verity.Analysis.DocumentVersions

/-!
# Deliveries of a document that take effect

A row is inserted only where its position has no row with the same start, open or closed. So what
a delivery does depends on what was delivered before at its time: where that still stands, it can
only be continued, and where it was retired it is not opened again. `TakesEffect` says so in terms
of the deliveries alone, and `carries_iff_takesEffect` that it is exactly when the current rows of
the document are the delivery. One time is one start as it is stored: deliveries within one
microsecond are of one time.

The rows of a document are looked at as its lineage: a list of entries that a delivery closes and
adds to.
-/

set_option autoImplicit false

namespace Verity.Analysis

open Verity.Foundation
open Verity.Model
open Verity.Model.ChunkTable

/-! ## The lineage of a document -/

/-- A row of a document. -/
structure LineageEntry where
  part : DocumentPart
  seq : Int
  validFrom : Time
  validTo : Option Time
deriving DecidableEq, Repr

def lineageEntry (c : Chunk) : LineageEntry := ⟨c.part, c.seq, c.validFrom, c.validTo⟩

/-- An entry that is current and older gets its end, where the position is selected. -/
def LineageEntry.close (g : Time) (p : Int → Bool) (e : LineageEntry) : LineageEntry :=
  if p e.seq ∧ e.validTo = none ∧ e.validFrom < g then { e with validTo := some g } else e

/-- An entry of the position that starts at the time is there. -/
def Taken (l : List LineageEntry) (g : Time) (seq : Int) : Prop :=
  ∃ e ∈ l, e.seq = seq ∧ e.validFrom = g

instance (l : List LineageEntry) (g : Time) (seq : Int) : Decidable (Taken l g seq) :=
  inferInstanceAs (Decidable (∃ e ∈ l, _))

/-- What a delivery opens: its parts at the positions that are not taken. -/
def opened (l : List LineageEntry) (g : Time) (parts : List (DocumentPart × Nat)) :
    List LineageEntry :=
  (parts.filter fun part => ¬ Taken l g part.2).map fun part => ⟨part.1, part.2, g, none⟩

section Lineage

variable (tenant : TenantId) (source documentId : String)

def documentLineage (t : ChunkTable) : List LineageEntry :=
  (t.rows.filter fun c => c.ofDocument tenant source documentId).map lineageEntry

variable {tenant source documentId}

/-- An update that leaves the document of a row alone. -/
theorem documentLineage_update {t t' : ChunkTable} {f : Chunk → Chunk}
    {g : LineageEntry → LineageEntry} (hrows : t'.rows = t.rows.map f)
    (hkey : ∀ c, (f c).ofDocument tenant source documentId = c.ofDocument tenant source documentId)
    (hentry : ∀ c, c.ofDocument tenant source documentId = true →
      lineageEntry (f c) = g (lineageEntry c)) :
    documentLineage tenant source documentId t' =
      (documentLineage tenant source documentId t).map g := by
  unfold documentLineage
  rw [hrows]
  exact map_filter_update hkey hentry t.rows

/-- What a lineage keeps of a row. -/
def rowEntry (r : DocumentRow) : LineageEntry :=
  ⟨⟨r.1.content, r.1.visibility, r.1.entityTags, r.1.confidentiality⟩, r.1.seq, r.1.start, r.2⟩

theorem documentLineage_eq (t : ChunkTable) :
    documentLineage tenant source documentId t =
      (documentRows tenant source documentId t).map rowEntry := by
  unfold documentLineage documentRows
  rw [List.map_map]
  apply List.map_congr_left
  intro c _
  unfold lineageEntry rowEntry
  rw [Function.comp_apply, toWrite_start]
  rfl

theorem rowEntry_endRow (g : Time) (p : Int → Bool) (r : DocumentRow) :
    rowEntry (endRow g p r) = (rowEntry r).close g p := by
  unfold endRow LineageEntry.close rowEntry
  split <;> rfl

theorem close_validFrom (g : Time) (p : Int → Bool) (e : LineageEntry) :
    (e.close g p).seq = e.seq ∧ (e.close g p).validFrom = e.validFrom ∧
      (e.close g p).part = e.part := by
  unfold LineageEntry.close
  split <;> exact ⟨rfl, rfl, rfl⟩

/-- Entries that start with the delivery are not closed by it. -/
theorem close_of_le {g : Time} {e : LineageEntry} (h : g ≤ e.validFrom) (p : Int → Bool) :
    e.close g p = e :=
  if_neg fun hclosed => absurd hclosed.2.2 (not_lt.mpr h)

variable {d : DocumentDelivery}

theorem map_rowEntry_addedRows (rows : List DocumentRow) :
    (addedRows rows (d.parts.zipIdx.map (d.write tenant source documentId))).map rowEntry =
      opened (rows.map rowEntry) d.start d.parts.zipIdx := by
  unfold addedRows opened
  rw [List.filter_map, List.map_map, List.map_map]
  have htaken : ∀ part ∈ d.parts.zipIdx,
      Occupied rows (d.write tenant source documentId part) ↔
        Taken (rows.map rowEntry) d.start part.2 := by
    intro part _
    unfold Occupied Taken
    simp only [List.mem_map, exists_exists_and_eq_and]
    exact Iff.rfl
  have hfree : d.parts.zipIdx.filter ((fun w => decide (¬ Occupied rows w)) ∘
      d.write tenant source documentId) =
        d.parts.zipIdx.filter fun part => ¬ Taken (rows.map rowEntry) d.start part.2 := by
    apply List.filter_congr
    intro part hpart
    rw [Function.comp_apply, decide_eq_decide, htaken part hpart]
  rw [hfree]
  apply List.map_congr_left
  intro part _
  unfold rowEntry
  rw [Function.comp_apply, Function.comp_apply, ChunkWrite.stored_start]
  rfl

/-- A delivery with parts closes every current entry that is older, and opens what is not taken. -/
theorem documentLineage_upsertChunks {t : ChunkTable} (hparts : d.parts ≠ [])
    (hseq : ∀ e ∈ documentLineage tenant source documentId t, 0 ≤ e.seq) :
    documentLineage tenant source documentId
        (t.upsertChunks d.now (d.parts.zipIdx.map (d.write tenant source documentId))) =
      (documentLineage tenant source documentId t).map
          (LineageEntry.close d.start fun _ => true) ++
        opened (documentLineage tenant source documentId t) d.start d.parts.zipIdx := by
  rw [documentLineage_eq] at hseq
  have hsome : (deliveredVersion tenant source documentId d).writes ≠ [] := by
    unfold deliveredVersion
    simpa using hparts
  have hrows := documentRows_upsertChunks (deliveredVersion tenant source documentId d) hsome
    (t := t) (fun r hr => hseq _ (List.mem_map_of_mem hr)) d.now
  rw [documentLineage_eq, documentLineage_eq, ← map_rowEntry_addedRows, List.map_map]
  refine (congrArg (List.map rowEntry) hrows).trans ?_
  rw [List.map_append, List.map_map]
  congr 1
  exact List.map_congr_left fun r _ => rowEntry_endRow _ _ r

/-- An entry of a retired document. -/
def LineageEntry.retire (now : Time) (e : LineageEntry) : LineageEntry :=
  if e.validTo = none then { e with validTo := some now, part := { e.part with visibility := [] } }
  else e

theorem documentLineage_retireDocument (db : Database) (now : Time) :
    documentLineage tenant source documentId
        (db.retireDocument now tenant source documentId).1.chunks =
      (documentLineage tenant source documentId db.chunks).map (LineageEntry.retire now) := by
  refine documentLineage_update rfl ?_ ?_
  · intro c
    split <;> rfl
  · intro c hc
    unfold LineageEntry.retire lineageEntry
    by_cases hcurrent : c.validTo = none
    · rw [if_pos hcurrent, if_pos (Bool.and_eq_true_iff.mpr ⟨hc, decide_eq_true hcurrent⟩)]
      rfl
    · rw [if_neg hcurrent,
        if_neg fun h => hcurrent (of_decide_eq_true (Bool.and_eq_true_iff.mp h).2)]

end Lineage

/-! ## What stands of the deliveries -/

/-- The last delivery of a document that had parts, and whether the document was retired since. -/
structure Standing where
  start : Time
  parts : List DocumentPart
  retired : Bool
deriving DecidableEq, Repr

variable {s : Standing} {st : Option Standing} {db : Database}

def standingStep (st : Option Standing) : DocumentEvent → Option (Option Standing)
  | .deliver d => some (if d.parts = [] then st else some ⟨d.start, d.parts, false⟩)
  | .retire _ => some (st.map fun s => { s with retired := true })

/-- A delivery is the first with parts, or later than the last one, or it continues the last one
where that still stands. One without parts finds the document retired. -/
def TakesEffect (st : Option Standing) : DocumentEvent → Prop
  | .deliver d =>
    match st with
    | none => True
    | some s =>
      if d.parts = [] then s.retired = true
      else s.start < d.start ∨ s.retired = false ∧ s.parts <+: d.parts
  | .retire _ => True

instance (st : Option Standing) : (e : DocumentEvent) → Decidable (TakesEffect st e)
  | .deliver d => by
      unfold TakesEffect
      cases st <;> infer_instance
  | .retire _ => isTrue trivial

/-- Parts at their positions. -/
def placed (parts : List (DocumentPart × Nat)) : List (DocumentPart × Int) :=
  parts.map fun part => (part.1, (part.2 : Int))

/-- The current entries, with their positions. -/
def currentParts (l : List LineageEntry) : List (DocumentPart × Int) :=
  (l.filter fun e => decide (e.validTo = none)).map fun e => (e.part, e.seq)

/-- The current rows of the document are these parts, each once. -/
def Carries (l : List LineageEntry) (parts : List DocumentPart) : Prop :=
  (currentParts l).Perm (placed parts.zipIdx)

/-- The lineage where each delivery so far took effect. -/
def Stands (l : List LineageEntry) : Option Standing → Prop
  | none => l = []
  | some s =>
    s.parts ≠ [] ∧ (∀ e ∈ l, 0 ≤ e.seq ∧ e.validFrom ≤ s.start) ∧ Taken l s.start 0 ∧
      if s.retired then ∀ e ∈ l, e.validTo ≠ none
      else Carries l s.parts ∧ ∀ e ∈ l, e.validTo = none ↔ e.validFrom = s.start

/-- The entries after a delivery. -/
def afterDelivery (l : List LineageEntry) (g : Time) (parts : List DocumentPart) :
    List LineageEntry :=
  l.map (LineageEntry.close g fun _ => true) ++ opened l g parts.zipIdx

section Deliveries

variable {l : List LineageEntry} {g : Time} {parts : List DocumentPart}

theorem currentParts_append (l l' : List LineageEntry) :
    currentParts (l ++ l') = currentParts l ++ currentParts l' := by
  unfold currentParts
  rw [List.filter_append, List.map_append]

theorem currentParts_eq_nil (h : ∀ e ∈ l, e.validTo ≠ none) : currentParts l = [] := by
  unfold currentParts
  rw [List.filter_eq_nil_iff.mpr (by simpa using h), List.map_nil]

theorem mem_currentParts {part : DocumentPart} {seq : Int} :
    (part, seq) ∈ currentParts l ↔
      ∃ e ∈ l, e.validTo = none ∧ e.part = part ∧ e.seq = seq := by
  unfold currentParts
  simp only [List.mem_map, List.mem_filter, decide_eq_true_eq, Prod.mk.injEq, and_assoc]

theorem mem_placed {part : DocumentPart} {i : Nat} :
    (part, (i : Int)) ∈ placed parts.zipIdx ↔ parts[i]? = some part := by
  unfold placed
  rw [List.mem_map]
  constructor
  · rintro ⟨part', hpart', heq⟩
    obtain ⟨hpart, hseq⟩ := Prod.mk.inj heq
    rw [← hpart, ← Int.ofNat.inj hseq]
    exact List.mk_mem_zipIdx_iff_getElem?.mp hpart'
  · intro h
    exact ⟨(part, i), List.mk_mem_zipIdx_iff_getElem?.mpr h, rfl⟩

theorem currentParts_opened (l : List LineageEntry) (g : Time) (parts : List (DocumentPart × Nat)) :
    currentParts (opened l g parts) =
      placed (parts.filter fun part => ¬ Taken l g part.2) := by
  unfold currentParts opened placed
  rw [List.filter_eq_self.mpr, List.map_map]
  · rfl
  · intro e he
    obtain ⟨part, -, rfl⟩ := List.mem_map.mp he
    rfl

/-- Everything in the lineage is older: it is closed, and the delivery opened. -/
theorem currentParts_afterDelivery_later (hlater : ∀ e ∈ l, e.validFrom < g) :
    currentParts (afterDelivery l g parts) = placed parts.zipIdx := by
  have hclosed : ∀ e ∈ l.map (LineageEntry.close g fun _ => true), e.validTo ≠ none := by
    intro e he
    obtain ⟨e, hmem, rfl⟩ := List.mem_map.mp he
    unfold LineageEntry.close
    by_cases hcurrent : e.validTo = none
    · rw [if_pos ⟨rfl, hcurrent, hlater e hmem⟩]
      exact Option.some_ne_none g
    · rw [if_neg fun h => hcurrent h.2.1]
      exact hcurrent
  have hfree : ∀ part ∈ parts.zipIdx, ¬ Taken l g part.2 := by
    rintro part - ⟨e, he, -, hfrom⟩
    exact absurd hfrom (hlater e he).ne
  unfold afterDelivery
  rw [currentParts_append, currentParts_eq_nil hclosed, currentParts_opened, List.nil_append,
    List.filter_eq_self.mpr (by simpa using hfree)]

/-- A closed entry that starts with the delivery stays closed at its position. -/
theorem not_carries_retired (hparts : parts ≠ []) (hclosed : ∀ e ∈ l, e.validTo ≠ none)
    (htaken : Taken l g 0) : ¬ Carries (afterDelivery l g parts) parts := by
  intro hcarries
  have hfirst : (parts.head hparts, ((0 : Nat) : Int)) ∈ placed parts.zipIdx :=
    mem_placed.mpr (List.head?_eq_getElem?.symm.trans (List.head?_eq_some_head hparts))
  obtain ⟨e, he, hcurrent, -, hseq⟩ := mem_currentParts.mp (hcarries.mem_iff.mpr hfirst)
  rcases List.mem_append.mp he with he | he
  · obtain ⟨e', he', rfl⟩ := List.mem_map.mp he
    have hkept : e'.close g (fun _ => true) = e' := if_neg fun h => hclosed e' he' h.2.1
    rw [hkept] at hcurrent
    exact hclosed e' he' hcurrent
  · obtain ⟨part, hpart, rfl⟩ := List.mem_map.mp he
    have hfree := of_decide_eq_true (List.mem_filter.mp hpart).2
    have hposition : (part.2 : Int) = 0 := hseq
    rw [hposition] at hfree
    exact hfree htaken

/-- What stands is all there is at its time. -/
theorem taken_iff_lt (hcarries : Carries l s.parts)
    (hcurrent : ∀ e ∈ l, e.validTo = none ↔ e.validFrom = s.start) {i : Nat} :
    Taken l s.start i ↔ i < s.parts.length := by
  constructor
  · rintro ⟨e, he, hseq, hfrom⟩
    have hmem : (e.part, (i : Int)) ∈ currentParts l :=
      mem_currentParts.mpr ⟨e, he, (hcurrent e he).mpr hfrom, rfl, hseq⟩
    obtain ⟨hlt, -⟩ := List.getElem?_eq_some_iff.mp (mem_placed.mp (hcarries.mem_iff.mp hmem))
    exact hlt
  · intro hlt
    have hmem := hcarries.mem_iff.mpr (mem_placed.mpr (List.getElem?_eq_getElem hlt))
    obtain ⟨e, he, hto, -, hseq⟩ := mem_currentParts.mp hmem
    exact ⟨e, he, hseq, (hcurrent e he).mp hto⟩

/-- A delivery at the time of what stands closes nothing. -/
theorem afterDelivery_standing (hcurrent : ∀ e ∈ l, e.validTo = none ↔ e.validFrom = s.start) :
    afterDelivery l s.start parts = l ++ opened l s.start parts.zipIdx := by
  unfold afterDelivery
  congr 1
  refine (List.map_congr_left ?_).trans (List.map_id l)
  intro e he
  refine if_neg fun h => ?_
  exact absurd ((hcurrent e he).mp h.2.1) h.2.2.ne

/-- A delivery at the time of what stands is the current rows exactly when it continues that. -/
theorem carries_standing_iff (hcarries : Carries l s.parts)
    (hcurrent : ∀ e ∈ l, e.validTo = none ↔ e.validFrom = s.start) :
    Carries (afterDelivery l s.start parts) parts ↔ s.parts <+: parts := by
  rw [afterDelivery_standing hcurrent]
  unfold Carries
  rw [currentParts_append, currentParts_opened]
  constructor
  · intro hnext
    rw [List.prefix_iff_getElem?]
    intro i hi
    have hmem := hcarries.mem_iff.mpr (mem_placed.mpr (List.getElem?_eq_getElem hi))
    exact mem_placed.mp (hnext.mem_iff.mp (List.mem_append_left _ hmem))
  · rintro ⟨rest, rfl⟩
    have hold : (s.parts.zipIdx.filter fun part => ¬ Taken l s.start part.2) = [] := by
      rw [List.filter_eq_nil_iff]
      intro part hpart
      simpa using (taken_iff_lt hcarries hcurrent).mpr (List.snd_lt_of_mem_zipIdx hpart)
    have hnew : ((rest.zipIdx s.parts.length).filter fun part =>
        ¬ Taken l s.start part.2) = rest.zipIdx s.parts.length := by
      rw [List.filter_eq_self]
      intro part hpart
      have hge := List.le_snd_of_mem_zipIdx hpart
      simpa using mt (taken_iff_lt hcarries hcurrent).mp (not_lt.mpr hge)
    rw [List.zipIdx_append, List.filter_append, hold, List.nil_append, Nat.zero_add, hnew]
    unfold placed
    rw [List.map_append]
    exact List.Perm.append_right _ hcarries

/-- No entry starts after the delivery, and those that start with it are current. -/
def Ready (l : List LineageEntry) (g : Time) : Prop :=
  ∀ e ∈ l, 0 ≤ e.seq ∧ e.validFrom ≤ g ∧ (e.validFrom = g → e.validTo = none)

theorem Ready.entries (h : Ready l g) :
    ∀ e ∈ afterDelivery l g parts, (0 ≤ e.seq ∧ e.validFrom ≤ g) ∧
      (e.validTo = none ↔ e.validFrom = g) := by
  intro e he
  rcases List.mem_append.mp he with he | he
  · obtain ⟨e, hmem, rfl⟩ := List.mem_map.mp he
    obtain ⟨hseq, hle, hcurrent⟩ := h e hmem
    obtain ⟨hseq', hfrom', -⟩ := close_validFrom g (fun _ => true) e
    rw [hseq', hfrom']
    refine ⟨⟨hseq, hle⟩, ?_, ?_⟩
    · intro hto
      by_contra hne
      unfold LineageEntry.close at hto
      by_cases hcur : e.validTo = none
      · rw [if_pos ⟨rfl, hcur, lt_of_le_of_ne hle hne⟩] at hto
        cases hto
      · rw [if_neg fun h => hcur h.2.1] at hto
        exact hcur hto
    · intro hfrom
      rw [close_of_le hfrom.ge]
      exact hcurrent hfrom
  · obtain ⟨part, -, rfl⟩ := List.mem_map.mp he
    exact ⟨⟨Int.natCast_nonneg _, le_rfl⟩, fun _ => rfl, fun _ => rfl⟩

theorem Ready.stands (h : Ready l g) (hparts : parts ≠ [])
    (hcarries : Carries (afterDelivery l g parts) parts) :
    Stands (afterDelivery l g parts) (some ⟨g, parts, false⟩) := by
  have hfirst : (parts.head hparts, ((0 : Nat) : Int)) ∈ placed parts.zipIdx :=
    mem_placed.mpr (List.head?_eq_getElem?.symm.trans (List.head?_eq_some_head hparts))
  obtain ⟨e, he, hcurrent, -, hseq⟩ := mem_currentParts.mp (hcarries.mem_iff.mpr hfirst)
  refine ⟨hparts, fun e he => (h.entries e he).1, ⟨e, he, hseq, ?_⟩, hcarries,
    fun e he => (h.entries e he).2⟩
  exact (h.entries e he).2.mp hcurrent

/-- A delivery with parts that comes no earlier than the last one. -/
theorem stands_afterDelivery (h : Stands l st) (d : DocumentDelivery) (hparts : d.parts ≠ [])
    (hle : ∀ s, st = some s → s.start ≤ d.start) :
    (Carries (afterDelivery l d.start d.parts) d.parts ↔ TakesEffect st (.deliver d)) ∧
      (TakesEffect st (.deliver d) →
        Stands (afterDelivery l d.start d.parts) (some ⟨d.start, d.parts, false⟩)) := by
  have hlater : (∀ e ∈ l, 0 ≤ e.seq ∧ e.validFrom < d.start) →
      Carries (afterDelivery l d.start d.parts) d.parts ∧
        Stands (afterDelivery l d.start d.parts) (some ⟨d.start, d.parts, false⟩) := by
    intro hlater
    have hready : Ready l d.start := by
      intro e he
      exact ⟨(hlater e he).1, (hlater e he).2.le, fun heq => absurd heq (hlater e he).2.ne⟩
    have hcarries : Carries (afterDelivery l d.start d.parts) d.parts := by
      unfold Carries
      rw [currentParts_afterDelivery_later fun e he => (hlater e he).2]
    exact ⟨hcarries, hready.stands hparts hcarries⟩
  cases st with
  | none =>
    obtain rfl : l = [] := h
    obtain ⟨hcarries, hstands⟩ := hlater fun e he => absurd he List.not_mem_nil
    exact ⟨iff_of_true hcarries trivial, fun _ => hstands⟩
  | some s =>
    obtain ⟨-, hbound, htaken, hstate⟩ := h
    have heffect : TakesEffect (some s) (.deliver d) ↔
        s.start < d.start ∨ s.retired = false ∧ s.parts <+: d.parts := by
      unfold TakesEffect
      dsimp only
      rw [if_neg hparts]
    rcases (hle s rfl).lt_or_eq with hlt | heq
    · obtain ⟨hcarries, hstands⟩ := hlater fun e he =>
        ⟨(hbound e he).1, (hbound e he).2.trans_lt hlt⟩
      exact ⟨iff_of_true hcarries (heffect.mpr (Or.inl hlt)), fun _ => hstands⟩
    · rw [heffect, ← heq]
      cases hretired : s.retired with
      | true =>
        rw [hretired, if_pos rfl] at hstate
        have hnot : ¬ (s.start < s.start ∨ true = false ∧ s.parts <+: d.parts) := by
          simp
        exact ⟨iff_of_false (not_carries_retired hparts hstate htaken) hnot,
          fun h => absurd h hnot⟩
      | false =>
        rw [hretired, if_neg Bool.false_ne_true] at hstate
        obtain ⟨hcarries, hcurrent⟩ := hstate
        have hready : Ready l s.start := fun e he =>
          ⟨(hbound e he).1, (hbound e he).2, (hcurrent e he).mpr⟩
        have hiff : Carries (afterDelivery l s.start d.parts) d.parts ↔
            s.start < s.start ∨ false = false ∧ s.parts <+: d.parts := by
          rw [carries_standing_iff hcarries hcurrent]
          simp
        exact ⟨hiff, fun h => hready.stands hparts (hiff.mpr h)⟩

/-- A delivery without parts leaves the lineage as it is. -/
theorem carries_nil_iff (h : Stands l st) {d : DocumentDelivery} (hparts : d.parts = []) :
    Carries l d.parts ↔ TakesEffect st (.deliver d) := by
  have hnil : Carries l d.parts ↔ currentParts l = [] := by
    unfold Carries
    rw [hparts]
    exact List.perm_nil
  rw [hnil]
  cases st with
  | none =>
    obtain rfl : l = [] := h
    exact iff_of_true rfl trivial
  | some s =>
    obtain ⟨hsome, -, -, hstate⟩ := h
    have heffect : TakesEffect (some s) (.deliver d) ↔ s.retired = true := by
      unfold TakesEffect
      dsimp only
      rw [if_pos hparts]
    rw [heffect]
    cases hretired : s.retired with
    | true =>
      rw [hretired, if_pos rfl] at hstate
      exact iff_of_true (currentParts_eq_nil hstate) rfl
    | false =>
      rw [hretired, if_neg Bool.false_ne_true] at hstate
      refine iff_of_false (fun hnone => hsome ?_) Bool.false_ne_true
      have hplaced := hstate.1.length_eq
      rw [hnone] at hplaced
      unfold placed at hplaced
      rw [List.length_map, List.length_zipIdx] at hplaced
      exact List.length_eq_zero_iff.mp hplaced.symm

theorem stands_retire (h : Stands l st) (now : Time) :
    Stands (l.map (LineageEntry.retire now)) (st.map fun s => { s with retired := true }) := by
  have hretire : ∀ e : LineageEntry, (e.retire now).seq = e.seq ∧
      (e.retire now).validFrom = e.validFrom ∧ (e.retire now).validTo ≠ none := by
    intro e
    unfold LineageEntry.retire
    by_cases hcurrent : e.validTo = none
    · rw [if_pos hcurrent]
      exact ⟨rfl, rfl, Option.some_ne_none now⟩
    · rw [if_neg hcurrent]
      exact ⟨rfl, rfl, hcurrent⟩
  cases st with
  | none =>
    obtain rfl : l = [] := h
    exact (rfl : _ = _)
  | some s =>
    obtain ⟨hsome, hbound, ⟨e, he, hseq, hfrom⟩, -⟩ := h
    refine ⟨hsome, ?_, ⟨e.retire now, List.mem_map_of_mem he, ?_, ?_⟩, ?_⟩
    · intro e' he'
      obtain ⟨e, he, rfl⟩ := List.mem_map.mp he'
      rw [(hretire e).1, (hretire e).2.1]
      exact hbound e he
    · exact (hretire e).1.trans hseq
    · exact (hretire e).2.1.trans hfrom
    · intro e' he'
      obtain ⟨e, -, rfl⟩ := List.mem_map.mp he'
      exact (hretire e).2.2

end Deliveries

/-! ## Runs -/

section Runs

variable (tenant : TenantId) (source documentId : String)

/-- After a delivery the current rows of the document are what it delivered. -/
def ShowsDelivery (db : Database) (e : DocumentEvent) : Prop :=
  ∀ d db', e = .deliver d → documentStep tenant source documentId db e = some db' →
    Carries (documentLineage tenant source documentId db'.chunks) d.parts

variable {tenant source documentId}

theorem documentLineage_deliver {db' : Database} {d : DocumentDelivery}
    (h : Stands (documentLineage tenant source documentId db.chunks) st)
    (hstep : documentStep tenant source documentId db (.deliver d) = some db') :
    documentLineage tenant source documentId db'.chunks =
      if d.parts = [] then documentLineage tenant source documentId db.chunks
      else afterDelivery (documentLineage tenant source documentId db.chunks) d.start d.parts := by
  cases hstep
  have hseq : ∀ e ∈ documentLineage tenant source documentId db.chunks, 0 ≤ e.seq := by
    cases st with
    | none =>
      intro e he
      rw [show documentLineage tenant source documentId db.chunks = [] from h] at he
      cases he
    | some s => exact fun e he => (h.2.1 e he).1
  split
  · rename_i hparts
    rw [hparts]
    rfl
  · rename_i hparts
    exact documentLineage_upsertChunks hparts hseq

/-- One event, from a lineage whose deliveries took effect: it is shown exactly when it takes
effect, and then the lineage stands. -/
theorem stands_step {db' : Database} {st' : Option Standing} {e : DocumentEvent}
    (h : Stands (documentLineage tenant source documentId db.chunks) st)
    (hle : ∀ s, st = some s → ∀ g, e.validFrom = some g → s.start ≤ g.stored)
    (hstep : documentStep tenant source documentId db e = some db')
    (hst : standingStep st e = some st') :
    (ShowsDelivery tenant source documentId db e ↔ TakesEffect st e) ∧
      (TakesEffect st e → Stands (documentLineage tenant source documentId db'.chunks) st') := by
  cases e with
  | retire now =>
    cases hst
    cases hstep
    refine ⟨iff_of_true ?_ trivial, fun _ => ?_⟩
    · rintro d db' heq -
      cases heq
    · rw [documentLineage_retireDocument]
      exact stands_retire h now
  | deliver d =>
    cases hst
    have hlineage := documentLineage_deliver h hstep
    have hshows : ShowsDelivery tenant source documentId db (.deliver d) ↔
        Carries (documentLineage tenant source documentId db'.chunks) d.parts := by
      constructor
      · exact fun hshows => hshows d db' rfl hstep
      · rintro hcarries d' db'' heq hstep'
        cases heq
        cases hstep.symm.trans hstep'
        exact hcarries
    rw [hshows, hlineage]
    by_cases hparts : d.parts = []
    · rw [if_pos hparts, if_pos hparts]
      exact ⟨carries_nil_iff h hparts, fun _ => h⟩
    · rw [if_neg hparts, if_neg hparts]
      exact stands_afterDelivery h d hparts fun s hs => hle s hs _ rfl

/-- What stands after an event is no later than the deliveries to come. -/
theorem sorted_cons {st' : Option Standing} {e : DocumentEvent} {events : List DocumentEvent}
    (hle : ∀ s, st = some s →
      ∀ g ∈ (e :: events).filterMap DocumentEvent.validFrom, s.start ≤ g.stored)
    (hsorted : ((e :: events).filterMap DocumentEvent.validFrom).Pairwise (· ≤ ·))
    (hst : standingStep st e = some st') :
    (∀ s, st = some s → ∀ g, e.validFrom = some g → s.start ≤ g.stored) ∧
      (∀ s, st' = some s → ∀ g ∈ events.filterMap DocumentEvent.validFrom, s.start ≤ g.stored) ∧
      (events.filterMap DocumentEvent.validFrom).Pairwise (· ≤ ·) := by
  cases e with
  | retire now =>
    cases hst
    refine ⟨?_, ?_, hsorted⟩
    · intro s _ g hg
      cases hg
    intro s hs
    obtain ⟨s₀, hs₀, rfl⟩ := Option.map_eq_some_iff.mp hs
    exact hle s₀ hs₀
  | deliver d =>
    cases hst
    obtain ⟨hfirst, hrest⟩ := List.pairwise_cons.mp hsorted
    refine ⟨?_, ?_, hrest⟩
    · intro s hs g hg
      cases hg
      exact hle s hs _ List.mem_cons_self
    · intro s hs g hg
      split at hs
      · exact hle s hs g (List.mem_cons_of_mem _ hg)
      · cases hs
        exact Instant.stored_mono (hfirst g hg)

theorem along_showsDelivery_iff {events : List DocumentEvent}
    (h : Stands (documentLineage tenant source documentId db.chunks) st)
    (hle : ∀ s, st = some s → ∀ g ∈ events.filterMap DocumentEvent.validFrom, s.start ≤ g.stored)
    (hsorted : (events.filterMap DocumentEvent.validFrom).Pairwise (· ≤ ·)) :
    Along (documentStep tenant source documentId) (ShowsDelivery tenant source documentId) db
        events ↔ Along standingStep TakesEffect st events := by
  induction events generalizing db st with
  | nil => exact Iff.rfl
  | cons e events ih =>
    obtain ⟨db', hdb'⟩ : ∃ db', documentStep tenant source documentId db e = some db' := by
      cases e <;> exact ⟨_, rfl⟩
    obtain ⟨st', hst'⟩ : ∃ st', standingStep st e = some st' := by
      cases e <;> exact ⟨_, rfl⟩
    obtain ⟨hnow, hlater, hsorted'⟩ := sorted_cons hle hsorted hst'
    obtain ⟨hiff, hstands⟩ := stands_step h hnow hdb' hst'
    constructor
    · rintro ⟨hshows, hrest⟩
      refine ⟨hiff.mp hshows, fun st'' hst'' => ?_⟩
      cases hst'.symm.trans hst''
      exact (ih (hstands (hiff.mp hshows)) hlater hsorted').mp (hrest db' hdb')
    · rintro ⟨heffect, hrest⟩
      refine ⟨hiff.mpr heffect, fun db'' hdb'' => ?_⟩
      cases hdb'.symm.trans hdb''
      exact (ih (hstands heffect) hlater hsorted').mpr (hrest st' hst')

/-- Along every sequence of deliveries of a document, each no earlier than those before it, and of
retirements: every delivery is what the current rows of the document are after it, exactly when
every delivery takes effect on what stands of the ones before. -/
theorem carries_iff_takesEffect {db : Database} {events : List DocumentEvent}
    (hnew : documentLineage tenant source documentId db.chunks = [])
    (hsorted : (events.filterMap DocumentEvent.validFrom).Pairwise (· ≤ ·)) :
    (∀ before d after db' db'', events = before ++ .deliver d :: after →
        run (documentStep tenant source documentId) db before = some db' →
        documentStep tenant source documentId db' (.deliver d) = some db'' →
          Carries (documentLineage tenant source documentId db''.chunks) d.parts) ↔
      Along standingStep TakesEffect none events := by
  have hstands : Stands (documentLineage tenant source documentId db.chunks) none := hnew
  have hnone : ∀ s, (none : Option Standing) = some s →
      ∀ g ∈ events.filterMap DocumentEvent.validFrom, s.start ≤ g.stored := by
    intro s hs
    cases hs
  rw [← along_showsDelivery_iff hstands hnone hsorted, along_iff_forall_split]
  constructor
  · rintro h before e after db' rfl hrun d db'' rfl hstep
    exact h before d after db' db'' rfl hrun hstep
  · intro h before d after db' db'' hsplit hrun hstep
    exact h before _ after db' hsplit hrun d db'' rfl hstep

end Runs

/-- A delivery of the parts of a plan, all with these readers. -/
def planRevision (validFrom : Instant) (visibility : List PrincipalToken)
    (contents : List String) : DocumentDelivery where
  now := validFrom.stored
  validFrom := validFrom
  provenance := 1
  aclProvenance := .mirrored
  parts := contents.map fun content => ⟨content, visibility, ["acme"], .internal⟩

/-- A delivery that is repeated, an edit that is shorter and has another reader, and a removal. -/
def planHistory : List DocumentEvent :=
  [.deliver (planRevision 10 [7] ["basic", "terms"]),
    .deliver (planRevision 10 [7] ["basic", "terms"]),
    .deliver (planRevision 20 [7, 8] ["pro"]), .retire 25]

/-- The plan is restored with a new time. -/
theorem edited_document_carried :
    ∃ db db', run (documentStep 1 "gdrive" "plan") Database.empty planHistory = some db ∧
      documentStep 1 "gdrive" "plan" db (.deliver (planRevision 30 [9] ["pro", "offer"])) =
        some db' ∧
      db'.chunks.rows.length = 5 ∧
      Carries (documentLineage 1 "gdrive" "plan" db'.chunks)
        (planRevision 30 [9] ["pro", "offer"]).parts := by
  have hview : ((run (documentStep 1 "gdrive" "plan") Database.empty planHistory).bind fun db =>
      (documentStep 1 "gdrive" "plan" db (.deliver (planRevision 30 [9] ["pro", "offer"]))).map
        fun db' => db'.chunks.rows.length) = some 5 := by decide +kernel
  obtain ⟨db, hrun, hview⟩ := Option.bind_eq_some_iff.mp hview
  obtain ⟨db', hstep, hrows⟩ := Option.map_eq_some_iff.mp hview
  refine ⟨db, db', hrun, hstep, hrows, ?_⟩
  exact (@carries_iff_takesEffect 1 "gdrive" "plan" Database.empty
    (planHistory ++ [.deliver (planRevision 30 [9] ["pro", "offer"])]) rfl (by decide)).mpr
      (by decide) planHistory _ [] db db' rfl hrun hstep

/-- A file that is removed, and restored without an edit, has no current row. -/
theorem restored_document_not_current :
    ¬ ∀ (events : List DocumentEvent) (d : DocumentDelivery) (db db' : Database),
      ((events ++ [DocumentEvent.deliver d]).filterMap DocumentEvent.validFrom).Pairwise (· ≤ ·) →
      run (documentStep 1 "gdrive" "plan") Database.empty events = some db →
      documentStep 1 "gdrive" "plan" db (.deliver d) = some db' →
        Carries (documentLineage 1 "gdrive" "plan" db'.chunks) d.parts := by
  intro hclaim
  have hview : ((run (documentStep 1 "gdrive" "plan") Database.empty
      [.deliver (planRevision 10 [7] ["basic"]), .retire 20]).bind fun db =>
        (documentStep 1 "gdrive" "plan" db (.deliver (planRevision 10 [7] ["basic"]))).map
          fun db' => currentParts (documentLineage 1 "gdrive" "plan" db'.chunks)) = some [] := by
    decide +kernel
  obtain ⟨db, hrun, hview⟩ := Option.bind_eq_some_iff.mp hview
  obtain ⟨db', hstep, hnone⟩ := Option.map_eq_some_iff.mp hview
  have hcarries := hclaim [.deliver (planRevision 10 [7] ["basic"]), .retire 20]
    (planRevision 10 [7] ["basic"]) db db' (by decide) hrun hstep
  unfold Carries at hcarries
  rw [hnone] at hcarries
  exact absurd hcarries (by decide)

end Verity.Analysis
