import Mathlib.Tactic.NormNum
import Verity.Foundation.Fallible
import Verity.Model.RankFusion

/-!
# What a fusion depends on

The map of a fusion holds one entry for each chunk of the two lists, with a score that depends on
the ranks alone, and the answer is one of those that an ordered query with a limit may give over
the entries. Which one is decided by the order of the hash map, so two fusions of the same lists
agree on the scores, and on the chunks where no scores are equal at a place that counts.

The score is the sum of the reciprocal ranks after five roundings at most on either side.
-/

set_option autoImplicit false

namespace Verity.Analysis

open Verity.Foundation
open Verity.Model

variable {list : List ScoredHit} {c : ChunkId} {rank k : Nat}

/-! ## The map -/

/-- The first hit of a chunk in a list, with its rank. -/
def placeIn (list : List ScoredHit) (c : ChunkId) : Option (ScoredHit × Nat) :=
  list.zipIdx.find? fun ranked => decide (ranked.1.chunkId = c)

def rankIn (list : List ScoredHit) (c : ChunkId) : Option Nat := (placeIn list c).map Prod.snd

theorem placeIn_eq_none : placeIn list c = none ↔ c ∉ list.map fun h => h.chunkId := by
  unfold placeIn
  rw [List.find?_eq_none]
  constructor
  · intro h hmem
    obtain ⟨hit, hhit, rfl⟩ := List.mem_map.mp hmem
    obtain ⟨i, hi, rfl⟩ := List.getElem_of_mem hhit
    exact h (list[i], i) (List.mk_mem_zipIdx_iff_getElem?.mpr (List.getElem?_eq_getElem hi))
      (decide_eq_true rfl)
  · rintro h ⟨hit, i⟩ hmem hc
    have hhit : hit ∈ list := List.fst_mem_of_mem_zipIdx hmem
    exact h (List.mem_map.mpr ⟨hit, hhit, of_decide_eq_true hc⟩)

theorem placeIn_eq_some {hit : ScoredHit} (h : placeIn list c = some (hit, rank)) :
    hit ∈ list ∧ hit.chunkId = c :=
  ⟨List.fst_mem_of_mem_zipIdx (List.mem_of_find?_eq_some h),
    of_decide_eq_true (List.find?_some h :)⟩

/-- A list without repeated chunks changes the entries of its chunks, each once. -/
theorem lookup_foldl_addHit {ranked : List (ScoredHit × Nat)}
    (hnodup : (ranked.map fun r => r.1.chunkId).Nodup) (scores : ScoreMap) (c : ChunkId) :
    (ranked.foldl addHit scores).lookup c =
      match ranked.find? fun r => decide (r.1.chunkId = c) with
      | none => scores.lookup c
      | some r => some (entryAfter (scores.lookup c) r.1 r.2) := by
  induction ranked generalizing scores with
  | nil => rfl
  | cons r ranked ih =>
    rw [List.map_cons, List.nodup_cons] at hnodup
    rw [List.foldl_cons, ih hnodup.2, List.find?_cons]
    by_cases hc : r.1.chunkId = c
    · have hnone : ranked.find? (fun r => decide (r.1.chunkId = c)) = none := by
        rw [List.find?_eq_none]
        intro r' hr' hc'
        exact hnodup.1 (List.mem_map.mpr ⟨r', hr', (of_decide_eq_true hc').trans hc.symm⟩)
      subst hc
      rw [hnone, decide_eq_true rfl]
      exact AList.lookup_insert scores
    · have hkept : (addHit scores r).lookup c = scores.lookup c :=
        AList.lookup_insert_ne fun h => hc h.symm
      rw [decide_eq_false hc, hkept]

/-- The lists hold no chunk twice. -/
def NoRepeats (list : List ScoredHit) : Prop := (list.map fun h => h.chunkId).Nodup

instance decidableNoRepeats (list : List ScoredHit) : Decidable (NoRepeats list) :=
  inferInstanceAs (Decidable (List.Nodup _))

theorem lookup_addList (hnodup : NoRepeats list) (scores : ScoreMap) (c : ChunkId) :
    (list.zipIdx.foldl addHit scores).lookup c =
      match placeIn list c with
      | none => scores.lookup c
      | some r => some (entryAfter (scores.lookup c) r.1 r.2) := by
  refine lookup_foldl_addHit ?_ scores c
  have hids : (list.zipIdx.map fun r => r.1.chunkId) = list.map fun h => h.chunkId := by
    conv_rhs => rw [← List.zipIdx_map_fst 0 list, List.map_map]
    rfl
  rw [hids]
  exact hnodup

/-- The score of a chunk in single precision, as its ranks in the two lists give it. -/
def singleScore (dense sparse : List ScoredHit) (c : ChunkId) : ℚ :=
  match rankIn dense c, rankIn sparse c with
  | some r, some s => toF32 (reciprocalRank r + reciprocalRank s)
  | some r, none => reciprocalRank r
  | none, some s => reciprocalRank s
  | none, none => 0

/-- Its share of the exact sum: the reciprocal of the rank, counted from 61. -/
def exactShare (list : List ScoredHit) (c : ChunkId) : ℚ :=
  match rankIn list c with
  | some r => 1 / (61 + r)
  | none => 0

def exactScore (dense sparse : List ScoredHit) (c : ChunkId) : ℚ :=
  exactShare dense c + exactShare sparse c

section Pair

variable {dense sparse : List ScoredHit}

theorem lookup_addLists (hdense : NoRepeats dense) (hsparse : NoRepeats sparse) (c : ChunkId) :
    (addLists [dense, sparse]).lookup c =
      match placeIn sparse c with
      | none => (placeIn dense c).map fun r => entryAfter none r.1 r.2
      | some r => some (entryAfter
          ((placeIn dense c).map fun r => entryAfter none r.1 r.2) r.1 r.2) := by
  have hfirst : (dense.zipIdx.foldl addHit ∅).lookup c =
      (placeIn dense c).map fun r => entryAfter none r.1 r.2 := by
    rw [lookup_addList hdense, AList.lookup_empty]
    cases placeIn dense c with
    | none => rfl
    | some r => rfl
  unfold addLists
  rw [List.foldl_cons, List.foldl_cons, List.foldl_nil, lookup_addList hsparse, hfirst]

/-- An entry of the map: a hit of one of the lists, and the score of its ranks. -/
theorem entry_of_lookup (hdense : NoRepeats dense) (hsparse : NoRepeats sparse)
    {entry : ℚ × ScoredHit} (h : (addLists [dense, sparse]).lookup c = some entry) :
    entry.1 = singleScore dense sparse c ∧ entry.2 ∈ dense ++ sparse ∧ entry.2.chunkId = c := by
  rw [lookup_addLists hdense hsparse] at h
  unfold singleScore rankIn
  cases hd : placeIn dense c with
  | none =>
    cases hs : placeIn sparse c with
    | none =>
      rw [hd, hs] at h
      cases h
    | some s =>
      rw [hd, hs] at h
      cases h
      obtain ⟨hmem, hid⟩ := placeIn_eq_some hs
      exact ⟨rfl, List.mem_append_right _ hmem, hid⟩
  | some r =>
    obtain ⟨hmem, hid⟩ := placeIn_eq_some hd
    cases hs : placeIn sparse c with
    | none =>
      rw [hd, hs] at h
      cases h
      exact ⟨rfl, List.mem_append_left _ hmem, hid⟩
    | some s =>
      rw [hd, hs] at h
      cases h
      exact ⟨rfl, List.mem_append_left _ hmem, hid⟩

/-- The chunks of the two lists, each once. -/
def chunksOf (dense sparse : List ScoredHit) : List ChunkId :=
  ((dense ++ sparse).map fun h => h.chunkId).dedup

theorem mem_addLists (hdense : NoRepeats dense) (hsparse : NoRepeats sparse) :
    c ∈ addLists [dense, sparse] ↔ c ∈ chunksOf dense sparse := by
  unfold chunksOf
  rw [List.mem_dedup, List.map_append, List.mem_append, ← not_iff_not, ← AList.lookup_eq_none,
    lookup_addLists hdense hsparse, not_or, ← placeIn_eq_none, ← placeIn_eq_none]
  cases placeIn sparse c with
  | none => simp
  | some s => simp

/-- The values of the map. -/
def entriesOf (dense sparse : List ScoredHit) : List (ℚ × ScoredHit) :=
  (addLists [dense, sparse]).entries.map Sigma.snd

theorem mem_entriesOf (hdense : NoRepeats dense) (hsparse : NoRepeats sparse)
    {entry : ℚ × ScoredHit} (h : entry ∈ entriesOf dense sparse) :
    entry.1 = singleScore dense sparse entry.2.chunkId ∧ entry.2 ∈ dense ++ sparse := by
  obtain ⟨⟨c, entry⟩, hmem, rfl⟩ := List.mem_map.mp h
  obtain ⟨hscore, hhit, hid⟩ := entry_of_lookup hdense hsparse (AList.mem_lookup_iff.mpr hmem)
  dsimp only
  rw [hid]
  exact ⟨hscore, hhit⟩

theorem ids_entriesOf (hdense : NoRepeats dense) (hsparse : NoRepeats sparse) :
    ((entriesOf dense sparse).map fun e => e.2.chunkId).Perm (chunksOf dense sparse) := by
  have hkeys : ((entriesOf dense sparse).map fun e => e.2.chunkId) =
      (addLists [dense, sparse]).keys := by
    unfold entriesOf AList.keys List.keys
    rw [List.map_map]
    apply List.map_congr_left
    rintro ⟨c, entry⟩ hmem
    exact (entry_of_lookup hdense hsparse (AList.mem_lookup_iff.mpr hmem)).2.2
  rw [hkeys]
  refine (List.perm_ext_iff_of_nodup (AList.keys_nodup _) (List.nodup_dedup _)).mpr fun c => ?_
  exact mem_addLists hdense hsparse

/-- A hit with its score in the fusion. -/
def rescored (entry : ℚ × ScoredHit) : ScoredHit := { entry.2 with score := entry.1 }

/-- The fusion is one answer of the ordered query over the entries. -/
theorem rrfFuse_answers (dense sparse : List ScoredHit) (order : IterationOrder) (k : Nat) :
    ∃ answer, AnswersLimit (Descending Prod.fst) k (entriesOf dense sparse) answer ∧
      rrfFuse order [dense, sparse] k = answer.map rescored := by
  refine ⟨_, ⟨(intoValues order (addLists [dense, sparse])).insertionSort (Descending Prod.fst),
    ?_, List.pairwise_insertionSort _ _, rfl⟩, rfl⟩
  exact (List.perm_insertionSort _ _).trans (order.perm _)

/-! ## The answer -/

/-- The answer of a fusion by a score. -/
structure FusedBy (score : ChunkId → ℚ) (dense sparse : List ScoredHit) (k : Nat)
    (answer : List ScoredHit) : Prop where
  length : answer.length = min k (chunksOf dense sparse).length
  distinct : NoRepeats answer
  found : ∀ h ∈ answer, ∃ h' ∈ dense ++ sparse, h = { h' with score := h.score }
  ordered : answer.Pairwise fun a b => score b.chunkId ≤ score a.chunkId
  omitted : ∀ c ∈ chunksOf dense sparse, c ∉ answer.map (fun h => h.chunkId) →
    ∀ h ∈ answer, score c ≤ score h.chunkId

/-- What is cut from the fused entries is the fusion. -/
theorem fusedBy_of_answers (hdense : NoRepeats dense) (hsparse : NoRepeats sparse)
    {answer : List (ℚ × ScoredHit)}
    (h : AnswersLimit (Descending Prod.fst) k (entriesOf dense sparse) answer) :
    FusedBy (singleScore dense sparse) dense sparse k (answer.map rescored) := by
  have hids := ids_entriesOf hdense hsparse
  have hscore : ∀ entry ∈ answer, entry.1 = singleScore dense sparse entry.2.chunkId :=
    fun entry hentry => (mem_entriesOf hdense hsparse (h.mem hentry)).1
  have hrescored : (answer.map rescored).map (fun h => h.chunkId) =
      answer.map fun e => e.2.chunkId := by
    rw [List.map_map]
    rfl
  constructor
  · rw [List.length_map, h.length, ← hids.length_eq, List.length_map]
  · unfold NoRepeats
    rw [hrescored]
    obtain ⟨arranged, hperm, -, rfl⟩ := h
    rw [List.map_take]
    refine ((hperm.map _).trans hids).nodup_iff.mpr (List.nodup_dedup _) |>.sublist ?_
    exact List.take_sublist k _
  · intro hit hhit
    obtain ⟨entry, hentry, rfl⟩ := List.mem_map.mp hhit
    exact ⟨entry.2, (mem_entriesOf hdense hsparse (h.mem hentry)).2, rfl⟩
  · rw [List.pairwise_map]
    refine h.sorted.imp_of_mem fun ha hb hab => ?_
    have hab' : _ ≤ _ := hab
    rw [hscore _ ha, hscore _ hb] at hab'
    exact hab'
  · intro c hc hnot hit hhit
    obtain ⟨entry, hentry, rfl⟩ := List.mem_map.mp hhit
    obtain ⟨other, hother, rfl⟩ := List.mem_map.mp (hids.mem_iff.mpr hc)
    have hle : _ ≤ _ := h.le_of_omitted hentry hother fun hmem =>
      hnot (hrescored ▸ List.mem_map_of_mem hmem)
    rw [hscore _ hentry, (mem_entriesOf hdense hsparse hother).1] at hle
    exact hle

/-- No two chunks of equal score compete for a place: fewer than `k` are above them only if they
are one. -/
def Untied (dense sparse : List ScoredHit) (k : Nat) : Prop :=
  ∀ a ∈ chunksOf dense sparse, ∀ b ∈ chunksOf dense sparse,
    singleScore dense sparse a = singleScore dense sparse b →
    ((chunksOf dense sparse).filter fun c =>
      decide (singleScore dense sparse a < singleScore dense sparse c)).length < k → a = b

/-- Then the order of the map does not matter. -/
theorem answers_eq_of_untied (hdense : NoRepeats dense) (hsparse : NoRepeats sparse)
    (huntied : Untied dense sparse k) {answer answer' : List (ℚ × ScoredHit)}
    (h : AnswersLimit (Descending Prod.fst) k (entriesOf dense sparse) answer)
    (h' : AnswersLimit (Descending Prod.fst) k (entriesOf dense sparse) answer') :
    answer = answer' := by
  have hids := ids_entriesOf hdense hsparse
  refine h.eq_of_untied h' fun a ha b hb hab habove => ?_
  have hscore : ∀ entry ∈ entriesOf dense sparse,
      entry.1 = singleScore dense sparse entry.2.chunkId :=
    fun entry hentry => (mem_entriesOf hdense hsparse hentry).1
  have hsame : a.2.chunkId = b.2.chunkId := by
    refine huntied _ (hids.mem_iff.mp (List.mem_map_of_mem ha)) _
      (hids.mem_iff.mp (List.mem_map_of_mem hb)) ?_ (lt_of_le_of_lt ?_ habove)
    · rw [← hscore a ha, ← hscore b hb]
      exact hab
    · rw [← (hids.filter _).length_eq, List.filter_map, List.length_map]
      refine le_of_eq (congrArg List.length (List.filter_congr fun e he => ?_))
      rw [Function.comp_apply, hscore a ha, hscore e he]
  have hnodup : ((entriesOf dense sparse).map fun e => e.2.chunkId).Nodup :=
    hids.nodup_iff.mpr (List.nodup_dedup _)
  exact List.inj_on_of_nodup_map hnodup ha hb hsame

/-- One of the queries that a recall runs has returned the list. -/
def LegReturns (legs : RecallLegs) (query : RecallQuery) (list : List ScoredHit) : Prop :=
  (∃ embedding ∈ query.embedding, legs.dense query embedding = .ok list) ∨
    ∃ text ∈ query.text, legs.bm25 query text = .ok list

/-- A recall answers with what a query has returned, and changes the score of a hit at most. -/
theorem recall_found {legs : RecallLegs} {query : RecallQuery}
    (hdistinct : ∀ list, LegReturns legs query list → NoRepeats list) (order : IterationOrder)
    {hits : List ScoredHit} (h : legs.recall order query = .ok hits) :
    ∀ hit ∈ hits, ∃ list, LegReturns legs query list ∧
      ∃ found ∈ list, hit = { found with score := hit.score } := by
  unfold RecallLegs.recall at h
  split at h
  · cases h
    intro hit hhit
    cases hhit
  split at h
  · rename_i embedding text hembedding htext
    obtain ⟨dense, hdense, h⟩ := exists_of_bind_eq_ok h
    obtain ⟨sparse, hsparse, h⟩ := exists_of_bind_eq_ok h
    cases h
    have hleft : LegReturns legs query dense := Or.inl ⟨embedding, hembedding, hdense⟩
    have hright : LegReturns legs query sparse := Or.inr ⟨text, htext, hsparse⟩
    obtain ⟨answer, hanswers, hfused⟩ := rrfFuse_answers dense sparse order query.k
    rw [hfused]
    intro hit hhit
    obtain ⟨found, hfound, hsame⟩ := (fusedBy_of_answers (hdistinct dense hleft)
      (hdistinct sparse hright) hanswers).found hit hhit
    rcases List.mem_append.mp hfound with hfound | hfound
    · exact ⟨dense, hleft, found, hfound, hsame⟩
    · exact ⟨sparse, hright, found, hfound, hsame⟩
  · rename_i embedding hembedding htext
    exact fun hit hhit => ⟨hits, Or.inl ⟨embedding, hembedding, h⟩, hit, hhit, rfl⟩
  · rename_i text hembedding htext
    exact fun hit hhit => ⟨hits, Or.inr ⟨text, htext, h⟩, hit, hhit, rfl⟩
  · cases h

/-! ## The scores -/

/-- A reciprocal rank has three roundings below the division and one above. -/
theorem reciprocalRank_approx (rank : Nat) :
    Approx (1 / 2 ^ 24) 1 3 (reciprocalRank rank) (1 / (61 + rank)) := by
  have hu : (0 : ℚ) < 1 / 2 ^ 24 := by positivity
  have hu' : (1 : ℚ) / 2 ^ 24 < 1 := by norm_num
  have hrank : Approx (1 / 2 ^ 24) 1 0 (toF32 rank) rank := (Approx.refl _ _).round (by positivity)
  have hconst : Approx (1 / 2 ^ 24) 1 0 rrfK 60 :=
    (Approx.refl _ 60).mono hu hu' (by norm_num) (Nat.zero_le 1) (le_refl 0)
  have hsum : Approx (1 / 2 ^ 24) 2 0 (toF32 (rrfK + toF32 rank)) (60 + rank) :=
    (hconst.add hrank).round (by positivity)
  have hone : Approx (1 / 2 ^ 24) 2 0 1 1 :=
    (Approx.refl _ _).mono hu hu' (by norm_num) (Nat.zero_le 2) (le_refl 0)
  have hbelow : Approx (1 / 2 ^ 24) 3 0 (toF32 (toF32 (rrfK + toF32 rank) + 1)) (60 + rank + 1) :=
    (hsum.add hone).round (by positivity)
  have hquotient : Approx (1 / 2 ^ 24) 1 3 (reciprocalRank rank) (1 / (60 + rank + 1)) :=
    (hbelow.one_div hu hu' (by positivity)).round (by positivity)
  have hcount : (60 : ℚ) + rank + 1 = 61 + rank := by ring
  rwa [hcount] at hquotient

theorem exactShare_nonneg (list : List ScoredHit) (c : ChunkId) : 0 ≤ exactShare list c := by
  unfold exactShare
  split
  · positivity
  · exact le_refl 0

/-- A score that is added up has two roundings above a division and three below. -/
theorem singleScore_approx (dense sparse : List ScoredHit) (c : ChunkId) :
    Approx (1 / 2 ^ 24) 2 3 (singleScore dense sparse c) (exactScore dense sparse c) := by
  have hu : (0 : ℚ) < 1 / 2 ^ 24 := by positivity
  have hu' : (1 : ℚ) / 2 ^ 24 < 1 := by norm_num
  have hone : ∀ rank : Nat, Approx (1 / 2 ^ 24) 2 3 (reciprocalRank rank) (1 / (61 + rank)) :=
    fun rank => (reciprocalRank_approx rank).mono hu hu' (by positivity) (by omega) (le_refl 3)
  unfold singleScore exactScore exactShare
  cases rankIn dense c with
  | none =>
    cases rankIn sparse c with
    | none =>
      dsimp only
      constructor <;> simp
    | some s =>
      dsimp only
      rw [zero_add]
      exact hone s
  | some r =>
    cases rankIn sparse c with
    | none =>
      dsimp only
      rw [add_zero]
      exact hone r
    | some s =>
      exact ((reciprocalRank_approx r).add (reciprocalRank_approx s)).round (by positivity)

/-- Single precision leaves twenty-one bits. -/
theorem abs_singleScore_sub_le (dense sparse : List ScoredHit) (c : ChunkId) :
    |singleScore dense sparse c - exactScore dense sparse c| ≤
      exactScore dense sparse c / 2 ^ 21 := by
  have h := singleScore_approx dense sparse c
  have hnonneg : 0 ≤ exactScore dense sparse c :=
    add_nonneg (exactShare_nonneg dense c) (exactShare_nonneg sparse c)
  have hlower := h.lower
  have hupper := h.upper
  generalize singleScore dense sparse c = y at hlower hupper ⊢
  generalize exactScore dense sparse c = x at hlower hupper hnonneg ⊢
  have hdown : x * (1 - 1 / 2 ^ 21) ≤ x * ((1 - 1 / 2 ^ 24) ^ 2 / (1 + 1 / 2 ^ 24) ^ 3) :=
    mul_le_mul_of_nonneg_left (by norm_num) hnonneg
  have hup : x * ((1 + 1 / 2 ^ 24) ^ 2 / (1 - 1 / 2 ^ 24) ^ 3) ≤ x * (1 + 1 / 2 ^ 21) :=
    mul_le_mul_of_nonneg_left (by norm_num) hnonneg
  rw [abs_le]
  constructor
  · linarith
  · linarith

/-- A fusion ranks by the score in single precision, which is the exact sum but for a part in
`2 ^ 21`; its scores do not depend on the order of the map, and neither do its hits unless equal
scores compete for a place. -/
theorem fused_in_single_precision (order : IterationOrder) (hdense : NoRepeats dense)
    (hsparse : NoRepeats sparse) (k : Nat) :
    FusedBy (singleScore dense sparse) dense sparse k (rrfFuse order [dense, sparse] k) ∧
    (∀ h ∈ rrfFuse order [dense, sparse] k, h.score = singleScore dense sparse h.chunkId) ∧
    (∀ c, |singleScore dense sparse c - exactScore dense sparse c| ≤
      exactScore dense sparse c / 2 ^ 21) ∧
    ∀ order' : IterationOrder,
      (rrfFuse order' [dense, sparse] k).map ScoredHit.score =
        (rrfFuse order [dense, sparse] k).map ScoredHit.score ∧
      (Untied dense sparse k →
        rrfFuse order' [dense, sparse] k = rrfFuse order [dense, sparse] k) := by
  obtain ⟨answer, hanswer, hfused⟩ := rrfFuse_answers dense sparse order k
  rw [hfused]
  refine ⟨fusedBy_of_answers hdense hsparse hanswer, ?_, abs_singleScore_sub_le dense sparse, ?_⟩
  · intro hit hhit
    obtain ⟨entry, hentry, rfl⟩ := List.mem_map.mp hhit
    exact (mem_entriesOf hdense hsparse (hanswer.mem hentry)).1
  · intro order'
    obtain ⟨answer', hanswer', hfused'⟩ := rrfFuse_answers dense sparse order' k
    rw [hfused']
    constructor
    · rw [List.map_map, List.map_map]
      exact hanswer'.map_key_eq hanswer
    · intro huntied
      rw [answers_eq_of_untied hdense hsparse huntied hanswer' hanswer]

/-- An order that gives the entry of one chunk first. -/
def favouring (c : ChunkId) : IterationOrder where
  values entries := entries.filter (fun e => decide (e.2.chunkId = c)) ++
    entries.filter fun e => !decide (e.2.chunkId = c)
  perm entries := List.filter_append_perm _ entries

/-- Of two chunks of equal score the favoured one is answered first. -/
theorem favoured_first (hdense : NoRepeats dense) (hsparse : NoRepeats sparse) {a b : ChunkId}
    (ha : a ∈ chunksOf dense sparse) (hb : b ∈ chunksOf dense sparse) (hne : b ≠ a)
    (htie : singleScore dense sparse a = singleScore dense sparse b)
    (hk : (chunksOf dense sparse).length ≤ k) :
    [a, b].Sublist ((rrfFuse (favouring a) [dense, sparse] k).map fun h => h.chunkId) := by
  have hids := ids_entriesOf hdense hsparse
  obtain ⟨x, hx, rfl⟩ := List.mem_map.mp (hids.mem_iff.mpr ha)
  obtain ⟨y, hy, rfl⟩ := List.mem_map.mp (hids.mem_iff.mpr hb)
  have hscores : y.1 ≤ x.1 := by
    rw [(mem_entriesOf hdense hsparse hx).1, (mem_entriesOf hdense hsparse hy).1, htie]
  have hvalues : ([x] ++ [y]).Sublist
      (intoValues (favouring x.2.chunkId) (addLists [dense, sparse])) := by
    refine List.Sublist.append (List.singleton_sublist.mpr ?_) (List.singleton_sublist.mpr ?_)
    · exact List.mem_filter.mpr ⟨hx, decide_eq_true rfl⟩
    · refine List.mem_filter.mpr ⟨hy, ?_⟩
      rw [decide_eq_false hne, Bool.not_false]
  have hsorted := List.sublist_insertionSort
    (r := Descending Prod.fst) (List.pairwise_pair.mpr hscores) hvalues
  have hlength : ((intoValues (favouring x.2.chunkId) (addLists [dense, sparse])).insertionSort
      (Descending Prod.fst)).length ≤ k := by
    rw [List.length_insertionSort, intoValues, ((favouring _).perm _).length_eq]
    rw [← hids.length_eq, List.length_map] at hk
    exact hk
  unfold rrfFuse
  rw [List.take_of_length_le hlength, List.map_map]
  exact hsorted.map fun e => e.2.chunkId

end Pair

/-- A hit of a note, with the score of its query. -/
def noteHit (c : ChunkId) : ScoredHit where
  chunkId := c
  source := "gdrive"
  documentId := "note"
  seq := 0
  content := "pricing"
  entityTags := []
  kind := "content"
  aclProvenance := .mirrored
  trustTier := .observation
  validFrom := 0
  provenance := 0
  score := 1

/-- The order the entries were made in. -/
def oldestFirst : IterationOrder := ⟨id, fun _ => List.Perm.refl _⟩

def newestFirst : IterationOrder := ⟨List.reverse, List.reverse_perm⟩

/-- Two lists share one note out of three. -/
theorem fused_notes :
    let dense := [noteHit 1, noteHit 2]
    let sparse := [noteHit 2, noteHit 3]
    FusedBy (singleScore dense sparse) dense sparse 2 (rrfFuse oldestFirst [dense, sparse] 2) ∧
      rrfFuse newestFirst [dense, sparse] 2 = rrfFuse oldestFirst [dense, sparse] 2 := by
  have hdense : NoRepeats [noteHit 1, noteHit 2] := by decide
  have hsparse : NoRepeats [noteHit 2, noteHit 3] := by decide
  obtain ⟨hfused, -, -, horders⟩ := fused_in_single_precision oldestFirst hdense hsparse 2
  refine ⟨hfused, (horders newestFirst).2 ?_⟩
  unfold Untied
  decide +kernel

/-- The rows of a long query, with two notes at given ranks. -/
def longList (rank rank' start : Nat) : List ScoredHit :=
  (List.range 169).map fun i =>
    noteHit (if i = rank then 1 else if i = rank' then 2 else start + i)

theorem noRepeats_longList {rank' start : Nat} (hstart : 2 < start) :
    NoRepeats (longList rank rank' start) := by
  unfold NoRepeats longList
  rw [List.map_map]
  refine List.nodup_range.map_on fun i _ j _ hij => ?_
  have hid : (if i = rank then (1 : Nat) else if i = rank' then 2 else start + i) =
      (if j = rank then (1 : Nat) else if j = rank' then 2 else start + j) := hij
  grind

theorem mem_longList {rank' start i : Nat} (hi : i < 169) :
    noteHit (if i = rank then 1 else if i = rank' then 2 else start + i) ∈
      longList rank rank' start :=
  List.mem_map.mpr ⟨i, List.mem_range.mpr hi, rfl⟩

/-- In long lists a chunk may come before one of greater sum: in single precision they tie. -/
theorem lesser_sum_first :
    ∃ dense sparse : List ScoredHit, NoRepeats dense ∧ NoRepeats sparse ∧
      ∃ order : IterationOrder, ¬ FusedBy (exactScore dense sparse) dense sparse 400
        (rrfFuse order [dense, sparse] 400) := by
  have hdense : NoRepeats (longList 147 156 1000) := noRepeats_longList (by decide)
  have hsparse : NoRepeats (longList 168 158 2000) := noRepeats_longList (by decide)
  have hchunk : ∀ h ∈ longList 147 156 1000,
      h.chunkId ∈ chunksOf (longList 147 156 1000) (longList 168 158 2000) := by
    intro h hh
    exact List.mem_dedup.mpr (List.mem_map_of_mem (List.mem_append_left _ hh))
  have hfirst := hchunk (noteHit 1) (mem_longList (i := 147) (by decide))
  have hsecond := hchunk (noteHit 2) (mem_longList (i := 156) (by decide))
  have htie : singleScore (longList 147 156 1000) (longList 168 158 2000) 1 =
      singleScore (longList 147 156 1000) (longList 168 158 2000) 2 := by decide +kernel
  have hless : exactScore (longList 147 156 1000) (longList 168 158 2000) 1 <
      exactScore (longList 147 156 1000) (longList 168 158 2000) 2 := by decide +kernel
  have hall : (chunksOf (longList 147 156 1000) (longList 168 158 2000)).length ≤ 400 := by
    refine le_trans (List.dedup_sublist _).length_le ?_
    rw [List.length_map, List.length_append, longList, longList, List.length_map, List.length_map,
      List.length_range]
    decide
  refine ⟨_, _, hdense, hsparse, favouring 1, fun hfused => ?_⟩
  have hordered : ((rrfFuse (favouring 1) [longList 147 156 1000, longList 168 158 2000] 400).map
      fun h => h.chunkId).Pairwise fun a b =>
        exactScore (longList 147 156 1000) (longList 168 158 2000) b ≤
          exactScore (longList 147 156 1000) (longList 168 158 2000) a :=
    List.pairwise_map.mpr hfused.ordered
  have hsub := favoured_first hdense hsparse hfirst hsecond (by decide) htie hall
  have hle := List.pairwise_pair.mp (hordered.sublist hsub)
  exact absurd hle (not_le.mpr hless)

/-- The first rows of two queries score the same, and which of them a recall of one hit returns is
up to the map; and the sums that a fusion orders by are rounded. -/
theorem ties_up_to_the_map :
    (rrfFuse oldestFirst [[noteHit 1], [noteHit 2]] 1).map (fun h => h.chunkId) ≠
      (rrfFuse newestFirst [[noteHit 1], [noteHit 2]] 1).map (fun h => h.chunkId) ∧
    ∃ dense sparse : List ScoredHit, NoRepeats dense ∧ NoRepeats sparse ∧
      ∃ order : IterationOrder, ¬ FusedBy (exactScore dense sparse) dense sparse 400
        (rrfFuse order [dense, sparse] 400) :=
  ⟨by decide +kernel, lesser_sum_first⟩

end Verity.Analysis
