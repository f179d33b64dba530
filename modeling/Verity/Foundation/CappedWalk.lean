import Mathlib.Data.List.Dedup
import Verity.Foundation.Closure

/-!
# Breadth-first walks with a limit

A walk over a graph in rounds. A round takes the nodes that wait and have not been asked
about, as far as a limit on the nodes asked about has room, and cuts off the others; what it
is told of its batch waits for the next round. A node may wait several times, and each time
takes room.

Every walk ends (`exists_end`), and the nodes it asks about are reached from those it starts
with (`reach_of_passes`). It asks about all of them that matter if and only if no round cuts
off one of these for good (`asks_all_iff`). As long as a round is told each edge of its batch
at most once, a limit of the starting nodes and the edges cuts off nothing
(`cut_eq_nil_of_told_once`).
-/

set_option autoImplicit false

namespace Verity.Foundation

open Relation

/-- The state of a walk before a round. -/
structure Walk (α : Type) where
  asked : List α
  waiting : List α

namespace Walk

variable {α : Type} [DecidableEq α]

/-- What waits and has not been asked about. -/
def fresh (w : Walk α) : List α := w.waiting.filter (· ∉ w.asked)

/-- What the round asks about. -/
def batch (limit : Nat) (w : Walk α) : List α := w.fresh.take (limit - w.asked.length)

/-- What the round leaves out, for want of room. -/
def cut (limit : Nat) (w : Walk α) : List α := w.fresh.drop (limit - w.asked.length)

/-- The state after the round: what the batch leads to waits, where it is new. -/
def next (limit : Nat) (targets : List α → List α) (w : Walk α) : Walk α where
  asked := w.asked ++ (w.batch limit).dedup
  waiting := (targets (w.batch limit)).filter (· ∉ w.asked ++ (w.batch limit).dedup)

/-- A walk goes on as long as there is something to ask about. -/
def Step (limit : Nat) (targets : List α → List α) (w w' : Walk α) : Prop :=
  w.batch limit ≠ [] ∧ w' = w.next limit targets

/-- The walk from `w` comes through `w'`. -/
def Passes (limit : Nat) (targets : List α → List α) : Walk α → Walk α → Prop :=
  ReflTransGen (Step limit targets)

variable {limit : Nat} {targets : List α → List α}

theorem mem_fresh_iff {w : Walk α} {x : α} : x ∈ w.fresh ↔ x ∈ w.batch limit ∨ x ∈ w.cut limit := by
  rw [batch, cut, ← List.mem_append, List.take_append_drop]

theorem not_asked_of_mem_batch {w : Walk α} {x : α} (h : x ∈ w.batch limit) : x ∉ w.asked := by
  have hfresh := mem_fresh_iff.mpr (Or.inl h)
  rw [fresh, List.mem_filter] at hfresh
  exact of_decide_eq_true hfresh.2

theorem mem_asked_next {w : Walk α} {x : α} :
    x ∈ (w.next limit targets).asked ↔ x ∈ w.asked ∨ x ∈ w.batch limit := by
  rw [next, List.mem_append, List.mem_dedup]

/-- Nothing that waits after a round has been asked about. -/
theorem fresh_next (limit : Nat) (targets : List α → List α) (w : Walk α) :
    (w.next limit targets).fresh = (w.next limit targets).waiting := by
  rw [fresh, List.filter_eq_self]
  intro x hx
  exact (List.mem_filter.mp hx).2

theorem length_asked_le_next (limit : Nat) (targets : List α → List α) (w : Walk α) :
    w.asked.length ≤ (w.next limit targets).asked.length := by
  rw [next, List.length_append]
  exact Nat.le_add_right _ _

/-- A round asks about one node more at least, within the limit. -/
theorem asked_lt_of_batch (targets : List α → List α) {w : Walk α} (h : w.batch limit ≠ []) :
    w.asked.length < limit ∧ w.asked.length < (w.next limit targets).asked.length := by
  constructor
  · by_contra hfull
    apply h
    rw [batch, Nat.sub_eq_zero_of_le (Nat.le_of_not_lt hfull), List.take_zero]
  · obtain ⟨x, hx⟩ := List.exists_mem_of_ne_nil _ h
    have hpos : 0 < (w.batch limit).dedup.length :=
      List.length_pos_of_mem (List.mem_dedup.mpr hx)
    rw [next, List.length_append]
    omega

/-- Every walk ends. -/
theorem exists_end (limit : Nat) (targets : List α → List α) (w : Walk α) :
    ∃ e, Passes limit targets w e ∧ e.batch limit = [] := by
  induction hroom : limit - w.asked.length using Nat.strongRecOn generalizing w with
  | ind n ih =>
    by_cases hbatch : w.batch limit = []
    · exact ⟨w, ReflTransGen.refl, hbatch⟩
    · obtain ⟨hlimit, hmore⟩ := asked_lt_of_batch targets hbatch
      obtain ⟨e, hpasses, hend⟩ := ih _ (by omega) (w.next limit targets) rfl
      exact ⟨e, ReflTransGen.head ⟨hbatch, rfl⟩ hpasses, hend⟩

theorem passes_iff {w v : Walk α} :
    Passes limit targets w v ↔
      v = w ∨ (w.batch limit ≠ [] ∧ Passes limit targets (w.next limit targets) v) := by
  constructor
  · intro h
    rcases ReflTransGen.cases_head h with rfl | ⟨w', ⟨hbatch, rfl⟩, hrest⟩
    · exact Or.inl rfl
    · exact Or.inr ⟨hbatch, hrest⟩
  · rintro (rfl | ⟨hbatch, hrest⟩)
    · exact ReflTransGen.refl
    · exact ReflTransGen.head ⟨hbatch, rfl⟩ hrest

theorem asked_mono {w v : Walk α} (h : Passes limit targets w v) {x : α} (hx : x ∈ w.asked) :
    x ∈ v.asked := by
  induction h with
  | refl => exact hx
  | tail _ hstep ih =>
    obtain ⟨_, rfl⟩ := hstep
    exact mem_asked_next.mpr (Or.inl ih)

section Ended

variable {w e : Walk α} (hpasses : Passes limit targets w e) (hend : e.batch limit = [])

include hpasses hend

/-- What has been asked about in the end is the batches of the rounds. -/
theorem mem_asked_of_end {x : α} :
    x ∈ e.asked ↔ x ∈ w.asked ∨ ∃ v, Passes limit targets w v ∧ x ∈ v.batch limit := by
  induction hpasses using ReflTransGen.head_induction_on with
  | refl =>
    have hnone : ∀ v, Passes limit targets e v → x ∉ v.batch limit := by
      intro v hv
      rcases passes_iff.mp hv with rfl | ⟨hbatch, _⟩
      · rw [hend]
        exact List.not_mem_nil
      · exact absurd hend hbatch
    constructor
    · exact Or.inl
    · rintro (hx | ⟨v, hv, hx⟩)
      · exact hx
      · exact absurd hx (hnone v hv)
  | @head w w' hstep hrest ih =>
    obtain ⟨hbatch, rfl⟩ := hstep
    rw [ih, mem_asked_next]
    constructor
    · rintro ((hx | hx) | ⟨v, hv, hx⟩)
      · exact Or.inl hx
      · exact Or.inr ⟨w, ReflTransGen.refl, hx⟩
      · exact Or.inr ⟨v, passes_iff.mpr (Or.inr ⟨hbatch, hv⟩), hx⟩
    · rintro (hx | ⟨v, hv, hx⟩)
      · exact Or.inl (Or.inl hx)
      · rcases passes_iff.mp hv with rfl | ⟨_, hv⟩
        · exact Or.inl (Or.inr hx)
        · exact Or.inr ⟨v, hv, hx⟩

/-- What waits is asked about, or some round cuts it off. -/
theorem asked_or_cut_of_waiting {x : α} (hx : x ∈ w.waiting) :
    x ∈ e.asked ∨ ∃ v, Passes limit targets w v ∧ x ∈ v.cut limit := by
  by_cases hasked : x ∈ w.asked
  · exact Or.inl (asked_mono hpasses hasked)
  · have hfresh : x ∈ w.fresh := List.mem_filter.mpr ⟨hx, decide_eq_true hasked⟩
    rcases mem_fresh_iff.mp hfresh with hbatch | hcut
    · exact Or.inl ((mem_asked_of_end hpasses hend).mpr (Or.inr ⟨w, ReflTransGen.refl, hbatch⟩))
    · exact Or.inr ⟨w, ReflTransGen.refl, hcut⟩

end Ended

section Graph

variable {edges : List (α × α)}
  (htargets : ∀ batch x, x ∈ targets batch ↔ ∃ a ∈ batch, (a, x) ∈ edges)

include htargets

/-- Where an edge leads from a node that the walk has asked about is asked about, or some
round cuts it off. -/
theorem asked_or_cut_of_edge {w e : Walk α} (hpasses : Passes limit targets w e)
    (hend : e.batch limit = []) {a x : α} (ha : a ∈ e.asked) (hold : a ∉ w.asked)
    (hedge : (a, x) ∈ edges) : x ∈ e.asked ∨ ∃ v, Passes limit targets w v ∧ x ∈ v.cut limit := by
  induction hpasses using ReflTransGen.head_induction_on with
  | refl => exact absurd ha hold
  | @head w w' hstep hrest ih =>
    obtain ⟨hbatch, rfl⟩ := hstep
    have hlater : (∃ v, Passes limit targets (w.next limit targets) v ∧ x ∈ v.cut limit) →
        ∃ v, Passes limit targets w v ∧ x ∈ v.cut limit := by
      rintro ⟨v, hv, hx⟩
      exact ⟨v, passes_iff.mpr (Or.inr ⟨hbatch, hv⟩), hx⟩
    by_cases hnow : a ∈ (w.next limit targets).asked
    · have hin : a ∈ w.batch limit := (mem_asked_next.mp hnow).resolve_left hold
      by_cases hx : x ∈ (w.next limit targets).asked
      · exact Or.inl (asked_mono hrest hx)
      · have hwaits : x ∈ (w.next limit targets).waiting :=
          List.mem_filter.mpr ⟨(htargets _ _).mpr ⟨a, hin, hedge⟩, decide_eq_true hx⟩
        exact (asked_or_cut_of_waiting hrest hend hwaits).imp_right hlater
    · exact (ih hnow).imp_right hlater

/-- A walk comes only to nodes that its starting nodes reach. -/
theorem reach_of_passes {starts : List α} {v : Walk α} (h : Passes limit targets ⟨[], starts⟩ v)
    {x : α} (hx : x ∈ v.asked ∨ x ∈ v.waiting) : ∃ s ∈ starts, Reach edges s x := by
  induction h generalizing x with
  | refl => exact ⟨x, hx.resolve_left List.not_mem_nil, ReflTransGen.refl⟩
  | @tail v v' _ hstep ih =>
    obtain ⟨_, rfl⟩ := hstep
    have hbatch : ∀ y ∈ v.batch limit, ∃ s ∈ starts, Reach edges s y := by
      intro y hy
      have hfresh := mem_fresh_iff.mpr (Or.inl hy)
      exact ih (Or.inr (List.mem_of_mem_filter hfresh))
    rcases hx with hx | hx
    · rcases mem_asked_next.mp hx with hx | hx
      · exact ih (Or.inl hx)
      · exact hbatch x hx
    · obtain ⟨a, ha, hedge⟩ := (htargets _ _).mp (List.mem_of_mem_filter hx)
      obtain ⟨s, hs, hreach⟩ := hbatch a ha
      exact ⟨s, hs, ReflTransGen.tail hreach hedge⟩

/-- A walk asks about everything that matters and is reached if and only if it asks about
everything that matters and is cut off by some round. Nodes that edges lead out of matter. -/
theorem asks_all_iff {starts : List α} {e : Walk α} (hpasses : Passes limit targets ⟨[], starts⟩ e)
    (hend : e.batch limit = []) {P : α → Prop} (hP : ∀ a x, (a, x) ∈ edges → P a) :
    (∀ x, (∃ s ∈ starts, Reach edges s x) → P x → x ∈ e.asked) ↔
      ∀ v, Passes limit targets ⟨[], starts⟩ v → ∀ x ∈ v.cut limit, P x → x ∈ e.asked := by
  constructor
  · intro hall v hv x hx hPx
    have hwaits : x ∈ v.waiting := List.mem_of_mem_filter (mem_fresh_iff.mpr (Or.inr hx))
    exact hall x (reach_of_passes htargets hv (Or.inr hwaits)) hPx
  · rintro hcut x ⟨s, hs, hreach⟩ hPx
    induction hreach with
    | refl =>
      rcases asked_or_cut_of_waiting hpasses hend hs with hasked | ⟨v, hv, hx⟩
      · exact hasked
      · exact hcut v hv _ hx hPx
    | tail _ hedge ih =>
      have hbefore := ih (hP _ _ hedge)
      rcases asked_or_cut_of_edge htargets hpasses hend hbefore List.not_mem_nil hedge with
        hasked | ⟨v, hv, hx⟩
      · exact hasked
      · exact hcut v hv _ hx hPx

end Graph

section Room

variable {edges : List (α × α)}

/-- The edges out of nodes not asked about yet, before a round and after it. -/
theorem countP_unasked_next (edges : List (α × α)) (w : Walk α) (limit : Nat)
    (targets : List α → List α) :
    edges.countP (fun e => e.1 ∉ (w.next limit targets).asked) +
      edges.countP (fun e => e.1 ∈ w.batch limit) = edges.countP (fun e => e.1 ∉ w.asked) := by
  induction edges with
  | nil => rfl
  | cons e edges ih =>
    simp only [List.countP_cons, mem_asked_next, decide_eq_true_eq] at ih ⊢
    by_cases hbatch : e.1 ∈ w.batch limit
    · have hold := not_asked_of_mem_batch hbatch
      simp only [hbatch, hold, or_true, not_true_eq_false, not_false_eq_true, if_true, if_false]
      omega
    · by_cases hold : e.1 ∈ w.asked
      · simp only [hbatch, hold, true_or, not_true_eq_false, if_false]
        omega
      · simp only [hbatch, hold, or_false, not_false_eq_true, if_true, if_false]
        omega

/-- Each round is told every edge of its batch at most once. -/
def ToldOnce (limit : Nat) (targets : List α → List α) (edges : List (α × α)) (w : Walk α) : Prop :=
  ∀ v, Passes limit targets w v →
    (targets (v.batch limit)).length ≤ edges.countP fun e => e.1 ∈ v.batch limit

/-- What the starting nodes and the edges leave, after what has been asked about and waits, is
enough for the edges still to be told. -/
theorem room_of_passes {starts : List α} (htold : ToldOnce limit targets edges ⟨[], starts⟩)
    {w : Walk α} (h : Passes limit targets ⟨[], starts⟩ w) :
    w.asked.length + w.waiting.length + edges.countP (fun e => e.1 ∉ w.asked) ≤
      starts.length + edges.length := by
  induction h with
  | refl =>
    have hcount : edges.countP (fun e => e.1 ∉ ([] : List α)) ≤ edges.length :=
      List.countP_le_length
    simp only [List.length_nil]
    omega
  | @tail v v' hv hstep ih =>
    obtain ⟨_, rfl⟩ := hstep
    have hasked : (v.next limit targets).asked.length ≤ v.asked.length + v.waiting.length := by
      have hbatch : (v.batch limit).length ≤ v.waiting.length :=
        Nat.le_trans (List.length_take_le' _ _) (List.length_filter_le _ _)
      have hdedup := (List.dedup_sublist (v.batch limit)).length_le
      rw [next, List.length_append]
      omega
    have hwaiting : (v.next limit targets).waiting.length ≤
        edges.countP fun e => e.1 ∈ v.batch limit :=
      Nat.le_trans (List.length_filter_le _ _) (htold v hv)
    have hcount := countP_unasked_next edges v limit targets
    omega

theorem cut_eq_nil_of_told_once {starts : List α}
    (htold : ToldOnce limit targets edges ⟨[], starts⟩)
    (hlimit : starts.length + edges.length ≤ limit) {w : Walk α}
    (h : Passes limit targets ⟨[], starts⟩ w) : w.cut limit = [] := by
  have hroom := room_of_passes htold h
  have hfresh : w.fresh.length ≤ w.waiting.length := List.length_filter_le _ _
  apply List.drop_eq_nil_of_le
  omega

end Room

end Walk

end Verity.Foundation
