import Mathlib.Data.Finset.Card
import Mathlib.Logic.Function.Iterate
import Mathlib.Logic.Relation
import Mathlib.Order.Lattice

/-!
# Forests of parents

A partition kept as a forest: each node names a parent that is not larger than itself, and a
root is its own parent. Only finitely many nodes have another parent, so the way up from a node
ends after at most as many steps as there are such nodes, at the node's root.

`Forest.link` points one root at a smaller one. `labels_foldl` is the rule for a run of such
steps, stated for any way of labelling nodes: when each step joins the labels of the two ends of
an edge and nothing else, then two nodes have one label in the end if and only if they are
connected by the edges of the run and by the labels they started from.
-/

set_option autoImplicit false

namespace Verity.Foundation

open Relation

variable {α : Type}

variable {edges : List (α × α)} {a b : α} {label : α → α} {x : α}

/-! ## Labels and connectedness -/

/-- Two nodes connected by the edges of a list, in either direction. -/
def Connected (edges : List (α × α)) : α → α → Prop :=
  EqvGen fun a b => (a, b) ∈ edges

/-- A map of nodes that takes the ends of every edge to connected nodes keeps connectedness. -/
theorem Connected.map {β : Type} {edges' : List (β × β)} {f : α → β}
    (h : ∀ e ∈ edges, Connected edges' (f e.1) (f e.2)) (hab : Connected edges a b) :
    Connected edges' (f a) (f b) := by
  induction hab with
  | rel x y hxy => exact h (x, y) hxy
  | refl x => exact EqvGen.refl _
  | symm x y _ ih => exact EqvGen.symm _ _ ih
  | trans x y z _ _ ih ih' => exact EqvGen.trans _ _ _ ih ih'

/-- An edge from a node to itself connects nothing. -/
theorem Connected.mono {edges' : List (α × α)} (h : ∀ e ∈ edges, e.1 ≠ e.2 → e ∈ edges')
    (hab : Connected edges a b) : Connected edges' a b := by
  refine Connected.map (f := id) ?_ hab
  rintro ⟨x, y⟩ hedge
  by_cases hxy : x = y
  · rw [hxy]
    exact EqvGen.refl _
  · exact EqvGen.rel _ _ (h (x, y) hedge hxy)

/-- Two connected nodes are the same, or both are ends of edges. -/
theorem Connected.eq_or_ends (h : Connected edges a b) :
    a = b ∨ ((∃ e ∈ edges, a = e.1 ∨ a = e.2) ∧ ∃ e ∈ edges, b = e.1 ∨ b = e.2) := by
  induction h with
  | rel a b hab => exact Or.inr ⟨⟨_, hab, Or.inl rfl⟩, ⟨_, hab, Or.inr rfl⟩⟩
  | refl a => exact Or.inl rfl
  | symm a b _ ih =>
    rcases ih with rfl | ⟨ha, hb⟩
    · exact Or.inl rfl
    · exact Or.inr ⟨hb, ha⟩
  | trans a b c _ _ ih ih' =>
    rcases ih with rfl | ⟨ha, hb⟩
    · exact ih'
    · rcases ih' with rfl | ⟨_, hc⟩
      · exact Or.inr ⟨ha, hb⟩
      · exact Or.inr ⟨ha, hc⟩

/-- The two labels `label a` and `label b` have become one, and nothing else has changed. -/
def JoinsLabels (label label' : α → α) (a b : α) : Prop :=
  ∀ x y, label' x = label' y ↔
    label x = label y ∨ (label x = label a ∧ label y = label b) ∨
      (label x = label b ∧ label y = label a)

/-- An edge within one class joins nothing. -/
theorem joinsLabels_of_eq (h : label a = label b) : JoinsLabels label label a b := by
  intro x y
  constructor
  · exact Or.inl
  · rintro (hxy | ⟨hx, hy⟩ | ⟨hx, hy⟩)
    · exact hxy
    · rw [hx, hy, h]
    · rw [hx, hy, h]

/-- Nodes connected by edges, or by a label they share. -/
def ConnectedOver (label : α → α) (edges : List (α × α)) : α → α → Prop :=
  EqvGen fun a b => label a = label b ∨ (a, b) ∈ edges

theorem connectedOver_nil (label : α → α) (a b : α) :
    ConnectedOver label [] a b ↔ label a = label b := by
  constructor
  · intro h
    induction h with
    | rel a b h => simpa using h
    | refl a => rfl
    | symm a b _ ih => exact ih.symm
    | trans a b c _ _ ih ih' => exact ih.trans ih'
  · intro h
    exact EqvGen.rel _ _ (Or.inl h)

/-- Joining the labels of an edge's ends does the work of the edge. -/
theorem connectedOver_cons {label' : α → α} (hjoin : JoinsLabels label label' a b)
    (edges : List (α × α)) (x y : α) :
    ConnectedOver label' edges x y ↔ ConnectedOver label ((a, b) :: edges) x y := by
  have hedge : ConnectedOver label ((a, b) :: edges) a b :=
    EqvGen.rel _ _ (Or.inr List.mem_cons_self)
  have hlabel : ∀ {u v}, label u = label v → ConnectedOver label ((a, b) :: edges) u v :=
    fun h => EqvGen.rel _ _ (Or.inl h)
  constructor
  · intro h
    induction h with
    | rel u v h =>
      rcases h with h | h
      · rcases (hjoin u v).mp h with h | ⟨hu, hv⟩ | ⟨hu, hv⟩
        · exact hlabel h
        · exact EqvGen.trans _ _ _ (hlabel hu) (EqvGen.trans _ _ _ hedge (hlabel hv.symm))
        · exact EqvGen.trans _ _ _ (hlabel hu)
            (EqvGen.trans _ _ _ (EqvGen.symm _ _ hedge) (hlabel hv.symm))
      · exact EqvGen.rel _ _ (Or.inr (List.mem_cons_of_mem _ h))
    | refl u => exact EqvGen.refl u
    | symm u v _ ih => exact EqvGen.symm _ _ ih
    | trans u v w _ _ ih ih' => exact EqvGen.trans _ _ _ ih ih'
  · intro h
    induction h with
    | rel u v h =>
      rcases h with h | h
      · exact EqvGen.rel _ _ (Or.inl ((hjoin u v).mpr (Or.inl h)))
      · rcases List.mem_cons.mp h with h | h
        · obtain ⟨rfl, rfl⟩ := Prod.mk.inj h
          exact EqvGen.rel _ _ (Or.inl ((hjoin u v).mpr (Or.inr (Or.inl ⟨rfl, rfl⟩))))
        · exact EqvGen.rel _ _ (Or.inr h)
    | refl u => exact EqvGen.refl u
    | symm u v _ ih => exact EqvGen.symm _ _ ih
    | trans u v w _ _ ih ih' => exact EqvGen.trans _ _ _ ih ih'

/-- A run of steps that each join the labels of an edge's ends. The state `σ` may carry more than
the labels, and the steps need to do their work in states that satisfy `I` only. -/
theorem labels_foldl {σ : Type} {I : σ → Prop} (labelOf : σ → α → α) {step : σ → α × α → σ}
    (hkept : ∀ s e, I s → I (step s e))
    (hjoin : ∀ s e, I s → JoinsLabels (labelOf s) (labelOf (step s e)) e.1 e.2)
    (edges : List (α × α)) {s : σ} (hs : I s) (x y : α) :
    labelOf (edges.foldl step s) x = labelOf (edges.foldl step s) y ↔
      ConnectedOver (labelOf s) edges x y := by
  induction edges generalizing s with
  | nil => exact (connectedOver_nil _ _ _).symm
  | cons e edges ih =>
    rw [List.foldl_cons, ih (hkept s e hs)]
    exact connectedOver_cons (hjoin s e hs) edges x y

/-- When no two nodes share a label at the start, only the edges connect. -/
theorem connectedOver_of_injective (h : Function.Injective label) (edges : List (α × α)) (x y : α) :
    ConnectedOver label edges x y ↔ Connected edges x y := by
  constructor
  · intro hxy
    induction hxy with
    | rel u v huv =>
      rcases huv with huv | huv
      · rw [h huv]
        exact EqvGen.refl v
      · exact EqvGen.rel _ _ huv
    | refl u => exact EqvGen.refl u
    | symm u v _ ih => exact EqvGen.symm _ _ ih
    | trans u v w _ _ ih ih' => exact EqvGen.trans _ _ _ ih ih'
  · intro hxy
    exact EqvGen.mono (fun u v huv => Or.inr huv) _ _ hxy

/-! ## Forests -/

/-- Parents that are not larger than their children, and the nodes that may have another parent
than themselves. -/
structure Forest (α : Type) [LinearOrder α] where
  parent : α → α
  nodes : Finset α
  parent_le : ∀ x, parent x ≤ x
  mem_nodes : ∀ x, parent x ≠ x → x ∈ nodes

namespace Forest

variable [LinearOrder α] (F : Forest α)

/-- The end of the way up. -/
def root (x : α) : α := F.parent^[F.nodes.card] x

/-- As many steps as there are nodes up to `x` lead to a node that is its own parent: every step
before that leaves one of them behind. -/
theorem parent_iterate {n : Nat} (h : (F.nodes.filter (· ≤ x)).card ≤ n) :
    F.parent (F.parent^[n] x) = F.parent^[n] x := by
  induction n generalizing x with
  | zero =>
    by_contra hne
    have hx : x ∈ F.nodes.filter (· ≤ x) := by simp [F.mem_nodes x hne]
    rw [Finset.card_eq_zero.mp (Nat.le_zero.mp h)] at hx
    exact absurd hx (Finset.notMem_empty x)
  | succ n ih =>
    rw [Function.iterate_succ_apply]
    by_cases hfix : F.parent x = x
    · rw [hfix, Function.iterate_fixed hfix, hfix]
    · apply ih
      have hlt : F.parent x < x := lt_of_le_of_ne (F.parent_le x) hfix
      have hsub : F.nodes.filter (· ≤ F.parent x) ⊂ F.nodes.filter (· ≤ x) := by
        refine Finset.ssubset_iff_of_subset ?_ |>.mpr ⟨x, ?_, ?_⟩
        · intro y hy
          rw [Finset.mem_filter] at hy ⊢
          exact ⟨hy.1, hy.2.trans hlt.le⟩
        · simp [F.mem_nodes x hfix]
        · simp [hlt]
      exact Nat.le_of_lt_succ (lt_of_lt_of_le (Finset.card_lt_card hsub) h)

theorem parent_root (x : α) : F.parent (F.root x) = F.root x :=
  F.parent_iterate (Finset.card_filter_le _ _)

/-- Whatever does not change from a node to its parent is the same at the root. -/
theorem apply_root {β : Type} {f : α → β} (h : ∀ x, f (F.parent x) = f x) (x : α) :
    f (F.root x) = f x := by
  unfold root
  induction F.nodes.card generalizing x with
  | zero => rfl
  | succ n ih => rw [Function.iterate_succ_apply, ih, h]

theorem root_parent (x : α) : F.root (F.parent x) = F.root x := by
  unfold root
  rw [← Function.iterate_succ_apply, Function.iterate_succ_apply']
  exact F.parent_root x

theorem root_of_fixed (h : F.parent x = x) : F.root x = x :=
  Function.iterate_fixed h _

/-- A root `b` is pointed at another root `a`: what had the root `b` has the root `a` now. -/
theorem root_link {F F' : Forest α} (hne : a ≠ b) (ha : F.parent a = a) (hb : F.parent b = b)
    (hparent : ∀ x, F'.parent x = if x = b then a else F.parent x) (x : α) :
    F'.root x = if F.root x = b then a else F.root x := by
  have hkept : ∀ y, (if F.root (F'.parent y) = b then a else F.root (F'.parent y)) =
      if F.root y = b then a else F.root y := by
    intro y
    rw [hparent]
    by_cases hy : y = b
    · rw [if_pos hy, hy, F.root_of_fixed ha, F.root_of_fixed hb, if_neg hne, if_pos rfl]
    · rw [if_neg hy, F.root_parent]
  have hfixed := F'.parent_root x
  rw [hparent] at hfixed
  by_cases hroot : F'.root x = b
  · rw [if_pos hroot] at hfixed
    exact absurd (hfixed.trans hroot) hne
  · rw [if_neg hroot] at hfixed
    have hlabel := F'.apply_root (f := fun y => if F.root y = b then a else F.root y) hkept x
    simp only [F.root_of_fixed hfixed, if_neg hroot] at hlabel
    exact hlabel

/-- Two forests with the same parents have the same roots. -/
theorem root_congr {F F' : Forest α} (h : ∀ x, F'.parent x = F.parent x) (x : α) :
    F'.root x = F.root x := by
  have hfixed := F'.parent_root x
  rw [h] at hfixed
  rw [← F'.apply_root (f := F.root) (fun y => by rw [h, F.root_parent]) x,
    F.root_of_fixed hfixed]

/-- The step as a union of two classes. -/
theorem joinsLabels_link {F F' : Forest α} {y : α} (hne : a ≠ b)
    (hends : (F.root x = a ∧ F.root y = b) ∨ (F.root x = b ∧ F.root y = a))
    (hparent : ∀ z, F'.parent z = if z = b then a else F.parent z) :
    JoinsLabels F.root F'.root x y := by
  have ha : F.parent a = a := by
    rcases hends with ⟨h, _⟩ | ⟨_, h⟩ <;> rw [← h] <;> exact F.parent_root _
  have hb : F.parent b = b := by
    rcases hends with ⟨_, h⟩ | ⟨h, _⟩ <;> rw [← h] <;> exact F.parent_root _
  intro u v
  rw [root_link hne ha hb hparent, root_link hne ha hb hparent]
  rcases hends with ⟨hx, hy⟩ | ⟨hx, hy⟩
  · rw [hx, hy]
    grind
  · rw [hx, hy]
    grind

end Forest

end Verity.Foundation
