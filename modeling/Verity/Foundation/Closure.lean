import Mathlib.Data.List.Basic
import Mathlib.Logic.Relation

/-!
# Reachability in a finite, changing graph

A finite graph is a list of edges. `reachSet` computes the nodes that a node reaches, by
adding the targets of outgoing edges until nothing is added; `mem_reachSet_iff` says that it
is the reflexive transitive closure. As many rounds as there are edges suffice: a round that
adds anything reaches the target of an edge that was not reached before.

`reach_without_edge` is what removing one edge can do to reachability: whatever reached a
node `b` still does, or the target of the removed edge does.
-/

set_option autoImplicit false

namespace Verity.Foundation

open Relation

variable {α : Type}

variable {edges : List (α × α)} {a b : α}

/-- One node reaches another along the edges of the list. -/
def Reach (edges : List (α × α)) (a b : α) : Prop :=
  ReflTransGen (fun x y => (x, y) ∈ edges) a b

theorem Reach.mono {edges' : List (α × α)} (h : ∀ e ∈ edges, e ∈ edges') (hab : Reach edges a b) :
    Reach edges' a b :=
  ReflTransGen.mono (fun x y hxy => h (x, y) hxy) a b hab

/-- Removing edges into `g` leaves what reached `b` in place, or `g` reaches `b` without
them. -/
theorem reach_without_edge {edges' : List (α × α)} {g : α}
    (h : ∀ x y, (x, y) ∈ edges → (x, y) ∈ edges' ∨ y = g) (hab : Reach edges a b) :
    Reach edges' a b ∨ Reach edges' g b := by
  induction hab using ReflTransGen.head_induction_on with
  | refl => exact Or.inl ReflTransGen.refl
  | head hac _ ih =>
    rcases ih with hcb | hgb
    · rcases h _ _ hac with hac | rfl
      · exact Or.inl (ReflTransGen.head hac hcb)
      · exact Or.inr hcb
    · exact Or.inr hgb

section Closure

variable [DecidableEq α]

/-- The edges that lead out of a set of nodes. -/
def leaving (edges : List (α × α)) (set : List α) : List (α × α) :=
  edges.filter fun e => e.1 ∈ set ∧ e.2 ∉ set

/-- The set, with the targets of the edges that lead out of it. -/
def expand (edges : List (α × α)) (set : List α) : List α :=
  set ++ (leaving edges set).map Prod.snd

/-- `n` rounds of `expand`. -/
def saturate (edges : List (α × α)) : Nat → List α → List α
  | 0, set => set
  | n + 1, set => saturate edges n (expand edges set)

/-- The nodes that `a` reaches. -/
def reachSet (edges : List (α × α)) (a : α) : List α :=
  saturate edges edges.length [a]

/-- The edges whose target is not in the set yet: each round that adds a node has fewer. -/
def unreached (edges : List (α × α)) (set : List α) : List (α × α) :=
  edges.filter fun e => e.2 ∉ set

theorem subset_saturate (edges : List (α × α)) (n : Nat) (set : List α) :
    ∀ x ∈ set, x ∈ saturate edges n set := by
  induction n generalizing set with
  | zero => exact fun x hx => hx
  | succ n ih =>
    intro x hx
    exact ih (expand edges set) x (List.mem_append_left _ hx)

theorem reach_of_mem_saturate (n : Nat) (set : List α) (hset : ∀ x ∈ set, Reach edges a x) :
    ∀ x ∈ saturate edges n set, Reach edges a x := by
  induction n generalizing set with
  | zero => exact hset
  | succ n ih =>
    apply ih
    intro x hx
    rcases List.mem_append.mp hx with hx | hx
    · exact hset x hx
    · obtain ⟨e, he, rfl⟩ := List.mem_map.mp hx
      simp only [leaving, List.mem_filter, decide_eq_true_eq] at he
      exact ReflTransGen.tail (hset e.1 he.2.1) he.1

theorem saturate_of_closed {set : List α} (h : leaving edges set = []) (n : Nat) :
    saturate edges n set = set := by
  induction n with
  | zero => rfl
  | succ n ih =>
    show saturate edges n (set ++ (leaving edges set).map Prod.snd) = set
    rw [h, List.map_nil, List.append_nil, ih]

/-- Enough rounds leave no edge that leads out. -/
theorem leaving_saturate (n : Nat) (set : List α) (hn : (unreached edges set).length ≤ n) :
    leaving edges (saturate edges n set) = [] := by
  induction n generalizing set with
  | zero =>
    have hnil : unreached edges set = [] := List.length_eq_zero_iff.mp (Nat.le_zero.mp hn)
    rw [unreached, List.filter_eq_nil_iff] at hnil
    show leaving edges set = []
    rw [leaving, List.filter_eq_nil_iff]
    intro e he hleaves
    simp only [decide_eq_true_eq] at hleaves
    exact hnil e he (by simpa using hleaves.2)
  | succ n ih =>
    by_cases hclosed : leaving edges set = []
    · rw [saturate_of_closed hclosed]
      exact hclosed
    · apply ih
      -- some edge leads out, so its target is new and the edge is reached now
      obtain ⟨e, he⟩ := List.exists_mem_of_ne_nil _ hclosed
      have hmem := he
      simp only [leaving, List.mem_filter, decide_eq_true_eq] at hmem
      have hnew : e.2 ∈ expand edges set :=
        List.mem_append_right _ (List.mem_map.mpr ⟨e, he, rfl⟩)
      have hunreached : unreached edges (expand edges set) =
          (unreached edges set).filter fun e => e.2 ∉ expand edges set := by
        rw [unreached, unreached, List.filter_filter]
        apply List.filter_congr
        intro e' _
        by_cases hin : e'.2 ∈ expand edges set
        · simp [hin]
        · have hout : e'.2 ∉ set := fun h => hin (List.mem_append_left _ h)
          simp [hin, hout]
      have hlt : (unreached edges (expand edges set)).length < (unreached edges set).length := by
        rw [hunreached]
        apply List.length_filter_lt_length_iff_exists.mpr
        refine ⟨e, ?_, by simpa using hnew⟩
        rw [unreached, List.mem_filter]
        exact ⟨hmem.1, by simpa using hmem.2.2⟩
      omega

/-- The computed set is the reflexive transitive closure of the edges. -/
theorem mem_reachSet_iff : b ∈ reachSet edges a ↔ Reach edges a b := by
  constructor
  · apply reach_of_mem_saturate
    intro x hx
    rw [List.mem_singleton.mp hx]
    exact ReflTransGen.refl
  · intro hab
    have hclosed : leaving edges (reachSet edges a) = [] :=
      leaving_saturate _ _ (List.length_filter_le _ _)
    rw [leaving, List.filter_eq_nil_iff] at hclosed
    induction hab with
    | refl => exact subset_saturate _ _ _ a (List.mem_singleton.mpr rfl)
    | tail _ hbc ih =>
      by_contra hnot
      exact hclosed _ hbc (by simpa using ⟨ih, hnot⟩)

instance (edges : List (α × α)) (a b : α) : Decidable (Reach edges a b) :=
  decidable_of_iff _ mem_reachSet_iff

end Closure

end Verity.Foundation

/-! ## Depth-first search with a stack

`search` takes a node from the stack; one that is not visited yet is, and the targets of its edges
go onto the stack. A turn either takes a visited node away or opens a node whose edges are never
looked at again, so there are at most as many turns as edges and nodes on the stack at first, and
`mem_search_iff` says that the search ends with the nodes that the start reaches.
-/

namespace Verity.Foundation

open Relation

variable {α : Type} [DecidableEq α]

variable {edges : List (α × α)} {a : α} {visited stack : List α}

/-- The targets of the edges that leave a node, in the order of the edges. -/
def targets (edges : List (α × α)) (a : α) : List α :=
  (edges.filter fun e => e.1 = a).map Prod.snd

/-- At most `fuel` turns of the search, with the top of the stack first. -/
def search (edges : List (α × α)) : (fuel : Nat) → (stack visited : List α) → List α
  | 0, _, visited => visited
  | _ + 1, [], visited => visited
  | fuel + 1, a :: stack, visited =>
    if a ∈ visited then search edges fuel stack visited
    else search edges fuel ((targets edges a).reverse ++ stack) (a :: visited)

/-- The edges of the nodes that are not visited yet. -/
def unopened (edges : List (α × α)) (visited : List α) : List (α × α) :=
  edges.filter fun e => e.1 ∉ visited

theorem mem_targets {b : α} : b ∈ targets edges a ↔ (a, b) ∈ edges := by
  unfold targets
  rw [List.mem_map]
  constructor
  · rintro ⟨e, he, rfl⟩
    obtain ⟨hmem, ha⟩ := List.mem_filter.mp he
    rw [← of_decide_eq_true ha]
    exact hmem
  · intro h
    exact ⟨(a, b), List.mem_filter.mpr ⟨h, decide_eq_true rfl⟩, rfl⟩

/-- Opening a node takes its edges out of those not opened yet. -/
theorem length_unopened_cons (edges : List (α × α)) (h : a ∉ visited) :
    (unopened edges visited).length =
      (targets edges a).length + (unopened edges (a :: visited)).length := by
  unfold unopened targets
  rw [List.length_map]
  induction edges with
  | nil => rfl
  | cons e edges ih =>
    simp only [List.filter_cons, List.mem_cons, not_or] at ih ⊢
    by_cases hea : e.1 = a
    · have hout : e.1 ∉ visited := by rw [hea]; exact h
      simp only [hea, h, not_false_eq_true, not_true, false_and, decide_true, decide_false,
        if_true, Bool.false_eq_true, if_false, List.length_cons, ih]
      omega
    · by_cases hin : e.1 ∈ visited
      · simp only [hea, hin, not_true, and_false, decide_false, Bool.false_eq_true, if_false, ih]
      · simp only [hea, hin, not_false_eq_true, and_self, decide_true, decide_false, if_true,
          Bool.false_eq_true, if_false, List.length_cons, ih]
        omega

theorem mem_search_of_visited (fuel : Nat) (h : a ∈ visited) :
    a ∈ search edges fuel stack visited := by
  induction fuel generalizing stack visited with
  | zero => exact h
  | succ fuel ih =>
    cases stack with
    | nil => exact h
    | cons b stack =>
      unfold search
      split
      · exact ih h
      · exact ih (List.mem_cons_of_mem b h)

/-- The search only comes to nodes that the start reaches. -/
theorem reach_of_mem_search (fuel : Nat) (hstack : ∀ x ∈ stack, Reach edges a x)
    (hvisited : ∀ x ∈ visited, Reach edges a x) :
    ∀ x ∈ search edges fuel stack visited, Reach edges a x := by
  induction fuel generalizing stack visited with
  | zero => exact hvisited
  | succ fuel ih =>
    cases stack with
    | nil => exact hvisited
    | cons b stack =>
      have hb := hstack b List.mem_cons_self
      have hrest : ∀ x ∈ stack, Reach edges a x :=
        fun x hx => hstack x (List.mem_cons_of_mem b hx)
      unfold search
      split
      · exact ih hrest hvisited
      · refine ih ?_ ?_
        · intro x hx
          rcases List.mem_append.mp hx with hx | hx
          · exact hb.tail (mem_targets.mp (List.mem_reverse.mp hx))
          · exact hrest x hx
        · intro x hx
          rcases List.mem_cons.mp hx with rfl | hx
          · exact hb
          · exact hvisited x hx

/-- The targets of a visited node are visited, or on the stack. -/
def Opened (edges : List (α × α)) (stack visited : List α) : Prop :=
  ∀ x ∈ visited, ∀ y, (x, y) ∈ edges → y ∈ visited ∨ y ∈ stack

omit [DecidableEq α] in
theorem Opened.drop (h : Opened edges (a :: stack) visited) (ha : a ∈ visited) :
    Opened edges stack visited := by
  intro x hx y hxy
  rcases h x hx y hxy with hy | hy
  · exact Or.inl hy
  · rcases List.mem_cons.mp hy with rfl | hy
    · exact Or.inl ha
    · exact Or.inr hy

theorem Opened.push (h : Opened edges (a :: stack) visited) :
    Opened edges ((targets edges a).reverse ++ stack) (a :: visited) := by
  intro x hx y hxy
  rcases List.mem_cons.mp hx with rfl | hx
  · have hy := List.mem_reverse.mpr (mem_targets.mpr hxy)
    exact Or.inr (List.mem_append_left _ hy)
  · rcases h x hx y hxy with hy | hy
    · exact Or.inl (List.mem_cons_of_mem a hy)
    · rcases List.mem_cons.mp hy with rfl | hy
      · exact Or.inl List.mem_cons_self
      · exact Or.inr (List.mem_append_right _ hy)

/-- With turns enough, the search visits all it was given and every target of a node it visits. -/
theorem search_complete (fuel : Nat) (hfuel : stack.length + (unopened edges visited).length ≤ fuel)
    (hopen : Opened edges stack visited) :
    (∀ x, x ∈ visited ∨ x ∈ stack → x ∈ search edges fuel stack visited) ∧
      Opened edges [] (search edges fuel stack visited) := by
  induction fuel generalizing stack visited with
  | zero =>
    obtain rfl : stack = [] := List.length_eq_zero_iff.mp (by omega)
    unfold search
    exact ⟨by simp, hopen⟩
  | succ fuel ih =>
    cases stack with
    | nil =>
      unfold search
      exact ⟨by simp, hopen⟩
    | cons a stack =>
      rw [List.length_cons] at hfuel
      unfold search
      split
      · rename_i ha
        obtain ⟨hall, hclosed⟩ := ih (by omega) (hopen.drop ha)
        refine ⟨?_, hclosed⟩
        rintro x (hx | hx)
        · exact hall x (Or.inl hx)
        · rcases List.mem_cons.mp hx with rfl | hx
          · exact hall x (Or.inl ha)
          · exact hall x (Or.inr hx)
      · rename_i ha
        have hcount := length_unopened_cons edges ha
        have hroom : ((targets edges a).reverse ++ stack).length +
            (unopened edges (a :: visited)).length ≤ fuel := by
          rw [List.length_append, List.length_reverse]
          omega
        obtain ⟨hall, hclosed⟩ := ih hroom hopen.push
        refine ⟨?_, hclosed⟩
        rintro x (hx | hx)
        · exact hall x (Or.inl (List.mem_cons_of_mem a hx))
        · rcases List.mem_cons.mp hx with rfl | hx
          · exact hall x (Or.inl List.mem_cons_self)
          · exact hall x (Or.inr (List.mem_append_right _ hx))

/-- The search from a node ends with the nodes it reaches. -/
theorem mem_search_iff {fuel : Nat} (hfuel : edges.length + 1 ≤ fuel) {b : α} :
    b ∈ search edges fuel [a] [] ↔ Reach edges a b := by
  constructor
  · refine reach_of_mem_search fuel ?_ (by simp) b
    intro x hx
    rw [List.mem_singleton.mp hx]
    exact ReflTransGen.refl
  · have hlen : (unopened edges []).length ≤ edges.length := List.length_filter_le _ _
    have hroom : [a].length + (unopened edges []).length ≤ fuel := by
      rw [List.length_singleton]
      omega
    have hopen : Opened edges [a] [] := fun x hx => absurd hx (by simp)
    obtain ⟨hall, hclosed⟩ := search_complete fuel hroom hopen
    intro hab
    induction hab with
    | refl => exact hall a (Or.inr (List.mem_singleton.mpr rfl))
    | tail _ hbc ih => exact (hclosed _ ih _ hbc).resolve_right (by simp)

end Verity.Foundation
