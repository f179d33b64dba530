import Mathlib.Data.Finset.Dedup
import Mathlib.Order.Bounds.Basic
import Verity.Foundation.Forest
import Verity.Model.EvidenceFold

/-!
# What the union-find computes

The parents of a union-find are a forest (`forestOf`), the search for a root has enough steps to
end at one, and a union joins two classes. So after a run of unions two refs have the same root
if and only if they are connected by the pairs that were united (`findRoot_unions`), and a
component lists the refs connected to any one of them (`mem_components_iff`).

The loop of the source that searches a root has no bound. That it ends is said of the loop itself
(`SearchEnds`): in every state that touches and unions can reach it ends from every ref, at the
root that the model computes, which is the least ref of its class (`roots_of_operations`).
-/

set_option autoImplicit false

namespace Verity.Analysis

open Verity.Foundation Verity.Model

variable {uf : UnionFind} {x y : String}

/-! ## Parents -/

/-- The parent of a ref; a ref that was never touched is its own. -/
def parentOf (uf : UnionFind) (x : String) : String := uf.parent[x]?.getD x

/-- No parent is larger than its child, and the parent of a touched ref is touched. -/
structure Descends (uf : UnionFind) : Prop where
  parent_le : ∀ x, parentOf uf x ≤ x
  parent_mem : ∀ x ∈ uf.members, parentOf uf x ∈ uf.members

theorem mem_members : x ∈ uf.members ↔ x ∈ uf.parent :=
  Std.TreeMap.mem_keys

theorem mem_members_of_parentOf_ne (h : parentOf uf x ≠ x) : x ∈ uf.members := by
  rw [mem_members, ← Std.TreeMap.isSome_getElem?_iff_mem]
  unfold parentOf at h
  cases hx : uf.parent[x]? with
  | none => simp [hx] at h
  | some p => rfl

/-- The parents as a forest. -/
def forestOf (uf : UnionFind) (h : Descends uf) : Forest String where
  parent := parentOf uf
  nodes := uf.members.toFinset
  parent_le := h.parent_le
  mem_nodes := by
    intro x hx
    exact List.mem_toFinset.mpr (mem_members_of_parentOf_ne hx)

theorem climb_eq_iterate (uf : UnionFind) (n : Nat) (x : String) :
    uf.climb n x = (parentOf uf)^[n] x := by
  induction n generalizing x with
  | zero => rfl
  | succ n ih =>
    unfold UnionFind.climb
    rw [Function.iterate_succ_apply]
    cases hx : uf.parent[x]? with
    | none =>
      have hself : parentOf uf x = x := by simp [parentOf, hx]
      rw [hself, Function.iterate_fixed hself]
    | some p =>
      have hparent : parentOf uf x = p := by simp [parentOf, hx]
      dsimp only
      split
      · rw [ih, hparent]
      · rename_i hp
        have hself : parentOf uf x = x := hparent.trans (not_not.mp hp)
        rw [hself, Function.iterate_fixed hself]

/-- The search has as many steps as the forest has nodes. -/
theorem findRoot_eq_root (uf : UnionFind) (h : Descends uf) (x : String) :
    uf.findRoot x = (forestOf uf h).root x := by
  have hcard : (forestOf uf h).nodes.card = uf.parent.size := by
    have hlength : uf.members.length = uf.parent.size := Std.TreeMap.length_keys
    rw [← hlength]
    exact List.toFinset_card_of_nodup uf.members_nodup
  unfold UnionFind.findRoot Forest.root
  rw [climb_eq_iterate, hcard]
  rfl

theorem findRoot_mem (h : Descends uf) (hx : x ∈ uf.members) : uf.findRoot x ∈ uf.members := by
  unfold UnionFind.findRoot
  rw [climb_eq_iterate]
  induction uf.parent.size with
  | zero => exact hx
  | succ n ih =>
    rw [Function.iterate_succ_apply']
    exact h.parent_mem _ ih

/-! ## Touching and uniting -/

theorem descends_empty : Descends .empty := by
  constructor
  · intro x
    simp [parentOf, UnionFind.empty]
  · intro x hx
    simp [UnionFind.members, UnionFind.empty] at hx

theorem parentOf_touch (uf : UnionFind) (x y : String) :
    parentOf (uf.touch x) y = parentOf uf y := by
  unfold parentOf UnionFind.touch
  dsimp only
  rw [Std.TreeMap.getElem?_alter]
  split
  · rename_i hxy
    obtain rfl := compare_eq_iff_eq.mp hxy
    simp
  · rfl

theorem mem_members_touch : y ∈ (uf.touch x).members ↔ y = x ∨ y ∈ uf.members := by
  rw [mem_members, mem_members]
  unfold UnionFind.touch
  dsimp only
  rw [Std.TreeMap.mem_alter]
  by_cases hxy : y = x
  · subst hxy
    simp
  · rw [if_neg (by rw [compare_eq_iff_eq]; exact fun h => hxy h.symm)]
    simp [hxy]

theorem Descends.touch (h : Descends uf) (x : String) : Descends (uf.touch x) := by
  constructor
  · intro y
    rw [parentOf_touch]
    exact h.parent_le y
  · intro y hy
    rw [parentOf_touch, mem_members_touch]
    by_cases hself : parentOf uf y = y
    · rw [hself]
      exact mem_members_touch.mp hy
    · exact Or.inr (h.parent_mem y (mem_members_of_parentOf_ne hself))

theorem findRoot_touch (h : Descends uf) (x y : String) :
    (uf.touch x).findRoot y = uf.findRoot y := by
  rw [findRoot_eq_root _ (h.touch x), findRoot_eq_root _ h]
  exact Forest.root_congr (fun z => parentOf_touch uf x z) y

/-- One parent is replaced. -/
theorem parentOf_insert (uf : UnionFind) (child parent y : String) :
    parentOf ⟨uf.parent.insert child parent⟩ y = if y = child then parent else parentOf uf y := by
  unfold parentOf
  dsimp only
  rw [Std.TreeMap.getElem?_insert]
  by_cases hy : y = child
  · subst hy
    simp
  · rw [if_neg hy, if_neg (by rw [compare_eq_iff_eq]; exact fun h => hy h.symm)]

theorem mem_members_insert {child parent : String} (hchild : child ∈ uf.members) :
    y ∈ UnionFind.members ⟨uf.parent.insert child parent⟩ ↔ y ∈ uf.members := by
  rw [mem_members, mem_members, Std.TreeMap.mem_insert, compare_eq_iff_eq]
  constructor
  · rintro (rfl | hy)
    · exact mem_members.mp hchild
    · exact hy
  · exact Or.inr

theorem descends_insert (h : Descends uf) {child parent : String} (hle : parent ≤ child)
    (hchild : child ∈ uf.members) (hparent : parent ∈ uf.members) :
    Descends ⟨uf.parent.insert child parent⟩ := by
  constructor
  · intro y
    rw [parentOf_insert]
    split
    · rename_i hy
      rw [hy]
      exact hle
    · exact h.parent_le y
  · intro y hy
    rw [mem_members_insert hchild] at hy ⊢
    rw [parentOf_insert]
    split
    · exact hparent
    · exact h.parent_mem y hy

/-- The two refs of a union are touched first. -/
theorem Descends.touched (h : Descends uf) (x y : String) :
    Descends ((uf.touch x).touch y) ∧ ((uf.touch x).touch y).findRoot x ∈
      ((uf.touch x).touch y).members ∧
      ((uf.touch x).touch y).findRoot y ∈ ((uf.touch x).touch y).members := by
  have htouched := (h.touch x).touch y
  refine ⟨htouched, findRoot_mem htouched ?_, findRoot_mem htouched ?_⟩
  · exact mem_members_touch.mpr (Or.inr (mem_members_touch.mpr (Or.inl rfl)))
  · exact mem_members_touch.mpr (Or.inl rfl)

theorem Descends.union (h : Descends uf) (x y : String) : Descends (uf.union x y) := by
  obtain ⟨htouched, hx, hy⟩ := h.touched x y
  unfold UnionFind.union
  dsimp only
  split
  · exact htouched
  · split
    · rename_i hle
      exact descends_insert htouched hle hy hx
    · rename_i hle
      exact descends_insert htouched (le_of_lt (not_le.mp hle)) hx hy

/-- One root is pointed at a smaller one. -/
theorem joinsLabels_insert (h : Descends uf) {a b : String} (hne : a ≠ b)
    (hinsert : Descends ⟨uf.parent.insert b a⟩)
    (hends : (uf.findRoot x = a ∧ uf.findRoot y = b) ∨ (uf.findRoot x = b ∧ uf.findRoot y = a)) :
    JoinsLabels uf.findRoot (UnionFind.findRoot ⟨uf.parent.insert b a⟩) x y := by
  rw [funext (findRoot_eq_root uf h), funext (findRoot_eq_root _ hinsert)]
  simp only [findRoot_eq_root uf h] at hends
  exact Forest.joinsLabels_link hne hends fun z => parentOf_insert uf b a z

/-- A union joins the classes of its two refs. -/
theorem joinsLabels_union (h : Descends uf) (x y : String) :
    JoinsLabels uf.findRoot (uf.union x y).findRoot x y := by
  obtain ⟨htouched, hx, hy⟩ := h.touched x y
  have hroot : ((uf.touch x).touch y).findRoot = uf.findRoot := by
    funext z
    rw [findRoot_touch (h.touch x), findRoot_touch h]
  rw [← hroot]
  unfold UnionFind.union
  dsimp only
  split
  · rename_i heq
    exact joinsLabels_of_eq heq
  · rename_i hne
    split
    · rename_i hle
      exact joinsLabels_insert htouched hne (descends_insert htouched hle hy hx)
        (Or.inl ⟨rfl, rfl⟩)
    · rename_i hle
      exact joinsLabels_insert htouched (Ne.symm hne)
        (descends_insert htouched (le_of_lt (not_le.mp hle)) hx hy) (Or.inr ⟨rfl, rfl⟩)

theorem mem_members_union (h : Descends uf) {z : String} :
    z ∈ (uf.union x y).members ↔ z = x ∨ z = y ∨ z ∈ uf.members := by
  obtain ⟨_, hx, hy⟩ := h.touched x y
  have htouched : z ∈ ((uf.touch x).touch y).members ↔ z = x ∨ z = y ∨ z ∈ uf.members := by
    rw [mem_members_touch, mem_members_touch]
    tauto
  rw [← htouched]
  unfold UnionFind.union
  dsimp only
  split
  · rfl
  · split
    · exact mem_members_insert hy
    · exact mem_members_insert hx

/-! ## Runs of unions and the components they leave -/

/-- The unions of a list of pairs, in order. -/
def unions (uf : UnionFind) (edges : List (String × String)) : UnionFind :=
  edges.foldl (fun uf e => uf.union e.1 e.2) uf

theorem Descends.unions (h : Descends uf) (edges : List (String × String)) :
    Descends (unions uf edges) := by
  induction edges generalizing uf with
  | nil => exact h
  | cons e edges ih => exact ih (h.union e.1 e.2)

/-- Two refs have one root after a run of unions if and only if they are connected. -/
theorem findRoot_unions (h : Descends uf) (edges : List (String × String)) (x y : String) :
    (unions uf edges).findRoot x = (unions uf edges).findRoot y ↔
      ConnectedOver uf.findRoot edges x y :=
  labels_foldl UnionFind.findRoot (fun _ e hs => hs.union e.1 e.2)
    (fun _ e hs => joinsLabels_union hs e.1 e.2) edges h x y

theorem mem_members_unions (h : Descends uf) (edges : List (String × String)) (z : String) :
    z ∈ (unions uf edges).members ↔
      z ∈ uf.members ∨ ∃ e ∈ edges, z = e.1 ∨ z = e.2 := by
  induction edges generalizing uf with
  | nil => simp [unions]
  | cons e edges ih =>
    show z ∈ (unions (uf.union e.1 e.2) edges).members ↔ _
    rw [ih (h.union e.1 e.2), mem_members_union h]
    simp only [List.mem_cons, exists_eq_or_imp]
    rw [← or_assoc (a := z = e.1), or_comm (a := z = e.1 ∨ z = e.2), or_assoc]

/-- A component holds the refs that share the root of one of them. -/
theorem mem_components_iff {component : List String} :
    component ∈ uf.components ↔ ∃ x ∈ uf.members,
      component = uf.members.filter fun ref => uf.findRoot ref = uf.findRoot x := by
  unfold UnionFind.components
  simp only [List.mem_map, mem_sortDedup]
  constructor
  · rintro ⟨root, ⟨x, hx, rfl⟩, rfl⟩
    exact ⟨x, hx, rfl⟩
  · rintro ⟨x, hx, rfl⟩
    exact ⟨uf.findRoot x, ⟨x, hx, rfl⟩, rfl⟩

/-! ## The order of the components -/

theorem findRoot_le (h : Descends uf) (x : String) : uf.findRoot x ≤ x := by
  unfold UnionFind.findRoot
  rw [climb_eq_iterate]
  induction uf.parent.size with
  | zero => exact le_rfl
  | succ n ih =>
    rw [Function.iterate_succ_apply']
    exact (h.parent_le _).trans ih

theorem findRoot_findRoot (h : Descends uf) (x : String) :
    uf.findRoot (uf.findRoot x) = uf.findRoot x := by
  rw [findRoot_eq_root uf h (uf.findRoot x), findRoot_eq_root uf h x]
  exact (forestOf uf h).root_of_fixed ((forestOf uf h).parent_root x)

theorem members_sorted (uf : UnionFind) : uf.members.Pairwise (· < ·) := by
  refine List.Pairwise.imp ?_ uf.parent.ordered_keys
  intro a b hab
  exact compare_lt_iff_lt.mp hab

/-- A component is sorted, so its refs decide it. -/
theorem sorted_of_mem_components {component : List String} (h : component ∈ uf.components) :
    component.Pairwise (· < ·) := by
  obtain ⟨x, -, rfl⟩ := mem_components_iff.mp h
  exact (members_sorted uf).filter _

/-- One of the refs of the first list is less than every ref of the second. -/
def Precedes (component component' : List String) : Prop :=
  ∃ x ∈ component, ∀ y ∈ component', x < y

instance : Std.Irrefl Precedes where
  irrefl := by
    rintro component ⟨x, hx, hleast⟩
    exact lt_irrefl x (hleast x hx)

instance : Std.Antisymm Precedes where
  antisymm := by
    rintro component component' ⟨x, hx, hleast⟩ ⟨y, hy, hleast'⟩
    exact absurd ((hleast y hy).trans (hleast' x hx)) (lt_irrefl x)

/-- The components are listed by their roots, which are their least refs. -/
theorem components_ordered (h : Descends uf) : uf.components.Pairwise Precedes := by
  unfold UnionFind.components
  refine List.pairwise_map.mpr ?_
  refine List.Pairwise.imp_of_mem ?_ (sortDedup_sorted _)
  intro root root' hroot _ hlt
  obtain ⟨x, hx, rfl⟩ := List.mem_map.mp (mem_sortDedup.mp hroot)
  refine ⟨uf.findRoot x, ?_, ?_⟩
  · rw [List.mem_filter, decide_eq_true_eq]
    exact ⟨findRoot_mem h hx, findRoot_findRoot h x⟩
  · intro y hy
    have hy' : uf.findRoot y = root' := by simpa using (List.mem_filter.mp hy).2
    exact hlt.trans_le (hy' ▸ findRoot_le h y)

/-! ## The loop of the search -/

/-- One turn of the loop: the ref it goes on with, if it goes on. SOURCE: fold.rs:1128-1131 -/
def searchTurn (uf : UnionFind) (cur : String) : Option String :=
  match uf.parent[cur]? with
  | some p => if p ≠ cur then some p else none
  | none => none

/-- The loop, started at a ref, ends and returns. -/
inductive SearchEnds (uf : UnionFind) : String → String → Prop where
  | returns {cur : String} (h : searchTurn uf cur = none) : SearchEnds uf cur cur
  | turn {cur p root : String} (h : searchTurn uf cur = some p) (rest : SearchEnds uf p root) :
      SearchEnds uf cur root

theorem searchTurn_eq_none_iff {cur : String} :
    searchTurn uf cur = none ↔ parentOf uf cur = cur := by
  unfold searchTurn parentOf
  cases uf.parent[cur]? with
  | none => simp
  | some p => simp

theorem searchTurn_eq_some {cur : String} (h : parentOf uf cur ≠ cur) :
    searchTurn uf cur = some (parentOf uf cur) := by
  unfold searchTurn
  unfold parentOf at h ⊢
  cases hcur : uf.parent[cur]? with
  | none => simp [hcur] at h
  | some p =>
    rw [hcur] at h
    exact if_pos h

theorem SearchEnds.unique {root root' : String} (h : SearchEnds uf x root)
    (h' : SearchEnds uf x root') : root = root' := by
  induction h with
  | returns hstop =>
    cases h' with
    | returns _ => rfl
    | turn hturn _ => simp [hstop] at hturn
  | turn hturn _ ih =>
    cases h' with
    | returns hstop => simp [hstop] at hturn
    | turn hturn' rest =>
      rw [hturn] at hturn'
      obtain rfl := Option.some.inj hturn'
      exact ih rest

/-- Where so many steps up lead to a ref that is its own parent, the loop ends there. -/
theorem searchEnds_iterate {n : Nat} (h : parentOf uf ((parentOf uf)^[n] x) = (parentOf uf)^[n] x) :
    SearchEnds uf x ((parentOf uf)^[n] x) := by
  induction n generalizing x with
  | zero => exact .returns (searchTurn_eq_none_iff.mpr h)
  | succ n ih =>
    rw [Function.iterate_succ_apply] at h ⊢
    by_cases hself : parentOf uf x = x
    · rw [hself] at h ⊢
      exact ih h
    · exact .turn (searchTurn_eq_some hself) (ih h)

/-- The loop ends from every ref, at the root of the model and nowhere else. -/
theorem searchEnds_iff (h : Descends uf) (x root : String) :
    SearchEnds uf x root ↔ root = uf.findRoot x := by
  have hends : SearchEnds uf x (uf.findRoot x) := by
    have hfixed := (forestOf uf h).parent_root x
    rw [findRoot_eq_root uf h]
    exact searchEnds_iterate hfixed
  constructor
  · intro hroot
    exact hroot.unique hends
  · rintro rfl
    exact hends

/-! ## Any order of touches and unions -/

/-- What the fold does with a union-find. -/
inductive Operation where
  | touch (x : String)
  | union (x y : String)

namespace Operation

def apply (uf : UnionFind) : Operation → UnionFind
  | touch x => uf.touch x
  | union x y => uf.union x y

/-- The pairs that were united. -/
def united : List Operation → List (String × String)
  | [] => []
  | touch _ :: ops => united ops
  | union x y :: ops => (x, y) :: united ops

/-- The state after a sequence of operations on the empty structure. -/
def run (ops : List Operation) : UnionFind := ops.foldl apply .empty

end Operation

theorem Descends.apply (h : Descends uf) (op : Operation) : Descends (op.apply uf) := by
  cases op with
  | touch x => exact h.touch x
  | union x y => exact h.union x y

theorem Descends.foldl_apply (h : Descends uf) (ops : List Operation) :
    Descends (ops.foldl Operation.apply uf) := by
  induction ops generalizing uf with
  | nil => exact h
  | cons op ops ih => exact ih (h.apply op)

/-- A touch changes no root and a union joins two classes, wherever they stand in the sequence. -/
theorem findRoot_foldl_apply (h : Descends uf) (ops : List Operation) (x y : String) :
    (ops.foldl Operation.apply uf).findRoot x = (ops.foldl Operation.apply uf).findRoot y ↔
      ConnectedOver uf.findRoot (Operation.united ops) x y := by
  induction ops generalizing uf with
  | nil => rw [Operation.united, connectedOver_nil, List.foldl_nil]
  | cons op ops ih =>
    rw [List.foldl_cons, ih (h.apply op)]
    cases op with
    | touch z =>
      have hroots : (uf.touch z).findRoot = uf.findRoot := funext (findRoot_touch h z)
      rw [Operation.apply, hroots, Operation.united]
    | union u v => exact connectedOver_cons (joinsLabels_union h u v) _ x y

/-- After every sequence of touches and unions the parents descend, the search ends from every
ref, two refs have one root exactly when the unions connect them, and the root is the least of
its class. -/
theorem roots_of_operations (ops : List Operation) :
    (∀ child parent : String, (Operation.run ops).parent[child]? = some parent → parent ≤ child) ∧
      (∀ x root : String, SearchEnds (Operation.run ops) x root ↔
        root = (Operation.run ops).findRoot x) ∧
      (∀ x y : String, (Operation.run ops).findRoot x = (Operation.run ops).findRoot y ↔
        Connected (Operation.united ops) x y) ∧
      ∀ x : String, IsLeast { y | Connected (Operation.united ops) x y }
        ((Operation.run ops).findRoot x) := by
  have hdescends : Descends (Operation.run ops) := descends_empty.foldl_apply ops
  have hclass : ∀ x y, (Operation.run ops).findRoot x = (Operation.run ops).findRoot y ↔
      Connected (Operation.united ops) x y := by
    intro x y
    have hinjective : Function.Injective UnionFind.empty.findRoot := fun _ _ h => h
    rw [← connectedOver_of_injective hinjective]
    exact findRoot_foldl_apply descends_empty ops x y
  refine ⟨?_, searchEnds_iff hdescends, hclass, ?_⟩
  · intro child parent hparent
    have hle := hdescends.parent_le child
    rw [parentOf, hparent] at hle
    exact hle
  · intro x
    constructor
    · exact (hclass x _).mp (findRoot_findRoot hdescends x).symm
    · intro y hy
      rw [(hclass x y).mpr hy]
      exact findRoot_le hdescends y

end Verity.Analysis
