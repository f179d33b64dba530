import Mathlib.Data.List.Basic
import Mathlib.Logic.Relation
import Mathlib.Order.Lattice

/-!
# Labels

A label says who may read a piece of data and how sensitive it is: an audience, and a level of
a linear order. Data that is made from other data carries a label that lies under theirs: its
audience is part of each audience, and its level is at least each level. `meet` is the label
for data made from two sources, `meetAll` for data made from many.
-/

set_option autoImplicit false

namespace Verity.Foundation

/-- An audience and a level. -/
structure Label (α κ : Type) where
  audience : List α
  level : κ

namespace Label

variable {α κ : Type} [LinearOrder κ]

/-- Nobody reads under `l` who does not read under `m`, and `l` is at least as sensitive. -/
def Under (l m : Label α κ) : Prop := l.audience ⊆ m.audience ∧ m.level ≤ l.level

theorem Under.refl (l : Label α κ) : l.Under l := ⟨List.Subset.refl _, le_refl _⟩

theorem Under.trans {l m n : Label α κ} (h : l.Under m) (h' : m.Under n) : l.Under n :=
  ⟨List.Subset.trans h.1 h'.1, le_trans h'.2 h.2⟩

section Meet

variable [DecidableEq α]

/-- The label of what is made from data under `l` and data under `m`. -/
def meet (l m : Label α κ) : Label α κ where
  audience := l.audience.filter (· ∈ m.audience)
  level := max l.level m.level

theorem meet_under_left (l m : Label α κ) : (l.meet m).Under l :=
  ⟨List.filter_subset_self _, le_max_left _ _⟩

theorem meet_under_right (l m : Label α κ) : (l.meet m).Under m := by
  refine ⟨?_, le_max_right _ _⟩
  intro x hx
  simpa using (List.mem_filter.mp hx).2

/-- The label of what is made from data under `l` and under each of `ms`. -/
def meetAll (l : Label α κ) (ms : List (Label α κ)) : Label α κ := ms.foldl meet l

theorem meetAll_under_start (l : Label α κ) (ms : List (Label α κ)) : (l.meetAll ms).Under l := by
  induction ms generalizing l with
  | nil => exact Under.refl l
  | cons m ms ih => exact (ih (l.meet m)).trans (meet_under_left l m)

theorem meetAll_under_mem (l : Label α κ) {ms : List (Label α κ)} {m : Label α κ}
    (hm : m ∈ ms) : (l.meetAll ms).Under m := by
  induction ms generalizing l with
  | nil => exact absurd hm List.not_mem_nil
  | cons m' ms ih =>
    rcases List.mem_cons.mp hm with rfl | hm
    · exact (meetAll_under_start (l.meet m) ms).trans (meet_under_right l m)
    · exact ih (l.meet m') hm

end Meet

/-- A relation along which labels lie under one another does so along its chains. -/
theorem under_of_transGen {ι : Type} {label : ι → Label α κ} {r : ι → ι → Prop}
    (h : ∀ i j, r i j → (label i).Under (label j)) {i j : ι} (hij : Relation.TransGen r i j) :
    (label i).Under (label j) := by
  induction hij with
  | single hstep => exact h _ _ hstep
  | tail _ hstep ih => exact ih.trans (h _ _ hstep)

end Label

end Verity.Foundation
