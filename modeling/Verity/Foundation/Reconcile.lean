import Mathlib.Data.Set.Basic
import Mathlib.Tactic.Tauto
import Verity.Foundation.Run

/-!
# Reconciling a copy by differences

A copy of a set is kept by attempts, one after the other. An attempt wants a set, and delivers the
items on which it differs from the set that is known; a complete attempt leaves what it wanted as
known, one that is cut short leaves the set that was known before, and what is known can be
forgotten as a whole.

No attempt looks at the copy, so an item is right only as long as the known set has it as the copy
does. `mem_copyOf_iff` says which items are not: those on which a cut attempt or a loss of the known
set has set the two apart, and on which what is known has not changed since.
-/

set_option autoImplicit false

namespace Verity.Foundation

variable {α : Type}

/-- How an attempt ends. -/
inductive Ending where
  | complete
  | cut
  | forgotten
deriving DecidableEq, Repr

/-- One attempt: what it wants, what it has delivered, and how it ended. -/
structure Attempt (α : Type) where
  wanted : Set α
  delivered : Set α
  ending : Ending

variable {a : Attempt α} {x : α} {past : List (Attempt α)}

/-- What is known after an attempt. -/
def Attempt.learn (known : Set α) (a : Attempt α) : Set α :=
  match a.ending with
  | .complete => a.wanted
  | .cut => known
  | .forgotten => ∅

/-- What an attempt makes of the copy. -/
def Attempt.copy (s : Set α) (a : Attempt α) : Set α :=
  fun x => (x ∈ a.delivered ∧ x ∈ a.wanted) ∨ (x ∉ a.delivered ∧ x ∈ s)

/-- What is known after a history of attempts, nothing at first. -/
def knownAfter (past : List (Attempt α)) : Set α := past.foldl Attempt.learn ∅

/-- The copy, empty at first. -/
def copyOf (past : List (Attempt α)) : Set α := past.foldl Attempt.copy ∅

/-- An attempt that delivers differences from `known` only, all of them if it is complete, and none
if it forgets. -/
structure Attempt.ByDifference (known : Set α) (a : Attempt α) : Prop where
  differs : ∀ x ∈ a.delivered, ¬ (x ∈ known ↔ x ∈ a.wanted)
  all : a.ending = .complete → ∀ x, ¬ (x ∈ known ↔ x ∈ a.wanted) → x ∈ a.delivered
  idle : a.ending = .forgotten → ∀ x, x ∉ a.delivered

/-- Every attempt delivers differences from what was known when it was made. -/
def ByDifferences (past : List (Attempt α)) : Prop :=
  ∀ before a after, past = before ++ a :: after → a.ByDifference (knownAfter before)

/-- The attempt sets the copy and what is known apart on the item: it was cut after the item was
delivered, or it forgot an item that the copy has. -/
def Parts (before : List (Attempt α)) (a : Attempt α) (x : α) : Prop :=
  (a.ending = .cut ∧ x ∈ a.delivered) ∨ (a.ending = .forgotten ∧ x ∈ copyOf before)

/-- An attempt has set the two apart on the item, and every attempt since has left of it known what
was known then. -/
def Stranded (past : List (Attempt α)) (x : α) : Prop :=
  ∃ before a after, past = before ++ a :: after ∧ Parts before a x ∧
    ∀ b ∈ after, (x ∈ b.learn (knownAfter (before ++ [a])) ↔ x ∈ knownAfter (before ++ [a]))

theorem mem_copy {s : Set α} :
    x ∈ a.copy s ↔ (x ∈ a.delivered ∧ x ∈ a.wanted) ∨ (x ∉ a.delivered ∧ x ∈ s) := Iff.rfl

theorem knownAfter_concat (past : List (Attempt α)) (a : Attempt α) :
    knownAfter (past ++ [a]) = a.learn (knownAfter past) := by
  rw [knownAfter, List.foldl_append]
  rfl

theorem copyOf_concat (past : List (Attempt α)) (a : Attempt α) :
    copyOf (past ++ [a]) = a.copy (copyOf past) := by
  rw [copyOf, List.foldl_append]
  rfl

/-- Of an item, what an attempt leaves known depends on what is known of that item. -/
theorem mem_learn_congr {known known' : Set α} (a : Attempt α) (h : x ∈ known ↔ x ∈ known') :
    x ∈ a.learn known ↔ x ∈ a.learn known' := by
  unfold Attempt.learn
  split
  · exact Iff.rfl
  · exact h
  · exact Iff.rfl

theorem ByDifferences.of_concat (h : ByDifferences (past ++ [a])) :
    ByDifferences past ∧ a.ByDifference (knownAfter past) := by
  constructor
  · rintro before b after rfl
    exact h before b (after ++ [a]) (by simp)
  · exact h past a [] rfl

theorem ByDifferences.concat (h : ByDifferences past) (ha : a.ByDifference (knownAfter past)) :
    ByDifferences (past ++ [a]) := by
  intro before b after hsplit
  rcases split_concat hsplit with ⟨rfl, rfl, rfl⟩ | ⟨older, rfl, rfl⟩
  · exact ha
  · exact h before b older rfl

/-- What is known of an item stays as it is while every attempt leaves of it what was known. -/
theorem knownAfter_of_agree {after : List (Attempt α)}
    (h : ∀ b ∈ after, (x ∈ b.learn (knownAfter past) ↔ x ∈ knownAfter past)) :
    x ∈ knownAfter (past ++ after) ↔ x ∈ knownAfter past := by
  induction after using List.reverseRecOn with
  | nil => rw [List.append_nil]
  | append_singleton after b ih =>
    have hbefore := ih fun c hc => h c (List.mem_append_left _ hc)
    rw [← List.append_assoc, knownAfter_concat]
    exact (mem_learn_congr b hbefore).trans (h b (by simp))

theorem stranded_concat :
    Stranded (past ++ [a]) x ↔
      Parts past a x ∨
        (Stranded past x ∧ (x ∈ a.learn (knownAfter past) ↔ x ∈ knownAfter past)) := by
  constructor
  · rintro ⟨before, b, after, hsplit, hparts, hsince⟩
    rcases split_concat hsplit with ⟨rfl, rfl, rfl⟩ | ⟨older, rfl, rfl⟩
    · exact Or.inl hparts
    · have holder : ∀ c ∈ older, (x ∈ c.learn (knownAfter (before ++ [b])) ↔
          x ∈ knownAfter (before ++ [b])) := fun c hc => hsince c (List.mem_append_left _ hc)
      have hknown := knownAfter_of_agree holder
      rw [List.append_assoc, List.singleton_append] at hknown
      refine Or.inr ⟨⟨before, b, older, rfl, hparts, holder⟩, ?_⟩
      exact (mem_learn_congr a hknown).trans ((hsince a (by simp)).trans hknown.symm)
  · rintro (hparts | ⟨⟨before, b, older, rfl, hparts, holder⟩, hagree⟩)
    · exact ⟨past, a, [], rfl, hparts, by simp⟩
    · have hknown := knownAfter_of_agree holder
      rw [List.append_assoc, List.singleton_append] at hknown
      refine ⟨before, b, older ++ [a], by simp, hparts, ?_⟩
      intro c hc
      rcases List.mem_append.mp hc with hc | hc
      · exact holder c hc
      · obtain rfl := List.mem_singleton.mp hc
        exact (mem_learn_congr c hknown).symm.trans (hagree.trans hknown)

theorem not_stranded_of_complete (h : ∀ a ∈ past, a.ending = .complete) (x : α) :
    ¬ Stranded past x := by
  rintro ⟨before, a, after, rfl, hparts, -⟩
  have hending := h a (by simp)
  rcases hparts with ⟨hcut, -⟩ | ⟨hforgotten, -⟩
  · rw [hending] at hcut
    exact absurd hcut (by simp)
  · rw [hending] at hforgotten
    exact absurd hforgotten (by simp)

/-- The copy is what is known, but for the stranded items, which it has the other way. -/
theorem mem_copyOf_iff (h : ByDifferences past) (x : α) :
    x ∈ copyOf past ↔ (x ∈ knownAfter past ↔ ¬ Stranded past x) := by
  induction past using List.reverseRecOn with
  | nil =>
    have hnot : ¬ Stranded ([] : List (Attempt α)) x := by
      rintro ⟨before, a, after, hsplit, -⟩
      exact absurd hsplit (by simp)
    simp [copyOf, knownAfter, hnot]
  | append_singleton past a ih =>
    obtain ⟨hpast, ha⟩ := h.of_concat
    have hbefore := ih hpast
    have hdiffers := ha.differs x
    rw [copyOf_concat, knownAfter_concat, stranded_concat, mem_copy]
    unfold Parts Attempt.learn
    cases hending : a.ending with
    | complete =>
      have hall := ha.all hending x
      simp only [reduceCtorEq, false_and, or_self, false_or]
      tauto
    | cut =>
      simp only [true_and, reduceCtorEq, false_and, or_false, iff_self, and_true]
      tauto
    | forgotten =>
      have hidle := ha.idle hending x
      simp only [reduceCtorEq, false_and, true_and, false_or, Set.mem_empty_iff_false]
      tauto

end Verity.Foundation
