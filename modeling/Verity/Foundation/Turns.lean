import Mathlib.Data.List.Basic

/-!
# Loops whose turns write and may fail

A turn that fails ends the loop, and what was written until then stays written. The loop answers
with the elements whose turns came to their end. `turns_error_iff` is the rule for when a loop ends
well: where each turn, in the states the loop can be in, fails on the same elements.
-/

set_option autoImplicit false

namespace Verity.Foundation

variable {σ ι ε : Type}

variable {body : σ → ι → σ × Option ε} {s : σ}

/-- Where a loop has ended. -/
structure TurnsEnd (σ ι ε : Type) where
  state : σ
  done : List ι
  error : Option ε

def turns (body : σ → ι → σ × Option ε) : σ → List ι → TurnsEnd σ ι ε
  | s, [] => ⟨s, [], none⟩
  | s, x :: xs =>
    match body s x with
    | (s, some e) => ⟨s, [], some e⟩
    | (s, none) =>
      let rest := turns body s xs
      { rest with done := x :: rest.done }

theorem turns_cons_error {x : ι} {e : ε} (h : (body s x).2 = some e) (xs : List ι) :
    turns body s (x :: xs) = ⟨(body s x).1, [], some e⟩ := by
  have hturn : body s x = ((body s x).1, some e) := Prod.ext rfl h
  rw [turns, hturn]

theorem turns_cons_ok {x : ι} (h : (body s x).2 = none) (xs : List ι) :
    turns body s (x :: xs) = { turns body (body s x).1 xs with
      done := x :: (turns body (body s x).1 xs).done } := by
  have hturn : body s x = ((body s x).1, none) := Prod.ext rfl h
  rw [turns, hturn]

/-- A loop that ends well has taken all its turns. -/
theorem turns_done {xs : List ι} (h : (turns body s xs).error = none) :
    (turns body s xs).done = xs := by
  induction xs generalizing s with
  | nil => rfl
  | cons x xs ih =>
    cases hturn : (body s x).2 with
    | some e =>
      rw [turns_cons_error hturn] at h
      cases h
    | none =>
      rw [turns_cons_ok hturn] at h ⊢
      exact congrArg (List.cons x) (ih h)

/-- What every turn keeps, the loop keeps, however it ends. -/
theorem turns_invariant (body : σ → ι → σ × Option ε) {I : σ → Prop}
    (hbody : ∀ s x, I s → I (body s x).1) (hs : I s) (xs : List ι) : I (turns body s xs).state := by
  induction xs generalizing s with
  | nil => exact hs
  | cons x xs ih =>
    cases h : (body s x).2 with
    | some e =>
      rw [turns_cons_error h]
      exact hbody s x hs
    | none =>
      rw [turns_cons_ok h]
      exact ih (hbody s x hs)

/-- A loop ends well exactly when none of its elements is one that a turn fails on. -/
theorem turns_error_iff {I : σ → Prop} {p : ι → Prop} (hbody : ∀ s x, I s → I (body s x).1)
    (hp : ∀ s x, I s → ((body s x).2 = none ↔ p x)) (hs : I s) (xs : List ι) :
    (turns body s xs).error = none ↔ ∀ x ∈ xs, p x := by
  induction xs generalizing s with
  | nil => exact iff_of_true rfl fun _ hx => absurd hx List.not_mem_nil
  | cons x xs ih =>
    rw [List.forall_mem_cons, ← hp s x hs]
    cases h : (body s x).2 with
    | some e =>
      rw [turns_cons_error h]
      simp
    | none =>
      rw [turns_cons_ok h]
      simp [ih (hbody s x hs)]

end Verity.Foundation
