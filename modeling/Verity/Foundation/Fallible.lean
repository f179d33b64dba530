import Mathlib.Data.List.Forall2
import Mathlib.Logic.Basic

/-!
# Computations that may fail

A computation that ends well has ended well at each of its steps. For a loop this gives the rule
for invariants: what holds at the start, and is kept by every step that succeeds, holds at the
end of a loop that succeeds.
-/

set_option autoImplicit false

namespace Verity.Foundation

variable {ε α β σ : Type}

variable {x : Except ε α} {f : α → Except ε β} {b : β} {e : ε} {a : α}

theorem exists_of_bind_eq_ok (h : x >>= f = .ok b) : ∃ a, x = .ok a ∧ f a = .ok b := by
  cases x with
  | error e => exact absurd h (by simp [bind, Except.bind])
  | ok a => exact ⟨a, rfl, h⟩

theorem except_bind_eq_ok_iff : x.bind f = .ok b ↔ ∃ a, x = .ok a ∧ f a = .ok b := by
  cases x <;> simp [Except.bind]

theorem except_bind_eq_error_iff :
    x.bind f = .error e ↔ x = .error e ∨ ∃ a, x = .ok a ∧ f a = .error e := by
  cases x <;> simp [Except.bind]

theorem except_map_eq_ok_iff {f : α → β} : x.map f = .ok b ↔ ∃ a, x = .ok a ∧ f a = b := by
  cases x <;> simp [Except.map]

theorem toOption_eq_some_iff : x.toOption = some a ↔ x = .ok a := by
  cases x <;> simp [Except.toOption]

/-- `Option::ok_or`. -/
def okOr (o : Option α) (e : ε) : Except ε α :=
  match o with
  | some a => .ok a
  | none => .error e

theorem okOr_eq_ok_iff {o : Option α} : okOr o e = .ok a ↔ o = some a := by
  cases o <;> simp [okOr]

theorem okOr_eq_error_iff {o : Option α} {e' : ε} : okOr o e = .error e' ↔ o = none ∧ e = e' := by
  cases o <;> simp [okOr]

theorem mapError_eq_ok_iff {ε' : Type} {f : ε → ε'} : x.mapError f = .ok a ↔ x = .ok a := by
  cases x with
  | error e => constructor <;> intro h <;> cases h
  | ok a' =>
    exact ⟨fun h => congrArg Except.ok (Except.ok.inj h),
      fun h => congrArg Except.ok (Except.ok.inj h)⟩

theorem mapError_eq_error_iff {ε' : Type} {f : ε → ε'} {e' : ε'} :
    x.mapError f = .error e' ↔ ∃ e, x = .error e ∧ f e = e' := by
  cases x with
  | error e =>
    constructor
    · intro h
      exact ⟨e, rfl, Except.error.inj h⟩
    · rintro ⟨e₀, he, rfl⟩
      exact congrArg (fun e => Except.error (f e)) (Except.error.inj he)
  | ok a =>
    constructor
    · intro h
      cases h
    · rintro ⟨_, h, _⟩
      cases h

theorem except_map_eq_error_iff {f : α → β} : x.map f = .error e ↔ x = .error e := by
  cases x <;> simp [Except.map]

theorem exists_of_foldlM_cons_eq_ok {step : σ → α → Except ε σ} {s s' : σ} {x : α} {xs : List α}
    (h : (x :: xs).foldlM step s = .ok s') :
    ∃ s₁, step s x = .ok s₁ ∧ xs.foldlM step s₁ = .ok s' := by
  rw [List.foldlM_cons] at h
  exact exists_of_bind_eq_ok h

theorem foldlM_invariant {step : σ → α → Except ε σ} {I : σ → Prop}
    (hstep : ∀ s x s', I s → step s x = .ok s' → I s') {xs : List α} {s s' : σ} (hs : I s)
    (h : xs.foldlM step s = .ok s') : I s' := by
  induction xs generalizing s with
  | nil =>
    obtain rfl := Except.ok.inj h
    exact hs
  | cons x xs ih =>
    obtain ⟨s₁, hfirst, hrest⟩ := exists_of_foldlM_cons_eq_ok h
    exact ih (hstep s x s₁ hs hfirst) hrest

end Verity.Foundation

/-! ## Computations that may not return

A computation answers, fails, or runs forever. A sequence of such computations ends well exactly
when each of them does; for a loop over a list this is the rule for successful loops, with the
accumulator or without.
-/

namespace Verity.Foundation

inductive Outcome (ε α : Type) where
  | ok (a : α)
  | error (e : ε)
  | diverges
deriving DecidableEq, Repr

namespace Outcome

variable {ε ε' α β σ : Type}

def bind (x : Outcome ε α) (f : α → Outcome ε β) : Outcome ε β :=
  match x with
  | ok a => f a
  | error e => error e
  | diverges => diverges

/-- A computation that always returns. -/
def ofExcept : Except ε α → Outcome ε α
  | .ok a => ok a
  | .error e => error e

def mapError (f : ε → ε') : Outcome ε α → Outcome ε' α
  | ok a => ok a
  | error e => error (f e)
  | diverges => diverges

/-- Go on when the condition holds, and fail otherwise. -/
def require (p : Prop) [Decidable p] (e : ε) : Outcome ε Unit := if p then ok () else error e

/-- One check after the other. -/
def forEach (f : α → Outcome ε Unit) : List α → Outcome ε Unit
  | [] => ok ()
  | a :: as => (f a).bind fun _ => forEach f as

/-- A check of the value, if there is one. -/
def forSome (f : α → Outcome ε Unit) : Option α → Outcome ε Unit
  | none => ok ()
  | some a => f a

@[simp]
theorem ofExcept_eq_ok_iff {x : Except ε α} {a : α} :
    (ofExcept x : Outcome ε α) = ok a ↔ x = .ok a := by
  cases x <;> simp [ofExcept]

@[simp]
theorem mapError_eq_ok_iff {f : ε → ε'} {x : Outcome ε α} {a : α} :
    x.mapError f = ok a ↔ x = ok a := by
  cases x <;> simp [mapError]

@[simp]
theorem require_eq_ok_iff {p : Prop} [Decidable p] {e : ε} : require p e = ok () ↔ p := by
  unfold require
  split <;> simp_all

theorem bind_eq_ok_iff {x : Outcome ε α} {f : α → Outcome ε β} {b : β} :
    x.bind f = ok b ↔ ∃ a, x = ok a ∧ f a = ok b := by
  cases x <;> simp [bind]

/-- A sequence of two checks ends well exactly when both do. -/
@[simp]
theorem bind_unit_eq_ok_iff {x : Outcome ε Unit} {y : Outcome ε β} {b : β} :
    (x.bind fun _ => y) = ok b ↔ x = ok () ∧ y = ok b := by
  cases x <;> simp [bind]

@[simp]
theorem forEach_eq_ok_iff {f : α → Outcome ε Unit} {as : List α} :
    forEach f as = ok () ↔ ∀ a ∈ as, f a = ok () := by
  induction as with
  | nil => simp [forEach]
  | cons a as ih => simp [forEach, ih]

@[simp]
theorem forSome_eq_ok_iff {f : α → Outcome ε Unit} {o : Option α} :
    forSome f o = ok () ↔ ∀ a, o = some a → f a = ok () := by
  cases o <;> simp [forSome]

end Outcome

end Verity.Foundation
