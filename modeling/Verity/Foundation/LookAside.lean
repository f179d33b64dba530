import Mathlib.Logic.Basic
import Mathlib.Logic.Function.Basic

/-!
# Look-aside caches

A cache holds rows by key in front of a store that has the true row of every key. Writers change
the store first and have the cache drop the keys they touched afterwards, so between the two
steps a key is due to be dropped. `Backed` is the invariant of such a cache: a row it holds is the
true one, or its key is due. The lemmas say what keeps it: putting a row in, dropping keys, and
changing the store.
-/

set_option autoImplicit false

namespace Verity.Foundation

variable {κ ρ : Type}

variable {truth held : κ → Option ρ} {due : κ → Prop} {k : κ}

/-- Every row held is the true one of its key, or the key is due to be dropped. -/
def Backed (truth held : κ → Option ρ) (due : κ → Prop) : Prop :=
  ∀ k r, held k = some r → truth k = some r ∨ due k

theorem backed_empty (truth : κ → Option ρ) (due : κ → Prop) :
    Backed truth (fun _ => none) due := by
  intro k r h
  exact absurd h (by simp)

/-- When nothing is due, the rows held are the true ones. -/
theorem Backed.eq_true_row (h : Backed truth held due) (hdone : ∀ k, ¬ due k) {r : ρ}
    (hheld : held k = some r) : truth k = some r :=
  (h k r hheld).resolve_right (hdone k)

/-- A row may be put in when it is the true one or its key is due. -/
theorem Backed.insert [DecidableEq κ] (h : Backed truth held due) {r : ρ}
    (hr : truth k = some r ∨ due k) : Backed truth (Function.update held k (some r)) due := by
  intro k' r' hheld
  by_cases hk : k' = k
  · subst hk
    rw [Function.update_self, Option.some.injEq] at hheld
    exact hheld ▸ hr
  · rw [Function.update_of_ne hk] at hheld
    exact h k' r' hheld

/-- A key that is dropped is no longer due. -/
theorem Backed.drop [DecidableEq κ] {due' : κ → Prop} (h : Backed truth held due)
    (hdue : ∀ k', k' ≠ k → due k' → due' k') : Backed truth (Function.update held k none) due' := by
  intro k' r hheld
  by_cases hk : k' = k
  · subst hk
    rw [Function.update_self] at hheld
    exact absurd hheld (by simp)
  · rw [Function.update_of_ne hk] at hheld
    exact (h k' r hheld).imp_right (hdue k' hk)

/-- The store may change where the keys become due. -/
theorem Backed.change {truth' : κ → Option ρ} {due' : κ → Prop} (h : Backed truth held due)
    (hchange : ∀ k, truth' k = truth k ∨ due' k) (hdue : ∀ k, due k → due' k) :
    Backed truth' held due' := by
  intro k r hheld
  rcases hchange k with hsame | hnew
  · exact (h k r hheld).imp hsame.trans (hdue k)
  · exact Or.inr hnew

end Verity.Foundation

/-! ## Derived views with marks

A view holds, under a key, a row computed from sources that go on changing. A writer changes the
sources and marks the keys it touched; a marked row is not trusted until it is computed again. A
mark may come after the change it is for, and until then it is due.

The sources allow several results for one key, so the results of a key are a relation.
`TrustedOrDue` is the invariant of such a view: a row that is trusted is a result of its key, or
a mark of the key is due.
-/

namespace Verity.Foundation

variable {κ ρ : Type}

/-- Every row that is trusted is a result of its key, or a mark of the key is due. -/
def TrustedOrDue (result trusted : κ → ρ → Prop) (due : κ → Prop) : Prop :=
  ∀ k r, trusted k r → result k r ∨ due k

variable {result result' trusted trusted' : κ → ρ → Prop} {due due' : κ → Prop}

/-- When no mark is due, every row that is trusted is a result of its key. -/
theorem TrustedOrDue.eq_result (h : TrustedOrDue result trusted due) (hdone : ∀ k, ¬ due k) {k : κ}
    {r : ρ} (htrusted : trusted k r) : result k r :=
  (h k r htrusted).resolve_right (hdone k)

/-- A write may change the results of the keys it marks and of those whose mark is due. A mark
that was due has to stay so where its key is still trusted. -/
theorem TrustedOrDue.write (h : TrustedOrDue result trusted due)
    (hmark : ∀ k r, trusted' k r → trusted k r)
    (hkeep : ∀ k r, trusted' k r → ¬ due k → due' k ∨ (result k r → result' k r))
    (hdue : ∀ k r, trusted' k r → due k → due' k) : TrustedOrDue result' trusted' due' := by
  intro k r htrusted
  by_cases hk : due k
  · exact Or.inr (hdue k r htrusted hk)
  · rcases hkeep k r htrusted hk with hdue' | hresult
    · exact Or.inr hdue'
    · exact Or.inl (hresult ((h k r (hmark k r htrusted)).resolve_right hk))

/-- A row may be put in as trusted when it is a result of its key, or a mark of the key is due. -/
theorem TrustedOrDue.put (h : TrustedOrDue result trusted due) {k₀ : κ} {r₀ : ρ}
    (hrow : result k₀ r₀ ∨ due k₀) (hput : ∀ k r, trusted' k r → trusted k r ∨ k = k₀ ∧ r = r₀) :
    TrustedOrDue result trusted' due := by
  intro k r htrusted
  rcases hput k r htrusted with hold | ⟨rfl, rfl⟩
  · exact h k r hold
  · exact hrow

end Verity.Foundation
