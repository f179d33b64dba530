import Mathlib.Data.List.Basic
import Verity.Foundation.Prediction

/-!
# Undoing PNG predictors

An image stream of a PDF may be stored the PNG way: each row starts with a byte that names its
filter, and each sample is what is left after a guess from its neighbours was subtracted. The rows
are decoded in place, each from the row decoded before it.

The length of a row is part of its type, so that no sample is read outside its row. The parameters
come as the lookup `get` of the source: the integer that is stored under a key, if there is one.
-/

set_option autoImplicit false

namespace Verity.Model

open Verity.Foundation

namespace Png

variable {n : Nat}

/-- `cur[i - bpp]` -/
def back (bpp : Nat) (row : Vector UInt8 n) (i : Fin n) : UInt8 :=
  row.get ⟨i.val - bpp, Nat.lt_of_le_of_lt (Nat.sub_le _ _) i.isLt⟩

end Png

end Verity.Model
