import Mathlib.Algebra.Order.Field.Basic
import Mathlib.Data.Rat.Cast.Order
import Mathlib.Tactic.FieldSimp
import Mathlib.Tactic.Linarith
import Mathlib.Tactic.Positivity
import Mathlib.Tactic.Ring

/-!
# Rounding to a number of significant bits

A floating-point operation computes exactly and rounds the result to the nearest number of `p`
significant bits, ties to even. Between the least and the greatest normal number nothing else
happens, and only this is here: the exponent has no bounds. `roundBits` rounds a rational that is
not negative.

A computation is followed by how often it has rounded: `Approx u i j y x` says that `y` is `x` up
to `i` roundings, and `j` more below a division.
-/

set_option autoImplicit false

namespace Verity.Foundation

/-- `n / d` rounded to a whole number, ties to even. -/
def roundHalfEven (n d : Nat) : Nat :=
  let q := n / d
  let r := n % d
  if 2 * r < d then q
  else if d < 2 * r then q + 1
  else q + q % 2

/-- The exponent of the greatest power of two that is not above `n / d`. -/
def binaryExponent (n d : Nat) : Int :=
  let guess : Int := (Nat.log2 n : Int) - Nat.log2 d
  if d * 2 ^ guess.toNat ≤ n * 2 ^ (-guess).toNat then guess else guess - 1

/-- The number of `p` significant bits that is nearest to `x`. -/
def roundBits (p : Nat) (x : ℚ) : ℚ :=
  let n := x.num.natAbs
  if n = 0 then 0
  else
    let q : Int := binaryExponent n x.den - (p - 1)
    let m := roundHalfEven (n * 2 ^ (-q).toNat) (x.den * 2 ^ q.toNat)
    ((m * 2 ^ q.toNat : Nat) : ℚ) / (2 ^ (-q).toNat : Nat)

/-! ## The error of one rounding -/

/-- Rounding is off by a half at most. -/
theorem abs_roundHalfEven_sub_le (n : Nat) {d : Nat} (hd : 0 < d) :
    |(roundHalfEven n d : ℚ) - n / d| ≤ 1 / 2 := by
  have hd' : (0 : ℚ) < d := by exact_mod_cast hd
  have hsplit : (n : ℚ) = d * (n / d : Nat) + (n % d : Nat) := by
    exact_mod_cast (Nat.div_add_mod n d).symm
  have hquotient : (n : ℚ) / d = (n / d : Nat) + (n % d : Nat) / (d : ℚ) := by
    rw [hsplit]
    field_simp
  have hhalf : ∀ m : Nat, m ≤ d → ((m : ℚ) / d ≤ 1) := by
    intro m hm
    rw [div_le_one hd']
    exact_mod_cast hm
  have hmod : (n % d : Nat) ≤ d := (Nat.mod_lt n hd).le
  have hnonneg : (0 : ℚ) ≤ (n % d : Nat) / (d : ℚ) := by positivity
  unfold roundHalfEven
  dsimp only
  split
  · rename_i hbelow
    have hle : ((n % d : Nat) : ℚ) / d ≤ 1 / 2 := by
      rw [div_le_div_iff₀ hd' (by norm_num)]
      have : (2 * (n % d) : Nat) ≤ d := hbelow.le
      have hcast : (2 : ℚ) * (n % d : Nat) ≤ d := by exact_mod_cast this
      linarith
    rw [hquotient, abs_le]
    constructor <;> linarith
  · rename_i hnot
    have hge : (1 : ℚ) / 2 ≤ ((n % d : Nat) : ℚ) / d := by
      rw [div_le_div_iff₀ (by norm_num) hd']
      have hcast : (d : ℚ) ≤ 2 * (n % d : Nat) := by exact_mod_cast not_lt.mp hnot
      linarith
    have hone := hhalf _ hmod
    split
    · push_cast
      rw [hquotient, abs_le]
      constructor <;> linarith
    · rename_i hnot'
      have hle : ((n % d : Nat) : ℚ) / d ≤ 1 / 2 := by
        rw [div_le_div_iff₀ hd' (by norm_num)]
        have hcast : (2 : ℚ) * (n % d : Nat) ≤ d := by exact_mod_cast not_lt.mp hnot'
        linarith
      have heven : ((n / d % 2 : Nat) : ℚ) = 0 ∨ ((n / d % 2 : Nat) : ℚ) = 1 := by
        rcases Nat.mod_two_eq_zero_or_one (n / d) with h | h
        · left
          exact_mod_cast h
        · right
          exact_mod_cast h
      push_cast at heven ⊢
      rw [hquotient, abs_le]
      rcases heven with h | h
      · rw [h]
        constructor <;> linarith
      · rw [h]
        constructor <;> linarith

theorem two_zpow_eq (q : Int) : (2 : ℚ) ^ q = (2 ^ q.toNat : Nat) / (2 ^ (-q).toNat : Nat) := by
  obtain ⟨k, rfl | rfl⟩ := q.eq_nat_or_neg
  · simp
  · simp

/-- The power of two is not above the number. -/
theorem two_zpow_binaryExponent_le {n d : Nat} (hn : n ≠ 0) (hd : d ≠ 0) :
    (2 : ℚ) ^ binaryExponent n d ≤ n / d := by
  have hd' : (0 : ℚ) < d := by exact_mod_cast Nat.pos_of_ne_zero hd
  unfold binaryExponent
  dsimp only
  split
  · rename_i hle
    rw [two_zpow_eq, div_le_div_iff₀ (by positivity) hd']
    have hcast : ((d * 2 ^ ((n.log2 : Int) - d.log2).toNat : Nat) : ℚ) ≤
        (n * 2 ^ (-((n.log2 : Int) - d.log2)).toNat : Nat) := by exact_mod_cast hle
    push_cast at hcast ⊢
    linarith
  · -- one below the guess is below `n / d` by the sizes alone
    have hlow : ((2 : ℚ) ^ n.log2) ≤ n := by exact_mod_cast Nat.log2_self_le hn
    have hhigh : (d : ℚ) ≤ 2 ^ (d.log2 + 1) := by exact_mod_cast Nat.lt_log2_self.le
    have hexponent : (n.log2 : Int) - d.log2 - 1 = n.log2 - ((d.log2 + 1 : Nat) : Int) := by
      push_cast
      ring
    rw [hexponent, zpow_sub₀ (by norm_num), zpow_natCast, zpow_natCast]
    exact div_le_div₀ (by positivity) hlow hd' hhigh

/-- Rounding moves a number by at most half a unit in the last place. -/
theorem abs_roundBits_sub_le (p : Nat) {x : ℚ} (hx : 0 ≤ x) :
    |roundBits (p + 1) x - x| ≤ x / 2 ^ (p + 1) := by
  unfold roundBits
  dsimp only
  split
  · rename_i hzero
    have hx0 : x = 0 := by
      rw [← Rat.num_eq_zero]
      exact Int.natAbs_eq_zero.mp hzero
    subst hx0
    simp
  · rename_i hne
    have hvalue : x = (x.num.natAbs : ℚ) / x.den := by
      have hnum : ((x.num.natAbs : Int) : ℚ) = x.num := by
        rw [Int.natAbs_of_nonneg (Rat.num_nonneg.mpr hx)]
      rw [Int.cast_natCast] at hnum
      rw [hnum, Rat.num_div_den]
    have hpower := two_zpow_binaryExponent_le hne x.den_nz
    rw [← hvalue] at hpower
    have hq : binaryExponent x.num.natAbs x.den - (((p + 1 : Nat) : Int) - 1) =
        binaryExponent x.num.natAbs x.den - (p : Int) := by
      push_cast
      ring
    rw [hq]
    generalize hexp : binaryExponent x.num.natAbs x.den - (p : Int) = q
    have hulp : (2 : ℚ) ^ q ≤ x / 2 ^ p := by
      rw [← hexp, zpow_sub₀ (by norm_num), zpow_natCast]
      exact div_le_div_of_nonneg_right hpower (by positivity)
    rw [two_zpow_eq] at hulp
    have hden : 0 < x.den * 2 ^ q.toNat := Nat.mul_pos x.den_pos (by positivity)
    have hround := abs_roundHalfEven_sub_le (x.num.natAbs * 2 ^ (-q).toNat) hden
    generalize roundHalfEven (x.num.natAbs * 2 ^ (-q).toNat) (x.den * 2 ^ q.toNat) = m at hround ⊢
    have hd : (x.den : ℚ) ≠ 0 := by exact_mod_cast x.den_nz
    have hscaled : ((x.num.natAbs * 2 ^ (-q).toNat : Nat) : ℚ) / (x.den * 2 ^ q.toNat : Nat) =
        x * ((2 ^ (-q).toNat : Nat) / (2 ^ q.toNat : Nat)) := by
      conv_rhs => rw [hvalue]
      push_cast
      field_simp
    rw [hscaled] at hround
    have hmoved : ((m * 2 ^ q.toNat : Nat) : ℚ) / (2 ^ (-q).toNat : Nat) - x =
        (m - x * ((2 ^ (-q).toNat : Nat) / (2 ^ q.toNat : Nat))) *
          ((2 ^ q.toNat : Nat) / (2 ^ (-q).toNat : Nat)) := by
      push_cast
      field_simp
    have hunit : (0 : ℚ) ≤ (2 ^ q.toNat : Nat) / (2 ^ (-q).toNat : Nat) := by positivity
    rw [hmoved, abs_mul, abs_of_nonneg hunit]
    calc _ ≤ 1 / 2 * (((2 ^ q.toNat : Nat) : ℚ) / (2 ^ (-q).toNat : Nat)) :=
          mul_le_mul_of_nonneg_right hround hunit
      _ ≤ 1 / 2 * (x / 2 ^ p) := by gcongr
      _ = x / 2 ^ (p + 1) := by
          rw [pow_succ]
          field_simp

/-! ## Counting roundings -/

/-- `y` is `x` up to `i` roundings, and `j` more below a division. -/
structure Approx (u : ℚ) (i j : Nat) (y x : ℚ) : Prop where
  lower : x * ((1 - u) ^ i / (1 + u) ^ j) ≤ y
  upper : y ≤ x * ((1 + u) ^ i / (1 - u) ^ j)

namespace Approx

variable {u x y : ℚ} {i j : Nat}

theorem refl (u x : ℚ) : Approx u 0 0 x x := by
  constructor <;> simp

theorem add {x' y' : ℚ} (h : Approx u i j y x) (h' : Approx u i j y' x') :
    Approx u i j (y + y') (x + x') := by
  constructor
  · rw [add_mul]
    exact add_le_add h.lower h'.lower
  · rw [add_mul]
    exact add_le_add h.upper h'.upper

theorem mono (h : Approx u i j y x) (hu : 0 < u) (hu' : u < 1) (hx : 0 ≤ x) {i' j' : Nat}
    (hi : i ≤ i') (hj : j ≤ j') : Approx u i' j' y x := by
  have hlow : 0 < 1 - u := by linarith
  constructor
  · refine le_trans (mul_le_mul_of_nonneg_left ?_ hx) h.lower
    refine div_le_div₀ (by positivity) ?_ (by positivity) ?_
    · exact pow_le_pow_of_le_one hlow.le (by linarith) hi
    · exact pow_le_pow_right₀ (by linarith) hj
  · refine le_trans h.upper (mul_le_mul_of_nonneg_left ?_ hx)
    refine div_le_div₀ (by positivity) ?_ (by positivity) ?_
    · exact pow_le_pow_right₀ (by linarith) hi
    · exact pow_le_pow_of_le_one hlow.le (by linarith) hj

/-- The division turns what is above and below. -/
theorem one_div (h : Approx u i j y x) (hu : 0 < u) (hu' : u < 1) (hx : 0 < x) :
    Approx u j i (1 / y) (1 / x) := by
  have hlow : 0 < 1 - u := by linarith
  have hy : 0 < y := lt_of_lt_of_le (by positivity) h.lower
  constructor
  · calc 1 / x * ((1 - u) ^ j / (1 + u) ^ i) = 1 / (x * ((1 + u) ^ i / (1 - u) ^ j)) := by
          field_simp
      _ ≤ 1 / y := one_div_le_one_div_of_le hy h.upper
  · calc 1 / y ≤ 1 / (x * ((1 - u) ^ i / (1 + u) ^ j)) :=
          one_div_le_one_div_of_le (by positivity) h.lower
      _ = 1 / x * ((1 + u) ^ j / (1 - u) ^ i) := by
          field_simp

/-- One rounding more. -/
theorem round {p : Nat} (h : Approx (1 / 2 ^ (p + 1)) i j y x) (hx : 0 ≤ x) :
    Approx (1 / 2 ^ (p + 1)) (i + 1) j (roundBits (p + 1) y) x := by
  have hone : (1 : ℚ) / 2 ^ (p + 1) ≤ 1 := by
    rw [div_le_one (by positivity)]
    exact one_le_pow₀ (by norm_num)
  have hunit : (0 : ℚ) < 1 / 2 ^ (p + 1) := by positivity
  have hmoved : ∀ y : ℚ, y / 2 ^ (p + 1) = y * (1 / 2 ^ (p + 1)) := fun y => by
    rw [mul_one_div]
  generalize (1 : ℚ) / 2 ^ (p + 1) = u at *
  have hlow : 0 ≤ 1 - u := by linarith
  have hy : 0 ≤ y := le_trans (by positivity) h.lower
  have hround := abs_le.mp (abs_roundBits_sub_le p hy)
  rw [hmoved] at hround
  constructor
  · calc x * ((1 - u) ^ (i + 1) / (1 + u) ^ j) = x * ((1 - u) ^ i / (1 + u) ^ j) * (1 - u) := by
          ring
      _ ≤ y * (1 - u) := mul_le_mul_of_nonneg_right h.lower hlow
      _ ≤ roundBits (p + 1) y := by linarith
  · calc roundBits (p + 1) y ≤ y * (1 + u) := by linarith
      _ ≤ x * ((1 + u) ^ i / (1 - u) ^ j) * (1 + u) :=
          mul_le_mul_of_nonneg_right h.upper (by linarith)
      _ = x * ((1 + u) ^ (i + 1) / (1 - u) ^ j) := by
          ring

end Approx

end Verity.Foundation
