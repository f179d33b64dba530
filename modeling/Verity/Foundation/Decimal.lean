import Mathlib.Data.List.Basic

/-!
# Decimal texts

Numbers have distinct decimal texts, with or without a sign.
-/

set_option autoImplicit false

namespace Verity.Foundation

theorem nat_repr_injective : Function.Injective Nat.repr := by
  intro m n h
  have hdigits := congrArg String.toList h
  rw [Nat.toList_repr, Nat.toList_repr] at hdigits
  rw [← Nat.ofDigitChars_ten_toDigits (n := m), hdigits, Nat.ofDigitChars_ten_toDigits]

/-- A text of digits has no sign. -/
theorem nat_repr_ne_neg (m n : Nat) : m.repr ≠ "-" ++ n.repr := by
  intro h
  have hmem : '-' ∈ Nat.toDigits 10 m := by
    rw [← Nat.toList_repr, h]
    simp
  exact absurd (Nat.isDigit_of_mem_toDigits (by omega) (by omega) hmem) (by decide)

theorem int_repr_injective : Function.Injective Int.repr := by
  intro a b h
  rw [Int.repr_eq_if, Int.repr_eq_if] at h
  split at h
  · split at h
    · have := nat_repr_injective h
      omega
    · exact absurd h (nat_repr_ne_neg _ _)
  · split at h
    · exact absurd h.symm (nat_repr_ne_neg _ _)
    · have := nat_repr_injective ((String.append_right_inj "-").mp h)
      omega

/-- The text of an integer is made of digits and a sign. -/
theorem not_mem_int_repr {c : Char} (hdigit : c.isDigit = false) (hsign : c ≠ '-') (n : Int) :
    c ∉ n.repr.toList := by
  have hnat : ∀ m : Nat, c ∉ m.repr.toList := by
    intro m hmem
    rw [Nat.toList_repr] at hmem
    rw [Nat.isDigit_of_mem_toDigits (by omega) (by omega) hmem] at hdigit
    exact absurd hdigit (by decide)
  rw [Int.repr_eq_if]
  split
  · exact hnat _
  · intro hmem
    rw [String.toList_append, List.mem_append] at hmem
    rcases hmem with hmem | hmem
    · exact hsign (List.mem_singleton.mp hmem)
    · exact hnat _ hmem

/-- Two ids under one label are one id. -/
theorem label_toString_injective (label : String) :
    Function.Injective fun n : Nat => label ++ toString n := by
  intro m n h
  exact nat_repr_injective ((String.append_right_inj label).mp h)

end Verity.Foundation
