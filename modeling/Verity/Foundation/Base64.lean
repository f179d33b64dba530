import Mathlib.Data.List.Basic

/-!
# Base64 without padding

The URL-safe alphabet of RFC 4648 with the strict reading of its decoder: no padding
character, no digit outside the alphabet, and the bits of the last digit that no byte uses
are zero. `decode_encode` is the round trip; an encoded text holds digits of the alphabet only,
so that a separator outside it can follow (`not_mem_encode`).
-/

set_option autoImplicit false

namespace Verity.Foundation.Base64

/-- The digit of a six-bit value. -/
def digit (n : Nat) : Char :=
  if n < 26 then Char.ofNat (n + 65)
  else if n < 52 then Char.ofNat (n + 71)
  else if n < 62 then Char.ofNat (n - 4)
  else if n = 62 then '-'
  else '_'

/-- The value of a digit. -/
def value (c : Char) : Option Nat :=
  if 65 ≤ c.toNat ∧ c.toNat ≤ 90 then some (c.toNat - 65)
  else if 97 ≤ c.toNat ∧ c.toNat ≤ 122 then some (c.toNat - 71)
  else if 48 ≤ c.toNat ∧ c.toNat ≤ 57 then some (c.toNat + 4)
  else if c = '-' then some 62
  else if c = '_' then some 63
  else none

/-- The digits of a byte sequence, three bytes to four digits. -/
def encode : List UInt8 → List Char
  | [] => []
  | [a] => [digit (a.toNat / 4), digit (a.toNat % 4 * 16)]
  | [a, b] =>
    [digit (a.toNat / 4), digit (a.toNat % 4 * 16 + b.toNat / 16), digit (b.toNat % 16 * 4)]
  | a :: b :: c :: rest =>
    digit (a.toNat / 4) :: digit (a.toNat % 4 * 16 + b.toNat / 16) ::
      digit (b.toNat % 16 * 4 + c.toNat / 64) :: digit (c.toNat % 64) :: encode rest

/-- The bytes of a text: a last group of two or three digits ends in zero bits, and a last
group of one digit is refused. -/
def decode : List Char → Option (List UInt8)
  | [] => some []
  | [_] => none
  | [w, x] => do
      let w ← value w
      let x ← value x
      if x % 16 = 0 then some [UInt8.ofNat (w * 4 + x / 16)] else none
  | [w, x, y] => do
      let w ← value w
      let x ← value x
      let y ← value y
      if y % 4 = 0 then
        some [UInt8.ofNat (w * 4 + x / 16), UInt8.ofNat (x % 16 * 16 + y / 4)]
      else none
  | w :: x :: y :: z :: rest => do
      let w ← value w
      let x ← value x
      let y ← value y
      let z ← value z
      let bytes ← decode rest
      some (UInt8.ofNat (w * 4 + x / 16) :: UInt8.ofNat (x % 16 * 16 + y / 4) ::
        UInt8.ofNat (y % 4 * 64 + z) :: bytes)

theorem value_digit {n : Nat} (h : n < 64) : value (digit n) = some n := by
  have hall : ∀ i : Fin 64, value (digit i) = some i.val := by decide
  exact hall ⟨n, h⟩

theorem byte_eq {a : UInt8} {n : Nat} (h : n = a.toNat) : UInt8.ofNat n = a := by
  rw [h, UInt8.ofNat_toNat]

/-- Decoding what was encoded gives the bytes back. -/
theorem decode_encode (bytes : List UInt8) : decode (encode bytes) = some bytes := by
  induction bytes using encode.induct with
  | case1 => rfl
  | case2 a =>
    have ha := a.toNat_lt
    rw [encode, decode, value_digit (by omega), value_digit (by omega)]
    have hzero : a.toNat % 4 * 16 % 16 = 0 := by omega
    simp only [Option.bind_eq_bind, Option.bind_some, hzero, if_true]
    rw [byte_eq (a := a) (by omega)]
  | case3 a b =>
    have ha := a.toNat_lt
    have hb := b.toNat_lt
    rw [encode, decode, value_digit (by omega), value_digit (by omega), value_digit (by omega)]
    have hzero : b.toNat % 16 * 4 % 4 = 0 := by omega
    simp only [Option.bind_eq_bind, Option.bind_some, hzero, if_true]
    rw [byte_eq (a := a) (by omega), byte_eq (a := b) (by omega)]
  | case4 a b c rest ih =>
    have ha := a.toNat_lt
    have hb := b.toNat_lt
    have hc := c.toNat_lt
    rw [encode, decode, value_digit (by omega), value_digit (by omega), value_digit (by omega),
      value_digit (by omega), ih]
    simp only [Option.bind_eq_bind, Option.bind_some]
    rw [byte_eq (a := a) (by omega), byte_eq (a := b) (by omega), byte_eq (a := c) (by omega)]

/-- A character without a value does not occur in an encoded text. -/
theorem not_mem_encode {c : Char} (hc : value c = none) (bytes : List UInt8) :
    c ∉ encode bytes := by
  have hdigit : ∀ n, n < 64 → c ≠ digit n := by
    intro n hn heq
    rw [heq, value_digit hn] at hc
    exact Option.some_ne_none n hc
  induction bytes using encode.induct with
  | case1 => exact List.not_mem_nil
  | case2 a =>
    have ha := a.toNat_lt
    simp only [encode, List.mem_cons, List.not_mem_nil, or_false, not_or]
    exact ⟨hdigit _ (by omega), hdigit _ (by omega)⟩
  | case3 a b =>
    have ha := a.toNat_lt
    have hb := b.toNat_lt
    simp only [encode, List.mem_cons, List.not_mem_nil, or_false, not_or]
    exact ⟨hdigit _ (by omega), hdigit _ (by omega), hdigit _ (by omega)⟩
  | case4 a b c' rest ih =>
    have ha := a.toNat_lt
    have hb := b.toNat_lt
    have hc' := c'.toNat_lt
    simp only [encode, List.mem_cons, not_or]
    exact ⟨hdigit _ (by omega), hdigit _ (by omega), hdigit _ (by omega), hdigit _ (by omega),
      ih⟩

end Verity.Foundation.Base64
