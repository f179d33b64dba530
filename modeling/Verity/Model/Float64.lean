import Mathlib.Algebra.Ring.Nat
import Verity.Model.Text

/-!
# Floating-point numbers

The `f64` of the routing predicates: a binary64 value is its bit pattern, decimal text is read
into the nearest value (ties to even), and two values are compared as IEEE 754 compares them.
-/

set_option autoImplicit false

namespace Verity.Model

/-- An `f64`, by its bits: the sign, eleven bits of exponent, fifty-two bits of fraction. -/
structure F64 where
  bits : UInt64
deriving DecidableEq, Repr

namespace F64

/-- The exponent and the fraction. -/
def magnitude (x : F64) : Nat := x.bits.toNat % 2 ^ 63

/-- The bits of the infinity, above those of every finite magnitude. -/
def infinityBits : Nat := 2047 * 2 ^ 52

def isNan (x : F64) : Bool := decide (infinityBits < x.magnitude)

/-- `==`: no NaN is equal to anything, and the two zeros are equal. -/
def eq (x y : F64) : Bool :=
  !x.isNan && !y.isNan && (decide (x = y) || decide (x.magnitude = 0 ∧ y.magnitude = 0))

def ofMagnitude (negative : Bool) (magnitude : Nat) : F64 :=
  ⟨UInt64.ofNat (if negative then 2 ^ 63 + magnitude else magnitude)⟩

/-- `n / d` rounded to a whole number, ties to even. -/
def roundHalfEven (n d : Nat) : Nat :=
  let q := n / d
  let r := n % d
  if 2 * r < d then q
  else if d < 2 * r then q + 1
  else q + q % 2

/-- The value nearest to `± n / d`. The quantum `2 ^ q` leaves fifty-three significant bits, and
is never below that of the subnormal values. A fraction that is rounded up to the next power of
two carries into the exponent, so the bits are a sum. -/
def ofRatio (negative : Bool) (n d : Nat) : F64 :=
  if n = 0 then ofMagnitude negative 0
  else
    let guess : Int := (Nat.log2 n : Int) - Nat.log2 d
    let exponent : Int :=
      if d * 2 ^ guess.toNat ≤ n * 2 ^ (-guess).toNat then guess else guess - 1
    let q : Int := max (exponent - 52) (-1074)
    let m := roundHalfEven (n * 2 ^ (-q).toNat) (d * 2 ^ q.toNat)
    ofMagnitude negative (min (m + (q + 1074).toNat * 2 ^ 52) infinityBits)

/-- The number with these decimal digits, times a power of ten. -/
def ofDecimal (negative : Bool) (digits : Nat) (exponent : Int) : F64 :=
  ofRatio negative (digits * 10 ^ exponent.toNat) (10 ^ (-exponent).toNat)

end F64

/-- `char::is_ascii_digit`. -/
def isAsciiDigit (c : Char) : Bool := decide ('0' ≤ c ∧ c ≤ '9')

/-- The number a list of decimal digits denotes. -/
def decimal (digits : List Char) : Nat :=
  digits.foldl (fun n c => 10 * n + (c.toNat - '0'.toNat)) 0

/-- An optional sign, and what follows it. -/
def takeSign : List Char → Bool × List Char
  | '-' :: cs => (true, cs)
  | '+' :: cs => (false, cs)
  | cs => (false, cs)

/-- The exponent after the digits of a number: none at all, or an `e` with a sign and digits. -/
def parseExponent : List Char → Option Int
  | [] => some 0
  | c :: cs =>
    let (negative, digits) := takeSign cs
    if (c = 'e' ∨ c = 'E') ∧ digits ≠ [] ∧ digits.all isAsciiDigit then
      some (if negative then -(decimal digits : Int) else decimal digits)
    else none

/-- A number without its sign: digits, a point and more digits (one of the two may be missing),
and an exponent. -/
def parseNumber (negative : Bool) (cs : List Char) : Option F64 :=
  let whole := cs.takeWhile isAsciiDigit
  let (fraction, rest) :=
    match cs.dropWhile isAsciiDigit with
    | '.' :: more => (more.takeWhile isAsciiDigit, more.dropWhile isAsciiDigit)
    | rest => ([], rest)
  if whole = [] ∧ fraction = [] then none
  else
    (parseExponent rest).map fun exponent =>
      F64.ofDecimal negative (decimal (whole ++ fraction)) (exponent - fraction.length)

/-- `str::parse::<f64>`. -/
def parseF64 (word : List Char) : Option F64 :=
  let (negative, body) := takeSign word
  let lower := body.map asciiLower
  if lower = "inf".toList ∨ lower = "infinity".toList then
    some (F64.ofMagnitude negative F64.infinityBits)
  else if lower = "nan".toList then some (F64.ofMagnitude negative (F64.infinityBits + 2 ^ 51))
  else parseNumber negative body

end Verity.Model
