import Verity.Foundation.Trim

/-!
# Text

The string operations of the standard library that the handlers use. A string is read as its
list of characters. Lowering changes no character's being blank, and a text is trimmed already
when its ends are not blank.
-/

set_option autoImplicit false

namespace Verity.Model

open Verity.Foundation

/-! ## Operations -/

/-- `char::is_whitespace`: the characters with the property `White_Space`. -/
def isWhitespace (c : Char) : Bool :=
  let n := c.toNat
  decide (9 ≤ n ∧ n ≤ 13) || decide (n = 32) || decide (n = 133) || decide (n = 160) ||
    decide (n = 5760) || decide (8192 ≤ n ∧ n ≤ 8202) || decide (n = 8232) || decide (n = 8233) ||
      decide (n = 8239) || decide (n = 8287) || decide (n = 12288)

/-- `str::trim`. -/
def trim (s : String) : String :=
  String.ofList ((s.toList.dropWhile isWhitespace).rdropWhile isWhitespace)

/-- `str::split_whitespace`. -/
def splitWhitespace (s : String) : List String :=
  ((s.toList.splitOnP isWhitespace).filter (· ≠ [])).map String.ofList

/-- `str::split` at a character: one more part than there are separators. -/
def splitAtChar (separator : Char) (s : String) : List String :=
  (s.toList.splitOn separator).map String.ofList

/-- `char::to_ascii_lowercase`. -/
def asciiLower (c : Char) : Char :=
  if 'A' ≤ c ∧ c ≤ 'Z' then Char.ofNat (c.toNat + 32) else c

/-- `str::to_ascii_lowercase`. -/
def toAsciiLowercase (s : String) : String := String.ofList (s.toList.map asciiLower)

/-- `str::eq_ignore_ascii_case`. -/
def eqIgnoreAsciiCase (s s' : String) : Bool := decide (toAsciiLowercase s = toAsciiLowercase s')

/-- `str::trim_matches` of a character. -/
def trimMatches (c : Char) (s : String) : String :=
  String.ofList ((s.toList.dropWhile (· == c)).rdropWhile (· == c))

/-- `str::contains` of a character. -/
def containsChar (c : Char) (s : String) : Bool := s.toList.contains c

/-! ## Lowered and trimmed texts -/

/-- A property of every character, from the characters of ASCII one by one. -/
theorem char_forall {P : Char → Prop} (hlow : ∀ n < 128, P (Char.ofNat n))
    (hhigh : ∀ c : Char, 128 ≤ c.toNat → P c) (c : Char) : P c := by
  by_cases hc : c.toNat < 128
  · have := hlow c.toNat hc
    rwa [Char.ofNat_toNat] at this
  · exact hhigh c (by omega)

theorem asciiLower_of_ge {c : Char} (h : 128 ≤ c.toNat) : asciiLower c = c := by
  refine if_neg fun hupper => ?_
  have hle : c.toNat ≤ 90 := hupper.2
  omega

theorem asciiLower_asciiLower (c : Char) : asciiLower (asciiLower c) = asciiLower c :=
  char_forall (P := fun c => asciiLower (asciiLower c) = asciiLower c) (by decide +kernel)
    (fun c hc => by rw [asciiLower_of_ge hc, asciiLower_of_ge hc]) c

theorem isWhitespace_asciiLower (c : Char) : isWhitespace (asciiLower c) = isWhitespace c :=
  char_forall (P := fun c => isWhitespace (asciiLower c) = isWhitespace c) (by decide +kernel)
    (fun c hc => by rw [asciiLower_of_ge hc]) c

theorem toList_trim (s : String) : (trim s).toList = trimList isWhitespace s.toList := by
  rw [trim, String.toList_ofList, trimList]

theorem toList_toAsciiLowercase (s : String) :
    (toAsciiLowercase s).toList = s.toList.map asciiLower := by
  rw [toAsciiLowercase, String.toList_ofList]

theorem trim_trim (s : String) : trim (trim s) = trim s := by
  apply String.toList_inj.mp
  rw [toList_trim, toList_trim, trimList_trimList fun _ h => h]

theorem trim_eq_self_iff {s : String} : trim s = s ↔
    (∀ c, s.toList.head? = some c → isWhitespace c = false) ∧
      ∀ c, s.toList.getLast? = some c → isWhitespace c = false := by
  rw [← String.toList_inj, toList_trim]
  constructor
  · intro h
    constructor
    · intro c hc
      rw [← h] at hc
      exact not_of_head?_trimList hc
    · intro c hc
      rw [← h] at hc
      exact not_of_getLast?_trimList hc
  · rintro ⟨hhead, hlast⟩
    exact trimList_eq_self hhead hlast

end Verity.Model
