import Verity.Model.Signing
import Verity.Model.FolderWatch

/-!
# Object ids of the permission service

A group or a user is an object of the permission service under the id `<tenant>_<name>`, where the
bytes of the name that are outside the service's alphabet are written as `=` and two hexadecimal
digits. A tenant is shown and read as the `uuid` crate documents it: shown in lower case, and read
in either.
-/

set_option autoImplicit false

namespace Verity.Model

open Verity.Foundation

/-! ## Hexadecimal digits -/

/-- A hexadecimal digit, upper case. -/
def upperHexDigit (n : Nat) : Char := if n < 10 then Char.ofNat (n + 48) else Char.ofNat (n + 55)

/-- The value of a hexadecimal digit in either case, by its code. -/
def hexValue (code : Nat) : Option Nat :=
  if 48 ≤ code ∧ code ≤ 57 then some (code - 48)
  else if 65 ≤ code ∧ code ≤ 70 then some (code - 55)
  else if 97 ≤ code ∧ code ≤ 102 then some (code - 87)
  else none

/-- `u8::from_str_radix(hex, 16)` where `hex` has two bytes. A plus sign may stand in front. -/
def fromStrRadix16 (h l : UInt8) : Option UInt8 :=
  if h.toNat = 43 then (hexValue l.toNat).map UInt8.ofNat
  else do
    let high ← hexValue h.toNat
    let low ← hexValue l.toNat
    return UInt8.ofNat (16 * high + low)

/-! ## Tenants -/

namespace Uuid

/-- So many bytes in hexadecimal digits, and what follows them. -/
def readBytes : Nat → List Char → Option (List UInt8 × List Char)
  | n + 1, h :: l :: rest => do
      let high ← hexValue h.toNat
      let low ← hexValue l.toNat
      let (bytes, rest) ← readBytes n rest
      return (UInt8.ofNat (16 * high + low) :: bytes, rest)
  | 0, rest => some ([], rest)
  | _ + 1, _ => none

/-- What follows a hyphen. -/
def readHyphen : List Char → Option (List Char)
  | '-' :: rest => some rest
  | _ => none

/-- `Uuid::from_str` of a text of 36 bytes: groups of 4, 2, 2, 2 and 6 bytes joined by hyphens. -/
def parse (s : List Char) : Option Uuid := do
  let (timeLow, s) ← readBytes 4 s
  let (timeMid, s) ← readBytes 2 (← readHyphen s)
  let (timeHigh, s) ← readBytes 2 (← readHyphen s)
  let (clock, s) ← readBytes 2 (← readHyphen s)
  let (node, s) ← readBytes 6 (← readHyphen s)
  let bytes := timeLow ++ (timeMid ++ (timeHigh ++ (clock ++ node)))
  if h : bytes.length = 16 ∧ s = [] then some ⟨bytes, h.1⟩ else none

end Uuid

/-! ## Names -/

/-- A byte that stands for itself.
SOURCE: rebac.rs:77 -/
def passesThrough (b : UInt8) : Bool :=
  (97 ≤ b.toNat && b.toNat ≤ 122) || (65 ≤ b.toNat && b.toNat ≤ 90) ||
    (48 ≤ b.toNat && b.toNat ≤ 57) || b.toNat == 95 || b.toNat == 45

/-- SOURCE: rebac.rs:76-79 -/
def escapeByte (b : UInt8) : List Char :=
  if passesThrough b then [Char.ofNat b.toNat]
  else ['=', upperHexDigit (b.toNat / 16), upperHexDigit (b.toNat % 16)]

/-- SOURCE: rebac.rs:73-82 -/
def escapeId (raw : String) : String := String.ofList ((utf8 raw.toList).flatMap escapeByte)

/-- Two bytes that are no text have no digits either.
SOURCE: rebac.rs:87-100 -/
def unescapeBytes : List UInt8 → Option (List UInt8)
  | [] => some []
  | b :: rest =>
    if b.toNat = 61 then
      match rest with
      | h :: l :: rest' => do
          let byte ← fromStrRadix16 h l
          let out ← unescapeBytes rest'
          return byte :: out
      | _ => none
    else (unescapeBytes rest).map (b :: ·)

/-- SOURCE: rebac.rs:86-102 -/
def unescapeId (esc : String) : Option String :=
  (unescapeBytes (utf8 esc.toList)).bind fun out => String.fromUTF8? out.toByteArray

/-- SOURCE: rebac.rs:106-108 -/
def objectId (tenant : Uuid) (name : String) : String :=
  String.ofList (tenant.text ++ '_' :: (escapeId name).toList)

/-- SOURCE: rebac.rs:112-115 -/
def parseObjectId (tenant : Uuid) (oid : String) : Option String := do
  unescapeId (← stripStart (String.ofList (tenant.text ++ ['_'])) oid)

/-- SOURCE: rebac.rs:121-126 -/
def parseAnyObjectId (oid : String) : Option (Uuid × String) := do
  let (head, tail) ← sliceAt 36 oid.toList
  let tenant ← Uuid.parse head
  let name ← unescapeId (← stripStart "_" (String.ofList tail))
  return (tenant, name)

end Verity.Model
