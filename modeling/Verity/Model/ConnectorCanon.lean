import Verity.Model.Canon

/-!
# The connector's canonical keys

The Drive connector has its own copy of the canonical forms, for the hints it attaches to what it
delivers. Its denylist tables and its suffix table hold what those of the server hold, member for
member.
-/

set_option autoImplicit false

namespace Verity.Model

/-- The texts on which `str.lower` and `str.isdigit` are those of ASCII. -/
def AsciiText : Type := {s : String // ∀ c ∈ s.toList, c.toNat < 128}

namespace Connector

/-! ## The text operations of Python -/

/-- `str.isspace` of one character: the white space of Unicode and the four separators below the
space. -/
def isSpace (c : Char) : Bool := isWhitespace c || decide (28 ≤ c.toNat ∧ c.toNat ≤ 31)

/-- `str.strip()`. -/
def strip (s : String) : String :=
  String.ofList ((s.toList.dropWhile isSpace).rdropWhile isSpace)

/-- `str.lower()` of a text in ASCII. -/
def lower (s : String) : String := toAsciiLowercase s

/-- `str.isdigit()` of a text in ASCII: an empty text is not one of digits. -/
def isDigits (s : String) : Bool := !s.toList.isEmpty && s.toList.all Char.isDigit

/-- The text before the first `c`: `s.split(c, 1)[0]`. -/
def splitHead (c : Char) (s : String) : String := ((splitOnceAt c s).map Prod.fst).getD s

/-! ## The denylist -/

/-- SOURCE: gdrive.py:295-317 -/
def freemailDomains : List String := Model.freemailDomains

/-- SOURCE: gdrive.py:320-334 -/
def placeholderDomains : List String := Model.placeholderDomains

/-- SOURCE: gdrive.py:338-381 -/
def roleLocals : List String := Model.roleLocals

/-- SOURCE: gdrive.py:455-458 -/
def isDenylistedDomain (domain : String) : Bool :=
  freemailDomains.contains domain || placeholderDomains.contains domain

/-- SOURCE: gdrive.py:461-465 -/
def isDenylistedEmail (localPart domain : String) : Bool :=
  roleLocals.contains (splitHead '+' localPart) || isDenylistedDomain domain

/-! ## Emails -/

/-- The address, stripped, lowered and without a `mailto:`. SOURCE: gdrive.py:478-480 -/
def bareAddress (raw : String) : String :=
  let s := lower (strip raw)
  match stripStart "mailto:" s with
  | some rest => strip rest
  | none => s

/-- SOURCE: gdrive.py:468-494 -/
def canonicalizeEmail (raw : String) : Option String :=
  if raw = "" then none
  else
    let s := bareAddress raw
    if s.toList.count '@' ≠ 1 then none
    else do
      let (localRaw, domainRaw) ← splitOnceAt '@' s
      if localRaw = "" ∨ domainRaw = "" then none
      else
        let localPart := splitHead '+' localRaw
        if localPart = "" then none
        else
          let domain := trimMatches '.' domainRaw
          if !containsChar '.' domain || containsChar ' ' domain then none
          else if isDenylistedEmail localPart domain then none
          else some (localPart ++ "@" ++ domain)

/-! ## Domains -/

/-- SOURCE: gdrive.py:386-446 -/
def multiPartSuffixes : List String := Model.multiPartSuffixes

/-- A port needs a digit here.
SOURCE: gdrive.py:518-521 -/
def withoutPort (s : String) : String :=
  match rsplitOnceAt ':' s with
  | some (head, port) => if head ≠ "" ∧ isDigits port then head else s
  | none => s

/-- SOURCE: gdrive.py:497-533 -/
def registrableDomain (host : String) : Option String :=
  if host = "" then none
  else
    let s := lower (strip host)
    if s = "" then none
    else
      let s := withoutPort (withoutPath (withoutUserinfo (withoutScheme s)))
      let s := (stripStart "www." s).getD s
      let s := trimMatches '.' s
      if s = "" ∨ !containsChar '.' s ∨ containsChar ' ' s then none
      else lastLabels multiPartSuffixes ((splitAtChar '.' s).filter (· ≠ ""))

example : registrableDomain "www.A.co.uk:443/x" = some "a.co.uk" := by decide +kernel

end Connector

end Verity.Model
