import Verity.Model.EvidenceLedger
import Verity.Model.Text

/-!
# Canonical keys

An email or a domain becomes a key of entity resolution when it is brought to a normal form and
is not on the built-in denylist. A key is stamped with the population it belongs to, by the source
and the field it was read from.
-/

set_option autoImplicit false

namespace Verity.Model

/-- SOURCE: canon.rs:36-43 -/
inductive KeyNamespace where
  | customerContact
  | internalDirectory
deriving DecidableEq, Repr

/-- SOURCE: canon.rs:48-53 -/
def KeyNamespace.asStr : KeyNamespace → String
  | .customerContact => "customer_contact"
  | .internalDirectory => "internal_directory"

/-- SOURCE: canon.rs:69-74 -/
inductive KeyKind where
  | email
  | domain
  | phone
  | externalId
deriving DecidableEq, Repr

/-- SOURCE: canon.rs:77-84 -/
def KeyKind.asStr : KeyKind → String
  | .email => "email"
  | .domain => "domain"
  | .phone => "phone"
  | .externalId => "external_id"

/-- SOURCE: canon.rs:91-96 -/
structure CanonKey where
  kind : KeyKind
  value : String
  keyNamespace : KeyNamespace
deriving DecidableEq, Repr

/-! ## The built-in denylist -/

/-- SOURCE: canon.rs:110-130 -/
def freemailDomains : List String :=
  ["gmail.com", "googlemail.com", "yahoo.com", "ymail.com", "hotmail.com", "outlook.com",
    "live.com", "msn.com", "aol.com", "icloud.com", "me.com", "mac.com", "proton.me",
    "protonmail.com", "gmx.com", "mail.com", "zoho.com", "yandex.com", "pm.me"]

/-- SOURCE: canon.rs:134-146 -/
def placeholderDomains : List String :=
  ["example.com", "example.org", "example.net", "example.edu", "test.com", "localhost",
    "invalid", "none.com", "noemail.com", "no-reply.com", "noreply.com"]

/-- SOURCE: canon.rs:150-191 -/
def roleLocals : List String :=
  ["info", "sales", "support", "admin", "administrator", "contact", "hello", "help", "office",
    "team", "marketing", "billing", "accounts", "accounting", "finance", "hr", "jobs", "careers",
    "press", "media", "legal", "privacy", "security", "abuse", "postmaster", "webmaster",
    "noreply", "no-reply", "donotreply", "do-not-reply", "mailer-daemon", "notifications",
    "notification", "newsletter", "enquiries", "inquiries", "service", "customerservice",
    "orders", "hi"]

/-- SOURCE: canon.rs:217-219 -/
def isDeniedDomain (domain : String) : Bool :=
  freemailDomains.contains domain || placeholderDomains.contains domain

/-- `str::split_once` at a character. -/
def splitOnceAt (c : Char) (s : String) : Option (String × String) :=
  (splitFirst c s.toList).map fun p => (String.ofList p.1, String.ofList p.2)

/-- SOURCE: canon.rs:200-215 -/
def isDenylisted (kind : KeyKind) (value : String) : Bool :=
  let v := toAsciiLowercase (trim value)
  match kind with
  | .domain => isDeniedDomain v
  | .email =>
    match splitOnceAt '@' v with
    | some (localPart, domain) =>
      let localBase := ((splitOnceAt '+' localPart).map Prod.fst).getD localPart
      roleLocals.contains localBase || isDeniedDomain domain
    | none => true
  | .phone | .externalId => false

/-! ## Emails -/

/-- SOURCE: canon.rs:236-269 -/
def canonicalizeEmail (raw : String) (keyNamespace : KeyNamespace) : Option CanonKey := do
  let s := toAsciiLowercase (trim raw)
  let s := trim ((stripStart "mailto:" s).getD s)
  let (localRaw, domainRaw) ← splitOnceAt '@' s
  if localRaw = "" ∨ domainRaw = "" then none
  else if containsChar '@' domainRaw then none
  else
    let localPart := ((splitOnceAt '+' localRaw).map Prod.fst).getD localRaw
    if localPart = "" then none
    else
      let domain := trimMatches '.' domainRaw
      if !containsChar '.' domain || containsChar ' ' domain then none
      else
        let value := localPart ++ "@" ++ domain
        if isDenylisted .email value then none else some ⟨.email, value, keyNamespace⟩

/-- SOURCE: canon.rs:616-628 -/
def internalFields : List String :=
  ["assignee.email", "assignee_email", "creator.email", "creator_email", "actor.email",
    "actor_email", "user.email", "user_email", "subscriber.email", "subscriber_email",
    "reporter.email"]

/-- SOURCE: canon.rs:614-638 -/
def namespaceForSourceField (source field : String) : KeyNamespace :=
  if internalFields.contains (toAsciiLowercase field) then .internalDirectory
  else if toAsciiLowercase source = "linear" then .internalDirectory
  else .customerContact

example : canonicalizeEmail " MailTo:Jane.Doe+News@Acme.COM. " .customerContact =
    some ⟨.email, "jane.doe@acme.com", .customerContact⟩ := by decide +kernel

/-! ## Domains -/

/-- `str::rsplit_once` at a character. -/
def rsplitOnceAt (c : Char) (s : String) : Option (String × String) :=
  (splitFirst c s.toList.reverse).map fun p =>
    (String.ofList p.2.reverse, String.ofList p.1.reverse)

/-- The text after the first occurrence of `part`. -/
def afterFirst (part : List Char) : List Char → Option (List Char)
  | [] => none
  | c :: cs =>
    if part <+: c :: cs then some ((c :: cs).drop part.length) else afterFirst part cs

/-- The text before the first `c`, the whole of it when there is none. -/
def beforeChar (c : Char) (s : String) : String := String.ofList (s.toList.takeWhile (· ≠ c))

/-- Everything up to and including the first `://` goes, else a leading `mailto:`.
SOURCE: canon.rs:327-331 -/
def withoutScheme (s : String) : String :=
  match afterFirst "://".toList s.toList with
  | some rest => String.ofList rest
  | none => (stripStart "mailto:" s).getD s

/-- SOURCE: canon.rs:333-335 -/
def withoutUserinfo (s : String) : String := ((rsplitOnceAt '@' s).map Prod.snd).getD s

/-- SOURCE: canon.rs:337-341 -/
def withoutPath (s : String) : String :=
  ['/', '?', '#'].foldl (fun s sep => beforeChar sep s) s

/-- A port is what follows the last colon, when all of it is digits and a host stands before it.
SOURCE: canon.rs:343-348 -/
def withoutPort (s : String) : String :=
  match rsplitOnceAt ':' s with
  | some (host, port) => if port.toList.all Char.isDigit ∧ host ≠ "" then host else s
  | none => s

/-- SOURCE: canon.rs:321-354 -/
def extractHost (raw : String) : Option String :=
  let s := toAsciiLowercase (trim raw)
  if s = "" then none
  else
    let s := withoutPort (withoutPath (withoutUserinfo (withoutScheme s)))
    let host := trim (trimMatches '.' s)
    if host = "" ∨ !containsChar '.' host ∨ containsChar ' ' host then none else some host

/-- SOURCE: canon.rs:392-458 -/
def multiPartSuffixes : List String :=
  ["co.uk", "org.uk", "me.uk", "ltd.uk", "plc.uk", "net.uk", "sch.uk", "ac.uk", "gov.uk", "com.au",
    "net.au", "org.au", "edu.au", "gov.au", "asn.au", "id.au", "co.nz", "net.nz", "org.nz",
    "govt.nz", "ac.nz", "school.nz", "co.jp", "or.jp", "ne.jp", "ac.jp", "go.jp", "com.br",
    "net.br", "org.br", "gov.br", "co.in", "net.in", "org.in", "gen.in", "firm.in", "ind.in",
    "co.za", "net.za", "org.za", "gov.za", "com.mx", "com.sg", "com.hk", "com.cn", "com.tr",
    "com.ar", "com.tw", "com.my", "co.kr", "co.il", "co.id", "co.th", "com.pl", "com.ua", "com.ph",
    "com.vn"]

/-- The last two labels, or the last three when the last two are one of the suffixes.
SOURCE: canon.rs:379-387 -/
def lastLabels (suffixes labels : List String) : Option String :=
  match labels.reverse with
  | last :: second :: rest =>
    let lastTwo := second ++ "." ++ last
    match rest with
    | third :: _ =>
      if suffixes.contains lastTwo then some (third ++ "." ++ lastTwo) else some lastTwo
    | [] => some lastTwo
  | _ => none

/-- SOURCE: canon.rs:376-388 -/
def registrableDomain (host : String) : Option String :=
  lastLabels multiPartSuffixes ((splitAtChar '.' (trimMatches '.' host)).filter (· ≠ ""))

/-- The registrable domain a text names, before the denylist is asked.
SOURCE: canon.rs:292-294 -/
def namedDomain (raw : String) : Option String :=
  (extractHost raw).bind fun host => registrableDomain ((stripStart "www." host).getD host)

/-- SOURCE: canon.rs:291-303 -/
def canonicalizeDomain (raw : String) (keyNamespace : KeyNamespace) : Option CanonKey := do
  let reg ← namedDomain raw
  if isDenylisted .domain reg then none else some ⟨.domain, reg, keyNamespace⟩

example : namedDomain "www.A.co.uk:443/x" = some "a.co.uk" := by decide +kernel

end Verity.Model
