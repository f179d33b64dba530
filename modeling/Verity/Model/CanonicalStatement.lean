import Verity.Foundation.Regex
import Verity.Model.ConnectorCanon

/-!
# The canonical form of a lesson

The worker sends a canonical form along with each statement it has extracted, and the server
merges the evidence of statements whose forms are equal. The patterns are matched in lower case,
where nothing but the letters of words and white space is left of a text.
-/

set_option autoImplicit false

namespace Verity.Model

open Verity.Foundation

/-- The letters of a word that are left: `[a-z0-9_]`. -/
def isWordChar (c : Char) : Bool :=
  decide ('a' ≤ c ∧ c ≤ 'z') || decide ('0' ≤ c ∧ c ≤ '9') || c == '_'

/-! ## The tables -/

/-- SOURCE: consolidation.py:63-99 -/
def canonicalFiller : List String :=
  ["a", "an", "the", "some", "any", "will", "they", "any", "be", "been", "is", "are", "to", "that",
    "can", "proceed", "begin", "start", "started", "executed", "signed", "of", "and", "always",
    "consistently", "usually", "typically", "generally", "often", "tend", "tends", "every", "all"]

/-- SOURCE: consolidation.py:144-177 -/
def canonicalSynonyms : List (String × String) :=
  [("dpa", "signed_dpa"), ("dpas", "signed_dpa"), ("data", ""), ("processing", ""),
    ("agreement", ""), ("agreements", ""), ("enterprise", "segment_buyer"),
    ("procurement", "segment_buyer"), ("buyers", "segment_buyer"), ("buyer", "segment_buyer"),
    ("accounts", "segment_buyer"), ("account", "segment_buyer"), ("teams", "segment_buyer"),
    ("team", "segment_buyer"), ("customers", "segment_buyer"), ("customer", "segment_buyer"),
    ("clients", "segment_buyer"), ("security", "security_review"), ("review", "security_review"),
    ("assessment", "security_review"), ("assessments", "security_review"),
    ("require", "requires"), ("requires", "requires"), ("required", "requires"),
    ("requiring", "requires"), ("need", "requires"), ("needs", "requires"),
    ("require_before", "requires"), ("block", "blocks"), ("blocks", "blocks"),
    ("blocked", "blocks"), ("before", "before"), ("until", "before")]

namespace Phrases

def text (s : String) (rest : Regex Char) : Regex Char := Regex.lit s.toList rest

/-- `\s+` -/
def spaces : Regex Char := Regex.some Connector.isSpace

/-- `[- ]` -/
def dash : Regex Char := .one fun c => c == '-' || c == ' '

/-- `\bdata\s+processing\s+agreement\b` -/
def processingAgreement : Regex Char :=
  .seq .edge (text "data" (.seq spaces (text "processing" (.seq spaces (text "agreement" .edge)))))

/-- `\bsigned\s+dpa\b` -/
def signedDpa : Regex Char := .seq .edge (text "signed" (.seq spaces (text "dpa" .edge)))

/-- `\bbusiness\s+associate\s+agreement\b` -/
def associateAgreement : Regex Char :=
  .seq .edge
    (text "business" (.seq spaces (text "associate" (.seq spaces (text "agreement" .edge)))))

/-- `\bbaa\b` -/
def baa : Regex Char := .seq .edge (text "baa" .edge)

/-- `\bsoc\s*2(?:\s+type\s+ii)?(?:\s+(?:report|attestation))?\b` -/
def soc2 : Regex Char :=
  .seq .edge (text "soc" (.seq (.many Connector.isSpace) (text "2"
    (.seq (.opt (.seq spaces (text "type" (.seq spaces (text "ii" .empty)))))
      (.seq (.opt (.seq spaces (.alt (text "report" .empty) (text "attestation" .empty))))
        .edge)))))

/-- `\b(?:third[- ]party\s+|independent\s+)?pen(?:etration)?[- ]test(?:\s+report)?\b` -/
def pentest : Regex Char :=
  .seq .edge (.seq
    (.opt (.alt (text "third" (.seq dash (text "party" spaces))) (text "independent" spaces)))
    (text "pen" (.seq (.opt (text "etration" .empty)) (.seq dash (text "test"
      (.seq (.opt (.seq spaces (text "report" .empty))) .edge))))))

/-- `\b(?:vendor\s+)?security\s+questionnaire\b` -/
def questionnaire : Regex Char :=
  .seq .edge (.seq (.opt (text "vendor" spaces))
    (text "security" (.seq spaces (text "questionnaire" .edge))))

/-- `\bsecurity\s+(?:review|assessment|evaluation|evaluations)\b` -/
def securityReview : Regex Char :=
  .seq .edge (text "security" (.seq spaces (.seq
    (.alt (text "review" .empty) (.alt (text "assessment" .empty)
      (.alt (text "evaluation" .empty) (text "evaluations" .empty)))) .edge)))

/-- `\bsecurity\s+teams?\b` -/
def securityTeams : Regex Char :=
  .seq .edge (text "security" (.seq spaces (text "team" (.seq (.opt (text "s" .empty)) .edge))))

/-- `\([^)]*\)` -/
def parenthetical : Regex Char :=
  .seq (.one (· == '(')) (.seq (.many (· != ')')) (.one (· == ')')))

/-- `[^a-z0-9_\s]` -/
def punctuation : Regex Char := .one fun c => !(isWordChar c || Connector.isSpace c)

/-- `\buntil\b` -/
def untilWord : Regex Char := .seq .edge (text "until" .edge)

/-- `\bblock` -/
def blockStem : Regex Char := .seq .edge (text "block" .empty)

/-- `\bblock\w*\b` -/
def blockWord : Regex Char := .seq .edge (text "block" (.seq (.many isWordChar) .edge))

end Phrases

/-- The phrases in the order in which they are replaced. SOURCE: consolidation.py:187-205 -/
def canonicalPhrases : List (Regex Char × String) :=
  [(Phrases.processingAgreement, " signed_dpa "), (Phrases.signedDpa, " signed_dpa "),
    (Phrases.associateAgreement, " signed_baa "), (Phrases.baa, " signed_baa "),
    (Phrases.soc2, " soc2_report "), (Phrases.pentest, " pentest "),
    (Phrases.questionnaire, " security_questionnaire "),
    (Phrases.securityReview, " security_review "), (Phrases.securityTeams, " segment_buyer ")]

/-! ## The text -/

def replaceAll (pattern : Regex Char) (repl : String) (s : List Char) : List Char :=
  Regex.sub isWordChar pattern repl.toList s

/-- `str.partition`, without the separator: the texts on either side of its first occurrence. -/
def partitionAt (separator : List Char) : List Char → List Char × List Char
  | [] => ([], [])
  | c :: rest =>
    if separator.isPrefixOf (c :: rest) then ([], (c :: rest).drop separator.length)
    else
      let (left, right) := partitionAt separator rest
      (c :: left, right)

/-- What blocks an event until something is there requires it before the event.
SOURCE: consolidation.py:226-235 -/
def invertBlocks (s : List Char) : List Char :=
  if Regex.search isWordChar Phrases.untilWord s && Regex.search isWordChar Phrases.blockStem s then
    let (left, right) := partitionAt " until ".toList s
    " requires ".toList ++ right ++ " before ".toList ++ replaceAll Phrases.blockWord " " left ++
      " ".toList
  else s

/-- The text that is cut into tokens, for a statement in ASCII.
SOURCE: consolidation.py:218-235 -/
def canonicalText (statement : String) : List Char :=
  let s := (Connector.lower statement).toList
  let s := replaceAll Phrases.parenthetical " " s
  let s := replaceAll Phrases.punctuation " " s
  invertBlocks (canonicalPhrases.foldl (fun s phrase => replaceAll phrase.1 phrase.2 s) s)

/-- `str.split()`. -/
def splitSpaces (s : List Char) : List String :=
  ((s.splitOnP Connector.isSpace).filter (· ≠ [])).map String.ofList

/-! ## The tokens -/

/-- A token as the tables have it, unless they drop it. SOURCE: consolidation.py:239-245 -/
def mapToken (tok : String) : Option String :=
  let syn := (canonicalSynonyms.lookup tok).getD tok
  if syn = "" then none
  else if syn ∈ canonicalFiller then none
  else some syn

/-- SOURCE: consolidation.py:247-251 -/
def dedupeTokens (mapped : List String) : List String :=
  mapped.foldl (fun deduped tok => if tok ∈ deduped then deduped else deduped ++ [tok]) []

/-- `sorted`. -/
def sortTokens (tokens : List String) : List String := tokens.insertionSort (· ≤ ·)

/-- SOURCE: consolidation.py:264 -/
def structuralTokens : List String :=
  ["before", "requires", "blocks", "segment_buyer", "security_review"]

def predicateTokens : List String := ["requires", "blocks"]

/-- The form of a requirement with a gate. SOURCE: consolidation.py:261-273 -/
def assembleRoles (deduped : List String) : List String :=
  (if "segment_buyer" ∈ deduped then ["segment_buyer"] else []) ++ ["requires"] ++
    sortTokens (deduped.filter (· ∉ structuralTokens)) ++
      (if "security_review" ∈ deduped then ["before", "security_review"] else [])

/-- The form of anything else. SOURCE: consolidation.py:275-284 -/
def assembleGeneral (deduped : List String) : List String :=
  let predicates := deduped.filter (· ∈ predicateTokens)
  let subjects := deduped.filter (· = "segment_buyer")
  let rest := sortTokens (deduped.filter fun t => t ∉ predicates ∧ t ∉ subjects)
  (if subjects ≠ [] then ["segment_buyer"] else []) ++ predicates.head?.toList ++ rest

/-- SOURCE: consolidation.py:259-284 -/
def assemble (deduped : List String) : List String :=
  if "before" ∈ deduped ∧ ∃ t ∈ deduped, t ∈ predicateTokens then assembleRoles deduped
  else assembleGeneral deduped

/-- The canonical form of a statement in ASCII. SOURCE: consolidation.py:208-284 -/
def canonicalStatement (statement : String) : String :=
  Connector.strip (" ".intercalate
    (assemble (dedupeTokens ((splitSpaces (canonicalText statement)).filterMap mapToken))))

end Verity.Model
