import Verity.Model.Canon
import Verity.Model.Retirement

/-!
# Watched folders

A watched folder is a row of `folder_watches`; its name is the last component of its path, and a
file that is created or modified below it is ingested as a document of the source `folder:<name>`.
What a path holds at the time it is looked at comes from outside. The extraction of text from a
binary format is a parameter, as are the decoding of UTF-8 and the tables of Unicode.

The episode a delivery appends, its content hash, the heartbeat and the freshness sample are left
out: nothing here reads them.
-/

set_option autoImplicit false

namespace Verity.Model

/-- `String::from_utf8`, `char::is_alphanumeric`, and the text `extract::extract` gets out of the
bytes of a file and its name. -/
structure FileLibraries where
  fromUtf8 : List UInt8 → Option String
  isAlphanumeric : Char → Bool
  extract : List UInt8 → Option String → Option String

/-! ## Paths -/

/-- The components of an absolute path. -/
abbrev FilePath := List String

/-- `Path::components` of an absolute path, less its root. -/
def pathComponents (path : String) : FilePath :=
  (splitAtChar '/' path).filter fun c => c ≠ "" ∧ c ≠ "."

/-- `Path::file_name`.
SOURCE: folder_watch.rs:213-215 -/
def fileName (path : FilePath) : Option String := path.getLast?.filter (· ≠ "..")

/-- SOURCE: folder_watch.rs:204-211 -/
def isSkippable (name : String) : Bool :=
  ".".toList.isPrefixOf name.toList || ".tmp".toList.isSuffixOf name.toList ||
    ".swp".toList.isSuffixOf name.toList || ".swx".toList.isSuffixOf name.toList ||
    "~".toList.isSuffixOf name.toList || "~$".toList.isPrefixOf name.toList

/-! ## Watches -/

/-- SOURCE: folder_watch.rs:221-229 -/
structure WatchRow where
  id : Nat
  tenantId : TenantId
  name : String
  path : String
  visibility : List PrincipalToken
  confidentiality : Confidentiality
  lastSeen : Option Time
deriving DecidableEq, Repr

/-- SOURCE: folder_watch.rs:231-233 -/
def sourceName (watchName : String) : String := "folder:" ++ watchName

/-- The folder's own name, or a slug of its path where it has none.
SOURCE: folder_watch.rs:241-259 -/
def deriveName (lib : FileLibraries) (path : String) : String :=
  match (fileName (pathComponents path)).filter (· ≠ "") with
  | some name => name
  | none =>
    let slug := String.ofList (path.toList.map fun c => if lib.isAlphanumeric c then c else '-')
    let trimmed := trimMatches '-' slug
    if trimmed = "" then "root" else trimmed

/-- The row a folder is recorded as when it is added.
SOURCE: folder_watch.rs:1164-1204 -/
def newWatch (lib : FileLibraries) (id : Nat) (tenant : TenantId) (path : String)
    (visibility : List PrincipalToken) (confidentiality : Confidentiality) : WatchRow where
  id := id
  tenantId := tenant
  name := deriveName lib path
  path := path
  visibility := visibility
  confidentiality := confidentiality
  lastSeen := none

/-! ## Chunks of a text -/

/-- The bytes of a text. -/
def byteLen (cs : List Char) : Nat := cs.foldl (fun n c => n + c.utf8Size) 0

/-- `str::split("\n\n")`, after what is read of the paragraph. -/
def splitParagraphs (current : List Char) : List Char → List (List Char)
  | '\n' :: '\n' :: rest => current :: splitParagraphs [] rest
  | c :: rest => splitParagraphs (current ++ [c]) rest
  | [] => [current]

/-- Pieces of at most `max` bytes, and the rest of the paragraph after them.
SOURCE: media.rs:153-162 -/
def hardSplit (max : Nat) (cut : List Char) : List Char → List (List Char) × List Char
  | [] => ([], cut)
  | c :: rest =>
    if max < byteLen (cut ++ [c]) then
      let (pieces, last) := hardSplit max [c] rest
      (cut :: pieces, last)
    else hardSplit max (cut ++ [c]) rest

/-- One paragraph: the chunks so far, and the one that is being filled.
SOURCE: media.rs:141-168 -/
def splitStep (max : Nat) (st : List (List Char) × List Char) (para : List Char) :
    List (List Char) × List Char :=
  let para := para.rdropWhile isWhitespace
  if para.isEmpty then st
  else
    let st :=
      if !st.2.isEmpty ∧ max < byteLen st.2 + 2 + byteLen para then (st.1 ++ [st.2], []) else st
    if max < byteLen para then
      let chunks := if !st.2.isEmpty then st.1 ++ [st.2] else st.1
      let (pieces, last) := hardSplit max [] para
      (chunks ++ pieces, last)
    else if !st.2.isEmpty then (st.1, st.2 ++ ['\n', '\n'] ++ para)
    else (st.1, st.2 ++ para)

/-- SOURCE: media.rs:137-174 -/
def splitText (text : String) (max : Nat) : List String :=
  let (chunks, current) := (splitParagraphs [] text.toList).foldl (splitStep max) ([], [])
  (if !current.isEmpty then chunks ++ [current] else chunks).map String.ofList

example : splitText "ab\n\n\n\ncd \n\nefghi" 6 = ["ab\n\ncd", "efghi"] := by decide +kernel

/-- SOURCE: media.rs:132 -/
def chunkChars : Nat := 2000

/-! ## One file -/

/-- SOURCE: main.rs:4219-4229 -/
inductive DeliveredContent where
  | text (content : String)
  | bytes (raw : List UInt8)
  | none
deriving DecidableEq, Repr

/-- SOURCE: main.rs:4233-4247 -/
structure DocumentIngest where
  tenantId : TenantId
  source : String
  documentId : String
  filename : Option String
  entities : List String
  visibility : List PrincipalToken
  confidentiality : Confidentiality
  aclProvenance : AclProvenance
  validFrom : Option Instant
  delivered : DeliveredContent
deriving DecidableEq, Repr

/-- The delivery an ingest is, by the clock of the server and that of the database.
SOURCE: main.rs:4261-4378 -/
def DocumentIngest.delivery (lib : FileLibraries) (req : DocumentIngest) (receivedAt : Instant)
    (now : Time) (episode : EpisodeId) : DocumentDelivery where
  now := now
  validFrom := req.validFrom.getD receivedAt
  provenance := episode
  aclProvenance := req.aclProvenance
  parts :=
    let text :=
      match req.delivered with
      | .text content => some content
      | .bytes raw => lib.extract raw req.filename
      | .none => none
    (splitText (text.getD "") chunkChars).map fun content =>
      ⟨content, req.visibility, req.entities, req.confidentiality⟩

/-- SOURCE: folder_watch.rs:66 -/
def maxFileBytes : Nat := 200 * 1024

/-- What `metadata` and `read` return for a regular file. -/
structure FileRead where
  len : Nat
  modified : Option Instant
  raw : Option (List UInt8)
deriving DecidableEq, Repr

/-- A NUL byte, or the first bytes of a PDF, a ZIP or an OLE file.
SOURCE: folder_watch.rs:378-383 -/
def looksBinary (raw : List UInt8) : Bool :=
  raw.contains 0 || [0x25, 0x50, 0x44, 0x46, 0x2D].isPrefixOf raw ||
    [0x50, 0x4B, 0x03, 0x04].isPrefixOf raw || [0xD0, 0xCF, 0x11, 0xE0].isPrefixOf raw

/-- The document a path is ingested as, or nothing where it is skipped: it has no name or one that
is skipped, it is no regular file, over the size cap, not readable or empty.
SOURCE: folder_watch.rs:269-349 -/
def ingestFile (lib : FileLibraries) (watch : WatchRow) (path : FilePath) (now : Instant)
    (file : Option FileRead) : Option DocumentIngest := do
  let name ← fileName path
  if isSkippable name then none
  else
    let file ← file
    if maxFileBytes < file.len then none
    else
      let eventAt := file.modified.getD now
      let raw ← file.raw
      if raw.isEmpty then none
      else
        let delivered :=
          match lib.fromUtf8 raw with
          | some text => if !looksBinary raw then .text text else .bytes raw
          | none => .bytes raw
        some
          { tenantId := watch.tenantId
            source := sourceName watch.name
            documentId := name
            filename := some name
            entities := []
            visibility := watch.visibility
            confidentiality := watch.confidentiality
            aclProvenance := .adminAssigned
            validFrom := some eventAt
            delivered := delivered }

/-- A create or modify event of a path below a watched folder, with the time the server takes it
up, what is read there and the episode its delivery gets. -/
structure FileEvent where
  watch : WatchRow
  path : FilePath
  receivedAt : Instant
  now : Time
  episode : EpisodeId
  file : Option FileRead
deriving DecidableEq, Repr

/-- SOURCE: folder_watch.rs:464-479 -/
def folderStep (lib : FileLibraries) (db : Database) (e : FileEvent) : Option Database :=
  match ingestFile lib e.watch e.path e.receivedAt e.file with
  | some req =>
    documentStep req.tenantId req.source req.documentId db
      (.deliver (req.delivery lib e.receivedAt e.now e.episode))
  | none => some db

/-! ## The loops that split a text

`split_text` cuts a long paragraph at byte positions, and looks for a position between two
characters by stepping back from the bound. Here its two inner loops are as they stand, so that
they may run forever; what they compute is `hardSplit`, `splitStep` and `splitText`.
-/

/-- What is before a byte position and what is from it on. A position inside a character, or
beyond the end, is none to cut at. -/
def sliceAt : Nat → List Char → Option (List Char × List Char)
  | 0, cs => some ([], cs)
  | _ + 1, [] => none
  | i + 1, c :: cs =>
    if c.utf8Size ≤ i + 1 then
      (sliceAt (i + 1 - c.utf8Size) cs).map fun (before, rest) => (c :: before, rest)
    else none

/-- `str::is_char_boundary` -/
def isCharBoundary (cs : List Char) (i : Nat) : Bool := (sliceAt i cs).isSome

/-- SOURCE: media.rs:155-158 -/
def cutBelow (rest : List Char) : Nat → Nat
  | 0 => 0
  | cut + 1 => if isCharBoundary rest (cut + 1) then cut + 1 else cutBelow rest cut

/-- The loop over a long paragraph, within so many turns: the chunks with the pieces cut off, and
what is left of the paragraph.
SOURCE: media.rs:153-162 -/
def hardSplitLoop (max : Nat) : Nat → List (List Char) → List Char →
    Option (List (List Char) × List Char)
  | 0, chunks, rest => if max < byteLen rest then none else some (chunks, rest)
  | turns + 1, chunks, rest =>
    if max < byteLen rest then
      match sliceAt (cutBelow rest max) rest with
      | none => none
      | some (piece, rest') => hardSplitLoop max turns (chunks ++ [piece]) rest'
    else some (chunks, rest)

/-- SOURCE: media.rs:140-169 -/
def splitStepLoop (max turns : Nat) (st : List (List Char) × List Char) (para : List Char) :
    Option (List (List Char) × List Char) :=
  let para := para.rdropWhile isWhitespace
  if para.isEmpty then some st
  else
    let st :=
      if !st.2.isEmpty ∧ max < byteLen st.2 + 2 + byteLen para then (st.1 ++ [st.2], []) else st
    if max < byteLen para then
      let chunks := if !st.2.isEmpty then st.1 ++ [st.2] else st.1
      hardSplitLoop max turns chunks para
    else if !st.2.isEmpty then some (st.1, st.2 ++ ['\n', '\n'] ++ para)
    else some (st.1, st.2 ++ para)

/-- `split_text`, no paragraph being given more than so many turns.
SOURCE: media.rs:137-174 -/
def splitTextLoop (turns : Nat) (text : String) (max : Nat) : Option (List String) := do
  let (chunks, current) ← (splitParagraphs [] text.toList).foldlM (splitStepLoop max turns) ([], [])
  return (if !current.isEmpty then chunks ++ [current] else chunks).map String.ofList

example : splitTextLoop 3 "ab\n\n\n\ncd \n\nefghi" 6 = some ["ab\n\ncd", "efghi"] := by
  decide +kernel

example : splitTextLoop 3 "añaña" 4 = some ["aña", "ña"] := by decide +kernel

/-- `str::replace("\n\n", "")` -/
def deleteSeparators : List Char → List Char
  | '\n' :: '\n' :: rest => deleteSeparators rest
  | c :: rest => c :: deleteSeparators rest
  | [] => []

end Verity.Model
