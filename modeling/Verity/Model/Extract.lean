import Verity.Foundation.Fallible
import Verity.Model.Text

/-!
# Text from Office files

Two of the extraction lanes: the runs of an Office XML part, and the piece table of a legacy Word
file. The XML reader and the container of the Word file are libraries: the reader is given by the
results of its `read_event` calls, in order, and the container by the streams that open in it.

The Word lane reads its offsets and lengths from the file. An index outside a slice panics, which
is a result of its own here (`Fault.panic`); `get` of a range does not. A `usize` has 64 bits, so
the sums of 32-bit numbers that address the file do not overflow.
-/

set_option autoImplicit false

namespace Verity.Model.Extract

open Verity.Foundation

/-! ## The budget -/

/-- SOURCE: extract.rs:333-337 -/
structure Budget where
  out : String
  remaining : Nat
  truncated : Bool
deriving DecidableEq, Repr

namespace Budget

/-- SOURCE: extract.rs:340-346 -/
def new (cap : Nat) : Budget := ⟨"", cap, false⟩

/-- Whether the budget is not used up, beside it. SOURCE: extract.rs:351-371 -/
def push (b : Budget) (s : String) : Budget × Bool :=
  if b.truncated then (b, false)
  else
    let n := s.length
    if n ≤ b.remaining then ({ b with out := b.out ++ s, remaining := b.remaining - n }, true)
    else (⟨b.out ++ String.ofList (s.toList.take b.remaining), 0, true⟩, false)

end Budget

/-! ## Office XML -/

/-- The events the lanes name, and the rest. A text comes with the result of its `decode`. -/
inductive XmlEvent where
  | startTag (name : String)
  | endTag (name : String)
  | emptyTag (name : String)
  | text (decoded : Except String String)
  | generalRef (name : String)
  | other
  | eof
deriving DecidableEq

/-- A loop over `read_event`. What empty tags stand for differs between the two lanes.
SOURCE: extract.rs:537-554, 593-612 -/
def pullText (textRun paragraph : String) (blank : String → Option Char) :
    List (Except String XmlEvent) → List Char → Bool → Except String String
  | [], out, _ => .ok (String.ofList (out.rdropWhile isWhitespace))
  | .error e :: _, _, _ => .error e
  | .ok .eof :: _, out, _ => .ok (String.ofList (out.rdropWhile isWhitespace))
  | .ok (.startTag name) :: rest, out, inTextRun =>
    pullText textRun paragraph blank rest out (if name = textRun then true else inTextRun)
  | .ok (.endTag name) :: rest, out, inTextRun =>
    if name = textRun then pullText textRun paragraph blank rest out false
    else if name = paragraph ∧ out.getLast? ≠ some '\n' ∧ out ≠ [] then
      pullText textRun paragraph blank rest (out ++ ['\n']) inTextRun
    else pullText textRun paragraph blank rest out inTextRun
  | .ok (.emptyTag name) :: rest, out, inTextRun =>
    pullText textRun paragraph blank rest (out ++ (blank name).toList) inTextRun
  | .ok (.text decoded) :: rest, out, inTextRun =>
    if inTextRun then
      match decoded with
      | .error e => .error e
      | .ok s => pullText textRun paragraph blank rest (out ++ s.toList) inTextRun
    else pullText textRun paragraph blank rest out inTextRun
  | .ok (.generalRef _) :: rest, out, inTextRun =>
    pullText textRun paragraph blank rest out inTextRun
  | .ok .other :: rest, out, inTextRun => pullText textRun paragraph blank rest out inTextRun

variable (reader : String → List (Except String XmlEvent))

/-- SOURCE: extract.rs:533-555 -/
def drawingmlText (xml : String) : Except String String :=
  pullText "a:t" "a:p" (fun _ => none) (reader xml) [] false

/-- SOURCE: extract.rs:589-613 -/
def wordmlText (xml : String) : Except String String :=
  let blank (name : String) : Option Char :=
    if name = "w:tab" then some '\t'
    else if name = "w:br" ∨ name = "w:cr" then some '\n'
    else none
  pullText "w:t" "w:p" blank (reader xml) [] false

/-! ## Legacy Word -/

abbrev Bytes := List UInt8

/-- How a call that returns no extraction ends. -/
inductive Fault where
  | docParse (message : String)
  | panic
deriving DecidableEq, Repr

/-- Page counts of the OCR lanes. SOURCE: ocr.rs:116-126 -/
structure OcrPages where
  ocred : Nat
  total : Nat
  skippedUnsupported : Nat
deriving DecidableEq, Repr

/-- SOURCE: extract.rs:53-66 -/
structure Extraction where
  text : String
  method : String
  truncated : Bool
  ocrPages : Option OcrPages
deriving DecidableEq, Repr

/-- `buf[i]` -/
def index {α : Type} (buf : List α) (i : Nat) : Except Fault α := okOr buf[i]? .panic

/-- `buf.get(start..stop)` -/
def slice (buf : Bytes) (start stop : Nat) : Option Bytes :=
  if start ≤ stop ∧ stop ≤ buf.length then some ((buf.drop start).take (stop - start)) else none

def u16Le (lo hi : UInt8) : Nat := lo.toNat + 256 * hi.toNat

/-- SOURCE: extract.rs:656-659 -/
def rdU32 (buf : Bytes) (off : Nat) : Option Nat :=
  match slice buf off (off + 4) with
  | some [b0, b1, b2, b3] => some (u16Le b0 b1 + 65536 * u16Le b2 b3)
  | _ => none

/-- SOURCE: extract.rs:633-637 -/
def high : Vector Char 32 :=
  #v['€', '\x81', '‚', 'ƒ', '„', '…', '†', '‡', 'ˆ', '‰', 'Š', '‹', 'Œ', '\x8d', 'Ž', '\x8f',
    '\x90', '‘', '’', '“', '”', '•', '–', '—', '˜', '™', 'š', '›', 'œ', '\x9d', 'ž', 'Ÿ']

/-- SOURCE: extract.rs:630-642 -/
def cp1252Char (b : UInt8) : Char :=
  if h : 0x80 ≤ b.toNat ∧ b.toNat ≤ 0x9F then high.get ⟨b.toNat - 0x80, by omega⟩
  else Char.ofNat b.toNat

/-- A unit on its own: the halves of a surrogate pair are no characters.
SOURCE: extract.rs:720 -/
def unitChar (u : Nat) : Char := if u.isValidChar then Char.ofNat u else '\uFFFD'

/-- `chunks_exact(2)`, each chunk read as a unit. SOURCE: extract.rs:718-721 -/
def decodeUnits : Bytes → List Char
  | lo :: hi :: rest => unitChar (u16Le lo hi) :: decodeUnits rest
  | _ => []

/-- SOURCE: extract.rs:724-732 -/
def cleanChar (c : Char) : Option Char :=
  if c = '\r' ∨ c = '\x07' ∨ c = '\x0b' ∨ c = '\x0c' then some '\n'
  else if c.toNat ≤ 0x08 ∨ (0x0e ≤ c.toNat ∧ c.toNat ≤ 0x1f) then none
  else some c

/-- SOURCE: extract.rs:708-722 -/
def decodePiece (wds : Bytes) (fc chars : Nat) : List Char :=
  if fc &&& 0x40000000 ≠ 0 then
    let off := (fc &&& 0x3FFFFFFF) / 2
    ((slice wds off (off + chars)).getD []).map cp1252Char
  else decodeUnits ((slice wds fc (fc + chars * 2)).getD [])

/-- Where the Pcdt of a Clx starts, behind its Prc blocks. SOURCE: extract.rs:680-685 -/
def skipPrc (clx : Bytes) (i : Nat) : Except Fault Nat :=
  if h : clx[i]? = some 0x01 then do
    let lo ← index clx (i + 1)
    let hi ← index clx (i + 2)
    have : i < clx.length := (List.getElem?_eq_some_iff.mp h).1
    skipPrc clx (i + (3 + u16Le lo hi))
  else .ok i
termination_by clx.length - i

/-- SOURCE: extract.rs:702-736 -/
def readPieces (wds plc : Bytes) (cps : List Nat) (pcdBase : Nat) :
    List Nat → Budget → Except Fault Budget
  | [], budget => .ok budget
  | p :: ps, budget => do
      let cpStart ← index cps p
      let cpEnd ← index cps (p + 1)
      let fc ← okOr (rdU32 plc (pcdBase + p * 8 + 2)) (.docParse "bad PCD")
      let piece := decodePiece wds fc (cpEnd - cpStart)
      let pushed := budget.push (String.ofList (piece.filterMap cleanChar))
      if pushed.2 then readPieces wds plc cps pcdBase ps pushed.1 else .ok pushed.1

/-- The piece table of a Clx. SOURCE: extract.rs:686-694 -/
def plcfPcd (clx : Bytes) : Except Fault (Nat × Bytes) := do
  let i ← skipPrc clx 0
  if clx[i]? ≠ some 0x02 then .error (.docParse "no Pcdt in Clx")
  else
    let lcb ← okOr (rdU32 clx (i + 1)) (.docParse "bad Pcdt len")
    let plc ← okOr (slice clx (i + 5) (i + 5 + lcb)) (.docParse "plcfPcd out of range")
    .ok ((lcb - 4) / (4 + 8), plc)

/-- SOURCE: extract.rs:695-743 -/
def readClx (wds clx : Bytes) (cap : Nat) : Except Fault Extraction := do
  let (n, plc) ← plcfPcd clx
  if n = 0 then .error (.docParse "empty piece table")
  else
    let cps := (List.range (n + 1)).filterMap fun k => rdU32 plc (k * 4)
    let budget ← readPieces wds plc cps ((n + 1) * 4) (List.range n) (.new cap)
    .ok ⟨trim budget.out, "doc-piecetable", budget.truncated, none⟩

/-- A container that opened, as the results of opening and reading its streams.
SOURCE: extract.rs:644-678 -/
def extractDoc (container : Except String (String → Except String Bytes)) (cap : Nat) :
    Except Fault Extraction := do
  let openStream ← container.mapError .docParse
  let wds ← (openStream "/WordDocument").mapError fun e =>
    .docParse ("WordDocument stream: " ++ e)
  if wds.length < 0x0200 then .error (.docParse "not a Word FIB")
  else
    let b0 ← index wds 0
    let b1 ← index wds 1
    if u16Le b0 b1 ≠ 0xA5EC then .error (.docParse "not a Word FIB")
    else
      let b10 ← index wds 0x0A
      let b11 ← index wds 0x0B
      let flags := u16Le b10 b11
      let tableName := if flags &&& 0x0200 ≠ 0 then "/1Table" else "/0Table"
      let tbl ← (openStream tableName).mapError fun e => .docParse (tableName ++ " stream: " ++ e)
      let fcClx ← okOr (rdU32 wds 0x01A2) (.docParse "no fcClx")
      let lcbClx ← okOr (rdU32 wds 0x01A6) (.docParse "no lcbClx")
      let clx ← okOr (slice tbl fcClx (fcClx + lcbClx)) (.docParse "Clx out of range")
      readClx wds clx cap

end Verity.Model.Extract
