import Verity.Model.Extract

/-!
# What is lost of an Office document

A document is a list of paragraphs of text runs, written as the elements of one of the two
vocabularies with the characters of its runs escaped. The reader reports the character data of an
element as texts and references: the escaped characters are references, and the loops of the
lanes pass over these. So a document comes back as it was exactly when nothing in it had to be
escaped (`texts_survive_iff`).
-/

set_option autoImplicit false

namespace Verity.Analysis.OfficeXml

open Verity.Foundation Verity.Model Verity.Model.Extract

/-! ## Documents and the text they stand for -/

/-- Paragraphs of runs. -/
abbrev Document := List (List String)

variable {events : List XmlEvent} {f : List Char → List Char} {name : String}
  {rest : List (Except String XmlEvent)} {out cs : List Char} {doc : Document} {c : Char}

def paragraphText (paragraph : List String) : List Char := paragraph.flatMap String.toList

def joinedLines (paragraphs : List (List Char)) : List Char :=
  List.intercalate ['\n'] (paragraphs.filter (· ≠ []))

/-- The texts of the non-empty paragraphs, joined by newlines, without whitespace at the end. -/
def plainText (doc : Document) : String :=
  String.ofList ((joinedLines (doc.map paragraphText)).rdropWhile isWhitespace)

def Document.chars (doc : Document) : List Char := doc.flatMap paragraphText

/-- The production `Char` of XML 1.0. -/
def IsXmlChar (c : Char) : Prop :=
  c.toNat = 0x9 ∨ c.toNat = 0xA ∨ c.toNat = 0xD ∨ (0x20 ≤ c.toNat ∧ c.toNat ≤ 0xD7FF) ∨
    (0xE000 ≤ c.toNat ∧ c.toNat ≤ 0xFFFD) ∨ (0x10000 ≤ c.toNat ∧ c.toNat ≤ 0x10FFFF)

instance : DecidablePred IsXmlChar := fun c => by
  unfold IsXmlChar
  infer_instance

/-! ## Parts and the events they are read as -/

/-- The element names of a kind of part: those around the paragraphs, and those of a paragraph, a
run and the text of a run. -/
structure Vocabulary where
  outer : List String
  paragraph : String
  run : String
  text : String

def wordml : Vocabulary := ⟨["w:document", "w:body"], "w:p", "w:r", "w:t"⟩

def drawingml : Vocabulary :=
  ⟨["p:sld", "p:cSld", "p:spTree", "p:sp", "p:txBody"], "a:p", "a:r", "a:t"⟩

/-- The entities a serialiser may use: those predefined in XML, for `&` and `<` always. -/
structure StandardEscapes (escapes : Char → Option String) : Prop where
  predefined : ∀ c entity, escapes c = some entity →
    (c, entity) ∈ [('&', "amp"), ('<', "lt"), ('>', "gt"), ('"', "quot"), ('\'', "apos")]
  ampersand : escapes '&' = some "amp"
  less : escapes '<' = some "lt"

def escapeText (escapes : Char → Option String) (text : String) : String :=
  String.join (text.toList.map fun c =>
    match escapes c with
    | some entity => "&" ++ entity ++ ";"
    | none => String.singleton c)

def element (name content : String) : String :=
  "<" ++ name ++ ">" ++ content ++ "</" ++ name ++ ">"

def serialize (v : Vocabulary) (escapes : Char → Option String) (doc : Document) : String :=
  v.outer.foldr element (String.join (doc.map fun paragraph =>
    element v.paragraph (String.join (paragraph.map fun run =>
      element v.run (element v.text (escapeText escapes run))))))

/-- Character data is reported as texts, split anywhere, and one reference for each escape. -/
inductive CharacterData (escapes : Char → Option String) : List Char → List XmlEvent → Prop where
  | nil : CharacterData escapes [] []
  | text {s : String} {cs : List Char} {events : List XmlEvent}
      (hraw : ∀ c ∈ s.toList, escapes c = none) (rest : CharacterData escapes cs events) :
      CharacterData escapes (s.toList ++ cs) (.text (.ok s) :: events)
  | reference {c : Char} {entity : String} {cs : List Char} {events : List XmlEvent}
      (hescaped : escapes c = some entity) (rest : CharacterData escapes cs events) :
      CharacterData escapes (c :: cs) (.generalRef entity :: events)

def elementEvents (name : String) (content : List XmlEvent) : List XmlEvent :=
  .startTag name :: (content ++ [.endTag name])

section Events

variable (v : Vocabulary) (escapes : Char → Option String)

def RunEvents (run : String) (events : List XmlEvent) : Prop :=
  ∃ data, CharacterData escapes run.toList data ∧
    events = elementEvents v.run (elementEvents v.text data)

def ParagraphEvents (paragraph : List String) (events : List XmlEvent) : Prop :=
  ∃ runs, List.Forall₂ (RunEvents v escapes) paragraph runs ∧
    events = elementEvents v.paragraph runs.flatten

/-- The reader reports the serialised document element by element, and then the end. -/
def Reports (reader : String → List (Except String XmlEvent)) (doc : Document) : Prop :=
  ∃ paragraphs, List.Forall₂ (ParagraphEvents v escapes) doc paragraphs ∧
    reader (serialize v escapes doc) =
      (v.outer.foldr elementEvents paragraphs.flatten ++ [XmlEvent.eof]).map .ok

end Events

/-! ## The loop over the events of an element -/

section Loop

variable {textRun paragraph : String} {blank : String → Option Char}

/-- Outside a text run the events take the output from `out` to `f out`, whatever follows. -/
def Appends (textRun paragraph : String) (blank : String → Option Char) (events : List XmlEvent)
    (f : List Char → List Char) : Prop :=
  ∀ rest out, pullText textRun paragraph blank (events.map .ok ++ rest) out false =
    pullText textRun paragraph blank rest (f out) false

theorem Appends.nil : Appends textRun paragraph blank [] id := fun _ _ => rfl

theorem Appends.append {events' : List XmlEvent} {g : List Char → List Char}
    (h : Appends textRun paragraph blank events f)
    (h' : Appends textRun paragraph blank events' g) :
    Appends textRun paragraph blank (events ++ events') (g ∘ f) := by
  intro rest out
  rw [List.map_append, List.append_assoc, h, h']
  rfl

theorem pullText_startTag (h : name ≠ textRun) :
    pullText textRun paragraph blank (.ok (.startTag name) :: rest) out
      false = pullText textRun paragraph blank rest out false := by
  rw [pullText, if_neg h]

/-- What the loop does at the end of a paragraph. -/
def closeParagraph (out : List Char) : List Char :=
  if out.getLast? ≠ some '\n' ∧ out ≠ [] then out ++ ['\n'] else out

theorem pullText_endParagraph (h : paragraph ≠ textRun) :
    pullText textRun paragraph blank (.ok (.endTag paragraph) :: rest)
      out false = pullText textRun paragraph blank rest (closeParagraph out) false := by
  rw [pullText, if_neg h]
  unfold closeParagraph
  by_cases hout : out.getLast? ≠ some '\n' ∧ out ≠ []
  · rw [if_pos ⟨rfl, hout⟩, if_pos hout]
  · rw [if_neg fun h => hout h.2, if_neg hout]

theorem pullText_endTag (h : name ≠ textRun) (hparagraph : name ≠ paragraph) :
    pullText textRun paragraph blank (.ok (.endTag name) :: rest) out false =
      pullText textRun paragraph blank rest out false := by
  rw [pullText, if_neg h, if_neg fun h => hparagraph h.1]

/-- An element with a name of its own is passed over, and its content is not. -/
theorem Appends.element (h : Appends textRun paragraph blank events f) (htext : name ≠ textRun)
    (hparagraph : name ≠ paragraph) :
    Appends textRun paragraph blank (elementEvents name events) f := by
  intro rest out
  rw [elementEvents, List.map_cons, List.map_append, List.cons_append, List.append_assoc,
    pullText_startTag htext, h]
  exact pullText_endTag htext hparagraph

theorem Appends.closed (h : Appends textRun paragraph blank events f) (hne : paragraph ≠ textRun) :
    Appends textRun paragraph blank (elementEvents paragraph events) (closeParagraph ∘ f) := by
  intro rest out
  rw [elementEvents, List.map_cons, List.map_append, List.cons_append, List.append_assoc,
    pullText_startTag hne, h]
  exact pullText_endParagraph hne

theorem Appends.outer {outer : List String} (h : Appends textRun paragraph blank events f)
    (htext : textRun ∉ outer) (hparagraph : paragraph ∉ outer) :
    Appends textRun paragraph blank (outer.foldr elementEvents events) f := by
  induction outer with
  | nil => exact h
  | cons name outer ih =>
    rw [List.mem_cons, not_or] at htext hparagraph
    exact (ih htext.2 hparagraph.2).element (Ne.symm htext.1) (Ne.symm hparagraph.1)

/-- What is left of a run: the characters that are not escaped. -/
def unescaped (escapes : Char → Option String) (cs : List Char) : List Char :=
  cs.filter fun c => escapes c = none

theorem pullText_characterData {escapes : Char → Option String}
    (h : CharacterData escapes cs events) (rest : List (Except String XmlEvent)) (out : List Char) :
    pullText textRun paragraph blank (events.map .ok ++ rest) out true =
      pullText textRun paragraph blank rest (out ++ unescaped escapes cs) true := by
  induction h generalizing out with
  | nil => simp [unescaped]
  | @text s cs events hraw _ ih =>
    have hall : unescaped escapes s.toList = s.toList :=
      List.filter_eq_self.mpr fun c hc => by simpa using hraw c hc
    have hsplit : unescaped escapes (s.toList ++ cs) = s.toList ++ unescaped escapes cs := by
      rw [unescaped, List.filter_append, ← unescaped, ← unescaped, hall]
    rw [List.map_cons, List.cons_append, pullText, if_pos rfl, ih, hsplit, List.append_assoc]
  | @reference c entity cs events hescaped _ ih =>
    have hskip : unescaped escapes (c :: cs) = unescaped escapes cs := by
      rw [unescaped, List.filter_cons_of_neg (by simp [hescaped])]
      rfl
    rw [List.map_cons, List.cons_append, pullText, ih, hskip]

/-- The text element of a run adds what is left of the run. -/
theorem appends_text {escapes : Char → Option String} (h : CharacterData escapes cs events) :
    Appends textRun paragraph blank (elementEvents textRun events)
      fun out => out ++ unescaped escapes cs := by
  intro rest out
  rw [elementEvents, List.map_cons, List.map_append, List.cons_append, List.append_assoc,
    pullText, if_pos rfl, pullText_characterData h]
  show pullText textRun paragraph blank (.ok (.endTag textRun) :: rest) _ true = _
  rw [pullText, if_pos rfl]

end Loop

/-! ## A whole part -/

variable {escapes : Char → Option String}

/-- The elements of a vocabulary are told apart by their names. -/
structure Vocabulary.Distinct (v : Vocabulary) : Prop where
  run_text : v.run ≠ v.text
  run_paragraph : v.run ≠ v.paragraph
  paragraph_text : v.paragraph ≠ v.text
  text_outer : v.text ∉ v.outer
  paragraph_outer : v.paragraph ∉ v.outer

theorem distinct_wordml : wordml.Distinct := by
  constructor <;> decide

theorem distinct_drawingml : drawingml.Distinct := by
  constructor <;> decide

/-- What is left of a paragraph, and the newline behind it. -/
def paragraphStep (escapes : Char → Option String) (out : List Char) (paragraph : List String) :
    List Char :=
  closeParagraph (out ++ unescaped escapes (paragraphText paragraph))

section Parts

variable {v : Vocabulary} {blank : String → Option Char}

theorem appends_run (hv : v.Distinct) {run : String} (h : RunEvents v escapes run events) :
    Appends v.text v.paragraph blank events fun out => out ++ unescaped escapes run.toList := by
  obtain ⟨data, hdata, rfl⟩ := h
  exact (appends_text hdata).element hv.run_text hv.run_paragraph

theorem appends_runs (hv : v.Distinct) {runs : List String} {events : List (List XmlEvent)}
    (h : List.Forall₂ (RunEvents v escapes) runs events) :
    Appends v.text v.paragraph blank events.flatten
      fun out => out ++ unescaped escapes (paragraphText runs) := by
  induction h with
  | nil =>
    intro rest out
    simp [unescaped, paragraphText]
  | @cons run events runs eventss hrun _ ih =>
    intro rest out
    have hsplit : unescaped escapes (paragraphText (run :: runs)) =
        unescaped escapes run.toList ++ unescaped escapes (paragraphText runs) := by
      rw [paragraphText, List.flatMap_cons, unescaped, List.filter_append]
      rfl
    rw [List.flatten_cons, (appends_run hv hrun).append ih, hsplit]
    show pullText v.text v.paragraph blank rest (out ++ _ ++ _) false =
      pullText v.text v.paragraph blank rest (out ++ (_ ++ _)) false
    rw [List.append_assoc]

theorem appends_paragraphs (hv : v.Distinct) {events : List (List XmlEvent)}
    (h : List.Forall₂ (ParagraphEvents v escapes) doc events) :
    Appends v.text v.paragraph blank events.flatten
      fun out => doc.foldl (paragraphStep escapes) out := by
  induction h with
  | nil => exact Appends.nil
  | @cons paragraph events doc eventss hparagraph _ ih =>
    obtain ⟨runs, hruns, rfl⟩ := hparagraph
    have hfirst : Appends v.text v.paragraph blank (elementEvents v.paragraph runs.flatten)
        (closeParagraph ∘ fun out => out ++ unescaped escapes (paragraphText paragraph)) :=
      (appends_runs hv hruns).closed hv.paragraph_text
    intro rest out
    rw [List.flatten_cons, hfirst.append ih]
    rfl

/-- The loop over a whole part. -/
theorem pullText_part (hv : v.Distinct) {reader : String → List (Except String XmlEvent)}
    (h : Reports v escapes reader doc) :
    pullText v.text v.paragraph blank (reader (serialize v escapes doc)) [] false =
      .ok (String.ofList ((doc.foldl (paragraphStep escapes) []).rdropWhile isWhitespace)) := by
  obtain ⟨paragraphs, hparagraphs, hreader⟩ := h
  have hpart : Appends v.text v.paragraph blank (v.outer.foldr elementEvents paragraphs.flatten)
      fun out => doc.foldl (paragraphStep escapes) out :=
    (appends_paragraphs hv hparagraphs).outer hv.text_outer hv.paragraph_outer
  rw [hreader, List.map_append, hpart]
  rfl

end Parts

/-! ## What the loop makes of a document -/

/-- A paragraph with its newline, or nothing. -/
def line (cs : List Char) : List Char := if cs = [] then [] else cs ++ ['\n']

theorem closeParagraph_append (hout : out = [] ∨ out.getLast? = some '\n') (hcs : '\n' ∉ cs) :
    closeParagraph (out ++ cs) = out ++ line cs := by
  unfold closeParagraph line
  cases List.eq_nil_or_concat cs with
  | inl hnil =>
    rw [hnil, List.append_nil, if_pos rfl, List.append_nil, if_neg]
    rintro ⟨hlast, hne⟩
    rcases hout with hout | hout
    · exact hne hout
    · exact hlast hout
  | inr hconcat =>
    obtain ⟨front, last, rfl⟩ := hconcat
    have hlast : last ≠ '\n' := by
      rintro rfl
      exact hcs (by simp)
    rw [if_pos (by simp [hlast]), if_neg (by simp), List.append_assoc]

theorem getLast?_append_line (hout : out = [] ∨ out.getLast? = some '\n') :
    out ++ line cs = [] ∨ (out ++ line cs).getLast? = some '\n' := by
  unfold line
  split
  · rw [List.append_nil]
    exact hout
  · refine Or.inr ?_
    rw [← List.append_assoc]
    simp

/-- Where nothing is escaped, every paragraph is a line. -/
theorem foldl_paragraphStep (hescapes : ∀ c ∈ doc.chars, escapes c = none)
    (hnewline : '\n' ∉ doc.chars) (hout : out = [] ∨ out.getLast? = some '\n') :
    doc.foldl (paragraphStep escapes) out = out ++ (doc.map paragraphText).flatMap line := by
  induction doc generalizing out with
  | nil => simp
  | cons paragraph doc ih =>
    have hchars : Document.chars (paragraph :: doc) = paragraphText paragraph ++
        Document.chars doc := List.flatMap_cons
    rw [hchars] at hescapes hnewline
    rw [List.mem_append, not_or] at hnewline
    have hall : unescaped escapes (paragraphText paragraph) = paragraphText paragraph :=
      List.filter_eq_self.mpr fun c hc => by simpa using hescapes c (List.mem_append_left _ hc)
    have hstep : paragraphStep escapes out paragraph = out ++ line (paragraphText paragraph) := by
      rw [paragraphStep, hall, closeParagraph_append hout hnewline.1]
    rw [List.foldl_cons, hstep, ih (fun c hc => hescapes c (List.mem_append_right _ hc))
      hnewline.2 (getLast?_append_line hout), List.map_cons, List.flatMap_cons, List.append_assoc]

/-- Lines end with a newline, joined lines do not. -/
theorem rdropWhile_flatMap_line (paragraphs : List (List Char)) :
    (paragraphs.flatMap line).rdropWhile isWhitespace =
      (joinedLines paragraphs).rdropWhile isWhitespace := by
  have hlines : paragraphs.flatMap line =
      (paragraphs.filter (· ≠ [])).flatMap fun cs => cs ++ ['\n'] := by
    induction paragraphs with
    | nil => rfl
    | cons cs paragraphs ih =>
      rw [List.flatMap_cons, ih]
      unfold line
      by_cases hcs : cs = []
      · rw [if_pos hcs, List.filter_cons_of_neg (by simp [hcs])]
        rfl
      · rw [if_neg hcs, List.filter_cons_of_pos (by simp [hcs])]
        rfl
  rw [hlines, joinedLines]
  generalize paragraphs.filter (· ≠ []) = lines
  have hjoined : ∀ cs (lines : List (List Char)),
      ((cs :: lines).flatMap fun cs => cs ++ ['\n']) =
        List.intercalate ['\n'] (cs :: lines) ++ ['\n'] := by
    intro cs lines
    induction lines generalizing cs with
    | nil => simp [List.intercalate]
    | cons cs' lines ih =>
      rw [List.flatMap_cons, ih, List.intercalate_cons_cons, List.append_assoc, List.append_assoc,
        List.append_assoc]
  cases lines with
  | nil => rfl
  | cons cs lines =>
    rw [hjoined]
    refine rdropWhile_append_of_forall fun c hc => ?_
    rw [List.mem_singleton.mp hc]
    rfl

/-- An escaped character is never in the output. -/
theorem forall_mem_foldl_paragraphStep (hstandard : StandardEscapes escapes) (doc : Document)
    (hout : ∀ c ∈ out, escapes c = none) :
    ∀ c ∈ doc.foldl (paragraphStep escapes) out, escapes c = none := by
  have hnewline : escapes '\n' = none := by
    cases hentity : escapes '\n' with
    | none => rfl
    | some entity => simpa using hstandard.predefined _ _ hentity
  induction doc generalizing out with
  | nil => exact hout
  | cons paragraph doc ih =>
    apply ih
    have hopen : ∀ c ∈ out ++ unescaped escapes (paragraphText paragraph),
        escapes c = none := by
      intro c hc
      rcases List.mem_append.mp hc with hc | hc
      · exact hout c hc
      · simpa using (List.mem_filter.mp hc).2
    intro c hc
    unfold paragraphStep closeParagraph at hc
    split at hc
    · rcases List.mem_append.mp hc with hc | hc
      · exact hopen c hc
      · rw [List.mem_singleton.mp hc]
        exact hnewline
    · exact hopen c hc

theorem mem_intercalate (front back : List (List Char)) (hc : c ∈ cs) :
    c ∈ List.intercalate ['\n'] (front ++ cs :: back) := by
  induction front with
  | nil =>
    cases back with
    | nil => simpa [List.intercalate] using hc
    | cons cs' back =>
      rw [List.nil_append, List.intercalate_cons_cons]
      simp [hc]
  | cons cs' front ih =>
    have hne : front ++ cs :: back ≠ [] := by simp
    rw [List.cons_append, List.intercalate_cons_of_ne_nil hne]
    exact List.mem_append_right _ ih

theorem mem_joinedLines {paragraphs : List (List Char)} (hcs : cs ∈ paragraphs) (hc : c ∈ cs) :
    c ∈ joinedLines paragraphs := by
  have hne : cs ≠ [] := List.ne_nil_of_mem hc
  have hkept : cs ∈ paragraphs.filter (· ≠ []) := List.mem_filter.mpr ⟨hcs, by simp [hne]⟩
  unfold joinedLines
  generalize paragraphs.filter (· ≠ []) = lines at hkept
  obtain ⟨front, back, rfl⟩ := List.append_of_mem hkept
  exact mem_intercalate front back hc

/-- An escaped character is no whitespace, so it stands in the text of its document. -/
theorem mem_plainText (hstandard : StandardEscapes escapes) (hc : c ∈ doc.chars)
    (hescaped : escapes c ≠ none) : c ∈ (plainText doc).toList := by
  obtain ⟨entity, hentity⟩ := Option.ne_none_iff_exists'.mp hescaped
  have hpredefined := hstandard.predefined c entity hentity
  have hblank : isWhitespace c = false := by
    simp only [List.mem_cons, Prod.mk.injEq, List.not_mem_nil, or_false] at hpredefined
    rcases hpredefined with h | h | h | h | h <;> rw [h.1] <;> decide
  obtain ⟨paragraph, hparagraph, hin⟩ := List.mem_flatMap.mp hc
  rw [plainText, String.toList_ofList]
  exact mem_rdropWhile_of_not (mem_joinedLines (List.mem_map_of_mem hparagraph) hin) hblank

/-- The loop gives back the text of the document exactly when no character had to be escaped. -/
theorem loop_eq_plainText_iff (hstandard : StandardEscapes escapes) (hnewline : '\n' ∉ doc.chars) :
    String.ofList ((doc.foldl (paragraphStep escapes) []).rdropWhile isWhitespace) =
      plainText doc ↔ ∀ c ∈ doc.chars, escapes c = none := by
  constructor
  · intro h c hc
    by_contra hescaped
    have hmem := mem_plainText hstandard hc hescaped
    rw [← h, String.toList_ofList] at hmem
    have hin := (List.rdropWhile_prefix isWhitespace _).subset hmem
    exact hescaped (forall_mem_foldl_paragraphStep hstandard doc (by simp) c hin)
  · intro h
    rw [foldl_paragraphStep h hnewline (Or.inl rfl), List.nil_append, rdropWhile_flatMap_line]
    rfl

/-- Both lanes give back the text of a document exactly when none of its characters is one that
the serialiser escapes. -/
theorem texts_survive_iff {escapes : Char → Option String} (hstandard : StandardEscapes escapes)
    {doc : Document} (hchars : ∀ c ∈ doc.chars, IsXmlChar c ∧ c ≠ '\n')
    {reader : String → List (Except String XmlEvent)} (hword : Reports wordml escapes reader doc)
    (hdrawing : Reports drawingml escapes reader doc) :
    (wordmlText reader (serialize wordml escapes doc) = .ok (plainText doc) ↔
      ∀ c ∈ doc.chars, escapes c = none) ∧
    (drawingmlText reader (serialize drawingml escapes doc) = .ok (plainText doc) ↔
      ∀ c ∈ doc.chars, escapes c = none) := by
  have hnewline : '\n' ∉ doc.chars := fun h => (hchars _ h).2 rfl
  have hloop := loop_eq_plainText_iff hstandard hnewline
  constructor
  · have hword : wordmlText reader (serialize wordml escapes doc) = .ok _ :=
      pullText_part distinct_wordml hword
    rw [hword, Except.ok.injEq]
    exact hloop
  · have hdrawing : drawingmlText reader (serialize drawingml escapes doc) = .ok _ :=
      pullText_part distinct_drawingml hdrawing
    rw [hdrawing, Except.ok.injEq]
    exact hloop

/-! ### One run with an ampersand -/

def predefinedEscapes (c : Char) : Option String :=
  if c = '&' then some "amp"
  else if c = '<' then some "lt"
  else if c = '>' then some "gt"
  else if c = '"' then some "quot"
  else if c = '\'' then some "apos"
  else none

def ampersandDoc : Document := [["R&D"]]

def ampersandEvents (v : Vocabulary) : List XmlEvent :=
  v.outer.foldr elementEvents (elementEvents v.paragraph (elementEvents v.run (elementEvents v.text
    [.text (.ok "R"), .generalRef "amp", .text (.ok "D")]))) ++ [.eof]

/-- The reader on the two parts that hold this document. -/
def ampersandReader (xml : String) : List (Except String XmlEvent) :=
  if xml = serialize wordml predefinedEscapes ampersandDoc then (ampersandEvents wordml).map .ok
  else if xml = serialize drawingml predefinedEscapes ampersandDoc then
    (ampersandEvents drawingml).map .ok
  else [.error "no such part"]

theorem standardEscapes_predefined : StandardEscapes predefinedEscapes := by
  constructor
  · intro c entity h
    unfold predefinedEscapes at h
    split_ifs at h with hc hc hc hc hc <;> simp_all
  · rfl
  · rfl

theorem ampersandDoc_chars : ∀ c ∈ ampersandDoc.chars, IsXmlChar c ∧ c ≠ '\n' :=
  forall_mem_of_all (by decide +kernel)

theorem reports_ampersand {v : Vocabulary}
    (h : ampersandReader (serialize v predefinedEscapes ampersandDoc) =
      (ampersandEvents v).map .ok) : Reports v predefinedEscapes ampersandReader ampersandDoc := by
  have hdata : CharacterData predefinedEscapes "R&D".toList
      [.text (.ok "R"), .generalRef "amp", .text (.ok "D")] := by
    have hchars : "R&D".toList = "R".toList ++ '&' :: ("D".toList ++ []) := by decide
    rw [hchars]
    exact .text (forall_mem_of_all (by decide))
      (.reference rfl (.text (forall_mem_of_all (by decide)) .nil))
  exact ⟨_, .cons ⟨_, .cons ⟨_, hdata, rfl⟩ .nil, rfl⟩ .nil, h⟩

/-- A document with an ampersand comes back neither from the one format nor from the other. -/
theorem texts_survive_iff_ampersand :
    (wordmlText ampersandReader (serialize wordml predefinedEscapes ampersandDoc) =
        .ok (plainText ampersandDoc) ↔ ∀ c ∈ ampersandDoc.chars, predefinedEscapes c = none) ∧
      (drawingmlText ampersandReader (serialize drawingml predefinedEscapes ampersandDoc) =
        .ok (plainText ampersandDoc) ↔ ∀ c ∈ ampersandDoc.chars, predefinedEscapes c = none) :=
  texts_survive_iff standardEscapes_predefined ampersandDoc_chars
    (reports_ampersand (by decide +kernel)) (reports_ampersand (by decide +kernel))

/-- The ampersand of one run is lost in both lanes. -/
theorem ampersand_is_lost :
    StandardEscapes predefinedEscapes ∧ (∀ c ∈ ampersandDoc.chars, IsXmlChar c ∧ c ≠ '\n') ∧
      Reports wordml predefinedEscapes ampersandReader ampersandDoc ∧
      Reports drawingml predefinedEscapes ampersandReader ampersandDoc ∧
      wordmlText ampersandReader (serialize wordml predefinedEscapes ampersandDoc) = .ok "RD" ∧
      drawingmlText ampersandReader (serialize drawingml predefinedEscapes ampersandDoc) =
        .ok "RD" ∧
      plainText ampersandDoc = "R&D" :=
  ⟨standardEscapes_predefined, ampersandDoc_chars, reports_ampersand (by decide +kernel),
    reports_ampersand (by decide +kernel), by decide +kernel, by decide +kernel,
    by decide +kernel⟩

end Verity.Analysis.OfficeXml
