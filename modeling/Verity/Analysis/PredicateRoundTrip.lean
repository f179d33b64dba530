import Verity.Analysis.PathGrammar
import Verity.Analysis.PredicateScanner

/-!
# Printing a predicate and parsing it again

A predicate is printed as the tokens the documented grammar has for its terms, with single spaces
between them; a number is printed as any text that denotes it. Every such token is read back by
the scanner, and the terms by the parser. Two things stand in the way of a round trip for every
predicate: the scanner decides between a path and a literal by the word before the first bracket,
and a text that was accepted without spaces may be too long with them.
-/

set_option autoImplicit false

namespace Verity.Analysis

open Verity.Foundation
open Verity.Model

variable {c : Char} {w cs : List Char} {n : F64} {rest text : List Char} {segments : List Segment}
  {lits : List Literal} {term : PredicateTerm} {tokens : List Token} {terms : List PredicateTerm}
  {tail : List Token}

/-! ## The characters of a number -/

/-- A character that neither ends a word nor is trimmed. -/
def IsPlain (c : Char) : Prop := isDelimiter c = false ∧ isWhitespace c = false

instance : DecidablePred IsPlain := fun _ => inferInstanceAs (Decidable (_ ∧ _))

theorem isPlain_digit (h : isAsciiDigit c = true) : IsPlain c := by
  refine char_forall (P := fun c => isAsciiDigit c = true → IsPlain c) (by decide +kernel)
    (fun c hc h => ?_) c h
  have hle : c ≤ '9' := (of_decide_eq_true h).2
  have hnat : c.toNat ≤ 57 := hle
  omega

theorem isPlain_of_asciiLower (h : IsPlain (asciiLower c)) : IsPlain c :=
  char_forall (P := fun c => IsPlain (asciiLower c) → IsPlain c) (by decide +kernel)
    (fun c hc h => by rwa [asciiLower_of_ge hc] at h) c h

/-- A word that is `inf`, `infinity` or `nan` in some case. -/
theorem isPlain_of_map_asciiLower {name : List Char} (hname : ∀ c ∈ name, IsPlain c)
    (h : w.map asciiLower = name) : ∀ c ∈ w, IsPlain c := by
  intro c hc
  refine isPlain_of_asciiLower (hname _ ?_)
  rw [← h]
  exact List.mem_map_of_mem hc

theorem isPlain_of_takeSign (h : ∀ c ∈ (takeSign w).2, IsPlain c) : ∀ c ∈ w, IsPlain c := by
  unfold takeSign at h
  split at h
  · exact List.forall_mem_cons.mpr ⟨by decide, h⟩
  · exact List.forall_mem_cons.mpr ⟨by decide, h⟩
  · exact h

theorem isPlain_of_parseExponent {e : Int} (h : parseExponent cs = some e) :
    ∀ c ∈ cs, IsPlain c := by
  cases cs with
  | nil => simp
  | cons c cs =>
    simp only [parseExponent, Option.ite_none_right_eq_some] at h
    obtain ⟨⟨hc, -, hdigits⟩, -⟩ := h
    refine List.forall_mem_cons.mpr ⟨?_, ?_⟩
    · rcases hc with rfl | rfl
      · decide
      · decide
    · exact isPlain_of_takeSign fun c hmem => isPlain_digit (List.all_eq_true.mp hdigits c hmem)

theorem isPlain_of_takeWhile_digits (h : ∀ c ∈ cs.dropWhile isAsciiDigit, IsPlain c) :
    ∀ c ∈ cs, IsPlain c := by
  intro c hc
  rw [← List.takeWhile_append_dropWhile (p := isAsciiDigit) (l := cs)] at hc
  rcases List.mem_append.mp hc with hc | hc
  · exact isPlain_digit (List.mem_takeWhile_imp hc)
  · exact h c hc

theorem isPlain_of_parseNumber {negative : Bool} (h : parseNumber negative cs = some n) :
    ∀ c ∈ cs, IsPlain c := by
  have hexponent : ∀ {p : Prop} [Decidable p] {f : Int → F64} {rest : List Char},
      (if p then none else (parseExponent rest).map f) = some n → ∀ c ∈ rest, IsPlain c := by
    intro p _ f rest h
    split at h
    · cases h
    · obtain ⟨e, he, -⟩ := Option.map_eq_some_iff.mp h
      exact isPlain_of_parseExponent he
  refine isPlain_of_takeWhile_digits ?_
  unfold parseNumber at h
  dsimp only at h
  split at h
  case h_1 more hpoint =>
    rw [hpoint]
    exact List.forall_mem_cons.mpr
      ⟨by decide, isPlain_of_takeWhile_digits (hexponent h)⟩
  case h_2 => exact hexponent h

theorem parseF64_nil : parseF64 [] = none := by decide

theorem isPlain_of_parseF64 (h : parseF64 w = some n) : ∀ c ∈ w, IsPlain c := by
  unfold parseF64 at h
  refine isPlain_of_takeSign ?_
  dsimp only at h
  split at h
  · next hname =>
      rcases hname with hname | hname
      · exact isPlain_of_map_asciiLower (forall_mem_of_all (by decide)) hname
      · exact isPlain_of_map_asciiLower (forall_mem_of_all (by decide)) hname
  split at h
  · next hname => exact isPlain_of_map_asciiLower (forall_mem_of_all (by decide)) hname
  · exact isPlain_of_parseNumber h

/-! ## The printed form -/

/-- The text of a literal; a number has many. -/
inductive LiteralText : Literal → List Char → Prop
  | str {body : List Char} (hbody : quote ∉ body) :
      LiteralText (.str (String.ofList body)) (quote :: body ++ [quote])
  | num {w : List Char} {n : F64} (hnum : parseF64 w = some n) : LiteralText (.num n) w
  | yes : LiteralText (.bool true) "true".toList
  | no : LiteralText (.bool false) "false".toList
  | null : LiteralText .null "null".toList

inductive TokenText : Token → List Char → Prop
  | path (text : String) : TokenText (.path text) text.toList
  | lit {lit : Literal} {text : List Char} (h : LiteralText lit text) : TokenText (.lit lit) text
  | eq : TokenText .eq ['=']
  | ne : TokenText .ne ['!', '=']
  | isIn : TokenText .isIn "in".toList
  | and : TokenText .and "and".toList
  | lBracket : TokenText .lBracket ['[']
  | rBracket : TokenText .rBracket [']']
  | comma : TokenText .comma [',']

/-- The literals of a list, and its closing bracket. -/
def listTokens : List Literal → List Token
  | [] => [.rBracket]
  | [lit] => [.lit lit, .rBracket]
  | lit :: lits => .lit lit :: .comma :: listTokens lits

/-- The tokens of a term. SOURCE: predicate.rs:6-9 -/
def termTokens (term : PredicateTerm) : List Token :=
  .path term.path.text ::
    match term.op with
    | .eq lit => [.eq, .lit lit]
    | .ne lit => [.ne, .lit lit]
    | .isIn lits => .isIn :: .lBracket :: listTokens lits

/-- The tokens of a conjunction of terms. -/
def whenTokens : List PredicateTerm → List Token
  | [] => []
  | [term] => termTokens term
  | term :: terms => termTokens term ++ .and :: whenTokens terms

/-- The tokens of the terms, printed with single spaces between them. -/
def Prints (terms : List PredicateTerm) (text : String) : Prop :=
  ∃ pieces, List.Forall₂ TokenText (whenTokens terms) pieces ∧
    text = String.ofList ([' '].intercalate pieces)

/-- The word a path starts with, up to its first bracket. -/
def firstWord (path : DotPath) : List Char := path.text.toList.takeWhile (· != '[')

/-- A path that is valid, and read as one. -/
structure ReadAsPath (path : DotPath) : Prop where
  valid : DotPath.parse path.text = .ok path
  plain : wordMeaning (firstWord path) = none

/-- A predicate of the documented grammar: some terms, with some literals in each list. -/
structure Documented (terms : List PredicateTerm) : Prop where
  nonempty : terms ≠ []
  path : ∀ term ∈ terms, ReadAsPath term.path
  list : ∀ term ∈ terms, ∀ lits, term.op = .isIn lits → lits ≠ []

/-! ## Printed tokens are read back -/

/-- No reserved word is a number. -/
theorem wordMeaning_number (h : parseF64 w = some n) : wordMeaning w = some (.lit (.num n)) := by
  have hword : ∀ {word : String}, parseF64 word.toList = none → w ≠ word.toList := by
    rintro word hnone rfl
    rw [hnone] at h
    cases h
  rw [wordMeaning, if_neg (hword (by decide)), if_neg (hword (by decide)),
    if_neg (hword (by decide)), if_neg (hword (by decide)), if_neg (hword (by decide)), h]
  rfl

/-- What follows a printed token. -/
def AfterToken (rest : List Char) : Prop := rest = [] ∨ rest.head? = some ' '

theorem AfterToken.endsWord (h : AfterToken rest) : EndsWord rest := by
  rcases h with rfl | h
  · exact stops_nil
  · obtain ⟨more, rfl⟩ := List.head?_eq_some_iff.mp h
    exact stops_cons (by decide)

theorem AfterToken.not_open (h : AfterToken rest) : rest.head? ≠ some '[' := by
  rcases h with rfl | h
  · simp
  · rw [h]
    decide

theorem lexeme_literal {lit : Literal} (h : LiteralText lit text) (hrest : AfterToken rest) :
    Lexeme text rest (some (.lit lit)) := by
  cases h with
  | str hbody => exact .str rest hbody
  | @num _ n hnum =>
    have hne : text ≠ [] := by
      rintro rfl
      rw [parseF64_nil] at hnum
      cases hnum
    exact .word hne (fun c hc => (isPlain_of_parseF64 hnum c hc).1) hrest.endsWord
      (wordMeaning_number hnum)
  | yes | no | null =>
    exact .word (by decide) (forall_mem_of_all (by decide)) hrest.endsWord (by decide)

/-- A word, and pairs of brackets with words behind them. -/
def Bracketed (text : List Char) : Prop :=
  ∃ (w : List Char) (groups : List (List Char × List Char)),
    text = w ++ groups.flatMap bracketText ∧ IsWord w ∧ ∀ group ∈ groups, IsBracket group

theorem bracketed_nil : Bracketed [] := ⟨[], [], rfl, by simp [IsWord], by simp⟩

theorem Bracketed.word (hw : IsWord w) (h : Bracketed text) : Bracketed (w ++ text) := by
  obtain ⟨w', groups, rfl, hw', hgroups⟩ := h
  refine ⟨w ++ w', groups, (List.append_assoc _ _ _).symm, fun c hc => ?_, hgroups⟩
  rcases List.mem_append.mp hc with hc | hc
  · exact hw c hc
  · exact hw' c hc

theorem Bracketed.bracket {inside : List Char} (hclose : ']' ∉ inside) (h : Bracketed text) :
    Bracketed ('[' :: (inside ++ ']' :: text)) := by
  obtain ⟨w, groups, rfl, hw, hgroups⟩ := h
  refine ⟨[], (inside, w) :: groups, ?_, by simp [IsWord], ?_⟩
  · simp [bracketText]
  · exact List.forall_mem_cons.mpr ⟨⟨hclose, hw⟩, hgroups⟩

theorem isWord_of_keyChars {key : List Char} (h : ∀ c ∈ key, isKeyChar c = true) : IsWord key := by
  intro c hc
  have hkey := h c hc
  by_contra hdelimiter
  simp only [isDelimiter, isBlank, Bool.not_eq_false, Bool.or_eq_true, beq_iff_eq] at hdelimiter
  rcases hdelimiter with (((((((rfl | rfl) | rfl) | rfl) | rfl) | rfl) | rfl) | rfl) | rfl
  all_goals exact absurd hkey (by decide)

theorem bracketed_accessors {back : List Char} {accessors : List Accessor}
    (h : AccessorsText SignedDigits text accessors) (hback : Bracketed back) :
    Bracketed (text ++ back) := by
  induction h with
  | nil => exact hback
  | cons hinside _ ih =>
    have hclose : ∀ {cs : List Char} {accessor : Accessor},
        InsideText SignedDigits cs accessor → ']' ∉ cs := by
      intro cs accessor h hmem
      exact absurd (insideText_chars signedDigits_chars h _ hmem) (by decide)
    have hbracket := ih.bracket (hclose hinside)
    simpa using hbracket

theorem bracketed_segment {back : List Char} {segment : Segment}
    (h : SegmentText SignedDigits text segment) (hback : Bracketed back) :
    Bracketed (text ++ back) := by
  cases h with
  | mk _ hkey htext =>
    rw [List.append_assoc]
    exact (bracketed_accessors htext hback).word (isWord_of_keyChars hkey)

theorem bracketed_path (h : PathText SignedDigits text segments) : Bracketed text := by
  induction h with
  | segment h =>
    have hsegment := bracketed_segment h bracketed_nil
    rwa [List.append_nil] at hsegment
  | @dot text rest _ _ h _ ih =>
    have hdot : IsWord ['.'] := by simp [IsWord, isDelimiter, isBlank, quote]
    exact bracketed_segment h (ih.word hdot)

/-- A path starts with a key. -/
theorem pathText_head (h : PathText SignedDigits text segments) :
    ∃ c cs, text = c :: cs ∧ isKeyChar c = true := by
  have hsegment : ∀ {t : List Char} {s : Segment}, SegmentText SignedDigits t s →
      ∃ c cs, t = c :: cs ∧ isKeyChar c = true := by
    intro t s ht
    cases ht with
    | mk hne hkey =>
      obtain ⟨c, cs, rfl⟩ := List.exists_cons_of_ne_nil hne
      exact ⟨c, _, rfl, hkey c List.mem_cons_self⟩
  cases h with
  | segment h => exact hsegment h
  | dot h =>
    obtain ⟨c, cs, rfl, hc⟩ := hsegment h
    exact ⟨c, _, rfl, hc⟩

theorem parse_trim (s : String) : DotPath.parse (trim s) = DotPath.parse s := by
  simp only [DotPath.parse, trim_trim]

/-- The text of a valid path is trimmed, and derived from the grammar. -/
theorem pathText_of_parse {s : String} {path : DotPath} (h : DotPath.parse s = .ok path) :
    path.text = trim s ∧ PathText SignedDigits path.text.toList path.segments := by
  rw [← parse_trim] at h
  obtain ⟨htext, hpath, -⟩ := (parse_eq_ok (trim_trim s)).mp h
  rw [← htext] at hpath
  exact ⟨htext, hpath⟩

/-- The word before the first bracket. -/
theorem takeWhile_bracketed (hw : IsWord w) (groups : List (List Char × List Char)) :
    (w ++ groups.flatMap bracketText).takeWhile (· != '[') = w := by
  have hopen : Stops (· != '[') (groups.flatMap bracketText) := by
    cases groups with
    | nil => exact stops_nil
    | cons group groups => exact stops_cons (by decide)
  refine takeWhile_append_stops (fun c hc => ?_) hopen
  simp only [bne_iff_ne]
  rintro rfl
  exact absurd (hw _ hc) (by decide)

theorem lexeme_path {path : DotPath} (h : ReadAsPath path) {rest : List Char}
    (hrest : EndsWord rest) (hopen : rest.head? ≠ some '[') :
    Lexeme path.text.toList rest (some (.path path.text)) := by
  obtain ⟨-, hpath⟩ := pathText_of_parse h.valid
  obtain ⟨w, groups, htext, hw, hgroups⟩ := bracketed_path hpath
  obtain ⟨c, cs, hhead, hc⟩ := pathText_head hpath
  have hfirst : firstWord path = w := by
    rw [firstWord, htext, takeWhile_bracketed hw]
  have hne : w ≠ [] := by
    rintro rfl
    rw [List.nil_append] at htext
    cases groups with
    | nil => simp [htext] at hhead
    | cons group groups =>
      rw [htext] at hhead
      obtain ⟨rfl, -⟩ := List.cons.inj hhead
      exact absurd hc (by decide)
  have hlexeme : Lexeme (w ++ groups.flatMap bracketText) rest
      (some (.path (String.ofList (w ++ groups.flatMap bracketText)))) :=
    .path hne hw (hfirst ▸ h.plain) hgroups hrest hopen
  rwa [← htext, String.ofList_toList] at hlexeme

/-- Every token of the grammar is read back from its text. -/
theorem lexeme_token {token : Token} (h : TokenText token text)
    (hpath : ∀ t, token = .path t → ∃ path, ReadAsPath path ∧ path.text = t)
    (hrest : AfterToken rest) : Lexeme text rest (some token) := by
  cases h with
  | path t =>
    obtain ⟨path, hread, rfl⟩ := hpath t rfl
    exact lexeme_path hread hrest.endsWord hrest.not_open
  | lit h => exact lexeme_literal h hrest
  | eq => exact .eq rest
  | ne => exact .ne rest
  | isIn | and => exact .word (by decide) (forall_mem_of_all (by decide)) hrest.endsWord (by decide)
  | lBracket => exact .lBracket rest
  | rBracket => exact .rBracket rest
  | comma => exact .comma rest

/-! ## The printed form is trimmed -/

/-- A text with something in it, and no white space at its ends. -/
structure Tight (l : List Char) : Prop where
  nonempty : l ≠ []
  first : ∀ c, l.head? = some c → isWhitespace c = false
  last : ∀ c, l.getLast? = some c → isWhitespace c = false

theorem tight_of_plain {l : List Char} (hne : l ≠ []) (h : ∀ c ∈ l, isWhitespace c = false) :
    Tight l :=
  ⟨hne, fun c hc => h c (List.mem_of_head? hc), fun c hc => h c (List.mem_of_getLast? hc)⟩

theorem tight_token {token : Token} (h : TokenText token text)
    (hpath : ∀ t, token = .path t → ∃ path, ReadAsPath path ∧ path.text = t) : Tight text := by
  cases h with
  | path t =>
    obtain ⟨path, hread, rfl⟩ := hpath t rfl
    obtain ⟨htrim, hpath⟩ := pathText_of_parse hread.valid
    obtain ⟨hfirst, hlast⟩ := trim_eq_self_iff.mp htrim.symm
    exact ⟨pathText_ne_nil hpath, hfirst, hlast⟩
  | lit h =>
    cases h with
    | @str body _ =>
      refine ⟨List.cons_ne_nil _ _, fun c hc => ?_, fun c hc => ?_⟩
      · obtain rfl := Option.some.inj hc
        decide
      · rw [List.getLast?_concat] at hc
        obtain rfl := Option.some.inj hc
        decide
    | num hnum =>
      refine tight_of_plain ?_ fun c hc => (isPlain_of_parseF64 hnum c hc).2
      rintro rfl
      rw [parseF64_nil] at hnum
      cases hnum
    | yes | no | null => exact tight_of_plain (by decide) (forall_mem_of_all (by decide))
  | eq | ne | isIn | and | lBracket | rBracket | comma =>
    exact tight_of_plain (by decide) (forall_mem_of_all (by decide))

theorem tight_spaced {pieces : List (List Char)} (hne : pieces ≠ [])
    (h : ∀ piece ∈ pieces, Tight piece) : Tight ([' '].intercalate pieces) := by
  induction pieces with
  | nil => exact absurd rfl hne
  | cons piece pieces ih =>
    have hpiece := h piece List.mem_cons_self
    cases pieces with
    | nil => simpa using hpiece
    | cons piece' pieces =>
      have hrest := ih (List.cons_ne_nil _ _) fun p hp => h p (List.mem_cons_of_mem _ hp)
      rw [List.intercalate_cons_cons]
      refine ⟨by simp, fun c hc => ?_, fun c hc => ?_⟩
      · obtain ⟨c', cs, rfl⟩ := List.exists_cons_of_ne_nil hpiece.nonempty
        exact hpiece.first c (by simpa using hc)
      · rw [List.getLast?_append_of_ne_nil _ hrest.nonempty] at hc
        exact hrest.last c hc

/-! ## Printed terms are parsed back -/

theorem parseInList_listTokens (hne : lits ≠ []) (read : List Literal) (rest : List Token) :
    parseInList read (listTokens lits ++ rest) = .ok (read ++ lits, rest) := by
  induction lits generalizing read with
  | nil => exact absurd rfl hne
  | cons lit lits ih =>
    cases lits with
    | nil => rfl
    | cons lit' lits =>
      have hrest := ih (List.cons_ne_nil _ _) (read ++ [lit])
      rw [List.append_assoc] at hrest
      exact hrest

theorem parseTerm_termTokens (hpath : ReadAsPath term.path)
    (hlist : ∀ lits, term.op = .isIn lits → lits ≠ []) (rest : List Token) :
    parseTerm (termTokens term ++ rest) = .ok (term, rest) := by
  obtain ⟨path, op⟩ := term
  rw [termTokens, List.cons_append, parseTerm, hpath.valid]
  cases op with
  | eq lit | ne lit => rfl
  | isIn lits =>
    have hparse := parseInList_listTokens (hlist lits rfl) [] rest
    simp only [List.cons_append, parseOperator, hparse]
    rfl

/-- The loop over the terms ends well at a term with nothing behind it, or at one with an `and`
and more terms. -/
theorem parseTerms_eq_ok :
    parseTerms tokens = .ok terms ↔
      (∃ term, parseTerm tokens = .ok (term, []) ∧ terms = [term]) ∨
        ∃ term tail rest, parseTerm tokens = .ok (term, .and :: tail) ∧ tail ≠ [] ∧
          parseTerms tail = .ok rest ∧ terms = term :: rest := by
  rw [parseTerms]
  split
  case h_1 e he => simp [he]
  case h_2 term hterm => simp [hterm, eq_comm]
  case h_3 term tail hterm =>
    dsimp only
    rw [hterm]
    by_cases hnil : tail = []
    · simp [hnil]
    · rw [if_neg hnil, except_map_eq_ok_iff]
      constructor
      · rintro ⟨rest, hrest, rfl⟩
        exact .inr ⟨term, tail, rest, rfl, hnil, hrest, rfl⟩
      · rintro (⟨term', hterm', -⟩ | ⟨term', tail', rest, hterm', -, hrest, rfl⟩)
        · cases hterm'
        · cases hterm'
          exact ⟨rest, hrest, rfl⟩
  case h_4 term tail hnil hand hterm =>
    rw [hterm]
    constructor
    · intro h
      cases h
    · rintro (⟨term', hterm', -⟩ | ⟨term', tail', rest, hterm', -⟩)
      · exact absurd (Prod.mk.inj (Except.ok.inj hterm')).2 hnil
      · exact absurd (Prod.mk.inj (Except.ok.inj hterm')).2 (hand tail')

theorem parseTerms_whenTokens (h : Documented terms) :
    parseTerms (whenTokens terms) = .ok terms := by
  induction terms with
  | nil => exact absurd rfl h.nonempty
  | cons term terms ih =>
    have hterm := parseTerm_termTokens (h.path term List.mem_cons_self)
      (h.list term List.mem_cons_self)
    cases terms with
    | nil =>
      have hlast := hterm []
      rw [List.append_nil] at hlast
      exact parseTerms_eq_ok.mpr (.inl ⟨term, hlast, rfl⟩)
    | cons term' terms =>
      have hrest : Documented (term' :: terms) :=
        ⟨List.cons_ne_nil _ _, fun t ht => h.path t (List.mem_cons_of_mem _ ht),
          fun t ht => h.list t (List.mem_cons_of_mem _ ht)⟩
      have hsome : whenTokens (term' :: terms) ≠ [] := by
        cases terms <;> simp [whenTokens, termTokens]
      exact parseTerms_eq_ok.mpr
        (.inr ⟨term, _, _, hterm (.and :: whenTokens (term' :: terms)), hsome, ih hrest, rfl⟩)

theorem mem_whenTokens (h : term ∈ terms) : Token.path term.path.text ∈ whenTokens terms := by
  have hterm : Token.path term.path.text ∈ termTokens term := List.mem_cons_self
  fun_induction whenTokens terms with
  | case1 => cases h
  | case2 first =>
    obtain rfl := List.mem_singleton.mp h
    exact hterm
  | case3 first terms _ ih =>
    rcases List.mem_cons.mp h with rfl | h
    · exact List.mem_append_left _ hterm
    · exact List.mem_append_right _ (List.mem_cons_of_mem _ (ih h))

theorem path_mem_listTokens {text : String} : Token.path text ∉ listTokens lits := by
  fun_induction listTokens lits with
  | case1 => simp
  | case2 => simp
  | case3 lit lits _ ih => simp [ih]

theorem path_mem_whenTokens {text : String} (h : Token.path text ∈ whenTokens terms) :
    ∃ term ∈ terms, term.path.text = text := by
  have hterm : ∀ {term : PredicateTerm}, Token.path text ∈ termTokens term →
      term.path.text = text := by
    intro term hmem
    obtain ⟨path, op⟩ := term
    cases op with
    | eq lit | ne lit => simpa [termTokens, eq_comm] using hmem
    | isIn lits => simpa [termTokens, path_mem_listTokens, eq_comm] using hmem
  fun_induction whenTokens terms with
  | case1 => cases h
  | case2 term => exact ⟨term, List.mem_cons_self, hterm h⟩
  | case3 term terms _ ih =>
    rcases List.mem_append.mp h with h | h
    · exact ⟨term, List.mem_cons_self, hterm h⟩
    · rcases List.mem_cons.mp h with h | h
      · cases h
      · obtain ⟨term', hmem, htext⟩ := ih h
        exact ⟨term', List.mem_cons_of_mem _ hmem, htext⟩

theorem whenTokens_ne_nil (h : terms ≠ []) : whenTokens terms ≠ [] := by
  obtain ⟨term, terms, rfl⟩ := List.exists_cons_of_ne_nil h
  cases terms with
  | nil => simp [whenTokens, termTokens]
  | cons term' terms => simp [whenTokens, termTokens]

/-- A text that is cut into the tokens of the terms is parsed to them. -/
theorem parse_of_cut {text : String} (h : Documented terms) (htrim : trim text = text ∧ text ≠ "")
    (hlen : text.length ≤ Limits.maxExprChars)
    (hcut : Cut Lexeme [] text.toList (whenTokens terms)) :
    Predicate.parse text = .ok ⟨terms, text⟩ := by
  have htokens : tokenize text = .ok (whenTokens terms) :=
    tokenize_eq_ok_iff.mpr ⟨whenTokens_ne_nil h.nonempty, hcut⟩
  unfold Predicate.parse
  rw [htrim.1]
  dsimp only
  rw [if_neg htrim.2, if_neg (Nat.not_lt.mpr hlen), htokens, Outcome.bind,
    parseTerms_whenTokens h]
  rfl

theorem readAsPath_of_mem (h : Documented terms) :
    ∀ token ∈ whenTokens terms, ∀ t, token = .path t → ∃ path, ReadAsPath path ∧ path.text = t := by
  rintro token htoken t rfl
  obtain ⟨term, hterm, rfl⟩ := path_mem_whenTokens htoken
  exact ⟨term.path, h.path term hterm, rfl⟩

theorem cut_printed {text : String} (h : Documented terms) (hprints : Prints terms text) :
    Cut Lexeme [] text.toList (whenTokens terms) := by
  obtain ⟨pieces, hpieces, rfl⟩ := hprints
  rw [String.toList_ofList]
  have hread := (List.forall₂_and_left _ _).mpr ⟨readAsPath_of_mem h, hpieces⟩
  refine Cut.intercalate (fun rest => .blank rest (by decide)) (hread.imp ?_)
  rintro token piece ⟨htoken, hpiece⟩ rest hrest
  exact lexeme_token hpiece htoken hrest

theorem trim_printed {text : String} (h : Documented terms) (hprints : Prints terms text) :
    trim text = text ∧ text ≠ "" := by
  obtain ⟨pieces, hpieces, rfl⟩ := hprints
  have hread := (List.forall₂_and_left _ _).mpr ⟨readAsPath_of_mem h, hpieces⟩
  have hne : pieces ≠ [] := by
    rintro rfl
    exact whenTokens_ne_nil h.nonempty (List.forall₂_nil_right_iff.mp hpieces)
  have htight : Tight ([' '].intercalate pieces) := by
    refine tight_spaced hne fun piece hmem => ?_
    obtain ⟨token, -, htoken, hpiece⟩ := exists_of_mem_right hread hmem
    exact tight_token hpiece htoken
  refine ⟨?_, fun hempty => ?_⟩
  · rw [trim_eq_self_iff, String.toList_ofList]
    exact ⟨htight.first, htight.last⟩
  · have hnil := congrArg String.toList hempty
    rw [String.toList_ofList] at hnil
    exact htight.nonempty hnil

/-- A printed predicate that is not too long is parsed to its terms. -/
theorem parse_printed {text : String} (h : Documented terms) (hprints : Prints terms text)
    (hlen : text.length ≤ Limits.maxExprChars) : Predicate.parse text = .ok ⟨terms, text⟩ :=
  parse_of_cut h (trim_printed h hprints) hlen (cut_printed h hprints)

theorem parse_printed_long {text : String} (h : Documented terms) (hprints : Prints terms text)
    (hlen : Limits.maxExprChars < text.length) : Predicate.parse text = .error .tooLong := by
  obtain ⟨htrim, hempty⟩ := trim_printed h hprints
  unfold Predicate.parse
  rw [htrim]
  dsimp only
  rw [if_neg hempty, if_pos hlen]

/-! ## What was read can be printed -/

theorem parseInList_sound {read : List Literal} (h : parseInList read tokens = .ok (lits, tail)) :
    ∃ more, lits = read ++ more ∧ more ≠ [] ∧ tokens = listTokens more ++ tail := by
  fun_induction parseInList read tokens with
  | case1 read lit rest ih =>
    obtain ⟨more, rfl, hne, rfl⟩ := ih h
    obtain ⟨lit', more', rfl⟩ := List.exists_cons_of_ne_nil hne
    exact ⟨lit :: lit' :: more', by simp, List.cons_ne_nil _ _, rfl⟩
  | case2 read lit rest =>
    obtain ⟨rfl, rfl⟩ := Prod.mk.inj (Except.ok.inj h)
    exact ⟨[lit], rfl, List.cons_ne_nil _ _, rfl⟩
  | case3 => cases h

/-- The tokens of a term that was parsed, the text of its path apart. -/
theorem parseTerm_sound (h : parseTerm tokens = .ok (term, tail)) :
    ∃ text, DotPath.parse text = .ok term.path ∧
      tokens = .path text :: ((termTokens term).tail ++ tail) ∧
        ∀ lits, term.op = .isIn lits → lits ≠ [] := by
  fun_cases parseTerm tokens with
  | case1 text rest e he => simp [parseTerm, he] at h
  | case2 text rest path hpath =>
    simp only [parseTerm, hpath] at h
    obtain ⟨⟨op, tail'⟩, hop, heq⟩ := except_map_eq_ok_iff.mp h
    obtain ⟨rfl, rfl⟩ := Prod.mk.inj heq
    refine ⟨text, hpath, ?_⟩
    fun_cases parseOperator rest with
    | case1 lit rest | case2 lit rest =>
      obtain ⟨rfl, rfl⟩ := Prod.mk.inj (Except.ok.inj hop)
      exact ⟨rfl, by simp⟩
    | case3 rest =>
      simp only [parseOperator] at hop
      obtain ⟨⟨lits, tail''⟩, hlits, heq⟩ := except_map_eq_ok_iff.mp hop
      obtain ⟨rfl, rfl⟩ := Prod.mk.inj heq
      obtain ⟨more, rfl, hne, rfl⟩ := parseInList_sound hlits
      refine ⟨rfl, fun lits hlits => ?_⟩
      obtain rfl := PredicateOp.isIn.inj hlits
      exact hne
    | case4 => simp_all [parseOperator]
  | case3 => simp_all [parseTerm]

theorem parseTerm_of_trimmed (h : parseTerm tokens = .ok (term, tail))
    (htrim : ∀ text, Token.path text ∈ tokens → trim text = text) :
    tokens = termTokens term ++ tail ∧ DotPath.parse term.path.text = .ok term.path ∧
      ∀ lits, term.op = .isIn lits → lits ≠ [] := by
  obtain ⟨text, hpath, htokens, hlist⟩ := parseTerm_sound h
  have htext : term.path.text = text := by
    rw [(pathText_of_parse hpath).1]
    exact htrim text (by rw [htokens]; exact List.mem_cons_self)
  rw [htext]
  refine ⟨?_, hpath, hlist⟩
  rw [htokens, ← htext]
  rfl

/-- Terms that were parsed from trimmed paths have the tokens they were parsed from. -/
theorem parseTerms_sound (h : parseTerms tokens = .ok terms)
    (htrim : ∀ text, Token.path text ∈ tokens → trim text = text) :
    tokens = whenTokens terms ∧ terms ≠ [] ∧ ∀ term ∈ terms,
      DotPath.parse term.path.text = .ok term.path ∧ ∀ lits, term.op = .isIn lits → lits ≠ [] := by
  induction terms generalizing tokens with
  | nil =>
    rcases parseTerms_eq_ok.mp h with ⟨term, -, hterms⟩ | ⟨term, tail, rest, -, -, -, hterms⟩
    · cases hterms
    · cases hterms
  | cons term terms ih =>
    rcases parseTerms_eq_ok.mp h with ⟨term', hparse, hterms⟩ |
      ⟨term', tail, rest, hparse, hne, hrest, hterms⟩
    · obtain ⟨rfl, rfl⟩ := List.cons.inj hterms
      obtain ⟨htokens, hvalid⟩ := parseTerm_of_trimmed hparse htrim
      rw [List.append_nil] at htokens
      exact ⟨htokens, List.cons_ne_nil _ _, List.forall_mem_singleton.mpr hvalid⟩
    · obtain ⟨rfl, rfl⟩ := List.cons.inj hterms
      obtain ⟨rfl, hvalid⟩ := parseTerm_of_trimmed hparse htrim
      obtain ⟨rfl, hsome, hvalids⟩ := ih hrest fun text hmem => htrim text (by simp [hmem])
      refine ⟨?_, List.cons_ne_nil _ _, List.forall_mem_cons.mpr ⟨hvalid, hvalids⟩⟩
      obtain ⟨term', terms', rfl⟩ := List.exists_cons_of_ne_nil hsome
      rfl

theorem toNat_lt_of_isKeyChar (h : isKeyChar c = true) : c.toNat < 128 := by
  simp only [isKeyChar, isAsciiAlphanumeric, isAsciiDigit, Bool.or_eq_true, decide_eq_true_eq,
    beq_iff_eq] at h
  rcases h with ((((⟨-, h⟩ | ⟨-, h⟩) | ⟨-, h⟩) | rfl) | rfl) | rfl
  · exact Nat.lt_of_le_of_lt h (by decide)
  · exact Nat.lt_of_le_of_lt h (by decide)
  · exact Nat.lt_of_le_of_lt h (by decide)
  all_goals decide

theorem isWhitespace_of_isKeyChar (h : isKeyChar c = true) : isWhitespace c = false :=
  char_forall (P := fun c => isKeyChar c = true → isWhitespace c = false) (by decide +kernel)
    (fun c hc h => absurd (toNat_lt_of_isKeyChar h) (Nat.not_lt.mpr hc)) c h

theorem segmentText_not_whitespace {segment : Segment} (h : SegmentText SignedDigits text segment) :
    ∀ c ∈ text, isWhitespace c = false := by
  cases h with
  | mk _ hkey htext =>
    intro c hc
    rcases List.mem_append.mp hc with hc | hc
    · exact isWhitespace_of_isKeyChar (hkey c hc)
    · rcases accessorsText_chars signedDigits_chars htext c hc with h | rfl | rfl | rfl
      · exact (isPlain_digit h).2
      all_goals decide

/-- A text of the grammar is trimmed. -/
theorem trim_of_pathText {text : String} (h : PathText SignedDigits text.toList segments) :
    trim text = text := by
  have hall : ∀ c ∈ text.toList, isWhitespace c = false := by
    generalize text.toList = l at h
    induction h with
    | segment h => exact segmentText_not_whitespace h
    | dot h _ ih =>
      intro c hc
      rcases List.mem_append.mp hc with hc | hc
      · exact segmentText_not_whitespace h c hc
      · rcases List.mem_cons.mp hc with rfl | hc
        · decide
        · exact ih c hc
  exact trim_eq_self_iff.mpr
    ⟨fun c hc => hall c (List.mem_of_head? hc), fun c hc => hall c (List.mem_of_getLast? hc)⟩

/-- A path that was read starts with a word that means nothing else. -/
theorem wordMeaning_of_lexeme {piece : List Char} {text : String}
    (h : Lexeme piece rest (some (.path text))) :
    wordMeaning (text.toList.takeWhile (· != '[')) = none := by
  cases h with
  | word _ _ _ hmeaning =>
    have hpath : ∀ {w : List Char} {t : String}, wordMeaning w ≠ some (.path t) := by
      intro w t
      unfold wordMeaning
      repeat' split
      all_goals simp
    exact absurd hmeaning hpath
  | path _ hword hmeaning =>
    rw [String.toList_ofList, takeWhile_bracketed hword]
    exact hmeaning

/-- A literal that was read has its text. -/
theorem literalText_of_lexeme {piece : List Char} {lit : Literal}
    (h : Lexeme piece rest (some (.lit lit))) : LiteralText lit piece := by
  cases h with
  | str _ hbody => exact .str hbody
  | word _ _ _ hmeaning =>
    unfold wordMeaning at hmeaning
    split at hmeaning
    · cases hmeaning
    split at hmeaning
    · cases hmeaning
    split at hmeaning
    · next htrue =>
        cases hmeaning
        rw [htrue]
        exact .yes
    split at hmeaning
    · next hfalse =>
        cases hmeaning
        rw [hfalse]
        exact .no
    split at hmeaning
    · next hnull =>
        cases hmeaning
        rw [hnull]
        exact .null
    · obtain ⟨n, hn, hlit⟩ := Option.map_eq_some_iff.mp hmeaning
      cases hlit
      exact .num hn

/-- The text is cut into tokens whose paths are documented. -/
def DocumentedTokens (text : String) : Prop :=
  ∀ tokens, tokenize text = .ok tokens → ∀ t, Token.path t ∈ tokens →
    ∃ segments, PathText Digits t.toList segments

/-- The terms of an accepted text of documented tokens are documented, and can be printed. -/
theorem documented_of_parse {s : String} {p : Predicate} (h : Predicate.parse s = .ok p)
    (htokens : DocumentedTokens (trim s)) : Documented p.terms ∧ ∃ text, Prints p.terms text := by
  unfold Predicate.parse at h
  dsimp only at h
  split at h
  · cases h
  split at h
  · cases h
  obtain ⟨tokens, hscan, hparse⟩ := Outcome.bind_eq_ok_iff.mp h
  obtain ⟨terms, hterms, rfl⟩ := except_map_eq_ok_iff.mp (Outcome.ofExcept_eq_ok_iff.mp hparse)
  obtain ⟨-, hcut⟩ := tokenize_eq_ok_iff.mp hscan
  have htrim : ∀ text, Token.path text ∈ tokens → trim text = text := by
    intro text hmem
    obtain ⟨segments, hpath⟩ := htokens tokens hscan text hmem
    exact trim_of_pathText (pathText_digits_iff.mp hpath).1
  obtain ⟨rfl, hne, hvalid⟩ := parseTerms_sound hterms htrim
  refine ⟨⟨hne, fun term hterm => ⟨(hvalid term hterm).1, ?_⟩, fun term hterm =>
    (hvalid term hterm).2⟩, ?_⟩
  · obtain ⟨piece, more, hlexeme⟩ := hcut.exists_piece (mem_whenTokens hterm)
    exact wordMeaning_of_lexeme hlexeme
  · have hpieces : ∀ token ∈ whenTokens terms, ∃ piece, TokenText token piece := by
      intro token htoken
      cases token with
      | path t => exact ⟨_, .path t⟩
      | lit lit =>
        obtain ⟨piece, more, hlexeme⟩ := hcut.exists_piece htoken
        exact ⟨piece, .lit (literalText_of_lexeme hlexeme)⟩
      | eq => exact ⟨_, .eq⟩
      | ne => exact ⟨_, .ne⟩
      | isIn => exact ⟨_, .isIn⟩
      | and => exact ⟨_, .and⟩
      | lBracket => exact ⟨_, .lBracket⟩
      | rBracket => exact ⟨_, .rBracket⟩
      | comma => exact ⟨_, .comma⟩
    obtain ⟨pieces, hpieces⟩ := exists_forall₂ hpieces
    exact ⟨_, pieces, hpieces, rfl⟩

/-- A documented predicate that is printed within the limit is parsed to the same terms, and an
accepted text of documented tokens can be printed, and every print of it within the limit is
parsed to the same terms. -/
theorem when_round_trip :
    (∀ terms text, Documented terms → Prints terms text → text.length ≤ Limits.maxExprChars →
      Predicate.parse text = .ok ⟨terms, text⟩) ∧
      ∀ s p, Predicate.parse s = .ok p → DocumentedTokens (trim s) →
        (∃ text, Prints p.terms text) ∧
          ∀ text, Prints p.terms text → text.length ≤ Limits.maxExprChars →
            Predicate.parse text = .ok ⟨p.terms, text⟩ := by
  refine ⟨fun terms text => parse_printed, fun s p hparse htokens => ?_⟩
  obtain ⟨hterms, hprint⟩ := documented_of_parse hparse htokens
  exact ⟨hprint, fun text => parse_printed hterms⟩

/-- A list next to an indexed path, and a text without spaces. -/
theorem indexed_list_round_trip :
    let done : PredicateTerm := ⟨⟨[⟨"done", []⟩], "done"⟩, .ne (.bool true)⟩
    let labels : PredicateTerm :=
      ⟨⟨[⟨"data", []⟩, ⟨"labels", [.index 0, .all]⟩], "data.labels[0][]"⟩,
        .isIn [.str "bug", .num (F64.ofDecimal false 2 0)]⟩
    Predicate.parse "data.labels[0][] in [ 'bug' , 2 ] and done != true" =
        .ok ⟨[labels, done], "data.labels[0][] in [ 'bug' , 2 ] and done != true"⟩ ∧
      (∃ text, Prints [done] text) ∧
        ∀ text, Prints [done] text → text.length ≤ Limits.maxExprChars →
          Predicate.parse text = .ok ⟨[done], text⟩ := by
  refine ⟨when_round_trip.1 _ _ ⟨List.cons_ne_nil _ _, ?_, ?_⟩ ⟨["data.labels[0][]".toList,
    "in".toList, ['['], "'bug'".toList, [','], ['2'], [']'], "and".toList, "done".toList,
    ['!', '='], "true".toList], ?_, by decide +kernel⟩ (by decide),
    when_round_trip.2 "done!=true" ⟨_, "done!=true"⟩ (by decide +kernel) ?_⟩
  · refine List.forall_mem_cons.mpr ⟨⟨by decide +kernel, by decide +kernel⟩, ?_⟩
    exact List.forall_mem_singleton.mpr ⟨by decide +kernel, by decide +kernel⟩
  · refine List.forall_mem_cons.mpr ⟨?_, List.forall_mem_singleton.mpr ?_⟩
    · rintro lits hlits
      obtain rfl := PredicateOp.isIn.inj hlits
      exact List.cons_ne_nil _ _
    · rintro lits hlits
      cases hlits
  · have hbug : LiteralText (.str "bug") "'bug'".toList := .str (by decide)
    exact .cons (.path _) (.cons .isIn (.cons .lBracket (.cons (.lit hbug) (.cons .comma
      (.cons (.lit (.num (by decide +kernel))) (.cons .rBracket (.cons .and (.cons (.path _)
        (.cons .ne (.cons (.lit .yes) .nil))))))))))
  · intro tokens htokens t ht
    have hscan : tokenize (trim "done!=true") =
        .ok [.path "done", .ne, .lit (.bool true)] := by decide +kernel
    obtain rfl := Outcome.ok.inj (hscan.symm.trans htokens)
    obtain rfl : t = "done" := by simpa using ht
    have hdone : SegmentText Digits ("done".toList ++ []) ⟨"done", []⟩ :=
      .mk (by decide) (forall_mem_of_all (by decide)) .nil
    exact ⟨_, .segment hdone⟩

/-- A key of the letter `k`. -/
theorem readAsPath_key (n : Nat) (hn : n < Limits.maxExprChars) :
    let key := String.ofList ('k' :: List.replicate n 'k')
    ReadAsPath ⟨[⟨key, []⟩], key⟩ := by
  intro key
  have hkey : ∀ c ∈ 'k' :: List.replicate n 'k', c = 'k' := by
    intro c hc
    rcases List.mem_cons.mp hc with rfl | hc
    · rfl
    · exact List.eq_of_mem_replicate hc
  have hlist : key.toList = 'k' :: List.replicate n 'k' := String.toList_ofList
  have htext : PathText SignedDigits key.toList [⟨key, []⟩] := by
    rw [hlist, ← List.append_nil ('k' :: List.replicate n 'k')]
    refine .segment (.mk (List.cons_ne_nil _ _) (fun c hc => ?_) .nil)
    rw [hkey c hc]
    decide
  have hlimits : WithinLimits key [⟨key, []⟩] := by
    refine ⟨?_, Nat.le_add_left 1 31, by simp [InRange]⟩
    rw [← String.length_toList, hlist, List.length_cons, List.length_replicate]
    exact hn
  have hnumber : parseF64 ('k' :: List.replicate n 'k') = none := by
    have hk : asciiLower 'k' = 'k' ∧ isAsciiDigit 'k' = false := by decide
    simp [parseF64, takeSign, parseNumber, hk]
  have hfirst : firstWord ⟨[⟨key, []⟩], key⟩ = 'k' :: List.replicate n 'k' := by
    rw [firstWord, hlist, List.takeWhile_eq_self_iff]
    intro c hc
    rw [hkey c hc]
    decide
  refine ⟨(parse_eq_ok (trim_of_pathText htext)).mpr ⟨rfl, htext, hlimits⟩, ?_⟩
  rw [hfirst]
  simp [wordMeaning, hnumber]

/-- A printed comparison with `null` takes two spaces. -/
theorem length_printed_null {key : String} {pieces : List (List Char)}
    (h : List.Forall₂ TokenText [.path key, .eq, .lit .null] pieces) :
    ([' '].intercalate pieces).length = key.length + 7 := by
  cases h with
  | cons hpath h =>
  cases h with
  | cons heq h =>
  cases h with
  | cons hlit h =>
  cases h
  cases hpath
  cases heq
  cases hlit with
  | lit hlit =>
    cases hlit
    rw [← String.length_toList]
    simp [List.intercalate_cons_cons]

/-- A valid path that starts with a reserved word is not read as one; and a text at the limit has
no spaces left to give. -/
theorem reserved_and_long_not_read :
    (DotPath.parse "in[0]" = .ok ⟨[⟨"in", [.index 0]⟩], "in[0]"⟩ ∧
        parseF64 "in[0]".toList = none ∧
          Prints [⟨⟨[⟨"in", [.index 0]⟩], "in[0]"⟩, .eq .null⟩] "in[0] = null" ∧
            Predicate.parse "in[0] = null" = .error (.bad .expectedPath)) ∧
      let key := String.ofList ('k' :: List.replicate 506 'k')
      let terms : List PredicateTerm := [⟨⟨[⟨key, []⟩], key⟩, .eq .null⟩]
      Predicate.parse (key ++ "=null") = .ok ⟨terms, key ++ "=null"⟩ ∧
        ∀ text, Prints terms text → Predicate.parse text = .error .tooLong := by
  refine ⟨⟨by decide, by decide, ⟨["in[0]".toList, ['='], "null".toList], ?_, by decide⟩,
    by decide +kernel⟩, ?_⟩
  · exact .cons (.path _) (.cons .eq (.cons (.lit .null) .nil))
  intro key terms
  have hread : ReadAsPath ⟨[⟨key, []⟩], key⟩ := readAsPath_key 506 (by decide)
  have hterms : Documented terms :=
    ⟨List.cons_ne_nil _ _, List.forall_mem_singleton.mpr hread,
      List.forall_mem_singleton.mpr fun lits hlits => by cases hlits⟩
  have hkey : key.length = 507 := by
    rw [← String.length_toList, String.toList_ofList, List.length_cons, List.length_replicate]
  have hnull : (key ++ "=null").toList = key.toList ++ (['='] ++ ("null".toList ++ [])) :=
    String.toList_append
  refine ⟨parse_of_cut hterms ⟨?_, ?_⟩ ?_ ?_, fun text hprints => ?_⟩
  · rw [trim_eq_self_iff, hnull]
    refine ⟨fun c hc => ?_, fun c hc => ?_⟩
    · rw [String.toList_ofList] at hc
      obtain rfl := Option.some.inj hc
      decide
    · rw [List.getLast?_append_of_ne_nil _ (by simp)] at hc
      obtain rfl := Option.some.inj hc
      decide
  · intro hempty
    have hlen := congrArg String.length hempty
    rw [String.length_append, hkey] at hlen
    exact absurd hlen (by decide)
  · rw [String.length_append, hkey]
    decide
  · rw [hnull]
    have hword : Lexeme "null".toList [] (some (.lit .null)) :=
      .word (by decide) (forall_mem_of_all (by decide)) stops_nil (by decide)
    exact .token (lexeme_path hread (stops_cons (by decide)) (by decide))
      (.token (.eq _) (.token hword .nil))
  · refine parse_printed_long hterms hprints ?_
    obtain ⟨pieces, hpieces, rfl⟩ := hprints
    rw [← String.length_toList, String.toList_ofList, length_printed_null hpieces, hkey]
    decide

end Verity.Analysis
