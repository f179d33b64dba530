import Verity.Foundation.Lexing
import Verity.Model.ManifestPredicate

/-!
# The passes of the predicate scanner

What a pass of the scanning loop reads is said by a lexical grammar: blanks, marks, quoted
strings, the reserved words and the numbers, and paths, which are a word with the brackets behind
it. Where the text does not go on with a `!` alone, a pass reads one piece of that grammar and
leaves what follows it. At a `!` without a `=` behind it the pass reads nothing and leaves
everything, the next one does the same, and the loop never ends. So the scanner ends exactly on
the texts that are not cut by the grammar up to such a `!`.
-/

set_option autoImplicit false

namespace Verity.Analysis

open Verity.Foundation
open Verity.Model

variable {w rest text piece : List Char} {token : Option Token} {c : Char} {cs : List Char}
  {tokens : List Token}

/-! ## The lexical grammar -/

/-- A list without the characters a bare word ends at. -/
def IsWord (w : List Char) : Prop := ∀ c ∈ w, isDelimiter c = false

/-- A text that does not go on with a word. -/
abbrev EndsWord (rest : List Char) : Prop := Stops (fun c => !isDelimiter c) rest

/-- What a word means on its own, if it is reserved or a number. -/
def wordMeaning (w : List Char) : Option Token :=
  if w = "and".toList then some .and
  else if w = "in".toList then some .isIn
  else if w = "true".toList then some (.lit (.bool true))
  else if w = "false".toList then some (.lit (.bool false))
  else if w = "null".toList then some (.lit .null)
  else (parseF64 w).map fun n => .lit (.num n)

/-- A pair of brackets and the word behind it. -/
def bracketText (group : List Char × List Char) : List Char :=
  '[' :: group.1 ++ ']' :: group.2

def IsBracket (group : List Char × List Char) : Prop := ']' ∉ group.1 ∧ IsWord group.2

/-- `Lexeme piece rest token`: in front of `rest`, the piece is read as the token, or skipped. -/
inductive Lexeme : List Char → List Char → Option Token → Prop
  | blank {c : Char} (rest : List Char) (hblank : isBlank c = true) : Lexeme [c] rest none
  | eq (rest : List Char) : Lexeme ['='] rest (some .eq)
  | ne (rest : List Char) : Lexeme ['!', '='] rest (some .ne)
  | lBracket (rest : List Char) : Lexeme ['['] rest (some .lBracket)
  | rBracket (rest : List Char) : Lexeme [']'] rest (some .rBracket)
  | comma (rest : List Char) : Lexeme [','] rest (some .comma)
  | str {body : List Char} (rest : List Char) (hbody : quote ∉ body) :
      Lexeme (quote :: body ++ [quote]) rest (some (.lit (.str (String.ofList body))))
  | word {w rest : List Char} {token : Token} (hne : w ≠ []) (hword : IsWord w)
      (hrest : EndsWord rest) (hmeaning : wordMeaning w = some token) : Lexeme w rest (some token)
  | path {w rest : List Char} {groups : List (List Char × List Char)} (hne : w ≠ [])
      (hword : IsWord w) (hmeaning : wordMeaning w = none)
      (hgroups : ∀ group ∈ groups, IsBracket group) (hrest : EndsWord rest)
      (hopen : rest.head? ≠ some '[') :
      Lexeme (w ++ groups.flatMap bracketText) rest
        (some (.path (String.ofList (w ++ groups.flatMap bracketText))))

/-! ## Words and brackets -/

theorem takeWord_append (hw : IsWord w) (hrest : EndsWord rest) :
    takeWord (w ++ rest) = w := takeWhile_append_stops (fun c hc => by simp [hw c hc]) hrest

theorem dropWord_append (hw : IsWord w) (hrest : EndsWord rest) :
    dropWord (w ++ rest) = rest := dropWhile_append_stops (fun c hc => by simp [hw c hc]) hrest

theorem isWord_takeWord (cs : List Char) : IsWord (takeWord cs) := by
  intro c hc
  have hplain := List.mem_takeWhile_imp hc
  simpa using hplain

theorem endsWord_dropWord (cs : List Char) : EndsWord (dropWord cs) := stops_dropWhile cs

theorem takeWord_append_dropWord (cs : List Char) : takeWord cs ++ dropWord cs = cs :=
  List.takeWhile_append_dropWhile

theorem endsWord_brackets (groups : List (List Char × List Char)) (hrest : EndsWord rest) :
    EndsWord (groups.flatMap bracketText ++ rest) := by
  cases groups with
  | nil => exact hrest
  | cons group groups => exact stops_cons (by decide)

/-- The brackets behind a word are taken over, with the words behind them. -/
theorem reattach_complete {groups : List (List Char × List Char)}
    (hgroups : ∀ group ∈ groups, IsBracket group) (hrest : EndsWord rest)
    (hopen : rest.head? ≠ some '[') (text : List Char) :
    reattach text (groups.flatMap bracketText ++ rest) =
      .ok (text ++ groups.flatMap bracketText, rest) := by
  induction groups generalizing text with
  | nil =>
    cases rest with
    | nil => simp [reattach]
    | cons c rest =>
      have hc : c ≠ '[' := fun h => hopen (congrArg some h)
      simp [reattach, hc]
  | cons group groups ih =>
    obtain ⟨hclose, hword⟩ := hgroups group List.mem_cons_self
    have htext : (group :: groups).flatMap bracketText ++ rest =
        '[' :: (group.1 ++ ']' :: (group.2 ++ (groups.flatMap bracketText ++ rest))) := by
      simp [bracketText]
    rw [htext, reattach, if_pos (by simp), takeWhile_until hclose, dropWhile_until hclose]
    dsimp only [List.tail_cons]
    rw [takeWord_append hword (endsWord_brackets groups hrest),
      dropWord_append hword (endsWord_brackets groups hrest),
      ih (fun group hmem => hgroups group (List.mem_cons_of_mem _ hmem))]
    simp [bracketText]

/-- What is attached to a word are whole brackets. -/
theorem reattach_sound {text' rest' : List Char} (hrest : EndsWord rest)
    (h : reattach text rest = .ok (text', rest')) :
    ∃ groups : List (List Char × List Char), rest = groups.flatMap bracketText ++ rest' ∧
      text' = text ++ groups.flatMap bracketText ∧ (∀ group ∈ groups, IsBracket group) ∧
        EndsWord rest' ∧ rest'.head? ≠ some '[' := by
  fun_induction reattach text rest with
  | case1 text more hclose after ih =>
    obtain ⟨groups, hafter, htext, hgroups, hend, hopen⟩ := ih (endsWord_dropWord after) h
    obtain ⟨inside, behind, hmore, hinside⟩ :=
      List.eq_append_cons_of_mem (List.contains_iff_mem.mp hclose)
    have hafter' : after = behind := by
      simp only [after, hmore, dropWhile_until hinside, List.tail_cons]
    refine ⟨(inside, takeWord after) :: groups, ?_, ?_, ?_, hend, hopen⟩
    · rw [List.flatMap_cons, List.append_assoc, ← hafter]
      simp only [bracketText, List.cons_append, List.append_assoc, takeWord_append_dropWord]
      rw [hafter', hmore]
    · rw [htext, List.flatMap_cons, hmore, takeWhile_until hinside]
      simp [bracketText]
    · intro group hgroup
      rcases List.mem_cons.mp hgroup with rfl | hgroup
      · exact ⟨hinside, isWord_takeWord after⟩
      · exact hgroups group hgroup
  | case2 => cases h
  | case3 text rest hopen =>
    obtain ⟨rfl, rfl⟩ := Prod.mk.inj (Except.ok.inj h)
    refine ⟨[], rfl, (List.append_nil _).symm, by simp, hrest, fun hhead => ?_⟩
    obtain ⟨more, rfl⟩ := List.head?_eq_some_iff.mp hhead
    exact hopen more rfl

theorem wordToken_eq (w rest : List Char) :
    wordToken w rest =
      match wordMeaning w with
      | some token => .ok (token, rest)
      | none => (reattach w rest).map fun (text, rest) => (.path (String.ofList text), rest) := by
  unfold wordToken wordMeaning
  repeat' split
  all_goals simp_all

/-- The bare word a pass reads where no mark, blank or string starts. -/
theorem wordToken_complete {token : Token} (h : Lexeme piece rest (some token))
    (hfirst : ∀ c ∈ piece.head?, isDelimiter c = false) :
    wordToken (takeWord (piece ++ rest)) (dropWord (piece ++ rest)) = .ok (token, rest) := by
  cases h with
  | eq | ne | lBracket | rBracket | comma => exact absurd (hfirst _ rfl) (by decide)
  | str => exact absurd (hfirst _ rfl) (by decide)
  | word _ hword hrest hmeaning =>
    rw [takeWord_append hword hrest, dropWord_append hword hrest, wordToken_eq, hmeaning]
  | @path w _ groups _ hword hmeaning hgroups hrest hopen =>
    have hrest' := endsWord_brackets groups hrest
    rw [List.append_assoc, takeWord_append hword hrest', dropWord_append hword hrest',
      wordToken_eq, hmeaning]
    dsimp only
    rw [reattach_complete hgroups hrest hopen]
    rfl

theorem wordToken_sound {rest' : List Char} {token : Token} (hne : w ≠ []) (hword : IsWord w)
    (hrest : EndsWord rest) (h : wordToken w rest = .ok (token, rest')) :
    ∃ piece, w ++ rest = piece ++ rest' ∧ Lexeme piece rest' (some token) := by
  rw [wordToken_eq] at h
  cases hmeaning : wordMeaning w with
  | some token' =>
    rw [hmeaning] at h
    obtain ⟨rfl, rfl⟩ := Prod.mk.inj (Except.ok.inj h)
    exact ⟨w, rfl, .word hne hword hrest hmeaning⟩
  | none =>
    rw [hmeaning] at h
    obtain ⟨⟨text, rest''⟩, hreattach, heq⟩ := except_map_eq_ok_iff.mp h
    obtain ⟨rfl, rfl⟩ := Prod.mk.inj heq
    obtain ⟨groups, rfl, rfl, hgroups, hend, hopen⟩ := reattach_sound hrest hreattach
    exact ⟨w ++ groups.flatMap bracketText, (List.append_assoc _ _ _).symm,
      .path hne hword hmeaning hgroups hend hopen⟩

/-! ## A pass -/

/-- A `!` that is not the start of a `!=`. -/
def BangAlone (cs : List Char) : Prop := ∃ rest, cs = '!' :: rest ∧ rest.head? ≠ some '='

theorem Lexeme.ne_nil (h : Lexeme piece rest token) : piece ≠ [] := by
  cases h with
  | blank | eq | ne | lBracket | rBracket | comma | str => exact List.cons_ne_nil _ _
  | word hne => exact hne
  | path hne => exact fun h => hne (List.append_eq_nil_iff.mp h).1

theorem scanToken_of_plain (cs : List Char) (hc : isDelimiter c = false) :
    scanToken c cs = (wordToken (takeWord (c :: cs)) (dropWord (c :: cs))).map
      fun (token, rest) => (some token, rest) := by
  simp only [isDelimiter, Bool.or_eq_false_iff, beq_eq_false_iff_ne] at hc
  obtain ⟨⟨⟨⟨⟨⟨hblank, heq⟩, hbang⟩, hopen⟩, hclose⟩, hcomma⟩, hquote⟩ := hc
  simp [scanToken, hblank, heq, hbang, hopen, hclose, hcomma, hquote]

/-- The characters before the closing quote are taken as they are. -/
theorem scanToken_quote {body : List Char} (hbody : quote ∉ body) (rest : List Char) :
    scanToken quote (body ++ quote :: rest) =
      .ok (some (.lit (.str (String.ofList body))), rest) := by
  have hmarks : isBlank quote = false ∧ quote ≠ '=' ∧ quote ≠ '!' ∧ quote ≠ '[' ∧ quote ≠ ']' ∧
      quote ≠ ',' := by decide
  obtain ⟨hblank, heq, hbang, hopen, hclose, hcomma⟩ := hmarks
  simp only [scanToken, hblank, heq, hbang, hopen, hclose, hcomma, false_and, if_false, if_true,
    Bool.false_eq_true]
  rw [dropWhile_until hbody, takeWhile_until hbody]

/-- A pass reads every piece of the grammar. -/
theorem scanToken_complete (h : Lexeme piece rest token) (hcs : c :: cs = piece ++ rest) :
    scanToken c cs = .ok (token, rest) := by
  have hbare : ∀ {t : Token}, Lexeme piece rest (some t) → isDelimiter c = false →
      scanToken c cs = .ok (some t, rest) := by
    intro t ht hc
    have hfirst : ∀ c' ∈ piece.head?, isDelimiter c' = false := by
      intro c' hc'
      obtain ⟨more, rfl⟩ := List.head?_eq_some_iff.mp hc'
      obtain ⟨rfl, -⟩ := List.cons.inj hcs
      exact hc
    rw [scanToken_of_plain cs hc, hcs, wordToken_complete ht hfirst]
    rfl
  have hplain : ∀ {w more : List Char}, w ≠ [] → IsWord w → c :: cs = w ++ more →
      isDelimiter c = false := by
    intro w more hne hword heq
    obtain ⟨c', w', rfl⟩ := List.exists_cons_of_ne_nil hne
    obtain ⟨rfl, -⟩ := List.cons.inj heq
    exact hword c List.mem_cons_self
  cases h with
  | blank _ hblank =>
    obtain ⟨rfl, rfl⟩ := List.cons.inj hcs
    rw [scanToken, if_pos hblank]
  | eq | ne | lBracket | rBracket | comma =>
    obtain ⟨rfl, rfl⟩ := List.cons.inj hcs
    rfl
  | str _ hbody =>
    rw [List.append_assoc] at hcs
    obtain ⟨rfl, rfl⟩ := List.cons.inj hcs
    exact scanToken_quote hbody rest
  | word hne hword hrest hmeaning =>
    exact hbare (.word hne hword hrest hmeaning) (hplain hne hword hcs)
  | path hne hword hmeaning hgroups hrest hopen =>
    rw [List.append_assoc] at hcs
    exact hbare (.path hne hword hmeaning hgroups hrest hopen) (hplain hne hword hcs)

/-- What a pass reads, away from a `!` alone, is a piece of the grammar. -/
theorem scanToken_sound (hbang : ¬BangAlone (c :: cs)) (h : scanToken c cs = .ok (token, rest)) :
    ∃ piece, c :: cs = piece ++ rest ∧ Lexeme piece rest token := by
  have hmark : ∀ {piece more : List Char} {t : Option Token}, Lexeme piece more t →
      c :: cs = piece ++ more → ∃ piece, c :: cs = piece ++ rest ∧ Lexeme piece rest token := by
    intro piece more t ht hcs
    rw [scanToken_complete ht hcs] at h
    obtain ⟨rfl, rfl⟩ := Prod.mk.inj (Except.ok.inj h)
    exact ⟨piece, hcs, ht⟩
  by_cases hblank : isBlank c = true
  · exact hmark (.blank cs hblank) rfl
  by_cases heq : c = '='
  · subst heq
    exact hmark (.eq cs) rfl
  by_cases hopen : c = '['
  · subst hopen
    exact hmark (.lBracket cs) rfl
  by_cases hclose : c = ']'
  · subst hclose
    exact hmark (.rBracket cs) rfl
  by_cases hcomma : c = ','
  · subst hcomma
    exact hmark (.comma cs) rfl
  by_cases hbang' : c = '!'
  · subst hbang'
    have hne : cs.head? = some '=' := by
      by_contra hne
      exact hbang ⟨cs, rfl, hne⟩
    obtain ⟨more, rfl⟩ := List.head?_eq_some_iff.mp hne
    exact hmark (.ne more) rfl
  by_cases hquote : c = quote
  · subst hquote
    have hmem : quote ∈ cs := by
      by_contra hmem
      have hall : cs.dropWhile (· != quote) = [] := by
        rw [List.dropWhile_eq_nil_iff]
        intro c hc
        simp only [bne_iff_ne]
        rintro rfl
        exact hmem hc
      simp [scanToken, hblank, heq, hbang', hopen, hclose, hcomma, hall] at h
    obtain ⟨body, more, rfl, hbody⟩ := List.eq_append_cons_of_mem hmem
    exact hmark (.str more hbody) (by simp)
  have hplain : isDelimiter c = false := by
    simp [isDelimiter, hblank, heq, hbang', hopen, hclose, hcomma, hquote]
  rw [scanToken_of_plain cs hplain] at h
  obtain ⟨⟨token', rest'⟩, hword, hresult⟩ := except_map_eq_ok_iff.mp h
  obtain ⟨rfl, rfl⟩ := Prod.mk.inj hresult
  have hne : takeWord (c :: cs) ≠ [] := by
    simp [takeWord, hplain]
  obtain ⟨piece, hcs, hpiece⟩ :=
    wordToken_sound hne (isWord_takeWord _) (endsWord_dropWord _) hword
  exact ⟨piece, (takeWord_append_dropWord _).symm.trans hcs, hpiece⟩

/-! ## The loop -/

/-- At a `!` alone a pass reads an empty path and leaves everything. -/
theorem scanToken_at_bang (h : BangAlone (c :: cs)) :
    scanToken c cs = .ok (some (.path ""), c :: cs) := by
  obtain ⟨rest, hcs, hne⟩ := h
  obtain ⟨rfl, rfl⟩ := List.cons.inj hcs
  have hmeaning : wordMeaning [] = none := by decide
  have hword : wordToken [] ('!' :: cs) = .ok (.path "", '!' :: cs) := by
    rw [wordToken_eq, hmeaning]
    simp [reattach, Except.map]
  have hstall : takeWord ('!' :: cs) = [] ∧ dropWord ('!' :: cs) = '!' :: cs := ⟨rfl, rfl⟩
  have hmarks : isBlank '!' = false ∧ '!' ≠ '=' ∧ '!' ≠ '[' ∧ '!' ≠ ']' ∧ '!' ≠ ',' ∧
      '!' ≠ quote := by decide
  obtain ⟨hblank, heq, hopen, hclose, hcomma, hquote⟩ := hmarks
  simp only [scanToken, hblank, heq, hopen, hclose, hcomma, hquote, hne, hstall.1, hstall.2, hword,
    and_false, if_false, Bool.false_eq_true, Except.map]

/-- A pass that leaves everything is followed by passes that do. -/
theorem scanLoop_of_stall (h : scanToken c cs = .ok (token, c :: cs)) (passes : Nat)
    (tokens : List Token) : scanLoop passes (c :: cs) tokens = .diverges := by
  induction passes generalizing tokens with
  | zero => rfl
  | succ passes ih =>
    rw [scanLoop, h]
    exact ih _

theorem scanLoop_at_bang (h : BangAlone cs) (passes : Nat) (tokens : List Token) :
    scanLoop passes cs tokens = .diverges := by
  obtain ⟨rest, rfl, -⟩ := id h
  exact scanLoop_of_stall (scanToken_at_bang h) passes tokens

/-- The loop goes through a text that is cut by the grammar, in as many passes as pieces. -/
theorem scanLoop_of_cut (h : Cut Lexeme rest text tokens) :
    ∃ pieces ≤ text.length, ∀ passes read,
      scanLoop (pieces + passes) (text ++ rest) read = scanLoop passes rest (read ++ tokens) := by
  induction h with
  | nil => exact ⟨0, Nat.le_refl _, fun passes read => by simp⟩
  | @cons piece text token tokens hpiece htext ih =>
    obtain ⟨pieces, hle, hloop⟩ := ih
    obtain ⟨c, cs, rfl⟩ := List.exists_cons_of_ne_nil hpiece.ne_nil
    refine ⟨pieces + 1, ?_, fun passes read => ?_⟩
    · simp only [List.length_append, List.length_cons]
      omega
    · have hscan : scanToken c (cs ++ (text ++ rest)) = .ok (token, text ++ rest) :=
        scanToken_complete hpiece rfl
      rw [List.append_assoc, List.cons_append, Nat.add_right_comm, scanLoop, hscan]
      dsimp only
      rw [hloop, List.append_assoc]

/-- What the loop has read when it ends. -/
theorem scanLoop_sound {passes : Nat} {read : List Token}
    (h : scanLoop passes cs read = .ok tokens) :
    ∃ more, tokens = read ++ more ∧ Cut Lexeme [] cs more := by
  induction passes generalizing cs read with
  | zero => cases h
  | succ passes ih =>
    cases cs with
    | nil =>
      obtain rfl := Outcome.ok.inj h
      exact ⟨[], (List.append_nil _).symm, .nil⟩
    | cons c cs =>
      by_cases hbang : BangAlone (c :: cs)
      · rw [scanLoop_at_bang hbang] at h
        cases h
      rw [scanLoop] at h
      cases hscan : scanToken c cs with
      | error e =>
        rw [hscan] at h
        cases h
      | ok result =>
        obtain ⟨token, rest⟩ := result
        rw [hscan] at h
        obtain ⟨more, rfl, hcut⟩ := ih h
        obtain ⟨piece, hcs, hpiece⟩ := scanToken_sound hbang hscan
        refine ⟨token.toList ++ more, List.append_assoc _ _ _, ?_⟩
        rw [hcs]
        exact .cons (by rwa [List.append_nil]) hcut

/-- The text is cut by the grammar up to a `!` alone. -/
def LoneBang (cs : List Char) : Prop :=
  ∃ text rest tokens, cs = text ++ rest ∧ Cut Lexeme rest text tokens ∧ BangAlone rest

/-- A loop that has not ended after a pass for each character and one more stands at a `!`. -/
theorem loneBang_of_scanLoop {passes : Nat} {read : List Token} (hpasses : cs.length < passes)
    (h : scanLoop passes cs read = .diverges) : LoneBang cs := by
  induction passes generalizing cs read with
  | zero => exact absurd hpasses (Nat.not_lt_zero _)
  | succ passes ih =>
    cases cs with
    | nil => cases h
    | cons c cs =>
      by_cases hbang : BangAlone (c :: cs)
      · exact ⟨[], c :: cs, [], rfl, .nil, hbang⟩
      rw [scanLoop] at h
      cases hscan : scanToken c cs with
      | error e =>
        rw [hscan] at h
        cases h
      | ok result =>
        obtain ⟨token, rest⟩ := result
        rw [hscan] at h
        obtain ⟨piece, hcs, hpiece⟩ := scanToken_sound hbang hscan
        have hlen := congrArg List.length hcs
        have hpos := List.length_pos_iff.mpr hpiece.ne_nil
        simp only [List.length_cons, List.length_append] at hpasses hlen
        obtain ⟨text, rest', tokens, rfl, hcut, hrest⟩ := ih (by omega) h
        exact ⟨piece ++ text, rest', token.toList ++ tokens, by rw [hcs, List.append_assoc],
          .cons hpiece hcut, hrest⟩

theorem scanLoop_of_loneBang (h : LoneBang cs) (passes : Nat) (read : List Token) :
    scanLoop passes cs read = .diverges := by
  obtain ⟨text, rest, tokens, rfl, hcut, hbang⟩ := h
  induction hcut generalizing passes read with
  | nil => exact scanLoop_at_bang hbang passes read
  | @cons piece text token tokens hpiece htext ih =>
    cases passes with
    | zero => rfl
    | succ passes =>
      obtain ⟨c, cs, rfl⟩ := List.exists_cons_of_ne_nil hpiece.ne_nil
      have hscan : scanToken c (cs ++ (text ++ rest)) = .ok (token, text ++ rest) :=
        scanToken_complete hpiece rfl
      rw [List.append_assoc, List.cons_append, scanLoop, hscan]
      exact ih passes _

theorem scanLoop_diverges_iff (cs : List Char) (read : List Token) :
    (∀ passes, scanLoop passes cs read = .diverges) ↔ LoneBang cs :=
  ⟨fun h => loneBang_of_scanLoop (Nat.lt_succ_self _) (h _),
    fun h passes => scanLoop_of_loneBang h passes read⟩

/-- The passes that `tokenize` counts are enough: it answers whenever the loop ends at all. -/
theorem tokenize_diverges_iff (s : String) : tokenize s = .diverges ↔ LoneBang s.toList := by
  have hloop : tokenize s = .diverges ↔
      scanLoop (s.length + 1) s.toList [] = .diverges := by
    unfold tokenize
    cases scanLoop (s.length + 1) s.toList [] with
    | ok tokens =>
      simp only [Outcome.bind]
      split <;> simp
    | error e => simp [Outcome.bind]
    | diverges => simp [Outcome.bind]
  rw [hloop]
  constructor
  · exact loneBang_of_scanLoop (by rw [String.length_toList]; exact Nat.lt_succ_self _)
  · exact fun h => scanLoop_of_loneBang h _ _

/-- The tokens of a text are those it is cut into. -/
theorem tokenize_eq_ok_iff {s : String} :
    tokenize s = .ok tokens ↔ tokens ≠ [] ∧ Cut Lexeme [] s.toList tokens := by
  have htokenize : tokenize s = .ok tokens ↔
      tokens ≠ [] ∧ scanLoop (s.length + 1) s.toList [] = .ok tokens := by
    unfold tokenize
    rw [Outcome.bind_eq_ok_iff]
    constructor
    · rintro ⟨read, hread, h⟩
      split at h
      · cases h
      · next hne =>
          obtain rfl := Outcome.ok.inj h
          exact ⟨hne, hread⟩
    · rintro ⟨hne, hread⟩
      exact ⟨tokens, hread, if_neg hne⟩
  rw [htokenize]
  refine and_congr_right fun _ => ?_
  constructor
  · intro h
    obtain ⟨more, rfl, hcut⟩ := scanLoop_sound h
    exact hcut
  · intro hcut
    obtain ⟨pieces, hle, hloop⟩ := scanLoop_of_cut hcut
    rw [String.length_toList] at hle
    have hpasses : s.length + 1 = pieces + (s.length - pieces + 1) := by omega
    have hscan := hloop (s.length - pieces + 1) []
    rw [List.append_nil] at hscan
    rw [hpasses, hscan]
    rfl

/-- The predicate is scanned when it is neither empty nor too long. -/
theorem parse_diverges_iff (s : String) :
    Predicate.parse s = .diverges ↔
      trim s ≠ "" ∧ (trim s).length ≤ Limits.maxExprChars ∧ LoneBang (trim s).toList := by
  rw [← tokenize_diverges_iff]
  unfold Predicate.parse
  dsimp only
  by_cases hempty : trim s = ""
  · simp [hempty]
  rw [if_neg hempty]
  by_cases hlong : Limits.maxExprChars < (trim s).length
  · simp [hlong, Nat.not_le.mpr hlong]
  rw [if_neg hlong]
  cases tokenize (trim s) with
  | ok tokens =>
    cases hterms : parseTerms tokens with
    | ok terms => simp [Outcome.bind, Outcome.ofExcept, Except.map, hterms]
    | error e => simp [Outcome.bind, Outcome.ofExcept, Except.map, hterms]
  | error e => simp [Outcome.bind]
  | diverges => simp [Outcome.bind, hempty, Nat.not_lt.mp hlong]

/-! ## Progress -/

/-- `ScansTo text rest`: the loop over the text comes to where `rest` is left. -/
inductive ScansTo (text : List Char) : List Char → Prop
  | start : ScansTo text text
  | pass {c : Char} {cs rest : List Char} {token : Option Token} (h : ScansTo text (c :: cs))
      (hscan : scanToken c cs = .ok (token, rest)) : ScansTo text rest

/-- The loop ends, and each of its passes advances or returns an error. -/
structure ScanEnds (text : List Char) : Prop where
  ends : ∃ passes, scanLoop passes text [] ≠ .diverges
  advances : ∀ {c cs token rest}, ScansTo text (c :: cs) →
    scanToken c cs = .ok (token, rest) → rest.length < (c :: cs).length

/-- Where no `!` stands alone, the loop comes to the ends of the pieces only. -/
theorem cut_of_scansTo (hbang : ¬LoneBang text) (h : ScansTo text rest) :
    ∃ front tokens, text = front ++ rest ∧ Cut Lexeme rest front tokens := by
  induction h with
  | start => exact ⟨[], [], rfl, .nil⟩
  | @pass c cs rest token _ hscan ih =>
    obtain ⟨front, tokens, hfront, hcut⟩ := ih
    have hhere : ¬BangAlone (c :: cs) :=
      fun hhere => hbang ⟨front, c :: cs, tokens, hfront, hcut, hhere⟩
    obtain ⟨piece, hcs, hpiece⟩ := scanToken_sound hhere hscan
    rw [hcs] at hfront hcut
    exact ⟨front ++ piece, tokens ++ token.toList, by rw [hfront, List.append_assoc],
      hcut.append (.single hpiece)⟩

theorem scanEnds_iff (text : List Char) : ScanEnds text ↔ ¬LoneBang text := by
  constructor
  · intro h hbang
    obtain ⟨passes, hends⟩ := h.ends
    exact hends (scanLoop_of_loneBang hbang passes [])
  · intro hbang
    constructor
    case ends =>
      by_contra hall
      simp only [ne_eq, not_exists, not_not] at hall
      exact hbang ((scanLoop_diverges_iff text []).mp hall)
    case advances =>
      intro c cs token rest hto hscan
      obtain ⟨front, tokens, hfront, hcut⟩ := cut_of_scansTo hbang hto
      have hhere : ¬BangAlone (c :: cs) :=
        fun hhere => hbang ⟨front, c :: cs, tokens, hfront, hcut, hhere⟩
      obtain ⟨piece, hcs, hpiece⟩ := scanToken_sound hhere hscan
      have hpos := List.length_pos_iff.mpr hpiece.ne_nil
      rw [hcs, List.length_append]
      omega

/-- The scanner ends exactly on the texts that do not come to a `!` alone where a token would
start, and so does the parser, on the texts it scans. -/
theorem scanner_ends_iff (s : String) :
    (ScanEnds s.toList ∧ tokenize s ≠ .diverges ↔ ¬LoneBang s.toList) ∧
      (Predicate.parse s ≠ .diverges ↔
        ¬(trim s ≠ "" ∧ (trim s).length ≤ Limits.maxExprChars ∧ LoneBang (trim s).toList)) := by
  refine ⟨?_, not_congr (parse_diverges_iff s)⟩
  rw [scanEnds_iff, ne_eq, tokenize_diverges_iff, and_self]

/-- A `!` with a blank behind it is never read. -/
theorem lone_bang_never_ends :
    (∀ passes, scanLoop passes "type ! 'Issue'".toList [] = .diverges) ∧
      Predicate.parse "type ! 'Issue'" = .diverges := by
  have hbang : LoneBang "type ! 'Issue'".toList :=
    (tokenize_diverges_iff _).mp (by decide +kernel)
  exact ⟨fun passes => scanLoop_of_loneBang hbang passes [], by decide +kernel⟩

end Verity.Analysis
