import Verity.Foundation.Fallible
import Verity.Model.ManifestPath

/-!
# Route predicates

The `route.when` text of an entity block: comparisons and `in` over dot-paths, joined by `and`.
The scanner splits the text into tokens, the parser groups them into terms, and a payload matches
when all the terms do.

The scanning loop does not always advance: at a `!` without a `=` behind it, the bare word it
reads is empty. `scanLoop` therefore counts its passes, and runs that do not end are `diverges`.
-/

set_option autoImplicit false

namespace Verity.Model

open Verity.Foundation

/-! ## Syntax -/

/-- What a predicate is refused for, beyond its length. -/
inductive BadPredicate where
  | unterminatedString
  | unterminatedIndex
  | expectedAndTerm
  | expectedPath
  | path (text : String) (e : PathError)
  | badInList
  | expectedOperator
deriving DecidableEq, Repr

/-- SOURCE: predicate.rs:19-27 -/
inductive PredicateError where
  | tooLong
  | empty
  | bad (reason : BadPredicate)
deriving DecidableEq, Repr

def BadPredicate.text (debug : String → String) : BadPredicate → String
  | .unterminatedString => "unterminated string"
  | .unterminatedIndex => "unterminated index"
  | .expectedAndTerm => "expected \x60and <term>\x60"
  | .expectedPath => "expected a dot-path"
  | .path text e => debug text ++ ": " ++ e.text debug
  | .badInList => "bad \x60in [...]\x60 list"
  | .expectedOperator => "expected \x60= <lit>\x60, \x60!= <lit>\x60, or \x60in [...]\x60"

def PredicateError.text (debug : String → String) : PredicateError → String
  | .tooLong => "predicate exceeds " ++ toString Limits.maxExprChars ++ " chars"
  | .empty => "empty predicate"
  | .bad reason => "bad predicate syntax: " ++ reason.text debug

/-- SOURCE: predicate.rs:29-35 -/
inductive Literal where
  | str (s : String)
  | num (n : F64)
  | bool (b : Bool)
  | null
deriving DecidableEq, Repr

/-- SOURCE: predicate.rs:49-54 -/
inductive PredicateOp where
  | eq (lit : Literal)
  | ne (lit : Literal)
  | isIn (lits : List Literal)
deriving DecidableEq, Repr

/-- SOURCE: predicate.rs:56-60 -/
structure PredicateTerm where
  path : DotPath
  op : PredicateOp
deriving DecidableEq, Repr

/-- SOURCE: predicate.rs:63-67 -/
structure Predicate where
  terms : List PredicateTerm
  text : String
deriving DecidableEq, Repr

/-- SOURCE: predicate.rs:114-125 -/
inductive Token where
  | path (text : String)
  | lit (lit : Literal)
  | eq
  | ne
  | isIn
  | and
  | lBracket
  | rBracket
  | comma
deriving DecidableEq, Repr

/-! ## The scanner -/

def isBlank (c : Char) : Bool := c == ' ' || c == '\t' || c == '\n'

def quote : Char := '\x27'

/-- The characters a bare word ends at. -/
def isDelimiter (c : Char) : Bool :=
  isBlank c || c == '=' || c == '!' || c == '[' || c == ']' || c == ',' || c == quote

def takeWord (cs : List Char) : List Char := cs.takeWhile fun c => !isDelimiter c

def dropWord (cs : List Char) : List Char := cs.dropWhile fun c => !isDelimiter c

/-- The brackets that follow the word of a path, each with the word behind it, and what follows
them. SOURCE: predicate.rs:196-215 -/
def reattach (text rest : List Char) : Except PredicateError (List Char × List Char) :=
  match rest with
  | '[' :: more =>
    if more.contains ']' then
      let after := (more.dropWhile (· != ']')).tail
      reattach (text ++ '[' :: more.takeWhile (· != ']') ++ ']' :: takeWord after)
        (dropWord after)
    else .error (.bad .unterminatedIndex)
  | rest => .ok (text, rest)
termination_by rest.length
decreasing_by
  have hclose : (more.dropWhile (· != ']')).length ≤ more.length :=
    (List.dropWhile_suffix _).length_le
  have hword : (dropWord (more.dropWhile (· != ']')).tail).length ≤
      (more.dropWhile (· != ']')).tail.length := (List.dropWhile_suffix _).length_le
  simp only [List.length_tail, List.length_cons] at hword ⊢
  omega

/-- The token of a bare word that ends before `rest`. SOURCE: predicate.rs:185-219 -/
def wordToken (word rest : List Char) : Except PredicateError (Token × List Char) :=
  if word = "and".toList then .ok (.and, rest)
  else if word = "in".toList then .ok (.isIn, rest)
  else if word = "true".toList then .ok (.lit (.bool true), rest)
  else if word = "false".toList then .ok (.lit (.bool false), rest)
  else if word = "null".toList then .ok (.lit .null, rest)
  else
    match parseF64 word with
    | some n => .ok (.lit (.num n), rest)
    | none => (reattach word rest).map fun (text, rest) => (.path (String.ofList text), rest)

/-- One pass of the scanning loop at the character `c`: the token it pushes, if any, and the
characters that are left. SOURCE: predicate.rs:132-221 -/
def scanToken (c : Char) (cs : List Char) : Except PredicateError (Option Token × List Char) :=
  if isBlank c then .ok (none, cs)
  else if c = '=' then .ok (some .eq, cs)
  else if c = '!' ∧ cs.head? = some '=' then .ok (some .ne, cs.tail)
  else if c = '[' then .ok (some .lBracket, cs)
  else if c = ']' then .ok (some .rBracket, cs)
  else if c = ',' then .ok (some .comma, cs)
  else if c = quote then
    match cs.dropWhile (· != quote) with
    | [] => .error (.bad .unterminatedString)
    | _ :: after => .ok (some (.lit (.str (String.ofList (cs.takeWhile (· != quote))))), after)
  else
    (wordToken (takeWord (c :: cs)) (dropWord (c :: cs))).map fun (token, rest) =>
      (some token, rest)

/-- The scanning loop, for as many passes as are given. SOURCE: predicate.rs:131-222 -/
def scanLoop : Nat → List Char → List Token → Outcome PredicateError (List Token)
  | 0, _, _ => .diverges
  | _ + 1, [], tokens => .ok tokens
  | passes + 1, c :: cs, tokens =>
    match scanToken c cs with
    | .error e => .error e
    | .ok (token, rest) => scanLoop passes rest (tokens ++ token.toList)

/-- A loop that ends has ended after one pass for each character, and the one that finds none
left. SOURCE: predicate.rs:127-227 -/
def tokenize (s : String) : Outcome PredicateError (List Token) :=
  (scanLoop (s.length + 1) s.toList []).bind fun tokens =>
    if tokens = [] then .error .empty else .ok tokens

/-! ## The parser -/

/-- The literals of an `in` list, after its bracket. SOURCE: predicate.rs:253-273 -/
def parseInList (lits : List Literal) :
    List Token → Except PredicateError (List Literal × List Token)
  | .lit lit :: .comma :: tail => parseInList (lits ++ [lit]) tail
  | .lit lit :: .rBracket :: tail => .ok (lits ++ [lit], tail)
  | _ => .error (.bad .badInList)

/-- SOURCE: predicate.rs:238-279 -/
def parseOperator : List Token → Except PredicateError (PredicateOp × List Token)
  | .eq :: .lit lit :: tail => .ok (.eq lit, tail)
  | .ne :: .lit lit :: tail => .ok (.ne lit, tail)
  | .isIn :: .lBracket :: tail =>
    (parseInList [] tail).map fun (lits, tail) => (.isIn lits, tail)
  | _ => .error (.bad .expectedOperator)

/-- SOURCE: predicate.rs:232-280 -/
def parseTerm : List Token → Except PredicateError (PredicateTerm × List Token)
  | .path text :: rest =>
    match DotPath.parse text with
    | .error e => .error (.bad (.path text e))
    | .ok path => (parseOperator rest).map fun (op, tail) => (⟨path, op⟩, tail)
  | _ => .error (.bad .expectedPath)

theorem length_parseInList {lits lits' : List Literal} {tokens tail : List Token}
    (h : parseInList lits tokens = .ok (lits', tail)) : tail.length < tokens.length := by
  fun_induction parseInList lits tokens with
  | case1 lits lit tail' ih =>
    have := ih h
    simp only [List.length_cons]
    omega
  | case2 lits lit tail' =>
    obtain ⟨-, rfl⟩ := Prod.mk.inj (Except.ok.inj h)
    simp only [List.length_cons]
    omega
  | case3 => cases h

theorem length_parseOperator {op : PredicateOp} {tokens tail : List Token}
    (h : parseOperator tokens = .ok (op, tail)) : tail.length < tokens.length := by
  fun_cases parseOperator tokens with
  | case1 lit tail' | case2 lit tail' =>
    obtain ⟨-, rfl⟩ := Prod.mk.inj (Except.ok.inj h)
    simp only [List.length_cons]
    omega
  | case3 tail' =>
    simp only [parseOperator] at h
    cases hlist : parseInList [] tail' with
    | error e => simp [hlist, Except.map] at h
    | ok result =>
      rw [hlist] at h
      obtain ⟨-, rfl⟩ := Prod.mk.inj (Except.ok.inj h)
      have := length_parseInList hlist
      simp only [List.length_cons]
      omega
  | case4 => simp_all [parseOperator]

theorem length_parseTerm {term : PredicateTerm} {tokens tail : List Token}
    (h : parseTerm tokens = .ok (term, tail)) : tail.length < tokens.length := by
  fun_cases parseTerm tokens with
  | case1 text rest e he => simp [parseTerm, he] at h
  | case2 text rest path hpath =>
    simp only [parseTerm, hpath] at h
    cases hop : parseOperator rest with
    | error e => simp [hop, Except.map] at h
    | ok result =>
      rw [hop] at h
      obtain ⟨-, rfl⟩ := Prod.mk.inj (Except.ok.inj h)
      have := length_parseOperator hop
      simp only [List.length_cons]
      omega
  | case3 => simp_all [parseTerm]

/-- The loop over the terms. SOURCE: predicate.rs:82-90 -/
def parseTerms (tokens : List Token) : Except PredicateError (List PredicateTerm) :=
  match h : parseTerm tokens with
  | .error e => .error e
  | .ok (term, []) => .ok [term]
  | .ok (term, .and :: tail) =>
    have : tail.length < tokens.length := Nat.lt_of_succ_lt (length_parseTerm h)
    if tail = [] then .error (.bad .expectedAndTerm)
    else (parseTerms tail).map fun terms => term :: terms
  | .ok (_, _) => .error (.bad .expectedAndTerm)
termination_by tokens.length

/-- SOURCE: predicate.rs:70-92 -/
def Predicate.parse (s : String) : Outcome PredicateError Predicate :=
  let text := trim s
  if text = "" then .error .empty
  else if Limits.maxExprChars < text.length then .error .tooLong
  else
    (tokenize text).bind fun tokens =>
      .ofExcept ((parseTerms tokens).map fun terms => ⟨terms, text⟩)

/-! ## Matching -/

/-- `Number::as_f64`. -/
def Json.asF64 : Json → Option F64
  | .posInt n => some (F64.ofRatio false n.toNat 1)
  | .negInt n => some (F64.ofRatio (decide (n < 0)) n.natAbs 1)
  | .float bits => some ⟨bits⟩
  | _ => none

/-- SOURCE: predicate.rs:37-47 -/
def Literal.matches (lit : Literal) (v : Json) : Bool :=
  match lit, v with
  | .str s, .str vs => s == vs
  | .num n, v => v.asF64.any fun x => x.eq n
  | .bool b, .bool vb => b == vb
  | .null, .null => true
  | _, _ => false

/-- SOURCE: predicate.rs:100-110 -/
def PredicateTerm.matches (term : PredicateTerm) (payload : Json) : Bool :=
  match term.path.evalScalar payload with
  | none => false
  | some value =>
    match term.op with
    | .eq lit => lit.matches value
    | .ne lit => !lit.matches value
    | .isIn lits => lits.any fun lit => lit.matches value

/-- SOURCE: predicate.rs:99-111 -/
def Predicate.matches (p : Predicate) (payload : Json) : Bool :=
  p.terms.all fun term => term.matches payload

end Verity.Model
