import Verity.Foundation.Lexing

/-!
# Search and replace by patterns

A pattern is matched by backtracking: its alternatives are tried from the left, and a run takes as
many letters as it can before it gives any back. The places where a match can end are listed in
the order in which they are tried, so the match is the first of them. A place in a text is what is
in front of it, read backwards, and what is behind it.

A pattern that begins at the edge of a word can match only where one of its first words stands
whole. On a text of words without any of these, search and replace do nothing.
-/

set_option autoImplicit false

namespace Verity.Foundation

/-- A pattern: one letter of a class, a run of letters of a class, the edge of a word, and what
is put together from these. -/
inductive Regex (α : Type) where
  | one (p : α → Bool)
  | many (p : α → Bool)
  | edge
  | empty
  | seq (r s : Regex α)
  | alt (r s : Regex α)

namespace Regex

variable {α : Type}

/-- A letter of a class and a run of more of them. -/
def some (p : α → Bool) : Regex α := seq (one p) (many p)

/-- The pattern, or nothing where it does not match. -/
def opt (r : Regex α) : Regex α := alt r empty

/-- One letter after another, and then the rest. -/
def lit [DecidableEq α] (l : List α) (r : Regex α) : Regex α :=
  l.foldr (fun a rest => seq (one (· == a)) rest) r

section Matching

variable (word : α → Bool)

/-- A word ends or begins between the two sides. -/
def atEdge (before after : List α) : Bool := before.head?.any word != after.head?.any word

/-- Where a run can end, the longest run first. -/
@[simp]
def manyEnds (p : α → Bool) : List α → List α → List (List α × List α)
  | before, [] => [(before, [])]
  | before, a :: after =>
    if p a then manyEnds p (a :: before) after ++ [(before, a :: after)]
    else [(before, a :: after)]

/-- Where a match can end that begins at a place, in the order in which the ends are tried. -/
@[simp]
def ends : Regex α → List α → List α → List (List α × List α)
  | one _, _, [] => []
  | one p, before, a :: after => if p a then [(a :: before, after)] else []
  | many p, before, after => manyEnds p before after
  | edge, before, after => if atEdge word before after then [(before, after)] else []
  | empty, before, after => [(before, after)]
  | seq r s, before, after => (ends r before after).flatMap fun x => ends s x.1 x.2
  | alt r s, before, after => ends r before after ++ ends s before after

def matchesAt (r : Regex α) (before after : List α) : Bool := !(ends word r before after).isEmpty

/-- A match anywhere behind `before`. -/
def searchFrom (r : Regex α) : List α → List α → Bool
  | before, [] => matchesAt word r before []
  | before, a :: after =>
    matchesAt word r before (a :: after) || searchFrom r (a :: before) after

def search (r : Regex α) (text : List α) : Bool := searchFrom word r [] text

/-- The matches are replaced from the left, each where the one before has ended; `skip` counts the
letters of a match that are still to be passed over. The patterns match no empty text. -/
def subFrom (r : Regex α) (repl : List α) : Nat → List α → List α → List α
  | _, _, [] => []
  | skip + 1, before, a :: after => subFrom r repl skip (a :: before) after
  | 0, before, a :: after =>
    match (ends word r before (a :: after)).head? with
    | none => a :: subFrom r repl 0 (a :: before) after
    | Option.some (_, rest) =>
      repl ++ subFrom r repl (after.length - rest.length) (a :: before) after

def sub (r : Regex α) (repl text : List α) : List α := subFrom word r repl 0 [] text

end Matching

/-! ## Texts without a match -/

variable {word : α → Bool}

section NoMatch

variable {r : Regex α}

theorem searchFrom_eq_false {before after : List α}
    (h : ∀ front back, front.reverse ++ back = before.reverse ++ after →
      matchesAt word r front back = false) : searchFrom word r before after = false := by
  induction after generalizing before with
  | nil => exact h before [] rfl
  | cons a after ih =>
    rw [searchFrom, h before (a :: after) rfl, Bool.false_or]
    apply ih
    intro front back hplace
    apply h
    simpa using hplace

theorem search_eq_false {text : List α}
    (h : ∀ front back, front.reverse ++ back = text → matchesAt word r front back = false) :
    search word r text = false :=
  searchFrom_eq_false h

theorem subFrom_eq_self {repl before after : List α}
    (h : ∀ front back, front.reverse ++ back = before.reverse ++ after →
      matchesAt word r front back = false) : subFrom word r repl 0 before after = after := by
  induction after generalizing before with
  | nil => rfl
  | cons a after ih =>
    have hno : ends word r before (a :: after) = [] := by
      simpa [matchesAt] using h before (a :: after) rfl
    have hrest : subFrom word r repl 0 (a :: before) after = after := by
      apply ih
      intro front back hplace
      apply h
      simpa using hplace
    rw [subFrom, hno]
    simp only [List.head?_nil, hrest]

theorem sub_eq_self {repl text : List α}
    (h : ∀ front back, front.reverse ++ back = text → matchesAt word r front back = false) :
    sub word r repl text = text :=
  subFrom_eq_self h

end NoMatch

/-! ## What a match begins with -/

section Firsts

theorem matchesAt_seq {r s : Regex α} {before after : List α} :
    matchesAt word (seq r s) before after = true ↔
      ∃ x ∈ ends word r before after, matchesAt word s x.1 x.2 = true := by
  simp only [matchesAt, ends, Bool.not_eq_true', List.isEmpty_eq_false_iff, ne_eq,
    List.flatMap_eq_nil_iff, not_forall, exists_prop]

theorem matchesAt_one_seq {p : α → Bool} {r : Regex α} {before after : List α} :
    matchesAt word (seq (one p) r) before after = true ↔
      ∃ a rest, after = a :: rest ∧ p a = true ∧ matchesAt word r (a :: before) rest = true := by
  rw [matchesAt_seq]
  cases after with
  | nil => simp [ends]
  | cons a rest =>
    by_cases hp : p a = true
    · simp [ends, hp]
    · simp [ends, hp]

theorem matchesAt_alt_seq {r s t : Regex α} {before after : List α} :
    matchesAt word (seq (alt r s) t) before after = true ↔
      matchesAt word (seq r t) before after = true ∨
        matchesAt word (seq s t) before after = true := by
  simp only [matchesAt_seq, ends, List.mem_append, or_and_right, exists_or]

theorem matchesAt_empty_seq {r : Regex α} {before after : List α} :
    matchesAt word (seq empty r) before after = true ↔ matchesAt word r before after = true := by
  simp [matchesAt_seq, ends]

theorem matchesAt_seq_assoc {r s t : Regex α} {before after : List α} :
    matchesAt word (seq (seq r s) t) before after = true ↔
      matchesAt word (seq r (seq s t)) before after = true := by
  simp only [matchesAt_seq, ends, List.mem_flatMap]
  constructor
  · rintro ⟨y, ⟨x, hx, hy⟩, ht⟩
    exact ⟨x, hx, y, hy, ht⟩
  · rintro ⟨x, hx, y, hy, ht⟩
    exact ⟨y, ⟨x, hx, hy⟩, ht⟩

theorem matchesAt_opt_seq {r t : Regex α} {before after : List α} :
    matchesAt word (seq (opt r) t) before after = true ↔
      matchesAt word (seq r t) before after = true ∨ matchesAt word t before after = true := by
  rw [opt, matchesAt_alt_seq, matchesAt_empty_seq]

theorem matchesAt_many_seq {p : α → Bool} {t : Regex α} {before after : List α} :
    matchesAt word (seq (many p) t) before after = true ↔
      matchesAt word t before after = true ∨
        matchesAt word (seq (one p) (seq (many p) t)) before after = true := by
  rw [matchesAt_one_seq]
  simp only [matchesAt_seq, ends]
  cases after with
  | nil => simp [manyEnds]
  | cons a after =>
    rw [manyEnds]
    by_cases hp : p a = true
    · simp only [if_pos hp, List.mem_append, List.mem_singleton, List.cons.injEq]
      constructor
      · rintro ⟨x, hx | rfl, ht⟩
        · exact Or.inr ⟨a, after, ⟨rfl, rfl⟩, hp, x, hx, ht⟩
        · exact Or.inl ht
      · rintro (ht | ⟨_, _, ⟨rfl, rfl⟩, -, x, hx, ht⟩)
        · exact ⟨_, Or.inr rfl, ht⟩
        · exact ⟨x, Or.inl hx, ht⟩
    · simp only [if_neg hp, List.mem_singleton, List.cons.injEq, exists_eq_left]
      constructor
      · exact Or.inl
      · rintro (ht | ⟨_, _, ⟨rfl, rfl⟩, hp', -⟩)
        · exact ht
        · exact absurd hp' hp

variable [DecidableEq α]

theorem lit_cons (a : α) (l : List α) (r : Regex α) :
    lit (a :: l) r = seq (one (· == a)) (lit l r) := rfl

theorem lit_append (l l' : List α) (r : Regex α) : lit (l ++ l') r = lit l (lit l' r) :=
  List.foldr_append

/-- A text matches where it stands, and the rest behind it. -/
theorem matchesAt_lit {l : List α} {r : Regex α} {before after : List α} :
    matchesAt word (lit l r) before after = true ↔
      ∃ rest, after = l ++ rest ∧ matchesAt word r (l.reverse ++ before) rest = true := by
  induction l generalizing before after with
  | nil =>
    constructor
    · intro h
      exact ⟨after, rfl, h⟩
    · rintro ⟨rest, rfl, h⟩
      exact h
  | cons a l ih =>
    rw [lit_cons, matchesAt_one_seq]
    constructor
    · rintro ⟨b, rest, rfl, hb, h⟩
      obtain rfl : b = a := by simpa using hb
      obtain ⟨rest, rfl, hbehind⟩ := ih.mp h
      exact ⟨rest, rfl, by simpa using hbehind⟩
    · rintro ⟨rest, rfl, h⟩
      exact ⟨a, l ++ rest, rfl, by simp, ih.mpr ⟨rest, rfl, by simpa using h⟩⟩

theorem matchesAt_lit_seq {l : List α} {r t : Regex α} {before after : List α} :
    matchesAt word (seq (lit l r) t) before after = true ↔
      matchesAt word (lit l (seq r t)) before after = true := by
  induction l generalizing before after with
  | nil => exact Iff.rfl
  | cons a l ih =>
    rw [lit_cons, lit_cons, matchesAt_seq_assoc, matchesAt_one_seq, matchesAt_one_seq]
    exact exists_congr fun b => exists_congr fun rest =>
      and_congr_right fun _ => and_congr_right fun _ => ih

end Firsts

/-! ## Patterns that go on after a word -/

section Breaks

/-- Behind a letter of a word, the pattern matches only where the word has ended. -/
def Breaks (word : α → Bool) (r : Regex α) : Prop :=
  ∀ before after, before.head?.any word = true → matchesAt word r before after = true →
    Stops word after

theorem breaks_edge : Breaks word edge := by
  intro before after hbefore hmatch
  have hedge : atEdge word before after = true := by
    by_contra hno
    simp [matchesAt, ends, hno] at hmatch
  intro a ha
  simpa [atEdge, hbefore, Option.mem_def.mp ha] using hedge

variable {p : α → Bool} {r t : Regex α}

theorem breaks_one_seq (hp : ∀ a, p a = true → word a = false) : Breaks word (seq (one p) t) := by
  intro before after _ hmatch
  rw [matchesAt_one_seq] at hmatch
  obtain ⟨a, rest, rfl, ha, -⟩ := hmatch
  exact stops_cons (hp a ha)

theorem breaks_some_seq (hp : ∀ a, p a = true → word a = false) : Breaks word (seq (some p) t) := by
  intro before after hbefore hmatch
  rw [some, matchesAt_seq_assoc] at hmatch
  exact breaks_one_seq hp before after hbefore hmatch

theorem Breaks.opt_seq (hr : Breaks word (seq r t)) (ht : Breaks word t) :
    Breaks word (seq (opt r) t) := by
  intro before after hbefore hmatch
  rw [matchesAt_opt_seq] at hmatch
  rcases hmatch with h | h
  · exact hr before after hbefore h
  · exact ht before after hbefore h

theorem Breaks.seq_assoc {s : Regex α} (h : Breaks word (seq r (seq s t))) :
    Breaks word (seq (seq r s) t) := by
  intro before after hbefore hmatch
  rw [matchesAt_seq_assoc] at hmatch
  exact h before after hbefore hmatch

end Breaks

/-! ## The first words of a pattern -/

section Opens

/-- The pattern matches only where one of the words stands, from its first letter on. -/
def Opens (word : α → Bool) (r : Regex α) (words : List (List α)) : Prop :=
  ∀ before after, matchesAt word r before after = true → after.takeWhile word ∈ words

variable {r t : Regex α} {words : List (List α)}

theorem Opens.alt_seq {s : Regex α} (hr : Opens word (seq r t) words)
    (hs : Opens word (seq s t) words) : Opens word (seq (alt r s) t) words := by
  intro before after hmatch
  rw [matchesAt_alt_seq] at hmatch
  rcases hmatch with h | h
  · exact hr before after h
  · exact hs before after h

theorem Opens.opt_seq (hr : Opens word (seq r t) words) (ht : Opens word t words) :
    Opens word (seq (opt r) t) words := by
  intro before after hmatch
  rw [matchesAt_opt_seq] at hmatch
  rcases hmatch with h | h
  · exact hr before after h
  · exact ht before after h

variable [DecidableEq α]

theorem takeWhile_of_lit {l before after : List α} (hl : l ≠ [])
    (hword : ∀ a ∈ l, word a = true) (hr : Breaks word r)
    (hmatch : matchesAt word (lit l r) before after = true) : after.takeWhile word = l := by
  rw [matchesAt_lit] at hmatch
  obtain ⟨rest, rfl, hrest⟩ := hmatch
  have hbefore : (l.reverse ++ before).head?.any word = true := by
    rw [List.head?_append_of_ne_nil _ (by simpa using hl), List.head?_reverse,
      List.getLast?_eq_getLast_of_ne_nil hl]
    exact hword _ (List.getLast_mem hl)
  exact takeWhile_append_stops hword (hr _ rest hbefore hrest)

/-- A word that the pattern goes on after. -/
theorem opens_lit {l : List α} (hl : l ≠ []) (hword : ∀ a ∈ l, word a = true)
    (hr : Breaks word r) (hmem : l ∈ words) : Opens word (lit l r) words := by
  intro before after hmatch
  rw [takeWhile_of_lit hl hword hr hmatch]
  exact hmem

theorem Opens.lit_seq {l : List α} (h : Opens word (lit l (seq r t)) words) :
    Opens word (seq (lit l r) t) words := by
  intro before after hmatch
  rw [matchesAt_lit_seq] at hmatch
  exact h before after hmatch

theorem Opens.lit_lit {l l' : List α} (h : Opens word (lit (l ++ l') r) words) :
    Opens word (lit l (lit l' r)) words := by
  rw [← lit_append]
  exact h

theorem Opens.lit_opt {l : List α} (hr : Opens word (lit l (seq r t)) words)
    (ht : Opens word (lit l t) words) : Opens word (lit l (seq (opt r) t)) words := by
  intro before after hmatch
  rw [matchesAt_lit] at hmatch
  obtain ⟨rest, hrest, h⟩ := hmatch
  rw [matchesAt_opt_seq] at h
  rcases h with h | h
  · apply hr before after
    rw [matchesAt_lit]
    exact ⟨rest, hrest, h⟩
  · apply ht before after
    rw [matchesAt_lit]
    exact ⟨rest, hrest, h⟩

theorem Opens.lit_lit_seq {l l' : List α} (h : Opens word (lit (l ++ l') (seq r t)) words) :
    Opens word (lit l (seq (lit l' r) t)) words := by
  intro before after hmatch
  rw [matchesAt_lit] at hmatch
  obtain ⟨rest, hrest, hseq⟩ := hmatch
  rw [matchesAt_lit_seq] at hseq
  apply h.lit_lit
  rw [matchesAt_lit]
  exact ⟨rest, hrest, hseq⟩

theorem Opens.lit_many {l : List α} {p : α → Bool}
    (hone : Opens word (lit l (seq (one p) (seq (many p) t))) words)
    (ht : Opens word (lit l t) words) : Opens word (lit l (seq (many p) t)) words := by
  intro before after hmatch
  rw [matchesAt_lit] at hmatch
  obtain ⟨rest, hrest, h⟩ := hmatch
  rw [matchesAt_many_seq] at h
  rcases h with h | h
  · apply ht before after
    rw [matchesAt_lit]
    exact ⟨rest, hrest, h⟩
  · apply hone before after
    rw [matchesAt_lit]
    exact ⟨rest, hrest, h⟩

end Opens

/-! ## Texts of words -/

section Words

variable {words : List (List α)} {separator : α}

/-- A place inside a word, with no letter before it, is at the word's start. -/
theorem eq_nil_of_word_prefix {w front rest : List α} (hw : ∀ a ∈ w, word a = true)
    (hfront : front.head?.any word = false) (hrest : w = front.reverse ++ rest) : front = [] := by
  cases front with
  | nil => rfl
  | cons b front =>
    have hb : word b = true := hw b (by simp [hrest])
    simp [hb] at hfront

/-- With no letter before a place, there is none before it in what follows a separator. -/
theorem head?_any_of_split {w front more : List α} {b : α} (hfront : front.head?.any word = false)
    (hmore : front.reverse = w ++ b :: more) : more.reverse.head?.any word = false := by
  cases hm : more.reverse with
  | nil => rfl
  | cons c more' =>
    have hhead : front.head? = Option.some c := by
      have hrev := congrArg List.reverse hmore
      simp only [List.reverse_reverse, List.reverse_append, List.reverse_cons, hm] at hrev
      simp [hrev]
    rw [hhead] at hfront
    exact hfront

/-- What begins behind no letter of a word, in a text of words, is one of the words. -/
theorem takeWhile_mem_words (hwords : ∀ w ∈ words, ∀ a ∈ w, word a = true)
    (hseparator : word separator = false) {front back : List α}
    (hplace : front.reverse ++ back = [separator].intercalate words)
    (hfront : front.head?.any word = false) (hback : back.takeWhile word ≠ []) :
    back.takeWhile word ∈ words := by
  induction words generalizing front with
  | nil =>
    obtain ⟨-, rfl⟩ := List.append_eq_nil_iff.mp hplace
    exact absurd rfl hback
  | cons w words ih =>
    have hw := hwords w List.mem_cons_self
    cases words with
    | nil =>
      rw [List.intercalate_singleton] at hplace
      obtain rfl := eq_nil_of_word_prefix hw hfront hplace.symm
      have hall : back.takeWhile word = w := by
        rw [← hplace, List.reverse_nil, List.nil_append] at hw
        simpa [← hplace] using hw
      rw [hall]
      exact List.mem_cons_self
    | cons w' words =>
      rw [List.intercalate_cons_cons] at hplace
      rw [List.append_assoc] at hplace
      rcases List.append_eq_append_iff.mp hplace with
        ⟨rest, hrest, hback'⟩ | ⟨more, hmore, hrest⟩
      · obtain rfl := eq_nil_of_word_prefix hw hfront hrest
        have hall : back.takeWhile word = w := by
          have hrest' : rest = w := by simpa using hrest.symm
          rw [hback', hrest']
          exact takeWhile_append_stops hw (stops_cons hseparator)
        rw [hall]
        exact List.mem_cons_self
      · cases more with
        | nil =>
          rw [List.nil_append] at hrest
          rw [← hrest, List.singleton_append,
            List.takeWhile_cons_of_neg (by simp [hseparator])] at hback
          exact absurd rfl hback
        | cons b more =>
          obtain ⟨rfl, hrest⟩ := List.cons.inj hrest
          have hrest' :
              more.reverse.reverse ++ back = [separator].intercalate (w' :: words) := by
            simpa using hrest.symm
          exact List.mem_cons_of_mem _ (ih (fun w hw => hwords w (List.mem_cons_of_mem _ hw))
            hrest' (head?_any_of_split hfront hmore))

/-- A pattern from the edge of a word on does not match a text without any of its first words. -/
theorem matchesAt_edge_seq_eq_false {r : Regex α} {openers : List (List α)}
    (hr : Opens word r openers) (hwords : ∀ w ∈ words, ∀ a ∈ w, word a = true)
    (hseparator : word separator = false) (hnone : ∀ w ∈ openers, w ≠ [] ∧ w ∉ words)
    {front back : List α} (hplace : front.reverse ++ back = [separator].intercalate words) :
    matchesAt word (seq edge r) front back = false := by
  by_contra hmatch
  rw [Bool.not_eq_false] at hmatch
  rw [matchesAt_seq] at hmatch
  obtain ⟨x, hx, hr'⟩ := hmatch
  have hedge : atEdge word front back = true ∧ x = (front, back) := by
    simp only [ends] at hx
    split at hx
    · exact ⟨by assumption, by simpa using hx⟩
    · exact absurd hx List.not_mem_nil
  obtain ⟨hedge, rfl⟩ := hedge
  have hopen := hr front back hr'
  obtain ⟨hne, hnot⟩ := hnone _ hopen
  have hbehind : back.head?.any word = true := by
    cases back with
    | nil => exact absurd rfl hne
    | cons a back =>
      by_contra ha
      have ha' : word a = false := by simpa using ha
      exact hne (List.takeWhile_cons_of_neg (by simp [ha']))
  have hfront : front.head?.any word = false := by simpa [atEdge, hbehind] using hedge
  exact hnot (takeWhile_mem_words hwords hseparator hplace hfront hne)

end Words

end Regex

end Verity.Foundation
