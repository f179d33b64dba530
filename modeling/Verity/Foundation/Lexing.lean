import Mathlib.Data.List.Forall2
import Mathlib.Data.List.TakeWhile

/-!
# Cutting a text into tokens

A lexical grammar says which pieces of a text are read, given what follows the piece, and what
token a piece is read as, if any. A text is cut by the grammar when it is a sequence of such
pieces.

A piece is often the longest run of letters of one kind. Such a run is found again in front of
anything that does not go on with one more of them. A separator ends a run of everything else, and
a text is taken apart at its first one.
-/

set_option autoImplicit false

namespace Verity.Foundation

/-! ## Runs -/

section Runs

variable {α : Type} {p : α → Bool}

/-- A list that does not go on with a letter of the kind. -/
def Stops (p : α → Bool) (rest : List α) : Prop := ∀ a ∈ rest.head?, p a = false

theorem stops_nil : Stops p [] := by
  intro a ha
  cases ha

theorem stops_cons {a : α} {rest : List α} (h : p a = false) : Stops p (a :: rest) := by
  intro b hb
  obtain rfl := Option.some.inj hb
  exact h

theorem stops_dropWhile (l : List α) : Stops p (l.dropWhile p) := by
  intro a ha
  have hhead := List.head?_dropWhile_not p l
  rw [Option.mem_def.mp ha] at hhead
  exact hhead

/-- A run is found in front of what does not go on with it. -/
theorem takeWhile_append_stops {run rest : List α} (hrun : ∀ a ∈ run, p a = true)
    (h : Stops p rest) : (run ++ rest).takeWhile p = run := by
  have hstop : rest.takeWhile p = [] := by
    cases rest with
    | nil => rfl
    | cons a rest => rw [List.takeWhile_cons_of_neg (by simp [h a rfl])]
  rw [List.takeWhile_append_of_pos hrun, hstop, List.append_nil]

/-- And what does not go on with it is left. -/
theorem dropWhile_append_stops {run rest : List α} (hrun : ∀ a ∈ run, p a = true)
    (h : Stops p rest) : (run ++ rest).dropWhile p = rest := by
  rw [List.dropWhile_append_of_pos hrun]
  cases rest with
  | nil => rfl
  | cons a rest => rw [List.dropWhile_cons_of_neg (by simp [h a rfl])]

/-- The part of a list before the first occurrence of an element. -/
theorem takeWhile_until [DecidableEq α] {a : α} {front : List α} (h : a ∉ front)
    (back : List α) : (front ++ a :: back).takeWhile (· != a) = front := by
  refine takeWhile_append_stops (fun b hb => ?_) (stops_cons (bne_self_eq_false a))
  simp only [bne_iff_ne]
  rintro rfl
  exact h hb

theorem dropWhile_until [DecidableEq α] {a : α} {front : List α} (h : a ∉ front)
    (back : List α) : (front ++ a :: back).dropWhile (· != a) = a :: back := by
  refine dropWhile_append_stops (fun b hb => ?_) (stops_cons (bne_self_eq_false a))
  simp only [bne_iff_ne]
  rintro rfl
  exact h hb

/-- A text falls into the same parts at a first separator however it is written. -/
theorem append_cons_inj_of_notMem [DecidableEq α] {a : α} {front front' back back' : List α}
    (h : a ∉ front) (h' : a ∉ front') (heq : front ++ a :: back = front' ++ a :: back') :
    front = front' ∧ back = back' := by
  have hfront := congrArg (List.takeWhile (· != a)) heq
  have hback := congrArg (List.dropWhile (· != a)) heq
  rw [takeWhile_until h, takeWhile_until h'] at hfront
  rw [dropWhile_until h, dropWhile_until h'] at hback
  exact ⟨hfront, (List.cons.inj hback).2⟩

/-- Induction on the separators of a text. -/
theorem separated_induction [DecidableEq α] (a : α) {motive : List α → Prop}
    (last : ∀ l, a ∉ l → motive l)
    (step : ∀ front back, a ∉ front → motive back → motive (front ++ a :: back))
    (l : List α) : motive l := by
  by_cases hmem : a ∈ l
  · obtain ⟨front, back, hl, hfront⟩ := List.eq_append_cons_of_mem hmem
    have hshort : back.length < l.length := by
      rw [hl, List.length_append, List.length_cons]
      omega
    rw [hl]
    exact step front back hfront (separated_induction a last step back)
  · exact last l hmem
termination_by l.length

end Runs

/-! ## Cuts -/

section Cuts

variable {α τ : Type} {Piece : List α → List α → Option τ → Prop}

/-- `Cut Piece rest text tokens`: in front of `rest`, the text is a sequence of pieces that are
read as the tokens. -/
inductive Cut (Piece : List α → List α → Option τ → Prop) (rest : List α) :
    List α → List τ → Prop
  | nil : Cut Piece rest [] []
  | cons {piece text : List α} {token : Option τ} {tokens : List τ}
      (hpiece : Piece piece (text ++ rest) token) (htext : Cut Piece rest text tokens) :
      Cut Piece rest (piece ++ text) (token.toList ++ tokens)

/-- A piece in front of a text that is cut. -/
theorem Cut.token {rest piece text : List α} {t : τ} {tokens : List τ}
    (hpiece : Piece piece (text ++ rest) (some t)) (htext : Cut Piece rest text tokens) :
    Cut Piece rest (piece ++ text) (t :: tokens) := .cons hpiece htext

theorem Cut.skip {rest piece text : List α} {tokens : List τ}
    (hpiece : Piece piece (text ++ rest) none) (htext : Cut Piece rest text tokens) :
    Cut Piece rest (piece ++ text) tokens := .cons hpiece htext

/-- A cut up to a text that is cut itself. -/
theorem Cut.append {rest text text' : List α} {tokens tokens' : List τ}
    (h : Cut Piece (text' ++ rest) text tokens) (h' : Cut Piece rest text' tokens') :
    Cut Piece rest (text ++ text') (tokens ++ tokens') := by
  induction h with
  | nil => exact h'
  | cons hpiece _ ih =>
    rw [List.append_assoc, List.append_assoc]
    exact .cons (by rwa [List.append_assoc]) ih

theorem Cut.single {rest piece : List α} {token : Option τ} (h : Piece piece rest token) :
    Cut Piece rest piece token.toList := by
  have hcut : Cut Piece rest (piece ++ []) (token.toList ++ []) := .cons h .nil
  rwa [List.append_nil, List.append_nil] at hcut

/-- Tokens with a separator between them that is skipped are cut where they were joined. -/
theorem Cut.intercalate {separator : α} (hseparator : ∀ rest, Piece [separator] rest none)
    {tokens : List τ} {pieces : List (List α)}
    (h : List.Forall₂ (fun token piece => ∀ rest, rest = [] ∨ rest.head? = some separator →
      Piece piece rest (some token)) tokens pieces) :
    Cut Piece [] ([separator].intercalate pieces) tokens := by
  induction h with
  | nil => exact .nil
  | @cons token piece tokens pieces hpiece hpieces ih =>
    cases hpieces with
    | nil =>
      have hsingle : Cut Piece [] piece [token] := .single (hpiece [] (.inl rfl))
      simpa using hsingle
    | @cons token' piece' tokens pieces hpiece' hpieces =>
      have hrest : Cut Piece [] ([separator] ++ [separator].intercalate (piece' :: pieces))
          (token' :: tokens) := .skip (hseparator _) ih
      have htoken := Cut.token (hpiece _ (.inr rfl)) hrest
      simpa [List.intercalate_cons_cons] using htoken

/-- Every token of a cut is read from a piece. -/
theorem Cut.exists_piece {rest text : List α} {tokens : List τ} (h : Cut Piece rest text tokens)
    {t : τ} (ht : t ∈ tokens) : ∃ piece more, Piece piece more (some t) := by
  induction h with
  | nil => cases ht
  | @cons piece text token tokens hpiece _ ih =>
    rcases List.mem_append.mp ht with ht | ht
    · rw [Option.mem_toList] at ht
      rw [ht] at hpiece
      exact ⟨piece, _, hpiece⟩
    · exact ih ht

end Cuts

/-! ## Lists in step -/

theorem exists_of_mem_right {α β : Type} {R : α → β → Prop} {l : List α} {l' : List β}
    (h : List.Forall₂ R l l') {b : β} (hb : b ∈ l') : ∃ a ∈ l, R a b := by
  induction h with
  | nil => cases hb
  | cons hab _ ih =>
    rcases List.mem_cons.mp hb with rfl | hb
    · exact ⟨_, List.mem_cons_self, hab⟩
    · obtain ⟨a, ha, hab⟩ := ih hb
      exact ⟨a, List.mem_cons_of_mem _ ha, hab⟩

theorem exists_forall₂ {α β : Type} {R : α → β → Prop} {l : List α} (h : ∀ a ∈ l, ∃ b, R a b) :
    ∃ l' : List β, List.Forall₂ R l l' := by
  induction l with
  | nil => exact ⟨[], .nil⟩
  | cons a l ih =>
    obtain ⟨b, hb⟩ := h a List.mem_cons_self
    obtain ⟨l', hl'⟩ := ih fun a ha => h a (List.mem_cons_of_mem _ ha)
    exact ⟨b :: l', .cons hb hl'⟩

end Verity.Foundation
