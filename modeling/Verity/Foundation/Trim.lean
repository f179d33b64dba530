import Mathlib.Data.List.DropRight
import Verity.Foundation.Utf8

/-!
# Trimming and splitting

A list trimmed at both ends of the elements that satisfy a predicate, and the non-empty pieces a
list falls into at a separator. Trimming by a wider predicate takes over what a narrower one left,
and trimming a list of its separators leaves the pieces as they are.
-/

set_option autoImplicit false

namespace Verity.Foundation

variable {α : Type} (p : α → Bool)

variable {l : List α} {a : α} {back front : List α}

/-- The list without the elements at its ends that satisfy `p`. -/
def trimList (l : List α) : List α := (l.dropWhile p).rdropWhile p

/-- What trimming takes off is a run of `p` at each end. -/
theorem exists_trimList (l : List α) :
    ∃ front back, l = front ++ (trimList p l ++ back) ∧ (∀ a ∈ front, p a = true) ∧
      ∀ a ∈ back, p a = true := by
  refine ⟨l.takeWhile p, (l.dropWhile p).rtakeWhile p, ?_, fun a ha => List.mem_takeWhile_imp ha,
    fun a ha => List.mem_rtakeWhile_imp ha⟩
  rw [trimList, List.rdropWhile_append_rtakeWhile, List.takeWhile_append_dropWhile]

variable {p}

theorem mem_of_mem_trimList (h : a ∈ trimList p l) : a ∈ l :=
  (List.dropWhile_suffix p).subset ((List.rdropWhile_prefix p _).subset h)

theorem mem_trimList_of_not (h : a ∈ l) (ha : p a = false) : a ∈ trimList p l := by
  obtain ⟨front, back, hl, hfront, hback⟩ := exists_trimList p l
  rw [hl, List.mem_append, List.mem_append] at h
  rcases h with h | h | h
  · rw [hfront a h] at ha
    exact absurd ha (by simp)
  · exact h
  · rw [hback a h] at ha
    exact absurd ha (by simp)

theorem mem_rdropWhile_of_not (h : a ∈ l) (ha : p a = false) : a ∈ l.rdropWhile p := by
  have hsplit : l.rdropWhile p ++ l.rtakeWhile p = l := List.rdropWhile_append_rtakeWhile
  rw [← hsplit, List.mem_append] at h
  refine h.resolve_right fun hback => ?_
  have hp := List.mem_rtakeWhile_imp hback
  rw [ha] at hp
  exact absurd hp (by simp)

theorem rdropWhile_append_of_forall (h : ∀ a ∈ back, p a = true) :
    (l ++ back).rdropWhile p = l.rdropWhile p := by
  induction back using List.reverseRecOn with
  | nil => rw [List.append_nil]
  | append_singleton back a ih =>
    rw [← List.append_assoc, List.rdropWhile_concat_pos p _ a (h a (by simp))]
    exact ih fun b hb => h b (by simp [hb])

theorem dropWhile_append_of_ne_nil (h : l.dropWhile p ≠ []) :
    (l ++ back).dropWhile p = l.dropWhile p ++ back := by
  rw [List.dropWhile_append, if_neg (by simpa [List.isEmpty_iff] using h)]

/-- Runs at the ends of a list are trimmed away. -/
theorem trimList_surround (hfront : ∀ a ∈ front, p a = true) (hback : ∀ a ∈ back, p a = true) :
    trimList p (front ++ (l ++ back)) = trimList p l := by
  unfold trimList
  rw [List.dropWhile_append_of_pos hfront]
  by_cases hl : l.dropWhile p = []
  · rw [hl, List.dropWhile_append, if_pos (by simp [hl])]
    have hnil : back.dropWhile p = [] := List.dropWhile_eq_nil_iff.mpr hback
    rw [hnil]
  · rw [dropWhile_append_of_ne_nil hl, rdropWhile_append_of_forall hback]

/-- A wider trim is not affected by a narrower one before it. -/
theorem trimList_trimList {q : α → Bool} (h : ∀ a, q a = true → p a = true) (l : List α) :
    trimList p (trimList q l) = trimList p l := by
  obtain ⟨front, back, hl, hfront, hback⟩ := exists_trimList q l
  conv_rhs => rw [hl]
  exact (trimList_surround (fun a ha => h a (hfront a ha)) fun a ha => h a (hback a ha)).symm

theorem trimList_rdropWhile (l : List α) : trimList p (l.rdropWhile p) = trimList p l := by
  have hsurround : trimList p ([] ++ (l.rdropWhile p ++ l.rtakeWhile p)) =
      trimList p (l.rdropWhile p) :=
    trimList_surround (by simp) fun a ha => List.mem_rtakeWhile_imp ha
  rw [List.nil_append, List.rdropWhile_append_rtakeWhile] at hsurround
  exact hsurround.symm

theorem trimList_map (f : α → α) (h : ∀ a, p (f a) = p a) (l : List α) :
    trimList p (l.map f) = (trimList p l).map f := by
  have hcomp : p ∘ f = p := funext h
  unfold trimList List.rdropWhile
  rw [List.dropWhile_map, hcomp, ← List.map_reverse, List.dropWhile_map, hcomp,
    ← List.map_reverse]

theorem not_of_head?_trimList (h : (trimList p l).head? = some a) : p a = false := by
  by_contra hp
  rw [Bool.not_eq_false] at hp
  -- the trimmed list begins where the untrimmed one does after its front
  obtain ⟨tail, htail⟩ : ∃ tail, l.dropWhile p = a :: tail := by
    have hprefix : trimList p l <+: l.dropWhile p := List.rdropWhile_prefix p _
    obtain ⟨rest, hrest⟩ := hprefix
    cases htrim : trimList p l with
    | nil =>
      rw [htrim] at h
      exact absurd h (by simp)
    | cons b bs =>
      rw [htrim, List.head?_cons, Option.some.injEq] at h
      rw [htrim, h] at hrest
      exact ⟨bs ++ rest, hrest.symm⟩
  have hhead := List.head?_dropWhile_not p l
  rw [htail, List.head?_cons] at hhead
  simp [hp] at hhead

theorem not_of_getLast?_trimList (h : (trimList p l).getLast? = some a) : p a = false := by
  have hne : trimList p l ≠ [] := by
    intro hnil
    rw [hnil] at h
    exact absurd h (by simp)
  rw [List.getLast?_eq_getLast_of_ne_nil hne, Option.some.injEq] at h
  rw [← h]
  exact Bool.eq_false_iff.mpr (List.rdropWhile_last_not p _ hne)

/-- Nothing is trimmed off a list whose ends do not satisfy `p`. -/
theorem trimList_eq_self (hhead : ∀ a, l.head? = some a → p a = false)
    (hlast : ∀ a, l.getLast? = some a → p a = false) : trimList p l = l := by
  have hfront : l.dropWhile p = l := by
    cases l with
    | nil => rfl
    | cons a l => exact List.dropWhile_cons_of_neg (by simp [hhead a rfl])
  rw [trimList, hfront]
  exact List.rdropWhile_eq_self_iff.mpr fun hl => by
    simp [hlast _ (List.getLast?_eq_getLast_of_ne_nil hl)]

theorem rdropWhile_append_of_not {l' : List α} (h : p a = false) :
    (l ++ a :: l').rdropWhile p = l ++ a :: l'.rdropWhile p := by
  induction l' using List.reverseRecOn with
  | nil => exact List.rdropWhile_concat_neg p l a (by simp [h])
  | append_singleton l' b ih =>
    rw [← List.cons_append, ← List.append_assoc]
    by_cases hb : p b = true
    · rw [List.rdropWhile_concat_pos p _ b hb, List.rdropWhile_concat_pos p _ b hb]
      exact ih
    · rw [List.rdropWhile_concat_neg p _ b hb, List.rdropWhile_concat_neg p _ b hb,
        List.append_assoc, List.cons_append]

/-- A list whose head stays is trimmed at its end alone. -/
theorem trimList_cons_of_not (h : p a = false) : trimList p (a :: l) = a :: l.rdropWhile p := by
  have hend : (a :: l).rdropWhile p = a :: l.rdropWhile p :=
    @rdropWhile_append_of_not α p [] a l h
  rw [trimList, List.dropWhile_cons_of_neg (by simp [h]), hend]

theorem trimList_sublist (l : List α) : (trimList p l).Sublist l :=
  (List.rdropWhile_prefix p _).sublist.trans (List.dropWhile_suffix p).sublist

/-! ## Characters one by one -/

/-- What holds of each character of a text, by running through it. -/
theorem forall_mem_of_all {P : Char → Prop} [DecidablePred P] {l : List Char}
    (h : (l.all fun c => decide (P c)) = true) : ∀ c ∈ l, P c :=
  fun c hc => of_decide_eq_true (List.all_eq_true.mp h c hc)

/-! ## Starts and ends -/

/-- A start without `a` that fits a list fits what the list has before an `a`. -/
theorem prefix_of_prefix_append_cons {start : List α} (h : start <+: front ++ a :: back)
    (ha : a ∉ start) : start <+: front := by
  rcases List.prefix_or_prefix_of_prefix h (List.prefix_append _ _) with hin | ⟨more, rfl⟩
  · exact hin
  · have hnext := (List.prefix_append_right_inj _).mp h
    cases more with
    | nil => simp
    | cons b more =>
      rw [(List.cons_prefix_cons.mp hnext).1] at ha
      exact absurd (by simp) ha

/-- An end without `a` that fits a list fits what the list has behind an `a`. -/
theorem suffix_of_suffix_append_cons {stop : List α} (h : stop <:+ front ++ a :: back)
    (ha : a ∉ stop) : stop <:+ back := by
  rw [← List.reverse_prefix] at h ⊢
  have hback : stop.reverse <+: back.reverse ++ a :: front.reverse := by simpa using h
  exact prefix_of_prefix_append_cons hback (by simpa using ha)

/-! ## Pieces -/

section Pieces

variable [DecidableEq α] (c : α)

/-- The non-empty pieces of a list between the occurrences of `c`. -/
def pieces (l : List α) : List (List α) := (l.splitOn c).filter fun piece => !piece.isEmpty

theorem pieces_append_separator (l l' : List α) :
    pieces c (l ++ c :: l') = pieces c l ++ pieces c l' := by
  rw [pieces, List.splitOn_append_cons_self, List.filter_append]
  rfl

theorem pieces_nil : pieces c ([] : List α) = [] := by simp [pieces]

theorem pieces_of_not_mem (h : c ∉ l) : pieces c l = if l.isEmpty then [] else [l] := by
  rw [pieces, List.splitOn_eq_singleton h]
  cases l <;> rfl

theorem pieces_separators (h : ∀ a ∈ l, (a == c) = true) : pieces c l = [] := by
  induction l with
  | nil => exact pieces_nil c
  | cons a l ih =>
    have ha : a = c := eq_of_beq (h a List.mem_cons_self)
    have hrest := pieces_append_separator c [] l
    rw [List.nil_append, pieces_nil, List.nil_append] at hrest
    rw [ha, hrest]
    exact ih fun b hb => h b (List.mem_cons_of_mem _ hb)

theorem pieces_append_separators (h : ∀ a ∈ back, (a == c) = true) :
    pieces c (l ++ back) = pieces c l := by
  cases back with
  | nil => rw [List.append_nil]
  | cons a back =>
    have ha : a = c := eq_of_beq (h a List.mem_cons_self)
    rw [ha, pieces_append_separator,
      pieces_separators c fun b hb => h b (List.mem_cons_of_mem _ hb), List.append_nil]

theorem pieces_separators_append (h : ∀ a ∈ front, (a == c) = true) :
    pieces c (front ++ l) = pieces c l := by
  induction front with
  | nil => rfl
  | cons a front ih =>
    have ha : a = c := eq_of_beq (h a List.mem_cons_self)
    have hrest := pieces_append_separator c [] (front ++ l)
    rw [List.nil_append, pieces_nil, List.nil_append] at hrest
    rw [List.cons_append, ha, hrest]
    exact ih fun b hb => h b (List.mem_cons_of_mem _ hb)

/-- The pieces do not see separators at the ends. -/
theorem pieces_trimList (l : List α) : pieces c (trimList (· == c) l) = pieces c l := by
  obtain ⟨front, back, hl, hfront, hback⟩ := exists_trimList (· == c) l
  conv_rhs => rw [hl]
  rw [pieces_separators_append c hfront, pieces_append_separators c hback]

theorem not_mem_of_mem_pieces {piece : List α} (h : piece ∈ pieces c l) : c ∉ piece := by
  induction hn : l.length using Nat.strong_induction_on generalizing l with
  | _ n ih =>
    by_cases hc : c ∈ l
    · obtain ⟨before, after, rfl⟩ := List.append_of_mem hc
      rw [pieces_append_separator, List.mem_append] at h
      rw [List.length_append, List.length_cons] at hn
      rcases h with h | h
      · exact ih _ (by omega) h rfl
      · exact ih _ (by omega) h rfl
    · rw [pieces_of_not_mem c hc] at h
      split at h
      · exact absurd h List.not_mem_nil
      · rw [List.mem_singleton.mp h]
        exact hc

/-- The pieces, each with a separator, are no longer than the list with one more. -/
theorem length_pieces_le (l : List α) :
    ((pieces c l).flatMap fun piece => piece ++ [c]).length ≤ l.length + 1 := by
  induction hn : l.length using Nat.strong_induction_on generalizing l with
  | _ n ih =>
    by_cases hc : c ∈ l
    · obtain ⟨before, after, rfl⟩ := List.append_of_mem hc
      rw [List.length_append, List.length_cons] at hn
      have hbefore := ih before.length (by omega) before rfl
      have hafter := ih after.length (by omega) after rfl
      rw [pieces_append_separator, List.flatMap_append, List.length_append]
      omega
    · rw [pieces_of_not_mem c hc]
      split
      · simp
      · rw [List.flatMap_singleton, List.length_append, List.length_singleton, hn]

end Pieces

end Verity.Foundation
