import Mathlib.Data.List.Permutation
import Mathlib.Data.List.Sort

/-!
# Ordered queries with a limit

A query that orders its rows by a key and returns at most a number of them leaves open how rows
of equal key are arranged. An answer is therefore any initial segment of any arrangement that
respects the order. `firstRows` computes one, with rows of equal key as they stand in the table.

Where the limit leaves the groups of equal key whole, every answer ends between two keys; where it
cuts a group, every answer leaves out a row whose key it holds.
-/

set_option autoImplicit false

/-! ## Stable sorting

Insertion sort keeps the order of entries that compare equal, so sorting and then selecting
entries is the same as selecting them and then sorting.
-/

namespace Verity.Foundation

variable {α : Type} {r : α → α → Prop} [DecidableRel r]

/-- The entry goes before the first one that it may precede, and that one is selected or all
that follow it may be preceded too. -/
theorem filter_orderedInsert [IsTrans α r] (p : α → Bool) (a : α) {l : List α} (hl : l.Pairwise r) :
    (l.orderedInsert r a).filter p =
      if p a = true then (l.filter p).orderedInsert r a else l.filter p := by
  induction l with
  | nil => simp [List.filter_cons]
  | cons b l ih =>
    obtain ⟨hb, hl⟩ := List.pairwise_cons.mp hl
    by_cases hab : r a b
    · have hfirst : ∀ c ∈ (b :: l).filter p, r a c := by
        intro c hc
        rcases List.mem_cons.mp (List.mem_filter.mp hc).1 with rfl | hc'
        · exact hab
        · exact IsTrans.trans _ _ _ hab (hb c hc')
      rw [List.orderedInsert_cons_of_le r l hab, List.filter_cons]
      split
      · cases hrest : (b :: l).filter p with
        | nil => rfl
        | cons c rest =>
          rw [List.orderedInsert_cons_of_le r rest (hfirst c (hrest ▸ List.mem_cons_self))]
      · rfl
    · rw [List.orderedInsert_of_not_le r l hab, List.filter_cons, ih hl, List.filter_cons]
      by_cases hpa : p a = true
      · by_cases hpb : p b = true
        · simp only [hpa, hpb, if_true]
          rw [List.orderedInsert_of_not_le r _ hab]
        · simp only [hpa, hpb, if_true]
          rfl
      · simp only [hpa]
        rfl

/-- Selecting from the sorted list is sorting what is selected. -/
theorem filter_insertionSort [IsTrans α r] [Std.Total r] (p : α → Bool) (l : List α) :
    (l.insertionSort r).filter p = (l.filter p).insertionSort r := by
  induction l with
  | nil => rfl
  | cons a l ih =>
    rw [List.insertionSort_cons, filter_orderedInsert p a (List.pairwise_insertionSort r l), ih,
      List.filter_cons]
    split
    · rw [List.insertionSort_cons]
    · rfl

end Verity.Foundation

/-! ## Answers -/

namespace Verity.Foundation

variable {α : Type} {le : α → α → Prop}

variable {rows answer : List α} {a : α}

/-- The answers of `ORDER BY … LIMIT n` over the rows that a query selects. -/
def AnswersLimit (le : α → α → Prop) (n : Nat) (rows answer : List α) : Prop :=
  ∃ arranged : List α, arranged.Perm rows ∧ arranged.Pairwise le ∧ answer = arranged.take n

/-- An answer holds only rows that were selected. -/
theorem AnswersLimit.mem {n : Nat} (h : AnswersLimit le n rows answer) (ha : a ∈ answer) :
    a ∈ rows := by
  obtain ⟨arranged, hperm, _, rfl⟩ := h
  exact hperm.mem_iff.mp (List.mem_of_mem_take ha)

theorem AnswersLimit.length {n : Nat} (h : AnswersLimit le n rows answer) :
    answer.length = min n rows.length := by
  obtain ⟨arranged, hperm, _, rfl⟩ := h
  rw [List.length_take, hperm.length_eq]

theorem AnswersLimit.sorted {n : Nat} (h : AnswersLimit le n rows answer) : answer.Pairwise le := by
  obtain ⟨arranged, -, hsorted, rfl⟩ := h
  exact hsorted.sublist (List.take_sublist n arranged)

/-- What an answer leaves out comes after what it holds. -/
theorem AnswersLimit.le_of_omitted {n : Nat} (h : AnswersLimit le n rows answer) {b : α}
    (ha : a ∈ answer) (hb : b ∈ rows) (hnot : b ∉ answer) : le a b := by
  obtain ⟨arranged, hperm, hsorted, rfl⟩ := h
  rw [← List.take_append_drop n arranged, List.pairwise_append] at hsorted
  have hmem : b ∈ arranged.take n ++ arranged.drop n := by
    rw [List.take_append_drop]
    exact hperm.mem_iff.mpr hb
  rcases List.mem_append.mp hmem with hkept | homitted
  · exact absurd hkept hnot
  · exact hsorted.2.2 a ha b homitted

/-- The answers there are. -/
def answersOf (le : α → α → Prop) [DecidableRel le] (n : Nat) (rows : List α) : List (List α) :=
  (rows.permutations'.filter fun arranged => decide (arranged.Pairwise le)).map (List.take n)

theorem mem_answersOf [DecidableRel le] {n : Nat} :
    answer ∈ answersOf le n rows ↔ AnswersLimit le n rows answer := by
  unfold answersOf AnswersLimit
  simp only [List.mem_map, List.mem_filter, List.mem_permutations', decide_eq_true_eq, and_assoc,
    eq_comm (b := answer)]

instance [DecidableEq α] [DecidableRel le] (n : Nat) (rows answer : List α) :
    Decidable (AnswersLimit le n rows answer) :=
  decidable_of_iff (answer ∈ answersOf le n rows) mem_answersOf

section Total

variable [DecidableRel le] [Std.Total le] [IsTrans α le]

/-- One answer: the rows sorted, and cut. -/
def firstRows (le : α → α → Prop) [DecidableRel le] (n : Nat) (rows : List α) : List α :=
  (rows.insertionSort le).take n

theorem answersLimit_firstRows (n : Nat) (rows : List α) :
    AnswersLimit le n rows (firstRows le n rows) :=
  ⟨rows.insertionSort le, List.perm_insertionSort le rows, List.pairwise_insertionSort le rows,
    rfl⟩

/-- A row that no selected row comes before is in some answer. -/
theorem exists_answersLimit_of_first {n : Nat} (hn : 0 < n) (ha : a ∈ rows)
    (hfirst : ∀ b ∈ rows, le a b) : ∃ answer, AnswersLimit le n rows answer ∧ a ∈ answer := by
  obtain ⟨before, after, rfl⟩ := List.append_of_mem ha
  have hsorted := List.perm_insertionSort le (before ++ after)
  obtain ⟨n, rfl⟩ := Nat.exists_eq_succ_of_ne_zero hn.ne'
  refine ⟨_, ⟨a :: (before ++ after).insertionSort le, ?_, ?_, rfl⟩, ?_⟩
  · exact (hsorted.cons a).trans List.perm_middle.symm
  · rw [List.pairwise_cons]
    refine ⟨?_, List.pairwise_insertionSort le _⟩
    intro b hb
    apply hfirst
    rcases List.mem_append.mp (hsorted.mem_iff.mp hb) with hb | hb
    · exact List.mem_append_left _ hb
    · exact List.mem_append_right _ (List.mem_cons_of_mem a hb)
  · rw [List.take_succ_cons]
    exact List.mem_cons_self

end Total

section Keys

variable {κ : Type} [LinearOrder κ]

/-- `ORDER BY key ASC`. -/
def Ascending (key : α → κ) (a b : α) : Prop := key a ≤ key b

/-- `ORDER BY key DESC`. -/
def Descending (key : α → κ) (a b : α) : Prop := key b ≤ key a

instance (key : α → κ) : DecidableRel (Ascending key) := fun a b =>
  inferInstanceAs (Decidable (key a ≤ key b))

instance (key : α → κ) : DecidableRel (Descending key) := fun a b =>
  inferInstanceAs (Decidable (key b ≤ key a))

instance (key : α → κ) : Std.Total (Ascending key) := ⟨fun a b => le_total (key a) (key b)⟩

instance (key : α → κ) : Std.Total (Descending key) := ⟨fun a b => le_total (key b) (key a)⟩

instance (key : α → κ) : IsTrans α (Ascending key) := ⟨fun _ _ _ h h' => le_trans h h'⟩

instance (key : α → κ) : IsTrans α (Descending key) := ⟨fun _ _ _ h h' => le_trans h' h⟩

/-- `ORDER BY key DESC LIMIT 1` answers with a row of greatest key, if a row is selected. -/
theorem answersLimit_descending_one_iff {key : α → κ} :
    AnswersLimit (Descending key) 1 rows answer ↔
      (rows = [] ∧ answer = []) ∨ ∃ a ∈ rows, (∀ b ∈ rows, key b ≤ key a) ∧ answer = [a] := by
  constructor
  · rintro ⟨arranged, hperm, hsorted, rfl⟩
    cases arranged with
    | nil => exact Or.inl ⟨hperm.nil_eq.symm, rfl⟩
    | cons a rest =>
      rw [List.pairwise_cons] at hsorted
      refine Or.inr ⟨a, hperm.mem_iff.mp List.mem_cons_self, ?_, rfl⟩
      intro b hb
      rcases List.mem_cons.mp (hperm.mem_iff.mpr hb) with rfl | hb
      · exact le_refl _
      · exact hsorted.1 b hb
  · rintro (⟨rfl, rfl⟩ | ⟨a, ha, hmax, rfl⟩)
    · exact ⟨[], List.Perm.refl _, List.Pairwise.nil, rfl⟩
    · obtain ⟨answer, hanswer, hmem⟩ :
          ∃ answer, AnswersLimit (Descending key) 1 rows answer ∧ a ∈ answer :=
        exists_answersLimit_of_first Nat.one_pos ha hmax
      have hlen : answer.length = 1 := by
        have := List.length_pos_of_mem ha
        rw [hanswer.length]
        omega
      obtain ⟨b, rfl⟩ := List.length_eq_one_iff.mp hlen
      rw [List.mem_singleton.mp hmem]
      exact hanswer

/-- The answers agree on the keys. -/
theorem AnswersLimit.map_key_eq {key : α → κ} {n : Nat} {answer' : List α}
    (h : AnswersLimit (Descending key) n rows answer)
    (h' : AnswersLimit (Descending key) n rows answer') : answer.map key = answer'.map key := by
  obtain ⟨arranged, hperm, hsorted, rfl⟩ := h
  obtain ⟨arranged', hperm', hsorted', rfl⟩ := h'
  have hdown : (arranged.map key).Pairwise fun a b => b ≤ a := List.pairwise_map.mpr hsorted
  have hdown' : (arranged'.map key).Pairwise fun a b => b ≤ a := List.pairwise_map.mpr hsorted'
  have hkeys : arranged.map key = arranged'.map key :=
    ((hperm.trans hperm'.symm).map key).eq_of_pairwise
      (fun _ _ _ _ hab hba => le_antisymm hba hab) hdown hdown'
  rw [List.map_take, List.map_take, hkeys]

/-- The row at a place of the answer has as few rows above it as there are places before. -/
theorem AnswersLimit.length_above_lt {key : α → κ} {n : Nat}
    (h : AnswersLimit (Descending key) n rows answer) {i : Nat} (hi : i < answer.length) :
    (rows.filter fun b => decide (key answer[i] < key b)).length < n := by
  obtain ⟨arranged, hperm, hsorted, rfl⟩ := h
  have hin : i < n := lt_of_lt_of_le hi (List.length_take_le n arranged)
  have hia : i < arranged.length := lt_of_lt_of_le hi (List.length_take_le' n arranged)
  rw [List.getElem_take]
  have hbelow : ∀ b ∈ arranged.drop i, key b ≤ key arranged[i] := by
    intro b hb
    rw [List.drop_eq_getElem_cons hia] at hb
    rcases List.mem_cons.mp hb with rfl | hb
    · exact le_refl _
    · have hrest := hsorted.sublist (List.drop_sublist i arranged)
      rw [List.drop_eq_getElem_cons hia, List.pairwise_cons] at hrest
      exact hrest.1 b hb
  generalize arranged[i] = a at hbelow ⊢
  have hnone : (arranged.drop i).filter (fun b => decide (key a < key b)) = [] := by
    rw [List.filter_eq_nil_iff]
    intro b hb
    rw [decide_eq_true_eq, not_lt]
    exact hbelow b hb
  calc (rows.filter fun b => decide (key a < key b)).length
      = (arranged.filter fun b => decide (key a < key b)).length :=
        ((hperm.filter _).length_eq).symm
    _ = ((arranged.take i).filter fun b => decide (key a < key b)).length := by
        conv_lhs => rw [← List.take_append_drop i arranged, List.filter_append, hnone,
          List.append_nil]
    _ ≤ (arranged.take i).length := List.length_filter_le _ _
    _ ≤ i := List.length_take_le i arranged
    _ < n := hin

/-- Where no two rows of equal key compete for a place, there is one answer. -/
theorem AnswersLimit.eq_of_untied {key : α → κ} {n : Nat} {answer' : List α}
    (h : AnswersLimit (Descending key) n rows answer)
    (h' : AnswersLimit (Descending key) n rows answer')
    (huntied : ∀ a ∈ rows, ∀ b ∈ rows, key a = key b →
      (rows.filter fun c => decide (key a < key c)).length < n → a = b) : answer = answer' := by
  have hkeys := h.map_key_eq h'
  have hlength : answer.length = answer'.length := by rw [h.length, h'.length]
  refine List.ext_getElem hlength fun i hi hi' => ?_
  refine huntied _ (h.mem (List.getElem_mem hi)) _ (h'.mem (List.getElem_mem hi')) ?_
    (h.length_above_lt hi)
  have hat := congrArg (fun l => l[i]?) hkeys
  simpa [hi, hi'] using hat

end Keys

/-! ## Groups of equal key -/

section Groups

variable {κ : Type} [LinearOrder κ] (key : α → κ) (n : Nat)

/-- The limit does not fall between rows of equal key. -/
def WholeGroups (rows : List α) : Prop :=
  ∀ a ∈ rows, n ≤ (rows.filter fun b => decide (key b < key a)).length ∨
    (rows.filter fun b => decide (key b ≤ key a)).length ≤ n

instance (rows : List α) : Decidable (WholeGroups key n rows) :=
  inferInstanceAs (Decidable (∀ a ∈ rows, _ ∨ _))

variable {key n}

/-- Where the limit leaves groups whole, what an answer leaves out comes strictly after what it
holds. -/
theorem AnswersLimit.lt_of_omitted (h : AnswersLimit (Ascending key) n rows answer)
    (hwhole : WholeGroups key n rows) {b : α} (ha : a ∈ answer) (hb : b ∈ rows)
    (hnot : b ∉ answer) : key a < key b := by
  have hle : key a ≤ key b := h.le_of_omitted ha hb hnot
  have harows := h.mem ha
  obtain ⟨arranged, hperm, hsorted, rfl⟩ := h
  refine lt_of_le_of_ne hle fun heq => ?_
  rw [← List.take_append_drop n arranged, List.pairwise_append] at hsorted
  have hcount : ∀ p : α → Bool, (rows.filter p).length =
      ((arranged.take n).filter p).length + ((arranged.drop n).filter p).length := by
    intro p
    rw [← (hperm.filter p).length_eq, ← List.length_append, ← List.filter_append,
      List.take_append_drop]
  have hbdrop : b ∈ arranged.drop n := by
    have hmem := hperm.mem_iff.mpr hb
    rw [← List.take_append_drop n arranged, List.mem_append] at hmem
    exact hmem.resolve_left hnot
  have hfull : (arranged.take n).length = n := by
    have hpos := List.length_pos_of_mem hbdrop
    rw [List.length_drop] at hpos
    rw [List.length_take]
    omega
  rcases hwhole a harows with hbefore | hupto
  · -- the rows before the group would fill the answer, which holds `a` besides
    rw [hcount] at hbefore
    have hdrop : (arranged.drop n).filter (fun c => decide (key c < key a)) = [] := by
      rw [List.filter_eq_nil_iff]
      intro c hc
      rw [decide_eq_true_eq, not_lt]
      exact hsorted.2.2 a ha c hc
    have htake : ((arranged.take n).filter fun c => decide (key c < key a)).length <
        (arranged.take n).length :=
      List.length_filter_lt_length_iff_exists.mpr ⟨a, ha, by simp⟩
    rw [hdrop, List.length_nil] at hbefore
    omega
  · -- the group would fit, but the answer is full without `b`
    rw [hcount] at hupto
    have htake : (arranged.take n).filter (fun c => decide (key c ≤ key a)) = arranged.take n := by
      rw [List.filter_eq_self]
      intro c hc
      rw [decide_eq_true_eq, heq]
      exact hsorted.2.2 c hc b hbdrop
    have hdrop : 0 < ((arranged.drop n).filter fun c => decide (key c ≤ key a)).length :=
      List.length_pos_of_mem (List.mem_filter.mpr ⟨hbdrop, by rw [decide_eq_true_eq, heq]⟩)
    rw [htake] at hupto
    omega

/-- Where the limit cuts a group, every answer holds one row of it and leaves out another. -/
theorem AnswersLimit.exists_tied_omitted (h : AnswersLimit (Ascending key) n rows answer)
    (hcut : ¬WholeGroups key n rows) (hnodup : rows.Nodup) :
    ∃ a ∈ answer, ∃ b ∈ rows, b ∉ answer ∧ key b = key a := by
  obtain ⟨arranged, hperm, hsorted, rfl⟩ := h
  unfold WholeGroups at hcut
  push Not at hcut
  obtain ⟨g, -, hbefore, hupto⟩ := hcut
  rw [← (hperm.filter _).length_eq, ← List.take_append_drop n arranged, List.filter_append,
    List.length_append] at hbefore hupto
  have hlength := List.length_take_le n arranged
  obtain ⟨b, hb, hbg⟩ : ∃ b ∈ arranged.drop n, key b ≤ key g := by
    by_contra hnone
    push Not at hnone
    have hdrop : (arranged.drop n).filter (fun c => decide (key c ≤ key g)) = [] := by
      rw [List.filter_eq_nil_iff]
      intro c hc
      rw [decide_eq_true_eq, not_le]
      exact hnone c hc
    have htake := List.length_filter_le (fun c => decide (key c ≤ key g)) (arranged.take n)
    rw [hdrop, List.length_nil] at hupto
    omega
  obtain ⟨a, ha, hga⟩ : ∃ a ∈ arranged.take n, key g ≤ key a := by
    by_contra hnone
    push Not at hnone
    have htake : (arranged.take n).filter (fun c => decide (key c < key g)) = arranged.take n := by
      rw [List.filter_eq_self]
      intro c hc
      rw [decide_eq_true_eq]
      exact hnone c hc
    have hpos := List.length_pos_of_mem hb
    rw [List.length_drop] at hpos
    rw [htake, List.length_take] at hbefore
    omega
  rw [← List.take_append_drop n arranged] at hperm hsorted
  rw [List.pairwise_append] at hsorted
  have hdisjoint := List.nodup_append.mp (hperm.nodup_iff.mpr hnodup)
  refine ⟨a, ha, b, hperm.mem_iff.mp (List.mem_append_right _ hb), ?_, ?_⟩
  · intro hin
    exact hdisjoint.2.2 b hin b hb rfl
  · exact le_antisymm (hbg.trans hga) (hsorted.2.2 a ha b hb)

/-- What is left behind the answer is at least as much less as the answer holds. -/
theorem AnswersLimit.length_filter_le (h : AnswersLimit (Ascending key) n rows answer)
    {p : α → Bool} (hp : ∀ a ∈ answer, p a = false) :
    (rows.filter p).length ≤ rows.length - answer.length := by
  obtain ⟨arranged, hperm, -, rfl⟩ := h
  have hnil : (arranged.take n).filter p = [] := List.filter_eq_nil_iff.mpr (by simpa using hp)
  have hsplit : (arranged.take n).length + (arranged.drop n).length = rows.length := by
    rw [← List.length_append, List.take_append_drop, hperm.length_eq]
  rw [← (hperm.filter p).length_eq, ← List.take_append_drop n arranged, List.filter_append, hnil,
    List.nil_append, List.take_append_drop]
  have hle := List.length_filter_le p (arranged.drop n)
  omega

end Groups

end Verity.Foundation
