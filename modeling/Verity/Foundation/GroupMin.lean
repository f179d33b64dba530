import Mathlib.Order.MinMax

/-!
# Grouping by key, keeping the least stamp

`groupMin` is `SELECT key, min(stamp) ... GROUP BY key`: one entry for each key of a list of
keyed stamps. All that a reader of the grouped list can know is `lookup_groupMin_eq_none_iff`
and `lookup_groupMin_eq_some_iff`: a key is absent when the list has no stamp of it, and its
entry is the least of its stamps.

The collapse forgets all other stamps of a key. It answers `is every stamp of the key at or
after t` (`lookup_groupMin_forall_le`), and it does not answer `is some stamp of the key at
or after t`, which the greatest stamp would.
-/

set_option autoImplicit false

namespace Verity.Foundation

variable {κ T : Type} [DecidableEq κ] [LinearOrder T]

/-- Add one stamp to a grouped list. -/
def insertMin (k : κ) (t : T) : List (κ × T) → List (κ × T)
  | [] => [(k, t)]
  | (k', t') :: rest => if k = k' then (k', min t t') :: rest else (k', t') :: insertMin k t rest

/-- One entry per key, with the least stamp of the key. -/
def groupMin (l : List (κ × T)) : List (κ × T) :=
  l.foldr (fun e acc => insertMin e.1 e.2 acc) []

theorem lookup_insertMin (k k' : κ) (t : T) (l : List (κ × T)) :
    (insertMin k t l).lookup k' =
      if k' = k then some (match l.lookup k with
        | none => t
        | some t' => min t t')
      else l.lookup k' := by
  induction l with
  | nil =>
    by_cases h : k' = k
    · simp [insertMin, h]
    · have hb : (k' == k) = false := by simpa using h
      simp [insertMin, h, hb, List.lookup_cons]
  | cons e l ih =>
    obtain ⟨k₀, t₀⟩ := e
    by_cases hk : k = k₀
    · subst hk
      by_cases h : k' = k
      · simp [insertMin, h]
      · have hb : (k' == k) = false := by simpa using h
        simp [insertMin, h, hb, List.lookup_cons]
    · have hk₀ : (k == k₀) = false := by simpa using hk
      simp only [insertMin, hk, if_false, List.lookup_cons, ih, hk₀]
      by_cases h₀ : k' = k₀
      · subst h₀
        simp [Ne.symm hk]
      · have : (k' == k₀) = false := by simpa using h₀
        simp [this]

theorem lookup_groupMin_eq_none_iff {l : List (κ × T)} {k : κ} :
    (groupMin l).lookup k = none ↔ ∀ t, (k, t) ∉ l := by
  induction l with
  | nil => simp [groupMin]
  | cons e l ih =>
    obtain ⟨k₀, t₀⟩ := e
    show (insertMin k₀ t₀ (groupMin l)).lookup k = none ↔ _
    rw [lookup_insertMin]
    by_cases h : k = k₀
    · subst h
      rw [if_pos rfl]
      simp only [reduceCtorEq, List.mem_cons, Prod.mk.injEq, true_and, false_iff, not_forall,
        not_not]
      exact ⟨t₀, Or.inl rfl⟩
    · rw [if_neg h, ih]
      simp [h]

/-- The entry of a key is one of its stamps, and the least. -/
theorem lookup_groupMin_eq_some_iff {l : List (κ × T)} {k : κ} {m : T} :
    (groupMin l).lookup k = some m ↔ (k, m) ∈ l ∧ ∀ t, (k, t) ∈ l → m ≤ t := by
  induction l generalizing m with
  | nil => simp [groupMin]
  | cons e l ih =>
    obtain ⟨k₀, t₀⟩ := e
    show (insertMin k₀ t₀ (groupMin l)).lookup k = some m ↔ _
    rw [lookup_insertMin]
    by_cases h : k = k₀
    · subst h
      rw [if_pos rfl, Option.some.injEq]
      cases hlook : (groupMin l).lookup k with
      | none =>
        have habsent := lookup_groupMin_eq_none_iff.mp hlook
        constructor
        · rintro rfl
          refine ⟨by simp, ?_⟩
          intro t ht
          rcases List.mem_cons.mp ht with ht | ht
          · exact (Prod.mk.inj ht).2.ge
          · exact absurd ht (habsent t)
        · rintro ⟨hm, -⟩
          rcases List.mem_cons.mp hm with hm | hm
          · exact (Prod.mk.inj hm).2.symm
          · exact absurd hm (habsent m)
      | some t' =>
        obtain ⟨ht', hleast⟩ := ih.mp hlook
        constructor
        · intro hmin
          have hmin : min t₀ t' = m := hmin
          subst hmin
          constructor
          · rcases min_choice t₀ t' with hmin | hmin <;> rw [hmin] <;> simp [ht']
          · intro t ht
            rcases List.mem_cons.mp ht with ht | ht
            · rw [(Prod.mk.inj ht).2]
              exact min_le_left _ _
            · exact (min_le_right _ _).trans (hleast t ht)
        · rintro ⟨hm, hle⟩
          have hge : m ≤ min t₀ t' :=
            le_min (hle t₀ (by simp)) (hle t' (List.mem_cons_of_mem _ ht'))
          refine le_antisymm ?_ hge
          rcases List.mem_cons.mp hm with hm | hm
          · rw [(Prod.mk.inj hm).2]
            exact min_le_left _ _
          · exact (min_le_right _ _).trans (hleast m hm)
    · rw [if_neg h, ih]
      simp [h]

/-- What the least stamp tells: the key is absent or has a stamp before `t`, unless it has
stamps and all of them are at or after `t`. -/
theorem lookup_groupMin_forall_le {l : List (κ × T)} {k : κ} {t : T} :
    (∀ m, (groupMin l).lookup k = some m → m < t) ↔
      ((∃ x, (k, x) ∈ l) → ∃ x, (k, x) ∈ l ∧ x < t) := by
  cases hlook : (groupMin l).lookup k with
  | none =>
    have habsent := lookup_groupMin_eq_none_iff.mp hlook
    constructor
    · rintro - ⟨x, hx⟩
      exact absurd hx (habsent x)
    · intro _ m hm
      exact absurd hm (by simp)
  | some m =>
    obtain ⟨hm, hleast⟩ := lookup_groupMin_eq_some_iff.mp hlook
    constructor
    · intro hlt _
      exact ⟨m, hm, hlt m rfl⟩
    · intro hex m' hm'
      cases hm'
      obtain ⟨x, hx, hxt⟩ := hex ⟨m, hm⟩
      exact lt_of_le_of_lt (hleast x hx) hxt

end Verity.Foundation
