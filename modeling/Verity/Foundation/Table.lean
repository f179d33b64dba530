import Mathlib.Data.List.Nodup

/-!
# Rows of a table

`DELETE … WHERE` and `UPDATE … WHERE` over the rows of a table, and their frame rules: the rows
that a condition selects are as before, if the statement touches none of them.
-/

set_option autoImplicit false

namespace Verity.Foundation

variable {α : Type}

variable {p : α → Bool} {rows : List α} {r : α} {q : α → Bool} {f : α → α} {β : Type}
  {R : α → α → Prop}

/-- `DELETE … WHERE p`. -/
def deleteWhere (p : α → Bool) (rows : List α) : List α := rows.filter fun r => !p r

/-- `UPDATE … SET r = f r WHERE p`. -/
def updateWhere (p : α → Bool) (f : α → α) (rows : List α) : List α :=
  rows.map fun r => if p r then f r else r

/-- `rows_affected`. -/
def countWhere (p : α → Bool) (rows : List α) : Nat := (rows.filter p).length

theorem mem_deleteWhere : r ∈ deleteWhere p rows ↔ r ∈ rows ∧ p r = false := by
  unfold deleteWhere
  rw [List.mem_filter, Bool.not_eq_true']

/-- What a deletion spares is still there. -/
theorem filter_deleteWhere (h : ∀ r ∈ rows, q r = true → p r = false) :
    (deleteWhere p rows).filter q = rows.filter q := by
  unfold deleteWhere
  rw [List.filter_filter]
  apply List.filter_congr
  intro r hr
  cases hq : q r with
  | false => rfl
  | true => rw [h r hr hq]; rfl

/-- Two deletions are one of what either selects. -/
theorem deleteWhere_deleteWhere (p q : α → Bool) (rows : List α) :
    deleteWhere p (deleteWhere q rows) = deleteWhere (fun r => q r || p r) rows := by
  unfold deleteWhere
  rw [List.filter_filter]
  apply List.filter_congr
  intro r _
  rw [Bool.not_or, Bool.and_comm]

/-- Rows that an update leaves as they are stay selected as before, if it does not move any
other row into the selection or out of it. -/
theorem filter_map_frame (h : ∀ r ∈ rows, f r = r ∨ q r = false ∧ q (f r) = false) :
    (rows.map f).filter q = rows.filter q := by
  induction rows with
  | nil => rfl
  | cons r rows ih =>
    have hrest := ih fun r' hr' => h r' (List.mem_cons_of_mem r hr')
    rw [List.map_cons, List.filter_cons, List.filter_cons, hrest]
    rcases h r List.mem_cons_self with hsame | ⟨hbefore, hafter⟩
    · rw [hsame]
    · simp [hbefore, hafter]

/-- Rows that an update moves out of the selection leave it, and the others stay. -/
theorem filter_map_moved {p : α → Prop} [DecidablePred p] (h : ∀ r, q (f r) = false)
    (rows : List α) :
    (rows.map fun r => if p r then f r else r).filter q =
      (rows.filter q).filter fun r => decide (¬ p r) := by
  induction rows with
  | nil => rfl
  | cons r rows ih =>
    rw [List.map_cons, List.filter_cons, List.filter_cons, ih]
    by_cases hp : p r
    · cases hq : q r with
      | false => simp [hp, h]
      | true => simp [hp, h]
    · cases hq : q r with
      | false => simp [hp, hq]
      | true => simp [hp, hq]

/-- What a view shows of the selected rows, after an update that leaves the selection alone. -/
theorem map_filter_update {view : α → β} {g : β → β} (hq : ∀ r, q (f r) = q r)
    (hview : ∀ r, q r = true → view (f r) = g (view r)) (rows : List α) :
    ((rows.map f).filter q).map view = ((rows.filter q).map view).map g := by
  have hsel : q ∘ f = q := funext hq
  rw [List.filter_map, hsel, List.map_map, List.map_map]
  apply List.map_congr_left
  intro r hr
  exact hview r (List.mem_filter.mp hr).2

theorem filter_updateWhere (h : ∀ r ∈ rows, p r = true → q r = false ∧ q (f r) = false) :
    (updateWhere p f rows).filter q = rows.filter q := by
  apply filter_map_frame
  intro r hr
  cases hp : p r with
  | false => exact Or.inl rfl
  | true => exact Or.inr (h r hr hp)

/-- A column that an update leaves alone. -/
theorem map_updateWhere {column : α → β} (h : ∀ r, column (f r) = column r) :
    (updateWhere p f rows).map column = rows.map column := by
  unfold updateWhere
  rw [List.map_map]
  apply List.map_congr_left
  intro r _
  rw [Function.comp_apply]
  split
  · exact h r
  · rfl

/-- A lookup by a condition that one row alone meets finds that row. -/
theorem find?_unique (hr : r ∈ rows) (hp : p r = true)
    (hunique : ∀ r' ∈ rows, p r' = true → r' = r) : rows.find? p = some r := by
  cases hfind : rows.find? p with
  | none => exact absurd hp (List.find?_eq_none.mp hfind r hr)
  | some r' => rw [hunique r' (List.mem_of_find?_eq_some hfind) (List.find?_some hfind)]

/-- A lookup whose condition an update leaves alone finds the same row, updated. -/
theorem find?_updateWhere (hq : ∀ r, q (f r) = q r) (rows : List α) :
    (updateWhere p f rows).find? q = (rows.find? q).map fun r => if p r then f r else r := by
  have hrow : ∀ r, q (if p r then f r else r) = q r := by
    intro r
    split
    · exact hq r
    · rfl
  unfold updateWhere
  rw [List.find?_map]
  have hsame : (q ∘ fun r => if p r then f r else r) = q := funext hrow
  rw [hsame]

/-- Two updates seen through a view of the rows: they agree if they do on what is seen. -/
theorem map_updateWhere_congr {view : α → α} {f' : α → α} {rows' : List α}
    (hrows : rows'.map view = rows.map view) (hp : ∀ r, p (view r) = p r)
    (hf : ∀ r, view (f (view r)) = view (f r)) (hf' : ∀ r, view (f (view r)) = view (f' r)) :
    (updateWhere p f' rows').map view = (updateWhere p f rows).map view := by
  have hview : ∀ g : α → α, (∀ r, view (f (view r)) = view (g r)) → ∀ l : List α,
      (updateWhere p g l).map view =
        (l.map view).map fun r => if p r then view (f r) else r := by
    intro g hg l
    unfold updateWhere
    rw [List.map_map, List.map_map]
    apply List.map_congr_left
    intro r _
    simp only [Function.comp_apply, hp r]
    split
    · exact (hg r).symm
    · rfl
  rw [hview f' hf', hview f hf, hrows]

/-- A count is one over what its condition reads. -/
theorem countWhere_map {view : α → α} (hp : ∀ r, p (view r) = p r) :
    countWhere p (rows.map view) = countWhere p rows := by
  unfold countWhere
  have hcongr : rows.filter (p ∘ view) = rows.filter p := List.filter_congr fun r _ => hp r
  rw [List.filter_map, List.length_map, hcongr]

/-- An update of at most one row keeps what holds between any two, if it does for the new row. -/
theorem pairwise_updateWhere (h : rows.Pairwise R)
    (honce : rows.Pairwise fun r r' => ¬ (p r = true ∧ p r' = true))
    (hf : ∀ r, p r = true → ∀ r' ∈ rows, p r' = false → R (f r) r' ∧ R r' (f r)) :
    (updateWhere p f rows).Pairwise R := by
  unfold updateWhere
  rw [List.pairwise_map]
  refine (h.and honce).imp_of_mem ?_
  rintro r r' hr hr' ⟨hR, hnot⟩
  cases hp : p r with
  | true =>
    cases hp' : p r' with
    | true => exact absurd ⟨hp, hp'⟩ hnot
    | false => exact (hf r hp r' hr' hp').1
  | false =>
    cases hp' : p r' with
    | true => exact (hf r' hp' r hr hp).2
    | false => exact hR

/-- A row with a key of its own leaves the keys of a table distinct. -/
theorem nodup_keys_concat {key : α → β} (h : (rows.map key).Nodup)
    (hnew : ∀ r' ∈ rows, key r' ≠ key r) : ((rows ++ [r]).map key).Nodup := by
  rw [List.map_append, List.map_singleton, List.nodup_append]
  refine ⟨h, List.nodup_singleton _, ?_⟩
  intro k hk k' hk' heq
  obtain ⟨r', hr', rfl⟩ := List.mem_map.mp hk
  obtain rfl := List.mem_singleton.mp hk'
  exact hnew r' hr' heq

/-- An insert that skips the keys that are there leaves exactly the rows it was given where these
repeat all that was there. -/
theorem perm_insert_absent_iff {κ : Type} [DecidableEq κ] {key : α → κ} {old new : List α}
    (hold : (old.map key).Nodup) (hnew : (new.map key).Nodup) :
    (old ++ new.filter fun a => key a ∉ old.map key).Perm new ↔ ∀ a ∈ old, a ∈ new := by
  constructor
  · exact fun hperm a ha => hperm.mem_iff.mp (List.mem_append_left _ ha)
  · intro hsub
    refine (List.perm_ext_iff_of_nodup ?_ hnew.of_map).mpr fun a => ?_
    · rw [List.nodup_append]
      refine ⟨hold.of_map, hnew.of_map.filter _, ?_⟩
      rintro a ha b hb rfl
      exact of_decide_eq_true (List.mem_filter.mp hb).2 (List.mem_map_of_mem ha)
    · rw [List.mem_append, List.mem_filter, decide_eq_true_eq]
      constructor
      · rintro (ha | ⟨ha, -⟩)
        · exact hsub a ha
        · exact ha
      · intro ha
        by_cases hkey : key a ∈ old.map key
        · obtain ⟨b, hb, heq⟩ := List.mem_map.mp hkey
          rw [← List.inj_on_of_nodup_map hnew (hsub b hb) ha heq]
          exact Or.inl hb
        · exact Or.inr ⟨ha, hkey⟩

/-- A row that takes the next id of a table: the ids are below the one after it. -/
theorem ids_lt_concat {id : α → Nat} {next : Nat} (h : ∀ r' ∈ rows, id r' < next)
    (hid : id r = next) : ∀ r' ∈ rows ++ [r], id r' < next + 1 := by
  intro r' hr'
  rcases List.mem_append.mp hr' with hr' | hr'
  · exact Nat.lt_succ_of_lt (h r' hr')
  · rw [List.mem_singleton.mp hr', hid]
    exact Nat.lt_succ_self next

theorem nodup_ids_concat {id : α → Nat} {next : Nat} (hnodup : (rows.map id).Nodup)
    (h : ∀ r' ∈ rows, id r' < next) (hid : id r = next) : ((rows ++ [r]).map id).Nodup := by
  refine nodup_keys_concat hnodup ?_
  intro r' hr'
  rw [hid]
  exact Nat.ne_of_lt (h r' hr')

/-- Each row goes over into a row, and each row comes from one. -/
structure Evolves (R : α → α → Prop) (rows rows' : List α) : Prop where
  forth : ∀ r ∈ rows, ∃ r' ∈ rows', R r r'
  back : ∀ r' ∈ rows', ∃ r ∈ rows, R r r'

theorem Evolves.refl (h : ∀ r, R r r) (rows : List α) : Evolves R rows rows :=
  ⟨fun r hr => ⟨r, hr, h r⟩, fun r hr => ⟨r, hr, h r⟩⟩

theorem Evolves.trans (htrans : ∀ r r' r'', R r r' → R r' r'' → R r r'') {rows' rows'' : List α}
    (h : Evolves R rows rows') (h' : Evolves R rows' rows'') : Evolves R rows rows'' := by
  constructor
  · intro r hr
    obtain ⟨r', hr', hfirst⟩ := h.forth r hr
    obtain ⟨r'', hr'', hsecond⟩ := h'.forth r' hr'
    exact ⟨r'', hr'', htrans r r' r'' hfirst hsecond⟩
  · intro r'' hr''
    obtain ⟨r', hr', hsecond⟩ := h'.back r'' hr''
    obtain ⟨r, hr, hfirst⟩ := h.back r' hr'
    exact ⟨r, hr, htrans r r' r'' hfirst hsecond⟩

theorem evolves_updateWhere (hrefl : ∀ r, R r r) (h : ∀ r ∈ rows, p r = true → R r (f r)) :
    Evolves R rows (updateWhere p f rows) := by
  have hrow : ∀ r ∈ rows, R r (if p r then f r else r) := by
    intro r hr
    split
    · rename_i hp
      exact h r hr hp
    · exact hrefl r
  constructor
  · intro r hr
    exact ⟨_, List.mem_map_of_mem hr, hrow r hr⟩
  · intro r' hr'
    obtain ⟨r, hr, rfl⟩ := List.mem_map.mp hr'
    exact ⟨r, hr, hrow r hr⟩

/-- A loop whose turns let the rows of a table evolve. -/
theorem evolves_foldl {σ : Type} (hrefl : ∀ r, R r r)
    (htrans : ∀ r r' r'', R r r' → R r' r'' → R r r'') (table : σ → List α) {step : σ → β → σ}
    (h : ∀ s x, Evolves R (table s) (table (step s x))) (xs : List β) (s : σ) :
    Evolves R (table s) (table (xs.foldl step s)) := by
  induction xs generalizing s with
  | nil => exact Evolves.refl hrefl _
  | cons x xs ih => exact (h s x).trans htrans (ih (step s x))

end Verity.Foundation
