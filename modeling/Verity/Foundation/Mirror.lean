import Mathlib.Data.List.Perm.Basic
import Verity.Foundation.Table

/-!
# Mirrors of a table

A store of points, each under a key, is to hold the view of every row of a table. An upsert replaces
the point with its key. After a change of the table only the selected rows are sent again;
`mirrors_upsertPoints` is the rule for when the store is a mirror afterwards: every row that is not
selected is a row from before, none is gone, and no two rows share a key.
-/

set_option autoImplicit false

namespace Verity.Foundation

variable {α π κ : Type} [DecidableEq κ]

variable {key : π → κ} {points : List π}

def upsertPoint (key : π → κ) (points : List π) (p : π) : List π :=
  points.filter (fun q => decide (key q ≠ key p)) ++ [p]

def upsertPoints (key : π → κ) (points ps : List π) : List π := ps.foldl (upsertPoint key) points

theorem mem_upsertPoint {p q : π} :
    q ∈ upsertPoint key points p ↔ q = p ∨ q ∈ points ∧ key q ≠ key p := by
  unfold upsertPoint
  rw [List.mem_append, List.mem_filter, decide_eq_true_eq, List.mem_singleton, or_comm]

theorem nodup_keys_upsertPoint (h : (points.map key).Nodup) (p : π) :
    ((upsertPoint key points p).map key).Nodup := by
  refine nodup_keys_concat (h.sublist (List.filter_sublist.map key)) ?_
  intro q hq
  exact of_decide_eq_true (List.mem_filter.mp hq).2

theorem nodup_keys_upsertPoints (h : (points.map key).Nodup) (ps : List π) :
    ((upsertPoints key points ps).map key).Nodup := by
  induction ps generalizing points with
  | nil => exact h
  | cons p ps ih => exact ih (nodup_keys_upsertPoint h p)

/-- Points with distinct keys are all there afterwards, beside the old ones with other keys. -/
theorem mem_upsertPoints {ps : List π} (h : (ps.map key).Nodup) {q : π} :
    q ∈ upsertPoints key points ps ↔ q ∈ ps ∨ q ∈ points ∧ key q ∉ ps.map key := by
  induction ps generalizing points with
  | nil => simp [upsertPoints]
  | cons p ps ih =>
    obtain ⟨hp, hps⟩ := List.nodup_cons.mp h
    have hrest : upsertPoints key points (p :: ps) =
        upsertPoints key (upsertPoint key points p) ps := rfl
    rw [hrest, ih hps, mem_upsertPoint, List.mem_cons, List.map_cons, List.mem_cons]
    constructor
    · rintro (hq | ⟨rfl | ⟨hq, hne⟩, hother⟩)
      · exact Or.inl (Or.inr hq)
      · exact Or.inl (Or.inl rfl)
      · exact Or.inr ⟨hq, fun hkey => hkey.elim hne hother⟩
    · rintro ((rfl | hq) | ⟨hq, hkey⟩)
      · exact Or.inr ⟨Or.inl rfl, hp⟩
      · exact Or.inl hq
      · exact Or.inr ⟨Or.inr ⟨hq, fun hsame => hkey (Or.inl hsame)⟩,
          fun hmem => hkey (Or.inr hmem)⟩

/-- The store holds one point for each row, its view, and no two rows share a key. -/
structure Mirrors (key : π → κ) (view : α → π) (points : List π) (rows : List α) : Prop where
  points : points.Perm (rows.map view)
  apart : (rows.map fun r => key (view r)).Nodup

omit [DecidableEq κ] in
theorem Mirrors.nodup_keys {view : α → π} {rows : List α} (h : Mirrors key view points rows) :
    (points.map key).Nodup := by
  rw [(h.points.map key).nodup_iff, List.map_map]
  exact h.apart

/-- The points with the keys of the selected rows are replaced; the others are views of rows that
are as they were. -/
theorem mirrors_upsertPoints {view : α → π} {rows rows' : List α} {sel : α → Bool}
    (h : Mirrors key view points rows)
    (hkept : ∀ r ∈ rows, ∃ r' ∈ rows', key (view r') = key (view r))
    (hdelta : ∀ r' ∈ rows', r' ∈ rows ∨ sel r' = true)
    (hapart : (rows'.map fun r => key (view r)).Nodup) :
    Mirrors key view (upsertPoints key points ((rows'.filter sel).map view)) rows' := by
  have hsent : (((rows'.filter sel).map view).map key).Nodup := by
    rw [List.map_map]
    exact hapart.sublist (List.filter_sublist.map _)
  have hviews : (rows'.map view).Nodup := by
    apply List.Nodup.of_map key
    rw [List.map_map]
    exact hapart
  refine ⟨?_, hapart⟩
  rw [List.perm_ext_iff_of_nodup
    (List.Nodup.of_map key (nodup_keys_upsertPoints h.nodup_keys _)) hviews]
  intro q
  rw [mem_upsertPoints hsent]
  constructor
  · rintro (hq | ⟨hq, hother⟩)
    · obtain ⟨r', hr', rfl⟩ := List.mem_map.mp hq
      exact List.mem_map_of_mem (List.mem_filter.mp hr').1
    · obtain ⟨r, hr, rfl⟩ := List.mem_map.mp (h.points.mem_iff.mp hq)
      obtain ⟨r', hr', hkey⟩ := hkept r hr
      rcases hdelta r' hr' with hold | hsel
      · rw [List.inj_on_of_nodup_map h.apart hr hold hkey.symm]
        exact List.mem_map_of_mem hr'
      · refine absurd ?_ hother
        rw [← hkey]
        exact List.mem_map_of_mem (List.mem_map_of_mem (List.mem_filter.mpr ⟨hr', hsel⟩))
  · intro hq
    obtain ⟨r', hr', rfl⟩ := List.mem_map.mp hq
    by_cases hsel : sel r' = true
    · exact Or.inl (List.mem_map_of_mem (List.mem_filter.mpr ⟨hr', hsel⟩))
    · have hold := (hdelta r' hr').resolve_right hsel
      refine Or.inr ⟨h.points.mem_iff.mpr (List.mem_map_of_mem hold), fun hmem => hsel ?_⟩
      rw [List.map_map] at hmem
      obtain ⟨other, hother, hkey⟩ := List.mem_map.mp hmem
      obtain ⟨hother, hothersel⟩ := List.mem_filter.mp hother
      rw [← List.inj_on_of_nodup_map hapart hother hr' hkey]
      exact hothersel

end Verity.Foundation
