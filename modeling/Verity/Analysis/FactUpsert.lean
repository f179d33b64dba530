import Verity.Model.Facts

/-!
# What one fact write does

`upsertFact_spec` says everything `upsertFact` can do, one constructor of `Upserted` per
outcome; the write always succeeds, because the branch that inserts a current row does so
only when the key has none. Every later result about runs of writes goes through it.

`currentFact_eq_filter` puts the scoped point read in terms of the key's current row: the
SQL predicate of the adapter and `factVisible`, the predicate the cache applies, agree.
-/

set_option autoImplicit false

namespace Verity.Analysis

open Verity.Foundation
open Verity.Model

variable {t : FactTable} {tenant : TenantId} {key : FactKey} {r : FactRow} {t' : FactTable}
  {now : Time} {fact : FactWrite} {o : FactUpsertOutcome} {cur : FactRow} {e : FactWrite}

/-! ## The current row of a key -/

theorem currentRow_eq_none_iff :
    t.currentRow tenant key = none ↔
      ∀ r ∈ t.rows, r.tenantId = tenant → r.key = key → r.validTo ≠ none := by
  unfold FactTable.currentRow
  rw [List.find?_eq_none]
  simp

/-- The index makes the current row of a key unique, so finding one finds it. -/
theorem currentRow_eq_some_iff :
    t.currentRow tenant key = some r ↔
      r ∈ t.rows ∧ r.tenantId = tenant ∧ r.key = key ∧ r.validTo = none := by
  constructor
  · intro h
    have hp := List.find?_some h
    rw [decide_eq_true_iff] at hp
    exact ⟨List.mem_of_find?_eq_some h, hp⟩
  · rintro ⟨hr, rfl, rfl, hcur⟩
    have : Std.Symm fun a b : FactRow => ¬ a.clashes b :=
      ⟨fun a b h h' => h ⟨h'.2.1, h'.1, h'.2.2.1.symm, h'.2.2.2.symm⟩⟩
    refine find?_unique hr (decide_eq_true ⟨rfl, rfl, hcur⟩) fun r' hr' hp => ?_
    rw [decide_eq_true_iff] at hp
    by_contra hne
    refine t.one_current.forall hr' hr hne ?_
    exact ⟨hp.2.2, hcur, hp.1, hp.2.1⟩

theorem currentRow_congr (h : t'.rows = t.rows) (tenant : TenantId) (key : FactKey) :
    t'.currentRow tenant key = t.currentRow tenant key := by
  unfold FactTable.currentRow
  rw [h]

theorem rowsOf_congr (h : t'.rows = t.rows) (tenant : TenantId) (key : FactKey) :
    t'.rowsOf tenant key = t.rowsOf tenant key := by
  unfold FactTable.rowsOf
  rw [h]

theorem mem_rowsOf : r ∈ t.rowsOf tenant key ↔ r ∈ t.rows ∧ r.tenantId = tenant ∧ r.key = key := by
  simp [FactTable.rowsOf]

theorem currentRow_mem_rowsOf (h : t.currentRow tenant key = some r) : r ∈ t.rowsOf tenant key := by
  rw [currentRow_eq_some_iff] at h
  exact mem_rowsOf.mpr ⟨h.1, h.2.1, h.2.2.1⟩

/-- Rows are identified by their id. -/
theorem eq_of_id_eq {r' : FactRow} (hr : r ∈ t.rows) (hr' : r' ∈ t.rows) (h : r.id = r'.id) :
    r = r' :=
  List.inj_on_of_nodup_map t.ids_nodup hr hr' h

/-! ## The scoped reads -/

/-- The overlap of two token lists, read from either side. -/
theorem sqlVisible_eq (scope : Scope) (r : FactRow)
    (hentity : scope.entityScope.isEmpty || scope.entityScope.contains r.key.entityId) :
    sqlVisible scope r = factVisible scope r := by
  have hover : (r.visibility.any fun p => scope.principals.contains p) =
      scope.principals.any fun p => r.visibility.contains p := by
    rw [Bool.eq_iff_iff]
    simp only [List.any_eq_true, List.contains_iff_mem]
    exact ⟨fun ⟨p, hv, hp⟩ => ⟨p, hp, hv⟩, fun ⟨p, hp, hv⟩ => ⟨p, hv, hp⟩⟩
  simp only [sqlVisible, factVisible, Scope.sees, hover, hentity, Bool.and_true]

/-- The scoped point read is the key's current row, shown when `factVisible` allows it. -/
theorem currentFact_eq_filter (t : FactTable) (scope : Scope) (key : FactKey) :
    currentFact t scope key =
      (t.currentRow scope.tenantId key).filter (factVisible scope) := by
  unfold currentFact
  by_cases hnil : scope.principals = []
  · rw [if_pos (by simp [hnil])]
    cases t.currentRow scope.tenantId key with
    | none => rfl
    | some r => simp [Option.filter, factVisible_of_no_principals hnil r]
  rw [if_neg (by simp [hnil])]
  by_cases hentity : scope.entityScope.isEmpty || scope.entityScope.contains key.entityId
  · rw [if_neg (by simpa [or_iff_not_imp_left] using hentity)]
    cases hcur : t.currentRow scope.tenantId key with
    | none =>
      rw [currentRow_eq_none_iff] at hcur
      rw [Option.filter_none, List.find?_eq_none]
      intro r hr hp
      rw [Bool.and_eq_true, decide_eq_true_iff] at hp
      exact hcur r hr hp.1.1 hp.1.2.1 hp.1.2.2
    | some r =>
      have hkey := (currentRow_eq_some_iff.mp hcur).2.2.1
      have hvis := sqlVisible_eq scope r (by rw [hkey]; exact hentity)
      cases hfind : t.rows.find? fun r => decide (r.tenantId = scope.tenantId ∧ r.key = key ∧
          r.validTo = none) && sqlVisible scope r with
      | none =>
        have := List.find?_eq_none.mp hfind r (currentRow_eq_some_iff.mp hcur).1
        rw [Bool.and_eq_true, decide_eq_true_iff, hvis] at this
        have hfalse : factVisible scope r = false := by
          rw [Bool.eq_false_iff]
          intro htrue
          exact this ⟨(currentRow_eq_some_iff.mp hcur).2, htrue⟩
        simp [Option.filter, hfalse]
      | some r' =>
        have hp := List.find?_some hfind
        rw [Bool.and_eq_true, decide_eq_true_iff] at hp
        have hr' : t.currentRow scope.tenantId key = some r' :=
          currentRow_eq_some_iff.mpr ⟨List.mem_of_find?_eq_some hfind, hp.1⟩
        have heq : r = r' := by rw [hcur] at hr'; exact Option.some.inj hr'
        subst heq
        simp [Option.filter, ← hvis, hp.2]
  · rw [if_pos (by simpa [not_or] using hentity)]
    cases hcur : t.currentRow scope.tenantId key with
    | none => rfl
    | some r =>
      have hkey := (currentRow_eq_some_iff.mp hcur).2.2.1
      rw [Bool.not_eq_true] at hentity
      have hfalse : factVisible scope r = false := by
        simp only [factVisible, Scope.sees, hkey, hentity, Bool.and_false]
      simp [Option.filter, hfalse]

/-! ## The write -/

/-- The superseded row after the write: closed, and linked to its successor. -/
def closeRow (id : FactId) (validTo : Time) (newId : FactId) (r : FactRow) : FactRow :=
  if r.id = id then { r with validTo := some validTo, supersededBy := some newId } else r

theorem closeRow_key (id newId : FactId) (x : Time) (r : FactRow) :
    (closeRow id x newId r).tenantId = r.tenantId ∧ (closeRow id x newId r).key = r.key ∧
      (closeRow id x newId r).validFrom = r.validFrom ∧
      (closeRow id x newId r).value = r.value := by
  unfold closeRow
  split <;> simp

/-- Everything one write can do to the rows of the table. -/
inductive Upserted (t : FactTable) (now : Time) (fact : FactWrite) :
    List FactRow → FactUpsertOutcome → Prop
  | inserted (hnone : t.currentRow fact.tenantId fact.key = none) :
      Upserted t now fact (t.rows ++ [fact.toRow t.nextId now none]) .inserted
  | unchanged (cur : FactRow) (hcur : t.currentRow fact.tenantId fact.key = some cur)
      (hvalue : cur.value = fact.value) : Upserted t now fact t.rows .unchanged
  | stale (cur : FactRow) (hcur : t.currentRow fact.tenantId fact.key = some cur)
      (hvalue : cur.value ≠ fact.value) (hle : fact.validFrom ≤ (cur.validFrom : Instant)) :
      Upserted t now fact (t.rows ++ [fact.toRow t.nextId now (some cur.validFrom)]) .staleEvent
  | superseded (cur : FactRow) (hcur : t.currentRow fact.tenantId fact.key = some cur)
      (hvalue : cur.value ≠ fact.value) (hlt : (cur.validFrom : Instant) < fact.validFrom) :
      Upserted t now fact
        (t.rows.map (closeRow cur.id fact.start t.nextId) ++ [fact.toRow t.nextId now none])
        .superseded

/-- Without a current row, the write is inserted. -/
theorem Upserted.of_none {rows : List FactRow} (h : Upserted t now fact rows o)
    (hnone : t.currentRow fact.tenantId fact.key = none) :
    rows = t.rows ++ [fact.toRow t.nextId now none] ∧ o = .inserted := by
  cases h with
  | inserted => exact ⟨rfl, rfl⟩
  | unchanged cur hcur => exact absurd (hnone.symm.trans hcur) (by simp)
  | stale cur hcur => exact absurd (hnone.symm.trans hcur) (by simp)
  | superseded cur hcur => exact absurd (hnone.symm.trans hcur) (by simp)

/-- With a current row, the write is one of the other three. -/
theorem Upserted.of_current {rows : List FactRow} (h : Upserted t now fact rows o)
    (hcur : t.currentRow fact.tenantId fact.key = some cur) :
    (cur.value = fact.value ∧ rows = t.rows ∧ o = .unchanged) ∨
    (cur.value ≠ fact.value ∧ fact.validFrom ≤ (cur.validFrom : Instant) ∧
      rows = t.rows ++ [fact.toRow t.nextId now (some cur.validFrom)] ∧ o = .staleEvent) ∨
    (cur.value ≠ fact.value ∧ (cur.validFrom : Instant) < fact.validFrom ∧
      rows = t.rows.map (closeRow cur.id fact.start t.nextId) ++
        [fact.toRow t.nextId now none] ∧ o = .superseded) := by
  cases h with
  | inserted hnone => exact absurd (hnone.symm.trans hcur) (by simp)
  | unchanged r hr hvalue =>
    obtain rfl := Option.some.inj (hr.symm.trans hcur)
    exact Or.inl ⟨hvalue, rfl, rfl⟩
  | stale r hr hvalue hle =>
    obtain rfl := Option.some.inj (hr.symm.trans hcur)
    exact Or.inr (Or.inl ⟨hvalue, hle, rfl, rfl⟩)
  | superseded r hr hvalue hlt =>
    obtain rfl := Option.some.inj (hr.symm.trans hcur)
    exact Or.inr (Or.inr ⟨hvalue, hlt, rfl, rfl⟩)

theorem insertFactRow_eq_ok (t : FactTable) (now : Time) (fact : FactWrite) (validTo : Option Time)
    (h : validTo = none → t.currentRow fact.tenantId fact.key = none) :
    ∃ t', insertFactRow t now fact validTo = .ok t' ∧
      t'.rows = t.rows ++ [fact.toRow t.nextId now validTo] := by
  unfold insertFactRow
  rw [dif_pos h]
  exact ⟨_, rfl, rfl⟩

/-- Closing the current row of a key leaves the key without one. -/
theorem currentRow_setValidTo (hcur : t.currentRow tenant key = some cur) (validTo : Time) :
    (t.setValidTo cur.id validTo).currentRow tenant key = none := by
  rw [currentRow_eq_none_iff]
  intro r hr htenant hkey hnone
  obtain ⟨r₀, hr₀, rfl⟩ := List.mem_map.mp hr
  by_cases hid : r₀.id = cur.id
  · simp [hid] at hnone
  · simp only [hid, if_false] at htenant hkey hnone
    have := currentRow_eq_some_iff.mpr ⟨hr₀, htenant, hkey, hnone⟩
    rw [hcur] at this
    exact hid (by rw [Option.some.inj this])

/-- A write always succeeds, and does what its outcome says. -/
theorem upsertFact_spec (t : FactTable) (now : Time) (fact : FactWrite) :
    ∃ t' o, upsertFact t now fact = .ok (t', o) ∧ Upserted t now fact t'.rows o := by
  unfold upsertFact
  cases hcur : t.currentRow fact.tenantId fact.key with
  | none =>
    obtain ⟨t', hok, hrows⟩ := insertFactRow_eq_ok t now fact none fun _ => hcur
    refine ⟨t', .inserted, by simp [hok, bind, Except.bind, pure, Except.pure], ?_⟩
    rw [hrows]
    exact .inserted hcur
  | some cur =>
    by_cases hvalue : cur.value = fact.value
    · refine ⟨t, .unchanged, by simp [hvalue, pure, Except.pure], ?_⟩
      exact .unchanged cur hcur hvalue
    by_cases hle : fact.validFrom ≤ (cur.validFrom : Instant)
    · obtain ⟨t', hok, hrows⟩ := insertFactRow_eq_ok t now fact (some cur.validFrom) (by simp)
      refine ⟨t', .staleEvent, by
        simp [hvalue, hle, hok, bind, Except.bind, pure, Except.pure], ?_⟩
      rw [hrows]
      exact .stale cur hcur hvalue hle
    · obtain ⟨t', hok, hrows⟩ := insertFactRow_eq_ok (t.setValidTo cur.id fact.start) now fact
        none fun _ => currentRow_setValidTo hcur fact.start
      refine ⟨t'.setSupersededBy cur.id t.nextId, .superseded, by
        simp [hvalue, hle, hok, bind, Except.bind, pure, Except.pure], ?_⟩
      -- the two updates of the old row are one, and the new row's id is not the old one's
      have hid : t.nextId ≠ cur.id := (t.ids_lt cur (currentRow_eq_some_iff.mp hcur).1).ne'
      have heq : (t'.setSupersededBy cur.id t.nextId).rows =
          t.rows.map (closeRow cur.id fact.start t.nextId) ++
            [fact.toRow t.nextId now none] := by
        show t'.rows.map _ = _
        rw [hrows, List.map_append]
        congr 1
        · show (t.rows.map _).map _ = _
          rw [List.map_map]
          apply List.map_congr_left
          intro r _
          by_cases hr : r.id = cur.id <;> simp [closeRow, hr]
        · simp [FactTable.setValidTo, FactTable.updateRows, FactWrite.toRow, hid]
      rw [heq]
      exact .superseded cur hcur hvalue (not_le.mp hle)

/-- The write replaces the current row of its own key, in the two outcomes that say so, and
touches no other. -/
theorem Upserted.currentRow_eq (h : Upserted t now fact t'.rows o) (tenant : TenantId)
    (key : FactKey) :
    t'.currentRow tenant key =
      if (tenant = fact.tenantId ∧ key = fact.key) ∧ (o = .inserted ∨ o = .superseded) then
        some (fact.toRow t.nextId now none)
      else t.currentRow tenant key := by
  generalize hrows : t'.rows = rows at h
  by_cases hreplace : (tenant = fact.tenantId ∧ key = fact.key) ∧ (o = .inserted ∨ o = .superseded)
  · rw [if_pos hreplace]
    obtain ⟨⟨rfl, rfl⟩, ho⟩ := hreplace
    rw [currentRow_eq_some_iff, hrows]
    cases h with
    | inserted => exact ⟨by simp, rfl, rfl, rfl⟩
    | superseded => exact ⟨by simp, rfl, rfl, rfl⟩
    | unchanged => simp at ho
    | stale => simp at ho
  rw [if_neg hreplace]
  -- the rows that are current for the key are the same ones before and after
  ext r
  rw [currentRow_eq_some_iff, currentRow_eq_some_iff, hrows]
  cases h with
  | inserted =>
    rw [List.mem_append, List.mem_singleton]
    constructor
    · rintro ⟨hr | rfl, htenant, hkey, hcur⟩
      · exact ⟨hr, htenant, hkey, hcur⟩
      · exact absurd ⟨⟨htenant.symm, hkey.symm⟩, Or.inl rfl⟩ hreplace
    · rintro ⟨hr, hrest⟩
      exact ⟨Or.inl hr, hrest⟩
  | unchanged => rfl
  | stale =>
    rw [List.mem_append, List.mem_singleton]
    constructor
    · rintro ⟨hr | rfl, htenant, hkey, hcur⟩
      · exact ⟨hr, htenant, hkey, hcur⟩
      · simp [FactWrite.toRow] at hcur
    · rintro ⟨hr, hrest⟩
      exact ⟨Or.inl hr, hrest⟩
  | superseded cur hcur hvalue hlt =>
    obtain ⟨hmem, hct, hck, -⟩ := currentRow_eq_some_iff.mp hcur
    have hclose : ∀ r₀ ∈ t.rows, r₀.tenantId = tenant → r₀.key = key →
        closeRow cur.id fact.start t.nextId r₀ = r₀ := by
      intro r₀ hr₀ htenant hkey
      unfold closeRow
      rw [if_neg]
      intro hid
      have := eq_of_id_eq hr₀ hmem hid
      subst this
      exact hreplace ⟨⟨htenant.symm.trans hct, hkey.symm.trans hck⟩, Or.inr rfl⟩
    rw [List.mem_append, List.mem_singleton, List.mem_map]
    constructor
    · rintro ⟨⟨r₀, hr₀, rfl⟩ | rfl, htenant, hkey, hcur'⟩
      · have hk := closeRow_key cur.id t.nextId fact.start r₀
        rw [hk.1] at htenant
        rw [hk.2.1] at hkey
        rw [hclose r₀ hr₀ htenant hkey] at hcur' ⊢
        exact ⟨hr₀, htenant, hkey, hcur'⟩
      · exact absurd ⟨⟨htenant.symm, hkey.symm⟩, Or.inr rfl⟩ hreplace
    · rintro ⟨hr, htenant, hkey, hcur'⟩
      exact ⟨Or.inl ⟨r, hr, hclose r hr htenant hkey⟩, htenant, hkey, hcur'⟩

/-! ## The rows of the key after the write -/

/-- The rows of a key after a write that adds one row and rewrites the others by `f`. -/
theorem rowsOf_write {f : FactRow → FactRow} {id : FactId} {validTo : Option Time}
    (hf : ∀ r, (f r).tenantId = r.tenantId ∧ (f r).key = r.key)
    (hrows : t'.rows = t.rows.map f ++ [e.toRow id now validTo]) :
    t'.rowsOf e.tenantId e.key =
      (t.rowsOf e.tenantId e.key).map f ++ [e.toRow id now validTo] := by
  unfold FactTable.rowsOf
  rw [hrows, List.filter_append, List.filter_map]
  congr 1
  · refine congrArg (List.map f) (List.filter_congr fun r _ => ?_)
    simp only [Function.comp_apply, (hf r).1, (hf r).2]
  · exact List.filter_eq_self.mpr (by simp [FactWrite.toRow])

theorem mem_rowsOf_write {f : FactRow → FactRow} {id : FactId} {validTo : Option Time}
    (hf : ∀ r, (f r).tenantId = r.tenantId ∧ (f r).key = r.key)
    (hrows : t'.rows = t.rows.map f ++ [e.toRow id now validTo]) (r : FactRow) :
    r ∈ t'.rowsOf e.tenantId e.key ↔
      (∃ r₀ ∈ t.rowsOf e.tenantId e.key, f r₀ = r) ∨ r = e.toRow id now validTo := by
  rw [rowsOf_write hf hrows, List.mem_append, List.mem_map, List.mem_singleton]

/-- What a write leaves of the rows of its key: a new row after the old ones, which keep all but
their end, or the old ones alone. -/
theorem Upserted.rowsOf_of_current (hup : Upserted t now e t'.rows o)
    (hcur : t.currentRow e.tenantId e.key = some cur) :
    (cur.value = e.value ∧ t'.rowsOf e.tenantId e.key = t.rowsOf e.tenantId e.key ∧
      t'.currentRow e.tenantId e.key = some cur) ∨
    (cur.value ≠ e.value ∧ e.validFrom ≤ (cur.validFrom : Instant) ∧
      t'.rowsOf e.tenantId e.key =
        t.rowsOf e.tenantId e.key ++ [e.toRow t.nextId now (some cur.validFrom)] ∧
      t'.currentRow e.tenantId e.key = some cur) ∨
    (cur.value ≠ e.value ∧ (cur.validFrom : Instant) < e.validFrom ∧
      t'.rowsOf e.tenantId e.key =
        (t.rowsOf e.tenantId e.key).map (closeRow cur.id e.start t.nextId) ++
          [e.toRow t.nextId now none] ∧
      t'.currentRow e.tenantId e.key = some (e.toRow t.nextId now none)) := by
  have hcurrent := hup.currentRow_eq e.tenantId e.key
  rcases hup.of_current hcur with ⟨hvalue, hrows, rfl⟩ | ⟨hvalue, hle, hrows, rfl⟩ |
      ⟨hvalue, hlt, hrows, rfl⟩
  · rw [if_neg (by simp), hcur] at hcurrent
    exact Or.inl ⟨hvalue, rowsOf_congr hrows _ _, hcurrent⟩
  · rw [if_neg (by simp), hcur] at hcurrent
    rw [← List.map_id t.rows] at hrows
    have hkeep := rowsOf_write (f := id) (fun _ => ⟨rfl, rfl⟩) hrows
    rw [List.map_id] at hkeep
    exact Or.inr (Or.inl ⟨hvalue, hle, hkeep, hcurrent⟩)
  · rw [if_pos (by simp)] at hcurrent
    have hclose := rowsOf_write (fun r => ⟨(closeRow_key cur.id t.nextId e.start r).1,
      (closeRow_key cur.id t.nextId e.start r).2.1⟩) hrows
    exact Or.inr (Or.inr ⟨hvalue, hlt, hclose, hcurrent⟩)

theorem Upserted.rowsOf_of_none (hup : Upserted t now e t'.rows o)
    (hnone : t.currentRow e.tenantId e.key = none) :
    t'.rowsOf e.tenantId e.key =
        t.rowsOf e.tenantId e.key ++ [e.toRow t.nextId now none] ∧
      t'.currentRow e.tenantId e.key = some (e.toRow t.nextId now none) := by
  have hcurrent := hup.currentRow_eq e.tenantId e.key
  obtain ⟨hrows, rfl⟩ := hup.of_none hnone
  rw [if_pos (by simp)] at hcurrent
  rw [← List.map_id t.rows] at hrows
  have hkeep := rowsOf_write (f := id) (fun _ => ⟨rfl, rfl⟩) hrows
  rw [List.map_id] at hkeep
  exact ⟨hkeep, hcurrent⟩

end Verity.Analysis
