import Verity.Model.SourceFreshness

/-!
# What the gate on stale sources lets through

The gate compares whole seconds as signed numbers of 64 bits. So a heartbeat passes until it is a
full second beyond the bound, and a bound from 2 ^ 63 on is negative where it is compared: then only
heartbeats from the future pass. The gate filters exactly when no listed hit has a heartbeat of
either kind (`gate_exact_iff`), and is monotone in the bound where it filters exactly.
-/

set_option autoImplicit false

namespace Verity.Analysis

open Verity.Model

variable {m : UInt64} {synced : SyncedMap} {now : Time} {source : String} {at' : Time}
  {hits : List SyncedHit} {m' : UInt64}

/-! ## Seconds -/

theorem u64AsI64_of_lt (h : m.toNat < 9223372036854775808) : u64AsI64 m = m.toNat :=
  Int.bmod_eq_of_le (by omega) (by omega)

theorem u64AsI64_of_ge (h : 9223372036854775808 ≤ m.toNat) :
    u64AsI64 m = (m.toNat : Int) - 18446744073709551616 := by
  have hlt := m.toNat_lt
  have hshift : u64AsI64 m =
      ((m.toNat : Int) - 18446744073709551616).bmod 18446744073709551616 := by
    have hsub : (m.toNat : Int) - 18446744073709551616 =
        (m.toNat : Int) + (18446744073709551616 : Nat) * (-1) := by omega
    rw [hsub, Int.add_mul_bmod_self_left]
    rfl
  have hlow : -(18446744073709551616 / 2 : Int) ≤ (m.toNat : Int) - 18446744073709551616 := by omega
  rw [hshift]
  exact Int.bmod_eq_of_le hlow (by omega)

/-- How long ago an instant is, in microseconds. -/
def age (now at' : Time) : Int := now - at'

/-- Seconds in microseconds. -/
def micros (n : Int) : Int := n * 1000000

/-- Seconds are cut towards zero: up to a full second more is no more. -/
theorem numSeconds_le_iff_of_nonneg {d n : Int} (hn : 0 ≤ n) :
    numSeconds d ≤ n ↔ d < micros (n + 1) := by
  unfold numSeconds micros
  rcases Int.le_total 0 d with hd | hd
  · rw [Int.tdiv_eq_ediv_of_nonneg hd]
    omega
  · obtain ⟨e, rfl⟩ : ∃ e, d = -e := ⟨-d, (Int.neg_neg d).symm⟩
    rw [Int.neg_tdiv, Int.tdiv_eq_ediv_of_nonneg (by omega)]
    omega

theorem numSeconds_le_iff_of_neg {d n : Int} (hn : n < 0) : numSeconds d ≤ n ↔ d ≤ micros n := by
  unfold numSeconds micros
  rcases Int.le_total 0 d with hd | hd
  · have hpos : 0 ≤ d.tdiv 1000000 := Int.tdiv_nonneg hd (by decide)
    omega
  · obtain ⟨e, rfl⟩ : ∃ e, d = -e := ⟨-d, (Int.neg_neg d).symm⟩
    rw [Int.neg_tdiv, Int.tdiv_eq_ediv_of_nonneg (by omega)]
    omega

/-! ## Exactness -/

/-- A source that has no connector, or an unknown one without a heartbeat. -/
def IsExempt (synced : SyncedMap) (source : String) : Prop :=
  servedLocally source = true ∨ (synced source = none ∧ source ∉ connectorChunkSources)

/-- The source is exempt, or has a heartbeat that is not older than the bound. -/
def MayServe (synced : SyncedMap) (now : Time) (m : UInt64) (source : String) : Prop :=
  IsExempt synced source ∨ ∃ at' ∈ synced source, age now at' ≤ micros m.toNat

instance (synced : SyncedMap) (now : Time) (m : UInt64) (source : String) :
    Decidable (MayServe synced now m source) :=
  inferInstanceAs (Decidable ((_ ∨ (_ ∧ _)) ∨ ∃ at' ∈ synced source, age now at' ≤ micros m.toNat))

/-- The outcome is the first hits of those that may be served, and accounts for the others. -/
structure FiltersExactly (hits : List SyncedHit) (synced : SyncedMap) (now : Time) (k : Nat)
    (m : UInt64) : Prop where
  served : (annotateAndGate hits synced (some m) now k).hits =
    ((hits.map (annotate synced)).filter fun h => decide (MayServe synced now m h.source)).take k
  counted : (annotateAndGate hits synced (some m) now k).dropped =
    (hits.filter fun h => !decide (MayServe synced now m h.source)).length
  sorted : (annotateAndGate hits synced (some m) now k).staleSources.Pairwise (· < ·)
  reported : ∀ source, source ∈ (annotateAndGate hits synced (some m) now k).staleSources ↔
    ∃ h ∈ hits, h.source = source ∧ ¬ MayServe synced now m source

/-- The heartbeat is judged by its age: it is within the bound, or a full second beyond it; and
where the bound is negative as a signed number, it is as far in the future, or older than it. -/
def JudgedByAge (now : Time) (m : UInt64) (at' : Time) : Prop :=
  if m.toNat < 9223372036854775808 then
    age now at' ≤ micros m.toNat ∨ micros (m.toNat + 1) ≤ age now at'
  else
    age now at' ≤ micros (m.toNat - 18446744073709551616) ∨ micros m.toNat < age now at'

/-- The verdict on a source. -/
def passesAt (synced : SyncedMap) (now : Time) (m : UInt64) (source : String) : Bool :=
  (verdict source (synced source) now m).passes

theorem passesAt_of_heartbeat (hlocal : servedLocally source = false)
    (hat : synced source = some at') :
    passesAt synced now m source = true ↔ numSeconds (age now at') ≤ u64AsI64 m := by
  unfold passesAt verdict
  rw [hlocal, hat, if_neg Bool.false_ne_true]
  dsimp only
  by_cases h : numSeconds (age now at') ≤ u64AsI64 m
  · rw [if_pos (show numSeconds (now - at') ≤ _ from h)]
    exact iff_of_true rfl h
  · rw [if_neg (show ¬ numSeconds (now - at') ≤ _ from h)]
    exact iff_of_false Bool.false_ne_true h

/-- Without a heartbeat to judge, the verdict is exact. -/
theorem passesAt_iff_of_unjudged (h : servedLocally source = true ∨ synced source = none) :
    passesAt synced now m source = true ↔ MayServe synced now m source := by
  unfold passesAt verdict MayServe IsExempt
  rcases h with hlocal | hnone
  · rw [if_pos hlocal]
    exact iff_of_true rfl (Or.inl (Or.inl hlocal))
  · by_cases hlocal : servedLocally source = true
    · rw [if_pos hlocal]
      exact iff_of_true rfl (Or.inl (Or.inl hlocal))
    · rw [if_neg hlocal, hnone]
      by_cases hmem : source ∈ connectorChunkSources
      · have hcontains : connectorChunkSources.contains source = true :=
          List.contains_iff_mem.mpr hmem
        refine iff_of_false ?_ ?_
        · simp only [hcontains, if_true, Verdict.passes, Bool.false_eq_true, not_false_eq_true]
        · simp [hlocal, hmem]
      · have hcontains : connectorChunkSources.contains source = false := by simpa using hmem
        refine iff_of_true ?_ (Or.inl (Or.inr ⟨rfl, hmem⟩))
        simp only [hcontains, Bool.false_eq_true, if_false, Verdict.passes]

theorem mayServe_of_heartbeat (hlocal : servedLocally source = false)
    (hat : synced source = some at') :
    MayServe synced now m source ↔ age now at' ≤ micros m.toNat := by
  unfold MayServe IsExempt
  simp [hlocal, hat]

/-- The verdict on a heartbeat is exact when it is judged by its age. -/
theorem judgedByAge_iff (hlocal : servedLocally source = false) (hat : synced source = some at') :
    JudgedByAge now m at' ↔
      (passesAt synced now m source = true ↔ MayServe synced now m source) := by
  rw [passesAt_of_heartbeat hlocal hat, mayServe_of_heartbeat hlocal hat]
  unfold JudgedByAge
  by_cases hm : m.toNat < 9223372036854775808
  · rw [if_pos hm, u64AsI64_of_lt hm, numSeconds_le_iff_of_nonneg (by omega)]
    unfold micros
    omega
  · have hlt := m.toNat_lt
    rw [if_neg hm, u64AsI64_of_ge (by omega), numSeconds_le_iff_of_neg (by omega)]
    unfold micros
    omega

/-- The gate errs to one side: below 2 ^ 63 it lets through too much, and from there on too
little. -/
theorem passesAt_of_mayServe (hm : m.toNat < 9223372036854775808)
    (h : MayServe synced now m source) : passesAt synced now m source = true := by
  by_cases hjudged : servedLocally source = true ∨ synced source = none
  · exact (passesAt_iff_of_unjudged hjudged).mpr h
  · obtain ⟨hlocal, hsome⟩ := not_or.mp hjudged
    obtain ⟨at', hat⟩ := Option.ne_none_iff_exists'.mp hsome
    have hfalse := Bool.eq_false_iff.mpr hlocal
    rw [mayServe_of_heartbeat hfalse hat] at h
    rw [passesAt_of_heartbeat hfalse hat, u64AsI64_of_lt hm,
      numSeconds_le_iff_of_nonneg (by omega)]
    unfold micros at h ⊢
    omega

theorem mayServe_of_passesAt (hm : 9223372036854775808 ≤ m.toNat)
    (h : passesAt synced now m source = true) : MayServe synced now m source := by
  by_cases hjudged : servedLocally source = true ∨ synced source = none
  · exact (passesAt_iff_of_unjudged hjudged).mp h
  · obtain ⟨hlocal, hsome⟩ := not_or.mp hjudged
    obtain ⟨at', hat⟩ := Option.ne_none_iff_exists'.mp hsome
    have hfalse := Bool.eq_false_iff.mpr hlocal
    have hlt := m.toNat_lt
    rw [passesAt_of_heartbeat hfalse hat, u64AsI64_of_ge hm,
      numSeconds_le_iff_of_neg (by omega)] at h
    rw [mayServe_of_heartbeat hfalse hat]
    unfold micros at h ⊢
    omega

/-! ## The pass over the hits -/

theorem retainFresh_fst (passes : SyncedHit → Bool) (hits : List SyncedHit)
    (staleSources : List String) :
    (retainFresh passes hits staleSources).1 = hits.filter passes := by
  induction hits generalizing staleSources with
  | nil => rfl
  | cons hit hits ih =>
    unfold retainFresh
    by_cases hpass : passes hit = true
    · rw [if_pos hpass, List.filter_cons_of_pos hpass, ← ih staleSources]
    · rw [if_neg hpass, List.filter_cons_of_neg hpass, ih]

/-- The sources of the hits that are dropped are listed once. -/
theorem retainFresh_snd (passes : SyncedHit → Bool) (hits : List SyncedHit)
    {staleSources : List String} (hnodup : staleSources.Nodup) :
    (retainFresh passes hits staleSources).2.Nodup ∧
      ∀ source, source ∈ (retainFresh passes hits staleSources).2 ↔
        source ∈ staleSources ∨ ∃ h ∈ hits, h.source = source ∧ passes h = false := by
  induction hits generalizing staleSources with
  | nil => simpa [retainFresh] using hnodup
  | cons hit hits ih =>
    unfold retainFresh
    by_cases hpass : passes hit = true
    · rw [if_pos hpass]
      refine ⟨(ih hnodup).1, fun source => ?_⟩
      rw [(ih hnodup).2, List.exists_mem_cons_iff, hpass]
      simp
    · rw [if_neg hpass]
      have hfalse := Bool.eq_false_iff.mpr hpass
      by_cases hseen : hit.source ∈ staleSources
      · rw [if_pos (List.contains_iff_mem.mpr hseen)]
        refine ⟨(ih hnodup).1, fun source => ?_⟩
        rw [(ih hnodup).2, List.exists_mem_cons_iff]
        constructor
        · exact fun h => h.imp_right Or.inr
        · rintro (h | ⟨rfl, -⟩ | h)
          · exact Or.inl h
          · exact Or.inl hseen
          · exact Or.inr h
      · rw [if_neg (mt List.contains_iff_mem.mp hseen)]
        have hmore : (staleSources ++ [hit.source]).Nodup :=
          List.nodup_append_comm.mp (List.nodup_cons.mpr ⟨hseen, hnodup⟩)
        refine ⟨(ih hmore).1, fun source => ?_⟩
        rw [(ih hmore).2, List.exists_mem_cons_iff, List.mem_append, List.mem_singleton,
          or_assoc, eq_comm]
        simp [hfalse]

/-! ## The gate -/

theorem filter_map_annotate (synced : SyncedMap) (p : String → Bool) (hits : List SyncedHit) :
    (hits.map (annotate synced)).filter (fun h => p h.source) =
      (hits.filter fun h => p h.source).map (annotate synced) := by
  rw [List.filter_map]
  rfl

/-- The outcome in terms of the verdicts. -/
theorem gate_eq (hits : List SyncedHit) (synced : SyncedMap) (now : Time) (k : Nat) (m : UInt64) :
    let out := annotateAndGate hits synced (some m) now k
    out.hits =
        ((hits.filter fun h => passesAt synced now m h.source).map (annotate synced)).take k ∧
      out.dropped = (hits.filter fun h => !passesAt synced now m h.source).length ∧
      out.staleSources.Pairwise (· < ·) ∧
      ∀ source, source ∈ out.staleSources ↔
        ∃ h ∈ hits, h.source = source ∧ passesAt synced now m source = false := by
  have hkept := retainFresh_fst (fun h => passesAt synced now m h.source)
    (hits.map (annotate synced)) []
  obtain ⟨hnodup, hmem⟩ := retainFresh_snd (fun h => passesAt synced now m h.source)
    (hits.map (annotate synced)) List.nodup_nil
  rw [filter_map_annotate] at hkept
  refine ⟨congrArg (List.take k) hkept, ?_, ?_, fun source => ?_⟩
  · have hcount := List.length_eq_length_filter_add (l := hits)
      fun h => passesAt synced now m h.source
    have hdropped : (hits.map (annotate synced)).length -
        ((hits.filter fun h => passesAt synced now m h.source).map (annotate synced)).length =
          (hits.filter fun h => !passesAt synced now m h.source).length := by
      rw [List.length_map, List.length_map]
      omega
    rw [← hdropped, ← hkept]
    rfl
  · have hsorted := List.pairwise_insertionSort (· ≤ ·)
      (retainFresh (fun h => passesAt synced now m h.source) (hits.map (annotate synced)) []).2
    have hdistinct := (List.perm_insertionSort (· ≤ ·) _).nodup_iff.mpr hnodup
    exact hsorted.imp₂ (fun _ _ hle hne => lt_of_le_of_ne hle hne) hdistinct
  · refine (List.mem_insertionSort _).trans ((hmem source).trans ?_)
    constructor
    · rintro (hnil | ⟨h, hmap, rfl, hfails⟩)
      · exact absurd hnil List.not_mem_nil
      · obtain ⟨hit, hhit, rfl⟩ := List.mem_map.mp hmap
        exact ⟨hit, hhit, rfl, hfails⟩
    · rintro ⟨hit, hhit, rfl, hfails⟩
      exact Or.inr ⟨annotate synced hit, List.mem_map_of_mem hhit, rfl, hfails⟩

/-- Every listed heartbeat is judged by its age. -/
def AllJudgedByAge (hits : List SyncedHit) (synced : SyncedMap) (now : Time) (m : UInt64) : Prop :=
  ∀ h ∈ hits, servedLocally h.source = false → ∀ at' ∈ synced h.source, JudgedByAge now m at'

theorem allJudgedByAge_iff :
    AllJudgedByAge hits synced now m ↔
      ∀ h ∈ hits, (passesAt synced now m h.source = true ↔ MayServe synced now m h.source) := by
  refine forall₂_congr fun h _ => ?_
  by_cases hjudged : servedLocally h.source = true ∨ synced h.source = none
  · refine iff_of_true (fun hlocal at' hat => ?_) (passesAt_iff_of_unjudged hjudged)
    rcases hjudged with htrue | hnone
    · exact absurd hlocal (by simp [htrue])
    · rw [hnone] at hat
      exact absurd hat (by simp)
  · obtain ⟨hlocal, hsome⟩ := not_or.mp hjudged
    obtain ⟨at', hat⟩ := Option.ne_none_iff_exists'.mp hsome
    have hfalse := Bool.eq_false_iff.mpr hlocal
    rw [← judgedByAge_iff hfalse hat]
    constructor
    · exact fun h => h hfalse at' hat
    · intro h _ other hother
      obtain rfl := Option.some.inj (hat.symm.trans hother)
      exact h

/-- Filters of a list by two predicates, one within the other, that leave equally much agree. -/
theorem agree_of_length_filter {α : Type} {p q : α → Bool} {xs : List α}
    (hpq : ∀ x, p x = true → q x = true) (hlen : (xs.filter p).length = (xs.filter q).length) :
    ∀ x ∈ xs, p x = q x := by
  have hsub : (xs.filter p).Sublist (xs.filter q) := List.monotone_filter_right xs hpq
  have heq := hsub.eq_of_length hlen
  intro x hx
  by_cases hq : q x = true
  · have hmem : x ∈ xs.filter p := heq ▸ List.mem_filter.mpr ⟨hx, hq⟩
    rw [hq, (List.mem_filter.mp hmem).2]
  · rw [Bool.eq_false_iff.mpr hq, Bool.eq_false_iff.mpr fun hp => hq (hpq x hp)]

theorem filtersExactly_of_judged (h : AllJudgedByAge hits synced now m) (k : Nat) :
    FiltersExactly hits synced now k m := by
  rw [allJudgedByAge_iff] at h
  have hagree : ∀ hit ∈ hits, passesAt synced now m hit.source =
      decide (MayServe synced now m hit.source) := by
    intro hit hhit
    rw [Bool.eq_iff_iff, decide_eq_true_eq]
    exact h hit hhit
  obtain ⟨hserved, hcounted, hsorted, hreported⟩ := gate_eq hits synced now k m
  refine ⟨?_, ?_, hsorted, fun source => ?_⟩
  · rw [hserved, filter_map_annotate synced fun source => decide (MayServe synced now m source),
      List.filter_congr hagree]
  · rw [hcounted]
    congr 1
    exact List.filter_congr fun hit hhit => by rw [hagree hit hhit]
  · rw [hreported]
    refine exists_congr fun hit => and_congr_right fun hhit => and_congr_right fun hsource => ?_
    rw [← hsource, ← Bool.not_eq_true, h hit hhit]

theorem judged_of_filtersExactly {k : Nat} (h : FiltersExactly hits synced now k m) :
    AllJudgedByAge hits synced now m := by
  have hcounted := (gate_eq hits synced now k m).2.1
  rw [h.counted] at hcounted
  have hagree : ∀ hit ∈ hits, (!decide (MayServe synced now m hit.source)) =
      !passesAt synced now m hit.source := by
    by_cases hm : m.toNat < 9223372036854775808
    · have hmore : ∀ hit : SyncedHit, (!passesAt synced now m hit.source) = true →
          (!decide (MayServe synced now m hit.source)) = true := by
        intro hit hfails
        rw [Bool.not_eq_true', decide_eq_false_iff_not]
        intro hserve
        rw [passesAt_of_mayServe hm hserve] at hfails
        exact absurd hfails (by simp)
      exact fun hit hhit => (agree_of_length_filter hmore hcounted.symm hit hhit).symm
    · have hmore : ∀ hit : SyncedHit, (!decide (MayServe synced now m hit.source)) = true →
          (!passesAt synced now m hit.source) = true := by
        intro hit hfails
        rw [Bool.not_eq_true', decide_eq_false_iff_not] at hfails
        rw [Bool.not_eq_true', ← Bool.not_eq_true]
        exact fun hpass => hfails (mayServe_of_passesAt (not_lt.mp hm) hpass)
      exact agree_of_length_filter hmore hcounted
  rw [allJudgedByAge_iff]
  intro hit hhit
  have hsame := Bool.not_inj (hagree hit hhit)
  rw [← hsame, decide_eq_true_eq]

/-- A greater bound takes no hit away and drops no more. -/
def MonotoneIn (hits : List SyncedHit) (synced : SyncedMap) (now : Time) (k : Nat)
    (m m' : UInt64) : Prop :=
  (∀ h ∈ hits, passesAt synced now m h.source = true → passesAt synced now m' h.source = true) ∧
    (annotateAndGate hits synced (some m') now k).dropped ≤
      (annotateAndGate hits synced (some m) now k).dropped

theorem MayServe.mono (h : MayServe synced now m source) (hle : m ≤ m') :
    MayServe synced now m' source := by
  rcases h with hexempt | ⟨at', hat, hage⟩
  · exact Or.inl hexempt
  · refine Or.inr ⟨at', hat, hage.trans ?_⟩
    have hnat : m.toNat ≤ m'.toNat := UInt64.le_iff_toNat_le.mp hle
    unfold micros
    omega

theorem monotoneIn_of_judged (hle : m ≤ m') (h : AllJudgedByAge hits synced now m)
    (h' : AllJudgedByAge hits synced now m') (k : Nat) : MonotoneIn hits synced now k m m' := by
  have hserved : ∀ hit ∈ hits, passesAt synced now m hit.source = true →
      passesAt synced now m' hit.source = true := by
    intro hit hhit hpass
    have hserve := (allJudgedByAge_iff.mp h hit hhit).mp hpass
    exact (allJudgedByAge_iff.mp h' hit hhit).mpr (hserve.mono hle)
  refine ⟨hserved, ?_⟩
  rw [(gate_eq hits synced now k m').2.1, (gate_eq hits synced now k m).2.1,
    ← List.countP_eq_length_filter, ← List.countP_eq_length_filter]
  refine List.countP_mono_left fun hit hhit hfails => ?_
  rw [Bool.not_eq_true', ← Bool.not_eq_true] at hfails ⊢
  exact fun hpass => hfails (hserved hit hhit hpass)

/-- The gate filters exactly when every listed heartbeat is judged by its age, and is monotone
between any two bounds at which it does. -/
theorem gate_exact_iff (hits : List SyncedHit) (synced : SyncedMap) (now : Time) (k : Nat) :
    (∀ m, FiltersExactly hits synced now k m ↔ AllJudgedByAge hits synced now m) ∧
      ∀ m m', m ≤ m' → AllJudgedByAge hits synced now m → AllJudgedByAge hits synced now m' →
        MonotoneIn hits synced now k m m' :=
  ⟨fun _ => ⟨judged_of_filtersExactly, fun h => filtersExactly_of_judged h k⟩,
    fun _ _ hle h h' => monotoneIn_of_judged hle h h' k⟩

/-! ## The bound of a recall -/

theorem effectiveMaxSecs_le {maxSecs requested : Option UInt64} (hm : m ∈ maxSecs ∨ m ∈ requested) :
    ∃ m' ∈ effectiveMaxSecs maxSecs requested, m' ≤ m := by
  unfold effectiveMaxSecs
  rcases hm with rfl | rfl
  · cases requested with
    | none => exact ⟨m, rfl, UInt64.le_refl m⟩
    | some r => exact ⟨min r m, rfl, by rw [UInt64.min_def]; split <;> grind⟩
  · cases maxSecs with
    | none => exact ⟨m, rfl, UInt64.le_refl m⟩
    | some e => exact ⟨min m e, rfl, by rw [UInt64.min_def]; split <;> grind⟩

theorem passesAt_mono (hle : m' ≤ m) (hsigned : m.toNat < 9223372036854775808)
    (h : passesAt synced now m' source = true) : passesAt synced now m source = true := by
  by_cases hunjudged : servedLocally source = true ∨ synced source = none
  · rw [passesAt_iff_of_unjudged hunjudged] at h ⊢
    exact h.mono hle
  · obtain ⟨hlocal, hsome⟩ := not_or.mp hunjudged
    obtain ⟨at', hat⟩ := Option.ne_none_iff_exists'.mp hsome
    rw [passesAt_of_heartbeat (Bool.eq_false_iff.mpr hlocal) hat] at h ⊢
    have hnat : m'.toNat ≤ m.toNat := UInt64.le_iff_toNat_le.mp hle
    rw [u64AsI64_of_lt (by omega)] at h
    rw [u64AsI64_of_lt hsigned]
    omega

/-- What a recall answers with meets both bounds, the one of the deployment and the one of the
request, and is at most a hundred hits. -/
theorem recallFresh_meets_both (fetch : Nat → List SyncedHit) (synced : SyncedMap)
    (maxSecs requested : Option UInt64) (now : Time) (k : Nat)
    (hfetch : ∀ n, (fetch n).length ≤ n) :
    (recallFresh fetch synced maxSecs requested now k).hits.length ≤ min k 100 ∧
      ∀ hit ∈ (recallFresh fetch synced maxSecs requested now k).hits, ∀ m,
        m ∈ maxSecs ∨ m ∈ requested → m.toNat < 9223372036854775808 →
          passesAt synced now m hit.source = true := by
  unfold recallFresh
  cases heffective : effectiveMaxSecs maxSecs requested with
  | none =>
    refine ⟨?_, fun hit _ m hm => ?_⟩
    · simpa [annotateAndGate] using hfetch (min k 100)
    · obtain ⟨m', hm', -⟩ := effectiveMaxSecs_le hm
      rw [heffective] at hm'
      cases hm'
  | some max =>
    obtain ⟨hserved, -⟩ := gate_eq (fetch (min (min k 100 * 2) 100)) synced now (min k 100) max
    simp only [Option.isSome_some, if_true]
    rw [hserved]
    refine ⟨List.length_take_le _ _, fun hit hhit m hm hsigned => ?_⟩
    obtain ⟨m', hm', hle⟩ := effectiveMaxSecs_le hm
    obtain rfl := Option.some.inj (heffective.symm.trans hm')
    obtain ⟨found, hfound, rfl⟩ := List.mem_map.mp (List.mem_of_mem_take hhit)
    exact passesAt_mono hle hsigned (List.mem_filter.mp hfound).2

/-- A hit of a drive. -/
def driveHit : SyncedHit where
  chunkId := 1
  source := "gdrive"
  documentId := "note"
  seq := 0
  content := "pricing"
  entityTags := []
  kind := "content"
  aclProvenance := .mirrored
  trustTier := .observation
  validFrom := 0
  provenance := 0
  sourceSyncedAt := none

/-- The drive beat at the start. -/
def beatAtStart : SyncedMap := fun source => if source = "gdrive" then some 0 else none

/-- One second after the heartbeat the greatest bounds drop the hit that a bound of a minute
serves, and a bound of ten seconds serves it half a second too long. -/
theorem great_bound_drops :
    (annotateAndGate [driveHit] beatAtStart (some 60) (seconds 1) 8).dropped = 0 ∧
      (annotateAndGate [driveHit] beatAtStart (some 9223372036854775808) (seconds 1) 8).dropped =
        1 ∧
      ¬ FiltersExactly [driveHit] beatAtStart (seconds 1) 8 9223372036854775808 ∧
      ¬ MonotoneIn [driveHit] beatAtStart (seconds 1) 8 60 9223372036854775808 ∧
      ¬ FiltersExactly [driveHit] beatAtStart 10500000 8 10 := by
  have hlow : (annotateAndGate [driveHit] beatAtStart (some 60) (seconds 1) 8).dropped = 0 := by
    decide +kernel
  have hgreat : (annotateAndGate [driveHit] beatAtStart (some 9223372036854775808)
      (seconds 1) 8).dropped = 1 := by decide +kernel
  refine ⟨hlow, hgreat, fun h => ?_, fun h => ?_, fun h => ?_⟩
  · have hjudged := judged_of_filtersExactly h driveHit (List.mem_singleton_self _) (by decide)
      0 (by decide)
    revert hjudged
    unfold JudgedByAge
    decide +kernel
  · have hle := h.2
    rw [hlow, hgreat] at hle
    exact absurd hle (by decide)
  · have hjudged := judged_of_filtersExactly h driveHit (List.mem_singleton_self _) (by decide)
      0 (by decide)
    revert hjudged
    unfold JudgedByAge
    decide +kernel

end Verity.Analysis
