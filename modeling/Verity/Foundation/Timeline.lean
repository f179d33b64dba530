import Mathlib.Data.List.MinMax
import Mathlib.Data.List.Pairwise
import Mathlib.Data.List.Perm.Basic

/-!
# Timelines

A finite set of stamped entries, listed in any order, describes a value that changes over
time: at an instant, the entry that holds is the one with the greatest stamp not after it
(`latestAt`), and now it is the one with the greatest stamp of all (`latest`). Neither
depends on the order of the list when the stamps are distinct.

A store keeps such a timeline as rows with validity intervals, and looks up the row that began last
among those that hold an instant. `CoarseTable.held_eq` says when that reads the values of the
timeline: it is enough that every interval ends at the stamp of some later entry. The intervals
need not be disjoint, nor end at the next entry; one row may stand for several entries, and several
rows for one.

The rows may be stamped more coarsely than the entries, by a monotone `cut`. Then the store answers
alike at all instants of one cut, and `cutsWell_of_answers` and `CoarseTable.latestAt_eq` say
together for which entries this is right.

A table may hold more rows than those of another, which cover its intervals. `Overlay.held_eq` says
when the lookup does not see them.

A reader may be shown some of the rows only. `latest_shown_current_iff` says when the lookup among
these never answers a row after another one, shown or not, has begun.
-/

set_option autoImplicit false

namespace Verity.Foundation

variable {α ρ T : Type} [LinearOrder T]

variable {l : List α} {t : T} {r : ρ} {e : α}

/-- The entry with the greatest stamp. -/
def latest (stamp : α → T) (l : List α) : Option α := l.argmax stamp

/-- The entry with the greatest stamp not after `t`. -/
def latestAt (stamp : α → T) (t : T) (l : List α) : Option α :=
  (l.filter fun a => stamp a ≤ t).argmax stamp

/-- Distinct entries of the list have distinct stamps. -/
def StampsDistinct (stamp : α → T) (l : List α) : Prop :=
  l.Pairwise fun a b => stamp a ≠ stamp b

omit [LinearOrder T] in
theorem StampsDistinct.eq_of_stamp_eq {stamp : α → T} (h : StampsDistinct stamp l) {a b : α}
    (ha : a ∈ l) (hb : b ∈ l) (hab : stamp a = stamp b) : a = b := by
  have : Std.Symm fun a b : α => stamp a ≠ stamp b := ⟨fun _ _ hne => hne.symm⟩
  by_contra hne
  exact h.forall ha hb hne hab

omit [LinearOrder T] in
theorem StampsDistinct.perm {stamp : α → T} {l' : List α} (h : StampsDistinct stamp l)
    (hp : l.Perm l') : StampsDistinct stamp l' :=
  hp.pairwise h fun hne => hne.symm

/-- An entry that no other entry of the list exceeds is the one `argmax` finds. -/
theorem argmax_eq_some_of_le {stamp : α → T} {m : α} (hinj : ∀ a ∈ l, stamp a = stamp m → a = m)
    (hm : m ∈ l) (hmax : ∀ a ∈ l, stamp a ≤ stamp m) : l.argmax stamp = some m := by
  cases harg : l.argmax stamp with
  | none =>
    rw [List.argmax_eq_none] at harg
    subst harg
    simp at hm
  | some n =>
    have hn : n ∈ l := List.argmax_mem harg
    have hle : stamp m ≤ stamp n := List.le_of_mem_argmax hm harg
    rw [hinj n hn (le_antisymm (hmax n hn) hle)]

/-- The timeline at `t`, characterized: the entry is not after `t` and no entry that is not
after `t` exceeds it. -/
theorem latestAt_eq_some_iff {stamp : α → T} (h : StampsDistinct stamp l) (t : T) (m : α) :
    latestAt stamp t l = some m ↔
      m ∈ l ∧ stamp m ≤ t ∧ ∀ a ∈ l, stamp a ≤ t → stamp a ≤ stamp m := by
  constructor
  · intro hm
    have hmem := List.argmax_mem hm
    rw [List.mem_filter, decide_eq_true_iff] at hmem
    refine ⟨hmem.1, hmem.2, ?_⟩
    intro a ha hat
    exact List.le_of_mem_argmax (List.mem_filter.mpr ⟨ha, by simpa using hat⟩) hm
  · rintro ⟨hm, hmt, hmax⟩
    apply argmax_eq_some_of_le
    · intro a ha heq
      exact h.eq_of_stamp_eq (List.mem_of_mem_filter ha) hm heq
    · exact List.mem_filter.mpr ⟨hm, by simpa using hmt⟩
    · intro a ha
      rw [List.mem_filter, decide_eq_true_iff] at ha
      exact hmax a ha.1 ha.2

theorem latestAt_eq_none_iff {stamp : α → T} (t : T) :
    latestAt stamp t l = none ↔ ∀ a ∈ l, t < stamp a := by
  unfold latestAt
  rw [List.argmax_eq_none, List.filter_eq_nil_iff]
  simp

/-- Whether an interval that begins at `start` and ends before `stop` holds `t`. -/
def holds (start : ρ → T) (stop : ρ → Option T) (t : T) (r : ρ) : Bool :=
  decide (start r ≤ t) &&
    (match stop r with
      | none => true
      | some x => decide (t < x))

theorem holds_iff {start : ρ → T} {stop : ρ → Option T} :
    holds start stop t r = true ↔ start r ≤ t ∧ ∀ x, stop r = some x → t < x := by
  unfold holds
  cases stop r with
  | none => simp
  | some x => simp

/-- A table of intervals over a timeline of values, kept more coarsely: entries of one value that
follow each other may share a row, and any entry may have further rows. Every row begins at an
entry of its value, and every entry lies in a row that holds its value from the start up to the
entry and ends, if at all, at a later entry. -/
structure CoarseTable {V : Type} (start : ρ → T) (stop : ρ → Option T) (stamp : α → T)
    (held : ρ → V) (carried : α → V) (rows : List ρ) (entries : List α) : Prop where
  entry_of_row : ∀ r ∈ rows, ∃ e ∈ entries, stamp e = start r ∧ carried e = held r
  row_of_entry : ∀ e ∈ entries, ∃ r ∈ rows, start r ≤ stamp e ∧
    (∀ e' ∈ entries, start r ≤ stamp e' → stamp e' ≤ stamp e → carried e' = carried e) ∧
    ∀ x, stop r = some x → stamp e < x ∧ ∃ e' ∈ entries, stamp e' = x

section Coarse

variable {V : Type} {start : ρ → T} {stop : ρ → Option T} {stamp : α → T} {held : ρ → V}
  {carried : α → V} {rows : List ρ} {entries : List α}

/-- The row of an entry holds every instant at which the entry is the latest. -/
theorem CoarseTable.exists_holding (h : CoarseTable start stop stamp held carried rows entries)
    (he : e ∈ entries) (het : stamp e ≤ t) (hmax : ∀ a ∈ entries, stamp a ≤ t → stamp a ≤ stamp e) :
    ∃ r ∈ rows, holds start stop t r = true ∧
      ∀ e' ∈ entries, start r ≤ stamp e' → stamp e' ≤ stamp e → carried e' = carried e := by
  obtain ⟨r, hr, hle, hvalue, hstop⟩ := h.row_of_entry e he
  refine ⟨r, hr, holds_iff.mpr ⟨hle.trans het, fun x hx => ?_⟩, hvalue⟩
  obtain ⟨hlt, e', he', rfl⟩ := hstop x hx
  by_contra hnot
  exact absurd hlt (not_lt.mpr (hmax e' he' (not_lt.mp hnot)))

/-- Of the entries up to an instant, one is the latest. -/
theorem exists_latest_le (he : e ∈ entries) (het : stamp e ≤ t) :
    ∃ m ∈ entries, stamp m ≤ t ∧ ∀ a ∈ entries, stamp a ≤ t → stamp a ≤ stamp m := by
  cases hlast : latestAt stamp t entries with
  | none =>
    rw [latestAt_eq_none_iff] at hlast
    exact absurd het (not_le.mpr (hlast e he))
  | some m =>
    obtain ⟨hm, hmt⟩ := List.mem_filter.mp (List.argmax_mem hlast)
    refine ⟨m, hm, of_decide_eq_true hmt, fun a ha hat => ?_⟩
    exact List.le_of_mem_argmax (List.mem_filter.mpr ⟨ha, decide_eq_true hat⟩) hlast

/-- Before the first entry no row holds, and after it some row does. -/
theorem CoarseTable.filter_holds_eq_nil_iff
    (h : CoarseTable start stop stamp held carried rows entries) (t : T) :
    rows.filter (holds start stop t) = [] ↔ ∀ e ∈ entries, t < stamp e := by
  rw [List.filter_eq_nil_iff]
  constructor
  · intro hnil e he
    by_contra hle
    obtain ⟨m, hm, hmt, hmax⟩ := exists_latest_le he (not_lt.mp hle)
    obtain ⟨r, hr, hholds, -⟩ := h.exists_holding hm hmt hmax
    exact hnil r hr hholds
  · intro hlater r hr hholds
    obtain ⟨e, he, hes, -⟩ := h.entry_of_row r hr
    exact absurd (holds_iff.mp hholds).1 (not_le.mpr (hes ▸ hlater e he))

/-- Whichever row that holds `t` began last, its value is that of an entry that is the latest
at `t`. -/
theorem CoarseTable.held_eq (h : CoarseTable start stop stamp held carried rows entries)
    (hr : r ∈ rows.filter (holds start stop t))
    (hlast : ∀ r' ∈ rows.filter (holds start stop t), start r' ≤ start r) (he : e ∈ entries)
    (het : stamp e ≤ t) (hmax : ∀ a ∈ entries, stamp a ≤ t → stamp a ≤ stamp e) :
    held r = carried e := by
  obtain ⟨hr, hholds⟩ := List.mem_filter.mp hr
  obtain ⟨e', he', hes', hev'⟩ := h.entry_of_row r hr
  have hrt : start r ≤ t := (holds_iff.mp hholds).1
  obtain ⟨r₀, hr₀, hholds₀, hvalue⟩ := h.exists_holding he het hmax
  have hstart : start r₀ ≤ start r := hlast r₀ (List.mem_filter.mpr ⟨hr₀, hholds₀⟩)
  -- the row began between the start of the entry's run and the entry
  have hsame : carried e' = carried e := by
    apply hvalue e' he'
    · rw [hes']
      exact hstart
    · apply hmax e' he'
      rw [hes']
      exact hrt
  rw [← hsame, hev']

end Coarse

section Cut

variable {S V : Type} [LinearOrder S] {cut : S → T} {start : ρ → T} {stop : ρ → Option T}
  {stamp : α → S} {held : ρ → V} {carried : α → V} {rows : List ρ} {entries : List α}

/-- The entries of one cut stamp carry one value, and begin with the first instant of that stamp. -/
structure CutsWell (cut : S → T) (stamp : α → S) (carried : α → V) (entries : List α) : Prop where
  same : ∀ a ∈ entries, ∀ b ∈ entries, cut (stamp a) = cut (stamp b) → carried a = carried b
  first : ∀ a ∈ entries, ∃ b ∈ entries, cut (stamp b) = cut (stamp a) ∧
    ∀ x, cut x = cut (stamp a) → stamp b ≤ x

/-- Where every instant of one cut is to be answered alike and each value is of one cut, the
entries cut well. -/
theorem cutsWell_of_answers (hdist : StampsDistinct stamp entries)
    (hvalue : ∀ a ∈ entries, ∀ b ∈ entries, carried a = carried b → cut (stamp a) = cut (stamp b))
    (hanswers : ∀ t t', cut t = cut t' →
      (latestAt stamp t entries).map carried = (latestAt stamp t' entries).map carried) :
    CutsWell cut stamp carried entries := by
  have hself : ∀ a ∈ entries, latestAt stamp (stamp a) entries = some a := fun a ha =>
    (latestAt_eq_some_iff hdist _ _).mpr ⟨ha, le_refl _, fun _ _ h => h⟩
  constructor
  · intro a ha b hb hab
    have hsame := hanswers _ _ hab
    rw [hself a ha, hself b hb] at hsame
    exact Option.some.inj hsame
  · intro a ha
    cases hleast :
      (entries.filter fun e => decide (cut (stamp e) = cut (stamp a))).argmin stamp with
    | none =>
      rw [List.argmin_eq_none, List.filter_eq_nil_iff] at hleast
      exact absurd (decide_eq_true rfl) (hleast a ha)
    | some b =>
      obtain ⟨hb, hba⟩ := List.mem_filter.mp (List.argmin_mem hleast)
      refine ⟨b, hb, of_decide_eq_true hba, fun x hx => ?_⟩
      by_contra hlt
      have hanswer := hanswers x (stamp b) (hx.trans (of_decide_eq_true hba).symm)
      rw [hself b hb, Option.map_some, Option.map_eq_some_iff] at hanswer
      -- what is answered at the earlier instant is an entry of the same cut, before the first
      obtain ⟨e, he, hev⟩ := hanswer
      obtain ⟨hmem, hex, -⟩ := (latestAt_eq_some_iff hdist _ _).mp he
      have hea : cut (stamp e) = cut (stamp a) :=
        (hvalue e hmem b hb hev).trans (of_decide_eq_true hba)
      have hle := List.le_of_mem_argmin (List.mem_filter.mpr ⟨hmem, decide_eq_true hea⟩) hleast
      exact absurd (hle.trans hex) hlt

/-- A table that is stamped by cutting answers as the timeline of the entries does, where they cut
well. -/
theorem CoarseTable.latestAt_eq
    (h : CoarseTable start stop (fun e => cut (stamp e)) held carried rows entries)
    (hcut : Monotone cut) (hwell : CutsWell cut stamp carried entries)
    (hdist : StampsDistinct stamp entries) {t : S} (hr : r ∈ rows.filter (holds start stop (cut t)))
    (hlast : ∀ r' ∈ rows.filter (holds start stop (cut t)), start r' ≤ start r) :
    (latestAt stamp t entries).map carried = some (held r) := by
  obtain ⟨hmem, hholds⟩ := List.mem_filter.mp hr
  obtain ⟨e', he', hes', -⟩ := h.entry_of_row r hmem
  have hbegun : cut (stamp e') ≤ cut t := by
    rw [hes']
    exact (holds_iff.mp hholds).1
  obtain ⟨m, hm, hmt, hmax⟩ :=
    @exists_latest_le α T _ (cut t) e' (fun e => cut (stamp e)) entries he' hbegun
  -- the entry's cut has begun by `t`, with an entry that has begun too
  obtain ⟨b, hb, hbm, hfirst⟩ := hwell.first m hm
  have hbt : stamp b ≤ t := by
    rcases hmt.lt_or_eq with hlt | heq
    · rw [← hbm] at hlt
      exact (hcut.reflect_lt hlt).le
    · exact hfirst t heq.symm
  obtain ⟨e, he, het, hemax⟩ := exists_latest_le hb hbt
  have hem : cut (stamp e) = cut (stamp m) := by
    refine le_antisymm (hmax e he (hcut het)) ?_
    rw [← hbm]
    exact hcut (hemax b hb hbt)
  rw [(latestAt_eq_some_iff hdist t e).mpr ⟨he, het, hemax⟩, Option.map_some,
    hwell.same e he m hm hem, h.held_eq hr hlast hm hmt hmax]

/-- Nothing holds an instant only before the first entry. -/
theorem CoarseTable.latestAt_eq_none
    (h : CoarseTable start stop (fun e => cut (stamp e)) held carried rows entries)
    (hcut : Monotone cut) {t : S} (hnil : rows.filter (holds start stop (cut t)) = []) :
    latestAt stamp t entries = none := by
  rw [latestAt_eq_none_iff]
  intro e he
  exact hcut.reflect_lt ((h.filter_holds_eq_nil_iff _).mp hnil e he)

end Cut

section Overlay

variable {V : Type} {start : ρ → T} {stop : ρ → Option T} {held : ρ → V} {base rows : List ρ}

/-- A table laid over another: it has the rows of the other, and whatever one of its rows holds is
held in the other too, by a row that began later or is of the same value. -/
structure Overlay (start : ρ → T) (stop : ρ → Option T) (held : ρ → V) (base rows : List ρ) :
    Prop where
  row_of_base : ∀ b ∈ base, ∃ r ∈ rows, start r = start b ∧ stop r = stop b ∧ held r = held b
  covered : ∀ r ∈ rows, ∀ t, holds start stop t r = true →
    ∃ b ∈ base, holds start stop t b = true ∧ (start r < start b ∨ held b = held r)

theorem holds_congr {r' : ρ} (hstart : start r = start r') (hstop : stop r = stop r') (t : T) :
    holds start stop t r = holds start stop t r' := by
  unfold holds
  rw [hstart, hstop]

/-- A row that is given an end holds what it held before that end, if it was open or ended no
later. -/
theorem holds_close_iff {r' : ρ} {x : T} (hstart : start r' = start r)
    (hstop : stop r' = (stop r).or (some x)) (hx : ∀ y, stop r = some y → y ≤ x) (t : T) :
    holds start stop t r' = true ↔ holds start stop t r = true ∧ t < x := by
  rw [holds_iff, holds_iff, hstart, hstop]
  cases hend : stop r with
  | none => simp
  | some y =>
    have hyx := hx y hend
    simp only [Option.some_or, Option.some.injEq, forall_eq']
    exact ⟨fun h => ⟨h, h.2.trans_le hyx⟩, And.left⟩

/-- Where the other table holds each instant once, a row that began last is of the value that is
held there. -/
theorem Overlay.held_eq (h : Overlay start stop held base rows)
    (hone : ∀ b ∈ base, ∀ b' ∈ base, holds start stop t b = true → holds start stop t b' = true →
      held b = held b') {b : ρ} (hr : r ∈ rows.filter (holds start stop t))
    (hlast : ∀ r' ∈ rows.filter (holds start stop t), start r' ≤ start r)
    (hb : b ∈ base.filter (holds start stop t)) : held r = held b := by
  obtain ⟨hr, hholds⟩ := List.mem_filter.mp hr
  obtain ⟨hb, hbholds⟩ := List.mem_filter.mp hb
  obtain ⟨b', hb', hholds', hlt | hsame⟩ := h.covered r hr t hholds
  · obtain ⟨r', hr', hstart, hstop, -⟩ := h.row_of_base b' hb'
    have hle := hlast r' (List.mem_filter.mpr ⟨hr', by rw [holds_congr hstart hstop, hholds']⟩)
    rw [hstart] at hle
    exact absurd hlt (not_lt.mpr hle)
  · rw [← hsame]
    exact hone b' hb' b hb hholds' hbholds

theorem Overlay.filter_holds_eq_nil_iff (h : Overlay start stop held base rows) (t : T) :
    rows.filter (holds start stop t) = [] ↔ base.filter (holds start stop t) = [] := by
  rw [List.filter_eq_nil_iff, List.filter_eq_nil_iff]
  constructor
  · intro hnil b hb hholds
    obtain ⟨r, hr, hstart, hstop, -⟩ := h.row_of_base b hb
    exact hnil r hr (by rw [holds_congr hstart hstop, hholds])
  · intro hnil r hr hholds
    obtain ⟨b, hb, hbholds, -⟩ := h.covered r hr t hholds
    exact hnil b hb hbholds

/-- One more row of the other table, here too. -/
theorem Overlay.append (h : Overlay start stop held base rows) {b : ρ} (hstart : start r = start b)
    (hstop : stop r = stop b) (hheld : held r = held b) :
    Overlay start stop held (base ++ [b]) (rows ++ [r]) := by
  constructor
  · intro b' hb'
    rcases List.mem_append.mp hb' with hb' | hb'
    · obtain ⟨r', hr', hrest⟩ := h.row_of_base b' hb'
      exact ⟨r', List.mem_append_left _ hr', hrest⟩
    · rw [List.mem_singleton.mp hb']
      exact ⟨r, by simp, hstart, hstop, hheld⟩
  · intro r' hr' t hholds
    rcases List.mem_append.mp hr' with hr' | hr'
    · obtain ⟨b', hb', hrest⟩ := h.covered r' hr' t hholds
      exact ⟨b', List.mem_append_left _ hb', hrest⟩
    · rw [List.mem_singleton.mp hr'] at hholds ⊢
      exact ⟨b, by simp, by rw [← holds_congr hstart hstop, hholds], Or.inr hheld.symm⟩

/-- One more row that is covered. -/
theorem Overlay.lay (h : Overlay start stop held base rows)
    (hcovered : ∀ t, holds start stop t r = true →
      ∃ b ∈ base, holds start stop t b = true ∧ (start r < start b ∨ held b = held r)) :
    Overlay start stop held base (rows ++ [r]) := by
  constructor
  · intro b hb
    obtain ⟨r', hr', hrest⟩ := h.row_of_base b hb
    exact ⟨r', List.mem_append_left _ hr', hrest⟩
  · intro r' hr' t hholds
    rcases List.mem_append.mp hr' with hr' | hr'
    · exact h.covered r' hr' t hholds
    · rw [List.mem_singleton.mp hr'] at hholds ⊢
      exact hcovered t hholds

/-- What is open is closed in both tables, at or after the end of everything that is closed. -/
theorem Overlay.close (h : Overlay start stop held base rows) {x : T} {f g : ρ → ρ}
    (hf : ∀ b ∈ base, start (f b) = start b ∧ held (f b) = held b ∧
      stop (f b) = (stop b).or (some x))
    (hg : ∀ r ∈ rows, start (g r) = start r ∧ held (g r) = held r ∧
      stop (g r) = (stop r).or (some x)) (hx : ∀ r ∈ rows, ∀ y, stop r = some y → y ≤ x) :
    Overlay start stop held (base.map f) (rows.map g) := by
  constructor
  · intro b' hb'
    obtain ⟨b, hb, rfl⟩ := List.mem_map.mp hb'
    obtain ⟨r, hr, hstart, hstop, hheld⟩ := h.row_of_base b hb
    obtain ⟨hfstart, hfheld, hfstop⟩ := hf b hb
    obtain ⟨hgstart, hgheld, hgstop⟩ := hg r hr
    refine ⟨g r, List.mem_map_of_mem hr, ?_, ?_, ?_⟩
    · rw [hgstart, hfstart, hstart]
    · rw [hgstop, hfstop, hstop]
    · rw [hgheld, hfheld, hheld]
  · intro r' hr' t hholds
    obtain ⟨r, hr, rfl⟩ := List.mem_map.mp hr'
    obtain ⟨hgstart, hgheld, hgstop⟩ := hg r hr
    obtain ⟨hholds, htx⟩ := (holds_close_iff hgstart hgstop (hx r hr) t).mp hholds
    obtain ⟨b, hb, hbholds, hrest⟩ := h.covered r hr t hholds
    obtain ⟨hfstart, hfheld, hfstop⟩ := hf b hb
    obtain ⟨r₁, hr₁, -, hstop₁, -⟩ := h.row_of_base b hb
    have hxb : ∀ y, stop b = some y → y ≤ x := fun y hy => hx r₁ hr₁ y (by rw [hstop₁, hy])
    refine ⟨f b, List.mem_map_of_mem hb, ?_, ?_⟩
    · exact (holds_close_iff hfstart hfstop hxb t).mpr ⟨hbholds, htx⟩
    · rw [hgstart, hfstart, hfheld, hgheld]
      exact hrest

end Overlay

section Shown

variable {start : ρ → T} {stop : ρ → Option T} {rows : List ρ} {shown : ρ → Bool}

/-- Where every interval ends at the start of a row, a lookup among the rows that are shown answers
the newest row of all, if any, exactly when each of them is followed, at the start of a row inside
its interval, by one that is shown too. -/
theorem latest_shown_current_iff
    (hstop : ∀ r ∈ rows, ∀ x, stop r = some x → ∃ r' ∈ rows, start r' = x) :
    (∀ t r, latest start (rows.filter fun r => holds start stop t r && shown r) = some r →
      ∀ r' ∈ rows, start r < start r' → t < start r') ↔
    ∀ r ∈ rows, shown r = true → ∀ r' ∈ rows, start r < start r' →
      holds start stop (start r') r = true →
      ∃ s ∈ rows, shown s = true ∧ start s = start r' ∧ holds start stop (start r') s = true := by
  constructor
  · intro hcurrent r hr hshown r' hr' hlt hholds
    have hmem : r ∈ rows.filter fun r => holds start stop (start r') r && shown r :=
      List.mem_filter.mpr ⟨hr, by rw [hholds, hshown]; rfl⟩
    cases hlat : latest start (rows.filter fun r => holds start stop (start r') r && shown r) with
    | none =>
      unfold latest at hlat
      rw [List.argmax_eq_none] at hlat
      rw [hlat] at hmem
      cases hmem
    | some s =>
      obtain ⟨hs, hsel⟩ := List.mem_filter.mp (List.argmax_mem hlat)
      obtain ⟨hsholds, hsshown⟩ := Bool.and_eq_true_iff.mp hsel
      refine ⟨s, hs, hsshown, ?_, hsholds⟩
      refine le_antisymm (holds_iff.mp hsholds).1 (not_lt.mp fun hlt' => ?_)
      exact absurd (hcurrent _ s hlat r' hr' hlt') (lt_irrefl _)
  · intro hcover t r hlat r' hr' hlt
    obtain ⟨hr, hsel⟩ := List.mem_filter.mp (List.argmax_mem hlat)
    obtain ⟨hholds, hshown⟩ := Bool.and_eq_true_iff.mp hsel
    by_contra hle
    -- the last start up to the instant
    obtain ⟨m, hm, hmax⟩ : ∃ m ∈ rows, start m ≤ t ∧ start r < start m ∧
        ∀ a ∈ rows, start a ≤ t → start a ≤ start m := by
      cases hlast : (rows.filter fun a => decide (start a ≤ t)).argmax start with
      | none =>
        rw [List.argmax_eq_none, List.filter_eq_nil_iff] at hlast
        exact absurd (decide_eq_true (not_lt.mp hle)) (hlast r' hr')
      | some m =>
        obtain ⟨hm, hmt⟩ := List.mem_filter.mp (List.argmax_mem hlast)
        have hbound : ∀ a ∈ rows, start a ≤ t → start a ≤ start m := fun a ha hat =>
          List.le_of_mem_argmax (List.mem_filter.mpr ⟨ha, decide_eq_true hat⟩) hlast
        exact ⟨m, hm, of_decide_eq_true hmt, hlt.trans_le (hbound r' hr' (not_lt.mp hle)), hbound⟩
    obtain ⟨hmt, hrm, hmax⟩ := hmax
    have hinside : holds start stop (start m) r = true :=
      holds_iff.mpr ⟨hrm.le, fun x hx => hmt.trans_lt ((holds_iff.mp hholds).2 x hx)⟩
    obtain ⟨s, hs, hsshown, hsm, hsholds⟩ := hcover r hr hshown m hm hrm hinside
    -- its interval does not end before the instant: an end is the start of a row
    have hstill : holds start stop t s = true := by
      refine holds_iff.mpr ⟨hsm ▸ hmt, fun x hx => ?_⟩
      obtain ⟨e, he, rfl⟩ := hstop s hs x hx
      by_contra hend
      exact absurd ((holds_iff.mp hsholds).2 _ hx) (not_lt.mpr (hmax e he (not_lt.mp hend)))
    have hle' : start s ≤ start r :=
      List.le_of_mem_argmax (List.mem_filter.mpr ⟨hs, by rw [hstill, hsshown]; rfl⟩) hlat
    rw [hsm] at hle'
    exact absurd hrm (not_lt.mpr hle')

end Shown

end Verity.Foundation
