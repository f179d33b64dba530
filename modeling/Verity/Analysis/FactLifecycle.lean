import Verity.Analysis.FactUpsert
import Verity.Foundation.Run
import Verity.Model.Retirement

/-!
# The life of a fact

What a run of fact calls can do to a row: a write opens one, a newer write of the key closes it
and links it to its successor, and `retire_entity` and `forget` close it with a stamp of their
own. `facts_factStep_cases` says so once; both results below are read off it.

The guard against late events compares with the current row of the key. A deletion leaves the key
without one, so a late event brings a deleted key back exactly when nothing newer has been written
to it since (`deleted_stays_deleted_iff`). And the stamps of `retire_entity` and `forget` are not
compared with the start of what they close, while an event is compared by the nanosecond with a
start that is kept by the microsecond. So the table is free of inverted intervals, and each
superseded row starts before its successor, exactly in the runs in which each stamp is late enough
and no event supersedes a row of its own microsecond (`wellTimed_iff`).
-/

set_option autoImplicit false

namespace Verity.Analysis

open Verity.Foundation
open Verity.Model
open Verity.Model.Database

variable {p : FactRow → Bool} {r : FactRow} {db db' : Database} {call : FactCall}
  {t t' : FactTable} {now : Time} {fact : FactWrite} {o : FactUpsertOutcome}

/-! ## What a call does to the facts -/

/-- The stamp of a call that closes facts, and which of the current rows it selects. -/
def closing : FactCall → Option (Time × (FactRow → Bool))
  | .retireEntity tenant source entityId deletedAt =>
    some (deletedAt.stored, fun r =>
      decide (r.tenantId = tenant ∧ r.key.source = source ∧ r.key.entityId = entityId))
  | .forget now tenant (.episode episodeId) =>
    some (now, fun r => decide (r.tenantId = tenant ∧ r.provenance = episodeId))
  | _ => none

/-- A current row that is selected gets the stamp. -/
def stampRow (stamp : Time) (p : FactRow → Bool) (r : FactRow) : FactRow :=
  if p r && decide (r.validTo = none) then { r with validTo := some stamp } else r

theorem stampRow_of_closed {stamp : Time} (h : r.validTo ≠ none) : stampRow stamp p r = r := by
  unfold stampRow
  rw [if_neg]
  simp [h]

theorem stampRow_of_selected {stamp : Time} (hcur : r.validTo = none) (hp : p r = true) :
    stampRow stamp p r = { r with validTo := some stamp } := by
  unfold stampRow
  rw [if_pos]
  simp [hcur, hp]

theorem stampRow_of_not_selected {stamp : Time} (hp : p r = false) : stampRow stamp p r = r := by
  unfold stampRow
  rw [if_neg]
  simp [hp]

/-- A stamp changes nothing but the end of validity. -/
theorem stampRow_keeps (stamp : Time) (p : FactRow → Bool) (r : FactRow) :
    ∃ validTo, stampRow stamp p r = { r with validTo := validTo } := by
  unfold stampRow
  split
  · exact ⟨_, rfl⟩
  · exact ⟨r.validTo, rfl⟩

/-- A write of the database is one of its facts. -/
theorem upsertFact_database (db : Database) (now : Time) (fact : FactWrite) :
    ∃ t o, db.upsertFact now fact = .ok ({ db with facts := t }, o) ∧
      Upserted db.facts now fact t.rows o := by
  obtain ⟨t, o, hok, hup⟩ := upsertFact_spec db.facts now fact
  refine ⟨t, o, ?_, hup⟩
  unfold Database.upsertFact
  rw [hok]
  rfl

/-- A call writes one event, stamps the rows it closes, or leaves the facts alone. -/
theorem facts_factStep_cases (h : db.factStep call = some db') :
    (∃ now fact o, call = .upsertFact now fact ∧ Upserted db.facts now fact db'.facts.rows o) ∨
    (∃ stamp p, closing call = some (stamp, p) ∧
      db'.facts.rows = db.facts.rows.map (stampRow stamp p)) ∨
    ((∀ now fact, call ≠ .upsertFact now fact) ∧ closing call = none ∧ db'.facts = db.facts) := by
  cases call with
  | upsertFact now fact =>
    obtain ⟨t, o, hok, hup⟩ := upsertFact_database db now fact
    simp only [factStep, hok] at h
    cases h
    exact Or.inl ⟨now, fact, o, rfl, hup⟩
  | retireEntity tenant source entityId deletedAt =>
    cases h
    exact Or.inr (Or.inl ⟨_, _, rfl, rfl⟩)
  | forget now tenant ref =>
    cases h
    rw [facts_forget]
    cases ref with
    | chunk chunkId => exact Or.inr (Or.inr ⟨fun _ _ => nofun, rfl, rfl⟩)
    | episode episodeId => exact Or.inr (Or.inl ⟨_, _, rfl, rfl⟩)
  | currentFact _ _ | factAsOf _ _ _ =>
    cases h
    exact Or.inr (Or.inr ⟨fun _ _ => nofun, rfl, rfl⟩)

/-- No call fails. -/
theorem run_factStep (db : Database) (calls : List FactCall) :
    ∃ db', run factStep db calls = some db' := by
  refine run_total (fun db call => ?_) db calls
  cases call with
  | upsertFact now fact =>
    obtain ⟨t, o, hok, -⟩ := upsertFact_database db now fact
    exact ⟨{ db with facts := t }, by simp only [factStep, hok]⟩
  | _ => exact ⟨_, rfl⟩

/-! ## Inverted intervals -/

/-- No row ends before it starts: the condition `fsck` reports. SOURCE: postgres.rs:2963-2977 -/
def NotInverted (t : FactTable) : Prop :=
  ∀ r ∈ t.rows, ∀ validTo, r.validTo = some validTo → r.validFrom ≤ validTo

/-- A row that was superseded points at a row of its key that starts later. -/
def SupersededForward (t : FactTable) : Prop :=
  ∀ r ∈ t.rows, ∀ newId, r.supersededBy = some newId →
    ∃ r' ∈ t.rows, r'.id = newId ∧ r'.tenantId = r.tenantId ∧ r'.key = r.key ∧
      r.validFrom < r'.validFrom

/-- Each key has at most one current row. -/
def OneCurrent (t : FactTable) : Prop :=
  ∀ r ∈ t.rows, ∀ r' ∈ t.rows, r.validTo = none → r'.validTo = none →
    r.tenantId = r'.tenantId → r.key = r'.key → r = r'

/-- The stamp of the call is not before the start of a row it closes. -/
def StampsInOrder (db : Database) (call : FactCall) : Prop :=
  ∀ stamp p, closing call = some (stamp, p) →
    ∀ r ∈ db.facts.rows, r.validTo = none → p r = true → r.validFrom ≤ stamp

/-- An event of another value than the current one, stored at the microsecond the current row starts
at, is not after the beginning of that microsecond: it does not supersede the row. -/
def StartsApart (t : FactTable) (fact : FactWrite) : Prop :=
  ∀ cur, t.currentRow fact.tenantId fact.key = some cur → cur.value ≠ fact.value →
    cur.validFrom = fact.start → fact.validFrom ≤ (cur.validFrom : Instant)

/-- What the call stamps or supersedes starts in time. -/
def InTime (db : Database) (call : FactCall) : Prop :=
  StampsInOrder db call ∧ ∀ now fact, call = .upsertFact now fact → StartsApart db.facts fact

theorem oneCurrent (t : FactTable) : OneCurrent t := by
  intro r hr r' hr' hcur hcur' htenant hkey
  have h := currentRow_eq_some_iff.mpr ⟨hr, htenant, hkey, hcur⟩
  have h' := currentRow_eq_some_iff.mpr ⟨hr', rfl, rfl, hcur'⟩
  rw [h] at h'
  exact Option.some.inj h'

/-- A write inverts nothing: what it closes is older, and a late event ends where the current row
starts. -/
theorem Upserted.notInverted (h : Upserted t now fact t'.rows o) (ht : NotInverted t) :
    NotInverted t' := by
  unfold NotInverted
  generalize hrows : t'.rows = rows at h
  cases h with
  | inserted hnone =>
    intro r hr validTo hvalidTo
    rcases List.mem_append.mp hr with hr | hr
    · exact ht r hr validTo hvalidTo
    · obtain rfl := List.mem_singleton.mp hr
      cases hvalidTo
  | unchanged cur hcur hvalue => exact ht
  | stale cur hcur hvalue hle =>
    intro r hr validTo hvalidTo
    rcases List.mem_append.mp hr with hr | hr
    · exact ht r hr validTo hvalidTo
    · obtain rfl := List.mem_singleton.mp hr
      cases hvalidTo
      exact Instant.stored_le hle
  | superseded cur hcur hvalue hlt =>
    intro r hr validTo hvalidTo
    rcases List.mem_append.mp hr with hr | hr
    · obtain ⟨r₀, hr₀, rfl⟩ := List.mem_map.mp hr
      unfold closeRow at hvalidTo ⊢
      by_cases hid : r₀.id = cur.id
      · rw [if_pos hid] at hvalidTo ⊢
        cases hvalidTo
        rw [eq_of_id_eq hr₀ (currentRow_eq_some_iff.mp hcur).1 hid]
        exact Instant.le_stored hlt.le
      · rw [if_neg hid] at hvalidTo ⊢
        exact ht r₀ hr₀ validTo hvalidTo
    · obtain rfl := List.mem_singleton.mp hr
      cases hvalidTo

/-- A row that was there is there after a write, but for its end and its link. -/
theorem Upserted.exists_row (h : Upserted t now fact t'.rows o) (hr : r ∈ t.rows) :
    ∃ r' ∈ t'.rows, r'.id = r.id ∧ r'.tenantId = r.tenantId ∧ r'.key = r.key ∧
      r'.validFrom = r.validFrom := by
  generalize hrows : t'.rows = rows at h
  cases h with
  | inserted _ | stale _ _ _ _ => exact ⟨r, List.mem_append_left _ hr, rfl, rfl, rfl, rfl⟩
  | unchanged cur hcur hvalue => exact ⟨r, hr, rfl, rfl, rfl, rfl⟩
  | superseded cur hcur hvalue hlt =>
    refine ⟨closeRow cur.id fact.start t.nextId r,
      List.mem_append_left _ (List.mem_map_of_mem hr), ?_⟩
    unfold closeRow
    split <;> exact ⟨rfl, rfl, rfl, rfl⟩

/-- A write keeps the links pointing forward where it supersedes no row of its own microsecond. -/
theorem Upserted.supersededForward (h : Upserted t now fact t'.rows o) (ht : SupersededForward t)
    (hapart : StartsApart t fact) : SupersededForward t' := by
  intro r hr newId hlink
  -- an old link is kept, and its target too; the one new link is that of the closed row
  have hold : ∀ r₀ ∈ t.rows, r₀.supersededBy = some newId → r.tenantId = r₀.tenantId →
      r.key = r₀.key → r.validFrom = r₀.validFrom →
      ∃ r' ∈ t'.rows, r'.id = newId ∧ r'.tenantId = r.tenantId ∧ r'.key = r.key ∧
        r.validFrom < r'.validFrom := by
    intro r₀ hr₀ hlink₀ htenant hkey hfrom
    obtain ⟨r₁, hr₁, hid, htenant₁, hkey₁, hlt⟩ := ht r₀ hr₀ newId hlink₀
    obtain ⟨r₂, hr₂, hid₂, htenant₂, hkey₂, hfrom₂⟩ := h.exists_row hr₁
    refine ⟨r₂, hr₂, hid₂.trans hid, ?_, ?_, ?_⟩
    · rw [htenant₂, htenant₁, htenant]
    · rw [hkey₂, hkey₁, hkey]
    · rw [hfrom, hfrom₂]
      exact hlt
  generalize hrows : t'.rows = rows at h hold hr
  cases h with
  | inserted _ | stale _ _ _ _ =>
    rcases List.mem_append.mp hr with hr | hr
    · exact hold r hr hlink rfl rfl rfl
    · obtain rfl := List.mem_singleton.mp hr
      cases hlink
  | unchanged cur hcur hvalue => exact hold r hr hlink rfl rfl rfl
  | superseded cur hcur hvalue hlt =>
    rcases List.mem_append.mp hr with hr | hr
    · obtain ⟨r₀, hr₀, rfl⟩ := List.mem_map.mp hr
      unfold closeRow at hlink hold ⊢
      by_cases hid : r₀.id = cur.id
      · obtain rfl := eq_of_id_eq hr₀ (currentRow_eq_some_iff.mp hcur).1 hid
        rw [if_pos hid] at hlink ⊢
        cases hlink
        obtain ⟨-, htenant, hkey, -⟩ := currentRow_eq_some_iff.mp hcur
        have hstart : r₀.validFrom < fact.start :=
          lt_of_le_of_ne (Instant.le_stored hlt.le) fun heq =>
            absurd (hapart r₀ hcur hvalue heq) (not_le.mpr hlt)
        exact ⟨_, List.mem_append_right _ (List.mem_singleton.mpr rfl), rfl, htenant.symm,
          hkey.symm, hstart⟩
      · rw [if_neg hid] at hlink hold ⊢
        exact hold r₀ hr₀ hlink rfl rfl rfl
    · obtain rfl := List.mem_singleton.mp hr
      cases hlink

/-- Where the links point forward after a write, it superseded no row of its own microsecond. -/
theorem Upserted.startsApart (h : Upserted t now fact t'.rows o) (ht' : SupersededForward t') :
    StartsApart t fact := by
  intro cur hcur hvalue heq
  by_contra hlt
  rcases h.of_current hcur with ⟨hsame, -⟩ | ⟨-, hle, -⟩ | ⟨-, -, hrows, -⟩
  · exact hvalue hsame
  · exact hlt hle
  · have hmem := (currentRow_eq_some_iff.mp hcur).1
    have hclosed : closeRow cur.id fact.start t.nextId cur ∈ t'.rows := by
      rw [hrows]
      exact List.mem_append_left _ (List.mem_map_of_mem hmem)
    have hlink : (closeRow cur.id fact.start t.nextId cur).supersededBy = some t.nextId := by
      simp [closeRow]
    obtain ⟨r', hr', hid, -, -, hforward⟩ := ht' _ hclosed t.nextId hlink
    rw [(closeRow_key cur.id t.nextId fact.start cur).2.2.1] at hforward
    -- the row that has the fresh id is that of the event
    rw [hrows] at hr'
    rcases List.mem_append.mp hr' with hr' | hr'
    · obtain ⟨r₀, hr₀, rfl⟩ := List.mem_map.mp hr'
      have hkeep : (closeRow cur.id fact.start t.nextId r₀).id = r₀.id := by
        unfold closeRow
        split <;> rfl
      exact absurd (hkeep.symm.trans hid) (t.ids_lt r₀ hr₀).ne
    · rw [List.mem_singleton.mp hr'] at hforward
      exact absurd heq hforward.ne

/-- A stamp keeps the links of superseded rows, and every start. -/
theorem SupersededForward.stamp {stamp : Time} (h : SupersededForward t)
    (hrows : t'.rows = t.rows.map (stampRow stamp p)) : SupersededForward t' := by
  intro r hr newId hlink
  rw [hrows] at hr ⊢
  obtain ⟨r₀, hr₀, rfl⟩ := List.mem_map.mp hr
  obtain ⟨validTo, hstamp⟩ := stampRow_keeps stamp p r₀
  rw [hstamp] at hlink ⊢
  obtain ⟨r₁, hr₁, hrest⟩ := h r₀ hr₀ newId hlink
  obtain ⟨validTo₁, hstamp₁⟩ := stampRow_keeps stamp p r₁
  refine ⟨stampRow stamp p r₁, List.mem_map_of_mem hr₁, ?_⟩
  rw [hstamp₁]
  exact hrest

/-- A table without inverted intervals has none after a stamp exactly when the stamp is not before
the start of a row that it closes. -/
theorem notInverted_stamp_iff {stamp : Time} (h : NotInverted t)
    (hrows : t'.rows = t.rows.map (stampRow stamp p)) :
    NotInverted t' ↔ ∀ r ∈ t.rows, r.validTo = none → p r = true → r.validFrom ≤ stamp := by
  constructor
  · intro hnext r hr hcur hp
    have hmem : stampRow stamp p r ∈ t'.rows := by
      rw [hrows]
      exact List.mem_map_of_mem hr
    rw [stampRow_of_selected hcur hp] at hmem
    exact hnext _ hmem stamp rfl
  · intro horder r hr validTo hvalidTo
    rw [hrows] at hr
    obtain ⟨r₀, hr₀, rfl⟩ := List.mem_map.mp hr
    by_cases hcur : r₀.validTo = none
    · by_cases hp : p r₀ = true
      · rw [stampRow_of_selected hcur hp] at hvalidTo ⊢
        cases hvalidTo
        exact horder r₀ hr₀ hcur hp
      · rw [stampRow_of_not_selected (Bool.eq_false_iff.mpr hp)] at hvalidTo ⊢
        exact h r₀ hr₀ validTo hvalidTo
    · rw [stampRow_of_closed hcur] at hvalidTo ⊢
      exact h r₀ hr₀ validTo hvalidTo

/-- What the intervals and the links of a table keep. -/
structure WellTimed (t : FactTable) : Prop where
  notInverted : NotInverted t
  supersededForward : SupersededForward t

/-- From a well timed table, a call leads to one exactly when what it stamps or supersedes starts in
time. -/
theorem wellTimed_factStep_iff (h : WellTimed db.facts) (hstep : db.factStep call = some db') :
    WellTimed db'.facts ↔ InTime db call := by
  rcases facts_factStep_cases hstep with ⟨now, fact, o, rfl, hup⟩ | ⟨stamp, p, hclose, hrows⟩ |
      ⟨hwrite, hclose, hfacts⟩
  · constructor
    · refine fun hnext => ⟨fun stamp p hclose => ?_, fun now' fact' heq => ?_⟩
      · cases hclose
      · cases heq
        exact hup.startsApart hnext.supersededForward
    · intro htime
      exact ⟨hup.notInverted h.notInverted,
        hup.supersededForward h.supersededForward (htime.2 now fact rfl)⟩
  · have hiff := notInverted_stamp_iff h.notInverted hrows
    constructor
    · refine fun hnext => ⟨fun stamp' p' hclose' => ?_, fun now fact heq => ?_⟩
      · rw [hclose] at hclose'
        cases hclose'
        exact hiff.mp hnext.notInverted
      · rw [heq] at hclose
        cases hclose
    · intro htime
      exact ⟨hiff.mpr (htime.1 stamp p hclose), h.supersededForward.stamp hrows⟩
  · rw [hfacts]
    refine ⟨fun _ => ⟨fun stamp p hclose' => ?_, fun now fact heq => ?_⟩, fun _ => h⟩
    · rw [hclose] at hclose'
      cases hclose'
    · exact absurd heq (hwrite now fact)

/-- Every state of a run of fact calls is free of inverted intervals, with one current row for a
key and the links of superseded rows pointing forward, exactly when no `retire_entity` or `forget`
of the run carries a stamp before the start of a row it closes, and no write supersedes a row that
starts at the microsecond it is stored at. -/
theorem wellTimed_iff (calls : List FactCall) :
    (∀ before after db, calls = before ++ after →
      run factStep Database.empty before = some db →
        NotInverted db.facts ∧ OneCurrent db.facts ∧ SupersededForward db.facts) ↔
      Along factStep InTime Database.empty calls := by
  obtain ⟨db', hrun⟩ := run_factStep Database.empty calls
  have hempty : WellTimed Database.empty.facts :=
    ⟨fun _ hr => absurd hr List.not_mem_nil, fun _ hr => absurd hr List.not_mem_nil⟩
  rw [← run_invariant_iff (P := InTime) (I := fun _ => True) (G := fun db => WellTimed db.facts)
    (fun _ _ _ _ _ => trivial) (fun _ _ _ _ hG hstep => wellTimed_factStep_iff hG hstep) trivial
    hempty hrun]
  constructor
  · intro h before after db hsplit hbefore
    obtain ⟨hnot, -, hforward⟩ := h before after db hsplit hbefore
    exact ⟨hnot, hforward⟩
  · intro h before after db hsplit hbefore
    obtain ⟨hnot, hforward⟩ := h before after db hsplit hbefore
    exact ⟨hnot, oneCurrent db.facts, hforward⟩

/-- The stage of a deal. -/
def dealStage (validFrom : Instant) (stage : String) : FactWrite where
  tenantId := 1
  key := ⟨"crm", "deal-7", "stage"⟩
  value := .str stage
  validFrom := validFrom
  visibility := [1]
  confidentiality := .internal
  provenance := 1
  aclProvenance := .mirrored

/-- A deletion that is dated before the fact it closes leaves an inverted interval. -/
theorem early_deletion_inverts :
    ∃ db, run factStep Database.empty
        [.upsertFact 100 (dealStage 20 "won"), .retireEntity 1 "crm" "deal-7" 10] = some db ∧
      ¬ NotInverted db.facts := by
  refine ⟨_, rfl, ?_⟩
  intro h
  have hrow := h ((dealStage 20 "won").toRow 0 100 (some 10)) (by decide +kernel) 10 rfl
  exact absurd hrow (by decide)

/-! ## Deleted entities -/

/-- The event is not later than a deletion of its entity that was processed before. -/
def LateForDeletion (past : List FactCall) (fact : FactWrite) : Prop :=
  ∃ deletedAt, FactCall.retireEntity fact.tenantId fact.key.source fact.key.entityId deletedAt ∈
    past ∧ fact.validFrom ≤ deletedAt

/-- Every such event of the run finds a current row of its key, and does not supersede one of its
own microsecond. -/
def LateMeetsCurrent (db₀ : Database) (calls : List FactCall) : Prop :=
  ∀ before now fact after db, calls = before ++ .upsertFact now fact :: after →
    run factStep db₀ before = some db → LateForDeletion before fact →
      db.facts.currentRow fact.tenantId fact.key ≠ none ∧ StartsApart db.facts fact

/-- What is current in a deleted entity does not start before any of the deletions, as they are
stored. -/
def CurrentAfterDeletions (past : List FactCall) (t : FactTable) : Prop :=
  ∀ r ∈ t.rows, r.validTo = none → ∀ deletedAt,
    FactCall.retireEntity r.tenantId r.key.source r.key.entityId deletedAt ∈ past →
      deletedAt.stored ≤ r.validFrom

/-- A late event that finds a current row changes no current row: the row it finds does not start
before the deletion, so the event is a replay or history unless it is of the microsecond of both. -/
theorem late_upsert_outcome {past : List FactCall} {rows : List FactRow}
    (h : CurrentAfterDeletions past t) (hup : Upserted t now fact rows o)
    (hlate : LateForDeletion past fact)
    (hmeets : t.currentRow fact.tenantId fact.key ≠ none ∧ StartsApart t fact) :
    o = .unchanged ∨ o = .staleEvent := by
  obtain ⟨deletedAt, hpast, hle⟩ := hlate
  cases hup with
  | inserted hnone => exact absurd hnone hmeets.1
  | unchanged cur hcur hvalue => exact Or.inl rfl
  | stale cur hcur hvalue hle' => exact Or.inr rfl
  | superseded cur hcur hvalue hlt =>
    obtain ⟨hmem, htenant, hkey, hopen⟩ := currentRow_eq_some_iff.mp hcur
    have hafter := h cur hmem hopen deletedAt (by rw [htenant, hkey]; exact hpast)
    have hstart : cur.validFrom = fact.start :=
      le_antisymm (Instant.le_stored hlt.le) ((Instant.stored_mono hle).trans hafter)
    exact absurd (hmeets.2 cur hcur hvalue hstart) (not_le.mpr hlt)

/-- A call keeps what is current after the deletions. -/
theorem currentAfterDeletions_factStep {past : List FactCall}
    (h : CurrentAfterDeletions past db.facts)
    (hmeets : ∀ now fact, call = .upsertFact now fact → LateForDeletion past fact →
      db.facts.currentRow fact.tenantId fact.key ≠ none ∧ StartsApart db.facts fact)
    (hstep : db.factStep call = some db') : CurrentAfterDeletions (past ++ [call]) db'.facts := by
  intro r hr hcur deletedAt hdeleted
  rcases facts_factStep_cases hstep with ⟨now, fact, o, rfl, hup⟩ | ⟨stamp, p, hclose, hrows⟩ |
      ⟨-, hclose, hfacts⟩
  · have hpast : FactCall.retireEntity r.tenantId r.key.source r.key.entityId deletedAt ∈ past := by
      rcases List.mem_append.mp hdeleted with hpast | hlast
      · exact hpast
      · cases List.mem_singleton.mp hlast
    have hrow := currentRow_eq_some_iff.mpr ⟨hr, rfl, rfl, hcur⟩
    rw [hup.currentRow_eq] at hrow
    split at hrow
    · -- the event's own row: it is later than the deletion, or it would not have been inserted
      rename_i hreplace
      obtain rfl := Option.some.inj hrow
      by_contra hearly
      have hlate : LateForDeletion past fact :=
        ⟨deletedAt, hpast, (Monotone.reflect_lt Instant.stored_mono (not_le.mp hearly)).le⟩
      rcases late_upsert_outcome h hup hlate (hmeets now fact rfl hlate) with rfl | rfl
      · simp at hreplace
      · simp at hreplace
    · exact h r (currentRow_eq_some_iff.mp hrow).1 hcur deletedAt hpast
  · rw [hrows] at hr
    obtain ⟨r₀, hr₀, rfl⟩ := List.mem_map.mp hr
    by_cases hopen : r₀.validTo = none
    · by_cases hp : p r₀ = true
      · rw [stampRow_of_selected hopen hp] at hcur
        cases hcur
      · rw [stampRow_of_not_selected (Bool.eq_false_iff.mpr hp)] at hdeleted ⊢
        rcases List.mem_append.mp hdeleted with hpast | hlast
        · exact h r₀ hr₀ hopen deletedAt hpast
        · -- the deletion itself selects every row of the entity
          obtain rfl := List.mem_singleton.mp hlast
          cases hclose
          exact absurd (decide_eq_true ⟨rfl, rfl, rfl⟩) hp
    · rw [stampRow_of_closed hopen] at hcur
      exact absurd hcur hopen
  · rw [hfacts] at hr
    rcases List.mem_append.mp hdeleted with hpast | hlast
    · exact h r hr hcur deletedAt hpast
    · obtain rfl := List.mem_singleton.mp hlast
      cases hclose

/-- The run lemma: where every late event finds a current row, what is current in an entity began
after its deletions. -/
theorem currentAfterDeletions_run {db₀ : Database} {calls : List FactCall}
    (hmeets : LateMeetsCurrent db₀ calls) (hrun : run factStep db₀ calls = some db) :
    CurrentAfterDeletions calls db.facts := by
  refine run_trace (I := fun past db => LateMeetsCurrent db₀ past →
    CurrentAfterDeletions past db.facts) ?_ ?_ hrun hmeets
  · intro _ r _ _ deletedAt hnil
    exact absurd hnil List.not_mem_nil
  · intro past db₁ call db₂ hpast ih hstep hmeets'
    refine currentAfterDeletions_factStep (ih ?_) ?_ hstep
    · intro before now fact after db hsplit
      refine hmeets' before now fact (after ++ [call]) db ?_
      rw [hsplit, List.append_assoc, List.cons_append]
    · rintro now fact rfl hlate
      exact hmeets' past now fact [] db₁ rfl hpast hlate

/-- In a run of fact calls, no event that is at or before a processed deletion of its entity
changes what is current in the entity exactly when each of them finds a current row of its key that
it does not supersede within one microsecond. -/
theorem deleted_stays_deleted_iff (db₀ : Database) (calls : List FactCall) :
    (∀ before now fact after db db' o, calls = before ++ .upsertFact now fact :: after →
      run factStep db₀ before = some db → db.upsertFact now fact = .ok (db', o) →
        LateForDeletion before fact →
          (o = .unchanged ∨ o = .staleEvent) ∧
          ∀ key, key.source = fact.key.source → key.entityId = fact.key.entityId →
            db'.facts.currentRow fact.tenantId key = db.facts.currentRow fact.tenantId key) ↔
      LateMeetsCurrent db₀ calls := by
  constructor
  · intro h before now fact after db hsplit hbefore hlate
    obtain ⟨t, o, hok, hup⟩ := upsertFact_database db now fact
    obtain ⟨ho, -⟩ := h before now fact after db _ o hsplit hbefore hok hlate
    refine ⟨fun hnone => ?_, fun cur hcur hvalue _ => ?_⟩
    · obtain ⟨-, rfl⟩ := hup.of_none hnone
      simp at ho
    · rcases hup.of_current hcur with ⟨hsame, -⟩ | ⟨-, hle, -⟩ | ⟨-, -, -, rfl⟩
      · exact absurd hsame hvalue
      · exact hle
      · simp at ho
  · rintro hmeets before now fact after db db' o rfl hbefore hok hlate
    obtain ⟨t, o', hok', hup⟩ := upsertFact_database db now fact
    rw [hok] at hok'
    cases hok'
    have hmeets' : LateMeetsCurrent db₀ before := by
      rintro before' now' fact' after' db'' rfl
      refine hmeets before' now' fact' (after' ++ .upsertFact now fact :: after) db'' ?_
      rw [List.append_assoc, List.cons_append]
    have ho := late_upsert_outcome (currentAfterDeletions_run hmeets' hbefore) hup hlate
      (hmeets before now fact after db rfl hbefore hlate)
    refine ⟨ho, fun key _ _ => ?_⟩
    rw [hup.currentRow_eq, if_neg]
    rintro ⟨-, hreplaced⟩
    rcases ho with rfl | rfl
    · simp at hreplaced
    · simp at hreplaced

/-- A redelivered event from before the deletion makes the deleted deal current again. -/
theorem late_event_revives_deleted :
    ∃ db db', run factStep Database.empty
        [.upsertFact 100 (dealStage 20 "won"), .retireEntity 1 "crm" "deal-7" 50] = some db ∧
      db.upsertFact 101 (dealStage 20 "won") = .ok (db', .inserted) ∧
      db.facts.currentRow 1 ⟨"crm", "deal-7", "stage"⟩ = none ∧
      (db'.facts.currentRow 1 ⟨"crm", "deal-7", "stage"⟩).map FactRow.value =
        some (.str "won") := by
  refine ⟨_, _, rfl, rfl, ?_, ?_⟩ <;> decide +kernel

end Verity.Analysis
