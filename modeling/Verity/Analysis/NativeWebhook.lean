import Verity.Analysis.FactLifecycle
import Verity.Model.NativeWebhook

/-!
# What a webhook may write

A native payload writes chunks and facts under one narrowed visibility, and its chunk under the
entities the webhook is bound to. The keys of the facts are taken from the payload as they are.
`within_binding_iff`: what an accepted payload writes stays within the binding exactly when each of
its facts about an entity outside it repeats the current value.
-/

set_option autoImplicit false

namespace Verity.Analysis

open Verity.Foundation
open Verity.Model

variable {t t' : FactTable} {now : Time} {fact : FactWrite} {o : FactUpsertOutcome} {r : FactRow}
  {ds : List Delivery}

/-! ## Sequences of fact writes -/

/-- The write repeats the current value of its key. -/
def Repeats (t : FactTable) (fact : FactWrite) : Prop :=
  ∃ cur, t.currentRow fact.tenantId fact.key = some cur ∧ cur.value = fact.value

/-- A row that was there is there after a write, but for its end and its link. -/
theorem Upserted.exists_moved (h : Upserted t now fact t'.rows o) (hr : r ∈ t.rows) :
    ∃ validTo supersededBy,
      { r with validTo := validTo, supersededBy := supersededBy } ∈ t'.rows := by
  generalize hrows : t'.rows = rows at h
  cases h with
  | inserted _ | stale _ _ _ _ => exact ⟨r.validTo, r.supersededBy, List.mem_append_left _ hr⟩
  | unchanged cur hcur hvalue => exact ⟨r.validTo, r.supersededBy, hr⟩
  | superseded cur hcur hvalue hlt =>
    have hmoved : closeRow cur.id fact.start t.nextId r ∈
        t.rows.map (closeRow cur.id fact.start t.nextId) ++
          [fact.toRow t.nextId now none] :=
      List.mem_append_left _ (List.mem_map_of_mem hr)
    unfold closeRow at hmoved
    split at hmoved
    · exact ⟨_, _, hmoved⟩
    · exact ⟨r.validTo, r.supersededBy, hmoved⟩

/-- A row with a new id is the row of the write. -/
theorem Upserted.eq_toRow (h : Upserted t now fact t'.rows o) (hr : r ∈ t'.rows)
    (hnew : r.id ∉ t.rows.map FactRow.id) : ∃ validTo, r = fact.toRow t.nextId now validTo := by
  have hold : r ∉ t.rows := fun hmem => hnew (List.mem_map_of_mem hmem)
  generalize t'.rows = rows at h hr
  cases h with
  | inserted hnone =>
    exact ⟨none, List.mem_singleton.mp ((List.mem_append.mp hr).resolve_left hold)⟩
  | unchanged cur hcur hvalue => exact absurd hr hold
  | stale cur hcur hvalue hle =>
    exact ⟨_, List.mem_singleton.mp ((List.mem_append.mp hr).resolve_left hold)⟩
  | superseded cur hcur hvalue hlt =>
    refine ⟨none, List.mem_singleton.mp ((List.mem_append.mp hr).resolve_left fun hmem => ?_)⟩
    obtain ⟨r₀, hr₀, rfl⟩ := List.mem_map.mp hmem
    have hid : (closeRow cur.id fact.start t.nextId r₀).id = r₀.id := by
      unfold closeRow
      split
      · rfl
      · rfl
    exact hnew (hid ▸ List.mem_map_of_mem hr₀)

/-- A write leaves the rows of the other keys as they are. -/
theorem Upserted.mem_of_key_ne (h : Upserted t now fact t'.rows o) (hr : r ∈ t.rows)
    (hkey : r.key ≠ fact.key) : r ∈ t'.rows := by
  generalize hrows : t'.rows = rows at h
  cases h with
  | inserted hnone => exact List.mem_append_left _ hr
  | unchanged cur hcur hvalue => exact hr
  | stale cur hcur hvalue hle => exact List.mem_append_left _ hr
  | superseded cur hcur hvalue hlt =>
    obtain ⟨hmem, -, hcurKey, -⟩ := currentRow_eq_some_iff.mp hcur
    have hid : r.id ≠ cur.id := fun hid => hkey (eq_of_id_eq hr hmem hid ▸ hcurKey)
    have hsame : closeRow cur.id fact.start t.nextId r = r := if_neg hid
    exact List.mem_append_left _ (List.mem_map.mpr ⟨r, hr, hsame⟩)

/-- A repetition changes nothing, and any other write adds a row. -/
theorem Upserted.repeats_or_new (h : Upserted t now fact t'.rows o) :
    (Repeats t fact ∧ t'.rows = t.rows) ∨
      (¬ Repeats t fact ∧ ∃ validTo, fact.toRow t.nextId now validTo ∈ t'.rows) := by
  have hother : ∀ cur, t.currentRow fact.tenantId fact.key = some cur → cur.value ≠ fact.value →
      ¬ Repeats t fact := by
    rintro cur hcur hvalue ⟨cur', hcur', hvalue'⟩
    rw [hcur] at hcur'
    cases hcur'
    exact hvalue hvalue'
  generalize t'.rows = rows at h
  cases h with
  | inserted hnone =>
    refine Or.inr ⟨?_, none, List.mem_append_right _ List.mem_cons_self⟩
    rintro ⟨cur, hcur, -⟩
    rw [hnone] at hcur
    cases hcur
  | unchanged cur hcur hvalue => exact Or.inl ⟨⟨cur, hcur, hvalue⟩, rfl⟩
  | stale cur hcur hvalue hle =>
    exact Or.inr ⟨hother cur hcur hvalue, _, List.mem_append_right _ List.mem_cons_self⟩
  | superseded cur hcur hvalue hlt =>
    exact Or.inr ⟨hother cur hcur hvalue, none, List.mem_append_right _ List.mem_cons_self⟩

theorem deliver_cons {d : Delivery} (h : deliver t (d :: ds) = .ok t') :
    ∃ t₁ o, Upserted t d.now d.fact t₁.rows o ∧ deliver t₁ ds = .ok t' := by
  obtain ⟨t₁, o, hok, hup⟩ := upsertFact_spec t d.now d.fact
  obtain ⟨⟨t₂, o₂⟩, hfirst, hrest⟩ := exists_of_bind_eq_ok h
  rw [hok] at hfirst
  cases hfirst
  exact ⟨t₁, o, hup, hrest⟩

theorem deliver_total (t : FactTable) (ds : List Delivery) : ∃ t', deliver t ds = .ok t' := by
  induction ds generalizing t with
  | nil => exact ⟨t, rfl⟩
  | cons d ds ih =>
    obtain ⟨t₁, o, hok, -⟩ := upsertFact_spec t d.now d.fact
    obtain ⟨t', hrest⟩ := ih t₁
    refine ⟨t', ?_⟩
    unfold deliver
    rw [hok]
    exact hrest

/-- A row that was there is there after a sequence of writes, but for its end and its link. -/
theorem deliver_exists_moved (h : deliver t ds = .ok t') (hr : r ∈ t.rows) :
    ∃ validTo supersededBy,
      { r with validTo := validTo, supersededBy := supersededBy } ∈ t'.rows := by
  induction ds generalizing t r with
  | nil =>
    cases h
    exact ⟨r.validTo, r.supersededBy, hr⟩
  | cons d ds ih =>
    obtain ⟨t₁, o, hup, hrest⟩ := deliver_cons h
    obtain ⟨_, _, hfirst⟩ := hup.exists_moved hr
    obtain ⟨validTo, supersededBy, hmoved⟩ := ih hrest hfirst
    exact ⟨validTo, supersededBy, hmoved⟩

/-- A row after a sequence of writes that has the id of a row before it is that row, moved. -/
theorem eq_moved_of_id_mem (h : deliver t ds = .ok t') (hr : r ∈ t'.rows)
    (hid : r.id ∈ t.rows.map FactRow.id) :
    ∃ r₀ ∈ t.rows, ∃ validTo supersededBy,
      r = { r₀ with validTo := validTo, supersededBy := supersededBy } := by
  obtain ⟨r₀, hr₀, hid₀⟩ := List.mem_map.mp hid
  obtain ⟨validTo, supersededBy, hmoved⟩ := deliver_exists_moved h hr₀
  exact ⟨r₀, hr₀, validTo, supersededBy, eq_of_id_eq hr hmoved hid₀.symm⟩

/-- What a new row takes from its write. -/
structure RowOf (fact : FactWrite) (r : FactRow) : Prop where
  tenantId : r.tenantId = fact.tenantId
  key : r.key = fact.key
  visibility : r.visibility = fact.visibility
  confidentiality : r.confidentiality = fact.confidentiality

/-- A row with a new id is the row of one of the writes. -/
theorem exists_rowOf_deliver (h : deliver t ds = .ok t') (hr : r ∈ t'.rows)
    (hnew : r.id ∉ t.rows.map FactRow.id) : ∃ d ∈ ds, RowOf d.fact r := by
  induction ds generalizing t with
  | nil =>
    cases h
    exact absurd (List.mem_map_of_mem hr) hnew
  | cons d ds ih =>
    obtain ⟨t₁, o, hup, hrest⟩ := deliver_cons h
    by_cases hfirst : r.id ∈ t₁.rows.map FactRow.id
    · obtain ⟨r₁, hr₁, validTo, supersededBy, rfl⟩ := eq_moved_of_id_mem hrest hr hfirst
      obtain ⟨_, hrow⟩ := hup.eq_toRow hr₁ hnew
      subst hrow
      exact ⟨d, List.mem_cons_self, rfl, rfl, rfl, rfl⟩
    · obtain ⟨d', hd', hrow⟩ := ih hrest hfirst
      exact ⟨d', List.mem_cons_of_mem _ hd', hrow⟩

theorem repeats_congr
    (h : t'.currentRow fact.tenantId fact.key = t.currentRow fact.tenantId fact.key) :
    Repeats t' fact ↔ Repeats t fact := by
  unfold Repeats
  rw [h]

/-- A write of another key does not change whether a write repeats. -/
theorem Upserted.repeats_iff (h : Upserted t now fact t'.rows o) {other : FactWrite}
    (hkey : other.key ≠ fact.key) : Repeats t' other ↔ Repeats t other := by
  apply repeats_congr
  rw [h.currentRow_eq, if_neg fun hsame => hkey hsame.1.2]

/-- The new rows of a sequence of writes have keys that meet `p` exactly when the writes whose keys
do not, repeat what was current before the first of them. -/
theorem new_keys_iff {p : FactKey → Prop} (h : deliver t ds = .ok t') :
    (∀ r ∈ t'.rows, r.id ∉ t.rows.map FactRow.id → p r.key) ↔
      ∀ d ∈ ds, ¬ p d.fact.key → Repeats t d.fact := by
  induction ds generalizing t with
  | nil =>
    cases h
    refine iff_of_true (fun r hr hnew => ?_) fun _ hd => absurd hd List.not_mem_nil
    exact absurd (List.mem_map_of_mem hr) hnew
  | cons d ds ih =>
    obtain ⟨t₁, o, hup, hrest⟩ := deliver_cons h
    have hids : ∀ id ∈ t.rows.map FactRow.id, id ∈ t₁.rows.map FactRow.id := by
      intro id hid
      obtain ⟨r, hr, rfl⟩ := List.mem_map.mp hid
      obtain ⟨_, _, hmoved⟩ := hup.exists_moved hr
      exact List.mem_map.mpr ⟨_, hmoved, rfl⟩
    rw [List.forall_mem_cons]
    by_cases hp : p d.fact.key
    · -- The key is one of those that may be written; the others are as they were.
      have hlater : (∀ d' ∈ ds, ¬ p d'.fact.key → Repeats t d'.fact) ↔
          ∀ d' ∈ ds, ¬ p d'.fact.key → Repeats t₁ d'.fact := by
        refine forall₂_congr fun d' _ => imp_congr_right fun hp' => ?_
        exact (hup.repeats_iff fun hkey => hp' (hkey ▸ hp)).symm
      rw [hlater, ← ih hrest]
      constructor
      · exact fun hall => ⟨fun hnot => absurd hp hnot, fun r hr hnew =>
          hall r hr fun hid => hnew (hids _ hid)⟩
      · rintro ⟨-, hall⟩ r hr hnew
        by_cases hfirst : r.id ∈ t₁.rows.map FactRow.id
        · obtain ⟨r₁, hr₁, validTo, supersededBy, rfl⟩ := eq_moved_of_id_mem hrest hr hfirst
          obtain ⟨_, hrow⟩ := hup.eq_toRow hr₁ hnew
          subst hrow
          exact hp
        · exact hall r hr hfirst
    · rcases hup.repeats_or_new with ⟨hrepeats, hrows⟩ | ⟨hdiffers, validTo, hmem⟩
      · have hlater : ∀ fact, Repeats t₁ fact ↔ Repeats t fact := by
          intro fact
          exact repeats_congr (currentRow_congr hrows _ _)
        have hrest' := ih hrest
        rw [hrows] at hrest'
        rw [hrest']
        simp only [hlater]
        exact ⟨fun hall => ⟨fun _ => hrepeats, hall⟩, And.right⟩
      · refine iff_of_false (fun hall => hp ?_) fun hall => hdiffers (hall.1 hp)
        obtain ⟨_, _, hmoved⟩ := deliver_exists_moved hrest hmem
        refine hall _ hmoved fun hid => ?_
        obtain ⟨r, hr, hrid⟩ := List.mem_map.mp hid
        exact Nat.ne_of_lt (t.ids_lt r hr) hrid

/-- A row stays as it is where the writes of its key repeat what is current. -/
theorem mem_deliver_of_repeats (h : deliver t ds = .ok t') (hr : r ∈ t.rows)
    (hkey : ∀ d ∈ ds, r.key = d.fact.key → Repeats t d.fact) : r ∈ t'.rows := by
  induction ds generalizing t with
  | nil =>
    cases h
    exact hr
  | cons d ds ih =>
    obtain ⟨t₁, o, hup, hrest⟩ := deliver_cons h
    obtain ⟨hfirst, hlater⟩ := List.forall_mem_cons.mp hkey
    by_cases hsame : r.key = d.fact.key
    · obtain ⟨-, hrows⟩ := hup.repeats_or_new.resolve_right fun hnew => hnew.1 (hfirst hsame)
      refine ih hrest (hrows ▸ hr) fun d' hd' hkey' => ?_
      exact (repeats_congr (currentRow_congr hrows _ _)).mpr (hlater d' hd' hkey')
    · refine ih hrest (hup.mem_of_key_ne hr hsame) fun d' hd' hkey' => ?_
      exact (hup.repeats_iff (hkey' ▸ hsame)).mpr (hlater d' hd' hkey')

/-! ## A posted payload -/

/-- What the tables gained, or lost, is within what the webhook is bound to. -/
structure InBinding (hook : NativeWebhook) (before after : Database) : Prop where
  chunks : ∀ c ∈ after.chunks.rows, c.id ∉ before.chunks.rows.map Chunk.id →
    c.visibility ⊆ hook.visibility ∧ c.confidentiality = hook.confidentiality ∧
      c.entityTags ⊆ hook.entityScope
  facts : ∀ r ∈ after.facts.rows, r.id ∉ before.facts.rows.map FactRow.id →
    r.visibility ⊆ hook.visibility ∧ r.confidentiality = hook.confidentiality ∧
      r.key.entityId ∈ hook.entityScope
  others : ∀ r ∈ before.facts.rows, r.key.source ≠ hook.source →
    r.key.entityId ∉ hook.entityScope → r ∈ after.facts.rows

/-- A refused payload writes nothing, and an accepted one within the binding. -/
structure WithinBinding (hook : NativeWebhook) (before : Database)
    (posted : Database × Except HandlerError WebhookReply) : Prop where
  refused : ∀ e, posted.2 = .error e → e.status = 403 → posted.1 = before
  accepted : ∀ id, posted.2 = .ok (.accepted id) → InBinding hook before posted.1

/-- The payload has something to write, and passes the two checks. -/
def Admits (hook : NativeWebhook) (native : NativePayload) : Prop :=
  (native.text.isNone && native.facts.isEmpty) = false ∧
    (∃ visibility, hook.narrowVisibility native = .ok visibility) ∧
      ∃ entities, hook.bindEntities native = .ok entities

/-- Each fact about an entity outside the binding repeats the current value of its key. -/
def OutsideRepeats (db : Database) (hook : NativeWebhook) (native : NativePayload) : Prop :=
  ∀ f ∈ native.facts, f.entityId ∉ hook.entityScope →
    ∃ cur, db.facts.currentRow hook.tenantId ⟨f.source, f.entityId, f.field⟩ = some cur ∧
      cur.value = f.value

section Checks

variable {hook : NativeWebhook} {native : NativePayload}

theorem narrowVisibility_subset {visibility : List PrincipalToken}
    (h : hook.narrowVisibility native = .ok visibility) : visibility ⊆ hook.visibility := by
  unfold NativeWebhook.narrowVisibility at h
  split at h
  · cases h
    exact List.Subset.refl _
  · split at h
    · rename_i hsubset
      cases h
      exact hsubset
    · cases h

/-- Under a binding with entities, those of a chunk are among them. -/
theorem bindEntities_subset (hscope : hook.entityScope ≠ []) {entities : List String}
    (h : hook.bindEntities native = .ok entities) : entities ⊆ hook.entityScope := by
  unfold NativeWebhook.bindEntities at h
  rw [if_neg (by simpa using hscope)] at h
  split at h
  · cases h
    exact List.Subset.refl _
  · split at h
    · rename_i hsubset
      cases h
      exact hsubset
    · cases h

end Checks

/-- What an accepted delivery writes. -/
theorem writeNative_spec (db : Database) (hook : NativeWebhook) (d : NativeDelivery)
    (native : NativePayload) (visibility : List PrincipalToken) (entities : List String) :
    ∃ facts, deliver db.facts
        (native.facts.map fun f => ⟨d.now, hook.fact d visibility f⟩) = .ok facts ∧
      (db.writeNative hook d native visibility entities).2 = .ok (.accepted d.episodeId) ∧
      (db.writeNative hook d native visibility entities).1.facts = facts ∧
      (db.writeNative hook d native visibility entities).1.chunks =
        match native.text with
        | none => db.chunks
        | some text => db.chunks.upsertChunks d.now [hook.chunk d visibility entities text] := by
  obtain ⟨facts, hfacts⟩ := deliver_total db.facts
    (native.facts.map fun f => ⟨d.now, hook.fact d visibility f⟩)
  refine ⟨facts, hfacts, ?_⟩
  unfold Database.writeNative
  cases native.text with
  | none =>
    dsimp only
    rw [hfacts]
    exact ⟨rfl, rfl, rfl⟩
  | some text =>
    have hsame : ({ db with episodes := db.episodes ++ [hook.episode d entities] } :
        Database).upsertChunks d.now [hook.chunk d visibility entities text] =
        { db with
          episodes := db.episodes ++ [hook.episode d entities]
          chunks := db.chunks.upsertChunks d.now [hook.chunk d visibility entities text] } := rfl
    dsimp only
    rw [hsame]
    dsimp only
    rw [hfacts]
    exact ⟨rfl, rfl, rfl⟩

/-- What an admitted payload writes is within the binding exactly when its facts about other
entities repeat what is current. -/
theorem inBinding_writeNative_iff (db : Database) {hook : NativeWebhook} (d : NativeDelivery)
    (native : NativePayload) {visibility : List PrincipalToken} {entities : List String}
    (hvisibility : visibility ⊆ hook.visibility) (hentities : entities ⊆ hook.entityScope) :
    InBinding hook db (db.writeNative hook d native visibility entities).1 ↔
      OutsideRepeats db hook native := by
  obtain ⟨facts, hdeliver, -, hfacts, hchunks⟩ :=
    writeNative_spec db hook d native visibility entities
  have hkeys := new_keys_iff (p := fun key => key.entityId ∈ hook.entityScope) hdeliver
  rw [List.forall_mem_map] at hkeys
  constructor
  · intro h
    refine hkeys.mp fun r hr hnew => ?_
    exact (h.facts r (hfacts ▸ hr) hnew).2.2
  · intro h
    refine ⟨fun c hc hnew => ?_, fun r hr hnew => ?_, fun r hr _ hentity => ?_⟩
    · rw [hchunks] at hc
      cases htext : native.text with
      | none =>
        rw [htext] at hc
        exact absurd (List.mem_map_of_mem hc) hnew
      | some text =>
        rw [htext] at hc
        rcases ChunkTable.exists_of_mem_upsertChunks_single hc with
          ⟨c₀, hc₀, validTo, rfl⟩ | ⟨validTo, rfl⟩
        · exact absurd (List.mem_map.mpr ⟨c₀, hc₀, rfl⟩) hnew
        · exact ⟨hvisibility, rfl, hentities⟩
    · rw [hfacts] at hr
      obtain ⟨_, hd, hrow⟩ := exists_rowOf_deliver hdeliver hr hnew
      obtain ⟨f, -, rfl⟩ := List.mem_map.mp hd
      refine ⟨?_, hrow.confidentiality, hkeys.mpr h r hr hnew⟩
      rw [hrow.visibility]
      exact hvisibility
    · rw [hfacts]
      refine mem_deliver_of_repeats hdeliver hr ?_
      rw [List.forall_mem_map]
      intro f hf hkey
      exact h f hf (by rw [hkey] at hentity; exact hentity)

/-- A payload that is not admitted is quarantined, or refused with nothing written. -/
theorem webhookPost_of_not_admits (db : Database) (hook : NativeWebhook) (d : NativeDelivery)
    (h : ∀ native, d.parsed = .ok native → ¬ Admits hook native) :
    (db.webhookPost hook d).2 = .ok .quarantined ∨
      (db.webhookPost hook d).1 = db ∧ ∃ e, (db.webhookPost hook d).2 = .error e := by
  unfold Database.webhookPost
  cases hparsed : d.parsed with
  | error reason => exact Or.inl rfl
  | ok native =>
    dsimp only
    split
    · exact Or.inl rfl
    · rename_i hwrites
      cases hvisibility : hook.narrowVisibility native with
      | error e => exact Or.inr ⟨rfl, e, rfl⟩
      | ok visibility =>
        dsimp only
        cases hentities : hook.bindEntities native with
        | error e => exact Or.inr ⟨rfl, e, rfl⟩
        | ok entities =>
          exact absurd ⟨Bool.eq_false_iff.mpr hwrites, ⟨visibility, hvisibility⟩,
            entities, hentities⟩ (h native hparsed)

theorem webhookPost_of_admits (db : Database) {hook : NativeWebhook} {d : NativeDelivery}
    {native : NativePayload} (hparsed : d.parsed = .ok native) (h : Admits hook native) :
    ∃ visibility entities, hook.narrowVisibility native = .ok visibility ∧
      hook.bindEntities native = .ok entities ∧
      db.webhookPost hook d = db.writeNative hook d native visibility entities := by
  obtain ⟨hwrites, ⟨visibility, hvisibility⟩, entities, hentities⟩ := h
  refine ⟨visibility, entities, hvisibility, hentities, ?_⟩
  unfold Database.webhookPost
  rw [hparsed]
  dsimp only
  rw [hwrites, if_neg Bool.false_ne_true, hvisibility]
  dsimp only
  rw [hentities]

/-- For every webhook bound to entities, and every payload: it writes within its binding exactly
when an admitted payload repeats what is current of the entities outside it. -/
theorem within_binding_iff (db : Database) (hook : NativeWebhook) (d : NativeDelivery)
    (hscope : hook.entityScope ≠ []) :
    WithinBinding hook db (db.webhookPost hook d) ↔
      ∀ native, d.parsed = .ok native → Admits hook native → OutsideRepeats db hook native := by
  by_cases hadmitted : ∃ native, d.parsed = .ok native ∧ Admits hook native
  · obtain ⟨native, hparsed, hadmits⟩ := hadmitted
    obtain ⟨visibility, entities, hvisibility, hentities, hpost⟩ :=
      webhookPost_of_admits db hparsed hadmits
    obtain ⟨-, -, hreply, -, -⟩ := writeNative_spec db hook d native visibility entities
    have hiff := inBinding_writeNative_iff db d native (narrowVisibility_subset hvisibility)
      (bindEntities_subset hscope hentities)
    rw [hpost]
    constructor
    · intro h native' hparsed' _
      rw [hparsed] at hparsed'
      cases hparsed'
      exact hiff.mp (h.accepted d.episodeId hreply)
    · intro h
      refine ⟨fun e he _ => ?_, fun _ _ => hiff.mpr (h native hparsed hadmits)⟩
      rw [hreply] at he
      cases he
  · have hnone : ∀ native, d.parsed = .ok native → ¬ Admits hook native :=
      fun native hparsed hadmits => hadmitted ⟨native, hparsed, hadmits⟩
    refine iff_of_true ?_ fun native hparsed hadmits => absurd hadmits (hnone native hparsed)
    rcases webhookPost_of_not_admits db hook d hnone with hreply | ⟨hsame, e, hreply⟩
    · refine ⟨fun e he _ => ?_, fun id hid => ?_⟩
      · rw [hreply] at he
        cases he
      · rw [hreply] at hid
        cases hid
    · refine ⟨fun _ _ _ => hsame, fun id hid => ?_⟩
      rw [hreply] at hid
      cases hid

/-- A webhook bound to one customer. -/
def acmeHook : NativeWebhook where
  tenantId := 1
  visibility := [10, 11]
  confidentiality := .internal
  id := 3
  name := "billing"
  entityScope := ["acme"]

/-- The CRM's fact about another one. -/
def globexOwner : Database :=
  (Database.empty.factStep (.upsertFact 5
    { tenantId := 1
      key := ⟨"crm", "globex", "owner"⟩
      value := .str "ann"
      validFrom := 5
      visibility := [20]
      confidentiality := .restricted
      provenance := 1
      aclProvenance := .mirrored })).getD .empty

/-- A note about the first, with a fact about each. -/
def ownerPost (owner : String) : NativeDelivery where
  raw := .null
  rawText := "null"
  parsed := .ok
    { content := some "acme renewed"
      observation := none
      entities := ["acme"]
      facts := [⟨"crm", "acme", "stage", .str "won", none⟩,
        ⟨"crm", "globex", "owner", .str owner, some 9⟩]
      visibility := some [10] }
  episodeId := 7
  quarantineId := 8
  receivedAt := 10
  now := 10

/-- A post that repeats the owner of a foreign deal is accepted and leaves the facts within the
binding. -/
theorem repeated_owner_within_binding :
    acmeHook.entityScope ≠ [] ∧
      (globexOwner.webhookPost acmeHook (ownerPost "ann")).2 = .ok (.accepted 7) ∧
      WithinBinding acmeHook globexOwner (globexOwner.webhookPost acmeHook (ownerPost "ann")) := by
  have hscope : acmeHook.entityScope ≠ [] := List.cons_ne_nil _ _
  refine ⟨hscope, by decide +kernel, ?_⟩
  apply (within_binding_iff globexOwner acmeHook (ownerPost "ann") hscope).mpr
  rintro native ⟨⟩ - f hf hentity
  have hcur : (globexOwner.facts.currentRow 1 ⟨"crm", "globex", "owner"⟩).map FactRow.value =
      some (.str "ann") := by
    decide +kernel
  obtain ⟨cur, hcur, hvalue⟩ := Option.map_eq_some_iff.mp hcur
  rcases List.mem_cons.mp hf with rfl | hf
  · exact absurd List.mem_cons_self hentity
  · obtain rfl := List.mem_singleton.mp hf
    exact ⟨cur, hcur, hvalue⟩

/-- The webhook closes the CRM's fact about the other customer, and names its new owner. -/
theorem webhook_rewrites_other_customer :
    acmeHook.entityScope = ["acme"] ∧
      (globexOwner.webhookPost acmeHook (ownerPost "bob")).2 = .ok (.accepted 7) ∧
      ((globexOwner.webhookPost acmeHook (ownerPost "bob")).1.facts.rows.map fun r =>
          (r.key.entityId, r.value, r.validTo)) =
        [("globex", .str "ann", some 9), ("acme", .str "won", none),
          ("globex", .str "bob", none)] ∧
      ¬ WithinBinding acmeHook globexOwner
        (globexOwner.webhookPost acmeHook (ownerPost "bob")) := by
  have haccepted : (globexOwner.webhookPost acmeHook (ownerPost "bob")).2 = .ok (.accepted 7) := by
    decide +kernel
  refine ⟨rfl, haccepted, by decide +kernel, fun h => ?_⟩
  have hothers := (h.accepted 7 haccepted).others
  revert hothers
  decide +kernel

end Verity.Analysis
