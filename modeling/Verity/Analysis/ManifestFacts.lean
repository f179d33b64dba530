import Verity.Analysis.FactOrder
import Verity.Foundation.Run
import Verity.Model.Database
import Verity.Model.ManifestDelivery

/-!
# Whose facts a delivery writes

The current row of a key is a fold of the writes of that key alone (`currentRow_deliver`). The key
of a fact does not name the type of its entity, so two entities with the same id and a field in
common write the same key, and what one of them wrote is what the other is read with. Whatever the
deliveries, the entities keep to keys of their own, and their current facts are those their own
writes produce, exactly when no field is written under one id by entities of two types
(`own_facts_iff_types_apart`).
-/

set_option autoImplicit false

namespace Verity.Analysis

open Verity.Foundation
open Verity.Model

variable {ds : List ManifestDelivery} {entity : EntityRef} {field : String} {s : ManifestStore}

/-! ## The current row of a key -/

/-- A row up to its id. -/
def anonymous (r : FactRow) : FactRow := { r with id := 0 }

/-- What a write makes of the current row of its key. -/
def nextRow (cur : Option FactRow) (d : Delivery) : Option FactRow :=
  match cur with
  | none => some (d.fact.toRow 0 d.now none)
  | some r =>
    if r.value = d.fact.value then some r
    else if d.fact.validFrom ≤ r.validFrom then some r
    else some (d.fact.toRow 0 d.now none)

/-- The write is one of this key. -/
def hits (tenant : TenantId) (key : FactKey) (d : Delivery) : Bool :=
  decide (tenant = d.fact.tenantId ∧ key = d.fact.key)

theorem currentRow_upsert {t t' : FactTable} {d : Delivery} {o : FactUpsertOutcome}
    (h : Upserted t d.now d.fact t'.rows o) (tenant : TenantId) (key : FactKey) :
    (t'.currentRow tenant key).map anonymous =
      if hits tenant key d then nextRow ((t.currentRow tenant key).map anonymous) d
      else (t.currentRow tenant key).map anonymous := by
  rw [h.currentRow_eq tenant key]
  by_cases hkey : tenant = d.fact.tenantId ∧ key = d.fact.key
  · rw [if_pos (show hits tenant key d = true by rw [hits, decide_eq_true hkey])]
    obtain ⟨rfl, rfl⟩ := hkey
    generalize t'.rows = rows at h
    cases h with
    | inserted hnone =>
      rw [if_pos ⟨⟨rfl, rfl⟩, .inl rfl⟩, hnone]
      rfl
    | unchanged cur hcur hvalue =>
      rw [if_neg (by simp), hcur]
      simp [nextRow, anonymous, hvalue]
    | stale cur hcur hvalue hle =>
      rw [if_neg (by simp), hcur]
      simp [nextRow, anonymous, hvalue, hle]
    | superseded cur hcur hvalue hlt =>
      rw [if_pos ⟨⟨rfl, rfl⟩, .inr rfl⟩, hcur]
      simp [nextRow, anonymous, hvalue, not_le.mpr hlt, FactWrite.toRow]
  · rw [if_neg (fun hr => hkey hr.1),
      if_neg (show ¬ hits tenant key d = true by rw [hits, decide_eq_true_eq]; exact hkey)]

/-- The current row of a key is a fold of the writes of the key, whatever else is written. -/
theorem currentRow_deliver (t : FactTable) (ds : List Delivery) (tenant : TenantId)
    (key : FactKey) :
    ∃ t', deliver t ds = .ok t' ∧
      (t'.currentRow tenant key).map anonymous =
        (ds.filter (hits tenant key)).foldl nextRow ((t.currentRow tenant key).map anonymous) := by
  induction ds generalizing t with
  | nil => exact ⟨t, rfl, rfl⟩
  | cons d ds ih =>
    obtain ⟨t₁, o, hok, hrows⟩ := upsertFact_spec t d.now d.fact
    obtain ⟨t', hrest, hrow⟩ := ih t₁
    refine ⟨t', ?_, ?_⟩
    · simp [deliver, hok, bind, Except.bind, hrest]
    · rw [hrow, currentRow_upsert hrows, List.filter_cons]
      split <;> rfl

/-! ## The writes of a run -/

section Deliveries

variable (crates : ManifestCrates) (instant : DateTime → Instant) (m : Manifest)

/-- The entity writes the runtime makes of a delivery. -/
def appliedWrites (d : ManifestDelivery) : List EntityWrites :=
  match apply crates d.payload d.clock m with
  | some (.writes _ writes _) => writes
  | _ => []

/-- One of the deliveries writes the field of the entity. -/
def Written (ds : List ManifestDelivery) (entity : EntityRef) (field : String) : Prop :=
  ∃ d ∈ ds, ∃ w ∈ appliedWrites crates m d,
    entity = ⟨d.hook.tenantId, w.entityType, w.entityId⟩ ∧ field ∈ w.fields.map Prod.fst

/-- The fields of the entities that the deliveries write, one by one. -/
def writtenFields (ds : List ManifestDelivery) : List (EntityRef × String) :=
  ds.flatMap fun d => (appliedWrites crates m d).flatMap fun w =>
    w.fields.map fun field => (⟨d.hook.tenantId, w.entityType, w.entityId⟩, field.1)

/-- The key a field of an entity is stored under. -/
def factKeyOf (entity : EntityRef) (field : String) : FactKey :=
  ⟨m.source.name, entity.entityId, field⟩

/-- Different entities write different keys. -/
def KeysDisjoint (ds : List ManifestDelivery) : Prop :=
  ∀ entity field entity' field', Written crates m ds entity field →
    Written crates m ds entity' field' → entity ≠ entity' →
      (entity.tenantId, factKeyOf m entity field) ≠ (entity'.tenantId, factKeyOf m entity' field')

/-- The fact writes of one entity. -/
def ownWrites (s : ManifestStore) (entity : EntityRef) : List Delivery :=
  (s.log.filter fun x => x.entity = entity).map EntityFact.delivery

/-- The current facts of an entity are, but for their row ids, those of the run in which only its
own writes are made. -/
def OwnFacts (before : FactTable) (ds : List ManifestDelivery) (s : ManifestStore) : Prop :=
  ∀ entity field, Written crates m ds entity field →
    ∃ own, deliver before (ownWrites s entity) = .ok own ∧
      (s.facts.currentRow entity.tenantId (factKeyOf m entity field)).map anonymous =
        (own.currentRow entity.tenantId (factKeyOf m entity field)).map anonymous

/-- No field is written under one id by entities of two types. -/
def TypesApart (ds : List ManifestDelivery) : Prop :=
  ∀ entity entity' field, Written crates m ds entity field → Written crates m ds entity' field →
    entity.tenantId = entity'.tenantId → entity.entityId = entity'.entityId →
      entity.entityType = entity'.entityType

end Deliveries

variable {crates : ManifestCrates} {instant : DateTime → Instant} {m : Manifest}

theorem written_iff_mem :
    Written crates m ds entity field ↔ (entity, field) ∈ writtenFields crates m ds := by
  simp only [Written, writtenFields, List.mem_flatMap, List.mem_map, Prod.mk.injEq]
  refine exists_congr fun d => and_congr_right fun _ => exists_congr fun w =>
    and_congr_right fun _ => ?_
  constructor
  · rintro ⟨rfl, f, hf, rfl⟩
    exact ⟨f, hf, rfl, rfl⟩
  · rintro ⟨f, hf, rfl, rfl⟩
    exact ⟨rfl, f, hf, rfl⟩

theorem typesApart_iff_list :
    TypesApart crates m ds ↔
      ∀ x ∈ writtenFields crates m ds, ∀ y ∈ writtenFields crates m ds, x.2 = y.2 →
        x.1.tenantId = y.1.tenantId → x.1.entityId = y.1.entityId →
          x.1.entityType = y.1.entityType := by
  simp only [TypesApart, written_iff_mem]
  constructor
  · rintro happart ⟨entity, field⟩ hx ⟨entity', field'⟩ hy hfield
    obtain rfl : field = field' := hfield
    exact happart entity entity' field hx hy
  · intro happart entity entity' field hx hy
    exact happart _ hx _ hy rfl

instance (ds : List ManifestDelivery) : Decidable (TypesApart crates m ds) :=
  decidable_of_iff _ typesApart_iff_list.symm

theorem source_of_apply {payload : Json} {clock : DateTime} {source : String}
    {writes : List EntityWrites} {acl : AclEnvelope}
    (h : apply crates payload clock m = some (.writes source writes acl)) :
    source = m.source.name := by
  unfold apply at h
  repeat' split at h
  all_goals first
    | exact (Applied.writes.inj (Option.some.inj h)).1.symm
    | cases h

/-- What one delivery adds to the log, and does to the facts. -/
theorem deliver_step {s' : ManifestStore} {d : ManifestDelivery}
    (h : s.deliver crates instant m d = some s') :
    ∃ facts : List EntityFact, s'.log = s.log ++ facts ∧
      deliver s.facts (facts.map EntityFact.delivery) = .ok s'.facts ∧
      ∀ x ∈ facts, ∃ field, Written crates m [d] x.entity field ∧
        x.delivery.fact.tenantId = x.entity.tenantId ∧
        x.delivery.fact.key = factKeyOf m x.entity field := by
  unfold ManifestStore.deliver at h
  cases happly : apply crates d.payload d.clock m with
  | none =>
    rw [happly] at h
    cases h
  | some applied =>
    rw [happly] at h
    cases applied with
    | quarantine reason =>
      obtain rfl := Option.some.inj h
      exact ⟨[], by simp, rfl, by simp⟩
    | writes source writes acl =>
      dsimp only at h
      split at h
      · cases h
      · next table htable =>
          obtain rfl := Option.some.inj h
          refine ⟨_, rfl, htable, ?_⟩
          intro x hx
          obtain ⟨i, hi, rfl⟩ := List.mem_mapIdx.mp hx
          have hmem := List.getElem_mem hi
          obtain ⟨w, hw, hfield⟩ := List.mem_flatMap.mp hmem
          obtain ⟨field, hfield, hpair⟩ := List.mem_map.mp hfield
          refine ⟨field.1, ⟨d, List.mem_singleton.mpr rfl, w, ?_, ?_, ?_⟩, ?_, ?_⟩
          · rw [appliedWrites, happly]
            exact hw
          · rw [← hpair]
            rfl
          · exact List.mem_map.mpr ⟨field, hfield, rfl⟩
          · rw [← hpair]
            rfl
          · rw [← hpair, factKeyOf, ← source_of_apply happly]
            rfl

theorem Written.mono {ds' : List ManifestDelivery} (h : Written crates m ds entity field)
    (hsub : ∀ d ∈ ds, d ∈ ds') : Written crates m ds' entity field := by
  obtain ⟨d, hd, w, hw, hentity, hfield⟩ := h
  exact ⟨d, hsub d hd, w, hw, hentity, hfield⟩

/-- The facts are those of the writes in the log, and each write in the log is one of an entity
that a delivery so far has written. -/
def Logged (crates : ManifestCrates) (m : Manifest) (before : FactTable)
    (ds : List ManifestDelivery) (s : ManifestStore) : Prop :=
  deliver before (s.log.map EntityFact.delivery) = .ok s.facts ∧
    ∀ x ∈ s.log, ∃ field, Written crates m ds x.entity field ∧
      x.delivery.fact.tenantId = x.entity.tenantId ∧
      x.delivery.fact.key = factKeyOf m x.entity field

theorem logged_of_run {principals : PrincipalTable} {before : FactTable} {chunks : ChunkTable}
    (hrun : run (fun s d => s.deliver crates instant m d) (.start principals before chunks) ds =
      some s) : Logged crates m before ds s := by
  refine run_trace (I := Logged crates m before) ⟨rfl, by simp [ManifestStore.start]⟩ ?_ hrun
  rintro past s₁ d s₂ - ⟨hfacts, hlog⟩ hstep
  obtain ⟨facts, hlog₂, hfacts₂, hwritten⟩ := deliver_step hstep
  refine ⟨?_, ?_⟩
  · rw [hlog₂, List.map_append, deliver_append, hfacts]
    exact hfacts₂
  · intro x hx
    rw [hlog₂] at hx
    rcases List.mem_append.mp hx with hx | hx
    · obtain ⟨field, hfield, htenant, hkey⟩ := hlog x hx
      exact ⟨field, hfield.mono fun d hd => List.mem_append_left _ hd, htenant, hkey⟩
    · obtain ⟨field, hfield, htenant, hkey⟩ := hwritten x hx
      exact ⟨field, hfield.mono fun d hd => List.mem_append_right _ hd, htenant, hkey⟩

/-! ## Keys of their own -/

/-- Two entities share a key exactly where they share the tenant, the id and the field. -/
theorem keysDisjoint_iff : KeysDisjoint crates m ds ↔ TypesApart crates m ds := by
  constructor
  · intro hdisjoint entity entity' field h h' htenant hid
    by_contra htype
    refine hdisjoint entity field entity' field h h' (fun heq => htype (by rw [heq])) ?_
    rw [factKeyOf, factKeyOf, htenant, hid]
  · intro happart entity field entity' field' h h' hne heq
    simp only [factKeyOf, Prod.mk.injEq, FactKey.mk.injEq, true_and] at heq
    obtain ⟨htenant, hid, rfl⟩ := heq
    have htype := happart entity entity' field h h' htenant hid
    refine hne ?_
    cases entity
    cases entity'
    simp_all

/-- Where types are apart, every write of a key that an entity writes is a write of the entity. -/
theorem filter_hits_ownWrites {before : FactTable} (hlogged : Logged crates m before ds s)
    (happart : TypesApart crates m ds) (hwritten : Written crates m ds entity field) :
    (ownWrites s entity).filter (hits entity.tenantId (factKeyOf m entity field)) =
      (s.log.map EntityFact.delivery).filter
        (hits entity.tenantId (factKeyOf m entity field)) := by
  rw [ownWrites, List.filter_map, List.filter_map, List.filter_filter]
  congr 1
  apply List.filter_congr
  intro x hx
  cases hhit : (hits entity.tenantId (factKeyOf m entity field) ∘ EntityFact.delivery) x with
  | false => simp
  | true =>
    obtain ⟨field', hwritten', htenant, hkey⟩ := hlogged.2 x hx
    have hsame : entity.tenantId = x.entity.tenantId ∧
        factKeyOf m entity field = factKeyOf m x.entity field' := by
      rw [← htenant, ← hkey]
      simpa [hits] using hhit
    obtain ⟨hsameTenant, hsameKey⟩ := hsame
    simp only [factKeyOf, FactKey.mk.injEq, true_and] at hsameKey
    obtain ⟨hid, rfl⟩ := hsameKey
    have htype := happart entity x.entity field hwritten hwritten' hsameTenant hid
    have heq : x.entity = entity := by
      obtain ⟨⟨tenant, type, id⟩, delivery⟩ := x
      cases entity
      simp_all
    simp [heq]

/-- Whatever is delivered to a manifest, the entities have keys of their own, and their current
facts are those their own writes produce, exactly when no field is written under one id by
entities of two types. -/
theorem own_facts_iff_types_apart (crates : ManifestCrates) (instant : DateTime → Instant)
    (m : Manifest) (principals : PrincipalTable) (before : FactTable) (chunks : ChunkTable)
    (ds : List ManifestDelivery) (s : ManifestStore)
    (hrun : run (fun s d => s.deliver crates instant m d) (.start principals before chunks) ds =
      some s) :
    (KeysDisjoint crates m ds ∧ OwnFacts crates m before ds s) ↔ TypesApart crates m ds := by
  constructor
  · exact fun h => keysDisjoint_iff.mp h.1
  · intro happart
    refine ⟨keysDisjoint_iff.mpr happart, ?_⟩
    intro entity field hwritten
    have hlogged := logged_of_run hrun
    obtain ⟨all, hall, hallRow⟩ := currentRow_deliver before (s.log.map EntityFact.delivery)
      entity.tenantId (factKeyOf m entity field)
    obtain ⟨own, hown, hownRow⟩ := currentRow_deliver before (ownWrites s entity)
      entity.tenantId (factKeyOf m entity field)
    rw [hlogged.1] at hall
    obtain rfl := Except.ok.inj hall
    refine ⟨own, hown, ?_⟩
    rw [hallRow, hownRow, filter_hits_ownWrites hlogged happart hwritten]

/-! ## An issue and a comment -/

/-- Blocks for issues and comments, which both map a title. -/
def trackerBlock (type when_ : String) : EntitySpec where
  type := type
  routeWhen := when_
  primaryKey := "id"
  validFrom := none
  observedAt := none
  map := .singleton "title" "title"
  content := some "title"

def trackerManifest : Manifest where
  manifestVersion := 1
  source := ⟨"linear", none, none, none⟩
  entities := [trackerBlock "issue" "type = 'Issue'", trackerBlock "comment" "type = 'Comment'"]
  aclPolicy := some ⟨.static, none, none, false, none, none⟩
  fixtures := []

/-- The crates on these payloads: quoted text without escapes, and whole numbers. -/
def trackerCrates : ManifestCrates where
  debug s := "\"" ++ s ++ "\""
  display
    | .str s => "\"" ++ s ++ "\""
    | .posInt n => toString n.toNat
    | _ => "null"
  parseFromRfc3339 _ := none
  timestampMillisOpt ms := some (ms * 1000000)
  toRfc3339Millis _ := "1970-01-01T00:00:00.000Z"

/-- The instant of a clock reading. -/
def nanoseconds (t : DateTime) : Instant := ⟨t⟩

/-- A payload of this kind, id and title, received at so many seconds. -/
def trackerDelivery (kind : String) (id : UInt64) (title : String) (second : Nat) :
    ManifestDelivery where
  hook := ⟨1, [7], .internal⟩
  payload := .obj [("type", .str kind), ("id", .posInt id), ("title", .str title)]
  clock := second * 1000000000
  episodeId := second
  factInstant _ := seconds second
  chunkInstant := seconds second

def trackerStart : ManifestStore := .start .empty .empty Database.empty.chunks

def trackerRun (ds : List ManifestDelivery) : Option ManifestStore :=
  run (fun s d => s.deliver trackerCrates nanoseconds trackerManifest d) trackerStart ds

def sameId : List ManifestDelivery :=
  [trackerDelivery "Issue" 42 "Crash" 1, trackerDelivery "Comment" 42 "Me too" 2]

def otherId : List ManifestDelivery :=
  [trackerDelivery "Issue" 42 "Crash" 1, trackerDelivery "Comment" 43 "Me too" 2]

/-- Issue 42 and comment 43 keep to themselves. -/
theorem issue_and_other_comment_apart :
    ∃ s, trackerRun otherId = some s ∧
      KeysDisjoint trackerCrates trackerManifest otherId ∧
      OwnFacts trackerCrates trackerManifest .empty otherId s := by
  have hends : (trackerRun otherId).isSome = true := by
    decide +kernel
  obtain ⟨s, hs⟩ := Option.isSome_iff_exists.mp hends
  exact ⟨s, hs, (own_facts_iff_types_apart trackerCrates nanoseconds trackerManifest .empty .empty
    ⟨[], 1, fun _ h => absurd h List.not_mem_nil, List.nodup_nil⟩ _ s hs).mpr (by decide +kernel)⟩

/-- Comment 42 supersedes the title of issue 42, while their chunks stay apart. -/
theorem comment_supersedes_issue :
    trackerManifest.validate = .ok () ∧
    ∃ s, trackerRun sameId = some s ∧
      (s.facts.currentRow 1 ⟨"linear", "42", "title"⟩).map FactRow.value = some (.str "Me too") ∧
      (s.chunks.rows.filter fun c => c.validTo = none).map Chunk.documentId =
        ["issue:42", "comment:42"] ∧
      ¬ KeysDisjoint trackerCrates trackerManifest sameId ∧
      ¬ OwnFacts trackerCrates trackerManifest .empty sameId s := by
  have hvalid : trackerManifest.validate = .ok () := by decide +kernel
  have hview : (trackerRun sameId).map (fun s =>
        ((s.facts.currentRow 1 ⟨"linear", "42", "title"⟩).map FactRow.value,
          (s.chunks.rows.filter fun c => c.validTo = none).map Chunk.documentId,
          match deliver .empty (ownWrites s ⟨1, "issue", "42"⟩) with
          | .ok own => (own.currentRow 1 ⟨"linear", "42", "title"⟩).map FactRow.value
          | .error _ => none)) =
      some (some (.str "Me too"), ["issue:42", "comment:42"], some (.str "Crash")) := by
    decide +kernel
  obtain ⟨s, hs, hview⟩ := Option.map_eq_some_iff.mp hview
  simp only [Prod.mk.injEq] at hview
  obtain ⟨hcurrent, hchunks, hown⟩ := hview
  refine ⟨hvalid, s, hs, hcurrent, hchunks, ?_, ?_⟩
  · rw [keysDisjoint_iff]
    decide +kernel
  · intro hfacts
    have hwritten : Written trackerCrates trackerManifest sameId
        ⟨1, "issue", "42"⟩ "title" := by
      rw [written_iff_mem]
      decide +kernel
    obtain ⟨own, hdeliver, hsame⟩ := hfacts _ _ hwritten
    rw [hdeliver] at hown
    have hvalues := congrArg (Option.map FactRow.value) hsame
    simp only [Option.map_map, Function.comp_def, anonymous] at hvalues
    have hsameValue : (s.facts.currentRow 1 ⟨"linear", "42", "title"⟩).map FactRow.value =
        (own.currentRow 1 ⟨"linear", "42", "title"⟩).map FactRow.value := hvalues
    have hownValue : (own.currentRow 1 ⟨"linear", "42", "title"⟩).map FactRow.value =
        some (.str "Crash") := hown
    rw [hcurrent, hownValue] at hsameValue
    exact absurd hsameValue (by decide)

end Verity.Analysis
