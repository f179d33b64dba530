import Verity.Analysis.EmbeddingMigration

/-!
# The route of the dense leg

Ingestion fills the first vector column alone, also after a cutover. What the dense leg of a process
then misses came in after the coverage was read for the cutover that set its route, unless that
cutover was forced (`dense_leg_misses`).

Only the process that serves a cutover flushes its cache, and a lookup keeps what it has read
before. A process that serves another route than that of the settings has read them before a cutover
was written, and flushed nothing since it kept the answer (`stale_route`).
-/

set_option autoImplicit false

namespace Verity.Analysis

open Verity.Model Verity.Foundation

variable {rows : List SettingRow} {tenant : TenantId} {replica : ReplicaId} {route : EmbeddingRoute}

/-- An entry after one of them was set. -/
theorem update_eq_some {α β : Type} [DecidableEq α] {f : α → Option β} {a b : α} {v : Option β}
    {y : β} (h : Function.update f a v b = some y) : (b = a ∧ v = some y) ∨ f b = some y := by
  by_cases hb : b = a
  · subst hb
    rw [Function.update_self] at h
    exact Or.inl ⟨rfl, h⟩
  · rw [Function.update_of_ne hb] at h
    exact Or.inr h

/-- An entry of a table of tables after one of these was set. -/
theorem update_row_eq_some {α β γ : Type} [DecidableEq α] {f : α → β → Option γ} {a a' : α}
    {row : β → Option γ} {b : β} {y : γ} (h : Function.update f a row a' b = some y) :
    (a' = a ∧ row b = some y) ∨ f a' b = some y := by
  by_cases ha : a' = a
  · subst ha
    rw [Function.update_self] at h
    exact Or.inl ⟨rfl, h⟩
  · rw [Function.update_of_ne ha] at h
    exact Or.inr h

/-! ## The settings -/

theorem mem_upsertSetting {tenant : Option TenantId} {value : String} {r : SettingRow}
    (h : r ∈ upsertSetting rows tenant value) :
    r ∈ rows ∨ settingKey r.tenantId = settingKey tenant ∧ r.value = value := by
  unfold upsertSetting at h
  split at h
  · obtain ⟨r₀, hr₀, rfl⟩ := List.mem_map.mp h
    split
    · rename_i hkey
      exact Or.inr ⟨hkey, rfl⟩
    · exact Or.inl hr₀
  · rcases List.mem_append.mp h with hr | hr
    · exact Or.inl hr
    · rw [List.mem_singleton.mp hr]
      exact Or.inr ⟨rfl, rfl⟩

theorem mem_of_selectSetting {r : SettingRow} (h : selectSetting rows tenant = some r) :
    r ∈ rows ∧ (r.tenantId = some tenant ∨ r.tenantId = none) := by
  unfold selectSetting at h
  rcases Option.or_eq_some_iff.mp h with hrow | ⟨-, hrow⟩
  · exact ⟨List.mem_of_find?_eq_some hrow, Or.inl (by simpa using List.find?_some hrow)⟩
  · exact ⟨List.mem_of_find?_eq_some hrow, Or.inr (by simpa using List.find?_some hrow)⟩

/-- The settings give the second route only by a row that says so. -/
theorem exists_of_routeOf_eq_v2 (h : routeOf rows tenant = .v2) :
    ∃ r ∈ rows, .fromStrLossy r.value = EmbeddingRoute.v2 ∧
      (settingKey r.tenantId = tenant ∨ settingKey r.tenantId = nilUuid) := by
  unfold routeOf at h
  cases hrow : selectSetting rows tenant with
  | none =>
    rw [hrow] at h
    exact absurd h (by simp)
  | some r =>
    rw [hrow] at h
    obtain ⟨hmem, htenant⟩ := mem_of_selectSetting hrow
    refine ⟨r, hmem, h, ?_⟩
    rcases htenant with htenant | htenant <;> rw [htenant]
    · exact Or.inl rfl
    · exact Or.inr rfl

section Routes

variable {V : Type} {encode : String → V} {ilike : String → String → Bool}
  {sha256Hex : String → String} {s s' : EmbeddingPlane V}

/-! ## Cutovers -/

/-- A cutover to the second route that covers the tenant has been written. -/
def Flipped (s : EmbeddingPlane V) (tenant : TenantId) : Prop :=
  ∃ f ∈ s.flips, f.route = .v2 ∧ (settingKey f.tenant = tenant ∨ settingKey f.tenant = nilUuid)

/-- A cutover to the second route that was not forced has found every chunk covered. -/
def Gated (s : EmbeddingPlane V) (f : Cutover) : Prop :=
  f.coverageAt ≤ s.db.chunks.nextId ∧
    (f.route = .v2 → f.force = false → CoveredBelow s f.tenant f.coverageAt)

/-- Cutovers have passed their gate, and every second route is that of a cutover. -/
structure RouteInv (s : EmbeddingPlane V) : Prop where
  flips : ∀ f ∈ s.flips, Gated s f
  cutovers : ∀ k f, s.cutovers k = some f → Gated s f
  settings : ∀ r ∈ s.settings, .fromStrLossy r.value = EmbeddingRoute.v2 →
    ∃ f ∈ s.flips, f.route = .v2 ∧ settingKey f.tenant = settingKey r.tenantId
  routes : ∀ replica tenant, s.routes replica tenant = some .v2 → Flipped s tenant
  lookups : ∀ q tenant, s.lookups q = some (tenant, .v2) → Flipped s tenant

theorem Gated.later {f : Cutover} (h : Gated s f) (hlater : VectorsStay s s') : Gated s' f :=
  ⟨h.1.trans hlater.grows.nextId_le,
    fun hroute hforce => (h.2 hroute hforce).later h.1 hlater⟩

theorem flipped_of_routeOf (hinv : RouteInv s) (h : routeOf s.settings tenant = .v2) :
    Flipped s tenant := by
  obtain ⟨r, hr, hvalue, hkey⟩ := exists_of_routeOf_eq_v2 h
  obtain ⟨f, hf, hroute, hsame⟩ := hinv.settings r hr hvalue
  exact ⟨f, hf, hroute, hsame ▸ hkey⟩

theorem routeInv_start (db : Database) (vectors : Vectors V) : RouteInv (.start db vectors) := by
  constructor <;> simp [EmbeddingPlane.start]

/-- A step that takes no part in a cutover. -/
theorem RouteInv.keep (hinv : RouteInv s) (hlater : VectorsStay s s') (hflips : s'.flips = s.flips)
    (hcutovers : ∀ k f, s'.cutovers k = some f → Gated s' f) (hsettings : s'.settings = s.settings)
    (hroutes : ∀ replica tenant, s'.routes replica tenant = some .v2 → Flipped s tenant)
    (hlookups : ∀ q tenant, s'.lookups q = some (tenant, .v2) → Flipped s tenant) :
    RouteInv s' := by
  have hflipped : ∀ tenant, Flipped s tenant → Flipped s' tenant := by
    intro tenant h
    unfold Flipped
    rw [hflips]
    exact h
  refine ⟨?_, hcutovers, ?_, fun r t h => hflipped t (hroutes r t h),
    fun q t h => hflipped t (hlookups q t h)⟩
  · intro f hf
    exact (hinv.flips f (hflips ▸ hf)).later hlater
  · rw [hsettings, hflips]
    exact hinv.settings

/-- Every step keeps the second routes those of cutovers. -/
theorem routeInv_step (hinv : RouteInv s) {e : MigrationEvent V}
    (h : s.step encode ilike sha256Hex e = some s') : RouteInv s' := by
  have hlater := (VectorsStay.refl s).step (dataStep_step h)
  have hkept : ∀ k f, s.cutovers k = some f → Gated s' f :=
    fun k f hf => (hinv.cutovers k f hf).later hlater
  cases e with
  | cutoverRead k tenant route force =>
    rcases cutoverRead_eq_some h with rfl | ⟨hgate, rfl⟩
    · exact hinv
    · refine hinv.keep hlater rfl ?_ rfl hinv.routes hinv.lookups
      intro k' f hf
      rcases update_eq_some hf with ⟨-, hnew⟩ | hold
      · obtain rfl := Option.some.inj hnew
        refine ⟨Nat.le_refl _, fun hroute hforce c hc _ hembeddable => ?_⟩
        exact isComplete_iff.mp (hgate hroute hforce) c hc hembeddable
      · exact hkept k' f hold
  | cutoverWrite k =>
    obtain ⟨cutover, hcutover, -, rfl⟩ := cutoverWrite_eq_some h
    have hgated := hkept k cutover hcutover
    have hflipped : ∀ tenant, Flipped s tenant → ∃ f ∈ s.flips ++ [cutover], f.route = .v2 ∧
        (settingKey f.tenant = tenant ∨ settingKey f.tenant = nilUuid) := by
      rintro tenant ⟨f, hf, hcovers⟩
      exact ⟨f, List.mem_append_left _ hf, hcovers⟩
    refine ⟨?_, ?_, ?_, ?_, ?_⟩
    · intro f hf
      rcases List.mem_append.mp hf with hf | hf
      · exact (hinv.flips f hf).later hlater
      · rw [List.mem_singleton.mp hf]
        exact hgated
    · intro k' f hf
      rcases update_eq_some hf with ⟨-, hnew⟩ | hold
      · obtain rfl := Option.some.inj hnew
        exact hgated
      · exact hkept k' f hold
    · intro r hr hvalue
      rcases mem_upsertSetting hr with hr | ⟨hkey, hnew⟩
      · obtain ⟨f, hf, hcovers⟩ := hinv.settings r hr hvalue
        exact ⟨f, List.mem_append_left _ hf, hcovers⟩
      · rw [hnew, EmbeddingRoute.fromStrLossy_asStr] at hvalue
        exact ⟨cutover, List.mem_append_right _ List.mem_cons_self, hvalue, hkey.symm⟩
    · exact fun replica tenant hroute => hflipped tenant (hinv.routes replica tenant hroute)
    · exact fun q tenant hroute => hflipped tenant (hinv.lookups q tenant hroute)
  | cutoverFlush k =>
    obtain rfl := cutoverFlush_eq_some h
    refine hinv.keep hlater rfl ?_ rfl ?_ hinv.lookups
    · intro k' f hf
      rcases update_eq_some hf with ⟨-, hnew⟩ | hold
      · exact absurd hnew (by simp)
      · exact hkept k' f hold
    · intro replica tenant hroute
      rcases update_row_eq_some hroute with ⟨-, hnone⟩ | hold
      · exact absurd hnone (by simp)
      · exact hinv.routes replica tenant hold
  | lookupRead q tenant =>
    obtain ⟨-, rfl⟩ := lookupRead_eq_some h
    refine hinv.keep hlater rfl hkept rfl hinv.routes ?_
    intro q' tenant' hroute
    rcases update_eq_some hroute with ⟨-, hnew⟩ | hold
    · obtain ⟨rfl, hread⟩ := Prod.mk.inj (Option.some.inj hnew)
      exact flipped_of_routeOf hinv hread
    · exact hinv.lookups q' tenant' hold
  | lookupInsert q =>
    obtain ⟨tenant, route, hlookup, rfl⟩ := lookupInsert_eq_some h
    refine hinv.keep hlater rfl hkept rfl ?_ ?_
    · intro replica tenant' hroute
      rcases update_row_eq_some hroute with ⟨rfl, hrow⟩ | hold
      · rcases update_eq_some hrow with ⟨rfl, hnew⟩ | hold
        · obtain rfl := Option.some.inj hnew
          exact hinv.lookups q _ hlookup
        · exact hinv.routes _ tenant' hold
      · exact hinv.routes replica tenant' hold
    · intro q' tenant' hroute
      rcases update_eq_some hroute with ⟨-, hnew⟩ | hold
      · exact absurd hnew (by simp)
      · exact hinv.lookups q' tenant' hold
  | evict replica tenant =>
    cases h
    refine hinv.keep hlater rfl hkept rfl ?_ hinv.lookups
    intro replica' tenant' hroute
    rcases update_row_eq_some hroute with ⟨rfl, hrow⟩ | hold
    · rcases update_eq_some hrow with ⟨-, hnew⟩ | hold
      · exact absurd hnew (by simp)
      · exact hinv.routes _ tenant' hold
    · exact hinv.routes replica' tenant' hold
  | _ =>
    rw [step_offRoutes h id] at hkept hlater ⊢
    exact hinv.keep hlater rfl hkept rfl hinv.routes hinv.lookups

/-! ## What the dense leg misses -/

/-- The route of a process is the second one only after a cutover. -/
theorem flipped_of_embeddingRoute (hinv : RouteInv s) (h : s.embeddingRoute replica tenant = .v2) :
    Flipped s tenant := by
  unfold EmbeddingPlane.embeddingRoute at h
  cases hcached : s.routes replica tenant with
  | none =>
    rw [hcached] at h
    exact flipped_of_routeOf hinv h
  | some route =>
    rw [hcached, Option.getD_some] at h
    exact hinv.routes replica tenant (h ▸ hcached)

/-- A chunk of the tenant is one that the gate of the cutover looked at. -/
theorem inTenant_of_key {f : Cutover} {c : Chunk}
    (hkey : settingKey f.tenant = c.tenantId ∨ settingKey f.tenant = nilUuid)
    (hnil : ¬ (f.tenant = some nilUuid ∧ c.tenantId ≠ nilUuid)) : inTenant f.tenant c = true := by
  unfold inTenant
  cases htenant : f.tenant with
  | none => rfl
  | some tenant =>
    rw [htenant] at hkey hnil
    have hsame : c.tenantId = tenant := by
      rcases hkey with hkey | hkey
      · exact hkey.symm
      · obtain rfl : tenant = nilUuid := hkey
        by_contra hne
        exact hnil ⟨rfl, hne⟩
    simpa using hsame

/-- In every state of every run, what the dense leg of a process compares on the second route is the
encoding of the chunk's own text. A chunk with a first vector that it leaves out, though the scope
admits it, was stored after the coverage was read for a cutover of its tenant or of the default,
unless that cutover was forced. (A cutover that names the nil tenant writes the default.) -/
theorem dense_leg_misses {db : Database} {vectors : Vectors V}
    (hblank : ∀ id, (vectors id).embeddingV2 = none) {events : List (MigrationEvent V)}
    (hrun : run (EmbeddingPlane.step encode ilike sha256Hex) (.start db vectors) events = some s)
    (replica : ReplicaId) {scope : Scope} {c : Chunk} (hc : c ∈ s.db.chunks.rows)
    (hadmits : recallDense scope c = true) :
    (∀ v, s.embeddingRoute replica scope.tenantId = .v2 →
        s.denseVector replica scope c = some v →
        v = encode c.content ∧ (s.vectors c.id).embedding.isSome = true) ∧
      ((s.vectors c.id).embedding.isSome = true → s.denseVector replica scope c = none →
        ∃ f ∈ s.flips, f.route = .v2 ∧
          (settingKey f.tenant = scope.tenantId ∨ settingKey f.tenant = nilUuid) ∧
          (f.force = true ∨ f.coverageAt ≤ c.id ∨
            f.tenant = some nilUuid ∧ scope.tenantId ≠ nilUuid)) := by
  have hvectors := vectorInv_of_run hblank hrun
  have hroutes : RouteInv s :=
    run_induction (fun _ _ _ hinv hstep => routeInv_step hinv hstep)
      (routeInv_start db vectors) hrun
  unfold EmbeddingPlane.denseVector
  rw [if_pos hadmits]
  constructor
  · intro v hroute hv
    simp only [hroute] at hv
    obtain ⟨x, hx, rfl⟩ := Option.map_eq_some_iff.mp hv
    exact hvectors.own c hc x hx
  · intro hsome hmissed
    cases hroute : s.embeddingRoute replica scope.tenantId with
    | v1 =>
      simp only [hroute] at hmissed
      rw [hmissed] at hsome
      exact absurd hsome (by simp)
    | v2 =>
      simp only [hroute, Option.map_eq_none_iff] at hmissed
      obtain ⟨f, hf, hv2, hkey⟩ := flipped_of_embeddingRoute hroutes hroute
      refine ⟨f, hf, hv2, hkey, ?_⟩
      obtain ⟨htenant, hcurrent, -, -⟩ :=
        scopePredicate_eq_true.mp (Bool.and_eq_true_iff.mp hadmits).1
      by_contra hnot
      push Not at hnot
      obtain ⟨hforce, hbefore, hnil⟩ := hnot
      have hmine : inTenant f.tenant c = true := by
        refine inTenant_of_key (htenant ▸ hkey) ?_
        rintro ⟨hf, hne⟩
        exact hne (htenant.trans (hnil hf))
      have hembeddable : embeddable s.vectors f.tenant c = true := by
        unfold embeddable
        rw [hmine, hcurrent, hsome]
        rfl
      have hcovered := ((hroutes.flips f hf).2 hv2 (Bool.eq_false_iff.mpr hforce)) c hc hbefore
        hembeddable
      rw [hmissed] at hcovered
      exact absurd hcovered (by simp)

end Routes

/-- The chunk that was stored between the coverage read and the query is left out. -/
theorem chunk_after_cutover_missed :
    ∃ s c, run embeddingStep emptyPlane
        [.cutoverRead (0, 0) none .v2 false, .cutoverWrite (0, 0), .cutoverFlush (0, 0),
          .write (.upsertChunks 1 [embeddedWrite "a" 1])] = some s ∧
      c ∈ s.db.chunks.rows ∧ recallDense ⟨1, [7], [], .internal⟩ c = true ∧
      s.denseVector 0 ⟨1, [7], [], .internal⟩ c = none ∧
      ∃ f ∈ s.flips, f.force = false ∧ f.coverageAt ≤ c.id := by
  have hview : (run embeddingStep emptyPlane
      [.cutoverRead (0, 0) none .v2 false, .cutoverWrite (0, 0), .cutoverFlush (0, 0),
        .write (.upsertChunks 1 [embeddedWrite "a" 1])]).map (fun s => (s.flips,
          s.db.chunks.rows.map fun c => (recallDense ⟨1, [7], [], .internal⟩ c,
            (s.vectors c.id).embedding, s.denseVector 0 ⟨1, [7], [], .internal⟩ c))) =
      some ([⟨none, .v2, false, 1, false⟩], [(true, some "v1", none)]) := by
    decide +kernel
  obtain ⟨s, hs, hread⟩ := Option.map_eq_some_iff.mp hview
  obtain ⟨hflips, hrows⟩ := Prod.mk.inj hread
  obtain ⟨c, hc, hfields⟩ := List.map_eq_singleton_iff.mp hrows
  obtain ⟨hadmits, hfields⟩ := Prod.mk.inj hfields
  obtain ⟨hembedding, hmissed⟩ := Prod.mk.inj hfields
  have hmem : c ∈ s.db.chunks.rows := by
    rw [hc]
    exact List.mem_cons_self
  obtain ⟨f, hf, -, -, hlate⟩ :=
    (dense_leg_misses (fun _ => rfl) hs 0 hmem hadmits).2 (by rw [hembedding]; rfl) hmissed
  have hsame := hf
  rw [hflips] at hsame
  obtain rfl := List.mem_singleton.mp hsame
  refine ⟨s, c, hs, hmem, hadmits, hmissed, _, hf, rfl, ?_⟩
  rcases hlate with hforced | hafter | ⟨hnil, -⟩
  · exact absurd hforced (by simp)
  · exact hafter
  · exact absurd hnil (by simp)

section Routes

variable {V : Type} {encode : String → V} {ilike : String → String → Bool}
  {sha256Hex : String → String} {s s' : EmbeddingPlane V}

/-! ## Routes that are kept -/

/-- A step that leaves a route in a cache is no flush of the process, or has put it there. -/
theorem routes_step {e : MigrationEvent V} (h : s.step encode ilike sha256Hex e = some s')
    (hroute : s'.routes replica tenant = some route) :
    (s.routes replica tenant = some route ∧ ∀ k : RequestId, k.1 = replica → e ≠ .cutoverFlush k) ∨
      ∃ n, e = .lookupInsert (replica, n) ∧ s.lookups (replica, n) = some (tenant, route) := by
  cases e with
  | cutoverRead k tenant route force =>
    rcases cutoverRead_eq_some h with rfl | ⟨-, rfl⟩ <;> exact Or.inl ⟨hroute, by simp⟩
  | cutoverWrite k =>
    obtain ⟨cutover, -, -, rfl⟩ := cutoverWrite_eq_some h
    exact Or.inl ⟨hroute, by simp⟩
  | cutoverFlush k =>
    obtain rfl := cutoverFlush_eq_some h
    by_cases hreplica : replica = k.1
    · subst hreplica
      simp only [Function.update_self] at hroute
      exact absurd hroute (by simp)
    · simp only [Function.update_of_ne hreplica] at hroute
      refine Or.inl ⟨hroute, ?_⟩
      rintro k' hk' hsame
      cases hsame
      exact hreplica hk'.symm
  | lookupRead q tenant =>
    obtain ⟨-, rfl⟩ := lookupRead_eq_some h
    exact Or.inl ⟨hroute, by simp⟩
  | lookupInsert q =>
    obtain ⟨tenant', route', hlookup, rfl⟩ := lookupInsert_eq_some h
    rcases update_row_eq_some hroute with ⟨rfl, hrow⟩ | hold
    · rcases update_eq_some hrow with ⟨rfl, hnew⟩ | hold
      · obtain rfl := Option.some.inj hnew
        exact Or.inr ⟨q.2, rfl, hlookup⟩
      · exact Or.inl ⟨hold, by simp⟩
    · exact Or.inl ⟨hold, by simp⟩
  | evict replica' tenant' =>
    cases h
    rcases update_row_eq_some hroute with ⟨rfl, hrow⟩ | hold
    · rcases update_eq_some hrow with ⟨-, hnew⟩ | hold
      · exact absurd hnew (by simp)
      · exact Or.inl ⟨hold, by simp⟩
    · exact Or.inl ⟨hold, by simp⟩
  | _ =>
    rw [step_offRoutes h id] at hroute
    exact Or.inl ⟨hroute, by simp⟩

/-- A lookup in flight has read the settings. -/
theorem lookups_step {e : MigrationEvent V} (h : s.step encode ilike sha256Hex e = some s')
    {q : RequestId} (hlookup : s'.lookups q = some (tenant, route)) :
    s.lookups q = some (tenant, route) ∨
      e = .lookupRead q tenant ∧ route = routeOf s.settings tenant := by
  cases e with
  | cutoverRead k tenant route force =>
    rcases cutoverRead_eq_some h with rfl | ⟨-, rfl⟩ <;> exact Or.inl hlookup
  | cutoverWrite k =>
    obtain ⟨cutover, -, -, rfl⟩ := cutoverWrite_eq_some h
    exact Or.inl hlookup
  | cutoverFlush k =>
    obtain rfl := cutoverFlush_eq_some h
    exact Or.inl hlookup
  | lookupRead q' tenant' =>
    obtain ⟨-, rfl⟩ := lookupRead_eq_some h
    rcases update_eq_some hlookup with ⟨rfl, hnew⟩ | hold
    · obtain ⟨rfl, rfl⟩ := Prod.mk.inj (Option.some.inj hnew)
      exact Or.inr ⟨rfl, rfl⟩
    · exact Or.inl hold
  | lookupInsert q' =>
    obtain ⟨tenant', route', -, rfl⟩ := lookupInsert_eq_some h
    rcases update_eq_some hlookup with ⟨-, hnew⟩ | hold
    · exact absurd hnew (by simp)
    · exact Or.inl hold
  | evict replica tenant =>
    cases h
    exact Or.inl hlookup
  | _ =>
    rw [step_offRoutes h id] at hlookup
    exact Or.inl hlookup

theorem settings_step {e : MigrationEvent V} (h : s.step encode ilike sha256Hex e = some s')
    (he : ∀ k, e ≠ .cutoverWrite k) : s'.settings = s.settings := by
  cases e with
  | cutoverRead k tenant route force =>
    rcases cutoverRead_eq_some h with rfl | ⟨-, rfl⟩ <;> rfl
  | cutoverWrite k => exact absurd rfl (he k)
  | cutoverFlush k =>
    obtain rfl := cutoverFlush_eq_some h
    rfl
  | lookupRead q tenant =>
    obtain ⟨-, rfl⟩ := lookupRead_eq_some h
    rfl
  | lookupInsert q =>
    obtain ⟨tenant, route, -, rfl⟩ := lookupInsert_eq_some h
    rfl
  | evict replica tenant =>
    cases h
    rfl
  | _ => rw [step_offRoutes h id]

theorem settings_of_run {events : List (MigrationEvent V)}
    (hrun : run (EmbeddingPlane.step encode ilike sha256Hex) s events = some s')
    (hnone : ∀ k, .cutoverWrite k ∉ events) : s'.settings = s.settings := by
  induction events generalizing s with
  | nil =>
    cases hrun
    rfl
  | cons e events ih =>
    obtain ⟨s₁, hs₁, hrest⟩ := Option.bind_eq_some_iff.mp hrun
    have hfirst := settings_step hs₁ fun k hk => hnone k (hk ▸ List.mem_cons_self)
    exact (ih hrest fun k hk => hnone k (List.mem_cons_of_mem _ hk)).trans hfirst

/-- The reply of a lookup in flight is what the settings gave when it read them. -/
theorem lookup_of_run {start : EmbeddingPlane V} (hstart : ∀ q, start.lookups q = none)
    {events : List (MigrationEvent V)}
    (hrun : run (EmbeddingPlane.step encode ilike sha256Hex) start events = some s) {q : RequestId}
    (hlookup : s.lookups q = some (tenant, route)) :
    ∃ before mid s₁, events = before ++ .lookupRead q tenant :: mid ∧
      run (EmbeddingPlane.step encode ilike sha256Hex) start before = some s₁ ∧
      route = routeOf s₁.settings tenant := by
  induction events using List.reverseRecOn generalizing s with
  | nil =>
    cases hrun
    exact absurd ((hstart q).symm.trans hlookup) (by simp)
  | append_singleton events e ih =>
    obtain ⟨s₁, hs₁, hlast⟩ := run_append.mp hrun
    obtain ⟨s₂, hs₂, hend⟩ := Option.bind_eq_some_iff.mp hlast
    cases hend
    rcases lookups_step hs₂ hlookup with hold | ⟨rfl, hroute⟩
    · obtain ⟨before, mid, s₀, rfl, hbefore, hroute⟩ := ih hs₁ hold
      exact ⟨before, mid ++ [e], s₀, by simp, hbefore, hroute⟩
    · exact ⟨events, [], s₁, rfl, hs₁, hroute⟩

/-- A cached route is what the settings gave when a lookup of the process read them, and the
process has flushed nothing since the lookup kept it. -/
theorem cached_of_run {start : EmbeddingPlane V} (hlookups : ∀ q, start.lookups q = none)
    (hroutes : ∀ replica tenant, start.routes replica tenant = none)
    {events : List (MigrationEvent V)}
    (hrun : run (EmbeddingPlane.step encode ilike sha256Hex) start events = some s)
    (hcached : s.routes replica tenant = some route) :
    ∃ before mid after n s₁,
      events = before ++ .lookupRead (replica, n) tenant ::
        (mid ++ .lookupInsert (replica, n) :: after) ∧
      run (EmbeddingPlane.step encode ilike sha256Hex) start before = some s₁ ∧
      route = routeOf s₁.settings tenant ∧
      ∀ k : RequestId, k.1 = replica → .cutoverFlush k ∉ after := by
  induction events using List.reverseRecOn generalizing s with
  | nil =>
    cases hrun
    exact absurd ((hroutes replica tenant).symm.trans hcached) (by simp)
  | append_singleton events e ih =>
    obtain ⟨s₁, hs₁, hlast⟩ := run_append.mp hrun
    obtain ⟨s₂, hs₂, hend⟩ := Option.bind_eq_some_iff.mp hlast
    cases hend
    rcases routes_step hs₂ hcached with ⟨hold, hflush⟩ | ⟨n, rfl, hlookup⟩
    · obtain ⟨before, mid, after, n, s₀, rfl, hbefore, hroute, hnone⟩ := ih hs₁ hold
      refine ⟨before, mid, after ++ [e], n, s₀, by simp, hbefore, hroute, ?_⟩
      intro k hk hmem
      rcases List.mem_append.mp hmem with hmem | hmem
      · exact hnone k hk hmem
      · exact hflush k hk (List.mem_singleton.mp hmem).symm
    · obtain ⟨before, mid, s₀, rfl, hbefore, hroute⟩ := lookup_of_run hlookups hs₁ hlookup
      exact ⟨before, mid, [], n, s₀, by simp, hbefore, hroute, by simp⟩

/-- Along every run, a process serves a cached route other than that of the settings only if a
cutover was written after the lookup it is from had read them, by this process or by another, and
this process has served no cutover to its flush since it kept the route. No time limit ends this:
a flush that came between the two parts of the lookup has gone unheeded, and the flush of another
process never comes. -/
theorem stale_route {db : Database} {vectors : Vectors V} {events : List (MigrationEvent V)}
    (hrun : run (EmbeddingPlane.step encode ilike sha256Hex) (.start db vectors) events = some s)
    {replica : ReplicaId} {tenant : TenantId} {route : EmbeddingRoute}
    (hcached : s.routes replica tenant = some route) (hstale : route ≠ routeOf s.settings tenant) :
    ∃ before mid after n,
      events = before ++ .lookupRead (replica, n) tenant ::
        (mid ++ .lookupInsert (replica, n) :: after) ∧
      (∃ k, .cutoverWrite k ∈ mid ++ after) ∧
      ∀ k : RequestId, k.1 = replica → .cutoverFlush k ∉ after := by
  obtain ⟨before, mid, after, n, s₁, rfl, hbefore, hroute, hflush⟩ :=
    cached_of_run (fun _ => rfl) (fun _ _ => rfl) hrun hcached
  refine ⟨before, mid, after, n, rfl, ?_, hflush⟩
  by_contra hnone
  push Not at hnone
  obtain ⟨s₂, hs₂, hrest⟩ := run_append.mp hrun
  obtain rfl : s₂ = s₁ := Option.some.inj (hs₂.symm.trans hbefore)
  have hsettings := settings_of_run hrest ?_
  · rw [hsettings] at hstale
    exact hstale hroute
  · intro k hk
    have hmem := hnone k
    simp only [List.mem_cons, List.mem_append, reduceCtorEq, false_or, not_or] at hk hmem
    exact hk.elim hmem.1 hmem.2

end Routes

/-- One process: its flush comes between the two parts of a lookup. -/
theorem flush_during_lookup_unheeded :
    ∃ s, run embeddingStep emptyPlane
        [.lookupRead (0, 0) 1, .cutoverRead (0, 1) none .v2 false, .cutoverWrite (0, 1),
          .cutoverFlush (0, 1), .lookupInsert (0, 0)] = some s ∧
      s.embeddingRoute 0 1 = .v1 ∧ routeOf s.settings 1 = .v2 ∧
      ∃ before mid after n,
        [.lookupRead (0, 0) 1, .cutoverRead (0, 1) none .v2 false, .cutoverWrite (0, 1),
          .cutoverFlush (0, 1), .lookupInsert (0, 0)] =
            before ++ (.lookupRead (0, n) 1 : MigrationEvent String) ::
              (mid ++ .lookupInsert (0, n) :: after) ∧
        ∃ k, .cutoverWrite k ∈ mid ++ after := by
  have hview : (run embeddingStep emptyPlane
      [.lookupRead (0, 0) 1, .cutoverRead (0, 1) none .v2 false, .cutoverWrite (0, 1),
        .cutoverFlush (0, 1), .lookupInsert (0, 0)]).map (fun s =>
          (s.routes 0 1, routeOf s.settings 1)) = some (some .v1, .v2) := by
    decide +kernel
  obtain ⟨s, hs, hread⟩ := Option.map_eq_some_iff.mp hview
  obtain ⟨hcached, hsettings⟩ := Prod.mk.inj hread
  have hstale : EmbeddingRoute.v1 ≠ routeOf s.settings 1 := by
    rw [hsettings]
    decide
  obtain ⟨before, mid, after, n, hevents, hwritten, -⟩ := stale_route hs hcached hstale
  refine ⟨s, hs, ?_, hsettings, before, mid, after, n, hevents, hwritten⟩
  unfold EmbeddingPlane.embeddingRoute
  rw [hcached]
  rfl

end Verity.Analysis
