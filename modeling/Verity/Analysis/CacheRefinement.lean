import Verity.Analysis.FactOrder
import Verity.Foundation.LookAside
import Verity.Foundation.Run
import Verity.Model.CachedDatabase

/-!
# The cache against the store

A row in the cache is the current row of its key, or a call that has changed the current row is
still to drop it (`Backed`). Every operation keeps this: a write drops its key when it replaces
the current row, an operation that closed rows drops everything, and the others leave the facts
alone.

When calls are made one after the other, nothing is ever due, and the adapter answers as the bare
store does (`cache_refines_store`, `replies_eq`). When they interleave, a read may put a row into
the cache that was replaced after the read, and if the write has dropped its key by then, the row
stays (`superseded_row_stays_cached`). It is the only way: `quiet_cache_is_current`.
-/

set_option autoImplicit false

namespace Verity.Analysis

open Verity.Foundation Verity.Model

variable {db : Database} {c : CachedDatabase} {w : Interleaved}

/-- The current rows of a database, by key. -/
def currentRows (db : Database) (k : CacheKey) : Option FactRow := db.facts.currentRow k.1 k.2

/-! ## What the operations do to the current rows -/

/-- A fact write replaces the current row of its key when its outcome says so, and no other. -/
theorem currentRows_upsertFact (db : Database) (now : Time) (fact : FactWrite) :
    ∃ db' o, db.upsertFact now fact = .ok (db', o) ∧
      ∀ k, currentRows db' k = currentRows db k ∨
        ((o = .inserted ∨ o = .superseded) ∧ k = (fact.tenantId, fact.key)) := by
  obtain ⟨t', o, hok, hup⟩ := upsertFact_spec db.facts now fact
  refine ⟨{ db with facts := t' }, o, ?_, ?_⟩
  · unfold Database.upsertFact
    rw [hok]
    rfl
  · intro k
    unfold currentRows
    rw [hup.currentRow_eq]
    split
    · rename_i hreplace
      exact Or.inr ⟨hreplace.2, Prod.ext hreplace.1.1 hreplace.1.2⟩
    · exact Or.inl rfl

/-- An operation that closed no row of the facts leaves the current rows as they are. -/
theorem currentRows_retireFacts {validTo : Time} {p : FactRow → Bool}
    (h : (db.retireFacts validTo p).2 = 0) (k : CacheKey) :
    (db.retireFacts validTo p).1.facts.currentRow k.1 k.2 = currentRows db k :=
  currentRow_congr (Database.facts_retireFacts_of_zero h) k.1 k.2

theorem currentRows_retireEntity {tenant : TenantId} {source entityId : String} {deletedAt : Time}
    (h : (db.retireEntity tenant source entityId deletedAt).2 = 0) (k : CacheKey) :
    currentRows (db.retireEntity tenant source entityId deletedAt).1 k = currentRows db k :=
  currentRows_retireFacts h k

/-- Forgetting a chunk, or an episode that nothing current came from. -/
theorem currentRows_forget {now : Time} {tenant : TenantId} {ref : ForgetRef}
    (h : (db.forget now tenant ref).2 = 0 ∨ ∃ id, ref = .chunk id) (k : CacheKey) :
    currentRows (db.forget now tenant ref).1 k = currentRows db k := by
  unfold currentRows
  rw [Database.facts_forget]
  cases ref with
  | chunk id => rfl
  | episode id =>
    rcases h with h | ⟨id', h⟩
    · exact currentRows_retireFacts (Database.retired_forget_episode h) k
    · exact absurd h (by simp)

/-! ## One call after the other -/

/-- Every cached row is the current row of its key. -/
def Current (c : CachedDatabase) : Prop :=
  Backed (currentRows c.inner) c.facts fun _ => False

theorem current_boot (db : Database) : Current (.boot db) :=
  backed_empty _ _

/-- A read answers by the current row alone, whoever warmed the cache. -/
theorem Current.currentFact_eq (h : Current c) (scope : Scope) (key : FactKey) :
    (c.currentFact scope key).2 =
      (currentRows c.inner (scope.tenantId, key)).filter (factVisible scope) := by
  unfold CachedDatabase.currentFact
  cases hhit : c.facts (scope.tenantId, key) with
  | some cached =>
    rw [h.eq_true_row (fun _ => not_false) hhit, Option.filter_some]
  | none =>
    have hstore := currentFact_eq_filter c.inner.facts scope key
    unfold currentRows
    rw [← hstore]
    cases hcur : Model.currentFact c.inner.facts scope key with
    | none => rfl
    | some r =>
      rw [hstore] at hcur
      have hvis := (Option.filter_eq_some_iff.mp hcur).2
      simp [Option.filter, hvis]

theorem Current.currentFact (h : Current c) (scope : Scope) (key : FactKey) :
    Current (c.currentFact scope key).1 := by
  unfold CachedDatabase.currentFact
  cases hhit : c.facts (scope.tenantId, key) with
  | some cached => exact h
  | none =>
    cases hcur : Model.currentFact c.inner.facts scope key with
    | none => exact h
    | some r =>
      rw [currentFact_eq_filter] at hcur
      exact h.insert (Or.inl (Option.filter_eq_some_iff.mp hcur).1)

theorem Current.upsertFact (h : Current c) (now : Time) (fact : FactWrite) :
    Current (c.upsertFact now fact).1 := by
  obtain ⟨db', o, hok, hrows⟩ := currentRows_upsertFact c.inner now fact
  unfold CachedDatabase.upsertFact
  rw [hok]
  have hdropped : Current (CachedDatabase.invalidate { c with inner := db' }
      (fact.tenantId, fact.key)) := by
    have hchanged : Backed (currentRows db') c.facts fun k => k = (fact.tenantId, fact.key) :=
      h.change (fun k => (hrows k).imp_right And.right) fun _ hfalse => hfalse.elim
    exact hchanged.drop fun k hne hk => hne hk
  have hkept : o = .unchanged ∨ o = .staleEvent → Current { c with inner := db' } := by
    intro ho
    refine h.change (fun k => Or.inl ?_) fun _ hfalse => hfalse
    refine (hrows k).resolve_right ?_
    rintro ⟨hreplaced, -⟩
    rcases ho with rfl | rfl
    · exact absurd hreplaced (by simp)
    · exact absurd hreplaced (by simp)
  cases o with
  | inserted => exact hdropped
  | superseded => exact hdropped
  | unchanged => exact hkept (Or.inl rfl)
  | staleEvent => exact hkept (Or.inr rfl)

theorem Current.forget (h : Current c) (now : Time) (tenant : TenantId) (ref : ForgetRef) :
    Current (c.forget now tenant ref).1 := by
  have hkept : (c.inner.forget now tenant ref).2 = 0 ∨ (∃ id, ref = .chunk id) →
      Current { c with inner := (c.inner.forget now tenant ref).1 } :=
    fun hnone => h.change (fun k => Or.inl (currentRows_forget hnone k)) fun _ hfalse => hfalse
  unfold CachedDatabase.forget
  dsimp only
  cases ref with
  | chunk id => exact hkept (Or.inr ⟨id, rfl⟩)
  | episode id =>
    dsimp only
    split
    · exact backed_empty _ _
    · rename_i hzero
      exact hkept (Or.inl (Nat.eq_zero_of_not_pos hzero))

theorem Current.retireEntity (h : Current c) (tenant : TenantId) (source entityId : String)
    (deletedAt : Time) : Current (c.retireEntity tenant source entityId deletedAt).1 := by
  unfold CachedDatabase.retireEntity
  dsimp only
  split
  · exact backed_empty _ _
  · rename_i hzero
    exact h.change
      (fun k => Or.inl (currentRows_retireEntity (Nat.eq_zero_of_not_pos hzero) k))
      fun _ hfalse => hfalse

/-- Every call keeps the cache current. -/
theorem Current.call (h : Current c) (a : AdapterCall) : Current (c.call a).1 := by
  cases a with
  | upsertFact now fact => exact h.upsertFact now fact
  | currentFact scope key => exact h.currentFact scope key
  | upsertChunks now writes => exact h
  | forget now tenant ref => exact h.forget now tenant ref
  | retireEntity tenant source entityId deletedAt =>
    exact h.retireEntity tenant source entityId deletedAt
  | retireDocument now tenant source documentId => exact h
  | evict k => exact h.drop fun _ _ hfalse => hfalse

theorem current_after (db : Database) (calls : List AdapterCall) :
    Current ((CachedDatabase.boot db).after calls) := by
  have hrun : ∀ c : CachedDatabase, Current c → Current (c.after calls) := by
    unfold CachedDatabase.after
    induction calls with
    | nil => exact fun c h => h
    | cons a calls ih => exact fun c h => ih _ (h.call a)
  exact hrun _ (current_boot db)

/-- Each call leaves the store as the bare store would be and returns what it would return. -/
theorem Current.call_eq (h : Current c) (a : AdapterCall) :
    (c.call a).1.inner = (c.inner.call a).1 ∧ (c.call a).2 = (c.inner.call a).2 := by
  cases a with
  | upsertFact now fact =>
    unfold CachedDatabase.call Database.call CachedDatabase.upsertFact
    dsimp only
    cases c.inner.upsertFact now fact with
    | error e => exact ⟨rfl, rfl⟩
    | ok result =>
      obtain ⟨db, o⟩ := result
      cases o <;> exact ⟨rfl, rfl⟩
  | currentFact scope key =>
    refine ⟨?_, ?_⟩
    · unfold CachedDatabase.call Database.call CachedDatabase.currentFact
      dsimp only
      split
      · rfl
      · split <;> rfl
    · have hread := (h.currentFact_eq scope key).trans (currentFact_eq_filter _ scope key).symm
      exact congrArg AdapterReply.fact hread
  | upsertChunks now writes => exact ⟨rfl, rfl⟩
  | forget now tenant ref =>
    unfold CachedDatabase.call Database.call CachedDatabase.forget
    dsimp only
    cases ref with
    | chunk id => exact ⟨rfl, rfl⟩
    | episode id =>
      dsimp only
      split <;> exact ⟨rfl, rfl⟩
  | retireEntity tenant source entityId deletedAt =>
    unfold CachedDatabase.call Database.call CachedDatabase.retireEntity
    dsimp only
    split <;> exact ⟨rfl, rfl⟩
  | retireDocument now tenant source documentId => exact ⟨rfl, rfl⟩
  | evict k => exact ⟨rfl, rfl⟩

/-- A sequence of calls gets the same replies from the adapter as from the bare store. -/
theorem replies_eq (db : Database) (calls : List AdapterCall) :
    (CachedDatabase.boot db).replies calls = db.replies calls := by
  have hrun : ∀ c : CachedDatabase, Current c → c.replies calls = c.inner.replies calls := by
    induction calls with
    | nil => exact fun c h => rfl
    | cons a calls ih =>
      intro c h
      obtain ⟨hinner, hreply⟩ := h.call_eq a
      rw [CachedDatabase.replies, Database.replies, hreply, ih _ (h.call a), hinner]
  exact hrun _ (current_boot db)

/-- After any sequence of calls a read returns the current row of its key when the scope may see
it and nothing otherwise, which is what the store's own predicate selects. And every call of the
sequence is answered as by the bare store. -/
theorem cache_refines_store (db : Database) (calls : List AdapterCall) (scope : Scope)
    (key : FactKey) :
    (((CachedDatabase.boot db).after calls).currentFact scope key).2 =
        (((CachedDatabase.boot db).after calls).inner.facts.currentRow scope.tenantId key).filter
          (factVisible scope) ∧
      (((CachedDatabase.boot db).after calls).currentFact scope key).2 =
        Model.currentFact ((CachedDatabase.boot db).after calls).inner.facts scope key ∧
      (CachedDatabase.boot db).replies calls = db.replies calls := by
  have hread := (current_after db calls).currentFact_eq scope key
  refine ⟨hread, hread.trans ?_, replies_eq db calls⟩
  exact (currentFact_eq_filter _ scope key).symm

/-! ## Calls that interleave -/

/-- The call is going to drop the key. -/
def Drops (k : CacheKey) : InFlight → Prop
  | .invalidating k' => k' = k
  | .flushing => True
  | _ => False

/-- One of the calls under way is going to drop the key. -/
def Due (w : Interleaved) (k : CacheKey) : Prop := ∃ f ∈ w.inFlight, Drops k f

/-- The invariant of the interleaved system. -/
def Watched (w : Interleaved) : Prop :=
  Backed (currentRows w.adapter.inner) w.adapter.facts (Due w)

/-- The side condition on a run: a row that a read puts into the cache is still the current one,
or a call that is under way is going to drop its key. -/
def InsertsFresh (w : Interleaved) : AdapterEvent → Prop
  | .resume i => ∀ k row, w.inFlight[i]? = some (.inserting k row) →
      currentRows w.adapter.inner k = some row ∨ Due w k
  | _ => True

instance decidableDrops (k : CacheKey) : (f : InFlight) → Decidable (Drops k f)
  | .reading _ _ => isFalse not_false
  | .inserting _ _ => isFalse not_false
  | .invalidating k' => inferInstanceAs (Decidable (k' = k))
  | .flushing => isTrue trivial

instance (w : Interleaved) (k : CacheKey) : Decidable (Due w k) :=
  inferInstanceAs (Decidable (∃ f ∈ w.inFlight, Drops k f))

instance decidableInsertsFresh (w : Interleaved) :
    (event : AdapterEvent) → Decidable (InsertsFresh w event)
  | .lookup _ _ | .upsertFact _ _ | .forget _ _ _ | .retireEntity _ _ _ _ | .evict _ =>
    isTrue trivial
  | .resume i =>
    match hi : w.inFlight[i]? with
    | some (.inserting k row) =>
      decidable_of_iff (currentRows w.adapter.inner k = some row ∨ Due w k)
        (by simp [InsertsFresh, hi])
    | some (.reading _ _) | some (.invalidating _) | some .flushing | none =>
      isTrue (by simp [InsertsFresh, hi])

/-- A commit may change the current rows that its call is going to drop. -/
theorem Watched.commit (h : Watched w) {next : List InFlight}
    (hrows : ∀ k, currentRows db k = currentRows w.adapter.inner k ∨ ∃ f ∈ next, Drops k f) :
    Watched (w.commit db next) := by
  refine Backed.change h ?_ ?_
  · intro k
    refine (hrows k).imp_right ?_
    rintro ⟨f, hf, hdrops⟩
    exact ⟨f, List.mem_append_right _ hf, hdrops⟩
  · rintro k ⟨f, hf, hdrops⟩
    exact ⟨f, List.mem_append_left _ hf, hdrops⟩

/-- An operation that closed rows is going to drop everything. -/
theorem flushing_mem {retired : Nat} (h : retired ≠ 0) :
    InFlight.flushing ∈ if retired > 0 then [InFlight.flushing] else [] := by
  rw [if_pos (Nat.pos_of_ne_zero h)]
  exact List.mem_singleton.mpr rfl

/-- A key is still due when another call than the one that dropped it is under way. -/
theorem due_eraseIdx {inFlight : List InFlight} {i : Nat} {f : InFlight}
    (hi : inFlight[i]? = some f) {k : CacheKey} (hf : ¬ Drops k f)
    (hdue : ∃ g ∈ inFlight, Drops k g) : ∃ g ∈ inFlight.eraseIdx i, Drops k g := by
  obtain ⟨g, hg, hdrops⟩ := hdue
  refine ⟨g, ?_, hdrops⟩
  obtain ⟨j, hj⟩ := List.mem_iff_getElem?.mp hg
  refine List.mem_eraseIdx_iff_getElem?.mpr ⟨j, ?_, hj⟩
  rintro rfl
  rw [hi, Option.some.injEq] at hj
  exact hf (hj ▸ hdrops)

/-- An insert that is fresh keeps the cache coherent. -/
theorem Watched.resume (h : Watched w) {i : Nat} {f : InFlight} (hi : w.inFlight[i]? = some f)
    (hfresh : InsertsFresh w (.resume i)) :
    Watched ({ w with inFlight := w.inFlight.eraseIdx i }.resume f) := by
  cases f with
  | reading scope key =>
    -- nothing is due less, whether a row was read or not
    have hkept : ∀ k, Due w k → ∀ next, ∃ g ∈ w.inFlight.eraseIdx i ++ next, Drops k g := by
      intro k hdue next
      obtain ⟨g, hg, hdrops⟩ := due_eraseIdx hi (k := k) (fun hfalse => hfalse) hdue
      exact ⟨g, List.mem_append_left _ hg, hdrops⟩
    unfold Interleaved.resume
    dsimp only
    split
    · exact Backed.change h (fun k => Or.inl rfl) fun k hdue => hkept k hdue _
    · refine Backed.change h (fun k => Or.inl rfl) fun k hdue => ?_
      simpa [Due] using hkept k hdue []
  | inserting k row =>
    have hrow := hfresh k row hi
    refine Backed.change (Backed.insert h hrow) (fun k => Or.inl rfl) ?_
    exact fun k' hdue => due_eraseIdx hi (fun hfalse => hfalse) hdue
  | invalidating k =>
    refine Backed.drop h fun k' hne hdue => ?_
    exact due_eraseIdx hi (fun hdrops => hne (Eq.symm hdrops)) hdue
  | flushing => exact backed_empty _ _

/-- Every step that meets the side condition keeps the invariant. -/
theorem Watched.step {w' : Interleaved} (h : Watched w) {event : AdapterEvent}
    (hfresh : InsertsFresh w event) (hstep : w.step event = some w') : Watched w' := by
  cases event with
  | lookup scope key =>
    unfold Interleaved.step at hstep
    dsimp only at hstep
    split at hstep
    · cases hstep
      exact h
    · cases hstep
      refine Backed.change h (fun k => Or.inl rfl) ?_
      rintro k ⟨f, hf, hdrops⟩
      exact ⟨f, List.mem_append_left _ hf, hdrops⟩
  | upsertFact now fact =>
    obtain ⟨db', o, hok, hrows⟩ := currentRows_upsertFact w.adapter.inner now fact
    unfold Interleaved.step at hstep
    dsimp only at hstep
    rw [hok] at hstep
    cases hstep
    refine h.commit fun k => (hrows k).imp_right ?_
    rintro ⟨ho, hk⟩
    refine ⟨.invalidating (fact.tenantId, fact.key), ?_, hk.symm⟩
    rcases ho with rfl | rfl
    · exact List.mem_singleton.mpr rfl
    · exact List.mem_singleton.mpr rfl
  | forget now tenant ref =>
    cases hstep
    refine h.commit fun k => ?_
    cases ref with
    | chunk id => exact Or.inl (currentRows_forget (Or.inr ⟨id, rfl⟩) k)
    | episode id =>
      by_cases hzero : (w.adapter.inner.forget now tenant (.episode id)).2 = 0
      · exact Or.inl (currentRows_forget (Or.inl hzero) k)
      · exact Or.inr ⟨.flushing, flushing_mem hzero, trivial⟩
  | retireEntity tenant source entityId deletedAt =>
    cases hstep
    refine h.commit fun k => ?_
    by_cases hzero : (w.adapter.inner.retireEntity tenant source entityId deletedAt).2 = 0
    · exact Or.inl (currentRows_retireEntity hzero k)
    · exact Or.inr ⟨.flushing, flushing_mem hzero, trivial⟩
  | resume i =>
    unfold Interleaved.step at hstep
    dsimp only at hstep
    cases hi : w.inFlight[i]? with
    | none =>
      rw [hi] at hstep
      exact absurd hstep (by simp)
    | some f =>
      rw [hi] at hstep
      cases hstep
      exact h.resume hi hfresh
  | evict k =>
    cases hstep
    exact Backed.drop h fun _ _ hdue => hdue

/-- Take any interleaving of reads and writes in which every row that a read puts into the cache
is the current one by then, or is going to be dropped by a call under way. Once all calls have
finished, every cached row is the current row of its key, and a read answers by it. -/
theorem quiet_cache_is_current {db : Database} {events : List AdapterEvent} {w : Interleaved}
    (hfresh : Along Interleaved.step InsertsFresh (.boot db) events)
    (hrun : run Interleaved.step (.boot db) events = some w) (hquiet : w.inFlight = []) :
    (∀ k row, w.adapter.facts k = some row →
        w.adapter.inner.facts.currentRow k.1 k.2 = some row) ∧
      ∀ scope key, (w.adapter.currentFact scope key).2 =
        (w.adapter.inner.facts.currentRow scope.tenantId key).filter (factVisible scope) := by
  have hboot : Watched (.boot db) := backed_empty _ _
  have hwatched : Watched w :=
    run_invariant (fun _ _ _ h hf hs => Watched.step h hf hs) hboot hfresh hrun
  have hnone : ∀ k, ¬ Due w k := by
    rintro k ⟨f, hf, -⟩
    rw [hquiet] at hf
    exact absurd hf List.not_mem_nil
  have hcurrent : Current w.adapter :=
    Backed.change hwatched (fun k => Or.inl rfl) fun k hdue => hnone k hdue
  exact ⟨fun k row hheld => hwatched.eq_true_row hnone hheld,
    fun scope key => hcurrent.currentFact_eq scope key⟩

def amountKey : FactKey := ⟨"hubspot", "deal-42", "amount"⟩

/-- The amount is written, read into the cache and written again, each call after the other. -/
def readBetweenWrites : List AdapterEvent :=
  [.upsertFact 9 (amountAt 1 50 [1]), .resume 0, .lookup (readScope [1]) amountKey, .resume 0,
    .resume 0, .upsertFact 9 (amountAt 2 84 [1]), .resume 0]

/-- In this run every cached row is the current row of its key, and so is what any read returns. -/
theorem read_between_writes_is_current :
    ∃ w, run Interleaved.step (.boot .empty) readBetweenWrites = some w ∧ w.inFlight = [] ∧
      (∀ k row, w.adapter.facts k = some row →
        w.adapter.inner.facts.currentRow k.1 k.2 = some row) ∧
      ∀ scope key, (w.adapter.currentFact scope key).2 =
        (w.adapter.inner.facts.currentRow scope.tenantId key).filter (factVisible scope) := by
  have hfresh : Along Interleaved.step InsertsFresh (.boot .empty) readBetweenWrites := by
    decide +kernel
  exact ⟨_, rfl, rfl, quiet_cache_is_current hfresh rfl rfl⟩

/-- The amount is read while it is written again: the read takes the old row from the store, the
write commits and drops its key, and then the read puts the old row into the cache. -/
def readAcrossWrite : List AdapterEvent :=
  [.upsertFact 9 (amountAt 1 50 [1]), .resume 0, .lookup (readScope [1]) amountKey, .resume 0,
    .upsertFact 9 (amountAt 2 84 [1]), .resume 1, .resume 0]

/-- All calls have finished, the current amount is 84, and the cache still serves 50. -/
theorem superseded_row_stays_cached :
    ∃ w, run Interleaved.step (.boot .empty) readAcrossWrite = some w ∧ w.inFlight = [] ∧
      (w.adapter.facts (1, amountKey)).map FactRow.value = some (.posInt 50) ∧
      (w.adapter.inner.facts.currentRow 1 amountKey).map FactRow.value = some (.posInt 84) ∧
      (w.adapter.currentFact (readScope [1]) amountKey).2.map FactRow.value =
        some (.posInt 50) := by
  refine ⟨_, rfl, ?_, ?_, ?_, ?_⟩ <;> decide +kernel

end Verity.Analysis
