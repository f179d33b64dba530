import Verity.Foundation.Run
import Verity.Model.CachedDatabase
import Verity.Analysis.FactOrder

/-!
# The cache and ACL corrections

A read through `CachedAdapter` is meant to answer as the store does. A row in the cache is
the current row of its key when it enters it (`CachedRow`), writes drop it when the current
row changes, and nothing else should come between: but an ACL correction rewrites the row
in the store and leaves the cached copy as it was, with the old visibility and class.

`corrected_acl_decides_later_reads` states what is left. In every run in which no
correction meets a cached row that differs from the ACL it lays down, a correction that
returned success decides every later read of its key, until a write or another correction
brings an ACL of its own. `unshared_token_still_reads` is the run where it does not.
-/

set_option autoImplicit false

namespace Verity.Analysis

open Verity.Model Verity.Foundation

variable {c : CachedAdapter}

/-! ## What a correction does to the facts -/

/-- The fact key a correction is about and the ACL it brings, when nothing of the request is
refused before the rewrite. -/
def factTarget (s : Store) (req : AclChangeRequest) : Option (FactKey × ResolvedAcl) :=
  match parseInlineAcl (.obj [("verity_acl", req.verityAcl)]), req.object, req.fact with
  | some acl, none, some fact =>
    if acl.provenance ≠ .quarantined ∧ req.tenantId ∈ s.tenants then
      some (req.factKey fact, acl)
    else none
  | _, _, _ => none

/-- The class a correction of a fact key lays down. -/
def factClass (s : Store) (tenant : TenantId) (key : FactKey) (acl : ResolvedAcl)
    (reason : AclCorrectionReason) : Confidentiality :=
  correctedConfidentiality reason acl.confidentiality
    (currentFactConfidentiality s.facts tenant key)

/-- A correction rewrites the fact key it is about, and otherwise leaves the facts alone. -/
theorem dispatchAclCorrection_facts (s : Store) (req : AclChangeRequest)
    (reason : AclCorrectionReason) (changedBy : String) :
    (dispatchAclCorrection s req reason changedBy).1.facts =
      match factTarget s req with
      | some (key, acl) => s.facts.setAcl req.tenantId key acl.visibility
          (factClass s req.tenantId key acl reason)
      | none => s.facts := by
  unfold dispatchAclCorrection factTarget
  cases parseInlineAcl (.obj [("verity_acl", req.verityAcl)]) with
  | none => rfl
  | some acl =>
    by_cases hq : acl.provenance = .quarantined
    · cases req.object <;> cases req.fact <;> simp [hq]
    by_cases ht : req.tenantId ∈ s.tenants
    · cases req.object <;> cases req.fact <;>
        simp [hq, ht, Store.ensureTenant, AclChangeRequest.reply_fst, Store.correctFactAcl,
          Store.correctChunkAcl, factClass]
    · cases req.object <;> cases req.fact <;> simp [hq, ht, Store.ensureTenant]

/-- The current row of a key after its ACL was rewritten, and of any other key. -/
theorem currentRow_setAcl (t : FactTable) (tenant tenant' : TenantId) (key key' : FactKey)
    (visibility : List PrincipalToken) (conf : Confidentiality) :
    (t.setAcl tenant key visibility conf).currentRow tenant' key' =
      (t.currentRow tenant' key').map fun r =>
        if tenant' = tenant ∧ key' = key then
          { r with visibility := visibility, confidentiality := conf }
        else r := by
  cases hcur : t.currentRow tenant' key' with
  | none =>
    rw [currentRow_eq_none_iff] at hcur
    rw [Option.map_none, currentRow_eq_none_iff]
    intro r hr htenant hkey
    obtain ⟨r₀, hr₀, rfl⟩ := List.mem_map.mp hr
    by_cases h : r₀.tenantId = tenant ∧ r₀.key = key
    · rw [if_pos h] at htenant hkey ⊢
      exact hcur r₀ hr₀ htenant hkey
    · rw [if_neg h] at htenant hkey ⊢
      exact hcur r₀ hr₀ htenant hkey
  | some r =>
    obtain ⟨hmem, rfl, rfl, hnone⟩ := currentRow_eq_some_iff.mp hcur
    rw [Option.map_some, currentRow_eq_some_iff]
    refine ⟨List.mem_map.mpr ⟨r, hmem, rfl⟩, ?_⟩
    split <;> exact ⟨rfl, rfl, hnone⟩

/-! ## What the cache holds -/

/-- A cached row stands for the current one: same value, and the same scopes see it. -/
structure CachedRow (cached cur : FactRow) : Prop where
  value : cached.value = cur.value
  key : cached.key = cur.key
  visibility : ∀ p, p ∈ cached.visibility ↔ p ∈ cur.visibility
  confidentiality : cached.confidentiality = cur.confidentiality

/-- Every cached row stands for the current row of its key. -/
def Coherent (c : CachedAdapter) : Prop :=
  ∀ k cached, c.facts k = some cached →
    ∃ cur, c.inner.facts.currentRow k.1 k.2 = some cur ∧ CachedRow cached cur

/-- The side condition on a run. When a correction rewrites a fact key, a row of the key that
the cache holds must carry the ACL of the correction already: the same tokens, and its class
(for an un-share, which only raises the class, at least its class). -/
def CacheAgrees (c : CachedAdapter) : CachedAdapter.Call → Prop
  | .correct req reason _ => ∀ key acl cached, factTarget c.inner req = some (key, acl) →
      c.facts (req.tenantId, key) = some cached →
        (∀ p, p ∈ cached.visibility ↔ p ∈ acl.visibility) ∧
        if reason = .sourceUnshare then acl.confidentiality ≤ cached.confidentiality
        else acl.confidentiality = cached.confidentiality
  | _ => True

theorem CachedRow.factVisible_eq {cached cur : FactRow} (h : CachedRow cached cur)
    (scope : Scope) : factVisible scope cached = factVisible scope cur := by
  have hover : (scope.principals.any fun p => cached.visibility.contains p) =
      scope.principals.any fun p => cur.visibility.contains p := by
    rw [Bool.eq_iff_iff]
    simp only [List.any_eq_true, List.contains_iff_mem, h.visibility]
  simp only [factVisible, Scope.sees, hover, h.key, h.confidentiality]

/-- A coherent cache answers a read as the store does. -/
theorem Coherent.read (h : Coherent c) (scope : Scope) (key : FactKey) :
    (c.currentFact scope key).2.map FactRow.value =
      ((c.inner.facts.currentRow scope.tenantId key).filter (factVisible scope)).map
        FactRow.value := by
  unfold CachedAdapter.currentFact
  cases hhit : c.facts (scope.tenantId, key) with
  | some cached =>
    obtain ⟨cur, hcur, hrow⟩ := h _ _ hhit
    rw [hcur, Option.filter_some, ← hrow.factVisible_eq]
    by_cases hvis : factVisible scope cached = true <;> simp [hvis, hrow.value]
  | none =>
    rw [← currentFact_eq_filter]
    cases hcur : currentFact c.inner.facts scope key with
    | none => rfl
    | some r =>
      rw [currentFact_eq_filter] at hcur
      have hvis := (Option.filter_eq_some_iff.mp hcur).2
      simp [Option.filter, hvis]

theorem Coherent.evict (h : Coherent c) (k : TenantId × FactKey) : Coherent (c.invalidate k) := by
  intro k' cached hcached
  simp only [CachedAdapter.invalidate, Function.update_apply] at hcached
  split at hcached
  · exact absurd hcached (by simp)
  · exact h k' cached hcached

theorem Coherent.afterRead (h : Coherent c) (scope : Scope) (key : FactKey) :
    Coherent (c.currentFact scope key).1 := by
  unfold CachedAdapter.currentFact
  cases hhit : c.facts (scope.tenantId, key) with
  | some cached => exact h
  | none =>
    cases hcur : currentFact c.inner.facts scope key with
    | none => exact h
    | some r =>
      intro k cached hcached
      simp only [CachedAdapter.insert, Function.update_apply] at hcached
      split at hcached
      · rename_i hk
        subst hk
        rw [currentFact_eq_filter] at hcur
        cases hcached
        exact ⟨r, (Option.filter_eq_some_iff.mp hcur).1, ⟨rfl, rfl, fun _ => Iff.rfl, rfl⟩⟩
      · exact h k cached hcached

theorem upsertFact_adapter (c : CachedAdapter) (now : Time) (fact : FactWrite) :
    ∃ t' o, upsertFact c.inner.facts now fact = .ok (t', o) ∧
      Upserted c.inner.facts now fact t'.rows o ∧
      c.call (.upsert now fact) =
        if o = .inserted ∨ o = .superseded then
          CachedAdapter.invalidate { c with inner := { c.inner with facts := t' } }
            (fact.tenantId, fact.key)
        else { c with inner := { c.inner with facts := t' } } := by
  obtain ⟨t', o, hok, hup⟩ := upsertFact_spec c.inner.facts now fact
  refine ⟨t', o, hok, hup, ?_⟩
  simp only [CachedAdapter.call, CachedAdapter.upsertFact, hok]
  cases o <;> simp

theorem Coherent.afterUpsert (h : Coherent c) (now : Time) (fact : FactWrite) :
    Coherent (c.call (.upsert now fact)) := by
  obtain ⟨t', o, -, hup, heq⟩ := upsertFact_adapter c now fact
  rw [heq]
  have hcur := hup.currentRow_eq
  -- a row of another key, or of this key when the current row stays, is still the current one
  have hkeep : ∀ k cached, c.facts k = some cached →
      ¬ ((k.1 = fact.tenantId ∧ k.2 = fact.key) ∧ (o = .inserted ∨ o = .superseded)) →
      ∃ cur, t'.currentRow k.1 k.2 = some cur ∧ CachedRow cached cur := by
    intro k cached hcached hne
    rw [hcur k.1 k.2, if_neg hne]
    exact h k cached hcached
  split
  · rename_i ho
    intro k cached hcached
    simp only [CachedAdapter.invalidate, Function.update_apply] at hcached
    split at hcached
    · exact absurd hcached (by simp)
    · rename_i hk
      exact hkeep k cached hcached fun hrep => hk (Prod.ext hrep.1.1 hrep.1.2)
  · rename_i ho
    intro k cached hcached
    exact hkeep k cached hcached fun hrep => ho hrep.2

/-- A correction keeps the cache coherent, when a cached row it meets agrees with it. -/
theorem Coherent.afterCorrection (h : Coherent c) {req : AclChangeRequest}
    {reason : AclCorrectionReason} {changedBy : String}
    (hagree : CacheAgrees c (.correct req reason changedBy)) :
    Coherent (c.call (.correct req reason changedBy)) := by
  intro k cached hcached
  obtain ⟨cur, hcur, hrow⟩ := h k cached hcached
  simp only [CachedAdapter.call, dispatchAclCorrection_facts]
  cases htarget : factTarget c.inner req with
  | none => exact ⟨cur, hcur, hrow⟩
  | some target =>
    obtain ⟨key, acl⟩ := target
    simp only [currentRow_setAcl, hcur, Option.map_some, Option.some.injEq, exists_eq_left']
    by_cases hk : k.1 = req.tenantId ∧ k.2 = key
    · rw [if_pos hk]
      obtain ⟨tenant, key'⟩ := k
      obtain ⟨rfl, rfl⟩ := hk
      obtain ⟨hvis, hconf⟩ := hagree key' acl cached htarget hcached
      refine ⟨hrow.value, hrow.key, hvis, ?_⟩
      unfold factClass correctedConfidentiality currentFactConfidentiality
      rw [hcur]
      by_cases hr : reason = .sourceUnshare
      · rw [if_pos hr] at hconf ⊢
        simp only [Option.map_some]
        rw [← hrow.confidentiality, max_eq_right hconf]
      · rw [if_neg hr] at hconf ⊢
        exact hconf.symm
    · rw [if_neg hk]
      exact hrow

theorem Coherent.step (h : Coherent c) {call : CachedAdapter.Call} (hagree : CacheAgrees c call) :
    Coherent (c.call call) := by
  cases call with
  | upsert now fact => exact h.afterUpsert now fact
  | read scope key => exact h.afterRead scope key
  | correct req reason changedBy => exact h.afterCorrection hagree
  | evict tenant key => exact h.evict (tenant, key)

/-! ## Runs -/

/-- A call that gives the key an ACL of its own: a write that becomes current, or another
correction of the key. -/
def ReplacesAcl (tenant : TenantId) (key : FactKey) (c : CachedAdapter) : CachedAdapter.Call → Prop
  | .upsert now fact => fact.tenantId = tenant ∧ fact.key = key ∧
      ((c.upsertFact now fact).2 = .ok .inserted ∨ (c.upsertFact now fact).2 = .ok .superseded)
  | .correct req _ _ => req.tenantId = tenant ∧ ∃ acl, factTarget c.inner req = some (key, acl)
  | _ => False

/-- The current row of the key, if there is one, carries the given ACL. -/
def RowAcl (tenant : TenantId) (key : FactKey) (visibility : List PrincipalToken)
    (conf : Confidentiality) (c : CachedAdapter) : Prop :=
  ∀ r, c.inner.facts.currentRow tenant key = some r →
    r.visibility = visibility ∧ r.confidentiality = conf

/-- A call that brings no ACL of its own leaves the ACL of the current row. -/
theorem RowAcl.step {tenant : TenantId} {key : FactKey} {visibility : List PrincipalToken}
    {conf : Confidentiality} (h : RowAcl tenant key visibility conf c) {call : CachedAdapter.Call}
    (hkeep : ¬ ReplacesAcl tenant key c call) :
    RowAcl tenant key visibility conf (c.call call) := by
  cases call with
  | upsert now fact =>
    obtain ⟨t', o, hok, hup, heq⟩ := upsertFact_adapter c now fact
    have hinner : (c.call (.upsert now fact)).inner.facts = t' := by
      rw [heq]
      split <;> rfl
    intro r hr
    rw [hinner, hup.currentRow_eq, if_neg] at hr
    · exact h r hr
    · rintro ⟨⟨rfl, rfl⟩, ho⟩
      refine hkeep ⟨rfl, rfl, ?_⟩
      simp only [CachedAdapter.upsertFact, hok]
      rcases ho with rfl | rfl <;> simp
  | read scope key' =>
    have hinner : (c.call (.read scope key')).inner = c.inner := by
      simp only [CachedAdapter.call, CachedAdapter.currentFact]
      split
      · rfl
      · split <;> rfl
    intro r hr
    rw [hinner] at hr
    exact h r hr
  | correct req reason changedBy =>
    intro r hr
    simp only [CachedAdapter.call, dispatchAclCorrection_facts] at hr
    cases htarget : factTarget c.inner req with
    | none =>
      rw [htarget] at hr
      exact h r hr
    | some target =>
      obtain ⟨key', acl⟩ := target
      simp only [htarget, currentRow_setAcl, Option.map_eq_some_iff] at hr
      obtain ⟨r₀, hr₀, rfl⟩ := hr
      rw [if_neg]
      · exact h r₀ hr₀
      · rintro ⟨rfl, rfl⟩
        exact hkeep ⟨rfl, acl, htarget⟩
  | evict tenant' key' => exact h

/-- A fact correction that returned success was refused nowhere. -/
theorem factTarget_of_ok {s : Store} {req : AclChangeRequest} {reason : AclCorrectionReason}
    {changedBy : String} {reply : AclChangeReply} {fact : String × String} {acl : ResolvedAcl}
    (hfact : req.fact = some fact)
    (hacl : parseInlineAcl (.obj [("verity_acl", req.verityAcl)]) = some acl)
    (hok : (dispatchAclCorrection s req reason changedBy).2 = .ok reply) :
    factTarget s req = some (req.factKey fact, acl) := by
  unfold dispatchAclCorrection at hok
  unfold factTarget
  rw [hacl, hfact] at hok ⊢
  by_cases hq : acl.provenance = .quarantined
  · simp [hq] at hok
  by_cases ht : req.tenantId ∈ s.tenants
  · cases hobj : req.object with
    | none => simp [hq, ht]
    | some documentId => simp [hq, ht, hobj, Store.ensureTenant] at hok
  · simp [hq, ht, Store.ensureTenant] at hok

/-- Take any run of a server from its start in which every correction meets the side
condition `CacheAgrees`, and in it a correction of a fact key that returned success. Every
later read of the key, before a call that brings another ACL, is decided by the corrected
visibility and class; a scope without a token of the corrected visibility reads nothing. -/
theorem corrected_acl_decides_later_reads {store : Store} {before after : List CachedAdapter.Call}
    {req : AclChangeRequest} {reason : AclCorrectionReason} {changedBy : String}
    {reply : AclChangeReply} {fact : String × String} {acl : ResolvedAcl} {c c' : CachedAdapter}
    (hagree : Along CachedAdapter.step CacheAgrees (CachedAdapter.boot store)
      (before ++ .correct req reason changedBy :: after))
    (hbefore : run CachedAdapter.step (CachedAdapter.boot store) before = some c)
    (hfact : req.fact = some fact)
    (hacl : parseInlineAcl (.obj [("verity_acl", req.verityAcl)]) = some acl)
    (hok : (dispatchAclCorrection c.inner req reason changedBy).2 = .ok reply)
    (hafter : run CachedAdapter.step (c.call (.correct req reason changedBy)) after = some c')
    (hkept : Along CachedAdapter.step
      (fun c call => ¬ ReplacesAcl req.tenantId (req.factKey fact) c call)
      (c.call (.correct req reason changedBy)) after)
    (scope : Scope) (htenant : scope.tenantId = req.tenantId) :
    (c'.currentFact scope (req.factKey fact)).2.map FactRow.value =
      (if scope.sees fact.1 acl.visibility
          (factClass c.inner req.tenantId (req.factKey fact) acl reason) then
        (c'.inner.facts.currentRow req.tenantId (req.factKey fact)).map FactRow.value
      else none) ∧
    ((∀ p ∈ scope.principals, p ∉ acl.visibility) →
      (c'.currentFact scope (req.factKey fact)).2 = none) := by
  have htarget := factTarget_of_ok hfact hacl hok
  rw [along_append] at hagree
  obtain ⟨hagreeBefore, hagreeAfter⟩ := hagree
  obtain ⟨hagreeHere, hagreeAfter⟩ := hagreeAfter c hbefore
  have hcohere : ∀ c call c', Coherent c → CacheAgrees c call →
      CachedAdapter.step c call = some c' → Coherent c' := by
    intro c call c' h hagree hstep
    cases hstep
    exact h.step hagree
  have hboot : Coherent (CachedAdapter.boot store) := by
    intro k cached hcached
    simp [CachedAdapter.boot] at hcached
  have hc : Coherent c := run_invariant hcohere hboot hagreeBefore hbefore
  have hc' : Coherent c' :=
    run_invariant hcohere (hc.step hagreeHere) (hagreeAfter _ rfl) hafter
  -- the correction lays its ACL on the current row, and nothing after it takes it away
  have hlaid : RowAcl req.tenantId (req.factKey fact) acl.visibility
      (factClass c.inner req.tenantId (req.factKey fact) acl reason)
      (c.call (.correct req reason changedBy)) := by
    intro r hr
    simp only [CachedAdapter.call, dispatchAclCorrection_facts, htarget, currentRow_setAcl,
      Option.map_eq_some_iff] at hr
    obtain ⟨r₀, -, rfl⟩ := hr
    simp
  have hrow := run_invariant (fun _ _ _ h hkeep hstep => by cases hstep; exact h.step hkeep)
    hlaid hkept hafter
  have hread : (c'.currentFact scope (req.factKey fact)).2.map FactRow.value =
      if scope.sees fact.1 acl.visibility
          (factClass c.inner req.tenantId (req.factKey fact) acl reason) then
        (c'.inner.facts.currentRow req.tenantId (req.factKey fact)).map FactRow.value
      else none := by
    rw [hc'.read, htenant]
    cases hcur : c'.inner.facts.currentRow req.tenantId (req.factKey fact) with
    | none => simp
    | some r =>
      obtain ⟨hvis, hconf⟩ := hrow r hcur
      have hkey := (currentRow_eq_some_iff.mp hcur).2.2.1
      rw [Option.filter_some, factVisible, hkey, hvis, hconf]
      show Option.map FactRow.value (if scope.sees fact.1 _ _ then some r else none) = _
      split <;> rfl
  refine ⟨hread, ?_⟩
  intro hdisjoint
  rw [Scope.sees_eq_false_of_disjoint hdisjoint, if_neg (by simp)] at hread
  exact Option.map_eq_none_iff.mp hread

/-- A store that knows tenant 1 and holds no facts yet. -/
def freshStore : Store where
  tenants := [1]
  facts := FactTable.empty
  chunks := []
  factAclAudit := []
  chunkAclAudit := []

/-- The un-share that leaves the amount to token 1 alone. -/
def unshareAmount : AclChangeRequest where
  tenantId := 1
  source := "hubspot"
  object := none
  fact := some ("deal-42", "amount")
  verityAcl := .obj [("visibility", .arr [.posInt 1])]

/-- The server after the amount was written, shared with tokens 1 and 2. -/
def amountShared : CachedAdapter :=
  (CachedAdapter.boot freshStore).call (.upsert 9 (amountAt 1 50 [1, 2]))

/-- The same server after token 2 read the amount. -/
def amountRead : CachedAdapter :=
  amountShared.call (.read (readScope [2]) ⟨"hubspot", "deal-42", "amount"⟩)

def unshareReply : AclChangeReply where
  kind := "fact"
  source := "hubspot"
  id := "deal-42/amount"
  rowsRewritten := 1

/-- An un-share of a key that no read has brought into the cache. -/
theorem unshare_before_first_read :
    ((amountShared.call (.correct unshareAmount .sourceUnshare "connector:hubspot")).currentFact
      (readScope [2]) ⟨"hubspot", "deal-42", "amount"⟩).2 = none := by
  have hbefore : run CachedAdapter.step (CachedAdapter.boot freshStore)
      [.upsert 9 (amountAt 1 50 [1, 2])] = some amountShared := rfl
  have hacl : parseInlineAcl (.obj [("verity_acl", unshareAmount.verityAcl)]) =
      some ⟨[1], .internal, .mirrored⟩ := by decide +kernel
  have hok : (dispatchAclCorrection amountShared.inner unshareAmount .sourceUnshare
      "connector:hubspot").2 = .ok unshareReply := by decide +kernel
  have hcached : ∀ k, amountShared.facts k = none := by
    intro k
    obtain ⟨t', o, -, -, heq⟩ :=
      upsertFact_adapter (CachedAdapter.boot freshStore) 9 (amountAt 1 50 [1, 2])
    rw [amountShared, heq]
    split <;> simp [CachedAdapter.invalidate, CachedAdapter.boot]
  have hagree : Along CachedAdapter.step CacheAgrees (CachedAdapter.boot freshStore)
      ([.upsert 9 (amountAt 1 50 [1, 2])] ++
        [.correct unshareAmount .sourceUnshare "connector:hubspot"]) := by
    refine along_append.mpr ⟨⟨trivial, fun _ _ => trivial⟩, ?_⟩
    intro s' hs'
    rw [hbefore, Option.some.injEq] at hs'
    subst hs'
    refine ⟨?_, fun _ _ => trivial⟩
    intro key acl cached _ hhit
    rw [hcached] at hhit
    exact absurd hhit (by simp)
  exact (corrected_acl_decides_later_reads hagree hbefore rfl hacl hok rfl trivial
    (readScope [2]) rfl).2 (by decide)

/-- Token 2 reads the amount, the amount is un-shared from token 2, and token 2 reads it
again: the second read is served from the cache, under the old visibility. -/
theorem unshared_token_still_reads :
    run CachedAdapter.step (CachedAdapter.boot freshStore)
      [.upsert 9 (amountAt 1 50 [1, 2]),
        .read (readScope [2]) ⟨"hubspot", "deal-42", "amount"⟩] = some amountRead ∧
    parseInlineAcl (.obj [("verity_acl", unshareAmount.verityAcl)]) =
      some ⟨[1], .internal, .mirrored⟩ ∧
    (dispatchAclCorrection amountRead.inner unshareAmount .sourceUnshare
      "connector:hubspot").2 = .ok unshareReply ∧
    (∀ p ∈ (readScope [2]).principals, p ∉ [(1 : PrincipalToken)]) ∧
    ((amountRead.call (.correct unshareAmount .sourceUnshare "connector:hubspot")).currentFact
      (readScope [2]) ⟨"hubspot", "deal-42", "amount"⟩).2.map FactRow.value =
        some (.posInt 50) := by
  refine ⟨rfl, ?_, ?_, ?_, ?_⟩ <;> decide +kernel

end Verity.Analysis
