import Verity.Foundation.Run
import Verity.Model.AclDiff

/-!
# Tightenings the connector loses

A principal that a record once had and no longer has is either still in the record's
last-seen set, or a correction that leaves it out has been acknowledged (`Followed`). As long
as every post goes through, each call keeps this, and a call that returns has taken the
principal out of the last-seen set. A call that raises has written the new set back too, so
the next call with the same set finds nothing to correct: the tightening is lost with the
first post that fails, and only then.
-/

set_option autoImplicit false

namespace Verity.Analysis

open Verity.Model Verity.Foundation

variable {s s' : ObservedLane} {o : Observation}

/-! ## What one call does -/

/-- The set drops a principal of the record's last-seen set. -/
def Tightens (lane : AclDiffLane) (o : Observation) : Prop :=
  ∃ prior, lane.state.lastSeen o.recordId = some prior ∧ ∃ p ∈ prior, p ∉ o.currentPrincipals

/-- The registry answers and the server takes the post. -/
def Delivered (o : Observation) : Prop := o.mapping.isSome ∧ o.accepted

theorem diffAcl_state (state : AclState) (o : Observation) :
    (diffAcl state o).1 = state.remember o.recordId (sortDedup o.currentPrincipals) := by
  unfold diffAcl
  cases state.lastSeen o.recordId with
  | none => rfl
  | some prior =>
    dsimp only
    split <;> rfl

/-- A diff finds a change exactly for a tightening, and the change carries the new set. -/
theorem diffAcl_change (lane : AclDiffLane) (o : Observation) :
    (∃ change, (diffAcl lane.state o).2 = some change ∧
      change.newPrincipals = sortDedup o.currentPrincipals ∧ Tightens lane o) ∨
    ((diffAcl lane.state o).2 = none ∧ ¬ Tightens lane o) := by
  unfold diffAcl
  cases hprior : lane.state.lastSeen o.recordId with
  | none =>
    refine Or.inr ⟨rfl, ?_⟩
    rintro ⟨prior, hsome, _⟩
    rw [hprior] at hsome
    exact absurd hsome (by simp)
  | some prior =>
    dsimp only
    split
    · rename_i hempty
      refine Or.inr ⟨rfl, ?_⟩
      rintro ⟨prior', hsome, p, hp, hgone⟩
      obtain rfl : prior = prior' := Option.some.inj (hprior.symm.trans hsome)
      have hkept := List.filter_eq_nil_iff.mp (List.isEmpty_iff.mp hempty) p hp
      simp only [Bool.not_eq_true', Bool.not_eq_false, List.contains_iff_mem, mem_sortDedup]
        at hkept
      exact hgone hkept
    · rename_i hne
      refine Or.inl ⟨_, rfl, rfl, prior, hprior, ?_⟩
      obtain ⟨p, hp⟩ := List.exists_mem_of_ne_nil _ fun h => hne (List.isEmpty_iff.mpr h)
      obtain ⟨hp, hgone⟩ := List.mem_filter.mp hp
      refine ⟨p, hp, fun hin => ?_⟩
      simp [mem_sortDedup.mpr hin] at hgone

theorem emitAclChange_isSome (change : AclChange) (tenantId : String) (o : Observation) :
    (emitAclChange change tenantId o).isSome ↔ Delivered o := by
  unfold emitAclChange Delivered
  cases o.mapping with
  | none => simp
  | some mapping =>
    dsimp only
    split <;> simp_all

/-- A call without a tightening returns; one with a tightening returns the change if the post
goes through, and raises if not. The set is written back in every case. -/
theorem observe_cases (lane : AclDiffLane) (o : Observation) :
    (lane.observe o).1.state = lane.state.remember o.recordId (sortDedup o.currentPrincipals) ∧
    ((¬ Tightens lane o ∧ (lane.observe o).2 = .returned none) ∨
     (Tightens lane o ∧ Delivered o ∧ ∃ change, (lane.observe o).2 = .returned (some change) ∧
        change.newPrincipals = sortDedup o.currentPrincipals) ∨
     (Tightens lane o ∧ ¬ Delivered o ∧ (lane.observe o).2 = .raised)) := by
  have hstate := diffAcl_state lane.state o
  rcases diffAcl_change lane o with ⟨change, hchange, hnew, htight⟩ | ⟨hnone, hnot⟩
  · have hemit := emitAclChange_isSome change lane.tenantId o
    simp only [AclDiffLane.observe, hchange]
    cases h : emitAclChange change lane.tenantId o with
    | none =>
      rw [h] at hemit
      exact ⟨hstate, Or.inr (Or.inr ⟨htight, fun hd => by simpa using hemit.mpr hd, rfl⟩)⟩
    | some body =>
      rw [h] at hemit
      exact ⟨hstate, Or.inr (Or.inl ⟨htight, hemit.mp rfl, change, rfl, hnew⟩)⟩
  · simp only [AclDiffLane.observe, hnone]
    exact ⟨hstate, Or.inl ⟨hnot, trivial⟩⟩

/-! ## Calls in sequence -/

/-- The call got a correction of the record acknowledged that leaves `p` out. -/
def Corrects (recordId p : String) (entry : Observation × ObserveResult) : Prop :=
  entry.1.recordId = recordId ∧
    ∃ change, entry.2 = .returned (some change) ∧ p ∉ change.newPrincipals

/-- A correction of the record without `p` was acknowledged after the last call in which the
record still had `p`. -/
def CorrectedSince (recordId p : String) (history : List (Observation × ObserveResult)) : Prop :=
  ∃ before entry after, history = before ++ entry :: after ∧ Corrects recordId p entry ∧
    ∀ e ∈ entry :: after, e.1.recordId = recordId → p ∉ e.1.currentPrincipals

/-- Some call of the history gave the record the principal `p`. -/
def HadPrincipal (recordId p : String) (history : List (Observation × ObserveResult)) : Prop :=
  ∃ e ∈ history, e.1.recordId = recordId ∧ p ∈ e.1.currentPrincipals

/-- The last call, if it returned, left no principal uncorrected that the record had before
and has no longer; if it raised, the same set would be found to be a change again. -/
def TighteningKept (s : ObservedLane) : Prop :=
  ∀ before o result, s.history = before ++ [(o, result)] →
    (∀ change, result = .returned change → ∀ p, HadPrincipal o.recordId p before →
      p ∉ o.currentPrincipals → CorrectedSince o.recordId p s.history) ∧
    (result = .raised → ∃ change, (diffAcl s.lane.state o).2 = some change)

/-- What the record had is still in its last-seen set, or has been corrected. -/
def Followed (s : ObservedLane) : Prop :=
  ∀ recordId p, HadPrincipal recordId p s.history →
    (∃ prior, s.lane.state.lastSeen recordId = some prior ∧ p ∈ prior) ∨
      CorrectedSince recordId p s.history

theorem CorrectedSince.append {recordId p : String} {history : List (Observation × ObserveResult)}
    {entry : Observation × ObserveResult} (h : CorrectedSince recordId p history)
    (hentry : entry.1.recordId = recordId → p ∉ entry.1.currentPrincipals) :
    CorrectedSince recordId p (history ++ [entry]) := by
  obtain ⟨before, mid, after, rfl, hcorrects, hnone⟩ := h
  refine ⟨before, mid, after ++ [entry], by simp, hcorrects, ?_⟩
  intro e he
  rw [← List.cons_append] at he
  rcases List.mem_append.mp he with he | he
  · exact hnone e he
  · rw [List.mem_singleton.mp he]
    exact hentry

theorem hadPrincipal_append {recordId p : String} {history : List (Observation × ObserveResult)}
    {entry : Observation × ObserveResult} (h : HadPrincipal recordId p (history ++ [entry])) :
    HadPrincipal recordId p history ∨
      (entry.1.recordId = recordId ∧ p ∈ entry.1.currentPrincipals) := by
  obtain ⟨e, he, hrecord, hp⟩ := h
  rcases List.mem_append.mp he with he | he
  · exact Or.inl ⟨e, he, hrecord, hp⟩
  · rw [List.mem_singleton.mp he] at hrecord hp
    exact Or.inr ⟨hrecord, hp⟩

/-- One call keeps `Followed`, provided a tightening is delivered. -/
theorem Followed.step (h : Followed s) (hdeliver : Tightens s.lane o → Delivered o)
    (hstep : s.step o = some s') : Followed s' := by
  cases hstep
  intro recordId p hhad
  obtain ⟨hstate, hresult⟩ := observe_cases s.lane o
  by_cases hrecord : o.recordId = recordId
  · subst hrecord
    by_cases hp : p ∈ o.currentPrincipals
    · left
      refine ⟨sortDedup (sortDedup o.currentPrincipals), ?_, ?_⟩
      · simp only [hstate, AclState.lastSeen_remember]
      · simpa [mem_sortDedup] using hp
    · right
      -- the call does not mention `p`, so an earlier one must have
      have hbefore : HadPrincipal o.recordId p s.history := by
        rcases hadPrincipal_append hhad with hbefore | ⟨_, hin⟩
        · exact hbefore
        · exact absurd hin hp
      rcases h _ p hbefore with ⟨prior, hprior, hin⟩ | hcorrected
      · have htight : Tightens s.lane o := ⟨prior, hprior, p, hin, hp⟩
        rcases hresult with ⟨hnot, _⟩ | ⟨_, _, change, hreturned, hnew⟩ | ⟨_, hnot, _⟩
        · exact absurd htight hnot
        · refine ⟨s.history, _, [], rfl, ⟨rfl, change, hreturned, ?_⟩, ?_⟩
          · rw [hnew, mem_sortDedup]
            exact hp
          · intro e he _
            rw [List.mem_singleton.mp he]
            exact hp
        · exact absurd (hdeliver htight) hnot
      · exact hcorrected.append fun _ => hp
  · have hbefore : HadPrincipal recordId p s.history := by
      rcases hadPrincipal_append hhad with hbefore | ⟨hsame, _⟩
      · exact hbefore
      · exact absurd hsame hrecord
    rcases h _ p hbefore with ⟨prior, hprior, hin⟩ | hcorrected
    · left
      refine ⟨prior, ?_, hin⟩
      simp only [hstate]
      rw [AclState.lastSeen_remember_of_ne (Ne.symm hrecord)]
      exact hprior
    · exact Or.inr (hcorrected.append fun hsame => absurd hsame hrecord)

theorem followed_start (lane : AclDiffLane) : Followed (.start lane) := by
  rintro recordId p ⟨e, he, _⟩
  exact absurd he List.not_mem_nil

/-- The history after a call ends with the call. -/
theorem history_last {o' : Observation} {result : ObserveResult}
    {before : List (Observation × ObserveResult)} (hstep : s.step o = some s')
    (h : s'.history = before ++ [(o', result)]) :
    before = s.history ∧ o' = o ∧ result = (s.lane.observe o).2 := by
  cases hstep
  obtain ⟨hbefore, hlast⟩ := List.append_inj' h rfl
  simp only [List.cons.injEq, Prod.mk.injEq, and_true] at hlast
  exact ⟨hbefore.symm, hlast.1.symm, hlast.2.symm⟩

/-- With a delivered tightening, or none, the call keeps what the lane is for. -/
theorem tighteningKept_of_delivered (h : Followed s) (hdeliver : Tightens s.lane o → Delivered o)
    (hstep : s.step o = some s') : TighteningKept s' := by
  have hafter := h.step hdeliver hstep
  intro before o' result hlast
  obtain ⟨rfl, rfl, rfl⟩ := history_last hstep hlast
  obtain ⟨hstate, hresult⟩ := observe_cases s.lane o'
  constructor
  · intro change _ p hhad hp
    have hhad' : HadPrincipal o'.recordId p s'.history := by
      obtain ⟨e, he, hrecord, hin⟩ := hhad
      refine ⟨e, ?_, hrecord, hin⟩
      rw [hlast]
      exact List.mem_append_left _ he
    rcases hafter _ p hhad' with ⟨prior, hprior, hin⟩ | hcorrected
    · -- the last-seen set is the one just written back, which `p` is not in
      cases hstep
      simp only [hstate, AclState.lastSeen_remember, Option.some.injEq] at hprior
      rw [← hprior, mem_sortDedup, mem_sortDedup] at hin
      exact absurd hin hp
    · exact hcorrected
  · intro hraised
    rcases hresult with ⟨_, hreturned⟩ | ⟨_, _, change, hreturned, _⟩ | ⟨htight, hnot, _⟩
    · rw [hraised] at hreturned
      exact absurd hreturned (by simp)
    · rw [hraised] at hreturned
      exact absurd hreturned (by simp)
    · exact absurd (hdeliver htight) hnot

/-- A tightening that is not delivered is not found again: the call that raised has replaced
the set it was found with. -/
theorem delivered_of_tighteningKept (hstep : s.step o = some s') (hkept : TighteningKept s')
    (htight : Tightens s.lane o) : Delivered o := by
  by_contra hnot
  obtain ⟨hstate, hresult⟩ := observe_cases s.lane o
  have hraised : (s.lane.observe o).2 = .raised := by
    rcases hresult with ⟨hquiet, _⟩ | ⟨_, hdelivered, _⟩ | ⟨_, _, hraised⟩
    · exact absurd htight hquiet
    · exact absurd hdelivered hnot
    · exact hraised
  cases hstep
  obtain ⟨change, hchange⟩ := (hkept s.history o _ rfl).2 hraised
  rcases diffAcl_change (s.lane.observe o).1 o with
    ⟨_, _, _, prior, hprior, p, hp, hgone⟩ | ⟨hnone, _⟩
  · rw [hstate, AclState.lastSeen_remember, Option.some.injEq] at hprior
    rw [← hprior, mem_sortDedup, mem_sortDedup] at hp
    exact hgone hp
  · rw [hnone] at hchange
    exact absurd hchange (by simp)

theorem followed_run {lane : AclDiffLane} {calls : List Observation}
    (hdeliver : Along ObservedLane.step (fun s o => Tightens s.lane o → Delivered o)
      (.start lane) calls) (hrun : run ObservedLane.step (.start lane) calls = some s) :
    Followed s := by
  have hstep : ∀ s o s', Followed s → (Tightens s.lane o → Delivered o) → s.step o = some s' →
      Followed s' := fun s o s' h hd hs => h.step hd hs
  exact run_invariant hstep (followed_start lane) hdeliver hrun

/-- A lane keeps every tightening, in every call of a sequence, exactly when each tightening
of the sequence is posted and acknowledged by the call that finds it. -/
theorem tightenings_kept_iff_delivered (lane : AclDiffLane) (calls : List Observation) :
    (∀ past s, past <+: calls → run ObservedLane.step (.start lane) past = some s →
      TighteningKept s) ↔
    Along ObservedLane.step (fun s o => Tightens s.lane o → Delivered o) (.start lane) calls := by
  constructor
  · intro hkept
    rw [along_iff_forall_split]
    rintro before o after s rfl hrun
    apply delivered_of_tighteningKept rfl
    apply hkept (before ++ [o])
    · exact ⟨after, by simp⟩
    · exact run_append.mpr ⟨s, hrun, rfl⟩
  · rintro halong past s ⟨rest, rfl⟩ hrun
    have hpast := (along_append.mp halong).1
    rcases List.eq_nil_or_concat past with rfl | ⟨before, o, rfl⟩
    · cases hrun
      intro before o result hlast
      exact absurd hlast (by simp [ObservedLane.start])
    · rw [List.concat_eq_append] at hpast hrun
      obtain ⟨s₀, hbefore, hlast⟩ := run_append.mp hrun
      obtain ⟨halong₀, hnext⟩ := along_append.mp hpast
      have hstep : s₀.step o = some s := by simpa [run] using hlast
      exact tighteningKept_of_delivered (followed_run halong₀ hbefore) (hnext s₀ hbefore).1 hstep

/-! ## A post that fails once -/

/-- A Drive file seen with these principals; `accepted` is whether the server is up. -/
def sharedWith (principals : List String) (accepted : Bool) : Observation where
  recordId := "doc"
  currentPrincipals := principals
  source := "gdrive"
  documentId := some "doc"
  entityId := none
  field := none
  mapping := some [("user:alice", 1), ("user:bob", 2)]
  accepted := accepted

/-- A share with two people, the un-share of one while the server is away, and the same set
again once it is back. -/
def unshareDuringOutage : List Observation :=
  [sharedWith ["user:alice", "user:bob"] true, sharedWith ["user:alice"] false,
    sharedWith ["user:alice"] true]

def emptyLane : AclDiffLane where
  tenantId := "t"
  state := ⟨∅⟩
  emitted := 0

/-- The un-share is posted once, in vain: the third call returns, and no correction without
the lost principal has been acknowledged. -/
theorem unshare_lost_after_failed_post :
    ∃ s, run ObservedLane.step (.start emptyLane) unshareDuringOutage = some s ∧
      s.history.map Prod.snd = [.returned none, .raised, .returned none] ∧
      ¬ TighteningKept s := by
  have hrun : ∃ s, run ObservedLane.step (.start emptyLane) unshareDuringOutage = some s ∧
      s.history = [(sharedWith ["user:alice", "user:bob"] true, .returned none),
        (sharedWith ["user:alice"] false, .raised)] ++
        [(sharedWith ["user:alice"] true, .returned none)] :=
    ⟨_, rfl, by decide +kernel⟩
  obtain ⟨s, hrun, hhistory⟩ := hrun
  refine ⟨s, hrun, by rw [hhistory]; rfl, ?_⟩
  intro hkept
  have hcorrected : CorrectedSince "doc" "user:bob" s.history := by
    refine (hkept _ _ _ hhistory).1 none rfl "user:bob" ?_ (by decide)
    exact ⟨_, List.mem_cons_self, rfl, by decide⟩
  -- none of the three calls returned a change
  obtain ⟨before, entry, after, hsplit, ⟨_, change, hreturned, _⟩, _⟩ := hcorrected
  have hentry : entry ∈ s.history := by
    rw [hsplit]
    exact List.mem_append_right _ List.mem_cons_self
  have hresult : entry.2 ∈ s.history.map Prod.snd := List.mem_map_of_mem hentry
  rw [hhistory, hreturned] at hresult
  simp at hresult

end Verity.Analysis
