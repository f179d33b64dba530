import Mathlib.Data.List.Induction

/-!
# Runs of a transition system

A system is a step function `σ → ο → Option σ`: the state after an event, or nothing when
the event is not enabled. A run is a list of events, and `Along` states a side condition at
each of its steps, in the state the step is taken in. `run_invariant` is the rule all safety
results about runs go through.

What a run has recorded is a history, a list that grows at its end (`split_concat`).
-/

set_option autoImplicit false

namespace Verity.Foundation

variable {σ ο : Type}

variable {step : σ → ο → Option σ} {P : σ → ο → Prop} {I : σ → Prop} {s s' : σ} {os : List ο}
  {E Q : ο → Prop} {o : ο}

/-- The state a list of events leads to, if all of them are enabled in turn. -/
def run (step : σ → ο → Option σ) : σ → List ο → Option σ
  | s, [] => some s
  | s, o :: os => (step s o).bind fun s' => run step s' os

/-- Every event meets `P` in the state in which the run takes it. -/
def Along (step : σ → ο → Option σ) (P : σ → ο → Prop) : σ → List ο → Prop
  | _, [] => True
  | s, o :: os => P s o ∧ ∀ s', step s o = some s' → Along step P s' os

instance decidableAlong {step : σ → ο → Option σ} {P : σ → ο → Prop} [∀ s o, Decidable (P s o)] :
    (s : σ) → (os : List ο) → Decidable (Along step P s os)
  | _, [] => isTrue trivial
  | s, o :: os =>
    match h : step s o with
    | none => decidable_of_iff (P s o) (by simp [Along, h])
    | some s' =>
      have : Decidable (Along step P s' os) := decidableAlong s' os
      decidable_of_iff (P s o ∧ Along step P s' os) (by simp [Along, h])

/-- What holds at the start, and is kept by every step that meets the side condition, holds
wherever a run that meets it leads. -/
theorem run_invariant (hstep : ∀ s o s', I s → P s o → step s o = some s' → I s') (hs : I s)
    (halong : Along step P s os) (hrun : run step s os = some s') : I s' := by
  induction os generalizing s with
  | nil =>
    cases hrun
    exact hs
  | cons o os ih =>
    obtain ⟨s₁, hs₁, hrest⟩ := Option.bind_eq_some_iff.mp hrun
    exact ih (hstep s o s₁ hs halong.1 hs₁) (halong.2 s₁ hs₁) hrest

theorem along_of_forall (h : ∀ s o, P s o) (s : σ) (os : List ο) : Along step P s os := by
  induction os generalizing s with
  | nil => trivial
  | cons o os ih => exact ⟨h s o, fun s' _ => ih s'⟩

theorem along_and {Q : σ → ο → Prop} (hP : Along step P s os) (hQ : Along step Q s os) :
    Along step (fun s o => P s o ∧ Q s o) s os := by
  induction os generalizing s with
  | nil => trivial
  | cons o os ih => exact ⟨⟨hP.1, hQ.1⟩, fun s' hs' => ih (hP.2 s' hs') (hQ.2 s' hs')⟩

/-- The rule without a side condition: an invariant of every step holds along every run. -/
theorem run_induction (hstep : ∀ s o s', I s → step s o = some s' → I s') (hs : I s)
    (hrun : run step s os = some s') : I s' :=
  run_invariant (fun s o s' h _ => hstep s o s' h) hs (along_of_forall (fun _ _ => trivial) s os)
    hrun

/-- The states a list of events leads through, one after each event. -/
def visited (step : σ → ο → Option σ) : σ → List ο → List σ
  | _, [] => []
  | s, o :: os =>
    match step s o with
    | none => []
    | some s' => s' :: visited step s' os

/-- The rule for invariants that look back: the states a run has led through are added to the
past. -/
theorem run_history {I : List σ → σ → Prop}
    (hstep : ∀ past s o s', I past s → step s o = some s' → I (past ++ [s']) s') {past : List σ}
    (hs : I past s) (hrun : run step s os = some s') : I (past ++ visited step s os) s' := by
  induction os generalizing past s with
  | nil =>
    cases hrun
    rw [visited, List.append_nil]
    exact hs
  | cons o os ih =>
    obtain ⟨s₁, hs₁, hrest⟩ := Option.bind_eq_some_iff.mp hrun
    have hnext := ih (hstep past s o s₁ hs hs₁) hrest
    rw [List.append_assoc, List.singleton_append] at hnext
    rw [visited, hs₁]
    exact hnext

/-- Two side conditions that agree on the states that the steps meeting the first one lead
through. -/
theorem along_congr {Q : σ → ο → Prop} (hkeep : ∀ s o s', I s → P s o → step s o = some s' → I s')
    (hiff : ∀ s o, I s → (P s o ↔ Q s o)) (hs : I s) (os : List ο) :
    Along step P s os ↔ Along step Q s os := by
  induction os generalizing s with
  | nil => exact Iff.rfl
  | cons o os ih =>
    constructor
    · rintro ⟨hP, hrest⟩
      refine ⟨(hiff s o hs).mp hP, fun s' hs' => ?_⟩
      exact (ih (hkeep s o s' hs hP hs')).mp (hrest s' hs')
    · rintro ⟨hQ, hrest⟩
      have hP := (hiff s o hs).mpr hQ
      refine ⟨hP, fun s' hs' => ?_⟩
      exact (ih (hkeep s o s' hs hP hs')).mpr (hrest s' hs')

theorem along_append {os' : List ο} :
    Along step P s (os ++ os') ↔
      Along step P s os ∧ ∀ s', run step s os = some s' → Along step P s' os' := by
  induction os generalizing s with
  | nil => simp [Along, run]
  | cons o os ih =>
    simp only [List.cons_append, Along, run]
    constructor
    · rintro ⟨hP, hrest⟩
      refine ⟨⟨hP, fun s₁ hs₁ => (ih.mp (hrest s₁ hs₁)).1⟩, ?_⟩
      intro s' hrun
      obtain ⟨s₁, hs₁, hrun₁⟩ := Option.bind_eq_some_iff.mp hrun
      exact (ih.mp (hrest s₁ hs₁)).2 s' hrun₁
    · rintro ⟨⟨hP, hos⟩, hos'⟩
      refine ⟨hP, fun s₁ hs₁ => ih.mpr ⟨hos s₁ hs₁, ?_⟩⟩
      intro s' hrun₁
      exact hos' s' (Option.bind_eq_some_iff.mpr ⟨s₁, hs₁, hrun₁⟩)

/-- `Along`, position by position: the condition holds of every event in the state the events
before it lead to. -/
theorem along_iff_forall_split :
    Along step P s os ↔
      ∀ before o after s', os = before ++ o :: after → run step s before = some s' → P s' o := by
  constructor
  · rintro halong before o after s' rfl hrun
    exact ((along_append.mp halong).2 s' hrun).1
  · intro h
    induction os generalizing s with
    | nil => trivial
    | cons o os ih =>
      refine ⟨h [] o os s rfl rfl, ?_⟩
      intro s₁ hs₁
      apply ih
      rintro before o' after s' rfl hrun
      exact h (o :: before) o' after s' rfl (Option.bind_eq_some_iff.mpr ⟨s₁, hs₁, hrun⟩)

theorem run_append {os' : List ο} :
    run step s (os ++ os') = some s' ↔
      ∃ s₁, run step s os = some s₁ ∧ run step s₁ os' = some s' := by
  induction os generalizing s with
  | nil => simp [run]
  | cons o os ih =>
    simp only [List.cons_append, run, Option.bind_eq_some_iff, ih]
    constructor
    · rintro ⟨s₂, hs₂, s₁, hs₁, hrun⟩
      exact ⟨s₁, ⟨s₂, hs₂, hs₁⟩, hrun⟩
    · rintro ⟨s₁, ⟨s₂, hs₂, hs₁⟩, hrun⟩
      exact ⟨s₂, hs₂, s₁, hs₁, hrun⟩

/-- The rule for invariants that speak of the events so far. -/
theorem run_trace {I : List ο → σ → Prop} (hs : I [] s)
    (hstep : ∀ past s₁ o s₂, run step s past = some s₁ → I past s₁ → step s₁ o = some s₂ →
      I (past ++ [o]) s₂) (hrun : run step s os = some s') : I os s' := by
  induction os using List.reverseRecOn generalizing s' with
  | nil =>
    cases hrun
    exact hs
  | append_singleton past o ih =>
    obtain ⟨s₁, hpast, hlast⟩ := run_append.mp hrun
    obtain ⟨s₂, hs₂, hend⟩ := Option.bind_eq_some_iff.mp hlast
    cases hend
    exact hstep past s₁ o s' hpast (ih hpast) hs₂

/-- Where every event is enabled in every state, every list of events is a run. -/
theorem run_total (h : ∀ s o, ∃ s', step s o = some s') (s : σ) (os : List ο) :
    ∃ s', run step s os = some s' := by
  induction os generalizing s with
  | nil => exact ⟨s, rfl⟩
  | cons o os ih =>
    obtain ⟨s₁, hs₁⟩ := h s o
    obtain ⟨s', hrest⟩ := ih s₁
    exact ⟨s', Option.bind_eq_some_iff.mpr ⟨s₁, hs₁, hrest⟩⟩

/-- The exact rule. `I` holds whatever a run does. Where a step from a good state leads to a good
state exactly when it meets the side condition, every state of a run is good exactly when every
step of it does. -/
theorem run_invariant_iff {G : σ → Prop} (hkeep : ∀ s o s', I s → step s o = some s' → I s')
    (hexact : ∀ s o s', I s → G s → step s o = some s' → (G s' ↔ P s o)) (hI : I s) (hG : G s)
    (hrun : run step s os = some s') :
    (∀ before after s₁, os = before ++ after → run step s before = some s₁ → G s₁) ↔
      Along step P s os := by
  induction os generalizing s with
  | nil =>
    refine ⟨fun _ => trivial, ?_⟩
    intro _ before after s₁ hsplit hbefore
    obtain ⟨rfl, -⟩ := List.append_eq_nil_iff.mp hsplit.symm
    cases hbefore
    exact hG
  | cons o os ih =>
    obtain ⟨s₂, hs₂, hrest⟩ := Option.bind_eq_some_iff.mp hrun
    have hone : run step s [o] = some s₂ := by
      rw [run, hs₂]
      rfl
    constructor
    · intro hgood
      have hG₂ : G s₂ := hgood [o] os s₂ rfl hone
      refine ⟨(hexact s o s₂ hI hG hs₂).mp hG₂, ?_⟩
      intro s₃ hs₃
      rw [hs₂] at hs₃
      obtain rfl := Option.some.inj hs₃
      refine (ih (hkeep s o s₂ hI hs₂) hG₂ hrest).mp ?_
      rintro before after s₁ rfl hbefore
      exact hgood (o :: before) after s₁ rfl (run_append.mpr ⟨s₂, hone, hbefore⟩)
    · rintro ⟨hP, halong⟩ before after s₁ hsplit hbefore
      have hG₂ : G s₂ := (hexact s o s₂ hI hG hs₂).mpr hP
      cases before with
      | nil =>
        cases hbefore
        exact hG
      | cons o' before =>
        rw [List.cons_append] at hsplit
        obtain ⟨rfl, hrests⟩ := List.cons.inj hsplit
        obtain ⟨s₃, hs₃, hbefore⟩ := Option.bind_eq_some_iff.mp hbefore
        rw [hs₂] at hs₃
        obtain rfl := Option.some.inj hs₃
        exact (ih (hkeep s o s₂ hI hs₂) hG₂ hrest).mpr (halong s₂ hs₂) before after s₁ hrests
          hbefore

/-! ## Since an event -/

/-- An event with `E` has happened, and only events with `Q` after it. -/
def Since (E Q : ο → Prop) (os : List ο) : Prop :=
  ∃ before o after, os = before ++ o :: after ∧ E o ∧ ∀ o' ∈ after, Q o'

theorem since_of_last (h : E o) : Since E Q (os ++ [o]) := by
  refine ⟨os, o, [], rfl, h, ?_⟩
  intro o' ho'
  cases ho'

theorem Since.concat (h : Since E Q os) (ho : Q o) : Since E Q (os ++ [o]) := by
  obtain ⟨before, e, after, rfl, he, hafter⟩ := h
  refine ⟨before, e, after ++ [o], by rw [List.append_assoc, List.cons_append], he, ?_⟩
  intro o' ho'
  rcases List.mem_append.mp ho' with ho' | ho'
  · exact hafter o' ho'
  · rw [List.mem_singleton.mp ho']
    exact ho

/-! ## Histories -/

/-- Where a history and its newest entry are split at an entry, that entry is the newest one, or
the history before splits there too. -/
theorem split_concat {history before after : List ο} {newest entry : ο}
    (h : history ++ [newest] = before ++ entry :: after) :
    (history = before ∧ newest = entry ∧ after = []) ∨
      ∃ older, after = older ++ [newest] ∧ history = before ++ entry :: older := by
  rcases List.eq_nil_or_concat after with rfl | ⟨older, last, rfl⟩
  · obtain ⟨hbefore, hlast⟩ := List.append_inj' h rfl
    exact Or.inl ⟨hbefore, List.singleton_inj.mp hlast, rfl⟩
  · rw [List.concat_eq_append, ← List.cons_append, ← List.append_assoc] at h
    obtain ⟨hhistory, hlast⟩ := List.append_inj' h rfl
    obtain rfl := List.singleton_inj.mp hlast
    exact Or.inr ⟨older, by rw [List.concat_eq_append], hhistory⟩

theorem since_concat : Since E Q (os ++ [o]) ↔ E o ∨ (Since E Q os ∧ Q o) := by
  constructor
  · rintro ⟨before, e, after, hsplit, he, hafter⟩
    rcases split_concat hsplit with ⟨-, rfl, -⟩ | ⟨older, rfl, hos⟩
    · exact Or.inl he
    · refine Or.inr ⟨⟨before, e, older, hos, he, ?_⟩, hafter o (by simp)⟩
      intro o' ho'
      exact hafter o' (List.mem_append_left _ ho')
  · rintro (he | ⟨hsince, ho⟩)
    · exact since_of_last he
    · exact hsince.concat ho

/-- What holds of every entry and the history before it, position by position. -/
theorem forall_split_iff_get {P : List ο → ο → Prop} :
    (∀ before o after, os = before ++ o :: after → P before o) ↔
      ∀ i : Fin os.length, P (os.take i) (os.get i) := by
  constructor
  · intro h i
    exact h (os.take i) (os.get i) (os.drop (i + 1)) (by simp)
  · rintro h before o after rfl
    have hat := h ⟨before.length, by simp⟩
    simpa using hat

instance decidableForallSplit {P : List ο → ο → Prop} [∀ before o, Decidable (P before o)]
    (os : List ο) : Decidable (∀ before o after, os = before ++ o :: after → P before o) :=
  decidable_of_iff _ forall_split_iff_get.symm

/-- The exact rule for histories. Where `P` and `Q` agree on every entry that follows a history with
`I`, and an entry that meets them keeps `I`, every entry of a history meets the one exactly when
every entry meets the other. -/
theorem forall_split_iff {P Q : List ο → ο → Prop} {I : List ο → Prop} (hnil : I [])
    (hstep : ∀ before o after, os = before ++ o :: after → I before →
      (P before o ↔ Q before o) ∧ (Q before o → I (before ++ [o]))) :
    (∀ before o after, os = before ++ o :: after → P before o) ↔
      ∀ before o after, os = before ++ o :: after → Q before o := by
  -- either way `I` holds before every entry
  have hkept : ∀ before after, os = before ++ after →
      (∀ b o a, os = b ++ o :: a → I b → Q b o) → I before := by
    intro before after hsplit hall
    induction before using List.reverseRecOn generalizing after with
    | nil => exact hnil
    | append_singleton before o ih =>
      rw [List.append_assoc, List.singleton_append] at hsplit
      have hbefore := ih (o :: after) hsplit
      exact (hstep before o after hsplit hbefore).2 (hall before o after hsplit hbefore)
  constructor
  · intro hP before o after hsplit
    refine ((hstep before o after hsplit ?_).1).mp (hP before o after hsplit)
    exact hkept before _ hsplit fun b o a hb hI => (hstep b o a hb hI).1.mp (hP b o a hb)
  · intro hQ before o after hsplit
    refine ((hstep before o after hsplit ?_).1).mpr (hQ before o after hsplit)
    exact hkept before _ hsplit fun b o a hb _ => hQ b o a hb

end Verity.Foundation
