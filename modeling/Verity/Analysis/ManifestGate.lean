import Verity.Foundation.Run
import Verity.Model.ManifestGate

/-!
# What the human gate lets through

An active manifest should hold the text that its activation has read and accepted. The flip of
the status asks for nothing but the id of the row, so an upload between the two statements of an
activation becomes active unseen. In every run the gate holds throughout exactly when each flip
finds the text that its activation has read (`gate_holds_iff`).
-/

set_option autoImplicit false

namespace Verity.Analysis

open Verity.Foundation
open Verity.Model

variable {reader : ManifestReader} {t : ManifestTable} {id : ManifestId} {yaml : String} {s : Gate}

/-- The text is read as a valid manifest, and the manifest may be activated. -/
def Accepted (reader : ManifestReader) (yaml : String) : Prop :=
  ∃ m, Manifest.fromYaml reader.fromStr yaml = .ok m ∧ m.activationCheck = .ok ()

/-- Every active row holds a text that the activation which set its status has accepted. -/
def GateHeld (reader : ManifestReader) (s : Gate) : Prop :=
  ∀ row ∈ s.table.rows, row.status = .active →
    ∃ approval, s.setBy row.id = some approval ∧ approval.yaml = row.yaml ∧
      Accepted reader approval.yaml

/-- A flip finds the row with the text that its activation has read. -/
def FlipsWhatItRead (s : Gate) : GateEvent → Prop
  | .activateFlip approval =>
    ∀ row ∈ s.table.rows, row.id = approval.id → row.yaml = approval.yaml
  | .upload _ | .activateCheck _ _ => True

instance (s : Gate) (o : GateEvent) : Decidable (FlipsWhatItRead s o) :=
  match o with
  | .activateFlip approval =>
    inferInstanceAs
      (Decidable (∀ row ∈ s.table.rows, row.id = approval.id → row.yaml = approval.yaml))
  | .upload _ => isTrue trivial
  | .activateCheck _ _ => isTrue trivial

/-- The activations under way have accepted the text they have read. -/
def UnderWayAccepted (reader : ManifestReader) (s : Gate) : Prop :=
  ∀ approval ∈ s.underWay, Accepted reader approval.yaml

/-! ## The statements -/

theorem accepted_of_checkActivation {req : ActivateManifestRequest} {approval : Approval}
    (h : checkActivation reader t id req = .ok approval) : Accepted reader approval.yaml := by
  unfold checkActivation at h
  dsimp only at h
  split at h
  · cases h
  · split at h
    · cases h
    · next row hrow =>
        obtain ⟨m, hm, h⟩ := Outcome.bind_eq_ok_iff.mp h
        rw [Outcome.mapError_eq_ok_iff] at hm
        cases hcheck : m.activationCheck with
        | error reason =>
          rw [hcheck] at h
          cases h
        | ok u =>
          rw [hcheck] at h
          obtain rfl := Outcome.ok.inj h
          exact ⟨m, hm, hcheck⟩

/-- An upload leaves the active rows it does not make drafts of as they were. -/
theorem mem_of_mem_upsert {tenant : TenantId} {name : String} {row : ManifestRow}
    (hrow : row ∈ (t.upsert tenant name yaml).rows) (hactive : row.status = .active) :
    row ∈ t.rows := by
  unfold ManifestTable.upsert at hrow
  split at hrow
  · obtain ⟨row₀, hrow₀, rfl⟩ := List.mem_map.mp hrow
    unfold ManifestTable.redraft at hactive ⊢
    split at hactive
    · cases hactive
    · next hother =>
        rw [if_neg hother]
        exact hrow₀
  · rcases List.mem_append.mp hrow with hrow | hrow
    · exact hrow
    · rw [List.mem_singleton.mp hrow] at hactive
      cases hactive

theorem rows_setActive (t : ManifestTable) (id : ManifestId) (approvedBy : String) :
    (t.setActive id approvedBy).rows = t.rows.map fun r =>
      if r.id = id then { r with status := .active, approvedBy := some approvedBy } else r := rfl

/-- What a delivery runs is the text of an active row. -/
theorem executed_eq_some_iff :
    t.executed id = some yaml ↔
      ∃ row ∈ t.rows, row.id = id ∧ row.status = .active ∧ row.yaml = yaml := by
  simp only [ManifestTable.executed, Option.map_eq_some_iff, Option.filter_eq_some_iff,
    decide_eq_true_eq]
  constructor
  · rintro ⟨row, ⟨hfind, hactive⟩, rfl⟩
    exact ⟨row, List.mem_of_find?_eq_some hfind, by simpa using List.find?_some hfind, hactive, rfl⟩
  · rintro ⟨row, hrow, rfl, hactive, rfl⟩
    refine ⟨row, ⟨?_, hactive⟩, rfl⟩
    refine find?_unique hrow (decide_eq_true rfl) fun row' hrow' hid => ?_
    exact List.inj_on_of_nodup_map t.ids_nodup hrow' hrow (of_decide_eq_true hid)

/-- While the gate holds, a delivery runs what an approver's check has accepted. -/
theorem GateHeld.executed (h : GateHeld reader s) (hyaml : s.table.executed id = some yaml) :
    ∃ approval, s.setBy id = some approval ∧ approval.yaml = yaml ∧ Accepted reader yaml := by
  obtain ⟨row, hrow, rfl, hactive, rfl⟩ := executed_eq_some_iff.mp hyaml
  obtain ⟨approval, hset, hsame, haccepted⟩ := h row hrow hactive
  rw [hsame] at haccepted
  exact ⟨approval, hset, hsame, haccepted⟩

/-! ## One step -/

theorem underWayAccepted_step {s' : Gate} {o : GateEvent} (h : UnderWayAccepted reader s)
    (hstep : s.step reader o = some s') : UnderWayAccepted reader s' := by
  cases o with
  | upload req =>
    simp only [Gate.step] at hstep
    split at hstep
    · obtain rfl := Option.some.inj hstep
      exact h
    · cases hstep
  | activateCheck id req =>
    simp only [Gate.step] at hstep
    split at hstep
    · next approval hcheck =>
        obtain rfl := Option.some.inj hstep
        intro a ha
        rcases List.mem_append.mp ha with ha | ha
        · exact h a ha
        · rw [List.mem_singleton.mp ha]
          exact accepted_of_checkActivation hcheck
    · cases hstep
  | activateFlip approval =>
    simp only [Gate.step] at hstep
    split at hstep
    · obtain rfl := Option.some.inj hstep
      exact fun a ha => h a (List.mem_of_mem_erase ha)
    · cases hstep

/-- After a flip the gate holds exactly when the row still has the text that was read. -/
theorem gateHeld_flip_iff {approval : Approval} (h : GateHeld reader s)
    (haccepted : Accepted reader approval.yaml) (underWay : List Approval) :
    GateHeld reader
        ⟨s.table.setActive approval.id approval.approvedBy, underWay, approval :: s.approvals⟩ ↔
      FlipsWhatItRead s (.activateFlip approval) := by
  constructor
  · intro hheld row hrow hid
    have hflipped : { row with status := .active, approvedBy := some approval.approvedBy } ∈
        (s.table.setActive approval.id approval.approvedBy).rows := by
      rw [rows_setActive]
      refine List.mem_map.mpr ⟨row, hrow, ?_⟩
      rw [if_pos hid]
    obtain ⟨approval', hset, hsame, -⟩ := hheld _ hflipped rfl
    have hlast : Gate.setBy ⟨s.table.setActive approval.id approval.approvedBy, underWay,
        approval :: s.approvals⟩ row.id = some approval := by
      simp [Gate.setBy, hid]
    rw [hlast] at hset
    obtain rfl := Option.some.inj hset
    exact hsame.symm
  · intro hread row' hrow' hactive
    rw [rows_setActive] at hrow'
    obtain ⟨row, hrow, rfl⟩ := List.mem_map.mp hrow'
    by_cases hid : row.id = approval.id
    · refine ⟨approval, ?_, ?_, haccepted⟩
      · simp [Gate.setBy, hid]
      · rw [if_pos hid]
        exact (hread row hrow hid).symm
    · rw [if_neg hid] at hactive ⊢
      obtain ⟨approval', hset, hsame, haccepted'⟩ := h row hrow hactive
      refine ⟨approval', ?_, hsame, haccepted'⟩
      rw [Gate.setBy, List.find?_cons_of_neg (by simpa using fun h => hid h.symm)]
      exact hset

theorem gateHeld_step_iff {s' : Gate} {o : GateEvent} (hunder : UnderWayAccepted reader s)
    (h : GateHeld reader s) (hstep : s.step reader o = some s') :
    GateHeld reader s' ↔ FlipsWhatItRead s o := by
  cases o with
  | upload req =>
    refine iff_of_true ?_ trivial
    simp only [Gate.step] at hstep
    split at hstep
    · next table hupload =>
        obtain rfl := Option.some.inj hstep
        obtain ⟨m, -, htable⟩ := Outcome.bind_eq_ok_iff.mp hupload
        obtain rfl := Outcome.ok.inj htable
        exact fun row hrow hactive => h row (mem_of_mem_upsert hrow hactive) hactive
    · cases hstep
  | activateCheck id req =>
    refine iff_of_true ?_ trivial
    simp only [Gate.step] at hstep
    split at hstep
    · obtain rfl := Option.some.inj hstep
      exact h
    · cases hstep
  | activateFlip approval =>
    simp only [Gate.step] at hstep
    split at hstep
    · next hmem =>
        obtain rfl := Option.some.inj hstep
        exact gateHeld_flip_iff h (hunder approval hmem) _
    · cases hstep

/-! ## Every run -/

/-- Whatever uploads and activations are interleaved, the gate holds in every state of the run
exactly when each flip finds the text that its activation has read and checked. -/
theorem gate_holds_iff (reader : ManifestReader) (os : List GateEvent) (s : Gate)
    (hrun : run (Gate.step reader) .start os = some s) :
    (∀ before after s₁, os = before ++ after → run (Gate.step reader) .start before = some s₁ →
        GateHeld reader s₁) ↔
      Along (Gate.step reader) FlipsWhatItRead .start os :=
  run_invariant_iff (I := UnderWayAccepted reader)
    (fun _ _ _ h hstep => underWayAccepted_step h hstep)
    (fun _ _ _ hunder h hstep => gateHeld_step_iff hunder h hstep)
    (fun _ h => absurd h List.not_mem_nil) (fun _ h => absurd h List.not_mem_nil) hrun

/-! ## A re-upload between check and flip -/

/-- One block for issues, with the title as a field. -/
def issueBlock : EntitySpec where
  type := "issue"
  routeWhen := "type = 'Issue'"
  primaryKey := "id"
  validFrom := none
  observedAt := none
  map := ⟨[("title", "title")], by decide⟩
  content := none

def reviewedYaml : String :=
  "manifest_version: 1\nsource:\n  name: linear\nentities:\n- type: issue\n  route:\n" ++
  "    when: type = 'Issue'\n  primary_key: id\n  map:\n    title: title\n" ++
  "acl_policy:\n  mode: static\n"

def reviewedManifest : Manifest where
  manifestVersion := 1
  source := ⟨"linear", none, none, none⟩
  entities := [issueBlock]
  aclPolicy := some ⟨.static, none, none, false, none, none⟩
  fixtures := []

/-- The same text without its last block. -/
def unreviewedYaml : String :=
  "manifest_version: 1\nsource:\n  name: linear\nentities:\n- type: issue\n  route:\n" ++
  "    when: type = 'Issue'\n  primary_key: id\n  map:\n    title: title\n"

/-- The YAML reader on the two texts. -/
def linearReader : ManifestReader where
  fromStr yaml :=
    if yaml = reviewedYaml then .ok reviewedManifest
    else if yaml = unreviewedYaml then .ok { reviewedManifest with aclPolicy := none }
    else .error "unexpected end of stream"
  debug s := s

def uploadCheckFlip : List GateEvent :=
  [.upload ⟨1, reviewedYaml⟩, .activateCheck 0 ⟨1, "dana"⟩,
    .activateFlip ⟨0, "dana", "linear", reviewedYaml⟩]

def uploadCheckUploadFlip : List GateEvent :=
  [.upload ⟨1, reviewedYaml⟩, .activateCheck 0 ⟨1, "dana"⟩, .upload ⟨1, unreviewedYaml⟩,
    .activateFlip ⟨0, "dana", "linear", reviewedYaml⟩]

/-- An upload, and its activation with nothing in between: the row is active with the text that
was accepted. -/
theorem uninterrupted_activation_holds :
    ∃ s, run (Gate.step linearReader) .start uploadCheckFlip = some s ∧
      s.table.executed 0 = some reviewedYaml ∧
      (∀ before after s₁, uploadCheckFlip = before ++ after →
        run (Gate.step linearReader) .start before = some s₁ → GateHeld linearReader s₁) := by
  have hview : (run (Gate.step linearReader) .start uploadCheckFlip).map
      (fun s => s.table.executed 0) = some (some reviewedYaml) := by
    decide +kernel
  obtain ⟨s, hs, hexecuted⟩ := Option.map_eq_some_iff.mp hview
  refine ⟨s, hs, hexecuted, (gate_holds_iff linearReader uploadCheckFlip s hs).mpr ?_⟩
  decide +kernel

/-- The reviewed text is replaced after it was read: the flip makes a text active that has no
`acl_policy`, and that the gate would have refused. -/
theorem unreviewed_text_becomes_active :
    ∃ s, run (Gate.step linearReader) .start uploadCheckUploadFlip = some s ∧
      s.table.executed 0 = some unreviewedYaml ∧ ¬ Accepted linearReader unreviewedYaml ∧
      ¬ GateHeld linearReader s := by
  have hview : (run (Gate.step linearReader) .start uploadCheckUploadFlip).map
      (fun s => s.table.executed 0) = some (some unreviewedYaml) := by
    decide +kernel
  have hrefused : ¬ Accepted linearReader unreviewedYaml := by
    rintro ⟨m, hm, hcheck⟩
    have hread : Manifest.fromYaml linearReader.fromStr unreviewedYaml =
        .ok { reviewedManifest with aclPolicy := none } := by
      decide +kernel
    rw [hread] at hm
    obtain rfl := Outcome.ok.inj hm
    cases hcheck
  obtain ⟨s, hs, hexecuted⟩ := Option.map_eq_some_iff.mp hview
  refine ⟨s, hs, hexecuted, hrefused, ?_⟩
  intro hheld
  obtain ⟨approval, -, -, haccepted⟩ := hheld.executed hexecuted
  exact hrefused haccepted

end Verity.Analysis
