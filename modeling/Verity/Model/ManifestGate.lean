import Verity.Model.AclCorrection
import Verity.Model.ManifestSchema

/-!
# The human gate

The `manifests` table and its two writers. An upload is one upsert that leaves a draft. An
activation reads the YAML and checks it, and flips the status in a second statement; uploads and
other activations may come between the two. `Gate` is the table with the activations under way
and, to speak about approvals, those that have flipped a status, the latest first.

A call that is refused, fails or never returns takes no step. The check of the admin credential
and the audit row are left out.
-/

set_option autoImplicit false

namespace Verity.Model

open Verity.Foundation

abbrev ManifestId := Nat

inductive ManifestStatus where
  | draft
  | active
deriving DecidableEq, Repr

/-- SOURCE: migrations/0013_manifests.sql:6-21 -/
structure ManifestRow where
  id : ManifestId
  tenantId : TenantId
  name : String
  yaml : String
  status : ManifestStatus
  approvedBy : Option String
deriving DecidableEq, Repr

/-- The table, with its primary key, its unique name per tenant and the supply of fresh ids. -/
structure ManifestTable where
  rows : List ManifestRow
  nextId : ManifestId
  ids_lt : ∀ r ∈ rows, r.id < nextId
  ids_nodup : (rows.map ManifestRow.id).Nodup
  names_nodup : (rows.map fun r => (r.tenantId, r.name)).Nodup

namespace ManifestTable

def empty : ManifestTable where
  rows := []
  nextId := 0
  ids_lt := fun _ h => absurd h List.not_mem_nil
  ids_nodup := List.nodup_nil
  names_nodup := List.nodup_nil

/-- An `UPDATE` that leaves the key columns as they are. -/
def updateRows (t : ManifestTable) (f : ManifestRow → ManifestRow) (hid : ∀ r, (f r).id = r.id)
    (hname : ∀ r, ((f r).tenantId, (f r).name) = (r.tenantId, r.name)) : ManifestTable where
  rows := t.rows.map f
  nextId := t.nextId
  ids_lt := by
    intro r hr
    obtain ⟨r₀, hr₀, rfl⟩ := List.mem_map.mp hr
    rw [hid]
    exact t.ids_lt r₀ hr₀
  ids_nodup := by
    rw [List.map_map, show ManifestRow.id ∘ f = ManifestRow.id from funext hid]
    exact t.ids_nodup
  names_nodup := by
    rw [List.map_map, show (fun r => (r.tenantId, r.name)) ∘ f = fun r => (r.tenantId, r.name) from
      funext hname]
    exact t.names_nodup

/-- The row with this name, made a draft with a new text. -/
def redraft (tenant : TenantId) (name yaml : String) (r : ManifestRow) : ManifestRow :=
  if r.tenantId = tenant ∧ r.name = name then
    { r with yaml := yaml, status := .draft, approvedBy := none }
  else r

/-- `INSERT INTO manifests … ON CONFLICT (tenant_id, name) DO UPDATE`.
SOURCE: manifests.rs:55-61 -/
def upsert (t : ManifestTable) (tenant : TenantId) (name yaml : String) : ManifestTable :=
  if h : (tenant, name) ∈ t.rows.map fun r => (r.tenantId, r.name) then
    t.updateRows (redraft tenant name yaml)
      (by
        intro r
        unfold redraft
        split <;> rfl)
      (by
        intro r
        unfold redraft
        split <;> rfl)
  else
    { rows := t.rows ++ [⟨t.nextId, tenant, name, yaml, .draft, none⟩]
      nextId := t.nextId + 1
      ids_lt := ids_lt_concat t.ids_lt rfl
      ids_nodup := nodup_ids_concat t.ids_nodup t.ids_lt rfl
      names_nodup := by
        refine nodup_keys_concat t.names_nodup ?_
        intro r hr heq
        exact h (heq ▸ List.mem_map_of_mem hr) }

/-- `UPDATE manifests SET status = 'active', approved_by = $1 WHERE id = $2`.
SOURCE: manifests.rs:124-132 -/
def setActive (t : ManifestTable) (id : ManifestId) (approvedBy : String) : ManifestTable :=
  t.updateRows
    (fun r => if r.id = id then { r with status := .active, approvedBy := some approvedBy } else r)
    (by intro r; split <;> rfl) (by intro r; split <;> rfl)

/-- The text an inbound delivery runs: that of the bound row, when it is active.
SOURCE: manifests.rs:289-344 -/
def executed (t : ManifestTable) (id : ManifestId) : Option String :=
  ((t.rows.find? fun r => r.id = id).filter fun r => r.status = .active).map ManifestRow.yaml

end ManifestTable

/-- What the handlers use of other crates: the YAML reader, and `{:?}` of a string. -/
structure ManifestReader where
  fromStr : String → Except String Manifest
  debug : String → String

/-- SOURCE: manifests.rs:38-41 -/
structure UploadManifestRequest where
  tenantId : TenantId
  yaml : String
deriving DecidableEq, Repr

/-- SOURCE: manifests.rs:87-93 -/
structure ActivateManifestRequest where
  tenantId : TenantId
  approvedBy : String
deriving DecidableEq, Repr

/-- An activation between its two statements: the row it is about, and the text it has read and
checked. -/
structure Approval where
  id : ManifestId
  approvedBy : String
  name : String
  yaml : String
deriving DecidableEq, Repr

def unprocessable (reader : ManifestReader) (e : ManifestError) : HandlerError :=
  ⟨422, e.text reader.debug⟩

/-- SOURCE: manifests.rs:44-82 -/
def uploadManifest (reader : ManifestReader) (t : ManifestTable) (req : UploadManifestRequest) :
    Outcome HandlerError ManifestTable :=
  ((Manifest.fromYaml reader.fromStr req.yaml).mapError (unprocessable reader)).bind fun m =>
    .ok (t.upsert req.tenantId m.source.name req.yaml)

/-- The first statement of an activation and its checks. SOURCE: manifests.rs:101-123 -/
def checkActivation (reader : ManifestReader) (t : ManifestTable) (id : ManifestId)
    (req : ActivateManifestRequest) : Outcome HandlerError Approval :=
  let approvedBy := trim req.approvedBy
  if approvedBy = "" then
    .error ⟨422, "activation requires approved_by — the human gate is an approval record"⟩
  else
    match t.rows.find? fun r => r.id = id ∧ r.tenantId = req.tenantId with
    | none => .error ⟨404, "unknown manifest"⟩
    | some row =>
      ((Manifest.fromYaml reader.fromStr row.yaml).mapError (unprocessable reader)).bind fun m =>
        match m.activationCheck with
        | .error reason => .error (unprocessable reader (.activationRefused reason))
        | .ok () => .ok ⟨id, approvedBy, row.name, row.yaml⟩

/-! ## Interleavings -/

structure Gate where
  table : ManifestTable
  underWay : List Approval
  approvals : List Approval

inductive GateEvent where
  | upload (req : UploadManifestRequest)
  | activateCheck (id : ManifestId) (req : ActivateManifestRequest)
  | activateFlip (approval : Approval)
deriving DecidableEq, Repr

namespace Gate

def start : Gate := ⟨.empty, [], []⟩

def step (reader : ManifestReader) (s : Gate) : GateEvent → Option Gate
  | .upload req =>
    match uploadManifest reader s.table req with
    | .ok table => some { s with table }
    | _ => none
  | .activateCheck id req =>
    match checkActivation reader s.table id req with
    | .ok approval => some { s with underWay := s.underWay ++ [approval] }
    | _ => none
  | .activateFlip approval =>
    if approval ∈ s.underWay then
      some
        { table := s.table.setActive approval.id approval.approvedBy
          underWay := s.underWay.erase approval
          approvals := approval :: s.approvals }
    else none

/-- The activation that last set the status of a row. -/
def setBy (s : Gate) (id : ManifestId) : Option Approval := s.approvals.find? fun a => a.id = id

end Gate

end Verity.Model
