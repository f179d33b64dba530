import Verity.Model.ManifestRuntime

/-!
# What the manifest runtime writes

A validated manifest either writes all the entities whose routes claim the payload, or holds the
payload back. `Deliverable` says what it takes, in terms of the values the paths select, and
`apply_all_or_nothing` that the runtime follows it, whatever the payload and the clock. Each
function of the runtime has one lemma that says when it succeeds, and one that says that it never
fails for a text that validation has parsed.

A number of milliseconds is an instant only as far as `chrono` represents it: one beyond its range
quarantines the payload (`far_timestamp_quarantines`).
-/

set_option autoImplicit false

namespace Verity.Model.Json

/-! ## The depth of a value -/

mutual

/-- The number of levels of a value; a scalar has one. -/
def depth : Json → Nat
  | arr xs => 1 + depthList xs
  | obj kvs => 1 + depthEntries kvs
  | _ => 1

def depthList : List Json → Nat
  | [] => 0
  | x :: xs => max x.depth (depthList xs)

def depthEntries : List (String × Json) → Nat
  | [] => 0
  | (_, x) :: xs => max x.depth (depthEntries xs)

end

theorem lt_depthList_iff {n : Nat} {xs : List Json} : n < depthList xs ↔ ∃ x ∈ xs, n < x.depth := by
  induction xs with
  | nil => simp [depthList]
  | cons x xs ih => simp [depthList, ih]

theorem lt_depthEntries_iff {n : Nat} {kvs : List (String × Json)} :
    n < depthEntries kvs ↔ ∃ x ∈ kvs.map Prod.snd, n < x.depth := by
  induction kvs with
  | nil => simp [depthEntries]
  | cons kv kvs ih =>
    rw [depthEntries, lt_max_iff, ih]
    simp

theorem depth_pos (v : Json) : 0 < v.depth := by
  cases v <;> simp [depth]

theorem succ_lt_depth_iff {n : Nat} {v : Json} :
    n + 1 < v.depth ↔ ∃ x ∈ v.children, n < x.depth := by
  cases v with
  | arr xs =>
    rw [depth, children, ← lt_depthList_iff]
    omega
  | obj kvs =>
    rw [depth, children, ← lt_depthEntries_iff]
    omega
  | null | bool _ | posInt _ | negInt _ | float _ | str _ => simp [depth, children]

end Verity.Model.Json

namespace Verity.Analysis

open Verity.Foundation
open Verity.Model

variable {value : Json} {text : String} {entity : EntitySpec} {t : String}
  {outputBytes outputBytes' : Nat} {ns : IdentityNamespace} {sourceName expr : String}
  {hits : List Json} {principals : List String} {m : Manifest} {acl : AclEnvelope}
  {reason : QuarantineReason}

/-- The loop answers above the cap exactly when some value it has to visit reaches above it. -/
theorem lt_depthLoop_iff (stack : List (Json × Nat)) (depth : Nat) :
    Limits.maxPayloadDepth < depthLoop stack depth ↔
      Limits.maxPayloadDepth < depth ∨
        ∃ p ∈ stack, Limits.maxPayloadDepth + 1 < p.2 + p.1.depth := by
  fun_induction depthLoop stack depth with
  | case1 depth => simp
  | case2 depth value d stack hdeep =>
    refine iff_of_true hdeep (.inr ⟨(value, d), List.mem_cons_self, ?_⟩)
    have := value.depth_pos
    dsimp only
    omega
  | case3 depth value d stack depth' hshallow ih =>
    -- one level down, the children reach as far as their parent
    have hchildren :
        (∃ child ∈ value.children, Limits.maxPayloadDepth + 1 < d + 1 + child.depth) ↔
        Limits.maxPayloadDepth + 1 < d + value.depth := by
      have hsub : Limits.maxPayloadDepth - d + d = Limits.maxPayloadDepth := by omega
      have hdepth := @Json.succ_lt_depth_iff (Limits.maxPayloadDepth - d) value
      constructor
      · rintro ⟨child, hchild, hlt⟩
        have := hdepth.mpr ⟨child, hchild, by omega⟩
        omega
      · intro hlt
        obtain ⟨child, hchild, hchild'⟩ := hdepth.mp (by omega)
        exact ⟨child, hchild, by omega⟩
    rw [ih]
    simp only [List.mem_append, List.mem_map, List.mem_reverse, List.mem_cons, or_and_right,
      exists_or, exists_eq_left, exists_exists_and_eq_and, hchildren]
    have hmax : Limits.maxPayloadDepth < depth' ↔ Limits.maxPayloadDepth < depth := by
      show Limits.maxPayloadDepth < max depth d ↔ _
      omega
    rw [hmax]

theorem lt_valueDepth_iff (payload : Json) :
    Limits.maxPayloadDepth < valueDepth payload ↔ Limits.maxPayloadDepth < payload.depth := by
  rw [valueDepth, lt_depthLoop_iff]
  simp only [List.mem_singleton, exists_eq_left, Nat.not_lt_zero, false_or]
  omega

/-! ## What a payload must offer -/

section Conditions

variable (crates : ManifestCrates) (payload : Json) (now : DateTime)

/-- The text is a path, and these are the values it selects. -/
def Selects (text : String) (values : List Json) : Prop :=
  ∃ path, DotPath.parse text = .ok path ∧ path.eval payload = values

/-- The route of the entity claims the payload. -/
def routed (entity : EntitySpec) : Bool :=
  match Predicate.parse entity.routeWhen with
  | .ok route => route.matches payload
  | _ => false

/-- The text of a string, a number or a boolean; no other value has one. -/
def ScalarText (value : Json) (text : String) : Prop :=
  match value with
  | .str s => text = s
  | .posInt _ | .negInt _ | .float _ => text = crates.display value
  | .bool b => text = if b then "true" else "false"
  | .null | .arr _ | .obj _ => False

/-- The instant of a value: an RFC 3339 text, or a number of milliseconds of 64 bits, as far as
`chrono` represents it. -/
def InstantOf (value : Json) (t : DateTime) : Prop :=
  (∃ s, value = .str s ∧ crates.parseFromRfc3339 s = some t) ∨
    ∃ ms, value.asI64 = some ms ∧ crates.timestampMillisOpt ms = some t

/-- The event time: the clock when none is declared or `$now()` is, else the instant of exactly
one value. -/
def ValidFrom (declared : Option String) (t : DateTime) : Prop :=
  match declared with
  | none => t = now
  | some text =>
    (MapExpr.parse text = .ok .now ∧ t = now) ∨
      ∃ path value, MapExpr.parse text = .ok (.path path) ∧ path.eval payload = [value] ∧
        InstantOf crates value t

/-- The value of a mapped field: the text of the clock for `$now()`, else exactly one value. -/
def FieldValue (text : String) (value : Json) : Prop :=
  (MapExpr.parse text = .ok .now ∧ value = .str (crates.toRfc3339Millis now)) ∨
    ∃ path, MapExpr.parse text = .ok (.path path) ∧ path.eval payload = [value]

/-- A field is written under the name it is declared with. -/
def FieldWrite (declared : String × String) (field : String × Json) : Prop :=
  field.1 = declared.1 ∧ FieldValue crates payload now declared.2 field.2

/-- The content: none when none is declared, else exactly one string. -/
def ContentText (declared content : Option String) : Prop :=
  match declared with
  | none => content = none
  | some text => ∃ s, Selects payload text [.str s] ∧ content = some s

/-- The write has everything that its entity block declares. -/
structure Extracted (entity : EntitySpec) (w : EntityWrites) : Prop where
  entityType : w.entityType = entity.type
  entityId : ∃ value, Selects payload entity.primaryKey [value] ∧
    ScalarText crates value w.entityId
  validFrom : ValidFrom crates payload now entity.validFrom w.validFrom
  fields : List.Forall₂ (FieldWrite crates payload now) entity.map.entries w.fields
  content : ContentText payload entity.content w.content

/-- The bytes of the values of mapped fields. -/
def fieldSizes (fields : List (String × Json)) : List Nat :=
  fields.map fun field => (crates.display field.2).utf8ByteSize

/-- The bytes of the values of a write: its mapped fields, and its content. -/
def valueSizes (w : EntityWrites) : List Nat :=
  fieldSizes crates w.fields ++ w.content.toList.map String.utf8ByteSize

/-- The envelope is the one the policy of the manifest grants. -/
def AclGranted (m : Manifest) : AclEnvelope → Prop
  | .static principals =>
    ∃ policy, m.aclPolicy = some policy ∧ policy.mode = .static ∧
      principals = policy.staticVisibility
  | .mapped principals approximated =>
    ∃ policy text ns hits, m.aclPolicy = some policy ∧ policy.mode = .map ∧
      policy.principals = some text ∧ policy.identityNamespace = some ns ∧
      Selects payload text hits ∧ 1 ≤ hits.length ∧ hits.length ≤ Limits.maxPrincipals ∧
      (∀ hit ∈ hits, ∃ raw, ScalarText crates hit raw) ∧
      approximated = policy.approximation ∧ principals ≠ [] ∧ principals.Pairwise (· < ·) ∧
      ∀ p, p ∈ principals ↔ ∃ hit ∈ hits, ∃ raw, ScalarText crates hit raw ∧
        p = namespacedPrincipal ns m.source.name raw

/-- The payload can be written, and these are its writes. -/
structure Deliverable (m : Manifest) (source : String) (writes : List EntityWrites)
    (acl : AclEnvelope) : Prop where
  depth : payload.depth ≤ Limits.maxPayloadDepth
  matched : m.entities.filter (routed payload) ≠ []
  extracted :
    List.Forall₂ (Extracted crates payload now) (m.entities.filter (routed payload)) writes
  valueBytes : ∀ w ∈ writes, ∀ size ∈ valueSizes crates w, size ≤ Limits.maxValueBytes
  outputBytes : (writes.flatMap (valueSizes crates)).sum ≤ Limits.maxOutputBytes
  granted : AclGranted crates payload m acl
  source_eq : source = m.source.name

end Conditions

section Extraction

variable {crates : ManifestCrates} {payload : Json} {now : DateTime}

/-! ## The values -/

theorem scalarToString_eq_some_iff :
    scalarToString crates value = some text ↔ ScalarText crates value text := by
  cases value <;> simp [scalarToString, ScalarText, eq_comm]

theorem evalScalar_eq_some_iff {path : DotPath} :
    path.evalScalar payload = some value ↔ path.eval payload = [value] := by
  unfold DotPath.evalScalar
  split <;> simp_all

theorem asStr_eq_some_iff {s : String} : value.asStr = some s ↔ value = .str s := by
  cases value <;> simp [Json.asStr]

theorem evalTimestamp_path_eq_some_iff {path : DotPath} {t : DateTime} :
    evalTimestamp crates payload now (.path path) = some t ↔
      ∃ value, path.eval payload = [value] ∧ InstantOf crates value t := by
  simp only [evalTimestamp, Option.bind_eq_some_iff, evalScalar_eq_some_iff]
  refine exists_congr fun value => and_congr_right fun _ => ?_
  cases value <;> simp [InstantOf, Json.asI64, Option.bind_eq_some_iff]

theorem extractId_eq_ok_iff {id : String} :
    extractId crates payload entity = .ok id ↔
      ∃ value, Selects payload entity.primaryKey [value] ∧ ScalarText crates value id := by
  simp only [extractId, except_bind_eq_ok_iff, mapError_eq_ok_iff, okOr_eq_ok_iff,
    Option.bind_eq_some_iff, evalScalar_eq_some_iff, scalarToString_eq_some_iff]
  constructor
  · rintro ⟨path, hpath, value, heval, htext⟩
    exact ⟨value, ⟨path, hpath, heval⟩, htext⟩
  · rintro ⟨value, ⟨path, hpath, heval⟩, htext⟩
    exact ⟨path, hpath, value, heval, htext⟩

theorem extractValidFrom_eq_ok_iff {t : DateTime} :
    extractValidFrom crates payload now entity = .ok t ↔
      ValidFrom crates payload now entity.validFrom t := by
  unfold extractValidFrom ValidFrom
  cases entity.validFrom with
  | none => simp [eq_comm]
  | some text =>
    simp only [except_bind_eq_ok_iff, mapError_eq_ok_iff, okOr_eq_ok_iff]
    constructor
    · rintro ⟨expr, hexpr, ht⟩
      cases expr with
      | now => exact .inl ⟨hexpr, (Option.some.inj ht).symm⟩
      | path path =>
        obtain ⟨value, heval, hinstant⟩ := evalTimestamp_path_eq_some_iff.mp ht
        exact .inr ⟨path, value, hexpr, heval, hinstant⟩
    · rintro (⟨hexpr, rfl⟩ | ⟨path, value, hexpr, heval, hinstant⟩)
      · exact ⟨.now, hexpr, rfl⟩
      · exact ⟨.path path, hexpr, evalTimestamp_path_eq_some_iff.mpr ⟨value, heval, hinstant⟩⟩

theorem mapValue_eq_ok_iff {field : String} :
    mapValue crates payload now t field text = .ok value ↔
      FieldValue crates payload now text value := by
  simp only [mapValue, except_bind_eq_ok_iff, mapError_eq_ok_iff, FieldValue]
  constructor
  · rintro ⟨expr, hexpr, hvalue⟩
    cases expr with
    | now => exact .inl ⟨hexpr, (Except.ok.inj hvalue).symm⟩
    | path path => exact .inr ⟨path, hexpr, evalScalar_eq_some_iff.mp (okOr_eq_ok_iff.mp hvalue)⟩
  · rintro (⟨hexpr, rfl⟩ | ⟨path, hexpr, heval⟩)
    · exact ⟨.now, hexpr, rfl⟩
    · exact ⟨.path path, hexpr, okOr_eq_ok_iff.mpr (evalScalar_eq_some_iff.mpr heval)⟩

/-! ## The bytes -/

theorem charge_eq_ok_iff {tooLarge : QuarantineReason} {size : Nat} :
    charge tooLarge size outputBytes = .ok outputBytes' ↔
      size ≤ Limits.maxValueBytes ∧ outputBytes + size ≤ Limits.maxOutputBytes ∧
        outputBytes' = outputBytes + size := by
  unfold charge
  split
  · next hlarge =>
      simp only [reduceCtorEq, false_iff, not_and]
      omega
  · split
    · next hlarge =>
        simp only [reduceCtorEq, false_iff, not_and]
        omega
    · simp only [Except.ok.injEq]
      omega

/-- The field loop succeeds exactly when every declared field has its value and the counter
stays within the cap. -/
theorem extractFields_eq_ok_iff {map : List (String × String)} {fields : List (String × Json)}
    (hbytes : outputBytes ≤ Limits.maxOutputBytes) :
    extractFields crates payload now t map outputBytes = .ok (fields, outputBytes') ↔
      List.Forall₂ (FieldWrite crates payload now) map fields ∧
        (∀ size ∈ fieldSizes crates fields, size ≤ Limits.maxValueBytes) ∧
        outputBytes' = outputBytes + (fieldSizes crates fields).sum ∧
        outputBytes' ≤ Limits.maxOutputBytes := by
  induction map generalizing outputBytes fields with
  | nil =>
    simp only [extractFields, Except.ok.injEq, Prod.mk.injEq, List.forall₂_nil_left_iff]
    constructor
    · rintro ⟨rfl, rfl⟩
      exact ⟨rfl, by simp [fieldSizes], rfl, hbytes⟩
    · rintro ⟨rfl, -, rfl, -⟩
      exact ⟨rfl, rfl⟩
  | cons declared map ih =>
    obtain ⟨name, text⟩ := declared
    simp only [extractFields, except_bind_eq_ok_iff, except_map_eq_ok_iff, mapValue_eq_ok_iff,
      charge_eq_ok_iff]
    constructor
    · rintro ⟨value, hvalue, bytes₁, ⟨hsize, hout, rfl⟩, ⟨fields₁, bytes₂⟩, hrest, heq⟩
      obtain ⟨rfl, rfl⟩ := Prod.mk.inj heq
      obtain ⟨hfields, hsizes, rfl, hmax⟩ := (ih hout).mp hrest
      refine ⟨.cons ⟨rfl, hvalue⟩ hfields, ?_, ?_, hmax⟩
      · simpa [fieldSizes] using ⟨hsize, by simpa [fieldSizes] using hsizes⟩
      · simp [fieldSizes, Nat.add_assoc]
    · rintro ⟨hfields, hsizes, hsum, hmax⟩
      cases hfields with
      | @cons _ field _ fields₁ hfield hfields =>
        obtain ⟨name', value⟩ := field
        obtain ⟨rfl, hvalue⟩ := hfield
        simp only [fieldSizes, List.map_cons, List.forall_mem_cons, List.sum_cons,
          ← Nat.add_assoc] at hsizes hsum
        exact ⟨value, hvalue, _, ⟨hsizes.1, by omega, rfl⟩, (fields₁, outputBytes'),
          (ih (by omega)).mpr ⟨hfields, hsizes.2, hsum, hmax⟩, rfl⟩

theorem extractContent_eq_ok_iff {declared content : Option String}
    (hbytes : outputBytes ≤ Limits.maxOutputBytes) :
    extractContent payload t declared outputBytes = .ok (content, outputBytes') ↔
      ContentText payload declared content ∧
        (∀ size ∈ content.toList.map String.utf8ByteSize, size ≤ Limits.maxValueBytes) ∧
        outputBytes' = outputBytes + (content.toList.map String.utf8ByteSize).sum ∧
        outputBytes' ≤ Limits.maxOutputBytes := by
  cases declared with
  | none =>
    simp only [extractContent, ContentText, Except.ok.injEq, Prod.mk.injEq]
    constructor
    · rintro ⟨rfl, rfl⟩
      exact ⟨rfl, by simp, by simp, hbytes⟩
    · rintro ⟨rfl, -, rfl, -⟩
      exact ⟨rfl, by simp⟩
  | some text =>
    simp only [extractContent, except_bind_eq_ok_iff, except_map_eq_ok_iff, mapError_eq_ok_iff,
      okOr_eq_ok_iff, asStr_eq_some_iff, evalScalar_eq_some_iff, charge_eq_ok_iff]
    constructor
    · rintro ⟨path, hpath, value, heval, s, rfl, bytes, ⟨hsize, hout, rfl⟩, heq⟩
      obtain ⟨rfl, rfl⟩ := Prod.mk.inj heq
      exact ⟨⟨s, ⟨path, hpath, heval⟩, rfl⟩, by simpa using hsize, by simp, hout⟩
    · rintro ⟨⟨s, ⟨path, hpath, heval⟩, rfl⟩, hsize, rfl, hmax⟩
      simp only [Option.toList_some, List.map_cons, List.map_nil, List.mem_singleton, forall_eq,
        List.sum_cons, List.sum_nil, Nat.add_zero] at hsize hmax
      exact ⟨path, hpath, .str s, heval, s, rfl, _, ⟨hsize, hmax, rfl⟩, by simp⟩

/-- A block is extracted exactly when it finds all it declares, within the caps. -/
theorem extractEntity_eq_ok_iff {w : EntityWrites} (hbytes : outputBytes ≤ Limits.maxOutputBytes) :
    extractEntity crates payload now entity outputBytes = .ok (w, outputBytes') ↔
      Extracted crates payload now entity w ∧
        (∀ size ∈ valueSizes crates w, size ≤ Limits.maxValueBytes) ∧
        outputBytes' = outputBytes + (valueSizes crates w).sum ∧
        outputBytes' ≤ Limits.maxOutputBytes := by
  simp only [extractEntity, except_bind_eq_ok_iff, except_map_eq_ok_iff, extractId_eq_ok_iff,
    extractValidFrom_eq_ok_iff, Prod.exists]
  constructor
  · rintro ⟨id, hid, validFrom, hvalidFrom, fields, bytes₁, hfields, content, bytes₂, hcontent, heq⟩
    obtain ⟨rfl, rfl⟩ := Prod.mk.inj heq
    obtain ⟨hwritten, hfieldSizes, rfl, hmax₁⟩ := (extractFields_eq_ok_iff hbytes).mp hfields
    obtain ⟨htext, hcontentSize, rfl, hmax₂⟩ := (extractContent_eq_ok_iff hmax₁).mp hcontent
    refine ⟨⟨rfl, hid, hvalidFrom, hwritten, htext⟩, ?_, ?_, hmax₂⟩
    · intro size hsize
      rcases List.mem_append.mp hsize with hsize | hsize
      · exact hfieldSizes size hsize
      · exact hcontentSize size hsize
    · rw [valueSizes, List.sum_append, Nat.add_assoc]
  · rintro ⟨⟨htype, hid, hvalidFrom, hfields, hcontent⟩, hsizes, rfl, hmax⟩
    rw [valueSizes, List.sum_append] at hmax
    refine ⟨w.entityId, hid, w.validFrom, hvalidFrom, w.fields, _,
      (extractFields_eq_ok_iff hbytes).mpr ⟨hfields, ?_, rfl, by omega⟩, w.content, _,
      (extractContent_eq_ok_iff (by omega)).mpr ⟨hcontent, ?_, rfl, by omega⟩, ?_⟩
    · exact fun size hsize => hsizes size (List.mem_append_left _ hsize)
    · exact fun size hsize => hsizes size (List.mem_append_right _ hsize)
    · rw [← htype, valueSizes, List.sum_append, Nat.add_assoc]

/-! ## The envelope -/

/-- The loop over the principals succeeds exactly when each value has its image. -/
theorem namespacedPrincipals_eq_ok_iff :
    namespacedPrincipals crates ns sourceName expr hits = .ok principals ↔
      hits.map (fun hit =>
        (scalarToString crates hit).map (namespacedPrincipal ns sourceName)) =
          principals.map some := by
  induction hits generalizing principals with
  | nil => cases principals <;> simp [namespacedPrincipals]
  | cons hit hits ih =>
    simp only [namespacedPrincipals, except_bind_eq_ok_iff, except_map_eq_ok_iff, okOr_eq_ok_iff,
      ih, List.map_cons]
    cases principals with
    | nil => simp
    | cons p principals =>
      simp only [List.cons.injEq, List.map_cons, Option.map_eq_some_iff]
      constructor
      · rintro ⟨raw, hraw, principals', hrest, rfl, rfl⟩
        exact ⟨⟨raw, hraw, rfl⟩, hrest⟩
      · rintro ⟨⟨raw, hraw, rfl⟩, hrest⟩
        exact ⟨raw, hraw, principals, hrest, rfl, rfl⟩

theorem mem_of_namespacedPrincipals
    (h : namespacedPrincipals crates ns sourceName expr hits = .ok principals) (p : String) :
    p ∈ principals ↔ ∃ hit ∈ hits, ∃ raw, ScalarText crates hit raw ∧
      p = namespacedPrincipal ns sourceName raw := by
  have himages := namespacedPrincipals_eq_ok_iff.mp h
  have hmem : p ∈ principals ↔ some p ∈ principals.map some := by simp
  rw [hmem, ← himages, List.mem_map]
  simp only [Option.map_eq_some_iff, scalarToString_eq_some_iff]
  refine exists_congr fun hit => and_congr_right fun _ => exists_congr fun raw => ?_
  exact and_congr_right fun _ => eq_comm

theorem exists_namespacedPrincipals (ns : IdentityNamespace) (sourceName expr : String)
    (hscalar : ∀ hit ∈ hits, ∃ raw, ScalarText crates hit raw) :
    ∃ principals, namespacedPrincipals crates ns sourceName expr hits = .ok principals := by
  induction hits with
  | nil => exact ⟨[], rfl⟩
  | cons hit hits ih =>
    obtain ⟨raw, hraw⟩ := hscalar hit List.mem_cons_self
    obtain ⟨principals, hprincipals⟩ := ih fun hit' h => hscalar hit' (List.mem_cons_of_mem _ h)
    refine ⟨namespacedPrincipal ns sourceName raw :: principals, ?_⟩
    rw [namespacedPrincipals, scalarToString_eq_some_iff.mpr hraw, hprincipals]
    rfl

theorem scalar_of_namespacedPrincipals
    (h : namespacedPrincipals crates ns sourceName expr hits = .ok principals) :
    ∀ hit ∈ hits, ∃ raw, ScalarText crates hit raw := by
  intro hit hhit
  have himage : (scalarToString crates hit).map (namespacedPrincipal ns sourceName) ∈
      principals.map some := by
    rw [← namespacedPrincipals_eq_ok_iff.mp h]
    exact List.mem_map.mpr ⟨hit, hhit, rfl⟩
  obtain ⟨p, -, hp⟩ := List.mem_map.mp himage
  obtain ⟨raw, hraw, -⟩ := Option.map_eq_some_iff.mp hp.symm
  exact ⟨raw, scalarToString_eq_some_iff.mp hraw⟩

/-- The envelope of the `map` mode: the sorted images of the selected values. -/
theorem mappedAcl_eq_ok_iff {policy : AclPolicy} (hpolicy : m.aclPolicy = some policy)
    (hmode : policy.mode = .map) :
    mappedAcl crates payload m.source.name policy = .ok acl ↔ AclGranted crates payload m acl := by
  simp only [mappedAcl, except_bind_eq_ok_iff, mapError_eq_ok_iff, okOr_eq_ok_iff]
  constructor
  · rintro ⟨text, htext, path, hpath, ns, hns, h⟩
    split at h
    · cases h
    · next hsome =>
        split at h
        · cases h
        · next hfew =>
            obtain ⟨principals, hprincipals, rfl⟩ := except_map_eq_ok_iff.mp h
            have hmem := mem_of_namespacedPrincipals hprincipals
            have hscalar := scalar_of_namespacedPrincipals hprincipals
            refine ⟨policy, text, ns, path.eval payload, hpolicy, hmode, htext, hns,
              ⟨path, hpath, rfl⟩, List.length_pos_of_ne_nil hsome, Nat.le_of_not_lt hfew, hscalar,
              rfl, ?_, sortDedup_sorted _, fun p => mem_sortDedup.trans (hmem p)⟩
            obtain ⟨hit, hhit⟩ := List.exists_mem_of_ne_nil _ hsome
            obtain ⟨raw, hraw⟩ := hscalar hit hhit
            exact List.ne_nil_of_mem
              (mem_sortDedup.mpr ((hmem _).mpr ⟨hit, hhit, raw, hraw, rfl⟩))
  · cases acl with
    | static principals =>
      rintro ⟨policy', hpolicy', hmode', -⟩
      rw [hpolicy] at hpolicy'
      obtain rfl := Option.some.inj hpolicy'
      rw [hmode] at hmode'
      cases hmode'
    | mapped principals approximated =>
      rintro ⟨policy', text, ns, hits, hpolicy', -, htext, hns, ⟨path, hpath, rfl⟩, hsome, hfew,
        hscalar, rfl, -, hsorted, hmem⟩
      rw [hpolicy] at hpolicy'
      obtain rfl := Option.some.inj hpolicy'
      obtain ⟨images, himages⟩ := exists_namespacedPrincipals ns m.source.name text hscalar
      have hsame : sortDedup images = principals := by
        refine (sortDedup_sorted images).eq_of_mem_iff hsorted fun p => ?_
        exact mem_sortDedup.trans ((mem_of_namespacedPrincipals himages p).trans (hmem p).symm)
      refine ⟨text, htext, path, hpath, ns, hns, ?_⟩
      rw [if_neg (List.ne_nil_of_length_pos hsome), if_neg (Nat.not_lt_of_le hfew)]
      exact except_map_eq_ok_iff.mpr ⟨images, himages, by rw [hsame]⟩

theorem evaluateAcl_eq_ok_iff :
    evaluateAcl crates payload m = .ok acl ↔ AclGranted crates payload m acl := by
  simp only [evaluateAcl, except_bind_eq_ok_iff, okOr_eq_ok_iff]
  constructor
  · rintro ⟨policy, hpolicy, h⟩
    cases hmode : policy.mode with
    | quarantine =>
      rw [hmode] at h
      cases h
    | static =>
      rw [hmode] at h
      obtain rfl := Except.ok.inj h
      exact ⟨policy, hpolicy, hmode, rfl⟩
    | map =>
      rw [hmode] at h
      exact (mappedAcl_eq_ok_iff hpolicy hmode).mp h
  · intro h
    cases acl with
    | static principals =>
      obtain ⟨policy, hpolicy, hmode, rfl⟩ := h
      refine ⟨policy, hpolicy, ?_⟩
      rw [hmode]
    | mapped principals approximated =>
      have hgranted := h
      obtain ⟨policy, -, -, -, hpolicy, hmode, -⟩ := h
      refine ⟨policy, hpolicy, ?_⟩
      rw [hmode]
      exact (mappedAcl_eq_ok_iff hpolicy hmode).mpr hgranted

/-! ## The entity loop -/

/-- The loop over the blocks succeeds exactly when every block that is routed is extracted, and
the bytes of all of them together stay within the cap. -/
theorem applyEntities_eq_ok_iff {entities : List EntitySpec} {writes : List EntityWrites}
    (hbytes : outputBytes ≤ Limits.maxOutputBytes)
    (hroutes : ∀ entity ∈ entities, ∃ route, Predicate.parse entity.routeWhen = .ok route) :
    applyEntities crates payload now entities outputBytes = .ok writes ↔
      List.Forall₂ (Extracted crates payload now) (entities.filter (routed payload)) writes ∧
        (∀ w ∈ writes, ∀ size ∈ valueSizes crates w, size ≤ Limits.maxValueBytes) ∧
        outputBytes + (writes.flatMap (valueSizes crates)).sum ≤ Limits.maxOutputBytes := by
  induction entities generalizing outputBytes writes with
  | nil =>
    simp only [applyEntities, Outcome.ok.injEq, List.filter_nil, List.forall₂_nil_left_iff]
    constructor
    · rintro rfl
      exact ⟨rfl, by simp, by simpa using hbytes⟩
    · rintro ⟨rfl, -⟩
      rfl
  | cons entity entities ih =>
    obtain ⟨route, hroute⟩ := hroutes entity List.mem_cons_self
    have hrest := fun e h => hroutes e (List.mem_cons_of_mem _ h)
    have hrouted : routed payload entity = route.matches payload := by rw [routed, hroute]
    rw [applyEntities, hroute]
    by_cases hmatch : route.matches payload = true
    · rw [List.filter_cons_of_pos (hrouted.trans hmatch)]
      simp only [hmatch, Bool.not_true, Bool.false_eq_true, if_false]
      constructor
      · intro h
        cases hextract : extractEntity crates payload now entity outputBytes with
        | error reason =>
          rw [hextract] at h
          cases h
        | ok result =>
          obtain ⟨w, bytes⟩ := result
          rw [hextract] at h
          obtain ⟨writes, hwrites, heq⟩ := Outcome.bind_eq_ok_iff.mp h
          obtain rfl := Outcome.ok.inj heq
          obtain ⟨hw, hsizes, rfl, hmax⟩ := (extractEntity_eq_ok_iff hbytes).mp hextract
          obtain ⟨hall, hallSizes, htotal⟩ := (ih hmax hrest).mp hwrites
          refine ⟨.cons hw hall, List.forall_mem_cons.mpr ⟨hsizes, hallSizes⟩, ?_⟩
          rw [List.flatMap_cons, List.sum_append, ← Nat.add_assoc]
          exact htotal
      · rintro ⟨hall, hsizes, htotal⟩
        cases hall with
        | @cons _ w _ writes hw hall =>
          rw [List.flatMap_cons, List.sum_append] at htotal
          obtain ⟨hwSizes, hsizes⟩ := List.forall_mem_cons.mp hsizes
          have hmax : outputBytes + (valueSizes crates w).sum ≤ Limits.maxOutputBytes := by
            omega
          rw [(extractEntity_eq_ok_iff hbytes).mpr ⟨hw, hwSizes, rfl, hmax⟩]
          refine Outcome.bind_eq_ok_iff.mpr ⟨writes, (ih hmax hrest).mpr ?_, rfl⟩
          exact ⟨hall, hsizes, by omega⟩
    · rw [List.filter_cons_of_neg (by rw [hrouted]; exact hmatch)]
      simp only [hmatch, Bool.not_false, if_true]
      exact ih hbytes hrest

/-! ## What validation leaves to the runtime -/

/-- Every text of the block is one that the runtime can parse. -/
structure BlockParses (entity : EntitySpec) : Prop where
  route : ∃ route, Predicate.parse entity.routeWhen = .ok route
  primaryKey : ∃ path, DotPath.parse entity.primaryKey = .ok path
  validFrom : ∀ text, entity.validFrom = some text → ∃ expr, MapExpr.parse text = .ok expr
  map : ∀ declared ∈ entity.map.entries, ∃ expr, MapExpr.parse declared.2 = .ok expr
  content : ∀ text, entity.content = some text → ∃ path, DotPath.parse text = .ok path

/-- A policy of the `map` mode has what the runtime reads. -/
def PolicyParses (policy : AclPolicy) : Prop :=
  policy.mode = .map → ∃ text path ns, policy.principals = some text ∧
    DotPath.parse text = .ok path ∧ policy.identityNamespace = some ns

theorem parses_eq_ok_iff {ε α : Type} {e : ε → InvalidManifest} {x : Outcome ε α} :
    parses e x = .ok () ↔ ∃ a, x = .ok a := by
  cases x <;> simp [parses]

theorem blockParses_of_validate (h : entity.validate = .ok ()) : BlockParses entity := by
  simp only [EntitySpec.validate, Outcome.bind_unit_eq_ok_iff, Outcome.require_eq_ok_iff,
    Outcome.forSome_eq_ok_iff, Outcome.forEach_eq_ok_iff, parses_eq_ok_iff,
    Outcome.ofExcept_eq_ok_iff] at h
  obtain ⟨-, hroute, hprimaryKey, hvalidFrom, -, -, hmap, hcontent⟩ := h
  exact ⟨hroute, hprimaryKey, hvalidFrom, fun declared hd => (hmap declared hd).2, hcontent⟩

theorem policyParses_of_validate {policy : AclPolicy} (h : policy.validate = .ok ()) :
    PolicyParses policy := by
  intro hmode
  rw [AclPolicy.validate, hmode] at h
  cases hprincipals : policy.principals with
  | none =>
    rw [hprincipals] at h
    cases h
  | some text =>
    rw [hprincipals] at h
    simp only [Outcome.bind_unit_eq_ok_iff, Outcome.require_eq_ok_iff, parses_eq_ok_iff,
      Outcome.ofExcept_eq_ok_iff] at h
    obtain ⟨⟨path, hpath⟩, hns, -⟩ := h
    obtain ⟨ns, hns⟩ := Option.ne_none_iff_exists'.mp hns
    exact ⟨text, path, ns, rfl, hpath, hns⟩

theorem parses_of_validate (h : m.validate = .ok ()) :
    (∀ entity ∈ m.entities, BlockParses entity) ∧
      ∀ policy, m.aclPolicy = some policy → PolicyParses policy := by
  simp only [Manifest.validate, Outcome.bind_unit_eq_ok_iff, Outcome.forSome_eq_ok_iff,
    Outcome.forEach_eq_ok_iff] at h
  obtain ⟨-, -, -, -, -, -, hentities, hpolicy, -⟩ := h
  exact ⟨fun entity he => blockParses_of_validate (hentities entity he),
    fun policy hp => policyParses_of_validate (hpolicy policy hp)⟩

/-- The reasons that blame a text of the manifest rather than the payload. -/
def blamesText : QuarantineReason → Bool
  | .unparseableRoute _ | .primaryKeyPath _ _ | .validFromExpr _ _ | .mapExpr _ _ _
  | .contentPath _ _ | .aclPrincipalsPath _ | .mapWithoutPrincipals | .mapWithoutNamespace => true
  | _ => false

theorem blamesText_charge {tooLarge : QuarantineReason} {size : Nat}
    (htooLarge : blamesText tooLarge = false)
    (h : charge tooLarge size outputBytes = .error reason) : blamesText reason = false := by
  unfold charge at h
  split at h
  · obtain rfl := Except.error.inj h
    exact htooLarge
  · split at h
    · obtain rfl := Except.error.inj h
      rfl
    · cases h

theorem blamesText_extractId (hblock : BlockParses entity)
    (h : extractId crates payload entity = .error reason) : blamesText reason = false := by
  obtain ⟨path, hpath⟩ := hblock.primaryKey
  rw [extractId, hpath] at h
  obtain ⟨-, rfl⟩ := okOr_eq_error_iff.mp h
  rfl

theorem blamesText_extractValidFrom (hblock : BlockParses entity)
    (h : extractValidFrom crates payload now entity = .error reason) :
    blamesText reason = false := by
  rw [extractValidFrom] at h
  cases hdeclared : entity.validFrom with
  | none =>
    rw [hdeclared] at h
    cases h
  | some text =>
    obtain ⟨expr, hexpr⟩ := hblock.validFrom text hdeclared
    rw [hdeclared] at h
    dsimp only at h
    rw [hexpr] at h
    obtain ⟨-, rfl⟩ := okOr_eq_error_iff.mp h
    rfl

theorem blamesText_mapValue {field : String} (hexpr : ∃ expr, MapExpr.parse text = .ok expr)
    (h : mapValue crates payload now t field text = .error reason) : blamesText reason = false := by
  obtain ⟨expr, hexpr⟩ := hexpr
  rw [mapValue, hexpr] at h
  cases expr with
  | now => cases h
  | path path =>
    obtain ⟨-, rfl⟩ := okOr_eq_error_iff.mp h
    rfl

theorem blamesText_extractFields {map : List (String × String)}
    (hmap : ∀ declared ∈ map, ∃ expr, MapExpr.parse declared.2 = .ok expr)
    (h : extractFields crates payload now t map outputBytes = .error reason) :
    blamesText reason = false := by
  induction map generalizing outputBytes with
  | nil => cases h
  | cons declared map ih =>
    obtain ⟨hfirst, hrest⟩ := List.forall_mem_cons.mp hmap
    simp only [extractFields, except_bind_eq_error_iff, except_map_eq_error_iff] at h
    rcases h with h | ⟨value, -, h | ⟨bytes, -, h⟩⟩
    · exact blamesText_mapValue hfirst h
    · exact blamesText_charge rfl h
    · exact ih hrest h

theorem blamesText_extractContent {declared : Option String}
    (hcontent : ∀ text, declared = some text → ∃ path, DotPath.parse text = .ok path)
    (h : extractContent payload t declared outputBytes = .error reason) :
    blamesText reason = false := by
  cases declared with
  | none => cases h
  | some text =>
    obtain ⟨path, hpath⟩ := hcontent text rfl
    simp only [extractContent, hpath, except_bind_eq_error_iff, except_map_eq_error_iff,
      mapError_eq_error_iff, okOr_eq_error_iff] at h
    rcases h with ⟨e, he, -⟩ | ⟨-, -, ⟨-, rfl⟩ | ⟨-, -, ⟨-, rfl⟩ | ⟨s, -, h⟩⟩⟩
    · cases he
    · rfl
    · rfl
    · exact blamesText_charge rfl h

theorem blamesText_extractEntity (hblock : BlockParses entity)
    (h : extractEntity crates payload now entity outputBytes = .error reason) :
    blamesText reason = false := by
  simp only [extractEntity, except_bind_eq_error_iff, except_map_eq_error_iff] at h
  rcases h with h | ⟨_, -, h | ⟨_, -, h | ⟨_, -, h⟩⟩⟩
  · exact blamesText_extractId hblock h
  · exact blamesText_extractValidFrom hblock h
  · exact blamesText_extractFields hblock.map h
  · exact blamesText_extractContent hblock.content h

theorem blamesText_namespacedPrincipals
    (h : namespacedPrincipals crates ns sourceName expr hits = .error reason) :
    blamesText reason = false := by
  induction hits with
  | nil => cases h
  | cons hit hits ih =>
    simp only [namespacedPrincipals, except_bind_eq_error_iff, except_map_eq_error_iff,
      okOr_eq_error_iff] at h
    rcases h with ⟨-, rfl⟩ | ⟨-, -, h⟩
    · rfl
    · exact ih h

theorem blamesText_evaluateAcl (hpolicy : ∀ policy, m.aclPolicy = some policy → PolicyParses policy)
    (h : evaluateAcl crates payload m = .error reason) : blamesText reason = false := by
  simp only [evaluateAcl, except_bind_eq_error_iff, okOr_eq_error_iff, okOr_eq_ok_iff] at h
  rcases h with ⟨-, rfl⟩ | ⟨policy, hsome, h⟩
  · rfl
  · cases hmode : policy.mode with
    | quarantine =>
      rw [hmode] at h
      obtain rfl := Except.error.inj h
      rfl
    | static =>
      rw [hmode] at h
      cases h
    | map =>
      obtain ⟨text, path, ns, htext, hpath, hns⟩ := hpolicy policy hsome hmode
      rw [hmode] at h
      dsimp only at h
      simp only [mappedAcl, htext, hpath, hns, except_bind_eq_error_iff, okOr_eq_error_iff,
        okOr_eq_ok_iff, mapError_eq_error_iff, mapError_eq_ok_iff, reduceCtorEq, false_and,
        exists_false, false_or, Option.some.injEq, Except.ok.injEq, exists_eq_left'] at h
      split at h
      · obtain rfl := Except.error.inj h
        rfl
      · split at h
        · obtain rfl := Except.error.inj h
          rfl
        · exact blamesText_namespacedPrincipals (except_map_eq_error_iff.mp h)

/-- Over blocks that parse, the loop returns, and fails only for the payload. -/
theorem applyEntities_returns {entities : List EntitySpec} (outputBytes : Nat)
    (hblocks : ∀ entity ∈ entities, BlockParses entity) :
    (∃ writes, applyEntities crates payload now entities outputBytes = .ok writes) ∨
      ∃ reason, applyEntities crates payload now entities outputBytes = .error reason ∧
        blamesText reason = false := by
  induction entities generalizing outputBytes with
  | nil => exact .inl ⟨[], rfl⟩
  | cons entity entities ih =>
    obtain ⟨hblock, hrest⟩ := List.forall_mem_cons.mp hblocks
    obtain ⟨route, hroute⟩ := hblock.route
    rw [applyEntities, hroute]
    by_cases hmatch : route.matches payload = true
    · simp only [hmatch, Bool.not_true, Bool.false_eq_true, if_false]
      cases hextract : extractEntity crates payload now entity outputBytes with
      | error reason => exact .inr ⟨reason, rfl, blamesText_extractEntity hblock hextract⟩
      | ok result =>
        obtain ⟨w, bytes⟩ := result
        rcases ih bytes hrest with ⟨writes, hwrites⟩ | ⟨reason, hreason, hfair⟩
        · refine .inl ⟨w :: writes, ?_⟩
          dsimp only
          rw [hwrites]
          rfl
        · refine .inr ⟨reason, ?_, hfair⟩
          dsimp only
          rw [hreason]
          rfl
    · simp only [hmatch, Bool.not_false, if_true]
      exact ih outputBytes hrest

/-! ## The whole payload -/

/-- Exactly the deliverable payloads are written. -/
theorem apply_eq_writes_iff {source : String} {writes : List EntityWrites}
    (hblocks : ∀ entity ∈ m.entities, BlockParses entity) :
    apply crates payload now m = some (.writes source writes acl) ↔
      Deliverable crates payload now m source writes acl := by
  have hroutes := fun entity he => (hblocks entity he).route
  have hloop := fun writes => @applyEntities_eq_ok_iff 0 crates payload now m.entities writes
    (Nat.zero_le _) hroutes
  constructor
  · intro h
    unfold apply at h
    split at h
    · cases h
    · next hdepth =>
        split at h
        · cases h
        · cases h
        · next writes' hwrites =>
            split at h
            · cases h
            · next hsome =>
                split at h
                · cases h
                · next acl' hacl =>
                    obtain ⟨rfl, rfl, rfl⟩ := Applied.writes.inj (Option.some.inj h)
                    obtain ⟨hall, hsizes, htotal⟩ := (hloop _).mp hwrites
                    refine ⟨?_, ?_, hall, hsizes, by simpa using htotal,
                      evaluateAcl_eq_ok_iff.mp hacl, rfl⟩
                    · rw [lt_valueDepth_iff] at hdepth
                      exact Nat.le_of_not_lt hdepth
                    · intro hnone
                      rw [hnone] at hall
                      exact hsome (List.forall₂_nil_left_iff.mp hall)
  · rintro ⟨hdepth, hmatched, hall, hsizes, htotal, hgranted, rfl⟩
    have hshallow : ¬ Limits.maxPayloadDepth < valueDepth payload := by
      rw [lt_valueDepth_iff]
      exact Nat.not_lt_of_le hdepth
    have hsome : writes ≠ [] := by
      rintro rfl
      exact hmatched (List.forall₂_nil_right_iff.mp hall)
    rw [apply, if_neg hshallow, (hloop writes).mpr ⟨hall, hsizes, by simpa using htotal⟩]
    dsimp only
    rw [if_neg hsome, evaluateAcl_eq_ok_iff.mpr hgranted]

/-- A manifest whose texts parse answers every payload, and a payload that is held back is held
back for what it is. -/
theorem apply_returns (hblocks : ∀ entity ∈ m.entities, BlockParses entity)
    (hpolicy : ∀ policy, m.aclPolicy = some policy → PolicyParses policy) :
    (∃ source writes acl, apply crates payload now m = some (.writes source writes acl)) ∨
      ∃ reason, apply crates payload now m = some (.quarantine reason) ∧
        blamesText reason = false := by
  unfold apply
  split
  · exact .inr ⟨_, rfl, rfl⟩
  · rcases applyEntities_returns 0 hblocks with ⟨writes, hwrites⟩ | ⟨reason, hreason, hfair⟩
    · rw [hwrites]
      dsimp only
      split
      · exact .inr ⟨_, rfl, rfl⟩
      · cases hacl : evaluateAcl crates payload m with
        | error reason => exact .inr ⟨reason, rfl, blamesText_evaluateAcl hpolicy hacl⟩
        | ok acl => exact .inl ⟨_, _, acl, rfl⟩
    · rw [hreason]
      exact .inr ⟨reason, rfl, hfair⟩

end Extraction

/-- All or nothing. Whatever the payload and the clock, a manifest that validation accepts writes
exactly what `Deliverable` describes. In every other case the payload is held back, and never
for a route or a path that does not parse. -/
theorem apply_all_or_nothing (crates : ManifestCrates) (m : Manifest) (payload : Json)
    (now : DateTime) (hvalid : m.validate = .ok ()) :
    (∀ source writes acl, apply crates payload now m = some (.writes source writes acl) ↔
        Deliverable crates payload now m source writes acl) ∧
      ((¬ ∃ source writes acl, Deliverable crates payload now m source writes acl) →
        ∃ reason, apply crates payload now m = some (.quarantine reason) ∧
          blamesText reason = false) := by
  obtain ⟨hblocks, hpolicy⟩ := parses_of_validate hvalid
  refine ⟨fun source writes acl => apply_eq_writes_iff hblocks, ?_⟩
  intro hnone
  rcases @apply_returns m crates payload now hblocks hpolicy with ⟨source, writes, acl, h⟩ | hheld
  · exact absurd ⟨source, writes, acl, (apply_eq_writes_iff hblocks).mp h⟩ hnone
  · exact hheld

/-! ## A payload on each side -/

/-- Issues with an event time and a body. -/
def stampedBlock : EntitySpec where
  type := "issue"
  routeWhen := "type = 'Issue'"
  primaryKey := "id"
  validFrom := some "at"
  observedAt := none
  map := .singleton "title" "title"
  content := some "body"

def stampedManifest : Manifest where
  manifestVersion := 1
  source := ⟨"linear", none, none, none⟩
  entities := [stampedBlock]
  aclPolicy := some ⟨.map, some .sourceNativeId, some "team.members[].id", false, none, none⟩
  fixtures := []

/-- Issue 42 of the members 9 and 7, at so many milliseconds. -/
def stampedPayload (at_ : UInt64) : Json :=
  .obj [("type", .str "Issue"), ("id", .posInt 42), ("at", .posInt at_), ("title", .str "T"),
    ("body", .str "B"),
    ("team", .obj [("members", .arr [.obj [("id", .posInt 9)], .obj [("id", .posInt 7)]])])]

/-- The crates on these payloads: quoted text without escapes, whole numbers, and the instants
from year -262143 to year 262142. -/
def stampedCrates : ManifestCrates where
  debug s := "\"" ++ s ++ "\""
  display
    | .str s => "\"" ++ s ++ "\""
    | .posInt n => toString n.toNat
    | _ => "null"
  parseFromRfc3339 _ := none
  timestampMillisOpt ms :=
    if -8334601228800000 ≤ ms ∧ ms ≤ 8210266876799999 then some (ms * 1000000) else none
  toRfc3339Millis _ := "1970-01-01T00:00:00.000Z"

/-- The issue is delivered with one entity and the tokens of its two members. -/
theorem issue_delivered :
    stampedManifest.validate = .ok () ∧
      Deliverable stampedCrates (stampedPayload 1767225600000) 0 stampedManifest "linear"
        [⟨"issue", "42", 1767225600000000000, [("title", .str "T")], some "B"⟩]
        (.mapped ["linear:7", "linear:9"] false) :=
  have hvalid : stampedManifest.validate = .ok () := by decide +kernel
  ⟨hvalid,
    ((apply_all_or_nothing stampedCrates stampedManifest (stampedPayload 1767225600000) 0
      hvalid).1 _ _ _).mp (by decide +kernel)⟩

/-- The largest number of milliseconds of 64 bits is no instant of `chrono`: the block finds all
it declares, and the payload is held back. -/
theorem far_timestamp_quarantines :
    stampedManifest.validate = .ok () ∧
      (stampedPayload 9223372036854775807).depth ≤ Limits.maxPayloadDepth ∧
      stampedManifest.entities.filter (routed (stampedPayload 9223372036854775807)) =
        [stampedBlock] ∧
      Selects (stampedPayload 9223372036854775807) "id" [.posInt 42] ∧
      Selects (stampedPayload 9223372036854775807) "at" [.posInt 9223372036854775807] ∧
      (Json.posInt 9223372036854775807).asI64 = some 9223372036854775807 ∧
      Selects (stampedPayload 9223372036854775807) "title" [.str "T"] ∧
      Selects (stampedPayload 9223372036854775807) "body" [.str "B"] ∧
      AclGranted stampedCrates (stampedPayload 9223372036854775807) stampedManifest
        (.mapped ["linear:7", "linear:9"] false) ∧
      apply stampedCrates (stampedPayload 9223372036854775807) 0 stampedManifest =
        some (.quarantine (.validFromMissing "issue" "at")) :=
  ⟨by decide +kernel, by decide +kernel, by decide +kernel,
    ⟨⟨[⟨"id", []⟩], "id"⟩, by decide +kernel, by decide +kernel⟩,
    ⟨⟨[⟨"at", []⟩], "at"⟩, by decide +kernel, by decide +kernel⟩, by decide +kernel,
    ⟨⟨[⟨"title", []⟩], "title"⟩, by decide +kernel, by decide +kernel⟩,
    ⟨⟨[⟨"body", []⟩], "body"⟩, by decide +kernel, by decide +kernel⟩,
    evaluateAcl_eq_ok_iff.mp (by decide +kernel), by decide +kernel⟩

end Verity.Analysis
