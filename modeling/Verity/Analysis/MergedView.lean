import Verity.Analysis.FactLifecycle
import Verity.Analysis.FoldPartition
import Verity.Model.MergedRecord

/-!
# What the merged view shows

The scoped view is a function of the visible current facts: the SQL predicate and the fence
together are `factVisible`, and the ranking of a field is strict, because the facts of a field
differ in source or entity. So no invisible fact has any influence on it
(`mergedRecord_noninterference`). What it lists under a field are the visible facts of the members,
each once, exactly when no fact answers to two alias rows.

The refs of two entities can be one text, where the source of one carries a colon that the
entity of the other has (`makeRef_eq_iff`). Then the facts of both answer to the member
(`members_gathered_iff`).
-/

set_option autoImplicit false

namespace Verity.Analysis

open Verity.Foundation
open Verity.Model

variable {rows : List PrecedenceRow} {canonical field : String} {cfg : PrecedenceConfig}
  {r : FactRow} {t : FactTable} {order : List String} {facts : List FactRow} {chunks : ChunkTable}
  {ops : List ResolutionOp} {s : ResolutionStore} {tenant : TenantId}

/-! ## Precedence -/

/-- The order that a table states for an entity and a field. -/
def orderAt (rows : List PrecedenceRow) (canonical field : String) : Option (List String) :=
  (rows.find? fun r => r.canonicalEntity = canonical ∧ r.field = field).map
    PrecedenceRow.sourceOrder

/-- The order that applies to a field: the most specific one that is stated. -/
def orderFor (t : PrecedenceTable) (tenant : TenantId) (canonical field : String) : List String :=
  let rows := t.rows.filter fun r => r.tenantId = tenant
  ((orderAt rows canonical field).or ((orderAt rows "*" field).or
    ((orderAt rows canonical "*").or (orderAt rows "*" "*")))).getD []

theorem orderAt_concat {r : PrecedenceRow} :
    orderAt (rows ++ [r]) canonical field =
      (orderAt rows canonical field).or
        (if r.canonicalEntity = canonical ∧ r.field = field then some r.sourceOrder else none) := by
  unfold orderAt
  rw [List.find?_append]
  cases hfind : rows.find? fun r => decide (r.canonicalEntity = canonical ∧ r.field = field) with
  | some r' => rfl
  | none =>
    simp only [Option.none_or, Option.map_none, List.find?_cons, List.find?_nil]
    split <;> simp_all

/-- What a configuration holds after the rows of an entity and of `*`. -/
structure Loaded (canonical : String) (rows : List PrecedenceRow) (cfg : PrecedenceConfig) :
    Prop where
  entity : cfg.entityDefault = orderAt rows canonical "*"
  global : cfg.globalDefault = if canonical = "*" then none else orderAt rows "*" "*"
  perField : ∀ field, cfg.perField.lookup field =
    if field = "*" then none else (orderAt rows canonical field).or (orderAt rows "*" field)

theorem orderAt_eq_none (h : ∀ r ∈ rows, ¬ (r.canonicalEntity = canonical ∧ r.field = field)) :
    orderAt rows canonical field = none := by
  unfold orderAt
  rw [Option.map_eq_none_iff, List.find?_eq_none]
  intro r hr
  rw [decide_eq_true_eq]
  exact h r hr

theorem lookup_filter_ne (entries : List (String × List String)) {field' : String}
    (h : field' ≠ field) :
    (entries.filter fun entry => entry.1 ≠ field).lookup field' = entries.lookup field' := by
  induction entries with
  | nil => rfl
  | cons entry entries ih =>
    obtain ⟨f, order⟩ := entry
    by_cases hf : f = field
    · subst hf
      rw [List.filter_cons_of_neg (by simp), ih, List.lookup_cons, beq_false_of_ne h]
    · rw [List.filter_cons_of_pos (by simpa using hf), List.lookup_cons, List.lookup_cons, ih]

/-- One more row of the entity, under a key that is not there. -/
theorem Loaded.insertOwn (h : Loaded canonical rows cfg) {r : PrecedenceRow}
    (hown : r.canonicalEntity = canonical) (hnone : orderAt rows r.canonicalEntity r.field = none) :
    Loaded canonical (rows ++ [r])
      (cfg.insert r.canonicalEntity r.field canonical r.sourceOrder) := by
  unfold PrecedenceConfig.insert
  subst hown
  rw [if_pos rfl]
  by_cases hstar : r.field = "*"
  · rw [if_pos hstar]
    rw [hstar] at hnone
    refine ⟨?_, ?_, ?_⟩
    · simp [orderAt_concat, hstar, hnone]
    · have hglobal := h.global
      simp only [orderAt_concat, hstar, and_true]
      split at hglobal <;> simp_all
    · intro field
      have hfield := h.perField field
      simp only [orderAt_concat, hstar]
      grind
  · rw [if_neg hstar]
    refine ⟨?_, ?_, ?_⟩
    · simp [orderAt_concat, hstar, h.entity]
    · simp [orderAt_concat, hstar, h.global]
    · intro field
      have hfield := h.perField field
      simp only [orderAt_concat]
      by_cases hf : field = r.field
      · subst hf
        simp [hstar, hnone]
      · rw [List.lookup_cons, beq_false_of_ne hf, lookup_filter_ne _ hf, hfield]
        simp [Ne.symm hf]

/-- One more row of `*`, for another entity, under a key that is not there. -/
theorem Loaded.insertStar (h : Loaded canonical rows cfg) {r : PrecedenceRow}
    (hstarred : r.canonicalEntity = "*") (hown : ¬ r.canonicalEntity = canonical)
    (hnone : orderAt rows r.canonicalEntity r.field = none) :
    Loaded canonical (rows ++ [r])
      (cfg.insert r.canonicalEntity r.field canonical r.sourceOrder) := by
  unfold PrecedenceConfig.insert
  rw [if_neg hown]
  rw [hstarred] at hown hnone
  have hne : ¬ canonical = "*" := fun heq => hown heq.symm
  by_cases hstar : r.field = "*"
  · rw [if_pos hstar]
    rw [hstar] at hnone
    refine ⟨?_, ?_, ?_⟩
    · simp [orderAt_concat, hstarred, hown, h.entity]
    · simp [orderAt_concat, hstarred, hstar, hne, hnone]
    · intro field
      have hfield := h.perField field
      simp only [orderAt_concat, hstarred, hstar]
      grind
  · rw [if_neg hstar]
    -- the row counts only where the entity has none of its own for the field
    have hlookup := h.perField r.field
    rw [if_neg hstar, hnone, Option.or_none] at hlookup
    refine ⟨?_, ?_, ?_⟩
    · rw [orderAt_concat, hstarred]
      split <;> simp [hown, h.entity]
    · rw [orderAt_concat, hstarred]
      split <;> simp [hstar, hne, h.global]
    · intro field
      have hfield := h.perField field
      simp only [orderAt_concat, hstarred]
      by_cases hf : field = r.field
      · subst hf
        split
        · rename_i hsome
          rw [hlookup] at hsome ⊢
          obtain ⟨order, horder⟩ := Option.isSome_iff_exists.mp hsome
          simp [hown, horder]
        · rename_i hsome
          rw [hlookup, Option.not_isSome_iff_eq_none] at hsome
          simp [hown, hsome, hnone]
      · split
        · rw [hfield]
          simp [hown, Ne.symm hf]
        · rw [List.lookup_cons, beq_false_of_ne hf, hfield]
          simp [hown, Ne.symm hf]

theorem Loaded.insert (h : Loaded canonical rows cfg) {r : PrecedenceRow}
    (hcanonical : r.canonicalEntity = canonical ∨ r.canonicalEntity = "*")
    (hfresh : ∀ r' ∈ rows, ¬ (r'.canonicalEntity = r.canonicalEntity ∧ r'.field = r.field)) :
    Loaded canonical (rows ++ [r])
      (cfg.insert r.canonicalEntity r.field canonical r.sourceOrder) := by
  have hnone : orderAt rows r.canonicalEntity r.field = none := orderAt_eq_none hfresh
  by_cases hown : r.canonicalEntity = canonical
  · exact h.insertOwn hown hnone
  · exact h.insertStar (hcanonical.resolve_left hown) hown hnone

theorem loaded_foldl (canonical : String) (rows : List PrecedenceRow)
    (hcanonical : ∀ r ∈ rows, r.canonicalEntity = canonical ∨ r.canonicalEntity = "*")
    (hnodup : (rows.map fun r => (r.canonicalEntity, r.field)).Nodup) :
    Loaded canonical rows (rows.foldl
      (fun cfg r => cfg.insert r.canonicalEntity r.field canonical r.sourceOrder)
      PrecedenceConfig.default) := by
  induction rows using List.reverseRecOn with
  | nil => exact ⟨rfl, by simp [orderAt, PrecedenceConfig.default], by
      simp [orderAt, PrecedenceConfig.default]⟩
  | append_singleton rows r ih =>
    rw [List.map_append, List.nodup_append] at hnodup
    rw [List.foldl_append]
    refine (ih (fun r' hr' => hcanonical r' (List.mem_append_left _ hr')) hnodup.1).insert
      (hcanonical r (by simp)) ?_
    rintro r' hr' ⟨hc, hf⟩
    refine hnodup.2.2 (r'.canonicalEntity, r'.field) (List.mem_map_of_mem hr')
      (r.canonicalEntity, r.field) (by simp) ?_
    rw [hc, hf]

/-- The configuration answers as the four levels of the table do, in whatever order its rows were
read. -/
theorem resolve_loadPrecedence (t : PrecedenceTable) (tenant : TenantId)
    (canonical field : String) :
    (loadPrecedence t tenant canonical).resolve field = orderFor t tenant canonical field := by
  have hrows : ∀ c f, (c = canonical ∨ c = "*") →
      orderAt (t.rows.filter fun r => decide (r.tenantId = tenant) &&
        decide (r.canonicalEntity = canonical ∨ r.canonicalEntity = "*")) c f =
      orderAt (t.rows.filter fun r => r.tenantId = tenant) c f := by
    intro c f hc
    unfold orderAt
    rw [List.find?_filter, List.find?_filter]
    congr 2
    funext r
    rw [Bool.eq_iff_iff]
    simp only [Bool.and_eq_true, decide_eq_true_eq]
    constructor
    · rintro ⟨⟨htenant, -⟩, hr⟩
      exact ⟨htenant, hr⟩
    · rintro ⟨htenant, rfl, hr⟩
      exact ⟨⟨htenant, hc⟩, rfl, hr⟩
  have hloaded := loaded_foldl canonical (t.rows.filter fun r =>
      decide (r.tenantId = tenant) &&
        decide (r.canonicalEntity = canonical ∨ r.canonicalEntity = "*")) ?_ ?_
  · change Loaded canonical _ (loadPrecedence t tenant canonical) at hloaded
    obtain ⟨hentity, hglobal, hfield⟩ := hloaded
    rw [hrows canonical "*" (Or.inl rfl)] at hentity
    rw [hrows "*" "*" (Or.inr rfl)] at hglobal
    have hlookup := hfield field
    rw [hrows canonical field (Or.inl rfl), hrows "*" field (Or.inr rfl)] at hlookup
    unfold PrecedenceConfig.resolve orderFor
    dsimp only
    rw [hlookup, hentity, hglobal]
    by_cases hstar : field = "*"
    · subst hstar
      grind
    · rw [if_neg hstar]
      grind
  · intro r hr
    have hkept := (List.mem_filter.mp hr).2
    rw [Bool.and_eq_true, decide_eq_true_eq, decide_eq_true_eq] at hkept
    exact hkept.2
  · refine List.Nodup.of_map (fun p => (tenant, p.1, p.2)) ?_
    rw [List.map_map]
    refine Eq.mp (congrArg List.Nodup (List.map_congr_left fun r hr => ?_))
      (t.keys_nodup.sublist (List.filter_sublist.map PrecedenceRow.key))
    have hkept := (List.mem_filter.mp hr).2
    rw [Bool.and_eq_true, decide_eq_true_eq] at hkept
    simp [PrecedenceRow.key, hkept.1]

/-! ## The facts of the members -/

/-- Selecting rows and joining them with the members commute. -/
theorem filter_joinMembers (members : List AliasMember) (canonical : String)
    (rows : List FactRow) (p : FactRow → Bool) :
    (joinMembers members canonical rows).filter p =
      joinMembers members canonical (rows.filter p) := by
  unfold joinMembers
  split
  · exact List.filter_comm _ _ rows
  · induction rows with
    | nil => rfl
    | cons r rows ih =>
      rw [List.flatMap_cons, List.filter_append, ih, List.filter_cons]
      by_cases hp : p r = true
      · have hall : ((members.filter (answersTo r)).map fun _ => r).filter p =
            (members.filter (answersTo r)).map fun _ => r := by
          rw [List.filter_eq_self]
          intro r' hr'
          obtain ⟨-, -, rfl⟩ := List.mem_map.mp hr'
          exact hp
        rw [if_pos hp, hall, List.flatMap_cons]
      · have hnone : ((members.filter (answersTo r)).map fun _ => r).filter p = [] := by
          rw [List.filter_eq_nil_iff]
          intro r' hr'
          obtain ⟨-, -, rfl⟩ := List.mem_map.mp hr'
          exact hp
        rw [if_neg hp, hnone, List.nil_append]

theorem joinMembers_perm (members : List AliasMember) (canonical : String)
    {rows rows' : List FactRow} (h : rows.Perm rows') :
    (joinMembers members canonical rows).Perm (joinMembers members canonical rows') := by
  unfold joinMembers
  split
  · exact h.filter _
  · exact h.flatMap_right _

/-- A fact belongs to a member, or is keyed on a canonical without members. -/
def OfMember (members : List AliasMember) (canonical : String) (r : FactRow) : Prop :=
  if members.isEmpty then r.key.entityId = canonical else ∃ m ∈ members, answersTo r m = true

theorem mem_joinMembers {members : List AliasMember} {rows : List FactRow} :
    r ∈ joinMembers members canonical rows ↔ r ∈ rows ∧ OfMember members canonical r := by
  unfold joinMembers OfMember
  split
  · rw [List.mem_filter, decide_eq_true_eq]
  · rw [List.mem_flatMap]
    constructor
    · rintro ⟨r', hr', hmem⟩
      obtain ⟨m, hm, rfl⟩ := List.mem_map.mp hmem
      exact ⟨hr', m, List.mem_filter.mp hm⟩
    · rintro ⟨hr, m, hm⟩
      exact ⟨r, hr, List.mem_map.mpr ⟨m, List.mem_filter.mpr hm, rfl⟩⟩

/-- The join repeats nothing exactly when no row answers to two members. -/
theorem nodup_joinMembers_iff {members : List AliasMember} {rows : List FactRow}
    (hrows : rows.Nodup) :
    (joinMembers members canonical rows).Nodup ↔
      ∀ r ∈ rows, (members.filter (answersTo r)).length ≤ 1 := by
  unfold joinMembers
  split
  · rename_i hempty
    rw [List.isEmpty_iff] at hempty
    subst hempty
    exact ⟨fun _ r _ => Nat.zero_le _, fun _ => hrows.filter _⟩
  · have hconst : ∀ r : FactRow, ((members.filter (answersTo r)).map fun _ => r) =
        List.replicate (members.filter (answersTo r)).length r := by
      intro r
      rw [List.map_const']
    rw [List.nodup_flatMap]
    constructor
    · rintro ⟨hone, -⟩ r hr
      have hnodup := hone r hr
      rw [hconst] at hnodup
      exact List.nodup_replicate.mp hnodup
    · intro hone
      refine ⟨fun r hr => ?_, hrows.imp ?_⟩
      · rw [hconst]
        exact List.nodup_replicate.mpr (hone r hr)
      · intro r r' hne x hx hx'
        obtain ⟨-, -, rfl⟩ := List.mem_map.mp hx
        obtain ⟨-, -, rfl⟩ := List.mem_map.mp hx'
        exact hne rfl

/-- The current facts of the tenant that the scope may see. -/
def visibleFacts (t : FactTable) (scope : Scope) : List FactRow :=
  t.rows.filter fun r =>
    decide (r.tenantId = scope.tenantId ∧ r.validTo = none) && factVisible scope r

theorem rows_nodup (t : FactTable) : t.rows.Nodup := List.Nodup.of_map FactRow.id t.ids_nodup

theorem mem_visibleFacts {scope : Scope} :
    r ∈ visibleFacts t scope ↔
      r ∈ t.rows ∧ r.tenantId = scope.tenantId ∧ r.validTo = none ∧
        factVisible scope r = true := by
  unfold visibleFacts
  rw [List.mem_filter, Bool.and_eq_true, decide_eq_true_eq, and_assoc]

/-- The predicate of the query and the fence behind it are `fact_visible`. -/
theorem fenceEntities_gatherFacts (t : FactTable) (scope : Scope) (canonical : String)
    (members : List AliasMember) :
    fenceEntities (some scope)
        (gatherFacts t scope.tenantId canonical members (gatherVisible (some scope))) =
      joinMembers members canonical (visibleFacts t scope) := by
  have hfence : ∀ rows : List FactRow, fenceEntities (some scope) rows = rows.filter fun r =>
      scope.entityScope.isEmpty || scope.entityScope.contains r.key.entityId := by
    intro rows
    unfold fenceEntities
    dsimp only
    by_cases hempty : scope.entityScope.isEmpty = true
    · rw [if_pos hempty, hempty]
      simp
    · rw [if_neg hempty, Bool.eq_false_iff.mpr hempty]
      simp
  rw [hfence]
  unfold gatherFacts
  rw [filter_joinMembers, List.filter_filter]
  unfold visibleFacts
  congr 1
  apply List.filter_congr
  intro r _
  by_cases hentity : (scope.entityScope.isEmpty ||
      scope.entityScope.contains r.key.entityId) = true
  · rw [hentity, Bool.true_and, gatherVisible, sqlVisible_eq scope r hentity]
  · rw [Bool.eq_false_iff.mpr hentity, Bool.false_and, factVisible, Scope.sees,
      Bool.eq_false_iff.mpr hentity, Bool.and_false, Bool.and_false]

/-- The fields of the scoped view, in terms of the visible facts. -/
theorem fields_mergedRecord (t : FactTable) (aliases : List EntityAlias)
    (precedence : PrecedenceTable) (scope : Scope) (canonical : String) :
    (mergedRecord t aliases precedence scope canonical).fields =
      mergedFields (loadPrecedence precedence scope.tenantId canonical)
        (joinMembers (listEntityAliases aliases scope.tenantId canonical) canonical
          (visibleFacts t scope)) := by
  unfold mergedRecord mergedRecordInner
  split
  · rename_i hnil
    have hnil : scope.principals = [] := by simpa using hnil
    have hempty : visibleFacts t scope = [] := by
      unfold visibleFacts
      rw [List.filter_eq_nil_iff]
      intro r _
      rw [factVisible_of_no_principals hnil, Bool.and_false]
      exact Bool.false_ne_true
    rw [hempty]
    unfold joinMembers
    split <;> rfl
  · dsimp only
    rw [fenceEntities_gatherFacts]

/-- A scope that may see every current fact of its tenant is shown the fields of the admin view. -/
theorem fields_mergedRecordAdmin {scope : Scope}
    (hsees : ∀ r ∈ t.rows, r.tenantId = scope.tenantId → r.validTo = none →
      factVisible scope r = true) (aliases : List EntityAlias) (precedence : PrecedenceTable)
    (canonical : String) :
    (mergedRecordAdmin t aliases precedence scope.tenantId canonical).fields =
      (mergedRecord t aliases precedence scope canonical).fields := by
  have hall : visibleFacts t scope = t.rows.filter fun r =>
      decide (r.tenantId = scope.tenantId ∧ r.validTo = none) && gatherVisible none r := by
    refine List.filter_congr fun r hr => ?_
    by_cases hcurrent : r.tenantId = scope.tenantId ∧ r.validTo = none
    · rw [hsees r hr hcurrent.1 hcurrent.2]
      rfl
    · rw [decide_eq_false hcurrent, Bool.false_and, Bool.false_and]
  rw [fields_mergedRecord, hall]
  rfl

/-! ## The ranking of a field -/

theorem eq_of_mergeKey {r' : FactRow} (h : mergeKey order r = mergeKey order r') :
    r.key.source = r'.key.source ∧ r.key.entityId = r'.key.entityId := by
  unfold mergeKey at h
  simp only [EmbeddingLike.apply_eq_iff_eq, Prod.mk.injEq] at h
  exact h.2.2

/-- No two rows of a list have one key. -/
def KeysDistinct (facts : List FactRow) : Prop :=
  ∀ r ∈ facts, ∀ r' ∈ facts, r.key = r'.key → r = r'

theorem keysDistinct_joinMembers (t : FactTable) (scope : Scope) (members : List AliasMember)
    (canonical : String) : KeysDistinct (joinMembers members canonical (visibleFacts t scope)) := by
  intro r hr r' hr' hkey
  obtain ⟨hr, htenant, hcur, -⟩ := mem_visibleFacts.mp (mem_joinMembers.mp hr).1
  obtain ⟨hr', htenant', hcur', -⟩ := mem_visibleFacts.mp (mem_joinMembers.mp hr').1
  exact oneCurrent t r hr r' hr' hcur hcur' (htenant.trans htenant'.symm) hkey

/-- Among the facts of one field, those that rank the same are one. -/
theorem KeysDistinct.eq_of_mergeKey_eq (h : KeysDistinct facts) {r' : FactRow}
    (hr : r ∈ facts.filter fun r => r.key.field = field)
    (hr' : r' ∈ facts.filter fun r => r.key.field = field)
    (heq : mergeKey order r = mergeKey order r') : r = r' := by
  obtain ⟨hmem, hfield⟩ := List.mem_filter.mp hr
  obtain ⟨hmem', hfield'⟩ := List.mem_filter.mp hr'
  obtain ⟨hsource, hentity⟩ := eq_of_mergeKey heq
  refine h r hmem r' hmem' ?_
  have hf : r.key.field = r'.key.field :=
    (of_decide_eq_true hfield).trans (of_decide_eq_true hfield').symm
  cases hk : r.key
  cases hk' : r'.key
  simp_all

/-- The order in which the facts of a field were gathered does not matter. -/
theorem mergedFields_perm (prec : PrecedenceConfig) {facts' : List FactRow}
    (hkeys : KeysDistinct facts) (hperm : facts.Perm facts') :
    mergedFields prec facts = mergedFields prec facts' := by
  have hnames : sortDedup (facts.map fun r => r.key.field) =
      sortDedup (facts'.map fun r => r.key.field) :=
    sortDedup_congr fun field => (hperm.map _).mem_iff
  unfold mergedFields
  rw [hnames]
  apply List.filterMap_congr
  intro field _
  have hfilter := hperm.filter fun r => decide (r.key.field = field)
  have hsort : (facts.filter fun r => decide (r.key.field = field)).insertionSort
        (Ascending (mergeKey (prec.resolve field))) =
      (facts'.filter fun r => decide (r.key.field = field)).insertionSort
        (Ascending (mergeKey (prec.resolve field))) := by
    refine List.Perm.eq_of_pairwise ?_ (List.pairwise_insertionSort _ _)
      (List.pairwise_insertionSort _ _)
      (((List.perm_insertionSort _ _).trans hfilter).trans (List.perm_insertionSort _ _).symm)
    intro r r' hr hr' hle hge
    refine hkeys.eq_of_mergeKey_eq ((List.mem_insertionSort _).mp hr) ?_ (le_antisymm hle hge)
    exact hfilter.mem_iff.mpr ((List.mem_insertionSort _).mp hr')
  unfold mergeField
  rw [hsort]

/-- The entry of a field. -/
theorem lookup_mergedFields (prec : PrecedenceConfig) (facts : List FactRow) (field : String) :
    (mergedFields prec facts).lookup field =
      mergeField (prec.resolve field) (facts.filter fun r => r.key.field = field) := by
  unfold mergedFields
  have hlookup : ∀ (names : List String) (f : String → Option MergedField),
      (names.filterMap fun name => (f name).map fun merged => (name, merged)).lookup field =
        if field ∈ names then f field else none := by
    intro names f
    induction names with
    | nil => rfl
    | cons name names ih =>
      rw [List.filterMap_cons]
      by_cases hname : field = name
      · subst hname
        cases hf : f field with
        | none =>
          rw [Option.map_none, ih, hf]
          simp
        | some merged => simp
      · cases hf : f name with
        | none => simp [ih, hname]
        | some merged =>
          rw [Option.map_some, List.lookup_cons, beq_false_of_ne hname, ih]
          simp [hname]
  rw [hlookup]
  split
  · rfl
  · rename_i habsent
    have hnone : (facts.filter fun r => decide (r.key.field = field)) = [] := by
      rw [List.filter_eq_nil_iff]
      intro r hr hfield
      exact habsent (mem_sortDedup.mpr (List.mem_map.mpr ⟨r, hr, of_decide_eq_true hfield⟩))
    rw [hnone]
    rfl

/-- The entry lists the facts that `P` selects, each once, in the strict order of their rank, the
first as the value; there is none where `P` selects nothing. -/
def Ranks (order : List String) (P : FactRow → Prop) : Option MergedField → Prop
  | none => ∀ r, ¬ P r
  | some merged => ∃ winner rest, merged = .ofRows winner rest ∧ (winner :: rest).Nodup ∧
      (∀ r, r ∈ winner :: rest ↔ P r) ∧
      (winner :: rest).Pairwise fun r r' => mergeKey order r < mergeKey order r'

/-- Facts that rank the same are one, so the ranking lists them as it should exactly when none was
gathered twice. -/
theorem ranks_mergeField_iff {P : FactRow → Prop} (hmem : ∀ r, r ∈ facts ↔ P r)
    (hrank : ∀ r ∈ facts, ∀ r' ∈ facts, mergeKey order r = mergeKey order r' → r = r') :
    Ranks order P (mergeField order facts) ↔ facts.Nodup := by
  have hperm := List.perm_insertionSort (Ascending (mergeKey order)) facts
  have hsorted := List.pairwise_insertionSort (Ascending (mergeKey order)) facts
  unfold mergeField
  generalize facts.insertionSort (Ascending (mergeKey order)) = sorted at hperm hsorted
  rw [← hperm.nodup_iff]
  cases sorted with
  | nil =>
    refine ⟨fun _ => List.nodup_nil, fun _ r hr => ?_⟩
    exact absurd (hperm.mem_iff.mpr ((hmem r).mpr hr)) List.not_mem_nil
  | cons winner rest =>
    constructor
    · rintro ⟨winner', rest', hentry, hnodup, hlist, -⟩
      -- the entry has one place per row, so as many rows as there are different ones
      have hlength : (winner :: rest).length = (winner' :: rest').length := by
        have halternatives := congrArg (fun m => m.supersededAlternatives.length) hentry
        simpa [MergedField.ofRows] using halternatives
      have hsub : winner' :: rest' ⊆ winner :: rest := by
        intro r hr
        exact hperm.mem_iff.mpr ((hmem r).mpr ((hlist r).mp hr))
      have hsame : (winner' :: rest').Perm (winner :: rest) :=
        (hnodup.subperm hsub).perm_of_length_le hlength.le
      exact hsame.nodup_iff.mp hnodup
    · intro hnodup
      refine ⟨winner, rest, rfl, hnodup, fun r => hperm.mem_iff.trans (hmem r), ?_⟩
      have hboth := hsorted.and hnodup
      refine hboth.imp_of_mem ?_
      intro r r' hr hr' hle
      refine lt_of_le_of_ne hle.1 fun heq => hle.2 ?_
      exact hrank r (hperm.mem_iff.mp hr) r' (hperm.mem_iff.mp hr') heq

/-! ## The view as a whole -/

/-- The two tables have the same visible current facts. -/
def AgreeVisible (scope : Scope) (t t' : FactTable) : Prop :=
  ∀ r, r ∈ visibleFacts t scope ↔ r ∈ visibleFacts t' scope

/-- A visible current fact of a member of the canonical. -/
def VisibleMember (t : FactTable) (aliases : List EntityAlias) (scope : Scope)
    (canonical : String) (r : FactRow) : Prop :=
  r ∈ visibleFacts t scope ∧
    OfMember (listEntityAliases aliases scope.tenantId canonical) canonical r

/-- What the entry of a field should be: the visible member facts that have it, ranked. -/
def FieldMerges (t : FactTable) (aliases : List EntityAlias) (precedence : PrecedenceTable)
    (scope : Scope) (canonical field : String) : Option MergedField → Prop :=
  Ranks (orderFor precedence scope.tenantId canonical field) fun r =>
    VisibleMember t aliases scope canonical r ∧ r.key.field = field

/-- No visible current fact answers to two alias rows of the canonical. -/
def AnswersOnce (t : FactTable) (aliases : List EntityAlias) (scope : Scope)
    (canonical : String) : Prop :=
  ∀ r ∈ visibleFacts t scope, (aliases.filter fun a =>
    decide (a.tenantId = scope.tenantId ∧ a.canonicalEntity = canonical) &&
      decide (makeRef r.key.source r.key.entityId = makeRef a.source a.entityId)).length ≤ 1

theorem length_filter_listEntityAliases (aliases : List EntityAlias) (tenant : TenantId)
    (canonical : String) (r : FactRow) :
    ((listEntityAliases aliases tenant canonical).filter (answersTo r)).length =
      (aliases.filter fun a => decide (a.tenantId = tenant ∧ a.canonicalEntity = canonical) &&
        decide (makeRef r.key.source r.key.entityId = makeRef a.source a.entityId)).length := by
  unfold listEntityAliases
  rw [((List.perm_insertionSort _ _).filter _).length_eq, List.filter_map, List.length_map,
    List.filter_filter]
  congr 2
  funext a
  exact Bool.and_comm _ _

theorem nodup_visibleFacts (t : FactTable) (scope : Scope) : (visibleFacts t scope).Nodup :=
  (rows_nodup t).filter _

theorem answersOnce_iff_nodup (t : FactTable) (aliases : List EntityAlias) (scope : Scope)
    (canonical : String) :
    AnswersOnce t aliases scope canonical ↔
      (joinMembers (listEntityAliases aliases scope.tenantId canonical) canonical
        (visibleFacts t scope)).Nodup := by
  rw [nodup_joinMembers_iff (nodup_visibleFacts t scope)]
  unfold AnswersOnce
  simp only [length_filter_listEntityAliases]

/-- A list is free of repetitions when the facts of each field are. -/
theorem nodup_of_fields (h : ∀ field, (facts.filter fun r => r.key.field = field).Nodup) :
    facts.Nodup := by
  rw [List.nodup_iff_count_le_one]
  intro r
  have hone := List.nodup_iff_count_le_one.mp (h r.key.field) r
  rwa [List.count_filter (by simp)] at hone

/-- The entry of a field is as it should be exactly when the facts of the field were gathered
once each. -/
theorem fieldMerges_iff_nodup (t : FactTable) (aliases : List EntityAlias)
    (precedence : PrecedenceTable) (scope : Scope) (canonical field : String) :
    FieldMerges t aliases precedence scope canonical field
        ((mergedRecord t aliases precedence scope canonical).fields.lookup field) ↔
      ((joinMembers (listEntityAliases aliases scope.tenantId canonical) canonical
        (visibleFacts t scope)).filter fun r => r.key.field = field).Nodup := by
  rw [fields_mergedRecord, lookup_mergedFields, resolve_loadPrecedence]
  have hkeys := keysDistinct_joinMembers t scope
    (listEntityAliases aliases scope.tenantId canonical) canonical
  refine ranks_mergeField_iff ?_ fun r hr r' hr' heq => hkeys.eq_of_mergeKey_eq hr hr' heq
  intro r
  rw [List.mem_filter, mem_joinMembers, decide_eq_true_eq]
  rfl

/-- The scoped view depends on the visible current facts only. And the entries of its fields are
the visible facts of the members, ranked, each once, exactly when no visible fact answers to two
alias rows of the canonical. -/
theorem mergedRecord_noninterference (aliases : List EntityAlias) (precedence : PrecedenceTable)
    (scope : Scope) (canonical : String) :
    (∀ t t', AgreeVisible scope t t' →
      (mergedRecord t aliases precedence scope canonical).fields =
        (mergedRecord t' aliases precedence scope canonical).fields) ∧
    ∀ t, (∀ field, FieldMerges t aliases precedence scope canonical field
        ((mergedRecord t aliases precedence scope canonical).fields.lookup field)) ↔
      AnswersOnce t aliases scope canonical := by
  constructor
  · intro t t' hagree
    rw [fields_mergedRecord, fields_mergedRecord]
    apply mergedFields_perm
    · exact keysDistinct_joinMembers t scope _ canonical
    · apply joinMembers_perm
      exact (List.perm_ext_iff_of_nodup (nodup_visibleFacts t scope)
        (nodup_visibleFacts t' scope)).mpr hagree
  · intro t
    rw [answersOnce_iff_nodup]
    constructor
    · intro h
      exact nodup_of_fields fun field => (fieldMerges_iff_nodup _ _ _ _ _ field).mp (h field)
    · intro h field
      exact (fieldMerges_iff_nodup _ _ _ _ _ field).mpr (h.filter _)

/-- The name of a company, from a Debezium source. -/
def companyName : FactRow where
  id := 0
  tenantId := 1
  key := ⟨"hubspot:crm.companies", "hs-88", "name"⟩
  value := .str "Acme"
  validFrom := 10
  validTo := none
  supersededBy := none
  recordedAt := 100
  visibility := [1]
  confidentiality := .internal
  provenance := 1
  aclProvenance := .mirrored

def companyFacts : FactTable where
  rows := [companyName]
  nextId := 1
  ids_lt := fun _ hr => List.mem_singleton.mp hr ▸ Nat.zero_lt_one
  ids_nodup := List.nodup_singleton _
  one_current := List.pairwise_singleton _ _

/-- The alias that an administrator set, and the one the fold cut from the ref. -/
def companyAliases : List EntityAlias :=
  [⟨1, "hubspot:crm.companies", "hs-88", "account:acme"⟩,
    ⟨1, "hubspot", "crm.companies:hs-88", "account:acme"⟩]

/-- The fact answers to both aliases, and is listed as an alternative to itself. -/
theorem fact_alternative_to_itself :
    (mergedRecord companyFacts companyAliases ⟨[], List.nodup_nil⟩ ⟨1, [1], [], .internal⟩
        "account:acme").fields =
      [("name", .ofRows companyName [companyName])] ∧
    ¬ FieldMerges companyFacts companyAliases ⟨[], List.nodup_nil⟩ ⟨1, [1], [], .internal⟩
      "account:acme" "name"
      ((mergedRecord companyFacts companyAliases ⟨[], List.nodup_nil⟩ ⟨1, [1], [], .internal⟩
        "account:acme").fields.lookup "name") := by
  refine ⟨by decide +kernel, ?_⟩
  rw [fieldMerges_iff_nodup]
  decide +kernel

/-! ## Refs that are one text -/

/-- The grammar of refs is ambiguous in one way: a part between two colons may belong to the
source or to the entity. -/
theorem makeRef_eq_iff {source source' entity entity' : String} :
    makeRef source entity = makeRef source' entity' ↔
      (source = source' ∧ entity = entity') ∨
      (∃ mid, source' = makeRef source mid ∧ entity = makeRef mid entity') ∨
      (∃ mid, source = makeRef source' mid ∧ entity' = makeRef mid entity) := by
  have hlist : ∀ s e : String, (makeRef s e).toList = s.toList ++ ':' :: e.toList := by
    intro s e
    simp [makeRef]
  have hsplit : ∀ {s s' e e' : List Char}, s ++ ':' :: e = s' ++ ':' :: e' →
      (s = s' ∧ e = e') ∨ (∃ mid, s' = s ++ ':' :: mid ∧ e = mid ++ ':' :: e') ∨
        ∃ mid, s = s' ++ ':' :: mid ∧ e' = mid ++ ':' :: e := by
    intro s s' e e' h
    rcases List.append_eq_append_iff.mp h with ⟨rest, hs, he⟩ | ⟨rest, hs, he⟩
    · cases rest with
      | nil =>
        rw [List.append_nil] at hs
        exact Or.inl ⟨hs.symm, (List.cons.inj he).2⟩
      | cons c mid =>
        rw [List.cons_append] at he
        obtain ⟨rfl, hrest⟩ := List.cons.inj he
        exact Or.inr (Or.inl ⟨mid, hs, hrest⟩)
    · cases rest with
      | nil =>
        rw [List.append_nil] at hs
        exact Or.inl ⟨hs, (List.cons.inj he).2.symm⟩
      | cons c mid =>
        rw [List.cons_append] at he
        obtain ⟨rfl, hrest⟩ := List.cons.inj he
        exact Or.inr (Or.inr ⟨mid, hs, hrest⟩)
  constructor
  · intro h
    have hchars := congrArg String.toList h
    rw [hlist, hlist] at hchars
    rcases hsplit hchars with ⟨hs, he⟩ | ⟨mid, hs, he⟩ | ⟨mid, hs, he⟩
    · exact Or.inl ⟨String.toList_inj.mp hs, String.toList_inj.mp he⟩
    · refine Or.inr (Or.inl ⟨String.ofList mid, ?_, ?_⟩) <;>
        apply String.toList_inj.mp <;> rw [hlist, String.toList_ofList] <;> assumption
    · refine Or.inr (Or.inr ⟨String.ofList mid, ?_, ?_⟩) <;>
        apply String.toList_inj.mp <;> rw [hlist, String.toList_ofList] <;> assumption
  · rintro (⟨rfl, rfl⟩ | ⟨mid, rfl, rfl⟩ | ⟨mid, rfl, rfl⟩)
    · rfl
    · apply String.toList_inj.mp
      simp [hlist]
    · apply String.toList_inj.mp
      simp [hlist]

/-- Every alias of a run of the resolver is the first-colon split of the ref it composes to. -/
theorem splitMemberRef_of_hasAlias (hrun : run ResolutionStore.step (.start chunks) ops = some s)
    {m : MemberRef} (h : HasAlias s tenant m) :
    splitMemberRef (makeRef m.source m.entityId) = some m := by
  refine run_induction (I := fun s => ∀ m, HasAlias s tenant m →
    splitMemberRef (makeRef m.source m.entityId) = some m) ?_ ?_ hrun m h
  · intro s op s' ih hstep m hm
    rcases (hasAlias_step hstep m).mp hm with hold | ⟨failsAt, -, hnew⟩
    · exact ih m hold
    · obtain ⟨a, ha, rfl⟩ := List.mem_map.mp hnew
      have hwritten := aliasesWritten_subset s tenant failsAt ha
      exact (aliased_refOf ((mem_aliasesWritten_none s tenant a).mp hwritten)).1
  · rintro m ⟨a, ha, -⟩
    exact absurd (mem_aliasesOf.mp ha) List.not_mem_nil

/-- The ref is one of those that the aliases of the canonical were cut from. -/
def MemberRefOf (s : ResolutionStore) (tenant : TenantId) (canonical ref : String) : Prop :=
  ∃ a ∈ aliasesOf s tenant, a.canonicalEntity = canonical ∧
    splitMemberRef ref = some (memberOf a)

def CurrentFactOf (t : FactTable) (tenant : TenantId) (r : FactRow) : Prop :=
  r ∈ t.rows ∧ r.tenantId = tenant ∧ r.validTo = none

/-- The facts that `merged_record_admin` gathers. -/
def gatheredAdmin (t : FactTable) (s : ResolutionStore) (tenant : TenantId)
    (canonical : String) : List FactRow :=
  fenceEntities none (gatherFacts t tenant canonical
    (listEntityAliases s.aliases tenant canonical) (gatherVisible none))

theorem mem_listEntityAliases {m : AliasMember} :
    m ∈ listEntityAliases s.aliases tenant canonical ↔
      ⟨m.source, m.entityId, canonical⟩ ∈ aliasesOf s tenant := by
  unfold listEntityAliases
  rw [List.mem_insertionSort, mem_aliasesOf]
  simp only [List.mem_map, List.mem_filter, decide_eq_true_eq]
  constructor
  · rintro ⟨a, ⟨ha, rfl, rfl⟩, rfl⟩
    exact ha
  · intro ha
    exact ⟨_, ⟨ha, rfl, rfl⟩, rfl⟩

/-- A fact answers to an alias of the canonical exactly when it composes to one of its refs. -/
theorem memberRefOf_makeRef_iff (hrun : run ResolutionStore.step (.start chunks) ops = some s) :
    MemberRefOf s tenant canonical (makeRef r.key.source r.key.entityId) ↔
      ∃ m ∈ listEntityAliases s.aliases tenant canonical, answersTo r m = true := by
  constructor
  · rintro ⟨a, ha, rfl, hsplit⟩
    refine ⟨⟨a.source, a.entityId⟩, mem_listEntityAliases.mpr ha, decide_eq_true ?_⟩
    exact eq_of_splitMemberRef hsplit
  · rintro ⟨m, hm, hanswers⟩
    have halias := mem_listEntityAliases.mp hm
    refine ⟨_, halias, rfl, ?_⟩
    rw [of_decide_eq_true hanswers]
    exact splitMemberRef_of_hasAlias hrun (m := ⟨m.source, m.entityId⟩) ⟨_, halias, rfl⟩

theorem mem_gatheredAdmin (hrun : run ResolutionStore.step (.start chunks) ops = some s)
    {a : AliasWrite} (ha : a ∈ aliasesOf s tenant) :
    r ∈ gatheredAdmin t s tenant a.canonicalEntity ↔ CurrentFactOf t tenant r ∧
      MemberRefOf s tenant a.canonicalEntity (makeRef r.key.source r.key.entityId) := by
  have hmember : (⟨a.source, a.entityId⟩ : AliasMember) ∈
      listEntityAliases s.aliases tenant a.canonicalEntity := mem_listEntityAliases.mpr ha
  have hsome : ¬ (listEntityAliases s.aliases tenant a.canonicalEntity).isEmpty = true := by
    intro hempty
    rw [List.isEmpty_iff.mp hempty] at hmember
    exact absurd hmember List.not_mem_nil
  rw [memberRefOf_makeRef_iff hrun]
  unfold gatheredAdmin fenceEntities gatherFacts gatherVisible CurrentFactOf
  rw [mem_joinMembers, List.mem_filter, Bool.and_true, decide_eq_true_eq, OfMember, if_neg hsome]

/-- In every state of the resolver, the facts gathered for a canonical are those of the pairs that
its member refs came from, with one pair to a member, exactly when no two current facts of the
tenant have the refs `source:mid` `entity` and `source` `mid:entity` of one member. -/
theorem members_gathered_iff {chunks : ChunkTable} {ops : List ResolutionOp}
    {s : ResolutionStore} (hrun : run ResolutionStore.step (.start chunks) ops = some s)
    (t : FactTable) (tenant : TenantId) {a : AliasWrite} (ha : a ∈ aliasesOf s tenant) :
    ((∀ r, r ∈ gatheredAdmin t s tenant a.canonicalEntity ↔ CurrentFactOf t tenant r ∧
        MemberRefOf s tenant a.canonicalEntity (makeRef r.key.source r.key.entityId)) ∧
      ∀ m ∈ listEntityAliases s.aliases tenant a.canonicalEntity,
        ∀ r ∈ gatheredAdmin t s tenant a.canonicalEntity,
        ∀ r' ∈ gatheredAdmin t s tenant a.canonicalEntity,
          answersTo r m = true → answersTo r' m = true →
            r.key.source = r'.key.source ∧ r.key.entityId = r'.key.entityId) ↔
      ∀ r r' mid, CurrentFactOf t tenant r → CurrentFactOf t tenant r' →
        r.key.source = makeRef r'.key.source mid → r'.key.entityId = makeRef mid r.key.entityId →
          ¬ MemberRefOf s tenant a.canonicalEntity (makeRef r.key.source r.key.entityId) := by
  constructor
  · rintro ⟨-, hpair⟩ r r' mid hr hr' hsource hentity hmember
    have hsame : makeRef r.key.source r.key.entityId = makeRef r'.key.source r'.key.entityId :=
      makeRef_eq_iff.mpr (Or.inr (Or.inr ⟨mid, hsource, hentity⟩))
    have hgathered := (mem_gatheredAdmin hrun (t := t) ha).mpr ⟨hr, hmember⟩
    obtain ⟨m, hm, hanswers⟩ := (memberRefOf_makeRef_iff hrun).mp hmember
    have hanswers' : answersTo r' m = true := by
      rw [answersTo, ← hsame]
      exact hanswers
    rw [hsame] at hmember
    have hgathered' := (mem_gatheredAdmin hrun (t := t) ha).mpr ⟨hr', hmember⟩
    have heq := (hpair m hm r hgathered r' hgathered' hanswers hanswers').1
    -- the source would be longer than itself
    rw [heq] at hsource
    have hlength := congrArg (fun x : String => x.toList.length) hsource
    simp [makeRef] at hlength
  · intro hclear
    refine ⟨fun r => mem_gatheredAdmin hrun ha, ?_⟩
    intro m hm r hr r' hr' hanswers hanswers'
    obtain ⟨hcur, hmember⟩ := (mem_gatheredAdmin hrun ha).mp hr
    obtain ⟨hcur', hmember'⟩ := (mem_gatheredAdmin hrun ha).mp hr'
    have hsame := (of_decide_eq_true hanswers).trans (of_decide_eq_true hanswers').symm
    rcases makeRef_eq_iff.mp hsame with hpair | ⟨mid, hs, he⟩ | ⟨mid, hs, he⟩
    · exact hpair
    · exact absurd hmember' (hclear r' r mid hcur' hcur hs he)
    · exact absurd hmember (hclear r r' mid hcur hcur' hs he)

/-- The company is linked to an account by an external id, and the fold is run. -/
def companyLinked : List ResolutionOp :=
  [.insertEvidence 1 10
    ⟨1, "hubspot:crm.companies:hs-88", "salesforce:001", 1, "external_id", none, none, 1⟩,
    .runFullFold 1 none]

/-- With the company alone, its canonical gathers one pair for each member. -/
theorem company_alone_gathered :
    ∃ s, run ResolutionStore.step (.start .empty) companyLinked = some s ∧
      ∀ m ∈ listEntityAliases s.aliases 1 "canon:hubspot:crm.companies:hs-88",
        ∀ r ∈ gatheredAdmin companyFacts s 1 "canon:hubspot:crm.companies:hs-88",
        ∀ r' ∈ gatheredAdmin companyFacts s 1 "canon:hubspot:crm.companies:hs-88",
          answersTo r m = true → answersTo r' m = true →
            r.key.source = r'.key.source ∧ r.key.entityId = r'.key.entityId := by
  have hview : (run ResolutionStore.step (.start .empty) companyLinked).map
      (fun s => decide ((⟨"salesforce", "001", "canon:hubspot:crm.companies:hs-88"⟩ : AliasWrite) ∈
        aliasesOf s 1)) = some true := by
    decide +kernel
  obtain ⟨s, hs, halias⟩ := Option.map_eq_some_iff.mp hview
  refine ⟨s, hs, ((members_gathered_iff hs companyFacts 1 (of_decide_eq_true halias)).mpr ?_).2⟩
  intro r r' mid hr hr' hsource
  obtain rfl := List.mem_singleton.mp hr.1
  obtain rfl := List.mem_singleton.mp hr'.1
  have hlength := congrArg (fun x : String => x.toList.length) hsource
  simp [makeRef] at hlength

/-- The same text under another source and entity. -/
def otherCompany : FactRow :=
  { companyName with id := 1, key := ⟨"hubspot", "crm.companies:hs-88", "name"⟩
                     value := .str "Other" }

def twoCompanies : FactTable where
  rows := [companyName, otherCompany]
  nextId := 2
  ids_lt := List.forall_mem_cons.mpr ⟨Nat.zero_lt_two, List.forall_mem_singleton.mpr Nat.one_lt_two⟩
  ids_nodup := List.nodup_cons.mpr
    ⟨fun h => Nat.zero_ne_one (List.mem_singleton.mp h), List.nodup_singleton _⟩
  one_current := List.pairwise_pair.mpr fun h =>
    absurd h.2.2.2 (show ¬ companyName.key = otherCompany.key by decide)

/-- Both companies answer to one member, and the merged view gathers the facts of both. -/
theorem two_pairs_answer_to_one_member :
    ∃ s, run ResolutionStore.step (.start .empty) companyLinked = some s ∧
      (⟨"hubspot", "crm.companies:hs-88"⟩ : AliasMember) ∈
        listEntityAliases s.aliases 1 "canon:hubspot:crm.companies:hs-88" ∧
      companyName ∈ gatheredAdmin twoCompanies s 1 "canon:hubspot:crm.companies:hs-88" ∧
      otherCompany ∈ gatheredAdmin twoCompanies s 1 "canon:hubspot:crm.companies:hs-88" ∧
      answersTo companyName ⟨"hubspot", "crm.companies:hs-88"⟩ = true ∧
      answersTo otherCompany ⟨"hubspot", "crm.companies:hs-88"⟩ = true ∧
      companyName.key.source ≠ otherCompany.key.source := by
  have hview : (run ResolutionStore.step (.start .empty) companyLinked).map
      (fun s => (decide ((⟨"hubspot", "crm.companies:hs-88"⟩ : AliasMember) ∈
          listEntityAliases s.aliases 1 "canon:hubspot:crm.companies:hs-88"),
        gatheredAdmin twoCompanies s 1 "canon:hubspot:crm.companies:hs-88")) =
      some (true, [companyName, otherCompany]) := by
    decide +kernel
  obtain ⟨s, hs, hview⟩ := Option.map_eq_some_iff.mp hview
  obtain ⟨hmember, hgathered⟩ := Prod.mk.inj hview
  refine ⟨s, hs, of_decide_eq_true hmember, ?_, ?_, ?_, ?_, ?_⟩
  · rw [hgathered]
    exact List.mem_cons_self
  · rw [hgathered]
    exact List.mem_cons_of_mem _ List.mem_cons_self
  · decide +kernel
  · decide +kernel
  · decide

end Verity.Analysis
