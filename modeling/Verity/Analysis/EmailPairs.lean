import Verity.Analysis.ConnectorEmails
import Verity.Model.Producers

/-!
# Which emails are paired

The email producer groups the refs of the facts by population and canonical address, and links
every two refs of a group. A group lists a ref once however many facts give it, so the links of a
group are its pairs of refs in order, each once; and two groups differ in the key their links
carry. The links are then a set that the facts determine, whatever order they come in.
-/

set_option autoImplicit false

namespace Verity.Analysis

open Verity.Model

/-! ## Groups and pairs -/

section Pairs

variable {α κ : Type}

/-- The pairs of an ordered list are its pairs of a lesser and a greater element. -/
theorem mem_pairsOf [LinearOrder α] {l : List α} (h : l.Pairwise (· < ·)) {a b : α} :
    (a, b) ∈ pairsOf l ↔ a ∈ l ∧ b ∈ l ∧ a < b := by
  induction l with
  | nil => simp [pairsOf]
  | cons c l ih =>
    obtain ⟨hc, hl⟩ := List.pairwise_cons.mp h
    rw [pairsOf, List.mem_append, List.mem_map, ih hl]
    constructor
    · rintro (⟨b', hb', heq⟩ | ⟨ha, hb, hlt⟩)
      · obtain ⟨rfl, rfl⟩ := Prod.mk.inj heq
        exact ⟨List.mem_cons_self, List.mem_cons_of_mem _ hb', hc b' hb'⟩
      · exact ⟨List.mem_cons_of_mem _ ha, List.mem_cons_of_mem _ hb, hlt⟩
    · rintro ⟨ha, hb, hlt⟩
      rcases List.mem_cons.mp ha with rfl | ha'
      · rcases List.mem_cons.mp hb with rfl | hb'
        · exact absurd hlt (lt_irrefl b)
        · exact Or.inl ⟨b, hb', rfl⟩
      · rcases List.mem_cons.mp hb with rfl | hb'
        · exact absurd (hc a ha') (lt_asymm hlt)
        · exact Or.inr ⟨ha', hb', hlt⟩

theorem mem_of_mem_pairsOf {l : List α} {a b : α} (h : (a, b) ∈ pairsOf l) : a ∈ l := by
  induction l with
  | nil => exact absurd h List.not_mem_nil
  | cons c l ih =>
    rw [pairsOf, List.mem_append, List.mem_map] at h
    rcases h with ⟨b', -, heq⟩ | h
    · rw [(Prod.mk.inj heq).1]
      exact List.mem_cons_self
    · exact List.mem_cons_of_mem _ (ih h)

theorem nodup_pairsOf {l : List α} (h : l.Nodup) : (pairsOf l).Nodup := by
  induction l with
  | nil => exact List.nodup_nil
  | cons c l ih =>
    obtain ⟨hc, hl⟩ := List.nodup_cons.mp h
    rw [pairsOf]
    refine List.Nodup.append ?_ (ih hl) ?_
    · exact hl.map fun a b heq => (Prod.mk.inj heq).2
    · intro p hp hin
      obtain ⟨b, -, rfl⟩ := List.mem_map.mp hp
      exact hc (mem_of_mem_pairsOf hin)

variable [DecidableEq κ] {key : α → κ} {l : List α}

/-- A group is what the list has under its key. -/
theorem mem_groupsOf {g : κ × List α} :
    g ∈ groupsOf key l ↔ (∃ a ∈ l, key a = g.1) ∧ g.2 = l.filter fun a => key a = g.1 := by
  unfold groupsOf
  rw [List.mem_map]
  constructor
  · rintro ⟨k, hk, rfl⟩
    simp only [List.mem_reverse, List.mem_dedup, List.mem_map] at hk
    exact ⟨hk, rfl⟩
  · rintro ⟨hk, hg⟩
    refine ⟨g.1, ?_, ?_⟩
    · simp only [List.mem_reverse, List.mem_dedup, List.mem_map]
      exact hk
    · rw [← hg]

theorem groupsOf_pairwise_ne (key : α → κ) (l : List α) :
    (groupsOf key l).Pairwise fun g g' => g.1 ≠ g'.1 := by
  unfold groupsOf
  rw [List.pairwise_map]
  exact List.nodup_reverse.mpr (List.nodup_dedup _)

end Pairs

/-! ## The links of a group -/

/-- What an edge says: the refs, the key they share and its population. -/
def edgeTuple (ev : EvidenceWrite) : String × String × Option String × Option String :=
  (ev.leftRef, ev.rightRef, ev.keyValue, ev.keyNamespace)

theorem ordered_of_lt {a b : String} (h : a < b) : ordered a b = (a, b) := if_pos (le_of_lt h)

/-- The links of a group are its pairs of refs, in order, with the key. -/
theorem map_edgeTuple_pairEdges (tenant : TenantId) (method keyValue keyNamespace : String)
    (refs : List String) :
    (pairEdges tenant method keyValue keyNamespace refs).map edgeTuple =
      (pairsOf (sortDedup refs)).map fun p => (p.1, p.2, some keyValue, some keyNamespace) := by
  unfold pairEdges
  rw [List.map_map]
  refine List.map_congr_left fun p hp => ?_
  have hlt := ((mem_pairsOf (sortDedup_sorted refs)).mp hp).2.2
  simp only [Function.comp_apply, edgeTuple, ordered_of_lt hlt]

theorem mem_pairEdges {tenant : TenantId} {method keyValue keyNamespace : String}
    {refs : List String} {t : String × String × Option String × Option String} :
    t ∈ (pairEdges tenant method keyValue keyNamespace refs).map edgeTuple ↔
      ∃ r₁ r₂, t = (r₁, r₂, some keyValue, some keyNamespace) ∧ r₁ < r₂ ∧ r₁ ∈ refs ∧
        r₂ ∈ refs := by
  rw [map_edgeTuple_pairEdges, List.mem_map]
  constructor
  · rintro ⟨⟨r₁, r₂⟩, hp, rfl⟩
    obtain ⟨h₁, h₂, hlt⟩ := (mem_pairsOf (sortDedup_sorted refs)).mp hp
    exact ⟨r₁, r₂, rfl, hlt, mem_sortDedup.mp h₁, mem_sortDedup.mp h₂⟩
  · rintro ⟨r₁, r₂, rfl, hlt, h₁, h₂⟩
    refine ⟨(r₁, r₂), ?_, rfl⟩
    exact (mem_pairsOf (sortDedup_sorted refs)).mpr
      ⟨mem_sortDedup.mpr h₁, mem_sortDedup.mpr h₂, hlt⟩

theorem nodup_pairEdges (tenant : TenantId) (method keyValue keyNamespace : String)
    (refs : List String) :
    ((pairEdges tenant method keyValue keyNamespace refs).map edgeTuple).Nodup := by
  rw [map_edgeTuple_pairEdges]
  refine (nodup_pairsOf (List.nodup_dedup _)).map ?_
  rintro ⟨r₁, r₂⟩ ⟨r₁', r₂'⟩ heq
  obtain ⟨rfl, hrest⟩ := Prod.mk.inj heq
  obtain ⟨rfl, -⟩ := Prod.mk.inj hrest
  rfl

/-! ## The email producer -/

/-- The fact gives the ref, under an address of the population. -/
def GivesRef (f : EmailFact) (ref email : String) (keyNamespace : KeyNamespace) : Prop :=
  trim f.source ≠ "" ∧ trim f.entityId ≠ "" ∧ ref = makeRef (trim f.source) (trim f.entityId) ∧
    f.keyNamespace = keyNamespace ∧
    (canonicalizeEmail f.email f.keyNamespace).map CanonKey.value = some email

/-- The tenant's own denylist has the address, in any case of its letters. -/
def Denied (denylist : List String) (email : String) : Prop :=
  ∃ d ∈ denylist, eqIgnoreAsciiCase d email = true

theorem asStr_injective : Function.Injective KeyNamespace.asStr := by
  intro n n' h
  cases n <;> cases n' <;> first | rfl | exact absurd h (by decide)

theorem canonicalizeEmail_namespace {raw : String} {keyNamespace : KeyNamespace} {k : CanonKey}
    (h : canonicalizeEmail raw keyNamespace = some k) : k.keyNamespace = keyNamespace := by
  rw [canonicalizeEmail_eq, Option.map_eq_some_iff] at h
  obtain ⟨parts, -, rfl⟩ := h
  rfl

/-- A fact joins a group under its own population, with the address it gives. -/
theorem emailMember_eq_some_iff {denylist : List String} {f : EmailFact} {k : KeyNamespace}
    {email ref : String} : emailMember denylist f = some ((k, email), ref) ↔
      GivesRef f ref email k ∧ ¬ Denied denylist email := by
  have hdenied : ∀ key : CanonKey, isTenantDenied key denylist = true ↔
      Denied denylist key.value := by
    intro key
    unfold isTenantDenied Denied
    rw [List.any_eq_true]
  unfold emailMember GivesRef
  split
  · rename_i hblank
    refine ⟨fun h => absurd h (by simp), ?_⟩
    rintro ⟨⟨hsource, hentity, -⟩, -⟩
    exact absurd hblank (by simp [hsource, hentity])
  · rename_i hblank
    rw [not_or] at hblank
    cases hkey : canonicalizeEmail f.email f.keyNamespace with
    | none => simp
    | some key =>
      have hspace := canonicalizeEmail_namespace hkey
      rw [Option.bind_some, Option.map_some, Option.some.injEq]
      constructor
      · intro h
        split at h
        · exact absurd h (by simp)
        · rename_i hallowed
          obtain ⟨hgroup, rfl⟩ := Prod.mk.inj (Option.some.inj h)
          obtain ⟨rfl, rfl⟩ := Prod.mk.inj hgroup
          refine ⟨⟨hblank.1, hblank.2, rfl, hspace.symm, rfl⟩, ?_⟩
          exact fun hdeny => hallowed ((hdenied key).mpr hdeny)
      · rintro ⟨⟨-, -, rfl, rfl, rfl⟩, hallowed⟩
        rw [if_neg (fun hdeny => hallowed ((hdenied key).mp hdeny)), hspace]

/-- A ref is in the group of its population and address, and in no other. -/
theorem mem_group_iff {facts : List EmailFact} {denylist : List String} {k : KeyNamespace}
    {email ref : String} :
    ref ∈ ((facts.filterMap (emailMember denylist)).filter fun m => m.1 = (k, email)).map
      Prod.snd ↔ (∃ f ∈ facts, GivesRef f ref email k) ∧ ¬ Denied denylist email := by
  rw [List.mem_map]
  constructor
  · rintro ⟨⟨group, ref⟩, hm, rfl⟩
    obtain ⟨hm, hgroup⟩ := List.mem_filter.mp hm
    obtain rfl : group = (k, email) := of_decide_eq_true hgroup
    obtain ⟨f, hf, hmember⟩ := List.mem_filterMap.mp hm
    obtain ⟨hgives, hallowed⟩ := emailMember_eq_some_iff.mp hmember
    exact ⟨⟨f, hf, hgives⟩, hallowed⟩
  · rintro ⟨⟨f, hf, hgives⟩, hallowed⟩
    refine ⟨((k, email), ref), List.mem_filter.mpr ⟨List.mem_filterMap.mpr ⟨f, hf, ?_⟩, ?_⟩, rfl⟩
    · exact emailMember_eq_some_iff.mpr ⟨hgives, hallowed⟩
    · exact decide_eq_true rfl

/-- The tuples of the email producer, as a set of the facts. -/
def EmailEdge (facts : List EmailFact) (denylist : List String)
    (t : String × String × Option String × Option String) : Prop :=
  ∃ r₁ r₂ email keyNamespace, t = (r₁, r₂, some email, some keyNamespace.asStr) ∧ r₁ < r₂ ∧
    (∃ f ∈ facts, GivesRef f r₁ email keyNamespace) ∧
    (∃ f ∈ facts, GivesRef f r₂ email keyNamespace) ∧ ¬ Denied denylist email

/-- The edges that the email producer proposes. -/
theorem mem_emailEvidence (tenant : TenantId) (facts : List EmailFact) (denylist : List String)
    (t : String × String × Option String × Option String) :
    t ∈ (tier1EmailWithinNamespaceEvidence tenant facts denylist).map edgeTuple ↔
      EmailEdge facts denylist t := by
  have hmem : t ∈ (tier1EmailWithinNamespaceEvidence tenant facts denylist).map edgeTuple ↔
      ∃ g ∈ groupsOf Prod.fst (facts.filterMap (emailMember denylist)),
        t ∈ (pairEdges tenant "email_exact" g.1.2 g.1.1.asStr (g.2.map Prod.snd)).map
          edgeTuple := by
    unfold tier1EmailWithinNamespaceEvidence
    simp only [List.mem_map, List.mem_insertionSort, List.mem_flatMap]
    constructor
    · rintro ⟨ev, ⟨g, hg, hev⟩, rfl⟩
      exact ⟨g, hg, ev, hev, rfl⟩
    · rintro ⟨g, hg, ev, hev, rfl⟩
      exact ⟨ev, ⟨g, hg, hev⟩, rfl⟩
  rw [hmem]
  constructor
  · rintro ⟨⟨⟨k, email⟩, members⟩, hg, ht⟩
    obtain ⟨-, hmembers⟩ := mem_groupsOf.mp hg
    dsimp only at hmembers ht
    rw [hmembers] at ht
    obtain ⟨r₁, r₂, rfl, hlt, h₁, h₂⟩ := mem_pairEdges.mp ht
    obtain ⟨hgives₁, hallowed⟩ := mem_group_iff.mp h₁
    exact ⟨r₁, r₂, email, k, rfl, hlt, hgives₁, (mem_group_iff.mp h₂).1, hallowed⟩
  · rintro ⟨r₁, r₂, email, k, rfl, hlt, hgives₁, hgives₂, hallowed⟩
    have h₁ := mem_group_iff.mpr ⟨hgives₁, hallowed⟩
    obtain ⟨m, hm, -⟩ := List.mem_map.mp h₁
    obtain ⟨hm, hkey⟩ := List.mem_filter.mp hm
    refine ⟨((k, email), (facts.filterMap (emailMember denylist)).filter fun m =>
      m.1 = (k, email)), mem_groupsOf.mpr ⟨⟨m, hm, of_decide_eq_true hkey⟩, rfl⟩, ?_⟩
    exact mem_pairEdges.mpr ⟨r₁, r₂, rfl, hlt, h₁, mem_group_iff.mpr ⟨hgives₂, hallowed⟩⟩

theorem nodup_emailEvidence (tenant : TenantId) (facts : List EmailFact) (denylist : List String) :
    ((tier1EmailWithinNamespaceEvidence tenant facts denylist).map edgeTuple).Nodup := by
  unfold tier1EmailWithinNamespaceEvidence
  dsimp only
  rw [((List.perm_insertionSort _ _).map edgeTuple).nodup_iff, List.map_flatMap,
    List.nodup_flatMap]
  refine ⟨fun g _ => nodup_pairEdges _ _ _ _ _, ?_⟩
  refine (groupsOf_pairwise_ne Prod.fst _).imp fun {g g'} hne t ht ht' => hne ?_
  -- the links of a group carry its key
  obtain ⟨r₁, r₂, rfl, -⟩ := mem_pairEdges.mp ht
  obtain ⟨r₁', r₂', heq, -⟩ := mem_pairEdges.mp ht'
  obtain ⟨-, hrest⟩ := Prod.mk.inj heq
  obtain ⟨-, hrest⟩ := Prod.mk.inj hrest
  obtain ⟨hemail, hspace⟩ := Prod.mk.inj hrest
  exact Prod.ext (asStr_injective (Option.some.inj hspace)) (Option.some.inj hemail)

/-- The email producer emits every pair of refs that two facts of one population give under one
allowed address, once, and no other, whatever order the facts come in. -/
theorem email_pairs_spec (tenant : TenantId) (facts : List EmailFact) (denylist : List String) :
    (∀ t, t ∈ (tier1EmailWithinNamespaceEvidence tenant facts denylist).map edgeTuple ↔
      EmailEdge facts denylist t) ∧
    ((tier1EmailWithinNamespaceEvidence tenant facts denylist).map edgeTuple).Nodup ∧
    (∀ ev ∈ tier1EmailWithinNamespaceEvidence tenant facts denylist,
      ∃ f₁ ∈ facts, ∃ f₂ ∈ facts, ∃ email,
        GivesRef f₁ ev.leftRef email f₁.keyNamespace ∧
        GivesRef f₂ ev.rightRef email f₁.keyNamespace) ∧
    ∀ facts', facts.Perm facts' → ∀ t,
      t ∈ (tier1EmailWithinNamespaceEvidence tenant facts denylist).map edgeTuple ↔
        t ∈ (tier1EmailWithinNamespaceEvidence tenant facts' denylist).map edgeTuple := by
  refine ⟨mem_emailEvidence tenant facts denylist, nodup_emailEvidence tenant facts denylist,
    ?_, ?_⟩
  · intro ev hev
    obtain ⟨r₁, r₂, email, k, heq, -, ⟨f₁, hf₁, hgives₁⟩, ⟨f₂, hf₂, hgives₂⟩, -⟩ :=
      (mem_emailEvidence tenant facts denylist _).mp (List.mem_map_of_mem hev)
    obtain ⟨hleft, hrest⟩ := Prod.mk.inj heq
    obtain ⟨hright, -⟩ := Prod.mk.inj hrest
    obtain rfl : f₁.keyNamespace = k := hgives₁.2.2.2.1
    rw [hleft, hright]
    exact ⟨f₁, hf₁, f₂, hf₂, email, hgives₁, hgives₂⟩
  · intro facts' hperm t
    rw [mem_emailEvidence, mem_emailEvidence]
    unfold EmailEdge
    simp only [hperm.mem_iff]

end Verity.Analysis
