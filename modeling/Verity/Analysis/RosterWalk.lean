import Verity.Analysis.GroupMirror
import Verity.Foundation.CappedWalk
import Verity.Foundation.Decimal

/-!
# The walk over nested groups

`fetchRoster` walks from the groups that records are shared with over the `GroupMember` rows,
and is meant to find the direct members of every group it reaches. The limit of the walk is on
the groups asked about; what it slices is the frontier, which has a group as often as it was
found. Since a group in several chunks has its rows found once for each, repetitions multiply
from round to round, and fill the room of groups that are then asked about in no round
(`shared_child_cut_off`). The roster is exact if and only if no round cuts off a group with
rows for good (`roster_exact_iff`).
-/

set_option autoImplicit false

namespace Verity.Analysis.RosterWalk

open Verity.Model Verity.Foundation Relation

variable {org : SalesforceOrg} {groupIds : List String} {g : String} {userIds : List String}
  {kind : Char} {n : Nat} {x : String}

/-! ## The walk of a roster fetch -/

/-- The rows whose member is a group. -/
def nestedGroups (org : SalesforceOrg) : List (String × String) :=
  org.groupMember.filter fun row => startsWith row.2 groupKeyStart

/-- The groups among the members that a round finds. -/
def nestedOf (org : SalesforceOrg) (batch : List String) : List String :=
  ((groupMemberRows org batch).map Prod.snd).filter fun m => startsWith m groupKeyStart

theorem mem_nestedOf (org : SalesforceOrg) (batch : List String) (x : String) :
    x ∈ nestedOf org batch ↔ ∃ a ∈ batch, (a, x) ∈ nestedGroups org := by
  simp only [nestedOf, nestedGroups, List.mem_filter, List.mem_map, mem_groupMemberRows]
  constructor
  · rintro ⟨⟨⟨a, b⟩, ⟨hrow, hbatch⟩, rfl⟩, hgroup⟩
    exact ⟨a, hbatch, hrow, hgroup⟩
  · rintro ⟨a, hbatch, hrow, hgroup⟩
    exact ⟨⟨(a, x), ⟨hrow, hbatch⟩, rfl⟩, hgroup⟩

/-- The groups among the members that the query about one chunk finds. -/
def toldOf (rows : List (String × String)) (chunk : List String) : List String :=
  ((rows.filter fun row => row.1 ∈ chunk).map Prod.snd).filter fun m => startsWith m groupKeyStart

theorem nestedOf_eq_flatMap (org : SalesforceOrg) (batch : List String) :
    nestedOf org batch = (chunks batch shareQueryChunk).flatMap (toldOf org.groupMember) := by
  rw [nestedOf, groupMemberRows, List.map_flatMap, List.filter_flatMap]
  rfl

/-- The walk of the fetch comes through this state: the groups asked about before the round,
and its frontier. -/
def Passes (org : SalesforceOrg) (groupIds : List String) (w : Walk String) : Prop :=
  Walk.Passes groupExpansionMax (nestedOf org) ⟨[], groupIds.eraseDups⟩ w

theorem filter_new_groups (members asked : List String) :
    (members.filter fun m => startsWith m groupKeyStart ∧ m ∉ asked) =
      (members.filter fun m => startsWith m groupKeyStart).filter (· ∉ asked) := by
  rw [List.filter_filter]
  apply List.filter_congr
  intro m _
  simp [and_comm]

/-- The loop is a walk, and `fuel` rounds are enough for it to end by itself. -/
theorem expandGroups_passes (org : SalesforceOrg) {fuel : Nat} {w : Walk String}
    (hfuel : groupExpansionMax ≤ fuel + w.asked.length) (rows : List (String × String)) :
    ∃ e, Walk.Passes groupExpansionMax (nestedOf org) w e ∧ e.batch groupExpansionMax = [] ∧
      e.asked = (expandGroups org fuel w.asked w.waiting rows).1 := by
  induction fuel generalizing w rows with
  | zero =>
    refine ⟨w, ReflTransGen.refl, ?_, rfl⟩
    rw [Walk.batch, Nat.sub_eq_zero_of_le (by omega), List.take_zero]
  | succ fuel ih =>
    unfold expandGroups
    split
    · rename_i hstop
      refine ⟨w, ReflTransGen.refl, ?_, rfl⟩
      rcases hstop with hempty | hfull
      · rw [Walk.batch, Walk.fresh, List.isEmpty_iff.mp hempty, List.filter_nil, List.take_nil]
      · rw [Walk.batch, Nat.sub_eq_zero_of_le hfull, List.take_zero]
    · dsimp only
      split
      · rename_i hempty
        have hbatch : w.batch groupExpansionMax = [] := List.isEmpty_iff.mp hempty
        refine ⟨w, ReflTransGen.refl, hbatch, ?_⟩
        show w.asked = w.asked ++ (w.batch groupExpansionMax).dedup
        rw [hbatch, List.dedup_nil, List.append_nil]
      · rename_i hempty
        have hbatch : w.batch groupExpansionMax ≠ [] := fun h => hempty (List.isEmpty_iff.mpr h)
        obtain ⟨_, hmore⟩ := Walk.asked_lt_of_batch (nestedOf org) hbatch
        obtain ⟨e, hpasses, hend, hasked⟩ :=
          ih (w := w.next groupExpansionMax (nestedOf org)) (by omega)
            (rows ++ groupMemberRows org (w.batch groupExpansionMax))
        refine ⟨e, ReflTransGen.head ⟨hbatch, rfl⟩ hpasses, hend, ?_⟩
        rw [hasked]
        simp only [Walk.next, nestedOf, Walk.batch, Walk.fresh, filter_new_groups]
        rfl

/-- The walk ends with the groups that the fetch has asked about. -/
theorem exists_end (org : SalesforceOrg) (groupIds : List String) :
    ∃ e, Passes org groupIds e ∧ e.batch groupExpansionMax = [] ∧
      e.asked = askedGroups org groupIds :=
  expandGroups_passes org (w := ⟨[], groupIds.eraseDups⟩) (Nat.le_add_right _ _) []

theorem mem_askedGroups :
    g ∈ askedGroups org groupIds ↔
      ∃ w, Passes org groupIds w ∧ g ∈ w.batch groupExpansionMax := by
  obtain ⟨e, hpasses, hend, hasked⟩ := exists_end org groupIds
  rw [← hasked, Walk.mem_asked_of_end hpasses hend, or_iff_right List.not_mem_nil]
  rfl

/-! ## What a roster should be -/

/-- The group is that of some `GroupMember` row. -/
def HasRows (org : SalesforceOrg) (g : String) : Prop := ∃ m, (g, m) ∈ org.groupMember

/-- The groups of a roster: those with rows that nesting leads to from the shared ones. -/
def InRoster (org : SalesforceOrg) (groupIds : List String) (g : String) : Prop :=
  (∃ s ∈ groupIds, Reach (nestedGroups org) s g) ∧ HasRows org g

/-- A direct member of a group: a nested group, or an active user with a subject. -/
def DirectMember (org : SalesforceOrg) (g x : String) : Prop :=
  ∃ m, (g, m) ∈ org.groupMember ∧
    ((startsWith m groupKeyStart ∧ x = salesforceGroup m) ∨
      (startsWith m userKeyStart ∧ UserLists org m x))

/-- The walk ends by itself, and the edge sets are those of the groups of the roster, each with
exactly the group's direct members. -/
structure RosterExact (org : SalesforceOrg) (userIds groupIds : List String) : Prop where
  ends : ∃ e, Passes org groupIds e ∧ e.batch groupExpansionMax = [] ∧
    e.asked = askedGroups org groupIds
  edges : ∀ g, InRoster org groupIds g →
    ∃ members, (fetchRoster org userIds groupIds).lookup (salesforceGroup g) = some members ∧
      ∀ x, x ∈ members ↔ DirectMember org g x
  only : ∀ group ∈ (fetchRoster org userIds groupIds).keys,
    ∃ g, InRoster org groupIds g ∧ group = salesforceGroup g

theorem salesforceGroup_injective {a b : String} (h : salesforceGroup a = salesforceGroup b) :
    a = b :=
  append_left_injective h

theorem mem_keys_fetchRoster {group : String} :
    group ∈ (fetchRoster org userIds groupIds).keys ↔
      ∃ g ∈ askedGroups org groupIds, HasRows org g ∧ group = salesforceGroup g := by
  have hrows : ∀ row, row ∈ (expandGroups org groupExpansionMax [] groupIds.eraseDups []).2 ↔
      row ∈ org.groupMember ∧ row.1 ∈ askedGroups org groupIds := expandGroups_rows (by simp)
  unfold fetchRoster
  simp only [MultiMap.mem_keys_addAll, MultiMap.mem_keys_addKeys, AList.keys_empty,
    List.not_mem_nil, or_false, List.mem_filterMap, List.mem_map, Option.map_eq_some_iff,
    Prod.mk.injEq, hrows]
  constructor
  · rintro (⟨_, row, ⟨hrow, hasked⟩, _, _, rfl, _⟩ | ⟨row, ⟨hrow, hasked⟩, rfl⟩)
    · exact ⟨row.1, hasked, ⟨row.2, hrow⟩, rfl⟩
    · exact ⟨row.1, hasked, ⟨row.2, hrow⟩, rfl⟩
  · rintro ⟨g, hasked, ⟨m, hrow⟩, rfl⟩
    exact Or.inr ⟨(g, m), ⟨hrow, hasked⟩, rfl⟩

/-- The edge set of a group that has been asked about is its direct members. -/
theorem lookup_fetchRoster (hasked : g ∈ askedGroups org groupIds) (hrows : HasRows org g) :
    ∃ members, (fetchRoster org userIds groupIds).lookup (salesforceGroup g) = some members ∧
      ∀ x, x ∈ members ↔ DirectMember org g x := by
  have hkey : salesforceGroup g ∈ (fetchRoster org userIds groupIds).keys :=
    mem_keys_fetchRoster.mpr ⟨g, hasked, hrows, rfl⟩
  refine ⟨_, MultiMap.lookup_of_mem_keys hkey, ?_⟩
  intro x
  rw [mem_fetchRoster]
  constructor
  · rintro ⟨⟨g', m⟩, hrow, _, hgroup, hmember⟩
    obtain rfl := salesforceGroup_injective hgroup
    exact ⟨m, hrow, hmember⟩
  · rintro ⟨m, hrow, hmember⟩
    exact ⟨(g, m), hrow, hasked, rfl, hmember⟩

/-- A group that has been asked about is one of the roster, if it has rows. -/
theorem inRoster_of_asked (hasked : g ∈ askedGroups org groupIds) (hrows : HasRows org g) :
    InRoster org groupIds g := by
  obtain ⟨e, hpasses, _, he⟩ := exists_end org groupIds
  rw [← he] at hasked
  obtain ⟨s, hs, hreach⟩ :=
    Walk.reach_of_passes (mem_nestedOf org) hpasses (Or.inl hasked)
  exact ⟨⟨s, List.mem_eraseDups.mp hs, hreach⟩, hrows⟩

/-- The roster is exact if every group of it is asked about, and only then. -/
theorem rosterExact_iff_asked :
    RosterExact org userIds groupIds ↔
      ∀ g, InRoster org groupIds g → g ∈ askedGroups org groupIds := by
  constructor
  · intro hexact g hg
    obtain ⟨members, hlookup, _⟩ := hexact.edges g hg
    have hkey : salesforceGroup g ∈ (fetchRoster org userIds groupIds).keys := by
      rw [← AList.mem_keys, ← AList.lookup_isSome, hlookup]
      rfl
    obtain ⟨g', hasked, _, hgroup⟩ := mem_keys_fetchRoster.mp hkey
    obtain rfl := salesforceGroup_injective hgroup
    exact hasked
  · intro hasked
    refine ⟨exists_end org groupIds, ?_, ?_⟩
    · intro g hg
      exact lookup_fetchRoster (hasked g hg) hg.2
    · intro group hkey
      obtain ⟨g, hg, hrows, hgroup⟩ := mem_keys_fetchRoster.mp hkey
      exact ⟨g, inRoster_of_asked hg hrows, hgroup⟩

/-- All groups of the roster are asked about if those are that some round cuts off. -/
theorem asked_iff_of_cut (org : SalesforceOrg) (groupIds : List String) :
    (∀ g, InRoster org groupIds g → g ∈ askedGroups org groupIds) ↔
      ∀ w, Passes org groupIds w → ∀ g ∈ w.cut groupExpansionMax, HasRows org g →
        g ∈ askedGroups org groupIds := by
  obtain ⟨e, hpasses, hend, he⟩ := exists_end org groupIds
  have hnested : ∀ a x, (a, x) ∈ nestedGroups org → HasRows org a :=
    fun a x h => ⟨x, List.mem_of_mem_filter h⟩
  have hall := Walk.asks_all_iff (mem_nestedOf org) hpasses hend hnested
  rw [he] at hall
  simp only [List.mem_eraseDups] at hall
  constructor
  · intro h
    exact hall.mp fun g hreach hrows => h g ⟨hreach, hrows⟩
  · rintro h g ⟨hreach, hrows⟩
    exact hall.mpr h g hreach hrows

/-- A roster fetch ends with exactly the edge sets of the groups that nesting leads to if and
only if every group with rows that a round's slice leaves out is asked about in some round. -/
theorem roster_exact_iff (org : SalesforceOrg) (userIds groupIds : List String) :
    RosterExact org userIds groupIds ↔
      ∀ w, Passes org groupIds w → ∀ g ∈ w.cut groupExpansionMax, HasRows org g →
        ∃ w', Passes org groupIds w' ∧ g ∈ w'.batch groupExpansionMax := by
  rw [rosterExact_iff_asked, asked_iff_of_cut]
  simp only [mem_askedGroups]

/-! ## Groups that stand in one chunk -/

/-- No group stands in two chunks of the batch. -/
def ChunksApart (batch : List String) : Prop :=
  (chunks batch shareQueryChunk).Pairwise List.Disjoint

theorem length_toldOf (org : SalesforceOrg) (chunk : List String) :
    (toldOf org.groupMember chunk).length =
      (nestedGroups org).countP fun row => row.1 ∈ chunk := by
  rw [toldOf, nestedGroups, List.filter_map, List.length_map, List.countP_eq_length_filter,
    List.filter_filter, List.filter_filter]
  congr 1
  apply List.filter_congr
  intro row _
  rw [Function.comp_apply, Bool.and_comm]

theorem countP_append_of_disjoint {l l' : List String} (h : l.Disjoint l')
    (rows : List (String × String)) :
    rows.countP (fun row => row.1 ∈ l ++ l') =
      rows.countP (fun row => row.1 ∈ l) + rows.countP (fun row => row.1 ∈ l') := by
  induction rows with
  | nil => rfl
  | cons row rows ih =>
    simp only [List.countP_cons, List.mem_append, decide_eq_true_eq] at ih ⊢
    rw [ih]
    by_cases hl : row.1 ∈ l
    · have hl' : row.1 ∉ l' := h hl
      simp only [hl, hl', or_false, if_true, if_false]
      omega
    · simp only [hl, false_or, if_false]
      omega

/-- Chunks apart from each other tell each row of their groups once. -/
theorem length_flatMap_toldOf (org : SalesforceOrg) {pieces : List (List String)}
    (hapart : pieces.Pairwise List.Disjoint) :
    (pieces.flatMap (toldOf org.groupMember)).length =
      (nestedGroups org).countP fun row => row.1 ∈ pieces.flatten := by
  induction pieces with
  | nil => simp
  | cons chunk pieces ih =>
    obtain ⟨hchunk, hrest⟩ := List.pairwise_cons.mp hapart
    have hdisjoint : chunk.Disjoint pieces.flatten := by
      intro x hx hflat
      obtain ⟨piece, hpiece, hin⟩ := List.mem_flatten.mp hflat
      exact hchunk piece hpiece hx hin
    rw [List.flatMap_cons, List.length_append, length_toldOf, ih hrest, List.flatten_cons,
      countP_append_of_disjoint hdisjoint]

/-- Below the limit, a roster is exact as long as no round has a group in two chunks. -/
theorem rosterExact_of_chunks_apart
    (hlimit : org.groupMember.length + groupIds.eraseDups.length < groupExpansionMax)
    (hapart : ∀ w, Passes org groupIds w → ChunksApart (w.batch groupExpansionMax)) :
    RosterExact org userIds groupIds := by
  have htold : Walk.ToldOnce groupExpansionMax (nestedOf org) (nestedGroups org)
      ⟨[], groupIds.eraseDups⟩ := by
    intro w hpasses
    rw [nestedOf_eq_flatMap, length_flatMap_toldOf org (hapart w hpasses),
      flatten_chunks shareQueryChunk_pos]
  have hroom : groupIds.eraseDups.length + (nestedGroups org).length ≤ groupExpansionMax := by
    have hnested : (nestedGroups org).length ≤ org.groupMember.length := List.length_filter_le _ _
    omega
  rw [rosterExact_iff_asked, asked_iff_of_cut]
  intro w hpasses g hcut
  rw [Walk.cut_eq_nil_of_told_once htold hroom hpasses] at hcut
  exact absurd hcut List.not_mem_nil

/-! ## A child that many groups share -/

/-- A group id of one kind. -/
def groupId (kind : Char) (n : Nat) : String :=
  String.ofList ('0' :: '0' :: 'G' :: kind :: n.repr.toList)

/-- `n` group ids of one kind. -/
@[irreducible]
def groupsOf (kind : Char) (n : Nat) : List String := (List.range n).map (groupId kind)

/-- The shared child. -/
def everyone : String := groupId 'c' 0

/-- Two hundred groups of the north and as many of the south share `everyone`, which has 2300
teams. One other group holds a group `00Gd0`, and this one a group `00Ge0` with a user. -/
def sharedChildOrg : SalesforceOrg where
  groupMember :=
    (groupsOf 'n' 200).map (·, everyone) ++ ((groupsOf 's' 200).map (·, everyone) ++
      ([(groupId 'w' 0, groupId 'd' 0)] ++ ((groupsOf 't' 2300).map (everyone, ·) ++
        ([(groupId 'd' 0, groupId 'e' 0)] ++ [(groupId 'e' 0, "005A")]))))
  users := [⟨"005A", "ana@acme.test", true, none⟩]
  userRoles := []
  recordOwner := []
  viewAllAssignees := []
  users_nodup := by simp

/-- The groups that records are shared with. -/
def regions : List String := groupsOf 'n' 200 ++ (groupsOf 's' 200 ++ [groupId 'w' 0])

@[simp]
theorem groupId_inj {kind' : Char} {n' : Nat} :
    groupId kind n = groupId kind' n' ↔ kind = kind' ∧ n = n' := by
  simp only [groupId, String.ofList_inj, List.cons.injEq, true_and, and_congr_right_iff]
  intro _
  rw [String.toList_inj]
  exact nat_repr_injective.eq_iff

@[simp]
theorem groupId_mem_groupsOf {kind' : Char} {m : Nat} :
    groupId kind n ∈ groupsOf kind' m ↔ kind' = kind ∧ n < m := by
  unfold groupsOf
  simp only [List.mem_map, List.mem_range, groupId_inj]
  constructor
  · rintro ⟨n', hn', rfl, rfl⟩
    exact ⟨rfl, hn'⟩
  · rintro ⟨rfl, hn⟩
    exact ⟨n, hn, rfl, rfl⟩

@[simp]
theorem startsWith_groupId (kind : Char) (n : Nat) :
    startsWith (groupId kind n) groupKeyStart = true := by
  simp [startsWith, stripStart, groupId, groupKeyStart]

theorem toldOf_append (rows rows' : List (String × String)) (chunk : List String) :
    toldOf (rows ++ rows') chunk = toldOf rows chunk ++ toldOf rows' chunk := by
  rw [toldOf, List.filter_append, List.map_append, List.filter_append]
  rfl

theorem toldOf_cons (parent member : String) (rows : List (String × String)) (chunk : List String) :
    toldOf ((parent, member) :: rows) chunk =
      if parent ∈ chunk ∧ startsWith member groupKeyStart then member :: toldOf rows chunk
      else toldOf rows chunk := by
  unfold toldOf
  by_cases hin : parent ∈ chunk
  · cases hgroup : startsWith member groupKeyStart with
    | true => simp [hin, hgroup]
    | false => simp [hin, hgroup]
  · simp [hin]

/-- Each parent in the chunk tells the child. -/
theorem toldOf_parents {child : String} (hchild : startsWith child groupKeyStart)
    (parents chunk : List String) :
    toldOf (parents.map (·, child)) chunk =
      (parents.filter (· ∈ chunk)).map fun _ => child := by
  induction parents with
  | nil => rfl
  | cons parent parents ih =>
    rw [List.map_cons, toldOf_cons, ih, List.filter_cons]
    by_cases hin : parent ∈ chunk
    · simp [hin, hchild]
    · simp [hin]

/-- A parent in the chunk tells its children. -/
theorem toldOf_children {children : List String}
    (hchildren : ∀ x ∈ children, startsWith x groupKeyStart) (parent : String)
    (chunk : List String) :
    toldOf (children.map (parent, ·)) chunk = if parent ∈ chunk then children else [] := by
  induction children with
  | nil => simp [toldOf]
  | cons child children ih =>
    rw [List.map_cons, toldOf_cons, ih fun x hx => hchildren x (List.mem_cons_of_mem _ hx)]
    by_cases hin : parent ∈ chunk
    · simp [hin, hchildren child List.mem_cons_self]
    · simp [hin]

theorem exists_of_mem_groupsOf (hx : x ∈ groupsOf kind n) : ∃ m, x = groupId kind m := by
  unfold groupsOf at hx
  obtain ⟨m, _, rfl⟩ := List.mem_map.mp hx
  exact ⟨m, rfl⟩

theorem startsWith_of_mem_groupsOf (hx : x ∈ groupsOf kind n) : startsWith x groupKeyStart := by
  obtain ⟨m, rfl⟩ := exists_of_mem_groupsOf hx
  exact startsWith_groupId kind m

theorem toldOf_sharedChildOrg (chunk : List String) :
    toldOf sharedChildOrg.groupMember chunk =
      ((groupsOf 'n' 200).filter (· ∈ chunk)).map (fun _ => everyone) ++
      (((groupsOf 's' 200).filter (· ∈ chunk)).map (fun _ => everyone) ++
        ((if groupId 'w' 0 ∈ chunk then [groupId 'd' 0] else []) ++
          ((if everyone ∈ chunk then groupsOf 't' 2300 else []) ++
            if groupId 'd' 0 ∈ chunk then [groupId 'e' 0] else []))) := by
  have huser : startsWith "005A" groupKeyStart = false := by decide
  have hnil : toldOf [] chunk = [] := rfl
  unfold sharedChildOrg
  simp only [toldOf_append, toldOf_cons, toldOf_parents (startsWith_groupId 'c' 0),
    toldOf_children (fun x hx => startsWith_of_mem_groupsOf hx), huser, hnil, startsWith_groupId,
    everyone, and_true, Bool.false_eq_true, and_false, if_false, List.append_nil]
  rfl

theorem chunks_append {α : Type} {l r : List α} {size : Nat} (hsize : 0 < size)
    (hl : l.length = size) : chunks (l ++ r) size = l :: chunks r size := by
  have hne : l ++ r ≠ [] := by
    intro h
    rw [(List.append_eq_nil_iff.mp h).1, List.length_nil] at hl
    omega
  rw [chunks_eq_cons hsize hne, List.take_left' hl, List.drop_left' hl]

theorem chunks_singleton {α : Type} (x : α) {size : Nat} (hsize : 0 < size) :
    chunks [x] size = [[x]] := by
  have hlen : [x].length ≤ size := Nat.succ_le_of_lt hsize
  rw [chunks_eq_cons hsize (List.cons_ne_nil x []), List.take_of_length_le hlen,
    List.drop_eq_nil_of_le hlen]
  simp [chunks, Nat.div_eq_of_lt (Nat.sub_lt hsize Nat.one_pos)]

@[simp]
theorem length_groupsOf (kind : Char) (n : Nat) : (groupsOf kind n).length = n := by
  unfold groupsOf
  rw [List.length_map, List.length_range]

theorem nodup_groupsOf (kind : Char) (n : Nat) : (groupsOf kind n).Nodup := by
  unfold groupsOf
  apply List.nodup_range.map
  intro a b h
  exact (groupId_inj.mp h).2

theorem map_const_filter_self (kind : Char) (n : Nat) (child : String) :
    ((groupsOf kind n).filter (· ∈ groupsOf kind n)).map (fun _ => child) =
      List.replicate n child := by
  rw [List.filter_eq_self.mpr fun x hx => decide_eq_true hx, List.map_const', length_groupsOf]

/-- No group of the kind is in the chunk. -/
theorem filter_groupsOf_eq_nil (kind : Char) {chunk : List String}
    (h : ∀ n, groupId kind n ∉ chunk) (n : Nat) : (groupsOf kind n).filter (· ∈ chunk) = [] := by
  rw [List.filter_eq_nil_iff]
  intro x hx
  obtain ⟨m, rfl⟩ := exists_of_mem_groupsOf hx
  simpa using h m

/-- What waits after the first round. -/
def shared : List String :=
  List.replicate 200 everyone ++ (List.replicate 200 everyone ++ [groupId 'd' 0])

theorem nestedOf_regions : nestedOf sharedChildOrg regions = shared := by
  have hnorth : toldOf sharedChildOrg.groupMember (groupsOf 'n' 200) =
      List.replicate 200 everyone := by
    rw [toldOf_sharedChildOrg, map_const_filter_self,
      filter_groupsOf_eq_nil 's' (by simp)]
    simp [everyone]
  have hsouth : toldOf sharedChildOrg.groupMember (groupsOf 's' 200) =
      List.replicate 200 everyone := by
    rw [toldOf_sharedChildOrg, map_const_filter_self,
      filter_groupsOf_eq_nil 'n' (by simp)]
    simp [everyone]
  have hwest : toldOf sharedChildOrg.groupMember [groupId 'w' 0] = [groupId 'd' 0] := by
    rw [toldOf_sharedChildOrg, filter_groupsOf_eq_nil 'n' (by simp),
      filter_groupsOf_eq_nil 's' (by simp)]
    simp [everyone]
  rw [nestedOf_eq_flatMap, regions, chunks_append shareQueryChunk_pos (length_groupsOf 'n' 200),
    chunks_append shareQueryChunk_pos (length_groupsOf 's' 200),
    chunks_singleton _ shareQueryChunk_pos, List.flatMap_cons, List.flatMap_cons,
    List.flatMap_singleton, hnorth, hsouth, hwest]
  rfl

theorem nestedOf_shared :
    nestedOf sharedChildOrg shared =
      (groupsOf 't' 2300 ++ groupsOf 't' 2300) ++ [groupId 'e' 0] := by
  have hmem : ∀ x, x ∈ List.replicate 200 everyone ↔ x = everyone := by
    intro x
    rw [List.mem_replicate]
    exact and_iff_right (by decide)
  have heveryone : toldOf sharedChildOrg.groupMember (List.replicate 200 everyone) =
      groupsOf 't' 2300 := by
    rw [toldOf_sharedChildOrg, filter_groupsOf_eq_nil 'n' (by simp only [hmem]; simp [everyone]),
      filter_groupsOf_eq_nil 's' (by simp only [hmem]; simp [everyone])]
    simp only [hmem]
    simp [everyone]
  have hdeep : toldOf sharedChildOrg.groupMember [groupId 'd' 0] = [groupId 'e' 0] := by
    rw [toldOf_sharedChildOrg, filter_groupsOf_eq_nil 'n' (by simp),
      filter_groupsOf_eq_nil 's' (by simp)]
    simp [everyone]
  have hlen : (List.replicate 200 everyone).length = shareQueryChunk := List.length_replicate
  rw [nestedOf_eq_flatMap, shared, chunks_append shareQueryChunk_pos hlen,
    chunks_append shareQueryChunk_pos hlen,
    chunks_singleton _ shareQueryChunk_pos, List.flatMap_cons, List.flatMap_cons,
    List.flatMap_singleton, heveryone, hdeep, List.append_assoc]

theorem mem_regions :
    groupId kind n ∈ regions ↔
      (kind = 'n' ∧ n < 200) ∨ (kind = 's' ∧ n < 200) ∨ (kind = 'w' ∧ n = 0) := by
  simp [regions, eq_comm]

theorem mem_shared : x ∈ shared ↔ x = everyone ∨ x = groupId 'd' 0 := by
  rw [shared, List.mem_append, List.mem_append, List.mem_replicate, List.mem_singleton]
  constructor
  · rintro (⟨_, hx⟩ | ⟨_, hx⟩ | hx)
    · exact Or.inl hx
    · exact Or.inl hx
    · exact Or.inr hx
  · rintro (hx | hx)
    · exact Or.inl ⟨by decide, hx⟩
    · exact Or.inr (Or.inr hx)

theorem length_shared : shared.length = 401 := by
  rw [shared, List.length_append, List.length_append, List.length_replicate, List.length_singleton]

theorem length_regions : regions.length = 401 := by
  rw [regions, List.length_append, List.length_append, length_groupsOf, length_groupsOf,
    List.length_singleton]

theorem nodup_regions : regions.Nodup := by
  have hkinds : ∀ x ∈ groupsOf 's' 200, x ≠ groupId 'w' 0 := by
    rintro x hx rfl
    simp at hx
  refine (nodup_groupsOf 'n' 200).append ((nodup_groupsOf 's' 200).append
    (List.nodup_singleton _) ?_) ?_
  · intro x hx hx'
    exact hkinds x hx (List.mem_singleton.mp hx')
  · intro x hx hx'
    obtain ⟨n, rfl⟩ := exists_of_mem_groupsOf hx
    simp at hx'

theorem eraseDups_of_nodup {l : List String} (h : l.Nodup) : l.eraseDups = l := by
  induction l with
  | nil => rfl
  | cons x l ih =>
    obtain ⟨hx, hl⟩ := List.nodup_cons.mp h
    have hkeep : (l.filter fun y => !y == x) = l := by
      rw [List.filter_eq_self]
      intro y hy
      simpa using fun heq : y = x => hx (heq ▸ hy)
    rw [List.eraseDups_cons, hkeep, ih hl]

/-- The first round asks about all regions. -/
theorem batch_first : (⟨[], regions⟩ : Walk String).batch groupExpansionMax = regions := by
  have hfresh : (⟨[], regions⟩ : Walk String).fresh = regions := by
    rw [Walk.fresh, List.filter_eq_self]
    intro x _
    exact decide_eq_true List.not_mem_nil
  rw [Walk.batch, hfresh, List.take_of_length_le]
  rw [length_regions]
  decide

theorem next_first :
    (⟨[], regions⟩ : Walk String).next groupExpansionMax (nestedOf sharedChildOrg) =
      ⟨regions, shared⟩ := by
  rw [Walk.next, batch_first, nestedOf_regions, nodup_regions.dedup, List.nil_append,
    List.filter_eq_self.mpr]
  intro x hx
  rcases mem_shared.mp hx with rfl | rfl
  · simp [everyone, mem_regions]
  · simp [mem_regions]

theorem batch_second : (⟨regions, shared⟩ : Walk String).batch groupExpansionMax = shared := by
  have hfresh : (⟨regions, shared⟩ : Walk String).fresh = shared := by
    rw [← next_first, Walk.fresh_next, next_first]
  rw [Walk.batch, hfresh, List.take_of_length_le]
  rw [length_shared, length_regions]
  decide

/-- The state before the third round: the teams wait twice before `00Ge0`. -/
def third : Walk String :=
  (⟨regions, shared⟩ : Walk String).next groupExpansionMax (nestedOf sharedChildOrg)

theorem mem_third_asked : x ∈ third.asked ↔ x ∈ regions ∨ x ∈ shared := by
  rw [third, Walk.mem_asked_next, batch_second]

theorem third_waiting :
    third.waiting = (groupsOf 't' 2300 ++ groupsOf 't' 2300) ++ [groupId 'e' 0] := by
  have hteam : ∀ x ∈ groupsOf 't' 2300, x ∉ third.asked := by
    intro x hx
    obtain ⟨n, rfl⟩ := exists_of_mem_groupsOf hx
    simp [mem_third_asked, mem_regions, mem_shared, everyone]
  have hall : ∀ x ∈ (groupsOf 't' 2300 ++ groupsOf 't' 2300) ++ [groupId 'e' 0],
      x ∉ third.asked := by
    intro x hx
    rcases List.mem_append.mp hx with hx | hx
    · rcases List.mem_append.mp hx with hx | hx
      · exact hteam x hx
      · exact hteam x hx
    · rw [List.mem_singleton.mp hx]
      simp [mem_third_asked, mem_regions, mem_shared, everyone]
  show (nestedOf sharedChildOrg ((⟨regions, shared⟩ : Walk String).batch _)).filter
    (· ∉ third.asked) = _
  rw [batch_second, nestedOf_shared, List.filter_eq_self]
  intro x hx
  exact decide_eq_true (hall x hx)

/-- The third round asks about teams only. -/
theorem team_of_mem_batch_third (hx : x ∈ third.batch groupExpansionMax) :
    x ∈ groupsOf 't' 2300 := by
  have hasked : 401 ≤ third.asked.length := by
    have hgrows := Walk.length_asked_le_next groupExpansionMax (nestedOf sharedChildOrg)
      ⟨regions, shared⟩
    rwa [length_regions] at hgrows
  have hroom : groupExpansionMax - third.asked.length ≤
      (groupsOf 't' 2300 ++ groupsOf 't' 2300).length := by
    rw [List.length_append, length_groupsOf, groupExpansionMax]
    omega
  have hfresh : third.fresh = third.waiting := by rw [third, Walk.fresh_next]
  rw [Walk.batch, hfresh, third_waiting, List.take_append_of_le_length hroom] at hx
  rcases List.mem_append.mp (List.mem_of_mem_take hx) with hx | hx
  · exact hx
  · exact hx

/-- Teams have no members, so the fourth round has nothing to ask about. -/
theorem batch_fourth :
    (third.next groupExpansionMax (nestedOf sharedChildOrg)).batch groupExpansionMax = [] := by
  have hnone : nestedOf sharedChildOrg (third.batch groupExpansionMax) = [] := by
    rw [List.eq_nil_iff_forall_not_mem]
    intro x hx
    obtain ⟨a, ha, hrow⟩ := (mem_nestedOf _ _ _).mp hx
    have hteam := team_of_mem_batch_third ha
    obtain ⟨n, rfl⟩ := exists_of_mem_groupsOf hteam
    have hrow := List.mem_of_mem_filter hrow
    simp [sharedChildOrg, everyone] at hrow
  rw [Walk.batch, Walk.fresh_next, Walk.next, hnone, List.filter_nil, List.take_nil]

/-- No round asks about `00Ge0`. -/
theorem not_asked_deep : groupId 'e' 0 ∉ askedGroups sharedChildOrg regions := by
  rw [mem_askedGroups]
  rintro ⟨w, hpasses, hbatch⟩
  unfold Passes at hpasses
  rw [eraseDups_of_nodup nodup_regions] at hpasses
  rcases Walk.passes_iff.mp hpasses with rfl | ⟨_, hpasses⟩
  · rw [batch_first] at hbatch
    simp [mem_regions] at hbatch
  · rw [next_first] at hpasses
    rcases Walk.passes_iff.mp hpasses with rfl | ⟨_, hpasses⟩
    · rw [batch_second, mem_shared] at hbatch
      simp [everyone] at hbatch
    · rw [← third] at hpasses
      rcases Walk.passes_iff.mp hpasses with rfl | ⟨_, hpasses⟩
      · have hteam := team_of_mem_batch_third hbatch
        simp at hteam
      · rcases Walk.passes_iff.mp hpasses with rfl | ⟨hmore, _⟩
        · rw [batch_fourth] at hbatch
          exact absurd hbatch List.not_mem_nil
        · exact absurd batch_fourth hmore

/-- With 2703 rows and 401 starting groups, `00Ge0` is reached and has a row, and the roster has
no edge set for it: the teams of the shared child, found once for each of two chunks, fill the
room of the third round. -/
theorem shared_child_cut_off :
    sharedChildOrg.groupMember.length + regions.length < groupExpansionMax ∧
      InRoster sharedChildOrg regions "00Ge0" ∧
      (fetchRoster sharedChildOrg [] regions).lookup (salesforceGroup "00Ge0") = none ∧
      ¬ RosterExact sharedChildOrg [] regions := by
  have hdeep : "00Ge0" = groupId 'e' 0 := by decide
  have hroster : InRoster sharedChildOrg regions (groupId 'e' 0) := by
    refine ⟨⟨groupId 'w' 0, by simp [mem_regions], ?_⟩, "005A", by simp [sharedChildOrg]⟩
    have hwest : (groupId 'w' 0, groupId 'd' 0) ∈ nestedGroups sharedChildOrg :=
      List.mem_filter.mpr ⟨by simp [sharedChildOrg], startsWith_groupId 'd' 0⟩
    have hnext : (groupId 'd' 0, groupId 'e' 0) ∈ nestedGroups sharedChildOrg :=
      List.mem_filter.mpr ⟨by simp [sharedChildOrg], startsWith_groupId 'e' 0⟩
    exact (ReflTransGen.single hwest).tail hnext
  rw [hdeep]
  refine ⟨?_, hroster, ?_, ?_⟩
  · simp only [sharedChildOrg, List.length_append, List.length_map, length_groupsOf,
      List.length_singleton, length_regions]
    decide
  · rw [AList.lookup_eq_none, AList.mem_keys, mem_keys_fetchRoster]
    rintro ⟨g, hasked, _, hgroup⟩
    rw [← salesforceGroup_injective hgroup] at hasked
    exact not_asked_deep hasked
  · intro hexact
    exact not_asked_deep (rosterExact_iff_asked.mp hexact _ hroster)

end Verity.Analysis.RosterWalk
