import Mathlib.Data.List.AList

/-!
# Maps to sets

A map from keys to finite sets, as programs build one by adding members under keys in a
loop. A key without an entry has no members, so that what a loop has built is told by its
members alone (`mem_members_addAll`).
-/

set_option autoImplicit false

namespace Verity.Foundation

/-- Keys with a set of members each, kept without repetition. -/
abbrev MultiMap (α β : Type) := AList fun _ : α => List β

namespace MultiMap

variable {α β : Type} [DecidableEq α]

/-- The members under a key; none when the key is missing. -/
def members (m : MultiMap α β) (k : α) : List β := (m.lookup k).getD []

@[simp]
theorem members_empty (k : α) : members (∅ : MultiMap α β) k = [] := rfl

theorem members_insert (m : MultiMap α β) (k k' : α) (xs : List β) :
    members (m.insert k xs) k' = if k' = k then xs else members m k' := by
  unfold members
  split
  · rename_i h
    rw [h, AList.lookup_insert, Option.getD_some]
  · rename_i h
    rw [AList.lookup_insert_ne h]

theorem mem_keys_of_mem_members {m : MultiMap α β} {k : α} {y : β} (h : y ∈ members m k) :
    k ∈ m.keys := by
  unfold members at h
  cases hlookup : m.lookup k with
  | none =>
    rw [hlookup] at h
    exact absurd h List.not_mem_nil
  | some xs =>
    have hsome : (m.lookup k).isSome := by rw [hlookup]; rfl
    exact AList.mem_keys.mp (AList.lookup_isSome.mp hsome)

/-- A key of the map is mapped to its members. -/
theorem lookup_of_mem_keys {m : MultiMap α β} {k : α} (h : k ∈ m.keys) :
    m.lookup k = some (members m k) := by
  obtain ⟨xs, hxs⟩ := Option.isSome_iff_exists.mp (AList.lookup_isSome.mpr (AList.mem_keys.mpr h))
  rw [members, hxs, Option.getD_some]

/-- `dict.setdefault` with the empty set, for each key of a list in turn. -/
def addKeys (m : MultiMap α β) (ks : List α) : MultiMap α β :=
  ks.foldl (fun m k => if k ∈ m then m else m.insert k []) m

theorem members_addKeys (m : MultiMap α β) (ks : List α) (k : α) :
    members (addKeys m ks) k = members m k := by
  unfold addKeys
  induction ks generalizing m with
  | nil => rfl
  | cons k' ks ih =>
    rw [List.foldl_cons, ih]
    split
    · rfl
    · rename_i hfresh
      rw [members_insert]
      split
      · rename_i hk
        rw [hk, members, AList.lookup_eq_none.mpr hfresh, Option.getD_none]
      · rfl

theorem mem_keys_addKeys {m : MultiMap α β} {ks : List α} {k : α} :
    k ∈ (addKeys m ks).keys ↔ k ∈ ks ∨ k ∈ m.keys := by
  unfold addKeys
  induction ks generalizing m with
  | nil => simp
  | cons k' ks ih =>
    rw [List.foldl_cons, ih, List.mem_cons]
    split
    · rename_i hold
      constructor
      · rintro (hk | hk)
        · exact Or.inl (Or.inr hk)
        · exact Or.inr hk
      · rintro ((rfl | hk) | hk)
        · exact Or.inr (AList.mem_keys.mp hold)
        · exact Or.inl hk
        · exact Or.inr hk
    · rw [← AList.mem_keys, AList.mem_insert, AList.mem_keys]
      tauto

/-- `dict.update`: the keys of the second map get its sets. -/
def update (m m' : MultiMap α β) : MultiMap α β :=
  m'.entries.foldl (fun m e => m.insert e.1 e.2) m

/-- The sets after an update: those of the second map where it has the key. -/
theorem members_update (m m' : MultiMap α β) (k : α) :
    members (update m m') k = if k ∈ m'.keys then members m' k else members m k := by
  unfold update
  obtain ⟨entries, hnodup⟩ := m'
  induction entries generalizing m with
  | nil => simp [AList.keys]
  | cons e entries ih =>
    obtain ⟨hfresh, hrest⟩ := List.nodupKeys_cons.mp hnodup
    have hmembers : members ⟨e :: entries, hnodup⟩ k =
        if k = e.1 then e.2 else members ⟨entries, hrest⟩ k := by
      unfold members AList.lookup
      split
      · rename_i hk
        subst hk
        rw [List.dlookup_cons_eq, Option.getD_some]
      · rename_i hk
        rw [List.dlookup_cons_ne _ _ hk]
    rw [List.foldl_cons, ih (m.insert e.1 e.2) hrest, members_insert, hmembers]
    by_cases hk : k = e.1
    · subst hk
      simp [AList.keys, hfresh]
    · simp [AList.keys, hk]

/-- Where the second map has at least the first one's members under its own keys, an update
is a union. -/
theorem mem_members_update {m m' : MultiMap α β} {k : α} {y : β}
    (h : k ∈ m'.keys → y ∈ members m k → y ∈ members m' k) :
    y ∈ members (update m m') k ↔ y ∈ members m k ∨ y ∈ members m' k := by
  rw [members_update]
  split
  · rename_i hk
    constructor
    · exact Or.inr
    · rintro (hy | hy)
      · exact h hk hy
      · exact hy
  · rename_i hk
    constructor
    · exact Or.inl
    · rintro (hy | hy)
      · exact hy
      · exact absurd (mem_keys_of_mem_members hy) hk

section Add

variable [DecidableEq β]

/-- The map with one more member under a key. -/
def add (m : MultiMap α β) (k : α) (x : β) : MultiMap α β := m.insert k ((members m k).insert x)

/-- The map with a list of keyed members added in turn. -/
def addAll (m : MultiMap α β) (l : List (α × β)) : MultiMap α β :=
  l.foldl (fun m e => add m e.1 e.2) m

theorem mem_members_add {m : MultiMap α β} {k k' : α} {x y : β} :
    y ∈ members (add m k x) k' ↔ (k' = k ∧ y = x) ∨ y ∈ members m k' := by
  unfold add
  rw [members_insert]
  by_cases h : k' = k
  · simp [h, List.mem_insert_iff]
  · simp [h]

/-- What has been added, and nothing else, is a member afterwards. -/
theorem mem_members_addAll {m : MultiMap α β} {l : List (α × β)} {k : α} {y : β} :
    y ∈ members (addAll m l) k ↔ (k, y) ∈ l ∨ y ∈ members m k := by
  unfold addAll
  induction l generalizing m with
  | nil => simp
  | cons e l ih =>
    rw [List.foldl_cons, ih, mem_members_add, List.mem_cons]
    constructor
    · rintro (hmem | ⟨hk, hy⟩ | hmem)
      · exact Or.inl (Or.inr hmem)
      · exact Or.inl (Or.inl (by rw [hk, hy]))
      · exact Or.inr hmem
    · rintro ((heq | hmem) | hmem)
      · exact Or.inr (Or.inl ⟨congrArg Prod.fst heq, congrArg Prod.snd heq⟩)
      · exact Or.inl hmem
      · exact Or.inr (Or.inr hmem)

theorem mem_keys_addAll {m : MultiMap α β} {l : List (α × β)} {k : α} :
    k ∈ (addAll m l).keys ↔ (∃ y, (k, y) ∈ l) ∨ k ∈ m.keys := by
  unfold addAll
  induction l generalizing m with
  | nil => simp
  | cons e l ih =>
    rw [List.foldl_cons, ih, ← AList.mem_keys, add, AList.mem_insert, AList.mem_keys]
    constructor
    · rintro (⟨y, hy⟩ | rfl | hk)
      · exact Or.inl ⟨y, List.mem_cons_of_mem _ hy⟩
      · exact Or.inl ⟨e.2, List.mem_cons_self⟩
      · exact Or.inr hk
    · rintro (⟨y, hy⟩ | hk)
      · rcases List.mem_cons.mp hy with rfl | hy
        · exact Or.inr (Or.inl rfl)
        · exact Or.inl ⟨y, hy⟩
      · exact Or.inr (Or.inr hk)

end Add

end MultiMap

end Verity.Foundation
