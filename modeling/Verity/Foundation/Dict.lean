import Mathlib.Data.List.Induction
import Mathlib.Data.List.Nodup

/-!
# Dictionaries in insertion order

A dictionary keeps its keys in the order in which they were first set. What is read of it depends on
the last write of the key alone, and the same holds of any state that is folded over a list of
writes (`obs_foldl`).
-/

set_option autoImplicit false

namespace Verity.Foundation

/-! ## The last write -/

section LastWrite

variable {σ β γ : Type}

/-- The last of the entries that sets a value decides it. -/
def lastSet (sets : β → Option γ) (bs : List β) : Option γ := bs.reverse.findSome? sets

@[simp]
theorem lastSet_nil (sets : β → Option γ) : lastSet sets [] = none := rfl

theorem lastSet_concat (sets : β → Option γ) (bs : List β) (b : β) :
    lastSet sets (bs ++ [b]) = (sets b).or (lastSet sets bs) := by
  rw [lastSet, lastSet, List.reverse_concat, List.findSome?_cons]
  cases sets b <;> rfl

theorem lastSet_eq_none {sets : β → Option γ} {bs : List β} :
    lastSet sets bs = none ↔ ∀ b ∈ bs, sets b = none := by
  simp [lastSet, List.findSome?_eq_none_iff]

theorem exists_of_lastSet_eq_some {sets : β → Option γ} {bs : List β} {c : γ}
    (h : lastSet sets bs = some c) : ∃ b ∈ bs, sets b = some c := by
  obtain ⟨b, hb, hset⟩ := List.exists_of_findSome?_eq_some h
  exact ⟨b, List.mem_reverse.mp hb, hset⟩

theorem lastSet_map {δ : Type} (sets : β → Option γ) (f : γ → δ) (bs : List β) :
    lastSet (fun b => (sets b).map f) bs = (lastSet sets bs).map f := by
  induction bs using List.reverseRecOn with
  | nil => rfl
  | append_singleton bs b ih =>
    rw [lastSet_concat, lastSet_concat, ih]
    cases sets b <;> rfl

/-- What is seen of a state after a fold is what the last entry that sets it has set, or what was
seen before. -/
theorem obs_foldl (step : σ → β → σ) (obs : σ → γ) (sets : β → Option γ)
    (h : ∀ s b, obs (step s b) = (sets b).getD (obs s)) (s : σ) (bs : List β) :
    obs (bs.foldl step s) = (lastSet sets bs).getD (obs s) := by
  induction bs using List.reverseRecOn with
  | nil => rfl
  | append_singleton bs b ih =>
    rw [List.foldl_concat, h, ih, lastSet_concat]
    cases sets b <;> rfl

end LastWrite

/-! ## Dictionaries -/

/-- A dictionary: its items, no key twice. -/
structure Dict (α β : Type) where
  items : List (α × β)
  nodup : (items.map Prod.fst).Nodup

namespace Dict

variable {α β : Type}

def empty : Dict α β := ⟨[], List.nodup_nil⟩

def keys (d : Dict α β) : List α := d.items.map Prod.fst

def values (d : Dict α β) : List β := d.items.map Prod.snd

variable [DecidableEq α]

def get (d : Dict α β) (k : α) : Option β := (d.items.find? fun e => e.1 = k).map Prod.snd

theorem map_fst_replace (items : List (α × β)) (k : α) (v : β) :
    (items.map fun e => if e.1 = k then (k, v) else e).map Prod.fst = items.map Prod.fst := by
  rw [List.map_map]
  refine List.map_congr_left fun e _ => ?_
  simp only [Function.comp_apply]
  split
  · rename_i hkey
    exact hkey.symm
  · rfl

/-- A key that is there keeps its place. -/
def set (d : Dict α β) (k : α) (v : β) : Dict α β :=
  if h : k ∈ d.keys then
    ⟨d.items.map fun e => if e.1 = k then (k, v) else e, by rw [map_fst_replace]; exact d.nodup⟩
  else
    ⟨d.items ++ [(k, v)], by
      rw [List.map_append, List.map_singleton]
      exact d.nodup.append (List.nodup_singleton k)
        (List.disjoint_singleton.mpr h)⟩

def pop (d : Dict α β) (k : α) : Dict α β :=
  ⟨d.items.filter fun e => e.1 ≠ k, (List.filter_sublist.map Prod.fst).nodup d.nodup⟩

/-- The items set one after the other. -/
def ofList (items : List (α × β)) : Dict α β := items.foldl (fun d e => d.set e.1 e.2) empty

theorem mem_items {d : Dict α β} {k : α} {v : β} : (k, v) ∈ d.items ↔ d.get k = some v := by
  rw [get, Option.map_eq_some_iff]
  constructor
  · intro hitem
    obtain ⟨e, he⟩ := Option.isSome_iff_exists.mp
      (List.find?_isSome (p := fun e : α × β => decide (e.1 = k)).mpr ⟨(k, v), hitem, by simp⟩)
    have hkey : e.1 = k := by simpa using List.find?_some he
    have hsame : e = (k, v) :=
      List.inj_on_of_nodup_map d.nodup (List.mem_of_find?_eq_some he) hitem hkey
    exact ⟨e, he, by rw [hsame]⟩
  · rintro ⟨⟨k', v'⟩, hfind, rfl⟩
    have hkey : k' = k := by simpa using List.find?_some hfind
    rw [← hkey]
    exact List.mem_of_find?_eq_some hfind

theorem mem_keys {d : Dict α β} {k : α} : k ∈ d.keys ↔ ∃ v, d.get k = some v := by
  simp only [keys, List.mem_map, ← mem_items]
  constructor
  · rintro ⟨⟨k', v⟩, hitem, rfl⟩
    exact ⟨v, hitem⟩
  · rintro ⟨v, hitem⟩
    exact ⟨(k, v), hitem, rfl⟩

theorem get_eq_none {d : Dict α β} {k : α} : d.get k = none ↔ k ∉ d.keys := by
  rw [mem_keys, Option.eq_none_iff_forall_ne_some]
  simp

theorem mem_values {d : Dict α β} {v : β} : v ∈ d.values ↔ ∃ k, d.get k = some v := by
  simp only [values, List.mem_map, ← mem_items]
  constructor
  · rintro ⟨⟨k, v'⟩, hitem, rfl⟩
    exact ⟨k, hitem⟩
  · rintro ⟨k, hitem⟩
    exact ⟨(k, v), hitem, rfl⟩

@[simp]
theorem get_empty (k : α) : (empty : Dict α β).get k = none := rfl

theorem get_set (d : Dict α β) (k k' : α) (v : β) :
    (d.set k v).get k' = if k' = k then some v else d.get k' := by
  refine Option.ext fun w => ?_
  rw [← mem_items, set]
  split
  · rename_i hmem
    simp only [List.mem_map]
    constructor
    · rintro ⟨⟨k₀, v₀⟩, hitem, heq⟩
      split at heq
      · obtain ⟨rfl, rfl⟩ := Prod.mk.inj heq
        rw [if_pos rfl]
      · rename_i hne
        obtain ⟨rfl, rfl⟩ := Prod.mk.inj heq
        rw [if_neg hne, ← mem_items]
        exact hitem
    · intro hget
      split at hget
      · rename_i hkey
        obtain rfl := Option.some.inj hget
        obtain ⟨v₀, hv₀⟩ := mem_keys.mp hmem
        exact ⟨(k, v₀), mem_items.mpr hv₀, by simp [hkey]⟩
      · rename_i hkey
        exact ⟨(k', w), mem_items.mpr hget, by simp [hkey]⟩
  · rename_i hmem
    simp only [List.mem_append, List.mem_singleton, Prod.mk.injEq, mem_items]
    split
    · rename_i hkey
      rw [hkey, get_eq_none.mpr hmem]
      simp [eq_comm]
    · rename_i hkey
      simp [hkey]

theorem get_pop (d : Dict α β) (k k' : α) :
    (d.pop k).get k' = if k' = k then none else d.get k' := by
  refine Option.ext fun w => ?_
  rw [← mem_items, pop, List.mem_filter, mem_items]
  split <;> simp_all

/-- The last item of a key is the one that is kept. -/
theorem get_ofList (items : List (α × β)) (k : α) :
    (ofList items).get k = lastSet (fun e => if k = e.1 then some e.2 else none) items := by
  induction items using List.reverseRecOn with
  | nil => rfl
  | append_singleton items e ih =>
    have hlast : ofList (items ++ [e]) = (ofList items).set e.1 e.2 := by
      rw [ofList, ofList, List.foldl_concat]
    rw [hlast, get_set, ih, lastSet_concat]
    split <;> rfl

/-- A list that says one thing of each key is the dictionary's. -/
theorem get_ofList_iff {items : List (α × β)}
    (h : ∀ k v v', (k, v) ∈ items → (k, v') ∈ items → v = v') {k : α} {v : β} :
    (ofList items).get k = some v ↔ (k, v) ∈ items := by
  rw [get_ofList]
  constructor
  · intro hlast
    obtain ⟨⟨k', v'⟩, hitem, hset⟩ := exists_of_lastSet_eq_some hlast
    split at hset
    · rename_i hkey
      obtain rfl : k = k' := hkey
      obtain rfl := Option.some.inj hset
      exact hitem
    · exact absurd hset (by simp)
  · intro hitem
    cases hlast : lastSet (fun e => if k = e.1 then some e.2 else none) items with
    | none =>
      have hunset := lastSet_eq_none.mp hlast (k, v) hitem
      exact absurd hunset (by simp)
    | some v' =>
      obtain ⟨⟨k', v''⟩, hitem', hset⟩ := exists_of_lastSet_eq_some hlast
      split at hset
      · rename_i hkey
        obtain rfl : k = k' := hkey
        obtain rfl := Option.some.inj hset
        rw [h k _ _ hitem hitem']
      · exact absurd hset (by simp)

end Dict

end Verity.Foundation
