import Mathlib.Data.List.Basic

/-!
# Texts as bytes

A text read as its UTF-8 bytes. Texts with the same bytes are equal, and a byte below 128
occurs among the bytes of a text exactly where its character does; so a message that joins
texts with such a byte can be taken apart at it.
-/

set_option autoImplicit false

namespace Verity.Foundation

/-- The bytes of a text (`str::as_bytes`). -/
def utf8 (s : List Char) : List UInt8 := s.flatMap String.utf8EncodeChar

theorem utf8_append (s t : List Char) : utf8 (s ++ t) = utf8 s ++ utf8 t := List.flatMap_append

theorem utf8_cons (c : Char) (s : List Char) :
    utf8 (c :: s) = String.utf8EncodeChar c ++ utf8 s := List.flatMap_cons

theorem utf8_injective : Function.Injective utf8 := by
  intro s t h
  have hbytes : (String.ofList s).toByteArray = (String.ofList t).toByteArray := by
    rw [String.toByteArray_ofList, String.toByteArray_ofList]
    exact congrArg List.toByteArray h
  have := String.toByteArray_inj.mp hbytes
  rwa [String.ofList_inj] at this

/-- An ASCII byte of a character's encoding is the character's own. -/
theorem toNat_of_mem_utf8EncodeChar {c : Char} {b : UInt8} (hb : b.toNat < 128)
    (h : b ∈ String.utf8EncodeChar c) : c.toNat = b.toNat := by
  have hval : c.val.toNat = c.toNat := rfl
  -- the bytes of a longer encoding all have their high bit set
  have hhigh : ∀ n, n < 128 → b ≠ UInt8.ofNat (n + 128) := by
    intro n hn heq
    rw [heq, UInt8.toNat_ofNat'] at hb
    omega
  unfold String.utf8EncodeChar at h
  simp only [hval] at h
  split at h
  · rw [List.mem_singleton] at h
    subst h
    rw [UInt8.toNat_ofNat']
    omega
  split at h
  · simp only [List.mem_cons, List.not_mem_nil, or_false] at h
    rcases h with h | h
    · exact absurd h (hhigh (c.toNat / 64 % 32 + 64) (by omega))
    · exact absurd h (hhigh (c.toNat % 64) (by omega))
  split at h
  · simp only [List.mem_cons, List.not_mem_nil, or_false] at h
    rcases h with h | h | h
    · exact absurd h (hhigh (c.toNat / 4096 % 16 + 96) (by omega))
    · exact absurd h (hhigh (c.toNat / 64 % 64) (by omega))
    · exact absurd h (hhigh (c.toNat % 64) (by omega))
  · simp only [List.mem_cons, List.not_mem_nil, or_false] at h
    rcases h with h | h | h | h
    · exact absurd h (hhigh (c.toNat / 262144 % 8 + 112) (by omega))
    · exact absurd h (hhigh (c.toNat / 4096 % 64) (by omega))
    · exact absurd h (hhigh (c.toNat / 64 % 64) (by omega))
    · exact absurd h (hhigh (c.toNat % 64) (by omega))

theorem utf8EncodeChar_ascii {c : Char} (hc : c.toNat < 128) :
    String.utf8EncodeChar c = [UInt8.ofNat c.toNat] := by
  have hval : c.val.toNat = c.toNat := rfl
  unfold String.utf8EncodeChar
  simp only [hval]
  exact if_pos (by omega)

/-- An ASCII byte stands for its character wherever it occurs. -/
theorem mem_utf8_iff {c : Char} (hc : c.toNat < 128) {s : List Char} :
    UInt8.ofNat c.toNat ∈ utf8 s ↔ c ∈ s := by
  have hbyte : (UInt8.ofNat c.toNat).toNat = c.toNat := by
    rw [UInt8.toNat_ofNat']
    omega
  rw [utf8, List.mem_flatMap]
  constructor
  · rintro ⟨d, hd, hmem⟩
    have heq := toNat_of_mem_utf8EncodeChar (by omega) hmem
    rw [hbyte] at heq
    rwa [← Char.toNat_inj.mp heq]
  · intro h
    refine ⟨c, h, ?_⟩
    rw [utf8EncodeChar_ascii hc]
    exact List.mem_singleton_self _

/-- A list is split at the first occurrence of a separator in one way. -/
theorem append_separator_inj {α : Type} {b : α} {xs xs' ys ys' : List α} (hx : b ∉ xs)
    (hx' : b ∉ xs') (h : xs ++ b :: ys = xs' ++ b :: ys') : xs = xs' ∧ ys = ys' := by
  induction xs generalizing xs' with
  | nil =>
    cases xs' with
    | nil =>
      rw [List.nil_append, List.nil_append, List.cons.injEq] at h
      exact ⟨rfl, h.2⟩
    | cons x' xs' =>
      rw [List.nil_append, List.cons_append, List.cons.injEq] at h
      exact absurd (h.1 ▸ List.mem_cons_self) hx'
  | cons x xs ih =>
    rw [List.mem_cons, not_or] at hx
    cases xs' with
    | nil =>
      rw [List.nil_append, List.cons_append, List.cons.injEq] at h
      exact absurd h.1.symm hx.1
    | cons x' xs' =>
      rw [List.mem_cons, not_or] at hx'
      rw [List.cons_append, List.cons_append, List.cons.injEq] at h
      obtain ⟨hxs, hys⟩ := ih hx.2 hx'.2 h.2
      exact ⟨by rw [h.1, hxs], hys⟩

/-- A list is split at the last occurrence of a separator in one way. -/
theorem append_last_separator_inj {α : Type} {b : α} {xs xs' ys ys' : List α} (hy : b ∉ ys)
    (hy' : b ∉ ys') (h : xs ++ b :: ys = xs' ++ b :: ys') : xs = xs' ∧ ys = ys' := by
  have hrev := congrArg List.reverse h
  simp only [List.reverse_append, List.reverse_cons, List.append_assoc,
    List.singleton_append] at hrev
  obtain ⟨hys, hxs⟩ := append_separator_inj (mt List.mem_reverse.mp hy)
    (mt List.mem_reverse.mp hy') hrev
  exact ⟨List.reverse_inj.mp hxs, List.reverse_inj.mp hys⟩

end Verity.Foundation
