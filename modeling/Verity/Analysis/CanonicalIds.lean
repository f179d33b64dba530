import Verity.Analysis.ObjectIds

/-!
# The object ids that are read

`unescape_id` reads more than `escape_id` writes: digits in lower case, a plus sign in front of a
digit, escapes of bytes that need none, and bytes outside the alphabet as they are; and a tenant is
read in either case. An id that is read is the one `object_id` writes exactly when it is spelled
that way (`Canonical`), so ids that are not spelled canonically name a principal a second time.
-/

set_option autoImplicit false

namespace Verity.Analysis

open Verity.Foundation
open Verity.Model

/-! ## Spellings -/

/-- The code of a digit as `escape_id` writes it. -/
def upperHexCode (n : Nat) : UInt8 := UInt8.ofNat (upperHexDigit n).toNat

/-- A text spelled as `escape_id` spells it: each escape has two digits in upper case and is of a
byte that has to be escaped, and each other byte is one that passes through. -/
inductive Canonical : List UInt8 → Prop where
  | nil : Canonical []
  | plain {b : UInt8} {rest : List UInt8} (hb : passesThrough b = true) (hrest : Canonical rest) :
      Canonical (b :: rest)
  | escaped {high low : Nat} {rest : List UInt8} (hhigh : high < 16) (hlow : low < 16)
      (hbyte : passesThrough (UInt8.ofNat (16 * high + low)) = false) (hrest : Canonical rest) :
      Canonical (61 :: upperHexCode high :: upperHexCode low :: rest)

/-- The bytes a text stands for when escapes may have digits in either case, or a sign and a
digit, and other bytes stand for themselves. -/
inductive Spells : List UInt8 → List UInt8 → Prop where
  | nil : Spells [] []
  | plain {b : UInt8} {rest out : List UInt8} (hb : b.toNat ≠ 61) (hrest : Spells rest out) :
      Spells (b :: rest) (b :: out)
  | pair {b h l : UInt8} {high low : Nat} {rest out : List UInt8} (hb : b.toNat = 61)
      (hhigh : hexValue h.toNat = some high) (hlow : hexValue l.toNat = some low)
      (hrest : Spells rest out) :
      Spells (b :: h :: l :: rest) (UInt8.ofNat (16 * high + low) :: out)
  | signed {b h l : UInt8} {low : Nat} {rest out : List UInt8} (hb : b.toNat = 61)
      (hsign : h.toNat = 43) (hlow : hexValue l.toNat = some low) (hrest : Spells rest out) :
      Spells (b :: h :: l :: rest) (UInt8.ofNat low :: out)

theorem fromStrRadix16_eq_some {h l byte : UInt8} :
    fromStrRadix16 h l = some byte ↔
      (h.toNat = 43 ∧ ∃ low, hexValue l.toNat = some low ∧ byte = UInt8.ofNat low) ∨
      ∃ high low, hexValue h.toNat = some high ∧ hexValue l.toNat = some low ∧
        byte = UInt8.ofNat (16 * high + low) := by
  unfold fromStrRadix16
  by_cases hsign : h.toNat = 43
  · have hnone : hexValue 43 = none := by decide
    rw [if_pos hsign, Option.map_eq_some_iff]
    simp only [hsign, hnone, true_and, reduceCtorEq, false_and, exists_false, or_false]
    exact exists_congr fun low => and_congr_right fun _ => eq_comm
  · rw [if_neg hsign]
    simp only [hsign, false_and, false_or, Option.bind_eq_bind, Option.bind_eq_some_iff]
    constructor
    · rintro ⟨high, hhigh, low, hlow, hbyte⟩
      exact ⟨high, low, hhigh, hlow, (Option.some.inj hbyte).symm⟩
    · rintro ⟨high, low, hhigh, hlow, rfl⟩
      exact ⟨high, hhigh, low, hlow, rfl⟩

/-- The decoder reads what is spelled. -/
theorem unescapeBytes_eq_some {esc out : List UInt8} :
    unescapeBytes esc = some out ↔ Spells esc out := by
  constructor
  · intro h
    fun_induction unescapeBytes esc generalizing out with
    | case1 =>
      obtain rfl := Option.some.inj h
      exact Spells.nil
    | case2 b hb h' l rest ih =>
      simp only [Option.bind_eq_bind, Option.bind_eq_some_iff] at h
      obtain ⟨byte, hbyte, out', hout, heq⟩ := h
      obtain rfl := Option.some.inj heq
      rcases fromStrRadix16_eq_some.mp hbyte with ⟨hsign, low, hlow, rfl⟩ |
        ⟨high, low, hhigh, hlow, rfl⟩
      · exact Spells.signed hb hsign hlow (ih hout)
      · exact Spells.pair hb hhigh hlow (ih hout)
    | case3 => exact absurd h (by simp)
    | case4 b rest hb ih =>
      obtain ⟨out', hout, rfl⟩ := Option.map_eq_some_iff.mp h
      exact Spells.plain hb (ih hout)
  · intro h
    induction h with
    | nil => rfl
    | plain hb hrest ih => rw [unescapeBytes_plain hb, ih]; rfl
    | @pair b h l high low rest out hb hhigh hlow hrest ih =>
      have hpair := fromStrRadix16_eq_some.mpr (Or.inr ⟨high, low, hhigh, hlow, rfl⟩)
      rw [unescapeBytes_pair hb hpair, ih]
      rfl
    | @signed b h l low rest out hb hsign hlow hrest ih =>
      have hpair := fromStrRadix16_eq_some.mpr (Or.inl ⟨hsign, low, hlow, rfl⟩)
      rw [unescapeBytes_pair hb hpair, ih]
      rfl

theorem utf8_escapeByte (b : UInt8) :
    utf8 (escapeByte b) =
      if passesThrough b then [b]
      else [61, upperHexCode (b.toNat / 16), upperHexCode (b.toNat % 16)] := by
  rw [utf8_of_ascii (escapeByte_ascii b)]
  unfold escapeByte
  split
  · next h =>
      rw [List.map_singleton, toNat_charOfByte (passesThrough_ascii h).1, UInt8.ofNat_toNat]
  · rfl

/-- What is spelled canonically is what `escape_id` writes. -/
theorem canonical_iff {esc : List UInt8} :
    Canonical esc ↔ ∃ bytes : List UInt8, esc = utf8 (bytes.flatMap escapeByte) := by
  constructor
  · intro h
    induction h with
    | nil => exact ⟨[], rfl⟩
    | @plain b rest hb hrest ih =>
      obtain ⟨bytes, rfl⟩ := ih
      refine ⟨b :: bytes, ?_⟩
      rw [List.flatMap_cons, utf8_append, utf8_escapeByte, if_pos hb]
      rfl
    | @escaped high low rest hhigh hlow hbyte hrest ih =>
      obtain ⟨bytes, rfl⟩ := ih
      have htoNat : (UInt8.ofNat (16 * high + low)).toNat = 16 * high + low := by
        rw [UInt8.toNat_ofNat']
        omega
      have hdiv : (16 * high + low) / 16 = high := by omega
      have hmod : (16 * high + low) % 16 = low := by omega
      refine ⟨UInt8.ofNat (16 * high + low) :: bytes, ?_⟩
      rw [List.flatMap_cons, utf8_append, utf8_escapeByte, hbyte, htoNat, hdiv, hmod]
      rfl
  · rintro ⟨bytes, rfl⟩
    induction bytes with
    | nil => exact Canonical.nil
    | cons b bytes ih =>
      rw [List.flatMap_cons, utf8_append, utf8_escapeByte]
      by_cases hb : passesThrough b = true
      · rw [if_pos hb]
        exact Canonical.plain hb ih
      · rw [if_neg hb]
        refine Canonical.escaped (high_lt b) (low_lt b) ?_ ih
        rw [ofNat_digits]
        exact Bool.not_eq_true _ ▸ hb

theorem escapeId_of_canonical {rest name : String} (hname : unescapeId rest = some name)
    (h : Canonical (utf8 rest.toList)) : rest = escapeId name := by
  rw [canonical_iff] at h
  obtain ⟨bytes, hbytes⟩ := h
  rw [unescapeId_eq_some, hbytes, unescapeBytes_escape] at hname
  obtain rfl := Option.some.inj hname
  have hchars := utf8_injective hbytes
  rw [← String.ofList_toList (s := rest), hchars]
  rfl

theorem canonical_escapeId (name : String) : Canonical (utf8 (escapeId name).toList) := by
  rw [escapeId, String.toList_ofList, canonical_iff]
  exact ⟨_, rfl⟩

theorem spells_iff {rest name : String} :
    unescapeId rest = some name ↔ Spells (utf8 rest.toList) (utf8 name.toList) := by
  rw [unescapeId_eq_some, unescapeBytes_eq_some]

/-! ## Tenants in either case -/

theorem hexValue_of_ge {n : Nat} (h : 128 ≤ n) : hexValue n = none := by
  unfold hexValue
  rw [if_neg (by omega), if_neg (by omega), if_neg (by omega)]

theorem hexValue_asciiLower (c : Char) : hexValue (asciiLower c).toNat = hexValue c.toNat :=
  char_forall (P := fun c => hexValue (asciiLower c).toNat = hexValue c.toNat) (by decide +kernel)
    (fun c hc => by rw [asciiLower_of_ge hc]) c

/-- A digit in lower case is the one that `Display` writes. -/
theorem asciiLower_of_hexValue {c : Char} {n : Nat} (h : hexValue c.toNat = some n) :
    asciiLower c = hexDigit n ∧ n < 16 := by
  have hall : ∀ v ∈ hexValue c.toNat, asciiLower c = hexDigit v ∧ v < 16 :=
    char_forall (P := fun c => ∀ v ∈ hexValue c.toNat, asciiLower c = hexDigit v ∧ v < 16)
      (by decide +kernel) (fun c hc v hv => by
        rw [hexValue_of_ge hc] at hv
        exact absurd hv (by simp)) c
  exact hall n h

theorem asciiLower_eq_hyphen {c : Char} : asciiLower c = '-' ↔ c = '-' :=
  char_forall (P := fun c => asciiLower c = '-' ↔ c = '-') (by decide +kernel)
    (fun c hc => by rw [asciiLower_of_ge hc]) c

theorem utf8Size_asciiLower (c : Char) : (asciiLower c).utf8Size = c.utf8Size :=
  char_forall (P := fun c => (asciiLower c).utf8Size = c.utf8Size) (by decide +kernel)
    (fun c hc => by rw [asciiLower_of_ge hc]) c

theorem byteLen_map_asciiLower (cs : List Char) : byteLen (cs.map asciiLower) = byteLen cs := by
  induction cs with
  | nil => rfl
  | cons c cs ih => rw [List.map_cons, byteLen_cons, byteLen_cons, ih, utf8Size_asciiLower]

theorem hexByte_ofNat {high low : Nat} (hhigh : high < 16) (hlow : low < 16) :
    hexByte (UInt8.ofNat (16 * high + low)) = [hexDigit high, hexDigit low] := by
  have htoNat : (UInt8.ofNat (16 * high + low)).toNat = 16 * high + low := by
    rw [UInt8.toNat_ofNat']
    omega
  have hdiv : (16 * high + low) / 16 = high := by omega
  have hmod : (16 * high + low) % 16 = low := by omega
  unfold hexByte
  rw [htoNat, hdiv, hmod]

/-- What is read as bytes is their digits, but for the case. -/
theorem readBytes_eq_some {n : Nat} {s rest : List Char} {bytes : List UInt8}
    (h : Uuid.readBytes n s = some (bytes, rest)) :
    bytes.length = n ∧
      s.map asciiLower = bytes.flatMap hexByte ++ rest.map asciiLower := by
  fun_induction Uuid.readBytes n s generalizing bytes rest with
  | case1 n h' l s ih =>
    simp only [Option.bind_eq_bind, Option.bind_eq_some_iff] at h
    obtain ⟨high, hhigh, low, hlow, ⟨bytes', rest'⟩, hread, heq⟩ := h
    obtain ⟨rfl, rfl⟩ := Prod.mk.inj (Option.some.inj heq)
    obtain ⟨hlen, hdigits⟩ := ih hread
    obtain ⟨hhigh', hhighlt⟩ := asciiLower_of_hexValue hhigh
    obtain ⟨hlow', hlowlt⟩ := asciiLower_of_hexValue hlow
    refine ⟨congrArg (· + 1) hlen, ?_⟩
    rw [List.map_cons, List.map_cons, hdigits, hhigh', hlow', List.flatMap_cons,
      hexByte_ofNat hhighlt hlowlt]
    rfl
  | case2 s =>
    obtain ⟨rfl, rfl⟩ := Prod.mk.inj (Option.some.inj h)
    exact ⟨rfl, rfl⟩
  | case3 => exact absurd h (by simp)

theorem readBytes_asciiLower (n : Nat) (s : List Char) :
    Uuid.readBytes n (s.map asciiLower) =
      (Uuid.readBytes n s).map fun read => (read.1, read.2.map asciiLower) := by
  fun_induction Uuid.readBytes n s with
  | case1 n h l s ih =>
    simp only [List.map_cons, Uuid.readBytes, hexValue_asciiLower, ih]
    cases hexValue h.toNat with
    | none => rfl
    | some high =>
      cases hexValue l.toNat with
      | none => rfl
      | some low => cases Uuid.readBytes n s <;> rfl
  | case2 s => cases s <;> rfl
  | case3 n s hshort =>
    rcases s with _ | ⟨h, _ | ⟨l, s⟩⟩
    · rfl
    · rfl
    · exact absurd rfl (hshort h l s)

theorem readHyphen_eq_some {s rest : List Char} :
    Uuid.readHyphen s = some rest ↔ s = '-' :: rest := by
  unfold Uuid.readHyphen
  split
  · next rest' => simp
  · next hne => simpa using fun h => hne rest h

theorem readHyphen_asciiLower (s : List Char) :
    Uuid.readHyphen (s.map asciiLower) = (Uuid.readHyphen s).map (List.map asciiLower) := by
  cases s with
  | nil => rfl
  | cons c s =>
    by_cases hc : c = '-'
    · subst hc
      rfl
    · have hleft : Uuid.readHyphen ((c :: s).map asciiLower) = none := by
        rw [Option.eq_none_iff_forall_ne_some]
        intro rest h
        rw [readHyphen_eq_some, List.map_cons, List.cons.injEq, asciiLower_eq_hyphen] at h
        exact hc h.1
      have hright : Uuid.readHyphen (c :: s) = none := by
        rw [Option.eq_none_iff_forall_ne_some]
        intro rest h
        rw [readHyphen_eq_some, List.cons.injEq] at h
        exact hc h.1
      rw [hleft, hright]
      rfl

theorem parse_asciiLower (s : List Char) : Uuid.parse (s.map asciiLower) = Uuid.parse s := by
  unfold Uuid.parse
  simp only [readBytes_asciiLower, readHyphen_asciiLower, Option.bind_eq_bind, Option.bind_map,
    Function.comp_def, List.map_eq_nil_iff]

/-- The text of bytes in the five groups. -/
theorem text_of_groups {u : Uuid} {a b c d e : List UInt8}
    (hu : u.bytes = a ++ (b ++ (c ++ (d ++ e)))) (ha : a.length = 4) (hb : b.length = 2)
    (hc : c.length = 2) (hd : d.length = 2) :
    u.text = a.flatMap hexByte ++ '-' :: (b.flatMap hexByte ++ '-' :: (c.flatMap hexByte ++ '-' ::
      (d.flatMap hexByte ++ '-' :: e.flatMap hexByte))) := by
  have h4 : u.bytes.drop 4 = b ++ (c ++ (d ++ e)) := by
    rw [hu]
    exact List.drop_left' ha
  have h6 : (u.bytes.drop 4).drop 2 = c ++ (d ++ e) := by
    rw [h4]
    exact List.drop_left' hb
  rw [List.drop_drop] at h6
  have h8 : (u.bytes.drop 6).drop 2 = d ++ e := by
    rw [h6]
    exact List.drop_left' hc
  rw [List.drop_drop] at h8
  have h10 : (u.bytes.drop 8).drop 2 = e := by
    rw [h8]
    exact List.drop_left' hd
  rw [List.drop_drop] at h10
  unfold Uuid.text
  rw [h4, h6, h8, h10, hu, List.take_left' ha, List.take_left' hb, List.take_left' hc,
    List.take_left' hd]

/-- A tenant is read from its text in either case. -/
theorem parse_eq_some {s : List Char} {u : Uuid} :
    Uuid.parse s = some u ↔ s.map asciiLower = u.text := by
  constructor
  · intro h
    unfold Uuid.parse at h
    simp only [Option.bind_eq_bind, Option.bind_eq_some_iff, readHyphen_eq_some, Prod.exists] at h
    obtain ⟨a, s₁, ha, _, rfl, b, s₂, hb, _, rfl, c, s₃, hc, _, rfl, d, s₄, hd, _, rfl, e, s₅, he,
      h⟩ := h
    obtain ⟨hlen, rfl⟩ : (a ++ (b ++ (c ++ (d ++ e)))).length = 16 ∧ s₅ = [] := by
      by_contra hno
      rw [dif_neg hno] at h
      exact absurd h (by simp)
    rw [dif_pos ⟨hlen, rfl⟩] at h
    obtain rfl := Option.some.inj h
    obtain ⟨ha, hsa⟩ := readBytes_eq_some ha
    obtain ⟨hb, hsb⟩ := readBytes_eq_some hb
    obtain ⟨hc, hsc⟩ := readBytes_eq_some hc
    obtain ⟨hd, hsd⟩ := readBytes_eq_some hd
    obtain ⟨he, hse⟩ := readBytes_eq_some he
    have hhyphen : asciiLower '-' = '-' := by decide
    rw [text_of_groups rfl ha hb hc hd, hsa, List.map_cons, hsb, List.map_cons, hsc, List.map_cons,
      hsd, List.map_cons, hse, hhyphen, List.map_nil, List.append_nil]
  · intro h
    rw [← parse_asciiLower, h, parse_text]

/-! ## The ids that are read -/

/-- No text is spelled, or it is spelled canonically. -/
def CanonicalOrUnread (rest : String) : Prop :=
  Canonical (utf8 rest.toList) ∨ ∀ name : String, ¬ Spells (utf8 rest.toList) (utf8 name.toList)

theorem canonicalOrUnread_iff {rest : String} :
    CanonicalOrUnread rest ↔ ∀ name, unescapeId rest = some name → rest = escapeId name := by
  constructor
  · rintro (hcanonical | hunread) name hname
    · exact escapeId_of_canonical hname hcanonical
    · rw [spells_iff] at hname
      exact absurd hname (hunread name)
  · intro h
    by_cases hread : ∃ name, unescapeId rest = some name
    · obtain ⟨name, hname⟩ := hread
      rw [h name hname]
      exact Or.inl (canonical_escapeId name)
    · refine Or.inr fun name hspells => ?_
      rw [← spells_iff] at hspells
      exact hread ⟨name, hspells⟩

theorem parseObjectId_canonical_iff {tenant : Uuid} {oid : String} :
    (∀ name, parseObjectId tenant oid = some name → oid = objectId tenant name) ↔
      ∀ rest : String, oid.toList = tenant.text ++ '_' :: rest.toList → CanonicalOrUnread rest := by
  constructor
  · intro h rest hoid
    rw [canonicalOrUnread_iff]
    intro name hname
    have hread : oid = objectId tenant name := by
      apply h
      rw [parseObjectId_eq_some]
      exact ⟨rest, hoid, hname⟩
    rw [hread, objectId_toList, List.append_cancel_left_eq, List.cons_eq_cons] at hoid
    exact (String.toList_inj.mp hoid.2).symm
  · intro h name hread
    rw [parseObjectId_eq_some] at hread
    obtain ⟨rest, hoid, hname⟩ := hread
    have hcanonical := h rest hoid
    rw [canonicalOrUnread_iff] at hcanonical
    rw [← String.toList_inj, objectId_toList, hoid, hcanonical name hname]

/-- What is read without knowing the tenant: the tenant's text has to be in lower case besides. -/
theorem parseAnyObjectId_canonical_iff {oid : String} :
    (∀ tenant name, parseAnyObjectId oid = some (tenant, name) → oid = objectId tenant name) ↔
      ∀ (tenant : Uuid) (head : List Char) (rest : String),
        oid.toList = head ++ '_' :: rest.toList → head.map asciiLower = tenant.text →
        (head.map asciiLower = head ∧ Canonical (utf8 rest.toList)) ∨
          ∀ name : String, ¬ Spells (utf8 rest.toList) (utf8 name.toList) := by
  constructor
  · intro h tenant head rest hoid hhead
    by_cases hspelled : ∃ name : String, Spells (utf8 rest.toList) (utf8 name.toList)
    · obtain ⟨name, hspells⟩ := hspelled
      have hlen : byteLen head = 36 := by
        rw [← byteLen_map_asciiLower, hhead, byteLen_uuid_text]
      have hread : oid = objectId tenant name := by
        apply h
        rw [parseAnyObjectId_eq_some]
        refine ⟨head, rest, hoid, hlen, ?_, ?_⟩
        · rw [parse_eq_some]
          exact hhead
        · rw [spells_iff]
          exact hspells
      have hsame : head.length = tenant.text.length := by rw [← hhead, List.length_map]
      rw [hread, objectId_toList] at hoid
      obtain ⟨rfl, hrest⟩ := List.append_inj hoid.symm hsame
      rw [← String.toList_inj.mp (List.cons.inj hrest).2.symm]
      exact Or.inl ⟨hhead, canonical_escapeId name⟩
    · exact Or.inr fun name hspells => hspelled ⟨name, hspells⟩
  · intro h tenant name hread
    rw [parseAnyObjectId_eq_some] at hread
    obtain ⟨head, rest, hoid, hlen, htenant, hname⟩ := hread
    have hhead : head.map asciiLower = tenant.text := by rwa [parse_eq_some] at htenant
    rcases h tenant head rest hoid hhead with ⟨hlower, hcanonical⟩ | hunread
    · rw [← String.toList_inj, objectId_toList, hoid, ← hhead, hlower,
        escapeId_of_canonical hname hcanonical]
    · rw [spells_iff] at hname
      exact absurd hname (hunread name)

/-- An id that is read is the one that is written exactly when it is spelled canonically. -/
theorem read_canonical_iff (tenant : Uuid) (oid : String) :
    ((∀ name, parseObjectId tenant oid = some name → oid = objectId tenant name) ↔
      ∀ rest : String, oid.toList = tenant.text ++ '_' :: rest.toList →
        CanonicalOrUnread rest) ∧
    ((∀ tenant name, parseAnyObjectId oid = some (tenant, name) →
        oid = objectId tenant name) ↔
      ∀ (tenant : Uuid) (head : List Char) (rest : String),
        oid.toList = head ++ '_' :: rest.toList → head.map asciiLower = tenant.text →
        (head.map asciiLower = head ∧ Canonical (utf8 rest.toList)) ∨
          ∀ name : String, ¬ Spells (utf8 rest.toList) (utf8 name.toList)) :=
  ⟨parseObjectId_canonical_iff, parseAnyObjectId_canonical_iff⟩

/-- A tenant. -/
def salesTenant : Uuid where
  bytes := [85, 14, 132, 0, 226, 155, 65, 212, 167, 22, 68, 102, 85, 68, 0, 0]
  length_bytes := rfl

/-- The digits of an escape in lower case, and a sign for a digit: each id is read as the name of
another one. -/
theorem second_spelling :
    let oid := "550e8400-e29b-41d4-a716-446655440000_a=3db"
    let signed := "550e8400-e29b-41d4-a716-446655440000_a=+A"
    parseObjectId salesTenant oid = some "a=b" ∧
      parseObjectId salesTenant (objectId salesTenant "a=b") = some "a=b" ∧
      oid ≠ objectId salesTenant "a=b" ∧
      parseAnyObjectId signed = some (salesTenant, "a\n") ∧
      signed ≠ objectId salesTenant "a\n" := by
  refine ⟨?_, parseObjectId_objectId _ _, by decide, ?_, by decide⟩
  · exact parseObjectId_eq_some.mpr ⟨"a=3db", by decide, unescapeId_eq_some.mpr (by decide)⟩
  · refine parseAnyObjectId_eq_some.mpr ⟨salesTenant.text, "a=+A", by decide, by decide, ?_,
      unescapeId_eq_some.mpr (by decide)⟩
    exact parse_text salesTenant

end Verity.Analysis
