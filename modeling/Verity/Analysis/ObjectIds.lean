import Verity.Analysis.SigningDomains
import Verity.Analysis.TextSplit
import Verity.Model.ObjectIds

/-!
# Object ids as a code

An object id is read back as the tenant and the name it was made of (`parseObjectId_objectId`,
`parseAnyObjectId_objectId`), so that different pairs have different ids; every byte of a name is
read back from its own piece of the id, and a tenant's text has a fixed length.
-/

set_option autoImplicit false

namespace Verity.Analysis

open Verity.Foundation
open Verity.Model

variable {n : Nat} {b : UInt8} {name : String} {tenant : Uuid}

/-! ## Texts of bytes -/

theorem toByteArray_eq (s : String) : s.toByteArray = (utf8 s.toList).toByteArray := by
  have h : (String.ofList s.toList).toByteArray = s.toList.utf8Encode := String.toByteArray_ofList
  rw [String.ofList_toList] at h
  exact h

theorem toByteArray_injective : Function.Injective List.toByteArray := by
  intro xs ys h
  have hdata := congrArg (fun b => b.data.toList) h
  simpa using hdata

theorem fromUTF8_eq_some {bytes : List UInt8} {s : String} :
    String.fromUTF8? bytes.toByteArray = some s ↔ bytes = utf8 s.toList := by
  unfold String.fromUTF8?
  constructor
  · intro h
    split at h
    · next hvalid =>
      obtain rfl := Option.some.inj h
      have h := toByteArray_eq (String.fromUTF8 bytes.toByteArray hvalid)
      exact toByteArray_injective h
    · exact absurd h (by simp)
  · rintro rfl
    have hvalid : (utf8 s.toList).toByteArray.IsValidUTF8 := by
      rw [← toByteArray_eq]
      exact s.isValidUTF8
    rw [dif_pos hvalid]
    congr 1
    apply String.toByteArray_inj.mp
    exact (toByteArray_eq s).symm

theorem utf8_of_ascii {cs : List Char} (h : ∀ c ∈ cs, c.toNat < 128) :
    utf8 cs = cs.map fun c => UInt8.ofNat c.toNat := by
  induction cs with
  | nil => rfl
  | cons c cs ih =>
    rw [List.forall_mem_cons] at h
    rw [utf8_cons, utf8EncodeChar_ascii h.1, ih h.2]
    rfl

/-! ## Tenants -/

theorem hexValue_hexDigit (hn : n < 16) : hexValue (hexDigit n).toNat = some n := by
  have hall : ∀ n : Fin 16, hexValue (hexDigit n).toNat = some n.1 := by decide
  exact hall ⟨n, hn⟩

theorem hexValue_upperHexDigit (hn : n < 16) : hexValue (upperHexDigit n).toNat = some n := by
  have hall : ∀ n : Fin 16, hexValue (upperHexDigit n).toNat = some n.1 := by decide
  exact hall ⟨n, hn⟩

theorem high_lt (b : UInt8) : b.toNat / 16 < 16 := by
  have := b.toNat_lt
  omega

theorem low_lt (b : UInt8) : b.toNat % 16 < 16 := Nat.mod_lt _ (by decide)

/-- A byte is read from its two digits. -/
theorem ofNat_digits (b : UInt8) : UInt8.ofNat (16 * (b.toNat / 16) + b.toNat % 16) = b := by
  rw [Nat.div_add_mod]
  exact UInt8.ofNat_toNat

theorem readBytes_append (bytes : List UInt8) (rest : List Char) :
    Uuid.readBytes bytes.length (bytes.flatMap hexByte ++ rest) = some (bytes, rest) := by
  induction bytes with
  | nil => cases rest <;> rfl
  | cons b bytes ih =>
    rw [List.flatMap_cons, List.length_cons]
    simp only [hexByte, List.cons_append, List.nil_append, Uuid.readBytes,
      hexValue_hexDigit (high_lt b), hexValue_hexDigit (low_lt b), Option.bind_eq_bind,
      Option.bind_some, ih, ofNat_digits]
    rfl

/-- A tenant is read from its text. -/
theorem parse_text (u : Uuid) : Uuid.parse u.text = some u := by
  have hlen := u.length_bytes
  have hread : ∀ n bytes rest, bytes.length = n →
      Uuid.readBytes n (List.flatMap hexByte bytes ++ rest) = some (bytes, rest) := by
    rintro _ bytes rest rfl
    exact readBytes_append bytes rest
  unfold Uuid.parse Uuid.text
  rw [hread 4 (u.bytes.take 4) _ (by rw [List.length_take]; omega)]
  simp only [Option.bind_eq_bind, Option.bind_some, Uuid.readHyphen]
  rw [hread 2 ((u.bytes.drop 4).take 2) _ (by rw [List.length_take, List.length_drop]; omega)]
  simp only [Option.bind_some]
  rw [hread 2 ((u.bytes.drop 6).take 2) _ (by rw [List.length_take, List.length_drop]; omega)]
  simp only [Option.bind_some]
  rw [hread 2 ((u.bytes.drop 8).take 2) _ (by rw [List.length_take, List.length_drop]; omega)]
  simp only [Option.bind_some]
  have hlast := hread 6 (u.bytes.drop 10) [] (by rw [List.length_drop]; omega)
  rw [List.append_nil] at hlast
  rw [hlast]
  simp only [Option.bind_some, ← uuid_groups, hlen, and_self, dif_pos]

/-- The characters of a tenant's text. -/
theorem mem_uuid_text {u : Uuid} {c : Char} (h : c ∈ u.text) :
    c = '-' ∨ ∃ n < 16, c = hexDigit n := by
  have hbytes : ∀ bytes : List UInt8, c ∈ bytes.flatMap hexByte → ∃ n < 16, c = hexDigit n := by
    intro bytes hc
    obtain ⟨b, -, hb⟩ := List.mem_flatMap.mp hc
    simp only [hexByte, List.mem_cons, List.not_mem_nil, or_false] at hb
    rcases hb with rfl | rfl
    · exact ⟨_, high_lt b, rfl⟩
    · exact ⟨_, low_lt b, rfl⟩
  unfold Uuid.text at h
  simp only [List.mem_append, List.mem_cons] at h
  rcases h with h | h | h | h | h | h | h | h | h
  all_goals first
    | exact Or.inl h
    | exact Or.inr (hbytes _ h)

theorem byteLen_of_ascii {cs : List Char} (h : ∀ c ∈ cs, c.toNat < 128) :
    byteLen cs = cs.length := by
  induction cs with
  | nil => rfl
  | cons c cs ih =>
    rw [List.forall_mem_cons] at h
    rw [byteLen_cons, ih h.2, List.length_cons]
    have hlen := congrArg List.length (utf8EncodeChar_ascii h.1)
    rw [String.length_utf8EncodeChar, List.length_singleton] at hlen
    omega

theorem hexDigit_lt (hn : n < 16) : (hexDigit n).toNat < 128 := by
  have hall : ∀ n : Fin 16, (hexDigit n).toNat < 128 := by decide
  exact hall ⟨n, hn⟩

theorem uuid_text_ascii (u : Uuid) : ∀ c ∈ u.text, c.toNat < 128 := by
  intro c hc
  rcases mem_uuid_text hc with rfl | ⟨n, hn, rfl⟩
  · decide
  · exact hexDigit_lt hn

/-! ## Names -/

theorem passesThrough_ascii (h : passesThrough b = true) : b.toNat < 128 ∧ b.toNat ≠ 61 := by
  simp only [passesThrough, Bool.or_eq_true, Bool.and_eq_true, decide_eq_true_eq, beq_iff_eq] at h
  omega

theorem upperHexDigit_ascii (hn : n < 16) :
    (upperHexDigit n).toNat < 128 ∧ (upperHexDigit n).toNat ≠ 43 := by
  have hall : ∀ n : Fin 16, (upperHexDigit n).toNat < 128 ∧ (upperHexDigit n).toNat ≠ 43 := by
    decide
  exact hall ⟨n, hn⟩

theorem toNat_charOfByte (h : b.toNat < 128) : (Char.ofNat b.toNat).toNat = b.toNat := by
  have hall : ∀ n : Fin 128, (Char.ofNat n).toNat = n := by decide
  exact hall ⟨b.toNat, h⟩

theorem escapeByte_ascii (b : UInt8) : ∀ c ∈ escapeByte b, c.toNat < 128 := by
  unfold escapeByte
  split
  · next h =>
      rw [List.forall_mem_singleton, toNat_charOfByte (passesThrough_ascii h).1]
      exact (passesThrough_ascii h).1
  · simp only [List.forall_mem_cons]
    exact ⟨by decide, (upperHexDigit_ascii (high_lt b)).1, (upperHexDigit_ascii (low_lt b)).1,
      by simp⟩

theorem unescapeBytes_plain (h : b.toNat ≠ 61) (rest : List UInt8) :
    unescapeBytes (b :: rest) = (unescapeBytes rest).map (b :: ·) := by
  rw [unescapeBytes.eq_def]
  exact if_neg h

theorem unescapeBytes_pair {h l byte : UInt8} (hb : b.toNat = 61)
    (hpair : fromStrRadix16 h l = some byte) (rest : List UInt8) :
    unescapeBytes (b :: h :: l :: rest) = (unescapeBytes rest).map (byte :: ·) := by
  rw [unescapeBytes, if_pos hb]
  simp only [hpair, Option.bind_eq_bind, Option.bind_some]
  cases unescapeBytes rest <;> rfl

/-- A byte is read back from its own piece of the text. -/
theorem unescapeBytes_escapeByte (b : UInt8) (rest : List UInt8) :
    unescapeBytes (utf8 (escapeByte b) ++ rest) = (unescapeBytes rest).map (b :: ·) := by
  rw [utf8_of_ascii (escapeByte_ascii b)]
  unfold escapeByte
  split
  · next h =>
      obtain ⟨hascii, hne⟩ := passesThrough_ascii h
      rw [List.map_singleton, toNat_charOfByte hascii, List.singleton_append, UInt8.ofNat_toNat,
        unescapeBytes_plain hne]
  · have hdigit : ∀ n < 16, (UInt8.ofNat (upperHexDigit n).toNat).toNat =
        (upperHexDigit n).toNat := by
      intro n hn
      have := (upperHexDigit_ascii hn).1
      rw [UInt8.toNat_ofNat']
      omega
    have hpair : fromStrRadix16 (UInt8.ofNat (upperHexDigit (b.toNat / 16)).toNat)
        (UInt8.ofNat (upperHexDigit (b.toNat % 16)).toNat) = some b := by
      unfold fromStrRadix16
      rw [hdigit _ (high_lt b), hdigit _ (low_lt b),
        if_neg (upperHexDigit_ascii (high_lt b)).2, hexValue_upperHexDigit (high_lt b),
        hexValue_upperHexDigit (low_lt b)]
      simp only [Option.bind_eq_bind, Option.bind_some, ofNat_digits]
      rfl
    simp only [List.map_cons, List.map_nil, List.cons_append, List.nil_append]
    exact unescapeBytes_pair (by decide) hpair rest

theorem unescapeBytes_escape (bytes : List UInt8) :
    unescapeBytes (utf8 (bytes.flatMap escapeByte)) = some bytes := by
  induction bytes with
  | nil => rfl
  | cons b bytes ih => rw [List.flatMap_cons, utf8_append, unescapeBytes_escapeByte, ih]; rfl

theorem unescapeId_eq_some {esc : String} :
    unescapeId esc = some name ↔ unescapeBytes (utf8 esc.toList) = some (utf8 name.toList) := by
  unfold unescapeId
  rw [Option.bind_eq_some_iff]
  constructor
  · rintro ⟨out, hout, hname⟩
    rw [hout, fromUTF8_eq_some.mp hname]
  · intro h
    exact ⟨_, h, fromUTF8_eq_some.mpr rfl⟩

theorem unescapeId_escapeId (name : String) : unescapeId (escapeId name) = some name := by
  rw [unescapeId_eq_some, escapeId, String.toList_ofList]
  exact unescapeBytes_escape _

/-! ## Object ids -/

theorem objectId_toList (tenant : Uuid) (name : String) :
    (objectId tenant name).toList = tenant.text ++ '_' :: (escapeId name).toList :=
  String.toList_ofList

theorem parseObjectId_eq_some {oid : String} :
    parseObjectId tenant oid = some name ↔
      ∃ rest : String, oid.toList = tenant.text ++ '_' :: rest.toList ∧
        unescapeId rest = some name := by
  unfold parseObjectId
  simp only [Option.bind_eq_bind, Option.bind_eq_some_iff, stripStart_eq_some,
    String.toList_ofList, List.append_assoc, List.singleton_append]

theorem parseAnyObjectId_eq_some {oid : String} :
    parseAnyObjectId oid = some (tenant, name) ↔
      ∃ (head : List Char) (rest : String), oid.toList = head ++ '_' :: rest.toList ∧
        byteLen head = 36 ∧ Uuid.parse head = some tenant ∧ unescapeId rest = some name := by
  unfold parseAnyObjectId
  simp only [Option.bind_eq_bind, Option.bind_eq_some_iff, stripStart_eq_some,
    String.toList_ofList]
  constructor
  · rintro ⟨⟨head, tail⟩, hcut, tenant', htenant, rest, hrest, name', hname, heq⟩
    obtain ⟨rfl, rfl⟩ := Prod.mk.inj (Option.some.inj heq)
    obtain ⟨hoid, hlen⟩ := sliceAt_eq_some.mp hcut
    refine ⟨head, rest, ?_, hlen, htenant, hname⟩
    rw [hoid]
    exact congrArg (head ++ ·) hrest
  · rintro ⟨head, rest, hoid, hlen, htenant, hname⟩
    exact ⟨(head, '_' :: rest.toList), sliceAt_eq_some.mpr ⟨hoid, hlen⟩, tenant, htenant, rest,
      rfl, name, hname, rfl⟩

theorem parseObjectId_objectId (tenant : Uuid) (name : String) :
    parseObjectId tenant (objectId tenant name) = some name :=
  parseObjectId_eq_some.mpr ⟨escapeId name, objectId_toList tenant name, unescapeId_escapeId name⟩

theorem byteLen_uuid_text (tenant : Uuid) : byteLen tenant.text = 36 := by
  rw [byteLen_of_ascii (uuid_text_ascii tenant), length_uuid_text]

theorem parseAnyObjectId_objectId (tenant : Uuid) (name : String) :
    parseAnyObjectId (objectId tenant name) = some (tenant, name) :=
  parseAnyObjectId_eq_some.mpr ⟨tenant.text, escapeId name, objectId_toList tenant name,
    byteLen_uuid_text tenant, parse_text tenant, unescapeId_escapeId name⟩

/-- Texts of tenants have one length. -/
theorem tenant_of_append {tenant' : Uuid} {rest rest' : List Char}
    (h : tenant.text ++ rest = tenant'.text ++ rest') : tenant = tenant' ∧ rest = rest' := by
  have hlen : tenant.text.length = tenant'.text.length := by
    rw [length_uuid_text, length_uuid_text]
  obtain ⟨htenant, hrest⟩ := List.append_inj h hlen
  exact ⟨uuid_text_injective htenant, hrest⟩

theorem parseObjectId_of_ne {tenant' : Uuid} (hne : tenant ≠ tenant') (name : String) :
    parseObjectId tenant' (objectId tenant name) = none := by
  rw [Option.eq_none_iff_forall_ne_some]
  intro other h
  obtain ⟨rest, hrest, -⟩ := parseObjectId_eq_some.mp h
  rw [objectId_toList] at hrest
  exact hne (tenant_of_append hrest).1

theorem passesThrough_char (h : passesThrough b = true) :
    (Char.ofNat b.toNat).isAlphanum = true ∨ Char.ofNat b.toNat = '_' ∨
      Char.ofNat b.toNat = '-' := by
  have hall : ∀ n : Fin 128, passesThrough (UInt8.ofNat n) = true →
      (Char.ofNat n).isAlphanum = true ∨ Char.ofNat n = '_' ∨ Char.ofNat n = '-' := by
    decide
  have hb := hall ⟨b.toNat, (passesThrough_ascii h).1⟩
  rw [UInt8.ofNat_toNat] at hb
  exact hb h

/-- The alphabet of object ids. -/
theorem mem_objectId {c : Char} (h : c ∈ (objectId tenant name).toList) :
    c.isAlphanum = true ∨ c = '_' ∨ c = '-' ∨ c = '=' := by
  have hlower : ∀ n : Fin 16, (hexDigit n).isAlphanum = true := by decide
  have hupper : ∀ n : Fin 16, (upperHexDigit n).isAlphanum = true := by decide
  rw [objectId_toList, List.mem_append, List.mem_cons, escapeId, String.toList_ofList,
    List.mem_flatMap] at h
  rcases h with htenant | rfl | ⟨b, -, hb⟩
  · rcases mem_uuid_text htenant with rfl | ⟨n, hn, rfl⟩
    · exact Or.inr (Or.inr (Or.inl rfl))
    · exact Or.inl (hlower ⟨n, hn⟩)
  · exact Or.inr (Or.inl rfl)
  · unfold escapeByte at hb
    split at hb
    · next hpass =>
        obtain rfl := List.mem_singleton.mp hb
        rcases passesThrough_char hpass with halnum | hunder | hhyphen
        · exact Or.inl halnum
        · exact Or.inr (Or.inl hunder)
        · exact Or.inr (Or.inr (Or.inl hhyphen))
    · simp only [List.mem_cons, List.not_mem_nil, or_false] at hb
      rcases hb with rfl | rfl | rfl
      · exact Or.inr (Or.inr (Or.inr rfl))
      · exact Or.inl (hupper ⟨_, high_lt b⟩)
      · exact Or.inl (hupper ⟨_, low_lt b⟩)

/-- An object id is a code for the pair of a tenant and a name. -/
theorem object_id_code :
    (∀ tenant name, parseObjectId tenant (objectId tenant name) = some name ∧
      parseAnyObjectId (objectId tenant name) = some (tenant, name)) ∧
    (∀ tenant name tenant' name', objectId tenant name = objectId tenant' name' →
      tenant = tenant' ∧ name = name') ∧
    (∀ tenant tenant' name, tenant ≠ tenant' →
      parseObjectId tenant' (objectId tenant name) = none) ∧
    (∀ tenant name, ∀ c ∈ (objectId tenant name).toList,
      c.isAlphanum = true ∨ c = '_' ∨ c = '-' ∨ c = '=') := by
  refine ⟨fun tenant name => ⟨parseObjectId_objectId tenant name,
    parseAnyObjectId_objectId tenant name⟩, fun tenant name tenant' name' h => ?_,
    fun tenant tenant' name hne => parseObjectId_of_ne hne name,
    fun tenant name c hc => mem_objectId hc⟩
  have hread := parseAnyObjectId_objectId tenant name
  rw [h, parseAnyObjectId_objectId] at hread
  obtain ⟨htenant, hname⟩ := Prod.mk.inj (Option.some.inj hread)
  exact ⟨htenant.symm, hname.symm⟩

end Verity.Analysis
