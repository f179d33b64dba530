import Mathlib.Data.List.Lemmas
import Mathlib.Logic.Equiv.List
import Verity.Foundation.Decimal
import Verity.Model.Signing

/-!
# Signing domains

One key signs scope bodies, media addresses and domain messages, with no length framing. A tag
determines its message, so the surfaces are apart exactly as far as their messages are. Media
addresses and domain messages are split at the first colon, and a domain is a name without one.
Scope bodies are JSON texts, which carry no name in front: a domain message is also the body of a
handle when the domain itself opens a JSON text, as `{"tenant_id"` does. For domains that open no
scope body, `tag_accepted_iff` gives the separation.
-/

set_option autoImplicit false

namespace Verity.Analysis

open Verity.Model Verity.Foundation

/-! ## Texts of ids and numbers -/

theorem hexByte_injective : Function.Injective hexByte := by
  have hdigit : ∀ i j : Fin 16, hexDigit i = hexDigit j → i = j := by decide
  intro a b h
  have ha := a.toNat_lt
  have hb := b.toNat_lt
  simp only [hexByte, List.cons.injEq, and_true] at h
  have hhigh := hdigit ⟨a.toNat / 16, by omega⟩ ⟨b.toNat / 16, by omega⟩ h.1
  have hlow := hdigit ⟨a.toNat % 16, by omega⟩ ⟨b.toNat % 16, by omega⟩ h.2
  rw [Fin.mk.injEq] at hhigh hlow
  apply UInt8.toNat_inj.mp
  omega

theorem length_flatMap_hexByte (bytes : List UInt8) :
    (bytes.flatMap hexByte).length = 2 * bytes.length := by
  induction bytes with
  | nil => rfl
  | cons b bytes ih =>
    rw [List.flatMap_cons, List.length_append, ih, List.length_cons]
    simp only [hexByte, List.length_cons, List.length_nil]
    omega

theorem flatMap_hexByte_injective : Function.Injective fun bytes => List.flatMap hexByte bytes := by
  intro xs
  induction xs with
  | nil =>
    intro ys h
    have hlen := congrArg List.length h
    simp only [length_flatMap_hexByte, List.length_nil] at hlen
    have hzero : ys.length = 0 := by omega
    exact (List.eq_nil_of_length_eq_zero hzero).symm
  | cons x xs ih =>
    intro ys h
    cases ys with
    | nil =>
      have hlen := congrArg List.length h
      simp only [length_flatMap_hexByte, List.length_cons, List.length_nil] at hlen
      omega
    | cons y ys =>
      have hlen : (hexByte x).length = (hexByte y).length := rfl
      have hsplit := List.append_inj h hlen
      rw [hexByte_injective hsplit.1, ih hsplit.2]

/-- Sixteen bytes, cut where the hyphens stand. -/
theorem uuid_groups (bytes : List UInt8) :
    bytes = bytes.take 4 ++ ((bytes.drop 4).take 2 ++ ((bytes.drop 6).take 2 ++
      ((bytes.drop 8).take 2 ++ bytes.drop 10))) := by
  have hcut : ∀ n k, (bytes.drop n).take k ++ bytes.drop (n + k) = bytes.drop n := by
    intro n k
    rw [← List.drop_drop, List.take_append_drop]
  rw [hcut 8 2, hcut 6 2, hcut 4 2, List.take_append_drop]

theorem uuid_text_injective : Function.Injective Uuid.text := by
  intro a b h
  have ha := a.length_bytes
  have hb := b.length_bytes
  unfold Uuid.text at h
  obtain ⟨h₁, h⟩ := List.append_inj h (by
    simp only [length_flatMap_hexByte, List.length_take]
    omega)
  rw [List.cons.injEq] at h
  obtain ⟨h₂, h⟩ := List.append_inj h.2
    (by simp only [length_flatMap_hexByte, List.length_take, List.length_drop]; omega)
  rw [List.cons.injEq] at h
  obtain ⟨h₃, h⟩ := List.append_inj h.2
    (by simp only [length_flatMap_hexByte, List.length_take, List.length_drop]; omega)
  rw [List.cons.injEq] at h
  obtain ⟨h₄, h⟩ := List.append_inj h.2
    (by simp only [length_flatMap_hexByte, List.length_take, List.length_drop]; omega)
  rw [List.cons.injEq] at h
  have hbytes : a.bytes = b.bytes := by
    rw [uuid_groups a.bytes, uuid_groups b.bytes, flatMap_hexByte_injective h₁,
      flatMap_hexByte_injective h₂, flatMap_hexByte_injective h₃, flatMap_hexByte_injective h₄,
      flatMap_hexByte_injective h.2]
  cases a
  cases b
  simp only [Uuid.mk.injEq]
  exact hbytes

theorem length_uuid_text (id : Uuid) : id.text.length = 36 := by
  have h := id.length_bytes
  simp only [Uuid.text, List.length_append, List.length_cons, length_flatMap_hexByte,
    List.length_take, List.length_drop]
  omega

/-! ## What is signed -/

/-- The content a tag speaks about, one constructor for each surface. -/
inductive Signed where
  | scope (payload : ScopePayload)
  | media (mediaId : Uuid) (expiresAt : Int)
  | bytes (domain : String) (msg : List UInt8)

variable {m : ScopeMinter} {c : Signed} {tag : String} {now : Time}

/-- The bytes a content is signed as. -/
def Signed.message (m : ScopeMinter) : Signed → List UInt8
  | .scope payload => m.toVec payload
  | .media mediaId expiresAt => mediaMessage mediaId expiresAt
  | .bytes domain msg => bytesMessage domain msg

/-- The tags that the three signers give out. -/
inductive Produces (m : ScopeMinter) : Signed → String → Prop
  | mint (payload : ScopePayload) (ttlSeconds : Int) (now : Time) {body tag : String}
      (h : splitHandle (m.mint payload ttlSeconds now).1 = some (body, tag)) :
      Produces m (.scope (stampPayload payload ttlSeconds now)) tag
  | signMedia (mediaId : Uuid) (expiresAt : Int) :
      Produces m (.media mediaId expiresAt) (m.signMedia mediaId expiresAt)
  | signBytes (domain : String) (msg : List UInt8) :
      Produces m (.bytes domain msg) (m.signBytes domain msg)

/-- The contents that a tag is accepted for: for a scope, some handle carries the tag. -/
inductive Accepts (m : ScopeMinter) (now : Time) : Signed → String → Prop
  | verify {handle body tag : String} {payload : ScopePayload}
      (h : splitHandle handle = some (body, tag)) (hok : m.verify handle now = .ok payload) :
      Accepts m now (.scope payload) tag
  | verifyMedia {mediaId : Uuid} {expiresAt : Int} {tag : String}
      (hok : m.verifyMedia mediaId expiresAt tag now = .ok ()) :
      Accepts m now (.media mediaId expiresAt) tag
  | verifyBytes {domain : String} {msg : List UInt8} {tag : String}
      (hok : m.verifyBytes domain msg tag = .ok ()) : Accepts m now (.bytes domain msg) tag

/-- What the verifier's own clock allows. -/
def Signed.LiveAt (now : Time) : Signed → Prop
  | .scope payload => now ≤ payload.expiresAt
  | .media _ expiresAt => now / 1000000 ≤ expiresAt
  | .bytes _ _ => True

/-- JSON white space. -/
def isJsonSpace (b : UInt8) : Bool := b = 32 || b = 9 || b = 10 || b = 13

/-- What the minter relies on in `serde_json`: a written payload is read back, and what is read
as a payload is an object or an array, after white space. -/
structure LawfulJson (m : ScopeMinter) : Prop where
  fromSlice_toVec : ∀ payload, m.fromSlice (m.toVec payload) = some payload
  opens : ∀ body payload, m.fromSlice body = some payload →
    ∃ b, (body.dropWhile isJsonSpace).head? = some b ∧ (b = 123 ∨ b = 91)

/-- A domain that is a name of its own: not the media prefix, without a colon, and no scope body
begins with it and a colon. -/
structure OwnDomain (m : ScopeMinter) (domain : String) : Prop where
  not_media : domain ≠ "media"
  no_colon : ':' ∉ domain.toList
  no_body : ∀ msg, m.fromSlice (bytesMessage domain msg) = none

/-- The domain of a content, if it has one, is a name of its own. -/
def Signed.Admissible (m : ScopeMinter) : Signed → Prop
  | .bytes domain _ => OwnDomain m domain
  | _ => True

/-! ## Texts and tags -/

theorem decodeText_encodeText (bytes : List UInt8) : decodeText (encodeText bytes) = .ok bytes := by
  rw [decodeText, encodeText, String.toList_ofList, Base64.decode_encode]
  rfl

/-- A handle is taken apart where it was put together. -/
theorem splitHandle_text (body tag : List UInt8) :
    splitHandle (String.ofList ("vs_".toList ++ (Base64.encode body ++ '.' :: Base64.encode tag))) =
      some (encodeText body, encodeText tag) := by
  have hprefix : ("vs_".toList ++ (Base64.encode body ++ '.' :: Base64.encode tag)).dropPrefix?
      "vs_".toList = some (Base64.encode body ++ '.' :: Base64.encode tag) :=
    List.dropPrefix?_append_of_beq _ (by simp)
  have hdot : splitFirst '.' (Base64.encode body ++ '.' :: Base64.encode tag) =
      some (Base64.encode body, Base64.encode tag) :=
    splitFirst_eq_some.mpr ⟨rfl, Base64.not_mem_encode (by decide) body⟩
  rw [splitHandle, String.toList_ofList, hprefix, Option.bind_some, splitOnceAt,
    String.toList_ofList, hdot]
  rfl

theorem splitHandle_mint (m : ScopeMinter) (payload : ScopePayload) (ttlSeconds : Int)
    (now : Time) :
    splitHandle (m.mint payload ttlSeconds now).1 =
      some (encodeText (m.toVec (stampPayload payload ttlSeconds now)),
        encodeText (m.hmac (m.toVec (stampPayload payload ttlSeconds now)))) :=
  splitHandle_text _ _

theorem verifySlice_eq_ok_iff {message sig : List UInt8} :
    m.verifySlice message sig = .ok () ↔ m.hmac message = sig := by
  unfold ScopeMinter.verifySlice
  split <;> simp [*]

/-- Every tag given out is the text of the message's tag. -/
theorem Produces.tag_eq (h : Produces m c tag) : tag = encodeText (m.hmac (c.message m)) := by
  cases h with
  | mint payload ttlSeconds now h =>
    rw [splitHandle_mint, Option.some.injEq, Prod.mk.injEq] at h
    exact h.2.symm
  | signMedia => rfl
  | signBytes => rfl

/-! ## What a verifier accepts -/

theorem verify_text_eq_ok_iff {handle : String} {payload : ScopePayload} :
    m.verify handle now = .ok payload ↔
      ∃ bodyB64 sigB64 body, splitHandle handle = some (bodyB64, sigB64) ∧
        decodeText bodyB64 = .ok body ∧ decodeText sigB64 = .ok (m.hmac body) ∧
        m.fromSlice body = some payload ∧ now ≤ payload.expiresAt := by
  unfold ScopeMinter.verify
  simp only [bind, except_bind_eq_ok_iff, okOr_eq_ok_iff]
  constructor
  · rintro ⟨⟨bodyB64, sigB64⟩, hsplit, body, hbody, sig, hsig, _, hslice, payload', hread, hlive⟩
    rw [verifySlice_eq_ok_iff] at hslice
    split at hlive
    · cases hlive
    · rename_i hle
      cases hlive
      rw [← hslice] at hsig
      exact ⟨bodyB64, sigB64, body, hsplit, hbody, hsig, hread, not_lt.mp hle⟩
  · rintro ⟨bodyB64, sigB64, body, hsplit, hbody, hsig, hread, hle⟩
    refine ⟨(bodyB64, sigB64), hsplit, body, hbody, m.hmac body, hsig, (), ?_, payload, hread, ?_⟩
    · exact verifySlice_eq_ok_iff.mpr rfl
    · rw [if_neg (not_lt.mpr hle)]

theorem verifyMedia_eq_ok_iff {mediaId : Uuid} {expiresAt : Int} :
    m.verifyMedia mediaId expiresAt tag now = .ok () ↔
      now / 1000000 ≤ expiresAt ∧
        decodeText tag = .ok (m.hmac (mediaMessage mediaId expiresAt)) := by
  unfold ScopeMinter.verifyMedia
  split
  · rename_i hlt
    simp [not_le.mpr hlt]
  · rename_i hle
    simp only [bind, except_bind_eq_ok_iff, verifySlice_eq_ok_iff, eq_comm (a := m.hmac _),
      exists_eq_right, not_lt.mp hle, true_and]

theorem verifyBytes_eq_ok_iff {domain : String} {msg : List UInt8} :
    m.verifyBytes domain msg tag = .ok () ↔
      decodeText tag = .ok (m.hmac (bytesMessage domain msg)) := by
  unfold ScopeMinter.verifyBytes
  simp only [bind, except_bind_eq_ok_iff, verifySlice_eq_ok_iff, eq_comm (a := m.hmac _),
    exists_eq_right]

/-- The contents that signed bytes are read as: a scope body as the payload it holds, the others
as what is signed as these bytes. -/
def Signed.ReadFrom (m : ScopeMinter) (body : List UInt8) : Signed → Prop
  | .scope payload => m.fromSlice body = some payload
  | .media mediaId expiresAt => mediaMessage mediaId expiresAt = body
  | .bytes domain msg => bytesMessage domain msg = body

/-- A tag text is accepted for a live content that its bytes are read as. -/
theorem Accepts.readFrom (h : Accepts m now c tag) :
    c.LiveAt now ∧ ∃ body, c.ReadFrom m body ∧ decodeText tag = .ok (m.hmac body) := by
  cases h with
  | verify h hok =>
    obtain ⟨bodyB64, sigB64, body, hsplit, -, hsig, hread, hlive⟩ := verify_text_eq_ok_iff.mp hok
    rw [h, Option.some.injEq, Prod.mk.injEq] at hsplit
    exact ⟨hlive, body, hread, hsplit.2 ▸ hsig⟩
  | verifyMedia hok =>
    obtain ⟨hlive, htag⟩ := verifyMedia_eq_ok_iff.mp hok
    exact ⟨hlive, _, rfl, htag⟩
  | verifyBytes hok => exact ⟨trivial, _, rfl, verifyBytes_eq_ok_iff.mp hok⟩

/-- The verifier of the same surface accepts what was signed, while it is live. -/
theorem Produces.accepts (hjson : LawfulJson m) (h : Produces m c tag) (hlive : c.LiveAt now) :
    Accepts m now c tag := by
  have htag := h.tag_eq
  have hdecode : decodeText tag = .ok (m.hmac (c.message m)) := by
    rw [htag]
    exact decodeText_encodeText _
  cases h with
  | mint payload ttlSeconds issued h =>
    apply Accepts.verify h
    apply verify_text_eq_ok_iff.mpr
    have hbody := h
    rw [splitHandle_mint, Option.some.injEq, Prod.mk.injEq] at hbody
    refine ⟨_, _, m.toVec (stampPayload payload ttlSeconds issued), h, ?_, hdecode,
      hjson.fromSlice_toVec _, hlive⟩
    rw [← hbody.1]
    exact decodeText_encodeText _
  | signMedia => exact Accepts.verifyMedia (verifyMedia_eq_ok_iff.mpr ⟨hlive, hdecode⟩)
  | signBytes => exact Accepts.verifyBytes (verifyBytes_eq_ok_iff.mpr hdecode)

/-! ## Messages apart -/

/-- A domain message is split at its first colon. -/
theorem bytesMessage_inj {d d' : String} {msg msg' : List UInt8} (hd : ':' ∉ d.toList)
    (hd' : ':' ∉ d'.toList) (h : bytesMessage d msg = bytesMessage d' msg') :
    d = d' ∧ msg = msg' := by
  have hcolon : ':'.toNat < 128 := by decide
  have hn : UInt8.ofNat ':'.toNat ∉ utf8 d.toList := fun h => hd ((mem_utf8_iff hcolon).mp h)
  have hn' : UInt8.ofNat ':'.toNat ∉ utf8 d'.toList := fun h => hd' ((mem_utf8_iff hcolon).mp h)
  unfold bytesMessage at h
  obtain ⟨hdomain, hmsg⟩ := append_separator_inj hn hn' h
  exact ⟨String.toList_inj.mp (utf8_injective hdomain), hmsg⟩

/-- A media message is the message of its own domain. -/
theorem mediaMessage_eq (mediaId : Uuid) (expiresAt : Int) :
    mediaMessage mediaId expiresAt =
      bytesMessage "media" (utf8 (mediaId.text ++ ':' :: expiresAt.repr.toList)) := by
  rw [mediaMessage, bytesMessage, utf8_append, utf8_cons, utf8EncodeChar_ascii (by decide)]
  rfl

theorem mediaMessage_inj {i i' : Uuid} {e e' : Int} (h : mediaMessage i e = mediaMessage i' e') :
    i = i' ∧ e = e' := by
  rw [mediaMessage_eq, mediaMessage_eq] at h
  have htext := utf8_injective (bytesMessage_inj (by decide) (by decide) h).2
  obtain ⟨hid, hexp⟩ := List.append_inj htext (by rw [length_uuid_text, length_uuid_text])
  rw [List.cons.injEq] at hexp
  exact ⟨uuid_text_injective hid, int_repr_injective (String.toList_inj.mp hexp.2)⟩

/-- What is read as a payload opens as an object or an array, so neither a media message nor a
message of a domain that opens otherwise is read as one. -/
theorem fromSlice_bytesMessage_eq_none (hjson : LawfulJson m) {domain : String} {b : UInt8}
    {rest : List UInt8} (hdomain : utf8 domain.toList = b :: rest) (hspace : isJsonSpace b = false)
    (hopen : b ≠ 123 ∧ b ≠ 91) (msg : List UInt8) :
    m.fromSlice (bytesMessage domain msg) = none := by
  cases hread : m.fromSlice (bytesMessage domain msg) with
  | none => rfl
  | some payload =>
    obtain ⟨b', hhead, hb'⟩ := hjson.opens _ payload hread
    have hfirst : b = b' := by
      rw [bytesMessage, hdomain, List.cons_append, List.dropWhile_cons_of_neg (by simp [hspace]),
        List.head?_cons, Option.some.injEq] at hhead
      exact hhead
    subst hfirst
    exact absurd hb' (not_or.mpr hopen)

theorem fromSlice_mediaMessage_eq_none (hjson : LawfulJson m) (mediaId : Uuid) (expiresAt : Int) :
    m.fromSlice (mediaMessage mediaId expiresAt) = none := by
  rw [mediaMessage_eq]
  exact fromSlice_bytesMessage_eq_none hjson rfl (by decide) (by decide) _

/-- The domain that purge reports are signed under is a name of its own. -/
theorem ownDomain_purgeReportDomain (hjson : LawfulJson m) : OwnDomain m purgeReportDomain where
  not_media := by decide
  no_colon := by decide
  no_body := fromSlice_bytesMessage_eq_none hjson rfl (by decide) (by decide)

/-- The bytes of an admissible content are read as no other admissible content. -/
theorem readFrom_message (hjson : LawfulJson m) {c' : Signed} (hc : c.Admissible m)
    (hc' : c'.Admissible m) (h : c'.ReadFrom m (c.message m)) : c' = c := by
  cases c with
  | scope p =>
    have hread : m.fromSlice (m.toVec p) = some p := hjson.fromSlice_toVec p
    cases c' with
    | scope p' =>
      have hread' : m.fromSlice (m.toVec p) = some p' := h
      rw [Option.some.inj (hread'.symm.trans hread)]
    | media i e =>
      have hmsg : mediaMessage i e = m.toVec p := h
      rw [← hmsg, fromSlice_mediaMessage_eq_none hjson] at hread
      cases hread
    | bytes d msg =>
      have hmsg : bytesMessage d msg = m.toVec p := h
      have hown : OwnDomain m d := hc'
      rw [← hmsg, hown.no_body] at hread
      cases hread
  | media i e =>
    cases c' with
    | scope p' =>
      have hread : m.fromSlice (mediaMessage i e) = some p' := h
      rw [fromSlice_mediaMessage_eq_none hjson] at hread
      cases hread
    | media i' e' =>
      obtain ⟨hi, he⟩ := mediaMessage_inj h
      rw [hi, he]
    | bytes d msg =>
      have hown : OwnDomain m d := hc'
      have hmsg : bytesMessage d msg = mediaMessage i e := h
      rw [mediaMessage_eq] at hmsg
      exact absurd (bytesMessage_inj hown.no_colon (by decide) hmsg).1 hown.not_media
  | bytes d msg =>
    have hown : OwnDomain m d := hc
    cases c' with
    | scope p' =>
      have hread : m.fromSlice (bytesMessage d msg) = some p' := h
      rw [hown.no_body] at hread
      cases hread
    | media i e =>
      have hmsg : mediaMessage i e = bytesMessage d msg := h
      rw [mediaMessage_eq] at hmsg
      exact absurd (bytesMessage_inj (by decide) hown.no_colon hmsg).1.symm hown.not_media
    | bytes d' msg' =>
      have hown' : OwnDomain m d' := hc'
      obtain ⟨hd, hmsg⟩ := bytesMessage_inj hown'.no_colon hown.no_colon h
      rw [hd, hmsg]

/-- A tag is accepted only for what it was given out for. -/
theorem Produces.accepts_eq (hhmac : Function.Injective m.hmac) (hjson : LawfulJson m) {c' : Signed}
    (hc : c.Admissible m) (hc' : c'.Admissible m) (h : Produces m c tag)
    (h' : Accepts m now c' tag) : c' = c := by
  obtain ⟨-, body, hread, hdecode⟩ := h'.readFrom
  rw [h.tag_eq, decodeText_encodeText, Except.ok.injEq] at hdecode
  rw [← hhmac hdecode] at hread
  exact readFrom_message hjson hc hc' hread

/-- Minting, then verifying while the handle is live, gives the payload as it was stamped. -/
theorem verify_mint (hjson : LawfulJson m) (payload : ScopePayload) (ttlSeconds : Int)
    {later : Time} (hlive : later ≤ (stampPayload payload ttlSeconds now).expiresAt) :
    m.verify (m.mint payload ttlSeconds now).1 later =
      .ok (stampPayload payload ttlSeconds now) := by
  apply verify_text_eq_ok_iff.mpr
  exact ⟨_, _, m.toVec (stampPayload payload ttlSeconds now), splitHandle_mint _ _ _ _,
    decodeText_encodeText _, decodeText_encodeText _, hjson.fromSlice_toVec _, hlive⟩

/-- The surfaces are apart: a tag given out for a content is accepted for that content while it
is live, and for no other, as long as the domains open no scope body. A minted handle verifies to
the payload with the instants of its minting. -/
theorem tag_accepted_iff {m : ScopeMinter} (hhmac : Function.Injective m.hmac)
    (hjson : LawfulJson m) :
    (∀ (now : Time) (c c' : Signed) (tag : String), c.Admissible m → c'.Admissible m →
      Produces m c tag → (Accepts m now c' tag ↔ c' = c ∧ c.LiveAt now)) ∧
    ∀ (payload : ScopePayload) (ttlSeconds : Int) (now later : Time),
      later ≤ now + seconds (clampTtl ttlSeconds) →
      m.verify (m.mint payload ttlSeconds now).1 later =
        .ok { payload with
          issuedAt := now
          expiresAt := now + seconds (clampTtl ttlSeconds) } := by
  constructor
  · intro now c c' tag hc hc' h
    constructor
    · intro h'
      have heq := h.accepts_eq hhmac hjson hc hc' h'
      subst heq
      exact ⟨rfl, h'.readFrom.1⟩
    · rintro ⟨rfl, hlive⟩
      exact h.accepts hjson hlive
  · intro payload ttlSeconds now later hlive
    exact verify_mint hjson payload ttlSeconds hlive

/-! ## A domain that opens a scope body -/

/-- A domain without a colon that every scope body begins with. -/
def openDomain : String := "\x7b\"tenant_id\""

/-- A scope of tenant 1 for token 7, minted at the epoch for an hour. -/
def hourScope : ScopePayload where
  tenantId := 1
  principals := [7]
  entityScope := []
  maxConfidentiality := .internal
  actorSub := none
  actorAzp := none
  subject := none
  issuedAt := 0
  expiresAt := 0

/-- The body of `hourScope` after its first colon. -/
def hourScopeRest : List UInt8 :=
  utf8 ("\"00000000-0000-0000-0000-000000000001\",\"principals\":[7],\"entity_scope\":[]," ++
    "\"max_confidentiality\":\"Internal\",\"actor_sub\":null,\"actor_azp\":null," ++
    "\"subject\":null,\"issued_at\":\"1970-01-01T00:00:00Z\"," ++
    "\"expires_at\":\"1970-01-01T01:00:00Z\"\x7d").toList

/-- A number for every payload. -/
@[reducible] def encodablePayload : Encodable ScopePayload :=
  let _ : Encodable Char := Encodable.ofLeftInverse Char.toNat Char.ofNat Char.ofNat_toNat
  let _ : Encodable String :=
    Encodable.ofLeftInverse String.toList String.ofList fun _ => String.ofList_toList
  let _ : Encodable Confidentiality :=
    Encodable.ofLeftInverse Confidentiality.toI16 Confidentiality.fromI16
      (by intro c; cases c <;> rfl)
  Encodable.ofLeftInverse
    (fun p => (p.tenantId, p.principals, p.entityScope, p.maxConfidentiality, p.actorSub,
      p.actorAzp, p.subject, (p.issuedAt : Int), (p.expiresAt : Int)))
    (fun (tenantId, principals, entityScope, maxConfidentiality, actorSub, actorAzp, subject,
        issuedAt, expiresAt) =>
      { tenantId, principals, entityScope, maxConfidentiality, actorSub, actorAzp, subject,
        issuedAt, expiresAt })
    (fun _ => rfl)

/-- A minter that writes the JSON body of `hourScope`, and other payloads as two braces and their
number in strokes. -/
def jsonMinter : ScopeMinter where
  hmac := id
  toVec payload :=
    if payload = stampPayload hourScope 3600 0 then bytesMessage openDomain hourScopeRest
    else 123 :: 123 :: List.replicate (encodablePayload.encode payload) 124
  fromSlice body :=
    if body = bytesMessage openDomain hourScopeRest then some (stampPayload hourScope 3600 0)
    else if body.take 2 = [123, 123] then encodablePayload.decode (body.length - 2)
    else none

theorem lawfulJson_jsonMinter : LawfulJson jsonMinter := by
  have hbody : (bytesMessage openDomain hourScopeRest).head? = some 123 ∧
      (bytesMessage openDomain hourScopeRest).tail.head? = some 34 := by decide +kernel
  constructor
  · intro payload
    unfold jsonMinter
    by_cases hp : payload = stampPayload hourScope 3600 0
    · simp only [hp, if_true]
    · have hne : (123 :: 123 :: List.replicate (encodablePayload.encode payload) 124 : List UInt8) ≠
          bytesMessage openDomain hourScopeRest := by
        intro h
        rw [← h] at hbody
        exact absurd hbody.2 (by simp)
      simp only [hp, if_false, hne]
      simp
  · intro body payload h
    have hopen : body.head? = some 123 := by
      unfold jsonMinter at h
      by_cases heq : body = bytesMessage openDomain hourScopeRest
      · rw [heq]
        exact hbody.1
      · simp only [heq, if_false] at h
        split at h
        · rename_i htake
          have hhead := congrArg List.head? htake
          rwa [List.head?_take, if_neg (by omega)] at hhead
        · cases h
    cases body with
    | nil => cases hopen
    | cons b rest =>
      rw [List.head?_cons, Option.some.injEq] at hopen
      subst hopen
      exact ⟨123, rfl, Or.inl rfl⟩

/-- Under the example minter a tag is accepted exactly for the claim it was produced for while that
is live, and every minted handle verifies to its payload until it expires. -/
theorem tag_accepted_iff_jsonMinter :
    Function.Injective jsonMinter.hmac ∧ LawfulJson jsonMinter ∧
    (∀ (now : Time) (c c' : Signed) (tag : String), c.Admissible jsonMinter →
      c'.Admissible jsonMinter → Produces jsonMinter c tag →
      (Accepts jsonMinter now c' tag ↔ c' = c ∧ c.LiveAt now)) ∧
    ∀ (payload : ScopePayload) (ttlSeconds : Int) (now later : Time),
      later ≤ now + seconds (clampTtl ttlSeconds) →
      jsonMinter.verify (jsonMinter.mint payload ttlSeconds now).1 later =
        .ok { payload with
          issuedAt := now
          expiresAt := now + seconds (clampTtl ttlSeconds) } :=
  ⟨Function.injective_id, lawfulJson_jsonMinter,
    tag_accepted_iff Function.injective_id lawfulJson_jsonMinter⟩

/-- The tag of a minted handle is a tag of the domain that opens its body, and the other way
round: the domain is neither `media` nor has a colon. -/
theorem openDomain_tag_accepted :
    Function.Injective jsonMinter.hmac ∧ LawfulJson jsonMinter ∧ openDomain ≠ "media" ∧
    ':' ∉ openDomain.toList ∧
    (∃ tag, Produces jsonMinter (.scope (stampPayload hourScope 3600 0)) tag ∧
      Accepts jsonMinter 0 (.bytes openDomain hourScopeRest) tag) ∧
    ∃ tag, Produces jsonMinter (.bytes openDomain hourScopeRest) tag ∧
      Accepts jsonMinter 0 (.scope (stampPayload hourScope 3600 0)) tag := by
  have hsame : jsonMinter.toVec (stampPayload hourScope 3600 0) =
      bytesMessage openDomain hourScopeRest := by
    simp only [jsonMinter, if_true]
  have hsplit := splitHandle_text (jsonMinter.toVec (stampPayload hourScope 3600 0))
    (jsonMinter.hmac (jsonMinter.toVec (stampPayload hourScope 3600 0)))
  have hminted := Produces.mint hourScope 3600 0 hsplit
  refine ⟨Function.injective_id, lawfulJson_jsonMinter, by decide, by decide,
    ⟨_, hminted, ?_⟩, _, Produces.signBytes openDomain hourScopeRest, ?_⟩
  · apply Accepts.verifyBytes
    apply verifyBytes_eq_ok_iff.mpr
    rw [decodeText_encodeText, hsame]
  · have htag : jsonMinter.signBytes openDomain hourScopeRest =
        encodeText (jsonMinter.hmac (jsonMinter.toVec (stampPayload hourScope 3600 0))) := by
      rw [hsame]
      rfl
    have hlive : (0 : Time) ≤ (stampPayload hourScope 3600 0).expiresAt := by decide
    rw [htag]
    exact hminted.accepts lawfulJson_jsonMinter hlive

/-! ## Decoded handles -/

/-- The text of a decoded handle. -/
def handleText (m : ScopeMinter) (h : Handle (List UInt8)) : String :=
  String.ofList ("vs_".toList ++ (Base64.encode (m.toVec h.body) ++ '.' :: Base64.encode h.sig))

/-- Minting a text is minting a handle. -/
theorem mint_eq_handleText (m : ScopeMinter) (payload : ScopePayload) (ttlSeconds : Int)
    (now : Time) :
    (m.mint payload ttlSeconds now).1 =
      handleText m (mint (fun p => m.hmac (m.toVec p)) payload ttlSeconds now) := rfl

/-- Verifying the text of a handle is verifying the handle. -/
theorem verify_handleText (hjson : LawfulJson m) (h : Handle (List UInt8)) (now : Time) :
    m.verify (handleText m h) now = verify (fun p => m.hmac (m.toVec p)) h now := by
  unfold ScopeMinter.verify verify handleText
  rw [splitHandle_text]
  simp only [okOr, bind, Except.bind, decodeText_encodeText, ScopeMinter.verifySlice]
  by_cases hsig : m.hmac (m.toVec h.body) = h.sig
  · simp only [hsig, if_true, hjson.fromSlice_toVec, ne_eq, not_true_eq_false, if_false]
  · simp only [hsig, if_false, ne_eq, Ne.symm hsig, not_false_eq_true, if_true]

end Verity.Analysis
