import Verity.Analysis.UnshareScope
import Verity.Model.Envelope

/-!
# What an inline ACL grants

A token of an inline block is read with `as i32`, which keeps the low 32 bits of the number; so a
number outside the range of tokens is read as some other token, and the principals of that token
see what the source did not show them. The block is read exactly, on every path it is read on, just
when no such number stands in it, or the block is malformed in another place (`reads_exactly_iff`).
-/

set_option autoImplicit false

namespace Verity.Analysis

open Verity.Foundation
open Verity.Model

variable {payload : Json}

/-! ## The parts of a block -/

/-- The numbers of the block. -/
def visibilityEntries (payload : Json) : Option (List Json) := do
  let block ← (← payload.get "verity_acl").asObject
  (← block.get "visibility").asArray

/-- The class of the block. -/
def blockClass (payload : Json) : Option Confidentiality :=
  match (payload.get "verity_acl").bind fun block => block.get "confidentiality" with
  | none => some .internal
  | some v => (enumVariant v).bind Confidentiality.ofName

/-- The label of the block. -/
def blockProvenance (payload : Json) : Option AclProvenance :=
  match (payload.get "verity_acl").bind fun block => block.get "acl_provenance" with
  | none => some .mirrored
  | some v => (enumVariant v).bind AclProvenance.ofName

/-- An integer of 32 bits. -/
def IsToken (n : Int) : Prop := -2147483648 ≤ n ∧ n ≤ 2147483647

/-- The source names a principal's token. -/
def Names (payload : Json) (t : PrincipalToken) : Prop :=
  ∃ entries, visibilityEntries payload = some entries ∧ ∃ v ∈ entries, v.asI64 = some t

/-- No number of the block is outside the range of tokens, or the block is malformed in another
place: an entry is no integer of 64 bits, or the class or the label is not known. -/
def TokensFit (payload : Json) : Prop :=
  ∀ entries, visibilityEntries payload = some entries →
    (∀ v ∈ entries, ∀ n, v.asI64 = some n → IsToken n) ∨ (∃ v ∈ entries, v.asI64 = none) ∨
      blockClass payload = none ∨ blockProvenance payload = none

theorem asPrincipalToken_eq_self {n : Int} : asPrincipalToken n = n ↔ IsToken n := by
  unfold asPrincipalToken IsToken
  constructor
  · intro h
    have hsame : n.bmod 4294967296 = n := h
    have hle : -(4294967296 / 2 : Int) ≤ n.bmod 4294967296 := Int.le_bmod (by decide)
    have hlt : n.bmod 4294967296 < (4294967296 + 1) / 2 := Int.bmod_lt (by decide)
    omega
  · rintro ⟨hlow, hhigh⟩
    exact Int.bmod_eq_of_le (by omega) (by omega)

/-- The blocks that give an ACL, and which. -/
theorem parseInlineAcl_eq_some {acl : ResolvedAcl} :
    parseInlineAcl payload = some acl ↔
      ∃ entries, visibilityEntries payload = some entries ∧
        entries.mapM (fun v => v.asI64.map asPrincipalToken) = some acl.visibility ∧
        blockClass payload = some acl.confidentiality ∧
        blockProvenance payload = some acl.provenance := by
  have hparts : parseInlineAcl payload = (do
      let entries ← visibilityEntries payload
      let visibility ← entries.mapM fun v => v.asI64.map asPrincipalToken
      let confidentiality ← blockClass payload
      let provenance ← blockProvenance payload
      return { visibility, confidentiality, provenance }) := by
    unfold parseInlineAcl visibilityEntries blockClass blockProvenance
    cases payload.get "verity_acl" with
    | none => rfl
    | some block =>
      cases block with
      | obj kvs =>
        simp only [Json.asObject, Option.bind_eq_bind, Option.bind_some]
        cases (Json.obj kvs).get "visibility" <;> cases (Json.obj kvs).get "confidentiality" <;>
          cases (Json.obj kvs).get "acl_provenance" <;> rfl
      | _ => rfl
  rw [hparts]
  simp only [Option.bind_eq_bind, Option.bind_eq_some_iff]
  constructor
  · rintro ⟨entries, hentries, visibility, htokens, confidentiality, hclass, provenance, hlabel, h⟩
    obtain rfl := Option.some.inj h
    exact ⟨entries, hentries, htokens, hclass, hlabel⟩
  · rintro ⟨entries, hentries, htokens, hclass, hlabel⟩
    exact ⟨entries, hentries, _, htokens, _, hclass, _, hlabel, rfl⟩

/-- The tokens that are read, number by number. -/
theorem mapM_eq_some {entries : List Json} {tokens : List PrincipalToken} :
    entries.mapM (fun v => v.asI64.map asPrincipalToken) = some tokens ↔
      List.Forall₂ (fun v t => v.asI64.map asPrincipalToken = some t) entries tokens := by
  induction entries generalizing tokens with
  | nil =>
    rw [List.mapM_nil, List.forall₂_nil_left_iff]
    exact ⟨fun h => (Option.some.inj h).symm, fun h => congrArg some h.symm⟩
  | cons v entries ih =>
    rw [List.mapM_cons, List.forall₂_cons_left_iff]
    simp only [Option.bind_eq_bind, Option.bind_eq_some_iff, ih]
    constructor
    · rintro ⟨t, ht, rest, hrest, heq⟩
      exact ⟨t, rest, ht, hrest, (Option.some.inj heq).symm⟩
    · rintro ⟨t, rest, ht, hrest, rfl⟩
      exact ⟨t, ht, rest, hrest, rfl⟩

/-- What holds of every first part of related pairs. -/
theorem forall_of_forall₂ {α β : Type} {R : α → β → Prop} {p : α → Prop} {xs : List α} {ys : List β}
    (h : List.Forall₂ R xs ys) (hp : ∀ x y, R x y → p x) : ∀ x ∈ xs, p x :=
  ((List.forall₂_and_left xs ys).mp (h.imp fun x y hxy => ⟨hp x y hxy, hxy⟩)).1

theorem exists_of_forall₂ {α β : Type} {R : α → β → Prop} {xs : List α} {ys : List β}
    (h : List.Forall₂ R xs ys) {y : β} (hy : y ∈ ys) : ∃ x ∈ xs, R x y := by
  induction h with
  | nil => exact absurd hy List.not_mem_nil
  | @cons x y' xs ys hxy _ ih =>
    rcases List.mem_cons.mp hy with rfl | hy
    · exact ⟨x, List.mem_cons_self, hxy⟩
    · obtain ⟨x', hx', hR⟩ := ih hy
      exact ⟨x', List.mem_cons_of_mem _ hx', hR⟩

/-! ## Exact reading -/

/-- The tokens of an ACL that is read are the numbers of the block, in their places. -/
def ReadExactly (payload : Json) : Prop :=
  ∀ acl, parseInlineAcl payload = some acl → ∃ entries, visibilityEntries payload = some entries ∧
    List.Forall₂ (fun v t => v.asI64 = some t) entries acl.visibility

theorem readExactly_of_fit (h : TokensFit payload) : ReadExactly payload := by
  intro acl hacl
  obtain ⟨entries, hentries, htokens, hclass, hlabel⟩ := parseInlineAcl_eq_some.mp hacl
  rw [mapM_eq_some] at htokens
  have hread : ∀ v ∈ entries, v.asI64 ≠ none := by
    refine forall_of_forall₂ htokens fun v t ht hnone => ?_
    rw [hnone] at ht
    exact absurd ht (by simp)
  have hfit : ∀ v ∈ entries, ∀ n, v.asI64 = some n → IsToken n := by
    rcases h entries hentries with hfit | ⟨v, hv, hnone⟩ | hnone | hnone
    · exact hfit
    · exact absurd hnone (hread v hv)
    · exact absurd (hclass.symm.trans hnone) (by simp)
    · exact absurd (hlabel.symm.trans hnone) (by simp)
  refine ⟨entries, hentries, ?_⟩
  refine ((List.forall₂_and_left entries _).mpr ⟨fun v hv => hfit v hv, htokens⟩).imp ?_
  rintro v t ⟨hfit, ht⟩
  obtain ⟨n, hn, rfl⟩ := Option.map_eq_some_iff.mp ht
  rw [asPrincipalToken_eq_self.mpr (hfit n hn), hn]

/-- A number that is no token is read as another one. -/
theorem fit_of_readExactly (h : ReadExactly payload) : TokensFit payload := by
  intro entries hentries
  by_contra hno
  rw [not_or, not_or, not_or] at hno
  obtain ⟨hwide, hread, hclass, hlabel⟩ := hno
  obtain ⟨confidentiality, hclass⟩ := Option.ne_none_iff_exists'.mp hclass
  obtain ⟨provenance, hlabel⟩ := Option.ne_none_iff_exists'.mp hlabel
  have htokens : entries.mapM (fun v => v.asI64.map asPrincipalToken) =
      some (entries.map fun v => asPrincipalToken (v.asI64.getD 0)) := by
    rw [mapM_eq_some, List.forall₂_map_right_iff, List.forall₂_same]
    intro v hv
    cases hn : v.asI64 with
    | none => exact absurd ⟨v, hv, hn⟩ hread
    | some n => rfl
  obtain ⟨entries', hentries', hexact⟩ := h ⟨_, confidentiality, provenance⟩
    (parseInlineAcl_eq_some.mpr ⟨entries, hentries, htokens, hclass, hlabel⟩)
  obtain rfl := Option.some.inj (hentries.symm.trans hentries')
  rw [List.forall₂_map_right_iff, List.forall₂_same] at hexact
  refine hwide fun v hv n hn => ?_
  have hsame := hexact v hv
  rw [hn] at hsame
  exact asPrincipalToken_eq_self.mp (Option.some.inj hsame).symm

/-- A number that is no token makes the block malformed. -/
theorem parseInlineAcl_eq_none_of_wide (h : ReadExactly payload) {entries : List Json}
    (hentries : visibilityEntries payload = some entries) {v : Json} (hv : v ∈ entries) {n : Int}
    (hn : v.asI64 = some n) (hwide : ¬ IsToken n) : parseInlineAcl payload = none := by
  rw [Option.eq_none_iff_forall_ne_some]
  intro acl hacl
  obtain ⟨entries', hentries', htokens, hclass, hlabel⟩ := parseInlineAcl_eq_some.mp hacl
  obtain rfl := Option.some.inj (hentries.symm.trans hentries')
  rcases fit_of_readExactly h entries hentries with hfit | ⟨v', hv', hnone⟩ | hnone | hnone
  · exact hwide (hfit v hv n hn)
  · have hread : ∀ v ∈ entries, v.asI64 ≠ none :=
      forall_of_forall₂ (mapM_eq_some.mp htokens) fun v t ht hnone => by
        rw [hnone] at ht
        exact absurd ht (by simp)
    exact hread v' hv' hnone
  · exact absurd (hclass.symm.trans hnone) (by simp)
  · exact absurd (hlabel.symm.trans hnone) (by simp)

theorem names_of_readExactly (h : ReadExactly payload) {acl : ResolvedAcl}
    (hacl : parseInlineAcl payload = some acl) : ∀ t ∈ acl.visibility, Names payload t := by
  intro t ht
  obtain ⟨entries, hentries, hexact⟩ := h acl hacl
  exact ⟨entries, hentries, exists_of_forall₂ hexact ht⟩

/-! ## The paths a block is read on -/

/-- Every fact that an envelope writes is visible to principals that the block names, or, where
the block is refused, to those of the bound policy. -/
def EnvelopeGrants (payload : Json) : Prop :=
  ∀ (lib : EnvelopeLibraries) (now : Time) (body : Json) (pk : String)
    (boundPolicy : Option ResolvedAcl) (ev : ChangeEvent) (tenant : TenantId) (episode : EpisodeId),
    envelopePayload body = some payload → parseEnvelope lib now body pk boundPolicy = .ok ev →
    ∀ fact, .upsertFact fact ∈ ev.changes tenant episode → ∀ t ∈ fact.visibility,
      Names payload t ∨
        (parseInlineAcl payload = none ∧
          ∃ policy, boundPolicy = some policy ∧ t ∈ policy.visibility)

/-- A row keeps its visibility, or is visible to principals that the block names. -/
def GrantsNamed (payload : Json) (before after : List PrincipalToken) : Prop :=
  after = before ∨ ∀ t ∈ after, Names payload t

/-- What a correction leaves of every row. -/
def CorrectionGrants (payload : Json) : Prop :=
  ∀ (s : Store) (req : AclChangeRequest) (reason : AclCorrectionReason) (changedBy : String),
    payload = .obj [("verity_acl", req.verityAcl)] →
    List.Forall₂ (fun r r' => GrantsNamed payload r.visibility r'.visibility)
        s.facts.rows (dispatchAclCorrection s req reason changedBy).1.facts.rows ∧
      List.Forall₂ (fun r r' => GrantsNamed payload r.visibility r'.visibility)
        s.chunks (dispatchAclCorrection s req reason changedBy).1.chunks

/-- The ACL of an event is that of the block, or else the bound one. -/
theorem parseEnvelope_acl {lib : EnvelopeLibraries} {now : Time} {body : Json} {pk : String}
    {boundPolicy : Option ResolvedAcl} {ev : ChangeEvent}
    (hpayload : envelopePayload body = some payload)
    (hev : parseEnvelope lib now body pk boundPolicy = .ok ev) (hop : ev.op = .upsert) :
    ev.acl = (parseInlineAcl payload).or boundPolicy := by
  unfold parseEnvelope at hev
  simp only [bind, Except.bind] at hev
  rw [hpayload] at hev
  dsimp only [okOr] at hev
  split at hev
  · exact absurd hev (by simp)
  split at hev
  · exact absurd hev (by simp)
  split at hev
  · exact absurd hev (by simp)
  obtain rfl := Except.ok.inj hev
  dsimp only at hop ⊢
  rw [hop]

theorem envelopeGrants_of_readExactly (h : ReadExactly payload) : EnvelopeGrants payload := by
  intro lib now body pk boundPolicy ev tenant episode hpayload hev fact hfact t ht
  unfold ChangeEvent.changes at hfact
  cases hop : ev.op with
  | delete =>
    rw [hop] at hfact
    exact absurd (List.mem_singleton.mp hfact) (by simp)
  | upsert =>
    rw [hop, parseEnvelope_acl hpayload hev hop] at hfact
    cases hblock : parseInlineAcl payload with
    | some acl =>
      rw [hblock] at hfact
      obtain ⟨kv, -, hkv⟩ := List.mem_map.mp hfact
      obtain rfl := FactChange.upsertFact.inj hkv
      exact Or.inl (names_of_readExactly h hblock t ht)
    | none =>
      rw [hblock, Option.none_or] at hfact
      cases hbound : boundPolicy with
      | none =>
        rw [hbound] at hfact
        exact absurd hfact List.not_mem_nil
      | some policy =>
        rw [hbound] at hfact
        obtain ⟨kv, -, hkv⟩ := List.mem_map.mp hfact
        obtain rfl := FactChange.upsertFact.inj hkv
        exact Or.inr ⟨rfl, policy, rfl, ht⟩

theorem correctionGrants_of_readExactly (h : ReadExactly payload) : CorrectionGrants payload := by
  rintro s req reason changedBy rfl
  have hkept {α : Type} (f : α → List PrincipalToken) (rows : List α) :
      List.Forall₂ (fun r r' => GrantsNamed (.obj [("verity_acl", req.verityAcl)]) (f r) (f r'))
        rows rows := List.forall₂_same.mpr fun r _ => Or.inl rfl
  rcases dispatchAclCorrection_cases s req reason changedBy with
    heq | ⟨acl, documentId, hacl, -, heq⟩ | ⟨acl, fact, hacl, -, heq⟩
  · rw [heq]
    exact ⟨hkept _ _, hkept _ _⟩
  · rw [heq]
    refine ⟨hkept _ _, List.forall₂_map_right_iff.mpr (List.forall₂_same.mpr fun r _ => ?_)⟩
    split
    · exact Or.inr (names_of_readExactly h hacl)
    · exact Or.inl rfl
  · rw [heq]
    refine ⟨List.forall₂_map_right_iff.mpr (List.forall₂_same.mpr fun r _ => ?_), hkept _ _⟩
    split
    · exact Or.inr (names_of_readExactly h hacl)
    · exact Or.inl rfl

/-- What is promised of an inline block: it is read exactly or refused, a number that is no token
makes it malformed, and no path grants visibility that it does not name. -/
structure ReadsExactly (payload : Json) : Prop where
  exact : ReadExactly payload
  refused : ∀ entries, visibilityEntries payload = some entries →
    (∃ v ∈ entries, ∃ n, v.asI64 = some n ∧ ¬ IsToken n) → parseInlineAcl payload = none
  envelope : EnvelopeGrants payload
  correction : CorrectionGrants payload

/-- The promise is kept exactly for the blocks whose numbers are tokens, and for those that are
malformed in another place. -/
theorem reads_exactly_iff (payload : Json) : ReadsExactly payload ↔ TokensFit payload := by
  constructor
  · intro h
    exact fit_of_readExactly h.exact
  · intro h
    have hexact := readExactly_of_fit h
    refine ⟨hexact, ?_, envelopeGrants_of_readExactly hexact,
      correctionGrants_of_readExactly hexact⟩
    rintro entries hentries ⟨v, hv, n, hn, hwide⟩
    exact parseInlineAcl_eq_none_of_wide hexact hentries hv hn hwide

/-- The source names a number of 33 bits, whose low bits are the token 3. -/
def wideBlock : Json := .obj [("visibility", .arr [.posInt 4294967299])]

/-- Token 3 is granted what the source showed to nobody it stands for. -/
theorem wide_number_granted :
    parseInlineAcl (.obj [("verity_acl", wideBlock)]) =
        some ⟨[3], .internal, .mirrored⟩ ∧
      ¬ Names (.obj [("verity_acl", wideBlock)]) 3 ∧
      ¬ ReadsExactly (.obj [("verity_acl", wideBlock)]) := by
  have hread : parseInlineAcl (.obj [("verity_acl", wideBlock)]) =
      some ⟨[3], .internal, .mirrored⟩ := by decide +kernel
  have hentries : visibilityEntries (.obj [("verity_acl", wideBlock)]) =
      some [.posInt 4294967299] := by decide +kernel
  have hnot : ¬ Names (.obj [("verity_acl", wideBlock)]) 3 := by
    rintro ⟨entries, hsome, v, hv, hn⟩
    obtain rfl := Option.some.inj (hentries.symm.trans hsome)
    obtain rfl := List.mem_singleton.mp hv
    have hvalue : (Json.posInt 4294967299).asI64 = some 4294967299 := by decide +kernel
    have heq : (4294967299 : Int) = 3 := Option.some.inj (hvalue.symm.trans hn)
    exact absurd heq (by decide)
  refine ⟨hread, hnot, fun h => ?_⟩
  exact hnot (names_of_readExactly h.exact hread 3 (List.mem_singleton_self 3))

end Verity.Analysis
