import Mathlib.Data.List.Lex
import Mathlib.Data.Prod.Lex
import Verity.Model.Rebac

/-!
# The evidence ledger and its configuration

What entity resolution is decided from: rows of evidence that two refs denote the same
entity, or that they do not, and the tenant's key-quality configuration. A ref is a text: a
member `source:entity_id`, a key node `key:kind:value`, or a chunk
`chunk:source:document_id:seq`.

The score, the lineage pointer and the `superseded_by` chain of a row, and the two thresholds
of the configuration that are floats, are left out: the fold reads none of them.
-/

set_option autoImplicit false

namespace Verity.Model

abbrev EvidenceId := Nat

/-- SOURCE: types.rs:750-780 -/
structure EvidenceRow where
  evidenceId : EvidenceId
  tenantId : TenantId
  leftRef : String
  rightRef : String
  tier : Int
  method : String
  keyValue : Option String
  keyNamespace : Option String
  polarity : Int
  validFrom : Time
  validTo : Option Time
deriving DecidableEq, Repr

/-- SOURCE: types.rs:785-797 -/
structure EvidenceWrite where
  tenantId : TenantId
  leftRef : String
  rightRef : String
  tier : Int
  method : String
  keyValue : Option String
  keyNamespace : Option String
  polarity : Int
deriving DecidableEq, Repr

/-- SOURCE: types.rs:804-827 -/
structure EntityResolutionConfig where
  tenantId : TenantId
  keyKind : String
  keyNamespace : String
  eligibleAsEdge : Bool
  denylistValues : List String
  minIndependentKeys : Int
  autoMergeTier1 : Bool
  autoLinkTier3 : Bool
  componentSizeCap : Option Int
deriving DecidableEq, Repr

/-- SOURCE: types.rs:837-867 -/
def EntityResolutionConfig.defaults (tenant : TenantId) (keyKind keyNamespace : String) :
    EntityResolutionConfig where
  tenantId := tenant
  keyKind := keyKind
  keyNamespace := keyNamespace
  eligibleAsEdge := true
  denylistValues := []
  minIndependentKeys := if keyKind = "external_id" then 1 else 2
  autoMergeTier1 := true
  autoLinkTier3 := false
  componentSizeCap := none

/-- The tenant's rows and a fallback. SOURCE: fold.rs:137-142 -/
structure FoldConfig where
  tenantId : TenantId
  rows : List EntityResolutionConfig
  fallback : EntityResolutionConfig
deriving DecidableEq, Repr

namespace FoldConfig

/-- No rows, and the built-in fallback. SOURCE: fold.rs:166-172 -/
def defaults (tenant : TenantId) : FoldConfig :=
  ⟨tenant, [], EntityResolutionConfig.defaults tenant "*" "*"⟩

/-- Of two rows with the same key the later one counts, as in the map the rows are collected
into. -/
def row (config : FoldConfig) (keyKind keyNamespace : String) : Option EntityResolutionConfig :=
  config.rows.reverse.find? fun c => c.keyKind = keyKind ∧ c.keyNamespace = keyNamespace

/-- The exact row, else the kind's wildcard row, else the fallback.
SOURCE: fold.rs:176-181 -/
def get (config : FoldConfig) (keyKind keyNamespace : String) : EntityResolutionConfig :=
  ((config.row keyKind keyNamespace).or (config.row keyKind "*")).getD config.fallback

/-- SOURCE: fold.rs:185-187 -/
def componentSizeCap (config : FoldConfig) : Option Int := config.fallback.componentSizeCap

end FoldConfig

/-! ## Refs -/

/-- The text before and after the first `c`. -/
def splitFirst (c : Char) : List Char → Option (List Char × List Char)
  | [] => none
  | x :: xs => if x = c then some ([], xs) else (splitFirst c xs).map fun p => (x :: p.1, p.2)

/-- `str::split_once(':')`. -/
def splitOnce (s : String) : Option (String × String) :=
  (splitFirst ':' s.toList).map fun p => (String.ofList p.1, String.ofList p.2)

/-- `str::rsplit_once(':')`. -/
def rsplitOnce (s : String) : Option (String × String) :=
  (splitFirst ':' s.toList.reverse).map fun p =>
    (String.ofList p.2.reverse, String.ofList p.1.reverse)

theorem splitFirst_eq_some {c : Char} {cs before after : List Char} :
    splitFirst c cs = some (before, after) ↔ cs = before ++ c :: after ∧ c ∉ before := by
  induction cs generalizing before with
  | nil => simp [splitFirst]
  | cons x xs ih =>
    unfold splitFirst
    by_cases hx : x = c
    · subst hx
      rw [if_pos rfl]
      cases before with
      | nil => simp [eq_comm]
      | cons y ys => simp +contextual [eq_comm]
    · rw [if_neg hx, Option.map_eq_some_iff]
      cases before with
      | nil => simp [hx]
      | cons y ys =>
        simp only [Prod.mk.injEq, List.cons.injEq, Prod.exists, List.cons_append,
          List.mem_cons, not_or]
        constructor
        · rintro ⟨ys', after', hsplit, ⟨rfl, rfl⟩, rfl⟩
          obtain ⟨rfl, hfresh⟩ := ih.mp hsplit
          exact ⟨⟨rfl, rfl⟩, fun h => hx h.symm, hfresh⟩
        · rintro ⟨⟨rfl, rfl⟩, _, hfresh⟩
          exact ⟨ys, after, ih.mpr ⟨rfl, hfresh⟩, ⟨rfl, rfl⟩, rfl⟩

/-- A member of an entity: the source and the id the source has for it.
SOURCE: fold.rs:41-44 -/
structure MemberRef where
  source : String
  entityId : String
deriving DecidableEq, Repr

/-- Members compare by source, then by id. -/
instance : LinearOrder MemberRef :=
  LinearOrder.lift' (fun m => toLex (m.source, m.entityId)) fun a b h => by
    cases a
    cases b
    simpa using h

/-- `key:kind:value`. SOURCE: fold.rs:216-218 -/
def isKeyNode (ref : String) : Bool := decide ("key:".toList <+: ref.toList)

/-- `chunk:source:document_id:seq`. SOURCE: fold.rs:222-224 -/
def isChunkRef (ref : String) : Bool := decide ("chunk:".toList <+: ref.toList)

/-- SOURCE: fold.rs:199-211 -/
def splitMemberRef (ref : String) : Option MemberRef :=
  if isKeyNode ref || isChunkRef ref then none
  else
    (splitOnce ref).bind fun p =>
      if p.1 = "" ∨ p.2 = "" then none else some ⟨p.1, p.2⟩

/-- The digits of a number, most significant first. -/
def parseDigits (cs : List Char) : Option Nat :=
  if cs.isEmpty then none
  else cs.foldl (fun acc c => acc.bind fun n =>
    if c.isDigit then some (10 * n + (c.toNat - '0'.toNat)) else none) (some 0)

/-- `str::parse::<i32>`: an optional sign, digits, and no overflow. -/
def parseI32 (s : String) : Option Int :=
  let value : Option Int :=
    match s.toList with
    | '-' :: cs => (parseDigits cs).map fun n => -(n : Int)
    | '+' :: cs => (parseDigits cs).map fun n => (n : Int)
    | cs => (parseDigits cs).map fun n => (n : Int)
  value.filter fun n => -2147483648 ≤ n ∧ n ≤ 2147483647

/-- The source is cut off on the left and the sequence number on the right.
SOURCE: fold.rs:230-239 -/
def parseChunkRef (ref : String) : Option (String × String × Int) := do
  let rest ← stripStart "chunk:" ref
  let (source, tail) ← splitOnce rest
  let (documentId, seqStr) ← rsplitOnce tail
  if source = "" ∨ documentId = "" then none
  else
    let seq ← parseI32 seqStr
    pure (source, documentId, seq)

example : parseChunkRef "chunk:gdrive:a:b:7" = some ("gdrive", "a:b", 7) := by decide +kernel

/-- A ref is its member, written out: no two refs split into the same member. -/
theorem splitMemberRef_eq_some {ref : String} {m : MemberRef} (h : splitMemberRef ref = some m) :
    ref.toList = m.source.toList ++ ':' :: m.entityId.toList ∧ ':' ∉ m.source.toList := by
  unfold splitMemberRef at h
  split at h
  · exact absurd h (by simp)
  · obtain ⟨⟨source, entityId⟩, hsplit, hm⟩ := Option.bind_eq_some_iff.mp h
    obtain ⟨⟨before, after⟩, hfirst, hparts⟩ := Option.map_eq_some_iff.mp hsplit
    obtain ⟨hsource, hentity⟩ := Prod.mk.inj hparts
    split at hm
    · exact absurd hm (by simp)
    · cases hm
      rw [← hsource, ← hentity]
      simpa using splitFirst_eq_some.mp hfirst

theorem splitMemberRef_injective {ref ref' : String} {m : MemberRef}
    (h : splitMemberRef ref = some m) (h' : splitMemberRef ref' = some m) : ref = ref' := by
  apply String.toList_inj.mp
  rw [(splitMemberRef_eq_some h).1, (splitMemberRef_eq_some h').1]

end Verity.Model
