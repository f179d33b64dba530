import Verity.Foundation.Fallible
import Verity.Foundation.Lexing
import Verity.Model.ManifestPath

/-!
# The grammar of dot-paths

The documented grammar of a path is a relation between its text and its segments, for one notion
of what an index is written as. The parser splits at dots first and at brackets second, and leaves
an index to the standard integer parser; what it accepts is the same grammar, with an optional
sign in front of the digits of an index. So it accepts exactly the documented paths where it is
not given one with a signed index.
-/

set_option autoImplicit false

namespace Verity.Analysis

open Verity.Foundation
open Verity.Model

variable {cs : List Char} {accessor : Accessor} {accessors : List Accessor} {n : Nat} {raw : String}
  {text : List Char} {segment : Segment} {segments : List Segment}

/-! ## The grammar

SOURCE: path.rs:5-12 -/

/-- The digits of an index. -/
def Digits (cs : List Char) (n : Nat) : Prop :=
  cs ≠ [] ∧ (∀ c ∈ cs, isAsciiDigit c = true) ∧ n = decimal cs

/-- Digits, or a `+` and digits. -/
def SignedDigits (cs : List Char) (n : Nat) : Prop :=
  Digits cs n ∨ ∃ digits, cs = '+' :: digits ∧ Digits digits n

section Grammar

variable (index : List Char → Nat → Prop)

/-- What stands between the brackets of an accessor. -/
inductive InsideText : List Char → Accessor → Prop
  | all : InsideText [] .all
  | index {inside : List Char} {i : Nat} (hindex : index inside i) : InsideText inside (.index i)

inductive AccessorsText : List Char → List Accessor → Prop
  | nil : AccessorsText [] []
  | cons {inside text : List Char} {accessor : Accessor} {accessors : List Accessor}
      (hinside : InsideText index inside accessor) (htext : AccessorsText text accessors) :
      AccessorsText ('[' :: (inside ++ ']' :: text)) (accessor :: accessors)

/-- `segment := key accessor*` -/
inductive SegmentText : List Char → Segment → Prop
  | mk {key text : List Char} {accessors : List Accessor} (hne : key ≠ [])
      (hkey : ∀ c ∈ key, isKeyChar c = true) (htext : AccessorsText index text accessors) :
      SegmentText (key ++ text) ⟨String.ofList key, accessors⟩

/-- `path := segment ("." segment)*` -/
inductive PathText : List Char → List Segment → Prop
  | segment {text : List Char} {segment : Segment} (h : SegmentText index text segment) :
      PathText text [segment]
  | dot {text rest : List Char} {segment : Segment} {segments : List Segment}
      (h : SegmentText index text segment) (hrest : PathText rest segments) :
      PathText (text ++ '.' :: rest) (segment :: segments)

end Grammar

/-- Every index of the segment is in range. -/
def InRange (segment : Segment) : Prop :=
  ∀ i, Accessor.index i ∈ segment.accessors → i ≤ Limits.maxArrayIndex

/-- The limits on a path. -/
structure WithinLimits (s : String) (segments : List Segment) : Prop where
  chars : s.length ≤ Limits.maxExprChars
  deep : segments.length ≤ Limits.maxPathSegments
  indices : ∀ segment ∈ segments, InRange segment

/-! ## The characters of a path -/

/-- The characters an index is written with. -/
def IndexChars (index : List Char → Nat → Prop) : Prop :=
  ∀ {cs : List Char} {n : Nat}, index cs n → ∀ c ∈ cs, isAsciiDigit c = true ∨ c = '+'

theorem signedDigits_chars : IndexChars SignedDigits := by
  intro cs n h c hc
  rcases h with h | ⟨digits, rfl, h⟩
  · exact .inl (h.2.1 c hc)
  · rcases List.mem_cons.mp hc with rfl | hc
    · exact .inr rfl
    · exact .inl (h.2.1 c hc)

section Characters

variable {index : List Char → Nat → Prop}

theorem insideText_chars (hindex : IndexChars index) (h : InsideText index cs accessor) :
    ∀ c ∈ cs, isAsciiDigit c = true ∨ c = '+' := by
  cases h with
  | all => simp
  | index h => exact hindex h

theorem accessorsText_chars (hindex : IndexChars index) (h : AccessorsText index cs accessors) :
    ∀ c ∈ cs, isAsciiDigit c = true ∨ c = '+' ∨ c = '[' ∨ c = ']' := by
  induction h with
  | nil => simp
  | cons hinside _ ih =>
    intro c hc
    simp only [List.mem_cons, List.mem_append] at hc
    rcases hc with rfl | hc | rfl | hc
    · exact .inr (.inr (.inl rfl))
    · rcases insideText_chars hindex hinside c hc with hdigit | hplus
      · exact .inl hdigit
      · exact .inr (.inl hplus)
    · exact .inr (.inr (.inr rfl))
    · exact ih c hc

end Characters

/-! ## Indices and accessors -/

theorem signedDigits_plus {digits : List Char} :
    SignedDigits ('+' :: digits) n ↔ Digits digits n := by
  constructor
  · rintro (⟨-, hdigits, -⟩ | ⟨digits', hcs, h⟩)
    · exact absurd (hdigits '+' List.mem_cons_self) (by decide)
    · obtain ⟨-, rfl⟩ := List.cons.inj hcs
      exact h
  · exact fun h => .inr ⟨digits, rfl, h⟩

theorem signedDigits_of_ne_plus (h : ∀ digits, cs ≠ '+' :: digits) :
    SignedDigits cs n ↔ Digits cs n := by
  constructor
  · rintro (hdigits | ⟨digits, rfl, -⟩)
    · exact hdigits
    · exact absurd rfl (h digits)
  · exact .inl

/-- The integer parser reads a signed number below the largest. -/
theorem parseUsize_eq_some : parseUsize cs = some n ↔ SignedDigits cs n ∧ n < 2 ^ 64 := by
  have hdigits : ∀ digits : List Char,
      (if digits ≠ [] ∧ digits.all isAsciiDigit ∧ decimal digits < 2 ^ 64 then
        some (decimal digits) else none) = some n ↔ Digits digits n ∧ n < 2 ^ 64 := by
    intro digits
    rw [Option.ite_none_right_eq_some, Option.some.injEq, List.all_eq_true]
    constructor
    · rintro ⟨⟨hne, hall, hlt⟩, rfl⟩
      exact ⟨⟨hne, hall, rfl⟩, hlt⟩
    · rintro ⟨⟨hne, hall, rfl⟩, hlt⟩
      exact ⟨⟨hne, hall, hlt⟩, rfl⟩
  by_cases hplus : ∃ digits, cs = '+' :: digits
  · obtain ⟨digits, rfl⟩ := hplus
    rw [signedDigits_plus]
    exact hdigits digits
  · have hplain : ∀ digits, cs ≠ '+' :: digits := fun digits h => hplus ⟨digits, h⟩
    rw [signedDigits_of_ne_plus hplain, ← hdigits]
    cases cs with
    | nil => rfl
    | cons c cs => simp [parseUsize]

theorem insideText_nil : InsideText SignedDigits [] accessor ↔ accessor = .all := by
  constructor
  · intro h
    cases h with
    | all => rfl
    | index h =>
      rcases h with h | ⟨digits, hcs, -⟩
      · exact absurd rfl h.1
      · cases hcs
  · rintro rfl
    exact .all

theorem parseAccessor_eq_ok {inside : List Char} :
    parseAccessor raw inside = .ok accessor ↔
      InsideText SignedDigits inside accessor ∧
        ∀ i, accessor = .index i → i ≤ Limits.maxArrayIndex := by
  unfold parseAccessor
  by_cases hnil : inside = []
  · rw [if_pos hnil, hnil, insideText_nil]
    constructor
    · intro h
      obtain rfl := Except.ok.inj h
      exact ⟨rfl, by simp⟩
    · rintro ⟨rfl, -⟩
      rfl
  rw [if_neg hnil]
  have hsmall : Limits.maxArrayIndex < 2 ^ 64 := by decide
  constructor
  · intro h
    cases hparse : parseUsize inside with
    | none => simp [hparse] at h
    | some i =>
      simp only [hparse] at h
      by_cases hlarge : Limits.maxArrayIndex < i
      · simp [hlarge] at h
      · rw [if_neg hlarge] at h
        obtain rfl := Except.ok.inj h
        rw [parseUsize_eq_some] at hparse
        refine ⟨.index hparse.1, fun j hj => ?_⟩
        obtain rfl := Accessor.index.inj hj
        exact Nat.not_lt.mp hlarge
  · rintro ⟨hinside, hrange⟩
    cases hinside with
    | all => exact absurd rfl hnil
    | @index _ i hindex =>
      have hi := hrange i rfl
      have hparse : parseUsize inside = some i := by
        rw [parseUsize_eq_some]
        exact ⟨hindex, Nat.lt_of_le_of_lt hi hsmall⟩
      rw [hparse]
      exact if_neg (Nat.not_lt.mpr hi)

/-! ## Segments -/

/-- Where the text falls at its first closing bracket, its accessors do. -/
theorem accessorsText_separated {index : List Char → Nat → Prop} (hindex : IndexChars index)
    {front back : List Char} (hfront : ']' ∉ front) :
    AccessorsText index (front ++ ']' :: back) accessors ↔
      ∃ inside accessor rest, front = '[' :: inside ∧ accessors = accessor :: rest ∧
        InsideText index inside accessor ∧ AccessorsText index back rest := by
  constructor
  · intro h
    generalize hcs : front ++ ']' :: back = cs at h
    cases h with
    | nil => simp at hcs
    | @cons inside text accessor rest hinside htext =>
      have hclose : ']' ∉ '[' :: inside := by
        intro hmem
        rcases List.mem_cons.mp hmem with h | hmem
        · exact absurd h (by decide)
        · rcases insideText_chars hindex hinside _ hmem with h | h
          · exact absurd h (by decide)
          · exact absurd h (by decide)
      obtain ⟨rfl, rfl⟩ := append_cons_inj_of_notMem hfront hclose hcs
      exact ⟨inside, accessor, rest, rfl, rfl, hinside, htext⟩
  · rintro ⟨inside, accessor, rest, rfl, rfl, hinside, htext⟩
    exact .cons hinside htext

theorem accessorsText_of_notMem {index : List Char → Nat → Prop} (h : ']' ∉ text) :
    AccessorsText index text accessors ↔ text = [] ∧ accessors = [] := by
  constructor
  · intro htext
    cases htext with
    | nil => exact ⟨rfl, rfl⟩
    | cons => exact absurd (by simp) h
  · rintro ⟨rfl, rfl⟩
    exact .nil

/-- The accessors are read as the grammar has them. -/
theorem parseAccessors_eq_ok :
    parseAccessors raw (text.splitOn ']') = .ok accessors ↔
      AccessorsText SignedDigits text accessors ∧
        ∀ i, Accessor.index i ∈ accessors → i ≤ Limits.maxArrayIndex := by
  induction text using separated_induction ']' generalizing accessors with
  | last text hclose =>
    rw [List.splitOn_eq_singleton hclose, accessorsText_of_notMem hclose, parseAccessors]
    by_cases hnil : text = []
    · rw [if_pos hnil]
      constructor
      · intro h
        obtain rfl := Except.ok.inj h
        exact ⟨⟨hnil, rfl⟩, by simp⟩
      · rintro ⟨⟨-, rfl⟩, -⟩
        rfl
    · rw [if_neg hnil]
      simp [hnil]
  | step front back hfront ih =>
    rw [List.splitOn_append_cons_self_of_not_mem hfront,
      accessorsText_separated signedDigits_chars hfront]
    obtain ⟨next, parts, hparts⟩ := List.exists_cons_of_ne_nil (List.splitOn_ne_nil ']' back)
    rw [hparts] at ih ⊢
    constructor
    · intro h
      cases hcase : front with
      | nil => simp [parseAccessors, hcase] at h
      | cons c inside =>
        by_cases hc : c = '['
        · rw [hcase, hc, parseAccessors] at h
          obtain ⟨accessor, haccessor, h⟩ := except_bind_eq_ok_iff.mp h
          obtain ⟨rest, hrest, rfl⟩ := except_map_eq_ok_iff.mp h
          rw [parseAccessor_eq_ok] at haccessor
          obtain ⟨hinside, hindex⟩ := haccessor
          obtain ⟨htext, hindices⟩ := ih.mp hrest
          refine ⟨⟨inside, accessor, rest, by rw [hc], rfl, hinside, htext⟩, fun i hi => ?_⟩
          rcases List.mem_cons.mp hi with hi | hi
          · exact hindex i hi.symm
          · exact hindices i hi
        · simp [parseAccessors, hcase, hc] at h
    · rintro ⟨⟨inside, accessor, rest, rfl, rfl, hinside, htext⟩, hindices⟩
      have haccessor : parseAccessor raw inside = .ok accessor := by
        rw [parseAccessor_eq_ok]
        exact ⟨hinside, fun i hi => hindices i (by simp [hi])⟩
      have hrest : parseAccessors raw (next :: parts) = .ok rest :=
        ih.mpr ⟨htext, fun i hi => hindices i (List.mem_cons_of_mem _ hi)⟩
      rw [parseAccessors, haccessor, hrest]
      rfl

/-- A segment is parsed as the grammar derives it, within the range of indices. -/
theorem parseSegment_eq_ok :
    parseSegment raw = .ok segment ↔
      SegmentText SignedDigits raw.toList segment ∧ InRange segment := by
  have hkeyChar : ∀ c, isKeyChar c = true → (c != '[') = true := by
    intro c hc
    simp only [bne_iff_ne]
    rintro rfl
    exact absurd hc (by decide)
  unfold parseSegment
  dsimp only
  constructor
  · intro h
    split at h
    · cases h
    · next hkey =>
        obtain ⟨hne, hall⟩ := not_or.mp hkey
        obtain ⟨accessors, haccessors, rfl⟩ := except_map_eq_ok_iff.mp h
        rw [parseAccessors_eq_ok] at haccessors
        obtain ⟨htext, hindices⟩ := haccessors
        refine ⟨?_, hindices⟩
        have hsegment := SegmentText.mk hne (List.all_eq_true.mp (not_not.mp hall)) htext
        rwa [List.takeWhile_append_dropWhile] at hsegment
  · rintro ⟨hsegment, hindices⟩
    generalize htext : raw.toList = text at hsegment
    cases hsegment with
    | @mk key text accessors hne hkey haccessors =>
      have hstop : Stops (· != '[') text := by
        cases haccessors with
        | nil => exact stops_nil
        | cons => exact stops_cons (by decide)
      have htake := takeWhile_append_stops (fun c hc => hkeyChar c (hkey c hc)) hstop
      have hdrop := dropWhile_append_stops (fun c hc => hkeyChar c (hkey c hc)) hstop
      have hparse : parseAccessors raw (text.splitOn ']') = .ok accessors := by
        rw [parseAccessors_eq_ok]
        exact ⟨haccessors, hindices⟩
      rw [htake, hdrop, if_neg (not_or.mpr ⟨hne, not_not.mpr (List.all_eq_true.mpr hkey)⟩),
        hparse]
      rfl

/-! ## Paths -/

theorem segmentText_notMem_dot (h : SegmentText SignedDigits text segment) : '.' ∉ text := by
  cases h with
  | @mk key text accessors _ hkey haccessors =>
    intro hmem
    rcases List.mem_append.mp hmem with hmem | hmem
    · exact absurd (hkey _ hmem) (by decide)
    · exact absurd (accessorsText_chars signedDigits_chars haccessors _ hmem) (by decide)

/-- Where the text falls at its first dot, its segments do. -/
theorem pathText_separated {front back : List Char} (hfront : '.' ∉ front) :
    PathText SignedDigits (front ++ '.' :: back) segments ↔
      ∃ segment rest, segments = segment :: rest ∧ SegmentText SignedDigits front segment ∧
        PathText SignedDigits back rest := by
  constructor
  · intro h
    generalize hcs : front ++ '.' :: back = cs at h
    cases h with
    | segment h =>
      rw [← hcs] at h
      exact absurd (by simp) (segmentText_notMem_dot h)
    | dot h hrest =>
      obtain ⟨rfl, rfl⟩ := append_cons_inj_of_notMem hfront (segmentText_notMem_dot h) hcs
      exact ⟨_, _, rfl, h, hrest⟩
  · rintro ⟨segment, rest, rfl, h, hrest⟩
    exact .dot h hrest

theorem pathText_of_notMem (hdot : '.' ∉ text) :
    PathText SignedDigits text segments ↔
      ∃ segment, segments = [segment] ∧ SegmentText SignedDigits text segment := by
  constructor
  · intro h
    cases h with
    | segment h => exact ⟨_, rfl, h⟩
    | dot => exact absurd (by simp) hdot
  · rintro ⟨segment, rfl, h⟩
    exact .segment h

/-- The loop over the segments, from those parsed so far. -/
theorem parseSegments_eq_ok {parsed : List Segment} :
    parseSegments parsed ((text.splitOn '.').map String.ofList) = .ok segments ↔
      ∃ more, segments = parsed ++ more ∧ PathText SignedDigits text more ∧
        parsed.length + more.length ≤ Limits.maxPathSegments ∧
          ∀ segment ∈ more, InRange segment := by
  induction text using separated_induction '.' generalizing parsed segments with
  | last text hdot =>
    rw [List.splitOn_eq_singleton hdot, List.map_singleton, parseSegments]
    constructor
    · intro h
      split at h
      · cases h
      · next hdeep =>
          obtain ⟨segment, hsegment, h⟩ := except_bind_eq_ok_iff.mp h
          obtain rfl := Except.ok.inj h
          rw [parseSegment_eq_ok, String.toList_ofList] at hsegment
          obtain ⟨htext, hrange⟩ := hsegment
          exact ⟨[segment], rfl, .segment htext, Nat.lt_of_not_le hdeep, by simpa using hrange⟩
    · rintro ⟨more, rfl, htext, hdeep, hrange⟩
      obtain ⟨segment, rfl, hsegment⟩ := (pathText_of_notMem hdot).mp htext
      have hparse : parseSegment (String.ofList text) = .ok segment := by
        rw [parseSegment_eq_ok, String.toList_ofList]
        exact ⟨hsegment, hrange segment List.mem_cons_self⟩
      rw [if_neg (Nat.not_le_of_lt hdeep), hparse]
      rfl
  | step front back hfront ih =>
    rw [List.splitOn_append_cons_self_of_not_mem hfront, List.map_cons, parseSegments]
    constructor
    · intro h
      split at h
      · cases h
      · next hdeep =>
          obtain ⟨segment, hsegment, h⟩ := except_bind_eq_ok_iff.mp h
          obtain ⟨rest, rfl, hrest, hlen, hranges⟩ := ih.mp h
          rw [parseSegment_eq_ok, String.toList_ofList] at hsegment
          obtain ⟨htext, hrange⟩ := hsegment
          refine ⟨segment :: rest, by simp, .dot htext hrest, ?_, ?_⟩
          · simp only [List.length_append, List.length_cons, List.length_nil] at hlen ⊢
            omega
          · exact List.forall_mem_cons.mpr ⟨hrange, hranges⟩
    · rintro ⟨more, rfl, htext, hdeep, hranges⟩
      obtain ⟨segment, rest, rfl, hsegment, hrest⟩ := (pathText_separated hfront).mp htext
      obtain ⟨hrange, hranges⟩ := List.forall_mem_cons.mp hranges
      have hparse : parseSegment (String.ofList front) = .ok segment := by
        rw [parseSegment_eq_ok, String.toList_ofList]
        exact ⟨hsegment, hrange⟩
      simp only [List.length_cons] at hdeep
      rw [if_neg (by omega), hparse]
      refine ih.mpr ⟨rest, by simp, hrest, ?_, hranges⟩
      simp only [List.length_append, List.length_cons, List.length_nil]
      omega

theorem pathText_ne_nil {index : List Char → Nat → Prop} (h : PathText index text segments) :
    text ≠ [] := by
  have hsegment : ∀ {t : List Char} {s : Segment}, SegmentText index t s → t ≠ [] := by
    intro t s ht
    cases ht with
    | mk hne => exact fun h => hne (List.append_eq_nil_iff.mp h).1
  cases h with
  | segment h => exact hsegment h
  | dot h => simp

/-- The parser accepts the grammar with signs in front of the indices, within the limits. -/
theorem parse_eq_ok {s : String} (htrim : trim s = s) {path : DotPath} :
    DotPath.parse s = .ok path ↔
      path.text = s ∧ PathText SignedDigits s.toList path.segments ∧
        WithinLimits s path.segments := by
  unfold DotPath.parse
  rw [htrim]
  dsimp only [splitAtChar]
  constructor
  · intro h
    split at h
    · cases h
    split at h
    · cases h
    next hlong =>
      obtain ⟨segments, hsegments, rfl⟩ := except_map_eq_ok_iff.mp h
      rw [parseSegments_eq_ok] at hsegments
      obtain ⟨more, rfl, htext, hdeep, hranges⟩ := hsegments
      exact ⟨rfl, htext, Nat.not_lt.mp hlong, by simpa using hdeep, hranges⟩
  · rintro ⟨htext, hpath, hlimits⟩
    obtain ⟨segments, text⟩ := path
    obtain rfl := htext
    have hempty : text ≠ "" := by
      rintro rfl
      exact pathText_ne_nil hpath rfl
    have hparse : parseSegments [] ((text.toList.splitOn '.').map String.ofList) =
        .ok segments := by
      rw [parseSegments_eq_ok]
      exact ⟨segments, rfl, hpath, by simpa using hlimits.deep, hlimits.indices⟩
    rw [if_neg hempty, if_neg (Nat.not_lt.mpr hlimits.chars), hparse]
    rfl

/-! ## Signs -/

theorem insideText_of_digits (h : InsideText Digits cs accessor) :
    InsideText SignedDigits cs accessor ∧ '+' ∉ cs := by
  cases h with
  | all => exact ⟨.all, by simp⟩
  | index h => exact ⟨.index (.inl h), fun hmem => absurd (h.2.1 _ hmem) (by decide)⟩

theorem insideText_of_notMem (h : InsideText SignedDigits cs accessor) (hplus : '+' ∉ cs) :
    InsideText Digits cs accessor := by
  cases h with
  | all => exact .all
  | index h =>
    rcases h with h | ⟨digits, rfl, -⟩
    · exact .index h
    · exact absurd List.mem_cons_self hplus

/-- A text of the documented grammar is one of the signed grammar without a `+`. -/
theorem accessorsText_digits_iff :
    AccessorsText Digits text accessors ↔
      AccessorsText SignedDigits text accessors ∧ '+' ∉ text := by
  constructor
  · intro h
    induction h with
    | nil => exact ⟨.nil, by simp⟩
    | cons hinside _ ih =>
      obtain ⟨hsigned, hplus⟩ := insideText_of_digits hinside
      exact ⟨.cons hsigned ih.1, by simp [hplus, ih.2]⟩
  · rintro ⟨h, hplus⟩
    induction h with
    | nil => exact .nil
    | cons hinside _ ih =>
      simp only [List.mem_cons, List.mem_append, not_or] at hplus
      exact .cons (insideText_of_notMem hinside hplus.2.1) (ih hplus.2.2.2)

theorem segmentText_digits_iff :
    SegmentText Digits text segment ↔ SegmentText SignedDigits text segment ∧ '+' ∉ text := by
  constructor
  · intro h
    cases h with
    | mk hne hkey htext =>
      obtain ⟨hsigned, hplus⟩ := accessorsText_digits_iff.mp htext
      refine ⟨.mk hne hkey hsigned, fun hmem => ?_⟩
      rcases List.mem_append.mp hmem with hmem | hmem
      · exact absurd (hkey _ hmem) (by decide)
      · exact hplus hmem
  · rintro ⟨h, hplus⟩
    cases h with
    | mk hne hkey htext =>
      simp only [List.mem_append, not_or] at hplus
      exact .mk hne hkey (accessorsText_digits_iff.mpr ⟨htext, hplus.2⟩)

theorem pathText_digits_iff :
    PathText Digits text segments ↔ PathText SignedDigits text segments ∧ '+' ∉ text := by
  constructor
  · intro h
    induction h with
    | segment h =>
      obtain ⟨hsigned, hplus⟩ := segmentText_digits_iff.mp h
      exact ⟨.segment hsigned, hplus⟩
    | dot h _ ih =>
      obtain ⟨hsigned, hplus⟩ := segmentText_digits_iff.mp h
      exact ⟨.dot hsigned ih.1, by simp [hplus, ih.2]⟩
  · rintro ⟨h, hplus⟩
    induction h with
    | segment h => exact .segment (segmentText_digits_iff.mpr ⟨h, hplus⟩)
    | dot h _ ih =>
      simp only [List.mem_cons, List.mem_append, not_or] at hplus
      exact .dot (segmentText_digits_iff.mpr ⟨h, hplus.1⟩) (ih hplus.2.2)

/-- A path that would be documented but for the sign of an index. -/
def HasSignedIndex (s : String) : Prop :=
  '+' ∈ s.toList ∧ ∃ segments, PathText SignedDigits s.toList segments ∧ WithinLimits s segments

/-- The parser accepts exactly the documented paths within the limits, with the segments of their
derivation, where the text is not a path with a signed index. -/
theorem accepts_documented_iff {s : String} (htrim : trim s = s) :
    (∀ path, DotPath.parse s = .ok path ↔
        path.text = s ∧ PathText Digits s.toList path.segments ∧ WithinLimits s path.segments) ↔
      ¬HasSignedIndex s := by
  constructor
  · rintro h ⟨hplus, segments, hpath, hlimits⟩
    have hparse : DotPath.parse s = .ok ⟨segments, s⟩ :=
      (parse_eq_ok htrim).mpr ⟨rfl, hpath, hlimits⟩
    obtain ⟨-, hdigits, -⟩ := (h _).mp hparse
    exact (pathText_digits_iff.mp hdigits).2 hplus
  · intro hsigned path
    rw [parse_eq_ok htrim, pathText_digits_iff]
    constructor
    · rintro ⟨htext, hpath, hlimits⟩
      exact ⟨htext, ⟨hpath, fun hplus => hsigned ⟨hplus, _, hpath, hlimits⟩⟩, hlimits⟩
    · rintro ⟨htext, ⟨hpath, -⟩, hlimits⟩
      exact ⟨htext, hpath, hlimits⟩

def labelsPath : DotPath :=
  ⟨[⟨"data", []⟩, ⟨"labels", [.index 0]⟩, ⟨"name", []⟩], "data.labels[0].name"⟩

/-- A path with brackets and dots. -/
theorem labels_path_accepted : DotPath.parse "data.labels[0].name" = .ok labelsPath ∧
    labelsPath.text = "data.labels[0].name" ∧
    PathText Digits "data.labels[0].name".toList labelsPath.segments ∧
    WithinLimits "data.labels[0].name" labelsPath.segments := by
  have hparse : DotPath.parse "data.labels[0].name" = .ok labelsPath := by decide
  have hsigned : ¬HasSignedIndex "data.labels[0].name" := fun h => absurd h.1 (by decide)
  have haccepts := accepts_documented_iff (s := "data.labels[0].name") (by decide)
  exact ⟨hparse, (haccepts.mpr hsigned labelsPath).mp hparse⟩

/-- The index `+5` is read as `5`, and is not an index of the grammar. -/
theorem signed_index_accepted :
    DotPath.parse "a[+5]" = .ok ⟨[⟨"a", [.index 5]⟩], "a[+5]"⟩ ∧
      ¬∃ segments, PathText Digits "a[+5]".toList segments := by
  refine ⟨by decide, ?_⟩
  rintro ⟨segments, h⟩
  exact (pathText_digits_iff.mp h).2 (by decide)

end Verity.Analysis
