import Verity.Analysis.ConnectorDomains

/-!
# What stands behind a host

A host cannot hold a delimiter, so whatever the searches for a scheme, a userinfo and a path find
in `host/…` they find behind the host. The path is cut last. An `@` behind the host is taken for
the end of a userinfo, and, when no scheme stands in front, a `://` behind it for the end of a
scheme: the host is then read from the text that follows, and the key of a URL is that of its
host exactly when that text names the same domain.
-/

set_option autoImplicit false

namespace Verity.Analysis

open Verity.Foundation Verity.Model

variable {c : Char} {s front : String} {rest : List Char}

/-! ## Hosts, schemes and what follows -/

/-- A letter, a digit or a hyphen. -/
def isHostChar (c : Char) : Bool :=
  decide ('a' ≤ c ∧ c ≤ 'z') || decide ('0' ≤ c ∧ c ≤ '9') || c == '-'

/-- Labels of letters, digits and hyphens. -/
structure HostName where
  labels : List String
  ne_nil : labels ≠ []
  label_ne : ∀ label ∈ labels, label ≠ ""
  hostChar : ∀ label ∈ labels, ∀ c ∈ label.toList, isHostChar c = true

/-- The labels, joined by dots. -/
def HostName.text (h : HostName) : String := ".".intercalate h.labels

/-- Letters, or anything else that is neither a colon nor white space. -/
structure Scheme where
  text : String
  schemeChar : ∀ c ∈ text.toList, c ≠ ':' ∧ isWhitespace c = false

/-- A path, a query or a fragment, with all that follows. -/
structure UrlSuffix where
  text : String
  starts : ∃ c rest, text.toList = c :: rest ∧ c ∈ ['/', '?', '#']

/-- A character of a host is no delimiter, is not white space, and is in lower case. -/
theorem hostChar_spec (h : isHostChar c = true ∨ c = '.') :
    c ∉ ['/', '?', '#', ':', '@', ' '] ∧ isWhitespace c = false ∧ asciiLower c = c := by
  have hall : ∀ c : Char, isHostChar c = true ∨ c = '.' →
      c ∉ ['/', '?', '#', ':', '@', ' '] ∧ isWhitespace c = false ∧ asciiLower c = c := by
    refine char_forall (by decide +kernel) fun c hc hhost => ?_
    have hle : c.toNat ≤ 122 := by
      rcases hhost with hhost | rfl
      · simp only [isHostChar, Bool.or_eq_true, decide_eq_true_eq, beq_iff_eq] at hhost
        rcases hhost with (⟨_, hz⟩ | ⟨_, hnine⟩) | rfl
        · exact hz
        · exact le_trans hnine (by decide)
        · decide
      · decide
    omega
  exact hall c h

theorem mem_intercalate {α : Type} {sep : List α} {parts : List (List α)} {a : α}
    (h : a ∈ sep.intercalate parts) : a ∈ sep ∨ ∃ part ∈ parts, a ∈ part := by
  induction parts with
  | nil => exact absurd h (by simp [List.intercalate])
  | cons part parts ih =>
    cases parts with
    | nil => exact Or.inr ⟨part, by simp, by simpa [List.intercalate] using h⟩
    | cons next parts =>
      rw [List.intercalate_cons_cons, List.mem_append, List.mem_append] at h
      rcases h with (h | h) | h
      · exact Or.inr ⟨part, by simp, h⟩
      · exact Or.inl h
      · rcases ih h with h | ⟨part', hpart', h⟩
        · exact Or.inl h
        · exact Or.inr ⟨part', List.mem_cons_of_mem _ hpart', h⟩

theorem HostName.mem_text {h : HostName} (hc : c ∈ h.text.toList) :
    c ∉ ['/', '?', '#', ':', '@', ' '] ∧ isWhitespace c = false ∧ asciiLower c = c := by
  unfold HostName.text at hc
  rw [String.toList_intercalate] at hc
  apply hostChar_spec
  rcases mem_intercalate hc with hdot | ⟨part, hpart, hin⟩
  · exact Or.inr (List.mem_singleton.mp hdot)
  · obtain ⟨label, hlabel, rfl⟩ := List.mem_map.mp hpart
    exact Or.inl (h.hostChar label hlabel c hin)

theorem HostName.not_mem_text (h : HostName) (hc : c ∈ ['/', '?', '#', ':', '@', ' ']) :
    c ∉ h.text.toList := fun hin => (HostName.mem_text hin).1 hc

/-- Joined labels begin as the first of them does. -/
theorem head?_intercalate (sep : String) {first : String} (h : first ≠ "") (rest : List String) :
    (sep.intercalate (first :: rest)).toList.head? = first.toList.head? := by
  have hne := mt String.toList_eq_nil_iff.mp h
  cases rest with
  | nil => rw [String.intercalate_singleton]
  | cons second rest =>
    rw [String.intercalate_cons_cons, String.toList_append, String.toList_append,
      List.append_assoc, List.head?_append_of_ne_nil _ hne]

/-- Joined labels end as the last of them does. -/
theorem getLast?_intercalate (sep : String) {last : String} (h : last ≠ "") (front : List String) :
    (sep.intercalate (front ++ [last])).toList.getLast? = last.toList.getLast? := by
  have hne := mt String.toList_eq_nil_iff.mp h
  cases front with
  | nil => rw [List.nil_append, String.intercalate_singleton]
  | cons first front =>
    rw [String.intercalate_append_of_ne_nil (by simp) (by simp), String.intercalate_singleton,
      String.toList_append, List.getLast?_append_of_ne_nil _ hne]

/-- Labels that are joined by dots have no dot at their ends. -/
theorem trimMatches_intercalate {labels : List String} (hne : labels ≠ [])
    (h : ∀ label ∈ labels, label ≠ "" ∧ '.' ∉ label.toList) :
    trimMatches '.' (".".intercalate labels) = ".".intercalate labels := by
  have hdot : ∀ label ∈ labels, ∀ c ∈ label.toList, (c == '.') = false := by
    intro label hlabel c hc
    rw [beq_eq_false_iff_ne]
    rintro rfl
    exact (h label hlabel).2 hc
  apply String.toList_inj.mp
  rw [toList_trimMatches]
  refine trimList_eq_self (fun c hc => ?_) fun c hc => ?_
  · obtain ⟨first, rest, rfl⟩ := List.exists_cons_of_ne_nil hne
    rw [head?_intercalate "." (h first List.mem_cons_self).1 rest] at hc
    exact hdot first List.mem_cons_self c (List.mem_of_head? hc)
  · obtain ⟨front, last, rfl⟩ := List.eq_nil_or_concat' labels |>.resolve_left hne
    have hlast : last ∈ front ++ [last] := by simp
    rw [getLast?_intercalate "." (h last hlast).1 front] at hc
    exact hdot last hlast c (List.mem_of_getLast? hc)

theorem HostName.trimMatches_text (h : HostName) : trimMatches '.' h.text = h.text := by
  refine trimMatches_intercalate h.ne_nil fun label hlabel => ⟨h.label_ne label hlabel, ?_⟩
  intro hdot
  exact absurd (h.hostChar label hlabel '.' hdot) (by decide)

theorem trim_of_not_whitespace (h : ∀ c ∈ s.toList, isWhitespace c = false) : trim s = s := by
  apply String.toList_inj.mp
  rw [toList_trim]
  exact trimList_eq_self (fun c hc => h c (List.mem_of_head? hc))
    fun c hc => h c (List.mem_of_getLast? hc)

/-! ## What the searches find -/

/-- The text after the last `@`, if there is one. -/
def afterLastAt (s : String) : Option String := (rsplitOnceAt '@' s).map Prod.snd

/-- What is read as the host in place of the one in front of `s`, when no scheme stands before
it. -/
def bareRest (s : String) : Option String :=
  match afterFirst "://".toList s.toList with
  | some rest => some (withoutUserinfo (String.ofList rest))
  | none => afterLastAt s

/-- A text that begins with other characters is found behind them. -/
theorem afterFirst_append {first : Char} {part front s : List Char} (h : first ∉ front) :
    afterFirst (first :: part) (front ++ s) = afterFirst (first :: part) s := by
  induction front with
  | nil => rfl
  | cons c front ih =>
    rw [List.mem_cons, not_or] at h
    have hne : ¬ (first :: part) <+: c :: (front ++ s) := fun hprefix =>
      h.1 (List.cons_prefix_cons.mp hprefix).1
    rw [List.cons_append, afterFirst, if_neg hne]
    exact ih h.2

theorem rsplitOnceAt_eq_some {before after : String} :
    rsplitOnceAt c s = some (before, after) ↔
      s.toList = before.toList ++ c :: after.toList ∧ c ∉ after.toList := by
  unfold rsplitOnceAt
  rw [Option.map_eq_some_iff]
  constructor
  · rintro ⟨⟨cs, cs'⟩, hsplit, hparts⟩
    obtain ⟨rfl, rfl⟩ := Prod.mk.inj hparts
    obtain ⟨hs, hfresh⟩ := splitFirst_eq_some.mp hsplit
    have hrev := congrArg List.reverse hs
    rw [List.reverse_reverse, List.reverse_append, List.reverse_cons] at hrev
    rw [String.toList_ofList, String.toList_ofList]
    exact ⟨by simpa using hrev, by simpa using hfresh⟩
  · rintro ⟨hs, hfresh⟩
    refine ⟨(after.toList.reverse, before.toList.reverse),
      splitFirst_eq_some.mpr ⟨?_, by simpa using hfresh⟩, ?_⟩
    · rw [hs]
      simp
    · simp

theorem rsplitOnceAt_eq_none : rsplitOnceAt c s = none ↔ c ∉ s.toList := by
  constructor
  · intro h hc
    obtain ⟨before, after, hs, hfresh⟩ := List.eq_append_cons_of_mem (List.mem_reverse.mpr hc)
    have hrev := congrArg List.reverse hs
    rw [List.reverse_reverse, List.reverse_append, List.reverse_cons] at hrev
    have hsome : rsplitOnceAt c s =
        some (String.ofList after.reverse, String.ofList before.reverse) := by
      refine rsplitOnceAt_eq_some.mpr ⟨?_, by simpa using hfresh⟩
      rw [hrev]
      simp
    rw [hsome] at h
    exact absurd h (by simp)
  · intro h
    rw [Option.eq_none_iff_forall_ne_some]
    rintro ⟨before, after⟩ hsplit
    rw [(rsplitOnceAt_eq_some.mp hsplit).1] at h
    exact h (by simp)

theorem splitFirst_append_fst {cs back : List Char} (h : c ∉ back) :
    (splitFirst c (cs ++ back)).map Prod.fst = (splitFirst c cs).map Prod.fst := by
  induction cs with
  | nil =>
    have hnone : splitFirst c back = none := by
      rw [Option.eq_none_iff_forall_ne_some]
      rintro ⟨before, after⟩ hsplit
      rw [(splitFirst_eq_some.mp hsplit).1] at h
      exact h (by simp)
    rw [List.nil_append, hnone]
    rfl
  | cons x cs ih =>
    rw [List.cons_append, splitFirst, splitFirst]
    by_cases hx : x = c
    · rw [if_pos hx, if_pos hx]
      rfl
    · have hcons : ∀ found : Option (List Char × List Char),
          (found.map fun p => (x :: p.1, p.2)).map Prod.fst =
            (found.map Prod.fst).map (x :: ·) := by
        rintro (_ | found) <;> rfl
      rw [if_neg hx, if_neg hx, hcons, hcons, ih]

theorem afterLastAt_append (h : '@' ∉ front.toList) : afterLastAt (front ++ s) = afterLastAt s := by
  have hrev : ∀ t : String, afterLastAt t =
      ((splitFirst '@' t.toList.reverse).map Prod.fst).map fun cs =>
        String.ofList cs.reverse := by
    intro t
    unfold afterLastAt rsplitOnceAt
    cases splitFirst '@' t.toList.reverse <;> rfl
  rw [hrev, hrev, String.toList_append, List.reverse_append,
    splitFirst_append_fst (by simpa using h)]

theorem beforeChar_append (h : c ∉ front.toList) :
    beforeChar c (front ++ s) = front ++ beforeChar c s := by
  apply String.toList_inj.mp
  unfold beforeChar
  rw [String.toList_ofList, String.toList_append, String.toList_append, String.toList_ofList]
  refine List.takeWhile_append_of_pos fun a ha => ?_
  rw [decide_eq_true_eq]
  rintro rfl
  exact h ha

theorem withoutPath_append (h : HostName) (s : String) :
    withoutPath (h.text ++ s) = h.text ++ withoutPath s := by
  unfold withoutPath
  simp only [List.foldl_cons, List.foldl_nil]
  rw [beforeChar_append (h.not_mem_text (by simp)), beforeChar_append (h.not_mem_text (by simp)),
    beforeChar_append (h.not_mem_text (by simp))]

/-- A path, query or fragment is cut off from its first character on. -/
theorem withoutPath_of_starts (hs : s.toList = c :: rest) (hc : c ∈ ['/', '?', '#']) :
    withoutPath s = "" := by
  have hcut : ∀ (sep : Char) (rest : List Char), beforeChar sep (String.ofList (c :: rest)) =
      if c = sep then "" else String.ofList (c :: rest.takeWhile (· ≠ sep)) := by
    intro sep rest
    unfold beforeChar
    rw [String.toList_ofList, List.takeWhile_cons]
    by_cases h : c = sep <;> simp [h]
  have hempty : ∀ sep : Char, beforeChar sep "" = "" := fun sep => rfl
  obtain rfl : s = String.ofList (c :: rest) := by rw [← hs, String.ofList_toList]
  unfold withoutPath
  simp only [List.foldl_cons, List.foldl_nil]
  simp only [List.mem_cons, List.not_mem_nil, or_false] at hc
  rcases hc with rfl | rfl | rfl
  · rw [hcut, if_pos rfl, hempty, hempty]
  · rw [hcut, if_neg (by decide), hcut, if_pos rfl, hempty]
  · rw [hcut, if_neg (by decide), hcut, if_neg (by decide), hcut, if_pos rfl]

theorem stripStart_append_none {start : String} (h : HostName) (hs : s.toList = c :: rest)
    (hc : c ∉ start.toList) (hcolon : ':' ∈ start.toList) :
    stripStart start (h.text ++ s) = none := by
  refine if_neg fun hprefix => ?_
  rw [String.toList_append, hs] at hprefix
  exact h.not_mem_text (by simp) ((prefix_of_prefix_append_cons hprefix hc).subset hcolon)

/-- Without a scheme in front, the searches find what they find behind the host. -/
theorem withoutUserinfo_bare (h : HostName) (hs : s.toList = c :: rest) (hc : c ∈ ['/', '?', '#']) :
    withoutUserinfo (withoutScheme (h.text ++ s)) = (bareRest s).getD (h.text ++ s) := by
  have hfind : afterFirst "://".toList (h.text ++ s).toList = afterFirst "://".toList s.toList := by
    have hcolon : ':' ∉ h.text.toList := h.not_mem_text (by simp)
    rw [String.toList_append]
    exact afterFirst_append hcolon
  have hmailto : c ∉ "mailto:".toList := by
    simp only [List.mem_cons, List.not_mem_nil, or_false] at hc
    rcases hc with rfl | rfl | rfl <;> decide
  unfold withoutScheme bareRest
  rw [hfind]
  cases afterFirst "://".toList s.toList with
  | some found => rfl
  | none =>
    dsimp only
    rw [stripStart_append_none h hs hmailto (by decide), Option.getD_none]
    change (afterLastAt (h.text ++ s)).getD _ = _
    rw [afterLastAt_append (h.not_mem_text (by simp))]

/-- Behind a scheme, only an `@` is looked for. -/
theorem withoutUserinfo_url (h : HostName) (hfront : ':' ∉ front.toList) :
    withoutUserinfo (withoutScheme (front ++ "://" ++ (h.text ++ s))) =
      (afterLastAt s).getD (h.text ++ s) := by
  have hfind : afterFirst "://".toList (front ++ "://" ++ (h.text ++ s)).toList =
      some (h.text ++ s).toList := by
    rw [String.toList_append, String.toList_append, List.append_assoc]
    refine (afterFirst_append hfront).trans ?_
    exact if_pos (List.prefix_append _ _)
  unfold withoutScheme
  rw [hfind]
  dsimp only
  rw [String.ofList_toList]
  change (afterLastAt (h.text ++ s)).getD _ = _
  rw [afterLastAt_append (h.not_mem_text (by simp))]

/-! ## The host that is kept -/

/-- The host a text stands for once scheme and userinfo are gone. -/
def restHost (s : String) : String := trim (trimMatches '.' (withoutPort (withoutPath s)))

/-- What follows a host, as the searches see it. -/
def UrlSuffix.normal (s : UrlSuffix) : String := toAsciiLowercase (trim s.text)

theorem trim_append (hfront : ∀ a ∈ front.toList, isWhitespace a = false)
    (hs : s.toList = c :: rest) (hc : isWhitespace c = false) :
    trim (front ++ s) = front ++ trim s := by
  apply String.toList_inj.mp
  rw [String.toList_append, toList_trim, toList_trim, String.toList_append, hs,
    trimList_cons_of_not hc, trimList]
  have hdrop : (front.toList ++ c :: rest).dropWhile isWhitespace = front.toList ++ c :: rest := by
    cases hcs : front.toList with
    | nil => exact List.dropWhile_cons_of_neg (by simp [hc])
    | cons a cs =>
      refine List.dropWhile_cons_of_neg ?_
      simp [hfront a (by simp [hcs])]
  rw [hdrop, rdropWhile_append_of_not hc]

theorem toAsciiLowercase_append (s s' : String) :
    toAsciiLowercase (s ++ s') = toAsciiLowercase s ++ toAsciiLowercase s' := by
  apply String.toList_inj.mp
  simp only [toList_toAsciiLowercase, String.toList_append, List.map_append]

theorem separator_plain : ∀ c ∈ ['/', '?', '#'], isWhitespace c = false ∧ asciiLower c = c :=
  forall_mem_of_all (by decide)

/-- What is left of a suffix behind a text without whitespace. -/
theorem UrlSuffix.read_append (s : UrlSuffix)
    (hfront : ∀ a ∈ front.toList, isWhitespace a = false) :
    toAsciiLowercase (trim (front ++ s.text)) = toAsciiLowercase front ++ s.normal := by
  obtain ⟨c, rest, hs, hc⟩ := s.starts
  rw [trim_append hfront hs (separator_plain c hc).1, toAsciiLowercase_append]
  rfl

theorem UrlSuffix.normal_starts (s : UrlSuffix) :
    ∃ c rest, s.normal.toList = c :: rest ∧ c ∈ ['/', '?', '#'] := by
  obtain ⟨c, rest, hs, hc⟩ := s.starts
  obtain ⟨hspace, hlower⟩ := separator_plain c hc
  refine ⟨c, (rest.rdropWhile isWhitespace).map asciiLower, ?_, hc⟩
  rw [UrlSuffix.normal, toList_toAsciiLowercase, toList_trim, hs, trimList_cons_of_not hspace,
    List.map_cons, hlower]

theorem HostName.toAsciiLowercase_text (h : HostName) : toAsciiLowercase h.text = h.text :=
  toAsciiLowercase_of_lower fun _ hc => (HostName.mem_text hc).2.2

theorem HostName.hostOnly (h : HostName) :
    trim (trimMatches '.' (withoutPort h.text)) = h.text := by
  have hport : withoutPort h.text = h.text := by
    have hnone := rsplitOnceAt_eq_none.mpr (h.not_mem_text (c := ':') (by simp))
    unfold withoutPort
    rw [hnone]
  rw [hport, h.trimMatches_text]
  exact trim_of_not_whitespace fun c hc => (HostName.mem_text hc).2.1

/-- The host alone is kept as it is. -/
theorem HostName.serverHost_text (h : HostName) : serverHost h.text = h.text := by
  have hcolon : ':' ∉ h.text.toList := h.not_mem_text (by simp)
  have hscheme : withoutScheme h.text = h.text := by
    have hfind : afterFirst "://".toList h.text.toList = none := by
      have happend := @afterFirst_append ':' ['/', '/'] _ [] hcolon
      rw [List.append_nil] at happend
      exact happend
    have hmailto : stripStart "mailto:" h.text = none :=
      if_neg fun hpre => hcolon (hpre.subset (by decide))
    unfold withoutScheme
    rw [hfind, hmailto, Option.getD_none]
  have huser : withoutUserinfo h.text = h.text := by
    have hat := afterLastAt_append (s := "") (h.not_mem_text (c := '@') (by simp))
    have hempty : afterLastAt "" = none := by decide +kernel
    rw [String.append_empty, hempty] at hat
    change (afterLastAt h.text).getD h.text = h.text
    rw [hat, Option.getD_none]
  have hpath : withoutPath h.text = h.text := by
    have happend := withoutPath_append h ""
    have hempty : withoutPath "" = "" := by decide +kernel
    rw [String.append_empty, hempty, String.append_empty] at happend
    exact happend
  unfold serverHost hostText
  rw [trim_of_not_whitespace fun c hc => (HostName.mem_text hc).2.1, h.toAsciiLowercase_text,
    hscheme, huser, hpath]
  exact h.hostOnly

theorem restHost_append (h : HostName) (hs : s.toList = c :: rest) (hc : c ∈ ['/', '?', '#']) :
    restHost (h.text ++ s) = h.text := by
  unfold restHost
  rw [withoutPath_append, withoutPath_of_starts hs hc, String.append_empty]
  exact h.hostOnly

/-- The host kept of a host with something behind it. -/
theorem serverHost_bare (h : HostName) (s : UrlSuffix) :
    serverHost (h.text ++ s.text) = ((bareRest s.normal).map restHost).getD h.text := by
  obtain ⟨c, rest, hnormal, hc⟩ := s.normal_starts
  have hread : toAsciiLowercase (trim (h.text ++ s.text)) = h.text ++ s.normal := by
    rw [s.read_append fun a ha => (HostName.mem_text ha).2.1, h.toAsciiLowercase_text]
  change restHost (withoutUserinfo (withoutScheme (toAsciiLowercase (trim (h.text ++ s.text))))) = _
  rw [hread, withoutUserinfo_bare h hnormal hc]
  cases bareRest s.normal with
  | none => exact restHost_append h hnormal hc
  | some found => rfl

/-- The host kept of a URL. -/
theorem serverHost_url (scheme : Scheme) (h : HostName) (s : UrlSuffix) :
    serverHost (scheme.text ++ "://" ++ h.text ++ s.text) =
      ((afterLastAt s.normal).map restHost).getD h.text := by
  obtain ⟨c, rest, hnormal, hc⟩ := s.normal_starts
  have hfront : ∀ a ∈ (scheme.text ++ "://" ++ h.text).toList, isWhitespace a = false := by
    intro a ha
    rw [String.toList_append, String.toList_append, List.mem_append, List.mem_append] at ha
    rcases ha with (ha | ha) | ha
    · exact (scheme.schemeChar a ha).2
    · exact forall_mem_of_all (P := fun a => isWhitespace a = false) (by decide) a ha
    · exact (HostName.mem_text ha).2.1
  have hread : toAsciiLowercase (trim (scheme.text ++ "://" ++ h.text ++ s.text)) =
      toAsciiLowercase scheme.text ++ "://" ++ (h.text ++ s.normal) := by
    have hsep : toAsciiLowercase "://" = "://" := by decide
    rw [s.read_append hfront, toAsciiLowercase_append, toAsciiLowercase_append,
      h.toAsciiLowercase_text, hsep, String.append_assoc]
  have hcolon : ':' ∉ (toAsciiLowercase scheme.text).toList := by
    rw [toList_toAsciiLowercase]
    intro hin
    obtain ⟨a, ha, hlower⟩ := List.mem_map.mp hin
    have hall : ∀ a : Char, asciiLower a = ':' → a = ':' :=
      char_forall (by decide +kernel) fun a ha h => by rwa [asciiLower_of_ge ha] at h
    exact (scheme.schemeChar a ha).1 (hall a hlower)
  change restHost (withoutUserinfo (withoutScheme
    (toAsciiLowercase (trim (scheme.text ++ "://" ++ h.text ++ s.text))))) = _
  rw [hread, withoutUserinfo_url h hcolon]
  cases afterLastAt s.normal with
  | none => exact restHost_append h hnormal hc
  | some found => rfl

/-! ## Keys -/

/-- The labels make up no key: there are not two of them, or their domain is on the denylist. -/
def Unkeyed (labels : List String) : Prop :=
  ∀ reg, lastLabels multiPartSuffixes labels = some reg → isDenylisted .domain reg = true

/-- The labels make up the same key, or neither makes up one. -/
def KeyedAlike (labels labels' : List String) : Prop :=
  NamesAlike labels labels' ∨ (Unkeyed labels ∧ Unkeyed labels')

/-- Two texts give one key exactly when the hosts kept of them do. -/
theorem canonicalizeDomain_eq_iff (raw raw' : String) (keyNamespace : KeyNamespace) :
    canonicalizeDomain raw keyNamespace = canonicalizeDomain raw' keyNamespace ↔
      KeyedAlike (hostLabels (serverHost raw)) (hostLabels (serverHost raw')) := by
  have hcanon : ∀ raw, canonicalizeDomain raw keyNamespace =
      (lastLabels multiPartSuffixes (hostLabels (serverHost raw))).bind fun reg =>
        if isDenylisted .domain reg then none else some ⟨.domain, reg, keyNamespace⟩ := by
    intro raw
    unfold canonicalizeDomain
    rw [namedDomain_eq]
    rfl
  have hunkeyed : ∀ labels, Unkeyed labels ↔
      ((lastLabels multiPartSuffixes labels).bind fun reg =>
        if isDenylisted .domain reg then none
        else some (⟨.domain, reg, keyNamespace⟩ : CanonKey)) = none := by
    intro labels
    unfold Unkeyed
    cases lastLabels multiPartSuffixes labels with
    | none => simp
    | some reg => by_cases hdenied : isDenylisted .domain reg = true <;> simp [hdenied]
  rw [hcanon, hcanon, KeyedAlike, hunkeyed, hunkeyed,
    ← lastLabels_eq_iff (not_mem_hostLabels _) (not_mem_hostLabels _)]
  generalize lastLabels multiPartSuffixes (hostLabels (serverHost raw)) = reg
  generalize lastLabels multiPartSuffixes (hostLabels (serverHost raw')) = reg'
  constructor
  · intro heq
    by_cases hnone : (reg.bind fun reg =>
        if isDenylisted .domain reg then none
        else some (⟨.domain, reg, keyNamespace⟩ : CanonKey)) = none
    · exact Or.inr ⟨hnone, heq ▸ hnone⟩
    · obtain ⟨key, hkey⟩ := Option.ne_none_iff_exists'.mp hnone
      left
      -- a key holds the domain it was made of
      have hread : ∀ reg : Option String, (reg.bind fun reg =>
          if isDenylisted .domain reg then none
          else some (⟨.domain, reg, keyNamespace⟩ : CanonKey)) = some key →
            reg = some key.value := by
        intro reg hreg
        obtain ⟨value, rfl, hvalue⟩ := Option.bind_eq_some_iff.mp hreg
        split at hvalue
        · exact absurd hvalue (by simp)
        · rw [← Option.some.inj hvalue]
      rw [hread reg hkey, hread reg' (heq ▸ hkey)]
  · rintro (rfl | ⟨hnone, hnone'⟩)
    · rfl
    · rw [hnone, hnone']

/-- The key of a URL, of the URL without its scheme and of its host alone are one. -/
def HostDecides (scheme : Scheme) (h : HostName) (s : UrlSuffix) (keyNamespace : KeyNamespace) :
    Prop :=
  canonicalizeDomain (scheme.text ++ "://" ++ h.text ++ s.text) keyNamespace =
      canonicalizeDomain (h.text ++ s.text) keyNamespace ∧
    canonicalizeDomain (h.text ++ s.text) keyNamespace = canonicalizeDomain h.text keyNamespace

/-- The host decides the key of a URL exactly when each text behind it that is taken for a host
names the same domain. -/
theorem hostDecides_iff (scheme : Scheme) (h : HostName) (s : UrlSuffix)
    (keyNamespace : KeyNamespace) : HostDecides scheme h s keyNamespace ↔
      ∀ found, afterLastAt s.normal = some found ∨ bareRest s.normal = some found →
        KeyedAlike (hostLabels (restHost found)) (hostLabels h.text) := by
  have halike : ∀ rest : Option String,
      KeyedAlike (hostLabels ((rest.map restHost).getD h.text)) (hostLabels h.text) ↔
        ∀ found, rest = some found →
          KeyedAlike (hostLabels (restHost found)) (hostLabels h.text) := by
    rintro (_ | found)
    · refine ⟨fun _ found hfound => absurd hfound (by simp), fun _ => Or.inl ?_⟩
      exact (lastLabels_eq_iff (not_mem_hostLabels _) (not_mem_hostLabels _)).mp rfl
    · simp
  have hurl := canonicalizeDomain_eq_iff (scheme.text ++ "://" ++ h.text ++ s.text) h.text
    keyNamespace
  have hbare := canonicalizeDomain_eq_iff (h.text ++ s.text) h.text keyNamespace
  rw [serverHost_url, h.serverHost_text, halike] at hurl
  rw [serverHost_bare, h.serverHost_text, halike] at hbare
  unfold HostDecides
  constructor
  · rintro ⟨hsame, hhost⟩ found (hfound | hfound)
    · exact hurl.mp (hsame.trans hhost) found hfound
    · exact hbare.mp hhost found hfound
  · intro hall
    have hhost := hbare.mpr fun found hfound => hall found (Or.inr hfound)
    exact ⟨(hurl.mpr fun found hfound => hall found (Or.inl hfound)).trans hhost.symm, hhost⟩

/-! ## An address in a query -/

def acmeHost : HostName where
  labels := ["acme", "com"]
  ne_nil := by decide
  label_ne := by decide
  hostChar := by
    intro label hlabel
    rcases List.mem_pair.mp hlabel with rfl | rfl
    · exact forall_mem_of_all (by decide)
    · exact forall_mem_of_all (by decide)

def https : Scheme where
  text := "https"
  schemeChar := forall_mem_of_all (by decide)

def addressQuery : UrlSuffix where
  text := "/?contact=jane@globex.com"
  starts := ⟨'/', "?contact=jane@globex.com".toList, by decide, by decide⟩

/-- A page of one company that names an address of another gets the key of the other. -/
theorem address_in_query_decides : ¬ ∀ (scheme : Scheme) (h : HostName) (s : UrlSuffix)
    (keyNamespace : KeyNamespace), HostDecides scheme h s keyNamespace := by
  intro h
  have hquery := (h https acmeHost addressQuery .customerContact).2
  exact absurd hquery (by decide +kernel)

end Verity.Analysis
