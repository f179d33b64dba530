import Mathlib.Data.List.Flatten
import Verity.Analysis.UrlHosts

/-!
# Which canonical values are canonical

Every step that brings a text to its canonical form takes something off its ends, once. So a
canonical value is its own canonical form exactly when no step finds more to take off it: a second
`mailto:`, white space or a port that only came to an end with the step after, or a `www.` that
was a label further in.
-/

set_option autoImplicit false

namespace Verity.Analysis

open Verity.Foundation Verity.Model

variable {address localPart domain s raw : String} {c : Char}

/-! ## Emails -/

/-- No second `mailto:` stands before a contact, and no white space before the dots at its
end. -/
def EmailSettled (raw : String) : Prop :=
  isContact trimEnd (bareAddress raw) = true →
    ¬ "mailto:".toList <+: (bareAddress raw).toList ∧
    ∀ c, ((bareAddress raw).toList.rdropWhile (· == '.')).getLast? = some c →
      isWhitespace c = false

/-- The ends of an address are those of its parts. -/
theorem ends_of_addressParts (h : addressParts address = some (localPart, domain)) :
    ("mailto:".toList <+: address.toList ↔ "mailto:".toList <+: localPart.toList) ∧
      (address.toList.rdropWhile (· == '.')).getLast? = domain.toList.getLast? := by
  unfold addressParts at h
  obtain ⟨⟨localRaw, domainRaw⟩, hsplit, hparts⟩ := Option.bind_eq_some_iff.mp h
  obtain ⟨haddress, -⟩ := splitOnceAt_eq_some.mp hsplit
  dsimp only at hparts
  split at hparts
  · rename_i hshape
    obtain ⟨rfl, rfl⟩ := Prod.mk.inj (Option.some.inj hparts)
    have hstart : '@' ∉ "mailto:".toList ∧ '+' ∉ "mailto:".toList := by decide
    have hne : (trimMatches '.' domainRaw).toList ≠ [] := List.ne_nil_of_mem hshape.2.2.1
    constructor
    · -- neither separator is in the scheme
      have hlocal : "mailto:".toList <+: address.toList ↔ "mailto:".toList <+: localRaw.toList := by
        rw [haddress]
        exact ⟨fun h => prefix_of_prefix_append_cons h hstart.1,
          fun h => h.trans (List.prefix_append _ _)⟩
      rw [hlocal]
      cases hplus : splitOnceAt '+' localRaw with
      | none => rfl
      | some cut =>
        rw [(splitOnceAt_eq_some.mp hplus).1]
        exact ⟨fun h => prefix_of_prefix_append_cons h hstart.2,
          fun h => h.trans (List.prefix_append _ _)⟩
    · rw [toList_trimMatches] at hne ⊢
      obtain ⟨front, back, hraw, -, hback⟩ := exists_trimList (· == '.') domainRaw.toList
      have hlast : ∀ c, (front ++ trimList (· == '.') domainRaw.toList).getLast? = some c →
          (c == '.') = false := by
        intro c hc
        rw [List.getLast?_append_of_ne_nil _ hne] at hc
        exact not_of_getLast?_trimList (p := (· == '.')) hc
      have hself : (front ++ trimList (· == '.') domainRaw.toList).rdropWhile (· == '.') =
          front ++ trimList (· == '.') domainRaw.toList := by
        refine List.rdropWhile_eq_self_iff.mpr fun hnil => ?_
        rw [hlast _ (List.getLast?_eq_getLast_of_ne_nil hnil)]
        simp
      have hend : domainRaw.toList.rdropWhile (· == '.') =
          front ++ trimList (· == '.') domainRaw.toList := by
        conv_lhs => rw [hraw, ← List.append_assoc]
        rw [rdropWhile_append_of_forall hback, hself]
      have hjoin : localRaw.toList ++ '@' :: (front ++ trimList (· == '.') domainRaw.toList) =
          (localRaw.toList ++ '@' :: front) ++ trimList (· == '.') domainRaw.toList := by simp
      rw [haddress, rdropWhile_append_of_not (by decide), hend, hjoin,
        List.getLast?_append_of_ne_nil _ hne]
  · exact absurd hparts (by simp)

theorem addressParts_written (h : addressParts address = some (localPart, domain)) :
    addressParts (written (localPart, domain)) = some (localPart, domain) := by
  obtain ⟨tag, domainRaw, -, hat, hplus, -, hdomain, -⟩ := addressParts_spec h
  have hfresh : '@' ∉ localPart.toList := fun hin => hat (List.mem_append_left _ hin)
  have htrim : trimMatches '.' domain = domain := by
    apply String.toList_inj.mp
    rw [toList_trimMatches, hdomain, trimList_trimList fun _ h => h]
  unfold addressParts at h ⊢
  obtain ⟨⟨localRaw, raw⟩, -, hparts⟩ := Option.bind_eq_some_iff.mp h
  rw [splitOnceAt_written hfresh, Option.bind_eq_bind, Option.bind_some]
  dsimp only at hparts ⊢
  rw [splitOnceAt_eq_none.mpr hplus]
  split at hparts
  · rename_i hshape
    obtain ⟨hlocal, rfl⟩ := Prod.mk.inj (Option.some.inj hparts)
    rw [htrim]
    refine if_pos ⟨fun hin => hshape.1 ?_, ?_, hshape.2.2⟩
    · rw [toList_trimMatches] at hin
      exact mem_of_mem_trimList hin
    · rw [Option.map_none, Option.getD_none, ← hlocal]
      exact hshape.2.1
  · exact absurd hparts (by simp)

/-- A start is taken off once, or is not there. -/
theorem stripStart_cases (start s : String) :
    (s.toList = start.toList ++ ((stripStart start s).getD s).toList) ∨
      (¬ start.toList <+: s.toList ∧ (stripStart start s).getD s = s) := by
  cases hstrip : stripStart start s with
  | some rest => exact Or.inl (stripStart_eq_some.mp hstrip)
  | none =>
    refine Or.inr ⟨fun hprefix => ?_, rfl⟩
    rw [stripStart, if_pos hprefix] at hstrip
    exact absurd hstrip (by simp)

theorem length_bareAddress (raw : String) :
    (bareAddress raw).toList.length ≤ (trim raw).toList.length ∧
      ("mailto:".toList <+: (toAsciiLowercase (trim raw)).toList →
        (bareAddress raw).toList.length < (trim raw).toList.length) := by
  have hlower : (toAsciiLowercase (trim raw)).toList.length = (trim raw).toList.length := by
    rw [toList_toAsciiLowercase, List.length_map]
  have htrim := (trimList_sublist (p := isWhitespace)
    ((stripStart "mailto:" (toAsciiLowercase (trim raw))).getD
      (toAsciiLowercase (trim raw))).toList).length_le
  unfold bareAddress
  rw [toList_trim, ← hlower]
  rcases stripStart_cases "mailto:" (toAsciiLowercase (trim raw)) with hstart | ⟨hnone, hsame⟩
  · have hlength := congrArg List.length hstart
    have hseven : "mailto:".toList.length = 7 := by decide
    rw [List.length_append, hseven] at hlength
    constructor
    · omega
    · intro _
      omega
  · rw [hsame] at htrim ⊢
    exact ⟨htrim, fun hprefix => absurd hprefix hnone⟩

theorem trimEnd_eq_self_iff :
    trimEnd s = s ↔ ∀ c, s.toList.getLast? = some c → isWhitespace c = false := by
  rw [← String.toList_inj, trimEnd, String.toList_ofList, List.rdropWhile_eq_self_iff]
  constructor
  · intro h c hc
    have hne : s.toList ≠ [] := by
      rintro hnil
      rw [hnil] at hc
      exact absurd hc (by simp)
    rw [List.getLast?_eq_getLast_of_ne_nil hne, Option.some.injEq] at hc
    rw [← hc]
    exact Bool.eq_false_iff.mpr (h hne)
  · intro h hne
    exact Bool.eq_false_iff.mp (h _ (List.getLast?_eq_getLast_of_ne_nil hne))

/-- Nothing more comes off what was written when neither its start nor its end gives way. -/
theorem bareAddress_written (hne : localPart ≠ "")
    (hhead : ∀ c, localPart.toList.head? = some c → isWhitespace c = false)
    (hlower : ∀ c ∈ localPart.toList ++ domain.toList, asciiLower c = c)
    (hscheme : ¬ "mailto:".toList <+: localPart.toList) (hend : trimEnd domain = domain) :
    bareAddress (written (localPart, domain)) = written (localPart, domain) := by
  have htrim : trim (written (localPart, domain)) = written (localPart, domain) := by
    rw [trim_written hne hhead, hend]
  have hlow : toAsciiLowercase (written (localPart, domain)) = written (localPart, domain) := by
    refine toAsciiLowercase_of_lower fun c hc => ?_
    rw [toList_written, List.mem_append, List.mem_cons] at hc
    rcases hc with hc | rfl | hc
    · exact hlower c (List.mem_append_left _ hc)
    · rfl
    · exact hlower c (List.mem_append_right _ hc)
  have hnone : stripStart "mailto:" (written (localPart, domain)) = none := by
    refine if_neg fun hprefix => hscheme ?_
    rw [toList_written] at hprefix
    exact prefix_of_prefix_append_cons hprefix (by decide)
  unfold bareAddress
  rw [htrim, hlow, hnone, Option.getD_none, htrim]

/-- The parts of an address are no longer than the address. -/
theorem length_addressParts (h : addressParts address = some (localPart, domain)) :
    localPart.toList.length + domain.toList.length + 1 ≤ address.toList.length := by
  obtain ⟨tag, domainRaw, haddress, -, -, -, hdomain, -⟩ := addressParts_spec h
  have hlong := congrArg List.length haddress
  have hshort := (trimList_sublist (p := (· == '.')) domainRaw).length_le
  rw [← hdomain] at hshort
  rw [List.length_append, List.length_append, List.length_cons] at hlong
  omega

/-- An address that the server wrote is read as it is written exactly when nothing more comes off
its ends. -/
theorem canonicalizeEmail_written_iff
    (hparts : addressParts (bareAddress raw) = some (localPart, domain))
    (husable : usable trimEnd (localPart, domain) = true) (keyNamespace : KeyNamespace) :
    canonicalizeEmail (written (localPart, domain)) keyNamespace =
        some ⟨.email, written (localPart, domain), keyNamespace⟩ ↔
      ¬ "mailto:".toList <+: localPart.toList ∧ trimEnd domain = domain := by
  obtain ⟨tag, domainRaw, -, -, -, hne, -, -⟩ := addressParts_spec hparts
  obtain ⟨hhead, hlower⟩ := addressParts_bareAddress hparts
  rw [canonicalizeEmail_eq, Option.map_eq_some_iff]
  constructor
  · rintro ⟨parts, hagain, heq⟩
    have hvalue : written parts = written (localPart, domain) := congrArg CanonKey.value heq
    obtain ⟨hagain, -⟩ := filter_usable.mp hagain
    obtain rfl := written_inj hagain hparts hvalue
    -- what is read again is as long as what was written
    have hlong := length_addressParts hagain
    obtain ⟨hle, hlt⟩ := length_bareAddress (written (localPart, domain))
    rw [trim_written hne hhead, toList_written, List.length_append, List.length_cons] at hle hlt
    have hend : (trimEnd domain).toList <+: domain.toList := by
      rw [trimEnd, String.toList_ofList]
      exact List.rdropWhile_prefix _ _
    have hendLength := hend.length_le
    dsimp only at hle hlt
    constructor
    · intro hprefix
      have hlocal : localPart.toList.map asciiLower = localPart.toList :=
        (List.map_congr_left fun c hc => hlower c (List.mem_append_left _ hc)).trans
          (List.map_id _)
      have hshort := hlt (by
        rw [toList_toAsciiLowercase, toList_written, List.map_append, hlocal]
        exact hprefix.trans (List.prefix_append _ _))
      omega
    · apply String.toList_inj.mp
      exact hend.eq_of_length_le (by omega)
  · rintro ⟨hscheme, hend⟩
    refine ⟨(localPart, domain), filter_usable.mpr ⟨?_, husable⟩, rfl⟩
    rw [bareAddress_written hne hhead hlower hscheme hend]
    exact addressParts_written hparts

/-- The email of a text is its own canonical form exactly when the text is settled. -/
theorem email_fixed_iff (raw : String) (keyNamespace : KeyNamespace) :
    (∀ k, canonicalizeEmail raw keyNamespace = some k →
      canonicalizeEmail k.value keyNamespace = some k) ↔ EmailSettled raw := by
  have hsettled : ∀ {localPart domain}, addressParts (bareAddress raw) = some (localPart, domain) →
      ((¬ "mailto:".toList <+: (bareAddress raw).toList ∧
        ∀ c, ((bareAddress raw).toList.rdropWhile (· == '.')).getLast? = some c →
          isWhitespace c = false) ↔
        ¬ "mailto:".toList <+: localPart.toList ∧ trimEnd domain = domain) := by
    intro localPart domain hparts
    obtain ⟨hstart, hend⟩ := ends_of_addressParts hparts
    rw [hstart, hend, trimEnd_eq_self_iff]
  unfold EmailSettled
  constructor
  · intro hfixed hcontact
    obtain ⟨⟨localPart, domain⟩, hparts, husable⟩ := isContact_iff.mp hcontact
    refine (hsettled hparts).mpr ((canonicalizeEmail_written_iff hparts husable keyNamespace).mp ?_)
    refine hfixed ⟨.email, written (localPart, domain), keyNamespace⟩ ?_
    rw [canonicalizeEmail_eq, filter_usable.mpr ⟨hparts, husable⟩, Option.map_some]
  · intro hraw k hk
    rw [canonicalizeEmail_eq, Option.map_eq_some_iff] at hk
    obtain ⟨⟨localPart, domain⟩, hfilter, rfl⟩ := hk
    obtain ⟨hparts, husable⟩ := filter_usable.mp hfilter
    refine (canonicalizeEmail_written_iff hparts husable keyNamespace).mpr ?_
    exact (hsettled hparts).mp (hraw (isContact_iff.mpr ⟨_, hparts, husable⟩))

/-! ## Domains -/

/-- The labels that make up the name: the last two, and the third below a suffix of two. -/
def keptLabels (labels : List String) : List String :=
  match labels.reverse with
  | last :: second :: rest =>
    (if second ++ "." ++ last ∈ multiPartSuffixes then rest.head? else none).toList ++
      [second, last]
  | _ => []

theorem nameOf_eq_intercalate (last second : String) (third : Option String) :
    nameOf last second third = ".".intercalate (third.toList ++ [second, last]) := by
  cases third with
  | none =>
    rw [Option.toList_none, List.nil_append, String.intercalate_cons_cons,
      String.intercalate_singleton]
    rfl
  | some third =>
    rw [Option.toList_some, List.singleton_append, String.intercalate_cons_cons,
      String.intercalate_cons_cons, String.intercalate_singleton]
    rfl

/-- The name is the kept labels, joined. -/
theorem lastLabels_eq_some_iff {labels : List String} {reg : String} :
    lastLabels multiPartSuffixes labels = some reg ↔
      keptLabels labels ≠ [] ∧ reg = ".".intercalate (keptLabels labels) := by
  unfold keptLabels
  rcases hrev : labels.reverse with _ | ⟨last, _ | ⟨second, rest⟩⟩
  · rw [lastLabels, hrev]
    simp
  · rw [lastLabels, hrev]
    simp
  · rw [lastLabels_of_reverse hrev, nameOf_eq_intercalate, Option.some.injEq, eq_comm]
    simp

theorem keptLabels_sublist (labels : List String) : (keptLabels labels).Sublist labels := by
  unfold keptLabels
  rcases hrev : labels.reverse with _ | ⟨last, _ | ⟨second, rest⟩⟩
  · exact List.nil_sublist _
  · exact List.nil_sublist _
  · dsimp only
    rw [← List.reverse_sublist, hrev, List.reverse_append, List.reverse_cons, List.reverse_cons,
      List.reverse_nil, List.nil_append, List.singleton_append]
    refine List.Sublist.cons_cons _ (List.Sublist.cons_cons _ ?_)
    split
    · cases rest <;> simp
    · simp

/-- All of the kept labels are kept again. -/
theorem keptLabels_keptLabels (labels : List String) :
    keptLabels (keptLabels labels) = keptLabels labels := by
  rcases hrev : labels.reverse with _ | ⟨last, _ | ⟨second, rest⟩⟩
  · simp [keptLabels, hrev]
  · simp [keptLabels, hrev]
  · by_cases hsuffix : second ++ "." ++ last ∈ multiPartSuffixes
    · cases rest with
      | nil => simp [keptLabels, hrev]
      | cons third rest => simp [keptLabels, hrev, hsuffix]
    · simp [keptLabels, hrev, hsuffix]

theorem keptLabels_cases {labels : List String} (h : keptLabels labels ≠ []) :
    ∃ front second last, keptLabels labels = front ++ [second, last] := by
  rcases hrev : labels.reverse with _ | ⟨last, _ | ⟨second, rest⟩⟩
  · exact absurd (by simp [keptLabels, hrev]) h
  · exact absurd (by simp [keptLabels, hrev]) h
  · refine ⟨(if second ++ "." ++ last ∈ multiPartSuffixes then rest.head? else none).toList,
      second, last, ?_⟩
    rw [keptLabels, hrev]

/-! ## What the steps leave -/

theorem intercalate_append_separator {α : Type} (sep : List α) {parts : List (List α)}
    (h : parts ≠ []) : sep.intercalate parts ++ sep = parts.flatMap fun part => part ++ sep := by
  induction parts with
  | nil => exact absurd rfl h
  | cons part parts ih =>
    cases parts with
    | nil => simp
    | cons next parts =>
      rw [List.intercalate_cons_cons, List.append_assoc (part ++ sep), ih (by simp),
        List.flatMap_cons (x := part)]

/-- The name that is read off a host is no longer than the host is. -/
theorem length_lastLabels_le {host reg : String}
    (h : lastLabels multiPartSuffixes (hostLabels host) = some reg) :
    reg.toList.length ≤ ((stripStart "www." host).getD host).toList.length := by
  obtain ⟨hne, rfl⟩ := lastLabels_eq_some_iff.mp h
  have hsub := ((keptLabels_sublist (hostLabels host)).map String.toList).flatMap
    fun part => part ++ ['.']
  have hparts : (keptLabels (hostLabels host)).map String.toList ≠ [] := by simpa using hne
  have hkept := congrArg List.length (intercalate_append_separator ['.'] hparts)
  have hpieces := length_pieces_le '.' ((stripStart "www." host).getD host).toList
  have hlabels : (((hostLabels host).map String.toList).flatMap fun part => part ++ ['.']).Sublist
      ((pieces '.' ((stripStart "www." host).getD host).toList).flatMap
        fun part => part ++ ['.']) := by
    refine List.Sublist.flatMap ?_ _
    unfold hostLabels
    split
    · exact List.nil_sublist _
    · rw [labels_eq, List.map_map]
      have hid : String.toList ∘ String.ofList = id := funext fun cs => String.toList_ofList
      rw [hid, List.map_id]
  have hlength := (hsub.trans hlabels).length_le
  rw [String.toList_intercalate]
  rw [List.length_append] at hkept
  have hdot : ".".toList = ['.'] := rfl
  have hone : ['.'].length = 1 := rfl
  rw [hdot]
  omega

/-! ## The characters of a host -/

/-- What no host has in it: the ends of a path and of a userinfo, and upper case. -/
def IsHostText (s : String) : Prop := ∀ c ∈ s.toList, c ∉ ['/', '?', '#', '@'] ∧ asciiLower c = c

theorem mem_beforeChar {sep : Char} (h : c ∈ (beforeChar sep s).toList) :
    c ∈ s.toList ∧ c ≠ sep := by
  unfold beforeChar at h
  rw [String.toList_ofList] at h
  exact ⟨(List.takeWhile_prefix _).subset h, by simpa using List.mem_takeWhile_imp h⟩

theorem beforeChar_of_not_mem {sep : Char} (h : sep ∉ s.toList) : beforeChar sep s = s := by
  have happend := beforeChar_append (s := "") h
  have hempty : beforeChar sep "" = "" := rfl
  rwa [String.append_empty, hempty, String.append_empty] at happend

theorem mem_withoutPath (h : c ∈ (withoutPath s).toList) : c ∈ s.toList ∧ c ∉ ['/', '?', '#'] := by
  unfold withoutPath at h
  simp only [List.foldl_cons, List.foldl_nil] at h
  obtain ⟨h, hfragment⟩ := mem_beforeChar h
  obtain ⟨h, hquery⟩ := mem_beforeChar h
  obtain ⟨h, hpath⟩ := mem_beforeChar h
  exact ⟨h, by simp [hpath, hquery, hfragment]⟩

theorem withoutPath_of_not_mem (h : ∀ c ∈ s.toList, c ∉ ['/', '?', '#']) : withoutPath s = s := by
  have hfree : ∀ sep ∈ ['/', '?', '#'], beforeChar sep s = s := fun sep hsep =>
    beforeChar_of_not_mem fun hin => h sep hin hsep
  unfold withoutPath
  simp only [List.foldl_cons, List.foldl_nil]
  rw [hfree '/' (by simp), hfree '?' (by simp), hfree '#' (by simp)]

theorem mem_withoutUserinfo (h : c ∈ (withoutUserinfo s).toList) : c ∈ s.toList ∧ c ≠ '@' := by
  unfold withoutUserinfo at h
  cases hsplit : rsplitOnceAt '@' s with
  | none =>
    rw [hsplit] at h
    refine ⟨h, ?_⟩
    rintro rfl
    exact rsplitOnceAt_eq_none.mp hsplit h
  | some parts =>
    obtain ⟨before, after⟩ := parts
    rw [hsplit] at h
    obtain ⟨hs, hfresh⟩ := rsplitOnceAt_eq_some.mp hsplit
    refine ⟨?_, ?_⟩
    · rw [hs]
      exact List.mem_append_right _ (List.mem_cons_of_mem _ h)
    · rintro rfl
      exact hfresh h

/-- What is found is in the text, and so is the rest. -/
theorem afterFirst_eq_some {part s rest : List Char} (h : afterFirst part s = some rest) :
    ∃ front, s = front ++ (part ++ rest) := by
  induction s with
  | nil => exact absurd h (by simp [afterFirst])
  | cons c s ih =>
    rw [afterFirst] at h
    split at h
    · rename_i hprefix
      refine ⟨[], ?_⟩
      rw [← Option.some.inj h, List.nil_append]
      exact (List.prefix_iff_eq_append.mp hprefix).symm
    · obtain ⟨front, rfl⟩ := ih h
      exact ⟨c :: front, rfl⟩

theorem mem_withoutScheme (h : c ∈ (withoutScheme s).toList) : c ∈ s.toList := by
  unfold withoutScheme at h
  split at h
  · rename_i rest hfind
    obtain ⟨front, hs⟩ := afterFirst_eq_some hfind
    rw [String.toList_ofList] at h
    rw [hs]
    exact List.mem_append_right _ (List.mem_append_right _ h)
  · exact stripStart_subset h

theorem withoutPort_isPrefixOf (s : String) : (withoutPort s).toList <+: s.toList := by
  unfold withoutPort
  split
  · rename_i host port hsplit
    split
    · rw [(rsplitOnceAt_eq_some.mp hsplit).1]
      exact List.prefix_append _ _
    · exact List.prefix_rfl
  · exact List.prefix_rfl

theorem isHostText_serverHost (raw : String) : IsHostText (serverHost raw) := by
  intro c hc
  unfold serverHost hostText at hc
  rw [toList_trim] at hc
  have hc := mem_of_mem_trimList hc
  rw [toList_trimMatches] at hc
  obtain ⟨hc, hpath⟩ := mem_withoutPath ((withoutPort_isPrefixOf _).subset (mem_of_mem_trimList hc))
  obtain ⟨hc, hat⟩ := mem_withoutUserinfo hc
  have hc := mem_withoutScheme hc
  rw [toList_toAsciiLowercase, List.mem_map] at hc
  obtain ⟨d, -, rfl⟩ := hc
  refine ⟨?_, asciiLower_asciiLower d⟩
  simp only [List.mem_cons, List.not_mem_nil, or_false, not_or] at hpath ⊢
  exact ⟨hpath.1, hpath.2.1, hpath.2.2, hat⟩

/-- Of a text that could be a host only the ends come off. -/
theorem serverHost_of_isHostText (h : IsHostText s) :
    serverHost s = trim (trimMatches '.'
      (withoutPort ((stripStart "mailto:" (trim s)).getD (trim s)))) := by
  have htrim : ∀ c ∈ (trim s).toList, c ∉ ['/', '?', '#', '@'] ∧ asciiLower c = c := by
    intro c hc
    rw [toList_trim] at hc
    exact h c (mem_of_mem_trimList hc)
  have hlower : toAsciiLowercase (trim s) = trim s :=
    toAsciiLowercase_of_lower fun c hc => (htrim c hc).2
  have hscheme : withoutScheme (trim s) = (stripStart "mailto:" (trim s)).getD (trim s) := by
    unfold withoutScheme
    cases hfind : afterFirst "://".toList (trim s).toList with
    | none => rfl
    | some rest =>
      obtain ⟨front, hs⟩ := afterFirst_eq_some hfind
      refine absurd (htrim '/' ?_).1 (by simp)
      rw [hs]
      exact List.mem_append_right _ (List.mem_append_left _ (by decide))
  have hrest : ∀ c ∈ ((stripStart "mailto:" (trim s)).getD (trim s)).toList,
      c ∉ ['/', '?', '#', '@'] := fun c hc => (htrim c (stripStart_subset hc)).1
  have huser : withoutUserinfo ((stripStart "mailto:" (trim s)).getD (trim s)) =
      (stripStart "mailto:" (trim s)).getD (trim s) := by
    have hnone := rsplitOnceAt_eq_none.mpr fun hin => hrest '@' hin (by simp)
    unfold withoutUserinfo
    rw [hnone, Option.map_none, Option.getD_none]
  have hpath := withoutPath_of_not_mem fun c hc hin =>
    hrest c hc (List.mem_append_left ['@'] hin)
  change trim (trimMatches '.' (withoutPort (withoutPath (withoutUserinfo (withoutScheme
    (toAsciiLowercase (trim s))))))) = _
  rw [hlower, hscheme, huser, hpath]

/-! ## Names -/

/-- The kept labels of a host. -/
structure IsName (labels : List String) : Prop where
  two : ∃ front second last, labels = front ++ [second, last]
  kept : keptLabels labels = labels
  label_ne : ∀ label ∈ labels, label ≠ ""
  not_dot : ∀ label ∈ labels, '.' ∉ label.toList
  not_space : ∀ label ∈ labels, ' ' ∉ label.toList
  isHostText : ∀ label ∈ labels, IsHostText label

theorem mem_of_mem_label {label : String} (h : label ∈ (splitAtChar '.' s).filter (· ≠ ""))
    (hc : c ∈ label.toList) : c ∈ s.toList := by
  have hin := (List.mem_filter.mp h).1
  unfold splitAtChar at hin
  obtain ⟨part, hpart, rfl⟩ := List.mem_map.mp hin
  rw [String.toList_ofList] at hc
  have hflat : c ∈ (s.toList.splitOn '.').flatMap fun part => part ++ ['.'] :=
    List.mem_flatMap.mpr ⟨part, hpart, List.mem_append_left _ hc⟩
  rw [← intercalate_append_separator _ (List.ne_nil_of_mem hpart), List.intercalate_splitOn,
    List.mem_append, List.mem_singleton] at hflat
  rcases hflat with hflat | rfl
  · exact hflat
  · refine absurd ?_ (not_mem_labels h)
    rwa [String.toList_ofList]

theorem isName_keptLabels (h : keptLabels (hostLabels (serverHost raw)) ≠ []) :
    IsName (keptLabels (hostLabels (serverHost raw))) := by
  have hsub := (keptLabels_sublist (hostLabels (serverHost raw))).subset
  have hlabel : ∀ label ∈ hostLabels (serverHost raw), label ≠ "" ∧ ' ' ∉ label.toList ∧
      IsHostText label := by
    intro label hlabel
    unfold hostLabels at hlabel
    split at hlabel
    · exact absurd hlabel List.not_mem_nil
    · rename_i hspace
      have hin : ∀ c ∈ label.toList, c ∈ (serverHost raw).toList := fun c hc =>
        stripStart_subset (mem_of_mem_label hlabel hc)
      refine ⟨by simpa using (List.mem_filter.mp hlabel).2, fun hc => hspace (hin _ hc), ?_⟩
      exact fun c hc => isHostText_serverHost raw c (hin c hc)
  exact
    { two := keptLabels_cases h
      kept := keptLabels_keptLabels _
      label_ne := fun label hl => (hlabel label (hsub hl)).1
      not_dot := fun label hl => not_mem_hostLabels _ label (hsub hl)
      not_space := fun label hl => (hlabel label (hsub hl)).2.1
      isHostText := fun label hl => (hlabel label (hsub hl)).2.2 }

section Name

variable {labels : List String}

theorem IsName.ne_nil (h : IsName labels) : labels ≠ [] := by
  obtain ⟨front, second, last, rfl⟩ := h.two
  simp

theorem IsName.mem_text (hc : c ∈ (".".intercalate labels).toList) :
    c = '.' ∨ ∃ label ∈ labels, c ∈ label.toList := by
  rw [String.toList_intercalate] at hc
  rcases mem_intercalate hc with hdot | ⟨part, hpart, hin⟩
  · exact Or.inl (List.mem_singleton.mp hdot)
  · obtain ⟨label, hlabel, rfl⟩ := List.mem_map.mp hpart
    exact Or.inr ⟨label, hlabel, hin⟩

theorem IsName.isHostText_text (h : IsName labels) : IsHostText (".".intercalate labels) := by
  intro c hc
  rcases IsName.mem_text hc with rfl | ⟨label, hlabel, hin⟩
  · decide
  · exact h.isHostText label hlabel c hin

/-- The labels of a name are the labels it was made of. -/
theorem IsName.labels_text (h : IsName labels) :
    (splitAtChar '.' (".".intercalate labels)).filter (· ≠ "") = labels := by
  have hfresh : ∀ part ∈ labels.map String.toList, '.' ∉ part := by
    intro part hpart
    obtain ⟨label, hlabel, rfl⟩ := List.mem_map.mp hpart
    exact h.not_dot label hlabel
  have hdot : ".".toList = ['.'] := rfl
  unfold splitAtChar
  rw [String.toList_intercalate, hdot,
    List.splitOn_intercalate '.' hfresh (by simpa using h.ne_nil), List.map_map]
  have hid : String.ofList ∘ String.toList = id := funext fun s => String.ofList_toList
  rw [hid, List.map_id, List.filter_eq_self]
  intro label hlabel
  exact decide_eq_true (h.label_ne label hlabel)

/-- A host text that comes out as long as it went in has lost nothing on the way. -/
theorem ends_of_length_le {name : String} (hhost : IsHostText name) (hlong : name.toList.length ≤
      ((stripStart "www." (serverHost name)).getD (serverHost name)).toList.length) :
    trim name = name ∧ ¬ "mailto:".toList <+: name.toList ∧ withoutPort name = name ∧
      ¬ "www.".toList <+: name.toList := by
  have hread := serverHost_of_isHostText hhost
  have htrim : (trim name).toList.Sublist name.toList := by
    rw [toList_trim]
    exact trimList_sublist _
  -- each step leaves part of what it is given
  generalize hrest : (stripStart "mailto:" (trim name)).getD (trim name) = rest at hread
  have hport := withoutPort_isPrefixOf rest
  have hkept : (serverHost name).toList.Sublist (withoutPort rest).toList := by
    have hdots : (trimMatches '.' (withoutPort rest)).toList.Sublist (withoutPort rest).toList := by
      rw [toList_trimMatches]
      exact trimList_sublist _
    rw [hread, toList_trim]
    exact (trimList_sublist _).trans hdots
  have htrimLength := htrim.length_le
  have hportLength := hport.length_le
  have hkeptLength := hkept.length_le
  have hmailto : "mailto:".toList.length = 7 := by decide
  have hwww : "www.".toList.length = 4 := by decide
  have hhostLength : ((stripStart "www." (serverHost name)).getD (serverHost name)).toList.length ≤
      (serverHost name).toList.length := by
    rcases stripStart_cases "www." (serverHost name) with hstart | ⟨-, hsame⟩
    · have hlength := congrArg List.length hstart
      rw [List.length_append] at hlength
      omega
    · rw [hsame]
  obtain ⟨hscheme, rfl⟩ : ¬ "mailto:".toList <+: (trim name).toList ∧ rest = trim name := by
    rcases stripStart_cases "mailto:" (trim name) with hstart | hnone
    · rw [hrest] at hstart
      have hlength := congrArg List.length hstart
      rw [List.length_append, hmailto] at hlength
      omega
    · rw [hrest] at hnone
      exact hnone
  have htrimmed : trim name = name := String.toList_inj.mp (htrim.eq_of_length_le (by omega))
  rw [htrimmed] at hscheme hport hportLength hkept hkeptLength
  have hkeep : serverHost name = name := String.toList_inj.mp
    ((hkept.trans hport.sublist).eq_of_length_le (by omega))
  refine ⟨htrimmed, hscheme, String.toList_inj.mp (hport.eq_of_length_le (by omega)), ?_⟩
  rcases stripStart_cases "www." (serverHost name) with hstart | ⟨hnone, -⟩
  · have hlength := congrArg List.length hstart
    rw [List.length_append, hwww] at hlength
    omega
  · rwa [hkeep] at hnone

/-- A name is read as itself exactly when nothing comes off its ends. -/
theorem IsName.namedDomain_text_iff (h : IsName labels) :
    namedDomain (".".intercalate labels) = some (".".intercalate labels) ↔
      trim (".".intercalate labels) = ".".intercalate labels ∧
      ¬ "mailto:".toList <+: (".".intercalate labels).toList ∧
      withoutPort (".".intercalate labels) = ".".intercalate labels ∧
      ¬ "www.".toList <+: (".".intercalate labels).toList := by
  rw [namedDomain_eq]
  constructor
  · exact fun hread => ends_of_length_le h.isHostText_text (length_lastLabels_le hread)
  · have hspace : ' ' ∉ (".".intercalate labels).toList := by
      intro hin
      rcases IsName.mem_text hin with hdot | ⟨label, hlabel, hin⟩
      · exact absurd hdot (by decide)
      · exact h.not_space label hlabel hin
    have hhost := serverHost_of_isHostText h.isHostText_text
    have hends := trimMatches_intercalate h.ne_nil fun label hl =>
      ⟨h.label_ne label hl, h.not_dot label hl⟩
    have hlabels := h.labels_text
    generalize hname : ".".intercalate labels = name at hhost hspace hends hlabels ⊢
    rintro ⟨htrimmed, hscheme, hport, hwww⟩
    have hmailto : stripStart "mailto:" name = none := if_neg hscheme
    have hnone : stripStart "www." name = none := if_neg hwww
    rw [hhost, htrimmed, hmailto, Option.getD_none, hport, hends, htrimmed, hostLabels,
      if_neg hspace, hnone, Option.getD_none, hlabels]
    refine lastLabels_eq_some_iff.mpr ?_
    rw [h.kept]
    exact ⟨h.ne_nil, hname.symm⟩

/-- The label ends in a colon and digits, or in a colon. -/
def EndsInPort (label : String) : Prop :=
  ∃ host port, label.toList = host ++ ':' :: port ∧ port.all Char.isDigit = true

/-- Nothing comes off the first label of a name, and nothing off the last. -/
def NameSettled (labels : List String) : Prop :=
  (∀ first, labels.head? = some first → first ≠ "www" ∧ ¬ "mailto:".toList <+: first.toList ∧
    ∀ c, first.toList.head? = some c → isWhitespace c = false) ∧
  (∀ last, labels.getLast? = some last →
    (∀ c, last.toList.getLast? = some c → isWhitespace c = false) ∧ ¬ EndsInPort last)

/-- A host keeps its last label unless that is a port. -/
theorem withoutPort_eq_self_iff {front last : String} :
    withoutPort (front ++ "." ++ last) = front ++ "." ++ last ↔ ¬ EndsInPort last := by
  have hlist : (front ++ "." ++ last).toList = front.toList ++ '.' :: last.toList := by
    rw [String.toList_append, String.toList_append, List.append_assoc]
    rfl
  constructor
  · rintro hkeep ⟨host, port, hlast, hdigits⟩
    have hsplit : rsplitOnceAt ':' (front ++ "." ++ last) =
        some (String.ofList (front.toList ++ '.' :: host), String.ofList port) := by
      refine rsplitOnceAt_eq_some.mpr ⟨?_, ?_⟩
      · rw [hlist, hlast, String.toList_ofList, String.toList_ofList]
        simp
      · rw [String.toList_ofList]
        intro hcolon
        exact absurd (List.all_eq_true.mp hdigits ':' hcolon) (by decide)
    have hhost : String.ofList (front.toList ++ '.' :: host) ≠ "" := by
      intro hnil
      have hnil := congrArg String.toList hnil
      rw [String.toList_ofList] at hnil
      exact absurd hnil (by simp)
    unfold withoutPort at hkeep
    rw [hsplit] at hkeep
    dsimp only at hkeep
    rw [if_pos ⟨by rwa [String.toList_ofList], hhost⟩] at hkeep
    have hlength := congrArg (fun s : String => s.toList.length) hkeep
    rw [String.toList_ofList, hlist, hlast, List.length_append, List.length_append,
      List.length_cons, List.length_cons, List.length_append, List.length_cons] at hlength
    omega
  · intro hnot
    unfold withoutPort
    split
    · rename_i host port hsplit
      refine if_neg fun hport => hnot ?_
      obtain ⟨hs, -⟩ := rsplitOnceAt_eq_some.mp hsplit
      -- the port has no dot in it, so it is at the end of the last label
      have hsuffix : ':' :: port.toList <:+ front.toList ++ '.' :: last.toList :=
        ⟨host.toList, by rw [← hs, hlist]⟩
      have hdot : '.' ∉ ':' :: port.toList := by
        intro hin
        rcases List.mem_cons.mp hin with hcolon | hin
        · exact absurd hcolon (by decide)
        · exact absurd (List.all_eq_true.mp hport.1 '.' hin) (by decide)
      obtain ⟨before, hbefore⟩ := suffix_of_suffix_append_cons hsuffix hdot
      exact ⟨before, port.toList, hbefore.symm, hport.1⟩
    · rfl

/-- A name is read as itself exactly when its first and its last label are settled. -/
theorem IsName.fixed_iff (h : IsName labels) :
    namedDomain (".".intercalate labels) = some (".".intercalate labels) ↔ NameSettled labels := by
  rw [h.namedDomain_text_iff]
  obtain ⟨front, second, last, heq⟩ := h.two
  obtain ⟨first, rest, hcons⟩ := List.exists_cons_of_ne_nil h.ne_nil
  have hrest : rest ≠ [] := by
    rintro rfl
    have hlength := congrArg List.length (heq.symm.trans hcons)
    simp at hlength
  have hfirst : first ∈ labels := by simp [hcons]
  have hlast : last ∈ labels := by simp [heq]
  have htext : (".".intercalate labels).toList =
      first.toList ++ '.' :: (".".intercalate rest).toList := by
    rw [hcons, String.intercalate_cons_of_ne_nil hrest, String.toList_append, String.toList_append,
      List.append_assoc]
    rfl
  have hhead : (".".intercalate labels).toList.head? = first.toList.head? := by
    rw [hcons, head?_intercalate "." (h.label_ne first hfirst)]
  have hend : (".".intercalate labels).toList.getLast? = last.toList.getLast? := by
    have hsplit : front ++ [second, last] = (front ++ [second]) ++ [last] := by simp
    rw [heq, hsplit, getLast?_intercalate "." (h.label_ne last hlast)]
  have hport : withoutPort (".".intercalate labels) = ".".intercalate labels ↔
      ¬ EndsInPort last := by
    have hsplit : ".".intercalate labels = ".".intercalate (front ++ [second]) ++ "." ++ last := by
      have hlabels : labels = (front ++ [second]) ++ [last] := by simp [heq]
      rw [hlabels, String.intercalate_append_of_ne_nil (by simp) (by simp),
        String.intercalate_singleton]
    rw [hsplit]
    exact withoutPort_eq_self_iff
  have hmailto : "mailto:".toList <+: (".".intercalate labels).toList ↔
      "mailto:".toList <+: first.toList := by
    rw [htext]
    exact ⟨fun hp => prefix_of_prefix_append_cons hp (by decide),
      fun hp => hp.trans (List.prefix_append _ _)⟩
  have hwww : "www.".toList <+: (".".intercalate labels).toList ↔ first = "www" := by
    rw [htext]
    constructor
    · rintro ⟨more, hmore⟩
      have hsplit : "www".toList ++ '.' :: more =
          first.toList ++ '.' :: (".".intercalate rest).toList := hmore
      have hsame := (append_separator_inj (by decide) (h.not_dot first hfirst) hsplit).1
      exact (String.toList_inj.mp hsame).symm
    · rintro rfl
      exact ⟨(".".intercalate rest).toList, rfl⟩
  have hlabelsHead : labels.head? = some first := by simp [hcons]
  have hlabelsLast : labels.getLast? = some last := by simp [heq]
  rw [trim_eq_self_iff, hhead, hend, hport, hmailto, hwww]
  unfold NameSettled
  rw [hlabelsHead, hlabelsLast]
  simp only [Option.some.injEq, forall_eq']
  constructor
  · rintro ⟨⟨hstarts, hstops⟩, hscheme, hnumber, hname⟩
    exact ⟨⟨hname, hscheme, hstarts⟩, hstops, hnumber⟩
  · rintro ⟨⟨hname, hscheme, hstarts⟩, hstops, hnumber⟩
    exact ⟨⟨hstarts, hstops⟩, hscheme, hnumber, hname⟩

end Name

/-- Where a text names a domain that is not on the denylist, the name's labels are settled. -/
def DomainSettled (raw : String) : Prop :=
  ¬ Unkeyed (hostLabels (serverHost raw)) → NameSettled (keptLabels (hostLabels (serverHost raw)))

theorem canonicalizeDomain_eq_some_iff {keyNamespace : KeyNamespace} {k : CanonKey} :
    canonicalizeDomain raw keyNamespace = some k ↔
      ∃ reg, namedDomain raw = some reg ∧ isDenylisted .domain reg = false ∧
        k = ⟨.domain, reg, keyNamespace⟩ := by
  unfold canonicalizeDomain
  rw [Option.bind_eq_bind, Option.bind_eq_some_iff]
  refine exists_congr fun reg => and_congr_right fun _ => ?_
  generalize isDenylisted .domain reg = denied
  cases denied <;> simp [eq_comm]

/-- The domain key of a text is its own canonical form exactly when the text is settled. -/
theorem domain_fixed_iff (raw : String) (keyNamespace : KeyNamespace) :
    (∀ k, canonicalizeDomain raw keyNamespace = some k →
      canonicalizeDomain k.value keyNamespace = some k) ↔ DomainSettled raw := by
  have hfixed : ∀ reg, namedDomain raw = some reg →
      (namedDomain reg = some reg ↔ NameSettled (keptLabels (hostLabels (serverHost raw)))) := by
    intro reg hreg
    rw [namedDomain_eq] at hreg
    obtain ⟨hne, heq⟩ := lastLabels_eq_some_iff.mp hreg
    rw [heq]
    exact (isName_keptLabels hne).fixed_iff
  have hunkeyed : Unkeyed (hostLabels (serverHost raw)) ↔
      ∀ reg, namedDomain raw = some reg → isDenylisted .domain reg = true := by
    unfold Unkeyed
    rw [namedDomain_eq]
  unfold DomainSettled
  rw [hunkeyed]
  constructor
  · intro hall hkeyed
    push Not at hkeyed
    obtain ⟨reg, hreg, hdenied⟩ := hkeyed
    have hkey : canonicalizeDomain raw keyNamespace = some ⟨.domain, reg, keyNamespace⟩ :=
      canonicalizeDomain_eq_some_iff.mpr ⟨reg, hreg, by simpa using hdenied, rfl⟩
    obtain ⟨reg', hreg', -, heq⟩ := canonicalizeDomain_eq_some_iff.mp (hall _ hkey)
    obtain rfl : reg = reg' := congrArg CanonKey.value heq
    exact (hfixed reg hreg).mp hreg'
  · intro hsettled k hk
    obtain ⟨reg, hreg, hdenied, rfl⟩ := canonicalizeDomain_eq_some_iff.mp hk
    refine canonicalizeDomain_eq_some_iff.mpr ⟨reg, (hfixed reg hreg).mpr (hsettled ?_), hdenied,
      rfl⟩
    intro hall
    rw [hall reg hreg] at hdenied
    exact absurd hdenied (by simp)

/-! ## Both keys -/

/-- The keys of a text are their own canonical forms, and are not on the denylist. -/
def CanonFixed (raw : String) (keyNamespace : KeyNamespace) : Prop :=
  (∀ k, canonicalizeEmail raw keyNamespace = some k →
    canonicalizeEmail k.value keyNamespace = some k ∧ isDenylisted k.kind k.value = false) ∧
  (∀ k, canonicalizeDomain raw keyNamespace = some k →
    canonicalizeDomain k.value keyNamespace = some k ∧ isDenylisted k.kind k.value = false)

theorem isDenylisted_of_canonicalizeEmail {keyNamespace : KeyNamespace} {k : CanonKey}
    (h : canonicalizeEmail raw keyNamespace = some k) : isDenylisted k.kind k.value = false := by
  rw [canonicalizeEmail_eq, Option.map_eq_some_iff] at h
  obtain ⟨⟨localPart, domain⟩, hfilter, rfl⟩ := h
  obtain ⟨hparts, husable⟩ := filter_usable.mp hfilter
  obtain ⟨tag, -, -, hat, hplus, hne, -, -⟩ := addressParts_spec hparts
  obtain ⟨hhead, hlower⟩ := addressParts_bareAddress hparts
  have hdeny := isDenylisted_written (fun hin => hat (List.mem_append_left _ hin)) hplus hne hhead
    hlower
  rw [husable] at hdeny
  exact hdeny

/-- The keys of a text are fixed points exactly when nothing more comes off their ends. -/
theorem canonFixed_iff (raw : String) (keyNamespace : KeyNamespace) :
    CanonFixed raw keyNamespace ↔ EmailSettled raw ∧ DomainSettled raw := by
  rw [← email_fixed_iff raw keyNamespace, ← domain_fixed_iff raw keyNamespace]
  unfold CanonFixed
  refine and_congr ?_ ?_
  · refine forall₂_congr fun k hk => ?_
    exact and_iff_left (isDenylisted_of_canonicalizeEmail hk)
  · refine forall₂_congr fun k hk => ?_
    obtain ⟨reg, -, hdenied, rfl⟩ := canonicalizeDomain_eq_some_iff.mp hk
    exact and_iff_left hdenied

/-- A second `mailto:` stays in the key, and a `www` that was a label further in is taken for the
start of a host when the key is read again. -/
theorem second_mailto_kept :
    (canonicalizeEmail "mailto:mailto:jane@acme.com" .customerContact).map CanonKey.value =
        some "mailto:jane@acme.com" ∧
      (canonicalizeEmail "mailto:jane@acme.com" .customerContact).map CanonKey.value =
        some "jane@acme.com" ∧
      (canonicalizeDomain "a.www.com" .customerContact).map CanonKey.value = some "www.com" ∧
      canonicalizeDomain "www.com" .customerContact = none ∧
      ¬ ∀ (raw : String) (keyNamespace : KeyNamespace), (∀ c ∈ raw.toList, c.toNat < 128) →
        CanonFixed raw keyNamespace := by
  refine ⟨by decide +kernel, by decide +kernel, by decide +kernel, by decide +kernel, ?_⟩
  intro h
  have hkey : canonicalizeDomain "a.www.com" .customerContact =
      some ⟨.domain, "www.com", .customerContact⟩ := by decide +kernel
  have hagain := ((h "a.www.com" .customerContact (forall_mem_of_all (by decide))).2 _ hkey).1
  exact absurd hagain (by decide +kernel)

end Verity.Analysis
