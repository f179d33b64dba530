import Verity.Model.ConnectorCanon

/-!
# Two readings of an address

The connector and the server bring an email to its canonical form in the same steps, but not with
the same operations: the connector's strip takes the file separators as white space, and it looks
a domain up in the denylist without trimming it. The two agree on a text exactly when neither
difference reaches a contact.
-/

set_option autoImplicit false

namespace Verity.Analysis

open Verity.Foundation Verity.Model

variable {c : Char} {s address localPart domain : String} {parts : String × String}

/-! ## Characters -/

theorem isSpace_of_isWhitespace (h : isWhitespace c = true) : Connector.isSpace c = true := by
  rw [Connector.isSpace, h, Bool.true_or]

theorem isSpace_asciiLower (c : Char) : Connector.isSpace (asciiLower c) = Connector.isSpace c :=
  char_forall (P := fun c => Connector.isSpace (asciiLower c) = Connector.isSpace c)
    (by decide +kernel) (fun c hc => by rw [asciiLower_of_ge hc]) c

/-! ## Trimmed texts -/

theorem toList_strip (s : String) :
    (Connector.strip s).toList = trimList Connector.isSpace s.toList := by
  rw [Connector.strip, String.toList_ofList, trimList]

theorem toList_trimMatches (c : Char) (s : String) :
    (trimMatches c s).toList = trimList (· == c) s.toList := by
  rw [trimMatches, String.toList_ofList, trimList]

theorem strip_trim (s : String) : Connector.strip (trim s) = Connector.strip s := by
  apply String.toList_inj.mp
  rw [toList_strip, toList_trim, toList_strip,
    trimList_trimList fun _ => isSpace_of_isWhitespace]

theorem strip_strip (s : String) : Connector.strip (Connector.strip s) = Connector.strip s := by
  apply String.toList_inj.mp
  rw [toList_strip, toList_strip, trimList_trimList fun _ h => h]

theorem trim_toAsciiLowercase (s : String) :
    trim (toAsciiLowercase s) = toAsciiLowercase (trim s) := by
  apply String.toList_inj.mp
  rw [toList_trim, toList_toAsciiLowercase, toList_toAsciiLowercase, toList_trim,
    trimList_map _ isWhitespace_asciiLower]

theorem strip_toAsciiLowercase (s : String) :
    Connector.strip (toAsciiLowercase s) = toAsciiLowercase (Connector.strip s) := by
  apply String.toList_inj.mp
  rw [toList_strip, toList_toAsciiLowercase, toList_toAsciiLowercase, toList_strip,
    trimList_map _ isSpace_asciiLower]

/-! ## Addresses -/

/-- The text the server reads an address from. -/
def bareAddress (raw : String) : String :=
  trim ((stripStart "mailto:" (toAsciiLowercase (trim raw))).getD (toAsciiLowercase (trim raw)))

/-- What an address keeps: the local part up to its tag, and the domain without dots at the ends.
There is one `@`, the local part is not empty, and the domain has a dot and no space. -/
def addressParts (address : String) : Option (String × String) := do
  let (localRaw, domainRaw) ← splitOnceAt '@' address
  let localPart := ((splitOnceAt '+' localRaw).map Prod.fst).getD localRaw
  let domain := trimMatches '.' domainRaw
  if '@' ∉ domainRaw.toList ∧ localPart ≠ "" ∧ '.' ∈ domain.toList ∧ ' ' ∉ domain.toList then
    some (localPart, domain)
  else none

/-- `str::trim_end`. -/
def trimEnd (s : String) : String := String.ofList (s.toList.rdropWhile isWhitespace)

/-- The parts of an address that are not on the denylist, where a domain is looked up as `read`
gives it. -/
def usable (read : String → String) (parts : String × String) : Bool :=
  !roleLocals.contains parts.1 && !isDeniedDomain (read parts.2)

/-- The parts of an address, written as one. -/
def written (parts : String × String) : String := parts.1 ++ "@" ++ parts.2

theorem toList_written (parts : String × String) :
    (written parts).toList = parts.1.toList ++ '@' :: parts.2.toList := by
  rw [written, String.toList_append, String.toList_append, List.append_assoc]
  rfl

theorem splitOnceAt_eq_some {before after : String} :
    splitOnceAt c s = some (before, after) ↔
      s.toList = before.toList ++ c :: after.toList ∧ c ∉ before.toList := by
  rw [splitOnceAt, Option.map_eq_some_iff]
  constructor
  · rintro ⟨⟨cs, cs'⟩, hsplit, hparts⟩
    obtain ⟨rfl, rfl⟩ := Prod.mk.inj hparts
    rw [String.toList_ofList, String.toList_ofList]
    exact splitFirst_eq_some.mp hsplit
  · intro h
    exact ⟨(before.toList, after.toList), splitFirst_eq_some.mpr h, by
      rw [String.ofList_toList, String.ofList_toList]⟩

theorem splitOnceAt_eq_none : splitOnceAt c s = none ↔ c ∉ s.toList := by
  constructor
  · intro h hc
    obtain ⟨before, after, hs, hfresh⟩ := List.eq_append_cons_of_mem hc
    have hsplit : splitOnceAt c s = some (String.ofList before, String.ofList after) := by
      refine splitOnceAt_eq_some.mpr ?_
      rw [String.toList_ofList, String.toList_ofList]
      exact ⟨hs, hfresh⟩
    rw [hsplit] at h
    exact absurd h (by simp)
  · intro h
    rw [Option.eq_none_iff_forall_ne_some]
    rintro ⟨before, after⟩ hsplit
    rw [(splitOnceAt_eq_some.mp hsplit).1] at h
    exact h (by simp)

/-- The text up to the first `c` has no `c`, and the text begins with it. -/
theorem splitOnceAt_fst (c : Char) (s : String) :
    c ∉ (((splitOnceAt c s).map Prod.fst).getD s).toList ∧
      (((splitOnceAt c s).map Prod.fst).getD s).toList <+: s.toList := by
  cases hsplit : splitOnceAt c s with
  | none => exact ⟨splitOnceAt_eq_none.mp hsplit, List.prefix_rfl⟩
  | some parts =>
    obtain ⟨hs, hfresh⟩ := splitOnceAt_eq_some.mp hsplit
    exact ⟨hfresh, ⟨_, hs.symm⟩⟩

/-- The text of an address around the parts that are kept of it. -/
theorem addressParts_spec (h : addressParts address = some (localPart, domain)) :
    ∃ tag domainRaw, address.toList = (localPart.toList ++ tag) ++ '@' :: domainRaw ∧
      '@' ∉ localPart.toList ++ tag ∧ '+' ∉ localPart.toList ∧ localPart ≠ "" ∧
      domain.toList = trimList (· == '.') domainRaw ∧ '.' ∈ domain.toList := by
  unfold addressParts at h
  obtain ⟨⟨localRaw, domainRaw⟩, hsplit, hparts⟩ := Option.bind_eq_some_iff.mp h
  obtain ⟨haddress, hat⟩ := splitOnceAt_eq_some.mp hsplit
  obtain ⟨hplus, ⟨tag, htag⟩⟩ := splitOnceAt_fst '+' localRaw
  dsimp only at hparts
  split at hparts
  · rename_i hshape
    obtain ⟨hlocal, hdomain⟩ := Prod.mk.inj (Option.some.inj hparts)
    rw [hlocal] at htag hplus hshape
    rw [hdomain] at hshape
    refine ⟨tag, domainRaw.toList, ?_, ?_, hplus, hshape.2.1, ?_, hshape.2.2.1⟩
    · rw [htag, haddress]
    · rw [htag]
      exact hat
    · rw [← hdomain, toList_trimMatches]
  · exact absurd hparts (by simp)

/-! ## The server's reading -/

/-- A written address loses the white space behind its domain, and nothing else, to a trim. -/
theorem trim_written (hne : localPart ≠ "")
    (hhead : ∀ c, localPart.toList.head? = some c → isWhitespace c = false) :
    trim (written (localPart, domain)) = written (localPart, trimEnd domain) := by
  obtain ⟨c, cs, hcs⟩ := List.exists_cons_of_ne_nil (mt String.toList_eq_nil_iff.mp hne)
  have hc : ¬ isWhitespace c = true := by simp [hhead c (by rw [hcs]; rfl)]
  apply String.toList_inj.mp
  rw [toList_trim, toList_written, toList_written]
  dsimp only
  rw [trimEnd, String.toList_ofList, trimList, hcs, List.cons_append,
    List.dropWhile_cons_of_neg hc, ← List.cons_append, rdropWhile_append_of_not (by decide)]

theorem toAsciiLowercase_of_lower (h : ∀ c ∈ s.toList, asciiLower c = c) :
    toAsciiLowercase s = s := by
  apply String.toList_inj.mp
  rw [toList_toAsciiLowercase]
  exact (List.map_congr_left h).trans (List.map_id _)

theorem splitOnceAt_written (hat : '@' ∉ localPart.toList) (domain : String) :
    splitOnceAt '@' (written (localPart, domain)) = some (localPart, domain) :=
  splitOnceAt_eq_some.mpr ⟨toList_written _, hat⟩

theorem isDenylisted_written (hat : '@' ∉ localPart.toList) (hplus : '+' ∉ localPart.toList)
    (hne : localPart ≠ "") (hhead : ∀ c, localPart.toList.head? = some c → isWhitespace c = false)
    (hlower : ∀ c ∈ localPart.toList ++ domain.toList, asciiLower c = c) :
    isDenylisted .email (written (localPart, domain)) =
      !usable trimEnd (localPart, domain) := by
  have hlower' : toAsciiLowercase (written (localPart, trimEnd domain)) =
      written (localPart, trimEnd domain) := by
    refine toAsciiLowercase_of_lower fun c hc => ?_
    rw [toList_written, List.mem_append, List.mem_cons] at hc
    rcases hc with hc | rfl | hc
    · exact hlower c (List.mem_append_left _ hc)
    · rfl
    · dsimp only at hc
      rw [trimEnd, String.toList_ofList] at hc
      exact hlower c (List.mem_append_right _ ((List.rdropWhile_prefix _ _).subset hc))
  unfold isDenylisted
  rw [trim_written hne hhead, hlower']
  dsimp only
  rw [splitOnceAt_written hat]
  simp only [splitOnceAt_eq_none.mpr hplus, usable, Option.map_none, Option.getD_none,
    Bool.not_and, Bool.not_not]

theorem toList_bareAddress_lower (raw : String) :
    ∀ c ∈ (bareAddress raw).toList, asciiLower c = c := by
  intro c hc
  have hlower : ∀ d ∈ (toAsciiLowercase (trim raw)).toList, asciiLower d = d := by
    intro d hd
    rw [toList_toAsciiLowercase, List.mem_map] at hd
    obtain ⟨e, -, rfl⟩ := hd
    exact asciiLower_asciiLower e
  rw [bareAddress, toList_trim] at hc
  refine hlower c ?_
  have hsub := mem_of_mem_trimList hc
  cases hstrip : stripStart "mailto:" (toAsciiLowercase (trim raw)) with
  | none =>
    rw [hstrip] at hsub
    exact hsub
  | some rest =>
    rw [hstrip] at hsub
    rw [stripStart_eq_some.mp hstrip]
    exact List.mem_append_right _ hsub

/-- Both sides test an address in the same order; an empty side fails a later test as well. -/
theorem address_ladder {β : Type} (localRaw domainRaw : String)
    (next : String × String → Option β) :
    (if localRaw = "" ∨ domainRaw = "" then none
      else if containsChar '@' domainRaw then none
      else
        let localPart := ((splitOnceAt '+' localRaw).map Prod.fst).getD localRaw
        if localPart = "" then none
        else
          let domain := trimMatches '.' domainRaw
          if !containsChar '.' domain || containsChar ' ' domain then none
          else next (localPart, domain)) =
      (let localPart := ((splitOnceAt '+' localRaw).map Prod.fst).getD localRaw
        let domain := trimMatches '.' domainRaw
        if '@' ∉ domainRaw.toList ∧ localPart ≠ "" ∧ '.' ∈ domain.toList ∧ ' ' ∉ domain.toList then
          some (localPart, domain)
        else none).bind next := by
  have hlocal : localRaw = "" → ((splitOnceAt '+' localRaw).map Prod.fst).getD localRaw = "" := by
    rintro rfl
    have hprefix := (splitOnceAt_fst '+' "").2
    exact String.toList_eq_nil_iff.mp (List.prefix_nil.mp hprefix)
  have hdomain : domainRaw = "" → '.' ∉ (trimMatches '.' domainRaw).toList := by
    rintro rfl
    decide
  generalize ((splitOnceAt '+' localRaw).map Prod.fst).getD localRaw = localPart at hlocal ⊢
  generalize trimMatches '.' domainRaw = domain at hdomain ⊢
  simp only [containsChar, List.contains_eq_mem, decide_eq_true_eq, Bool.or_eq_true,
    Bool.not_eq_true', decide_eq_false_iff_not]
  by_cases hshape : '@' ∉ domainRaw.toList ∧ localPart ≠ "" ∧ '.' ∈ domain.toList ∧
      ' ' ∉ domain.toList
  · obtain ⟨hat, hne, hdot, hspace⟩ := hshape
    rw [if_neg (by
      rintro (h | h)
      · exact hne (hlocal h)
      · exact hdomain h hdot), if_neg hat, if_neg hne, if_neg (by simp [hdot, hspace]),
      if_pos ⟨hat, hne, hdot, hspace⟩, Option.bind_some]
  · rw [if_neg hshape, Option.bind_none]
    split_ifs with h1 h2 h3 h4
    · rfl
    · rfl
    · rfl
    · rfl
    · rw [not_or, not_not] at h4
      exact absurd ⟨h2, h3, h4⟩ hshape

/-- The parts that the server reads begin with no white space and are in lower case. -/
theorem addressParts_bareAddress {raw : String}
    (h : addressParts (bareAddress raw) = some (localPart, domain)) :
    (∀ c, localPart.toList.head? = some c → isWhitespace c = false) ∧
      ∀ c ∈ localPart.toList ++ domain.toList, asciiLower c = c := by
  obtain ⟨tag, domainRaw, haddress, -, -, -, hdomain, -⟩ := addressParts_spec h
  constructor
  · intro c hc
    refine not_of_head?_trimList (l := ((stripStart "mailto:" (toAsciiLowercase (trim raw))).getD
      (toAsciiLowercase (trim raw))).toList) ?_
    rw [← toList_trim]
    change (bareAddress raw).toList.head? = some c
    rw [haddress, List.append_assoc, List.head?_append, hc]
    rfl
  · intro c hc
    refine toList_bareAddress_lower raw c ?_
    rw [haddress]
    rcases List.mem_append.mp hc with hc | hc
    · exact List.mem_append_left _ (List.mem_append_left _ hc)
    · rw [hdomain] at hc
      exact List.mem_append_right _ (List.mem_cons_of_mem _ (mem_of_mem_trimList hc))

/-- The server's key is its address, unless the denylist has the address with the white space
after its domain trimmed. -/
theorem canonicalizeEmail_eq (raw : String) (keyNamespace : KeyNamespace) :
    canonicalizeEmail raw keyNamespace =
      ((addressParts (bareAddress raw)).filter (usable trimEnd)).map fun parts =>
        ⟨.email, written parts, keyNamespace⟩ := by
  have hcanon : canonicalizeEmail raw keyNamespace =
      (addressParts (bareAddress raw)).bind fun parts =>
        if isDenylisted .email (written parts) then none
        else some ⟨.email, written parts, keyNamespace⟩ := by
    unfold canonicalizeEmail addressParts
    change (splitOnceAt '@' (bareAddress raw)).bind _ =
      ((splitOnceAt '@' (bareAddress raw)).bind _).bind _
    cases hsplit : splitOnceAt '@' (bareAddress raw) with
    | none => rw [Option.bind_none, Option.bind_none, Option.bind_none]
    | some parts =>
      obtain ⟨localRaw, domainRaw⟩ := parts
      rw [Option.bind_some, Option.bind_some]
      have h := address_ladder localRaw domainRaw fun parts =>
        if isDenylisted .email (written parts) then none
        else some (⟨.email, written parts, keyNamespace⟩ : CanonKey)
      dsimp only [written] at h ⊢
      generalize isDenylisted .email = denied at h ⊢
      exact h
  rw [hcanon]
  cases hparts : addressParts (bareAddress raw) with
  | none => rfl
  | some parts =>
    obtain ⟨localPart, domain⟩ := parts
    obtain ⟨tag, domainRaw, -, hat, hplus, hne, -, -⟩ := addressParts_spec hparts
    obtain ⟨hhead, hlower⟩ := addressParts_bareAddress hparts
    have hdeny := isDenylisted_written (fun h => hat (List.mem_append_left _ h)) hplus hne hhead
      hlower
    rw [Option.bind_some, hdeny]
    cases hu : usable trimEnd (localPart, domain) <;> simp [hu]

theorem canonicalizeEmail_value (raw : String) (keyNamespace : KeyNamespace) :
    (canonicalizeEmail raw keyNamespace).map CanonKey.value =
      ((addressParts (bareAddress raw)).filter (usable trimEnd)).map written := by
  rw [canonicalizeEmail_eq, Option.map_map]
  rfl

/-! ## The connector's reading -/

theorem splitHead_of_not_mem (h : c ∉ s.toList) : Connector.splitHead c s = s := by
  rw [Connector.splitHead, splitOnceAt_eq_none.mpr h]
  rfl

/-- The connector's email is its address, unless the denylist has the address as it stands. -/
theorem connector_canonicalizeEmail_eq (raw : String) :
    Connector.canonicalizeEmail raw =
      ((addressParts (Connector.bareAddress raw)).filter (usable id)).map written := by
  have hcanon : Connector.canonicalizeEmail raw =
      (addressParts (Connector.bareAddress raw)).bind fun parts =>
        if Connector.isDenylistedEmail parts.1 parts.2 then none else some (written parts) := by
    by_cases hraw : raw = ""
    · rw [hraw]
      rfl
    rw [Connector.canonicalizeEmail, if_neg hraw]
    unfold addressParts
    dsimp only
    cases hsplit : splitOnceAt '@' (Connector.bareAddress raw) with
    | none =>
      rw [if_pos (by simp [List.count_eq_zero.mpr (splitOnceAt_eq_none.mp hsplit)])]
      rfl
    | some parts =>
      obtain ⟨localRaw, domainRaw⟩ := parts
      obtain ⟨haddress, hfresh⟩ := splitOnceAt_eq_some.mp hsplit
      have hcount : (Connector.bareAddress raw).toList.count '@' =
          domainRaw.toList.count '@' + 1 := by
        rw [haddress, List.count_append, List.count_eq_zero.mpr hfresh, List.count_cons_self,
          Nat.zero_add]
      have h := address_ladder localRaw domainRaw fun parts =>
        if Connector.isDenylistedEmail parts.1 parts.2 then none else some (written parts)
      by_cases hat : '@' ∈ domainRaw.toList
      · have hpos := List.count_pos_iff.mpr hat
        rw [if_pos (by omega)]
        simp [hat]
      · have hzero := List.count_eq_zero.mpr hat
        rw [if_neg (by omega)]
        have hcontains : containsChar '@' domainRaw = false := by
          simpa [containsChar] using hat
        rw [hcontains, if_neg Bool.false_ne_true] at h
        dsimp only [written] at h ⊢
        generalize Connector.isDenylistedEmail = denied at h ⊢
        exact h
  rw [hcanon]
  cases hparts : addressParts (Connector.bareAddress raw) with
  | none => rfl
  | some parts =>
    obtain ⟨localPart, domain⟩ := parts
    obtain ⟨-, -, -, -, hplus, -⟩ := addressParts_spec hparts
    have hdeny : Connector.isDenylistedEmail localPart domain =
        !usable id (localPart, domain) := by
      rw [Connector.isDenylistedEmail, splitHead_of_not_mem hplus]
      simp only [usable, id, Bool.not_and, Bool.not_not]
      rfl
    rw [Option.bind_some, hdeny]
    cases hu : usable id (localPart, domain) <;> simp [hu]

/-! ## One address, two readings -/

/-- A start whose ends are not white space is found behind a strip as well. -/
theorem stripStart_strip {start rest : String} {first last : Char} {cs : List Char}
    (hstart : start.toList = first :: (cs ++ [last])) (hfirst : Connector.isSpace first = false)
    (hlast : Connector.isSpace last = false) (h : stripStart start s = some rest) :
    stripStart start (Connector.strip s) =
      some (String.ofList (rest.toList.rdropWhile Connector.isSpace)) := by
  have hrest := stripStart_eq_some.mp h
  refine stripStart_eq_some.mpr ?_
  have hs : s.toList = (first :: cs) ++ last :: rest.toList := by
    rw [hrest, hstart]
    simp
  rw [toList_strip, String.toList_ofList, hs, hstart, trimList, List.cons_append,
    List.dropWhile_cons_of_neg (by simp [hfirst]), ← List.cons_append,
    rdropWhile_append_of_not hlast]
  simp

/-- A start that only a strip brings out stands behind white space. -/
theorem head?_of_stripStart_strip {start rest : String} (h : stripStart start s = none)
    (h' : stripStart start (Connector.strip s) = some rest) :
    ∃ c, s.toList.head? = some c ∧ Connector.isSpace c = true := by
  have hprefix : ¬ start.toList <+: s.toList := by
    intro hprefix
    rw [stripStart, if_pos hprefix] at h
    exact absurd h (by simp)
  have hrest := stripStart_eq_some.mp h'
  rw [toList_strip] at hrest
  cases hs : s.toList with
  | nil =>
    rw [hs] at hprefix hrest
    have hnil := (List.append_eq_nil_iff.mp hrest.symm).1
    rw [hnil] at hprefix
    exact absurd List.prefix_rfl hprefix
  | cons c cs =>
    refine ⟨c, rfl, ?_⟩
    by_contra hc
    -- nothing is stripped in front, so the start is there without the strip
    rw [hs, trimList, List.dropWhile_cons_of_neg hc] at hrest
    rw [hs] at hprefix
    refine hprefix (List.IsPrefix.trans ⟨rest.toList, hrest.symm⟩ ?_)
    exact List.rdropWhile_prefix _ _

/-- The connector strips what the server trimmed, unless it sees a `mailto:` behind the separators
the server leaves in front. -/
theorem connector_bareAddress_cases (raw : String) :
    Connector.bareAddress raw = Connector.strip (bareAddress raw) ∨
      ∃ c, (bareAddress raw).toList.head? = some c ∧ Connector.isSpace c = true := by
  have hstrip : Connector.lower (Connector.strip raw) =
      Connector.strip (toAsciiLowercase (trim raw)) := by
    rw [Connector.lower, strip_toAsciiLowercase, strip_trim]
  have htrim : trim (toAsciiLowercase (trim raw)) = toAsciiLowercase (trim raw) := by
    rw [trim_toAsciiLowercase, trim_trim]
  have hscheme : "mailto:".toList = 'm' :: ("ailto".toList ++ [':']) := rfl
  unfold Connector.bareAddress bareAddress
  rw [hstrip]
  generalize "mailto:" = start at hscheme ⊢
  generalize toAsciiLowercase (trim raw) = s at htrim ⊢
  dsimp only
  cases hs : stripStart start s with
  | some rest =>
    rw [stripStart_strip hscheme (by decide) (by decide) hs, Option.getD_some]
    refine .inl (String.toList_inj.mp ?_)
    dsimp only
    rw [toList_strip, toList_strip, toList_trim, String.toList_ofList,
      trimList_trimList fun _ => isSpace_of_isWhitespace, trimList_rdropWhile]
  | none =>
    rw [Option.getD_none, htrim]
    cases hs' : stripStart start (Connector.strip s) with
    | none => exact .inl rfl
    | some rest => exact .inr (head?_of_stripStart_strip hs hs')

theorem strip_connector_bareAddress (raw : String) :
    Connector.strip (Connector.bareAddress raw) = Connector.bareAddress raw := by
  unfold Connector.bareAddress
  dsimp only
  split
  · exact strip_strip _
  · rw [Connector.lower, strip_toAsciiLowercase, strip_strip]

theorem ne_dot_of_isSpace (h : Connector.isSpace c = true) : (c == '.') = false := by
  rw [beq_eq_false_iff_ne]
  rintro rfl
  exact absurd h (by decide)

/-- White space behind a text shows in the domain that is read from it. -/
theorem trimList_dots_append {l back : List Char} (hback : ∀ c ∈ back, Connector.isSpace c = true)
    (hne : trimList (· == '.') l ≠ [])
    (h : trimList (· == '.') (l ++ back) = trimList (· == '.') l) : back = [] := by
  obtain ⟨front, dots, hl, hfront, -⟩ := exists_trimList (· == '.') l
  have hhead := fun a => not_of_head?_trimList (p := (· == '.')) (l := l) (a := a)
  generalize trimList (· == '.') l = domain at h hne hl hhead
  by_contra hback'
  have hself : trimList (· == '.') (domain ++ (dots ++ back)) = domain ++ (dots ++ back) := by
    refine trimList_eq_self (fun a ha => hhead a ?_) fun a ha => ?_
    · rwa [List.head?_append_of_ne_nil _ hne] at ha
    · rw [← List.append_assoc, List.getLast?_append_of_ne_nil _ hback'] at ha
      exact ne_dot_of_isSpace (hback a (List.mem_of_getLast? ha))
  have hsurround : trimList (· == '.') (front ++ ((domain ++ (dots ++ back)) ++ [])) =
      trimList (· == '.') (domain ++ (dots ++ back)) := trimList_surround hfront (by simp)
  rw [List.append_nil, hself] at hsurround
  rw [hl, List.append_assoc, List.append_assoc, hsurround] at h
  have hnil := List.append_right_eq_self.mp h
  exact hback' (List.append_eq_nil_iff.mp hnil).2

/-- The two readings of a text keep the same address only when they are one text. -/
theorem bareAddress_eq_of_parts {raw : String} (h : addressParts (bareAddress raw) = some parts)
    (h' : addressParts (Connector.bareAddress raw) = some parts) :
    bareAddress raw = Connector.bareAddress raw := by
  obtain ⟨localPart, domain⟩ := parts
  obtain ⟨tag, domainRaw, haddress, hat, -, hne, hdomain, -⟩ := addressParts_spec h
  obtain ⟨tag', domainRaw', haddress', hat', -, -, hdomain', hdot⟩ := addressParts_spec h'
  have hcons : ∃ c cs, localPart.toList = c :: cs := List.exists_cons_of_ne_nil
    (mt String.toList_eq_nil_iff.mp hne)
  obtain ⟨c, cs, hcs⟩ := hcons
  -- both texts begin with the local part, the connector's with no white space
  have hhead : (bareAddress raw).toList.head? = some c := by
    rw [haddress, hcs]
    rfl
  have hc : Connector.isSpace c = false := by
    refine not_of_head?_trimList (l := (Connector.bareAddress raw).toList) ?_
    rw [← toList_strip, strip_connector_bareAddress, haddress', hcs]
    rfl
  rcases connector_bareAddress_cases raw with hstrip | ⟨c', hhead', hc'⟩
  · obtain ⟨front, back, hbare, hfront, hback⟩ :=
      exists_trimList Connector.isSpace (bareAddress raw).toList
    rw [← toList_strip, ← hstrip] at hbare
    cases front with
    | cons a front =>
      rw [hbare, List.cons_append, List.head?_cons, Option.some.injEq] at hhead
      rw [← hhead, hfront a List.mem_cons_self] at hc
      exact absurd hc (by simp)
    | nil =>
      rw [List.nil_append] at hbare
      have hsplit : (localPart.toList ++ tag) ++ '@' :: domainRaw =
          (localPart.toList ++ tag') ++ '@' :: (domainRaw' ++ back) := by
        rw [← haddress, hbare, haddress', List.append_assoc, List.cons_append]
      have hraw := (append_separator_inj hat hat' hsplit).2
      have hnil : back = [] := by
        refine trimList_dots_append hback (l := domainRaw') ?_ ?_
        · rw [← hdomain']
          exact List.ne_nil_of_mem hdot
        · rw [← hraw, ← hdomain, hdomain']
      rw [hnil, List.append_nil] at hbare
      exact String.toList_inj.mp hbare
  · rw [hhead, Option.some.injEq] at hhead'
    rw [hhead', hc'] at hc
    exact absurd hc (by simp)

/-- Whether a text is an address that is not on the denylist. -/
def isContact (read : String → String) (address : String) : Bool :=
  (addressParts address).any (usable read)

/-- Where either reading is a contact, the texts read are one, and the denylist has its domain
neither as it stands nor with the white space behind it trimmed. -/
def SameAddress (raw : String) : Prop :=
  isContact trimEnd (bareAddress raw) ∨ isContact id (Connector.bareAddress raw) →
    bareAddress raw = Connector.bareAddress raw ∧ isContact trimEnd (bareAddress raw)

theorem usable_id_of_trimEnd (h : usable trimEnd parts = true) : usable id parts = true := by
  have htable : ∀ d ∈ freemailDomains ++ placeholderDomains, trimEnd d = d := by decide +kernel
  simp only [usable, id, Bool.and_eq_true, Bool.not_eq_true'] at h ⊢
  refine ⟨h.1, ?_⟩
  by_contra hdenied
  rw [Bool.not_eq_false] at hdenied
  have hmem : parts.2 ∈ freemailDomains ++ placeholderDomains := by
    simpa [isDeniedDomain] using hdenied
  rw [htable _ hmem, hdenied] at h
  exact absurd h.2 (by simp)

theorem isContact_iff {read : String → String} :
    isContact read address = true ↔
      ∃ parts, addressParts address = some parts ∧ usable read parts = true := by
  rw [isContact, Option.any_eq_true]

theorem filter_usable {read : String → String} :
    (addressParts address).filter (usable read) = some parts ↔
      addressParts address = some parts ∧ usable read parts = true :=
  Option.filter_eq_some_iff

theorem written_inj {address' : String} {parts' : String × String}
    (h : addressParts address = some parts) (h' : addressParts address' = some parts')
    (heq : written parts = written parts') : parts = parts' := by
  obtain ⟨tag, -, -, hat, -⟩ := addressParts_spec h
  obtain ⟨tag', -, -, hat', -⟩ := addressParts_spec h'
  have hlists := congrArg String.toList heq
  rw [toList_written, toList_written] at hlists
  obtain ⟨hlocal, hdomain⟩ := append_separator_inj (fun hc => hat (List.mem_append_left _ hc))
    (fun hc => hat' (List.mem_append_left _ hc)) hlists
  exact Prod.ext (String.toList_inj.mp hlocal) (String.toList_inj.mp hdomain)

/-- The connector and the server agree on an address. -/
theorem emails_agree_iff (raw : String) (keyNamespace : KeyNamespace) :
    Connector.canonicalizeEmail raw = (canonicalizeEmail raw keyNamespace).map CanonKey.value ↔
      SameAddress raw := by
  rw [connector_canonicalizeEmail_eq, canonicalizeEmail_value, SameAddress]
  constructor
  · intro h hcontact
    -- both readings are some address, and it is the same
    have hboth : ∃ parts parts', addressParts (bareAddress raw) = some parts ∧
        addressParts (Connector.bareAddress raw) = some parts' ∧ usable trimEnd parts = true ∧
        written parts' = written parts := by
      rcases hcontact with hcontact | hcontact
      · obtain ⟨parts, hparts, husable⟩ := isContact_iff.mp hcontact
        rw [filter_usable.mpr ⟨hparts, husable⟩, Option.map_some, Option.map_eq_some_iff] at h
        obtain ⟨parts', hparts', heq⟩ := h
        exact ⟨parts, parts', hparts, (filter_usable.mp hparts').1, husable, heq⟩
      · obtain ⟨parts', hparts', husable⟩ := isContact_iff.mp hcontact
        rw [filter_usable.mpr ⟨hparts', husable⟩, Option.map_some, eq_comm,
          Option.map_eq_some_iff] at h
        obtain ⟨parts, hparts, heq⟩ := h
        obtain ⟨hparts, husable⟩ := filter_usable.mp hparts
        exact ⟨parts, parts', hparts, hparts', husable, heq.symm⟩
    obtain ⟨parts, parts', hparts, hparts', husable, heq⟩ := hboth
    have hsame := written_inj hparts' hparts heq
    rw [hsame] at hparts'
    exact ⟨bareAddress_eq_of_parts hparts hparts', isContact_iff.mpr ⟨parts, hparts, husable⟩⟩
  · intro h
    by_cases hcontact : isContact trimEnd (bareAddress raw) = true ∨
        isContact id (Connector.bareAddress raw) = true
    · obtain ⟨hsame, hserver⟩ := h hcontact
      obtain ⟨parts, hparts, husable⟩ := isContact_iff.mp hserver
      rw [← hsame, filter_usable.mpr ⟨hparts, husable⟩,
        filter_usable.mpr ⟨hparts, usable_id_of_trimEnd husable⟩]
    · have hnone : ∀ read address, isContact read address ≠ true →
          (addressParts address).filter (usable read) = none := by
        intro read address hno
        rw [Option.eq_none_iff_forall_ne_some]
        intro parts hparts
        exact hno (isContact_iff.mpr ⟨parts, filter_usable.mp hparts⟩)
      rw [not_or] at hcontact
      rw [hnone _ _ hcontact.1, hnone _ _ hcontact.2]

end Verity.Analysis
