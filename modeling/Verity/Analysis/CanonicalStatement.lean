import Verity.Analysis.UrlHosts
import Verity.Model.CanonicalStatement

/-!
# What the canonical form of a requirement keeps

The canonical form of "customers require P before Q" lists the words of P and of Q together. The
patterns find nothing in a statement of words that no table has, so the form is decided by the set
of these words, and two requirements have the same form exactly if they use the same words,
whatever stands on which side of the gate.
-/

set_option autoImplicit false

namespace Verity.Analysis

open Verity.Foundation Verity.Model

namespace CanonicalStatement

/-! ## Letters -/

theorem toNat_of_isWordChar {c : Char} (h : isWordChar c = true) : c.toNat < 128 := by
  simp only [isWordChar, Bool.or_eq_true, decide_eq_true_eq, beq_iff_eq] at h
  rcases h with (h | h) | rfl
  · have hle : c.toNat ≤ 122 := h.2
    omega
  · have hle : c.toNat ≤ 57 := h.2
    omega
  · decide

theorem isWordChar_spec {c : Char} (h : isWordChar c = true) :
    Connector.isSpace c = false ∧ asciiLower c = c ∧ c ≠ '(' := by
  have hall : ∀ c : Char, isWordChar c = true →
      Connector.isSpace c = false ∧ asciiLower c = c ∧ c ≠ '(' := by
    refine char_forall (by decide +kernel) ?_
    intro c hc hword
    exact absurd (toNat_of_isWordChar hword) (by omega)
  exact hall c h

theorem isWordChar_of_isSpace {c : Char} (h : Connector.isSpace c = true) :
    isWordChar c = false := by
  by_contra hword
  rw [Bool.not_eq_false] at hword
  simp [(isWordChar_spec hword).1] at h

theorem isWordChar_of_dash {c : Char} (h : (c == '-' || c == ' ') = true) :
    isWordChar c = false := by
  simp only [Bool.or_eq_true, beq_iff_eq] at h
  rcases h with rfl | rfl <;> decide

/-! ## Joined words -/

/-- A text that `[a-z0-9_]+` matches whole. -/
def IsWord (w : String) : Prop := w ≠ "" ∧ ∀ c ∈ w.toList, isWordChar c = true

instance (w : String) : Decidable (IsWord w) :=
  decidable_of_iff (w ≠ "" ∧ w.toList.all isWordChar = true) (by rw [List.all_eq_true]; rfl)

section Joined

variable {words : List String} (h : ∀ w ∈ words, IsWord w)

include h

theorem letters_joined {c : Char} (hc : c ∈ (" ".intercalate words).toList) :
    isWordChar c = true ∨ c = ' ' := by
  rw [String.toList_intercalate] at hc
  rcases mem_intercalate hc with hspace | ⟨part, hpart, hin⟩
  · exact Or.inr (List.mem_singleton.mp hspace)
  · obtain ⟨w, hw, rfl⟩ := List.mem_map.mp hpart
    exact Or.inl ((h w hw).2 c hin)

/-- The words are found again in the text they are joined to. -/
theorem splitSpaces_joined : splitSpaces (" ".intercalate words).toList = words := by
  induction words with
  | nil => rfl
  | cons w words ih =>
    have hw := h w List.mem_cons_self
    have hne : w.toList ≠ [] := mt String.toList_eq_nil_iff.mp hw.1
    have hspace : ∀ c ∈ w.toList, Connector.isSpace c = false :=
      fun c hc => (isWordChar_spec (hw.2 c hc)).1
    cases words with
    | nil =>
      rw [String.intercalate_singleton, splitSpaces, List.splitOnP_eq_singleton hspace]
      simp [hne]
    | cons w' words =>
      have hrest := ih fun w hw => h w (List.mem_cons_of_mem _ hw)
      rw [String.intercalate_cons_cons, String.toList_append, String.toList_append,
        List.append_assoc, splitSpaces]
      have hsplit := List.splitOnP_append_cons_of_forall_mem hspace ' ' (by decide)
        (" ".intercalate (w' :: words)).toList
      rw [show " ".toList = [' '] from rfl, List.singleton_append, hsplit,
        List.filter_cons_of_pos (by simpa using hne), List.map_cons, String.ofList_toList]
      exact congrArg (w :: ·) hrest

theorem joined_inj {words' : List String} (h' : ∀ w ∈ words', IsWord w) :
    " ".intercalate words = " ".intercalate words' ↔ words = words' := by
  constructor
  · intro heq
    rw [← splitSpaces_joined h, ← splitSpaces_joined h', heq]
  · exact congrArg _

theorem lower_joined : Connector.lower (" ".intercalate words) = " ".intercalate words := by
  apply String.toList_inj.mp
  rw [Connector.lower, toList_toAsciiLowercase]
  refine (List.map_congr_left fun c hc => ?_).trans (List.map_id _)
  rcases letters_joined h hc with hword | rfl
  · exact (isWordChar_spec hword).2.1
  · decide

/-- Nothing is stripped off joined words. -/
theorem strip_joined : Connector.strip (" ".intercalate words) = " ".intercalate words := by
  apply String.toList_inj.mp
  rw [Connector.strip, String.toList_ofList]
  have hspace : ∀ w ∈ words, ∀ c ∈ w.toList, Connector.isSpace c = false :=
    fun w hw c hc => (isWordChar_spec ((h w hw).2 c hc)).1
  refine trimList_eq_self (fun c hc => ?_) fun c hc => ?_
  · cases words with
    | nil => exact absurd hc (by simp)
    | cons first rest =>
      rw [head?_intercalate " " (h first List.mem_cons_self).1 rest] at hc
      exact hspace first List.mem_cons_self c (List.mem_of_mem_head? hc)
  · rcases List.eq_nil_or_concat words with rfl | ⟨front, last, rfl⟩
    · exact absurd hc (by simp)
    · have hlast : last ∈ front ++ [last] := by simp
      rw [List.concat_eq_append, getLast?_intercalate " " (h last (by simp)).1 front] at hc
      exact hspace last (by simp) c (List.mem_of_mem_getLast? hc)

end Joined

/-! ## The patterns on plain words -/

/-- The words with which the patterns can begin. -/
def openers : List String :=
  ["data", "signed", "business", "baa", "soc", "soc2", "third", "independent", "pen",
    "penetration", "vendor", "security", "until"]

/-- What the patterns begin with, as lists of letters. -/
def openerLetters : List (List Char) := openers.map String.toList

section Openers

variable {r t : Regex Char}

theorem breaks_spaces : Regex.Breaks isWordChar (.seq Phrases.spaces t) :=
  Regex.breaks_some_seq fun _ => isWordChar_of_isSpace

theorem breaks_dash : Regex.Breaks isWordChar (.seq Phrases.dash t) :=
  Regex.breaks_one_seq fun _ => isWordChar_of_dash

theorem breaks_opt_spaces (ht : Regex.Breaks isWordChar t) :
    Regex.Breaks isWordChar (.seq (.opt (.seq Phrases.spaces r)) t) :=
  (Regex.Breaks.seq_assoc breaks_spaces).opt_seq ht

theorem opens_text {s : String} (hs : s ∈ openers) (hr : Regex.Breaks isWordChar r) :
    Regex.Opens isWordChar (Phrases.text s r) openerLetters := by
  have hword : IsWord s := by
    have hall : ∀ s ∈ openers, IsWord s := by decide
    exact hall s hs
  exact Regex.opens_lit (mt String.toList_eq_nil_iff.mp hword.1) hword.2 hr
    (List.mem_map_of_mem hs)

theorem opens_text_seq {s : String} (hs : s ∈ openers) (hr : Regex.Breaks isWordChar (.seq r t)) :
    Regex.Opens isWordChar (.seq (Phrases.text s r) t) openerLetters :=
  Regex.Opens.lit_seq (opens_text hs hr)

end Openers

theorem opens_soc2 : ∃ r, Phrases.soc2 = .seq .edge r ∧
    Regex.Opens isWordChar r openerLetters := by
  refine ⟨_, rfl, Regex.Opens.lit_many (opens_text (by decide) ?_) (Regex.Opens.lit_lit ?_)⟩
  · exact Regex.breaks_one_seq fun _ => isWordChar_of_isSpace
  · exact opens_text (s := "soc2") (by decide)
      (breaks_opt_spaces (breaks_opt_spaces Regex.breaks_edge))

theorem opens_pentest : ∃ r, Phrases.pentest = .seq .edge r ∧
    Regex.Opens isWordChar r openerLetters := by
  have hwho : ∀ t, Regex.Opens isWordChar (.seq (.alt
      (Phrases.text "third" (.seq Phrases.dash (Phrases.text "party" Phrases.spaces)))
      (Phrases.text "independent" Phrases.spaces)) t) openerLetters := by
    intro t
    exact (opens_text_seq (by decide) (Regex.Breaks.seq_assoc breaks_dash)).alt_seq
      (opens_text_seq (by decide) breaks_spaces)
  refine ⟨_, rfl, (hwho _).opt_seq (Regex.Opens.lit_opt (Regex.Opens.lit_lit_seq ?_) ?_)⟩
  · apply opens_text (s := "penetration") (by decide)
    intro before after hbefore hmatch
    exact breaks_dash before after hbefore (Regex.matchesAt_empty_seq.mp hmatch)
  · exact opens_text (by decide) breaks_dash

/-- Each phrase begins with one of the words at its edge. -/
theorem opens_phrase {phrase : Regex Char × String} (hphrase : phrase ∈ canonicalPhrases) :
    ∃ r, phrase.1 = .seq .edge r ∧ Regex.Opens isWordChar r openerLetters := by
  simp only [canonicalPhrases, List.mem_cons, List.not_mem_nil, or_false] at hphrase
  rcases hphrase with rfl | rfl | rfl | rfl | rfl | rfl | rfl | rfl | rfl
  · exact ⟨_, rfl, opens_text (by decide) breaks_spaces⟩
  · exact ⟨_, rfl, opens_text (by decide) breaks_spaces⟩
  · exact ⟨_, rfl, opens_text (by decide) breaks_spaces⟩
  · exact ⟨_, rfl, opens_text (by decide) Regex.breaks_edge⟩
  · exact opens_soc2
  · exact opens_pentest
  · exact ⟨_, rfl, (opens_text_seq (by decide) breaks_spaces).opt_seq
      (opens_text (by decide) breaks_spaces)⟩
  · exact ⟨_, rfl, opens_text (by decide) breaks_spaces⟩
  · exact ⟨_, rfl, opens_text (by decide) breaks_spaces⟩

/-- A pattern for what begins with a letter of a class, on a text without such a letter. -/
theorem replaceAll_eq_self {pattern : Regex Char} {p : Char → Bool} {repl : String} {s : List Char}
    (hhead : ∀ front back, Regex.matchesAt isWordChar pattern front back = true →
      ∃ c ∈ back.head?, p c = true) (hp : ∀ c ∈ s, p c = false) :
    replaceAll pattern repl s = s := by
  apply Regex.sub_eq_self
  intro front back hplace
  by_contra hmatch
  obtain ⟨c, hc, hpc⟩ := hhead front back (by simpa using hmatch)
  have hin : c ∈ s := by
    rw [← hplace]
    exact List.mem_append_right _ (List.mem_of_mem_head? hc)
  rw [hp c hin] at hpc
  exact absurd hpc (by decide)

theorem head_of_parenthetical {front back : List Char}
    (h : Regex.matchesAt isWordChar Phrases.parenthetical front back = true) :
    ∃ c ∈ back.head?, (c == '(') = true := by
  obtain ⟨c, rest, rfl, hc, -⟩ := Regex.matchesAt_one_seq.mp h
  exact ⟨c, rfl, hc⟩

theorem head_of_punctuation {front back : List Char}
    (h : Regex.matchesAt isWordChar Phrases.punctuation front back = true) :
    ∃ c ∈ back.head?, (!(isWordChar c || Connector.isSpace c)) = true := by
  cases back with
  | nil => simp [Phrases.punctuation, Regex.matchesAt, Regex.ends] at h
  | cons c rest =>
    refine ⟨c, rfl, ?_⟩
    simpa [Phrases.punctuation, Regex.matchesAt, Regex.ends] using h

section Plain

variable {words : List String} (h : ∀ w ∈ words, IsWord w) (hplain : ∀ w ∈ openers, w ∉ words)

include h

include hplain

theorem matchesAt_of_opens {r : Regex Char} (hr : Regex.Opens isWordChar r openerLetters)
    {front back : List Char} (hplace : front.reverse ++ back = (" ".intercalate words).toList) :
    Regex.matchesAt isWordChar (.seq .edge r) front back = false := by
  rw [String.toList_intercalate] at hplace
  refine Regex.matchesAt_edge_seq_eq_false hr ?_ (by decide) ?_ hplace
  · intro letters hletters
    obtain ⟨w, hw, rfl⟩ := List.mem_map.mp hletters
    exact (h w hw).2
  · intro letters hletters
    obtain ⟨w, hw, rfl⟩ := List.mem_map.mp hletters
    have hne : ∀ w ∈ openers, w.toList ≠ [] := by decide
    refine ⟨hne w hw, fun hin => ?_⟩
    obtain ⟨w', hw', heq⟩ := List.mem_map.mp hin
    rw [String.toList_inj.mp heq] at hw'
    exact hplain w hw hw'

/-- The patterns leave a statement of plain words as it is. -/
theorem canonicalText_joined :
    canonicalText (" ".intercalate words) = (" ".intercalate words).toList := by
  have hparenthetical : replaceAll Phrases.parenthetical " " (" ".intercalate words).toList =
      (" ".intercalate words).toList := by
    refine replaceAll_eq_self (fun _ _ => head_of_parenthetical) fun c hc => ?_
    rcases letters_joined h hc with hword | rfl
    · simpa using (isWordChar_spec hword).2.2
    · decide
  have hpunctuation : replaceAll Phrases.punctuation " " (" ".intercalate words).toList =
      (" ".intercalate words).toList := by
    refine replaceAll_eq_self (fun _ _ => head_of_punctuation) fun c hc => ?_
    rcases letters_joined h hc with hword | rfl
    · simp [hword]
    · decide
  have hphrases : ∀ phrases : List (Regex Char × String), phrases ⊆ canonicalPhrases →
      phrases.foldl (fun s phrase => replaceAll phrase.1 phrase.2 s)
        (" ".intercalate words).toList = (" ".intercalate words).toList := by
    intro phrases hsub
    induction phrases with
    | nil => rfl
    | cons phrase phrases ih =>
      obtain ⟨r, hr, hopens⟩ := opens_phrase (hsub List.mem_cons_self)
      have hthis : replaceAll phrase.1 phrase.2 (" ".intercalate words).toList =
          (" ".intercalate words).toList := by
        rw [hr]
        exact Regex.sub_eq_self fun front back => matchesAt_of_opens h hplain hopens
      rw [List.foldl_cons, hthis]
      exact ih fun x hx => hsub (List.mem_cons_of_mem _ hx)
  have huntil : Regex.search isWordChar Phrases.untilWord (" ".intercalate words).toList =
      false :=
    Regex.search_eq_false fun front back =>
      matchesAt_of_opens h hplain (opens_text (by decide) Regex.breaks_edge)
  simp only [canonicalText, lower_joined h, hparenthetical, hpunctuation,
    hphrases canonicalPhrases (List.Subset.refl _), invertBlocks, huntil, Bool.false_and]
  rfl

end Plain

/-! ## The tokens of a requirement -/

theorem mapToken_eq_self {w : String} (hword : IsWord w)
    (hsynonym : w ∉ canonicalSynonyms.map Prod.fst) (hfiller : w ∉ canonicalFiller) :
    mapToken w = some w := by
  have hlookup : canonicalSynonyms.lookup w = none := by
    rw [List.lookup_eq_none_iff]
    intro entry hentry
    have hne : entry.1 ≠ w := by
      rintro rfl
      exact hsynonym (List.mem_map_of_mem hentry)
    simpa using hne.symm
  rw [mapToken, hlookup, Option.getD_none, if_neg hword.1, if_neg hfiller]

/-- The tokens, each once. -/
theorem dedupeTokens_spec (mapped : List String) :
    (dedupeTokens mapped).Nodup ∧ ∀ t, t ∈ dedupeTokens mapped ↔ t ∈ mapped := by
  have hfold : ∀ deduped : List String, deduped.Nodup →
      (mapped.foldl (fun deduped tok => if tok ∈ deduped then deduped else deduped ++ [tok])
        deduped).Nodup ∧
      ∀ t, t ∈ mapped.foldl (fun deduped tok =>
        if tok ∈ deduped then deduped else deduped ++ [tok]) deduped ↔
          t ∈ deduped ∨ t ∈ mapped := by
    induction mapped with
    | nil => simp
    | cons tok mapped ih =>
      intro deduped hdeduped
      rw [List.foldl_cons]
      by_cases htok : tok ∈ deduped
      · rw [if_pos htok]
        refine ⟨(ih deduped hdeduped).1, fun t => ?_⟩
        rw [(ih deduped hdeduped).2 t, List.mem_cons]
        constructor
        · rintro (ht | ht)
          · exact Or.inl ht
          · exact Or.inr (Or.inr ht)
        · rintro (ht | rfl | ht)
          · exact Or.inl ht
          · exact Or.inl htok
          · exact Or.inr ht
      · rw [if_neg htok]
        have hnodup : (deduped ++ [tok]).Nodup :=
          List.nodup_append.mpr ⟨hdeduped, List.nodup_singleton tok, by
            rintro t ht _ hmem rfl
            rw [List.mem_singleton.mp hmem] at ht
            exact htok ht⟩
        refine ⟨(ih _ hnodup).1, fun t => ?_⟩
        rw [(ih _ hnodup).2 t, List.mem_append, List.mem_singleton, List.mem_cons, or_assoc]
  obtain ⟨hnodup, hmem⟩ := hfold [] List.nodup_nil
  exact ⟨hnodup, fun t => (hmem t).trans (by simp)⟩

/-- Sorted without repetition, a list is decided by its members. -/
theorem sortTokens_eq_iff {l l' : List String} (hl : l.Nodup) (hl' : l'.Nodup) :
    sortTokens l = sortTokens l' ↔ ∀ t, t ∈ l ↔ t ∈ l' := by
  constructor
  · intro heq t
    have hsorted : t ∈ sortTokens l ↔ t ∈ sortTokens l' := by rw [heq]
    rwa [sortTokens, sortTokens, List.mem_insertionSort, List.mem_insertionSort] at hsorted
  · intro hmem
    have hperm : l.Perm l' := (List.perm_ext_iff_of_nodup hl hl').mpr hmem
    exact ((List.perm_insertionSort _ l).trans (hperm.trans
      (List.perm_insertionSort _ l').symm)).eq_of_pairwise (fun _ _ _ _ => le_antisymm)
        (List.pairwise_insertionSort (· ≤ ·) l) (List.pairwise_insertionSort (· ≤ ·) l')

/-- What the patterns of the phrases are made of, and what they are replaced by. -/
def phraseWords : List String :=
  ["data", "processing", "agreement", "signed", "dpa", "business", "associate", "baa", "soc",
    "soc2", "2", "type", "ii", "report", "attestation", "third", "party", "independent", "pen",
    "penetration", "test", "vendor", "security", "questionnaire", "review", "assessment",
    "evaluation", "evaluations", "team", "teams", "signed_dpa", "signed_baa", "soc2_report",
    "pentest", "security_questionnaire", "security_review", "segment_buyer"]

/-- The words that a table of the canonicalizer has. -/
def tableWords : List String :=
  canonicalFiller ++ canonicalSynonyms.map Prod.fst ++ canonicalSynonyms.map Prod.snd ++
    phraseWords ++ structuralTokens

/-- A word that no table has. -/
structure PlainWord where
  text : String
  isWord : IsWord text
  notMem : text ∉ tableWords

/-- The words of `customers require P before Q`. -/
def requirement (P Q : List PlainWord) : List String :=
  ["customers", "require"] ++ P.map PlainWord.text ++ ["before"] ++ Q.map PlainWord.text

def statementOf (P Q : List PlainWord) : String := " ".intercalate (requirement P Q)

/-- The same set of words. -/
def SameWords (P Q : List PlainWord) : Prop :=
  ∀ w, w ∈ P.map PlainWord.text ↔ w ∈ Q.map PlainWord.text

namespace PlainWord

variable (w : PlainWord)

theorem notMem_of_subset {table : List String} (h : table ⊆ tableWords) : w.text ∉ table :=
  fun hin => w.notMem (h hin)

theorem mapToken_text : mapToken w.text = some w.text := by
  refine mapToken_eq_self w.isWord (w.notMem_of_subset ?_) (w.notMem_of_subset ?_)
  · intro t ht
    simp only [tableWords, List.mem_append, ht, or_true, true_or]
  · intro t ht
    simp only [tableWords, List.mem_append, ht, true_or]

theorem notMem_structuralTokens : w.text ∉ structuralTokens :=
  w.notMem_of_subset (List.subset_append_right _ _)

end PlainWord

theorem mem_texts {P Q : List PlainWord} {t : String}
    (h : t ∈ P.map PlainWord.text ∨ t ∈ Q.map PlainWord.text) : ∃ w : PlainWord, t = w.text := by
  rw [← List.mem_append, ← List.map_append] at h
  obtain ⟨w, -, rfl⟩ := List.mem_map.mp h
  exact ⟨w, rfl⟩

section Requirement

variable (P Q : List PlainWord)

/-- A word of a requirement is one of the three that are fixed, or a plain one. -/
theorem mem_requirement {t : String} (h : t ∈ requirement P Q) :
    t ∈ ["customers", "require", "before"] ∨ ∃ w : PlainWord, t = w.text := by
  simp only [requirement, List.mem_append, List.mem_cons, List.not_mem_nil, or_false] at h
  rcases h with (((rfl | rfl) | h) | rfl) | h
  · exact Or.inl (by decide)
  · exact Or.inl (by decide)
  · exact Or.inr (mem_texts (Or.inl h) (Q := []))
  · exact Or.inl (by decide)
  · exact Or.inr (mem_texts (Or.inl h) (Q := []))

theorem isWord_requirement : ∀ t ∈ requirement P Q, IsWord t := by
  intro t ht
  rcases mem_requirement P Q ht with hfixed | ⟨w, rfl⟩
  · have hall : ∀ t ∈ ["customers", "require", "before"], IsWord t := by decide
    exact hall t hfixed
  · exact w.isWord

theorem openers_notMem_requirement : ∀ t ∈ openers, t ∉ requirement P Q := by
  intro t hopener ht
  rcases mem_requirement P Q ht with hfixed | ⟨w, rfl⟩
  · have hall : ∀ t ∈ openers, t ∉ ["customers", "require", "before"] := by decide
    exact hall t hopener hfixed
  · exact w.notMem_of_subset (by decide +kernel) hopener

/-- The tokens of a requirement, as the tables have them. -/
def mappedTokens : List String :=
  ["segment_buyer", "requires"] ++ P.map PlainWord.text ++ ["before"] ++ Q.map PlainWord.text

theorem filterMap_requirement : (requirement P Q).filterMap mapToken = mappedTokens P Q := by
  have htexts : ∀ P : List PlainWord,
      (P.map PlainWord.text).filterMap mapToken = P.map PlainWord.text := by
    intro P
    rw [List.filterMap_map, ← List.filterMap_eq_map]
    exact List.filterMap_congr fun w _ => w.mapToken_text
  have hfixed : ["customers", "require"].filterMap mapToken = ["segment_buyer", "requires"] := by
    decide
  have hbefore : ["before"].filterMap mapToken = ["before"] := by decide
  rw [requirement, List.filterMap_append, List.filterMap_append, List.filterMap_append, htexts,
    htexts, hfixed, hbefore, mappedTokens]

/-- What a requirement lists besides its structure, in the order of the form. -/
def requiredTokens : List String :=
  sortTokens ((dedupeTokens (mappedTokens P Q)).filter (· ∉ structuralTokens))

theorem mem_requiredTokens {t : String} :
    t ∈ requiredTokens P Q ↔ t ∈ (P ++ Q).map PlainWord.text := by
  rw [requiredTokens, sortTokens, List.mem_insertionSort, List.mem_filter,
    (dedupeTokens_spec _).2, List.map_append, List.mem_append]
  simp only [decide_eq_true_eq]
  constructor
  · rintro ⟨ht, hstructural⟩
    simp only [mappedTokens, List.mem_append, List.mem_cons, List.not_mem_nil, or_false] at ht
    rcases ht with (((rfl | rfl) | ht) | rfl) | ht
    · exact absurd (by decide) hstructural
    · exact absurd (by decide) hstructural
    · exact Or.inl ht
    · exact absurd (by decide) hstructural
    · exact Or.inr ht
  · intro ht
    obtain ⟨w, rfl⟩ := mem_texts ht
    refine ⟨?_, w.notMem_structuralTokens⟩
    simp only [mappedTokens, List.mem_append]
    rcases ht with ht | ht
    · exact Or.inl (Or.inl (Or.inr ht))
    · exact Or.inr ht

theorem assemble_requirement :
    assemble (dedupeTokens (mappedTokens P Q)) =
      ["segment_buyer", "requires"] ++ requiredTokens P Q := by
  have hmem : ∀ t, t ∈ dedupeTokens (mappedTokens P Q) ↔ t ∈ mappedTokens P Q :=
    (dedupeTokens_spec _).2
  have hsubject : "segment_buyer" ∈ dedupeTokens (mappedTokens P Q) :=
    (hmem _).mpr (by simp [mappedTokens])
  have hrequires : "requires" ∈ dedupeTokens (mappedTokens P Q) :=
    (hmem _).mpr (by simp [mappedTokens])
  have hbefore : "before" ∈ dedupeTokens (mappedTokens P Q) :=
    (hmem _).mpr (by simp [mappedTokens])
  have hgate : "security_review" ∉ dedupeTokens (mappedTokens P Q) := by
    rw [hmem, mappedTokens, List.mem_append, List.mem_append, List.mem_append]
    rintro (((h | h) | h) | h)
    · exact absurd h (by decide)
    · obtain ⟨w, hw⟩ := mem_texts (Q := []) (Or.inl h)
      exact w.notMem_structuralTokens (hw ▸ by decide)
    · exact absurd h (by decide)
    · obtain ⟨w, hw⟩ := mem_texts (Q := []) (Or.inl h)
      exact w.notMem_structuralTokens (hw ▸ by decide)
  rw [assemble, if_pos ⟨hbefore, "requires", hrequires, by decide⟩, assembleRoles,
    if_pos hsubject, if_neg hgate, List.append_nil, requiredTokens]
  rfl

theorem isWord_form : ∀ t ∈ ["segment_buyer", "requires"] ++ requiredTokens P Q, IsWord t := by
  intro t ht
  rcases List.mem_append.mp ht with hfixed | hrequired
  · have hall : ∀ t ∈ ["segment_buyer", "requires"], IsWord t := by decide
    exact hall t hfixed
  · obtain ⟨w, -, rfl⟩ := List.mem_map.mp ((mem_requiredTokens P Q).mp hrequired)
    exact w.isWord

/-- The form lists the words of both sides of the gate together. -/
theorem canonicalStatement_requirement :
    canonicalStatement (statementOf P Q) =
      " ".intercalate (["segment_buyer", "requires"] ++ requiredTokens P Q) := by
  have hwords := isWord_requirement P Q
  rw [canonicalStatement, statementOf,
    canonicalText_joined hwords (openers_notMem_requirement P Q), splitSpaces_joined hwords,
    filterMap_requirement, assemble_requirement, strip_joined (isWord_form P Q)]

end Requirement

/-- Two requirements have the same form exactly if they use the same words, on whichever side. -/
theorem canonicalStatement_eq_iff (P Q R S : List PlainWord) :
    canonicalStatement (statementOf P Q) = canonicalStatement (statementOf R S) ↔
      SameWords (P ++ Q) (R ++ S) := by
  have hnodup : ∀ P Q : List PlainWord,
      ((dedupeTokens (mappedTokens P Q)).filter (· ∉ structuralTokens)).Nodup :=
    fun P Q => (dedupeTokens_spec _).1.filter _
  rw [canonicalStatement_requirement, canonicalStatement_requirement,
    joined_inj (isWord_form P Q) (isWord_form R S), List.append_cancel_left_eq]
  constructor
  · intro heq w
    rw [← mem_requiredTokens, ← mem_requiredTokens, heq]
  · intro hsame
    refine (sortTokens_eq_iff (hnodup P Q) (hnodup R S)).mpr fun t => ?_
    have ht := (mem_requiredTokens P Q).trans ((hsame t).trans (mem_requiredTokens R S).symm)
    rwa [requiredTokens, requiredTokens, sortTokens, sortTokens, List.mem_insertionSort,
      List.mem_insertionSort] at ht

/-! ## The direction of a requirement -/

/-- Equal forms are forms of the same requirement. -/
def KeepsDirection (P Q R S : List PlainWord) : Prop :=
  canonicalStatement (statementOf P Q) = canonicalStatement (statementOf R S) →
    SameWords P R ∧ SameWords Q S

/-- The form tells two requirements apart exactly if they do not use the same words altogether, or
are the same. -/
theorem keeps_direction_iff (P Q R S : List PlainWord) :
    KeepsDirection P Q R S ↔
      ¬SameWords (P ++ Q) (R ++ S) ∨ (SameWords P R ∧ SameWords Q S) := by
  rw [KeepsDirection, canonicalStatement_eq_iff, imp_iff_not_or]

def wordX : PlainWord := ⟨"x", by decide, by decide +kernel⟩

def wordY : PlainWord := ⟨"y", by decide, by decide +kernel⟩

/-- "customers require x before y" and "customers require y before x" have the same form. -/
theorem direction_lost :
    ¬∀ P Q R S : List PlainWord, P ≠ [] → Q ≠ [] → R ≠ [] → S ≠ [] → KeepsDirection P Q R S := by
  intro hall
  have hform : canonicalStatement "customers require x before y" =
      canonicalStatement "customers require y before x" := by decide +kernel
  have hsame := hall [wordX] [wordY] [wordY] [wordX] (by simp) (by simp) (by simp) (by simp) hform
  exact absurd ((hsame.1 "x").mp (by decide)) (by decide)

end CanonicalStatement

end Verity.Analysis
