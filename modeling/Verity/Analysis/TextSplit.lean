import Verity.Analysis.DocumentIngest

/-!
# What a text is split into

The loops of `split_text` end for every bound of four bytes or more, which is where every character
fits into a chunk, and compute `splitText` (`splitTextLoop_eq`); below four they may run forever
(`splitTextLoop_stuck`). Its chunks are bounded, and without the separators they are the text's
paragraphs without the white space at their ends (`splitText_bounded_lossless`): a chunk that is
being filled ends in text, so that the separator after it is found where it was put.
-/

set_option autoImplicit false

namespace Verity.Analysis

open Verity.Model

variable {cs rest : List Char} {c : Char} {turns : Nat} {para : List Char}

/-! ## Bytes -/

theorem foldl_utf8Size (cs : List Char) (n : Nat) :
    cs.foldl (fun n c => n + c.utf8Size) n = n + byteLen cs := by
  induction cs generalizing n with
  | nil => rfl
  | cons c cs ih =>
    unfold byteLen
    rw [List.foldl_cons, List.foldl_cons, ih, ih]
    omega

@[simp]
theorem byteLen_nil : byteLen [] = 0 := rfl

@[simp]
theorem byteLen_cons (c : Char) (cs : List Char) : byteLen (c :: cs) = c.utf8Size + byteLen cs := by
  unfold byteLen
  rw [List.foldl_cons, foldl_utf8Size, Nat.zero_add]
  rfl

@[simp]
theorem byteLen_append (cs ds : List Char) : byteLen (cs ++ ds) = byteLen cs + byteLen ds := by
  induction cs with
  | nil => simp
  | cons c cs ih =>
    rw [List.cons_append, byteLen_cons, byteLen_cons, ih]
    omega

theorem byteLen_singleton_le (c : Char) : byteLen [c] ≤ 4 := by
  have h := c.utf8Size_le_four
  simp only [byteLen_cons, byteLen_nil]
  omega

theorem utf8ByteSize_ofList (cs : List Char) : (String.ofList cs).utf8ByteSize = byteLen cs := by
  induction cs with
  | nil => rfl
  | cons c cs ih =>
    have happ : String.ofList (c :: cs) = String.ofList [c] ++ String.ofList cs := by
      rw [← String.ofList_append, List.singleton_append]
    rw [happ, String.utf8ByteSize_append, ih, byteLen_cons]
    simp

/-! ## The loops -/

/-- Slicing succeeds at the boundaries of characters. -/
theorem sliceAt_eq_some {before : List Char} {i : Nat} :
    sliceAt i cs = some (before, rest) ↔ cs = before ++ rest ∧ byteLen before = i := by
  fun_induction sliceAt i cs generalizing before with
  | case1 cs =>
    constructor
    · intro h
      obtain ⟨rfl, rfl⟩ := Prod.mk.inj (Option.some.inj h)
      exact ⟨rfl, rfl⟩
    · rintro ⟨rfl, hlen⟩
      cases before with
      | nil => rfl
      | cons c before =>
        have hpos := c.utf8Size_pos
        rw [byteLen_cons] at hlen
        omega
  | case2 i =>
    refine iff_of_false (by simp) ?_
    rintro ⟨hcs, hlen⟩
    obtain ⟨rfl, rfl⟩ := List.append_eq_nil_iff.mp hcs.symm
    simp at hlen
  | case3 i c cs hfits ih =>
    rw [Option.map_eq_some_iff]
    constructor
    · rintro ⟨⟨before', rest'⟩, hcut, heq⟩
      obtain ⟨rfl, rfl⟩ := Prod.mk.inj heq
      obtain ⟨rfl, hlen⟩ := ih.mp hcut
      refine ⟨rfl, ?_⟩
      rw [byteLen_cons]
      omega
    · rintro ⟨hcs, hlen⟩
      cases before with
      | nil => simp at hlen
      | cons d before =>
        obtain ⟨rfl, htail⟩ := List.cons.inj hcs
        rw [byteLen_cons] at hlen
        exact ⟨(before, rest), ih.mpr ⟨htail, by omega⟩, rfl⟩
  | case4 i c cs hlong =>
    refine iff_of_false (by simp) ?_
    rintro ⟨hcs, hlen⟩
    cases before with
    | nil => simp at hlen
    | cons d before =>
      obtain ⟨rfl, -⟩ := List.cons.inj hcs
      rw [byteLen_cons] at hlen
      omega

theorem isCharBoundary_iff {i : Nat} :
    isCharBoundary cs i = true ↔ ∃ before rest, cs = before ++ rest ∧ byteLen before = i := by
  unfold isCharBoundary
  rw [Option.isSome_iff_exists]
  constructor
  · rintro ⟨⟨before, rest⟩, h⟩
    exact ⟨before, rest, sliceAt_eq_some.mp h⟩
  · rintro ⟨before, rest, h⟩
    exact ⟨(before, rest), sliceAt_eq_some.mpr h⟩

/-- The position that is found is the end of the last character that fits. -/
theorem cutBelow_eq (before : List Char) {max : Nat} (hfits : byteLen before ≤ max)
    (hnext : max < byteLen before + c.utf8Size) :
    cutBelow (before ++ c :: rest) max = byteLen before := by
  have hinside : ∀ i, byteLen before < i → i < byteLen before + c.utf8Size →
      isCharBoundary (before ++ c :: rest) i = false := by
    intro i hlow hhigh
    rw [Bool.eq_false_iff]
    intro h
    obtain ⟨front, back, hsplit, hlen⟩ := isCharBoundary_iff.mp h
    obtain ⟨more, rfl, hrest⟩ | ⟨more, hfront, -⟩ := List.append_eq_append_iff.mp hsplit
    · cases more with
      | nil => simp at hlen; omega
      | cons d more =>
        obtain ⟨rfl, -⟩ := List.cons.inj hrest
        simp only [byteLen_append, byteLen_cons] at hlen
        omega
    · rw [hfront, byteLen_append] at hlow
      omega
  induction max with
  | zero => exact (Nat.le_zero.mp hfits).symm
  | succ max ih =>
    unfold cutBelow
    rcases Nat.lt_or_eq_of_le hfits with hlt | heq
    · rw [hinside (max + 1) hlt hnext]
      exact ih (by omega) (by omega)
    · rw [← heq, if_pos]
      exact isCharBoundary_iff.mpr ⟨before, c :: rest, rfl, rfl⟩

/-- A text that is too long has a first character that no longer fits. -/
theorem exists_last_fitting {max : Nat} (h : max < byteLen cs) :
    ∃ before c rest, cs = before ++ c :: rest ∧ byteLen before ≤ max ∧
      max < byteLen before + c.utf8Size := by
  induction cs generalizing max with
  | nil => exact absurd h (Nat.not_lt_zero _)
  | cons d cs ih =>
    rw [byteLen_cons] at h
    by_cases hd : max < d.utf8Size
    · refine ⟨[], d, cs, rfl, Nat.zero_le _, ?_⟩
      rw [byteLen_nil]
      omega
    · have hrest : max - d.utf8Size < byteLen cs := by omega
      obtain ⟨before, c, rest, rfl, hfits, hnext⟩ := ih hrest
      refine ⟨d :: before, c, rest, rfl, ?_, ?_⟩
      · rw [byteLen_cons]
        omega
      · rw [byteLen_cons]
        omega

theorem hardSplit_of_fits {max : Nat} (cut : List Char) (h : byteLen (cut ++ rest) ≤ max) :
    hardSplit max cut rest = ([], cut ++ rest) := by
  induction rest generalizing cut with
  | nil => rw [hardSplit, List.append_nil]
  | cons c rest ih =>
    have hfits : byteLen (cut ++ [c]) ≤ max := by
      simp only [byteLen_append, byteLen_cons, byteLen_nil] at h ⊢
      omega
    rw [hardSplit, if_neg (not_lt.mpr hfits), ih _ (by simpa using h)]
    simp

/-- The first piece is the longest one that fits. -/
theorem hardSplit_cut {max : Nat} (cut : List Char) {before : List Char}
    (hfits : byteLen (cut ++ before) ≤ max) (hnext : max < byteLen (cut ++ before) + c.utf8Size) :
    hardSplit max cut (before ++ c :: rest) =
      ((cut ++ before) :: (hardSplit max [c] rest).1, (hardSplit max [c] rest).2) := by
  induction before generalizing cut with
  | nil =>
    rw [List.append_nil] at hfits hnext ⊢
    rw [List.nil_append, hardSplit.eq_def]
    refine if_pos ?_
    rw [byteLen_append, byteLen_cons, byteLen_nil]
    omega
  | cons d before ih =>
    have hd : byteLen (cut ++ [d]) ≤ max := by
      simp only [byteLen_append, byteLen_cons, byteLen_nil] at hfits ⊢
      omega
    rw [List.append_cons] at hfits hnext
    rw [List.append_cons cut d before, List.cons_append, hardSplit, if_neg (not_lt.mpr hd)]
    exact ih _ hfits hnext

theorem hardSplit_singleton {max : Nat} (hmax : 4 ≤ max) (c : Char) (rest : List Char) :
    hardSplit max [] (c :: rest) = hardSplit max [c] rest := by
  have hc := byteLen_singleton_le c
  rw [hardSplit, if_neg (by rw [List.nil_append]; omega), List.nil_append]

/-- One turn of the loop for each piece that is cut off. -/
theorem hardSplitLoop_eq {max : Nat} (hmax : 4 ≤ max) (hturns : rest.length ≤ turns)
    (chunks : List (List Char)) :
    hardSplitLoop max turns chunks rest =
      some (chunks ++ (hardSplit max [] rest).1, (hardSplit max [] rest).2) := by
  induction turns generalizing chunks rest with
  | zero =>
    rw [List.eq_nil_of_length_eq_zero (Nat.le_zero.mp hturns)]
    rw [hardSplitLoop, if_neg (by simp), hardSplit, List.append_nil]
  | succ turns ih =>
    unfold hardSplitLoop
    by_cases hlong : max < byteLen rest
    · obtain ⟨before, c, rest', rfl, hfits, hnext⟩ := exists_last_fitting hlong
      have hslice : sliceAt (byteLen before) (before ++ c :: rest') =
          some (before, c :: rest') := sliceAt_eq_some.mpr ⟨rfl, rfl⟩
      have hbefore : before ≠ [] := by
        rintro rfl
        have hc := c.utf8Size_le_four
        rw [byteLen_nil] at hnext
        omega
      have hshorter : (c :: rest').length ≤ turns := by
        have hpos := List.length_pos_iff.mpr hbefore
        rw [List.length_append] at hturns
        omega
      rw [if_pos hlong, cutBelow_eq before hfits hnext, hslice]
      dsimp only
      rw [ih hshorter, hardSplit_singleton hmax, hardSplit_cut [] hfits hnext,
        List.append_assoc]
      rfl
    · rw [if_neg hlong, hardSplit_of_fits [] (not_lt.mp hlong), List.append_nil,
        List.nil_append]

theorem splitStepLoop_eq {max : Nat} (hmax : 4 ≤ max) (hturns : para.length ≤ turns)
    (st : List (List Char) × List Char) :
    splitStepLoop max turns st para = some (splitStep max st para) := by
  have htrim := (List.rdropWhile_prefix isWhitespace (l := para)).length_le
  unfold splitStepLoop splitStep
  dsimp only
  split
  · rfl
  · split
    · exact hardSplitLoop_eq hmax (htrim.trans hturns) _
    · exact (apply_ite some _ _ _).symm

/-- The loops end, with what `splitText` is. -/
theorem splitTextLoop_eq {max : Nat} (hmax : 4 ≤ max) {text : String}
    (hturns : ∀ para ∈ splitParagraphs [] text.toList, para.length ≤ turns) :
    splitTextLoop turns text max = some (splitText text max) := by
  have hfold : ∀ (paras : List (List Char)) (st : List (List Char) × List Char),
      (∀ para ∈ paras, para.length ≤ turns) →
        paras.foldlM (splitStepLoop max turns) st = some (paras.foldl (splitStep max) st) := by
    intro paras
    induction paras with
    | nil => exact fun _ _ => rfl
    | cons para paras ih =>
      intro st h
      rw [List.forall_mem_cons] at h
      rw [List.foldlM_cons, splitStepLoop_eq hmax h.1]
      exact ih _ h.2
  unfold splitTextLoop
  rw [hfold _ _ hturns]
  rfl

/-- Below four bytes there are characters that fit into no chunk. -/
theorem splitTextLoop_stuck {max : Nat} (hmax : max < 4) (turns : Nat) :
    splitTextLoop turns "😀" max = none := by
  have hloop : ∀ chunks, hardSplitLoop max turns chunks ['😀'] = none := by
    have hlong : max < byteLen ['😀'] := hmax
    have hcut : cutBelow ['😀'] max = 0 := cutBelow_eq [] (Nat.zero_le _) hlong
    induction turns with
    | zero => exact fun _ => if_pos hlong
    | succ turns ih =>
      intro chunks
      unfold hardSplitLoop
      rw [if_pos hlong, hcut]
      exact ih _
  have hlong : max < byteLen ['😀'] := hmax
  have hpara : splitParagraphs [] "😀".toList = [['😀']] := by decide
  have htrim : ['😀'].rdropWhile isWhitespace = ['😀'] := by decide
  have hstep : splitStepLoop max turns ([], []) ['😀'] = none := by
    unfold splitStepLoop
    simp only [htrim, List.isEmpty_cons, List.isEmpty_nil, Bool.not_true, if_pos hlong]
    exact hloop _
  unfold splitTextLoop
  rw [hpara, List.foldlM_cons, hstep]
  rfl

/-! ## Separators -/

/-- There is no separator in a text. -/
def NoGap (cs : List Char) : Prop := ¬ ['\n', '\n'] <:+: cs

theorem NoGap.within {ds : List Char} (h : NoGap cs) (hds : ds <:+: cs) : NoGap ds :=
  fun hgap => h (hgap.trans hds)

theorem deleteSeparators_of_noGap (h : NoGap cs) : deleteSeparators cs = cs := by
  fun_induction deleteSeparators cs with
  | case1 rest ih => exact absurd ((List.prefix_append ['\n', '\n'] rest).isInfix) h
  | case2 c rest hgap ih => rw [ih (h.within (List.suffix_cons c rest).isInfix)]
  | case3 => rfl

theorem deleteSeparators_cons (h : c = '\n' → cs.head? ≠ some '\n') :
    deleteSeparators (c :: cs) = c :: deleteSeparators cs := by
  refine deleteSeparators.eq_2 c cs fun rest hc hcs => h hc ?_
  rw [hcs]
  rfl

/-- A separator is found where it was put, when the text before it ends in no line feed. -/
theorem deleteSeparators_append {ds : List Char} (h : cs.getLast? ≠ some '\n') :
    deleteSeparators (cs ++ ['\n', '\n'] ++ ds) = deleteSeparators cs ++ deleteSeparators ds := by
  fun_induction deleteSeparators cs with
  | case1 rest ih =>
    cases rest with
    | nil => exact absurd rfl h
    | cons d rest =>
      rw [List.getLast?_cons_cons, List.getLast?_cons_cons] at h
      exact ih h
  | case2 c rest hgap ih =>
    rw [List.cons_append, List.cons_append]
    cases rest with
    | nil =>
      have hc : c ≠ '\n' := fun hc => h (congrArg some hc)
      rw [deleteSeparators_cons fun heq => absurd heq hc]
      rfl
    | cons d rest =>
      rw [List.getLast?_cons_cons] at h
      rw [deleteSeparators_cons, ih h, List.cons_append]
      rintro rfl hd
      exact hgap rest rfl (congrArg (· :: rest) (Option.some.inj hd))
  | case3 => rfl

/-- A paragraph ends where the next separator begins. -/
theorem noGap_splitParagraphs {current text : List Char} (hcurrent : NoGap current)
    (hnext : current.getLast? = some '\n' → text.head? ≠ some '\n') :
    ∀ para ∈ splitParagraphs current text, NoGap para := by
  fun_induction splitParagraphs current text with
  | case1 current rest ih =>
    rw [List.forall_mem_cons]
    exact ⟨hcurrent, ih (by unfold NoGap; decide) (by simp)⟩
  | case2 current c rest hgap ih =>
    refine ih ?_ ?_
    · intro hgap
      rcases List.infix_concat_iff.mp hgap with hsuffix | hinside
      · obtain hnil | ⟨front, hfront, hlast⟩ := List.suffix_concat_iff.mp hsuffix
        · exact absurd hnil (by simp)
        · have hchars : ['\n'] ++ ['\n'] = front ++ [c] := hfront
          obtain ⟨rfl, hc⟩ := List.append_inj' hchars rfl
          obtain ⟨before, rfl⟩ := hlast
          refine hnext (by simp) ?_
          rw [← List.cons.inj hc |>.1]
          rfl
      · exact hcurrent hinside
    · intro hc hrest
      rw [List.getLast?_concat] at hc
      obtain ⟨tail, rfl⟩ := List.head?_eq_some_iff.mp hrest
      exact hgap tail (Option.some.inj hc) rfl
  | case3 current =>
    rw [List.forall_mem_singleton]
    exact hcurrent

/-! ## Chunks -/

/-- What is left of a long paragraph is not empty, and nothing is lost of it. -/
theorem hardSplit_spec {max : Nat} (hmax : 4 ≤ max) (cut : List Char) (hcut : byteLen cut ≤ max)
    (hne : cut ++ rest ≠ []) :
    (∀ piece ∈ (hardSplit max cut rest).1, piece ≠ [] ∧ byteLen piece ≤ max) ∧
      (hardSplit max cut rest).2 ≠ [] ∧ byteLen (hardSplit max cut rest).2 ≤ max ∧
      (hardSplit max cut rest).1.flatten ++ (hardSplit max cut rest).2 = cut ++ rest := by
  induction rest generalizing cut with
  | nil =>
    rw [List.append_nil] at hne
    exact ⟨fun _ h => absurd h List.not_mem_nil, hne, hcut, (List.append_nil _).symm⟩
  | cons c rest ih =>
    unfold hardSplit
    split
    case isTrue hlong =>
      have hc := byteLen_singleton_le c
      have hpiece : cut ≠ [] := by
        rintro rfl
        rw [List.nil_append] at hlong
        omega
      obtain ⟨hpieces, hlast, hfits, hall⟩ := ih [c] (hc.trans hmax) (by simp)
      refine ⟨List.forall_mem_cons.mpr ⟨⟨hpiece, hcut⟩, hpieces⟩, hlast, hfits, ?_⟩
      rw [List.flatten_cons, List.append_assoc, hall]
      rfl
    case isFalse hfits =>
      have h := ih (cut ++ [c]) (not_lt.mp hfits) (by simp)
      rwa [List.append_assoc, List.singleton_append] at h

/-- The chunks of the paragraphs read so far: they are bounded, the one that is being filled ends
in no line feed, and without separators they are the paragraphs. -/
structure Chunked (max : Nat) (st : List (List Char) × List Char) (paras : List (List Char)) :
    Prop where
  bounded : ∀ chunk ∈ st.1, chunk ≠ [] ∧ byteLen chunk ≤ max
  filling : byteLen st.2 ≤ max
  ends : st.2.getLast? ≠ some '\n'
  lossless : st.1.flatMap deleteSeparators ++ deleteSeparators st.2 = paras.flatten

namespace Chunked

variable {max : Nat} {st : List (List Char) × List Char} {paras : List (List Char)}

theorem nil : Chunked max ([], []) [] :=
  ⟨fun _ h => absurd h List.not_mem_nil, Nat.zero_le _, by simp, rfl⟩

/-- A blank paragraph adds nothing. -/
theorem blank (h : Chunked max st paras) : Chunked max st (paras ++ [[]]) :=
  ⟨h.bounded, h.filling, h.ends, by rw [h.lossless]; simp⟩

/-- The chunk that is being filled is done with. -/
theorem flush (h : Chunked max st paras) (hne : st.2 ≠ []) :
    Chunked max (st.1 ++ [st.2], []) paras where
  bounded := by
    rw [List.forall_mem_append, List.forall_mem_singleton]
    exact ⟨h.bounded, hne, h.filling⟩
  filling := Nat.zero_le _
  ends := by simp
  lossless := by
    rw [← h.lossless]
    simp [deleteSeparators]

theorem flush_if (h : Chunked max st paras) :
    Chunked max (if !st.2.isEmpty then st.1 ++ [st.2] else st.1, []) paras := by
  by_cases hne : st.2 = []
  · obtain ⟨chunks, current⟩ := st
    obtain rfl : current = [] := hne
    exact h
  · have hempty : (!st.2.isEmpty) = true := by simpa using hne
    rw [if_pos hempty]
    exact h.flush hne

/-- A paragraph begins a chunk. -/
theorem first {chunks : List (List Char)} (h : Chunked max (chunks, []) paras) (hgap : NoGap para)
    (hfits : byteLen para ≤ max) (hends : para.getLast? ≠ some '\n') :
    Chunked max (chunks, para) (paras ++ [para]) where
  bounded := h.bounded
  filling := hfits
  ends := hends
  lossless := by
    have hpast := h.lossless
    rw [deleteSeparators, List.append_nil] at hpast
    rw [deleteSeparators_of_noGap hgap, hpast, List.flatten_append]
    simp

/-- A paragraph is packed into a chunk, after a separator. -/
theorem pack (h : Chunked max st paras) (hgap : NoGap para)
    (hfits : byteLen st.2 + 2 + byteLen para ≤ max) (hne : para ≠ [])
    (hends : para.getLast? ≠ some '\n') :
    Chunked max (st.1, st.2 ++ ['\n', '\n'] ++ para) (paras ++ [para]) where
  bounded := h.bounded
  filling := by
    have hsep : byteLen ['\n', '\n'] = 2 := rfl
    rw [byteLen_append, byteLen_append, hsep]
    exact hfits
  ends := by
    rw [List.getLast?_append_of_ne_nil _ hne]
    exact hends
  lossless := by
    rw [deleteSeparators_append h.ends, ← List.append_assoc, h.lossless,
      deleteSeparators_of_noGap hgap, List.flatten_append]
    simp

/-- A long paragraph is cut up. -/
theorem hard {chunks : List (List Char)} (h : Chunked max (chunks, []) paras) (hmax : 4 ≤ max)
    (hgap : NoGap para) (hne : para ≠ []) (hends : para.getLast? ≠ some '\n') :
    Chunked max (chunks ++ (hardSplit max [] para).1, (hardSplit max [] para).2)
      (paras ++ [para]) := by
  obtain ⟨hpieces, hlast, hfits, hall⟩ :=
    hardSplit_spec hmax [] (Nat.zero_le _) (by simpa using hne)
  rw [List.nil_append] at hall
  have hwhole : ∀ piece ∈ (hardSplit max [] para).1, deleteSeparators piece = piece := by
    intro piece hpiece
    refine deleteSeparators_of_noGap (hgap.within ?_)
    rw [← hall]
    exact (List.infix_of_mem_flatten hpiece).trans (List.prefix_append _ _).isInfix
  have hrest : NoGap (hardSplit max [] para).2 := by
    refine hgap.within ?_
    nth_rewrite 2 [← hall]
    exact (List.suffix_append _ _).isInfix
  refine ⟨?_, hfits, ?_, ?_⟩
  · rw [List.forall_mem_append]
    exact ⟨h.bounded, hpieces⟩
  · rw [← hall, List.getLast?_append_of_ne_nil _ hlast] at hends
    exact hends
  · have hpast := h.lossless
    rw [deleteSeparators, List.append_nil] at hpast
    rw [List.flatMap_append, deleteSeparators_of_noGap hrest, hpast, List.flatten_append,
      List.append_assoc, List.flatMap_congr hwhole, List.flatMap_id', hall]
    simp

/-- One paragraph is read. -/
theorem step (h : Chunked max st paras) (hmax : 4 ≤ max) (hgap : NoGap para) :
    Chunked max (splitStep max st para) (paras ++ [para.rdropWhile isWhitespace]) := by
  have htrim : NoGap (para.rdropWhile isWhitespace) :=
    hgap.within (List.rdropWhile_prefix isWhitespace (l := para)).isInfix
  have hends : (para.rdropWhile isWhitespace).getLast? ≠ some '\n' := by
    intro hlast
    have hne : para.rdropWhile isWhitespace ≠ [] := by
      intro hnil
      rw [hnil] at hlast
      exact absurd hlast (by simp)
    rw [List.getLast?_eq_some_getLast hne] at hlast
    have hspace := List.rdropWhile_last_not isWhitespace para hne
    rw [Option.some.inj hlast] at hspace
    exact hspace (by decide)
  unfold splitStep
  dsimp only
  generalize para.rdropWhile isWhitespace = trimmed at htrim hends
  by_cases hblank : trimmed = []
  · subst hblank
    exact h.blank
  rw [if_neg (by simpa using hblank)]
  by_cases hfull : (!st.2.isEmpty) = true ∧ max < byteLen st.2 + 2 + byteLen trimmed
  · rw [if_pos hfull]
    have hflushed := h.flush (by simpa using hfull.1)
    split
    · exact hflushed.hard hmax htrim hblank hends
    · next hfits => exact hflushed.first htrim (not_lt.mp hfits) hends
  · rw [if_neg hfull]
    split
    · have hflushed := h.flush_if
      exact hflushed.hard hmax htrim hblank hends
    · next hfits =>
        split
        · next hpack => exact h.pack htrim (not_lt.mp fun hlt => hfull ⟨hpack, hlt⟩) hblank hends
        · next hempty =>
            obtain ⟨chunks, current⟩ := st
            obtain rfl : current = [] := by simpa using hempty
            exact h.first htrim (not_lt.mp hfits) hends

/-- All paragraphs are read. -/
theorem foldl (h : Chunked max st paras) (hmax : 4 ≤ max) {more : List (List Char)}
    (hgap : ∀ para ∈ more, NoGap para) :
    Chunked max (more.foldl (splitStep max) st)
      (paras ++ more.map (List.rdropWhile isWhitespace)) := by
  induction more generalizing st paras with
  | nil => rwa [List.map_nil, List.append_nil]
  | cons para more ih =>
    rw [List.forall_mem_cons] at hgap
    have hrest := ih (h.step hmax hgap.1) hgap.2
    rwa [List.append_assoc, List.singleton_append] at hrest

end Chunked

/-- The paragraphs of a text, without the white space at their ends. -/
def paragraphs (text : String) : List (List Char) :=
  (splitParagraphs [] text.toList).map (List.rdropWhile isWhitespace)

/-- The chunks of a text as `Chunked` has them, the last one among them. -/
theorem splitText_chunked {max : Nat} (hmax : 4 ≤ max) (text : String) :
    (∀ chunk ∈ splitText text max, chunk ≠ "" ∧ chunk.utf8ByteSize ≤ max) ∧
      (splitText text max).flatMap (fun chunk => deleteSeparators chunk.toList) =
        (paragraphs text).flatten := by
  have hgap : ∀ para ∈ splitParagraphs [] text.toList, NoGap para :=
    noGap_splitParagraphs (by unfold NoGap; decide) (by simp)
  have hchunked := (Chunked.nil.foldl hmax hgap).flush_if
  rw [List.nil_append] at hchunked
  unfold splitText paragraphs
  generalize (splitParagraphs [] text.toList).foldl (splitStep max) ([], []) = read at hchunked
  obtain ⟨chunks, current⟩ := read
  dsimp only at hchunked ⊢
  constructor
  · rw [List.forall_mem_map]
    intro chunk hchunk
    obtain ⟨hne, hfits⟩ := hchunked.bounded chunk hchunk
    rw [utf8ByteSize_ofList]
    refine ⟨fun hempty => hne ?_, hfits⟩
    rw [← String.toList_ofList (l := chunk), hempty]
    rfl
  · have hlossless := hchunked.lossless
    rw [deleteSeparators, List.append_nil] at hlossless
    rw [← hlossless, List.flatMap_map]
    simp only [String.toList_ofList]

/-- No ingest writes an empty chunk, or one that is longer than the target size. -/
theorem delivery_parts_bounded {lib : FileLibraries} {req : DocumentIngest}
    {receivedAt : Instant} {now : Time} {episode : EpisodeId} :
    ∀ part ∈ (req.delivery lib receivedAt now episode).parts,
      part.content ≠ "" ∧ part.content.utf8ByteSize ≤ chunkChars := by
  unfold DocumentIngest.delivery
  rw [List.forall_mem_map]
  exact (splitText_chunked (by decide) _).1

/-- For every bound of four bytes or more the splitting ends. The chunks are non-empty texts of at
most so many bytes, and without the separators they are the paragraphs. -/
theorem split_bounded_lossless {max : Nat} (hmax : 4 ≤ max) (text : String) :
    ∃ enough chunks, (∀ turns, enough ≤ turns → splitTextLoop turns text max = some chunks) ∧
      (∀ chunk ∈ chunks, chunk ≠ "" ∧ chunk.toByteArray.IsValidUTF8 ∧ chunk.utf8ByteSize ≤ max) ∧
      chunks.flatMap (fun chunk => deleteSeparators chunk.toList) =
        (paragraphs text).flatten := by
  obtain ⟨hbounded, hlossless⟩ := splitText_chunked hmax text
  obtain ⟨enough, henough⟩ : ∃ n, ∀ para ∈ splitParagraphs [] text.toList, para.length ≤ n :=
    ⟨_, fun _ hpara => (List.infix_of_mem_flatten hpara).length_le⟩
  refine ⟨enough, splitText text max, fun turns hturns => ?_, fun chunk hchunk => ?_, hlossless⟩
  · exact splitTextLoop_eq hmax fun para hpara => (henough para hpara).trans hturns
  · obtain ⟨hne, hfits⟩ := hbounded chunk hchunk
    exact ⟨hne, chunk.isValidUTF8, hfits⟩

/-- A text with a long paragraph, and characters of two bytes. -/
theorem split_notes :
    ∃ enough chunks, (∀ turns, enough ≤ turns →
        splitTextLoop turns "é\n\nñandúes" 4 = some chunks) ∧
      (∀ chunk ∈ chunks, chunk ≠ "" ∧ chunk.toByteArray.IsValidUTF8 ∧ chunk.utf8ByteSize ≤ 4) ∧
      chunks.flatMap (fun chunk => deleteSeparators chunk.toList) =
        (paragraphs "é\n\nñandúes").flatten :=
  split_bounded_lossless (by decide) _

end Verity.Analysis
