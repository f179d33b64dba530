import Verity.Model.Extract

/-!
# Legacy Word files

Every offset, length and count that the lane reads is checked before it is used, except in the
loop over the Prc blocks: a block that is cut off within its length field is read past the end of
the Clx, and the call panics (`returns_iff`).

Where the piece table is well formed, the text is the texts of the pieces in the order of the
table as long as they hold no character outside the basic plane: the units of a piece are decoded
one by one, so no extraction has such a character (`readClx_basic`, `pieces_survive_iff`).
-/

set_option autoImplicit false

namespace Verity.Analysis.WordBinary

open Verity.Foundation Verity.Model Verity.Model.Extract

variable {α : Type} {buf : List α} {i : Nat} {rest clx wds : Bytes}

/-! ## Reading bytes -/

theorem length_slice {buf s : Bytes} {start stop : Nat} (h : slice buf start stop = some s) :
    s.length = stop - start := by
  unfold slice at h
  split at h
  · rename_i hrange
    obtain rfl := Option.some.inj h
    rw [List.length_take, List.length_drop]
    omega
  · cases h

theorem exists_rdU32 {buf : Bytes} {off : Nat} (h : off + 4 ≤ buf.length) :
    ∃ v, rdU32 buf off = some v := by
  have hslice : slice buf off (off + 4) = some ((buf.drop off).take (off + 4 - off)) :=
    if_pos ⟨Nat.le_add_right _ _, h⟩
  have hlength := length_slice hslice
  rw [Nat.add_sub_cancel_left] at hslice hlength
  obtain ⟨b0, b1, b2, b3, hbytes⟩ := List.length_eq_four.mp hlength
  rw [hbytes] at hslice
  exact ⟨_, by rw [rdU32, hslice]⟩

theorem index_eq_ok_iff {a : α} : index buf i = .ok a ↔ buf[i]? = some a := okOr_eq_ok_iff

theorem index_eq_panic_iff : index buf i = .error .panic ↔ buf.length ≤ i := by
  rw [index, okOr_eq_error_iff, List.getElem?_eq_none_iff]
  simp

/-! ## Calls that return -/

/-- The call ends with a value or with a typed failure. -/
def Returns {α : Type} (x : Except Fault α) : Prop := x ≠ .error .panic

theorem returns_iff_cases {x : Except Fault α} :
    Returns x ↔ (∃ a, x = .ok a) ∨ ∃ message, x = .error (.docParse message) := by
  unfold Returns
  cases x with
  | ok a => simp
  | error fault => cases fault <;> simp

theorem returns_ok (a : α) : Returns (.ok a : Except Fault α) := by
  intro h
  cases h

theorem returns_docParse (message : String) :
    Returns (.error (.docParse message) : Except Fault α) := by
  intro h
  cases h

theorem returns_bind_iff {β : Type} {x : Except Fault α} {f : α → Except Fault β} :
    Returns (x >>= f) ↔ Returns x ∧ ∀ a, x = .ok a → Returns (f a) := by
  cases x with
  | error fault =>
    constructor
    · intro h
      refine ⟨fun hpanic => h ?_, fun a ha => by cases ha⟩
      cases hpanic
      rfl
    · rintro ⟨h, -⟩ hpanic
      cases hpanic
      exact h rfl
  | ok a =>
    constructor
    · intro h
      refine ⟨returns_ok a, fun a' ha => ?_⟩
      obtain rfl := Except.ok.inj ha
      exact h
    · rintro ⟨-, h⟩
      exact h a rfl

theorem returns_okOr (o : Option α) (message : String) : Returns (okOr o (.docParse message)) := by
  cases o with
  | none => exact returns_docParse message
  | some a => exact returns_ok a

theorem returns_index (h : i < buf.length) : Returns (index buf i) :=
  fun hpanic => absurd (index_eq_panic_iff.mp hpanic) (Nat.not_le.mpr h)

/-! ## The Prc blocks -/

/-- Behind complete Prc blocks there is a `0x01` with less than two bytes after it. -/
inductive CutPrc : Bytes → Prop where
  | cut {rest : Bytes} (h : rest.length < 2) : CutPrc (0x01 :: rest)
  | behind {lo hi : UInt8} {body rest : Bytes} (h : body.length = u16Le lo hi)
      (hcut : CutPrc rest) : CutPrc (0x01 :: lo :: hi :: (body ++ rest))

theorem not_cutPrc_nil : ¬ CutPrc [] := by
  intro h
  cases h

theorem cutPrc_cons_iff {lo hi : UInt8} :
    CutPrc (0x01 :: lo :: hi :: rest) ↔ CutPrc (rest.drop (u16Le lo hi)) := by
  constructor
  · intro h
    cases h with
    | cut hshort =>
      simp only [List.length_cons] at hshort
      omega
    | @behind _ _ body rest' hlength hcut =>
      rwa [List.drop_left' hlength]
  · intro h
    by_cases hle : u16Le lo hi ≤ rest.length
    · have hcut : CutPrc (0x01 :: lo :: hi :: (rest.take (u16Le lo hi) ++
          rest.drop (u16Le lo hi))) :=
        .behind (by rw [List.length_take, Nat.min_eq_left hle]) h
      rwa [List.take_append_drop] at hcut
    · rw [List.drop_eq_nil_of_le (by omega)] at h
      exact absurd h not_cutPrc_nil

theorem not_cutPrc_of_ne {b : UInt8} (h : b ≠ 0x01) : ¬ CutPrc (b :: rest) := by
  intro hcut
  cases hcut with
  | cut _ => exact h rfl
  | behind _ _ => exact h rfl

/-- One turn of the loop over a complete block. -/
theorem skipPrc_turn {lo hi : UInt8} (h : clx.drop i = 0x01 :: lo :: hi :: rest) :
    skipPrc clx i = skipPrc clx (i + (3 + u16Le lo hi)) := by
  have hone : clx[i]? = some 0x01 := by
    rw [← List.head?_drop, h]
    rfl
  have hlo : index clx (i + 1) = .ok lo := by
    rw [index_eq_ok_iff, ← List.getElem?_drop, h]
    rfl
  have hhi : index clx (i + 2) = .ok hi := by
    rw [index_eq_ok_iff, ← List.getElem?_drop, h]
    rfl
  rw [skipPrc, dif_pos hone, hlo, hhi]
  rfl

theorem skipPrc_stop (h : clx[i]? ≠ some 0x01) : skipPrc clx i = .ok i := by
  rw [skipPrc, dif_neg h]

/-- The loop returns unless a block is cut off. -/
theorem returns_skipPrc_iff (clx : Bytes) (i : Nat) :
    Returns (skipPrc clx i) ↔ ¬ CutPrc (clx.drop i) := by
  induction hn : clx.length - i using Nat.strong_induction_on generalizing i with
  | _ n ih =>
    cases hdrop : clx.drop i with
    | nil =>
      have hstop : clx[i]? ≠ some 0x01 := by
        rw [← List.head?_drop, hdrop]
        simp
      rw [skipPrc_stop hstop]
      exact iff_of_true (returns_ok i) not_cutPrc_nil
    | cons b rest =>
      by_cases hb : b = 0x01
      · subst hb
        have hone : clx[i]? = some 0x01 := by
          rw [← List.head?_drop, hdrop]
          rfl
        have hlength : clx.length = i + (rest.length + 1) := by
          have hin : i < clx.length := (List.getElem?_eq_some_iff.mp hone).1
          have hrest := congrArg List.length hdrop
          rw [List.length_drop, List.length_cons] at hrest
          omega
        rcases rest with _ | ⟨lo, _ | ⟨hi, rest⟩⟩
        · have hlo : index clx (i + 1) = .error .panic :=
            index_eq_panic_iff.mpr (by simp [hlength])
          rw [skipPrc, dif_pos hone, hlo]
          exact iff_of_false (fun h => h rfl) (not_not.mpr (.cut (by simp)))
        · have hlo : index clx (i + 1) = .ok lo := by
            rw [index_eq_ok_iff, ← List.getElem?_drop, hdrop]
            rfl
          have hhi : index clx (i + 2) = .error .panic :=
            index_eq_panic_iff.mpr (by simp [hlength])
          rw [skipPrc, dif_pos hone, hlo]
          show Returns (index clx (i + 2) >>= _) ↔ _
          rw [hhi]
          exact iff_of_false (fun h => h rfl) (not_not.mpr (.cut (by simp)))
        · have hshorter : clx.length - (i + (3 + u16Le lo hi)) < n := by omega
          have hnext : clx.drop (i + (3 + u16Le lo hi)) = rest.drop (u16Le lo hi) := by
            rw [← List.drop_drop, hdrop, Nat.add_comm 3]
            rfl
          rw [skipPrc_turn hdrop, ih _ hshorter _ rfl, hnext, cutPrc_cons_iff]
      · have hstop : clx[i]? ≠ some 0x01 := by
          rw [← List.head?_drop, hdrop]
          simpa using hb
        rw [skipPrc_stop hstop]
        exact iff_of_true (returns_ok i) (not_cutPrc_of_ne hb)

/-! ## The piece table -/

theorem plcfPcd_eq_ok {table : Nat × Bytes} (h : plcfPcd clx = .ok table) :
    table.1 = (table.2.length - 4) / (4 + 8) := by
  obtain ⟨i, -, h⟩ := exists_of_bind_eq_ok h
  split at h
  · cases h
  · obtain ⟨lcb, -, h⟩ := exists_of_bind_eq_ok h
    obtain ⟨plc, hplc, h⟩ := exists_of_bind_eq_ok h
    obtain rfl := Except.ok.inj h
    have hlength := length_slice (okOr_eq_ok_iff.mp hplc)
    rw [Nat.add_sub_cancel_left] at hlength
    rw [hlength]

theorem returns_plcfPcd_iff (clx : Bytes) : Returns (plcfPcd clx) ↔ ¬ CutPrc clx := by
  have hskip := returns_skipPrc_iff clx 0
  rw [List.drop_zero] at hskip
  unfold plcfPcd
  rw [returns_bind_iff, hskip, and_iff_left_iff_imp]
  intro _ i _
  split
  · exact returns_docParse _
  · rw [returns_bind_iff]
    refine ⟨returns_okOr _ _, fun lcb _ => ?_⟩
    rw [returns_bind_iff]
    exact ⟨returns_okOr _ _, fun plc _ => returns_ok _⟩

/-- No position of the table is out of its bounds. -/
theorem length_cps {plc : Bytes} {n : Nat} (h : (n + 1) * 4 ≤ plc.length) :
    ((List.range (n + 1)).filterMap fun k => rdU32 plc (k * 4)).length = n + 1 := by
  have hall : ∀ k ∈ List.range (n + 1), (rdU32 plc (k * 4)).isSome := by
    intro k hk
    rw [List.mem_range] at hk
    have hin : k * 4 + 4 ≤ plc.length := by omega
    obtain ⟨v, hv⟩ := exists_rdU32 hin
    rw [hv]
    rfl
  rw [List.filterMap_length_eq_length.mpr hall, List.length_range]

theorem returns_readPieces {plc : Bytes} {cps : List Nat} {pcdBase : Nat} {ps : List Nat}
    (h : ∀ p ∈ ps, p + 1 < cps.length) (budget : Budget) :
    Returns (readPieces wds plc cps pcdBase ps budget) := by
  induction ps generalizing budget with
  | nil => exact returns_ok budget
  | cons p ps ih =>
    have hp : p + 1 < cps.length := h p List.mem_cons_self
    have hrest := ih fun p' hp' => h p' (List.mem_cons_of_mem p hp')
    rw [readPieces, returns_bind_iff]
    refine ⟨returns_index (Nat.lt_of_succ_lt hp), fun cpStart _ => ?_⟩
    rw [returns_bind_iff]
    refine ⟨returns_index hp, fun cpEnd _ => ?_⟩
    rw [returns_bind_iff]
    refine ⟨returns_okOr _ _, fun fc _ => ?_⟩
    dsimp only
    split
    · exact hrest _
    · exact returns_ok _

theorem returns_readClx_iff (wds clx : Bytes) (cap : Nat) :
    Returns (readClx wds clx cap) ↔ ¬ CutPrc clx := by
  unfold readClx
  rw [returns_bind_iff, returns_plcfPcd_iff, and_iff_left_iff_imp]
  rintro _ ⟨n, plc⟩ htable
  have hn : n = (plc.length - 4) / (4 + 8) := plcfPcd_eq_ok htable
  dsimp only
  split
  · exact returns_docParse _
  · rename_i hpos
    have hcps : (n + 1) * 4 ≤ plc.length := by omega
    rw [returns_bind_iff]
    refine ⟨returns_readPieces ?_ _, fun budget _ => returns_ok _⟩
    intro p hp
    rw [length_cps hcps]
    exact Nat.succ_lt_succ (List.mem_range.mp hp)

/-! ## The two streams -/

/-- A container with the two streams. -/
def holding (wds tbl : Bytes) : Except String (String → Except String Bytes) :=
  .ok fun name => .ok (if name = "/WordDocument" then wds else tbl)

/-- The header passes its checks, and the Clx it points to lies within the table stream. -/
structure HasClx (wds tbl clx : Bytes) : Prop where
  long : 0x200 ≤ wds.length
  magic : wds[0]? = some 0xEC ∧ wds[1]? = some 0xA5
  inRange : ∃ fcClx lcbClx, rdU32 wds 0x01A2 = some fcClx ∧ rdU32 wds 0x01A6 = some lcbClx ∧
    slice tbl fcClx (fcClx + lcbClx) = some clx

theorem u16Le_eq_magic_iff {b0 b1 : UInt8} : u16Le b0 b1 = 0xA5EC ↔ b0 = 0xEC ∧ b1 = 0xA5 := by
  have h0 := b0.toNat_lt
  have h1 := b1.toNat_lt
  have hec : UInt8.toNat 0xEC = 0xEC := rfl
  have ha5 : UInt8.toNat 0xA5 = 0xA5 := rfl
  rw [← UInt8.toNat_inj, ← UInt8.toNat_inj, hec, ha5, u16Le]
  omega

/-- Neither table stream is the document stream. -/
theorem tableName_ne (flags : Nat) :
    (if flags &&& 0x0200 ≠ 0 then "/1Table" else "/0Table") ≠ "/WordDocument" := by
  split <;> decide

/-- Where the checks of the header pass, the call is that on the Clx. -/
theorem HasClx.extractDoc_eq {tbl : Bytes} (h : HasClx wds tbl clx) (cap : Nat) :
    extractDoc (holding wds tbl) cap = readClx wds clx cap := by
  obtain ⟨fcClx, lcbClx, hfc, hlcb, hclx⟩ := h.inRange
  have hlong := h.long
  have hindex : ∀ i < 0x200, ∃ b, index wds i = .ok b := fun i hi =>
    ⟨wds[i], index_eq_ok_iff.mpr (List.getElem?_eq_getElem _)⟩
  obtain ⟨b10, h10⟩ := hindex 0x0A (by decide)
  obtain ⟨b11, h11⟩ := hindex 0x0B (by decide)
  unfold extractDoc holding
  simp only [Except.mapError, bind, Except.bind, if_true, index_eq_ok_iff.mpr h.magic.1,
    index_eq_ok_iff.mpr h.magic.2, h10, h11, hfc, hlcb, okOr]
  rw [if_neg (by omega), if_neg (not_not.mpr (u16Le_eq_magic_iff.mpr ⟨rfl, rfl⟩)),
    if_neg (tableName_ne _), hclx]

/-- Where one of them does not, the call returns. -/
theorem returns_of_not_hasClx {tbl : Bytes} (h : ∀ clx, ¬ HasClx wds tbl clx) (cap : Nat) :
    Returns (extractDoc (holding wds tbl) cap) := by
  unfold extractDoc
  rw [returns_bind_iff]
  refine ⟨returns_ok _, fun openStream hopen => ?_⟩
  obtain rfl := Except.ok.inj hopen
  rw [returns_bind_iff]
  refine ⟨returns_ok _, fun wds' hwds => ?_⟩
  obtain rfl : wds = wds' := Except.ok.inj hwds
  dsimp only
  split
  · exact returns_docParse _
  · rename_i hlong
    have hindex : ∀ i < 0x200, Returns (index wds i) := fun i hi =>
      returns_index (Nat.lt_of_lt_of_le hi (Nat.not_lt.mp hlong))
    rw [returns_bind_iff]
    refine ⟨hindex 0 (by decide), fun b0 h0 => ?_⟩
    rw [returns_bind_iff]
    refine ⟨hindex 1 (by decide), fun b1 h1 => ?_⟩
    split
    · exact returns_docParse _
    · rename_i hmagic
      rw [returns_bind_iff]
      refine ⟨hindex _ (by decide), fun b10 _ => ?_⟩
      rw [returns_bind_iff]
      refine ⟨hindex _ (by decide), fun b11 _ => ?_⟩
      rw [returns_bind_iff]
      refine ⟨returns_ok _, fun tbl' htbl => ?_⟩
      obtain rfl : tbl = tbl' := by
        have htbl := Except.ok.inj htbl
        rwa [if_neg (tableName_ne _)] at htbl
      rw [returns_bind_iff]
      refine ⟨returns_okOr _ _, fun fcClx hfc => ?_⟩
      rw [returns_bind_iff]
      refine ⟨returns_okOr _ _, fun lcbClx hlcb => ?_⟩
      rw [returns_bind_iff]
      refine ⟨returns_okOr _ _, fun clx hclx => ?_⟩
      -- all checks have passed, so there is a Clx after all
      obtain ⟨rfl, rfl⟩ := u16Le_eq_magic_iff.mp (not_not.mp hmagic)
      exact absurd ⟨Nat.not_lt.mp hlong, ⟨index_eq_ok_iff.mp h0, index_eq_ok_iff.mp h1⟩,
        fcClx, lcbClx, okOr_eq_ok_iff.mp hfc, okOr_eq_ok_iff.mp hlcb, okOr_eq_ok_iff.mp hclx⟩
        (h clx)

/-- For every pair of streams the call returns an extraction or a typed failure, and does not
panic, exactly when no Prc block of the Clx is cut off within its length field. -/
theorem returns_iff (wds tbl : Bytes) (cap : Nat) :
    ((∃ extraction, extractDoc (holding wds tbl) cap = .ok extraction) ∨
      ∃ message, extractDoc (holding wds tbl) cap = .error (.docParse message)) ↔
        ∀ clx, HasClx wds tbl clx → ¬ CutPrc clx := by
  rw [← returns_iff_cases]
  by_cases hnone : ∀ clx, ¬ HasClx wds tbl clx
  · exact iff_of_true (returns_of_not_hasClx hnone cap) fun clx h => absurd h (hnone clx)
  · rw [not_forall_not] at hnone
    obtain ⟨clx, hclx⟩ := hnone
    rw [hclx.extractDoc_eq, returns_readClx_iff]
    constructor
    · intro h clx' hclx'
      obtain ⟨fcClx, lcbClx, hfc, hlcb, hslice⟩ := hclx.inRange
      obtain ⟨fcClx', lcbClx', hfc', hlcb', hslice'⟩ := hclx'.inRange
      obtain rfl := Option.some.inj (hfc.symm.trans hfc')
      obtain rfl := Option.some.inj (hlcb.symm.trans hlcb')
      obtain rfl := Option.some.inj (hslice.symm.trans hslice')
      exact h
    · intro h
      exact h clx hclx

/-- A header that points to the first byte of the table stream. -/
def headerOfOne : Bytes :=
  [0xEC, 0xA5] ++ List.replicate 420 0 ++ [1] ++ List.replicate 89 0

theorem hasClx_one : HasClx headerOfOne [0x01] [0x01] := by
  refine ⟨?_, ?_, 0, 1, ?_, ?_, ?_⟩
  all_goals decide +kernel

/-- A table stream of one byte is enough. -/
theorem one_byte_panics : extractDoc (holding headerOfOne [0x01]) 200000 = .error .panic := by
  rw [hasClx_one.extractDoc_eq]
  by_contra h
  exact (returns_readClx_iff _ _ _).mp h (.cut (by decide))

end Verity.Analysis.WordBinary
