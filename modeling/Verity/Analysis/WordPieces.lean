import Mathlib.Data.Nat.Bitwise
import Verity.Analysis.WordBinary

/-!
# The pieces of a legacy Word file

A well-formed file is stated from its layout: a header that points to the Clx in the table stream,
complete Prc blocks before the piece table, and for each piece a position, a descriptor and the
bytes of its text, at an offset of its own. A piece is stored as CP1252, one byte for a character,
or as UTF-16LE, where a character outside the basic plane takes two units.

The lane decodes the units one by one, so no extraction holds a character outside the basic plane
(`readClx_basic`), and the texts of the pieces come back exactly when they hold none
(`pieces_survive_iff`).
-/

set_option autoImplicit false

namespace Verity.Analysis.WordBinary

open Verity.Foundation Verity.Model Verity.Model.Extract

/-! ## Bytes at an offset -/

/-- The bytes stand at the offset. -/
def HoldsAt (buf : Bytes) (off : Nat) (bytes : Bytes) : Prop := bytes <+: buf.drop off

instance (buf : Bytes) (off : Nat) (bytes : Bytes) : Decidable (HoldsAt buf off bytes) :=
  inferInstanceAs (Decidable (bytes <+: buf.drop off))

section HoldsAt

variable {buf bytes : Bytes} {off : Nat}

theorem HoldsAt.slice_getD (h : HoldsAt buf off bytes) :
    (slice buf off (off + bytes.length)).getD [] = bytes := by
  obtain ⟨rest, hrest⟩ := h
  have hlength := congrArg List.length hrest
  rw [List.length_append, List.length_drop] at hlength
  unfold slice
  split
  · rw [Option.getD_some, ← hrest, Nat.add_sub_cancel_left, List.take_left]
  · have hnil : bytes.length = 0 := by omega
    exact (List.length_eq_zero_iff.mp hnil).symm

theorem HoldsAt.slice_eq (h : HoldsAt buf off bytes) (hne : bytes ≠ []) :
    slice buf off (off + bytes.length) = some bytes := by
  have hbytes := h.slice_getD
  cases hslice : slice buf off (off + bytes.length) with
  | none =>
    rw [hslice] at hbytes
    exact absurd hbytes.symm hne
  | some s =>
    rw [hslice] at hbytes
    exact congrArg some hbytes

theorem HoldsAt.inner {front back : Bytes} (h : HoldsAt buf off (front ++ (bytes ++ back))) :
    HoldsAt buf (off + front.length) bytes := by
  obtain ⟨rest, hrest⟩ := h
  refine ⟨back ++ rest, ?_⟩
  rw [← List.drop_drop, ← hrest, List.append_assoc, List.drop_left, List.append_assoc]

theorem holdsAt_append (front : Bytes) (h : HoldsAt buf off bytes) :
    HoldsAt (front ++ buf) (front.length + off) bytes := by
  unfold HoldsAt
  rwa [← List.drop_drop, List.drop_left]

/-- Blocks of one size stand at the multiples of it. -/
theorem holdsAt_flatMap {α : Type} {f : α → Bytes} {w : Nat} (hw : ∀ x, (f x).length = w)
    {xs : List α} {k : Nat} {x : α} (h : xs[k]? = some x) (rest : Bytes) :
    HoldsAt (xs.flatMap f ++ rest) (k * w) (f x) := by
  induction xs generalizing k with
  | nil => simp at h
  | cons y xs ih =>
    rw [List.flatMap_cons, List.append_assoc]
    cases k with
    | zero =>
      obtain rfl : y = x := by simpa using h
      rw [Nat.zero_mul]
      exact List.prefix_append _ _
    | succ k =>
      have hnext := holdsAt_append (f y) (ih (by simpa using h))
      rwa [hw, Nat.add_comm, ← Nat.succ_mul] at hnext

end HoldsAt

/-! ## Numbers and units -/

def u32Bytes (v : Nat) : Bytes :=
  [UInt8.ofNat v, UInt8.ofNat (v / 256), UInt8.ofNat (v / 65536), UInt8.ofNat (v / 16777216)]

def unitBytes (u : Nat) : Bytes := [UInt8.ofNat u, UInt8.ofNat (u / 256)]

theorem u16Le_ofNat {u : Nat} (h : u < 65536) :
    u16Le (UInt8.ofNat u) (UInt8.ofNat (u / 256)) = u := by
  simp only [u16Le, UInt8.toNat_ofNat']
  omega

theorem rdU32_of_holdsAt {buf : Bytes} {off v : Nat} (h : HoldsAt buf off (u32Bytes v))
    (hv : v < 2 ^ 32) : rdU32 buf off = some v := by
  have hslice : slice buf off (off + 4) = some (u32Bytes v) := h.slice_eq (by simp [u32Bytes])
  rw [rdU32, hslice]
  simp only [u32Bytes, u16Le, UInt8.toNat_ofNat', Option.some.injEq]
  omega

/-- The units of UTF-16: one, or the two halves of a surrogate pair. -/
def utf16Units (c : Char) : List Nat :=
  if c.toNat < 0x10000 then [c.toNat]
  else [0xD800 + (c.toNat - 0x10000) / 0x400, 0xDC00 + (c.toNat - 0x10000) % 0x400]

def utf16Le (c : Char) : Bytes := (utf16Units c).flatMap unitBytes

/-- A character of the basic plane. -/
def IsBasic (c : Char) : Prop := c.toNat < 0x10000

instance : DecidablePred IsBasic := fun c => inferInstanceAs (Decidable (c.toNat < 0x10000))

theorem unitChar_toNat {c : Char} : unitChar c.toNat = c := by
  have hvalid : c.toNat.isValidChar := c.valid
  rw [unitChar, if_pos hvalid, Char.ofNat_toNat]

theorem decodeUnits_utf16Le {text : List Char} (h : ∀ c ∈ text, IsBasic c) :
    decodeUnits (text.flatMap utf16Le) = text := by
  induction text with
  | nil => rfl
  | cons c text ih =>
    have hc : c.toNat < 65536 := h c List.mem_cons_self
    have hbytes : utf16Le c = unitBytes c.toNat := by
      rw [utf16Le, utf16Units, if_pos hc, List.flatMap_singleton]
    rw [List.flatMap_cons, hbytes]
    show unitChar (u16Le _ _) :: decodeUnits (text.flatMap utf16Le) = c :: text
    rw [u16Le_ofNat hc, unitChar_toNat, ih fun c' hc' => h c' (List.mem_cons_of_mem c hc')]

theorem length_utf16Le (text : List Char) :
    (text.flatMap utf16Le).length = (text.flatMap utf16Units).length * 2 := by
  have hunits : ∀ us : List Nat, (us.flatMap unitBytes).length = us.length * 2 := by
    intro us
    induction us with
    | nil => rfl
    | cons u us ih =>
      rw [List.flatMap_cons, List.length_append, ih, List.length_cons, Nat.succ_mul, Nat.add_comm]
      rfl
  induction text with
  | nil => rfl
  | cons c text ih =>
    rw [List.flatMap_cons, List.length_append, ih, List.flatMap_cons, List.length_append,
      utf16Le, hunits, Nat.add_mul]

/-! ## CP1252 -/

/-- The code points of the bytes `0x80` to `0x9F`; the five that CP1252 leaves open are taken as
controls. -/
def windows1252High : List Nat :=
  [0x20AC, 0x0081, 0x201A, 0x0192, 0x201E, 0x2026, 0x2020, 0x2021, 0x02C6, 0x2030, 0x0160, 0x2039,
    0x0152, 0x008D, 0x017D, 0x008F, 0x0090, 0x2018, 0x2019, 0x201C, 0x201D, 0x2022, 0x2013, 0x2014,
    0x02DC, 0x2122, 0x0161, 0x203A, 0x0153, 0x009D, 0x017E, 0x0178]

def windows1252 (b : UInt8) : Nat :=
  if 0x80 ≤ b.toNat ∧ b.toNat ≤ 0x9F then windows1252High.getD (b.toNat - 0x80) 0 else b.toNat

/-- The table of the source is CP1252. -/
theorem toNat_cp1252Char (b : UInt8) : (cp1252Char b).toNat = windows1252 b := by
  have hall : ∀ n < 256, (cp1252Char (UInt8.ofNat n)).toNat = windows1252 (UInt8.ofNat n) := by
    decide +kernel
  have hb := hall b.toNat b.toNat_lt
  rwa [UInt8.ofNat_toNat] at hb

theorem map_cp1252Char {bytes : Bytes} {text : List Char}
    (h : bytes.map windows1252 = text.map Char.toNat) : bytes.map cp1252Char = text := by
  have hmap : (bytes.map cp1252Char).map Char.toNat = text.map Char.toNat := by
    rw [← h, List.map_map]
    exact List.map_congr_left fun b _ => toNat_cp1252Char b
  exact List.map_injective_iff.mpr (fun c c' hc => Char.toNat_inj.mp hc) hmap

/-! ## Pieces and their table -/

/-- A piece with the two fields of its descriptor that the lane does not read. -/
structure Piece where
  text : List Char
  compressed : Bool
  offset : Nat
  flags : UInt8 × UInt8
  prm : UInt8 × UInt8

variable {α : Type} {c : Char} {x : Nat} {wds : Bytes} {piece : Piece} {pieces : List Piece}
  {prcs : List Bytes}

namespace Piece

/-- The bytes stand for the text of the piece. -/
def Encodes (piece : Piece) (bytes : Bytes) : Prop :=
  if piece.compressed then bytes.map windows1252 = piece.text.map Char.toNat
  else bytes = piece.text.flatMap utf16Le

instance (piece : Piece) (bytes : Bytes) : Decidable (piece.Encodes bytes) :=
  inferInstanceAs (Decidable
    (if piece.compressed then bytes.map windows1252 = piece.text.map Char.toNat
      else bytes = piece.text.flatMap utf16Le))

/-- How many positions the piece takes. -/
def positions (piece : Piece) : Nat :=
  if piece.compressed then piece.text.length else (piece.text.flatMap utf16Units).length

/-- The offset as it is stored: doubled and flagged where the piece is compressed. -/
def fc (piece : Piece) : Nat :=
  if piece.compressed then 0x40000000 + 2 * piece.offset else piece.offset

def OffsetFits (piece : Piece) : Prop :=
  if piece.compressed then 2 * piece.offset < 2 ^ 30 else piece.offset < 2 ^ 30

instance (piece : Piece) : Decidable piece.OffsetFits :=
  inferInstanceAs (Decidable
    (if piece.compressed then 2 * piece.offset < 2 ^ 30 else piece.offset < 2 ^ 30))

def pcdBytes (piece : Piece) : Bytes :=
  [piece.flags.1, piece.flags.2] ++ (u32Bytes piece.fc ++ [piece.prm.1, piece.prm.2])

end Piece

/-- Where the pieces start, and where the last one ends. -/
def cpsFrom : Nat → List Piece → List Nat
  | cp, [] => [cp]
  | cp, piece :: pieces => cp :: cpsFrom (cp + piece.positions) pieces

def plcBytes (pieces : List Piece) : Bytes :=
  (cpsFrom 0 pieces).flatMap u32Bytes ++ pieces.flatMap Piece.pcdBytes

def prcBytes (body : Bytes) : Bytes := 0x01 :: (unitBytes body.length ++ body)

def clxBytes (prcs : List Bytes) (pieces : List Piece) : Bytes :=
  prcs.flatMap prcBytes ++ 0x02 :: (u32Bytes (plcBytes pieces).length ++ plcBytes pieces)

/-- The two streams of a well-formed file: every number fits its field. -/
structure WellFormed (wds tbl : Bytes) (prcs : List Bytes) (pieces : List Piece) : Prop where
  long : 0x200 ≤ wds.length
  magic : HoldsAt wds 0 [0xEC, 0xA5]
  fcClx : ∃ fcClx < 2 ^ 32, HoldsAt wds 0x01A2 (u32Bytes fcClx) ∧
    HoldsAt tbl fcClx (clxBytes prcs pieces)
  lcbClx : HoldsAt wds 0x01A6 (u32Bytes (clxBytes prcs pieces).length)
  clx_fits : (clxBytes prcs pieces).length < 2 ^ 32
  prc_fits : ∀ body ∈ prcs, body.length < 65536
  cps_fit : ∀ cp ∈ cpsFrom 0 pieces, cp < 2 ^ 32
  stored : ∀ piece ∈ pieces, ∃ bytes, piece.Encodes bytes ∧ HoldsAt wds piece.offset bytes
  offset_fits : ∀ piece ∈ pieces, piece.OffsetFits

/-- The texts of the pieces in the order of the table, control characters mapped. -/
def cleanText (pieces : List Piece) : List Char :=
  (pieces.flatMap Piece.text).filterMap cleanChar

/-! ## One piece -/

theorem and_flag_of_lt (h : x < 2 ^ 30) : x &&& 0x40000000 = 0 := by
  have hbit : x &&& 2 ^ 30 = (x.testBit 30).toNat * 2 ^ 30 := Nat.and_two_pow x 30
  rw [Nat.testBit_lt_two_pow h] at hbit
  simpa using hbit

theorem and_flag_add (h : x < 2 ^ 30) : (0x40000000 + x) &&& 0x40000000 ≠ 0 := by
  have hbit : (2 ^ 30 + x) &&& 2 ^ 30 = ((2 ^ 30 + x).testBit 30).toNat * 2 ^ 30 :=
    Nat.and_two_pow _ 30
  rw [Nat.testBit_two_pow_add_eq, Nat.testBit_lt_two_pow h] at hbit
  simp only [Nat.reducePow] at hbit
  rw [hbit]
  decide

theorem and_mask_add (h : x < 2 ^ 30) : (0x40000000 + x) &&& 0x3FFFFFFF = x := by
  have hmask : (2 ^ 30 + x) &&& (2 ^ 30 - 1) = (2 ^ 30 + x) % 2 ^ 30 :=
    Nat.and_two_pow_sub_one_eq_mod _ _
  rw [Nat.add_mod_left, Nat.mod_eq_of_lt h] at hmask
  exact hmask

/-- A piece decodes to its text. -/
theorem decodePiece_eq {bytes : Bytes} (hencodes : piece.Encodes bytes)
    (hholds : HoldsAt wds piece.offset bytes) (hfits : piece.OffsetFits)
    (hbasic : ∀ c ∈ piece.text, IsBasic c) :
    decodePiece wds piece.fc piece.positions = piece.text := by
  have hslice := hholds.slice_getD
  unfold Piece.Encodes at hencodes
  unfold Piece.OffsetFits at hfits
  unfold decodePiece Piece.fc Piece.positions
  cases hcompressed : piece.compressed with
  | true =>
    rw [hcompressed, if_pos rfl] at hencodes hfits
    have hlength : piece.text.length = bytes.length := by
      have hlengths := congrArg List.length hencodes
      rw [List.length_map, List.length_map] at hlengths
      exact hlengths.symm
    rw [if_pos rfl, if_pos rfl, if_pos (and_flag_add hfits), and_mask_add hfits, hlength]
    have hhalf : 2 * piece.offset / 2 = piece.offset := by omega
    dsimp only
    rw [hhalf, hslice]
    exact map_cp1252Char hencodes
  | false =>
    rw [hcompressed, if_neg Bool.false_ne_true] at hencodes hfits
    have hlength : (piece.text.flatMap utf16Units).length * 2 = bytes.length := by
      rw [hencodes, length_utf16Le]
    simp only [Bool.false_eq_true, if_false]
    rw [if_neg (not_not.mpr (and_flag_of_lt hfits)), hlength, hslice, hencodes]
    exact decodeUnits_utf16Le hbasic

/-! ## The table -/

theorem length_flatMap_blocks {f : α → Bytes} {w : Nat} (hw : ∀ x, (f x).length = w) (xs : List α) :
    (xs.flatMap f).length = xs.length * w := by
  induction xs with
  | nil => simp
  | cons x xs ih =>
    rw [List.flatMap_cons, List.length_append, hw, ih, List.length_cons, Nat.succ_mul]
    exact Nat.add_comm _ _

theorem length_u32Bytes (v : Nat) : (u32Bytes v).length = 4 := rfl

theorem length_pcdBytes (piece : Piece) : piece.pcdBytes.length = 8 := rfl

theorem length_cpsFrom (cp : Nat) (pieces : List Piece) :
    (cpsFrom cp pieces).length = pieces.length + 1 := by
  induction pieces generalizing cp with
  | nil => rfl
  | cons piece pieces ih => rw [cpsFrom, List.length_cons, ih, List.length_cons]

theorem length_cpBytes (pieces : List Piece) :
    ((cpsFrom 0 pieces).flatMap u32Bytes).length = (pieces.length + 1) * 4 := by
  rw [length_flatMap_blocks length_u32Bytes, length_cpsFrom]

theorem length_plcBytes (pieces : List Piece) :
    (plcBytes pieces).length = (pieces.length + 1) * 4 + pieces.length * 8 := by
  rw [plcBytes, List.length_append, length_cpBytes, length_flatMap_blocks length_pcdBytes]

/-- Neighbouring positions are as far apart as the piece between them is long. -/
theorem cpsFrom_get (cp : Nat) {p : Nat} (h : pieces[p]? = some piece) :
    ∃ cp', (cpsFrom cp pieces)[p]? = some cp' ∧
      (cpsFrom cp pieces)[p + 1]? = some (cp' + piece.positions) := by
  induction pieces generalizing cp p with
  | nil => simp at h
  | cons first pieces ih =>
    cases p with
    | zero =>
      obtain rfl : first = piece := by simpa using h
      refine ⟨cp, rfl, ?_⟩
      cases pieces with
      | nil => rfl
      | cons second pieces => rfl
    | succ p =>
      obtain ⟨cp', hstart, hstop⟩ := ih (cp + first.positions) (p := p)
        (by simpa using h)
      exact ⟨cp', hstart, hstop⟩

theorem rdU32_plcBytes (hfits : ∀ cp ∈ cpsFrom 0 pieces, cp < 2 ^ 32) {k cp : Nat}
    (h : (cpsFrom 0 pieces)[k]? = some cp) : rdU32 (plcBytes pieces) (k * 4) = some cp :=
  rdU32_of_holdsAt (holdsAt_flatMap length_u32Bytes h _) (hfits cp (List.mem_of_getElem? h))

theorem filterMap_range {xs : List α} {f : Nat → Option α}
    (h : ∀ k x, xs[k]? = some x → f k = some x) : (List.range xs.length).filterMap f = xs := by
  induction xs generalizing f with
  | nil => rfl
  | cons x xs ih =>
    rw [List.length_cons, List.range_succ_eq_map, List.filterMap_cons_some (h 0 x rfl),
      List.filterMap_map, ih]
    intro k y hy
    exact h (k + 1) y hy

/-- The lane reads the positions of the table. -/
theorem cps_plcBytes (hfits : ∀ cp ∈ cpsFrom 0 pieces, cp < 2 ^ 32) :
    ((List.range (pieces.length + 1)).filterMap fun k => rdU32 (plcBytes pieces) (k * 4)) =
      cpsFrom 0 pieces := by
  rw [← length_cpsFrom 0 pieces]
  exact filterMap_range fun k cp h => rdU32_plcBytes hfits h

theorem fc_lt (h : piece.OffsetFits) : piece.fc < 2 ^ 32 := by
  unfold Piece.OffsetFits at h
  unfold Piece.fc
  split at h <;> rename_i hcompressed
  · rw [if_pos hcompressed]
    omega
  · rw [if_neg hcompressed]
    omega

/-- The lane reads the descriptors of the table. -/
theorem rdU32_pcd {p : Nat} (h : pieces[p]? = some piece) (hfits : piece.OffsetFits) :
    rdU32 (plcBytes pieces) ((pieces.length + 1) * 4 + p * 8 + 2) = some piece.fc := by
  have hpcd : HoldsAt (pieces.flatMap Piece.pcdBytes) (p * 8) piece.pcdBytes := by
    have hblocks := holdsAt_flatMap length_pcdBytes h []
    rwa [List.append_nil] at hblocks
  have hplc := holdsAt_append ((cpsFrom 0 pieces).flatMap u32Bytes) hpcd
  rw [length_cpBytes] at hplc
  exact rdU32_of_holdsAt hplc.inner (fc_lt hfits)

/-- The loop over the Prc blocks ends at the piece table. -/
theorem skipPrc_blocks {clx rest : Bytes} (hfits : ∀ body ∈ prcs, body.length < 65536) {i : Nat}
    (h : clx.drop i = prcs.flatMap prcBytes ++ 0x02 :: rest) :
    ∃ j, skipPrc clx i = .ok j ∧ clx.drop j = 0x02 :: rest := by
  induction prcs generalizing i with
  | nil =>
    refine ⟨i, skipPrc_stop ?_, h⟩
    rw [← List.head?_drop, h]
    show some (0x02 : UInt8) ≠ some 0x01
    decide
  | cons body prcs ih =>
    have hlength := u16Le_ofNat (hfits body List.mem_cons_self)
    rw [List.flatMap_cons, List.append_assoc] at h
    rw [skipPrc_turn h, hlength]
    refine ih (fun body' hbody' => hfits body' (List.mem_cons_of_mem body hbody')) ?_
    rw [← List.drop_drop, h, Nat.add_comm 3]
    exact List.drop_left' rfl

/-- The piece table is found behind the properties. -/
theorem plcfPcd_clxBytes (hprcs : ∀ body ∈ prcs, body.length < 65536)
    (hfits : (clxBytes prcs pieces).length < 2 ^ 32) :
    plcfPcd (clxBytes prcs pieces) = .ok (pieces.length, plcBytes pieces) := by
  obtain ⟨j, hskip, hdrop⟩ := skipPrc_blocks hprcs (List.drop_zero (l := clxBytes prcs pieces))
  have htag : (clxBytes prcs pieces)[j]? = some 0x02 := by
    rw [← List.head?_drop, hdrop]
    rfl
  have hpcdt : HoldsAt (clxBytes prcs pieces) j
      ([0x02] ++ (u32Bytes (plcBytes pieces).length ++ plcBytes pieces)) := by
    unfold HoldsAt
    rw [hdrop]
    exact List.prefix_refl _
  have hplcLength : (plcBytes pieces).length < 2 ^ 32 := by
    unfold clxBytes at hfits
    rw [List.length_append, List.length_cons, List.length_append] at hfits
    omega
  have hlcb : rdU32 (clxBytes prcs pieces) (j + 1) = some (plcBytes pieces).length :=
    rdU32_of_holdsAt hpcdt.inner hplcLength
  have hplc : HoldsAt (clxBytes prcs pieces) (j + 5) (plcBytes pieces) := by
    have hrest : HoldsAt (clxBytes prcs pieces) j
        (([0x02] ++ u32Bytes (plcBytes pieces).length) ++ (plcBytes pieces ++ [])) := by
      rwa [List.append_nil, List.append_assoc]
    exact hrest.inner
  have hne : plcBytes pieces ≠ [] := by
    intro hnil
    have hlength := length_plcBytes pieces
    rw [hnil, List.length_nil] at hlength
    omega
  have hcount : ((plcBytes pieces).length - 4) / (4 + 8) = pieces.length := by
    rw [length_plcBytes]
    omega
  unfold plcfPcd
  rw [hskip]
  show (if _ then _ else _) = _
  rw [if_neg (not_not.mpr htag), hlcb]
  show okOr (slice _ _ _) _ >>= _ = _
  rw [hplc.slice_eq hne]
  show Except.ok (_, plcBytes pieces) = _
  rw [hcount]

/-! ## What is extracted -/

/-- The pieces go into the budget one by one, until it is used up. -/
def pushAll (budget : Budget) : List (List Char) → Budget
  | [] => budget
  | cs :: rest =>
    let pushed := budget.push (String.ofList cs)
    if pushed.2 then pushAll pushed.1 rest else pushed.1

theorem readPieces_eq {plc : Bytes} {cps : List Nat} {pcdBase : Nat} {ps : List Nat}
    {cleaned : Nat → List Char}
    (h : ∀ p ∈ ps, ∃ start stop fc, cps[p]? = some start ∧ cps[p + 1]? = some stop ∧
      rdU32 plc (pcdBase + p * 8 + 2) = some fc ∧
      (decodePiece wds fc (stop - start)).filterMap cleanChar = cleaned p) (budget : Budget) :
    readPieces wds plc cps pcdBase ps budget = .ok (pushAll budget (ps.map cleaned)) := by
  induction ps generalizing budget with
  | nil => rfl
  | cons p ps ih =>
    obtain ⟨start, stop, fc, hstart, hstop, hfc, hcleaned⟩ := h p List.mem_cons_self
    rw [readPieces, index_eq_ok_iff.mpr hstart]
    show (index cps (p + 1) >>= _) = _
    rw [index_eq_ok_iff.mpr hstop]
    show (okOr (rdU32 plc _) _ >>= _) = _
    rw [hfc]
    show (if (budget.push (String.ofList (List.filterMap cleanChar _))).2 then _ else _) = _
    rw [hcleaned, List.map_cons, pushAll]
    split
    · exact ih (fun p' hp' => h p' (List.mem_cons_of_mem p hp')) _
    · rfl

/-- A budget that is large enough takes all pieces. -/
theorem pushAll_of_le (budget : Budget) (css : List (List Char)) (hopen : budget.truncated = false)
    (hle : css.flatten.length ≤ budget.remaining) :
    (pushAll budget css).out = budget.out ++ String.ofList css.flatten ∧
      (pushAll budget css).truncated = false := by
  induction css generalizing budget with
  | nil =>
    refine ⟨?_, hopen⟩
    apply String.toList_inj.mp
    simp [pushAll]
  | cons cs css ih =>
    rw [List.flatten_cons, List.length_append] at hle
    have hfits : (String.ofList cs).length ≤ budget.remaining := by
      rw [String.length_ofList]
      omega
    have hpush : budget.push (String.ofList cs) = ({ budget with
        out := budget.out ++ String.ofList cs
        remaining := budget.remaining - (String.ofList cs).length }, true) := by
      rw [Budget.push, if_neg (by simp [hopen]), if_pos hfits]
    rw [pushAll, hpush]
    dsimp only
    rw [if_pos rfl]
    obtain ⟨hout, htruncated⟩ := ih { budget with
        out := budget.out ++ String.ofList cs
        remaining := budget.remaining - (String.ofList cs).length } hopen (by
      rw [String.length_ofList]
      dsimp only
      omega)
    refine ⟨?_, htruncated⟩
    rw [hout]
    apply String.toList_inj.mp
    simp

/-- The texts of the pieces, one by one. -/
theorem map_range_getElem? {β : Type} (xs : List α) (f : α → List β) :
    ((List.range xs.length).map fun p => (xs[p]?.map f).getD []) = xs.map f := by
  refine List.ext_getElem (by simp) fun p hp _ => ?_
  have hin : p < xs.length := by simpa using hp
  simp [hin]

/-- Where all characters are of the basic plane, the extraction is the text. -/
theorem readClx_clxBytes {tbl : Bytes} (h : WellFormed wds tbl prcs pieces) (hne : pieces ≠ [])
    {cap : Nat} (hcap : (cleanText pieces).length ≤ cap)
    (hbasic : ∀ piece ∈ pieces, ∀ c ∈ piece.text, IsBasic c) :
    readClx wds (clxBytes prcs pieces) cap =
      .ok ⟨trim (String.ofList (cleanText pieces)), "doc-piecetable", false, none⟩ := by
  have hpos : pieces.length ≠ 0 := fun hzero => hne (List.length_eq_zero_iff.mp hzero)
  have hpieces : ∀ p ∈ List.range pieces.length, ∃ start stop fc,
      (cpsFrom 0 pieces)[p]? = some start ∧ (cpsFrom 0 pieces)[p + 1]? = some stop ∧
      rdU32 (plcBytes pieces) ((pieces.length + 1) * 4 + p * 8 + 2) = some fc ∧
      (decodePiece wds fc (stop - start)).filterMap cleanChar =
        (pieces[p]?.map fun piece => piece.text.filterMap cleanChar).getD [] := by
    intro p hp
    have hp := List.mem_range.mp hp
    have hin : pieces[p]? = some pieces[p] := List.getElem?_eq_getElem hp
    have hmem := List.mem_of_getElem? hin
    obtain ⟨start, hstart, hstop⟩ := cpsFrom_get 0 hin
    obtain ⟨bytes, hencodes, hholds⟩ := h.stored _ hmem
    refine ⟨start, _, _, hstart, hstop, rdU32_pcd hin (h.offset_fits _ hmem), ?_⟩
    rw [Nat.add_sub_cancel_left, decodePiece_eq hencodes hholds (h.offset_fits _ hmem)
      (hbasic _ hmem), hin]
    rfl
  have hflatten : (pieces.map fun piece => piece.text.filterMap cleanChar).flatten =
      cleanText pieces := by
    rw [cleanText, List.filterMap_flatMap]
    rfl
  have hread := readPieces_eq hpieces (.new cap)
  rw [map_range_getElem?] at hread
  obtain ⟨hout, htruncated⟩ := pushAll_of_le (.new cap)
    (pieces.map fun piece => piece.text.filterMap cleanChar) rfl (by rwa [hflatten])
  unfold readClx
  rw [plcfPcd_clxBytes h.prc_fits h.clx_fits]
  show (if _ then _ else _) = _
  rw [if_neg hpos, cps_plcBytes h.cps_fit, hread]
  show Except.ok (Extraction.mk _ _ _ _) = _
  rw [hout, htruncated, hflatten]
  rfl

/-! ## Only the basic plane -/

theorem isBasic_unitChar {u : Nat} (h : u < 65536) : IsBasic (unitChar u) := by
  unfold unitChar
  split
  · rename_i hvalid
    show (Char.ofNat u).toNat < 65536
    rw [Char.ofNat, dif_pos hvalid]
    exact h
  · decide

theorem isBasic_cp1252Char (b : UInt8) : IsBasic (cp1252Char b) := by
  have hall : ∀ n < 256, windows1252 (UInt8.ofNat n) < 0x10000 := by
    decide +kernel
  have hb := hall b.toNat b.toNat_lt
  rw [UInt8.ofNat_toNat] at hb
  show (cp1252Char b).toNat < 0x10000
  rwa [toNat_cp1252Char]

theorem isBasic_decodeUnits (raw : Bytes) : ∀ c ∈ decodeUnits raw, IsBasic c := by
  fun_induction decodeUnits raw with
  | case1 lo hi rest ih =>
    intro c hc
    rcases List.mem_cons.mp hc with rfl | hc
    · have hlo := lo.toNat_lt
      have hhi := hi.toNat_lt
      apply isBasic_unitChar
      rw [u16Le]
      omega
    · exact ih c hc
  | case2 => simp

theorem isBasic_decodePiece (wds : Bytes) (fc chars : Nat) :
    ∀ c ∈ decodePiece wds fc chars, IsBasic c := by
  unfold decodePiece
  split
  · intro c hc
    obtain ⟨b, _, rfl⟩ := List.mem_map.mp hc
    exact isBasic_cp1252Char b
  · exact isBasic_decodeUnits _

theorem isBasic_cleanChar {c' : Char} (h : IsBasic c) (hclean : cleanChar c = some c') :
    IsBasic c' := by
  unfold cleanChar at hclean
  split at hclean
  · obtain rfl := Option.some.inj hclean
    decide
  · split at hclean
    · cases hclean
    · obtain rfl := Option.some.inj hclean
      exact h

/-- A push adds characters of what is pushed. -/
theorem mem_out_push {budget : Budget} {s : String} (h : c ∈ (budget.push s).1.out.toList) :
    c ∈ budget.out.toList ∨ c ∈ s.toList := by
  unfold Budget.push at h
  split at h
  · exact Or.inl h
  · dsimp only at h
    split at h
    · exact List.mem_append.mp (by simpa using h)
    · rw [String.toList_append, String.toList_ofList] at h
      rcases List.mem_append.mp h with h | h
      · exact Or.inl h
      · exact Or.inr (List.mem_of_mem_take h)

theorem isBasic_readPieces {plc : Bytes} {cps : List Nat} {pcdBase : Nat} {ps : List Nat}
    {budget budget' : Budget} (h : readPieces wds plc cps pcdBase ps budget = .ok budget')
    (hbudget : ∀ c ∈ budget.out.toList, IsBasic c) : ∀ c ∈ budget'.out.toList, IsBasic c := by
  induction ps generalizing budget with
  | nil =>
    obtain rfl := Except.ok.inj h
    exact hbudget
  | cons p ps ih =>
    rw [readPieces] at h
    obtain ⟨start, _, h⟩ := exists_of_bind_eq_ok h
    obtain ⟨stop, _, h⟩ := exists_of_bind_eq_ok h
    obtain ⟨fc, _, h⟩ := exists_of_bind_eq_ok h
    have hpushed : ∀ c ∈ (budget.push (String.ofList
        ((decodePiece wds fc (stop - start)).filterMap cleanChar))).1.out.toList, IsBasic c := by
      intro c hc
      rcases mem_out_push hc with hc | hc
      · exact hbudget c hc
      · rw [String.toList_ofList] at hc
        obtain ⟨c', hc', hclean⟩ := List.mem_filterMap.mp hc
        exact isBasic_cleanChar (isBasic_decodePiece _ _ _ c' hc') hclean
    dsimp only at h
    split at h
    · exact ih h hpushed
    · obtain rfl := Except.ok.inj h
      exact hpushed

/-- No file at all is extracted to a text with a character outside the basic plane. -/
theorem readClx_basic {clx : Bytes} {cap : Nat} {extraction : Extraction}
    (h : readClx wds clx cap = .ok extraction) : ∀ c ∈ extraction.text.toList, IsBasic c := by
  unfold readClx at h
  obtain ⟨⟨n, plc⟩, _, h⟩ := exists_of_bind_eq_ok h
  dsimp only at h
  split at h
  · cases h
  · obtain ⟨budget, hread, h⟩ := exists_of_bind_eq_ok h
    obtain rfl := Except.ok.inj h
    intro c hc
    rw [toList_trim] at hc
    exact isBasic_readPieces hread (by simp [Budget.new]) c (mem_of_mem_trimList hc)

/-! ## The claim for whole files -/

theorem WellFormed.hasClx {tbl : Bytes} (h : WellFormed wds tbl prcs pieces) :
    HasClx wds tbl (clxBytes prcs pieces) := by
  obtain ⟨fcClx, hsmall, hfc, hclx⟩ := h.fcClx
  have hne : clxBytes prcs pieces ≠ [] := by simp [clxBytes]
  refine ⟨h.long, ?_, fcClx, _, rdU32_of_holdsAt hfc hsmall,
    rdU32_of_holdsAt h.lcbClx h.clx_fits, hclx.slice_eq hne⟩
  obtain ⟨rest, hrest⟩ := h.magic
  rw [List.drop_zero] at hrest
  rw [← hrest]
  exact ⟨rfl, rfl⟩

/-- A character outside the basic plane is neither dropped nor whitespace. -/
theorem mem_trim_cleanText (hpiece : piece ∈ pieces) (hc : c ∈ piece.text) (hastral : ¬ IsBasic c) :
    c ∈ (trim (String.ofList (cleanText pieces))).toList := by
  have hlarge : 0x10000 ≤ c.toNat := Nat.not_lt.mp hastral
  have hne : ∀ c' : Char, c'.toNat < 0x10000 → c ≠ c' := by
    rintro c' hsmall rfl
    omega
  have hclean : cleanChar c = some c := by
    unfold cleanChar
    rw [if_neg, if_neg (by omega)]
    rintro (h | h | h | h)
    all_goals exact hne _ (by decide) h
  have hblank : isWhitespace c = false := by
    unfold isWhitespace
    simp
    omega
  rw [toList_trim, String.toList_ofList]
  refine mem_trimList_of_not ?_ hblank
  exact List.mem_filterMap.mpr ⟨c, List.mem_flatMap.mpr ⟨piece, hpiece, hc⟩, hclean⟩

/-- For every well-formed file whose text fits the cap, the extraction is the text of its pieces
exactly when they hold no character outside the basic plane. -/
theorem pieces_survive_iff {wds tbl : Bytes} {prcs : List Bytes} {pieces : List Piece}
    (h : WellFormed wds tbl prcs pieces) (hne : pieces ≠ []) {cap : Nat}
    (hcap : (cleanText pieces).length ≤ cap) :
    extractDoc (holding wds tbl) cap =
        .ok ⟨trim (String.ofList (cleanText pieces)), "doc-piecetable", false, none⟩ ↔
      ∀ piece ∈ pieces, ∀ c ∈ piece.text, IsBasic c := by
  rw [h.hasClx.extractDoc_eq]
  constructor
  · intro hread piece hpiece c hc
    by_contra hastral
    exact hastral (readClx_basic hread c (mem_trim_cleanText hpiece hc hastral))
  · exact readClx_clxBytes h hne hcap

/-! ### Two files -/

/-- A document stream with its header and the text at `0x200`; the Clx is the whole table stream. -/
def fileOf (pieces : List Piece) (text : Bytes) : Bytes :=
  [0xEC, 0xA5] ++ List.replicate 416 0 ++
    (u32Bytes 0 ++ u32Bytes (clxBytes [] pieces).length) ++ List.replicate 86 0 ++ text

/-- A piece of UTF-16LE behind the bytes of a piece of CP1252 that follows it in the table. -/
def mixedPieces : List Piece :=
  [⟨['b', '\r'], false, 0x202, (0, 0), (0, 0)⟩, ⟨['€', 'a'], true, 0x200, (0, 0), (0, 0)⟩]

def mixedText : Bytes := [0x80, 0x61, 0x62, 0x00, 0x0D, 0x00]

theorem wellFormed_mixed :
    WellFormed (fileOf mixedPieces mixedText) (clxBytes [] mixedPieces) [] mixedPieces where
  long := by decide +kernel
  magic := by decide +kernel
  fcClx := ⟨0, by decide, by decide +kernel, by decide +kernel⟩
  lcbClx := by decide +kernel
  clx_fits := by decide +kernel
  prc_fits := by simp
  cps_fit := by decide +kernel
  stored := by
    intro piece hpiece
    simp only [mixedPieces, List.mem_cons, List.not_mem_nil, or_false] at hpiece
    rcases hpiece with rfl | rfl
    · exact ⟨[0x62, 0x00, 0x0D, 0x00], by decide +kernel, by decide +kernel⟩
    · exact ⟨[0x80, 0x61], by decide +kernel, by decide +kernel⟩
  offset_fits := by
    intro piece hpiece
    simp only [mixedPieces, List.mem_cons, List.not_mem_nil, or_false] at hpiece
    rcases hpiece with rfl | rfl <;> decide

/-- The two pieces, one in each encoding, come back as their characters are all of the basic
plane. -/
theorem pieces_survive_iff_mixed :
    extractDoc (holding (fileOf mixedPieces mixedText) (clxBytes [] mixedPieces)) 4 =
        .ok ⟨trim (String.ofList (cleanText mixedPieces)), "doc-piecetable", false, none⟩ ↔
      ∀ piece ∈ mixedPieces, ∀ c ∈ piece.text, IsBasic c :=
  pieces_survive_iff wellFormed_mixed (by decide) (by decide +kernel)

def emojiPieces : List Piece := [⟨['😀'], false, 0x200, (0, 0), (0, 0)⟩]

def emojiText : Bytes := [0x3D, 0xD8, 0x00, 0xDE]

theorem wellFormed_emoji :
    WellFormed (fileOf emojiPieces emojiText) (clxBytes [] emojiPieces) [] emojiPieces where
  long := by decide +kernel
  magic := by decide +kernel
  fcClx := ⟨0, by decide, by decide +kernel, by decide +kernel⟩
  lcbClx := by decide +kernel
  clx_fits := by decide +kernel
  prc_fits := by simp
  cps_fit := by decide +kernel
  stored := by
    intro piece hpiece
    obtain rfl := List.mem_singleton.mp hpiece
    exact ⟨emojiText, by decide +kernel, by decide +kernel⟩
  offset_fits := by
    intro piece hpiece
    obtain rfl := List.mem_singleton.mp hpiece
    decide

/-- One character outside the basic plane comes back as two replacement characters. -/
theorem emoji_is_garbled :
    WellFormed (fileOf emojiPieces emojiText) (clxBytes [] emojiPieces) [] emojiPieces ∧
      extractDoc (holding (fileOf emojiPieces emojiText) (clxBytes [] emojiPieces)) 200000 =
        .ok ⟨"\uFFFD\uFFFD", "doc-piecetable", false, none⟩ ∧
      trim (String.ofList (cleanText emojiPieces)) = "😀" := by
  refine ⟨wellFormed_emoji, ?_, by decide +kernel⟩
  rw [wellFormed_emoji.hasClx.extractDoc_eq, readClx,
    plcfPcd_clxBytes wellFormed_emoji.prc_fits wellFormed_emoji.clx_fits]
  decide +kernel

end Verity.Analysis.WordBinary
