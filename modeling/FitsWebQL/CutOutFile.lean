/-
  FitsWebQL.CutOutFile — what a cut-out from a plain file is, for a complete file, a box that
  meets the image and planes that one read transfers (`cut_out_file`): the header with its
  cards in place, of which NAXIS1..4 and CRPIX1..3 are rewritten; the box's pixels, frame by
  frame and row by row; zeros up to a whole number of units, and as many bytes as advertised.

  Either way of reading gives a plane at its place, when the file is long enough and one read
  takes that many bytes (`sendFile_eq`).

  A reference pixel is moved in single precision, which keeps fewer digits than are
  printed when most of it is the box's origin (`a_reference_pixel_in_single_precision`).
-/

import FitsWebQL.CutOut
import FitsWebQL.Lib.Rows

namespace FitsWebQL

open Lib.Binary Lib.FileReads Lib.Malloc Lib.Printf Lib.Wire

/-! ## One card -/

/-- The text put into the card at the front, if it is one of those that are rewritten. -/
def cutOutText (b : Box) (line : Bytes) : Option Bytes :=
  if hasKey line (lit "NAXIS1  = ") then some (ld (long b.partial_width))
  else if hasKey line (lit "NAXIS2  = ") then some (ld (long b.partial_height))
  else if hasKey line (lit "NAXIS3  = ") then some (ld (long b.partial_depth))
  else if hasKey line (lit "NAXIS4  = ") then some (ld 1)
  else if hasKey line (lit "CRPIX1  = ") then some (E (crpixFrom line b.x1))
  else if hasKey line (lit "CRPIX2  = ") then some (E (crpixFrom line b.y1))
  else if hasKey line (lit "CRPIX3  = ") then some (E (crpixFrom line b.start))
  else none

def cutOutCard (b : Box) (line : Bytes) : Bytes :=
  match cutOutText b line with
  | some text => line.take 10 ++ text ++ List.replicate (FITS_LINE_LENGTH - 10 - text.length) 32
  | none => line.take FITS_LINE_LENGTH

theorem hdrSetValue_take {line : Bytes} (s : Bytes) (h : 10 ≤ line.length) : (hdrSetValue line s).take 10 = line.take 10 := by
  have hlen : (line.take 10).length = 10 := by
    rw [List.length_take]
    omega
  unfold hdrSetValue
  rw [List.append_assoc, List.append_assoc]
  exact List.take_left' hlen

/-- Of cards with different keys at most one is rewritten. -/
theorem foldl_cards (cards : List (Bytes × (Bytes → Bytes))) (line : Bytes) (hnodup : (cards.map Prod.fst).Nodup)
    (hkeep : ∀ c ∈ cards, (c.2 line).take 10 = line.take 10) :
    cards.foldl (fun line c => if hasKey line c.1 then c.2 line else line) line =
      match cards.find? fun c => hasKey line c.1 with
      | some c => c.2 line
      | none => line := by
  have hskip : ∀ (cards : List (Bytes × (Bytes → Bytes))) (line : Bytes), (∀ c ∈ cards, hasKey line c.1 = false) →
      cards.foldl (fun line c => if hasKey line c.1 then c.2 line else line) line = line := by
    intro cards line h
    induction cards with
    | nil => rfl
    | cons c cards ih =>
      rw [List.foldl_cons, h c List.mem_cons_self, if_neg Bool.false_ne_true]
      exact ih fun c hc => h c (List.mem_cons_of_mem _ hc)
  induction cards with
  | nil => rfl
  | cons c cards ih =>
    rw [List.map_cons, List.nodup_cons] at hnodup
    rw [List.foldl_cons, List.find?_cons]
    by_cases hc : hasKey line c.1 = true
    · rw [if_pos hc, hc]
      apply hskip
      intro c' hc'
      -- the card keeps its key, and no other has it
      have hkey : line.take 10 = c.1 := by
        unfold hasKey at hc
        exact eq_of_beq hc
      unfold hasKey
      rw [hkeep c List.mem_cons_self, hkey, beq_eq_false_iff_ne]
      intro he
      exact hnodup.1 (List.mem_map.mpr ⟨c', hc', he.symm⟩)
    · rw [if_neg hc]
      have hc' : hasKey line c.1 = false := by simpa using hc
      rw [hc']
      exact ih hnodup.2 fun c hc => hkeep c (List.mem_cons_of_mem _ hc)

theorem rewriteCard_eq (b : Box) {line : Bytes} (h : 10 ≤ line.length) :
    rewriteCard b line = match cutOutText b line with
      | some text => hdrSetValue line text
      | none => line := by
  have hnodup : ((cutOutCards b).map Prod.fst).Nodup := by
    show [lit "NAXIS1  = ", lit "NAXIS2  = ", lit "NAXIS3  = ", lit "NAXIS4  = ", lit "CRPIX1  = ", lit "CRPIX2  = ",
      lit "CRPIX3  = "].Nodup
    decide +kernel
  have hkeep : ∀ c ∈ cutOutCards b, (c.2 line).take 10 = line.take 10 := by
    intro c hc
    unfold cutOutCards at hc
    simp only [List.mem_cons, List.not_mem_nil, or_false] at hc
    rcases hc with rfl | rfl | rfl | rfl | rfl | rfl | rfl
    all_goals exact hdrSetValue_take _ h
  unfold rewriteCard
  rw [foldl_cards _ line hnodup hkeep]
  unfold cutOutText cutOutCards
  simp only [List.find?_cons, List.find?_nil]
  by_cases h1 : hasKey line (lit "NAXIS1  = ") = true
  · rw [h1]; rfl
  rw [Bool.not_eq_true] at h1
  by_cases h2 : hasKey line (lit "NAXIS2  = ") = true
  · rw [h1, h2]; rfl
  rw [Bool.not_eq_true] at h2
  by_cases h3 : hasKey line (lit "NAXIS3  = ") = true
  · rw [h1, h2, h3]; rfl
  rw [Bool.not_eq_true] at h3
  by_cases h4 : hasKey line (lit "NAXIS4  = ") = true
  · rw [h1, h2, h3, h4]; rfl
  rw [Bool.not_eq_true] at h4
  by_cases h5 : hasKey line (lit "CRPIX1  = ") = true
  · rw [h1, h2, h3, h4, h5]; rfl
  rw [Bool.not_eq_true] at h5
  by_cases h6 : hasKey line (lit "CRPIX2  = ") = true
  · rw [h1, h2, h3, h4, h5, h6]; rfl
  rw [Bool.not_eq_true] at h6
  by_cases h7 : hasKey line (lit "CRPIX3  = ") = true
  · rw [h1, h2, h3, h4, h5, h6, h7]; rfl
  rw [Bool.not_eq_true] at h7
  rw [h1, h2, h3, h4, h5, h6, h7]
  rfl

/-! ## Texts -/

structure Box.Small (b : Box) : Prop where
  width : b.partial_width < 10 ^ 10
  height : b.partial_height < 10 ^ 10
  depth : b.partial_depth < 10 ^ 10

theorem ld_length_le {n : ℕ} (h : n < 10 ^ 10) : (ld (long n)).length ≤ 10 := by
  have hneg : ¬ (n : ℤ) < 0 := by omega
  rw [long_eq (by omega) (by omega)]
  unfold ld
  rw [if_neg hneg, Int.natAbs_natCast]
  exact digits_length_le 9 h

/-- Every text leaves a blank at the end of its card. -/
theorem cutOutText_length {b : Box} (hb : b.Small) {line text : Bytes} (h : cutOutText b line = some text) :
    text.length ≤ 13 := by
  have hcrpix : ∀ x, (E (crpixFrom line x)).length ≤ 13 := fun x => E_length_le (sub_inRange _ _ _)
  unfold cutOutText at h
  split at h
  · rw [← Option.some.inj h]
    exact (ld_length_le hb.width).trans (by decide)
  split at h
  · rw [← Option.some.inj h]
    exact (ld_length_le hb.height).trans (by decide)
  split at h
  · rw [← Option.some.inj h]
    exact (ld_length_le hb.depth).trans (by decide)
  split at h
  · cases h
    decide
  split at h
  · cases h
    exact hcrpix _
  split at h
  · cases h
    exact hcrpix _
  split at h
  · cases h
    exact hcrpix _
  cases h

/-- A rewritten card is a card, and what is behind it stays. -/
theorem rewriteCard_split {b : Box} (hb : b.Small) {line : Bytes} (h : FITS_LINE_LENGTH ≤ line.length) :
    (cutOutCard b line).length = FITS_LINE_LENGTH ∧ rewriteCard b line = cutOutCard b line ++ line.drop FITS_LINE_LENGTH := by
  have h80 : FITS_LINE_LENGTH = 80 := rfl
  rw [rewriteCard_eq b (by omega)]
  unfold cutOutCard
  cases htext : cutOutText b line with
  | none =>
    refine ⟨?_, ?_⟩
    · rw [List.length_take]
      omega
    · exact (List.take_append_drop _ _).symm
  | some text =>
    have hlen := cutOutText_length hb htext
    refine ⟨?_, ?_⟩
    · simp only [List.length_append, List.length_take, List.length_replicate]
      omega
    · rfl

/-! ## The header -/

/-- The header keeps its length, and each of its cards is rewritten by itself. -/
theorem rewriteCards_spec {b : Box} (hb : b.Small) (n : ℕ) (header : Bytes) (h : FITS_LINE_LENGTH * n ≤ header.length) :
    (rewriteCards b n header).length = header.length ∧ ∀ i < n,
      ((rewriteCards b n header).drop (FITS_LINE_LENGTH * i)).take FITS_LINE_LENGTH =
        cutOutCard b (header.drop (FITS_LINE_LENGTH * i)) := by
  induction n generalizing header with
  | zero => exact ⟨rfl, fun i hi => absurd hi (Nat.not_lt_zero i)⟩
  | succ n ih =>
    rw [Nat.mul_succ] at h
    have hline : FITS_LINE_LENGTH ≤ header.length := by omega
    obtain ⟨hcard, hsplit⟩ := rewriteCard_split hb hline
    have hdrop : (header.drop FITS_LINE_LENGTH).length = header.length - FITS_LINE_LENGTH := List.length_drop
    obtain ⟨hlen, hcards⟩ := ih (header.drop FITS_LINE_LENGTH) (by omega)
    have hrewrite : rewriteCards b (n + 1) header =
        cutOutCard b header ++ rewriteCards b n (header.drop FITS_LINE_LENGTH) := by
      rw [rewriteCards, hsplit, List.take_left' hcard, List.drop_left' hcard]
    rw [hrewrite]
    refine ⟨?_, ?_⟩
    · rw [List.length_append, hcard, hlen]
      omega
    · intro i hi
      cases i with
      | zero =>
        rw [Nat.mul_zero, List.drop_zero, List.drop_zero]
        exact List.take_left' hcard
      | succ i =>
        have hnext : FITS_LINE_LENGTH * (i + 1) = (cutOutCard b header).length + FITS_LINE_LENGTH * i := by
          rw [hcard, Nat.mul_succ, Nat.add_comm]
        rw [hnext, ← List.drop_drop, List.drop_left, hcards i (by omega), hcard, List.drop_drop]

/-! ## Reading a size back -/

theorem digit_val {n : ℕ} (h : n < 10) : (UInt8.ofNat (48 + n)).toNat = 48 + n := by
  rw [UInt8.toNat_ofNat']
  omega

theorem isdigit_digits {n : ℕ} : ∀ d ∈ digits n, isdigit d = true := by
  induction n using Nat.strong_induction_on with
  | _ n ih =>
    intro d hd
    rw [digits_eq] at hd
    rcases List.mem_append.mp hd with hd | hd
    · split at hd
      · cases hd
      · exact ih (n / 10) (by omega) d hd
    · rw [List.mem_singleton.mp hd]
      have hval := digit_val (n := n % 10) (Nat.mod_lt _ (by decide))
      unfold isdigit
      rw [Bool.and_eq_true, decide_eq_true_iff, decide_eq_true_iff, UInt8.le_iff_toNat_le, UInt8.le_iff_toNat_le, hval]
      show 48 ≤ _ ∧ _ ≤ 57
      omega

theorem digitsValue_digits (n : ℕ) : digitsValue (digits n) = n := by
  induction n using Nat.strong_induction_on with
  | _ n ih =>
    rw [digits_eq]
    unfold digitsValue at ih ⊢
    rw [List.foldl_append, List.foldl_cons, List.foldl_nil, digit_val (Nat.mod_lt _ (by decide))]
    split
    · rw [List.foldl_nil]
      omega
    · rw [ih (n / 10) (by omega)]
      omega

theorem isdigit_plain (d : UInt8) (h : isdigit d = true) : isspace d = false ∧ d ≠ 45 ∧ d ≠ 43 := by
  have hall : ∀ n < 256, isdigit (UInt8.ofNat n) = true →
      isspace (UInt8.ofNat n) = false ∧ UInt8.ofNat n ≠ 45 ∧ UInt8.ofNat n ≠ 43 := by decide +kernel
  have hd : UInt8.ofNat d.toNat = d := UInt8.ofNat_toNat
  have hlt := hall d.toNat d.toNat_lt
  rw [hd] at hlt
  exact hlt h

/-- A size as it is printed is read back. -/
theorem read_ld {n : ℕ} (h : n < 10 ^ 10) (blanks : ℕ) :
    hdrGetLongValue (ld (long n) ++ List.replicate (blanks + 1) 32) = n := by
  have hneg : ¬ (n : ℤ) < 0 := by omega
  have hld : ld (long n) = digits n := by
    rw [long_eq (by omega) (by omega)]
    unfold ld
    rw [if_neg hneg, Int.natAbs_natCast]
  obtain ⟨d, ds, hds⟩ : ∃ d ds, digits n = d :: ds := by
    cases hds : digits n with
    | nil =>
      rw [digits_eq] at hds
      exact absurd hds (List.append_ne_nil_of_right_ne_nil _ (List.cons_ne_nil _ _))
    | cons d ds => exact ⟨d, ds, rfl⟩
  have hd : isdigit d = true := isdigit_digits d (by rw [hds]; exact List.mem_cons_self)
  have hplain : isspace d = false ∧ d ≠ 45 ∧ d ≠ 43 := isdigit_plain d hd
  have hspace : (digits n ++ List.replicate (blanks + 1) 32).dropWhile isspace = digits n ++ List.replicate (blanks + 1) 32 := by
    rw [hds, List.cons_append, List.dropWhile_cons, hplain.1, if_neg Bool.false_ne_true]
  have hsign : sign (digits n ++ List.replicate (blanks + 1) 32) = (false, digits n ++ List.replicate (blanks + 1) 32) := by
    rw [hds, List.cons_append]
    unfold sign
    split
    · rename_i heq
      exact absurd (List.cons.inj heq).1 hplain.2.1
    · rename_i heq
      exact absurd (List.cons.inj heq).1 hplain.2.2
    · rfl
  have htake : (digits n ++ List.replicate (blanks + 1) 32).takeWhile isdigit = digits n := by
    rw [List.takeWhile_append_of_pos isdigit_digits, List.replicate_succ, List.takeWhile_cons]
    have h32 : isdigit 32 = false := by decide
    rw [h32, if_neg Bool.false_ne_true, List.append_nil]
  show strtol _ = _
  unfold strtol
  dsimp only
  rw [hld, hspace, hsign]
  dsimp only
  rw [htake, digitsValue_digits, if_neg Bool.false_ne_true]
  omega

/-! ## The planes -/

structure StoredFits.Complete (s : StoredFits) : Prop where
  units : FITS_CHUNK_LENGTH ∣ s.header.length
  width : 0 ≤ s.fits.width
  height : 0 ≤ s.fits.height
  data : 4 * (s.fits.width.toNat * s.fits.height.toNat * s.fits.depth.toNat) ≤ s.data.length
  size : s.content.length < 2 ^ 63

def StoredFits.pixel (s : StoredFits) (x y frame : ℕ) : Bytes :=
  (s.data.drop (4 * (frame * (s.fits.width.toNat * s.fits.height.toNat) + (y * s.fits.width.toNat + x)))).take 4

def Box.Meets (b : Box) : Prop := b.x1 < b.x2 ∧ b.y1 < b.y2

/-! ## Sizes without overflow -/

theorem side_eq {a b : ℤ} (ha : 0 ≤ a) (hab : a < b) (hb : b < 2 ^ 31) : side a b = (b - a).toNat := by
  unfold side size_t
  rw [int_eq (n := b - a) (by omega) (by omega), abs_of_nonneg (by omega), int_eq (by omega) (by omega)]
  omega

theorem partial_width_eq {b : Box} (hmeets : b.Meets) : b.partial_width = (b.x2 - b.x1).toNat :=
  side_eq b.x1_nonneg hmeets.1 b.x2_lt

theorem partial_height_eq {b : Box} (hmeets : b.Meets) : b.partial_height = (b.y2 - b.y1).toNat :=
  side_eq b.y1_nonneg hmeets.2 b.y2_lt

theorem sides_lt {b : Box} (hmeets : b.Meets) : b.partial_width < 2 ^ 31 ∧ b.partial_height < 2 ^ 31 := by
  have hx1 := b.x1_nonneg
  have hx2 := b.x2_lt
  have hy1 := b.y1_nonneg
  have hy2 := b.y2_lt
  rw [partial_width_eq hmeets, partial_height_eq hmeets]
  omega

theorem partial_size_eq {b : Box} (hmeets : b.Meets) : b.partial_size = b.partial_height * b.partial_width := by
  obtain ⟨hwidth, hheight⟩ := sides_lt hmeets
  have hmul : b.partial_height * b.partial_width ≤ 2 ^ 31 * 2 ^ 31 := Nat.mul_le_mul hheight.le hwidth.le
  exact Nat.mod_eq_of_lt (by omega)

theorem partial_depth_eq {b : Box} (hle : b.start ≤ b.stop) (hlength : b.stop - b.start + 1 < 2 ^ 31) :
    b.partial_depth = b.stop - b.start + 1 := by
  unfold Box.partial_depth size_t
  rw [int_eq (by omega) (by omega)]
  omega

theorem start_le_stop (f : FitsHeader) (r : CutOutRequest) : (f.box r).start ≤ (f.box r).stop := by
  show (min r.start.toInt r.stop.toInt).toNat ≤ (max r.start.toInt r.stop.toInt).toNat
  omega

theorem copyTo_all (b : Box) (dest : Dest) {pixels : List UInt32} (h : pixels.length = b.partial_size) :
    b.chunk (copyTo dest pixels) = pixels.flatMap bytesOf := by
  have hmap : (List.range b.partial_size).map (copyTo dest pixels) = pixels := by
    apply List.ext_getElem
    · rw [List.length_map, List.length_range, h]
    · intro i hi hi'
      rw [List.getElem_map, List.getElem_range]
      unfold copyTo
      rw [List.getElem?_eq_getElem hi', Option.getD_some]
  unfold Box.chunk
  rw [hmap]

def FitsHeader.sendFrames (f : FitsHeader) (b : Box) (plane : ℕ → Option Bytes) : List ℕ → Dest → Bytes × Bool
  | [], _ => ([], true)
  | frame :: frames, dest =>
    match plane frame with
    | none => ([], false)
    | some plane_bytes =>
      let r := f.sendFrames b plane frames (copyTo dest (f.boxPixels b plane_bytes))
      (b.chunk (copyTo dest (f.boxPixels b plane_bytes)) ++ r.1, r.2)

/-- When every plane is read and the box fills `dest_buf`, its pixels are sent plane by plane. -/
theorem sendFrames_all {f : FitsHeader} {b : Box} {read : ℕ → Option Bytes} {plane : ℕ → Bytes} {frames : List ℕ}
    (hread : ∀ k ∈ frames, read k = some (plane k)) (hlen : ∀ k, (f.boxPixels b (plane k)).length = b.partial_size)
    (dest : Dest) :
    f.sendFrames b read frames dest = (frames.flatMap fun k => (f.boxPixels b (plane k)).flatMap bytesOf, true) := by
  induction frames generalizing dest with
  | nil => rfl
  | cons k frames ih =>
    rw [FitsHeader.sendFrames, hread k List.mem_cons_self]
    dsimp only
    rw [ih fun k hk => hread k (List.mem_cons_of_mem _ hk), copyTo_all b dest (hlen k), List.flatMap_cons]

/-! ## Reading a plane -/

def Storage.limit : Storage → ℕ
  | .plain => MAX_RW_COUNT
  | .gzipped => 2 ^ 31 - 1

def StoredFits.frameOffset (s : StoredFits) (b : Box) : Storage → ℕ → ℕ
  | .plain, frame => s.header.length + s.fits.frameSize * frame
  | .gzipped, frame => s.header.length + b.start * s.fits.planeSize + s.fits.frameSize * (frame - b.start)

/-- The bytes from `offset` on, if there are as many and one read takes them. -/
def readAt (limit : ℕ) (content : Bytes) (offset count : ℕ) : Option Bytes :=
  if count ≤ limit ∧ count ≤ content.length - offset then some ((content.drop offset).take count) else none

def StoredFits.framePlane (s : StoredFits) (b : Box) (storage : Storage) (frame : ℕ) : Option Bytes :=
  readAt storage.limit s.content (s.frameOffset b storage frame) s.fits.frameSize

theorem sendPlanes_pread (s : StoredFits) (b : Box) (frames : List ℕ) (dest : Dest) :
    s.fits.sendPlanes b s.preadFrame frames () dest = s.fits.sendFrames b (s.framePlane b .plain) frames dest := by
  induction frames generalizing dest with
  | nil => rfl
  | cons frame frames ih =>
    have hfull := @pread_full s.content s.fits.frameSize (s.frameOffset b .plain frame)
    have hread : s.preadFrame () frame = (some (pread s.content s.fits.frameSize (s.frameOffset b .plain frame)), ()) := rfl
    rw [FitsHeader.sendPlanes, FitsHeader.sendFrames, hread]
    dsimp only
    unfold StoredFits.framePlane readAt Storage.limit
    by_cases hlen : (pread s.content s.fits.frameSize (s.frameOffset b .plain frame)).length = s.fits.frameSize
    · have hthere := hfull.mp hlen
      rw [if_pos hthere, if_neg (not_not.mpr hlen)]
      dsimp only
      rw [pread_eq hthere.1, ih]
      rfl
    · rw [if_neg fun hthere => hlen (hfull.mpr hthere), if_pos hlen]

theorem sendPlanes_gzread (s : StoredFits) (z : Zlib) (b : Box) (n k : ℕ) (hk : b.start ≤ k) (dest : Dest) :
    s.fits.sendPlanes b (s.gzreadFrame z) (List.range' k n) ⟨s.content.drop (s.frameOffset b .gzipped k), false⟩ dest =
      s.fits.sendFrames b (s.framePlane b .gzipped) (List.range' k n) dest := by
  induction n generalizing k dest with
  | zero => rfl
  | succ n ih =>
    have hnext : s.frameOffset b .gzipped (k + 1) = s.frameOffset b .gzipped k + s.fits.frameSize := by
      have hstep : k + 1 - b.start = k - b.start + 1 := by omega
      unfold StoredFits.frameOffset
      dsimp only
      rw [hstep, Nat.mul_succ]
      omega
    have hih := ih (k + 1) (by omega)
    rw [hnext, ← List.drop_drop] at hih
    rw [List.range'_succ, FitsHeader.sendPlanes, FitsHeader.sendFrames]
    unfold StoredFits.framePlane readAt Storage.limit
    by_cases hthere : s.fits.frameSize ≤ 2 ^ 31 - 1 ∧ s.fits.frameSize ≤ s.content.length - s.frameOffset b .gzipped k
    · have hread : s.gzreadFrame z ⟨s.content.drop (s.frameOffset b .gzipped k), false⟩ k =
          (some ((s.content.drop (s.frameOffset b .gzipped k)).take s.fits.frameSize),
            ⟨(s.content.drop (s.frameOffset b .gzipped k)).drop s.fits.frameSize, false⟩) := by
        unfold StoredFits.gzreadFrame
        rw [Nat.mod_eq_of_lt (by omega)]
        exact z.whole rfl (by omega) (by rw [List.length_drop]; exact hthere.2)
      rw [if_pos hthere, hread]
      dsimp only
      rw [if_neg, hih]
      · rfl
      · rw [List.length_take, List.length_drop]
        omega
    · rw [if_neg hthere]
      cases hread : (s.gzreadFrame z ⟨s.content.drop (s.frameOffset b .gzipped k), false⟩ k).1 with
      | none => rfl
      | some bytes =>
        dsimp only
        rw [if_pos]
        unfold StoredFits.gzreadFrame at hread
        intro hlen
        rcases Nat.lt_or_ge s.fits.frameSize (2 ^ 31) with hsmall | hlong
        · rw [Nat.mod_eq_of_lt (by omega)] at hread
          have hall := (z.gzread_full hread hlen).1
          rw [List.length_drop] at hall
          exact hthere ⟨by omega, hall⟩
        · exact z.gzread_short hlong hread hlen

/-- Both loops, by what is read of each frame. -/
theorem sendFile_eq (s : StoredFits) (env : CutOutEnv) (b : Box) (dest : Dest) (storage : Storage) :
    s.sendFile env b dest storage = s.fits.sendFrames b (s.framePlane b storage) b.frames dest := by
  cases storage with
  | plain => exact sendPlanes_pread s b b.frames dest
  | gzipped =>
    have hstart : s.gzseek b = ⟨s.content.drop (s.frameOffset b .gzipped b.start), false⟩ := by
      unfold StoredFits.gzseek StoredFits.frameOffset
      dsimp only
      rw [Nat.sub_self, Nat.mul_zero, Nat.add_zero]
    unfold StoredFits.sendFile
    rw [hstart]
    exact sendPlanes_gzread s env.zlib b _ b.start (Nat.le_refl _) dest

theorem length_flatMap_const {α β : Type} {l : List α} {g : α → List β} {n : ℕ} (h : ∀ a ∈ l, (g a).length = n) :
    (l.flatMap g).length = l.length * n := by
  induction l with
  | nil => rw [List.flatMap_nil, List.length_nil, List.length_nil, Nat.zero_mul]
  | cons a l ih =>
    rw [List.flatMap_cons, List.length_append, h a List.mem_cons_self, ih fun a ha => h a (List.mem_cons_of_mem _ ha),
      List.length_cons, Nat.succ_mul, Nat.add_comm]

section Meets

variable {s : StoredFits} {r : CutOutRequest}

theorem box_small (hmeets : (s.fits.box r).Meets) (hlength : (s.fits.box r).stop - (s.fits.box r).start + 1 < 2 ^ 31) :
    (s.fits.box r).Small := by
  obtain ⟨hwidth, hheight⟩ := sides_lt hmeets
  have hle : (s.fits.box r).start ≤ (s.fits.box r).stop := start_le_stop s.fits r
  refine ⟨by omega, by omega, ?_⟩
  rw [partial_depth_eq hle hlength]
  omega

/-- The frames of a request that is accepted are frames of the cube. -/
theorem stop_lt_depth {f : FitsHeader} {hdr_len : ℕ} (h : f.rejects hdr_len r = false) :
    f.bitpix = -32 ∧ (f.box r).start ≤ (f.box r).stop ∧ (f.box r).stop < f.depth.toNat := by
  unfold FitsHeader.rejects at h
  simp only [Bool.or_eq_false_iff, decide_eq_false_iff_not, not_not, Int.not_lt] at h
  obtain ⟨⟨⟨⟨⟨hbitpix, -⟩, hstop0⟩, hstart0⟩, hstop⟩, hstart⟩ := h
  refine ⟨hbitpix, ?_, ?_⟩
  · show (min r.start.toInt r.stop.toInt).toNat ≤ (max r.start.toInt r.stop.toInt).toNat
    omega
  · show (max r.start.toInt r.stop.toInt).toNat < _
    omega

theorem sampleSize_eq {f : FitsHeader} (h : f.bitpix = -32) : f.sampleSize = 4 := by
  unfold FitsHeader.sampleSize
  rw [h]
  rfl

/-- The planes of a complete cube with a frame are counted without overflow. -/
theorem planeSize_eq (hs : s.Complete) (hdepth : 0 < s.fits.depth.toNat) :
    s.fits.planeSize = s.fits.width.toNat * s.fits.height.toNat := by
  have hdata := hs.data
  have hsize := hs.size
  have hlen : s.content.length = s.header.length + s.data.length := List.length_append
  have hle : s.fits.width.toNat * s.fits.height.toNat ≤ s.fits.width.toNat * s.fits.height.toNat * s.fits.depth.toNat :=
    Nat.le_mul_of_pos_right _ hdepth
  have hcast : s.fits.width * s.fits.height = ((s.fits.width.toNat * s.fits.height.toNat : ℕ) : ℤ) := by
    rw [Nat.cast_mul, Int.toNat_of_nonneg hs.width, Int.toNat_of_nonneg hs.height]
  unfold FitsHeader.planeSize size_t
  rw [hcast]
  omega

theorem rows_eq {b : Box} (hmeets : b.Meets) : rows b = (List.range b.partial_height).map (b.y1.toNat + ·) := by
  unfold rows
  rw [List.range'_eq_map_range, partial_height_eq hmeets]

theorem columns_eq {b : Box} (hmeets : b.Meets) : columns b = (List.range b.partial_width).map (b.x1.toNat + ·) := by
  unfold columns
  rw [List.range'_eq_map_range, partial_width_eq hmeets]

/-- A box that meets the image fills `dest_buf`. -/
theorem boxPixels_length {b : Box} (hmeets : b.Meets) (f : FitsHeader) (plane : Bytes) :
    (f.boxPixels b plane).length = b.partial_size := by
  have hrow : ∀ y ∈ rows b, ((columns b).map fun x => wordOf (plane.drop (4 * (y * f.width.toNat + x)))).length =
      b.partial_width := by
    intro y _
    rw [List.length_map, columns_eq hmeets, List.length_map, List.length_range]
  unfold FitsHeader.boxPixels
  rw [length_flatMap_const hrow, rows_eq hmeets, List.length_map, List.length_range, partial_size_eq hmeets]

/-- A box is clipped to the image. -/
theorem box_clipped {f : FitsHeader} (hwidth : 0 ≤ f.width) (hheight : 0 ≤ f.height) (r : CutOutRequest) :
    (f.box r).x2 ≤ f.width ∧ (f.box r).y2 ≤ f.height := by
  have hclip : ∀ {size : ℤ} {a b : Int32}, 0 ≤ size → int (min size (max a.toInt b.toInt)) ≤ size := by
    intro size a b hsize
    have ha := a.toInt_lt
    have hb := b.toInt_lt
    have ha' := a.le_toInt
    rw [int_eq (by omega) (by omega)]
    exact min_le_left _ _
  exact ⟨hclip hwidth, hclip hheight⟩

/-- The box, when it meets the image, lies in it. -/
theorem box_in_image (hs : s.Complete) (hmeets : (s.fits.box r).Meets) :
    (∀ x ∈ columns (s.fits.box r), x < s.fits.width.toNat) ∧ (∀ y ∈ rows (s.fits.box r), y < s.fits.height.toNat) := by
  obtain ⟨hx, hy⟩ := hmeets
  obtain ⟨hx2, hy2⟩ := box_clipped hs.width hs.height r
  have hx1 := (s.fits.box r).x1_nonneg
  have hy1 := (s.fits.box r).y1_nonneg
  refine ⟨?_, ?_⟩
  · intro x hmem
    unfold columns at hmem
    rw [List.mem_range'_1] at hmem
    omega
  · intro y hmem
    unfold rows at hmem
    rw [List.mem_range'_1] at hmem
    omega

/-- A pixel of a plane that was read is a pixel of the file. -/
theorem pixel_of_plane (s : StoredFits) {x y frame : ℕ} (hx : x < s.fits.width.toNat) (hy : y < s.fits.height.toNat)
    (hroom : s.header.length + 4 * (s.fits.width.toNat * s.fits.height.toNat) * (frame + 1) ≤ s.content.length) :
    bytesOf (wordOf (((s.content.drop (s.header.length + 4 * (s.fits.width.toNat * s.fits.height.toNat) * frame)).take
      (4 * (s.fits.width.toNat * s.fits.height.toNat))).drop (4 * (y * s.fits.width.toNat + x)))) = s.pixel x y frame := by
  have hpos : y * s.fits.width.toNat + x < s.fits.width.toNat * s.fits.height.toNat := Lib.Rows.place_lt hy hx
  rw [Nat.mul_succ] at hroom
  have hdata : s.content.drop (s.header.length + 4 * (s.fits.width.toNat * s.fits.height.toNat) * frame) =
      s.data.drop (4 * (s.fits.width.toNat * s.fits.height.toNat) * frame) := by
    unfold StoredFits.content
    rw [← List.drop_drop, List.drop_left]
  have hlen : (s.data.drop (4 * (s.fits.width.toNat * s.fits.height.toNat) * frame)).length =
      s.content.length - (s.header.length + 4 * (s.fits.width.toNat * s.fits.height.toNat) * frame) := by
    rw [← hdata, List.length_drop]
  have hplace : 4 * (s.fits.width.toNat * s.fits.height.toNat) * frame + 4 * (y * s.fits.width.toNat + x) =
      4 * (frame * (s.fits.width.toNat * s.fits.height.toNat) + (y * s.fits.width.toNat + x)) := by ring
  unfold StoredFits.pixel
  rw [hdata, List.drop_take, List.drop_drop, bytesOf_wordOf, List.take_take, hplace]
  · congr 1
    omega
  · rw [List.length_take, ← List.drop_drop, List.length_drop, hlen]
    omega

/-- The pixels that are sent for a plane. -/
theorem boxPixels_eq (hs : s.Complete) (hmeets : (s.fits.box r).Meets) {frame : ℕ}
    (hroom : s.header.length + 4 * (s.fits.width.toNat * s.fits.height.toNat) * (frame + 1) ≤ s.content.length) :
    (s.fits.boxPixels (s.fits.box r) ((s.content.drop (s.header.length +
      4 * (s.fits.width.toNat * s.fits.height.toNat) * frame)).take (4 * (s.fits.width.toNat * s.fits.height.toNat)))).flatMap
        bytesOf = (rows (s.fits.box r)).flatMap fun y => (columns (s.fits.box r)).flatMap fun x => s.pixel x y frame := by
  obtain ⟨hcolumn, hrow⟩ := box_in_image hs hmeets
  unfold FitsHeader.boxPixels
  rw [List.flatMap_assoc]
  apply List.flatMap_congr
  intro y hy
  rw [List.flatMap_map]
  apply List.flatMap_congr
  intro x hx
  exact pixel_of_plane s (hcolumn x hx) (hrow y hy) hroom

end Meets

/-! ## The cut-out -/

/-- The pixels (x1+i, y1+j, start+k), in i, j, k order. -/
def StoredFits.boxBytes (s : StoredFits) (b : Box) : Bytes :=
  (List.range b.partial_depth).flatMap fun k => (List.range b.partial_height).flatMap fun j =>
    (List.range b.partial_width).flatMap fun i => s.pixel (b.x1.toNat + i) (b.y1.toNat + j) (b.start + k)

def card (header : Bytes) (i : ℕ) : Bytes := (header.drop (FITS_LINE_LENGTH * i)).take FITS_LINE_LENGTH

/-- What is sent of a header: `sizes` are read back, and `references` are printed from the
    difference in single precision. -/
structure CutOutHeader (b : Box) (header sent : Bytes) : Prop where
  length : sent.length = header.length
  cards : ∀ i < header.length / FITS_LINE_LENGTH, (card sent i).length = FITS_LINE_LENGTH ∧
    card sent i = cutOutCard b (header.drop (FITS_LINE_LENGTH * i))
  sizes : ∀ i < header.length / FITS_LINE_LENGTH, ∀ c ∈ [(lit "NAXIS1  = ", b.partial_width),
    (lit "NAXIS2  = ", b.partial_height), (lit "NAXIS3  = ", b.partial_depth)],
      hasKey (header.drop (FITS_LINE_LENGTH * i)) c.1 = true → hdrGetLongValue ((card sent i).drop 10) = c.2
  references : ∀ i < header.length / FITS_LINE_LENGTH, ∀ c ∈ [(lit "CRPIX1  = ", b.x1), (lit "CRPIX2  = ", b.y1),
    (lit "CRPIX3  = ", (b.start : ℤ))], hasKey (header.drop (FITS_LINE_LENGTH * i)) c.1 = true →
      ∃ blanks, (card sent i).drop 10 = E (crpixFrom (header.drop (FITS_LINE_LENGTH * i)) c.2) ++ List.replicate blanks 32

theorem cutOutText_size {b : Box} {line : Bytes} {c : Bytes × ℕ} (hc : c ∈ [(lit "NAXIS1  = ", b.partial_width),
    (lit "NAXIS2  = ", b.partial_height), (lit "NAXIS3  = ", b.partial_depth)]) (hkey : hasKey line c.1 = true) :
    cutOutText b line = some (ld (long c.2)) := by
  have htake : line.take 10 = c.1 := eq_of_beq hkey
  simp only [List.mem_cons, List.not_mem_nil, or_false] at hc
  unfold cutOutText hasKey
  rcases hc with rfl | rfl | rfl
  all_goals
    rw [htake]
    rfl

theorem cutOutText_reference {b : Box} {line : Bytes} {c : Bytes × ℤ} (hc : c ∈ [(lit "CRPIX1  = ", b.x1),
    (lit "CRPIX2  = ", b.y1), (lit "CRPIX3  = ", (b.start : ℤ))]) (hkey : hasKey line c.1 = true) :
    cutOutText b line = some (E (crpixFrom line c.2)) := by
  have htake : line.take 10 = c.1 := eq_of_beq hkey
  simp only [List.mem_cons, List.not_mem_nil, or_false] at hc
  unfold cutOutText hasKey
  rcases hc with rfl | rfl | rfl
  all_goals
    rw [htake]
    rfl

/-- The text of a card that is rewritten. -/
theorem cutOutCard_text {b : Box} {line text : Bytes} (h : 10 ≤ line.length) (htext : cutOutText b line = some text) :
    (cutOutCard b line).drop 10 = text ++ List.replicate (FITS_LINE_LENGTH - 10 - text.length) 32 := by
  have hlen : (line.take 10).length = 10 := by
    rw [List.length_take]
    omega
  unfold cutOutCard
  rw [htext]
  dsimp only
  rw [List.append_assoc]
  exact List.drop_left' hlen

theorem rewriteHeader_spec {b : Box} (hb : b.Small) {header : Bytes} (h : FITS_CHUNK_LENGTH ∣ header.length) :
    CutOutHeader b header (rewriteHeader b header) := by
  have h80 : FITS_LINE_LENGTH = 80 := rfl
  have hcount : header.length / FITS_CHUNK_LENGTH * (FITS_CHUNK_LENGTH / FITS_LINE_LENGTH) = header.length / FITS_LINE_LENGTH := by
    obtain ⟨units, hunits⟩ := h
    rw [hunits, Nat.mul_div_cancel_left _ (by decide)]
    show units * 36 = 2880 * units / 80
    omega
  obtain ⟨hlength, hcards⟩ := rewriteCards_spec hb (header.length / FITS_LINE_LENGTH) header (Nat.mul_div_le _ _)
  have hline : ∀ i < header.length / FITS_LINE_LENGTH, FITS_LINE_LENGTH ≤ (header.drop (FITS_LINE_LENGTH * i)).length := by
    intro i hi
    have hend : (i + 1) * FITS_LINE_LENGTH ≤ header.length := (Nat.le_div_iff_mul_le (by decide)).mp hi
    rw [Nat.succ_mul, Nat.mul_comm] at hend
    rw [List.length_drop]
    omega
  unfold rewriteHeader
  rw [hcount]
  refine ⟨hlength, ?_, ?_, ?_⟩
  · intro i hi
    refine ⟨?_, hcards i hi⟩
    unfold card
    rw [hcards i hi]
    exact (rewriteCard_split hb (hline i hi)).1
  · intro i hi c hc hkey
    have htext := cutOutText_size hc hkey
    have hlen := cutOutText_length hb htext
    have hsmall : c.2 < 10 ^ 10 := by
      simp only [List.mem_cons, List.not_mem_nil, or_false] at hc
      rcases hc with rfl | rfl | rfl
      · exact hb.width
      · exact hb.height
      · exact hb.depth
    have hblanks : FITS_LINE_LENGTH - 10 - (ld (long c.2)).length =
        FITS_LINE_LENGTH - 10 - (ld (long c.2)).length - 1 + 1 := by omega
    unfold card
    rw [hcards i hi, cutOutCard_text (by have := hline i hi; omega) htext, hblanks]
    exact read_ld hsmall _
  · intro i hi c hc hkey
    unfold card
    rw [hcards i hi, cutOutCard_text (by have := hline i hi; omega) (cutOutText_reference hc hkey)]
    exact ⟨_, rfl⟩

section Meets

variable {s : StoredFits} {r : CutOutRequest}

/-- What reading and sending a cut-out takes: planes that one read transfers, memory for one
    and for the box, and a number of frames that fits an `int`. -/
structure CutOutEnv.Serves (env : CutOutEnv) (s : StoredFits) (r : CutOutRequest) : Prop where
  plane : s.fits.frameSize ≤ MAX_RW_COUNT
  pixels : env.pixels.gives s.fits.planeSize = true
  dest : env.dest.gives (s.fits.box r).partial_size = true
  length : (s.fits.box r).stop - (s.fits.box r).start + 1 < 2 ^ 31

variable {env : CutOutEnv}

/-- All the planes are read, and give the box's pixels. -/
theorem sendFile_box (hs : s.Complete) (hr : s.fits.rejects s.header.length r = false) (hmeets : (s.fits.box r).Meets)
    (henv : env.Serves s r) (dest : Dest) :
    s.sendFile env (s.fits.box r) dest .plain = (s.boxBytes (s.fits.box r), true) := by
  obtain ⟨hbitpix, hle, hstop⟩ := stop_lt_depth hr
  have hdepth := partial_depth_eq hle henv.length
  have hplane := planeSize_eq hs (by omega)
  have hframe : s.fits.frameSize = 4 * (s.fits.width.toNat * s.fits.height.toNat) := by
    unfold FitsHeader.frameSize
    rw [hplane, sampleSize_eq hbitpix, Nat.mul_comm]
  have hframes : (s.fits.box r).frames = List.range' (s.fits.box r).start (s.fits.box r).partial_depth := by
    rw [hdepth]
    rfl
  have hroom : ∀ k ∈ List.range' (s.fits.box r).start (s.fits.box r).partial_depth,
      s.header.length + 4 * (s.fits.width.toNat * s.fits.height.toNat) * (k + 1) ≤ s.content.length := by
    intro k hk
    rw [List.mem_range'_1, hdepth] at hk
    have hdata := hs.data
    have hmul : s.fits.width.toNat * s.fits.height.toNat * (k + 1) ≤ s.fits.width.toNat * s.fits.height.toNat * s.fits.depth.toNat :=
      Nat.mul_le_mul_left _ (by omega)
    have hlen : s.content.length = s.header.length + s.data.length := List.length_append
    rw [hlen, Nat.mul_assoc]
    omega
  have hread : ∀ k ∈ List.range' (s.fits.box r).start (s.fits.box r).partial_depth,
      s.framePlane (s.fits.box r) .plain k = some ((s.content.drop (s.header.length +
        4 * (s.fits.width.toNat * s.fits.height.toNat) * k)).take (4 * (s.fits.width.toNat * s.fits.height.toNat))) := by
    intro k hk
    have hk' := hroom k hk
    have hone := henv.plane
    rw [Nat.mul_succ] at hk'
    rw [hframe] at hone
    unfold StoredFits.framePlane readAt StoredFits.frameOffset Storage.limit
    dsimp only
    rw [hframe, if_pos]
    exact ⟨hone, by omega⟩
  rw [sendFile_eq, hframes, sendFrames_all hread fun k => boxPixels_length hmeets _ _]
  congr 1
  unfold StoredFits.boxBytes
  rw [List.range'_eq_map_range, List.flatMap_map]
  apply List.flatMap_congr
  intro k hk
  rw [boxPixels_eq hs hmeets (hroom _ (by rw [List.range'_eq_map_range]; exact List.mem_map_of_mem hk))]
  rw [rows_eq hmeets, columns_eq hmeets, List.flatMap_map]
  apply List.flatMap_congr
  intro y _
  rw [List.flatMap_map]

/-- What is sent of the box is a part of the data. -/
theorem partialDataSize_eq (hs : s.Complete) (hr : s.fits.rejects s.header.length r = false) (hmeets : (s.fits.box r).Meets)
    (hlength : (s.fits.box r).stop - (s.fits.box r).start + 1 < 2 ^ 31) :
    s.fits.partialDataSize (s.fits.box r) = (s.fits.box r).partial_height * (s.fits.box r).partial_width *
      (s.fits.box r).partial_depth * 4 ∧ s.header.length + s.fits.partialDataSize (s.fits.box r) ≤ s.content.length := by
  obtain ⟨hbitpix, hle, hstop⟩ := stop_lt_depth hr
  obtain ⟨hx2, hy2⟩ := box_clipped hs.width hs.height r
  have hx1 := (s.fits.box r).x1_nonneg
  have hy1 := (s.fits.box r).y1_nonneg
  have hdepth := partial_depth_eq hle hlength
  have hwide : (s.fits.box r).partial_width ≤ s.fits.width.toNat := by
    rw [partial_width_eq hmeets]
    omega
  have hhigh : (s.fits.box r).partial_height ≤ s.fits.height.toNat := by
    rw [partial_height_eq hmeets]
    omega
  have hmul : (s.fits.box r).partial_height * (s.fits.box r).partial_width * (s.fits.box r).partial_depth ≤
      s.fits.height.toNat * s.fits.width.toNat * s.fits.depth.toNat :=
    Nat.mul_le_mul (Nat.mul_le_mul hhigh hwide) (by omega)
  have hdata := hs.data
  have hsize := hs.size
  have hlen : s.content.length = s.header.length + s.data.length := List.length_append
  rw [Nat.mul_comm s.fits.width.toNat] at hdata
  unfold FitsHeader.partialDataSize
  rw [sampleSize_eq hbitpix, Nat.mod_eq_of_lt (by omega)]
  exact ⟨rfl, by omega⟩

theorem boxBytes_length (hs : s.Complete) (hr : s.fits.rejects s.header.length r = false) (hmeets : (s.fits.box r).Meets)
    (hlength : (s.fits.box r).stop - (s.fits.box r).start + 1 < 2 ^ 31) :
    (s.boxBytes (s.fits.box r)).length = s.fits.partialDataSize (s.fits.box r) := by
  obtain ⟨-, hle, hstop⟩ := stop_lt_depth hr
  have hpixel : ∀ k ∈ List.range (s.fits.box r).partial_depth, ∀ j ∈ List.range (s.fits.box r).partial_height,
      ∀ i ∈ List.range (s.fits.box r).partial_width,
        (s.pixel ((s.fits.box r).x1.toNat + i) ((s.fits.box r).y1.toNat + j) ((s.fits.box r).start + k)).length = 4 := by
    intro k hk j hj i hi
    obtain ⟨hcolumn, hrow⟩ := box_in_image hs hmeets
    have hx := hcolumn ((s.fits.box r).x1.toNat + i) (by rw [columns_eq hmeets]; exact List.mem_map_of_mem hi)
    have hy := hrow ((s.fits.box r).y1.toNat + j) (by rw [rows_eq hmeets]; exact List.mem_map_of_mem hj)
    rw [List.mem_range, partial_depth_eq hle hlength] at hk
    have hframe : ((s.fits.box r).start + k + 1) * (s.fits.width.toNat * s.fits.height.toNat) ≤
        s.fits.depth.toNat * (s.fits.width.toNat * s.fits.height.toNat) := Nat.mul_le_mul_right _ (by omega)
    have hplace : ((s.fits.box r).y1.toNat + j) * s.fits.width.toNat + ((s.fits.box r).x1.toNat + i) <
        s.fits.width.toNat * s.fits.height.toNat := Lib.Rows.place_lt hy hx
    have hdata := hs.data
    rw [Nat.succ_mul] at hframe
    rw [Nat.mul_comm _ s.fits.depth.toNat] at hdata
    unfold StoredFits.pixel
    rw [List.length_take, List.length_drop]
    omega
  rw [(partialDataSize_eq hs hr hmeets hlength).1]
  unfold StoredFits.boxBytes
  rw [length_flatMap_const fun k hk => length_flatMap_const fun j hj => length_flatMap_const (hpixel k hk j hj),
    List.length_range, List.length_range, List.length_range]
  ring

/-- Whole units, the last one perhaps in part. -/
theorem noUnits_bounds (n : ℕ) : n ≤ noUnits n * FITS_CHUNK_LENGTH ∧ noUnits n * FITS_CHUNK_LENGTH < n + FITS_CHUNK_LENGTH := by
  have h2880 : FITS_CHUNK_LENGTH = 2880 := rfl
  unfold noUnits
  rw [h2880]
  split <;> omega

/-- The cut-out from a complete plain file, for a box that meets the image: the header, the
    box's pixels, and zeros up to the advertised length, a whole number of units. -/
theorem cut_out_file (hs : s.Complete) (hr : s.fits.rejects s.header.length r = false) (hmeets : (s.fits.box r).Meets)
    (henv : env.Serves s r) (dest : Dest) : ∃ header padding,
      (streamPartialFits env dest s .plain r).body =
        header ++ s.boxBytes (s.fits.box r) ++ List.replicate padding 0 ∧
      CutOutHeader (s.fits.box r) s.header header ∧ padding < FITS_CHUNK_LENGTH ∧
      (streamPartialFits env dest s .plain r).contentLength = some (streamPartialFits env dest s .plain r).body.length ∧
      FITS_CHUNK_LENGTH ∣ (streamPartialFits env dest s .plain r).body.length := by
  have hheader := rewriteHeader_spec (box_small hmeets henv.length) hs.units
  have hbox := boxBytes_length hs hr hmeets henv.length
  have hmemory : ¬ (env.pixels.gives s.fits.planeSize = false ∨ env.dest.gives (s.fits.box r).partial_size = false) := by
    rw [henv.pixels, henv.dest]
    simp
  obtain ⟨hle, hlt⟩ := noUnits_bounds (s.fits.partialDataSize (s.fits.box r))
  have hrequired : s.fits.requiredMemory s.header.length (s.fits.box r) =
      s.header.length + noUnits (s.fits.partialDataSize (s.fits.box r)) * FITS_CHUNK_LENGTH := by
    have hroom := (partialDataSize_eq hs hr hmeets henv.length).2
    have hsize := hs.size
    have h2880 : FITS_CHUNK_LENGTH = 2880 := rfl
    exact Nat.mod_eq_of_lt (by omega)
  have hpadding : size_t (s.fits.requiredMemory s.header.length (s.fits.box r) -
      (s.header.length + s.fits.partialDataSize (s.fits.box r))) =
        noUnits (s.fits.partialDataSize (s.fits.box r)) * FITS_CHUNK_LENGTH - s.fits.partialDataSize (s.fits.box r) := by
    have h2880 : FITS_CHUNK_LENGTH = 2880 := rfl
    rw [hrequired]
    unfold size_t
    omega
  have hresponse : streamPartialFits env dest s .plain r = ⟨some (s.fits.requiredMemory s.header.length (s.fits.box r)),
      rewriteHeader (s.fits.box r) s.header ++ s.boxBytes (s.fits.box r) ++
        List.replicate (noUnits (s.fits.partialDataSize (s.fits.box r)) * FITS_CHUNK_LENGTH -
          s.fits.partialDataSize (s.fits.box r)) 0⟩ := by
    unfold streamPartialFits
    rw [hr, if_neg Bool.false_ne_true]
    dsimp only
    rw [if_neg hmemory, sendFile_box hs hr hmeets henv dest, hpadding]
    rfl
  have htotal : (streamPartialFits env dest s .plain r).body.length =
      s.header.length + noUnits (s.fits.partialDataSize (s.fits.box r)) * FITS_CHUNK_LENGTH := by
    rw [hresponse, List.length_append, List.length_append, List.length_replicate, hheader.length, hbox]
    omega
  refine ⟨rewriteHeader (s.fits.box r) s.header, _, congrArg Response.body hresponse, hheader, ?_, ?_, ?_⟩
  · omega
  · rw [htotal, hresponse, hrequired]
  · rw [htotal]
    exact Nat.dvd_add hs.units (Nat.dvd_mul_left _ _)

end Meets

/-! ## A reference pixel -/

/-- An image of two pixels whose reference pixel is given to seven decimals. -/
def referencePixel : StoredFits where
  fits := { FitsHeader.defaults [] [] with bitpix := -32, naxis := 2, width := 2, height := 1, crpix1 := 1 + 1 / 10 ^ 7 }
  header := lit "CRPIX1  = 1.0000001" ++ List.replicate 2861 32
  data := List.replicate 8 0

def secondPixel : CutOutRequest := ⟨1, 2, 0, 1, 0, 0⟩

theorem referencePixel_complete : referencePixel.Complete :=
  ⟨by decide +kernel, by decide +kernel, by decide +kernel, by decide +kernel, by decide +kernel⟩

theorem secondPixel_accepted : referencePixel.fits.rejects referencePixel.header.length secondPixel = false := by decide +kernel

theorem secondPixel_meets : (referencePixel.fits.box secondPixel).Meets := by
  unfold Box.Meets
  decide +kernel

def plentyEnv : CutOutEnv := ⟨exactZlib, .plenty 4, .plenty 4⟩

theorem secondPixel_serves : plentyEnv.Serves referencePixel secondPixel :=
  ⟨by decide +kernel, by decide +kernel, by decide +kernel, by decide +kernel⟩

theorem cut_out_file_second_pixel :
    (referencePixel.Complete ∧ referencePixel.fits.rejects referencePixel.header.length secondPixel = false ∧
      (referencePixel.fits.box secondPixel).Meets ∧ plentyEnv.Serves referencePixel secondPixel) ∧
    ∃ header padding, (streamPartialFits plentyEnv (fun _ => 0) referencePixel .plain secondPixel).body =
        header ++ referencePixel.boxBytes (referencePixel.fits.box secondPixel) ++ List.replicate padding 0 ∧
      CutOutHeader (referencePixel.fits.box secondPixel) referencePixel.header header ∧ padding < FITS_CHUNK_LENGTH ∧
      (streamPartialFits plentyEnv (fun _ => 0) referencePixel .plain secondPixel).contentLength =
        some (streamPartialFits plentyEnv (fun _ => 0) referencePixel .plain secondPixel).body.length ∧
      FITS_CHUNK_LENGTH ∣ (streamPartialFits plentyEnv (fun _ => 0) referencePixel .plain secondPixel).body.length :=
  ⟨⟨referencePixel_complete, secondPixel_accepted, secondPixel_meets, secondPixel_serves⟩,
    cut_out_file referencePixel_complete secondPixel_accepted secondPixel_meets secondPixel_serves _⟩

def ReferenceIsExact (s : StoredFits) (r : CutOutRequest) (sent : Bytes) : Prop :=
  ∀ i < s.header.length / FITS_LINE_LENGTH, hasKey (s.header.drop (FITS_LINE_LENGTH * i)) (lit "CRPIX1  = ") = true →
    ∃ blanks, (card sent i).drop 10 =
      E (.finite false (atof (s.header.drop (FITS_LINE_LENGTH * i + 10)) - (s.fits.box r).x1)) ++ List.replicate blanks 32

/-- The reference pixel 1.0000001, moved by one, is sent as 1.192093E-07 and not as
    1.000000E-07: the difference is taken in single precision. -/
theorem a_reference_pixel_in_single_precision :
    ¬ ∀ (s : StoredFits) (r : CutOutRequest), s.Complete → s.fits.rejects s.header.length r = false →
      (s.fits.box r).Meets → plentyEnv.Serves s r →
      ReferenceIsExact s r ((streamPartialFits plentyEnv (fun _ => 0) s .plain r).body.take s.header.length) := by
  intro h
  obtain ⟨blanks, heq⟩ := h referencePixel secondPixel referencePixel_complete secondPixel_accepted secondPixel_meets
    secondPixel_serves 0 (by decide +kernel) (by decide +kernel)
  have htake := congrArg (List.take 12) heq
  rw [List.take_append_of_le_length (by decide +kernel)] at htake
  revert htake
  decide +kernel

end FitsWebQL
