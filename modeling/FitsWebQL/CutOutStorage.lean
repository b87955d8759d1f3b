/-
  FitsWebQL.CutOutStorage — the same cut-out from a plain and from a gzipped file.

  Both paths copy and send alike and differ in where and how a plane is read. The gzipped
  path skips `start * plane_size` bytes behind the header, the plain one `start *
  frame_size`: the first counts pixels where the second counts bytes, so the two part as
  soon as the range does not begin with the first frame (`storages_agree_iff`,
  `the_second_frame_of_a_gzipped_file`). One `pread` transfers MAX_RW_COUNT bytes, one
  `gzread` less than 2^31: a plane between the two is had from the gzip only.

  A box that misses the image leaves what `dest_buf` held at first, which is sent. Where
  there is no memory for the box or for a plane, either path sends the header only.
-/

import FitsWebQL.CutOutFile

namespace FitsWebQL

open Lib.Binary Lib.FileReads Lib.Malloc Lib.Printf Lib.Wire

structure FitsHeader.Sized (f : FitsHeader) (hdr_len : ℕ) : Prop where
  width : 0 ≤ f.width
  height : 0 ≤ f.height
  size : hdr_len + 4 * (f.width.toNat * f.height.toNat * f.depth.toNat) < 2 ^ 63

def StoragesAgree (env : CutOutEnv) (f : FitsHeader) (header : Bytes) (r : CutOutRequest) : Prop :=
  ∀ (data : Bytes) (dest dest' : Dest), (streamPartialFits env dest ⟨f, header, data⟩ .plain r).body =
    (streamPartialFits env dest' ⟨f, header, data⟩ .gzipped r).body

def CutOutEnv.Refuses (env : CutOutEnv) (f : FitsHeader) (r : CutOutRequest) : Prop :=
  env.pixels.gives f.planeSize = false ∨ env.dest.gives (f.box r).partial_size = false

/-- Only the header is sent, or the box meets the image, the range begins with the first
    frame, and one `pread` transfers a plane. -/
def FitsHeader.FromTheFirst (env : CutOutEnv) (f : FitsHeader) (hdr_len : ℕ) (r : CutOutRequest) : Prop :=
  f.rejects hdr_len r = true ∨ env.Refuses f r ∨ 2 ^ 31 ≤ f.frameSize ∨
    (f.box r).Meets ∧ (f.box r).start = 0 ∧ f.frameSize ≤ MAX_RW_COUNT

/-! ## Requests that agree -/

variable {env : CutOutEnv} {s : StoredFits} {r : CutOutRequest}

/-- A request that is accepted, without memory for it. -/
theorem response_header (hr : ¬ s.fits.rejects s.header.length r = true) (hmemory : env.Refuses s.fits r) (dest : Dest)
    (storage : Storage) : streamPartialFits env dest s storage r =
      ⟨some (s.fits.requiredMemory s.header.length (s.fits.box r)), rewriteHeader (s.fits.box r) s.header⟩ := by
  unfold CutOutEnv.Refuses at hmemory
  unfold streamPartialFits
  rw [if_neg hr]
  dsimp only
  rw [if_pos hmemory]

/-- With memory for it. -/
theorem response_planes (hr : ¬ s.fits.rejects s.header.length r = true) (hmemory : ¬ env.Refuses s.fits r) (dest : Dest)
    (storage : Storage) : streamPartialFits env dest s storage r =
      let planes := s.fits.sendFrames (s.fits.box r) (s.framePlane (s.fits.box r) storage) (s.fits.box r).frames dest
      ⟨some (s.fits.requiredMemory s.header.length (s.fits.box r)), rewriteHeader (s.fits.box r) s.header ++ planes.1 ++
        if planes.2 then List.replicate (size_t (s.fits.requiredMemory s.header.length (s.fits.box r) -
          (s.header.length + s.fits.partialDataSize (s.fits.box r)))) 0 else []⟩ := by
  unfold CutOutEnv.Refuses at hmemory
  unfold streamPartialFits
  rw [if_neg hr]
  dsimp only
  rw [if_neg hmemory, sendFile_eq]

theorem boxFrames_eq (b : Box) : b.frames = b.start :: List.range' (b.start + 1) (b.stop - b.start) := List.range'_succ

/-- Without the first plane nothing is sent. -/
theorem sendFrames_none {f : FitsHeader} {b : Box} {plane : ℕ → Option Bytes} (h : plane b.start = none) (dest : Dest) :
    f.sendFrames b plane b.frames dest = ([], false) := by
  rw [boxFrames_eq, FitsHeader.sendFrames, h]

theorem sendFrames_some {f : FitsHeader} {b : Box} {plane : ℕ → Option Bytes} {bytes : Bytes} (h : plane b.start = some bytes)
    (dest : Dest) : ∃ rest, (f.sendFrames b plane b.frames dest).1 = b.chunk (copyTo dest (f.boxPixels b bytes)) ++ rest := by
  rw [boxFrames_eq, FitsHeader.sendFrames, h]
  exact ⟨_, rfl⟩

/-- A box that is filled leaves nothing of what the buffer held. -/
theorem sendFrames_dest {f : FitsHeader} {b : Box} (hlen : ∀ plane, (f.boxPixels b plane).length = b.partial_size)
    (read : ℕ → Option Bytes) (frames : List ℕ) (dest dest' : Dest) :
    f.sendFrames b read frames dest = f.sendFrames b read frames dest' := by
  induction frames generalizing dest dest' with
  | nil => rfl
  | cons frame frames ih =>
    rw [FitsHeader.sendFrames, FitsHeader.sendFrames]
    cases read frame with
    | none => rfl
    | some plane =>
      dsimp only
      rw [copyTo_all b dest (hlen plane), copyTo_all b dest' (hlen plane), ih]

/-- A plane that no read transfers. -/
theorem framePlane_long (h : 2 ^ 31 ≤ s.fits.frameSize) (b : Box) (storage : Storage) (frame : ℕ) :
    s.framePlane b storage frame = none := by
  have hlimit : storage.limit < 2 ^ 31 := by cases storage <;> decide
  unfold StoredFits.framePlane readAt
  rw [if_neg]
  omega

theorem agree_of_first {f : FitsHeader} {header : Bytes} (h : f.FromTheFirst env header.length r) :
    StoragesAgree env f header r := by
  intro data dest dest'
  by_cases hr : f.rejects header.length r = true
  · unfold streamPartialFits
    simp only [hr, if_true]
  by_cases hmemory : env.Refuses f r
  · have hheader := response_header (s := ⟨f, header, data⟩) hr hmemory
    rw [hheader, hheader]
  have hplanes : f.sendFrames (f.box r) (StoredFits.framePlane ⟨f, header, data⟩ (f.box r) .plain) (f.box r).frames dest =
      f.sendFrames (f.box r) (StoredFits.framePlane ⟨f, header, data⟩ (f.box r) .gzipped) (f.box r).frames dest' := by
    rcases h with h | h | hlong | ⟨hmeets, hstart, hplane⟩
    · exact absurd h hr
    · exact absurd h hmemory
    · rw [sendFrames_none (framePlane_long hlong _ _ _), sendFrames_none (framePlane_long hlong _ _ _)]
    · have hsame : StoredFits.framePlane ⟨f, header, data⟩ (f.box r) .plain =
          StoredFits.framePlane ⟨f, header, data⟩ (f.box r) .gzipped := by
        funext frame
        have hgzip : f.frameSize ≤ 2 ^ 31 - 1 := hplane.trans (by decide)
        unfold StoredFits.framePlane readAt StoredFits.frameOffset Storage.limit
        simp only [hstart, Nat.zero_mul, Nat.add_zero, Nat.sub_zero, hplane, hgzip, true_and]
      rw [hsame]
      exact sendFrames_dest (boxPixels_length hmeets f) _ _ _ _
  have hresponse := response_planes (s := ⟨f, header, data⟩) hr hmemory
  rw [hresponse, hresponse]
  dsimp only
  rw [hplanes]

/-! ## The first plane -/

/-- The bytes of the frame the range begins with, as they are read. -/
def StoredFits.firstPlane (s : StoredFits) (b : Box) (storage : Storage) : Bytes :=
  (s.content.drop (s.frameOffset b storage b.start)).take s.fits.frameSize

/-- A complete file has the first plane, either way. -/
theorem framePlane_first (hs : s.Complete) (hr : s.fits.rejects s.header.length r = false) {storage : Storage}
    (hlimit : s.fits.frameSize ≤ storage.limit) :
    s.framePlane (s.fits.box r) storage (s.fits.box r).start = some (s.firstPlane (s.fits.box r) storage) := by
  obtain ⟨hbitpix, hle, hstop⟩ := stop_lt_depth hr
  have hplane := planeSize_eq hs (by omega)
  have hframe : s.fits.frameSize = 4 * s.fits.planeSize := by
    unfold FitsHeader.frameSize
    rw [sampleSize_eq hbitpix, Nat.mul_comm]
  have hroom : s.frameOffset (s.fits.box r) storage (s.fits.box r).start + s.fits.frameSize ≤ s.content.length := by
    have hdata := hs.data
    have hlen : s.content.length = s.header.length + s.data.length := List.length_append
    have hmul : s.fits.planeSize * ((s.fits.box r).start + 1) ≤ s.fits.planeSize * s.fits.depth.toNat :=
      Nat.mul_le_mul_left _ (by omega)
    rw [← hplane] at hdata
    rw [Nat.mul_succ] at hmul
    unfold StoredFits.frameOffset
    cases storage with
    | plain =>
      dsimp only
      rw [hframe, hlen, Nat.mul_assoc]
      omega
    | gzipped =>
      dsimp only
      rw [hframe, hlen, Nat.sub_self, Nat.mul_zero, Nat.mul_comm (s.fits.box r).start]
      omega
  unfold StoredFits.framePlane readAt
  rw [if_pos ⟨hlimit, by omega⟩]
  rfl

theorem not_refuses (hmemory : ¬ env.Refuses s.fits r) : 0 < (s.fits.box r).partial_size := by
  rcases Nat.eq_zero_or_pos (s.fits.box r).partial_size with hzero | hpos
  · refine absurd (Or.inr ?_) hmemory
    rw [hzero]
    exact env.dest.nothing
  · exact hpos

/-- Behind the header the pixels of the first plane are sent. -/
theorem body_starts (hs : s.Complete) (hr : s.fits.rejects s.header.length r = false) (hmemory : ¬ env.Refuses s.fits r)
    {storage : Storage} (hlimit : s.fits.frameSize ≤ storage.limit) (dest : Dest) :
    ∃ rest, (streamPartialFits env dest s storage r).body =
      rewriteHeader (s.fits.box r) s.header ++ ((s.fits.box r).chunk
        (copyTo dest (s.fits.boxPixels (s.fits.box r) (s.firstPlane (s.fits.box r) storage))) ++ rest) := by
  obtain ⟨rest, hrest⟩ := sendFrames_some (f := s.fits) (framePlane_first hs hr hlimit) dest
  rw [response_planes (by simp [hr]) hmemory]
  dsimp only
  rw [hrest, List.append_assoc, List.append_assoc]
  exact ⟨_, rfl⟩

theorem boxChunk_length (b : Box) (dest : Dest) : (b.chunk dest).length = 4 * b.partial_size := by
  unfold Box.chunk
  rw [flatMap_bytesOf_length, List.length_map, List.length_range]

/-- What agrees has the same first pixel. -/
theorem first_pixel {f : FitsHeader} {header data : Bytes} (hs : StoredFits.Complete ⟨f, header, data⟩)
    (hr : f.rejects header.length r = false) (hmemory : ¬ env.Refuses f r) (hplane : f.frameSize ≤ MAX_RW_COUNT)
    (h : StoragesAgree env f header r) (dest dest' : Dest) :
    copyTo dest (f.boxPixels (f.box r) (StoredFits.firstPlane ⟨f, header, data⟩ (f.box r) .plain)) 0 =
      copyTo dest' (f.boxPixels (f.box r) (StoredFits.firstPlane ⟨f, header, data⟩ (f.box r) .gzipped)) 0 := by
  have hpread : f.frameSize ≤ Storage.plain.limit := hplane
  have hgzip : f.frameSize ≤ Storage.gzipped.limit := hplane.trans (by decide)
  obtain ⟨rest, hplain⟩ := body_starts hs hr hmemory hpread dest
  obtain ⟨rest', hgzipped⟩ := body_starts hs hr hmemory hgzip dest'
  have hbody := h data dest dest'
  rw [hplain, hgzipped, List.append_cancel_left_eq] at hbody
  have hpos := not_refuses (s := ⟨f, header, data⟩) hmemory
  have hchunk := (List.append_inj hbody (by rw [boxChunk_length, boxChunk_length])).1
  unfold Box.chunk at hchunk
  have hwords := flatMap_bytesOf_inj (by rw [List.length_map, List.length_map]) hchunk
  exact (List.map_inj_left.mp hwords) 0 (List.mem_range.mpr hpos)

/-- A plane that `gzread` transfers and `pread` does not. -/
theorem plane_of_agree {f : FitsHeader} {header data : Bytes} (hs : StoredFits.Complete ⟨f, header, data⟩)
    (hr : f.rejects header.length r = false) (hmemory : ¬ env.Refuses f r) (hshort : f.frameSize < 2 ^ 31)
    (h : StoragesAgree env f header r) : f.frameSize ≤ MAX_RW_COUNT := by
  by_contra hlong
  have hgzip : f.frameSize ≤ Storage.gzipped.limit := Nat.le_sub_one_of_lt hshort
  have hnone : StoredFits.framePlane ⟨f, header, data⟩ (f.box r) .plain (f.box r).start = none := by
    unfold StoredFits.framePlane readAt
    exact if_neg fun hread => hlong hread.1
  obtain ⟨rest, hgzipped⟩ := body_starts hs hr hmemory hgzip fun _ => 0
  have hbody := h data (fun _ => 0) fun _ => 0
  rw [hgzipped, response_planes (by simp [hr]) hmemory] at hbody
  dsimp only at hbody
  rw [sendFrames_none hnone] at hbody
  have hlength := congrArg List.length hbody
  have hpos := not_refuses (s := ⟨f, header, data⟩) hmemory
  simp only [List.length_append, List.length_nil, boxChunk_length, Bool.false_eq_true, if_false] at hlength
  dsimp only at hpos
  omega

theorem boxPixels_first {b : Box} (hmeets : b.Meets) (f : FitsHeader) (plane : Bytes) :
    (f.boxPixels b plane)[0]? = some (wordOf (plane.drop (4 * (b.y1.toNat * f.width.toNat + b.x1.toNat)))) := by
  obtain ⟨hx, hy⟩ := hmeets
  have hrows : rows b = b.y1.toNat :: List.range' (b.y1.toNat + 1) ((b.y2 - b.y1).toNat - 1) := by
    have hn : (b.y2 - b.y1).toNat = (b.y2 - b.y1).toNat - 1 + 1 := by omega
    unfold rows
    rw [hn, List.range'_succ, Nat.add_sub_cancel]
  have hcolumns : columns b = b.x1.toNat :: List.range' (b.x1.toNat + 1) ((b.x2 - b.x1).toNat - 1) := by
    have hn : (b.x2 - b.x1).toNat = (b.x2 - b.x1).toNat - 1 + 1 := by omega
    unfold columns
    rw [hn, List.range'_succ, Nat.add_sub_cancel]
  unfold FitsHeader.boxPixels
  rw [hrows, hcolumns]
  rfl

/-- A box that misses the image copies nothing. -/
theorem boxPixels_nil {b : Box} (hmeets : ¬ b.Meets) (f : FitsHeader) (plane : Bytes) : f.boxPixels b plane = [] := by
  have hempty : rows b = [] ∨ columns b = [] := by
    unfold rows columns
    rw [List.range'_eq_nil_iff, List.range'_eq_nil_iff]
    by_cases hy : b.y1 < b.y2
    · have hx : ¬ b.x1 < b.x2 := fun hx => hmeets ⟨hx, hy⟩
      omega
    · omega
  unfold FitsHeader.boxPixels
  rcases hempty with h | h
  · rw [h, List.flatMap_nil]
  · rw [h]
    simp

/-- The first byte of a pixel of the first plane. -/
theorem firstPlane_byte (s : StoredFits) (b : Box) (storage : Storage) {pos : ℕ} (h : 4 * pos < s.fits.frameSize) :
    (wordOf ((s.firstPlane b storage).drop (4 * pos))).toUInt8 =
      s.content.getD (s.frameOffset b storage b.start + 4 * pos) 0 := by
  unfold StoredFits.firstPlane
  rw [wordOf_low]
  simp only [List.getD_eq_getElem?_getD, List.getElem?_drop, List.getElem?_take, Nat.add_zero, if_pos h]

def oneByte (size place : ℕ) : Bytes := (List.replicate size 0).set place 1

theorem oneByte_getD {size place : ℕ} (h : place < size) (i : ℕ) :
    (oneByte size place).getD i 0 = if i = place then 1 else 0 := by
  unfold oneByte
  rw [List.getD_eq_getElem?_getD, List.getElem?_set, List.length_replicate, List.getElem?_replicate]
  by_cases hi : i = place
  · subst hi
    simp [h]
  · have hne : place ≠ i := fun he => hi he.symm
    rw [if_neg hne, if_neg hi]
    split <;> rfl

theorem first_of_agree {f : FitsHeader} {header : Bytes} (hu : FITS_CHUNK_LENGTH ∣ header.length)
    (hf : f.Sized header.length) (h : StoragesAgree env f header r) : f.FromTheFirst env header.length r := by
  by_contra hnot
  unfold FitsHeader.FromTheFirst at hnot
  simp only [not_or] at hnot
  obtain ⟨hr, hmemory, hshort, hfirst⟩ := hnot
  have hr : f.rejects header.length r = false := by simpa using hr
  obtain ⟨hbitpix, hle, hstop⟩ := stop_lt_depth hr
  have hcomplete : ∀ place, StoredFits.Complete
      ⟨f, header, oneByte (4 * (f.width.toNat * f.height.toNat * f.depth.toNat)) place⟩ := by
    intro place
    have hlen : (oneByte (4 * (f.width.toNat * f.height.toNat * f.depth.toNat)) place).length =
        4 * (f.width.toNat * f.height.toNat * f.depth.toNat) := by
      unfold oneByte
      rw [List.length_set, List.length_replicate]
    refine ⟨hu, hf.width, hf.height, le_of_eq hlen.symm, ?_⟩
    show (header ++ _).length < _
    rw [List.length_append, hlen]
    exact hf.size
  have hmax := plane_of_agree (hcomplete 0) hr hmemory (by omega) h
  by_cases hmeets : (f.box r).Meets
  · have hstart : (f.box r).start ≠ 0 := fun h0 => hfirst ⟨hmeets, h0, hmax⟩
    have hplane : f.planeSize = f.width.toNat * f.height.toNat := by
      refine planeSize_eq (hcomplete 0) ?_
      show 0 < f.depth.toNat
      omega
    have hframe : f.frameSize = 4 * (f.width.toNat * f.height.toNat) := by
      unfold FitsHeader.frameSize
      rw [hplane, sampleSize_eq hbitpix, Nat.mul_comm]
    set pos := (f.box r).y1.toNat * f.width.toNat + (f.box r).x1.toNat with hpos
    have hin : pos < f.width.toNat * f.height.toNat := by
      obtain ⟨hx, hy⟩ := hmeets
      obtain ⟨hx2, hy2⟩ := box_clipped hf.width hf.height r
      have hx1 := (f.box r).x1_nonneg
      have hy1 := (f.box r).y1_nonneg
      exact Lib.Rows.place_lt (by omega) (by omega)
    -- the byte at the place of the first pixel, which the gzipped path looks for before it
    set place := 4 * (f.width.toNat * f.height.toNat) * (f.box r).start + 4 * pos with hplace
    have hroom : place < 4 * (f.width.toNat * f.height.toNat * f.depth.toNat) := by
      have hmul : f.width.toNat * f.height.toNat * ((f.box r).start + 1) ≤ f.width.toNat * f.height.toNat * f.depth.toNat :=
        Nat.mul_le_mul_left _ (by omega)
      rw [Nat.mul_succ] at hmul
      rw [hplace, Nat.mul_assoc]
      omega
    have hpixel := congrArg UInt32.toUInt8 (first_pixel (hcomplete place) hr hmemory hmax h (fun _ => 0) (fun _ => 0))
    have hbyte : ∀ i, (header ++ oneByte (4 * (f.width.toNat * f.height.toNat * f.depth.toNat)) place).getD
        (header.length + i) 0 = if i = place then 1 else 0 := by
      intro i
      rw [← oneByte_getD hroom i, List.getD_append_right _ _ _ _ (Nat.le_add_right _ _), Nat.add_sub_cancel_left]
    unfold copyTo at hpixel
    rw [boxPixels_first hmeets, boxPixels_first hmeets, Option.getD_some, Option.getD_some,
      firstPlane_byte _ _ _ (by rw [hframe]; omega), firstPlane_byte _ _ _ (by rw [hframe]; omega)] at hpixel
    unfold StoredFits.frameOffset StoredFits.content at hpixel
    dsimp only at hpixel
    rw [hframe, hplane, Nat.sub_self, Nat.mul_zero, Nat.add_zero, Nat.add_assoc, Nat.add_assoc, hbyte, hbyte, if_pos rfl,
      if_neg] at hpixel
    · exact absurd hpixel (by decide)
    · have hstep : (f.box r).start * (f.width.toNat * f.height.toNat) ≠ 0 := Nat.mul_ne_zero hstart (by omega)
      rw [hplace, Nat.mul_assoc, Nat.mul_comm (f.width.toNat * f.height.toNat)]
      omega
  · have hpixel := first_pixel (hcomplete 0) hr hmemory hmax h (fun _ => 0) (fun _ => 1)
    unfold copyTo at hpixel
    rw [boxPixels_nil hmeets, boxPixels_nil hmeets] at hpixel
    exact absurd hpixel (by decide)

/-- Whatever the pixels are, a cut-out is the same from both files if and only if the header
    alone is sent, or the box meets the image, the range begins with the first frame and one
    `pread` transfers a plane. -/
theorem storages_agree_iff (env : CutOutEnv) {f : FitsHeader} {header : Bytes} (r : CutOutRequest)
    (hu : FITS_CHUNK_LENGTH ∣ header.length) (hf : f.Sized header.length) :
    StoragesAgree env f header r ↔ f.FromTheFirst env header.length r :=
  ⟨first_of_agree hu hf, agree_of_first⟩

/-! ## The second frame -/

def secondFrame : StoredFits where
  fits := { FitsHeader.defaults [] [] with bitpix := -32, naxis := 3, width := 1, height := 1, depth := 2 }
  header := List.replicate 2880 32
  data := oneByte 8 4

def wholeFrame (k : Int32) : CutOutRequest := ⟨0, 1, 0, 1, k, k⟩

theorem storages_agree_iff_first_frame :
    (FITS_CHUNK_LENGTH ∣ secondFrame.header.length ∧ secondFrame.fits.Sized secondFrame.header.length) ∧
    (StoragesAgree plentyEnv secondFrame.fits secondFrame.header (wholeFrame 0) ↔
      secondFrame.fits.FromTheFirst plentyEnv secondFrame.header.length (wholeFrame 0)) :=
  have hu : FITS_CHUNK_LENGTH ∣ secondFrame.header.length := by decide +kernel
  have hf : secondFrame.fits.Sized secondFrame.header.length := ⟨by decide +kernel, by decide +kernel, by decide +kernel⟩
  ⟨⟨hu, hf⟩, storages_agree_iff plentyEnv (wholeFrame 0) hu hf⟩

/-- The pixel of the second frame is read one byte, and not four, behind the first's. -/
theorem the_second_frame_of_a_gzipped_file :
    secondFrame.Complete ∧ secondFrame.fits.rejects secondFrame.header.length (wholeFrame 1) = false ∧
      (secondFrame.fits.box (wholeFrame 1)).Meets ∧
      (streamPartialFits plentyEnv (fun _ => 0) secondFrame .plain (wholeFrame 1)).body ≠
        (streamPartialFits plentyEnv (fun _ => 0) secondFrame .gzipped (wholeFrame 1)).body := by
  have haccepted : ¬ secondFrame.fits.rejects secondFrame.header.length (wholeFrame 1) = true := by decide +kernel
  have hmemory : ¬ plentyEnv.Refuses secondFrame.fits (wholeFrame 1) := by unfold CutOutEnv.Refuses; decide +kernel
  refine ⟨⟨?_, ?_, ?_, ?_, ?_⟩, eq_false_of_ne_true haccepted, ?_, ?_⟩
  case refine_6 => unfold Box.Meets; decide +kernel
  case refine_7 =>
    rw [response_planes haccepted hmemory, response_planes haccepted hmemory]
    simp only [List.append_assoc]
    exact fun h => absurd (List.append_cancel_left h) (by decide +kernel)
  all_goals decide +kernel

end FitsWebQL
