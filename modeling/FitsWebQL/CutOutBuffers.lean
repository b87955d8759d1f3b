/-
  FitsWebQL.CutOutBuffers — the memory `stream_partial_fits` allocates: for the header it
  rewrites, for a plane as it is read, for the box cut out of it, and for the padding. None
  is cleared when it is allocated.

  The header is copied whole, a plane is used only when it was read whole, the padding is
  set to zeros. `dest_buf` is allocated, and sent, by the sides `|x2 - x1|` and `|y2 - y1|`,
  and filled by loops from `x1` to `x2` and from `y1` to `y2`: a box that misses the image
  has its sides the wrong way round after the clipping, so nothing is copied and what the
  memory held is sent. A box too large for the memory there is never comes so far.

  Proved, for every file, request and allocator:
  - `streamPartialFitsIn_eq`: of all that memory only `dest_buf` can be seen in the response.
  - `memory_hidden_iff`: when nothing of it can be.
  - `two_words_of_memory`: a request that is answered with two words of it.
-/

import FitsWebQL.CutOutStorage

namespace FitsWebQL

open Lib.FileReads Lib.Malloc Lib.Wire

structure CutOutMemory where
  header : Memory UInt8
  pixels : Memory UInt8
  dest : Memory UInt32
  padding : Memory UInt8

/-- The loop over the frames, the plane being read into `pixels`; -1 leaves them. -/
def FitsHeader.sendPlanesIn {σ : Type} (f : FitsHeader) (b : Box) (read : σ → ℕ → Option Bytes × σ) :
    List ℕ → σ → Memory UInt8 → Memory UInt32 → Bytes × Bool
  | [], _, _, _ => ([], true)
  | frame :: frames, st, pixels, dest =>
    let bytes_read := (read st frame).1.map List.length
    let pixels := overwrite pixels ((read st frame).1.getD [])
    if bytes_read ≠ some f.frameSize then ([], false)
    else
      let dest := overwrite dest (f.boxPixels b (view pixels f.frameSize))
      let r := f.sendPlanesIn b read frames (read st frame).2 pixels dest
      ((view dest b.partial_size).flatMap bytesOf ++ r.1, r.2)

def StoredFits.sendFileIn (s : StoredFits) (env : CutOutEnv) (b : Box) (pixels : Memory UInt8) (dest : Memory UInt32) :
    Storage → Bytes × Bool
  | .plain => s.fits.sendPlanesIn b s.preadFrame b.frames () pixels dest
  | .gzipped => s.fits.sendPlanesIn b (s.gzreadFrame env.zlib) b.frames (s.gzseek b) pixels dest

def streamPartialFitsIn (env : CutOutEnv) (m : CutOutMemory) (s : StoredFits) (storage : Storage) (r : CutOutRequest) :
    Response :=
  if s.fits.rejects s.header.length r then ⟨none, []⟩
  else
    let b := s.fits.box r
    let required_memory := s.fits.requiredMemory s.header.length b
    -- `memcpy(header, fits->header, fits->hdr_len)`
    let header := rewriteHeader b (view (overwrite m.header s.header) s.header.length)
    if env.pixels.gives s.fits.planeSize = false ∨ env.dest.gives b.partial_size = false then ⟨some required_memory, header⟩
    else
      let planes := s.sendFileIn env b m.pixels m.dest storage
      let padding_size := size_t (required_memory - (s.header.length + s.fits.partialDataSize b))
      -- `memset(padding, '\0', padding_size)`
      let padding := view (overwrite m.padding (List.replicate padding_size 0)) padding_size
      ⟨some required_memory, header ++ planes.1 ++ if planes.2 then padding else []⟩

/-! ## What can be seen -/

theorem sendPlanesIn_eq {σ : Type} (f : FitsHeader) (b : Box) (read : σ → ℕ → Option Bytes × σ) (frames : List ℕ) (st : σ)
    (pixels : Memory UInt8) (dest : Memory UInt32) :
    f.sendPlanesIn b read frames st pixels dest = f.sendPlanes b read frames st dest := by
  induction frames generalizing st pixels dest with
  | nil => rfl
  | cons frame frames ih =>
    rw [FitsHeader.sendPlanesIn, FitsHeader.sendPlanes]
    dsimp only
    cases (read st frame).1 with
    | none => rfl
    | some plane =>
      dsimp only
      rw [Option.map_some, Option.getD_some, ih]
      by_cases hlen : plane.length = f.frameSize
      · rw [if_neg (by simp [hlen]), if_neg (not_not.mpr hlen), view_overwrite pixels hlen]
        rfl
      · rw [if_pos (by simpa using hlen), if_pos hlen]

/-- Of the memory that is allocated only `dest_buf` can be seen. -/
theorem streamPartialFitsIn_eq (env : CutOutEnv) (m : CutOutMemory) (s : StoredFits) (storage : Storage) (r : CutOutRequest) :
    streamPartialFitsIn env m s storage r = streamPartialFits env m.dest s storage r := by
  have hsend : ∀ b, s.sendFileIn env b m.pixels m.dest storage = s.sendFile env b m.dest storage := by
    intro b
    cases storage with
    | plain => exact sendPlanesIn_eq s.fits b s.preadFrame b.frames () m.pixels m.dest
    | gzipped => exact sendPlanesIn_eq s.fits b (s.gzreadFrame env.zlib) b.frames (s.gzseek b) m.pixels m.dest
  unfold streamPartialFitsIn streamPartialFits
  dsimp only
  rw [view_overwrite m.header rfl, view_overwrite m.padding List.length_replicate, hsend]

def MemoryHidden (env : CutOutEnv) (s : StoredFits) (storage : Storage) (r : CutOutRequest) : Prop :=
  ∀ m m' : CutOutMemory, streamPartialFitsIn env m s storage r = streamPartialFitsIn env m' s storage r

def StoredFits.HoldsFirst (s : StoredFits) (b : Box) (storage : Storage) : Prop :=
  s.fits.frameSize ≤ storage.limit ∧ s.fits.frameSize ≤ s.content.length - s.frameOffset b storage b.start

/-- Nothing of a box is sent, or the box meets the image. -/
def StoredFits.FillsDest (s : StoredFits) (env : CutOutEnv) (storage : Storage) (r : CutOutRequest) : Prop :=
  s.fits.rejects s.header.length r = true ∨ env.Refuses s.fits r ∨ (s.fits.box r).Meets ∨ ¬ s.HoldsFirst (s.fits.box r) storage

variable {env : CutOutEnv} {s : StoredFits} {storage : Storage} {r : CutOutRequest}

theorem hidden_of_fills (h : s.FillsDest env storage r) : MemoryHidden env s storage r := by
  intro m m'
  rw [streamPartialFitsIn_eq, streamPartialFitsIn_eq]
  by_cases hr : s.fits.rejects s.header.length r = true
  · unfold streamPartialFits
    simp only [hr, if_true]
  by_cases hmemory : env.Refuses s.fits r
  · rw [response_header hr hmemory, response_header hr hmemory]
  have hplanes : s.fits.sendFrames (s.fits.box r) (s.framePlane (s.fits.box r) storage) (s.fits.box r).frames m.dest =
      s.fits.sendFrames (s.fits.box r) (s.framePlane (s.fits.box r) storage) (s.fits.box r).frames m'.dest := by
    rcases h with h | h | hmeets | hfirst
    · exact absurd h hr
    · exact absurd h hmemory
    · exact sendFrames_dest (boxPixels_length hmeets s.fits) _ _ _ _
    · -- the first plane is not read, and nothing is sent
      have hnone : s.framePlane (s.fits.box r) storage (s.fits.box r).start = none := if_neg hfirst
      rw [sendFrames_none hnone, sendFrames_none hnone]
  rw [response_planes hr hmemory, response_planes hr hmemory]
  dsimp only
  rw [hplanes]

theorem fills_of_hidden (h : MemoryHidden env s storage r) : s.FillsDest env storage r := by
  by_contra hnot
  unfold StoredFits.FillsDest at hnot
  simp only [not_or, not_not] at hnot
  obtain ⟨hr, hmemory, hmeets, hfirst⟩ := hnot
  -- behind the header, what `dest_buf` held
  have hbody : ∀ dest : Dest, ∃ rest, (streamPartialFits env dest s storage r).body =
      rewriteHeader (s.fits.box r) s.header ++ ((s.fits.box r).chunk dest ++ rest) := by
    intro dest
    have hsome : s.framePlane (s.fits.box r) storage (s.fits.box r).start =
        some (s.firstPlane (s.fits.box r) storage) := if_pos hfirst
    obtain ⟨rest, hrest⟩ := sendFrames_some (f := s.fits) hsome dest
    rw [boxPixels_nil hmeets] at hrest
    rw [response_planes hr hmemory]
    dsimp only
    rw [hrest, List.append_assoc, List.append_assoc]
    exact ⟨_, rfl⟩
  have hsame := h ⟨fun _ => 0, fun _ => 0, fun _ => 0, fun _ => 0⟩ ⟨fun _ => 0, fun _ => 0, fun _ => 1, fun _ => 0⟩
  rw [streamPartialFitsIn_eq, streamPartialFitsIn_eq] at hsame
  obtain ⟨rest, hzeros⟩ := hbody fun _ => 0
  obtain ⟨rest', hones⟩ := hbody fun _ => 1
  have hchunks := congrArg Response.body hsame
  dsimp only at hchunks
  rw [hzeros, hones, List.append_cancel_left_eq] at hchunks
  have hchunk := (List.append_inj hchunks (by rw [boxChunk_length, boxChunk_length])).1
  have hwords := flatMap_bytesOf_inj (by rw [List.length_map, List.length_map]) hchunk
  have hone := (List.map_inj_left.mp hwords) 0 (List.mem_range.mpr (not_refuses hmemory))
  exact absurd hone (by decide)

/-- Whatever the file holds and the request asks for: nothing of the memory is sent if and
    only if nothing of a box is, or the box meets the image. -/
theorem memory_hidden_iff (env : CutOutEnv) (s : StoredFits) (storage : Storage) (r : CutOutRequest) :
    MemoryHidden env s storage r ↔ s.FillsDest env storage r := ⟨fills_of_hidden, hidden_of_fills⟩

/-! ## A box beside the image -/

def singlePixel : StoredFits where
  fits := { FitsHeader.defaults [] [] with bitpix := -32, naxis := 2, width := 1, height := 1 }
  header := List.replicate 2880 32
  data := List.replicate 4 0

def besideIt : CutOutRequest := ⟨3, 4, 0, 1, 0, 0⟩

/-- A box so far beside it that there is no memory for its sides. -/
example (env : CutOutEnv) : MemoryHidden env singlePixel .plain ⟨2147483647, 2147483647, 2147483647, 2147483647, 0, 0⟩ := by
  refine hidden_of_fills (Or.inr (Or.inl (Or.inr ?_)))
  by_contra hgives
  rw [Bool.not_eq_false] at hgives
  exact absurd (env.dest.addressable hgives) (by decide +kernel)

/-- The file is complete and the request is accepted; the answer holds two words of memory. -/
theorem two_words_of_memory : singlePixel.Complete ∧
    singlePixel.fits.rejects singlePixel.header.length besideIt = false ∧ ¬ MemoryHidden plentyEnv singlePixel .plain besideIt := by
  refine ⟨⟨?_, ?_, ?_, ?_, ?_⟩, ?_, ?_⟩
  case refine_7 =>
    intro hhidden
    have hfills := fills_of_hidden hhidden
    revert hfills
    unfold StoredFits.FillsDest CutOutEnv.Refuses StoredFits.HoldsFirst Box.Meets
    decide +kernel
  all_goals decide +kernel

end FitsWebQL
