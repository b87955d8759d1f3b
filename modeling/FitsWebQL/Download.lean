/-
  FitsWebQL.Download — a FITS file read as it is downloaded (`write_data`,
  `scan_fits_header`, `scan_fits_data`, called by libcurl with a piece of the file at a
  time).

  Each piece is appended to a buffer of `CURL_MAX_WRITE_SIZE + FITS_CHUNK_LENGTH` bytes.
  Before the header's end a call reads at most one unit of 2880 bytes from it, after it
  as many 32-bit words as there are, but (in a cube) none past the end of the current
  plane. What is left stays in the buffer for the next call. Once all the words the
  header announces are read, pieces are dropped.

  A copy that does not fit in the buffer is `none`; `accesses` lists the elements a data
  call uses, whose arrays have no bounds in the model. Sizes are `size_t`, so modulo 2^64. Memory is there when asked for, other
  than for a plane of no pixels.

  `Dataset` is all the two functions keep of a file but the means of the frames, which
  depend on how it was cut.
-/

import FitsWebQL.Header
import FitsWebQL.Lib.Wire

namespace FitsWebQL

open Lib.Wire

def CURL_MAX_WRITE_SIZE : ℕ := 16384

/-- `char buffer[CURL_MAX_WRITE_SIZE + FITS_CHUNK_LENGTH]`. -/
def BUFFER_LENGTH : ℕ := CURL_MAX_WRITE_SIZE + FITS_CHUNK_LENGTH

/-- A plane of `fits_cube`, by word; `none` for memory not yet written to. -/
abbrev RawPlane := ℕ → Option UInt32

structure Dataset where
  header : Bytes
  fits : FitsHeader
  hdr_end : Bool
  bSuccess : Bool
  fits_file_size : ℕ
  running_size : ℕ
  dmin : ℚ
  dmax : ℚ
  img_size : ℕ
  img_pixels : ℕ → Option ℚ
  img_mask : ℕ → UInt8
  cube_size : ℕ
  fits_cube : ℕ → Option RawPlane
  frame_min : ℕ → ℚ
  frame_max : ℕ → ℚ
  integrated_spectrum : ℕ → ℚ
  zfp_compressed : List (ℕ × (ℕ → Option RawPlane))

/-- Before the download; `fits` is what `defaults` made it. -/
def Dataset.init (fits : FitsHeader) : Dataset where
  header := []
  fits := fits
  hdr_end := false
  bSuccess := true
  fits_file_size := 0
  running_size := 0
  dmin := FLT_MAX
  dmax := -FLT_MAX
  img_size := 0
  img_pixels := fun _ => none
  img_mask := fun _ => 0
  cube_size := 0
  fits_cube := fun _ => none
  frame_min := fun _ => FLT_MAX
  frame_max := fun _ => -FLT_MAX
  integrated_spectrum := fun _ => 0
  zfp_compressed := []

structure Download where
  data : Dataset
  buffer : Bytes
  mean_spectrum : ℕ → ℚ

def Download.init (fits : FitsHeader) : Download := ⟨Dataset.init fits, [], fun _ => 0⟩

/-! ## The header -/

def FitsHeader.totalSize (h : FitsHeader) : ℕ := size_t (h.width * h.height * h.depth * h.polarisation)

/-- The end of `scan_fits_header`: the image is allocated and cleared, the cube's arrays
    are sized by the depth. -/
def Dataset.allocate (d : Dataset) : Dataset :=
  let fits := headerEnd d.fits
  { d with
    fits := fits
    hdr_end := true
    bSuccess := d.bSuccess && decide (0 < fits.planeSize)
    fits_file_size := fits.totalSize
    img_size := fits.planeSize
    img_pixels := fun _ => some 0
    img_mask := fun _ => 0
    cube_size := if 1 < fits.depth then fits.depth.toNat else d.cube_size
    fits_cube := if 1 < fits.depth then fun _ => none else d.fits_cube }

def Dataset.readUnit (d : Dataset) (unit : Bytes) : Dataset :=
  let r := processFitsHeaderUnit d.fits unit
  let d := { d with header := d.header ++ unit, fits := r.1 }
  if r.2 && decide (0 < d.fits.naxis) then d.allocate else d

def scanFitsHeader (d : Download) (contents : Bytes) : Option Download :=
  if BUFFER_LENGTH < d.buffer.length + contents.length then none
  else
    let buffer := d.buffer ++ contents
    if buffer.length < FITS_CHUNK_LENGTH then some { d with buffer := buffer }
    else some { d with
      data := d.data.readUnit (buffer.take FITS_CHUNK_LENGTH)
      buffer := buffer.drop FITS_CHUNK_LENGTH }

/-! ## The data -/

def set {β : Type} (a : ℕ → β) (i : ℕ) (v : β) : ℕ → β := fun j => if j = i then v else a j

def Dataset.setPixel (d : Dataset) (i : ℕ) : Option ℚ → Dataset
  | some tmp => { d with
      img_pixels := set d.img_pixels i (some tmp)
      img_mask := set d.img_mask i 255
      dmin := min d.dmin tmp
      dmax := max d.dmax tmp }
  | none => { d with img_pixels := set d.img_pixels i none, img_mask := set d.img_mask i 0 }

/-- `fits2float32` on the words at `i` of a 2D image. -/
def fits2float32 (s : Scale) : List UInt32 → ℕ → Dataset → Dataset
  | [], _, d => d
  | w :: ws, i, d => fits2float32 s ws (i + 1) (d.setPixel i (s.word w))

structure Spectrum where
  pixels : ℕ → Option ℚ
  mask : ℕ → UInt8
  sum : ℚ
  count : ℕ
  min : ℚ
  max : ℚ

def Spectrum.addPixel (r : Spectrum) (i : ℕ) : Option ℚ → Spectrum
  | some tmp => {
      pixels := set r.pixels i ((r.pixels i).map fun pixel => pixel + tmp)
      mask := set r.mask i 255
      sum := r.sum + tmp
      count := r.count + 1
      min := Min.min r.min tmp
      max := Max.max r.max tmp }
  | none => r

/-- The loop of `make_image_spectrumF32_ro`, the words going to pixel `i` on. -/
def makeImageSpectrumRo (s : Scale) : List UInt32 → ℕ → Spectrum → Spectrum
  | [], _, r => r
  | w :: ws, i, r => makeImageSpectrumRo s ws (i + 1) (r.addPixel i (s.word w))

def memcpyWords (plane : RawPlane) (i : ℕ) (ws : List UInt32) : RawPlane := fun j =>
  if i ≤ j ∧ j < i + ws.length then ws[j - i]? else plane j

/-- `frame` and `start`. -/
def Dataset.frame (d : Dataset) : ℕ := d.running_size / d.fits.planeSize

def Dataset.start (d : Dataset) : ℕ := d.running_size - d.frame * d.fits.planeSize

/-- `work_size`, for a buffer of `buffer_size` bytes. -/
def Dataset.workSize (d : Dataset) (buffer_size : ℕ) : ℕ :=
  let work_size := min (buffer_size / 4) (d.fits_file_size - d.running_size)
  if 1 < d.fits.depth then min work_size (d.fits.planeSize - d.start) else work_size

/-- `zfp_compress_cube`: with a plane missing nothing is done, else the group's planes are
    compressed and let go. -/
def Dataset.zfpCompressCube (d : Dataset) (start_k : ℕ) : Dataset :=
  let end_k := min (start_k + 4) d.fits.depth.toNat
  if (List.range' start_k (end_k - start_k)).all fun i => (d.fits_cube i).isSome then
    { d with
      zfp_compressed := d.zfp_compressed ++ [(start_k, fun k => if k < end_k - start_k then d.fits_cube (start_k + k) else none)]
      fits_cube := fun i => if start_k ≤ i ∧ i < end_k then none else d.fits_cube i }
  else d

def Dataset.readImage (d : Dataset) (words : List UInt32) : Dataset :=
  if 0 < d.img_size then fits2float32 d.fits.scale words d.running_size d else { d with bSuccess := false }

def Dataset.newPlane (d : Dataset) (frame : ℕ) : Dataset :=
  match d.fits_cube frame with
  | some _ => d
  | none => { d with
      fits_cube := set d.fits_cube frame (some fun _ => none)
      frame_min := set d.frame_min frame FLT_MAX
      frame_max := set d.frame_max frame (-FLT_MAX)
      integrated_spectrum := set d.integrated_spectrum frame 0 }

/-- The kernel's result for `words`, from the frame's extrema so far. -/
def Dataset.spectrum (d : Dataset) (words : List UInt32) : Spectrum :=
  makeImageSpectrumRo d.fits.scale words d.start
    { pixels := d.img_pixels, mask := d.img_mask, sum := 0, count := 0, min := d.frame_min d.frame, max := d.frame_max d.frame }

def Dataset.addSpectrum (d : Dataset) (words : List UInt32) : Dataset :=
  if 0 < d.img_size then
    let r := d.spectrum words
    { d with
      img_pixels := r.pixels
      img_mask := r.mask
      dmin := min d.dmin r.min
      dmax := max d.dmax r.max
      frame_min := set d.frame_min d.frame r.min
      frame_max := set d.frame_max d.frame r.max
      integrated_spectrum := set d.integrated_spectrum d.frame
        (d.integrated_spectrum d.frame + if 0 < r.count then r.sum * d.fits.cdelt else 0) }
  else { d with bSuccess := false }

/-- The end of a plane: four full planes, or the cube's last ones, are compressed. -/
def Dataset.endPlane (d : Dataset) (frame : ℕ) : Dataset :=
  let start_k : ℤ := frame - 3
  if 0 ≤ start_k then
    if start_k.toNat % 4 = 0 then d.zfpCompressCube start_k.toNat
    else if (frame : ℤ) = d.fits.depth - 1 then d.zfpCompressCube (frame - frame % 4)
    else d
  else d

def Dataset.readPlane (d : Dataset) (words : List UInt32) : Dataset :=
  let frame := d.frame
  let start := d.start
  let d := d.newPlane frame
  let d := { d with fits_cube := set d.fits_cube frame ((d.fits_cube frame).map fun plane => memcpyWords plane start words) }
  let d := d.addSpectrum words
  if start + words.length = d.fits.planeSize then d.endPlane frame else d

/-- `scan_fits_data` from `work_size` on: the words read, those of the buffer's front. -/
def Dataset.readWords (d : Dataset) (words : List UInt32) : Dataset :=
  let d' := if d.fits.depth = 1 then d.readImage words else d
  let d' := if 1 < d.fits.depth then d'.readPlane words else d'
  { d' with running_size := d.running_size + words.length }

def Dataset.addMean (d : Dataset) (words : List UInt32) (mean_spectrum : ℕ → ℚ) : ℕ → ℚ :=
  if 1 < d.fits.depth then
    let so_far := if (d.fits_cube d.frame).isSome then mean_spectrum d.frame else 0
    let r := (d.newPlane d.frame).spectrum words
    set mean_spectrum d.frame (so_far + if 0 < d.img_size ∧ 0 < r.count then r.sum / r.count else 0)
  else mean_spectrum

def scanFitsData (d : Download) (contents : Bytes) : Option Download :=
  if d.data.fits_file_size ≤ d.data.running_size then some d
  else if BUFFER_LENGTH < d.buffer.length + contents.length then none
  else
    let buffer := d.buffer ++ contents
    let work_size := d.data.workSize buffer.length
    let words := wordsOf work_size buffer
    some {
      data := d.data.readWords words
      buffer := buffer.drop (4 * work_size)
      mean_spectrum := d.data.addMean words d.mean_spectrum }

def writeData (d : Download) (contents : Bytes) : Option Download :=
  if d.data.hdr_end then scanFitsData d contents else scanFitsHeader d contents

/-! ## The arrays a data call uses -/

/-- The arrays `scan_fits_header` sizes; `pixels_buf` is the frame's raw plane. -/
inductive DataArray
  | fits_cube
  | frame_min
  | frame_max
  | mean_spectrum
  | integrated_spectrum
  | img_pixels
  | img_mask
  | pixels_buf
  deriving DecidableEq

def Dataset.arrayLength (d : Dataset) : DataArray → ℕ
  | .img_pixels | .img_mask => d.img_size
  | .pixels_buf => d.fits.planeSize
  | _ => d.cube_size

def frameArrays (frame : ℕ) : List (DataArray × ℕ) :=
  [(.frame_min, frame), (.frame_max, frame), (.mean_spectrum, frame), (.integrated_spectrum, frame)]

def imageAccesses (start count : ℕ) : List (DataArray × ℕ) :=
  (List.range' start count).flatMap fun i => [(.img_pixels, i), (.img_mask, i)]

def Dataset.compressAccesses (d : Dataset) (start_k : ℕ) : List (DataArray × ℕ) :=
  (List.range' start_k (min (start_k + 4) d.fits.depth.toNat - start_k)).flatMap fun i =>
    [(.fits_cube, i), (.frame_min, i), (.frame_max, i)]

def Dataset.endAccesses (d : Dataset) (frame : ℕ) : List (DataArray × ℕ) :=
  let start_k : ℤ := frame - 3
  if 0 ≤ start_k then
    if start_k.toNat % 4 = 0 then d.compressAccesses start_k.toNat
    else if (frame : ℤ) = d.fits.depth - 1 then d.compressAccesses (frame - frame % 4)
    else []
  else []

/-- The elements `scan_fits_data` uses with `buffer_size` bytes in the buffer. -/
def Dataset.accesses (d : Dataset) (buffer_size : ℕ) : List (DataArray × ℕ) :=
  let work_size := d.workSize buffer_size
  let image := if 0 < d.img_size then imageAccesses d.running_size work_size else []
  let plane :=
    (.fits_cube, d.frame) :: ((if (d.fits_cube d.frame).isNone then frameArrays d.frame else []) ++
      (List.range' d.start work_size).map (fun i => (.pixels_buf, i)) ++
      (if 0 < d.img_size then imageAccesses d.start work_size ++ frameArrays d.frame else []) ++
      (if d.start + work_size = d.fits.planeSize then d.endAccesses d.frame else []))
  if d.fits.depth = 1 then image else if 1 < d.fits.depth then plane else []

end FitsWebQL
