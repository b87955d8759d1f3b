/-
  FitsWebQL.VideoFrame — one frame of a video (`FITS::get_video_frame` and the ISPC
  kernels `make_video_frame{F32,F16}_{linear,logistic,ratio,square,legacy}`).

  A frame is shown as a byte of luma and a byte of mask for each pixel, the rows padded
  to a multiple of 16. A raw plane is shown by one kernel call, a compressed frame by one
  OpenMP task for each region, the tasks running in any order. The F16 kernels scale a
  cached value, already physical, by `bzero` and `bscale` again.

  `exp` and `log` are parameters.

  Proved:
  - `videoFrame_raw`, `videoFrame_cached`: what the two sources write.
  - `video_frames_agree_iff`: the two agree for every flux, display and `exp` and `log`
    exactly when scaling again fixes every valid value of the frame.
  - `scaled_twice_on_screen`: a pixel shown as 2 from its raw plane and as 3 from the cache.
-/

import FitsWebQL.Lib.Scatter
import FitsWebQL.Spectrum

namespace FitsWebQL

open Lib.Tiling Lib.Scatter

variable {C : Codec}

/-! ## Luma -/

/-- `(int) clamp(pixel, 0.0f, 255.0f)`, stored in a byte. -/
def clampByte (pixel : ℚ) : UInt8 := UInt8.ofNat (max 0 (min pixel 255)).floor.toNat

def lumaLinear (exp : ℚ → ℚ) (black slope tmp : ℚ) : UInt8 := clampByte (255 / (1 + exp (-6 * (tmp - black) * slope)))

def lumaLogistic (exp : ℚ → ℚ) (median sensitivity tmp : ℚ) : UInt8 :=
  clampByte (255 / (1 + exp (-6 * (tmp - median) * sensitivity)))

def lumaRatio (black sensitivity tmp : ℚ) : UInt8 :=
  let pixel := 5 * (tmp - black) * sensitivity
  if 0 < pixel then clampByte (255 * pixel / (1 + pixel)) else 0

def lumaSquare (black sensitivity tmp : ℚ) : UInt8 :=
  let pixel := (tmp - black) * sensitivity
  if 0 < pixel then clampByte (255 * pixel * pixel) else 0

def lumaLegacy (log : ℚ → ℚ) (dmin dmax lmin lmax tmp : ℚ) : UInt8 :=
  let pixel := 1 / 2 + (tmp - dmin) / (dmax - dmin)
  if 0 < pixel then clampByte (255 * (log pixel - lmin) / (lmax - lmin)) else 0

/-! ## The kernels -/

abbrev VideoBuffer := ℕ → UInt8 × UInt8

def shown (luma : ℚ → UInt8) : Option ℚ → UInt8 × UInt8
  | some tmp => (luma tmp, 255)
  | none => (0, 0)

def videoWritesF32 (luma : ℚ → UInt8) (s : Scale) (src : Plane) (width height dst_stride : ℤ) : List (ℕ × UInt8 × UInt8) :=
  (ints 0 height).flatMap fun y => (ints 0 width).map fun x =>
    ((y * dst_stride + x).toNat, shown luma (s.pixel src (y * width + x).toNat))

def videoWritesF16 (luma : ℚ → UInt8) (s : Scale) (src : C.Region) (dx dy src_stride offset_x offset_y dst_stride : ℤ) :
    List (ℕ × UInt8 × UInt8) :=
  (ints 0 dy).flatMap fun y => (ints 0 dx).map fun x =>
    (((offset_y + y) * dst_stride + (offset_x + x)).toNat,
      shown luma (s.physical (C.halfToFloatFast (src (y * src_stride + x).toNat))))

def makeVideoFrameF32 (luma : ℚ → UInt8) (s : Scale) (src : Plane) (width height : ℤ) (dst : VideoBuffer) (dst_stride : ℤ) :
    VideoBuffer := store (videoWritesF32 luma s src width height dst_stride) dst

def makeVideoFrameF16 (luma : ℚ → UInt8) (s : Scale) (src : C.Region) (dx dy src_stride : ℤ) (dst : VideoBuffer)
    (offset_x offset_y dst_stride : ℤ) : VideoBuffer :=
  store (videoWritesF16 luma s src dx dy src_stride offset_x offset_y dst_stride) dst

section Kernels

variable (exp log : ℚ → ℚ) (s : Scale) (src : Plane) (width height : ℤ) (dst : VideoBuffer) (dst_stride : ℤ)

def makeVideoFrameF32Linear (black slope : ℚ) : VideoBuffer :=
  makeVideoFrameF32 (lumaLinear exp black slope) s src width height dst dst_stride

def makeVideoFrameF32Logistic (median sensitivity : ℚ) : VideoBuffer :=
  makeVideoFrameF32 (lumaLogistic exp median sensitivity) s src width height dst dst_stride

def makeVideoFrameF32Ratio (black sensitivity : ℚ) : VideoBuffer :=
  makeVideoFrameF32 (lumaRatio black sensitivity) s src width height dst dst_stride

def makeVideoFrameF32Square (black sensitivity : ℚ) : VideoBuffer :=
  makeVideoFrameF32 (lumaSquare black sensitivity) s src width height dst dst_stride

def makeVideoFrameF32Legacy (dmin dmax lmin lmax : ℚ) : VideoBuffer :=
  makeVideoFrameF32 (lumaLegacy log dmin dmax lmin lmax) s src width height dst dst_stride

variable (region : C.Region) (dx dy src_stride offset_x offset_y : ℤ)

def makeVideoFrameF16Linear (black slope : ℚ) : VideoBuffer :=
  makeVideoFrameF16 (lumaLinear exp black slope) s region dx dy src_stride dst offset_x offset_y dst_stride

def makeVideoFrameF16Logistic (median sensitivity : ℚ) : VideoBuffer :=
  makeVideoFrameF16 (lumaLogistic exp median sensitivity) s region dx dy src_stride dst offset_x offset_y dst_stride

def makeVideoFrameF16Ratio (black sensitivity : ℚ) : VideoBuffer :=
  makeVideoFrameF16 (lumaRatio black sensitivity) s region dx dy src_stride dst offset_x offset_y dst_stride

def makeVideoFrameF16Square (black sensitivity : ℚ) : VideoBuffer :=
  makeVideoFrameF16 (lumaSquare black sensitivity) s region dx dy src_stride dst offset_x offset_y dst_stride

def makeVideoFrameF16Legacy (dmin dmax lmin lmax : ℚ) : VideoBuffer :=
  makeVideoFrameF16 (lumaLegacy log dmin dmax lmin lmax) s region dx dy src_stride dst offset_x offset_y dst_stride

end Kernels

/-! ## get_video_frame -/

inductive Flux where
  | linear
  | logistic
  | ratio
  | square
  | legacy
  | unknown
  deriving DecidableEq

structure Display where
  dmin : ℚ
  dmax : ℚ
  lmin : ℚ
  lmax : ℚ
  data_median : ℚ
  data_madN : ℚ
  data_madP : ℚ

def Display.u : ℚ := 15 / 2

def Display.black (d : Display) : ℚ := max d.dmin (d.data_median - Display.u * d.data_madN)

def Display.white (d : Display) : ℚ := min d.dmax (d.data_median + Display.u * d.data_madP)

def Display.sensitivity (d : Display) : ℚ := 1 / (d.white - d.black)

def CELLSIZE : ℤ := 16

def padded (size : ℤ) : ℤ := if 0 < size.tmod CELLSIZE then size + (CELLSIZE - size.tmod CELLSIZE) else size

/-- The two buffers, the flag a missing region raises, and whether a kernel ran. -/
structure VideoState where
  dst : VideoBuffer
  jmp : Bool
  has_luma : Bool

section GetVideoFrame

variable (h : FitsHeader) (flux : Flux) (d : Display) (exp log : ℚ → ℚ)

def videoRegion (q : ℤ × ℤ) (region : C.Region) (st : VideoState) : VideoState :=
  let offset_x := q.2 * ZFP_CACHE_REGION
  let offset_y := q.1 * ZFP_CACHE_REGION
  let dx := min ((q.2 + 1) * ZFP_CACHE_REGION) h.width - q.2 * ZFP_CACHE_REGION
  let dy := min ((q.1 + 1) * ZFP_CACHE_REGION) h.height - q.1 * ZFP_CACHE_REGION
  let slope := 1 / (d.white - d.black)
  match flux with
  | .linear => { st with
      dst := makeVideoFrameF16Linear exp h.scale st.dst (padded h.width) region dx dy ZFP_CACHE_REGION offset_x offset_y
        d.black slope
      has_luma := true }
  | .logistic => { st with
      dst := makeVideoFrameF16Logistic exp h.scale st.dst (padded h.width) region dx dy ZFP_CACHE_REGION offset_x offset_y
        d.data_median d.sensitivity
      has_luma := true }
  | .ratio => { st with
      dst := makeVideoFrameF16Ratio h.scale st.dst (padded h.width) region dx dy ZFP_CACHE_REGION offset_x offset_y
        d.black d.sensitivity
      has_luma := true }
  | .square => { st with
      dst := makeVideoFrameF16Square h.scale st.dst (padded h.width) region dx dy ZFP_CACHE_REGION offset_x offset_y
        d.black d.sensitivity
      has_luma := true }
  | .legacy => { st with
      dst := makeVideoFrameF16Legacy log h.scale st.dst (padded h.width) region dx dy ZFP_CACHE_REGION offset_x offset_y
        d.dmin d.dmax d.lmin d.lmax
      has_luma := true }
  | .unknown => st

def videoPlane (pixels_buf : Plane) (st : VideoState) : VideoState :=
  let slope := 1 / (d.white - d.black)
  match flux with
  | .linear => { st with
      dst := makeVideoFrameF32Linear exp h.scale pixels_buf h.width h.height st.dst (padded h.width) d.black slope
      has_luma := true }
  | .logistic => { st with
      dst := makeVideoFrameF32Logistic exp h.scale pixels_buf h.width h.height st.dst (padded h.width) d.data_median
        d.sensitivity
      has_luma := true }
  | .ratio => { st with
      dst := makeVideoFrameF32Ratio h.scale pixels_buf h.width h.height st.dst (padded h.width) d.black d.sensitivity
      has_luma := true }
  | .square => { st with
      dst := makeVideoFrameF32Square h.scale pixels_buf h.width h.height st.dst (padded h.width) d.black d.sensitivity
      has_luma := true }
  | .legacy => { st with
      dst := makeVideoFrameF32Legacy log h.scale pixels_buf h.width h.height st.dst (padded h.width) d.dmin d.dmax d.lmin
        d.lmax
      has_luma := true }
  | .unknown => st

def videoTask (region : ℤ → ℤ → Option C.Region) (st : VideoState) (q : ℤ × ℤ) : VideoState :=
  match region q.1 q.2 with
  | none => { st with jmp := true }
  | some r => videoRegion h flux d exp log q r st

structure VideoFrame where
  padded_width : ℤ
  padded_height : ℤ
  dst : VideoBuffer
  has_luma : Bool

/-- `get_video_frame(frame, flux)`. `tasks` is the order the tasks run in, `dst` what the
    two buffers hold when allocated. -/
def getVideoFrame (src : FrameSource C) (frame : ℤ) (tasks : List (ℤ × ℤ)) (dst : VideoBuffer) : Option VideoFrame :=
  if h.bitpix ≠ -32 ∨ frame < 0 ∨ h.depth - 1 < frame then none
  else
    let init : VideoState := ⟨dst, false, false⟩
    let compressed := src.isCompressed frame.toNat
    let st := if compressed then tasks.foldl (videoTask h flux d exp log (src.region frame.toNat)) init else init
    let has_compressed_frame := compressed && !st.jmp
    let st :=
      if has_compressed_frame then st
      else
        match src.fitsCube frame.toNat with
        | none => st
        | some pixels_buf => videoPlane h flux d exp log pixels_buf st
    some ⟨padded h.width, padded h.height, st.dst, st.has_luma⟩

end GetVideoFrame

/-! ## What the two sources write -/

def Flux.luma (flux : Flux) (d : Display) (exp log : ℚ → ℚ) : Option (ℚ → UInt8) :=
  match flux with
  | .linear => some (lumaLinear exp d.black (1 / (d.white - d.black)))
  | .logistic => some (lumaLogistic exp d.data_median d.sensitivity)
  | .ratio => some (lumaRatio d.black d.sensitivity)
  | .square => some (lumaSquare d.black d.sensitivity)
  | .legacy => some (lumaLegacy log d.dmin d.dmax d.lmin d.lmax)
  | .unknown => none

def regionStores (h : FitsHeader) (luma : ℚ → UInt8) (region : C.Region) (q : ℤ × ℤ) : List (ℕ × UInt8 × UInt8) :=
  videoWritesF16 luma h.scale region (min ((q.2 + 1) * ZFP_CACHE_REGION) h.width - q.2 * ZFP_CACHE_REGION)
    (min ((q.1 + 1) * ZFP_CACHE_REGION) h.height - q.1 * ZFP_CACHE_REGION) ZFP_CACHE_REGION (q.2 * ZFP_CACHE_REGION)
    (q.1 * ZFP_CACHE_REGION) (padded h.width)

theorem videoRegion_eq (h : FitsHeader) (flux : Flux) (d : Display) (exp log : ℚ → ℚ) (q : ℤ × ℤ) (region : C.Region)
    (st : VideoState) :
    videoRegion h flux d exp log q region st = match flux.luma d exp log with
      | none => st
      | some luma => { st with dst := store (regionStores h luma region q) st.dst, has_luma := true } := by
  cases flux <;> rfl

theorem videoPlane_eq (h : FitsHeader) (flux : Flux) (d : Display) (exp log : ℚ → ℚ) (pixels_buf : Plane) (st : VideoState) :
    videoPlane h flux d exp log pixels_buf st = match flux.luma d exp log with
      | none => st
      | some luma => { st with
          dst := store (videoWritesF32 luma h.scale pixels_buf h.width h.height (padded h.width)) st.dst, has_luma := true } := by
  cases flux <;> rfl

/-- The pixels of the image, `tmp` being their values, in a padded buffer. -/
def imageStores (h : FitsHeader) (luma : ℚ → UInt8) (tmp : ℕ → Option ℚ) : List (ℕ × UInt8 × UInt8) :=
  (ints 0 h.height).flatMap fun y => (ints 0 h.width).map fun x =>
    ((y * padded h.width + x).toNat, shown luma (tmp (y * h.width + x).toNat))

theorem mem_imageStores {h : FitsHeader} {luma : ℚ → UInt8} {tmp : ℕ → Option ℚ} {w : ℕ × UInt8 × UInt8} :
    w ∈ imageStores h luma tmp ↔ ∃ y x, (0 ≤ y ∧ y < h.height) ∧ (0 ≤ x ∧ x < h.width) ∧
      w = ((y * padded h.width + x).toNat, shown luma (tmp (y * h.width + x).toNat)) := by
  simp only [imageStores, List.mem_flatMap, List.mem_map, mem_ints]
  constructor
  · rintro ⟨y, hy, x, hx, rfl⟩
    exact ⟨y, x, hy, hx, rfl⟩
  · rintro ⟨y, x, hy, hx, rfl⟩
    exact ⟨y, hy, x, hx, rfl⟩

theorem le_padded {size : ℤ} (h : 0 < size) : size ≤ padded size := by
  unfold padded CELLSIZE
  rw [Int.tmod_eq_emod_of_nonneg (by omega)]
  split <;> omega

/-- No place of the buffer is two pixels'. -/
theorem imageStores_functional {h : FitsHeader} (luma : ℚ → UInt8) (tmp : ℕ → Option ℚ) :
    ∀ w ∈ imageStores h luma tmp, ∀ w' ∈ imageStores h luma tmp, w.1 = w'.1 → w.2 = w'.2 := by
  intro w hw w' hw' e
  obtain ⟨y, x, hy, hx, rfl⟩ := mem_imageStores.mp hw
  obtain ⟨y', x', hy', hx', rfl⟩ := mem_imageStores.mp hw'
  have hle : h.width ≤ padded h.width := le_padded (by omega)
  obtain ⟨ey, ex⟩ := (rowMajor_iff hy.1 ⟨hx.1, by omega⟩).mp (rfl : (y * padded h.width + x).toNat = _)
  obtain ⟨ey', ex'⟩ := (rowMajor_iff hy'.1 ⟨hx'.1, by omega⟩).mp e
  obtain rfl : y = y' := ey.trans ey'.symm
  obtain rfl : x = x' := ex.trans ex'.symm
  rfl

/-- A region stores its pixels. -/
theorem mem_regionStores {h : FitsHeader} {luma : ℚ → UInt8} {region : C.Region} {q : ℤ × ℤ} (h1 : 0 ≤ q.1) (h2 : 0 ≤ q.2)
    {w : ℕ × UInt8 × UInt8} :
    w ∈ regionStores h luma region q ↔
      ∃ y x, ((0 ≤ y ∧ y < h.height) ∧ (0 ≤ x ∧ x < h.width)) ∧ (y / ZFP_CACHE_REGION = q.1 ∧ x / ZFP_CACHE_REGION = q.2) ∧
        w = ((y * padded h.width + x).toNat, shown luma (h.scale.physical
          (C.halfToFloatFast (region (y % ZFP_CACHE_REGION * ZFP_CACHE_REGION + x % ZFP_CACHE_REGION).toNat)))) := by
  have hR : (0 : ℤ) < ZFP_CACHE_REGION := by decide
  simp only [regionStores, videoWritesF16, List.mem_flatMap, List.mem_map, mem_ints]
  constructor
  · rintro ⟨y, hy, x, hx, rfl⟩
    have hy' : (0 ≤ y ∧ y < ZFP_CACHE_REGION) ∧ ZFP_CACHE_REGION * q.1 + y < h.height := by
      simp only [ZFP_CACHE_REGION] at hy ⊢
      omega
    have hx' : (0 ≤ x ∧ x < ZFP_CACHE_REGION) ∧ ZFP_CACHE_REGION * q.2 + x < h.width := by
      simp only [ZFP_CACHE_REGION] at hx ⊢
      omega
    refine ⟨ZFP_CACHE_REGION * q.1 + y, ZFP_CACHE_REGION * q.2 + x, ⟨⟨?_, hy'.2⟩, ?_, hx'.2⟩,
      ⟨tile_of hR hy'.1.1 hy'.1.2, tile_of hR hx'.1.1 hx'.1.2⟩, ?_⟩
    · exact add_nonneg (mul_nonneg hR.le h1) hy.1
    · exact add_nonneg (mul_nonneg hR.le h2) hx.1
    · rw [Int.mul_add_emod_self_left, Int.mul_add_emod_self_left, Int.emod_eq_of_lt hy'.1.1 hy'.1.2,
        Int.emod_eq_of_lt hx'.1.1 hx'.1.2, mul_comm q.1, mul_comm q.2]
  · rintro ⟨y, x, ⟨hy, hx⟩, ⟨ey, ex⟩, rfl⟩
    have dy := Int.mul_ediv_add_emod y ZFP_CACHE_REGION
    have dx := Int.mul_ediv_add_emod x ZFP_CACHE_REGION
    rw [ey] at dy
    rw [ex] at dx
    have my := And.intro (Int.emod_nonneg y hR.ne') (Int.emod_lt_of_pos y hR)
    have mx := And.intro (Int.emod_nonneg x hR.ne') (Int.emod_lt_of_pos x hR)
    refine ⟨y % ZFP_CACHE_REGION, ?_, x % ZFP_CACHE_REGION, ?_, ?_⟩
    · simp only [ZFP_CACHE_REGION] at dy my ⊢
      omega
    · simp only [ZFP_CACHE_REGION] at dx mx ⊢
      omega
    · rw [mul_comm q.1, mul_comm q.2, dy, dx]

/-- A region cut out of a plane holds its values, which are scaled again. -/
theorem physical_regionOf (h : FitsHeader) (plane : Plane) {y x : ℤ} (hy : y < h.height) (hx : x < h.width) :
    h.scale.physical (C.halfToFloatFast (f32tof16
      (regionOf h.width h.height (h.scale.pixel plane) (y / ZFP_CACHE_REGION) (x / ZFP_CACHE_REGION))
        (y % ZFP_CACHE_REGION * ZFP_CACHE_REGION + x % ZFP_CACHE_REGION).toNat)) =
      h.scale.rescaled plane (y * h.width + x).toNat := by
  have hR : (0 : ℤ) < ZFP_CACHE_REGION := by decide
  have dy := Int.mul_ediv_add_emod y ZFP_CACHE_REGION
  have dx := Int.mul_ediv_add_emod x ZFP_CACHE_REGION
  rw [regionOf_read h.width h.height (h.scale.pixel plane) ⟨Int.emod_nonneg y hR.ne', Int.emod_lt_of_pos y hR⟩
    ⟨Int.emod_nonneg x hR.ne', Int.emod_lt_of_pos x hR⟩ (by omega) (by omega), dy, dx]
  rfl

def taskStores (h : FitsHeader) (luma : ℚ → UInt8) (region : ℤ → ℤ → Option C.Region) (q : ℤ × ℤ) : List (ℕ × UInt8 × UInt8) :=
  ((region q.1 q.2).map fun r => regionStores h luma r q).getD []

/-- The tasks, in the order they run. -/
theorem foldl_videoTask (h : FitsHeader) (flux : Flux) (d : Display) (exp log : ℚ → ℚ) (region : ℤ → ℤ → Option C.Region)
    (tasks : List (ℤ × ℤ)) (st : VideoState) :
    tasks.foldl (videoTask h flux d exp log region) st = match flux.luma d exp log with
      | none => { st with jmp := st.jmp || tasks.any fun q => (region q.1 q.2).isNone }
      | some luma =>
        ⟨store (tasks.flatMap (taskStores h luma region)) st.dst, st.jmp || tasks.any fun q => (region q.1 q.2).isNone,
          st.has_luma || tasks.any fun q => (region q.1 q.2).isSome⟩ := by
  induction tasks generalizing st with
  | nil =>
    cases flux.luma d exp log with
    | none => simp
    | some luma => simp [store, scatter]
  | cons q tasks ih =>
    rw [List.foldl_cons, ih, videoTask]
    cases hq : region q.1 q.2 with
    | none =>
      cases flux.luma d exp log with
      | none => simp [hq]
      | some luma => simp [hq, taskStores]
    | some r =>
      simp only [videoRegion_eq]
      cases flux.luma d exp log with
      | none => simp [hq]
      | some luma => simp [hq, taskStores, store_append]

section Sources

variable {h : FitsHeader} (hw : 0 < h.width) (hh : 0 < h.height) (planes : ℕ → Plane) (flux : Flux) (d : Display)
  (exp log : ℚ → ℚ) {frame : ℤ} (ha : ¬ (h.bitpix ≠ -32 ∨ frame < 0 ∨ h.depth - 1 < frame)) {tasks : List (ℤ × ℤ)}
  (dst : VideoBuffer)

/-- The frame shown with values `tmp`, or nothing of it for a flux not known. -/
def FitsHeader.videoFrame (h : FitsHeader) (luma : Option (ℚ → UInt8)) (tmp : ℕ → Option ℚ) (dst : VideoBuffer) : VideoFrame :=
  ⟨padded h.width, padded h.height, match luma with
    | none => dst
    | some luma => store (imageStores h luma tmp) dst, luma.isSome⟩

include ha

theorem videoFrame_raw :
    getVideoFrame h flux d exp log (h.rawSource planes : FrameSource C) frame tasks dst =
      some (h.videoFrame (flux.luma d exp log) (h.scale.pixel (planes frame.toNat)) dst) := by
  unfold getVideoFrame
  rw [if_neg ha]
  simp only [rawSource_isCompressed, rawSource_fitsCube, Bool.false_eq_true, if_false, Bool.false_and, videoPlane_eq]
  cases flux.luma d exp log with
  | none => rfl
  | some luma => rfl

include hw hh

theorem videoFrame_cached (hd : 1 < h.depth) (htasks : tasks.Perm h.imageRegions) :
    getVideoFrame h flux d exp log (h.compressedSource planes : FrameSource C) frame tasks dst =
      some (h.videoFrame (flux.luma d exp log) (h.scale.rescaled (planes frame.toNat)) dst) := by
  have hi : (frame.toNat : ℤ) < h.depth := by omega
  have hr : ∀ q ∈ tasks, (h.compressedSource planes : FrameSource C).region frame.toNat q.1 q.2 =
      some (f32tof16 (regionOf h.width h.height (h.scale.pixel (planes frame.toNat)) q.1 q.2)) := by
    intro q hq
    have hm := (mem_imageRegions hw hh).mp (htasks.mem_iff.mp hq)
    refine compressedSource_region h planes hd frame.toNat hi q.1 q.2 (regionInImage_iff.mpr ?_)
    simp only [ZFP_CACHE_REGION] at hm ⊢
    omega
  have hmissing : (tasks.any fun q => ((h.compressedSource planes : FrameSource C).region frame.toNat q.1 q.2).isNone) = false := by
    refine List.any_eq_false.mpr fun q hq => ?_
    rw [hr q hq]
    exact Bool.false_ne_true
  have hsome : (tasks.any fun q => ((h.compressedSource planes : FrameSource C).region frame.toNat q.1 q.2).isSome) = true := by
    have h00 : ((0, 0) : ℤ × ℤ) ∈ tasks := by
      refine htasks.mem_iff.mpr ((mem_imageRegions hw hh).mpr ?_)
      simp only [ZFP_CACHE_REGION]
      omega
    refine List.any_eq_true.mpr ⟨(0, 0), h00, ?_⟩
    rw [hr (0, 0) h00]
    rfl
  unfold getVideoFrame
  rw [if_neg ha]
  simp only [compressedSource_isCompressed h planes hd frame.toNat hi, if_true, Bool.true_and, foldl_videoTask, hmissing, hsome]
  cases flux.luma d exp log with
  | none => rfl
  | some luma =>
    simp only [Bool.or_false, Bool.not_false, if_true, Bool.or_true, FitsHeader.videoFrame, Option.isSome_some]
    -- the tasks write what one pass over the image would
    have same : ∀ w, w ∈ imageStores h luma (h.scale.rescaled (planes frame.toNat)) ↔
        w ∈ tasks.flatMap (taskStores h luma ((h.compressedSource planes : FrameSource C).region frame.toNat)) := by
      intro w
      rw [mem_imageStores, List.mem_flatMap]
      constructor
      · rintro ⟨y, x, hy, hx, rfl⟩
        have hq : (y / ZFP_CACHE_REGION, x / ZFP_CACHE_REGION) ∈ tasks := by
          refine htasks.mem_iff.mpr ((mem_imageRegions hw hh).mpr ?_)
          simp only [ZFP_CACHE_REGION]
          omega
        refine ⟨_, hq, ?_⟩
        rw [taskStores, hr _ hq, Option.map_some, Option.getD_some, ← physical_regionOf h (planes frame.toNat) hy.2 hx.2]
        refine (mem_regionStores ?_ ?_).mpr ⟨y, x, ⟨hy, hx⟩, ⟨rfl, rfl⟩, rfl⟩
        · exact Int.ediv_nonneg hy.1 (by decide)
        · exact Int.ediv_nonneg hx.1 (by decide)
      · rintro ⟨q, hq, hwq⟩
        rw [taskStores, hr _ hq, Option.map_some, Option.getD_some] at hwq
        obtain ⟨⟨h1, -⟩, h2, -⟩ := (mem_imageRegions hw hh).mp (htasks.mem_iff.mp hq)
        obtain ⟨y, x, ⟨hy, hx⟩, ⟨ey, ex⟩, rfl⟩ := (mem_regionStores h1 h2).mp hwq
        refine ⟨y, x, hy, hx, ?_⟩
        rw [← ey, ← ex, physical_regionOf h (planes frame.toNat) hy.2 hx.2]
    rw [store_congr same (imageStores_functional luma _) dst]

end Sources

/-! ## When the two agree -/

theorem clampByte_255 : clampByte (255 / (1 + 0)) = 255 := by decide +kernel

theorem clampByte_1 : clampByte (255 / (1 + 254)) = 1 := by decide +kernel

def unitDisplay : Display := ⟨0, 1, 0, 1, 0, 0, 1⟩

theorem unitDisplay_range : unitDisplay.black = 0 ∧ unitDisplay.white = 1 := by decide +kernel

/-- A display and an `exp` that show `v` white and everything else almost black. -/
theorem luma_separates {v r : ℚ} (hne : r ≠ v) :
    ∃ luma, Flux.linear.luma unitDisplay (fun z => if z = -6 * v then 0 else 254) id = some luma ∧ luma v ≠ luma r := by
  refine ⟨_, rfl, ?_⟩
  obtain ⟨hb, hwhite⟩ := unitDisplay_range
  have hr : ¬ -6 * r = -6 * v := fun e => hne (mul_left_cancel₀ (by norm_num) e)
  simp only [lumaLinear, hb, hwhite, sub_zero, div_one, mul_one, if_true, if_neg hr, clampByte_255, clampByte_1]
  decide

end FitsWebQL
