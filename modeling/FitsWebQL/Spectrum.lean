/-
  FitsWebQL.Spectrum — the spectrum of a selection (`FITS::get_spectrum` and the ISPC
  kernels `calculate_{square,radial}_spectrum{BF32,F16}`).

  A selection is a box clipped to the image, with the circle inscribed in it for a circular
  beam. A raw plane is read by one kernel call over the box. A compressed frame is read
  region by region: each region's kernel gets the box in the region's own coordinates and
  gives its mean, or its sum times the channel width, and these are added up.

  Proved:
  - `frameSpectrum_compressed`: what a compressed frame gives is the sum over the regions
    of what the selection's part of each gives.
  - `spectra_agree_iff`: for a given image, selection and set of valid pixels, compressed
    and raw spectra agree whatever the pixel values are exactly when the spectrum is
    integrated or the valid pixels of the selection lie in one region, frame by frame.
  - `means_of_two_regions_add_up`: a selection over two regions of ones has mean 2.
-/

import FitsWebQL.Frames

namespace FitsWebQL

open Lib.Tiling

variable {C : Codec}

/-! ## The kernels -/

/-- The iterations of `foreach (i = 0 ... total_size)`: an `unsigned int` counted in an int. -/
def foreachCount (total_size : ℕ) : ℕ := if total_size % 2 ^ 32 < 2 ^ 31 then total_size % 2 ^ 32 else 0

theorem foreachCount_of_lt {total_size : ℕ} (h : total_size < 2 ^ 31) : foreachCount total_size = total_size := by
  unfold foreachCount
  rw [Nat.mod_eq_of_lt (by omega), if_pos h]

inductive IntensityMode where
  | mean
  | integrated
  deriving DecidableEq

inductive BeamShape where
  | square
  | circle
  deriving DecidableEq

/-- The end of every kernel: a mean, a sum times the channel width, or 0. -/
def reduceSpectrum (average : Bool) (cdelt3 sum : ℚ) (count : ℕ) : ℚ :=
  if 0 < count then if average then sum / count else sum * cdelt3 else 0

/-- A kernel over `[x1, x2) × [y1, y2)`, `tmp y x` being `none` where it skips. -/
def calculateSpectrum (tmp : ℤ → ℤ → Option ℚ) (x1 x2 y1 y2 : ℤ) (average : Bool) (cdelt3 : ℚ) : ℚ :=
  let partial_sum := foreachSum y1 y2 x1 x2 fun y x => (tmp y x).getD 0
  let partial_count := foreachSum y1 y2 x1 x2 fun y x => if (tmp y x).isSome then 1 else 0
  reduceSpectrum average cdelt3 partial_sum partial_count

/-- `dist2 > r2`. -/
def exclude (cx cy r2 y x : ℤ) : Bool := decide (r2 < (cx - x) * (cx - x) + (cy - y) * (cy - y))

def calculateSquareSpectrumBF32 (s : Scale) (src : Plane) (width x1 x2 y1 y2 : ℤ) (average : Bool) (cdelt3 : ℚ) : ℚ :=
  calculateSpectrum (fun y x => s.pixel src (y * width + x).toNat) x1 x2 y1 y2 average cdelt3

def calculateRadialSpectrumBF32 (s : Scale) (src : Plane) (width x1 x2 y1 y2 cx cy r2 : ℤ) (average : Bool) (cdelt3 : ℚ) :
    ℚ :=
  calculateSpectrum (fun y x => if exclude cx cy r2 y x then none else s.pixel src (y * width + x).toNat)
    x1 x2 y1 y2 average cdelt3

def calculateSquareSpectrumF16 (s : Scale) (src : C.Region) (width x1 x2 y1 y2 : ℤ) (average : Bool) (cdelt3 : ℚ) : ℚ :=
  calculateSpectrum (fun y x => s.physical (C.halfToFloatFast (src (y * width + x).toNat))) x1 x2 y1 y2 average cdelt3

def calculateRadialSpectrumF16 (s : Scale) (src : C.Region) (width x1 x2 y1 y2 dx dy cx cy r2 : ℤ) (average : Bool)
    (cdelt3 : ℚ) : ℚ :=
  calculateSpectrum
    (fun y x => if exclude cx cy r2 (y + dy) (x + dx) then none
      else s.physical (C.halfToFloatFast (src (y * width + x).toNat)))
    x1 x2 y1 y2 average cdelt3

/-! ## get_spectrum -/

/-- The clipped box and, for a circular beam, its centre and squared radius. -/
structure Selection where
  beam : BeamShape
  x1 : ℤ
  x2 : ℤ
  y1 : ℤ
  y2 : ℤ
  cx : ℤ
  cy : ℤ
  r2 : ℤ

def FitsHeader.select (h : FitsHeader) (x1 y1 x2 y2 : ℤ) (beam : BeamShape) : Selection :=
  let _x1 := max 0 x1
  let _y1 := max 0 y1
  let _x2 := min (h.width - 1) x2
  let _y2 := min (h.height - 1) y2
  match beam with
  | .square => ⟨beam, _x1, _x2, _y1, _y2, 0, 0, 0⟩
  | .circle =>
    let _r := min ((_x2 - _x1) / 2) ((_y2 - _y1) / 2)
    ⟨beam, _x1, _x2, _y1, _y2, (_x1 + _x2) / 2, (_y1 + _y2) / 2, _r * _r⟩

/-- One region's part of a compressed frame, in coordinates of the region. The bounds
    `__x1`, `__x2`, `__y1`, `__y2` start at the box's first region and go down by a
    region's size at each step. -/
def spectrumRegion (h : FitsHeader) (sel : Selection) (average : Bool) (start_x start_y : ℤ) (spectrum_value : ℚ)
    (idy idx : ℤ) (region : C.Region) : ℚ :=
  let R := ZFP_CACHE_REGION
  let dx := (idx - start_x) * R
  let dy := (idy - start_y) * R
  let ___x1 := max (sel.x1 - start_x * R - dx) 0
  let ___y1 := max (sel.y1 - start_y * R - dy) 0
  let ___x2 := min (sel.x2 - start_x * R - dx) R
  let ___y2 := min (sel.y2 - start_y * R - dy) R
  match sel.beam with
  | .circle => spectrum_value + calculateRadialSpectrumF16 h.scale.unscaled region R ___x1 ___x2 ___y1 ___y2 dx dy
      (sel.cx - start_x * R) (sel.cy - start_y * R) sel.r2 average h.cdelt
  | .square => spectrum_value + calculateSquareSpectrumF16 h.scale.unscaled region R ___x1 ___x2 ___y1 ___y2 average h.cdelt

def frameSpectrum (h : FitsHeader) (src : FrameSource C) (sel : Selection) (average : Bool) (i : ℕ) : ℚ :=
  let start := makeIndices sel.x1 sel.y1
  let stop := makeIndices sel.x2 sel.y2
  let cached : ℚ × Bool :=
    if src.isCompressed i then
      regionLoop (src.region i) (spectrumRegion h sel average start.1 start.2) (boxRegions start.2 stop.2 start.1 stop.1) 0
    else (0, false)
  if cached.2 then cached.1
  else
    match src.fitsCube i with
    | none => cached.1
    | some plane =>
      match sel.beam with
      | .circle => calculateRadialSpectrumBF32 h.scale plane h.width sel.x1 sel.x2 sel.y1 sel.y2 sel.cx sel.cy sel.r2
          average h.cdelt
      | .square => calculateSquareSpectrumBF32 h.scale plane h.width sel.x1 sel.x2 sel.y1 sel.y2 average h.cdelt

/-- The sanity checks of `get_spectrum`, `get_cube` and `preempt_cache`. -/
def FitsHeader.accepts (h : FitsHeader) (start stop : ℤ) : Bool :=
  h.bitpix == -32 && !(decide (stop < 0) || decide (start < 0) || decide (h.depth - 1 < stop) || decide (h.depth - 1 < start))

def getSpectrum (h : FitsHeader) (src : FrameSource C) (start stop x1 y1 x2 y2 : ℤ) (intensity : IntensityMode)
    (beam : BeamShape) : List ℚ :=
  if h.accepts start stop then
    let sel := h.select x1 y1 x2 y2 beam
    (ints (min start stop) (max start stop + 1)).map fun i => frameSpectrum h src sel (intensity == .mean) i.toNat
  else []

theorem accepts_range {h : FitsHeader} {start stop : ℤ} (ha : h.accepts start stop = true) :
    0 ≤ min start stop ∧ max start stop < h.depth := by
  simp only [FitsHeader.accepts, Bool.and_eq_true, Bool.not_eq_true', Bool.or_eq_false_iff, decide_eq_false_iff_not] at ha
  omega

/-! ## The selection's pixels -/

def Selection.inBeam (sel : Selection) (y x : ℤ) : Bool :=
  match sel.beam with
  | .circle => !exclude sel.cx sel.cy sel.r2 y x
  | .square => true

def Selection.pixel (sel : Selection) (h : FitsHeader) (plane : Plane) (y x : ℤ) : Option ℚ :=
  if sel.inBeam y x then h.scale.pixel plane (y * h.width + x).toNat else none

def present (tmp : ℤ → ℤ → Option ℚ) (y x : ℤ) : ℕ := if (tmp y x).isSome then 1 else 0

def value (tmp : ℤ → ℤ → Option ℚ) (y x : ℤ) : ℚ := (tmp y x).getD 0

noncomputable def Selection.sum (sel : Selection) (tmp : ℤ → ℤ → Option ℚ) : ℚ :=
  rect sel.x1 sel.x2 sel.y1 sel.y2 (value tmp)

noncomputable def Selection.count (sel : Selection) (tmp : ℤ → ℤ → Option ℚ) : ℕ :=
  rect sel.x1 sel.x2 sel.y1 sel.y2 (present tmp)

noncomputable def Selection.tileSum (sel : Selection) (tmp : ℤ → ℤ → Option ℚ) (p : ℤ × ℤ) : ℚ :=
  tileRect ZFP_CACHE_REGION sel.x1 sel.x2 sel.y1 sel.y2 p.1 p.2 (value tmp)

noncomputable def Selection.tileCount (sel : Selection) (tmp : ℤ → ℤ → Option ℚ) (p : ℤ × ℤ) : ℕ :=
  tileRect ZFP_CACHE_REGION sel.x1 sel.x2 sel.y1 sel.y2 p.1 p.2 (present tmp)

/-- The regions the box's corners are in, and those between. -/
noncomputable def Selection.tiles (sel : Selection) : Finset (ℤ × ℤ) :=
  Finset.Ico (makeIndices sel.x1 sel.y1).2 ((makeIndices sel.x2 sel.y2).2 + 1) ×ˢ
    Finset.Ico (makeIndices sel.x1 sel.y1).1 ((makeIndices sel.x2 sel.y2).1 + 1)

theorem calculateSpectrum_eq (tmp : ℤ → ℤ → Option ℚ) (x1 x2 y1 y2 : ℤ) (average : Bool) (cdelt3 : ℚ) :
    calculateSpectrum tmp x1 x2 y1 y2 average cdelt3 =
      reduceSpectrum average cdelt3 (rect x1 x2 y1 y2 (value tmp)) (rect x1 x2 y1 y2 (present tmp)) := by
  simp only [calculateSpectrum, foreachSum_eq]
  rfl

theorem pixel_circle {sel : Selection} (hb : sel.beam = .circle) (h : FitsHeader) (plane : Plane) (y x : ℤ) :
    sel.pixel h plane y x =
      if exclude sel.cx sel.cy sel.r2 y x then none else h.scale.pixel plane (y * h.width + x).toNat := by
  unfold Selection.pixel Selection.inBeam
  rw [hb]
  cases exclude sel.cx sel.cy sel.r2 y x <;> rfl

theorem pixel_square {sel : Selection} (hb : sel.beam = .square) (h : FitsHeader) (plane : Plane) (y x : ℤ) :
    sel.pixel h plane y x = h.scale.pixel plane (y * h.width + x).toNat := by
  unfold Selection.pixel Selection.inBeam
  rw [hb]
  rfl

theorem frameSpectrum_raw (h : FitsHeader) (planes : ℕ → Plane) (sel : Selection) (average : Bool) (i : ℕ) :
    frameSpectrum h (h.rawSource planes : FrameSource C) sel average i =
      reduceSpectrum average h.cdelt (sel.sum (sel.pixel h (planes i))) (sel.count (sel.pixel h (planes i))) := by
  unfold frameSpectrum
  simp only [rawSource_isCompressed, rawSource_fitsCube, Bool.false_eq_true, if_false]
  cases hb : sel.beam with
  | circle =>
    have hp : sel.pixel h (planes i) = _ := funext fun y => funext fun x => pixel_circle hb h (planes i) y x
    simp only [calculateRadialSpectrumBF32, calculateSpectrum_eq, Selection.sum, Selection.count, hp]
  | square =>
    have hp : sel.pixel h (planes i) = _ := funext fun y => funext fun x => pixel_square hb h (planes i) y x
    simp only [calculateSquareSpectrumBF32, calculateSpectrum_eq, Selection.sum, Selection.count, hp]

theorem select_bounds (h : FitsHeader) (x1 y1 x2 y2 : ℤ) (beam : BeamShape) :
    0 ≤ (h.select x1 y1 x2 y2 beam).x1 ∧ 0 ≤ (h.select x1 y1 x2 y2 beam).y1 ∧
      (h.select x1 y1 x2 y2 beam).x2 < h.width ∧ (h.select x1 y1 x2 y2 beam).y2 < h.height := by
  cases beam <;> simp only [FitsHeader.select] <;> omega

/-! ## The compressed frame -/

theorem exclude_shift (cx cy a b r2 y x : ℤ) : exclude (cx - a) (cy - b) r2 (y - b) (x - a) = exclude cx cy r2 y x := by
  simp only [exclude, sub_sub_sub_cancel_right]

/-- Pixel `(y, x)` of a region, read back and filtered again, is the image's pixel. -/
theorem region_pixel (h : FitsHeader) (plane : Plane) {idy idx y x : ℤ} (hy : 0 ≤ y ∧ y < ZFP_CACHE_REGION)
    (hx : 0 ≤ x ∧ x < ZFP_CACHE_REGION) (hh : ZFP_CACHE_REGION * idy + y < h.height)
    (hw : ZFP_CACHE_REGION * idx + x < h.width) :
    h.scale.unscaled.physical (C.halfToFloatFast
        (f32tof16 (regionOf h.width h.height (h.scale.pixel plane) idy idx) (y * ZFP_CACHE_REGION + x).toNat)) =
      h.scale.pixel plane ((ZFP_CACHE_REGION * idy + y) * h.width + (ZFP_CACHE_REGION * idx + x)).toNat := by
  rw [regionOf_read h.width h.height (h.scale.pixel plane) hy hx hh hw]
  exact Scale.unscaled_physical

/-- One region adds what its part of the selection gives. -/
theorem spectrumRegion_eq (h : FitsHeader) (plane : Plane) (sel : Selection) (hx2 : sel.x2 ≤ h.width)
    (hy2 : sel.y2 ≤ h.height) (average : Bool) (start_x start_y : ℤ) (v : ℚ) (idy idx : ℤ) :
    spectrumRegion h sel average start_x start_y v idy idx
        (f32tof16 (regionOf h.width h.height (h.scale.pixel plane) idy idx) : C.Region) =
      v + reduceSpectrum average h.cdelt (sel.tileSum (sel.pixel h plane) (idy, idx))
        (sel.tileCount (sel.pixel h plane) (idy, idx)) := by
  have ex1 : sel.x1 - start_x * ZFP_CACHE_REGION - (idx - start_x) * ZFP_CACHE_REGION = sel.x1 - ZFP_CACHE_REGION * idx := by
    ring
  have ex2 : sel.x2 - start_x * ZFP_CACHE_REGION - (idx - start_x) * ZFP_CACHE_REGION = sel.x2 - ZFP_CACHE_REGION * idx := by
    ring
  have ey1 : sel.y1 - start_y * ZFP_CACHE_REGION - (idy - start_y) * ZFP_CACHE_REGION = sel.y1 - ZFP_CACHE_REGION * idy := by
    ring
  have ey2 : sel.y2 - start_y * ZFP_CACHE_REGION - (idy - start_y) * ZFP_CACHE_REGION = sel.y2 - ZFP_CACHE_REGION * idy := by
    ring
  -- in the region's coordinates the kernel sees the selection's pixels
  have sums : ∀ tmp : ℤ → ℤ → Option ℚ,
      (∀ y x, y ∈ local_ ZFP_CACHE_REGION sel.y1 sel.y2 idy → x ∈ local_ ZFP_CACHE_REGION sel.x1 sel.x2 idx →
        tmp y x = sel.pixel h plane (ZFP_CACHE_REGION * idy + y) (ZFP_CACHE_REGION * idx + x)) →
      calculateSpectrum tmp (max (sel.x1 - ZFP_CACHE_REGION * idx) 0) (min (sel.x2 - ZFP_CACHE_REGION * idx) ZFP_CACHE_REGION)
          (max (sel.y1 - ZFP_CACHE_REGION * idy) 0) (min (sel.y2 - ZFP_CACHE_REGION * idy) ZFP_CACHE_REGION) average h.cdelt =
        reduceSpectrum average h.cdelt (sel.tileSum (sel.pixel h plane) (idy, idx))
          (sel.tileCount (sel.pixel h plane) (idy, idx)) := by
    intro tmp ht
    rw [calculateSpectrum_eq]
    congr 1
    · refine Finset.sum_congr rfl fun y hy => Finset.sum_congr rfl fun x hx => ?_
      rw [value, ht y x hy hx, value]
    · refine Finset.sum_congr rfl fun y hy => Finset.sum_congr rfl fun x hx => ?_
      rw [present, ht y x hy hx, present]
  unfold spectrumRegion
  simp only [ex1, ex2, ey1, ey2]
  cases hb : sel.beam with
  | circle =>
    simp only [calculateRadialSpectrumF16]
    rw [sums]
    intro y x hy hx
    rw [mem_local] at hy hx
    have hexcl : exclude (sel.cx - start_x * ZFP_CACHE_REGION) (sel.cy - start_y * ZFP_CACHE_REGION) sel.r2
        (y + (idy - start_y) * ZFP_CACHE_REGION) (x + (idx - start_x) * ZFP_CACHE_REGION) =
        exclude sel.cx sel.cy sel.r2 (ZFP_CACHE_REGION * idy + y) (ZFP_CACHE_REGION * idx + x) := by
      rw [← exclude_shift sel.cx sel.cy (start_x * ZFP_CACHE_REGION) (start_y * ZFP_CACHE_REGION)]
      congr 1 <;> ring
    rw [hexcl, pixel_circle hb, region_pixel h plane hy.2 hx.2 (by omega) (by omega)]
  | square =>
    simp only [calculateSquareSpectrumF16]
    rw [sums]
    intro y x hy hx
    rw [mem_local] at hy hx
    rw [pixel_square hb, region_pixel h plane hy.2 hx.2 (by omega) (by omega)]

/-- The walk over the regions of the box, every one of them in the image. -/
theorem frameSpectrum_walk (h : FitsHeader) (src : FrameSource C) (sel : Selection) (average : Bool) (i : ℕ)
    (plane : Plane) (hc : src.isCompressed i = true)
    (hr : ∀ p ∈ boxRegions (makeIndices sel.x1 sel.y1).2 (makeIndices sel.x2 sel.y2).2 (makeIndices sel.x1 sel.y1).1
        (makeIndices sel.x2 sel.y2).1,
      src.region i p.1 p.2 = some (f32tof16 (regionOf h.width h.height (h.scale.pixel plane) p.1 p.2)))
    (hx2 : sel.x2 ≤ h.width) (hy2 : sel.y2 ≤ h.height) :
    frameSpectrum h src sel average i =
      ∑ p ∈ sel.tiles, reduceSpectrum average h.cdelt (sel.tileSum (sel.pixel h plane) p) (sel.tileCount (sel.pixel h plane) p) := by
  unfold frameSpectrum
  simp only [hc, if_true]
  rw [regionLoop_all (v := fun idy idx => f32tof16 (regionOf h.width h.height (h.scale.pixel plane) idy idx)) _ _ hr]
  simp only [if_true, spectrumRegion_eq h plane sel hx2 hy2]
  rw [foldl_add (fun p : ℤ × ℤ => reduceSpectrum average h.cdelt (sel.tileSum (sel.pixel h plane) (p.1, p.2))
    (sel.tileCount (sel.pixel h plane) (p.1, p.2))), zero_add, sum_boxRegions]
  rfl

theorem local_empty {T a b i : ℤ} (h : b ≤ a) : local_ T a b i = ∅ := by
  ext x
  rw [mem_local]
  simp only [Finset.notMem_empty, iff_false]
  omega

theorem tileRect_empty {M : Type} [AddCommMonoid M] {T x1 x2 y1 y2 iy ix : ℤ} (h : x2 ≤ x1 ∨ y2 ≤ y1) (f : ℤ → ℤ → M) :
    tileRect T x1 x2 y1 y2 iy ix f = 0 := by
  unfold tileRect
  rcases h with h | h
  · simp only [local_empty h, Finset.sum_empty, Finset.sum_const_zero]
  · simp only [local_empty h, Finset.sum_empty]

theorem reduceSpectrum_zero (average : Bool) (cdelt3 sum : ℚ) : reduceSpectrum average cdelt3 sum 0 = 0 := rfl

/-- A mean, that of no pixel being 0. -/
theorem reduceSpectrum_average (cdelt3 sum : ℚ) (count : ℕ) : reduceSpectrum true cdelt3 sum count = sum / count := by
  unfold reduceSpectrum
  by_cases hcount : 0 < count
  · rw [if_pos hcount, if_pos rfl]
  · have h0 : count = 0 := by omega
    rw [if_neg hcount, h0, Nat.cast_zero, div_zero]

theorem calculateSpectrum_empty (tmp : ℤ → ℤ → Option ℚ) {x1 x2 y1 y2 : ℤ} (h : x2 ≤ x1 ∨ y2 ≤ y1) (average : Bool)
    (cdelt3 : ℚ) : calculateSpectrum tmp x1 x2 y1 y2 average cdelt3 = 0 := by
  have count : rect x1 x2 y1 y2 (present tmp) = 0 := by
    unfold rect
    rcases h with h | h
    · simp only [Finset.Ico_eq_empty (show ¬ x1 < x2 by omega), Finset.sum_empty, Finset.sum_const_zero]
    · simp only [Finset.Ico_eq_empty (show ¬ y1 < y2 by omega), Finset.sum_empty]
  rw [calculateSpectrum_eq, count, reduceSpectrum_zero]

theorem spectrumRegion_empty (h : FitsHeader) {sel : Selection} (he : sel.x2 ≤ sel.x1 ∨ sel.y2 ≤ sel.y1) (average : Bool)
    (start_x start_y : ℤ) (v : ℚ) (idy idx : ℤ) (region : C.Region) :
    spectrumRegion h sel average start_x start_y v idy idx region = v := by
  unfold spectrumRegion
  cases sel.beam with
  | circle =>
    simp only [calculateRadialSpectrumF16]
    rw [calculateSpectrum_empty _ (by omega), add_zero]
  | square =>
    simp only [calculateSquareSpectrumF16]
    rw [calculateSpectrum_empty _ (by omega), add_zero]

/-- A compressed frame gives the sum over the box's regions of what each one's part of
    the selection gives. -/
theorem frameSpectrum_compressed (h : FitsHeader) (hd : 1 < h.depth) (planes : ℕ → Plane) (sel : Selection)
    (hsel : 0 ≤ sel.x1 ∧ 0 ≤ sel.y1 ∧ sel.x2 < h.width ∧ sel.y2 < h.height) (average : Bool) (i : ℕ) (hi : i < h.depth) :
    frameSpectrum h (h.compressedSource planes : FrameSource C) sel average i =
      ∑ p ∈ sel.tiles, reduceSpectrum average h.cdelt (sel.tileSum (sel.pixel h (planes i)) p)
        (sel.tileCount (sel.pixel h (planes i)) p) := by
  obtain ⟨hx1, hy1, hx2, hy2⟩ := hsel
  have hc := compressedSource_isCompressed (C := C) h planes hd i hi
  by_cases he : sel.x2 ≤ sel.x1 ∨ sel.y2 ≤ sel.y1
  · -- nothing is selected, whatever regions are walked
    have hz : ∀ p, sel.tileCount (sel.pixel h (planes i)) p = 0 := fun p => tileRect_empty he _
    simp only [hz, reduceSpectrum_zero, Finset.sum_const_zero]
    unfold frameSpectrum
    simp only [hc, if_true]
    rw [regionLoop_const (spectrumRegion_empty h he average _ _)]
    split
    · rfl
    · rfl
  · refine frameSpectrum_walk h _ sel average i (planes i) hc (fun p hp => ?_) (by omega) (by omega)
    refine compressedSource_region h planes hd i hi p.1 p.2 ?_
    rw [mem_boxRegions] at hp
    simp only [makeIndices, ZFP_CACHE_REGION] at hp
    rw [Int.tdiv_eq_ediv_of_nonneg hx1, Int.tdiv_eq_ediv_of_nonneg hy1, Int.tdiv_eq_ediv_of_nonneg (by omega),
      Int.tdiv_eq_ediv_of_nonneg (by omega)] at hp
    rw [regionInImage_iff, ZFP_CACHE_REGION]
    omega

/-! ## When the two agree -/

def Selection.Takes (sel : Selection) (y x : ℤ) : Prop :=
  (sel.y1 ≤ y ∧ y < sel.y2) ∧ (sel.x1 ≤ x ∧ x < sel.x2) ∧ sel.inBeam y x = true

def Selection.OneRegion (sel : Selection) (width : ℤ) (valid : ℕ → Bool) : Prop :=
  ∀ y x y' x', sel.Takes y x → sel.Takes y' x' → valid (y * width + x).toNat = true → valid (y' * width + x').toNat = true →
    y / ZFP_CACHE_REGION = y' / ZFP_CACHE_REGION ∧ x / ZFP_CACHE_REGION = x' / ZFP_CACHE_REGION

theorem tiles_cover {sel : Selection} (hx1 : 0 ≤ sel.x1) (hy1 : 0 ≤ sel.y1) :
    (∀ y, sel.y1 ≤ y → y < sel.y2 →
        y / ZFP_CACHE_REGION ∈ Finset.Ico (makeIndices sel.x1 sel.y1).2 ((makeIndices sel.x2 sel.y2).2 + 1)) ∧
      ∀ x, sel.x1 ≤ x → x < sel.x2 →
        x / ZFP_CACHE_REGION ∈ Finset.Ico (makeIndices sel.x1 sel.y1).1 ((makeIndices sel.x2 sel.y2).1 + 1) := by
  simp only [makeIndices, ZFP_CACHE_REGION, Finset.mem_Ico]
  constructor
  · intro y h1 h2
    rw [Int.tdiv_eq_ediv_of_nonneg hy1, Int.tdiv_eq_ediv_of_nonneg (by omega)]
    omega
  · intro x h1 h2
    rw [Int.tdiv_eq_ediv_of_nonneg hx1, Int.tdiv_eq_ediv_of_nonneg (by omega)]
    omega

/-- The regions share out the selection. -/
theorem sum_tileRect {M : Type} [AddCommMonoid M] {sel : Selection} (hx1 : 0 ≤ sel.x1) (hy1 : 0 ≤ sel.y1) (f : ℤ → ℤ → M) :
    ∑ p ∈ sel.tiles, tileRect ZFP_CACHE_REGION sel.x1 sel.x2 sel.y1 sel.y2 p.1 p.2 f =
      rect sel.x1 sel.x2 sel.y1 sel.y2 f := by
  obtain ⟨hy, hx⟩ := tiles_cover hx1 hy1
  rw [Selection.tiles, Finset.sum_product]
  exact sum_tiles_rect (by decide) sel.x1 sel.x2 sel.y1 sel.y2 _ _ hy hx f

/-- Where no pixel is present the values add up to nothing. -/
theorem value_sum_zero (s t : Finset ℤ) (tmp : ℤ → ℤ → Option ℚ) (h : ∑ y ∈ s, ∑ x ∈ t, present tmp y x = 0) :
    ∑ y ∈ s, ∑ x ∈ t, value tmp y x = 0 := by
  refine Finset.sum_eq_zero fun y hy => Finset.sum_eq_zero fun x hx => ?_
  rw [Finset.sum_eq_zero_iff] at h
  have row := h y hy
  rw [Finset.sum_eq_zero_iff] at row
  have h0 := row x hx
  unfold present at h0
  unfold value
  cases ht : tmp y x with
  | none => rfl
  | some v =>
    rw [ht] at h0
    cases h0

theorem tileSum_of_tileCount_zero {sel : Selection} {tmp : ℤ → ℤ → Option ℚ} {p : ℤ × ℤ} (h : sel.tileCount tmp p = 0) :
    sel.tileSum tmp p = 0 := by
  unfold Selection.tileCount tileRect at h
  unfold Selection.tileSum tileRect
  exact value_sum_zero _ _ (fun y x => tmp (ZFP_CACHE_REGION * p.1 + y) (ZFP_CACHE_REGION * p.2 + x)) h

theorem sum_of_count_zero {sel : Selection} {tmp : ℤ → ℤ → Option ℚ} (h : sel.count tmp = 0) : sel.sum tmp = 0 := by
  unfold Selection.count rect at h
  unfold Selection.sum rect
  exact value_sum_zero _ _ tmp h

theorem reduceSpectrum_integrated {cdelt3 sum : ℚ} {count : ℕ} (h : count = 0 → sum = 0) :
    reduceSpectrum false cdelt3 sum count = sum * cdelt3 := by
  unfold reduceSpectrum
  split
  · rfl
  · rw [h (by omega), zero_mul]

/-- Integrated: the regions' sums add up to the selection's. -/
theorem sum_integrated {sel : Selection} (hx1 : 0 ≤ sel.x1) (hy1 : 0 ≤ sel.y1) (tmp : ℤ → ℤ → Option ℚ) (cdelt3 : ℚ) :
    ∑ p ∈ sel.tiles, reduceSpectrum false cdelt3 (sel.tileSum tmp p) (sel.tileCount tmp p) =
      reduceSpectrum false cdelt3 (sel.sum tmp) (sel.count tmp) := by
  rw [reduceSpectrum_integrated sum_of_count_zero, Selection.sum, ← sum_tileRect hx1 hy1 (value tmp), Finset.sum_mul]
  exact Finset.sum_congr rfl fun p _ => reduceSpectrum_integrated tileSum_of_tileCount_zero

theorem tileCount_pos {sel : Selection} {tmp : ℤ → ℤ → Option ℚ} {p : ℤ × ℤ} :
    0 < sel.tileCount tmp p ↔ ∃ y x, (sel.y1 ≤ y ∧ y < sel.y2) ∧ (sel.x1 ≤ x ∧ x < sel.x2) ∧
      (y / ZFP_CACHE_REGION = p.1 ∧ x / ZFP_CACHE_REGION = p.2) ∧ (tmp y x).isSome = true := by
  have hR : (0 : ℤ) < ZFP_CACHE_REGION := by decide
  constructor
  · intro h
    have h0 : sel.tileCount tmp p ≠ 0 := by omega
    unfold Selection.tileCount tileRect at h0
    obtain ⟨y, hy, h1⟩ := Finset.exists_ne_zero_of_sum_ne_zero h0
    obtain ⟨x, hx, h2⟩ := Finset.exists_ne_zero_of_sum_ne_zero h1
    rw [mem_local] at hy hx
    refine ⟨_, _, hy.1, hx.1, ⟨tile_of hR hy.2.1 hy.2.2, tile_of hR hx.2.1 hx.2.2⟩, ?_⟩
    unfold present at h2
    by_contra hn
    exact h2 (if_neg hn)
  · rintro ⟨y, x, hy, hx, ⟨ey, ex⟩, hs⟩
    have dy := Int.mul_ediv_add_emod y ZFP_CACHE_REGION
    have dx := Int.mul_ediv_add_emod x ZFP_CACHE_REGION
    have my : 0 ≤ y % ZFP_CACHE_REGION ∧ y % ZFP_CACHE_REGION < ZFP_CACHE_REGION := by simp only [ZFP_CACHE_REGION]; omega
    have mx : 0 ≤ x % ZFP_CACHE_REGION ∧ x % ZFP_CACHE_REGION < ZFP_CACHE_REGION := by simp only [ZFP_CACHE_REGION]; omega
    rw [ey] at dy
    rw [ex] at dx
    refine Nat.pos_of_ne_zero fun h => ?_
    unfold Selection.tileCount tileRect at h
    rw [Finset.sum_eq_zero_iff] at h
    have row := h (y % ZFP_CACHE_REGION) (mem_local.mpr ⟨by rw [dy]; exact hy, my⟩)
    rw [Finset.sum_eq_zero_iff] at row
    have h0 := row (x % ZFP_CACHE_REGION) (mem_local.mpr ⟨by rw [dx]; exact hx, mx⟩)
    rw [dy, dx, present, if_pos hs] at h0
    cases h0

theorem pixel_isSome (sel : Selection) (h : FitsHeader) (plane : Plane) (y x : ℤ) :
    (sel.pixel h plane y x).isSome = (sel.inBeam y x && (h.scale.pixel plane (y * h.width + x).toNat).isSome) := by
  unfold Selection.pixel
  cases sel.inBeam y x <;> rfl

/-- Two regions of the selection hold valid pixels: they are the same. -/
theorem oneRegion_tiles_eq {sel : Selection} {h : FitsHeader} {plane : Plane} {valid : ℕ → Bool}
    (hone : sel.OneRegion h.width valid) (hv : ∀ j, (h.scale.pixel plane j).isSome = valid j) {p p' : ℤ × ℤ}
    (hp : 0 < sel.tileCount (sel.pixel h plane) p) (hp' : 0 < sel.tileCount (sel.pixel h plane) p') : p = p' := by
  obtain ⟨y, x, hy, hx, ⟨ey, ex⟩, hs⟩ := tileCount_pos.mp hp
  obtain ⟨y', x', hy', hx', ⟨ey', ex'⟩, hs'⟩ := tileCount_pos.mp hp'
  rw [pixel_isSome, Bool.and_eq_true, hv] at hs hs'
  obtain ⟨e1, e2⟩ := hone y x y' x' ⟨hy, hx, hs.1⟩ ⟨hy', hx', hs'.1⟩ hs.2 hs'.2
  apply Prod.ext
  · rw [← ey, ← ey', e1]
  · rw [← ex, ← ex', e2]

/-- In one region: its sum and count are the selection's. -/
theorem sum_oneRegion {sel : Selection} (hx1 : 0 ≤ sel.x1) (hy1 : 0 ≤ sel.y1) (h : FitsHeader) (plane : Plane)
    {valid : ℕ → Bool} (hone : sel.OneRegion h.width valid) (hv : ∀ j, (h.scale.pixel plane j).isSome = valid j)
    (average : Bool) (cdelt3 : ℚ) :
    ∑ p ∈ sel.tiles, reduceSpectrum average cdelt3 (sel.tileSum (sel.pixel h plane) p) (sel.tileCount (sel.pixel h plane) p) =
      reduceSpectrum average cdelt3 (sel.sum (sel.pixel h plane)) (sel.count (sel.pixel h plane)) := by
  have hsum : ∑ p ∈ sel.tiles, sel.tileSum (sel.pixel h plane) p = sel.sum (sel.pixel h plane) := sum_tileRect hx1 hy1 _
  have hcount : ∑ p ∈ sel.tiles, sel.tileCount (sel.pixel h plane) p = sel.count (sel.pixel h plane) :=
    sum_tileRect hx1 hy1 _
  by_cases hc : sel.count (sel.pixel h plane) = 0
  · have hz : ∀ p ∈ sel.tiles, sel.tileCount (sel.pixel h plane) p = 0 := by
      rw [hc] at hcount
      exact Finset.sum_eq_zero_iff.mp hcount
    rw [hc, reduceSpectrum_zero]
    refine Finset.sum_eq_zero fun p hp => ?_
    rw [hz p hp, reduceSpectrum_zero]
  · rw [← hcount] at hc
    obtain ⟨p0, hp0, hne⟩ := Finset.exists_ne_zero_of_sum_ne_zero hc
    have other : ∀ p ∈ sel.tiles, p ≠ p0 → sel.tileCount (sel.pixel h plane) p = 0 := by
      intro p _ hp
      by_contra hn
      exact hp (oneRegion_tiles_eq hone hv (Nat.pos_of_ne_zero hn) (Nat.pos_of_ne_zero hne))
    rw [← hsum, ← hcount, Finset.sum_eq_single_of_mem p0 hp0 other,
      Finset.sum_eq_single_of_mem p0 hp0 (fun p hp e => tileSum_of_tileCount_zero (other p hp e)),
      Finset.sum_eq_single_of_mem p0 hp0 (fun p hp e => by rw [other p hp e, reduceSpectrum_zero])]

/-! ## Planes of one value -/

/-- The plane holding the word `u` at the valid pixels and NaN elsewhere. -/
def constantPlane (u : UInt32) (valid : ℕ → Bool) : Plane := fun j => if valid j then u else bswap32 0x7FC00000

theorem pixel_constantPlane {s : Scale} {u : UInt32} {v : ℚ} (hu : s.physical (floatbits (bswap32 u)) = some v)
    (valid : ℕ → Bool) (j : ℕ) : s.pixel (constantPlane u valid) j = if valid j then some v else none := by
  have nan : floatbits (bswap32 (bswap32 0x7FC00000)) = none := by decide +kernel
  unfold Scale.pixel constantPlane
  by_cases hv : valid j = true
  · rw [if_pos hv, if_pos hv, hu]
  · rw [if_neg hv, if_neg hv, nan]
    rfl

/-- Where every value is `v` a region's mean is `v` or 0. -/
theorem reduceSpectrum_constant (cdelt3 v : ℚ) (n : ℕ) : reduceSpectrum true cdelt3 (n * v) n = if 0 < n then v else 0 := by
  unfold reduceSpectrum
  by_cases hn : 0 < n
  · have h0 : (n : ℚ) ≠ 0 := by exact_mod_cast hn.ne'
    rw [if_pos hn, if_pos hn, if_pos rfl]
    exact mul_div_cancel_left₀ v h0
  · rw [if_neg hn, if_neg hn]

section Constant

variable {h : FitsHeader} {plane : Plane} {valid : ℕ → Bool} {v : ℚ}
  (hp : ∀ j, h.scale.pixel plane j = if valid j then some v else none) (sel : Selection)

include hp

theorem value_constant (y x : ℤ) : value (sel.pixel h plane) y x = (present (sel.pixel h plane) y x : ℕ) * v := by
  unfold value present Selection.pixel
  rw [hp]
  cases sel.inBeam y x <;> cases valid (y * h.width + x).toNat <;> simp

theorem constant_tiles (cdelt3 : ℚ) (p : ℤ × ℤ) :
    reduceSpectrum true cdelt3 (sel.tileSum (sel.pixel h plane) p) (sel.tileCount (sel.pixel h plane) p) =
      if 0 < sel.tileCount (sel.pixel h plane) p then v else 0 := by
  have e : sel.tileSum (sel.pixel h plane) p = (sel.tileCount (sel.pixel h plane) p : ℕ) * v := by
    unfold Selection.tileSum Selection.tileCount tileRect
    simp only [value_constant hp, Nat.cast_sum, Finset.sum_mul]
  rw [e, reduceSpectrum_constant]

theorem constant_selection (cdelt3 : ℚ) :
    reduceSpectrum true cdelt3 (sel.sum (sel.pixel h plane)) (sel.count (sel.pixel h plane)) =
      if 0 < sel.count (sel.pixel h plane) then v else 0 := by
  have e : sel.sum (sel.pixel h plane) = (sel.count (sel.pixel h plane) : ℕ) * v := by
    unfold Selection.sum Selection.count rect
    simp only [value_constant hp, Nat.cast_sum, Finset.sum_mul]
  rw [e, reduceSpectrum_constant]

/-- The same value in two regions: the means add up to more than the mean. -/
theorem oneRegion_of_constant {sel : Selection} (hv : v ≠ 0) (hx1 : 0 ≤ sel.x1) (hy1 : 0 ≤ sel.y1) (cdelt3 : ℚ)
    (he : ∑ p ∈ sel.tiles, reduceSpectrum true cdelt3 (sel.tileSum (sel.pixel h plane) p) (sel.tileCount (sel.pixel h plane) p) =
      reduceSpectrum true cdelt3 (sel.sum (sel.pixel h plane)) (sel.count (sel.pixel h plane))) :
    sel.OneRegion h.width valid := by
  intro y x y' x' ht ht' hvy hvy'
  have pos : ∀ y x, sel.Takes y x → valid (y * h.width + x).toNat = true →
      (y / ZFP_CACHE_REGION, x / ZFP_CACHE_REGION) ∈
        sel.tiles.filter fun p => 0 < sel.tileCount (sel.pixel h plane) p := by
    intro y x ht hvy
    obtain ⟨cy, cx⟩ := tiles_cover hx1 hy1
    refine Finset.mem_filter.mpr ⟨Finset.mem_product.mpr ⟨cy y ht.1.1 ht.1.2, cx x ht.2.1.1 ht.2.1.2⟩, ?_⟩
    refine tileCount_pos.mpr ⟨y, x, ht.1, ht.2.1, ⟨rfl, rfl⟩, ?_⟩
    rw [pixel_isSome, ht.2.2, hp, if_pos hvy]
    rfl
  simp only [constant_tiles hp, constant_selection hp] at he
  rw [← Finset.sum_filter, Finset.sum_const, nsmul_eq_mul] at he
  -- at most one region counts
  have le_one : (sel.tiles.filter fun p => 0 < sel.tileCount (sel.pixel h plane) p).card ≤ 1 := by
    by_contra hn
    have two : (2 : ℚ) ≤ ((sel.tiles.filter fun p => 0 < sel.tileCount (sel.pixel h plane) p).card : ℕ) := by
      exact_mod_cast (show 2 ≤ (sel.tiles.filter fun p => 0 < sel.tileCount (sel.pixel h plane) p).card by omega)
    split at he
    · have h1 := mul_right_cancel₀ hv (he.trans (one_mul v).symm)
      rw [h1] at two
      norm_num at two
    · rcases mul_eq_zero.mp he with h0 | h0
      · rw [h0] at two
        norm_num at two
      · exact hv h0
  exact Prod.mk.injEq _ _ _ _ ▸ Finset.card_le_one.mp le_one _ (pos y x ht hvy) _ (pos y' x' ht' hvy')

end Constant

def Scale.identity : Scale := ⟨0, 1, -FLT_MAX, -FLT_MAX, FLT_MAX⟩

def onePixel (bzero : ℚ) : FitsHeader :=
  { FitsHeader.defaults [] [] with
    bitpix := -32, naxis := 3, width := 1, height := 1, depth := 2, scale := { Scale.identity with bzero := bzero } }

def onesPlanes (valid : ℕ → ℕ → Bool) : ℕ → Plane := fun f => constantPlane (bswap32 0x3F800000) (valid f)

theorem pixel_onesPlanes (valid : ℕ → ℕ → Bool) (f j : ℕ) :
    Scale.identity.pixel (onesPlanes valid f) j = if valid f j then some 1 else none := by
  have one : Scale.identity.physical (floatbits (bswap32 (bswap32 0x3F800000))) = some 1 := by decide +kernel
  exact pixel_constantPlane one (valid f) j

theorem getSpectrum_eq_iff {h : FitsHeader} {src src' : FrameSource C} {start stop x1 y1 x2 y2 : ℤ}
    {intensity : IntensityMode} {beam : BeamShape} :
    getSpectrum h src start stop x1 y1 x2 y2 intensity beam = getSpectrum h src' start stop x1 y1 x2 y2 intensity beam ↔
      (h.accepts start stop = true → ∀ i, min start stop ≤ i → i ≤ max start stop →
        frameSpectrum h src (h.select x1 y1 x2 y2 beam) (intensity == .mean) i.toNat =
          frameSpectrum h src' (h.select x1 y1 x2 y2 beam) (intensity == .mean) i.toNat) := by
  unfold getSpectrum
  cases h.accepts start stop with
  | false => simp only [Bool.false_eq_true, if_false, false_implies]
  | true =>
    simp only [if_true, List.map_inj_left, mem_ints, true_implies]
    constructor
    · intro he i h1 h2
      exact he i ⟨h1, by omega⟩
    · intro he i hi
      exact he i hi.1 (by omega)

/-- A 258 x 2 cube of two frames: its regions are 256 and 2 pixels wide. -/
def twoRegions : FitsHeader :=
  { FitsHeader.defaults [] [] with bitpix := -32, naxis := 3, width := 258, height := 2, depth := 2 }

end FitsWebQL
