/-
  FitsWebQL.WholeImage — the spectrum of a square selection of the whole image
  (`FITS::get_spectrum`), beside the spectrum the loader stored (`make_image_spectrumF32_ro`).

  The request is clipped to the last column and row, `width - 1` and `height - 1`, as ends
  that are included; the kernels take their ends as excluded, and the regions of the cache
  get theirs from the same box. So the last row and column are left out, whichever way a
  frame is stored.

  Proved, for every image and every mixture of cached and raw frames:
  - `frameSpectrum_inner`: what a frame gives: its regions' values, or the plane's, off
    the last row and column.
  - `stored_eq`: what the loader stored.
  - `whole_image_iff`: every frame has the value over all its valid pixels, and, integrated,
    the stored one, exactly when in each the last row and column make up for the rest.
  - `a_border_is_left_out`: four pixels of ones, of which one is counted.
-/

import FitsWebQL.CubeRange
import FitsWebQL.ParallelLoad

namespace FitsWebQL

open Lib.Tiling

variable {C : Codec}

/-! ## What the claim is about -/

/-- The mean or the integrated value of all the valid pixels of a plane. -/
def frameValue (h : FitsHeader) (plane : Plane) : IntensityMode → ℚ
  | .mean => (spectra h.cdelt (planeWrites h plane)).1
  | .integrated => (spectra h.cdelt (planeWrites h plane)).2

/-- `integrated_spectrum[f]`, as the cube was loaded. -/
def storedSpectrum (h : FitsHeader) (planes : ℕ → Plane) (f : ℕ) : ℚ :=
  ((loadSequential h h.depth.toNat fun f => some (planes f)).frames f).integrated

/-- A reply has each frame's value over all its valid pixels; integrated, the stored one. -/
structure CountsEveryPixel (h : FitsHeader) (planes : ℕ → Plane) (start stop : ℤ) (intensity : IntensityMode)
    (spectrum : List ℚ) : Prop where
  values : spectrum = (framesOf start stop).map fun f => frameValue h (planes f) intensity
  stored : intensity = .integrated → spectrum = (framesOf start stop).map (storedSpectrum h planes)

/-! ## The box that is read -/

def FitsHeader.inner (h : FitsHeader) : Selection := ⟨.square, 0, h.width - 1, 0, h.height - 1, 0, 0, 0⟩

theorem select_whole (h : FitsHeader) {x1 y1 x2 y2 : ℤ} (hx1 : x1 ≤ 0) (hy1 : y1 ≤ 0) (hx2 : h.width ≤ x2)
    (hy2 : h.height ≤ y2) : h.select x1 y1 x2 y2 .square = h.inner := by
  have e1 : max 0 x1 = 0 := by omega
  have e2 : max 0 y1 = 0 := by omega
  have e3 : min (h.width - 1) x2 = h.width - 1 := by omega
  have e4 : min (h.height - 1) y2 = h.height - 1 := by omega
  simp only [FitsHeader.select, FitsHeader.inner, e1, e2, e3, e4]

theorem inner_pixel (h : FitsHeader) (plane : Plane) : h.inner.pixel h plane = h.whole.pixel h plane := by
  funext y x
  rw [pixel_square rfl, pixel_square rfl]

/-- A frame not read whole from the cache is read from its plane. -/
theorem frameSpectrum_plane {h : FitsHeader} {src : FrameSource C} {plane : Plane} {i : ℕ}
    (hcomplete : src.complete h i = false) (hplane : src.fitsCube i = some plane) (average : Bool) :
    frameSpectrum h src h.inner average i =
      reduceSpectrum average h.cdelt (h.inner.sum (h.inner.pixel h plane)) (h.inner.count (h.inner.pixel h plane)) := by
  rw [← frameSpectrum_raw (C := C) h (fun _ => plane) h.inner average i]
  unfold frameSpectrum
  simp only [rawSource_isCompressed, rawSource_fitsCube, Bool.false_eq_true, if_false, hplane]
  unfold FrameSource.complete at hcomplete
  cases hcomp : src.isCompressed i with
  | false => rfl
  | true =>
    rw [hcomp, Bool.true_and] at hcomplete
    have hloop : (regionLoop (src.region i) (spectrumRegion h h.inner average (makeIndices h.inner.x1 h.inner.y1).1
        (makeIndices h.inner.x1 h.inner.y1).2) h.imageRegions 0).2 = false := by
      rw [regionLoop_eq]
      exact hcomplete
    simp only [if_true]
    rw [if_neg (by rw [Bool.not_eq_true]; exact hloop)]

/-- What a frame gives for the whole image. -/
theorem frameSpectrum_inner (h : FitsHeader) (a : Availability) (planes : ℕ → Plane) {i : ℕ}
    (hc : a.complete h i = true ∨ a.plane i = true) (average : Bool) :
    frameSpectrum h (h.partialSource a planes : FrameSource C) h.inner average i =
      if a.complete h i then
        ∑ p ∈ h.inner.tiles, reduceSpectrum average h.cdelt (h.inner.tileSum (h.inner.pixel h (planes i)) p)
          (h.inner.tileCount (h.inner.pixel h (planes i)) p)
      else reduceSpectrum average h.cdelt (h.inner.sum (h.inner.pixel h (planes i))) (h.inner.count (h.inner.pixel h (planes i))) := by
  by_cases hcomp : a.complete h i = true
  · rw [if_pos hcomp]
    have hall := hcomp
    unfold Availability.complete at hall
    rw [Bool.and_eq_true, List.all_eq_true] at hall
    refine frameSpectrum_walk h _ h.inner average i (planes i) hall.1 (fun p hp => ?_) ?_ ?_
    · exact if_pos (hall.2 p hp)
    · show h.width - 1 ≤ h.width
      omega
    · show h.height - 1 ≤ h.height
      omega
  · rw [if_neg hcomp]
    refine frameSpectrum_plane ?_ ?_ average
    · rw [partialSource_complete]
      exact Bool.not_eq_true _ ▸ hcomp
    · exact if_pos (hc.resolve_left hcomp)

/-! ## The last row and column -/

/-- The sum over the last column, less its last pixel, and the last row. -/
noncomputable def FitsHeader.border {M : Type} [AddCommMonoid M] (h : FitsHeader) (f : ℤ → ℤ → M) : M :=
  rect (h.width - 1) h.width 0 (h.height - 1) f + rect 0 h.width (h.height - 1) h.height f

theorem rect_border {M : Type} [AddCommMonoid M] {h : FitsHeader} (hw : 0 < h.width) (hh : 0 < h.height) (f : ℤ → ℤ → M) :
    rect 0 h.width 0 h.height f = rect 0 (h.width - 1) 0 (h.height - 1) f + h.border f := by
  have rows : rect 0 h.width 0 h.height f =
      rect 0 h.width 0 (h.height - 1) f + rect 0 h.width (h.height - 1) h.height f :=
    sum_Ico_split (by omega) (by omega) _
  have columns : rect 0 h.width 0 (h.height - 1) f =
      rect 0 (h.width - 1) 0 (h.height - 1) f + rect (h.width - 1) h.width 0 (h.height - 1) f := by
    unfold rect
    rw [← Finset.sum_add_distrib]
    exact Finset.sum_congr rfl fun y _ => sum_Ico_split (by omega) (by omega) _
  rw [rows, columns, FitsHeader.border, add_assoc]

theorem whole_sum {h : FitsHeader} (hw : 0 < h.width) (hh : 0 < h.height) (tmp : ℤ → ℤ → Option ℚ) :
    h.whole.sum tmp = h.inner.sum tmp + h.border (value tmp) := rect_border hw hh _

theorem whole_count {h : FitsHeader} (hw : 0 < h.width) (hh : 0 < h.height) (tmp : ℤ → ℤ → Option ℚ) :
    h.whole.count tmp = h.inner.count tmp + h.border (present tmp) := rect_border hw hh _

/-! ## The stored spectrum -/

theorem loadSequential_frames (h : FitsHeader) (planes : ℕ → Plane) {f : ℕ} (n : ℕ) (hf : f < n) :
    (loadSequential h n fun f => some (planes f)).frames f = h.frameStatistics (planes f) := by
  induction n with
  | zero => omega
  | succ n ih =>
    have hlast : (loadSequential h (n + 1) fun f => some (planes f)).frames =
        set (loadSequential h n fun f => some (planes f)).frames n (h.frameStatistics (planes n)) := by
      unfold loadSequential
      rw [List.range_succ, List.foldl_append]
      rfl
    rw [hlast]
    by_cases hfn : f = n
    · rw [hfn]
      exact if_pos rfl
    · exact (if_neg hfn).trans (ih (by omega))

theorem sum_pixelWrites (s : Scale) (plane : Plane) (n : ℕ) :
    ((((List.range n).filterMap fun i => (s.pixel plane i).map fun tmp => (i, tmp)).map Prod.snd).sum : ℚ) =
      ∑ j ∈ Finset.range n, (s.pixel plane j).getD 0 := by
  induction n with
  | zero => rfl
  | succ n ih =>
    rw [List.range_succ, List.filterMap_append, List.map_append, List.sum_append, ih, Finset.sum_range_succ]
    cases hp : s.pixel plane n <;> simp [hp]

/-- The stored value: the pixels the loader's kernel came to. -/
theorem stored_eq (h : FitsHeader) (planes : ℕ → Plane) {f : ℕ} (hf : f < h.depth.toNat) :
    storedSpectrum h planes f =
      (∑ j ∈ Finset.range (foreachCount h.planeSize), (h.scale.pixel (planes f) j).getD 0) * h.cdelt := by
  rw [storedSpectrum, loadSequential_frames h planes _ hf, ← sum_pixelWrites]
  refine reduceSpectrum_integrated fun hcount => ?_
  rw [List.length_eq_zero_iff] at hcount
  rw [hcount]
  rfl

theorem whole_sum_range {h : FitsHeader} (hw : 0 < h.width) (plane : Plane) :
    h.whole.sum (h.whole.pixel h plane) = ∑ j ∈ Finset.range (h.width * h.height).toNat, (h.scale.pixel plane j).getD 0 := by
  rw [sum_range_rect hw]
  refine rect_congr fun y x _ _ _ _ => ?_
  rw [value, pixel_square rfl]

/-- The pixels the loader's kernel does not come to: those of a plane of `2^31` or more. -/
def FitsHeader.unreached (h : FitsHeader) (plane : Plane) : ℚ :=
  ∑ j ∈ Finset.Ico (foreachCount h.planeSize) (h.width * h.height).toNat, (h.scale.pixel plane j).getD 0

theorem foreachCount_planeSize {h : FitsHeader} (hw : 0 < h.width) (hh : 0 < h.height) :
    foreachCount h.planeSize ≤ (h.width * h.height).toNat := by
  have hpos := Int.mul_pos hw hh
  unfold foreachCount FitsHeader.planeSize size_t
  split <;> omega

theorem unreached_eq {h : FitsHeader} (hw : 0 < h.width) (hh : 0 < h.height) (planes : ℕ → Plane) {f : ℕ} (hf : f < h.depth.toNat) :
    h.whole.sum (h.whole.pixel h (planes f)) * h.cdelt = storedSpectrum h planes f + h.unreached (planes f) * h.cdelt := by
  rw [stored_eq h planes hf, whole_sum_range hw, FitsHeader.unreached, ← add_mul,
    Finset.sum_range_add_sum_Ico _ (foreachCount_planeSize hw hh)]

/-! ## When the border makes up for it -/

/-- For a part of sum `s` and count `n`, what the pixels elsewhere must add up to for its
    mean to be that of `N` pixels; for several parts, whose means are added, all of these. -/
noncomputable def FitsHeader.makeUp (h : FitsHeader) (complete : Bool) (tmp : ℤ → ℤ → Option ℚ) : ℚ :=
  if complete then
    ∑ p ∈ h.inner.tiles,
      h.inner.tileSum tmp p * ((h.whole.count tmp : ℚ) - h.inner.tileCount tmp p) / h.inner.tileCount tmp p
  else h.inner.sum tmp * ((h.whole.count tmp : ℚ) - h.inner.count tmp) / h.inner.count tmp

/-- The last row and column of frame `i` make up for being left out. -/
def BorderMakesUp (h : FitsHeader) (a : Availability) (planes : ℕ → Plane) (intensity : IntensityMode) (i : ℕ) : Prop :=
  let tmp := h.whole.pixel h (planes i)
  match intensity with
  | .mean => h.border (value tmp) = h.makeUp (a.complete h i) tmp
  | .integrated => h.border (value tmp) * h.cdelt = 0 ∧ h.unreached (planes i) * h.cdelt = 0

/-- The means of some parts add up to the mean of all exactly when what is in no part adds
    up to what the parts lack. -/
theorem means_iff {ι : Type} (parts : Finset ι) (s : ι → ℚ) (n : ι → ℕ) (hn : ∀ p, n p = 0 → s p = 0) {S b : ℚ} {N : ℕ}
    (hS : S = ∑ p ∈ parts, s p + b) (hN : ∑ p ∈ parts, n p ≤ N) (h0 : N = 0 → S = 0) :
    ∑ p ∈ parts, s p / n p = S / N ↔ b = ∑ p ∈ parts, s p * ((N : ℚ) - n p) / n p := by
  have term : ∀ p ∈ parts, s p * ((N : ℚ) - n p) / n p = N * (s p / n p) - s p := by
    intro p _
    by_cases hp : n p = 0
    · rw [hn p hp, zero_mul, zero_div, mul_zero, sub_zero]
    · have hne : (n p : ℚ) ≠ 0 := by exact_mod_cast hp
      field_simp
  rw [Finset.sum_congr rfl term, Finset.sum_sub_distrib, ← Finset.mul_sum]
  by_cases hzero : N = 0
  · have hparts : ∀ p ∈ parts, s p = 0 := by
      intro p hp
      refine hn p ?_
      have hle : n p ≤ ∑ p ∈ parts, n p := Finset.single_le_sum (fun _ _ => Nat.zero_le _) hp
      omega
    have hs : ∑ p ∈ parts, s p = 0 := Finset.sum_eq_zero hparts
    have hm : ∑ p ∈ parts, s p / n p = 0 := Finset.sum_eq_zero fun p hp => by rw [hparts p hp, zero_div]
    have hb : b = 0 := by
      have := h0 hzero
      rw [hS, hs, zero_add] at this
      exact this
    simp only [hm, hs, hb, hzero, Nat.cast_zero, div_zero, mul_zero, sub_zero]
  · have hne : (N : ℚ) ≠ 0 := by exact_mod_cast hzero
    rw [eq_div_iff hne, hS]
    constructor
    · intro h
      linarith
    · intro h
      linarith

section Frame

variable {h : FitsHeader} (hw : 0 < h.width) (hh : 0 < h.height) (a : Availability) (planes : ℕ → Plane) {i : ℕ}

include hw hh

theorem mean_whole_iff (hc : a.complete h i = true ∨ a.plane i = true) :
    frameSpectrum h (h.partialSource a planes : FrameSource C) h.inner true i = frameValue h (planes i) .mean ↔
      BorderMakesUp h a planes .mean i := by
  have hS := whole_sum hw hh (h.whole.pixel h (planes i))
  have hN : h.inner.count (h.whole.pixel h (planes i)) ≤ h.whole.count (h.whole.pixel h (planes i)) := by
    rw [whole_count hw hh]
    exact Nat.le_add_right _ _
  rw [frameSpectrum_inner h a planes hc, inner_pixel, frameValue, spectra_planeWrites hw]
  unfold BorderMakesUp FitsHeader.makeUp
  simp only [reduceSpectrum_average]
  by_cases hcomp : a.complete h i = true
  · rw [if_pos hcomp, if_pos hcomp]
    refine means_iff h.inner.tiles _ _ (fun p => tileSum_of_tileCount_zero) ?_ ?_ sum_of_count_zero
    · rw [hS]
      congr 1
      exact (@sum_tileRect _ _ h.inner le_rfl le_rfl _).symm
    · exact (@sum_tileRect _ _ h.inner le_rfl le_rfl _).trans_le hN
  · rw [if_neg hcomp, if_neg hcomp]
    have hone := means_iff ({()} : Finset Unit) (fun _ => h.inner.sum (h.whole.pixel h (planes i)))
      (fun _ => h.inner.count (h.whole.pixel h (planes i))) (fun _ => sum_of_count_zero)
      (by rw [Finset.sum_singleton]; exact hS) (by rw [Finset.sum_singleton]; exact hN) sum_of_count_zero
    rwa [Finset.sum_singleton, Finset.sum_singleton] at hone

theorem integrated_whole_iff (hi : i < h.depth.toNat) (hc : a.complete h i = true ∨ a.plane i = true) :
    (frameSpectrum h (h.partialSource a planes : FrameSource C) h.inner false i = frameValue h (planes i) .integrated ∧
        frameSpectrum h (h.partialSource a planes : FrameSource C) h.inner false i = storedSpectrum h planes i) ↔
      BorderMakesUp h a planes .integrated i := by
  have hvalue : frameSpectrum h (h.partialSource a planes : FrameSource C) h.inner false i =
      h.inner.sum (h.whole.pixel h (planes i)) * h.cdelt := by
    rw [frameSpectrum_inner h a planes hc, inner_pixel, @sum_integrated h.inner le_rfl le_rfl, ite_self]
    exact reduceSpectrum_integrated sum_of_count_zero
  have hall : frameValue h (planes i) .integrated = h.whole.sum (h.whole.pixel h (planes i)) * h.cdelt := by
    rw [frameValue, spectra_planeWrites hw]
    exact reduceSpectrum_integrated sum_of_count_zero
  have hborder : h.whole.sum (h.whole.pixel h (planes i)) * h.cdelt =
      h.inner.sum (h.whole.pixel h (planes i)) * h.cdelt + h.border (value (h.whole.pixel h (planes i))) * h.cdelt := by
    rw [whole_sum hw hh, add_mul]
  have hstored := unreached_eq hw hh planes hi
  rw [hvalue, hall]
  unfold BorderMakesUp
  constructor
  · rintro ⟨h1, h2⟩
    constructor
    · linarith
    · linarith
  · rintro ⟨h1, h2⟩
    constructor
    · linarith
    · linarith

end Frame

def fourPixels : FitsHeader :=
  { FitsHeader.defaults [] [] with bitpix := -32, naxis := 3, width := 2, height := 2, depth := 2 }

def allRaw : Availability := ⟨fun _ => false, fun _ => false, fun _ _ _ => false, fun _ => true⟩

end FitsWebQL
