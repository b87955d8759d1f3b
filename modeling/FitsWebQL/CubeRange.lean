/-
  FitsWebQL.CubeRange — when the image and the spectra of a range of frames are right.

  `getCube` is compared with the sum over the frames of the valid physical values, the
  mask of the pixels valid in some frame, and the raw plane's spectra, for every pattern
  of cached regions and raw planes.

  Proved:
  - `cachedWrites_added`, `cachedWrites_hits`: what the regions of a frame walked before
    a missing one leave at a pixel.
  - `cube_right_iff`: with cleared result buffers, a cube is shown right, whatever the
    values of its valid pixels, exactly when it has a pixel for every thread and each of
    its frames is in order (`FrameOk`); and then, with buffers as they come, a request is
    answered right exactly when they come cleared.
  - `scaled_twice`: a cube whose cached values are scaled again.
-/

import FitsWebQL.CubeImage

namespace FitsWebQL

open Lib.Tiling Lib.Scatter

variable {C : Codec}

/-! ## Which sources there are -/

structure Availability where
  compressedPixels : ℕ → Bool
  compressedMask : ℕ → Bool
  region : ℕ → ℤ → ℤ → Bool
  plane : ℕ → Bool

/-- The planes' regions, those there, and the raw planes, those there. -/
def FitsHeader.partialSource (h : FitsHeader) (a : Availability) (planes : ℕ → Plane) : FrameSource C where
  compressedPixels := a.compressedPixels
  compressedMask := a.compressedMask
  region i idy idx :=
    if a.region i idy idx then some (f32tof16 (regionOf h.width h.height (h.scale.pixel (planes i)) idy idx)) else none
  fitsCube i := if a.plane i then some (planes i) else none

def Availability.walked (a : Availability) (h : FitsHeader) (i : ℕ) : List (ℤ × ℤ) :=
  if a.compressedPixels (i / 4) && a.compressedMask i then h.imageRegions.takeWhile fun q => a.region i q.1 q.2 else []

def Availability.complete (a : Availability) (h : FitsHeader) (i : ℕ) : Bool :=
  a.compressedPixels (i / 4) && a.compressedMask i && h.imageRegions.all fun q => a.region i q.1 q.2

theorem partialSource_walked (h : FitsHeader) (a : Availability) (planes : ℕ → Plane) (i : ℕ) :
    (h.partialSource a planes : FrameSource C).walked h i = a.walked h i := by
  unfold FrameSource.walked Availability.walked FrameSource.isCompressed FitsHeader.partialSource
  have e : ∀ q : ℤ × ℤ, (if a.region i q.1 q.2 then
      some (f32tof16 (regionOf h.width h.height (h.scale.pixel (planes i)) q.1 q.2) : C.Region) else none).isSome =
      a.region i q.1 q.2 := by
    intro q
    cases a.region i q.1 q.2 <;> rfl
  simp only [e]

theorem partialSource_complete (h : FitsHeader) (a : Availability) (planes : ℕ → Plane) (i : ℕ) :
    (h.partialSource a planes : FrameSource C).complete h i = a.complete h i := by
  unfold FrameSource.complete Availability.complete FrameSource.isCompressed FitsHeader.partialSource
  have e : ∀ q : ℤ × ℤ, (if a.region i q.1 q.2 then
      some (f32tof16 (regionOf h.width h.height (h.scale.pixel (planes i)) q.1 q.2) : C.Region) else none).isSome =
      a.region i q.1 q.2 := by
    intro q
    cases a.region i q.1 q.2 <;> rfl
  simp only [e]

/-! ## A cached value -/

theorem regionWrites_sum {M : Type} [AddCommMonoid M] (h : FitsHeader) (plane : Plane) {q : ℤ × ℤ} (h1 : 0 ≤ q.1)
    (h2 : 0 ≤ q.2) (F : ℕ × ℚ → M) :
    ((regionWrites h (f32tof16 (regionOf h.width h.height (h.scale.pixel plane) q.1 q.2) : C.Region) q).map F).sum =
      tileRect ZFP_CACHE_REGION 0 h.width 0 h.height q.1 q.2 fun y x =>
        ((h.scale.rescaled plane (y * h.width + x).toNat).map fun tmp => F ((y * h.width + x).toNat, tmp)).getD 0 := by
  have range : ∀ (b i : ℤ), 0 ≤ i →
      Finset.Ico 0 (min ((i + 1) * ZFP_CACHE_REGION) b - i * ZFP_CACHE_REGION) = local_ ZFP_CACHE_REGION 0 b i := by
    intro b i hi
    ext x
    rw [mem_local, Finset.mem_Ico]
    simp only [ZFP_CACHE_REGION]
    omega
  unfold regionWrites tileRect
  rw [sum_map_flatMap, sum_ints, range _ _ h1]
  refine Finset.sum_congr rfl fun y hy => ?_
  rw [sum_filterMap, sum_ints, range _ _ h2]
  refine Finset.sum_congr rfl fun x hx => ?_
  rw [mem_local] at hy hx
  rw [regionOf_read h.width h.height (h.scale.pixel plane) hy.2 hx.2 hy.1.2 hx.1.2, Option.map_map,
    mul_comm q.1, mul_comm q.2]
  rfl

/-! ## What a frame leaves at a pixel -/

def FitsHeader.regionAt (h : FitsHeader) (p : ℕ) : ℤ × ℤ := ((p / h.width) / ZFP_CACHE_REGION, (p % h.width) / ZFP_CACHE_REGION)

theorem regionAt_mem {h : FitsHeader} (hw : 0 < h.width) (hh : 0 < h.height) {p : ℕ} (hp : p < (h.width * h.height).toNat) :
    h.regionAt p ∈ h.imageRegions := by
  obtain ⟨hy, hx⟩ := row_lt hw hp
  rw [mem_imageRegions hw hh]
  simp only [FitsHeader.regionAt, ZFP_CACHE_REGION]
  omega

/-- One region's sum of something found at pixel `p` only. -/
theorem tileRect_at {M : Type} [AddCommMonoid M] {h : FitsHeader} (hw : 0 < h.width) {p : ℕ}
    (hp : p < (h.width * h.height).toNat) (q : ℤ × ℤ) (g : ℕ → M) :
    tileRect ZFP_CACHE_REGION 0 h.width 0 h.height q.1 q.2
        (fun y x => if p = (y * h.width + x).toNat then g (y * h.width + x).toNat else 0) =
      if h.regionAt p = q then g p else 0 := by
  obtain ⟨hy, hx⟩ := row_lt hw hp
  have e : tileRect ZFP_CACHE_REGION 0 h.width 0 h.height q.1 q.2
        (fun y x => if p = (y * h.width + x).toNat then g (y * h.width + x).toNat else 0) =
      tileRect ZFP_CACHE_REGION 0 h.width 0 h.height q.1 q.2
        fun y x => if y = p / h.width ∧ x = p % h.width then g p else 0 := by
    refine Finset.sum_congr rfl fun y hy' => Finset.sum_congr rfl fun x hx' => ?_
    rw [mem_local] at hy' hx'
    dsimp only
    by_cases hpyx : p = ((ZFP_CACHE_REGION * q.1 + y) * h.width + (ZFP_CACHE_REGION * q.2 + x)).toNat
    · rw [if_pos hpyx, if_pos ((rowMajor_iff hy'.1.1 hx'.1).mp hpyx), ← hpyx]
    · rw [if_neg hpyx, if_neg fun he => hpyx ((rowMajor_iff hy'.1.1 hx'.1).mpr he)]
  rw [e, tileRect_single (by decide) q.1 q.2 hy hx]
  simp only [FitsHeader.regionAt, Prod.ext_iff]

theorem sum_single {α M : Type} [AddCommMonoid M] [DecidableEq α] {l : List α} (hl : l.Nodup) (a : α) [Decidable (a ∈ l)]
    (v : M) : (l.map fun q => if a = q then v else 0).sum = if a ∈ l then v else 0 := by
  rw [← List.sum_toFinset _ hl, Finset.sum_ite_eq]
  by_cases ha : a ∈ l
  · rw [if_pos ha, if_pos (List.mem_toFinset.mpr ha)]
  · rw [if_neg ha, if_neg fun h => ha (List.mem_toFinset.mp h)]

theorem getD_isSome (o : Option ℚ) : (o.map fun _ => 1).getD 0 = if o.isSome then 1 else 0 := by
  cases o <;> rfl

section Frame

variable {h : FitsHeader} (hw : 0 < h.width) (a : Availability) (planes : ℕ → Plane) (i : ℕ) {p : ℕ}
  (hp : p < (h.width * h.height).toNat)

theorem mem_walked {q : ℤ × ℤ} (hq : q ∈ a.walked h i) : q ∈ h.imageRegions ∧ a.region i q.1 q.2 = true := by
  unfold Availability.walked at hq
  split at hq
  · exact ⟨(List.takeWhile_sublist _).mem hq, List.mem_takeWhile_imp (p := fun q : ℤ × ℤ => a.region i q.1 q.2) hq⟩
  · cases hq

theorem nodup_walked : (a.walked h i).Nodup := by
  unfold Availability.walked
  split
  · exact (nodup_boxRegions _ _ _ _).sublist (List.takeWhile_sublist _)
  · exact List.nodup_nil

theorem walked_of_complete (hc : a.complete h i = true) : a.walked h i = h.imageRegions := by
  unfold Availability.complete at hc
  rw [Bool.and_eq_true, List.all_eq_true] at hc
  unfold Availability.walked
  rw [if_pos hc.1]
  exact List.takeWhile_eq_self_iff.mpr hc.2

/-- A region walked is there, with the plane's physical values in it. -/
theorem walked_regionWrites {q : ℤ × ℤ} (hq : q ∈ a.walked h i) :
    (h.partialSource a planes : FrameSource C).regionWrites h i q =
      regionWrites h (f32tof16 (regionOf h.width h.height (h.scale.pixel (planes i)) q.1 q.2) : C.Region) q := by
  unfold FrameSource.regionWrites FitsHeader.partialSource
  simp only [(mem_walked a i hq).2, if_true, Option.map_some, Option.getD_some]

include hw hp

/-- A region's writes to pixel `p`, each weighed by its value. -/
theorem region_weight {M : Type} [AddCommMonoid M] (weight : ℚ → M) (hh : 0 < h.height) {q : ℤ × ℤ} (hq : q ∈ a.walked h i) :
    (((h.partialSource a planes : FrameSource C).regionWrites h i q).map fun w => if p = w.1 then weight w.2 else 0).sum =
      if h.regionAt p = q then ((h.scale.rescaled (planes i) p).map weight).getD 0 else 0 := by
  obtain ⟨⟨h1, -⟩, h2, -⟩ := (mem_imageRegions hw hh).mp (mem_walked a i hq).1
  rw [walked_regionWrites a planes i hq, regionWrites_sum h (planes i) h1 h2,
    ← tileRect_at hw hp q fun p => ((h.scale.rescaled (planes i) p).map weight).getD 0]
  congr 1
  funext y x
  by_cases e : p = (y * h.width + x).toNat
  · simp only [e, if_true]
  · simp only [e, if_false]
    cases h.scale.rescaled (planes i) (y * h.width + x).toNat <;> rfl

theorem region_added (hh : 0 < h.height) {q : ℤ × ℤ} (hq : q ∈ a.walked h i) :
    added p ((h.partialSource a planes : FrameSource C).regionWrites h i q) =
      if h.regionAt p = q then (h.scale.rescaled (planes i) p).getD 0 else 0 := by
  have hweight := region_weight (C := C) hw a planes i hp (fun v => v) hh hq
  rwa [Option.map_id'] at hweight

theorem region_hits (hh : 0 < h.height) {q : ℤ × ℤ} (hq : q ∈ a.walked h i) :
    hits p ((h.partialSource a planes : FrameSource C).regionWrites h i q) =
      if h.regionAt p = q then if (h.scale.rescaled (planes i) p).isSome then 1 else 0 else 0 := by
  have hweight := region_weight (C := C) hw a planes i hp (fun _ => 1) hh hq
  rwa [getD_isSome] at hweight

/-- The cache's share: the rescaled value, where the pixel's region was walked. -/
theorem cachedWrites_added (hh : 0 < h.height) :
    added p ((a.walked h i).flatMap ((h.partialSource a planes : FrameSource C).regionWrites h i)) =
      if h.regionAt p ∈ a.walked h i then (h.scale.rescaled (planes i) p).getD 0 else 0 := by
  rw [added_flatMap, List.map_congr_left fun q hq => region_added hw a planes i hp hh hq, sum_single (nodup_walked a i)]

theorem cachedWrites_hits (hh : 0 < h.height) :
    hits p ((a.walked h i).flatMap ((h.partialSource a planes : FrameSource C).regionWrites h i)) =
      if h.regionAt p ∈ a.walked h i then if (h.scale.rescaled (planes i) p).isSome then 1 else 0 else 0 := by
  rw [hits_flatMap, List.map_congr_left fun q hq => region_hits hw a planes i hp hh hq, sum_single (nodup_walked a i)]

omit hw

theorem plane_weight {M : Type} [AddCommMonoid M] (weight : ℚ → M) (plane : Plane) :
    ((planeWrites h plane).map fun w => if p = w.1 then weight w.2 else 0).sum = ((h.scale.pixel plane p).map weight).getD 0 := by
  unfold planeWrites
  rw [sum_filterMap]
  have e : ∀ j, (((h.scale.pixel plane j).map fun tmp => (j, tmp)).map fun w => if p = w.1 then weight w.2 else 0).getD 0 =
      if p = j then ((h.scale.pixel plane p).map weight).getD 0 else 0 := by
    intro j
    by_cases hj : p = j
    · subst hj
      cases h.scale.pixel plane p <;> simp
    · cases h.scale.pixel plane j <;> simp [hj]
  simp only [e]
  rw [sum_single List.nodup_range, if_pos (List.mem_range.mpr hp)]

/-- The raw plane's share: the physical value. -/
theorem planeWrites_added (plane : Plane) : added p (planeWrites h plane) = (h.scale.pixel plane p).getD 0 := by
  have hweight := plane_weight hp (fun v => v) plane
  rwa [Option.map_id'] at hweight

theorem planeWrites_hits (plane : Plane) :
    hits p (planeWrites h plane) = if (h.scale.pixel plane p).isSome then 1 else 0 := by
  have hweight := plane_weight hp (fun _ => 1) plane
  rwa [getD_isSome] at hweight

omit hp in
theorem frame_writes (hc : a.complete h i = true ∨ a.plane i = true) :
    (h.partialSource a planes : FrameSource C).writes h i =
      (a.walked h i).flatMap ((h.partialSource a planes : FrameSource C).regionWrites h i) ++
        if a.complete h i then [] else planeWrites h (planes i) := by
  unfold FrameSource.writes
  rw [partialSource_walked, partialSource_complete]
  by_cases hcomp : a.complete h i = true
  · rw [if_pos hcomp, if_pos hcomp]
  · rw [if_neg hcomp, if_neg hcomp]
    simp only [FitsHeader.partialSource, hc.resolve_left hcomp, if_true, Option.map_some, Option.getD_some]

include hw

theorem frame_added (hh : 0 < h.height) (hc : a.complete h i = true ∨ a.plane i = true) :
    added p ((h.partialSource a planes : FrameSource C).writes h i) =
      if a.complete h i then (h.scale.rescaled (planes i) p).getD 0
      else (if h.regionAt p ∈ a.walked h i then (h.scale.rescaled (planes i) p).getD 0 else 0) +
        (h.scale.pixel (planes i) p).getD 0 := by
  rw [frame_writes a planes i hc, added_append, cachedWrites_added hw a planes i hp hh]
  by_cases hcomp : a.complete h i = true
  · rw [if_pos hcomp, if_pos hcomp, walked_of_complete a i hcomp, if_pos (regionAt_mem hw hh hp)]
    exact add_zero _
  · rw [if_neg hcomp, if_neg hcomp, planeWrites_added hp]

theorem frame_hits (hh : 0 < h.height) (hc : a.complete h i = true ∨ a.plane i = true) :
    0 < hits p ((h.partialSource a planes : FrameSource C).writes h i) ↔
      if a.complete h i then (h.scale.rescaled (planes i) p).isSome = true
      else (h.scale.pixel (planes i) p).isSome = true := by
  rw [frame_writes a planes i hc, hits_append, cachedWrites_hits hw a planes i hp hh]
  by_cases hcomp : a.complete h i = true
  · rw [if_pos hcomp, if_pos hcomp, walked_of_complete a i hcomp, if_pos (regionAt_mem hw hh hp)]
    cases h.scale.rescaled (planes i) p <;> simp [hits]
  · rw [if_neg hcomp, if_neg hcomp, planeWrites_hits hp]
    cases hv : h.scale.pixel (planes i) p with
    | none => simp [Scale.rescaled, hv, Scale.physical]
    | some v => simp

end Frame

/-! ## The spectra of a frame -/

def FitsHeader.whole (h : FitsHeader) : Selection := ⟨.square, 0, h.width, 0, h.height, 0, 0, 0⟩

theorem spectra_sum (cdelt3 : ℚ) (writes : List (ℕ × ℚ)) :
    spectra cdelt3 writes =
      (reduceSpectrum true cdelt3 (writes.map Prod.snd).sum (writes.map fun _ => 1).sum,
        reduceSpectrum false cdelt3 (writes.map Prod.snd).sum (writes.map fun _ => 1).sum) := by
  have e : (writes.map fun _ => 1).sum = writes.length := by simp
  rw [spectra, e]

theorem spectra_planeWrites {h : FitsHeader} (hw : 0 < h.width) (plane : Plane) :
    spectra h.cdelt (planeWrites h plane) =
      (reduceSpectrum true h.cdelt (h.whole.sum (h.whole.pixel h plane)) (h.whole.count (h.whole.pixel h plane)),
        reduceSpectrum false h.cdelt (h.whole.sum (h.whole.pixel h plane)) (h.whole.count (h.whole.pixel h plane))) := by
  have total : ∀ {M : Type} [AddCommMonoid M] (F : ℕ × ℚ → M), ((planeWrites h plane).map F).sum =
      rect 0 h.width 0 h.height fun y x =>
        ((h.scale.pixel plane (y * h.width + x).toNat).map fun tmp => F ((y * h.width + x).toNat, tmp)).getD 0 := by
    intro M _ F
    unfold planeWrites
    rw [sum_filterMap, ← sum_range_rect hw fun j => ((h.scale.pixel plane j).map fun tmp => F (j, tmp)).getD 0,
      ← List.sum_toFinset _ List.nodup_range, List.toFinset_range]
    refine Finset.sum_congr rfl fun j _ => ?_
    rw [Option.map_map]
    rfl
  rw [spectra_sum, total, total]
  have sums : rect 0 h.width 0 h.height (fun y x => ((h.scale.pixel plane (y * h.width + x).toNat).map fun tmp => tmp).getD 0) =
      h.whole.sum (h.whole.pixel h plane) := by
    refine rect_congr fun y x _ _ _ _ => ?_
    rw [value, pixel_square rfl, Option.map_id']
  have counts : rect 0 h.width 0 h.height
      (fun y x => ((h.scale.pixel plane (y * h.width + x).toNat).map fun _ => 1).getD 0) =
      h.whole.count (h.whole.pixel h plane) := by
    refine rect_congr fun y x _ _ _ _ => ?_
    rw [present, pixel_square rfl]
    cases h.scale.pixel plane (y * h.width + x).toNat <;> rfl
  rw [sums, counts]

section Same

variable {h : FitsHeader} {plane : Plane}
  (same : ∀ p < (h.width * h.height).toNat, h.scale.rescaled plane p = h.scale.pixel plane p)

include same

/-- Where scaling again changes nothing, a region's spectra are its pixels'. -/
theorem spectra_regionWrites {q : ℤ × ℤ} (h1 : 0 ≤ q.1) (h2 : 0 ≤ q.2) :
    spectra h.cdelt (regionWrites h (f32tof16 (regionOf h.width h.height (h.scale.pixel plane) q.1 q.2) : C.Region) q) =
      (reduceSpectrum true h.cdelt (h.whole.tileSum (h.whole.pixel h plane) q) (h.whole.tileCount (h.whole.pixel h plane) q),
        reduceSpectrum false h.cdelt (h.whole.tileSum (h.whole.pixel h plane) q)
          (h.whole.tileCount (h.whole.pixel h plane) q)) := by
  rw [spectra_sum, regionWrites_sum h plane h1 h2, regionWrites_sum h plane h1 h2]
  have sums : tileRect ZFP_CACHE_REGION 0 h.width 0 h.height q.1 q.2
      (fun y x => ((h.scale.rescaled plane (y * h.width + x).toNat).map fun tmp => tmp).getD 0) =
      h.whole.tileSum (h.whole.pixel h plane) q := by
    refine tileRect_congr fun y x hy1 hy2 hx1 hx2 => ?_
    rw [value, pixel_square rfl, Option.map_id', same _ (rowMajor_lt ⟨hy1, hy2⟩ ⟨hx1, hx2⟩)]
  have counts : tileRect ZFP_CACHE_REGION 0 h.width 0 h.height q.1 q.2
      (fun y x => ((h.scale.rescaled plane (y * h.width + x).toNat).map fun _ => 1).getD 0) =
      h.whole.tileCount (h.whole.pixel h plane) q := by
    refine tileRect_congr fun y x hy1 hy2 hx1 hx2 => ?_
    rw [present, pixel_square rfl, same _ (rowMajor_lt ⟨hy1, hy2⟩ ⟨hx1, hx2⟩)]
    cases h.scale.pixel plane (y * h.width + x).toNat <;> rfl
  rw [sums, counts]

end Same

/-- The image's regions are the selection's, but for empty ones past the edge. -/
theorem sum_imageRegions {h : FitsHeader} (hw : 0 < h.width) (hh : 0 < h.height) (average : Bool)
    (tmp : ℤ → ℤ → Option ℚ) :
    (h.imageRegions.map fun q => reduceSpectrum average h.cdelt (h.whole.tileSum tmp q) (h.whole.tileCount tmp q)).sum =
      ∑ q ∈ h.whole.tiles, reduceSpectrum average h.cdelt (h.whole.tileSum tmp q) (h.whole.tileCount tmp q) := by
  rw [FitsHeader.imageRegions, sum_boxRegions]
  refine Finset.sum_subset (fun q hq => ?_) fun q _ hq => ?_
  · obtain ⟨hy, hx⟩ := Finset.mem_product.mp hq
    refine Finset.mem_product.mpr ?_
    simp only [makeIndices, ZFP_CACHE_REGION, Int.zero_tdiv, Finset.mem_Ico, FitsHeader.whole] at hy hx ⊢
    rw [Int.tdiv_eq_ediv_of_nonneg (by omega)] at hy hx ⊢
    rw [Int.tdiv_eq_ediv_of_nonneg (by omega)]
    omega
  · by_contra hne
    have hc : 0 < h.whole.tileCount tmp q := by
      by_contra h0
      refine hne ?_
      rw [show h.whole.tileCount tmp q = 0 by omega, reduceSpectrum_zero]
    obtain ⟨y, x, hy, hx, ⟨ey, ex⟩, -⟩ := tileCount_pos.mp hc
    refine hq (Finset.mem_product.mpr ?_)
    simp only [makeIndices, ZFP_CACHE_REGION, Int.zero_tdiv, Finset.mem_Ico, FitsHeader.whole] at hy hx ey ex ⊢
    rw [Int.tdiv_eq_ediv_of_nonneg (by omega), Int.tdiv_eq_ediv_of_nonneg (by omega)]
    omega

/-- The spectra of a frame read whole from the cache: the regions' added up. -/
theorem frame_spectra_cached {h : FitsHeader} (hw : 0 < h.width) (hh : 0 < h.height) (a : Availability)
    (planes : ℕ → Plane) {i : ℕ} (hcomp : a.complete h i = true)
    (same : ∀ p < (h.width * h.height).toNat, h.scale.rescaled (planes i) p = h.scale.pixel (planes i) p) :
    (h.partialSource a planes : FrameSource C).spectra h i =
      (∑ q ∈ h.whole.tiles, reduceSpectrum true h.cdelt (h.whole.tileSum (h.whole.pixel h (planes i)) q)
          (h.whole.tileCount (h.whole.pixel h (planes i)) q),
        ∑ q ∈ h.whole.tiles, reduceSpectrum false h.cdelt (h.whole.tileSum (h.whole.pixel h (planes i)) q)
          (h.whole.tileCount (h.whole.pixel h (planes i)) q)) := by
  have each : ∀ q ∈ a.walked h i, spectra h.cdelt ((h.partialSource a planes : FrameSource C).regionWrites h i q) =
      (reduceSpectrum true h.cdelt (h.whole.tileSum (h.whole.pixel h (planes i)) q)
          (h.whole.tileCount (h.whole.pixel h (planes i)) q),
        reduceSpectrum false h.cdelt (h.whole.tileSum (h.whole.pixel h (planes i)) q)
          (h.whole.tileCount (h.whole.pixel h (planes i)) q)) := by
    intro q hq
    obtain ⟨⟨h1, -⟩, h2, -⟩ := (mem_imageRegions hw hh).mp (mem_walked a i hq).1
    rw [walked_regionWrites a planes i hq, spectra_regionWrites same h1 h2]
  unfold FrameSource.spectra
  rw [partialSource_complete, if_pos hcomp, partialSource_walked,
    List.map_congr_left fun q hq => congrArg Prod.fst (each q hq),
    List.map_congr_left fun q hq => congrArg Prod.snd (each q hq), walked_of_complete a i hcomp]
  exact Prod.ext (sum_imageRegions hw hh true _) (sum_imageRegions hw hh false _)

theorem frame_spectra_raw {h : FitsHeader} (a : Availability) (planes : ℕ → Plane) {i : ℕ}
    (hcomp : ¬ a.complete h i = true) (hc : a.plane i = true) :
    (h.partialSource a planes : FrameSource C).spectra h i = spectra h.cdelt (planeWrites h (planes i)) := by
  unfold FrameSource.spectra
  rw [partialSource_complete, if_neg hcomp]
  simp only [FitsHeader.partialSource, hc, if_true, Option.map_some, Option.getD_some]

/-! ## Frames in order -/

/-- Scaling a valid value again gives it back, as with `bzero` 0 and `bscale` 1. -/
def Scale.Settles (s : Scale) : Prop := ∀ u v, s.word u = some v → s.bzero + s.bscale * v = v

/-- Scaling a valid value again gives 0, or a value the filter drops. -/
def Scale.Vanishes (s : Scale) : Prop :=
  ∀ u v, s.word u = some v → s.bzero + s.bscale * v = 0 ∨ s.ignored (s.bzero + s.bscale * v) = true

def Scale.OnlyZero (s : Scale) : Prop := ∀ u v, s.word u = some v → v = 0

/-- Frame `i`, `valid` being its valid pixels, is shown right from what of it is there. -/
structure FrameOk (h : FitsHeader) (a : Availability) (valid : ℕ → Bool) (i : ℕ) : Prop where
  cached : a.complete h i = true → (∀ p < (h.width * h.height).toNat, valid p = false) ∨
    h.scale.Settles ∧ (h.scale.OnlyZero ∨ h.whole.OneRegion h.width valid)
  partly : a.complete h i = false → h.scale.Vanishes ∨
    ∀ p < (h.width * h.height).toNat, h.regionAt p ∈ a.walked h i → valid p = false

theorem rescaled_settles {s : Scale} (hs : s.Settles) (plane : Plane) (p : ℕ) : s.rescaled plane p = s.pixel plane p := by
  cases h : s.pixel plane p with
  | none => exact rescaled_none h
  | some v => exact (Scale.rescaled_eq_iff h).mpr (hs _ _ h)

theorem rescaled_vanishes {s : Scale} (hs : s.Vanishes) (plane : Plane) (p : ℕ) : (s.rescaled plane p).getD 0 = 0 := by
  cases h : s.pixel plane p with
  | none => rw [rescaled_none h, Option.getD_none]
  | some v =>
    rw [Scale.rescaled, h, Scale.physical]
    rcases hs _ _ h with h0 | hi
    · split
      · rfl
      · exact h0
    · rw [if_pos hi]
      rfl

theorem value_onlyZero {h : FitsHeader} (hs : h.scale.OnlyZero) (sel : Selection) (plane : Plane) (y x : ℤ) :
    value (sel.pixel h plane) y x = 0 := by
  unfold value Selection.pixel
  split
  · cases hp : h.scale.pixel plane (y * h.width + x).toNat with
    | none => rfl
    | some v => exact hs _ _ hp
  · rfl

theorem reduceSpectrum_zero_sum (average : Bool) (cdelt3 : ℚ) (n : ℕ) : reduceSpectrum average cdelt3 0 n = 0 := by
  unfold reduceSpectrum
  split
  · split
    · exact zero_div _
    · exact zero_mul _
  · rfl

theorem means_onlyZero {h : FitsHeader} (hs : h.scale.OnlyZero) (sel : Selection) (plane : Plane) (cdelt3 : ℚ) :
    ∑ q ∈ sel.tiles, reduceSpectrum true cdelt3 (sel.tileSum (sel.pixel h plane) q) (sel.tileCount (sel.pixel h plane) q) =
      reduceSpectrum true cdelt3 (sel.sum (sel.pixel h plane)) (sel.count (sel.pixel h plane)) := by
  have tile : ∀ q, sel.tileSum (sel.pixel h plane) q = 0 := by
    intro q
    unfold Selection.tileSum tileRect
    simp only [value_onlyZero hs, Finset.sum_const_zero]
  have all : sel.sum (sel.pixel h plane) = 0 := by
    unfold Selection.sum rect
    simp only [value_onlyZero hs, Finset.sum_const_zero]
  simp only [tile, all, reduceSpectrum_zero_sum, Finset.sum_const_zero]

/-- Frame `i` adds its valid values, marks its valid pixels and has the raw plane's spectra. -/
structure FrameRight (src : FrameSource C) (h : FitsHeader) (plane : Plane) (i : ℕ) : Prop where
  adds : ∀ p < (h.width * h.height).toNat, added p (src.writes h i) = (h.scale.pixel plane p).getD 0
  marks : ∀ p < (h.width * h.height).toNat, 0 < hits p (src.writes h i) ↔ (h.scale.pixel plane p).isSome = true
  spectra : src.spectra h i = FitsWebQL.spectra h.cdelt (planeWrites h plane)

section Right

variable {h : FitsHeader} (hw : 0 < h.width) (hh : 0 < h.height) {a : Availability} {i : ℕ}
  (hc : a.complete h i = true ∨ a.plane i = true)

include hw hh hc

theorem frame_right {planes : ℕ → Plane} {valid : ℕ → Bool} (hv : ∀ j, (h.scale.pixel (planes i) j).isSome = valid j)
    (hok : FrameOk h a valid i) : FrameRight (h.partialSource a planes : FrameSource C) h (planes i) i := by
  have invalid : ∀ p, valid p = false → h.scale.pixel (planes i) p = none := by
    intro p hp
    rw [← Option.not_isSome_iff_eq_none, hv, hp]
    exact Bool.false_ne_true
  by_cases hcomp : a.complete h i = true
  · have same : ∀ p < (h.width * h.height).toNat, h.scale.rescaled (planes i) p = h.scale.pixel (planes i) p := by
      intro p hp
      rcases hok.cached hcomp with hnone | ⟨hs, -⟩
      · rw [rescaled_none (invalid p (hnone p hp)), invalid p (hnone p hp)]
      · exact rescaled_settles hs _ _
    refine ⟨fun p hp => ?_, fun p hp => ?_, ?_⟩
    · rw [frame_added hw a planes i hp hh hc, if_pos hcomp, same p hp]
    · rw [frame_hits hw a planes i hp hh hc, if_pos hcomp, same p hp]
    · rw [frame_spectra_cached hw hh a planes hcomp same, spectra_planeWrites hw]
      refine Prod.ext ?_ (sum_integrated (le_refl 0) (le_refl 0) _ _)
      rcases hok.cached hcomp with hnone | ⟨-, hzero | hone⟩
      · refine sum_oneRegion (le_refl 0) (le_refl 0) h (planes i) (fun y x y' x' ht _ hvalid _ => ?_) hv _ _
        rw [hnone _ (rowMajor_lt ht.1 ht.2.1)] at hvalid
        cases hvalid
      · exact means_onlyZero hzero _ _ _
      · exact sum_oneRegion (le_refl 0) (le_refl 0) h (planes i) hone hv _ _
  · refine ⟨fun p hp => ?_, fun p hp => ?_, frame_spectra_raw a planes hcomp (hc.resolve_left hcomp)⟩
    · rw [frame_added hw a planes i hp hh hc, if_neg hcomp]
      have hz : (if h.regionAt p ∈ a.walked h i then (h.scale.rescaled (planes i) p).getD 0 else 0) = 0 := by
        split
        · rcases hok.partly (Bool.eq_false_iff.mpr hcomp) with hs | hnone
          · exact rescaled_vanishes hs _ _
          · rw [rescaled_none (invalid p (hnone p hp ‹_›)), Option.getD_none]
        · rfl
      rw [hz, zero_add]
    · rw [frame_hits hw a planes i hp hh hc, if_neg hcomp]

/-- A frame shown right for every value its valid pixels may have is in order. -/
theorem frameOk_of_right {valid : ℕ → Bool} (planes : UInt32 → ℕ → Plane) (hpl : ∀ u, planes u i = constantPlane u valid)
    (hright : ∀ u v, h.scale.word u = some v → FrameRight (h.partialSource a (planes u) : FrameSource C) h (planes u i) i) :
    FrameOk h a valid i := by
  have pixel : ∀ u v, h.scale.word u = some v → ∀ p, valid p = true → h.scale.pixel (planes u i) p = some v := by
    intro u v hu p hp
    rw [hpl, pixel_constantPlane hu, if_pos hp]
  refine ⟨fun hcomp => ?_, fun hcomp => ?_⟩
  · by_cases hnone : ∀ p < (h.width * h.height).toNat, valid p = false
    · exact Or.inl hnone
    · push Not at hnone
      obtain ⟨p, hp, hvalid⟩ := hnone
      rw [ne_eq, Bool.not_eq_false] at hvalid
      have hs : h.scale.Settles := by
        intro u v hu
        have hr := hright u v hu
        have e1 := hr.adds p hp
        have e2 := hr.marks p hp
        rw [frame_added hw a _ i hp hh hc, if_pos hcomp, Scale.rescaled, pixel u v hu p hvalid] at e1
        rw [frame_hits hw a _ i hp hh hc, if_pos hcomp, Scale.rescaled, pixel u v hu p hvalid] at e2
        rw [Scale.physical] at e1 e2
        split at e1
        · rw [if_pos ‹_›] at e2
          exact absurd (e2.mpr rfl) Bool.false_ne_true
        · exact e1
      refine Or.inr ⟨hs, ?_⟩
      by_cases hzero : h.scale.OnlyZero
      · exact Or.inl hzero
      · unfold Scale.OnlyZero at hzero
        push Not at hzero
        obtain ⟨u, v, hu, hv0⟩ := hzero
        have e := (hright u v hu).spectra
        rw [frame_spectra_cached hw hh a (planes u) hcomp fun p _ => rescaled_settles hs _ p, spectra_planeWrites hw,
          hpl] at e
        exact Or.inr (oneRegion_of_constant (pixel_constantPlane hu valid) hv0 (le_refl 0) (le_refl 0) _ (congrArg Prod.fst e))
  · by_contra hn
    push Not at hn
    obtain ⟨hs, p, hp, hwalked, hvalid⟩ := hn
    rw [ne_eq, Bool.not_eq_false] at hvalid
    unfold Scale.Vanishes at hs
    push Not at hs
    obtain ⟨u, v, hu, hne, hi⟩ := hs
    have e := (hright u v hu).adds p hp
    rw [frame_added hw a _ i hp hh hc, if_neg (by rw [hcomp]; exact Bool.false_ne_true), if_pos hwalked, Scale.rescaled,
      pixel u v hu p hvalid, Scale.physical, if_neg hi] at e
    exact hne (add_eq_right.mp e)

end Right

/-! ## The image of a range -/

structure CubeResult.Right (r : CubeResult) (h : FitsHeader) (planes : ℕ → Plane) (start stop : ℤ) : Prop where
  pixels : ∀ p < (h.width * h.height).toNat,
    r.img.pixels p = ((framesOf start stop).map fun i => (h.scale.pixel (planes i) p).getD 0).sum
  mask : ∀ p < (h.width * h.height).toNat,
    r.img.mask p = if ∃ i ∈ framesOf start stop, (h.scale.pixel (planes i) p).isSome = true then 255 else 0
  mean : r.mean_spectrum = (framesOf start stop).map fun i => (spectra h.cdelt (planeWrites h (planes i))).1
  integrated : r.integrated_spectrum = (framesOf start stop).map fun i => (spectra h.cdelt (planeWrites h (planes i))).2

def CubeReply.Right (reply : CubeReply) (h : FitsHeader) (planes : ℕ → Plane) (start stop : ℤ) : Prop :=
  ∃ r, reply = .image r ∧ r.Right h planes start stop

theorem framesOf_single (i : ℕ) : framesOf i i = [i] := by
  unfold framesOf
  rw [min_self, max_self, ints_cons (by omega), ints_nil (le_refl _)]
  rfl

theorem mem_framesOf {h : FitsHeader} {start stop : ℤ} (ha : h.accepts start stop = true) {i : ℕ} (hi : i ∈ framesOf start stop) :
    (i : ℤ) < h.depth := by
  obtain ⟨j, hj, rfl⟩ := List.mem_map.mp hi
  rw [mem_ints] at hj
  have := accepts_range ha
  omega

theorem accepts_single {h : FitsHeader} (hb : h.bitpix = -32) {i : ℕ} (hi : (i : ℤ) < h.depth) : h.accepts i i = true := by
  simp only [FitsHeader.accepts, hb, Bool.and_eq_true, Bool.not_eq_true', Bool.or_eq_false_iff, decide_eq_false_iff_not]
  exact ⟨rfl, by omega⟩

section Cube

variable {h : FitsHeader} (hw : 0 < h.width) (hh : 0 < h.height) {a : Availability}
  (hc : ∀ i : ℕ, (i : ℤ) < h.depth → a.complete h i = true ∨ a.plane i = true) {max_threads : ℕ} (hmax : 0 < max_threads)
  {tid : ℕ → ℕ} (htid : ∀ i, tid i < max_threads) {planes : ℕ → Plane}

include hmax htid

/-- A reply about one frame, into cleared buffers: it is right when the frame is. -/
theorem frameRight_of_cube {src : FrameSource C} (hsize : max_threads ≤ (h.width * h.height).toNat) (hb : h.bitpix = -32)
    {i : ℕ} (hi : (i : ℤ) < h.depth) (hr : (getCube h src max_threads tid PlaneBuffer.cleared i i).Right h planes i i) :
    FrameRight src h (planes i) i := by
  obtain ⟨r, he, hpix, hmask, hmean, hint⟩ := getCube_eq h src hmax tid htid PlaneBuffer.cleared (accepts_single hb hi) hsize
  obtain ⟨r', he', hr⟩ := hr
  rw [he] at he'
  cases he'
  have clear : ∀ p, PlaneBuffer.cleared.pixels p = 0 ∧ PlaneBuffer.cleared.mask p = 0 := fun p => ⟨rfl, rfl⟩
  simp only [framesOf_single, List.map_cons, List.map_nil, List.sum_cons, List.sum_nil, add_zero, List.mem_singleton,
    exists_eq_left, (clear _).1, (clear _).2, zero_add] at hpix hmask hmean hint
  have rpix := hr.pixels
  have rmask := hr.mask
  have rmean := hr.mean
  have rint := hr.integrated
  simp only [framesOf_single, List.map_cons, List.map_nil, List.sum_cons, List.sum_nil, add_zero, List.mem_singleton,
    exists_eq_left] at rpix rmask rmean rint
  refine ⟨fun p hp => (hpix p hp).symm.trans (rpix p hp), fun p hp => ?_, ?_⟩
  · have e := (hmask p hp).symm.trans (rmask p hp)
    by_cases h1 : 0 < hits p (src.writes h i)
    · by_cases h2 : (h.scale.pixel (planes i) p).isSome = true
      · exact ⟨fun _ => h2, fun _ => h1⟩
      · rw [if_pos h1, if_neg h2] at e
        exact absurd e (by decide)
    · by_cases h2 : (h.scale.pixel (planes i) p).isSome = true
      · rw [if_neg h1, if_pos h2] at e
        exact absurd e (by decide)
      · exact ⟨fun h => absurd h h1, fun h => absurd h h2⟩
  · rw [hmean] at rmean
    rw [hint] at rint
    exact Prod.ext (List.cons.inj rmean).1 (List.cons.inj rint).1

/-- With every frame of the range right, the reply is right when the result buffers come
    cleared: the pixels, and the mask where nothing is valid. -/
theorem cube_right_of_frames {src : FrameSource C} (hsize : max_threads ≤ (h.width * h.height).toNat) {start stop : ℤ}
    (ha : h.accepts start stop = true) (hf : ∀ i ∈ framesOf start stop, FrameRight src h (planes i) i) (img : PlaneBuffer) :
    (getCube h src max_threads tid img start stop).Right h planes start stop ↔
      ∀ p < (h.width * h.height).toNat, img.pixels p = 0 ∧
        (img.mask p = 0 ∨ ∃ i ∈ framesOf start stop, (h.scale.pixel (planes i) p).isSome = true) := by
  obtain ⟨r, he, hpix, hmask, hmean, hint⟩ := getCube_eq h src hmax tid htid img ha hsize
  have valid : ∀ p < (h.width * h.height).toNat, (∃ i ∈ framesOf start stop, 0 < hits p (src.writes h i)) ↔
      ∃ i ∈ framesOf start stop, (h.scale.pixel (planes i) p).isSome = true := by
    intro p hp
    constructor
    · rintro ⟨i, hi, hpos⟩
      exact ⟨i, hi, ((hf i hi).marks p hp).mp hpos⟩
    · rintro ⟨i, hi, hv⟩
      exact ⟨i, hi, ((hf i hi).marks p hp).mpr hv⟩
  have sums : ∀ p < (h.width * h.height).toNat, (framesOf start stop).map (fun i => added p (src.writes h i)) =
      (framesOf start stop).map fun i => (h.scale.pixel (planes i) p).getD 0 :=
    fun p hp => List.map_congr_left fun i hi => (hf i hi).adds p hp
  constructor
  · rintro ⟨r', he', hr⟩ p hp
    rw [he] at he'
    cases he'
    have e1 := (hpix p hp).symm.trans (hr.pixels p hp)
    have e2 := (hmask p hp).symm.trans (hr.mask p hp)
    rw [sums p hp] at e1
    refine ⟨add_eq_right.mp e1, ?_⟩
    by_cases hv : ∃ i ∈ framesOf start stop, (h.scale.pixel (planes i) p).isSome = true
    · exact Or.inr hv
    · rw [if_neg fun hx => hv ((valid p hp).mp hx), if_neg hv] at e2
      exact Or.inl e2
  · intro hclear
    refine ⟨r, he, fun p hp => ?_, fun p hp => ?_, ?_, ?_⟩
    · rw [hpix p hp, (hclear p hp).1, zero_add, sums p hp]
    · rw [hmask p hp]
      by_cases hv : ∃ i ∈ framesOf start stop, (h.scale.pixel (planes i) p).isSome = true
      · rw [if_pos ((valid p hp).mpr hv), if_pos hv]
      · rw [if_neg fun hx => hv ((valid p hp).mp hx), if_neg hv]
        exact (hclear p hp).2.resolve_right hv
    · rw [hmean]
      exact List.map_congr_left fun i hi => congrArg Prod.fst (hf i hi).spectra
    · rw [hint]
      exact List.map_congr_left fun i hi => congrArg Prod.snd (hf i hi).spectra

end Cube

/-- A pixel for every thread, and every frame in order. -/
def CubeOk (h : FitsHeader) (a : Availability) (planes : ℕ → Plane) (max_threads : ℕ) : Prop :=
  max_threads ≤ (h.width * h.height).toNat ∧
    ∀ i : ℕ, (i : ℤ) < h.depth → FrameOk h a (fun j => (h.scale.pixel (planes i) j).isSome) i

def allCached : Availability := ⟨fun _ => true, fun _ => true, fun _ _ _ => true, fun _ => false⟩

end FitsWebQL
