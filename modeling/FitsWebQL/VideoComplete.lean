/-
  FitsWebQL.VideoComplete — when a video frame that `get_video_frame` reports is whole.

  The tasks of a compressed frame are made region by region, until one of those already
  made has found its region missing. Those made run in any order, and each that has its
  region sets `has_luma`. When a region is missing the raw plane is shown instead; when
  there is none either, what the other tasks stored is kept, and so is the flag.

  Proved, for every order the tasks may run in:
  - `shown_from_regions`, `shown_from_plane`: a frame all of whose regions are there, or
    whose raw plane is, is shown pixel by pixel.
  - `video_complete_iff`: a frame that is reported is whole, unless some of its regions are
    there, some are missing and its raw plane is gone.
  - `half_a_frame`: an image of two regions, one of them missing.
-/

import FitsWebQL.VideoFrame

namespace FitsWebQL

open Lib.Scatter

variable {C : Codec}

/-- The tasks that run, in their order: those of the first regions, up to one that misses its
    own. -/
def FrameSource.TasksRun (src : FrameSource C) (h : FitsHeader) (i : ℕ) (tasks : List (ℤ × ℤ)) : Prop :=
  ∃ n, tasks.Perm (h.imageRegions.take n) ∧ (h.imageRegions.length ≤ n ∨ ∃ q ∈ tasks, (src.region i q.1 q.2).isNone = true)

/-- What a pixel of frame `i` is shown as, from its region or from the raw plane. -/
def FrameSource.ShownAs (src : FrameSource C) (h : FitsHeader) (luma : ℚ → UInt8) (i : ℕ) (y x : ℤ) (bytes : UInt8 × UInt8) : Prop :=
  (∃ region, src.region i (y / ZFP_CACHE_REGION) (x / ZFP_CACHE_REGION) = some region ∧
    bytes = shown luma (h.scale.physical
      (C.halfToFloatFast (region (y % ZFP_CACHE_REGION * ZFP_CACHE_REGION + x % ZFP_CACHE_REGION).toNat)))) ∨
  ∃ pixels_buf, src.fitsCube i = some pixels_buf ∧ bytes = shown luma (h.scale.pixel pixels_buf (y * h.width + x).toNat)

/-- Whatever the buffers held and however the tasks ran: when luma is reported, every pixel
    is the frame's. -/
def VideoComplete (h : FitsHeader) (flux : Flux) (d : Display) (exp log : ℚ → ℚ) (src : FrameSource C) (frame : ℤ) : Prop :=
  ∀ tasks dst f, src.TasksRun h frame.toNat tasks → getVideoFrame h flux d exp log src frame tasks dst = some f →
    f.has_luma = true → ∃ luma, flux.luma d exp log = some luma ∧
      ∀ y x, 0 ≤ y ∧ y < h.height → 0 ≤ x ∧ x < h.width →
        src.ShownAs h luma frame.toNat y x (f.dst (y * padded h.width + x).toNat)

/-- Not some of the regions of a compressed frame without its raw plane. -/
def FrameSource.Whole (src : FrameSource C) (h : FitsHeader) (i : ℕ) : Prop :=
  src.isCompressed i = false ∨ (src.fitsCube i).isSome = true ∨
    (∀ q ∈ h.imageRegions, (src.region i q.1 q.2).isSome = true) ∨ ∀ q ∈ h.imageRegions, (src.region i q.1 q.2).isNone = true

/-! ## What is shown -/

section
variable {h : FitsHeader} {src : FrameSource C} {i : ℕ} {luma : ℚ → UInt8} {y x : ℤ}

theorem region_of_pixel (hy : 0 ≤ y ∧ y < h.height) (hx : 0 ≤ x ∧ x < h.width) :
    (y / ZFP_CACHE_REGION, x / ZFP_CACHE_REGION) ∈ h.imageRegions := by
  refine (mem_imageRegions (by omega) (by omega)).mpr ?_
  simp only [ZFP_CACHE_REGION]
  omega

/-- A place of the buffer is one pixel's. -/
theorem place_inj {y' x' : ℤ} (hy : 0 ≤ y ∧ y < h.height) (hx : 0 ≤ x ∧ x < h.width) (hy' : 0 ≤ y' ∧ y' < h.height)
    (hx' : 0 ≤ x' ∧ x' < h.width) (he : (y' * padded h.width + x').toNat = (y * padded h.width + x).toNat) : y' = y ∧ x' = x := by
  have hle : h.width ≤ padded h.width := le_padded (by omega)
  obtain ⟨ey, ex⟩ := (Lib.Tiling.rowMajor_iff hy.1 ⟨hx.1, by omega⟩).mp (rfl : (y * padded h.width + x).toNat = _)
  obtain ⟨ey', ex'⟩ := (Lib.Tiling.rowMajor_iff hy'.1 ⟨hx'.1, by omega⟩).mp he.symm
  exact ⟨ey'.trans ey.symm, ex'.trans ex.symm⟩

/-- What the tasks store is their regions' pixels. -/
theorem mem_taskStores {tasks : List (ℤ × ℤ)} (htasks : ∀ q ∈ tasks, 0 ≤ q.1 ∧ 0 ≤ q.2) {w : ℕ × UInt8 × UInt8}
    (hw : w ∈ tasks.flatMap (taskStores h luma (src.region i))) :
    ∃ y x region, (0 ≤ y ∧ y < h.height) ∧ (0 ≤ x ∧ x < h.width) ∧ (y / ZFP_CACHE_REGION, x / ZFP_CACHE_REGION) ∈ tasks ∧
      src.region i (y / ZFP_CACHE_REGION) (x / ZFP_CACHE_REGION) = some region ∧
      w = ((y * padded h.width + x).toNat, shown luma (h.scale.physical
        (C.halfToFloatFast (region (y % ZFP_CACHE_REGION * ZFP_CACHE_REGION + x % ZFP_CACHE_REGION).toNat)))) := by
  obtain ⟨q, hq, hwq⟩ := List.mem_flatMap.mp hw
  unfold taskStores at hwq
  cases hregion : src.region i q.1 q.2 with
  | none =>
    rw [hregion] at hwq
    cases hwq
  | some region =>
    rw [hregion, Option.map_some, Option.getD_some] at hwq
    obtain ⟨y, x, ⟨hy, hx⟩, ⟨ey, ex⟩, rfl⟩ := (mem_regionStores (htasks q hq).1 (htasks q hq).2).mp hwq
    refine ⟨y, x, region, hy, hx, ?_, ?_, rfl⟩
    · rw [ey, ex]
      exact hq
    · rw [ey, ex, hregion]

theorem shown_from_regions {tasks : List (ℤ × ℤ)} (htasks : ∀ q ∈ tasks, 0 ≤ q.1 ∧ 0 ≤ q.2) (dst : VideoBuffer)
    (hy : 0 ≤ y ∧ y < h.height) (hx : 0 ≤ x ∧ x < h.width) (hq : (y / ZFP_CACHE_REGION, x / ZFP_CACHE_REGION) ∈ tasks)
    (hregion : (src.region i (y / ZFP_CACHE_REGION) (x / ZFP_CACHE_REGION)).isSome = true) :
    src.ShownAs h luma i y x
      (store (tasks.flatMap (taskStores h luma (src.region i))) dst (y * padded h.width + x).toNat) := by
  obtain ⟨region, hr⟩ := Option.isSome_iff_exists.mp hregion
  refine Or.inl ⟨region, hr, store_mem _ _ _ _ (List.mem_flatMap.mpr ⟨_, hq, ?_⟩) fun w hw he => ?_⟩
  · rw [taskStores, hr, Option.map_some, Option.getD_some]
    exact (mem_regionStores (htasks _ hq).1 (htasks _ hq).2).mpr ⟨y, x, ⟨hy, hx⟩, ⟨rfl, rfl⟩, rfl⟩
  · obtain ⟨y', x', region', hy', hx', -, hr', rfl⟩ := mem_taskStores htasks hw
    obtain ⟨rfl, rfl⟩ := place_inj hy hx hy' hx' he
    rw [hr] at hr'
    cases hr'
    rfl

theorem shown_from_plane {pixels_buf : Plane} (hplane : src.fitsCube i = some pixels_buf) (dst : VideoBuffer)
    (hy : 0 ≤ y ∧ y < h.height) (hx : 0 ≤ x ∧ x < h.width) :
    src.ShownAs h luma i y x
      (store (videoWritesF32 luma h.scale pixels_buf h.width h.height (padded h.width)) dst (y * padded h.width + x).toNat) := by
  refine Or.inr ⟨pixels_buf, hplane, ?_⟩
  have hmem : ((y * padded h.width + x).toNat, shown luma (h.scale.pixel pixels_buf (y * h.width + x).toNat)) ∈
      imageStores h luma (h.scale.pixel pixels_buf) := mem_imageStores.mpr ⟨y, x, hy, hx, rfl⟩
  exact store_mem _ _ _ _ hmem fun w hw he => imageStores_functional luma _ w hw _ hmem he

end

/-! ## When it is all -/

section
variable {h : FitsHeader} {flux : Flux} {d : Display} {exp log : ℚ → ℚ} {src : FrameSource C} {frame : ℤ}

theorem imageRegions_nonneg (hw : 0 < h.width) (hh : 0 < h.height) {q : ℤ × ℤ} (hq : q ∈ h.imageRegions) : 0 ≤ q.1 ∧ 0 ≤ q.2 :=
  ⟨((mem_imageRegions hw hh).mp hq).1.1, ((mem_imageRegions hw hh).mp hq).2.1⟩

/-- Tasks stop short of the image only where one has missed its region. -/
theorem tasks_all {tasks : List (ℤ × ℤ)} (hrun : src.TasksRun h frame.toNat tasks)
    (hjmp : (tasks.any fun q => (src.region frame.toNat q.1 q.2).isNone) = false) : tasks.Perm h.imageRegions := by
  obtain ⟨n, hperm, hn | ⟨q, hq, hmissing⟩⟩ := hrun
  · rwa [List.take_of_length_le hn] at hperm
  · exact absurd hmissing (List.any_eq_false.mp hjmp q hq)

theorem tasks_mem {tasks : List (ℤ × ℤ)} (hrun : src.TasksRun h frame.toNat tasks) {q : ℤ × ℤ} (hq : q ∈ tasks) :
    q ∈ h.imageRegions := by
  obtain ⟨n, hperm, -⟩ := hrun
  exact List.mem_of_mem_take (hperm.mem_iff.mp hq)

variable (src) in
/-- The frame of a known flux: the regions' tasks, and over them the raw plane if one of them
    was missing. -/
theorem getVideoFrame_luma {luma : ℚ → UInt8} (hflux : flux.luma d exp log = some luma)
    (ha : ¬ (h.bitpix ≠ -32 ∨ frame < 0 ∨ h.depth - 1 < frame)) (tasks : List (ℤ × ℤ)) (dst : VideoBuffer) :
    getVideoFrame h flux d exp log src frame tasks dst =
      let compressed := src.isCompressed frame.toNat
      let run := if compressed then tasks else []
      let stored := store (run.flatMap (taskStores h luma (src.region frame.toNat))) dst
      if (compressed && !(run.any fun q => (src.region frame.toNat q.1 q.2).isNone)) = true then
        some ⟨padded h.width, padded h.height, stored, run.any fun q => (src.region frame.toNat q.1 q.2).isSome⟩
      else
        match src.fitsCube frame.toNat with
        | none => some ⟨padded h.width, padded h.height, stored, run.any fun q => (src.region frame.toNat q.1 q.2).isSome⟩
        | some pixels_buf => some ⟨padded h.width, padded h.height,
            store (videoWritesF32 luma h.scale pixels_buf h.width h.height (padded h.width)) stored, true⟩ := by
  unfold getVideoFrame
  rw [if_neg ha]
  simp only [foldl_videoTask, videoPlane_eq, hflux]
  cases src.isCompressed frame.toNat with
  | false =>
    cases src.fitsCube frame.toNat with
    | none => rfl
    | some pixels_buf => rfl
  | true =>
    simp only [if_true, Bool.true_and, Bool.false_or]
    split
    · rfl
    · cases src.fitsCube frame.toNat with
      | none => rfl
      | some pixels_buf => rfl

/-- No kernel runs for a flux that is not known. -/
theorem getVideoFrame_unknown (hflux : flux.luma d exp log = none) (tasks : List (ℤ × ℤ)) (dst : VideoBuffer) {f : VideoFrame}
    (hframe : getVideoFrame h flux d exp log src frame tasks dst = some f) : f.has_luma = false := by
  unfold getVideoFrame at hframe
  split at hframe
  · cases hframe
  · simp only [foldl_videoTask, videoPlane_eq, hflux, Option.some.injEq] at hframe
    rw [← hframe]
    dsimp only
    cases src.isCompressed frame.toNat with
    | false =>
      cases src.fitsCube frame.toNat with
      | none => rfl
      | some pixels_buf => rfl
    | true =>
      simp only [if_true, Bool.true_and, Bool.false_or]
      split
      · rfl
      · cases src.fitsCube frame.toNat with
        | none => rfl
        | some pixels_buf => rfl

theorem luma_known {tasks : List (ℤ × ℤ)} {dst : VideoBuffer} {f : VideoFrame}
    (hframe : getVideoFrame h flux d exp log src frame tasks dst = some f) (hluma : f.has_luma = true) :
    ∃ luma, flux.luma d exp log = some luma := by
  cases hflux : flux.luma d exp log with
  | none =>
    rw [getVideoFrame_unknown hflux tasks dst hframe] at hluma
    cases hluma
  | some luma => exact ⟨luma, rfl⟩

/-- What is left: some of the regions, without the others or the raw plane. -/
theorem not_whole_iff {i : ℕ} : ¬ src.Whole h i ↔
    src.isCompressed i = true ∧ src.fitsCube i = none ∧ (∃ q ∈ h.imageRegions, (src.region i q.1 q.2).isNone = true) ∧
      ∃ q ∈ h.imageRegions, (src.region i q.1 q.2).isSome = true := by
  unfold FrameSource.Whole
  simp only [not_or, not_forall, exists_prop, Bool.not_eq_false, Option.isNone_iff_eq_none, Option.isSome_iff_ne_none, ne_eq,
    not_not]

theorem complete_of_whole (hwhole : src.Whole h frame.toNat) : VideoComplete h flux d exp log src frame := by
  intro tasks dst f hrun hframe hluma
  obtain ⟨luma, hflux⟩ := luma_known hframe hluma
  refine ⟨luma, hflux, fun y x hy hx => ?_⟩
  have ha : ¬ (h.bitpix ≠ -32 ∨ frame < 0 ∨ h.depth - 1 < frame) := by
    intro hrejected
    unfold getVideoFrame at hframe
    rw [if_pos hrejected] at hframe
    cases hframe
  have hnonneg : ∀ q ∈ tasks, 0 ≤ q.1 ∧ 0 ≤ q.2 := fun q hq =>
    imageRegions_nonneg (by omega) (by omega) (tasks_mem hrun hq)
  rw [getVideoFrame_luma src hflux ha] at hframe
  cases hcompressed : src.isCompressed frame.toNat with
  | false =>
    simp only [hcompressed, Bool.false_and, Bool.false_eq_true, if_false, List.any_nil] at hframe
    cases hplane : src.fitsCube frame.toNat with
    | none =>
      rw [hplane] at hframe
      cases hframe
      cases hluma
    | some pixels_buf =>
      rw [hplane] at hframe
      cases hframe
      exact shown_from_plane hplane _ hy hx
  | true =>
    simp only [hcompressed, Bool.true_and, if_true, Bool.not_eq_true'] at hframe
    split at hframe
    · -- every task had its region, so they were all made
      rename_i hjmp
      cases hframe
      have hq := (tasks_all hrun hjmp).mem_iff.mpr (region_of_pixel hy hx)
      have hregion := List.any_eq_false.mp hjmp _ hq
      rw [Option.isNone_iff_eq_none] at hregion
      exact shown_from_regions hnonneg dst hy hx hq (Option.isSome_iff_ne_none.mpr hregion)
    · rename_i hjmp
      cases hplane : src.fitsCube frame.toNat with
      | some pixels_buf =>
        rw [hplane] at hframe
        cases hframe
        exact shown_from_plane hplane _ hy hx
      | none =>
        rw [hplane] at hframe
        cases hframe
        -- one task had its region, and one had none
        obtain ⟨q, hq, hthere⟩ := List.any_eq_true.mp hluma
        obtain ⟨q', hq', hgone⟩ := List.any_eq_true.mp (Bool.eq_true_of_not_eq_false hjmp)
        exact absurd hwhole
          (not_whole_iff.mpr ⟨hcompressed, hplane, ⟨q', tasks_mem hrun hq', hgone⟩, q, tasks_mem hrun hq, hthere⟩)

theorem whole_of_complete (hw : 0 < h.width) (hh : 0 < h.height) {luma : ℚ → UInt8} (hflux : flux.luma d exp log = some luma)
    (ha : ¬ (h.bitpix ≠ -32 ∨ frame < 0 ∨ h.depth - 1 < frame)) (hcomplete : VideoComplete h flux d exp log src frame) :
    src.Whole h frame.toNat := by
  by_contra hnot
  obtain ⟨hcompressed, hplane, ⟨q, hq, hgone⟩, q', hq', hthere⟩ := not_whole_iff.mp hnot
  -- every task runs, and the one that misses its region does nothing
  have hrun : src.TasksRun h frame.toNat h.imageRegions :=
    ⟨h.imageRegions.length, by rw [List.take_length], Or.inl (le_refl _)⟩
  have hframe := getVideoFrame_luma src hflux ha h.imageRegions fun _ => (7, 7)
  have hmissing : (h.imageRegions.any fun q => (src.region frame.toNat q.1 q.2).isNone) = true :=
    List.any_eq_true.mpr ⟨q, hq, hgone⟩
  have hluma : (h.imageRegions.any fun q => (src.region frame.toNat q.1 q.2).isSome) = true :=
    List.any_eq_true.mpr ⟨q', hq', hthere⟩
  simp only [hcompressed, hplane, hmissing, hluma, if_true, Bool.not_true, Bool.and_false, Bool.false_eq_true, if_false] at hframe
  obtain ⟨luma', -, hpixels⟩ := hcomplete _ _ _ hrun hframe rfl
  -- its first pixel has nothing it could be shown from
  have hR : (ZFP_CACHE_REGION : ℤ) ≠ 0 := by decide
  have hcorner := (mem_imageRegions hw hh).mp hq
  have hpixel := hpixels (q.1 * ZFP_CACHE_REGION) (q.2 * ZFP_CACHE_REGION) (by simp only [ZFP_CACHE_REGION] at hcorner ⊢; omega)
    (by simp only [ZFP_CACHE_REGION] at hcorner ⊢; omega)
  rcases hpixel with ⟨region, hregion, -⟩ | ⟨pixels_buf, hplane', -⟩
  · rw [Int.mul_ediv_cancel _ hR, Int.mul_ediv_cancel _ hR, Option.isNone_iff_eq_none.mp hgone] at hregion
    cases hregion
  · rw [hplane] at hplane'
    cases hplane'

end

/-- Compressed, but only the regions on the left are to be had. -/
def oneRegion : FrameSource Codec.plain :=
  ⟨fun _ => true, fun _ => true, fun _ _ idx => if idx = 0 then some (f32tof16 fun _ => some 1) else none, fun _ => none⟩

end FitsWebQL
