/-
  FitsWebQL.ImageScale — the scale at which an image is shown (`get_image_scale`), in the
  server, which resizes the image, and in the browser, which draws it. An image that is wider
  than high is scaled to 0.9 of the client's height, and to 0.8 of its width where it would be
  wider than that; a higher one the other way round. A square is scaled to the whole part of
  0.9 of the smaller side.

  Exact arithmetic: the server's `0.9f` is 0.9.

  Proved, for every size of the client area and of the image:
  - `imageScale_agrees_and_fits`: the scale is the same, and with it the image has at most
    0.8 of the width and 0.9 of the height, a square at most 0.9 of the smaller side.
-/

import Mathlib

namespace FitsWebQL

/-! ## In the server -/

def getScreenScale (x : ℤ) : ℚ := ⌊0.9 * (x : ℚ)⌋

def getImageScaleSquare (width height img_width img_height : ℤ) : ℚ :=
  let screen_dimension := getScreenScale (min width height)
  let image_dimension : ℚ := (max img_width img_height : ℤ)
  screen_dimension / image_dimension

def getImageScale (width height img_width img_height : ℤ) : ℚ :=
  if img_width = img_height then getImageScaleSquare width height img_width img_height
  else if img_height < img_width then
    let scale := 0.9 * (height : ℚ) / img_height
    let new_image_width := scale * img_width
    if 0.8 * (width : ℚ) < new_image_width then 0.8 * width / img_width else scale
  else if img_width < img_height then
    let scale := 0.8 * (width : ℚ) / img_width
    let new_image_height := scale * img_height
    if 0.9 * (height : ℚ) < new_image_height then 0.9 * height / img_height else scale
  else 1

/-! ## In the browser -/

def browserScreenScale (x : ℚ) : ℚ := ⌊0.9 * x⌋

def browserImageScaleSquare (width height img_width img_height : ℚ) : ℚ :=
  let screen_dimension := browserScreenScale (min width height)
  let image_dimension := max img_width img_height
  screen_dimension / image_dimension

/-- `none` is `undefined`. -/
def browserImageScale (width height img_width img_height : ℚ) : Option ℚ :=
  if img_width = img_height then some (browserImageScaleSquare width height img_width img_height)
  else if img_height < img_width then
    let scale := 0.9 * height / img_height
    let new_image_width := scale * img_width
    some (if 0.8 * width < new_image_width then 0.8 * width / img_width else scale)
  else if img_width < img_height then
    let scale := 0.8 * width / img_width
    let new_image_height := scale * img_height
    some (if 0.9 * height < new_image_height then 0.9 * height / img_height else scale)
  else none

/-! ## The fit -/

structure ShownImage where
  width : ℤ
  height : ℤ
  img_width : ℤ
  img_height : ℤ
  width_pos : 0 < width
  height_pos : 0 < height
  img_width_pos : 0 < img_width
  img_height_pos : 0 < img_height

namespace ShownImage

variable (s : ShownImage)

def scale : ℚ := getImageScale s.width s.height s.img_width s.img_height

/-- What the image's sides are scaled to stays within the margins. -/
def Fits : Prop :=
  0 ≤ s.scale ∧
    if s.img_width = s.img_height then s.scale * s.img_width ≤ 0.9 * (min s.width s.height : ℤ)
    else s.scale * s.img_width ≤ 0.8 * s.width ∧ s.scale * s.img_height ≤ 0.9 * s.height

end ShownImage

/-- One side decides: scaled to `a`, or to `b` along the other side if that would be exceeded. -/
theorem scaled_sides {a b u v : ℚ} (hu : 0 < u) (hv : 0 < v) :
    let scale := if b < a / u * v then b / v else a / u
    scale * u ≤ a ∧ scale * v ≤ b := by
  intro scale
  have hu' : a / u * u = a := div_mul_cancel₀ a hu.ne'
  have hv' : b / v * v = b := div_mul_cancel₀ b hv.ne'
  by_cases h : b < a / u * v
  · have hscale : scale = b / v := if_pos h
    rw [hscale]
    refine ⟨?_, hv'.le⟩
    have hless : b / v ≤ a / u := (div_le_iff₀ hv).mpr h.le
    exact (mul_le_mul_of_nonneg_right hless hu.le).trans hu'.le
  · have hscale : scale = a / u := if_neg h
    rw [hscale]
    exact ⟨hu'.le, not_lt.mp h⟩

theorem getImageScale_agrees (s : ShownImage) :
    browserImageScale s.width s.height s.img_width s.img_height = some s.scale := by
  unfold browserImageScale ShownImage.scale getImageScale
  simp only [Int.cast_inj, Int.cast_lt]
  rcases lt_trichotomy s.img_width s.img_height with h | h | h
  · rw [if_neg h.ne, if_neg h.not_gt, if_pos h, if_neg h.ne, if_neg h.not_gt, if_pos h]
  · rw [if_pos h, if_pos h]
    unfold browserImageScaleSquare getImageScaleSquare browserScreenScale getScreenScale
    rw [Int.cast_min, Int.cast_max]
  · rw [if_neg h.ne', if_pos h, if_neg h.ne', if_pos h]

theorem getImageScale_nonneg (s : ShownImage) : 0 ≤ s.scale := by
  have hw : (0 : ℚ) < s.width := by exact_mod_cast s.width_pos
  have hh : (0 : ℚ) < s.height := by exact_mod_cast s.height_pos
  have hiw : (0 : ℚ) < s.img_width := by exact_mod_cast s.img_width_pos
  have hih : (0 : ℚ) < s.img_height := by exact_mod_cast s.img_height_pos
  unfold ShownImage.scale getImageScale
  dsimp only
  split
  · unfold getImageScaleSquare getScreenScale
    have hside : (0 : ℚ) < (min s.width s.height : ℤ) := by exact_mod_cast lt_min s.width_pos s.height_pos
    have himage : (0 : ℚ) ≤ (max s.img_width s.img_height : ℤ) := by exact_mod_cast (lt_max_of_lt_left s.img_width_pos).le
    have hfloor : (0 : ℤ) ≤ ⌊0.9 * ((min s.width s.height : ℤ) : ℚ)⌋ := Int.floor_nonneg.mpr (by positivity)
    exact div_nonneg (by exact_mod_cast hfloor) himage
  · split
    · split <;> positivity
    · split
      · split <;> positivity
      · exact zero_le_one

theorem getImageScale_fits (s : ShownImage) : s.Fits := by
  have hiw : (0 : ℚ) < s.img_width := by exact_mod_cast s.img_width_pos
  have hih : (0 : ℚ) < s.img_height := by exact_mod_cast s.img_height_pos
  refine ⟨getImageScale_nonneg s, ?_⟩
  unfold ShownImage.scale getImageScale
  dsimp only
  rcases lt_trichotomy s.img_width s.img_height with h | h | h
  · rw [if_neg h.ne, if_neg h.ne, if_neg h.not_gt, if_pos h]
    exact scaled_sides hiw hih
  · rw [if_pos h, if_pos h]
    unfold getImageScaleSquare getScreenScale
    dsimp only
    rw [← h, max_self, div_mul_cancel₀ _ hiw.ne']
    exact Int.floor_le _
  · rw [if_neg h.ne', if_neg h.ne', if_pos h]
    exact And.symm (scaled_sides hih hiw)

theorem imageScale_agrees_and_fits (s : ShownImage) :
    browserImageScale s.width s.height s.img_width s.img_height = some (getImageScale s.width s.height s.img_width s.img_height) ∧
      s.Fits :=
  ⟨getImageScale_agrees s, getImageScale_fits s⟩

/-- Three times as wide as high: the width decides. -/
def panorama : ShownImage where
  width := 1280
  height := 720
  img_width := 3000
  img_height := 1000
  width_pos := by decide
  height_pos := by decide
  img_width_pos := by decide
  img_height_pos := by decide

theorem imageScale_agrees_and_fits_panorama : panorama.scale = 128 / 375 ∧
    browserImageScale panorama.width panorama.height panorama.img_width panorama.img_height = some panorama.scale ∧
    panorama.Fits :=
  ⟨by decide +kernel, imageScale_agrees_and_fits panorama⟩

end FitsWebQL
