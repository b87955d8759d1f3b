/-
  FitsWebQL.ToneMapping — the tone mapping of a video frame (the luma kernels of
  webql.ispc) beside that of a still image (`get_tone_mapping` of fitswebqlse.js).

  Both are written over any ordered field, `exp` and `log` being parameters: over ℚ the
  kernels are those of `VideoFrame` (`luma_rat`), over ℝ they have the real functions.

  Proved:
  - `luma_of_pixel`: of the modes other than linear the two compute one number.
  - `luma_floor_iff`: the byte is the integer part of the browser's value exactly when the
    mode is not linear or the value is far below black or within 1/255 under white: the
    linear kernel has the formula of the logistic one.
  - `linear_at_black`: at black a still image is black and the video grey.
-/

import FitsWebQL.VideoFrame
import Mathlib.Analysis.SpecialFunctions.Log.Basic

namespace FitsWebQL

section Fields

variable {K : Type} [Field K] [LinearOrder K] [FloorRing K] (exp log : K → K)

/-! ## The kernels -/

structure KernelArguments (K : Type) where
  black : K
  slope : K
  median : K
  sensitivity : K
  dmin : K
  dmax : K
  lmin : K
  lmax : K

/-- `(int) clamp(pixel, 0.0f, 255.0f)` as a byte. -/
def lumaByte (pixel : K) : UInt8 := UInt8.ofNat ⌊max 0 (min pixel ((255 : ℕ) : K))⌋.toNat

/-- `dst_luma[idx]` of a valid pixel, of `make_video_frameF32_linear` and so on. -/
def luma (flux : Flux) (a : KernelArguments K) (tmp : K) : UInt8 :=
  match flux with
  | .linear => lumaByte (((255 : ℕ) : K) / (1 + exp (-((6 : ℕ) : K) * (tmp - a.black) * a.slope)))
  | .logistic => lumaByte (((255 : ℕ) : K) / (1 + exp (-((6 : ℕ) : K) * (tmp - a.median) * a.sensitivity)))
  | .ratio =>
    let pixel := ((5 : ℕ) : K) * (tmp - a.black) * a.sensitivity
    if 0 < pixel then lumaByte (((255 : ℕ) : K) * pixel / (1 + pixel)) else 0
  | .square =>
    let pixel := (tmp - a.black) * a.sensitivity
    if 0 < pixel then lumaByte (((255 : ℕ) : K) * pixel * pixel) else 0
  | .legacy =>
    let pixel := 1 / ((2 : ℕ) : K) + (tmp - a.dmin) / (a.dmax - a.dmin)
    if 0 < pixel then lumaByte (((255 : ℕ) : K) * (log pixel - a.lmin) / (a.lmax - a.lmin)) else 0
  | .unknown => 0

/-! ## get_tone_mapping -/

/-- `clamp(255 * pixel, 0, 255)`. -/
def clamp255 (pixel : K) : K := min (max 0 (((255 : ℕ) : K) * pixel)) ((255 : ℕ) : K)

def getToneMappingSquare (value black sensitivity : K) : K :=
  let pixel := (value - black) * sensitivity
  clamp255 (if 0 < pixel then pixel * pixel else 0)

def getToneMappingLogistic (value median sensitivity : K) : K :=
  clamp255 (1 / (1 + exp (-((6 : ℕ) : K) * (value - median) * sensitivity)))

def getToneMappingLegacy (value black white lmin lmax : K) : K :=
  let pixel := 1 / ((2 : ℕ) : K) + (value - black) / (white - black)
  clamp255 (if 0 < pixel then (log pixel - lmin) / (lmax - lmin) else 0)

def getToneMappingLinear (value black white : K) : K :=
  let slope := 1 / (white - black)
  clamp255 ((value - black) * slope)

def getToneMappingRatio (value black sensitivity : K) : K :=
  let pixel := ((5 : ℕ) : K) * (value - black) * sensitivity
  clamp255 (if 0 < pixel then pixel / (1 + pixel) else 0)

/-- What `imageContainer[index - 1].tone_mapping` says beside black, white and median. -/
structure ToneScale (K : Type) where
  sensitivity : K
  ratio_sensitivity : K
  lmin : K
  lmax : K

/-- `none` is NaN. -/
def getToneMapping (value : K) (flux : Flux) (black white median multiplier : K) (fitsData : ToneScale K) : Option K :=
  let sensitivity := multiplier * fitsData.sensitivity
  let ratio_sensitivity := multiplier * fitsData.ratio_sensitivity
  match flux with
  | .linear => some (getToneMappingLinear value black white)
  | .legacy => some (getToneMappingLegacy log value black white fitsData.lmin fitsData.lmax)
  | .logistic => some (getToneMappingLogistic exp value median sensitivity)
  | .ratio => some (getToneMappingRatio value black ratio_sensitivity)
  | .square => some (getToneMappingSquare value black sensitivity)
  | .unknown => none

/-- The kernel's arguments with the browser's parameters: `slope` as `get_video_frame` has
    it, the legacy kernel's `dmin` and `dmax` for black and white. -/
def sameArguments (flux : Flux) (black white median multiplier : K) (fitsData : ToneScale K) : KernelArguments K where
  black := black
  slope := 1 / (white - black)
  median := median
  sensitivity := multiplier * if flux = .ratio then fitsData.ratio_sensitivity else fitsData.sensitivity
  dmin := black
  dmax := white
  lmin := fitsData.lmin
  lmax := fitsData.lmax

/-! ## One number for both -/

variable [IsStrictOrderedRing K]

theorem lumaByte_toNat (pixel : K) : ((lumaByte pixel).toNat : ℤ) = ⌊max 0 (min pixel ((255 : ℕ) : K))⌋ := by
  have hlo : 0 ≤ ⌊max 0 (min pixel ((255 : ℕ) : K))⌋ := Int.floor_nonneg.mpr (le_max_left _ _)
  have hle : max 0 (min pixel ((255 : ℕ) : K)) ≤ ((255 : ℕ) : K) := max_le (Nat.cast_nonneg _) (min_le_right _ _)
  have hhi : ⌊max 0 (min pixel ((255 : ℕ) : K))⌋ ≤ 255 := by
    have hfloor := Int.floor_le_floor hle
    rwa [Int.floor_natCast] at hfloor
  unfold lumaByte
  rw [UInt8.toNat_ofNat', Nat.mod_eq_of_lt (by omega)]
  omega

omit [FloorRing K] in
theorem clamp255_eq (pixel : K) : clamp255 pixel = max 0 (min (((255 : ℕ) : K) * pixel) ((255 : ℕ) : K)) := by
  unfold clamp255
  rw [max_min_distrib_left, max_eq_right (Nat.cast_nonneg 255 : (0 : K) ≤ ((255 : ℕ) : K))]

theorem floor_clamp255 (pixel : K) : ⌊clamp255 pixel⌋ = ((lumaByte (((255 : ℕ) : K) * pixel)).toNat : ℤ) := by
  rw [lumaByte_toNat, clamp255_eq]

theorem floor_clamp255_zero : ⌊clamp255 (0 : K)⌋ = 0 := by
  unfold clamp255
  simp

/-- Both sides are black where the pixel is not positive. -/
theorem floor_guarded (c : Prop) [Decidable c] (pixel : K) :
    (((if c then lumaByte (((255 : ℕ) : K) * pixel) else 0 : UInt8).toNat : ℤ)) = ⌊clamp255 (if c then pixel else 0)⌋ := by
  split
  · rw [floor_clamp255]
  · exact floor_clamp255_zero.symm

/-- Of a mode other than linear the browser's value is the kernel's before it is cut to a
    byte. -/
theorem luma_of_pixel {flux : Flux} (hl : flux ≠ .linear) {value black white median multiplier : K} {fitsData : ToneScale K}
    {t : K} (ht : getToneMapping exp log value flux black white median multiplier fitsData = some t) :
    ((luma exp log flux (sameArguments flux black white median multiplier fitsData) value).toNat : ℤ) = ⌊t⌋ := by
  cases flux with
  | linear => exact absurd rfl hl
  | logistic =>
    cases ht
    simp only [luma, getToneMappingLogistic, sameArguments, floor_clamp255, reduceCtorEq, if_false, mul_one_div]
  | ratio =>
    cases ht
    have h := floor_guarded (0 < ((5 : ℕ) : K) * (value - black) * (multiplier * fitsData.ratio_sensitivity))
      (((5 : ℕ) : K) * (value - black) * (multiplier * fitsData.ratio_sensitivity) /
        (1 + ((5 : ℕ) : K) * (value - black) * (multiplier * fitsData.ratio_sensitivity)))
    rw [← mul_div_assoc] at h
    exact h
  | square =>
    cases ht
    have h := floor_guarded (0 < (value - black) * (multiplier * fitsData.sensitivity))
      ((value - black) * (multiplier * fitsData.sensitivity) * ((value - black) * (multiplier * fitsData.sensitivity)))
    rw [← mul_assoc ((255 : ℕ) : K)] at h
    exact h
  | legacy =>
    cases ht
    have h := floor_guarded (0 < 1 / ((2 : ℕ) : K) + (value - black) / (white - black))
      ((log (1 / ((2 : ℕ) : K) + (value - black) / (white - black)) - fitsData.lmin) / (fitsData.lmax - fitsData.lmin))
    rw [← mul_div_assoc] at h
    exact h
  | unknown => cases ht

end Fields

theorem lumaByte_rat (pixel : ℚ) : lumaByte pixel = clampByte pixel := by
  unfold lumaByte clampByte
  rw [Nat.cast_ofNat]
  rfl

/-- Over ℚ the kernels are those of the video frame's model. -/
theorem luma_rat (exp log : ℚ → ℚ) (a : KernelArguments ℚ) (tmp : ℚ) :
    luma exp log .linear a tmp = lumaLinear exp a.black a.slope tmp ∧
      luma exp log .logistic a tmp = lumaLogistic exp a.median a.sensitivity tmp ∧
      luma exp log .ratio a tmp = lumaRatio a.black a.sensitivity tmp ∧
      luma exp log .square a tmp = lumaSquare a.black a.sensitivity tmp ∧
      luma exp log .legacy a tmp = lumaLegacy log a.dmin a.dmax a.lmin a.lmax tmp := by
  simp [luma, lumaByte_rat, lumaLinear, lumaLogistic, lumaRatio, lumaSquare, lumaLegacy]

/-! ## The linear mode -/

/-- The linear kernel's pixel, of the place `x` of a value between black and white. -/
noncomputable def sigmoid255 (x : ℝ) : ℝ := 255 / (1 + Real.exp (-6 * x))

theorem sigmoid255_pos (x : ℝ) : 0 < sigmoid255 x := by
  unfold sigmoid255
  positivity

theorem sigmoid255_lt (x : ℝ) : sigmoid255 x < 255 := by
  have he := Real.exp_pos (-6 * x)
  unfold sigmoid255
  rw [div_lt_iff₀ (by positivity)]
  linarith

/-- Below 1 where the exponential is over 254. -/
theorem sigmoid255_lt_one_iff (x : ℝ) : sigmoid255 x < 1 ↔ 6 * x < -Real.log 254 := by
  have he := Real.exp_pos (-6 * x)
  unfold sigmoid255
  rw [div_lt_iff₀ (by positivity), one_mul]
  constructor
  · intro h
    have hlog : Real.log 254 < -6 * x := (Real.log_lt_iff_lt_exp (by norm_num)).mpr (by linarith)
    linarith
  · intro h
    have hlog : 254 < Real.exp (-6 * x) := (Real.log_lt_iff_lt_exp (by norm_num)).mp (by linarith)
    linarith

/-- From 0.93 on at least 254. -/
theorem sigmoid255_ge {x : ℝ} (h : 93 / 100 ≤ x) : 254 ≤ sigmoid255 x := by
  have hone : (2.718 : ℝ) ≤ Real.exp 1 := by
    have h9 := Real.exp_one_gt_d9
    linarith
  have hquad := Real.quadratic_le_exp_of_nonneg (x := 58 / 100) (by norm_num)
  have hfive : (2.718 : ℝ) ^ 5 ≤ Real.exp 5 := by
    rw [show (5 : ℝ) = ((5 : ℕ) : ℝ) * 1 by norm_num, Real.exp_nat_mul]
    exact pow_le_pow_left₀ (by norm_num) hone 5
  have hmono : Real.exp (5 + 58 / 100) ≤ Real.exp (6 * x) := Real.exp_le_exp.mpr (by linarith)
  have h254 : 254 ≤ Real.exp (6 * x) := by
    rw [Real.exp_add] at hmono
    nlinarith [Real.exp_pos (5 : ℝ)]
  have hinv : Real.exp (-6 * x) * Real.exp (6 * x) = 1 := by
    rw [← Real.exp_add, neg_mul, neg_add_cancel, Real.exp_zero]
  have he := Real.exp_pos (-6 * x)
  unfold sigmoid255
  rw [le_div_iff₀ (by positivity)]
  nlinarith

/-- Up to 0.93 at least 1 above the line. -/
theorem sigmoid255_above {x : ℝ} (h0 : 0 ≤ x) (h : x ≤ 93 / 100) : 255 * x + 1 ≤ sigmoid255 x := by
  have hquad := Real.quadratic_le_exp_of_nonneg (x := 6 * x) (by linarith)
  have hinv : Real.exp (-6 * x) * Real.exp (6 * x) = 1 := by
    rw [← Real.exp_add, neg_mul, neg_add_cancel, Real.exp_zero]
  have he := Real.exp_pos (-6 * x)
  have hsmall : Real.exp (-6 * x) * (1 + 6 * x + 18 * x ^ 2) ≤ 1 := by nlinarith
  have hpoly : (2 + 6 * x + 18 * x ^ 2) * (255 * x + 1) ≤ 255 * (1 + 6 * x + 18 * x ^ 2) := by
    nlinarith [mul_nonneg h0 h0, mul_nonneg (mul_nonneg h0 h0) (sub_nonneg.mpr h), mul_nonneg h0 (sub_nonneg.mpr h)]
  have hq : 0 < 1 + 6 * x + 18 * x ^ 2 := by positivity
  unfold sigmoid255
  rw [le_div_iff₀ (by positivity)]
  have hmul : (255 * x + 1) * (1 + Real.exp (-6 * x)) * (1 + 6 * x + 18 * x ^ 2) ≤ 255 * (1 + 6 * x + 18 * x ^ 2) := by
    nlinarith
  exact le_of_mul_le_mul_right hmul hq

noncomputable def place (value black white : ℝ) : ℝ := (value - black) / (white - black)

theorem floor_linear (value black white : ℝ) :
    ⌊getToneMappingLinear value black white⌋ = ⌊max 0 (min (255 * place value black white) 255)⌋ := by
  unfold getToneMappingLinear place
  rw [clamp255_eq, mul_one_div, Nat.cast_ofNat]

theorem luma_linear (black white median multiplier : ℝ) (fitsData : ToneScale ℝ) (value : ℝ) :
    ((luma Real.exp Real.log .linear (sameArguments .linear black white median multiplier fitsData) value).toNat : ℤ) =
      ⌊sigmoid255 (place value black white)⌋ := by
  have hpixel : ((255 : ℕ) : ℝ) / (1 + Real.exp (-((6 : ℕ) : ℝ) * (value - black) * (1 / (white - black)))) =
      sigmoid255 (place value black white) := by
    unfold sigmoid255 place
    rw [Nat.cast_ofNat, Nat.cast_ofNat, mul_one_div, mul_div_assoc]
  simp only [luma, sameArguments]
  rw [hpixel, lumaByte_toNat, Nat.cast_ofNat, min_eq_left (sigmoid255_lt _).le, max_eq_right (sigmoid255_pos _).le]

/-- The two curves have one integer part far below black and within 1/255 under white. -/
theorem floor_sigmoid255_iff (x : ℝ) :
    ⌊sigmoid255 x⌋ = ⌊max 0 (min (255 * x) 255)⌋ ↔ 6 * x < -Real.log 254 ∨ 254 / 255 ≤ x ∧ x < 1 := by
  have hlog : 0 < Real.log 254 := Real.log_pos (by norm_num)
  rcases lt_or_ge x 0 with hneg | h0
  · -- a still image is black there
    rw [min_eq_left (by linarith), max_eq_left (by linarith), Int.floor_zero, Int.floor_eq_zero_iff, ← sigmoid255_lt_one_iff]
    constructor
    · intro h
      exact Or.inl h.2
    · rintro (h | ⟨h, -⟩)
      · exact ⟨(sigmoid255_pos x).le, h⟩
      · linarith
  rcases lt_or_ge x 1 with hlt | hge
  · rw [min_eq_left (by linarith), max_eq_right (by linarith)]
    rcases lt_or_ge x (254 / 255) with hlow | hhigh
    · -- the kernel is at least one step above
      have hne : ⌊255 * x⌋ + 1 ≤ ⌊sigmoid255 x⌋ := by
        rw [← Int.floor_add_one]
        rcases le_total x (93 / 100) with h | h
        · exact Int.floor_le_floor (sigmoid255_above h0 h)
        · have hfloor : ⌊255 * x + 1⌋ < 255 := Int.floor_lt.mpr (by push_cast; linarith)
          have h254 : (254 : ℤ) ≤ ⌊sigmoid255 x⌋ := Int.le_floor.mpr (by push_cast; exact sigmoid255_ge h)
          omega
      constructor
      · intro h
        omega
      · rintro (h | ⟨h, -⟩)
        · linarith
        · linarith
    · have hleft : ⌊sigmoid255 x⌋ = 254 := by
        rw [Int.floor_eq_iff]
        push_cast
        exact ⟨sigmoid255_ge (by linarith), by linarith [sigmoid255_lt x]⟩
      have hright : ⌊255 * x⌋ = 254 := by
        rw [Int.floor_eq_iff]
        push_cast
        constructor <;> linarith
      rw [hleft, hright]
      exact ⟨fun _ => Or.inr ⟨hhigh, hlt⟩, fun _ => rfl⟩
  · -- the kernel never reaches white
    have hwhite : ⌊sigmoid255 x⌋ < 255 := Int.floor_lt.mpr (by push_cast; exact sigmoid255_lt x)
    have hfloor : ⌊(255 : ℝ)⌋ = 255 := Int.floor_ofNat 255
    rw [min_eq_right (by linarith), max_eq_right (by norm_num), hfloor]
    constructor
    · intro h
      omega
    · rintro (h | ⟨-, h⟩)
      · linarith
      · linarith

/-! ## Every mode -/

structure ValidDisplay (black white : ℝ) (fitsData : ToneScale ℝ) : Prop where
  black_lt_white : black < white
  lmin_lt_lmax : fitsData.lmin < fitsData.lmax

/-- The byte of the video is the integer part of the still image's value. -/
def SameTone (flux : Flux) (black white median multiplier : ℝ) (fitsData : ToneScale ℝ) (value : ℝ) : Prop :=
  ∃ t, getToneMapping Real.exp Real.log value flux black white median multiplier fitsData = some t ∧
    ((luma Real.exp Real.log flux (sameArguments flux black white median multiplier fitsData) value).toNat : ℤ) = ⌊t⌋

theorem luma_floor_iff {flux : Flux} (hflux : flux ≠ .unknown) {black white : ℝ} {fitsData : ToneScale ℝ}
    (hd : ValidDisplay black white fitsData) (median multiplier value : ℝ) :
    SameTone flux black white median multiplier fitsData value ↔
      flux ≠ .linear ∨ value < black - (white - black) * Real.log 254 / 6 ∨
        black + (white - black) * (254 / 255) ≤ value ∧ value < white := by
  have hw : 0 < white - black := sub_pos.mpr hd.black_lt_white
  by_cases hl : flux = .linear
  · subst hl
    have hlow : 6 * place value black white < -Real.log 254 ↔ value < black - (white - black) * Real.log 254 / 6 := by
      unfold place
      rw [← mul_div_assoc, div_lt_iff₀ hw]
      constructor <;> intro h <;> linarith
    have hhigh : 254 / 255 ≤ place value black white ↔ black + (white - black) * (254 / 255) ≤ value := by
      unfold place
      rw [le_div_iff₀ hw]
      constructor <;> intro h <;> linarith
    have hwhite : place value black white < 1 ↔ value < white := by
      unfold place
      rw [div_lt_one hw]
      constructor <;> intro h <;> linarith
    rw [← hlow, ← hhigh, ← hwhite, ← floor_sigmoid255_iff, ← luma_linear black white median multiplier fitsData, ← floor_linear]
    constructor
    · rintro ⟨t, ht, hfloor⟩
      cases ht
      exact Or.inr hfloor
    · rintro (h | h)
      · exact absurd rfl h
      · exact ⟨_, rfl, h⟩
  · have hsome : ∃ t, getToneMapping Real.exp Real.log value flux black white median multiplier fitsData = some t := by
      cases flux <;> first | exact ⟨_, rfl⟩ | exact absurd rfl hflux
    obtain ⟨t, ht⟩ := hsome
    exact ⟨fun _ => Or.inl hl, fun _ => ⟨t, ht, luma_of_pixel _ _ hl ht⟩⟩

/-- At white less a 255th both are 254. -/
theorem luma_floor_iff_under_white : SameTone .linear 0 1 0 1 ⟨1, 1, 0, 1⟩ (254 / 255) :=
  (luma_floor_iff (by decide) ⟨by norm_num, by norm_num⟩ 0 1 _).mpr (Or.inr (Or.inr ⟨by norm_num, by norm_num⟩))

/-- At black a still image is black and the video grey. -/
theorem linear_at_black : ValidDisplay 0 1 ⟨1, 1, 0, 1⟩ ∧ ¬ SameTone .linear 0 1 0 1 ⟨1, 1, 0, 1⟩ 0 := by
  refine ⟨⟨by norm_num, by norm_num⟩, ?_⟩
  rintro ⟨t, ht, hfloor⟩
  cases ht
  have hx : place 0 0 1 = 0 := by simp [place]
  rw [luma_linear, floor_linear, hx, floor_sigmoid255_iff] at hfloor
  have hlog : 0 < Real.log 254 := Real.log_pos (by norm_num)
  rcases hfloor with h | ⟨h, -⟩
  · linarith
  · norm_num at h

end FitsWebQL
