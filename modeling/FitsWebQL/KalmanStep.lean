/-
  FitsWebQL.KalmanStep — an update of the filter beside the predicting and correcting step of
  a Kalman filter with constant velocity (`Lib.LinearFilter`), with the noise that the code
  sets.

  The prediction is the textbook's, and so are the gains, the position, `p_xx` and `p_xv`.
  The velocity is corrected by the distance from the position that has been corrected
  already, and `p_vv` by the corrected `p_xv`; both corrections are too small by a factor
  of 1 - kx. Without a velocity an update takes one from two positions instead, and none is
  made for a time step that is not positive.

  Proved, for every state, measurement and time step:
  - `update_textbook_iff`: when an update is the textbook's. For a filter that has a velocity
    it is where the predicted `p_xx` or `p_xv` is 0.
  - `second_update`: the second update of a pointer that has moved is not.
-/

import FitsWebQL.Kalman
import FitsWebQL.Lib.LinearFilter

namespace FitsWebQL

open Lib.LinearFilter Matrix

variable {K : Type*} [Field K]

def KalmanFilter.estimate (f : KalmanFilter K) : Estimate (Fin 2) K :=
  ⟨![f.estimate_position, f.estimate_velocity], !![f.p_xx, f.p_xv; f.p_xv, f.p_vv]⟩

def constantVelocity (deltat : K) : Matrix (Fin 2) (Fin 2) K := !![1, deltat; 0, 1]

def KalmanFilter.processNoise (f : KalmanFilter K) (deltat : K) : Matrix (Fin 2) (Fin 2) K :=
  !![deltat * f.position_variance, 0; 0, deltat * f.velocity_variance]

def measured : Fin 2 → K := ![1, 0]

def KalmanFilter.predicted (f : KalmanFilter K) (deltat : K) : Estimate (Fin 2) K :=
  f.estimate.predict (constantVelocity deltat) (f.processNoise deltat)

section Update

variable [LinearOrder K]

/-- An update is the textbook's step, which divides by `H P Hᵀ + r`. -/
def KalmanFilter.UpdatesAsTextbook (f : KalmanFilter K) (position deltat : K) : Prop :=
  (f.predicted deltat).innovation measured f.r ≠ 0 ∧
    (f.update position deltat).estimate = (f.predicted deltat).correct measured f.r position

def KalmanFilter.Steady (f : KalmanFilter K) (deltat : K) : Prop :=
  let P := (f.predicted deltat).covariance
  let d := (f.predicted deltat).innovation measured f.r
  P 0 0 * f.r = f.p_xx * d ∧ P 0 1 * f.r = f.p_xv * d ∧ deltat * f.velocity_variance * d = P 0 1 ^ 2

/-- Where an update is the textbook's, by the textbook's prediction. The first two cases are the
ones that `update` does not filter. -/
def KalmanFilter.TextbookWhen (f : KalmanFilter K) (position deltat : K) : Prop :=
  let x := (f.predicted deltat).state 0
  let P := (f.predicted deltat).covariance
  let d := (f.predicted deltat).innovation measured f.r
  d ≠ 0 ∧
    if deltat ≤ 0 then
      f.Steady deltat ∧ f.estimate_velocity * deltat * d + (position - x) * P 0 0 = 0 ∧ (position = x ∨ P 0 1 = 0)
    else if !f.has_velocity then
      f.Steady deltat ∧ (position = x ∨ f.r = 0 ∧ deltat * P 0 1 = d)
    else P 0 0 = 0 ∨ P 0 1 = 0

end Update

/-! ## The textbook's step -/

omit [Field K] in
theorem estimate_eq_iff {f : KalmanFilter K} {x v a b b' c : K} :
    f.estimate = ⟨![x, v], !![a, b; b', c]⟩ ↔
      (f.estimate_position = x ∧ f.estimate_velocity = v) ∧ (f.p_xx = a ∧ f.p_xv = b) ∧ f.p_xv = b' ∧ f.p_vv = c := by
  constructor
  · intro h
    have hstate := congrArg Estimate.state h
    have hcovariance := congrArg Estimate.covariance h
    exact ⟨⟨congrFun hstate 0, congrFun hstate 1⟩, ⟨congrFun (congrFun hcovariance 0) 0, congrFun (congrFun hcovariance 0) 1⟩,
      congrFun (congrFun hcovariance 1) 0, congrFun (congrFun hcovariance 1) 1⟩
  · intro h
    obtain ⟨⟨rfl, rfl⟩, ⟨rfl, rfl⟩, rfl, rfl⟩ := h
    rfl

theorem predicted_eq [CharZero K] (f : KalmanFilter K) (deltat : K) : f.predicted deltat = (f.temporal deltat).estimate := by
  have htwo : (2.0 : K) = 1 + 1 := by norm_num
  have hcovariance : constantVelocity deltat * !![f.p_xx, f.p_xv; f.p_xv, f.p_vv] * (constantVelocity deltat)ᵀ +
      f.processNoise deltat = !![f.p_xx + deltat * (2.0 * f.p_xv + deltat * f.p_vv) + deltat * f.position_variance,
        f.p_xv + deltat * f.p_vv; f.p_xv + deltat * f.p_vv, f.p_vv + deltat * f.velocity_variance] := by
    have htranspose : (!![1, deltat; 0, 1] : Matrix (Fin 2) (Fin 2) K)ᵀ = !![1, 0; deltat, 1] := by
      ext i j
      fin_cases i <;> fin_cases j <;> rfl
    unfold constantVelocity KalmanFilter.processNoise
    rw [htranspose, Matrix.mul_fin_two, Matrix.mul_fin_two, htwo]
    ext i j
    fin_cases i <;> fin_cases j <;> simp <;> ring
  ext i j
  · unfold KalmanFilter.predicted Estimate.predict KalmanFilter.estimate constantVelocity KalmanFilter.temporal
    fin_cases i
    · simp [Matrix.mulVec, dotProduct, Fin.sum_univ_two]
      ring
    · simp
  · exact congrFun (congrFun hcovariance i) j

theorem innovation_eq (f : KalmanFilter K) : f.estimate.innovation measured f.r = f.divisor := by
  unfold Estimate.innovation KalmanFilter.estimate measured KalmanFilter.divisor
  simp [Matrix.mulVec, dotProduct, Fin.sum_univ_two]

/-- The textbook predicts what `temporal` does, and `update` divides by the variance that it expects. -/
theorem predicted_innovation [CharZero K] (f : KalmanFilter K) (deltat : K) :
    (f.predicted deltat).innovation measured f.r = (f.temporal deltat).divisor := by
  rw [predicted_eq]
  exact innovation_eq (f.temporal deltat)

theorem gain_eq (f : KalmanFilter K) : f.estimate.gain measured f.r = ![f.kx, f.kv] := by
  unfold Estimate.gain
  rw [innovation_eq]
  unfold KalmanFilter.kx KalmanFilter.kv KalmanFilter.estimate measured
  ext i
  fin_cases i <;> simp [mul_comm]

theorem correct_eq (f : KalmanFilter K) (position : K) :
    f.estimate.correct measured f.r position =
      ⟨![f.estimate_position + (position - f.estimate_position) * f.kx, f.estimate_velocity + (position - f.estimate_position) * f.kv],
        !![f.p_xx - f.kx * f.p_xx, f.p_xv - f.kx * f.p_xv; f.p_xv - f.kv * f.p_xx, f.p_vv - f.kv * f.p_xv]⟩ := by
  ext i j
  · unfold Estimate.correct
    rw [gain_eq]
    unfold KalmanFilter.estimate measured
    fin_cases i <;> simp [dotProduct, Fin.sum_univ_two]
  · rw [correct_covariance_apply, gain_eq]
    unfold KalmanFilter.estimate measured
    fin_cases i <;> fin_cases j <;> simp [Matrix.vecMul, dotProduct, Fin.sum_univ_two]

/-! ## One update -/

section Update

variable [LinearOrder K] {f : KalmanFilter K} {position deltat : K}

theorem update_early (h : deltat ≤ 0) : f.update position deltat = f := by
  unfold KalmanFilter.update
  rw [if_pos h]

theorem update_first (h : 0 < deltat) (hv : f.has_velocity = false) :
    f.update position deltat =
      { f with estimate_velocity := (position - f.estimate_position) / deltat, estimate_position := position, has_velocity := true } := by
  unfold KalmanFilter.update
  rw [if_neg (not_le.mpr h), hv]
  rfl

theorem update_tracking (h : 0 < deltat) (hv : f.has_velocity = true) :
    f.update position deltat = (f.temporal deltat).observational position := by
  unfold KalmanFilter.update
  rw [if_neg (not_le.mpr h), hv]
  rfl

variable [IsStrictOrderedRing K]

/-- The textbook's step, entry by entry. -/
theorem updatesAsTextbook_iff :
    f.UpdatesAsTextbook position deltat ↔
      let p := f.temporal deltat
      let g := f.update position deltat
      p.divisor ≠ 0 ∧ (g.estimate_position = p.estimate_position + (position - p.estimate_position) * p.kx ∧
        g.estimate_velocity = f.estimate_velocity + (position - p.estimate_position) * p.kv) ∧
          (g.p_xx = p.p_xx - p.kx * p.p_xx ∧ g.p_xv = p.p_xv - p.kx * p.p_xv) ∧ g.p_xv = p.p_xv - p.kv * p.p_xx ∧
            g.p_vv = p.p_vv - p.kv * p.p_xv := by
  have hr : f.r = (f.temporal deltat).r := rfl
  unfold KalmanFilter.UpdatesAsTextbook
  rw [predicted_eq, hr, innovation_eq, correct_eq, estimate_eq_iff]
  rfl

theorem steady_temporal :
    f.Steady deltat ↔ (f.temporal deltat).p_xx * f.r = f.p_xx * (f.temporal deltat).divisor ∧
      (f.temporal deltat).p_xv * f.r = f.p_xv * (f.temporal deltat).divisor ∧
      deltat * f.velocity_variance * (f.temporal deltat).divisor = (f.temporal deltat).p_xv ^ 2 := by
  unfold KalmanFilter.Steady
  rw [predicted_innovation, predicted_eq]
  rfl

/-- The gain is a part of the divisor. -/
theorem steady_iff (hdivisor : (f.temporal deltat).divisor ≠ 0) :
    f.Steady deltat ↔
      let p := f.temporal deltat
      (f.p_xx = p.p_xx - p.kx * p.p_xx ∧ f.p_xv = p.p_xv - p.kx * p.p_xv) ∧ f.p_xv = p.p_xv - p.kv * p.p_xx ∧
        f.p_vv = p.p_vv - p.kv * p.p_xv := by
  have hp_vv : (f.temporal deltat).p_vv = f.p_vv + deltat * f.velocity_variance := rfl
  have hd : (f.temporal deltat).divisor = (f.temporal deltat).p_xx + f.r := rfl
  unfold KalmanFilter.kx KalmanFilter.kv
  dsimp only
  rw [steady_temporal, hp_vv]
  generalize (f.temporal deltat).divisor = d at *
  generalize (f.temporal deltat).p_xx = a at *
  generalize (f.temporal deltat).p_xv = b at *
  have hr' : f.r = d - a := by rw [hd]; ring
  rw [hr', mul_one_div, mul_one_div]
  have hxx : a - a / d * a = a * (d - a) / d := by
    field_simp
  have hxv : b - a / d * b = b * (d - a) / d := by
    field_simp
  have hvx : b - b / d * a = b * (d - a) / d := by
    field_simp
  have hvv : f.p_vv = f.p_vv + deltat * f.velocity_variance - b / d * b ↔ deltat * f.velocity_variance * d = b ^ 2 := by
    rw [div_mul_eq_mul_div, eq_sub_iff_add_eq, add_right_inj, div_eq_iff hdivisor, pow_two, eq_comm]
  rw [hxx, hxv, hvx, hvv, eq_div_iff hdivisor, eq_div_iff hdivisor]
  constructor
  · intro h
    obtain ⟨h1, h2, h3⟩ := h
    exact ⟨⟨h1.symm, h2.symm⟩, h2.symm, h3⟩
  · intro h
    obtain ⟨⟨h1, h2⟩, -, h3⟩ := h
    exact ⟨h1.symm, h2.symm, h3⟩

/-- An update that filters corrects two entries too little. -/
theorem tracking_iff (h : 0 < deltat) (hv : f.has_velocity = true) :
    f.UpdatesAsTextbook position deltat ↔
      (f.temporal deltat).divisor ≠ 0 ∧ ((f.temporal deltat).p_xx = 0 ∨ (f.temporal deltat).p_xv = 0) := by
  rw [updatesAsTextbook_iff, update_tracking h hv]
  unfold KalmanFilter.observational
  dsimp only
  refine and_congr_right fun hdivisor => ?_
  have hvelocity : (f.temporal deltat).estimate_velocity = f.estimate_velocity := rfl
  rw [hvelocity]
  generalize f.temporal deltat = p at *
  have hkx : p.kx = p.p_xx / p.divisor := mul_one_div _ _
  have hkv : p.kv = p.p_xv / p.divisor := mul_one_div _ _
  constructor
  · intro h
    obtain ⟨-, -, -, hp_vv⟩ := h
    have hzero : p.kv * (p.p_xv * p.kx) = 0 := by linear_combination hp_vv
    rw [hkx, hkv, mul_eq_zero, mul_eq_zero, div_eq_zero_iff, div_eq_zero_iff] at hzero
    tauto
  · intro h
    rcases h with hzero | hzero
    · have hkx0 : p.kx = 0 := by rw [hkx, hzero, zero_div]
      rw [hkx0, hzero]
      simp
    · have hkv0 : p.kv = 0 := by rw [hkv, hzero, zero_div]
      rw [hkv0, hzero]
      simp
      ring

/-- No update: the textbook's step has to change nothing. -/
theorem early_iff (h : deltat ≤ 0) :
    f.UpdatesAsTextbook position deltat ↔
      (f.temporal deltat).divisor ≠ 0 ∧ f.Steady deltat ∧
        f.estimate_velocity * deltat * (f.temporal deltat).divisor +
            (position - (f.temporal deltat).estimate_position) * (f.temporal deltat).p_xx = 0 ∧
          (position = (f.temporal deltat).estimate_position ∨ (f.temporal deltat).p_xv = 0) := by
  rw [updatesAsTextbook_iff, update_early h]
  dsimp only
  refine and_congr_right fun hdivisor => ?_
  have hposition : (f.temporal deltat).estimate_position = f.estimate_position + f.estimate_velocity * deltat := rfl
  rw [steady_iff hdivisor]
  dsimp only
  rw [and_comm, hposition]
  refine and_congr_right fun _ => and_congr ?_ ?_
  · unfold KalmanFilter.kx
    rw [mul_one_div]
    generalize (f.temporal deltat).divisor = d at *
    field_simp
    constructor
    · intro h
      linear_combination -h
    · intro h
      linear_combination -h
  · unfold KalmanFilter.kv
    rw [mul_one_div, left_eq_add, mul_eq_zero, div_eq_zero_iff, or_iff_left hdivisor, sub_eq_zero]

/-- No velocity: the measurement is taken as it is. -/
theorem first_iff (h : 0 < deltat) (hv : f.has_velocity = false) :
    f.UpdatesAsTextbook position deltat ↔
      (f.temporal deltat).divisor ≠ 0 ∧ f.Steady deltat ∧
        (position = (f.temporal deltat).estimate_position ∨
          f.r = 0 ∧ deltat * (f.temporal deltat).p_xv = (f.temporal deltat).divisor) := by
  rw [updatesAsTextbook_iff, update_first h hv]
  dsimp only
  refine and_congr_right fun hdivisor => ?_
  have hposition : (f.temporal deltat).estimate_position = f.estimate_position + f.estimate_velocity * deltat := rfl
  have hd : (f.temporal deltat).p_xx = (f.temporal deltat).divisor - f.r := eq_sub_of_add_eq rfl
  rw [steady_iff hdivisor]
  dsimp only
  rw [and_comm]
  refine and_congr_right fun _ => ?_
  unfold KalmanFilter.kx KalmanFilter.kv
  rw [mul_one_div, mul_one_div, hd]
  generalize (f.temporal deltat).divisor = d at *
  generalize (f.temporal deltat).p_xv = b at *
  obtain ⟨x, hx⟩ : ∃ x, (f.temporal deltat).estimate_position = x := ⟨_, rfl⟩
  rw [hx] at hposition ⊢
  have hvelocity : (position - f.estimate_position) / deltat = f.estimate_velocity + (position - x) * (b / d) ↔
      position = x ∨ deltat * b = d := by
    have hdifference : (position - f.estimate_position) / deltat = f.estimate_velocity + (position - x) / deltat := by
      rw [hposition]
      field_simp
      ring
    rw [hdifference, add_right_inj, mul_div_assoc', div_eq_div_iff h.ne' hdivisor, mul_assoc, mul_eq_mul_left_iff, sub_eq_zero,
      or_comm, mul_comm b, eq_comm (a := d)]
  have hplace : position = x + (position - x) * ((d - f.r) / d) ↔ position = x ∨ f.r = 0 := by
    have hsplit : x + (position - x) * ((d - f.r) / d) = position - (position - x) * f.r / d := by
      field_simp
      ring
    rw [hsplit, eq_comm, sub_eq_self, div_eq_zero_iff, or_iff_left hdivisor, mul_eq_zero, sub_eq_zero]
  rw [hvelocity, hplace]
  tauto

end Update

/-! ## Exactly when -/

theorem update_textbook_iff (f : KalmanFilter ℝ) (position deltat : ℝ) :
    f.UpdatesAsTextbook position deltat ↔ f.TextbookWhen position deltat := by
  unfold KalmanFilter.TextbookWhen
  dsimp only
  rw [predicted_innovation, predicted_eq]
  rcases le_or_gt deltat 0 with h | h
  · rw [if_pos h]
    exact early_iff h
  · rw [if_neg (not_le.mpr h)]
    cases hv : f.has_velocity with
    | false => exact first_iff h hv
    | true => exact tracking_iff h hv

noncomputable def movedPointer : KalmanFilter ℝ := (KalmanFilter.new 0 false).update 1 1

/-- One unit later it is measured at 3. -/
theorem second_update : ¬ movedPointer.UpdatesAsTextbook 3 1 := by
  intro h
  have hfirst : movedPointer = { KalmanFilter.new 0 false with
      estimate_velocity := (1 - (KalmanFilter.new (0 : ℝ) false).estimate_position) / 1
      estimate_position := 1
      has_velocity := true } := update_first one_pos rfl
  have hmoved : movedPointer.has_velocity = true := by rw [hfirst]
  obtain ⟨-, hzero⟩ := (tracking_iff one_pos hmoved).mp h
  rw [hfirst] at hzero
  rcases hzero with hzero | hzero
  · norm_num [KalmanFilter.temporal, KalmanFilter.new] at hzero
  · norm_num [KalmanFilter.temporal, KalmanFilter.new] at hzero

end FitsWebQL
