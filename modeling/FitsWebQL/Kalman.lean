/-
  FitsWebQL.Kalman — the filter that follows a pointer over the image, and the frame of a
  video (`KalmanFilter`). Exact arithmetic.

  The covariance is updated entry by entry. `p_vv` comes last and is lessened by
  `kv * p_xv` with the `p_xv` that has been lessened already, so more of it is left than
  an observation leaves (`covariance_update`).

  Proved, for any measurements and time steps:
  - `well_conditioned`: whatever updates and resets come, the covariance is positive
    semidefinite, `p_xv` is not negative, no update divides by zero, and the gain of the
    position is between 0 and 1.
-/

import FitsWebQL.Lib.Tracking

namespace FitsWebQL

open Lib.Tracking

structure KalmanFilter (K : Type*) where
  estimate_position : K
  estimate_velocity : K
  p_xx : K
  p_xv : K
  p_vv : K
  position_variance : K
  velocity_variance : K
  r : K
  has_velocity : Bool

variable {K : Type*} [Field K]

def KalmanFilter.new (position : K) (video : Bool) : KalmanFilter K :=
  if !video then
    -- pointer
    { estimate_position := position, estimate_velocity := 0, has_velocity := false,
      p_xx := 0.1, p_xv := 0.1, p_vv := 0.1, position_variance := 0.01, velocity_variance := 0.01, r := 100000.0 }
  else
    { estimate_position := position, estimate_velocity := 0, has_velocity := false,
      p_xx := 0.1 * position, p_xv := 1, p_vv := 1, position_variance := 0.1 * position,
      velocity_variance := 0.01 * position / 1000.0, r := 0.01 * position }

def KalmanFilter.reset (f : KalmanFilter K) (position : K) : KalmanFilter K :=
  { f with estimate_position := position, estimate_velocity := 0, has_velocity := false }

def KalmanFilter.temporal (f : KalmanFilter K) (deltat : K) : KalmanFilter K :=
  let f := { f with estimate_position := f.estimate_position + f.estimate_velocity * deltat }
  let f := { f with p_xx := f.p_xx + deltat * (2.0 * f.p_xv + deltat * f.p_vv) }
  let f := { f with p_xv := f.p_xv + deltat * f.p_vv }
  let f := { f with p_xx := f.p_xx + deltat * f.position_variance }
  { f with p_vv := f.p_vv + deltat * f.velocity_variance }

def KalmanFilter.divisor (f : KalmanFilter K) : K := f.p_xx + f.r

def KalmanFilter.kx (f : KalmanFilter K) : K := f.p_xx * (1 / f.divisor)

def KalmanFilter.kv (f : KalmanFilter K) : K := f.p_xv * (1 / f.divisor)

def KalmanFilter.observational (f : KalmanFilter K) (position : K) : KalmanFilter K :=
  let kx := f.kx
  let kv := f.kv
  let f := { f with estimate_position := f.estimate_position + (position - f.estimate_position) * kx }
  let f := { f with estimate_velocity := f.estimate_velocity + (position - f.estimate_position) * kv }
  let f := { f with p_xx := f.p_xx * (1 - kx) }
  let f := { f with p_xv := f.p_xv * (1 - kx) }
  { f with p_vv := f.p_vv - kv * f.p_xv }

def KalmanFilter.predict (f : KalmanFilter K) (position deltat : K) : K := position + f.estimate_velocity * deltat

section Update

variable [LinearOrder K]

def KalmanFilter.update (f : KalmanFilter K) (position deltat : K) : KalmanFilter K :=
  if deltat ≤ 0 then f
  else if !f.has_velocity then
    { f with
      estimate_velocity := (position - f.estimate_position) / deltat
      estimate_position := position
      has_velocity := true }
  else (f.temporal deltat).observational position

inductive KalmanEvent (K : Type*)
  | update (position deltat : K)
  | reset (position : K)

def KalmanFilter.next (f : KalmanFilter K) : KalmanEvent K → KalmanFilter K
  | .update position deltat => f.update position deltat
  | .reset position => f.reset position

end Update

/-! ## The covariance -/

def KalmanFilter.covariance (f : KalmanFilter K) : Covariance K := ⟨f.p_xx, f.p_xv, f.p_vv⟩

theorem covariance_temporal [CharZero K] (f : KalmanFilter K) (deltat : K) :
    (f.temporal deltat).covariance =
      (f.covariance.drift deltat).addNoise (deltat * f.position_variance) (deltat * f.velocity_variance) := by
  have htwo : (2.0 : K) = 1 + 1 := by norm_num
  ext
  · simp only [KalmanFilter.covariance, KalmanFilter.temporal, Covariance.drift, Covariance.addNoise, htwo]
    ring
  · rfl
  · rfl

/-- An observation, and what `p_vv` keeps more. -/
theorem covariance_update (f : KalmanFilter K) (hr : f.divisor ≠ 0) (position : K) :
    (f.observational position).covariance =
      (f.covariance.observe f.r).addNoise 0 (f.p_xx * (f.p_xv / f.divisor) ^ 2) := by
  have hkx : 1 - f.kx = f.r / f.divisor := by
    unfold KalmanFilter.kx
    field_simp
    unfold KalmanFilter.divisor
    ring
  have hvel : f.p_vv - f.kv * (f.p_xv * (f.r / f.divisor)) =
      f.p_vv - f.p_xv ^ 2 / f.divisor + f.p_xx * (f.p_xv / f.divisor) ^ 2 := by
    unfold KalmanFilter.kv
    field_simp
    unfold KalmanFilter.divisor
    ring
  unfold KalmanFilter.observational KalmanFilter.covariance Covariance.observe Covariance.addNoise
  dsimp only
  rw [hkx, hvel, add_zero]
  rfl

section Order

variable [LinearOrder K]

structure KalmanFilter.Conditioned (f : KalmanFilter K) : Prop where
  covariance : f.covariance.PosSemidef
  p_xv : 0 ≤ f.p_xv
  position_variance : 0 ≤ f.position_variance
  velocity_variance : 0 ≤ f.velocity_variance
  r : 0 < f.r

theorem KalmanFilter.Conditioned.p_xx {f : KalmanFilter K} (h : f.Conditioned) : 0 ≤ f.p_xx := h.covariance.pos_nonneg

theorem KalmanFilter.Conditioned.p_vv {f : KalmanFilter K} (h : f.Conditioned) : 0 ≤ f.p_vv := h.covariance.vel_nonneg

variable [IsStrictOrderedRing K]

theorem KalmanFilter.Conditioned.divisor_pos {f : KalmanFilter K} (h : f.Conditioned) : 0 < f.divisor :=
  add_pos_of_nonneg_of_pos h.p_xx h.r

theorem KalmanFilter.Conditioned.kx_mem {f : KalmanFilter K} (h : f.Conditioned) : 0 ≤ f.kx ∧ f.kx ≤ 1 := by
  have hdivisor := h.divisor_pos
  have hkx : f.kx = f.p_xx / f.divisor := mul_one_div f.p_xx f.divisor
  rw [hkx]
  refine ⟨div_nonneg h.p_xx hdivisor.le, (div_le_one hdivisor).mpr ?_⟩
  exact le_add_of_nonneg_right h.r.le

theorem new_conditioned (position : K) : (KalmanFilter.new position false).Conditioned where
  covariance u w := by
    have hform : (KalmanFilter.new position false).covariance.form u w = 0.1 * (u + w) ^ 2 := by
      have hnew : (KalmanFilter.new position false).covariance = ⟨0.1, 0.1, 0.1⟩ := rfl
      rw [hnew]
      unfold Covariance.form
      ring
    rw [hform]
    positivity
  p_xv := by norm_num [KalmanFilter.new]
  position_variance := by norm_num [KalmanFilter.new]
  velocity_variance := by norm_num [KalmanFilter.new]
  r := by norm_num [KalmanFilter.new]

theorem KalmanFilter.Conditioned.temporal {f : KalmanFilter K} (h : f.Conditioned) {deltat : K} (ht : 0 < deltat) :
    (f.temporal deltat).Conditioned where
  covariance := by
    rw [covariance_temporal]
    exact (h.covariance.drift deltat).addNoise (mul_nonneg ht.le h.position_variance) (mul_nonneg ht.le h.velocity_variance)
  p_xv := add_nonneg h.p_xv (mul_nonneg ht.le h.p_vv)
  position_variance := h.position_variance
  velocity_variance := h.velocity_variance
  r := h.r

theorem KalmanFilter.Conditioned.observational {f : KalmanFilter K} (h : f.Conditioned) (position : K) :
    (f.observational position).Conditioned where
  covariance := by
    have hp_xx := h.p_xx
    rw [covariance_update f h.divisor_pos.ne']
    exact (h.covariance.observe h.r).addNoise le_rfl (by positivity)
  p_xv := mul_nonneg h.p_xv (sub_nonneg.mpr h.kx_mem.2)
  position_variance := h.position_variance
  velocity_variance := h.velocity_variance
  r := h.r

theorem KalmanFilter.Conditioned.next {f : KalmanFilter K} (h : f.Conditioned) (e : KalmanEvent K) : (f.next e).Conditioned := by
  cases e with
  | reset position =>
    exact { h with }
  | update position deltat =>
    show (f.update position deltat).Conditioned
    unfold KalmanFilter.update
    split
    · exact h
    · rename_i ht
      split
      · exact { h with }
      · exact (h.temporal (not_le.mp ht)).observational position

theorem run_conditioned (position : K) (es : List (KalmanEvent K)) :
    (es.foldl KalmanFilter.next (KalmanFilter.new position false)).Conditioned :=
  List.foldlRecOn es _ (new_conditioned position) fun _ h e _ => h.next e

end Order

/-- After any updates and resets, and in the update that comes next. -/
theorem well_conditioned (position : ℝ) (es : List (KalmanEvent ℝ)) :
    let f := es.foldl KalmanFilter.next (KalmanFilter.new position false)
    f.covariance.toMatrix.PosSemidef ∧ 0 ≤ f.p_xv ∧ 0 < f.p_xx + f.r ∧
      ∀ deltat, 0 < deltat → 0 < (f.temporal deltat).divisor ∧ 0 ≤ (f.temporal deltat).kx ∧ (f.temporal deltat).kx ≤ 1 := by
  intro f
  have h : f.Conditioned := run_conditioned position es
  refine ⟨toMatrix_posSemidef.mpr h.covariance, h.p_xv, h.divisor_pos, fun deltat ht => ?_⟩
  exact ⟨(h.temporal ht).divisor_pos, (h.temporal ht).kx_mem⟩

end FitsWebQL
