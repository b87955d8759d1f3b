/-
  FitsWebQL.KalmanVideo — the filter that predicts the frame of a video. Its variances are
  set from the first value, a frequency or a velocity, and so are negative for a negative
  one. For a small positive one the covariance is not positive semidefinite (`p_xv` and
  `p_vv` are 1 whatever `p_xx` is), and the observations may make `p_vv` negative; a long
  time step then does the same to `p_xx`.

  The steps are of any length, so the worst that can come is any number of observations with
  hardly any time between them (`Lib.InPlace`). What they take from `p_vv` is a sum over
  their number, below 1 exactly from `videoBound` on.

  Proved, over every run of updates:
  - `video_divides_iff`: every update divides by a positive number exactly when the first
    value is 0 or at least `videoBound`.
  - `video_divides_by_zero`: for -13.05 an update divides by zero.
-/

import FitsWebQL.Kalman
import FitsWebQL.Lib.InPlace

namespace FitsWebQL

open Lib.Tracking Filter Topology

namespace KalmanFilter

variable {K : Type*} [Field K] [LinearOrder K]

/-- Updates, each a measurement and the time since the one before. -/
def run (f : KalmanFilter K) (updates : List (K × K)) : KalmanFilter K := updates.foldl (fun f u => f.update u.1 u.2) f

/-- What an update divides by is positive, whatever updates have come before. -/
def DividesByPositive (f : KalmanFilter K) : Prop :=
  ∀ updates deltat, 0 < deltat → (f.run updates).has_velocity = true → 0 < ((f.run updates).temporal deltat).divisor

end KalmanFilter

/-- About 1.4333. -/
noncomputable def videoBound : ℝ := tsum fun n : ℕ => 1 / ((n : ℝ) + 1.1) ^ 2

theorem covariance_observational {K : Type*} [Field K] (f : KalmanFilter K) (position : K) :
    (f.observational position).covariance = f.covariance.observeInPlace f.r := by
  unfold KalmanFilter.observational KalmanFilter.covariance Covariance.observeInPlace KalmanFilter.kx KalmanFilter.kv KalmanFilter.divisor
  dsimp only
  rw [mul_one_div, mul_one_div]

/-! ## Runs -/

section Run

variable {K : Type*} [Field K] [LinearOrder K] {f : KalmanFilter K}

theorem run_append (us vs : List (K × K)) : f.run (us ++ vs) = (f.run us).run vs := List.foldl_append

/-- What the updates keep, if both kinds of them do. -/
theorem updates_keep {P : KalmanFilter K → Prop} (hfirst : ∀ f position velocity, P f →
      P { f with estimate_velocity := velocity, estimate_position := position, has_velocity := true })
    (hstep : ∀ f position deltat, 0 < deltat → P f → P ((f.temporal deltat).observational position)) (h : P f)
    (us : List (K × K)) : P (f.run us) := by
  refine List.foldlRecOn us _ h fun f hf u _ => ?_
  unfold KalmanFilter.update
  split
  · exact hf
  · rename_i ht
    split
    · exact hfirst f _ _ hf
    · exact hstep f _ _ (not_le.mp ht) hf

end Run

/-! ## From the bound on -/

section Lasting

variable {K : Type*} [Field K] [LinearOrder K]

/-- The invariant for a value that is not 0. -/
structure KalmanFilter.Lasts (f : KalmanFilter K) : Prop where
  covariance : Lasting f.covariance f.r
  position_variance : 0 ≤ f.position_variance
  velocity_variance : 0 ≤ f.velocity_variance
  r : 0 < f.r

variable [IsStrictOrderedRing K] {f : KalmanFilter K}

theorem KalmanFilter.Lasts.temporal (h : f.Lasts) {deltat : K} (ht : 0 < deltat) : (f.temporal deltat).Lasts where
  covariance := by
    rw [covariance_temporal]
    exact (h.covariance.drift h.r ht.le).addNoise h.r (mul_nonneg ht.le h.position_variance) (mul_nonneg ht.le h.velocity_variance)
  position_variance := h.position_variance
  velocity_variance := h.velocity_variance
  r := h.r

theorem KalmanFilter.Lasts.run (h : f.Lasts) (us : List (K × K)) : (f.run us).Lasts := by
  refine updates_keep (fun f _ _ hf => ⟨hf.covariance, hf.position_variance, hf.velocity_variance, hf.r⟩)
    (fun f position deltat ht hf => ?_) h us
  have hnext := hf.temporal ht
  refine ⟨?_, hnext.position_variance, hnext.velocity_variance, hnext.r⟩
  rw [covariance_observational]
  exact hnext.covariance.observeInPlace hnext.r

theorem KalmanFilter.Lasts.divides (h : f.Lasts) : f.DividesByPositive := fun us _ ht _ =>
  add_pos_of_nonneg_of_pos ((h.run us).temporal ht).covariance.pos ((h.run us).temporal ht).r

/-! ## The value 0 -/

/-- The invariant for the value 0: nothing is added, and an observation takes all. -/
structure KalmanFilter.Still (f : KalmanFilter K) : Prop where
  p_xx : 0 ≤ f.p_xx
  p_xv : 0 ≤ f.p_xv
  p_vv : f.p_vv = 1
  position_variance : f.position_variance = 0
  velocity_variance : f.velocity_variance = 0
  r : f.r = 0

theorem KalmanFilter.Still.divisor (h : f.Still) {deltat : K} (ht : 0 < deltat) : 0 < (f.temporal deltat).divisor := by
  have hp_xx := h.p_xx
  have hp_xv := h.p_xv
  unfold KalmanFilter.divisor KalmanFilter.temporal
  dsimp only
  rw [h.p_vv, h.position_variance, h.r]
  have hsquare : 0 < deltat * (2.0 * f.p_xv + deltat * 1) := by positivity
  linarith

theorem KalmanFilter.Still.run (h : f.Still) (us : List (K × K)) : (f.run us).Still := by
  refine updates_keep (fun f _ _ hf => ⟨hf.p_xx, hf.p_xv, hf.p_vv, hf.position_variance, hf.velocity_variance, hf.r⟩)
    (fun f position deltat ht hf => ?_) h us
  have hdivisor := hf.divisor ht
  have hdivides : (f.temporal deltat).divisor = (f.temporal deltat).p_xx := by
    unfold KalmanFilter.divisor
    rw [show (f.temporal deltat).r = f.r from rfl, hf.r, add_zero]
  have hgain : (f.temporal deltat).kx = 1 := by
    unfold KalmanFilter.kx
    rw [← hdivides, mul_one_div, div_self hdivisor.ne']
  have hnext : (f.temporal deltat).p_vv = 1 := by
    unfold KalmanFilter.temporal
    dsimp only
    rw [hf.p_vv, hf.velocity_variance, mul_zero, add_zero]
  refine ⟨?_, ?_, ?_, hf.position_variance, hf.velocity_variance, hf.r⟩
  · show 0 ≤ (f.temporal deltat).p_xx * (1 - (f.temporal deltat).kx)
    rw [hgain, sub_self, mul_zero]
  · show 0 ≤ (f.temporal deltat).p_xv * (1 - (f.temporal deltat).kx)
    rw [hgain, sub_self, mul_zero]
  · show (f.temporal deltat).p_vv - (f.temporal deltat).kv * ((f.temporal deltat).p_xv * (1 - (f.temporal deltat).kx)) = 1
    rw [hgain, sub_self, mul_zero, mul_zero, sub_zero, hnext]

theorem still_zero : (KalmanFilter.new (0 : K) true).Still := by
  constructor <;> simp [KalmanFilter.new]

end Lasting

/-! ## The bound -/

theorem videoBound_le_iff {position : ℝ} :
    videoBound ≤ position ↔ ∀ n, ∑ k ∈ Finset.range n, 1 / ((k : ℝ) + 1.1) ^ 2 ≤ position := by
  have hsquares : Summable fun n : ℕ => 1 / ((n : ℝ) + 1) ^ 2 := by
    have hshift := (summable_nat_add_iff 1).mpr (Real.summable_one_div_nat_pow.mpr (one_lt_two : 1 < 2))
    simpa using hshift
  have hsummable : Summable fun n : ℕ => 1 / ((n : ℝ) + 1.1) ^ 2 := by
    refine Summable.of_nonneg_of_le (fun n => by positivity) (fun n => ?_) hsquares
    gcongr
    norm_num
  constructor
  · intro h n
    exact (hsummable.sum_le_tsum _ fun k _ => by positivity).trans h
  · intro h
    exact hsummable.tsum_le_of_sum_range_le h

/-- What `n` observations at one time would take of the first `p_vv`. -/
theorem loss_new {position : ℝ} (hpos : 0 < position) (n : ℕ) :
    (KalmanFilter.new position true).covariance.loss (KalmanFilter.new position true).r n =
      (∑ k ∈ Finset.range n, 1 / ((k : ℝ) + 1.1) ^ 2) / position := by
  have hnew : (KalmanFilter.new position true).covariance.loss (KalmanFilter.new position true).r n =
      1 ^ 2 * (0.01 * position) * ∑ k ∈ Finset.range n, 1 / (0.01 * position + ((k : ℝ) + 1) * (0.1 * position)) ^ 2 := rfl
  rw [hnew, Finset.mul_sum, Finset.sum_div]
  refine Finset.sum_congr rfl fun k _ => ?_
  have hden : 0.01 * position + ((k : ℝ) + 1) * (0.1 * position) = 0.1 * position * (k + 1.1) := by ring
  have hk : (k : ℝ) + 1.1 ≠ 0 := by positivity
  rw [hden]
  field_simp
  norm_num

theorem new_lasts {position : ℝ} (hpos : 0 < position) (hbound : videoBound ≤ position) : (KalmanFilter.new position true).Lasts where
  covariance := by
    refine ⟨?_, ?_, fun n => ?_⟩
    · show 0 ≤ 0.1 * position
      positivity
    · exact zero_le_one
    · rw [loss_new hpos, div_le_iff₀ hpos]
      show _ ≤ 1 * position
      rw [one_mul]
      exact videoBound_le_iff.mp hbound n
  position_variance := by
    show 0 ≤ 0.1 * position
    positivity
  velocity_variance := by
    show 0 ≤ 0.01 * position / 1000.0
    positivity
  r := by
    show 0 < 0.01 * position
    positivity

/-! ## Below it -/

/-- The covariance `n` updates later, all of them after a time `t`. -/
noncomputable def KalmanFilter.later (f : KalmanFilter ℝ) (t : ℝ) (n : ℕ) : Covariance ℝ :=
  (fun c => ((c.drift t).addNoise (t * f.position_variance) (t * f.velocity_variance)).observeInPlace f.r)^[n] f.covariance

theorem drift_zero (c : Covariance ℝ) (q v : ℝ) : (c.drift 0).addNoise (0 * q) (0 * v) = c := by
  ext <;> simp [Covariance.drift, Covariance.addNoise]

theorem later_zero (f : KalmanFilter ℝ) (n : ℕ) : f.later 0 n = (Covariance.observeInPlace · f.r)^[n] f.covariance := by
  unfold KalmanFilter.later
  simp only [drift_zero]

theorem later_succ (f : KalmanFilter ℝ) (t : ℝ) (n : ℕ) :
    f.later t (n + 1) =
      (((f.later t n).drift t).addNoise (t * f.position_variance) (t * f.velocity_variance)).observeInPlace f.r := by
  unfold KalmanFilter.later
  rw [Function.iterate_succ_apply']

/-- A short time changes little. -/
theorem continuousAt_later {f : KalmanFilter ℝ} (hr : 0 < f.r) (hpos : 0 ≤ f.p_xx) (n : ℕ) :
    ContinuousAt (fun t => (f.later t n).pos) 0 ∧ ContinuousAt (fun t => (f.later t n).cross) 0 ∧
      ContinuousAt (fun t => (f.later t n).vel) 0 := by
  induction n with
  | zero => exact ⟨continuousAt_const, continuousAt_const, continuousAt_const⟩
  | succ n ih =>
    obtain ⟨hpx, hcx, hvx⟩ := ih
    have ht : ContinuousAt (fun t : ℝ => t) 0 := continuousAt_id
    simp only [later_succ, Covariance.observeInPlace, Covariance.addNoise, Covariance.drift]
    have hp : ContinuousAt (fun t => (f.later t n).pos + t * (f.later t n).cross + t * ((f.later t n).cross + t * (f.later t n).vel) +
        t * f.position_variance) 0 := by fun_prop
    have hc : ContinuousAt (fun t => (f.later t n).cross + t * (f.later t n).vel) 0 := by fun_prop
    have hden : (f.later 0 n).pos + 0 * (f.later 0 n).cross + 0 * ((f.later 0 n).cross + 0 * (f.later 0 n).vel) +
        0 * f.position_variance + f.r ≠ 0 := by
      have hnonneg := (iterate_vel hr n (c := f.covariance) hpos).1
      rw [← later_zero] at hnonneg
      simp only [zero_mul, add_zero]
      exact (add_pos_of_nonneg_of_pos hnonneg hr).ne'
    have hk := hp.div (hp.add continuousAt_const) hden
    have hv := hc.div (hp.add continuousAt_const) hden
    refine ⟨hp.mul (continuousAt_const.sub hk), hc.mul (continuousAt_const.sub hk), ?_⟩
    exact (hvx.add (ht.mul continuousAt_const)).sub (hv.mul (hc.mul (continuousAt_const.sub hk)))

/-- `n` updates of a filter that has a velocity. -/
theorem run_later {f : KalmanFilter ℝ} (hv : f.has_velocity = true) {t : ℝ} (ht : 0 < t) (n : ℕ) :
    (f.run (List.replicate n (0, t))).covariance = f.later t n ∧ (f.run (List.replicate n (0, t))).has_velocity = true ∧
      (f.run (List.replicate n (0, t))).position_variance = f.position_variance ∧
      (f.run (List.replicate n (0, t))).velocity_variance = f.velocity_variance ∧ (f.run (List.replicate n (0, t))).r = f.r := by
  induction n with
  | zero => exact ⟨rfl, hv, rfl, rfl, rfl⟩
  | succ n ih =>
    obtain ⟨hcov, hvel, hq, hqv, hr⟩ := ih
    rw [List.replicate_succ', run_append]
    obtain ⟨g, hg⟩ : ∃ g, f.run (List.replicate n (0, t)) = g := ⟨_, rfl⟩
    rw [hg] at hcov hvel hq hqv hr ⊢
    have hstep : g.run [(0, t)] = (g.temporal t).observational 0 := by
      show g.update 0 t = _
      unfold KalmanFilter.update
      rw [if_neg (not_le.mpr ht), hvel]
      rfl
    rw [hstep]
    refine ⟨?_, hvel, hq, hqv, hr⟩
    rw [covariance_observational, covariance_temporal, later_succ, hcov, hq, hqv]
    congr 1

theorem divisor_temporal (f : KalmanFilter ℝ) (t : ℝ) :
    (f.temporal t).divisor = f.p_xx + t * (2 * f.p_xv + t * f.p_vv) + t * f.position_variance + f.r := by
  have htwo : (2.0 : ℝ) = 2 := by norm_num
  unfold KalmanFilter.divisor KalmanFilter.temporal
  dsimp only
  rw [htwo]

/-- A long time makes what is divided by negative, once `p_vv` is. -/
theorem long_step {f : KalmanFilter ℝ} (hv : f.p_vv < 0) : ∃ t, 0 < t ∧ (f.temporal t).divisor ≤ 0 := by
  obtain ⟨b, hb⟩ : ∃ b, 2 * f.p_xv + f.position_variance = b := ⟨_, rfl⟩
  obtain ⟨a, ha⟩ : ∃ a, f.p_xx + f.r = a := ⟨_, rfl⟩
  obtain ⟨t, ht⟩ : ∃ t, max 1 ((|a| + |b|) / -f.p_vv) = t := ⟨_, rfl⟩
  have ht1 : 1 ≤ t := by
    rw [← ht]
    exact le_max_left _ _
  have hlong : |a| + |b| ≤ t * -f.p_vv := by
    have hmax : (|a| + |b|) / -f.p_vv ≤ t := by
      rw [← ht]
      exact le_max_right _ _
    rwa [div_le_iff₀ (by linarith)] at hmax
  refine ⟨t, by linarith, ?_⟩
  have hdivisor : (f.temporal t).divisor = a + t * b + t * (t * f.p_vv) := by
    rw [← ha, ← hb, divisor_temporal]
    ring
  have habs : a + t * b ≤ t * (|a| + |b|) := by
    have h1 : a ≤ t * |a| := (le_abs_self a).trans (le_mul_of_one_le_left (abs_nonneg a) ht1)
    have h2 : t * b ≤ t * |b| := mul_le_mul_of_nonneg_left (le_abs_self b) (by linarith)
    linarith
  have hmul : t * (|a| + |b|) ≤ t * (t * -f.p_vv) := mul_le_mul_of_nonneg_left hlong (by linarith)
  rw [hdivisor]
  linarith

/-- The first update has no velocity yet. -/
theorem run_first (position : ℝ) :
    ∃ f : KalmanFilter ℝ, (∀ us, (KalmanFilter.new position true).run ((position, 1) :: us) = f.run us) ∧ f.has_velocity = true ∧
      f.covariance = (KalmanFilter.new position true).covariance ∧ f.position_variance = 0.1 * position ∧
      f.velocity_variance = 0.01 * position / 1000.0 ∧ f.r = 0.01 * position := by
  refine ⟨(KalmanFilter.new position true).update position 1, fun _ => rfl, ?_⟩
  have hfirst : (KalmanFilter.new position true).update position 1 =
      { KalmanFilter.new position true with
        estimate_velocity := (position - (KalmanFilter.new position true).estimate_position) / 1
        estimate_position := position
        has_velocity := true } := by
    unfold KalmanFilter.update
    rw [if_neg (by norm_num)]
    rfl
  rw [hfirst]
  exact ⟨rfl, rfl, rfl, rfl, rfl⟩

theorem not_divides_negative {position : ℝ} (hneg : position < 0) : ¬ (KalmanFilter.new position true).DividesByPositive := by
  intro h
  obtain ⟨f, hrun, hvel, hcov, hq, -, hr⟩ := run_first position
  obtain ⟨t, ht⟩ : ∃ t, min 1 (-position / 100) = t := ⟨_, rfl⟩
  have ht0 : 0 < t := by
    rw [← ht]
    exact lt_min one_pos (by linarith)
  have ht1 : t ≤ 1 := by
    rw [← ht]
    exact min_le_left _ _
  have htp : t ≤ -position / 100 := by
    rw [← ht]
    exact min_le_right _ _
  have hpositive := h [(position, 1)] t ht0 (by rw [hrun]; exact hvel)
  rw [hrun] at hpositive
  have hp_xx : f.p_xx = 0.1 * position := congrArg Covariance.pos hcov
  have hp_xv : f.p_xv = 1 := congrArg Covariance.cross hcov
  have hp_vv : f.p_vv = 1 := congrArg Covariance.vel hcov
  have hdivisor : (f.temporal t).divisor = 0.11 * position + t * 2 + t * t + t * (0.1 * position) := by
    rw [divisor_temporal, hp_xx, hp_xv, hp_vv, hq, hr]
    ring
  have hsquare : t * t ≤ t := mul_le_of_le_one_right ht0.le ht1
  have hnoise : t * (0.1 * position) ≤ 0 := mul_nonpos_of_nonneg_of_nonpos ht0.le (by linarith)
  have hrun' : (f.run []) = f := rfl
  rw [hrun', hdivisor] at hpositive
  linarith

theorem not_divides_small {position : ℝ} (hpos : 0 < position) (hsmall : position < videoBound) :
    ¬ (KalmanFilter.new position true).DividesByPositive := by
  intro h
  -- so many observations at one time that `p_vv` is negative after them
  obtain ⟨n, hn⟩ : ∃ n, position < ∑ k ∈ Finset.range n, 1 / ((k : ℝ) + 1.1) ^ 2 := by
    by_contra hnone
    push Not at hnone
    exact absurd (videoBound_le_iff.mpr hnone) (not_le.mpr hsmall)
  obtain ⟨f, hfirst, hvel, hcov, -, -, hr⟩ := run_first position
  have hr0 : 0 < f.r := by
    rw [hr]
    positivity
  have hp_xx : 0 ≤ f.p_xx := by
    have hpos' : f.p_xx = 0.1 * position := congrArg Covariance.pos hcov
    rw [hpos']
    positivity
  have hnegative : (f.later 0 n).vel < 0 := by
    rw [later_zero, (iterate_vel hr0 n (c := f.covariance) hp_xx).2]
    have hloss := loss_new hpos n
    have hnew : (KalmanFilter.new position true).r = f.r := hr.symm
    rw [hnew, ← hcov] at hloss
    have hp_vv : f.covariance.vel = 1 := congrArg Covariance.vel hcov
    rw [hloss, hp_vv, sub_neg, one_lt_div hpos]
    exact hn
  -- and still is if there is a little time between them
  have hnear : ∀ᶠ t in 𝓝[>] (0 : ℝ), (f.later t n).vel < 0 :=
    ((continuousAt_later hr0 hp_xx n).2.2.eventually_lt_const hnegative).filter_mono nhdsWithin_le_nhds
  obtain ⟨t, hlater, ht⟩ := (hnear.and self_mem_nhdsWithin).exists
  obtain ⟨hcov', hvel', -⟩ := run_later hvel ht n
  rw [← hcov'] at hlater
  obtain ⟨long, hlong, hdivisor⟩ := long_step hlater
  have hpositive := h ((position, 1) :: List.replicate n (0, t)) long hlong (by rw [hfirst]; exact hvel')
  rw [hfirst] at hpositive
  exact absurd hpositive (not_lt.mpr hdivisor)

/-! ## Exactly when -/

theorem video_divides_iff (position : ℝ) :
    (KalmanFilter.new position true).DividesByPositive ↔ position = 0 ∨ videoBound ≤ position := by
  constructor
  · intro h
    by_contra hnot
    push Not at hnot
    obtain ⟨hne, hsmall⟩ := hnot
    rcases lt_or_gt_of_ne hne with hneg | hpos
    · exact not_divides_negative hneg h
    · exact not_divides_small hpos hsmall h
  · intro h
    rcases h with rfl | hbound
    · exact fun us _ ht _ => (still_zero.run us).divisor ht
    · have hpos : 0 < position := by
        have hone := videoBound_le_iff.mp hbound 1
        norm_num at hone
        linarith
      exact (new_lasts hpos hbound).divides

/-- A velocity of -13.05, an update that takes it, and one 0.9 after that. -/
theorem video_divides_by_zero :
    ∃ updates deltat, 0 < deltat ∧ ((KalmanFilter.new (-13.05 : ℝ) true).run updates).has_velocity = true ∧
      (((KalmanFilter.new (-13.05 : ℝ) true).run updates).temporal deltat).divisor = 0 := by
  obtain ⟨f, hrun, hvel, hcov, hq, -, hr⟩ := run_first (-13.05)
  have hp_xx : f.p_xx = 0.1 * -13.05 := congrArg Covariance.pos hcov
  have hp_xv : f.p_xv = 1 := congrArg Covariance.cross hcov
  have hp_vv : f.p_vv = 1 := congrArg Covariance.vel hcov
  have hrun' : (f.run []) = f := rfl
  refine ⟨[(-13.05, 1)], 0.9, by norm_num, ?_, ?_⟩
  · rw [hrun, hrun']
    exact hvel
  · rw [hrun, hrun']
    rw [divisor_temporal, hp_xx, hp_xv, hp_vv, hq, hr]
    norm_num

end FitsWebQL
