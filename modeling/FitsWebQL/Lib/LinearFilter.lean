/-
  FitsWebQL.Lib.LinearFilter — a Kalman filter with one number measured at a time, for a
  state of any finite dimension over any field: the state is expected to move by a matrix
  `F` with noise `Q`, and `H x` is measured with variance `r`.

  Proved: a correction by the gain is the covariance less the outer product of what the
  measurement knows of the state, over the variance expected of it
  (`correct_covariance_apply`).
-/

import Mathlib

namespace FitsWebQL.Lib.LinearFilter

open Matrix

@[ext] structure Estimate (ι K : Type*) where
  state : ι → K
  covariance : Matrix ι ι K

variable {ι K : Type*} [Fintype ι] [DecidableEq ι] [Field K]

/-- Before the measurement: `F x` and `F P Fᵀ + Q`. -/
def Estimate.predict (e : Estimate ι K) (F Q : Matrix ι ι K) : Estimate ι K := ⟨F *ᵥ e.state, F * e.covariance * Fᵀ + Q⟩

/-- The variance expected of a measurement, `H P Hᵀ + r`. -/
def Estimate.innovation (e : Estimate ι K) (H : ι → K) (r : K) : K := H ⬝ᵥ (e.covariance *ᵥ H) + r

/-- `K = P Hᵀ / (H P Hᵀ + r)`. -/
def Estimate.gain (e : Estimate ι K) (H : ι → K) (r : K) : ι → K := (e.innovation H r)⁻¹ • (e.covariance *ᵥ H)

/-- With the measurement `z`: `x + K (z - H x)` and `(I - K H) P`. -/
def Estimate.correct (e : Estimate ι K) (H : ι → K) (r z : K) : Estimate ι K :=
  ⟨e.state + (z - H ⬝ᵥ e.state) • e.gain H r, (1 - vecMulVec (e.gain H r) H) * e.covariance⟩

theorem correct_covariance_apply (e : Estimate ι K) (H : ι → K) (r z : K) (i j : ι) :
    (e.correct H r z).covariance i j = e.covariance i j - e.gain H r i * (H ᵥ* e.covariance) j := by
  unfold Estimate.correct
  dsimp only
  rw [Matrix.sub_mul, Matrix.one_mul, Matrix.sub_apply, Matrix.vecMulVec_mul, Matrix.vecMulVec_apply]

end FitsWebQL.Lib.LinearFilter
