/-
  FitsWebQL.Lib.Tracking — the covariance of a position and a velocity on a line: three
  numbers, the entries of a symmetric matrix. It is followed over time (`drift`), made
  larger by noise (`addNoise`) and smaller by an observation of the position (`observe`),
  the step of a Kalman filter.

  Proved, over any ordered field: the three keep a covariance positive semidefinite
  (`PosSemidef.drift`, `PosSemidef.addNoise`, `PosSemidef.observe`); over the reals that is
  the matrix's (`toMatrix_posSemidef`).
-/

import Mathlib

namespace FitsWebQL.Lib.Tracking

@[ext] structure Covariance (K : Type*) where
  pos : K
  cross : K
  vel : K

variable {K : Type*} [Field K]

/-- The variance of `u * position + w * velocity`. -/
def Covariance.form (c : Covariance K) (u w : K) : K := c.pos * u ^ 2 + (c.cross * u * w + c.cross * w * u) + c.vel * w ^ 2

def Covariance.drift (c : Covariance K) (t : K) : Covariance K where
  pos := c.pos + t * c.cross + t * (c.cross + t * c.vel)
  cross := c.cross + t * c.vel
  vel := c.vel

def Covariance.addNoise (c : Covariance K) (pos vel : K) : Covariance K := { c with pos := c.pos + pos, vel := c.vel + vel }

def Covariance.observe (c : Covariance K) (r : K) : Covariance K where
  pos := c.pos * (r / (c.pos + r))
  cross := c.cross * (r / (c.pos + r))
  vel := c.vel - c.cross ^ 2 / (c.pos + r)

theorem form_drift (c : Covariance K) (t u w : K) : (c.drift t).form u w = c.form u (t * u + w) := by
  unfold Covariance.form Covariance.drift
  ring

theorem form_addNoise (c : Covariance K) (pos vel u w : K) :
    (c.addNoise pos vel).form u w = c.form u w + (pos * u ^ 2 + vel * w ^ 2) := by
  unfold Covariance.form Covariance.addNoise
  ring

/-- With the gain `g` of `u * position + w * velocity`, the variance of the error that is
    left and that of the observation. -/
theorem form_observe (c : Covariance K) {r : K} (hr : c.pos + r ≠ 0) (u w : K) :
    let g := (c.pos * u + c.cross * w) / (c.pos + r)
    (c.observe r).form u w = c.form (u - g) w + r * g ^ 2 := by
  intro g
  have hg : g * (c.pos + r) = c.pos * u + c.cross * w := div_mul_cancel₀ _ hr
  have hpos : c.pos * (r / (c.pos + r)) = c.pos - c.pos ^ 2 / (c.pos + r) := by
    field_simp
    ring
  have hcross : c.cross * (r / (c.pos + r)) = c.cross - c.cross * c.pos / (c.pos + r) := by
    field_simp
    ring
  have hleft : (c.observe r).form u w = c.form u w - (c.pos * u + c.cross * w) ^ 2 / (c.pos + r) := by
    unfold Covariance.form Covariance.observe
    rw [hpos, hcross]
    ring
  have hsquare : (c.pos * u + c.cross * w) ^ 2 / (c.pos + r) = g * (c.pos * u + c.cross * w) := by
    rw [← hg, mul_pow, pow_two (c.pos + r), ← mul_assoc, mul_div_cancel_right₀ _ hr]
    ring
  rw [hleft, hsquare]
  unfold Covariance.form
  linear_combination -g * hg

section Order

variable [LinearOrder K]

/-- No combination of the two has a variance below zero. -/
def Covariance.PosSemidef (c : Covariance K) : Prop := ∀ u w, 0 ≤ c.form u w

variable {c : Covariance K}

theorem Covariance.PosSemidef.pos_nonneg (h : c.PosSemidef) : 0 ≤ c.pos := by
  have hpos := h 1 0
  simpa [Covariance.form] using hpos

theorem Covariance.PosSemidef.vel_nonneg (h : c.PosSemidef) : 0 ≤ c.vel := by
  have hvel := h 0 1
  simpa [Covariance.form] using hvel

theorem Covariance.PosSemidef.drift (h : c.PosSemidef) (t : K) : (c.drift t).PosSemidef := by
  intro u w
  rw [form_drift]
  exact h u (t * u + w)

variable [IsStrictOrderedRing K]

theorem Covariance.PosSemidef.addNoise (h : c.PosSemidef) {pos vel : K} (hpos : 0 ≤ pos) (hvel : 0 ≤ vel) :
    (c.addNoise pos vel).PosSemidef := by
  intro u w
  rw [form_addNoise]
  have hform := h u w
  positivity

theorem Covariance.PosSemidef.observe (h : c.PosSemidef) {r : K} (hr : 0 < r) : (c.observe r).PosSemidef := by
  intro u w
  have hne : c.pos + r ≠ 0 := (add_pos_of_nonneg_of_pos h.pos_nonneg hr).ne'
  rw [form_observe c hne]
  have hform := h (u - (c.pos * u + c.cross * w) / (c.pos + r)) w
  positivity

end Order

/-! ## The matrix -/

def Covariance.toMatrix (c : Covariance ℝ) : Matrix (Fin 2) (Fin 2) ℝ := !![c.pos, c.cross; c.cross, c.vel]

theorem toMatrix_posSemidef {c : Covariance ℝ} : c.toMatrix.PosSemidef ↔ c.PosSemidef := by
  have hsymm : c.toMatrix.IsHermitian := by
    ext i j
    fin_cases i <;> fin_cases j <;> rfl
  have hform : ∀ x : Fin 2 → ℝ, star x ⬝ᵥ c.toMatrix.mulVec x = c.form (x 0) (x 1) := by
    intro x
    simp [Covariance.toMatrix, Covariance.form, Matrix.mulVec, dotProduct, Fin.sum_univ_two]
    ring
  constructor
  · intro h u w
    have hx := h.dotProduct_mulVec_nonneg ![u, w]
    rwa [hform] at hx
  · intro h
    refine Matrix.PosSemidef.of_dotProduct_mulVec_nonneg hsymm fun x => ?_
    rw [hform]
    exact h (x 0) (x 1)

end FitsWebQL.Lib.Tracking
