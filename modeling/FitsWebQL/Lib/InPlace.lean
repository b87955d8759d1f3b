/-
  FitsWebQL.Lib.InPlace — a covariance corrected entry by entry in place: the variance of the
  velocity comes last and is lessened with the cross entry that has been corrected already.
  That is less than an observation takes, and a covariance that is not positive semidefinite
  may stay one whose variances are not negative.

  What decides is `loss`: observations with no time between them each take some of the
  variance of the velocity, and what they take together is a sum over their number
  (`iterate_vel`). A covariance that no number of them can exhaust keeps that property under
  drift, noise and observations (`Lasting.drift`, `Lasting.addNoise`,
  `Lasting.observeInPlace`).
-/

import FitsWebQL.Lib.Tracking

namespace FitsWebQL.Lib.Tracking

variable {K : Type*} [Field K]

def Covariance.observeInPlace (c : Covariance K) (r : K) : Covariance K where
  pos := c.pos * (1 - c.pos / (c.pos + r))
  cross := c.cross * (1 - c.pos / (c.pos + r))
  vel := c.vel - c.cross / (c.pos + r) * (c.cross * (1 - c.pos / (c.pos + r)))

/-- What `n` observations at one time take from the variance of the velocity. -/
def Covariance.loss (c : Covariance K) (r : K) (n : ℕ) : K := c.cross ^ 2 * r * ∑ k ∈ Finset.range n, 1 / (r + (k + 1) * c.pos) ^ 2

theorem one_sub_gain {a r : K} (h : a + r ≠ 0) : 1 - a / (a + r) = r / (a + r) := by
  rw [eq_div_iff h, sub_mul, div_mul_cancel₀ a h, one_mul, add_sub_cancel_left]

theorem vel_observeInPlace (c : Covariance K) {r : K} (h : c.pos + r ≠ 0) :
    (c.observeInPlace r).vel = c.vel - c.cross ^ 2 * r / (c.pos + r) ^ 2 := by
  unfold Covariance.observeInPlace
  dsimp only
  rw [one_sub_gain h]
  field_simp

theorem loss_succ (c : Covariance K) {r : K} (hr : r ≠ 0) (h : c.pos + r ≠ 0) (n : ℕ) :
    c.loss r (n + 1) = c.cross ^ 2 * r / (c.pos + r) ^ 2 + (c.observeInPlace r).loss r n := by
  have hterm : ∀ k : ℕ, (c.cross * (r / (c.pos + r))) ^ 2 * r * (1 / (r + (k + 1) * (c.pos * (r / (c.pos + r)))) ^ 2) =
      c.cross ^ 2 * r * (1 / (r + ((k + 1 : ℕ) + 1) * c.pos) ^ 2) := by
    intro k
    have hden : r + (k + 1) * (c.pos * (r / (c.pos + r))) = r / (c.pos + r) * (r + ((k + 1 : ℕ) + 1) * c.pos) := by
      push_cast
      field_simp
      ring
    have hne : r / (c.pos + r) ≠ 0 := div_ne_zero hr h
    rw [hden, mul_pow (r / (c.pos + r)), mul_pow c.cross, one_div, one_div, mul_inv]
    field_simp
  unfold Covariance.loss
  rw [Finset.sum_range_succ', mul_add, add_comm]
  congr 1
  · rw [Nat.cast_zero, zero_add, one_mul, add_comm r, mul_one_div]
  · unfold Covariance.observeInPlace
    dsimp only
    rw [one_sub_gain h, Finset.mul_sum, Finset.mul_sum]
    exact Finset.sum_congr rfl fun k _ => (hterm k).symm

section Order

variable [LinearOrder K]

/-- The entries are not negative, and stay so however often the position is observed. -/
structure Lasting (c : Covariance K) (r : K) : Prop where
  pos : 0 ≤ c.pos
  cross : 0 ≤ c.cross
  loss : ∀ n, c.loss r n ≤ c.vel

theorem Lasting.vel {c : Covariance K} {r : K} (h : Lasting c r) : 0 ≤ c.vel := by
  have hnone := h.loss 0
  simpa [Covariance.loss] using hnone

variable [IsStrictOrderedRing K]

theorem pos_observeInPlace {c : Covariance K} {r : K} (hr : 0 < r) (hpos : 0 ≤ c.pos) : 0 ≤ (c.observeInPlace r).pos := by
  have hsum : 0 < c.pos + r := add_pos_of_nonneg_of_pos hpos hr
  unfold Covariance.observeInPlace
  dsimp only
  rw [one_sub_gain hsum.ne']
  positivity

theorem iterate_vel {r : K} (hr : 0 < r) (n : ℕ) {c : Covariance K} (hpos : 0 ≤ c.pos) :
    0 ≤ ((Covariance.observeInPlace · r)^[n] c).pos ∧ ((Covariance.observeInPlace · r)^[n] c).vel = c.vel - c.loss r n := by
  induction n generalizing c with
  | zero => exact ⟨hpos, by simp [Covariance.loss]⟩
  | succ n ih =>
    have hne : c.pos + r ≠ 0 := (add_pos_of_nonneg_of_pos hpos hr).ne'
    obtain ⟨h1, h2⟩ := ih (pos_observeInPlace hr hpos)
    rw [Function.iterate_succ_apply]
    refine ⟨h1, ?_⟩
    rw [h2, vel_observeInPlace c hne, loss_succ c hr.ne' hne, sub_sub]

/-! ## A sum that drift lessens -/

/-- The sum of `n` terms, from the next one. -/
theorem sum_bound {r a : K} (hr : 0 < r) (ha : 0 ≤ a) (n : ℕ) :
    r * ∑ k ∈ Finset.range n, 1 / (r + (k + 1) * a) ^ 2 ≤ (n + 1) / (r + (n + 1) * a) - r / (r + (n + 1) * a) ^ 2 := by
  induction n with
  | zero =>
    have hden : 0 < r + a := add_pos_of_pos_of_nonneg hr ha
    have heq : 1 / (r + a) - r / (r + a) ^ 2 = a / (r + a) ^ 2 := by
      field_simp
      ring
    simp only [Finset.range_zero, Finset.sum_empty, mul_zero, Nat.cast_zero, zero_add, one_mul]
    rw [heq]
    positivity
  | succ n ih =>
    have hy : 0 < r + (n + 1) * a := by positivity
    have hz : 0 < r + ((n + 1 : ℕ) + 1) * a := by positivity
    have hle : r + (n + 1) * a ≤ r + ((n + 1 : ℕ) + 1) * a := by
      push_cast
      linarith
    have hnext : (((n + 1 : ℕ) : K) + 1) / (r + ((n + 1 : ℕ) + 1) * a) - (n + 1) / (r + (n + 1) * a) =
        r / ((r + (n + 1) * a) * (r + ((n + 1 : ℕ) + 1) * a)) := by
      push_cast at hz ⊢
      field_simp
      ring
    have hfar : r / (r + ((n + 1 : ℕ) + 1) * a) ^ 2 ≤ r / ((r + (n + 1) * a) * (r + ((n + 1 : ℕ) + 1) * a)) := by
      rw [pow_two]
      gcongr
    have hhere : r * (1 / (r + (n + 1) * a) ^ 2) = r / (r + (n + 1) * a) ^ 2 := mul_one_div _ _
    rw [Finset.sum_range_succ, mul_add, hhere]
    linarith

/-- The terms get smaller, by so much that the sum of their growth is the growth of `a`. -/
theorem sum_drift {r a d : K} (hr : 0 < r) (ha : 0 ≤ a) (hd : 0 ≤ d) (n : ℕ) :
    (∑ k ∈ Finset.range n, 1 / (r + (k + 1) * (a + d)) ^ 2) * (1 + d * r * ∑ k ∈ Finset.range n, 1 / (r + (k + 1) * a) ^ 2) ≤
      ∑ k ∈ Finset.range n, 1 / (r + (k + 1) * a) ^ 2 := by
  induction n with
  | zero => simp
  | succ n ih =>
    have hY := sum_bound hr ha n
    have hZ := sum_bound hr (add_nonneg ha hd) n
    rw [Finset.sum_range_succ, Finset.sum_range_succ]
    generalize ∑ k ∈ Finset.range n, 1 / (r + (k + 1) * (a + d)) ^ 2 = Z at *
    generalize ∑ k ∈ Finset.range n, 1 / (r + (k + 1) * a) ^ 2 = Y at *
    obtain ⟨y, hy⟩ : ∃ y, 1 / (r + (n + 1) * a) = y := ⟨_, rfl⟩
    obtain ⟨z, hz⟩ : ∃ z, 1 / (r + (n + 1) * (a + d)) = z := ⟨_, rfl⟩
    have hy0 : 0 < y := by
      rw [← hy]
      positivity
    have hz0 : 0 < z := by
      rw [← hz]
      positivity
    have hdiff : y - z = (n + 1) * d * (y * z) := by
      rw [← hy, ← hz]
      field_simp
      ring
    rw [div_eq_mul_one_div, hy, div_eq_mul_one_div r, ← one_div_pow, hy] at hY
    rw [div_eq_mul_one_div, hz, div_eq_mul_one_div r, ← one_div_pow, hz] at hZ
    rw [← one_div_pow, ← one_div_pow, hy, hz]
    have hYz := mul_le_mul_of_nonneg_left hY (mul_nonneg hd (sq_nonneg z))
    have hZy := mul_le_mul_of_nonneg_left hZ (mul_nonneg hd (sq_nonneg y))
    have hrest : 0 ≤ d * r * (y ^ 2 * z ^ 2) := by positivity
    have hsquares : y ^ 2 - z ^ 2 = d * ((n + 1) * (y * z) * (y + z)) := by
      calc y ^ 2 - z ^ 2 = (y - z) * (y + z) := by ring
        _ = d * ((n + 1) * (y * z) * (y + z)) := by rw [hdiff]; ring
    linarith

theorem sum_antitone {r a b : K} (hr : 0 < r) (ha : 0 ≤ a) (hab : a ≤ b) (n : ℕ) :
    ∑ k ∈ Finset.range n, 1 / (r + (k + 1) * b) ^ 2 ≤ ∑ k ∈ Finset.range n, 1 / (r + (k + 1) * a) ^ 2 := by
  refine Finset.sum_le_sum fun k _ => ?_
  have hden : 0 < r + (k + 1) * a := by positivity
  gcongr

/-! ## What lasts -/

variable {c : Covariance K} {r : K}

theorem Lasting.drift (h : Lasting c r) (hr : 0 < r) {t : K} (ht : 0 ≤ t) : Lasting (c.drift t) r where
  pos := by
    have hpos := h.pos
    have hcross := h.cross
    have hvel := h.vel
    unfold Covariance.drift
    positivity
  cross := add_nonneg h.cross (mul_nonneg ht h.vel)
  loss n := by
    have hpos := h.pos
    have hcross := h.cross
    have hvel := h.vel
    obtain ⟨d, hd⟩ : ∃ d, t * c.cross + t * (c.cross + t * c.vel) = d := ⟨_, rfl⟩
    have hd0 : 0 ≤ d := by
      rw [← hd]
      positivity
    have hsquare : (c.cross + t * c.vel) ^ 2 = c.cross ^ 2 + c.vel * d := by
      rw [← hd]
      ring
    have hsum := sum_drift hr hpos hd0 n
    have hbefore := h.loss n
    unfold Covariance.loss Covariance.drift at *
    dsimp only at *
    rw [add_assoc, hd, hsquare]
    have hY0 : 0 ≤ ∑ k ∈ Finset.range n, 1 / (r + (k + 1) * c.pos) ^ 2 := Finset.sum_nonneg fun k _ => by positivity
    have hZ0 : 0 ≤ ∑ k ∈ Finset.range n, 1 / (r + (k + 1) * (c.pos + d)) ^ 2 := Finset.sum_nonneg fun k _ => by positivity
    generalize ∑ k ∈ Finset.range n, 1 / (r + (k + 1) * (c.pos + d)) ^ 2 = Z at *
    generalize ∑ k ∈ Finset.range n, 1 / (r + (k + 1) * c.pos) ^ 2 = Y at *
    rcases hY0.eq_or_lt with hzero | hY
    · rw [← hzero, mul_zero, add_zero, mul_one] at hsum
      rw [le_antisymm hsum hZ0, mul_zero]
      exact hvel
    · refine le_of_mul_le_mul_right ?_ hY
      calc (c.cross ^ 2 + c.vel * d) * r * Z * Y = c.cross ^ 2 * r * Y * Z + c.vel * (d * r * Y * Z) := by ring
        _ ≤ c.vel * Z + c.vel * (d * r * Y * Z) := by gcongr
        _ = c.vel * (Z * (1 + d * r * Y)) := by ring
        _ ≤ c.vel * Y := by gcongr

theorem Lasting.addNoise (h : Lasting c r) (hr : 0 < r) {pos vel : K} (hp : 0 ≤ pos) (hv : 0 ≤ vel) : Lasting (c.addNoise pos vel) r where
  pos := add_nonneg h.pos hp
  cross := h.cross
  loss n := by
    have hsum := sum_antitone hr h.pos (le_add_of_nonneg_right hp : c.pos ≤ c.pos + pos) n
    have hcross : 0 ≤ c.cross ^ 2 * r := by positivity
    calc (c.addNoise pos vel).loss r n ≤ c.loss r n := mul_le_mul_of_nonneg_left hsum hcross
      _ ≤ c.vel := h.loss n
      _ ≤ c.vel + vel := le_add_of_nonneg_right hv

theorem Lasting.observeInPlace (h : Lasting c r) (hr : 0 < r) : Lasting (c.observeInPlace r) r where
  pos := pos_observeInPlace hr h.pos
  cross := by
    have hsum : 0 < c.pos + r := add_pos_of_nonneg_of_pos h.pos hr
    have hcross := h.cross
    unfold Covariance.observeInPlace
    dsimp only
    rw [one_sub_gain hsum.ne']
    positivity
  loss n := by
    have hne : c.pos + r ≠ 0 := (add_pos_of_nonneg_of_pos h.pos hr).ne'
    have hnext := h.loss (n + 1)
    rw [loss_succ c hr.ne' hne] at hnext
    rw [vel_observeInPlace c hne]
    linarith

end Order

end FitsWebQL.Lib.Tracking
