/-
  FitsWebQL.BeamScale — the telescope beam that the browser draws over an image
  (`display_beam`). A beam larger than three times the font is reduced and one smaller than a
  quarter of it enlarged, by a power of two: one loop or the other looks for it, with
  `max_dim`, and the radii are then divided or multiplied by `beam_multiplier`.

  Each turn doubles `beam_multiplier` and applies all of it to `max_dim`, which has the earlier
  turns in it already: `max_dim` changes by 2, then by 4 more, then by 8 more, while the
  radii get the last multiplier only. From the third turn on, and for some beams from the
  second, the beam is not scaled enough.

  A radius divided by a pixel size of 0 (or `null`, for a header without one) is no number
  (`none`). Exact arithmetic.

  Proved, for every positive beam, image and font:
  - `displayBeam_ends`: the loops end.
  - `beam_within_iff`: the beam has the size that the loops look for exactly when it was
    neither more than four times too large nor less than a quarter of what is too small.
  - `beam_too_large`: a beam of 80 pixels, drawn with 20 where at most 12 was looked for.
-/

import Mathlib
import FitsWebQL.Lib.Loops

namespace FitsWebQL

open Lib.Loops

variable {K : Type*} [Field K] [LinearOrder K]

structure BeamView (K : Type*) [Field K] [LinearOrder K] where
  BMAJ : K
  BMIN : K
  CDELT1 : K
  CDELT2 : K
  width : K
  image_width : K
  img_width : K
  bounding_width : K
  emFontSize : K
  BMAJ_pos : 0 < BMAJ
  BMIN_pos : 0 < BMIN
  width_pos : 0 < width
  image_width_pos : 0 < image_width
  img_width_pos : 0 < img_width
  bounding_width_pos : 0 < bounding_width
  emFontSize_pos : 0 < emFontSize

structure BeamLoop (K : Type*) where
  max_dim : K
  beam_multiplier : K
  beam_reduce : Bool
  beam_enlarge : Bool

structure DrawnBeam (K : Type*) where
  rx : K
  ry : K
  beam_multiplier : K
  beam_reduce : Bool
  beam_enlarge : Bool

namespace BeamView

variable (v : BeamView K)

def scale : K := v.image_width / v.width * (v.img_width / v.bounding_width)

def rx : K := 0.5 * v.scale * v.BMAJ / |v.CDELT1|

def ry : K := 0.5 * v.scale * v.BMIN / |v.CDELT2|

def upper_threshold : K := 3.0 * v.emFontSize

def lower_threshold : K := 0.25 * v.emFontSize

end BeamView

def reduceTurn (s : BeamLoop K) : BeamLoop K :=
  let beam_multiplier := s.beam_multiplier * 2.0
  { s with beam_reduce := true, beam_multiplier, max_dim := s.max_dim / beam_multiplier }

def enlargeTurn (s : BeamLoop K) : BeamLoop K :=
  let beam_multiplier := s.beam_multiplier * 2.0
  { s with beam_enlarge := true, beam_multiplier, max_dim := s.max_dim * beam_multiplier }

def beamStart (v : BeamView K) : BeamLoop K :=
  { max_dim := max v.rx v.ry, beam_multiplier := 1, beam_reduce := false, beam_enlarge := false }

/-- The two loops, `none` while one is still running after `turns`. -/
def beamLoops (v : BeamView K) (turns : ℕ) : Option (BeamLoop K) :=
  (whileLoop (fun s => v.upper_threshold < s.max_dim) reduceTurn turns (beamStart v)).bind fun s =>
    if !s.beam_reduce then whileLoop (fun s => s.max_dim < v.lower_threshold) enlargeTurn turns s else some s

/-- `none` for a radius that is no number too. -/
def displayBeam (v : BeamView K) (turns : ℕ) : Option (DrawnBeam K) :=
  if v.CDELT1 = 0 ∨ v.CDELT2 = 0 then none
  else
    (beamLoops v turns).map fun s =>
      let r := if s.beam_reduce then (v.rx / s.beam_multiplier, v.ry / s.beam_multiplier) else (v.rx, v.ry)
      let r := if s.beam_enlarge then (r.1 * s.beam_multiplier, r.2 * s.beam_multiplier) else r
      ⟨r.1, r.2, s.beam_multiplier, s.beam_reduce, s.beam_enlarge⟩

/-- The drawn beam is within the thresholds, and its multiplier is what it was scaled by. -/
structure DrawnBeam.Within (b : DrawnBeam K) (v : BeamView K) : Prop where
  upper : max b.rx b.ry ≤ v.upper_threshold
  lower : b.beam_enlarge = true → v.lower_threshold ≤ max b.rx b.ry
  multiplier : ∃ n : ℕ, b.beam_multiplier = 2 ^ n ∧
    if b.beam_reduce then b.rx * 2 ^ n = v.rx ∧ b.ry * 2 ^ n = v.ry
    else if b.beam_enlarge then b.rx = v.rx * 2 ^ n ∧ b.ry = v.ry * 2 ^ n
    else n = 0 ∧ b.rx = v.rx ∧ b.ry = v.ry

def BeamView.DrawnWithin (v : BeamView K) : Prop :=
  ∃ b : DrawnBeam K, (∃ n, ∀ turns, n < turns → displayBeam v turns = some b) ∧ b.Within v

/-! ## Turns -/

section Turns

def powers (n : ℕ) : ℕ := ∑ k ∈ Finset.range n, (k + 1)

theorem powers_succ (n : ℕ) : powers (n + 1) = powers n + (n + 1) := Finset.sum_range_succ _ n

theorem le_powers (n : ℕ) : n ≤ powers n := by
  induction n with
  | zero => exact Nat.le_refl 0
  | succ n _ =>
    rw [powers_succ]
    exact Nat.le_add_left _ _

/-- From the third turn on more than the multiplier was applied before the last turn. -/
theorem succ_le_powers {n : ℕ} (h : 2 ≤ n) : n + 1 ≤ powers n := by
  induction n, h using Nat.le_induction with
  | base => decide
  | succ n hn ih =>
    rw [powers_succ]
    omega

theorem two_pow_le [IsStrictOrderedRing K] (n : ℕ) : (2 : K) ^ n ≤ 2 ^ powers n := pow_le_pow_right₀ one_le_two (le_powers n)

theorem two_pow_succ_le [IsStrictOrderedRing K] {n : ℕ} (h : 2 ≤ n) : (2 : K) ^ (n + 1) ≤ 2 ^ powers n :=
  pow_le_pow_right₀ one_le_two (succ_le_powers h)

omit [LinearOrder K] in
theorem iterate_reduce [CharZero K] (n : ℕ) (d : K) :
    reduceTurn^[n] ⟨d, 1, false, false⟩ = ⟨d / 2 ^ powers n, 2 ^ n, decide (0 < n), false⟩ := by
  have htwo : (2.0 : K) = 2 := by norm_num
  induction n with
  | zero => simp [powers]
  | succ n ih =>
    rw [Function.iterate_succ_apply', ih, powers_succ]
    unfold reduceTurn
    dsimp only
    rw [htwo, ← pow_succ, div_div, ← pow_add, decide_eq_true (Nat.succ_pos n)]

omit [LinearOrder K] in
theorem iterate_enlarge [CharZero K] (n : ℕ) (d : K) :
    enlargeTurn^[n] ⟨d, 1, false, false⟩ = ⟨d * 2 ^ powers n, 2 ^ n, false, decide (0 < n)⟩ := by
  have htwo : (2.0 : K) = 2 := by norm_num
  induction n with
  | zero => simp [powers]
  | succ n ih =>
    rw [Function.iterate_succ_apply', ih, powers_succ]
    unfold enlargeTurn
    dsimp only
    rw [htwo, ← pow_succ, mul_assoc, ← pow_add, decide_eq_true (Nat.succ_pos n)]

end Turns

/-! ## The beam of a view -/

section View

variable [IsStrictOrderedRing K] (v : BeamView K)

namespace BeamView

theorem scale_pos : 0 < v.scale :=
  mul_pos (div_pos v.image_width_pos v.width_pos) (div_pos v.img_width_pos v.bounding_width_pos)

theorem rx_pos (h : v.CDELT1 ≠ 0) : 0 < v.rx :=
  div_pos (mul_pos (mul_pos (by norm_num) v.scale_pos) v.BMAJ_pos) (abs_pos.mpr h)

theorem larger_pos (h : v.CDELT1 ≠ 0) : 0 < max v.rx v.ry := lt_max_of_lt_left (v.rx_pos h)

theorem lower_threshold_pos : 0 < v.lower_threshold := mul_pos (by norm_num) v.emFontSize_pos

theorem upper_threshold_eq : v.upper_threshold = 12 * v.lower_threshold := by
  unfold upper_threshold lower_threshold
  rw [← mul_assoc]
  congr 1
  norm_num

theorem upper_threshold_pos : 0 < v.upper_threshold := by
  rw [v.upper_threshold_eq]
  exact mul_pos (by norm_num) v.lower_threshold_pos

end BeamView

variable [Archimedean K]

omit [Archimedean K] in
theorem reduce_guard_iff {upper d : K} (n : ℕ) :
    upper < (reduceTurn^[n] ⟨d, 1, false, false⟩).max_dim ↔ upper * 2 ^ powers n < d := by
  rw [iterate_reduce]
  exact lt_div_iff₀ (by positivity)

omit [Archimedean K] in
theorem enlarge_guard_iff {lower d : K} (n : ℕ) :
    (enlargeTurn^[n] ⟨d, 1, false, false⟩).max_dim < lower ↔ d * 2 ^ powers n < lower := by
  rw [iterate_enlarge]

theorem exists_powers {a : K} (ha : 0 < a) (b : K) : ∃ n, b ≤ a * 2 ^ powers n := by
  obtain ⟨n, hn⟩ := pow_unbounded_of_one_lt (b / a) (one_lt_two : (1 : K) < 2)
  refine ⟨n, ?_⟩
  calc b ≤ 2 ^ n * a := ((div_lt_iff₀ ha).mp hn).le
    _ ≤ a * 2 ^ powers n := by
      rw [mul_comm]
      exact mul_le_mul_of_nonneg_left (two_pow_le n) ha.le

/-- `max_dim` is at most the threshold after some number of turns. -/
theorem exists_reduceTurns {upper : K} (hupper : 0 < upper) (d : K) :
    ∃ n, EndsAfter (fun s : BeamLoop K => upper < s.max_dim) reduceTurn ⟨d, 1, false, false⟩ n := by
  obtain ⟨n, hn⟩ := exists_powers hupper d
  apply exists_endsAfter
  refine ⟨n, ?_⟩
  rw [reduce_guard_iff]
  exact not_lt.mpr hn

theorem exists_enlargeTurns (lower : K) {d : K} (hd : 0 < d) :
    ∃ n, EndsAfter (fun s : BeamLoop K => s.max_dim < lower) enlargeTurn ⟨d, 1, false, false⟩ n := by
  obtain ⟨n, hn⟩ := exists_powers hd lower
  apply exists_endsAfter
  refine ⟨n, ?_⟩
  rw [enlarge_guard_iff]
  exact not_lt.mpr hn

omit [Archimedean K]

/-- The beam that is drawn after `n` turns of the first loop. -/
theorem displayBeam_reduced (h1 : v.CDELT1 ≠ 0) (h2 : v.CDELT2 ≠ 0) {n turns : ℕ} (hn : 0 < n)
    (hends : EndsAfter (fun s => v.upper_threshold < s.max_dim) reduceTurn (beamStart v) n) (hturns : n < turns) :
    displayBeam v turns = some ⟨v.rx / 2 ^ n, v.ry / 2 ^ n, 2 ^ n, true, false⟩ := by
  have hloop : beamLoops v turns = some ⟨max v.rx v.ry / 2 ^ powers n, 2 ^ n, true, false⟩ := by
    unfold beamLoops
    rw [whileLoop_eq hends hturns, beamStart, iterate_reduce, decide_eq_true hn]
    rfl
  unfold displayBeam
  rw [if_neg (not_or.mpr ⟨h1, h2⟩), hloop]
  rfl

theorem displayBeam_enlarged (h1 : v.CDELT1 ≠ 0) (h2 : v.CDELT2 ≠ 0) {n turns : ℕ}
    (hfits : max v.rx v.ry ≤ v.upper_threshold)
    (hends : EndsAfter (fun s => s.max_dim < v.lower_threshold) enlargeTurn (beamStart v) n) (hturns : n < turns) :
    displayBeam v turns = some ⟨v.rx * 2 ^ n, v.ry * 2 ^ n, 2 ^ n, false, decide (0 < n)⟩ := by
  have hloop : beamLoops v turns = some ⟨max v.rx v.ry * 2 ^ powers n, 2 ^ n, false, decide (0 < n)⟩ := by
    obtain ⟨turns, rfl⟩ := Nat.exists_eq_succ_of_ne_zero (Nat.ne_zero_of_lt hturns)
    have hfirst : whileLoop (fun s => v.upper_threshold < s.max_dim) reduceTurn (turns + 1) (beamStart v) =
        some (beamStart v) := by
      apply whileLoop_done
      exact not_lt.mpr hfits
    have hsecond := whileLoop_eq hends hturns
    rw [beamStart, iterate_enlarge] at hsecond
    unfold beamLoops
    rw [hfirst]
    exact hsecond
  unfold displayBeam
  rw [if_neg (not_or.mpr ⟨h1, h2⟩), hloop]
  cases n with
  | zero => simp
  | succ n => simp

omit [IsStrictOrderedRing K] in
/-- What is drawn for a view is what any number of turns past the last gives. -/
theorem drawnWithin_iff {v : BeamView K} {b : DrawnBeam K} {n : ℕ}
    (h : ∀ turns, n < turns → displayBeam v turns = some b) : v.DrawnWithin ↔ b.Within v := by
  constructor
  · intro hdrawn
    obtain ⟨b', ⟨m, hm⟩, hwithin⟩ := hdrawn
    have hlater : max n m < max n m + 1 := Nat.lt_succ_self _
    have hsame : some b = some b' :=
      (h _ (lt_of_le_of_lt (Nat.le_max_left n m) hlater)).symm.trans (hm _ (lt_of_le_of_lt (Nat.le_max_right n m) hlater))
    rw [Option.some.inj hsame]
    exact hwithin
  · intro hwithin
    exact ⟨b, ⟨n, h⟩, hwithin⟩

theorem within_reduced (n : ℕ) :
    (DrawnBeam.mk (v.rx / 2 ^ n) (v.ry / 2 ^ n) (2 ^ n) true false).Within v ↔
      max v.rx v.ry / 2 ^ n ≤ v.upper_threshold := by
  have hpos : (0 : K) < 2 ^ n := by positivity
  have hmax : max (v.rx / 2 ^ n) (v.ry / 2 ^ n) = max v.rx v.ry / 2 ^ n := max_div_div_right hpos.le _ _
  constructor
  · intro hwithin
    rw [← hmax]
    exact hwithin.upper
  · intro hfits
    refine ⟨hmax.trans_le hfits, fun h => absurd h Bool.false_ne_true, n, rfl, ?_⟩
    exact ⟨div_mul_cancel₀ _ hpos.ne', div_mul_cancel₀ _ hpos.ne'⟩

theorem within_enlarged (n : ℕ) :
    (DrawnBeam.mk (v.rx * 2 ^ n) (v.ry * 2 ^ n) (2 ^ n) false (decide (0 < n))).Within v ↔
      max v.rx v.ry * 2 ^ n ≤ v.upper_threshold ∧ (0 < n → v.lower_threshold ≤ max v.rx v.ry * 2 ^ n) := by
  have hpos : (0 : K) < 2 ^ n := by positivity
  have hmax : max (v.rx * 2 ^ n) (v.ry * 2 ^ n) = max v.rx v.ry * 2 ^ n := (max_mul_of_nonneg _ _ hpos.le).symm
  constructor
  · intro hwithin
    rw [← hmax]
    exact ⟨hwithin.upper, fun hn => hwithin.lower (decide_eq_true hn)⟩
  · intro hfits
    refine ⟨hmax.trans_le hfits.1, fun hn => (hfits.2 (of_decide_eq_true hn)).trans_eq hmax.symm, n, rfl, ?_⟩
    cases n with
    | zero => simp
    | succ n => simp

/-! ### How far the loops scale -/

theorem four_le_pow (n : ℕ) : (4 : K) ≤ 2 ^ (n + 3) := by
  calc (4 : K) = 2 ^ 2 := by norm_num
    _ ≤ 2 ^ (n + 3) := pow_le_pow_right₀ one_le_two (Nat.le_add_left 2 (n + 1))

/-- `a` grows to `b` in the loop's powers, and with the last multiplier alone in at most two turns. -/
theorem scaled_iff {a b : K} (ha : 0 < a) (hab : a < b) {n : ℕ} (hbefore : ∀ k < n, a * 2 ^ powers k < b)
    (hafter : b ≤ a * 2 ^ powers n) : b ≤ a * 2 ^ n ↔ b ≤ 4 * a := by
  match n with
  | 0 =>
    have hsmall : b ≤ a := by simpa [powers] using hafter
    exact absurd hab (not_lt.mpr hsmall)
  | 1 =>
    have hdouble : b ≤ a * 2 := by simpa [powers] using hafter
    constructor
    · intro _
      linarith
    · intro _
      rw [pow_one]
      exact hdouble
  | 2 =>
    constructor
    · intro h
      linarith
    · intro h
      linarith
  | n + 3 =>
    have hless : a * 2 ^ (n + 3) < b := by
      calc a * 2 ^ (n + 3) ≤ a * 2 ^ powers (n + 2) := mul_le_mul_of_nonneg_left (two_pow_succ_le (Nat.le_add_left 2 n)) ha.le
        _ < b := hbefore (n + 2) (Nat.lt_succ_self _)
    have hfour : 4 * a ≤ a * 2 ^ (n + 3) := by
      rw [mul_comm]
      exact mul_le_mul_of_nonneg_left (four_le_pow n) ha.le
    constructor
    · intro h
      exact absurd h (not_le.mpr hless)
    · intro h
      linarith

/-- A beam too large for the threshold, and the `n` turns that the first loop takes. -/
theorem reduced_fits_iff {upper d : K} (hupper : 0 < upper) (hlarge : upper < d) {n : ℕ}
    (hends : EndsAfter (fun s : BeamLoop K => upper < s.max_dim) reduceTurn ⟨d, 1, false, false⟩ n) :
    d / 2 ^ n ≤ upper ↔ d ≤ 4 * upper := by
  rw [div_le_iff₀ (by positivity)]
  apply scaled_iff hupper hlarge
  · intro k hk
    exact (reduce_guard_iff k).mp (hends.before k hk)
  · exact not_lt.mp fun h => hends.after ((reduce_guard_iff n).mpr h)

theorem enlarged_fits_iff {lower d : K} (hd : 0 < d) (hsmall : d < lower) {n : ℕ}
    (hends : EndsAfter (fun s : BeamLoop K => s.max_dim < lower) enlargeTurn ⟨d, 1, false, false⟩ n) :
    lower ≤ d * 2 ^ n ↔ lower ≤ 4 * d := by
  apply scaled_iff hd hsmall
  · intro k hk
    exact (enlarge_guard_iff k).mp (hends.before k hk)
  · exact not_lt.mp fun h => hends.after ((enlarge_guard_iff n).mpr h)

/-- The radii are at most doubled past the threshold that the beam was too small for. -/
theorem enlarged_lt {lower d : K} (hd : 0 < d) (hsmall : d < lower) {n : ℕ}
    (hends : EndsAfter (fun s : BeamLoop K => s.max_dim < lower) enlargeTurn ⟨d, 1, false, false⟩ n) :
    d * 2 ^ n < 2 * lower := by
  cases n with
  | zero =>
    rw [pow_zero, mul_one]
    linarith
  | succ n =>
    have hbefore : d * 2 ^ powers n < lower := (enlarge_guard_iff n).mp (hends.before n (Nat.lt_succ_self n))
    have hfactor : d * 2 ^ n ≤ d * 2 ^ powers n := mul_le_mul_of_nonneg_left (two_pow_le n) hd.le
    rw [pow_succ]
    linarith

end View

/-! ## Results -/

/-- The first loop's number of turns and, when it takes none, the second's. -/
theorem displayBeam_ends (v : BeamView ℝ) (h1 : v.CDELT1 ≠ 0) (h2 : v.CDELT2 ≠ 0) :
    ∃ b n, ∀ turns, n < turns → displayBeam v turns = some b := by
  obtain ⟨n, hn⟩ := exists_reduceTurns v.upper_threshold_pos (max v.rx v.ry)
  rcases Nat.eq_zero_or_pos n with rfl | hpos
  · obtain ⟨m, hm⟩ := exists_enlargeTurns v.lower_threshold (v.larger_pos h1)
    exact ⟨_, m, fun turns hturns => displayBeam_enlarged v h1 h2 (not_lt.mp hn.after) hm hturns⟩
  · exact ⟨_, n, fun turns hturns => displayBeam_reduced v h1 h2 hpos hn hturns⟩

theorem drawnWithin_of_large (v : BeamView ℝ) (h1 : v.CDELT1 ≠ 0) (h2 : v.CDELT2 ≠ 0)
    (hlarge : v.upper_threshold < max v.rx v.ry) : v.DrawnWithin ↔ max v.rx v.ry ≤ 4 * v.upper_threshold := by
  obtain ⟨n, hn⟩ := exists_reduceTurns v.upper_threshold_pos (max v.rx v.ry)
  have hpos : 0 < n := by
    rcases Nat.eq_zero_or_pos n with rfl | hpos
    · exact absurd hlarge hn.after
    · exact hpos
  rw [drawnWithin_iff fun turns hturns => displayBeam_reduced v h1 h2 hpos hn hturns, within_reduced]
  exact reduced_fits_iff v.upper_threshold_pos hlarge hn

theorem drawnWithin_of_small (v : BeamView ℝ) (h1 : v.CDELT1 ≠ 0) (h2 : v.CDELT2 ≠ 0)
    (hfits : max v.rx v.ry ≤ v.upper_threshold) : v.DrawnWithin ↔ v.lower_threshold ≤ 4 * max v.rx v.ry := by
  have hd := v.larger_pos h1
  obtain ⟨m, hm⟩ := exists_enlargeTurns v.lower_threshold hd
  rw [drawnWithin_iff fun turns hturns => displayBeam_enlarged v h1 h2 hfits hm hturns, within_enlarged]
  rcases lt_or_ge (max v.rx v.ry) v.lower_threshold with hsmall | hlarge
  · have hpos : 0 < m := by
      rcases Nat.eq_zero_or_pos m with rfl | hpos
      · exact absurd hsmall hm.after
      · exact hpos
    have hupper : max v.rx v.ry * 2 ^ m ≤ v.upper_threshold := by
      have h := enlarged_lt hd hsmall hm
      have hlower := v.lower_threshold_pos
      rw [v.upper_threshold_eq]
      linarith
    rw [← enlarged_fits_iff hd hsmall hm]
    exact ⟨fun h => h.2 hpos, fun h => ⟨hupper, fun _ => h⟩⟩
  · have hnone : m = 0 := by
      rcases Nat.eq_zero_or_pos m with hzero | hpos
      · exact hzero
      · exact absurd (hm.before 0 hpos) (not_lt.mpr hlarge)
    subst hnone
    rw [pow_zero, mul_one]
    constructor
    · intro _
      linarith
    · intro _
      exact ⟨hfits, fun h => absurd h (lt_irrefl 0)⟩

theorem beam_within_iff (v : BeamView ℝ) :
    v.DrawnWithin ↔
      v.CDELT1 ≠ 0 ∧ v.CDELT2 ≠ 0 ∧
        v.lower_threshold ≤ 4 * max v.rx v.ry ∧ max v.rx v.ry ≤ 4 * v.upper_threshold := by
  by_cases hnumbers : v.CDELT1 = 0 ∨ v.CDELT2 = 0
  · constructor
    · intro hdrawn
      obtain ⟨b, ⟨n, hn⟩, -⟩ := hdrawn
      have hb := hn (n + 1) (Nat.lt_succ_self n)
      rw [displayBeam, if_pos hnumbers] at hb
      cases hb
    · intro h
      exact absurd hnumbers (not_or.mpr ⟨h.1, h.2.1⟩)
  obtain ⟨h1, h2⟩ := not_or.mp hnumbers
  have hlower := v.lower_threshold_pos
  have hupper := v.upper_threshold_eq
  rcases lt_or_ge v.upper_threshold (max v.rx v.ry) with hlarge | hfits
  · rw [drawnWithin_of_large v h1 h2 hlarge]
    constructor
    · intro h
      exact ⟨h1, h2, by linarith, h⟩
    · intro h
      exact h.2.2.2
  · rw [drawnWithin_of_small v h1 h2 hfits]
    constructor
    · intro h
      exact ⟨h1, h2, h, by linarith⟩
    · intro h
      exact h.2.2.1

/-- A beam of 80 pixels on a screen, for thresholds of 12 and 1: after 2 turns `max_dim` is
10 and the beam, reduced by 4, is 20 pixels. -/
def largeBeam : BeamView ℝ where
  BMAJ := 160
  BMIN := 160
  CDELT1 := 1
  CDELT2 := 1
  width := 1
  image_width := 1
  img_width := 1
  bounding_width := 1
  emFontSize := 4
  BMAJ_pos := Nat.ofNat_pos
  BMIN_pos := Nat.ofNat_pos
  width_pos := one_pos
  image_width_pos := one_pos
  img_width_pos := one_pos
  bounding_width_pos := one_pos
  emFontSize_pos := Nat.ofNat_pos

theorem beam_too_large : ¬ largeBeam.DrawnWithin := by
  have hrx : largeBeam.rx = 80 := by norm_num [BeamView.rx, BeamView.scale, largeBeam]
  have hupper : largeBeam.upper_threshold = 12 := by norm_num [BeamView.upper_threshold, largeBeam]
  have hlarge : largeBeam.upper_threshold < max largeBeam.rx largeBeam.ry := by
    rw [hrx, hupper]
    exact lt_max_of_lt_left (by norm_num)
  rw [drawnWithin_of_large largeBeam one_ne_zero one_ne_zero hlarge, hrx, hupper, not_le]
  exact lt_max_of_lt_left (by norm_num)

end FitsWebQL
