/-
  FitsWebQL.SpectralAxis — from a range on the third axis to a range of frames
  (`get_frequency_bounds`, `get_velocity_bounds`, `get_freq2vel_bounds`).

  The numbers `K` are exact: an ordered field with a floor, ℚ to run the code and ℝ for
  every frequency. A frame's index is exact too.

  All three invert the axis. The first two measure from the end of the band the first
  channel is at; `get_freq2vel_bounds` inverts the axis itself, which gives the channel
  for either sign of the increment, and then mirrors it when the increment is negative.

  Proved:
  - `bandChannel_coordinate`, `freq2velChannel_coordinate`: the channel each finds.
  - `dopplerVelocity_inverse`: below the speed of light every velocity has a frequency.
  - `round_trip_iff`: which pairs of channels come back.
  - `a_receding_axis`: the first of two channels comes back as the second.
-/

import FitsWebQL.Header

namespace FitsWebQL

section Axis

variable {K : Type*} [Field K] [LinearOrder K] [IsStrictOrderedRing K] [FloorRing K]

/-! ## Arithmetic -/

def EPSILON (K : Type*) [Field K] : K := 1 / 10 ^ 15

def fpzero (a : K) : Bool := decide (|a| ≤ EPSILON K)

/-- `(int)round(x)`: halves go away from zero. -/
def round (x : K) : ℤ := if 0 ≤ x then ⌊x + 1 / 2⌋ else -⌊-x + 1 / 2⌋

def speedOfLight : K := 299792458

/-! ## The axis -/

structure SpectralAxis (K : Type*) where
  has_header : Bool
  has_frequency : Bool
  has_velocity : Bool
  depth : ℤ
  crval3 : K
  cdelt3 : K
  crpix3 : K
  frame_multiplier : K
  restfrq : K

variable (K) in
def FitsHeader.spectralAxis (h : FitsHeader) : SpectralAxis K where
  has_header := true
  has_frequency := h.has_frequency
  has_velocity := h.has_velocity
  depth := h.depth
  crval3 := h.crval3
  cdelt3 := h.cdelt3
  crpix3 := h.crpix3
  frame_multiplier := h.frame_multiplier
  restfrq := h.restfrq

variable (a : SpectralAxis K)

def SpectralAxis.frames (start stop : ℤ) : ℤ × ℤ :=
  let r := if stop < start then (stop, start) else (start, stop)
  (min (max r.1 0) (a.depth - 1), min (max r.2 0) (a.depth - 1))

def SpectralAxis.first : K := a.crval3 * a.frame_multiplier + a.cdelt3 * a.frame_multiplier * (1 - a.crpix3)
def SpectralAxis.last : K := a.crval3 * a.frame_multiplier + a.cdelt3 * a.frame_multiplier * (a.depth - a.crpix3)

/-- The channel at a coordinate, measured from an end of the band. -/
def SpectralAxis.bandChannel (x : K) : ℤ :=
  let band_lo := min a.first a.last
  let band_hi := max a.first a.last
  if 0 < a.cdelt3 then round ((x - band_lo) / (band_hi - band_lo) * (a.depth - 1))
  else round ((band_hi - x) / (band_hi - band_lo) * (a.depth - 1))

def getFrequencyBounds (freq_start freq_end : K) : ℤ × ℤ :=
  if fpzero freq_start || fpzero freq_end then (0, a.depth - 1)
  else a.frames (a.bandChannel freq_start) (a.bandChannel freq_end)

def getVelocityBounds (vel_start vel_end : K) : ℤ × ℤ :=
  if !a.has_header then (0, 0)
  else if a.depth ≤ 1 then (0, 0)
  else a.frames (a.bandChannel vel_start) (a.bandChannel vel_end)

def dopplerVelocity (restfrq freq : K) : K :=
  let fRatio := freq / restfrq
  (1 - fRatio * fRatio) / (1 + fRatio * fRatio) * speedOfLight

def SpectralAxis.freq2velChannel (v : K) : ℤ :=
  let x := a.crpix3 + (v - a.crval3 * a.frame_multiplier) / (a.cdelt3 * a.frame_multiplier) - 1
  if a.cdelt3 < 0 then a.depth - 1 - round x else round x

def getFreq2velBounds (frame_start frame_end ref_freq : K) : ℤ × ℤ :=
  if !a.has_header then (0, 0)
  else if a.depth ≤ 1 then (0, 0)
  else if a.restfrq ≤ 0 ∧ ref_freq ≤ 0 then (0, a.depth - 1)
  else
    let restfrq := if 0 < ref_freq then ref_freq else a.restfrq
    a.frames (a.freq2velChannel (dopplerVelocity restfrq frame_start))
      (a.freq2velChannel (dopplerVelocity restfrq frame_end))

/-! ## Channels -/

def SpectralAxis.coordinate (k : ℤ) : K := (a.crval3 + a.cdelt3 * (k + 1 - a.crpix3)) * a.frame_multiplier

structure SpectralAxis.Linear : Prop where
  header : a.has_header = true
  cdelt3 : a.cdelt3 ≠ 0
  frame_multiplier : a.frame_multiplier ≠ 0
  depth : 1 < a.depth

theorem round_intCast (n : ℤ) : round (n : K) = n := by
  have hhalf : ⌊(1 / 2 : K)⌋ = 0 := by
    rw [Int.floor_eq_zero_iff, Set.mem_Ico]
    refine ⟨by positivity, ?_⟩
    exact one_half_lt_one
  unfold round
  split
  · rw [Int.floor_intCast_add, hhalf, add_zero]
  · rw [← Int.cast_neg, Int.floor_intCast_add, hhalf, add_zero, neg_neg]

omit [LinearOrder K] [IsStrictOrderedRing K] [FloorRing K] in
theorem share_eq {n m j : K} {d : K} (hm : m ≠ 0) (h : n * d = j * m) : n / m * d = j := by
  rw [div_mul_eq_mul_div, div_eq_iff hm, h]

omit [Field K] [LinearOrder K] [IsStrictOrderedRing K] [FloorRing K] in
theorem frames_eq {k1 k2 : ℤ} (h1 : 0 ≤ k1 ∧ k1 < a.depth) (h2 : 0 ≤ k2 ∧ k2 < a.depth) :
    a.frames k1 k2 = (min k1 k2, max k1 k2) := by
  unfold SpectralAxis.frames
  split
  · simp only [Prod.mk.injEq]
    omega
  · simp only [Prod.mk.injEq]
    omega

variable {a}

/-- The channel found is the channel, or its mirror image when the band runs against the
    increment's sign. -/
theorem bandChannel_coordinate (ha : a.Linear) (k : ℤ) :
    a.bandChannel (a.coordinate k) = if 0 < a.frame_multiplier then k else a.depth - 1 - k := by
  have hdepth : (0 : K) < a.depth - 1 := by
    have h := ha.depth
    rw [sub_pos]
    exact_mod_cast h
  have hstep : a.last - a.first = a.cdelt3 * a.frame_multiplier * (a.depth - 1) := by
    unfold SpectralAxis.last SpectralAxis.first
    ring
  have hplace : a.coordinate k - a.first = a.cdelt3 * a.frame_multiplier * k := by
    unfold SpectralAxis.coordinate SpectralAxis.first
    ring
  have hspan : a.cdelt3 * a.frame_multiplier * (a.depth - 1) ≠ 0 :=
    mul_ne_zero (mul_ne_zero ha.cdelt3 ha.frame_multiplier) hdepth.ne'
  have hmirror : ((a.depth - 1 - k : ℤ) : K) = a.depth - 1 - k := by push_cast; ring
  unfold SpectralAxis.bandChannel
  dsimp only
  rcases lt_or_gt_of_ne ha.cdelt3 with hc | hc
  all_goals rcases lt_or_gt_of_ne ha.frame_multiplier with hf | hf
  · have hpos : 0 < a.cdelt3 * a.frame_multiplier * (a.depth - 1) := mul_pos (mul_pos_of_neg_of_neg hc hf) hdepth
    have hle : a.first ≤ a.last := by linarith
    rw [if_neg hc.not_gt, if_neg hf.not_gt, min_eq_left hle, max_eq_right hle, hstep]
    rw [share_eq (j := ((a.depth - 1 - k : ℤ) : K)) hspan, round_intCast]
    rw [hmirror]
    linear_combination (-(a.depth - 1 : K)) * hplace + (a.depth - 1 : K) * hstep
  · have hneg : a.cdelt3 * a.frame_multiplier * (a.depth - 1) < 0 :=
      mul_neg_of_neg_of_pos (mul_neg_of_neg_of_pos hc hf) hdepth
    have hle : a.last ≤ a.first := by linarith
    rw [if_neg hc.not_gt, if_pos hf, min_eq_right hle, max_eq_left hle, share_eq (j := (k : K)), round_intCast]
    · exact fun h0 => hspan (by linear_combination hstep.symm - h0)
    · linear_combination (-(a.depth - 1 : K)) * hplace + (k : K) * hstep
  · have hneg : a.cdelt3 * a.frame_multiplier * (a.depth - 1) < 0 :=
      mul_neg_of_neg_of_pos (mul_neg_of_pos_of_neg hc hf) hdepth
    have hle : a.last ≤ a.first := by linarith
    rw [if_pos hc, if_neg hf.not_gt, min_eq_right hle, max_eq_left hle, share_eq (j := ((a.depth - 1 - k : ℤ) : K)),
      round_intCast]
    · exact fun h0 => hspan (by linear_combination hstep.symm - h0)
    · rw [hmirror]
      linear_combination (a.depth - 1 : K) * hplace - (k : K) * hstep
  · have hpos : 0 < a.cdelt3 * a.frame_multiplier * (a.depth - 1) := mul_pos (mul_pos hc hf) hdepth
    have hle : a.first ≤ a.last := by linarith
    rw [if_pos hc, if_pos hf, min_eq_left hle, max_eq_right hle, hplace, hstep, share_eq (j := (k : K)) hspan, round_intCast]
    ring

theorem freq2velChannel_coordinate (ha : a.Linear) (k : ℤ) :
    a.freq2velChannel (a.coordinate k) = if a.cdelt3 < 0 then a.depth - 1 - k else k := by
  have hx : a.crpix3 + (a.coordinate k - a.crval3 * a.frame_multiplier) / (a.cdelt3 * a.frame_multiplier) - 1 = (k : K) := by
    have hstep : a.coordinate k - a.crval3 * a.frame_multiplier =
        (k + 1 - a.crpix3) * (a.cdelt3 * a.frame_multiplier) := by
      unfold SpectralAxis.coordinate
      ring
    rw [hstep, mul_div_cancel_right₀ _ (mul_ne_zero ha.cdelt3 ha.frame_multiplier)]
    ring
  unfold SpectralAxis.freq2velChannel
  dsimp only
  rw [hx, round_intCast]

omit [Field K] [IsStrictOrderedRing K] [FloorRing K] [LinearOrder K] in
/-- Of two channels and their mirror images the range is the same only if they are each
    other's. -/
theorem mirrored_iff {k1 k2 : ℤ} (h1 : 0 ≤ k1 ∧ k1 < a.depth) (h2 : 0 ≤ k2 ∧ k2 < a.depth) :
    a.frames (a.depth - 1 - k1) (a.depth - 1 - k2) = (min k1 k2, max k1 k2) ↔ k1 + k2 = a.depth - 1 := by
  rw [frames_eq a (by omega) (by omega)]
  simp only [Prod.mk.injEq]
  omega

/-! ## The round trip -/

/-- A range given by the coordinates of two channels, or by the frequencies of their
    velocities, comes back as the two channels. -/
structure SpectralAxis.RoundTrips (a : SpectralAxis K) (ref_freq : K) (k1 k2 : ℤ) : Prop where
  frequency : a.has_frequency = true → a.coordinate k1 ≠ 0 → a.coordinate k2 ≠ 0 →
    getFrequencyBounds a (a.coordinate k1) (a.coordinate k2) = (min k1 k2, max k1 k2)
  velocity : a.has_velocity = true → getVelocityBounds a (a.coordinate k1) (a.coordinate k2) = (min k1 k2, max k1 k2)
  freq2vel : a.has_velocity = true → ∀ f1 f2 : K, 0 < f1 → 0 < f2 → dopplerVelocity ref_freq f1 = a.coordinate k1 →
    dopplerVelocity ref_freq f2 = a.coordinate k2 → getFreq2velBounds a f1 f2 ref_freq = (min k1 k2, max k1 k2)

/-- `band`: the band does not run against the sign of the increment. `zero`: no coordinate
    is taken for zero. `doppler`: where there are frequencies, the increment is positive.
    Channels that are each other's mirror images do without. -/
structure SpectralAxis.Unmirrored (a : SpectralAxis K) (ref_freq : K) (k1 k2 : ℤ) : Prop where
  band : a.has_velocity = true ∨ a.has_frequency = true ∧ a.coordinate k1 ≠ 0 ∧ a.coordinate k2 ≠ 0 →
    0 < a.frame_multiplier ∨ k1 + k2 = a.depth - 1
  zero : a.has_frequency = true → a.coordinate k1 ≠ 0 → a.coordinate k2 ≠ 0 →
    fpzero (a.coordinate k1) = true ∨ fpzero (a.coordinate k2) = true → min k1 k2 = 0 ∧ max k1 k2 = a.depth - 1
  doppler : a.has_velocity = true → (∃ f1 f2 : K, (0 < f1 ∧ 0 < f2) ∧ dopplerVelocity ref_freq f1 = a.coordinate k1 ∧
    dopplerVelocity ref_freq f2 = a.coordinate k2) → 0 < a.cdelt3 ∨ k1 + k2 = a.depth - 1

section Channels

variable {k1 k2 : ℤ} (ha : a.Linear) (h1 : 0 ≤ k1 ∧ k1 < a.depth) (h2 : 0 ≤ k2 ∧ k2 < a.depth)

include ha h1 h2

theorem band_iff : a.frames (a.bandChannel (a.coordinate k1)) (a.bandChannel (a.coordinate k2)) = (min k1 k2, max k1 k2) ↔
    0 < a.frame_multiplier ∨ k1 + k2 = a.depth - 1 := by
  rw [bandChannel_coordinate ha, bandChannel_coordinate ha]
  by_cases hf : 0 < a.frame_multiplier
  · simp only [hf, if_true, true_or, iff_true]
    exact frames_eq a h1 h2
  · simp only [hf, if_false, false_or]
    exact mirrored_iff h1 h2

theorem frequency_iff : getFrequencyBounds a (a.coordinate k1) (a.coordinate k2) = (min k1 k2, max k1 k2) ↔
    (0 < a.frame_multiplier ∨ k1 + k2 = a.depth - 1) ∧ (fpzero (a.coordinate k1) = true ∨ fpzero (a.coordinate k2) = true →
      min k1 k2 = 0 ∧ max k1 k2 = a.depth - 1) := by
  unfold getFrequencyBounds
  by_cases hz : fpzero (a.coordinate k1) = true ∨ fpzero (a.coordinate k2) = true
  · have hor : (fpzero (a.coordinate k1) || fpzero (a.coordinate k2)) = true := by simpa using hz
    rw [if_pos hor]
    simp only [hz, true_imp_iff, Prod.mk.injEq]
    omega
  · have hor : ¬ (fpzero (a.coordinate k1) || fpzero (a.coordinate k2)) = true := by simpa using hz
    rw [if_neg hor, band_iff ha h1 h2]
    simp only [hz, false_imp_iff, and_true]

theorem velocity_iff : getVelocityBounds a (a.coordinate k1) (a.coordinate k2) = (min k1 k2, max k1 k2) ↔
    0 < a.frame_multiplier ∨ k1 + k2 = a.depth - 1 := by
  have hheader : ¬ (!a.has_header) = true := by simp [ha.header]
  unfold getVelocityBounds
  rw [if_neg hheader, if_neg (not_le.mpr ha.depth), band_iff ha h1 h2]

theorem freq2vel_iff {ref_freq f1 f2 : K} (href : 0 < ref_freq) (hf1 : dopplerVelocity ref_freq f1 = a.coordinate k1)
    (hf2 : dopplerVelocity ref_freq f2 = a.coordinate k2) :
    getFreq2velBounds a f1 f2 ref_freq = (min k1 k2, max k1 k2) ↔ 0 < a.cdelt3 ∨ k1 + k2 = a.depth - 1 := by
  have hheader : ¬ (!a.has_header) = true := by simp [ha.header]
  have hrest : ¬ (a.restfrq ≤ 0 ∧ ref_freq ≤ 0) := fun h => h.2.not_gt href
  unfold getFreq2velBounds
  rw [if_neg hheader, if_neg (not_le.mpr ha.depth), if_neg hrest]
  dsimp only
  rw [if_pos href, hf1, hf2, freq2velChannel_coordinate ha, freq2velChannel_coordinate ha]
  rcases lt_or_gt_of_ne ha.cdelt3 with hc | hc
  · simp only [hc, if_true, hc.not_gt, false_or]
    exact mirrored_iff h1 h2
  · simp only [hc.not_gt, if_false, hc, true_or, iff_true]
    exact frames_eq a h1 h2

/-- The channels come back if and only if nothing mirrors them. -/
theorem round_trip_iff {ref_freq : K} (href : 0 < ref_freq) : a.RoundTrips ref_freq k1 k2 ↔ a.Unmirrored ref_freq k1 k2 := by
  refine ⟨fun h => ⟨?_, ?_, ?_⟩, fun h => ⟨?_, ?_, ?_⟩⟩
  · intro haxis
    rcases haxis with hv | ⟨hf, hz1, hz2⟩
    · exact (velocity_iff ha h1 h2).mp (h.velocity hv)
    · exact ((frequency_iff ha h1 h2).mp (h.frequency hf hz1 hz2)).1
  · intro hf hz1 hz2
    exact ((frequency_iff ha h1 h2).mp (h.frequency hf hz1 hz2)).2
  · intro hv hex
    obtain ⟨f1, f2, ⟨hp1, hp2⟩, hf1, hf2⟩ := hex
    exact (freq2vel_iff ha h1 h2 href hf1 hf2).mp (h.freq2vel hv f1 f2 hp1 hp2 hf1 hf2)
  · intro hf hz1 hz2
    exact (frequency_iff ha h1 h2).mpr ⟨h.band (Or.inr ⟨hf, hz1, hz2⟩), h.zero hf hz1 hz2⟩
  · intro hv
    exact (velocity_iff ha h1 h2).mpr (h.band (Or.inl hv))
  · intro hv f1 f2 hp1 hp2 hf1 hf2
    exact (freq2vel_iff ha h1 h2 href hf1 hf2).mpr (h.doppler hv ⟨f1, f2, ⟨hp1, hp2⟩, hf1, hf2⟩)

end Channels

end Axis

/-! ## Frequencies -/

noncomputable def dopplerFrequency (restfrq v : ℝ) : ℝ :=
  restfrq * √((1 - v / speedOfLight) / (1 + v / speedOfLight))

/-- Below the speed of light every velocity has a frequency. -/
theorem dopplerVelocity_inverse {restfrq v : ℝ} (hrest : 0 < restfrq) (hv : |v| < speedOfLight) :
    0 < dopplerFrequency restfrq v ∧ dopplerVelocity restfrq (dopplerFrequency restfrq v) = v := by
  have hc : (0 : ℝ) < speedOfLight := by
    unfold speedOfLight
    norm_num
  have hlo : 0 < 1 + v / speedOfLight := by
    have h := (abs_lt.mp hv).1
    rw [← neg_lt_iff_pos_add', lt_div_iff₀ hc]
    linarith
  have hhi : 0 < 1 - v / speedOfLight := by
    have h := (abs_lt.mp hv).2
    rw [sub_pos, div_lt_one hc]
    exact h
  have hratio : 0 < (1 - v / speedOfLight) / (1 + v / speedOfLight) := div_pos hhi hlo
  refine ⟨mul_pos hrest (Real.sqrt_pos.mpr hratio), ?_⟩
  have hsquare : dopplerFrequency restfrq v / restfrq * (dopplerFrequency restfrq v / restfrq) =
      (1 - v / speedOfLight) / (1 + v / speedOfLight) := by
    unfold dopplerFrequency
    rw [mul_div_cancel_left₀ _ hrest.ne', Real.mul_self_sqrt hratio.le]
  have hden : 1 + (1 - v / speedOfLight) / (1 + v / speedOfLight) ≠ 0 := by positivity
  have hnum : 1 - (1 - v / speedOfLight) / (1 + v / speedOfLight) =
      v / speedOfLight * (1 + (1 - v / speedOfLight) / (1 + v / speedOfLight)) := by
    rw [one_sub_div hlo.ne', one_add_div hlo.ne']
    ring
  unfold dopplerVelocity
  dsimp only
  rw [hsquare, hnum, mul_div_cancel_right₀ _ hden, div_mul_cancel₀ _ hc.ne']

/-! ## A receding axis -/

/-- Two channels a kilometre per second apart, the first at rest. -/
def recedingHeader : FitsHeader :=
  { FitsHeader.defaults [] [] with naxis := 3, depth := 2, cdelt3 := -1000, crpix3 := 1, restfrq := 10 ^ 11, has_velocity := true }

def recedingAxis : SpectralAxis ℚ := recedingHeader.spectralAxis ℚ

theorem round_trip_iff_receding :
    (recedingAxis.Linear ∧ (0 : ℚ) < 10 ^ 11) ∧ (recedingAxis.RoundTrips (10 ^ 11) 0 1 ↔ recedingAxis.Unmirrored (10 ^ 11) 0 1) :=
  have ha : recedingAxis.Linear := ⟨rfl, by decide +kernel, by decide +kernel, by decide⟩
  ⟨⟨ha, by norm_num⟩, round_trip_iff ha (by decide) (by decide) (by norm_num)⟩

/-- The frequency at rest is that of the first channel; `get_freq2vel_bounds` returns the
    second. -/
theorem a_receding_axis : ¬ recedingAxis.RoundTrips (10 ^ 11) 0 0 := by
  intro h
  have hrest : dopplerVelocity (10 ^ 11 : ℚ) (10 ^ 11) = recedingAxis.coordinate 0 := by decide +kernel
  have hbounds := h.freq2vel rfl (10 ^ 11) (10 ^ 11) (by norm_num) (by norm_num) hrest hrest
  have hsecond : getFreq2velBounds recedingAxis (10 ^ 11) (10 ^ 11) (10 ^ 11) = (1, 1) := by decide +kernel
  rw [hsecond] at hbounds
  exact absurd hbounds (by decide)

end FitsWebQL
