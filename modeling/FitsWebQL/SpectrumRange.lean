/-
  FitsWebQL.SpectrumRange — the channels a client's range selects (`get_spectrum_range`),
  in the machine's arithmetic: a client may send infinities and NaN, and `(int)round(x)` of
  a number that is no `int` is some `int`.

  `double` is a parameter, with operations of which nothing is known but that conversions
  end in an `int`. The two bounds functions end by putting the channels in order and
  clipping them to the cube, whatever was computed. `get_spectrum_range` chooses between
  them by the axis and the reference frequency; a frequency axis without a reference
  frequency, and an axis that is neither, it does not choose for, and the caller's
  variables, which have no value before, get none.

  Proved:
  - `exact_getFrequencyBounds`, `exact_getVelocityBounds`, `exact_getFreq2velBounds`: in
    exact arithmetic these are the functions of `SpectralAxis`.
  - `clip_valid`: clipped channels are in order and in the cube.
  - `valid_range_iff`: when the range is assigned and valid.
  - `nothing_is_assigned`: a frequency axis and no reference frequency.
-/

import FitsWebQL.SpectralAxis

namespace FitsWebQL

/-! ## Arithmetic -/

/-- The numbers an `int` can be, and what is left of others in one. -/
structure IntType where
  isInt : ℤ → Prop
  narrow : ℤ → ℤ
  narrow_isInt : ∀ z, isInt (narrow z)
  narrow_eq : ∀ z, isInt z → narrow z = z
  between : ∀ z w, 0 ≤ z → z ≤ w → isInt w → isInt z
  zero : isInt 0

def IntType.int32 : IntType where
  isInt z := -2 ^ 31 ≤ z ∧ z < 2 ^ 31
  narrow z := z.bmod (2 ^ 32)
  narrow_isInt z := ⟨Int.le_bmod (by decide), Int.bmod_lt (by decide)⟩
  narrow_eq z hz := Int.bmod_eq_of_le (by omega) (by omega)
  between z w h0 hle hw := ⟨by omega, by omega⟩
  zero := by decide

def IntType.exact : IntType where
  isInt _ := True
  narrow z := z
  narrow_isInt _ := trivial
  narrow_eq _ _ := rfl
  between _ _ _ _ _ := trivial
  zero := trivial

/-- `double` and its operations; comparisons with NaN are false. -/
structure Doubles (D : Type*) extends IntType where
  ofInt : ℤ → D
  epsilon : D
  add : D → D → D
  sub : D → D → D
  mul : D → D → D
  div : D → D → D
  fabs : D → D
  lt : D → D → Bool
  le : D → D → Bool
  lt_not_le : ∀ x y, lt x y = true → le y x = false
  /-- `(int)round(x)`. -/
  toInt : D → ℤ
  toInt_isInt : ∀ x, isInt (toInt x)

namespace Doubles

variable {D : Type*} (m : Doubles D)

def min (x y : D) : D := if m.lt x y then x else y
def max (x y : D) : D := if m.lt y x then x else y

def fpzero (x : D) : Bool := m.le (m.fabs x) m.epsilon

/-! ## Ranges -/

variable (a : SpectralAxis D)

/-- `MIN(MAX(channel, 0), depth - 1)`. -/
def clip (channel : ℤ) : ℤ := m.narrow (Min.min (Max.max channel 0) (a.depth - 1))

def frames (start stop : ℤ) : ℤ × ℤ :=
  let r := if stop < start then (stop, start) else (start, stop)
  (m.clip a r.1, m.clip a r.2)

def first : D :=
  m.add (m.mul a.crval3 a.frame_multiplier) (m.mul (m.mul a.cdelt3 a.frame_multiplier) (m.sub (m.ofInt 1) a.crpix3))
def last : D :=
  m.add (m.mul a.crval3 a.frame_multiplier) (m.mul (m.mul a.cdelt3 a.frame_multiplier) (m.sub (m.ofInt a.depth) a.crpix3))

def bandChannel (x : D) : ℤ :=
  let band_lo := m.min (m.first a) (m.last a)
  let band_hi := m.max (m.first a) (m.last a)
  if m.lt (m.ofInt 0) a.cdelt3 then
    m.toInt (m.mul (m.div (m.sub x band_lo) (m.sub band_hi band_lo)) (m.ofInt (a.depth - 1)))
  else m.toInt (m.mul (m.div (m.sub band_hi x) (m.sub band_hi band_lo)) (m.ofInt (a.depth - 1)))

def getFrequencyBounds (freq_start freq_end : D) : ℤ × ℤ :=
  if m.fpzero freq_start || m.fpzero freq_end then (0, m.narrow (a.depth - 1))
  else m.frames a (m.bandChannel a freq_start) (m.bandChannel a freq_end)

def getVelocityBounds (vel_start vel_end : D) : ℤ × ℤ :=
  if !a.has_header then (0, 0)
  else if a.depth ≤ 1 then (0, 0)
  else m.frames a (m.bandChannel a vel_start) (m.bandChannel a vel_end)

def dopplerVelocity (restfrq freq : D) : D :=
  let fRatio := m.div freq restfrq
  m.mul (m.div (m.sub (m.ofInt 1) (m.mul fRatio fRatio)) (m.add (m.ofInt 1) (m.mul fRatio fRatio))) (m.ofInt 299792458)

def freq2velChannel (v : D) : ℤ :=
  let x := m.sub (m.add a.crpix3 (m.div (m.sub v (m.mul a.crval3 a.frame_multiplier)) (m.mul a.cdelt3 a.frame_multiplier)))
    (m.ofInt 1)
  if m.lt a.cdelt3 (m.ofInt 0) then m.narrow (a.depth - 1 - m.toInt x) else m.toInt x

def getFreq2velBounds (frame_start frame_end ref_freq : D) : ℤ × ℤ :=
  if !a.has_header then (0, 0)
  else if a.depth ≤ 1 then (0, 0)
  else if m.le a.restfrq (m.ofInt 0) && m.le ref_freq (m.ofInt 0) then (0, m.narrow (a.depth - 1))
  else
    let restfrq := if m.lt (m.ofInt 0) ref_freq then ref_freq else a.restfrq
    m.frames a (m.freq2velChannel a (m.dopplerVelocity restfrq frame_start))
      (m.freq2velChannel a (m.dopplerVelocity restfrq frame_end))

/-- `get_spectrum_range`: what is assigned to `start` and `end`. -/
def getSpectrumRange (frame_start frame_end ref_freq : D) : Option (ℤ × ℤ) :=
  if a.depth ≤ 1 then some (0, 0)
  else if a.has_velocity && m.lt (m.ofInt 0) ref_freq then some (m.getFreq2velBounds a frame_start frame_end ref_freq)
  else if a.has_frequency && m.lt (m.ofInt 0) ref_freq then some (m.getFrequencyBounds a frame_start frame_end)
  else if a.has_velocity then some (m.getVelocityBounds a frame_start frame_end)
  else none

/-- `get_spectrum_range(frame, frame, ref_freq, frame_idx, frame_idx)`: one variable for
    both, assigned `end` last. -/
def frameIdx (frame ref_freq : D) : Option ℤ := (m.getSpectrumRange a frame frame ref_freq).map Prod.snd

end Doubles

/-! ## Exact arithmetic -/

section Exact

variable (K : Type*) [Field K] [LinearOrder K] [FloorRing K]

def exactDoubles : Doubles K where
  toIntType := IntType.exact
  ofInt z := z
  epsilon := EPSILON K
  add x y := x + y
  sub x y := x - y
  mul x y := x * y
  div x y := x / y
  fabs x := |x|
  lt x y := decide (x < y)
  le x y := decide (x ≤ y)
  lt_not_le _ _ h := decide_eq_false (not_le.mpr (of_decide_eq_true h))
  toInt := round
  toInt_isInt _ := trivial

variable {K}

theorem exact_min (x y : K) : (exactDoubles K).min x y = min x y := by
  unfold Doubles.min exactDoubles
  simp only [decide_eq_true_eq]
  exact (min_def_lt x y).symm

theorem exact_max (x y : K) : (exactDoubles K).max x y = max x y := by
  unfold Doubles.max exactDoubles
  simp only [decide_eq_true_eq]
  rw [max_comm, max_def_lt]

theorem exact_frames (a : SpectralAxis K) (start stop : ℤ) : (exactDoubles K).frames a start stop = a.frames start stop := rfl

theorem exact_bandChannel (a : SpectralAxis K) (x : K) : (exactDoubles K).bandChannel a x = a.bandChannel x := by
  have hfirst : (exactDoubles K).first a = a.first := by
    unfold Doubles.first SpectralAxis.first exactDoubles
    simp only [Int.cast_one]
  have hlast : (exactDoubles K).last a = a.last := rfl
  unfold Doubles.bandChannel SpectralAxis.bandChannel
  simp only [exact_min, exact_max, hfirst, hlast]
  unfold exactDoubles
  simp only [decide_eq_true_eq, Int.cast_zero, Int.cast_sub, Int.cast_one]

theorem exact_freq2velChannel (a : SpectralAxis K) (v : K) : (exactDoubles K).freq2velChannel a v = a.freq2velChannel v := by
  unfold Doubles.freq2velChannel SpectralAxis.freq2velChannel exactDoubles IntType.exact
  simp only [decide_eq_true_eq, Int.cast_zero, Int.cast_one]

theorem exact_dopplerVelocity (restfrq freq : K) :
    (exactDoubles K).dopplerVelocity restfrq freq = FitsWebQL.dopplerVelocity restfrq freq := by
  unfold Doubles.dopplerVelocity FitsWebQL.dopplerVelocity exactDoubles speedOfLight
  simp only [Int.cast_one, Int.cast_ofNat]

theorem exact_getFrequencyBounds (a : SpectralAxis K) (freq_start freq_end : K) :
    (exactDoubles K).getFrequencyBounds a freq_start freq_end = FitsWebQL.getFrequencyBounds a freq_start freq_end := by
  unfold Doubles.getFrequencyBounds FitsWebQL.getFrequencyBounds
  rw [exact_frames, exact_bandChannel, exact_bandChannel]
  rfl

theorem exact_getVelocityBounds (a : SpectralAxis K) (vel_start vel_end : K) :
    (exactDoubles K).getVelocityBounds a vel_start vel_end = FitsWebQL.getVelocityBounds a vel_start vel_end := by
  unfold Doubles.getVelocityBounds FitsWebQL.getVelocityBounds
  rw [exact_frames, exact_bandChannel, exact_bandChannel]

theorem exact_getFreq2velBounds (a : SpectralAxis K) (frame_start frame_end ref_freq : K) :
    (exactDoubles K).getFreq2velBounds a frame_start frame_end ref_freq =
      FitsWebQL.getFreq2velBounds a frame_start frame_end ref_freq := by
  have hzero : (exactDoubles K).ofInt 0 = 0 := Int.cast_zero
  unfold Doubles.getFreq2velBounds FitsWebQL.getFreq2velBounds
  simp only [exact_frames, exact_freq2velChannel, exact_dopplerVelocity, hzero]
  unfold exactDoubles
  simp only [decide_eq_true_eq, Bool.and_eq_true]
  rfl

end Exact

/-! ## Valid ranges -/

def ValidRange (depth : ℤ) (range : Option (ℤ × ℤ)) : Prop :=
  ∃ start stop, range = some (start, stop) ∧ 0 ≤ start ∧ start ≤ stop ∧ stop ≤ depth - 1

section Valid

variable {D : Type*} {m : Doubles D} {a : SpectralAxis D}

/-- Clipped, an `int` is what it is without the conversion. -/
theorem clip_eq (hdepth : 1 ≤ a.depth) {channel : ℤ} (h : m.isInt channel) :
    m.clip a channel = min (max channel 0) (a.depth - 1) := by
  refine m.narrow_eq _ ?_
  rcases le_total channel 0 with hneg | hpos
  · rw [max_eq_right hneg, min_eq_left (by omega)]
    exact m.zero
  · rw [max_eq_left hpos]
    exact m.between _ channel (by omega) (min_le_left _ _) h

theorem clip_valid (hdepth : 1 ≤ a.depth) {start stop : ℤ} (hstart : m.isInt start) (hstop : m.isInt stop) :
    ValidRange a.depth (some (m.frames a start stop)) := by
  refine ⟨_, _, rfl, ?_⟩
  split
  · rw [clip_eq hdepth hstart, clip_eq hdepth hstop]
    omega
  · rw [clip_eq hdepth hstart, clip_eq hdepth hstop]
    omega

theorem bandChannel_isInt (x : D) : m.isInt (m.bandChannel a x) := by
  unfold Doubles.bandChannel
  dsimp only
  split
  · exact m.toInt_isInt _
  · exact m.toInt_isInt _

theorem freq2velChannel_isInt (v : D) : m.isInt (m.freq2velChannel a v) := by
  unfold Doubles.freq2velChannel
  dsimp only
  split
  · exact m.narrow_isInt _
  · exact m.toInt_isInt _

theorem zeros_valid (hdepth : 1 ≤ a.depth) : ValidRange a.depth (some (0, 0)) := ⟨0, 0, rfl, le_refl _, le_refl _, by omega⟩

theorem getVelocityBounds_valid (hdepth : 1 ≤ a.depth) (vel_start vel_end : D) :
    ValidRange a.depth (some (m.getVelocityBounds a vel_start vel_end)) := by
  unfold Doubles.getVelocityBounds
  split
  · exact zeros_valid hdepth
  · split
    · exact zeros_valid hdepth
    · exact clip_valid hdepth (bandChannel_isInt _) (bandChannel_isInt _)

theorem getFreq2velBounds_valid (hdepth : 1 ≤ a.depth) (frame_start frame_end : D) {ref_freq : D}
    (href : m.lt (m.ofInt 0) ref_freq = true) : ValidRange a.depth (some (m.getFreq2velBounds a frame_start frame_end ref_freq)) := by
  unfold Doubles.getFreq2velBounds
  split
  · exact zeros_valid hdepth
  · split
    · exact zeros_valid hdepth
    · rw [if_neg (by rw [m.lt_not_le _ _ href, Bool.and_false]; exact Bool.false_ne_true)]
      exact clip_valid hdepth (freq2velChannel_isInt _) (freq2velChannel_isInt _)

variable (m a) in
/-- The last frame's number is an `int`, or becomes one of another frame. -/
def LastFits : Prop := 0 ≤ m.narrow (a.depth - 1) ∧ m.narrow (a.depth - 1) ≤ a.depth - 1

theorem lastFits_of_isInt (hdepth : 1 ≤ a.depth) (h : m.isInt (a.depth - 1)) : LastFits m a := by
  unfold LastFits
  rw [m.narrow_eq _ h]
  omega

theorem lastFits_int32 (hint : m.toIntType = IntType.int32) (hdepth : 1 ≤ a.depth) (h : a.depth ≤ 2 ^ 31) : LastFits m a := by
  refine lastFits_of_isInt hdepth ?_
  rw [hint]
  exact ⟨by omega, by omega⟩

/-- An end that is taken for zero selects the whole cube. -/
theorem getFrequencyBounds_valid_iff (hdepth : 1 ≤ a.depth) (freq_start freq_end : D) :
    ValidRange a.depth (some (m.getFrequencyBounds a freq_start freq_end)) ↔
      (m.fpzero freq_start = true ∨ m.fpzero freq_end = true → LastFits m a) := by
  unfold Doubles.getFrequencyBounds
  by_cases hzero : (m.fpzero freq_start || m.fpzero freq_end) = true
  · rw [if_pos hzero]
    rw [Bool.or_eq_true] at hzero
    simp only [hzero, true_imp_iff]
    constructor
    · rintro ⟨start, stop, hrange, h0, hle, hlast⟩
      cases hrange
      exact ⟨hle, hlast⟩
    · intro hfits
      exact ⟨0, _, rfl, le_refl _, hfits.1, hfits.2⟩
  · rw [if_neg hzero]
    rw [Bool.or_eq_true] at hzero
    simp only [hzero, false_imp_iff, iff_true]
    exact clip_valid hdepth (bandChannel_isInt _) (bandChannel_isInt _)

/-- Whatever is computed of whatever a client sends: the range is assigned and valid if and
    only if there is an image only, or a velocity axis, or a frequency axis with a reference
    frequency and, where the whole cube is selected, a last frame that is an `int`. -/
theorem valid_range_iff (m : Doubles D) (a : SpectralAxis D) (hdepth : 1 ≤ a.depth) (frame_start frame_end ref_freq : D) :
    ValidRange a.depth (m.getSpectrumRange a frame_start frame_end ref_freq) ↔
      a.depth ≤ 1 ∨ a.has_velocity = true ∨ a.has_frequency = true ∧ m.lt (m.ofInt 0) ref_freq = true ∧
        (m.fpzero frame_start = true ∨ m.fpzero frame_end = true → LastFits m a) := by
  unfold Doubles.getSpectrumRange
  by_cases himage : a.depth ≤ 1
  · rw [if_pos himage]
    simp only [himage, true_or, iff_true]
    exact zeros_valid hdepth
  · rw [if_neg himage]
    simp only [himage, false_or]
    cases hvelocity : a.has_velocity with
    | true =>
      simp only [Bool.true_and, if_true, true_or, iff_true]
      by_cases href : m.lt (m.ofInt 0) ref_freq = true
      · rw [if_pos href]
        exact getFreq2velBounds_valid hdepth frame_start frame_end href
      · simp only [href, if_false, Bool.and_false, Bool.false_eq_true]
        exact getVelocityBounds_valid hdepth frame_start frame_end
    | false =>
      simp only [Bool.false_and, Bool.false_eq_true, if_false, false_or]
      by_cases hfrequency : (a.has_frequency && m.lt (m.ofInt 0) ref_freq) = true
      · rw [if_pos hfrequency, getFrequencyBounds_valid_iff hdepth]
        rw [Bool.and_eq_true] at hfrequency
        simp only [hfrequency, true_and]
      · rw [if_neg hfrequency]
        rw [Bool.and_eq_true] at hfrequency
        constructor
        · rintro ⟨start, stop, hnone, -⟩
          cases hnone
        · rintro ⟨hf, href, -⟩
          exact absurd ⟨hf, href⟩ hfrequency

/-- With one variable for both ends, too. -/
theorem frameIdx_valid {frame ref_freq : D} (h : ValidRange a.depth (m.getSpectrumRange a frame frame ref_freq)) :
    ∃ i, m.frameIdx a frame ref_freq = some i ∧ 0 ≤ i ∧ i ≤ a.depth - 1 := by
  obtain ⟨start, stop, hrange, h0, hle, hlast⟩ := h
  refine ⟨stop, ?_, h0.trans hle, hlast⟩
  unfold Doubles.frameIdx
  rw [hrange]
  rfl

end Valid

/-! ## A frequency axis -/

theorem valid_range_iff_receding : (1 ≤ recedingAxis.depth) ∧
    (ValidRange recedingAxis.depth ((exactDoubles ℚ).getSpectrumRange recedingAxis 0 0 0) ↔
      recedingAxis.depth ≤ 1 ∨ recedingAxis.has_velocity = true ∨ recedingAxis.has_frequency = true ∧
        (exactDoubles ℚ).lt ((exactDoubles ℚ).ofInt 0) 0 = true ∧
          ((exactDoubles ℚ).fpzero 0 = true ∨ (exactDoubles ℚ).fpzero 0 = true → LastFits (exactDoubles ℚ) recedingAxis)) :=
  ⟨by decide, valid_range_iff _ recedingAxis (by decide) 0 0 0⟩

def frequencyAxis : SpectralAxis ℚ :=
  { FitsHeader.defaults [] [] with naxis := 3, depth := 2, crval3 := 10 ^ 11, cdelt3 := 10 ^ 9, crpix3 := 1, has_frequency := true :
      FitsHeader }.spectralAxis ℚ

/-- Without a reference frequency the variables keep what they were. -/
theorem nothing_is_assigned :
    (exactDoubles ℚ).getSpectrumRange frequencyAxis (10 ^ 11) (10 ^ 11) 0 = none ∧
      ¬ ∀ (m : Doubles ℚ) (a : SpectralAxis ℚ), 1 ≤ a.depth → ∀ frame_start frame_end ref_freq,
        ValidRange a.depth (m.getSpectrumRange a frame_start frame_end ref_freq) := by
  have hnone : (exactDoubles ℚ).getSpectrumRange frequencyAxis (10 ^ 11) (10 ^ 11) 0 = none := by decide +kernel
  refine ⟨hnone, fun h => ?_⟩
  obtain ⟨start, stop, hrange, -⟩ := h (exactDoubles ℚ) frequencyAxis (by decide) (10 ^ 11) (10 ^ 11) 0
  rw [hnone] at hrange
  cases hrange

end FitsWebQL
