/-
  FitsWebQL.BrowserAxis — the channels the browser says a range selects (`get_frame_bounds`,
  `get_velocity_bounds`, `get_freq2vel_bounds` of `fitswebqlse.js`), and those the server
  selects.

  Numbers are exact. `Math.round` takes halves up, and `round` away from zero: they differ
  below zero only, where both are clipped. A name that is not defined is an error:
  `get_frequency_bounds` is not, and neither is `roundf`, which `get_velocity_bounds` uses
  for an increment that is not positive.

  The server's `get_freq2vel_bounds` mirrors the channels when the increment is negative,
  the browser's does not.

  Proved:
  - `clipped_jsRound`: the two roundings agree where they are clipped.
  - `same_channels_iff`: when the two select the same channels, for every range on a
    velocity axis.
  - `a_receding_range`: an axis with a negative increment.
-/

import FitsWebQL.SpectrumRange

namespace FitsWebQL

section Browser

variable {K : Type*} [Field K] [LinearOrder K] [FloorRing K]

/-! ## The browser -/

def jsRound (x : K) : ℤ := ⌊x + 1 / (2 : ℕ)⌋

structure FitsData (K : Type*) where
  CRVAL3 : K
  CDELT3 : K
  CRPIX3 : K
  RESTFRQ : K
  depth : ℤ

/-- Its variables; `RESTFRQ` is what it sends as `ref_freq`. -/
structure Browser (K : Type*) where
  RESTFRQ : K
  has_velocity_info : Bool
  has_frequency_info : Bool
  fitsContainer : ℕ → Option (FitsData K)

def FitsData.frames (fitsData : FitsData K) (start stop : ℤ) : ℤ × ℤ :=
  let r := if stop < start then (stop, start) else (start, stop)
  (min (max r.1 0) (fitsData.depth - 1), min (max r.2 0) (fitsData.depth - 1))

abbrev JsResult (α : Type) := Except String α

def Browser.getFreq2velBounds (b : Browser K) (freq_start freq_end : K) (fitsData : FitsData K) : JsResult (ℤ × ℤ) :=
  if fitsData.RESTFRQ ≤ 0 ∧ b.RESTFRQ ≤ 0 then .ok (0, fitsData.depth - 1)
  else
    let v1 := dopplerVelocity b.RESTFRQ freq_start
    let v2 := dopplerVelocity b.RESTFRQ freq_end
    let x1 := fitsData.CRPIX3 + (v1 - fitsData.CRVAL3) / fitsData.CDELT3 - 1
    let x2 := fitsData.CRPIX3 + (v2 - fitsData.CRVAL3) / fitsData.CDELT3 - 1
    .ok (fitsData.frames (jsRound x1) (jsRound x2))

def Browser.getVelocityBounds (vel_start vel_end : K) (fitsData : FitsData K) : JsResult (ℤ × ℤ) :=
  let v1 := fitsData.CRVAL3 + fitsData.CDELT3 * (1 - fitsData.CRPIX3)
  let v2 := fitsData.CRVAL3 + fitsData.CDELT3 * (fitsData.depth - fitsData.CRPIX3)
  let vel_lo := min v1 v2
  let vel_hi := max v1 v2
  if 0 < fitsData.CDELT3 then
    .ok (fitsData.frames (jsRound ((vel_start - vel_lo) / (vel_hi - vel_lo) * (fitsData.depth - 1)))
      (jsRound ((vel_end - vel_lo) / (vel_hi - vel_lo) * (fitsData.depth - 1))))
  else .error "roundf"

/-- `undefined` when no axis is known. -/
def Browser.getFrameBounds (b : Browser K) (lo hi : K) (index : ℕ) : JsResult (Option (ℤ × ℤ)) :=
  match b.fitsContainer index with
  | none => .ok (some (0, 0))
  | some fitsData =>
    if fitsData.depth ≤ 1 then .ok (some (0, 0))
    else if b.has_velocity_info ∧ 0 < b.RESTFRQ then (b.getFreq2velBounds lo hi fitsData).map some
    else if b.has_frequency_info then .error "get_frequency_bounds"
    else if b.has_velocity_info then (Browser.getVelocityBounds lo hi fitsData).map some
    else .ok none

structure Browser.Shows (b : Browser K) (a : SpectralAxis K) (index : ℕ) : Prop where
  data : ∃ fitsData, b.fitsContainer index = some fitsData ∧ fitsData.CRVAL3 = a.crval3 ∧ fitsData.CDELT3 = a.cdelt3 ∧
    fitsData.CRPIX3 = a.crpix3 ∧ fitsData.depth = a.depth
  velocity : b.has_velocity_info = true ∧ a.has_velocity = true
  multiplier : a.frame_multiplier = 1

/-! ## Rounding and clipping -/

def SpectralAxis.clipped (a : SpectralAxis K) (channel : ℤ) : ℤ := min (max channel 0) (a.depth - 1)

def SpectralAxis.place (a : SpectralAxis K) (v : K) : K := a.crpix3 + (v - a.crval3) / a.cdelt3 - 1

/-- The channel of the cube nearest to a place, the upper one of two. -/
def SpectralAxis.Nearest (a : SpectralAxis K) (x : K) (k : ℤ) : Prop :=
  (0 ≤ k ∧ k ≤ a.depth - 1) ∧ (0 < k → (k : K) - x ≤ x - (k - 1)) ∧ (k < a.depth - 1 → x - k < k + 1 - x)

variable {a : SpectralAxis K} {b : Browser K} {index : ℕ} {lo hi : K}

omit [Field K] [LinearOrder K] [FloorRing K] in
theorem frames_clipped (hdepth : 1 ≤ a.depth) (start stop : ℤ) :
    a.frames start stop = (min (a.clipped start) (a.clipped stop), max (a.clipped start) (a.clipped stop)) := by
  unfold SpectralAxis.frames SpectralAxis.clipped
  split
  · simp only [Prod.mk.injEq]
    omega
  · simp only [Prod.mk.injEq]
    omega

omit [Field K] [LinearOrder K] [FloorRing K] in
theorem clipped_mirror (hdepth : 1 ≤ a.depth) (channel : ℤ) : a.clipped (a.depth - 1 - channel) = a.depth - 1 - a.clipped channel := by
  unfold SpectralAxis.clipped
  omega

variable [IsStrictOrderedRing K]

omit [IsStrictOrderedRing K] in
theorem jsRound_eq (x : K) : jsRound x = ⌊x + 1 / 2⌋ := by
  unfold jsRound
  rw [Nat.cast_ofNat]

/-- The roundings differ below zero, if at all. -/
theorem clipped_jsRound (hdepth : 1 ≤ a.depth) (x : K) : a.clipped (jsRound x) = a.clipped (round x) := by
  rw [jsRound_eq]
  unfold round
  split
  · rfl
  · rename_i hneg
    have hx : x < 0 := not_le.mp hneg
    have hfloor : ⌊x + 1 / 2⌋ < 1 := by
      rw [Int.floor_lt, Int.cast_one]
      linarith
    have hmirrored : 0 ≤ ⌊-x + 1 / 2⌋ := by
      rw [Int.floor_nonneg]
      linarith
    unfold SpectralAxis.clipped
    omega

theorem nearest_iff (hdepth : 1 ≤ a.depth) {x : K} {k : ℤ} : a.Nearest x k ↔ k = a.clipped (jsRound x) := by
  have hge : (k : K) - x ≤ x - (k - 1) ↔ k ≤ jsRound x := by
    rw [jsRound_eq, Int.le_floor]
    constructor
    · intro h
      linarith
    · intro h
      linarith
  have hlt : x - (k : K) < k + 1 - x ↔ jsRound x < k + 1 := by
    rw [jsRound_eq, Int.floor_lt, Int.cast_add, Int.cast_one]
    constructor
    · intro h
      linarith
    · intro h
      linarith
  unfold SpectralAxis.Nearest SpectralAxis.clipped
  rw [hge, hlt]
  omega

/-! ## When the two agree -/

/-- Rounded by either and clipped, the channels are the same. -/
theorem frames_jsRound {fitsData : FitsData K} (hdepth : fitsData.depth = a.depth) (h1 : 1 ≤ a.depth) (x y : K) :
    fitsData.frames (jsRound x) (jsRound y) = a.frames (round x) (round y) := by
  have hsame : fitsData.frames (jsRound x) (jsRound y) = a.frames (jsRound x) (jsRound y) := by
    unfold FitsData.frames SpectralAxis.frames
    rw [hdepth]
  rw [hsame, frames_clipped h1, frames_clipped h1, clipped_jsRound h1, clipped_jsRound h1]

omit [IsStrictOrderedRing K] in
theorem exact_lt (x : K) : (exactDoubles K).lt ((exactDoubles K).ofInt 0) x = decide (0 < x) := by
  unfold exactDoubles
  simp only [Int.cast_zero]

/-- A velocity range. -/
theorem velocity_same_iff (h : b.Shows a index) (ha : a.Linear) (href : b.RESTFRQ ≤ 0) :
    b.getFrameBounds lo hi index = .ok ((exactDoubles K).getSpectrumRange a lo hi b.RESTFRQ) ↔
      b.has_frequency_info = false ∧ 0 < a.cdelt3 := by
  obtain ⟨fitsData, hdata, hcrval, hcdelt, hcrpix, hdepth⟩ := h.data
  have hbounds : FitsWebQL.getVelocityBounds a lo hi = a.frames (a.bandChannel lo) (a.bandChannel hi) := by
    unfold FitsWebQL.getVelocityBounds
    rw [if_neg (by rw [ha.header]; decide), if_neg (not_le.mpr ha.depth)]
  have hserver : (exactDoubles K).getSpectrumRange a lo hi b.RESTFRQ = some (a.frames (a.bandChannel lo) (a.bandChannel hi)) := by
    unfold Doubles.getSpectrumRange
    rw [if_neg (not_le.mpr ha.depth), exact_lt, decide_eq_false (not_lt.mpr href), h.velocity.2, exact_getVelocityBounds, hbounds]
    simp
  rw [hserver]
  unfold Browser.getFrameBounds
  rw [hdata]
  dsimp only
  rw [if_neg (by rw [hdepth]; exact not_le.mpr ha.depth), if_neg fun hpos => hpos.2.not_ge href]
  by_cases hfrequency : b.has_frequency_info = true
  · rw [if_pos hfrequency]
    simp [hfrequency]
  · rw [if_neg hfrequency, if_pos h.velocity.1]
    unfold Browser.getVelocityBounds
    rw [hcrval, hcdelt, hcrpix]
    by_cases hpos : 0 < a.cdelt3
    · have hfirst : a.first = a.crval3 + a.cdelt3 * (1 - a.crpix3) := by
        unfold SpectralAxis.first
        rw [h.multiplier, mul_one, mul_one]
      have hlast : a.last = a.crval3 + a.cdelt3 * (a.depth - a.crpix3) := by
        unfold SpectralAxis.last
        rw [h.multiplier, mul_one, mul_one]
      unfold SpectralAxis.bandChannel
      simp only [hpos, if_true, frames_jsRound hdepth ha.depth.le, hfirst, hlast, hfrequency, hdepth, and_self, iff_true]
      rfl
    · simp only [hpos, if_false, and_false, iff_false]
      intro herror
      cases herror

/-- A frequency range: the browser's channels are the axis inverted, the server's are
    mirrored when the increment is negative. -/
theorem freq2vel_same_iff (h : b.Shows a index) (ha : a.Linear) (href : 0 < b.RESTFRQ) :
    b.getFrameBounds lo hi index = .ok ((exactDoubles K).getSpectrumRange a lo hi b.RESTFRQ) ↔
      0 < a.cdelt3 ∨ ∃ k1 k2, a.Nearest (a.place (dopplerVelocity b.RESTFRQ lo)) k1 ∧
        a.Nearest (a.place (dopplerVelocity b.RESTFRQ hi)) k2 ∧ k1 + k2 = a.depth - 1 := by
  obtain ⟨fitsData, hdata, hcrval, hcdelt, hcrpix, hdepth⟩ := h.data
  have h1 : 1 ≤ a.depth := ha.depth.le
  have hchannel : ∀ v, a.freq2velChannel v = if a.cdelt3 < 0 then a.depth - 1 - round (a.place v) else round (a.place v) := by
    intro v
    unfold SpectralAxis.freq2velChannel SpectralAxis.place
    rw [h.multiplier, mul_one, mul_one]
  have hserver : (exactDoubles K).getSpectrumRange a lo hi b.RESTFRQ =
      some (a.frames (a.freq2velChannel (dopplerVelocity b.RESTFRQ lo)) (a.freq2velChannel (dopplerVelocity b.RESTFRQ hi))) := by
    have hbounds : FitsWebQL.getFreq2velBounds a lo hi b.RESTFRQ =
        a.frames (a.freq2velChannel (dopplerVelocity b.RESTFRQ lo)) (a.freq2velChannel (dopplerVelocity b.RESTFRQ hi)) := by
      unfold FitsWebQL.getFreq2velBounds
      rw [if_neg (by rw [ha.header]; decide), if_neg (not_le.mpr ha.depth), if_neg fun hrest => hrest.2.not_gt href]
      dsimp only
      rw [if_pos href]
    unfold Doubles.getSpectrumRange
    rw [if_neg (not_le.mpr ha.depth), exact_lt, decide_eq_true href, h.velocity.2, exact_getFreq2velBounds, hbounds]
    simp
  have hbrowser : b.getFrameBounds lo hi index =
      .ok (some (a.frames (round (a.place (dopplerVelocity b.RESTFRQ lo))) (round (a.place (dopplerVelocity b.RESTFRQ hi))))) := by
    unfold Browser.getFrameBounds
    rw [hdata]
    dsimp only
    rw [if_neg (by rw [hdepth]; exact not_le.mpr ha.depth), if_pos ⟨h.velocity.1, href⟩]
    unfold Browser.getFreq2velBounds
    rw [if_neg fun hrest => hrest.2.not_gt href, hcrval, hcdelt, hcrpix]
    dsimp only
    rw [frames_jsRound hdepth h1]
    rfl
  rw [hserver, hbrowser, hchannel, hchannel]
  rcases lt_or_gt_of_ne ha.cdelt3 with hneg | hpos
  · have hmirror : (∃ k1 k2, a.Nearest (a.place (dopplerVelocity b.RESTFRQ lo)) k1 ∧
        a.Nearest (a.place (dopplerVelocity b.RESTFRQ hi)) k2 ∧ k1 + k2 = a.depth - 1) ↔
        a.clipped (round (a.place (dopplerVelocity b.RESTFRQ lo))) + a.clipped (round (a.place (dopplerVelocity b.RESTFRQ hi))) =
          a.depth - 1 := by
      simp only [nearest_iff h1, clipped_jsRound h1]
      constructor
      · rintro ⟨k1, k2, rfl, rfl, hsum⟩
        exact hsum
      · intro hsum
        exact ⟨_, _, rfl, rfl, hsum⟩
    simp only [hneg, if_true, hneg.not_gt, false_or, hmirror]
    rw [frames_clipped h1, frames_clipped h1, clipped_mirror h1, clipped_mirror h1]
    simp only [Except.ok.injEq, Option.some.injEq, Prod.mk.injEq]
    omega
  · simp only [hpos.not_gt, if_false, hpos, true_or]

/-- For every range on a velocity axis: the browser and the server select the same channels if
    and only if the increment is positive, or the range is one of frequencies and its ends'
    channels are each other's mirror images; and, without a reference frequency, the browser
    does not take the axis for one of frequencies. -/
theorem same_channels_iff (h : b.Shows a index) (ha : a.Linear) :
    b.getFrameBounds lo hi index = .ok ((exactDoubles K).getSpectrumRange a lo hi b.RESTFRQ) ↔
      (b.RESTFRQ ≤ 0 ∧ b.has_frequency_info = false ∧ 0 < a.cdelt3) ∨
        0 < b.RESTFRQ ∧ (0 < a.cdelt3 ∨ ∃ k1 k2, a.Nearest (a.place (dopplerVelocity b.RESTFRQ lo)) k1 ∧
          a.Nearest (a.place (dopplerVelocity b.RESTFRQ hi)) k2 ∧ k1 + k2 = a.depth - 1) := by
  rcases le_or_gt b.RESTFRQ 0 with href | href
  · rw [velocity_same_iff h ha href]
    simp only [href, true_and, href.not_gt, false_and, or_false]
  · rw [freq2vel_same_iff h ha href]
    simp only [href, true_and, href.not_ge, false_and, false_or]

end Browser

/-! ## A receding axis -/

def recedingBrowser (RESTFRQ : ℚ) : Browser ℚ :=
  ⟨RESTFRQ, true, decide (0 < RESTFRQ), fun _ => some ⟨0, -1000, 1, 10 ^ 11, 2⟩⟩

theorem recedingBrowser_shows (RESTFRQ : ℚ) : (recedingBrowser RESTFRQ).Shows recedingAxis 0 :=
  ⟨⟨_, rfl, by decide +kernel, by decide +kernel, by decide +kernel, rfl⟩, ⟨rfl, rfl⟩, by decide +kernel⟩

theorem recedingAxis_linear : recedingAxis.Linear := ⟨rfl, by decide +kernel, by decide +kernel, by decide⟩

theorem same_channels_iff_receding :
    ((recedingBrowser 0).Shows recedingAxis 0 ∧ recedingAxis.Linear) ∧
      ((recedingBrowser 0).getFrameBounds 0 0 0 = .ok ((exactDoubles ℚ).getSpectrumRange recedingAxis 0 0 (recedingBrowser 0).RESTFRQ) ↔
        ((recedingBrowser 0).RESTFRQ ≤ 0 ∧ (recedingBrowser 0).has_frequency_info = false ∧ 0 < recedingAxis.cdelt3) ∨
          0 < (recedingBrowser 0).RESTFRQ ∧ (0 < recedingAxis.cdelt3 ∨
            ∃ k1 k2, recedingAxis.Nearest (recedingAxis.place (dopplerVelocity (recedingBrowser 0).RESTFRQ 0)) k1 ∧
              recedingAxis.Nearest (recedingAxis.place (dopplerVelocity (recedingBrowser 0).RESTFRQ 0)) k2 ∧
                k1 + k2 = recedingAxis.depth - 1)) :=
  ⟨⟨recedingBrowser_shows 0, recedingAxis_linear⟩, same_channels_iff (recedingBrowser_shows 0) recedingAxis_linear⟩

/-- A velocity range ends in an error; the frequency at rest is in the first channel for the
    browser and in the second for the server. -/
theorem a_receding_range :
    ¬ (∀ (b : Browser ℚ) (a : SpectralAxis ℚ) (index : ℕ) (lo hi : ℚ), b.Shows a index → a.Linear → b.RESTFRQ ≤ 0 →
      b.getFrameBounds lo hi index = .ok ((exactDoubles ℚ).getSpectrumRange a lo hi b.RESTFRQ)) ∧
    ¬ ∀ (b : Browser ℚ) (a : SpectralAxis ℚ) (index : ℕ) (lo hi : ℚ), b.Shows a index → a.Linear → 0 < b.RESTFRQ →
      b.getFrameBounds lo hi index = .ok ((exactDoubles ℚ).getSpectrumRange a lo hi b.RESTFRQ) := by
  refine ⟨fun h => ?_, fun h => ?_⟩
  · have hsame := h (recedingBrowser 0) recedingAxis 0 0 0 (recedingBrowser_shows 0) recedingAxis_linear (by decide +kernel)
    have herror : (recedingBrowser 0).getFrameBounds 0 0 0 = .error "roundf" := by decide +kernel
    rw [herror] at hsame
    cases hsame
  · have hsame := h (recedingBrowser (10 ^ 11)) recedingAxis 0 (10 ^ 11) (10 ^ 11) (recedingBrowser_shows _) recedingAxis_linear
      (by decide +kernel)
    have hbrowser : (recedingBrowser (10 ^ 11)).getFrameBounds (10 ^ 11) (10 ^ 11) 0 = .ok (some (0, 0)) := by decide +kernel
    have hserver : (exactDoubles ℚ).getSpectrumRange recedingAxis (10 ^ 11) (10 ^ 11) (10 ^ 11) = some (1, 1) := by decide +kernel
    rw [hbrowser] at hsame
    change _ = Except.ok ((exactDoubles ℚ).getSpectrumRange recedingAxis (10 ^ 11) (10 ^ 11) (10 ^ 11)) at hsame
    rw [hserver] at hsame
    cases hsame

end FitsWebQL
