/-
  FitsWebQL.Lib.Nearest — rounding to nearest, compared with the other numbers of the format.

  Proved:
    round_closest   no number of the format is nearer to `q` than what `q` is rounded to
    round_near      less than a quarter of a unit away from a number of the format,
                    everything is rounded to that number
    round_isSome    a magnitude well below the largest does not overflow
-/

import FitsWebQL.Lib.Binary

namespace FitsWebQL.Lib.Binary

/-! ## Natural numbers -/

theorem nearestEven_near {q : ℚ} (h : 0 ≤ q) : |(nearestEven q : ℚ) - q| ≤ 1 / 2 := by
  have hfloor := Nat.floor_le h
  have hlt := Nat.lt_floor_add_one q
  unfold nearestEven
  dsimp only
  rw [abs_le]
  split_ifs <;> push_cast <;> constructor <;> linarith

theorem le_nearestEven {n : ℕ} {q : ℚ} (h : (n : ℚ) ≤ q) : n ≤ nearestEven q := by
  have hfloor : n ≤ ⌊q⌋₊ := Nat.le_floor h
  unfold nearestEven
  dsimp only
  split_ifs <;> omega

/-- Two natural numbers less than one apart are the same. -/
theorem eq_of_near {m n : ℕ} (h : |(m : ℚ) - n| < 1) : m = n := by
  have hint : |((m : ℤ) - n)| < 1 := by exact_mod_cast h
  have := Int.abs_lt_one_iff.mp hint
  omega

theorem nearestEven_eq {q : ℚ} {n : ℕ} (hq : 0 ≤ q) (h : |q - n| < 1 / 2) : nearestEven q = n := by
  apply eq_of_near
  have hnear := nearestEven_near hq
  calc |(nearestEven q : ℚ) - n| ≤ |(nearestEven q : ℚ) - q| + |q - n| := abs_sub_le _ _ _
    _ < 1 := by linarith

theorem nearestEven_closest {q : ℚ} (hq : 0 ≤ q) (n : ℕ) : |(nearestEven q : ℚ) - q| ≤ |(n : ℚ) - q| := by
  by_contra hlt
  rw [not_le] at hlt
  have hnear := nearestEven_near hq
  have hsame : nearestEven q = n := nearestEven_eq hq (by rw [abs_sub_comm]; linarith)
  rw [hsame] at hlt
  exact lt_irrefl _ hlt

/-! ## Numbers of a format -/

variable {f : Format} {q x : ℚ}

/-- A number of the format in units of its last bit. -/
theorem units_of_round (h : f.round x = some x) : ∃ d : ℕ, x = d * 2 ^ f.lastBit x := by
  unfold Format.round at h
  dsimp only at h
  split at h
  · exact ⟨_, (Option.some.inj h).symm⟩
  · cases h

/-- The same in units of a bit below. -/
theorem units_below (h : f.round x = some x) {e : ℤ} (he : e ≤ f.lastBit x) : ∃ d : ℕ, x = d * 2 ^ e := by
  obtain ⟨d, hd⟩ := units_of_round h
  obtain ⟨j, hj⟩ := Int.eq_ofNat_of_zero_le (Int.sub_nonneg_of_le he)
  refine ⟨d * 2 ^ j, ?_⟩
  have hsplit : f.lastBit x = j + e := by
    have hj' : f.lastBit x - e = j := hj
    omega
  conv_lhs => rw [hd, hsplit, zpow_add₀ two_ne_zero, zpow_natCast]
  push_cast
  ring

theorem round_some {r : ℚ} (h : f.round q = some r) : r = nearestEven (q / 2 ^ f.lastBit q) * 2 ^ f.lastBit q := by
  unfold Format.round at h
  dsimp only at h
  split at h
  · exact (Option.some.inj h).symm
  · cases h

/-- In units of the last bit of `q`. -/
theorem scaled_error {r u : ℚ} (hu : 0 < u) (n : ℕ) (hr : r = n * u) : |r - q| = |(n : ℚ) - q / u| * u := by
  rw [hr, ← abs_of_pos hu, ← abs_mul, abs_of_pos hu, sub_mul, div_mul_cancel₀ _ hu.ne']

/-- Rounding goes to the nearest number of the format. -/
theorem round_closest (hp : 0 < f.precision) (hq : 0 < q) (hx : f.round x = some x) (hx0 : 0 ≤ x) {r : ℚ} (h : f.round q = some r) :
    |r - q| ≤ |x - q| := by
  have hunit : (0 : ℚ) < 2 ^ f.lastBit q := zpow_pos two_pos _
  have hscaled := scaled_error (q := q) hunit _ (round_some h)
  -- against whole units of the last bit
  have hwhole : ∀ {y : ℚ} {d : ℕ}, y = d * 2 ^ f.lastBit q → |r - q| ≤ |y - q| := by
    intro y d hd
    rw [hscaled, scaled_error hunit d hd]
    exact mul_le_mul_of_nonneg_right (nearestEven_closest (div_nonneg hq.le hunit.le) d) hunit.le
  by_cases hbit : f.lastBit q ≤ f.lastBit x
  · obtain ⟨d, hd⟩ := units_below hx hbit
    exact hwhole hd
  rcases hx0.eq_or_lt with h0 | hpos
  · exact hwhole (d := 0) (by rw [← h0]; simp)
  -- below the binade of `q`, whose first number is nearer
  rw [not_le] at hbit
  have hlast : f.lastBit q = Int.log 2 q - (f.precision - 1) := by
    unfold Format.lastBit at hbit ⊢
    omega
  have hlog : Int.log 2 x < Int.log 2 q := by
    unfold Format.lastBit at hbit
    omega
  have hbinade : (2 : ℚ) ^ Int.log 2 q ≤ q := by exact_mod_cast Int.zpow_log_le_self (b := 2) (by decide) hq
  have hxlt : x < (2 : ℚ) ^ Int.log 2 q := by exact_mod_cast (Int.lt_zpow_iff_log_lt (b := 2) (by decide) hpos).mpr hlog
  have hunits : (2 : ℚ) ^ Int.log 2 q = ((2 ^ (f.precision - 1) : ℕ) : ℚ) * 2 ^ f.lastBit q := by
    rw [Nat.cast_pow, Nat.cast_ofNat, ← zpow_natCast, ← zpow_add₀ two_ne_zero, hlast]
    congr 1
    omega
  calc |r - q| ≤ |(2 : ℚ) ^ Int.log 2 q - q| := hwhole hunits
    _ ≤ |x - q| := by
      rw [abs_of_nonpos (by linarith), abs_of_nonpos (by linarith)]
      linarith

/-- A number of the format is a unit of its last bit at least, and a unit below the next binade. -/
theorem binade_units (hx0 : 0 < x) (hx : f.round x = some x) :
    2 ^ f.lastBit x ≤ x ∧ x + 2 ^ f.lastBit x ≤ 2 ^ (Int.log 2 x + 1) := by
  obtain ⟨d, hd⟩ := units_of_round hx
  have hunit : (0 : ℚ) < 2 ^ f.lastBit x := zpow_pos two_pos _
  have hlt : x < (2 : ℚ) ^ (Int.log 2 x + 1) := by exact_mod_cast Int.lt_zpow_succ_log_self (b := 2) (by decide) x
  have hone : 1 ≤ d := by
    by_contra h0
    obtain rfl : d = 0 := by omega
    rw [Nat.cast_zero, zero_mul] at hd
    exact hx0.ne' hd
  have hle : (2 : ℚ) ^ f.lastBit x ≤ x := by
    have hcast : (1 : ℚ) ≤ d := Nat.one_le_cast.mpr hone
    have := mul_le_mul_of_nonneg_right hcast hunit.le
    linarith
  refine ⟨hle, ?_⟩
  have hbit : f.lastBit x < Int.log 2 x + 1 := (zpow_lt_zpow_iff_right₀ one_lt_two).mp (hle.trans_lt hlt)
  obtain ⟨j, hj⟩ := Int.eq_ofNat_of_zero_le (Int.sub_nonneg_of_le hbit.le)
  have hsplit : (2 : ℚ) ^ (Int.log 2 x + 1) = ((2 ^ j : ℕ) : ℚ) * 2 ^ f.lastBit x := by
    rw [Nat.cast_pow, Nat.cast_ofNat, ← zpow_natCast, ← zpow_add₀ two_ne_zero]
    congr 1
    have hj' : Int.log 2 x + 1 - f.lastBit x = j := hj
    omega
  rw [hsplit] at hlt ⊢
  have hd1 : d < 2 ^ j := by
    have hdlt : (d : ℚ) * 2 ^ f.lastBit x < ((2 ^ j : ℕ) : ℚ) * 2 ^ f.lastBit x := hd ▸ hlt
    exact_mod_cast lt_of_mul_lt_mul_right hdlt hunit.le
  have hd2 : ((d + 1 : ℕ) : ℚ) ≤ ((2 ^ j : ℕ) : ℚ) := Nat.cast_le.mpr hd1
  calc x + 2 ^ f.lastBit x = ((d + 1 : ℕ) : ℚ) * 2 ^ f.lastBit x := by
        push_cast
        linarith
    _ ≤ ((2 ^ j : ℕ) : ℚ) * 2 ^ f.lastBit x := mul_le_mul_of_nonneg_right hd2 hunit.le

/-- Near a number of the format there is no other to round to. -/
theorem round_near (hx0 : 0 < x) (hx : f.round x = some x) (h : |q - x| < 2 ^ f.lastBit x / 4) :
    f.round q = some x := by
  have hunit : (0 : ℚ) < 2 ^ f.lastBit x := zpow_pos two_pos _
  obtain ⟨hle, hnext⟩ := binade_units hx0 hx
  obtain ⟨hlow, hhigh⟩ := abs_lt.mp h
  have hq : 0 < q := by linarith
  -- `q` is in the binade of `x` or the one below it
  have hlog : Int.log 2 q ≤ Int.log 2 x := by
    have hlt : q < (2 : ℚ) ^ (Int.log 2 x + 1) := by linarith
    have := (Int.lt_zpow_iff_log_lt (b := 2) (x := Int.log 2 x + 1) (by decide) hq).mp (by exact_mod_cast hlt)
    omega
  have hlog' : Int.log 2 x - 1 ≤ Int.log 2 q := by
    have hbinade : (2 : ℚ) ^ Int.log 2 x ≤ x := by exact_mod_cast Int.zpow_log_le_self (b := 2) (by decide) hx0
    have hhalf : (2 : ℚ) ^ (Int.log 2 x - 1) = 2 ^ Int.log 2 x / 2 := zpow_sub_one₀ two_ne_zero _
    have hle' : (2 : ℚ) ^ (Int.log 2 x - 1) ≤ q := by linarith
    exact (Int.zpow_le_iff_le_log (b := 2) (by decide) hq).mp (by exact_mod_cast hle')
  have hbit : f.lastBit q ≤ f.lastBit x := by
    unfold Format.lastBit
    omega
  have hbit' : f.lastBit x - 1 ≤ f.lastBit q := by
    unfold Format.lastBit
    omega
  obtain ⟨d, hd⟩ := units_below hx hbit
  have hunit' : (0 : ℚ) < 2 ^ f.lastBit q := zpow_pos two_pos _
  have hhalf : 2 ^ f.lastBit x / 2 ≤ (2 : ℚ) ^ f.lastBit q := by
    calc (2 : ℚ) ^ f.lastBit x / 2 = 2 ^ (f.lastBit x - 1) := (zpow_sub_one₀ two_ne_zero _).symm
      _ ≤ 2 ^ f.lastBit q := zpow_le_zpow_right₀ one_le_two hbit'
  have hnearest : nearestEven (q / 2 ^ f.lastBit q) = d := by
    apply nearestEven_eq (div_nonneg hq.le hunit'.le)
    have herror : |q / 2 ^ f.lastBit q - d| * 2 ^ f.lastBit q = |q - x| := by
      rw [abs_sub_comm, abs_sub_comm q x]
      exact (scaled_error hunit' d hd).symm
    have hlt : |q / 2 ^ f.lastBit q - d| * 2 ^ f.lastBit q < 1 / 2 * 2 ^ f.lastBit q := by
      rw [herror]
      linarith
    exact lt_of_mul_lt_mul_right hlt hunit'.le
  unfold Format.round
  dsimp only
  rw [hnearest, ← hd, if_pos (round_range hx).1]

/-- Rounding adds half a unit at most, of the last bit or of the least magnitude. -/
theorem round_isSome (hq : 0 < q) (hlt : q + q / 2 ^ f.precision < 2 ^ f.emax) (hmin : q + 2 ^ f.emin < 2 ^ f.emax) :
    ∃ r, f.round q = some r := by
  have hunit : (0 : ℚ) < 2 ^ f.lastBit q := zpow_pos two_pos _
  have hscaled := scaled_error (q := q) hunit (nearestEven (q / 2 ^ f.lastBit q)) rfl
  have hnear := mul_le_mul_of_nonneg_right (nearestEven_near (div_nonneg hq.le hunit.le)) hunit.le
  rw [← hscaled] at hnear
  have hhigh := (abs_le.mp hnear).2
  have hbit : (2 : ℚ) ^ f.lastBit q ≤ 2 * (q / 2 ^ f.precision) ∨ f.lastBit q = f.emin := by
    rcases le_total f.emin (Int.log 2 q - (f.precision - 1)) with h | h
    · left
      have hlast : f.lastBit q = Int.log 2 q + 1 - f.precision := by
        have hmax : f.lastBit q = Int.log 2 q - (f.precision - 1) := max_eq_left h
        omega
      have hbinade : (2 : ℚ) ^ Int.log 2 q ≤ q := by exact_mod_cast Int.zpow_log_le_self (b := 2) (by decide) hq
      rw [hlast, zpow_sub₀ two_ne_zero, zpow_add_one₀ two_ne_zero, zpow_natCast, mul_div_assoc', mul_comm]
      exact div_le_div_of_nonneg_right (by linarith) (by positivity)
    · exact .inr (max_eq_right h)
  unfold Format.round
  dsimp only
  rw [if_pos]
  · exact ⟨_, rfl⟩
  · rcases hbit with hbit | hbit
    · linarith
    · rw [hbit] at hhigh ⊢
      have hpos : (0 : ℚ) < 2 ^ f.emin := zpow_pos two_pos _
      linarith

end FitsWebQL.Lib.Binary
