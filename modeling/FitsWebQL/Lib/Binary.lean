/-
  FitsWebQL.Lib.Binary — binary floating-point values: a sign and a magnitude, an
  infinity, or a NaN. An operation is done exactly, on rationals, and its result rounded
  to the nearest value of the format, an even one of two (`Format.round`).

  What is rounded to a format is 0 or between its least and its largest magnitude
  (`round_range`), and is rounded to itself (`round_round`), so that the values of a format
  are a type (`Number`).
-/

import Mathlib

namespace FitsWebQL.Lib.Binary

/-- A format: the bits of the significand, the exponent of the least magnitude, and the
    exponent that is too large. -/
structure Format where
  precision : ℕ
  emin : ℤ
  emax : ℤ

def binary32 : Format := ⟨24, -149, 128⟩
def binary64 : Format := ⟨53, -1074, 1024⟩

inductive Value
  | finite (negative : Bool) (magnitude : ℚ)
  | infinite (negative : Bool)
  | nan
  deriving DecidableEq

/-! ## Rounding -/

def nearestEven (q : ℚ) : ℕ :=
  let n := ⌊q⌋₊
  if q - n < 1 / 2 then n else if 1 / 2 < q - n then n + 1 else if n % 2 = 0 then n else n + 1

def Format.lastBit (f : Format) (q : ℚ) : ℤ := max (Int.log 2 q - (f.precision - 1)) f.emin

/-- A magnitude rounded; `none` is too large. -/
def Format.round (f : Format) (q : ℚ) : Option ℚ :=
  let m : ℚ := nearestEven (q / 2 ^ f.lastBit q) * 2 ^ f.lastBit q
  if m < 2 ^ f.emax then some m else none

theorem round_range {f : Format} {q m : ℚ} (h : f.round q = some m) : m < 2 ^ f.emax ∧ (m = 0 ∨ 2 ^ f.emin ≤ m) := by
  unfold Format.round at h
  dsimp only at h
  split at h
  · cases h
    refine ⟨‹_›, ?_⟩
    rcases Nat.eq_zero_or_pos (nearestEven (q / 2 ^ f.lastBit q)) with h0 | h0
    · left
      rw [h0, Nat.cast_zero, zero_mul]
    · right
      have hone : (1 : ℚ) ≤ nearestEven (q / 2 ^ f.lastBit q) := Nat.one_le_cast.mpr h0
      have hpow : (2 : ℚ) ^ f.emin ≤ 2 ^ f.lastBit q := zpow_le_zpow_right₀ one_le_two (le_max_right _ _)
      calc (2 : ℚ) ^ f.emin ≤ 2 ^ f.lastBit q := hpow
        _ = 1 * 2 ^ f.lastBit q := (one_mul _).symm
        _ ≤ nearestEven (q / 2 ^ f.lastBit q) * 2 ^ f.lastBit q :=
          mul_le_mul_of_nonneg_right hone (zpow_nonneg zero_le_two _)
  · cases h

theorem nearestEven_natCast (n : ℕ) : nearestEven n = n := by
  unfold nearestEven
  dsimp only
  rw [Nat.floor_natCast, sub_self, if_pos one_half_pos]

theorem nearestEven_le {q : ℚ} {n : ℕ} (h : q ≤ n) : nearestEven q ≤ n := by
  unfold nearestEven
  dsimp only
  rcases le_total q 0 with h0 | h0
  · rw [Nat.floor_of_nonpos h0, Nat.cast_zero, sub_zero, if_pos (lt_of_le_of_lt h0 one_half_pos)]
    exact Nat.zero_le n
  · have hfloor : ⌊q⌋₊ ≤ n := Nat.floor_le_of_le h
    split
    · exact hfloor
    · -- half a unit or more above its floor, `q` is below `n`
      rename_i hhalf
      have hlt : ⌊q⌋₊ < n := by
        apply lt_of_le_of_ne hfloor
        intro heq
        rw [← heq] at h
        exact hhalf (by linarith)
      split
      · exact hlt
      · split
        · exact hfloor
        · exact hlt

/-- A magnitude that ends at the last bit kept is kept. -/
theorem round_of_lastBit {f : Format} {q : ℚ} {d : ℕ} (hd : q = d * 2 ^ f.lastBit q) (hlt : q < 2 ^ f.emax) :
    f.round q = some q := by
  have hunit : (2 : ℚ) ^ f.lastBit q ≠ 0 := zpow_ne_zero _ two_ne_zero
  have hquot : q / 2 ^ f.lastBit q = d := (div_eq_iff hunit).mpr hd
  unfold Format.round
  dsimp only
  rw [hquot, nearestEven_natCast, ← hd, if_pos hlt]

theorem round_units {f : Format} {k : ℕ} {e : ℤ} (hp : 0 < f.precision) (hk : k ≤ 2 ^ f.precision) (he : f.emin ≤ e)
    (hlt : (k : ℚ) * 2 ^ e < 2 ^ f.emax) : f.round (k * 2 ^ e) = some ((k : ℚ) * 2 ^ e) := by
  rcases Nat.lt_or_eq_of_le hk with hk | rfl
  · rcases Nat.eq_zero_or_pos k with rfl | h0
    · apply round_of_lastBit (d := 0)
      · simp
      · exact hlt
    · have hpos : (0 : ℚ) < k * 2 ^ e := mul_pos (Nat.cast_pos.mpr h0) (zpow_pos two_pos _)
      have hbound : (k : ℚ) * 2 ^ e < ((2 : ℕ) : ℚ) ^ ((f.precision : ℤ) + e) := by
        rw [Nat.cast_ofNat, zpow_add₀ two_ne_zero, zpow_natCast]
        exact mul_lt_mul_of_pos_right (by exact_mod_cast hk) (zpow_pos two_pos _)
      have hlog : Int.log 2 ((k : ℚ) * 2 ^ e) < f.precision + e := (Int.lt_zpow_iff_log_lt (by decide) hpos).mp hbound
      have hlast : f.lastBit (k * 2 ^ e) ≤ e := max_le (by omega) he
      obtain ⟨j, hj⟩ := Int.eq_ofNat_of_zero_le (Int.sub_nonneg_of_le hlast)
      have hsplit : (2 : ℚ) ^ e = 2 ^ j * 2 ^ f.lastBit (k * 2 ^ e) := by
        rw [← zpow_natCast, ← hj, ← zpow_add₀ two_ne_zero, Int.sub_add_cancel]
      apply round_of_lastBit (d := k * 2 ^ j)
      · rw [Nat.cast_mul, mul_assoc, Nat.cast_pow, Nat.cast_ofNat, ← hsplit]
      · exact hlt
  · -- a carry into the next binade
    obtain ⟨p, hprec⟩ := Nat.exists_eq_succ_of_ne_zero hp.ne'
    have hpow : ((2 ^ f.precision : ℕ) : ℚ) * 2 ^ e = ((2 : ℕ) : ℚ) ^ ((f.precision : ℤ) + e) := by
      rw [Nat.cast_pow, Nat.cast_ofNat, zpow_add₀ two_ne_zero, zpow_natCast]
    have hlast : f.lastBit (((2 ^ f.precision : ℕ) : ℚ) * 2 ^ e) = e + 1 := by
      unfold Format.lastBit
      rw [hpow, Int.log_zpow (by decide)]
      omega
    apply round_of_lastBit (d := 2 ^ p)
    · rw [hlast, hpow, Nat.cast_pow, Nat.cast_ofNat, ← zpow_natCast, ← zpow_add₀ two_ne_zero]
      congr 1
      omega
    · exact hlt

/-- What was rounded to a format is of it. -/
theorem round_round {f : Format} (hp : 0 < f.precision) {q m : ℚ} (h : f.round q = some m) : f.round m = some m := by
  unfold Format.round at h
  dsimp only at h
  split at h
  · rename_i hlt
    cases h
    apply round_units hp _ (le_max_right _ _) hlt
    apply nearestEven_le
    rw [div_le_iff₀ (zpow_pos two_pos _)]
    have hlog : q < ((2 : ℕ) : ℚ) ^ (Int.log 2 q + 1) := Int.lt_zpow_succ_log_self (by decide) q
    calc q ≤ ((2 : ℕ) : ℚ) ^ (Int.log 2 q + 1) := hlog.le
      _ ≤ 2 ^ ((f.precision : ℤ) + f.lastBit q) := by
        rw [Nat.cast_ofNat]
        apply zpow_le_zpow_right₀ one_le_two
        have hkept : Int.log 2 q - (f.precision - 1) ≤ f.lastBit q := le_max_left _ _
        omega
      _ = ((2 ^ f.precision : ℕ) : ℚ) * 2 ^ f.lastBit q := by
        rw [zpow_add₀ two_ne_zero, zpow_natCast, Nat.cast_pow, Nat.cast_ofNat]
  · cases h

/-- Natural numbers as long as the significand. -/
theorem round_natCast {f : Format} (hp : 0 < f.precision) (hmin : f.emin ≤ 0) (hmax : f.precision < f.emax) {n : ℕ}
    (hn : n ≤ 2 ^ f.precision) : f.round n = some (n : ℚ) := by
  have hlt : (n : ℚ) * 2 ^ (0 : ℤ) < 2 ^ f.emax := by
    rw [zpow_zero, mul_one]
    calc (n : ℚ) ≤ 2 ^ f.precision := by exact_mod_cast hn
      _ = 2 ^ (f.precision : ℤ) := (zpow_natCast _ _).symm
      _ < 2 ^ f.emax := zpow_lt_zpow_right₀ one_lt_two hmax
  have h := round_units hp hn hmin hlt
  rw [zpow_zero, mul_one] at h
  exact h

/-! ## Operations -/

def signed (negative : Bool) (magnitude : ℚ) : ℚ := if negative then -magnitude else magnitude

def Format.value (f : Format) (negative : Bool) (magnitude : ℚ) : Value :=
  match f.round magnitude with
  | some m => .finite negative m
  | none => .infinite negative

def Format.convert (f : Format) : Value → Value
  | .finite negative magnitude => f.value negative magnitude
  | v => v

def Format.sub (f : Format) : Value → Value → Value
  | .finite n m, .finite n' m' =>
    let d := signed n m - signed n' m'
    if d = 0 then .finite (n && !n') 0 else f.value (decide (d < 0)) |d|
  | .infinite n, .finite _ _ => .infinite n
  | .finite _ _, .infinite n' => .infinite !n'
  | .infinite n, .infinite n' => if n = n' then .nan else .infinite n
  | _, _ => .nan

def Value.InRange (f : Format) : Value → Prop
  | .finite _ m => m < 2 ^ f.emax ∧ (m = 0 ∨ 2 ^ f.emin ≤ m)
  | _ => True

theorem value_inRange (f : Format) (negative : Bool) (magnitude : ℚ) : (f.value negative magnitude).InRange f := by
  unfold Format.value
  cases h : f.round magnitude with
  | none => trivial
  | some m => exact round_range h

theorem sub_inRange (f : Format) (v w : Value) : (f.sub v w).InRange f := by
  cases v with
  | finite n m =>
    cases w with
    | finite n' m' =>
      unfold Format.sub
      dsimp only
      split
      · exact ⟨zpow_pos zero_lt_two _, Or.inl rfl⟩
      · exact value_inRange f _ _
    | infinite _ => trivial
    | nan => trivial
  | infinite n =>
    cases w with
    | finite _ _ => trivial
    | infinite n' =>
      show (if n = n' then Value.nan else Value.infinite n).InRange f
      split
      · trivial
      · trivial
    | nan => trivial
  | nan => cases w <;> trivial

/-! ## Values of a format -/

theorem convert_convert {f : Format} (hp : 0 < f.precision) (v : Value) : f.convert (f.convert v) = f.convert v := by
  cases v with
  | finite n m =>
    show f.convert (f.value n m) = f.value n m
    unfold Format.value
    cases h : f.round m with
    | none => rfl
    | some m' =>
      show f.value n m' = _
      unfold Format.value
      rw [round_round hp h]
  | infinite _ => rfl
  | nan => rfl

@[ext] structure Number (f : Format) where
  value : Value
  of_format : f.convert value = value
  deriving DecidableEq

def Number.of {f : Format} (hp : 0 < f.precision) (v : Value) : Number f := ⟨f.convert v, convert_convert hp v⟩

theorem Number.of_value {f : Format} (hp : 0 < f.precision) (x : Number f) : Number.of hp x.value = x := Number.ext x.of_format

end FitsWebQL.Lib.Binary
