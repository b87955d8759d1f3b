/-
  FitsWebQL.Lib.Printf — what `%ld` and `%E` print, as bytes. A number is printed with
  `%E` as one digit, a point, six digits and an exponent of two digits at least, rounded
  to nearest from its exact value.
-/

import FitsWebQL.Lib.Binary

namespace FitsWebQL.Lib.Printf

open Lib.Binary

/-! ## Digits -/

def digits (n : ℕ) : List UInt8 := (Nat.toDigits 10 n).map fun c => UInt8.ofNat c.toNat

/-- The last digit comes off the end. -/
theorem digits_eq (n : ℕ) : digits n = (if n < 10 then [] else digits (n / 10)) ++ [UInt8.ofNat (48 + n % 10)] := by
  have hchar : ∀ d < 10, UInt8.ofNat (Nat.digitChar d).toNat = UInt8.ofNat (48 + d) := by decide
  unfold digits
  rw [Nat.toDigits_eq_if (by decide)]
  split
  · rw [List.map_singleton, hchar n ‹_›, Nat.mod_eq_of_lt ‹_›]
    rfl
  · rw [List.map_append, List.map_singleton, hchar _ (Nat.mod_lt _ (by decide))]

theorem digits_length_le {n : ℕ} (k : ℕ) (h : n < 10 ^ (k + 1)) : (digits n).length ≤ k + 1 := by
  induction k generalizing n with
  | zero =>
    rw [digits_eq, if_pos (by omega)]
    exact le_refl 1
  | succ k ih =>
    rw [digits_eq, List.length_append, List.length_singleton]
    split
    · exact Nat.succ_le_succ (Nat.zero_le _)
    · have h10 : n / 10 < 10 ^ (k + 1) := by
        rw [pow_succ] at h
        omega
      exact Nat.succ_le_succ (ih h10)

/-- With zeros in front, `width` digits. -/
def padded (width n : ℕ) : List UInt8 := List.replicate (width - (digits n).length) 48 ++ digits n

theorem padded_length {n k : ℕ} (h : n < 10 ^ (k + 1)) : (padded (k + 1) n).length = k + 1 := by
  have := digits_length_le k h
  unfold padded
  rw [List.length_append, List.length_replicate]
  omega

/-! ## Conversions -/

def ld (v : ℤ) : List UInt8 := if v < 0 then 45 :: digits v.natAbs else digits v.natAbs

def scientific (q : ℚ) : ℕ × ℤ :=
  let k := Int.log 10 q
  let d := nearestEven (q / 10 ^ (k - 6))
  if d < 10 ^ 7 then (d, k) else (10 ^ 6, k + 1)

def minus (negative : Bool) : List UInt8 := if negative then [45] else []

def mantissaExponent (d : ℕ) (k : ℤ) : List UInt8 :=
  (padded 7 d).take 1 ++ [46] ++ (padded 7 d).drop 1 ++ [69, if k < 0 then 45 else 43] ++ padded 2 k.natAbs

/-- `%E`; the NaN an operation makes has its sign bit set. -/
def E : Value → List UInt8
  | .finite negative m =>
    let r := if m = 0 then (0, 0) else scientific m
    minus negative ++ mantissaExponent r.1 r.2
  | .infinite negative => minus negative ++ [73, 78, 70]
  | .nan => [45, 78, 65, 78]

theorem mantissaExponent_length {d : ℕ} {k : ℤ} (hd : d < 10 ^ 7) (hk : k.natAbs < 10 ^ 2) :
    (mantissaExponent d k).length = 12 := by
  have h7 : (padded 7 d).length = 7 := padded_length hd
  have h2 : (padded 2 k.natAbs).length = 2 := padded_length hk
  unfold mantissaExponent
  simp only [List.length_append, List.length_take, List.length_drop, List.length_cons, List.length_nil, h7, h2]
  omega

theorem scientific_lt (q : ℚ) : (scientific q).1 < 10 ^ 7 := by
  unfold scientific
  dsimp only
  split
  · exact ‹_›
  · show 10 ^ 6 < 10 ^ 7
    decide

theorem scientific_exponent (q : ℚ) : Int.log 10 q ≤ (scientific q).2 ∧ (scientific q).2 ≤ Int.log 10 q + 1 := by
  unfold scientific
  dsimp only
  split
  · exact ⟨le_refl _, by omega⟩
  · exact ⟨by omega, le_refl _⟩

/-- A single-precision value takes at most 13 characters. -/
theorem E_length_le {v : Value} (h : v.InRange binary32) : (E v).length ≤ 13 := by
  have hminus : ∀ b, (minus b).length ≤ 1 := by decide
  cases v with
  | finite negative m =>
    obtain ⟨hlt, hm⟩ := h
    have hexp : ((if m = 0 then (0, 0) else scientific m : ℕ × ℤ).1 < 10 ^ 7) ∧
        (if m = 0 then (0, 0) else scientific m : ℕ × ℤ).2.natAbs < 10 ^ 2 := by
      by_cases h0 : m = 0
      · rw [if_pos h0]
        exact ⟨by decide, by decide⟩
      · rw [if_neg h0]
        refine ⟨scientific_lt m, ?_⟩
        have hge : (2 : ℚ) ^ (-149 : ℤ) ≤ m := hm.resolve_left h0
        have hpos : 0 < m := lt_of_lt_of_le (by norm_num) hge
        -- 10 ^ -46 ≤ 2 ^ -149 and 2 ^ 128 ≤ 10 ^ 39
        have hlow : (-46 : ℤ) ≤ Int.log 10 m := by
          rw [← Int.zpow_le_iff_le_log (by decide) hpos]
          refine le_trans ?_ hge
          norm_num
        have hhigh : Int.log 10 m < 39 := by
          rw [← Int.lt_zpow_iff_log_lt (by decide) hpos]
          refine lt_of_lt_of_le hlt ?_
          show (2 : ℚ) ^ (128 : ℤ) ≤ _
          norm_num
        have := scientific_exponent m
        omega
    have := hminus negative
    show (minus negative ++ mantissaExponent _ _).length ≤ 13
    rw [List.length_append, mantissaExponent_length hexp.1 hexp.2]
    omega
  | infinite negative =>
    have := hminus negative
    show (minus negative ++ [73, 78, 70]).length ≤ 13
    rw [List.length_append, List.length_cons, List.length_cons, List.length_cons, List.length_nil]
    omega
  | nan => decide

end FitsWebQL.Lib.Printf
