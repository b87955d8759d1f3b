/-
  FitsWebQL.Lib.JsonNumbers — what is printed for an integer with `%ld`, and for a
  finite number with `%e`, is a JSON number (`writes_ld`, `writes_e`).
-/

import FitsWebQL.Lib.JsonText
import FitsWebQL.Lib.Printf

namespace FitsWebQL.Lib.JsonNumbers

open Lib.Binary Lib.JsonText Lib.Printf

def lower (b : UInt8) : UInt8 := if 65 ≤ b ∧ b ≤ 90 then b + 32 else b

/-- `%e`: `%E` in small letters. -/
def e (v : Value) : List UInt8 := (E v).map lower

/-! ## Digits -/

theorem digits_ne_nil (n : ℕ) : digits n ≠ [] := by
  rw [digits_eq]
  simp

theorem digit_isDigit {d : ℕ} (h : d < 10) : isDigit (UInt8.ofNat (48 + d)) = true := by
  revert d
  decide

theorem digits_isDigit (n : ℕ) : (digits n).all isDigit = true := by
  induction n using Nat.strong_induction_on with
  | _ n ih =>
    have hlast := digit_isDigit (Nat.mod_lt n (by decide : 0 < 10))
    rw [digits_eq]
    split
    · simpa using hlast
    · rw [List.all_append, ih (n / 10) (by omega)]
      simpa using hlast

/-- No zero in front. -/
theorem digits_head {n : ℕ} (h : 0 < n) : (digits n).head? ≠ some 48 := by
  induction n using Nat.strong_induction_on with
  | _ n ih =>
    rw [digits_eq]
    split
    · have hall : ∀ n < 10, 0 < n → ([] ++ [UInt8.ofNat (48 + n % 10)]).head? ≠ some 48 := by decide
      exact hall n ‹_› h
    · have hrest := ih (n / 10) (by omega) (by omega)
      cases hdigits : digits (n / 10) with
      | nil => exact absurd hdigits (digits_ne_nil _)
      | cons b ds =>
        rw [hdigits] at hrest
        simpa using hrest

theorem padded_isDigit (width n : ℕ) : (padded width n).all isDigit = true := by
  unfold padded
  rw [List.all_append, digits_isDigit, Bool.and_true, List.all_eq_true]
  intro b hb
  rw [List.eq_of_mem_replicate hb]
  rfl

theorem isWordByte_of_isDigit {b : UInt8} (h : isDigit b = true) : isWordByte b = true := by simp [isWordByte, h]

theorem all_isWordByte {s : List UInt8} (h : s.all isDigit = true) : s.all isWordByte = true := by
  rw [List.all_eq_true] at h ⊢
  exact fun b hb => isWordByte_of_isDigit (h b hb)

theorem takeWhile_isDigit {s t : List UInt8} (h : s.all isDigit = true) (b : UInt8) (hb : isDigit b = false) :
    (s ++ b :: t).takeWhile isDigit = s ∧ (s ++ b :: t).dropWhile isDigit = b :: t := by
  rw [List.all_eq_true] at h
  rw [List.takeWhile_append_of_pos h, List.dropWhile_append_of_pos h]
  simp [hb]

theorem ne_minus {b : UInt8} (h : isDigit b = true) : b ≠ 45 := by
  rintro rfl
  exact absurd h (by decide)

/-- A sign does not matter. -/
theorem isNumber_minus {b : UInt8} {s : List UInt8} (negative : Bool) (hb : isDigit b = true) (h : unsignedNumber (b :: s) = true) :
    isNumber (minus negative ++ b :: s) = true := by
  cases negative with
  | true => simpa [isNumber, minus] using h
  | false => simpa [isNumber, minus, ne_minus hb] using h

/-! ## Integers -/

theorem isNumber_ld (v : ℤ) : isNumber (ld v) = true := by
  have hld : ld v = minus (decide (v < 0)) ++ digits v.natAbs := by
    unfold ld minus
    by_cases h : v < 0 <;> simp [h]
  have hdigits := digits_isDigit v.natAbs
  rw [hld]
  cases hcons : digits v.natAbs with
  | nil => exact absurd hcons (digits_ne_nil _)
  | cons b ds =>
    rw [hcons, List.all_cons, Bool.and_eq_true] at hdigits
    refine isNumber_minus _ hdigits.1 ?_
    have hrest : ds.dropWhile isDigit = [] := List.dropWhile_eq_nil_iff.mpr (List.all_eq_true.mp hdigits.2)
    by_cases hzero : v.natAbs = 0
    · rw [hzero] at hcons
      obtain ⟨rfl, rfl⟩ := List.cons.inj (hcons.symm.trans (rfl : digits 0 = [48]))
      rfl
    · have hhead := digits_head (Nat.pos_of_ne_zero hzero)
      rw [hcons] at hhead
      have hb : b ≠ 48 := fun h => hhead (by rw [h]; rfl)
      simp [unsignedNumber, hb, hdigits.1, hrest, fraction]

theorem writes_ld (v : ℤ) : Writes (.number (ld v)) (ld v) := by
  refine writes_number ?_ (isNumber_ld v)
  unfold ld
  split
  · rw [List.all_cons, all_isWordByte (digits_isDigit _)]
    rfl
  · exact all_isWordByte (digits_isDigit _)

/-! ## Scientific notation -/

theorem lower_digit {b : UInt8} (h : isDigit b = true) : lower b = b := by
  simp only [isDigit, decide_eq_true_eq] at h
  unfold lower
  rw [if_neg]
  grind

theorem map_lower {s : List UInt8} (h : s.all isDigit = true) : s.map lower = s := by
  rw [List.all_eq_true] at h
  rw [List.map_congr_left fun b hb => lower_digit (h b hb), List.map_id']

theorem scientific_digits_lt (m : ℚ) : (if m = 0 then (0, 0) else scientific m : ℕ × ℤ).1 < 10 ^ 7 := by
  split
  · decide
  · exact scientific_lt m

/-- A digit, a point, digits, a sign and digits. -/
theorem e_finite (negative : Bool) (m : ℚ) :
    ∃ first six sign ds, e (.finite negative m) = minus negative ++ first :: 46 :: (six ++ 101 :: sign :: ds) ∧
      isDigit first = true ∧ (six.all isDigit = true ∧ six ≠ []) ∧ (sign = 45 ∨ sign = 43) ∧ (ds.all isDigit = true ∧ ds ≠ []) := by
  have hlt := scientific_digits_lt m
  have he : e (.finite negative m) = (minus negative ++ mantissaExponent
      (if m = 0 then (0, 0) else scientific m : ℕ × ℤ).1 (if m = 0 then (0, 0) else scientific m : ℕ × ℤ).2).map lower := rfl
  rw [he]
  generalize (if m = 0 then (0, 0) else scientific m : ℕ × ℤ) = r at hlt
  have hminus : (minus negative).map lower = minus negative := by cases negative <;> rfl
  have hlength : (padded 7 r.1).length = 7 := padded_length hlt
  have hds := padded_isDigit 2 r.2.natAbs
  cases hcons : padded 7 r.1 with
  | nil => simp [hcons] at hlength
  | cons first six =>
    have hdigits := padded_isDigit 7 r.1
    rw [hcons, List.all_cons, Bool.and_eq_true] at hdigits
    refine ⟨first, six, if r.2 < 0 then 45 else 43, padded 2 r.2.natAbs, ?_, hdigits.1, ⟨hdigits.2, ?_⟩, by split <;> simp,
      ⟨hds, ?_⟩⟩
    · have hsign : lower (if r.2 < 0 then 45 else 43) = if r.2 < 0 then 45 else 43 := by split <;> rfl
      simp only [mantissaExponent, hcons, List.map_append, hminus, List.take_succ_cons, List.take_zero, List.drop_succ_cons,
        List.drop_zero, List.map_cons, List.map_nil, lower_digit hdigits.1, map_lower hdigits.2, map_lower hds, hsign]
      simp [lower]
    · rintro rfl
      simp [hcons] at hlength
    · simp [padded, digits_ne_nil]

theorem writes_e (negative : Bool) (m : ℚ) : Writes (.number (e (.finite negative m))) (e (.finite negative m)) := by
  obtain ⟨first, six, sign, ds, he, hfirst, ⟨hsix, hsix'⟩, hsign, hds, hds'⟩ := e_finite negative m
  have hexponent : exponent (101 :: sign :: ds) = true := by
    rcases hsign with rfl | rfl <;> simp [exponent, hds, hds']
  have hfraction : fraction (46 :: (six ++ 101 :: sign :: ds)) = true := by
    obtain ⟨htake, hdrop⟩ := takeWhile_isDigit (t := sign :: ds) hsix 101 rfl
    simp [fraction, htake, hdrop, hsix', hexponent]
  have hunsigned : unsignedNumber (first :: 46 :: (six ++ 101 :: sign :: ds)) = true := by
    have hpoint : isDigit 46 = false := rfl
    by_cases hzero : first = 48
    · simpa [unsignedNumber, hzero] using hfraction
    · simpa [unsignedNumber, hzero, hfirst, hpoint] using hfraction
  have hbytes : (minus negative ++ first :: 46 :: (six ++ 101 :: sign :: ds)).all isWordByte = true := by
    have hsign' : isWordByte sign = true := by rcases hsign with rfl | rfl <;> rfl
    have hminus : (minus negative).all isWordByte = true := by cases negative <;> rfl
    simp only [List.all_append, List.all_cons, hminus, isWordByte_of_isDigit hfirst, all_isWordByte hsix, hsign', all_isWordByte hds]
    rfl
  rw [he]
  exact writes_number hbytes (isNumber_minus negative hfirst hunsigned)

end FitsWebQL.Lib.JsonNumbers
