/-
  FitsWebQL.Lib.PrintfG — what `%.*g` prints, as bytes: so many significant digits, rounded
  to nearest from the exact value, without the zeros at the end; with an exponent when the
  number is below 1e-4 or has more digits in front of the point than are asked for.

  Proved:
    rounded_near       the digits are within half a unit of the last of them
    isNumber_g         a finite number is printed as a JSON number
    notNumber_g        an infinity or a NaN is not
-/

import Mathlib.Data.List.DropRight
import FitsWebQL.Lib.JsonNumbers
import FitsWebQL.Lib.Nearest

namespace FitsWebQL.Lib.PrintfG

open Lib.Binary Lib.JsonText Lib.JsonNumbers Lib.Printf

/-! ## Digits -/

/-- The `p` digits of a positive number, and the exponent of the first of them. -/
def significant (p : ℕ) (q : ℚ) : ℕ × ℤ :=
  let k := Int.log 10 q
  let d := nearestEven (q / 10 ^ (k - (p - 1 : ℤ)))
  if d < 10 ^ p then (d, k) else (10 ^ (p - 1), k + 1)

def rounded (p : ℕ) (q : ℚ) : ℚ := (significant p q).1 * 10 ^ ((significant p q).2 - (p - 1 : ℤ))

section

variable {p : ℕ} {q : ℚ} (hp : 0 < p) (hq : 0 < q)

include hp hq

/-- Scaled to `p` digits in front of the point. -/
theorem scaled_bounds : (10 : ℚ) ^ (p - 1) ≤ q / 10 ^ (Int.log 10 q - (p - 1 : ℤ)) ∧ q / 10 ^ (Int.log 10 q - (p - 1 : ℤ)) < 10 ^ p := by
  have hunit : (0 : ℚ) < 10 ^ (Int.log 10 q - (p - 1 : ℤ)) := zpow_pos (by norm_num) _
  have hlow : (10 : ℚ) ^ Int.log 10 q ≤ q := by exact_mod_cast Int.zpow_log_le_self (b := 10) (by decide) hq
  have hhigh : q < (10 : ℚ) ^ (Int.log 10 q + 1) := by exact_mod_cast Int.lt_zpow_succ_log_self (b := 10) (by decide) q
  have hsplit : ∀ j : ℕ, (10 : ℚ) ^ j * 10 ^ (Int.log 10 q - (p - 1 : ℤ)) = 10 ^ (j + (Int.log 10 q - (p - 1 : ℤ))) := fun j => by
    rw [zpow_add₀ (by norm_num), zpow_natCast]
  rw [le_div_iff₀ hunit, div_lt_iff₀ hunit, hsplit, hsplit]
  have hone : ((p - 1 : ℕ) : ℤ) + (Int.log 10 q - (p - 1 : ℤ)) = Int.log 10 q := by omega
  have htwo : (p : ℤ) + (Int.log 10 q - (p - 1 : ℤ)) = Int.log 10 q + 1 := by omega
  rw [hone, htwo]
  exact ⟨hlow, hhigh⟩

theorem significant_bounds : 10 ^ (p - 1) ≤ (significant p q).1 ∧ (significant p q).1 < 10 ^ p := by
  unfold significant
  dsimp only
  split
  · exact ⟨le_nearestEven (by exact_mod_cast (scaled_bounds hp hq).1), ‹_›⟩
  · exact ⟨le_refl _, Nat.pow_lt_pow_right (by decide) (by omega)⟩

theorem rounded_eq : rounded p q = nearestEven (q / 10 ^ (Int.log 10 q - (p - 1 : ℤ))) * 10 ^ (Int.log 10 q - (p - 1 : ℤ)) := by
  unfold rounded significant
  dsimp only
  split
  · rfl
  · -- a carry out of the first digit
    have hle : nearestEven (q / 10 ^ (Int.log 10 q - (p - 1 : ℤ))) ≤ 10 ^ p :=
      nearestEven_le (by exact_mod_cast (scaled_bounds hp hq).2.le)
    have heq : nearestEven (q / 10 ^ (Int.log 10 q - (p - 1 : ℤ))) = 10 ^ p := by omega
    rw [heq]
    push_cast
    rw [← zpow_natCast, ← zpow_natCast, ← zpow_add₀ (by norm_num), ← zpow_add₀ (by norm_num)]
    congr 1
    omega

/-- Within half a unit of the last digit. -/
theorem rounded_near : |rounded p q - q| ≤ 10 ^ (Int.log 10 q - (p - 1 : ℤ)) / 2 := by
  have hunit : (0 : ℚ) < 10 ^ (Int.log 10 q - (p - 1 : ℤ)) := zpow_pos (by norm_num) _
  have hnear := nearestEven_near (div_nonneg hq.le hunit.le)
  have hsplit : rounded p q - q =
      (nearestEven (q / 10 ^ (Int.log 10 q - (p - 1 : ℤ))) - q / 10 ^ (Int.log 10 q - (p - 1 : ℤ))) *
        10 ^ (Int.log 10 q - (p - 1 : ℤ)) := by
    rw [rounded_eq hp hq, sub_mul, div_mul_cancel₀ _ hunit.ne']
  rw [hsplit, abs_mul, abs_of_pos hunit]
  calc _ ≤ 1 / 2 * (10 : ℚ) ^ (Int.log 10 q - (p - 1 : ℤ)) := mul_le_mul_of_nonneg_right hnear hunit.le
    _ = _ := by ring

/-- A natural number of `p` digits at most is not rounded. -/
theorem rounded_natCast {n : ℕ} (hn : q = n) (hlt : n < 10 ^ p) : rounded p q = q := by
  have hpos : 0 < n := by
    rw [hn] at hq
    exact_mod_cast hq
  have hlog : Int.log 10 q ≤ p - 1 := by
    have hlt' : q < (10 : ℚ) ^ (p : ℤ) := by
      rw [hn, zpow_natCast]
      exact_mod_cast hlt
    have := (Int.lt_zpow_iff_log_lt (b := 10) (x := p) (by decide) hq).mp (by exact_mod_cast hlt')
    omega
  obtain ⟨j, hj⟩ := Int.eq_ofNat_of_zero_le (Int.sub_nonneg_of_le hlog)
  have hunit : (10 : ℚ) ^ (Int.log 10 q - (p - 1 : ℤ)) = (10 ^ j)⁻¹ := by
    rw [← neg_sub, hj, zpow_neg]
    rfl
  have hdiv : q / (10 ^ j)⁻¹ = ((n * 10 ^ j : ℕ) : ℚ) := by
    rw [div_inv_eq_mul, hn]
    push_cast
    rfl
  rw [rounded_eq hp hq, hunit, hdiv, nearestEven_natCast, hn]
  push_cast
  rw [mul_assoc, mul_inv_cancel₀ (by positivity), mul_one]

end

/-! ## %g -/

def trimmed (ds : List UInt8) : List UInt8 := ds.rdropWhile (· == 48)

def point (ds : List UInt8) : List UInt8 := if ds.isEmpty then [] else 46 :: ds

/-- The digits `ds` of a number whose first has the exponent `k`. -/
def plain (p : ℕ) (ds : List UInt8) (k : ℤ) : List UInt8 :=
  if 0 ≤ k ∧ k < p then ds.take (k.toNat + 1) ++ point (trimmed (ds.drop (k.toNat + 1)))
  else if -4 ≤ k ∧ k < 0 then 48 :: point (trimmed (List.replicate (-k - 1).toNat 48 ++ ds))
  else ds.take 1 ++ point (trimmed (ds.drop 1)) ++ (101 :: (if k < 0 then 45 else 43) :: padded 2 k.natAbs)

/-- `%.pg`; the NaN an operation makes has its sign bit set. -/
def g (p : ℕ) : Value → List UInt8
  | .finite negative m =>
    let r := if m = 0 then (0, 0) else significant p m
    minus negative ++ plain p (padded p r.1) r.2
  | .infinite negative => minus negative ++ [105, 110, 102]
  | .nan => [45, 110, 97, 110]

/-! ## A JSON number -/

theorem trimmed_isDigit {ds : List UInt8} (h : ds.all isDigit = true) : (trimmed ds).all isDigit = true := by
  rw [List.all_eq_true] at h ⊢
  exact fun b hb => h b ((List.rdropWhile_prefix _ _).subset hb)

theorem unsignedNumber_parts {b : UInt8} {ds fs ex : List UInt8} (hb : isDigit b = true) (hds : ds.all isDigit = true)
    (hzero : b = 48 → ds = []) (hfs : fs.all isDigit = true) (hex : exponent ex = true)
    (hhead : ∀ c ∈ ex.head?, isDigit c = false ∧ c ≠ 46) :
    unsignedNumber (b :: ds ++ point fs ++ ex) = true := by
  have hfraction : fraction (point fs ++ ex) = true := by
    cases fs with
    | nil =>
      cases ex with
      | nil => rfl
      | cons c ex => simpa [point, fraction, (hhead c rfl).2] using hex
    | cons f fs =>
      have hdrop : ((f :: fs) ++ ex).dropWhile isDigit = ex ∧ ((f :: fs) ++ ex).takeWhile isDigit = f :: fs := by
        rw [List.all_eq_true] at hfs
        rw [List.dropWhile_append_of_pos hfs, List.takeWhile_append_of_pos hfs]
        cases ex with
        | nil => simp
        | cons c ex => simp [(hhead c rfl).1]
      show fraction (46 :: ((f :: fs) ++ ex)) = true
      rw [fraction, if_pos rfl, hdrop.1, hdrop.2, hex]
      rfl
  have hdrop : (ds ++ (point fs ++ ex)).dropWhile isDigit = point fs ++ ex := by
    rw [List.all_eq_true] at hds
    rw [List.dropWhile_append_of_pos hds]
    cases fs with
    | nil =>
      cases ex with
      | nil => rfl
      | cons c ex => simp [point, (hhead c rfl).1]
    | cons f fs =>
      show (46 :: ((f :: fs) ++ ex)).dropWhile isDigit = _
      rfl
  rw [List.cons_append, List.cons_append, List.append_assoc, unsignedNumber]
  split
  · rw [hzero ‹_›, List.nil_append, hfraction]
  · rw [hb, hdrop, hfraction]
    rfl

theorem lt_pow_digits (n : ℕ) : n < 10 ^ (digits n).length := by
  induction n using Nat.strong_induction_on with
  | _ n ih =>
    rw [digits_eq, List.length_append, List.length_singleton, pow_succ]
    split
    · simpa using ‹n < 10›
    · have := ih (n / 10) (by omega)
      omega

theorem padded_head {n k : ℕ} (hlow : 10 ^ k ≤ n) : (padded (k + 1) n).head? ≠ some 48 := by
  have hlen : k + 1 ≤ (digits n).length := by
    by_contra hshort
    have hlt : n < 10 ^ (digits n).length := lt_pow_digits n
    have hle : 10 ^ (digits n).length ≤ 10 ^ k := Nat.pow_le_pow_right (by decide) (by omega)
    omega
  have hpos : 0 < n := lt_of_lt_of_le (Nat.pos_of_ne_zero (pow_ne_zero _ (by decide))) hlow
  rw [padded, Nat.sub_eq_zero_of_le hlen]
  exact digits_head hpos

/-- Of digits, the first no zero when there is an exponent. -/
theorem unsignedNumber_plain {b : UInt8} {ds : List UInt8} (p : ℕ) {k : ℤ} (hb : isDigit b = true) (hds : ds.all isDigit = true)
    (hzero : b = 48 → k = 0 ∧ 0 < p) :
    unsignedNumber (plain p (b :: ds) k) = true ∧ ∃ c t, plain p (b :: ds) k = c :: t ∧ isDigit c = true := by
  have hsub : ∀ {l : List UInt8}, l.Sublist ds → l.all isDigit = true := fun h => by
    rw [List.all_eq_true] at hds ⊢
    exact fun c hc => hds c (h.subset hc)
  have hend : ∀ c ∈ ([] : List UInt8).head?, isDigit c = false ∧ c ≠ 46 := by simp
  unfold plain
  by_cases hfixed : 0 ≤ k ∧ k < p
  · rw [if_pos hfixed, List.take_succ_cons, List.drop_succ_cons]
    refine ⟨?_, b, _, rfl, hb⟩
    have hfirst : b = 48 → ds.take k.toNat = [] := fun h => by
      rw [(hzero h).1]
      rfl
    have hparts := unsignedNumber_parts hb (hsub (List.take_sublist k.toNat ds)) hfirst
      (trimmed_isDigit (hsub (List.drop_sublist k.toNat ds))) rfl hend
    rwa [List.append_nil] at hparts
  rw [if_neg hfixed]
  by_cases hsmall : -4 ≤ k ∧ k < 0
  · rw [if_pos hsmall]
    refine ⟨?_, 48, _, rfl, rfl⟩
    have hall : (List.replicate (-k - 1).toNat 48 ++ b :: ds).all isDigit = true := by
      rw [List.all_append, List.all_cons, hb, hds, List.all_eq_true.mpr]
      · rfl
      · intro c hc
        rw [List.eq_of_mem_replicate hc]
        rfl
    have hparts := unsignedNumber_parts (b := 48) rfl (rfl : List.all [] isDigit = true) (fun _ => rfl) (trimmed_isDigit hall) rfl hend
    rwa [List.append_nil] at hparts
  rw [if_neg hsmall]
  refine ⟨?_, b, _, rfl, hb⟩
  have hb0 : b ≠ 48 := fun h => by
    have := hzero h
    omega
  have hdigits := padded_isDigit 2 k.natAbs
  have hexponent : exponent (101 :: (if k < 0 then 45 else 43) :: padded 2 k.natAbs) = true := by
    have hne : (padded 2 k.natAbs).isEmpty = false := by
      unfold padded
      simp [digits_ne_nil]
    split_ifs <;> simp [exponent, hdigits, hne]
  exact unsignedNumber_parts hb (rfl : List.all [] isDigit = true) (fun h => absurd h hb0) (trimmed_isDigit hds) hexponent
    (by rintro c ⟨⟩; decide)

theorem padded_cons {p n : ℕ} (hp : 0 < p) (h : n < 10 ^ p) :
    ∃ b ds, padded p n = b :: ds ∧ isDigit b = true ∧ ds.all isDigit = true ∧ ds.length + 1 = p := by
  obtain ⟨k, rfl⟩ := Nat.exists_eq_succ_of_ne_zero hp.ne'
  have hlen := padded_length h
  have hall := padded_isDigit (k + 1) n
  cases hds : padded (k + 1) n with
  | nil => simp [hds] at hlen
  | cons b ds =>
    rw [hds, List.all_cons, Bool.and_eq_true] at hall
    rw [hds] at hlen
    exact ⟨b, ds, rfl, hall.1, hall.2, hlen⟩

def parts (p : ℕ) (m : ℚ) : ℕ × ℤ := if m = 0 then (0, 0) else significant p m

theorem g_finite (p : ℕ) (negative : Bool) (m : ℚ) :
    g p (.finite negative m) = minus negative ++ plain p (padded p (parts p m).1) (parts p m).2 := rfl

theorem parts_lt {p : ℕ} (hp : 0 < p) {m : ℚ} (hm : 0 ≤ m) : (parts p m).1 < 10 ^ p := by
  unfold parts
  split
  · exact Nat.pos_of_ne_zero (pow_ne_zero _ (by decide))
  · exact (significant_bounds hp (lt_of_le_of_ne hm (Ne.symm ‹_›))).2

theorem parts_zero {p : ℕ} (hp : 0 < p) {m : ℚ} (hm : 0 ≤ m) {ds : List UInt8}
    (h : padded p (parts p m).1 = 48 :: ds) : (parts p m).2 = 0 := by
  unfold parts at h ⊢
  split at h
  · rw [if_pos ‹_›]
  · obtain ⟨k, rfl⟩ := Nat.exists_eq_succ_of_ne_zero hp.ne'
    have hlow : 10 ^ k ≤ (significant (k + 1) m).1 := (significant_bounds hp (lt_of_le_of_ne hm (Ne.symm ‹_›))).1
    have hhead := padded_head hlow
    rw [show padded (k + 1) (significant (k + 1) m).1 = 48 :: ds from h] at hhead
    exact absurd rfl hhead

/-- A finite number is printed as a JSON number. -/
theorem isNumber_g {p : ℕ} (hp : 0 < p) (negative : Bool) {m : ℚ} (hm : 0 ≤ m) : isNumber (g p (.finite negative m)) = true := by
  obtain ⟨b, ds, hcons, hb, hds, -⟩ := padded_cons hp (parts_lt hp hm)
  have hzero : b = 48 → (parts p m).2 = 0 ∧ 0 < p := fun h => ⟨parts_zero hp hm (h ▸ hcons), hp⟩
  obtain ⟨hnumber, c, t, hplain, hc⟩ := unsignedNumber_plain p hb hds hzero
  rw [g_finite, hcons, hplain]
  rw [hplain] at hnumber
  exact isNumber_minus negative hc hnumber

theorem notNumber_g (p : ℕ) {v : Value} (h : ∀ negative m, v ≠ .finite negative m) : isNumber (g p v) = false := by
  cases v with
  | finite negative m => exact absurd rfl (h negative m)
  | infinite negative => cases negative <;> rfl
  | nan => rfl

end FitsWebQL.Lib.PrintfG
