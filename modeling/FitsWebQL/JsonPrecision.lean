/-
  FitsWebQL.JsonPrecision — a number that is written with `%.16g` and read again with
  `strtod`. 16 digits are not enough for every `double`: it may come back changed, by one
  part in 10^15 at most. Whole numbers up to 2^53 come back as they are, and so does what
  was a `float`, once it is a `float` again.

  Proved:
    strtod_g         `strtod` reads the digits that `%g` printed, whichever way it printed them
    number_reread    what becomes of a `double`
-/

import FitsWebQL.CutOutFile
import FitsWebQL.JsonEncode

namespace FitsWebQL

open Lib.Binary Lib.JsonText Lib.JsonNumbers Lib.Printf Lib.PrintfG

/-! ## Digits -/

theorem digitsValue_append (ds es : Bytes) : digitsValue (ds ++ es) = digitsValue ds * 10 ^ es.length + digitsValue es := by
  have hstart : ∀ (es : Bytes) n, es.foldl (fun n d => 10 * n + (d.toNat - 48)) n = n * 10 ^ es.length + digitsValue es := by
    intro es
    induction es with
    | nil => intro n; simp [digitsValue]
    | cons e es ih =>
      intro n
      rw [digitsValue, List.foldl_cons, List.foldl_cons, ih, ih, List.length_cons, pow_succ]
      ring
  rw [digitsValue, List.foldl_append, hstart]
  rfl

theorem digitsValue_zeros (n : ℕ) : digitsValue (List.replicate n 48) = 0 := by
  induction n with
  | zero => rfl
  | succ n ih =>
    rw [List.replicate_succ', digitsValue_append, ih]
    rfl

theorem digitsValue_padded (width n : ℕ) : digitsValue (padded width n) = n := by
  rw [padded, digitsValue_append, digitsValue_zeros, digitsValue_digits, zero_mul, zero_add]

/-- The zeros at the end of a fraction do not count. -/
theorem trimmed_value (ws fs : Bytes) (e : ℤ) :
    (digitsValue (ws ++ trimmed fs) : ℚ) * 10 ^ (e - (trimmed fs).length) = digitsValue (ws ++ fs) * 10 ^ (e - fs.length) := by
  obtain ⟨n, hzeros⟩ : ∃ n, fs = trimmed fs ++ List.replicate n 48 := by
    have hsplit := List.rdropWhile_append_rtakeWhile (p := (· == (48 : UInt8))) (l := fs)
    refine ⟨_, hsplit.symm.trans (congrArg (trimmed fs ++ ·) (List.eq_replicate_of_mem fun b hb => ?_))⟩
    simpa using List.mem_rtakeWhile_imp hb
  generalize htrimmed : trimmed fs = ts at hzeros ⊢
  subst hzeros
  have hexp : e - (ts.length : ℤ) = n + (e - (ts ++ List.replicate n 48).length) := by
    rw [List.length_append, List.length_replicate]
    push_cast
    ring
  rw [hexp, zpow_add₀ (by norm_num), zpow_natCast, ← List.append_assoc ws ts, digitsValue_append (ws ++ ts), digitsValue_zeros,
    List.length_replicate]
  push_cast
  ring

/-! ## strtod -/

theorem sign_minus (negative : Bool) {b : UInt8} (hb : isDigit b = true) (s : Bytes) :
    sign ((minus negative ++ b :: s).dropWhile isspace) = (negative, b :: s) := by
  obtain ⟨hspace, hminus, hplus⟩ := isdigit_plain b (by rw [isdigit_eq]; exact hb)
  cases negative with
  | true => rfl
  | false =>
    show sign ((b :: s).dropWhile isspace) = _
    rw [List.dropWhile_cons_of_neg (by simp [hspace]), sign]
    · exact fun t he => hminus (List.cons.inj he).1
    · exact fun t he => hplus (List.cons.inj he).1

theorem strtod_parts (negative : Bool) {b : UInt8} {ws fs ex : Bytes} (hb : isDigit b = true) (hws : ws.all isDigit = true)
    (hfs : fs.all isDigit = true) (hex : ∀ c ∈ ex.head?, isDigit c = false ∧ c ≠ 46) :
    strtod (minus negative ++ (b :: ws ++ point fs ++ ex)) =
      (negative, (digitsValue (b :: ws ++ fs) : ℚ) * 10 ^ (exponentPart ex - fs.length)) := by
  have hall : (b :: ws).all isDigit = true := by rw [List.all_cons, hb, hws, Bool.and_self]
  have hend : ∀ c ∈ (point fs ++ ex).head?, isDigit c = false := by
    intro c hc
    cases fs with
    | nil => exact (hex c hc).1
    | cons f fs =>
      cases hc
      rfl
  obtain ⟨htake, hdrop⟩ := takeWhile_append_of_head hend (b :: ws)
  obtain ⟨hself, hnil⟩ := takeWhile_all hall
  have hbehind : pointDigits (point fs ++ ex) = fs ∧ behindPoint (point fs ++ ex) = ex := by
    cases fs with
    | nil =>
      cases ex with
      | nil => exact ⟨rfl, rfl⟩
      | cons c ex =>
        have hc : c ≠ 46 := (hex c rfl).2
        simp [point, pointDigits, behindPoint, hc]
    | cons f fs =>
      obtain ⟨htake', hdrop'⟩ := takeWhile_append_of_head (fun c hc => (hex c hc).1) (f :: fs)
      obtain ⟨hself', hnil'⟩ := takeWhile_all hfs
      show ((f :: fs) ++ ex).takeWhile isdigit = f :: fs ∧ ((f :: fs) ++ ex).dropWhile isdigit = ex
      rw [isdigit_eq, htake', hdrop', hself', hnil']
      exact ⟨rfl, rfl⟩
  rw [strtod_eq]
  dsimp only
  rw [List.append_assoc, List.cons_append, sign_minus negative hb, isdigit_eq]
  dsimp only
  rw [← List.cons_append, htake, hdrop, hself, hnil, List.nil_append, hbehind.1, hbehind.2, if_neg (by simp)]

theorem exponentPart_written {k : ℤ} : exponentPart (101 :: (if k < 0 then 45 else 43) :: padded 2 k.natAbs) = k := by
  have hdigits : (padded 2 k.natAbs).takeWhile isdigit = padded 2 k.natAbs := by
    rw [isdigit_eq]
    exact (takeWhile_all (padded_isDigit 2 k.natAbs)).1
  by_cases hk : k < 0
  · rw [if_pos hk]
    show (-(digitsValue ((padded 2 k.natAbs).takeWhile isdigit) : ℤ)) = k
    rw [hdigits, digitsValue_padded]
    omega
  · rw [if_neg hk]
    show ((digitsValue ((padded 2 k.natAbs).takeWhile isdigit) : ℤ)) = k
    rw [hdigits, digitsValue_padded]
    omega

/-- Digits printed in any of the three ways. -/
theorem strtod_plain (negative : Bool) {p : ℕ} {b : UInt8} {ds : Bytes} {k : ℤ} (hb : isDigit b = true) (hds : ds.all isDigit = true)
    (hlen : ds.length + 1 = p) :
    strtod (minus negative ++ plain p (b :: ds) k) = (negative, (digitsValue (b :: ds) : ℚ) * 10 ^ (k - (p - 1 : ℤ))) := by
  have hsub : ∀ {l : Bytes}, l.Sublist ds → l.all isDigit = true := fun h => by
    rw [List.all_eq_true] at hds ⊢
    exact fun c hc => hds c (h.subset hc)
  have hend : ∀ c ∈ ([] : Bytes).head?, isDigit c = false ∧ c ≠ 46 := by simp
  unfold plain
  by_cases hfixed : 0 ≤ k ∧ k < p
  · have hparts := strtod_parts negative hb (hsub (List.take_sublist k.toNat ds))
      (trimmed_isDigit (hsub (List.drop_sublist k.toNat ds))) hend
    rw [List.append_nil] at hparts
    rw [if_pos hfixed, List.take_succ_cons, List.drop_succ_cons, hparts, trimmed_value, List.cons_append, List.take_append_drop,
      List.length_drop]
    congr 3
    show (0 : ℤ) - _ = _
    omega
  rw [if_neg hfixed]
  by_cases hsmall : -4 ≤ k ∧ k < 0
  · have hall : (List.replicate (-k - 1).toNat 48 ++ b :: ds).all isDigit = true := by
      rw [List.all_append, List.all_cons, hb, hds, List.all_eq_true.mpr]
      · rfl
      · intro c hc
        rw [List.eq_of_mem_replicate hc]
        rfl
    have hparts := strtod_parts negative (b := 48) rfl (rfl : List.all [] isDigit = true) (trimmed_isDigit hall) hend
    rw [List.append_nil] at hparts
    have hzero : digitsValue ([48] ++ (List.replicate (-k - 1).toNat 48 ++ b :: ds)) = digitsValue (b :: ds) := by
      rw [← List.append_assoc, digitsValue_append, digitsValue_append [48], digitsValue_zeros]
      simp [digitsValue]
    rw [if_pos hsmall]
    refine hparts.trans ?_
    rw [trimmed_value, hzero, List.length_append, List.length_replicate, List.length_cons]
    congr 3
    show (0 : ℤ) - _ = _
    omega
  rw [if_neg hsmall]
  have hexponent : ∀ c ∈ (101 :: (if k < 0 then 45 else 43) :: padded 2 k.natAbs : Bytes).head?, isDigit c = false ∧ c ≠ 46 := by
    rintro c ⟨⟩
    decide
  have hparts := strtod_parts negative hb (rfl : List.all [] isDigit = true) (trimmed_isDigit hds) hexponent
  refine hparts.trans ?_
  rw [exponentPart_written, trimmed_value]
  congr 3
  omega

/-- `strtod` reads what was printed. -/
theorem strtod_g {p : ℕ} (hp : 0 < p) (negative : Bool) {m : ℚ} (hm : 0 ≤ m) :
    strtod (g p (.finite negative m)) = (negative, if m = 0 then 0 else rounded p m) := by
  obtain ⟨b, ds, hcons, hb, hds, hlen⟩ := padded_cons hp (parts_lt hp hm)
  have hvalue := digitsValue_padded p (parts p m).1
  rw [g_finite, hcons, strtod_plain negative hb hds hlen, ← hcons, hvalue]
  unfold parts rounded
  split <;> simp

/-! ## A number that is written and read -/

theorem zpow_log_div {m : ℚ} (hm : 0 < m) : (10 : ℚ) ^ (Int.log 10 m - 15) ≤ m / 10 ^ 15 := by
  have hlow : (10 : ℚ) ^ Int.log 10 m ≤ m := by exact_mod_cast Int.zpow_log_le_self (b := 10) (by decide) hm
  rw [zpow_sub₀ (by norm_num)]
  exact div_le_div_of_nonneg_right hlow (by norm_num)

theorem rounded_sixteen {m : ℚ} (hm : 0 < m) : |rounded 16 m - m| ≤ m / 10 ^ 15 / 2 := by
  have hnear := rounded_near (p := 16) (by decide) hm
  rw [show Int.log 10 m - (((16 : ℕ) : ℤ) - 1) = Int.log 10 m - 15 from by norm_num] at hnear
  linarith [zpow_log_div hm]

theorem room {m r u top : ℚ} (hr : r - m ≤ m / 10 ^ 15 / 2) (hlt : m + m / 10 ^ 15 ≤ top) (hbig : 2 ^ 60 ≤ top) (hu : u ≤ 1) :
    r + r / 2 ^ 53 < top ∧ r + u < top := by
  refine ⟨by linarith, ?_⟩
  rcases le_total r (top / 2) with hhalf | hhalf <;> linarith

/-- A `double` comes back within one part in 10^15, unless that is too large. -/
theorem round_rounded {m : ℚ} (hm : 0 < m) (hdouble : binary64.round m = some m) (hlt : m + m / 10 ^ 15 ≤ 2 ^ 1024) :
    ∃ m', binary64.round (rounded 16 m) = some m' ∧ |m' - m| ≤ m / 10 ^ 15 := by
  have hnear := rounded_sixteen hm
  obtain ⟨hlow, hhigh⟩ := abs_le.mp hnear
  have hpos : 0 < rounded 16 m := by linarith
  have htop : (2 : ℚ) ^ binary64.emax = 2 ^ 1024 := zpow_natCast 2 1024
  have hbig : (2 : ℚ) ^ 60 ≤ 2 ^ binary64.emax := by
    rw [htop]
    exact pow_le_pow_right₀ one_le_two (by decide)
  have htop' : m + m / 10 ^ 15 ≤ 2 ^ binary64.emax := by
    rw [htop]
    exact hlt
  obtain ⟨hbits, hsmall⟩ := room hhigh htop' hbig (zpow_le_one_of_nonpos₀ one_le_two (by decide : binary64.emin ≤ 0))
  obtain ⟨m', hm'⟩ := round_isSome (f := binary64) hpos hbits hsmall
  refine ⟨m', hm', ?_⟩
  have hclosest := round_closest (by decide) hpos hdouble hm.le hm'
  rw [abs_sub_comm m] at hclosest
  calc |m' - m| ≤ |m' - rounded 16 m| + |rounded 16 m - m| := abs_sub_le _ _ _
    _ ≤ m / 10 ^ 15 := by linarith

/-- What becomes of a `double` that is written as JSON and read again. -/
theorem number_reread {n : Double} {negative : Bool} {m : ℚ} (h : n.value = .finite negative m) (hlt : m + m / 10 ^ 15 ≤ 2 ^ 1024) :
    ∃ (n' : Double) (m' : ℚ), reread (.number n) = .number n' ∧ n'.value = .finite negative m' ∧ |m' - m| ≤ m / 10 ^ 15 ∧
      (∀ k : ℕ, m = k → k ≤ 2 ^ 53 → m' = m) ∧ (binary32.round m = some m → binary32.round m' = some m) := by
  have hm0 := magnitude_nonneg n h
  have hdouble : binary64.round m = some m := by
    have hvalue := n.of_format
    rw [h] at hvalue
    change binary64.value negative m = _ at hvalue
    unfold Format.value at hvalue
    split at hvalue
    · cases hvalue
      assumption
    · cases hvalue
  have hread : ∀ {m' : ℚ}, (if m = 0 then 0 else rounded 16 m) = m' → ∀ {r}, binary64.round m' = some r →
      reread (.number n) = .number (Double.of (.finite negative r)) ∧ (Double.of (.finite negative r)).value = .finite negative r := by
    intro m' hm' r hr
    have hvalue : doubleValue (g 16 n.value) = .finite negative r := by
      rw [h, doubleValue, strtod_g (by decide) negative hm0, hm']
      dsimp only
      rw [Format.value, hr]
    refine ⟨?_, ?_⟩
    · rw [reread, hvalue, h]
      rfl
    · show binary64.value negative r = _
      rw [Format.value, round_round (by decide) hr]
  rcases hm0.eq_or_lt with h0 | hpos
  · -- zero, with its sign
    subst h0
    obtain ⟨hreread, hvalue⟩ := hread (if_pos rfl) hdouble
    exact ⟨_, 0, hreread, hvalue, by simp, fun _ _ _ => rfl, id⟩
  obtain ⟨m', hm', herror⟩ := round_rounded hpos hdouble hlt
  obtain ⟨hreread, hvalue⟩ := hread (if_neg hpos.ne') hm'
  refine ⟨_, m', hreread, hvalue, herror, fun k hk hle => ?_, fun hsingle => ?_⟩
  · -- no digit is lost of a whole number
    have hexact : rounded 16 m = m := rounded_natCast (by decide) hpos hk (by omega)
    rw [hexact, hdouble] at hm'
    exact (Option.some.inj hm').symm
  · apply round_near hpos hsingle
    refine herror.trans_lt ?_
    have hbinade : m < (2 : ℚ) ^ (Int.log 2 m + 1) := by exact_mod_cast Int.lt_zpow_succ_log_self (b := 2) (by decide) m
    have hunit : (2 : ℚ) ^ (Int.log 2 m + 1 - 24) ≤ 2 ^ binary32.lastBit m := by
      apply zpow_le_zpow_right₀ one_le_two
      have hlast : Int.log 2 m - (((24 : ℕ) : ℤ) - 1) ≤ binary32.lastBit m := le_max_left _ _
      omega
    have hsplit : (2 : ℚ) ^ (Int.log 2 m + 1 - 24) = 2 ^ (Int.log 2 m + 1) / 2 ^ 24 := by
      rw [zpow_sub₀ two_ne_zero]
      rfl
    linarith

theorem number_reread_third : ∃ (n' : Double) (m' : ℚ), reread (.number (double (1 / 3))) = .number n' ∧ n'.value = .finite false m' ∧
    |m' - 6004799503160661 / 2 ^ 54| ≤ 6004799503160661 / 2 ^ 54 / 10 ^ 15 ∧
      (∀ k : ℕ, (6004799503160661 / 2 ^ 54 : ℚ) = k → k ≤ 2 ^ 53 → m' = 6004799503160661 / 2 ^ 54) ∧
        (binary32.round (6004799503160661 / 2 ^ 54) = some (6004799503160661 / 2 ^ 54) →
          binary32.round m' = some (6004799503160661 / 2 ^ 54)) :=
  number_reread (by decide +kernel) (le_trans (by norm_num) (one_le_pow₀ one_le_two))

end FitsWebQL
