/-
  FitsWebQL.JsonString — a string as JSON (`json_encode_string`, `emit_string` and the
  UTF-8 helpers of `json.c`). A C string is its bytes before the NUL. The string is
  asserted to be UTF-8; a control character is written as `\uXXXX`, but the comparison is
  `c < 0x1F`, so U+001F goes through as it is, which JSON does not allow.
-/

import FitsWebQL.Header
import FitsWebQL.Lib.JsonText

namespace FitsWebQL

open Lib.JsonText

/-- A C string: what stands before the NUL. -/
def cString (s : Bytes) : Bytes := s.takeWhile (· ≠ 0)

/-! ## UTF-8 -/

/-- `(c & 0xC0) == 0x80`: a byte inside a character. -/
def isTail (c : UInt8) : Bool := c &&& 0xC0 == 0x80

/-- The length of the character `s` begins with, 0 when it is none. -/
def utf8_validate_cz (s : Bytes) : ℕ :=
  let c := s.getD 0 0
  let s1 := s.getD 1 0
  let s2 := s.getD 2 0
  let s3 := s.getD 3 0
  if c ≤ 0x7F then 1
  else if c ≤ 0xC1 then 0
  else if c ≤ 0xDF then
    if !isTail s1 then 0 else 2
  else if c ≤ 0xEF then
    if c = 0xE0 ∧ s1 < 0xA0 then 0
    else if c = 0xED ∧ s1 > 0x9F then 0
    else if !isTail s1 then 0
    else if !isTail s2 then 0
    else 3
  else if c ≤ 0xF4 then
    if c = 0xF0 ∧ s1 < 0x90 then 0
    else if c = 0xF4 ∧ s1 > 0x8F then 0
    else if !isTail s1 then 0
    else if !isTail s2 then 0
    else if !isTail s3 then 0
    else 4
  else 0

def utf8_validate : Bytes → Bool
  | [] => true
  | c :: rest =>
    if utf8_validate_cz (c :: rest) = 0 then false
    else utf8_validate ((c :: rest).drop (utf8_validate_cz (c :: rest)))
termination_by s => s.length
decreasing_by
  simp only [List.length_drop, List.length_cons]
  omega

theorem isTail_eq (c : UInt8) : isTail c = decide (0x80 ≤ c ∧ c ≤ 0xBF) := by
  have hall : ∀ n : Fin 256, isTail (UInt8.ofNat n) = decide (128 ≤ n.val ∧ n.val ≤ 191) := by decide +kernel
  have hc := hall ⟨c.toNat, c.toNat_lt⟩
  rw [UInt8.ofNat_toNat] at hc
  simp only [hc, UInt8.le_iff_toNat_le, UInt8.reduceToNat]

/-- Tails at the front of `s`, the first of them from `low` to `high`. -/
def tails : ℕ → UInt8 → UInt8 → Bytes → Bool
  | 0, _, _, _ => true
  | _ + 1, _, _, [] => false
  | n + 1, low, high, b :: rest => decide (low ≤ b ∧ b ≤ high) && tails n 0x80 0xBF rest

theorem octets_eq (n : ℕ) (low high : UInt8) (s : Bytes) : octets n low high s = (tails n low high s && isUtf8 (s.drop n)) := by
  induction n generalizing low high s with
  | zero =>
    cases s <;> simp [tails, isUtf8, octets]
  | succ n ih =>
    cases s with
    | nil => simp [octets, tails]
    | cons b s => simp [octets, tails, ih, Bool.and_assoc]

/-- A byte that is missing is the NUL, and no tail. -/
theorem tails_getD (n : ℕ) {low : UInt8} (hlow : 0 < low) (high : UInt8) (s : Bytes) :
    tails (n + 1) low high s = (decide (low ≤ s.getD 0 0 ∧ s.getD 0 0 ≤ high) && tails n 0x80 0xBF (s.drop 1)) := by
  cases s with
  | nil => simp [tails, UInt8.not_le.mpr hlow]
  | cons b s => simp [tails]

theorem tails_one {low : UInt8} (hlow : 0 < low) (high : UInt8) (s : Bytes) :
    tails 1 low high s = decide (low ≤ s.getD 0 0 ∧ s.getD 0 0 ≤ high) := by
  simp [tails_getD 0 hlow, tails]

theorem tails_two {low : UInt8} (hlow : 0 < low) (high : UInt8) (s : Bytes) :
    tails 2 low high s = (decide (low ≤ s.getD 0 0 ∧ s.getD 0 0 ≤ high) && isTail (s.getD 1 0)) := by
  rw [tails_getD 1 hlow, tails_one (by decide)]
  simp [List.getD_eq_getElem?_getD, isTail_eq]

theorem tails_three {low : UInt8} (hlow : 0 < low) (high : UInt8) (s : Bytes) :
    tails 3 low high s =
      (decide (low ≤ s.getD 0 0 ∧ s.getD 0 0 ≤ high) && (isTail (s.getD 1 0) && isTail (s.getD 2 0))) := by
  rw [tails_getD 2 hlow, tails_two (by decide)]
  simp [List.getD_eq_getElem?_getD, isTail_eq]

theorem tails_spec {n : ℕ} {low high : UInt8} {s : Bytes} (hlow : 0x80 ≤ low) (h : tails n low high s = true) :
    ∀ b ∈ s.take n, 0x80 ≤ b := by
  induction n generalizing low high s with
  | zero => simp
  | succ n ih =>
    cases s with
    | nil => simp
    | cons b s =>
      simp only [tails, Bool.and_eq_true, decide_eq_true_eq] at h
      rw [List.take_succ_cons, List.forall_mem_cons]
      exact ⟨UInt8.le_trans hlow h.1.1, ih (by decide) h.2⟩

/-- The tails that the first byte asks for are the ones that `utf8_validate_cz` checks. -/
theorem validate_cz_eq (c : UInt8) (s : Bytes) :
    (utf8_validate_cz (c :: s) = 0 ∧ isUtf8 (c :: s) = false) ∨
      ∃ n low high, 0x80 ≤ low ∧ utf8_validate_cz (c :: s) = (if tails n low high s then n + 1 else 0) ∧
        isUtf8 (c :: s) = octets n low high s ∧ (c ≤ 0x7F → n = 0) := by
  have hfirst : isTail (s.getD 0 0) = decide (0x80 ≤ s.getD 0 0 ∧ s.getD 0 0 ≤ 0xBF) := isTail_eq _
  by_cases h7F : c ≤ 0x7F
  · right
    exact ⟨0, 0x80, 0xBF, by decide, by simp [utf8_validate_cz, tails, h7F], by simp [isUtf8, octets, h7F], fun _ => rfl⟩
  by_cases hC1 : c ≤ 0xC1
  · left
    have hC2 : c < 0xC2 := by grind
    exact ⟨by simp [utf8_validate_cz, h7F, hC1], by simp [isUtf8, octets, h7F, hC2]⟩
  have hC2 : ¬ c < 0xC2 := by grind
  by_cases hDF : c ≤ 0xDF
  · right
    refine ⟨1, 0x80, 0xBF, by decide, ?_, by simp [isUtf8, octets, h7F, hC2, hDF], fun h => absurd h h7F⟩
    rw [tails_one (by decide)]
    simp only [utf8_validate_cz, List.getD_cons_zero, List.getD_cons_succ, h7F, hC1, hDF]
    grind
  by_cases hEF : c ≤ 0xEF
  · right
    by_cases hE0 : c = 0xE0
    · refine ⟨2, 0xA0, 0xBF, by decide, ?_, by simp [isUtf8, octets, hE0], fun h => absurd h h7F⟩
      rw [tails_two (by decide)]
      simp only [utf8_validate_cz, List.getD_cons_zero, List.getD_cons_succ, h7F, hC1, hDF, hEF]
      grind
    by_cases hED : c = 0xED
    · refine ⟨2, 0x80, 0x9F, by decide, ?_, by simp [isUtf8, octets, hED], fun h => absurd h h7F⟩
      rw [tails_two (by decide)]
      simp only [utf8_validate_cz, List.getD_cons_zero, List.getD_cons_succ, h7F, hC1, hDF, hEF]
      grind
    refine ⟨2, 0x80, 0xBF, by decide, ?_, by simp [isUtf8, octets, h7F, hC2, hDF, hE0, hED, hEF], fun h => absurd h h7F⟩
    rw [tails_two (by decide)]
    simp only [utf8_validate_cz, List.getD_cons_zero, List.getD_cons_succ, h7F, hC1, hDF, hEF]
    grind
  by_cases hF4 : c ≤ 0xF4
  · right
    have hE0 : c ≠ 0xE0 := by grind
    have hED : c ≠ 0xED := by grind
    by_cases hF0 : c = 0xF0
    · refine ⟨3, 0x90, 0xBF, by decide, ?_, by simp [isUtf8, octets, hF0], fun h => absurd h h7F⟩
      rw [tails_three (by decide)]
      simp only [utf8_validate_cz, List.getD_cons_zero, List.getD_cons_succ, h7F, hC1, hDF, hEF, hF4]
      grind
    by_cases hlast : c = 0xF4
    · refine ⟨3, 0x80, 0x8F, by decide, ?_, by simp [isUtf8, octets, hlast], fun h => absurd h h7F⟩
      rw [tails_three (by decide)]
      simp only [utf8_validate_cz, List.getD_cons_zero, List.getD_cons_succ, h7F, hC1, hDF, hEF, hF4]
      grind
    have hF3 : c ≤ 0xF3 := by grind
    refine ⟨3, 0x80, 0xBF, by decide, ?_, by simp [isUtf8, octets, h7F, hC2, hDF, hE0, hED, hEF, hF0, hF3], fun h => absurd h h7F⟩
    rw [tails_three (by decide)]
    simp only [utf8_validate_cz, List.getD_cons_zero, List.getD_cons_succ, h7F, hC1, hDF, hEF, hF4]
    grind
  · left
    have hE0 : c ≠ 0xE0 := by grind
    have hED : c ≠ 0xED := by grind
    have hF0 : c ≠ 0xF0 := by grind
    have hF3 : ¬ c ≤ 0xF3 := by grind
    have hlast : c ≠ 0xF4 := by grind
    exact ⟨by simp [utf8_validate_cz, h7F, hC1, hDF, hEF, hF4], by simp [isUtf8, octets, h7F, hC2, hDF, hE0, hED, hEF, hF0, hF3, hlast]⟩

/-- No character is found, and the text is not UTF-8; or one of `n + 1` bytes, and what is
    behind it decides. -/
theorem validate_cz_cases (c : UInt8) (s : Bytes) :
    (utf8_validate_cz (c :: s) = 0 ∧ isUtf8 (c :: s) = false) ∨
      ∃ n, utf8_validate_cz (c :: s) = n + 1 ∧ isUtf8 (c :: s) = isUtf8 (s.drop n) ∧ (∀ b ∈ s.take n, 0x80 ≤ b) ∧ (c ≤ 0x7F → n = 0) := by
  rcases validate_cz_eq c s with hnone | ⟨n, low, high, hlow, hcz, hoctets, hascii⟩
  · exact .inl hnone
  rw [octets_eq] at hoctets
  by_cases htails : tails n low high s = true
  · right
    rw [if_pos htails] at hcz
    rw [htails, Bool.true_and] at hoctets
    exact ⟨n, hcz, hoctets, tails_spec hlow htails, hascii⟩
  · left
    rw [if_neg htails] at hcz
    rw [Bool.not_eq_true] at htails
    rw [htails, Bool.false_and] at hoctets
    exact ⟨hcz, hoctets⟩

theorem utf8_validate_eq (s : Bytes) : utf8_validate s = isUtf8 s := by
  induction hlen : s.length using Nat.strong_induction_on generalizing s with
  | _ len ih =>
    cases s with
    | nil => rw [utf8_validate]; rfl
    | cons c s =>
      rw [utf8_validate]
      rcases validate_cz_cases c s with ⟨hcz, hutf8⟩ | ⟨n, hcz, hutf8, -, -⟩
      · rw [if_pos hcz, hutf8]
      · rw [if_neg (by omega), hcz, List.drop_succ_cons, hutf8]
        exact ih _ (by rw [← hlen, List.length_drop, List.length_cons]; omega) _ rfl

/-! ## Writing -/

def hexChar (n : ℕ) : UInt8 := (lit "0123456789ABCDEF").getD n 0

def write_hex16 (val : ℕ) : Bytes :=
  [hexChar (val / 4096 % 16), hexChar (val / 256 % 16), hexChar (val / 16 % 16), hexChar (val % 16)]

/-- The loop of `emit_string`, with `escape_unicode` false. -/
def emitChars : Bytes → Bytes
  | [] => []
  | c :: rest =>
    if c = 34 then 92 :: 34 :: emitChars rest
    else if c = 92 then 92 :: 92 :: emitChars rest
    else if c = 8 then 92 :: 98 :: emitChars rest
    else if c = 12 then 92 :: 102 :: emitChars rest
    else if c = 10 then 92 :: 110 :: emitChars rest
    else if c = 13 then 92 :: 114 :: emitChars rest
    else if c = 9 then 92 :: 116 :: emitChars rest
    else if utf8_validate_cz (c :: rest) = 0 then 0xEF :: 0xBF :: 0xBD :: emitChars rest
    else if c < 0x1F then 92 :: 117 :: (write_hex16 c.toNat ++ emitChars rest)
    else (c :: rest).take (utf8_validate_cz (c :: rest)) ++ emitChars ((c :: rest).drop (utf8_validate_cz (c :: rest)))
termination_by s => s.length
decreasing_by
  all_goals simp only [List.length_drop, List.length_cons]
  all_goals omega

/-- `none` is `assert(utf8_validate(str))`. -/
def json_encode_string (str : Bytes) : Option Bytes := if utf8_validate str then some (34 :: (emitChars str ++ [34])) else none

theorem hexDigit_hexChar : ∀ n < 16, hexDigit? (hexChar n) = some n := by decide +kernel

theorem hexDigit_mod (n : ℕ) : hexDigit? (hexChar (n % 16)) = some (n % 16) := hexDigit_hexChar _ (Nat.mod_lt n (by decide))

theorem write_hex16_digits (n : ℕ) : ∀ b ∈ write_hex16 n, hexDigit? b ≠ none := by
  intro b hb
  simp only [write_hex16, List.mem_cons, List.not_mem_nil, or_false] at hb
  rcases hb with rfl | rfl | rfl | rfl <;> rw [hexDigit_mod] <;> exact Option.some_ne_none _

theorem codeUnit_write_hex16 {n : ℕ} (h : n < 2 ^ 16) : codeUnit (write_hex16 n) = n := by
  simp only [codeUnit, write_hex16, List.foldl_cons, List.foldl_nil, hexDigit_mod, Option.getD_some]
  omega

theorem encodePoint_ascii {n : ℕ} (h : n < 128) : encodePoint n = [UInt8.ofNat n] := by
  have hval : (Char.ofNat n).val.toNat = n := by
    rw [Char.ofNat, dif_pos (Or.inl (by omega))]
    rfl
  unfold encodePoint String.utf8EncodeChar
  rw [hval]
  simp
  omega

theorem reads_control {c : UInt8} (h : c < 0x1F) (out : Bytes) :
    Reads (.text out) (92 :: 117 :: write_hex16 c.toNat) [] (.text (out ++ [c])) := by
  have hlow : c.toNat < 31 := UInt8.lt_iff_toNat_lt.mp h
  have hunit : codeUnit (write_hex16 c.toNat) = c.toNat := codeUnit_write_hex16 (by omega)
  have hread := reads_unicode rfl (write_hex16_digits c.toNat) (by omega) out
  rwa [hunit, encodePoint_ascii (by omega), UInt8.ofNat_toNat] at hread

/-- What the loop does at a character: a letter stands for it, it is no UTF-8, it is written
    in hexadecimal, or it goes through as it is. -/
theorem emitChars_cases (c : UInt8) (s : Bytes) :
    (∃ e, escaped e = some c ∧ e ≠ 117 ∧ e ≠ 0 ∧ (c ≤ 0x7F ∧ c ≠ 0x1F) ∧ emitChars (c :: s) = 92 :: e :: emitChars s) ∨
    utf8_validate_cz (c :: s) = 0 ∨
    (c < 0x1F ∧ emitChars (c :: s) = 92 :: 117 :: (write_hex16 c.toNat ++ emitChars s)) ∨
    ((¬ c < 0x1F ∧ c ≠ 34 ∧ c ≠ 92) ∧
      emitChars (c :: s) = (c :: s).take (utf8_validate_cz (c :: s)) ++ emitChars ((c :: s).drop (utf8_validate_cz (c :: s)))) := by
  rw [emitChars]
  by_cases hquote : c = 34
  · exact .inl ⟨34, by rw [hquote]; rfl, by decide, by decide, by rw [hquote]; decide, if_pos hquote⟩
  rw [if_neg hquote]
  by_cases hslash : c = 92
  · exact .inl ⟨92, by rw [hslash]; rfl, by decide, by decide, by rw [hslash]; decide, if_pos hslash⟩
  rw [if_neg hslash]
  by_cases hb : c = 8
  · exact .inl ⟨98, by rw [hb]; rfl, by decide, by decide, by rw [hb]; decide, if_pos hb⟩
  rw [if_neg hb]
  by_cases hf : c = 12
  · exact .inl ⟨102, by rw [hf]; rfl, by decide, by decide, by rw [hf]; decide, if_pos hf⟩
  rw [if_neg hf]
  by_cases hn : c = 10
  · exact .inl ⟨110, by rw [hn]; rfl, by decide, by decide, by rw [hn]; decide, if_pos hn⟩
  rw [if_neg hn]
  by_cases hr : c = 13
  · exact .inl ⟨114, by rw [hr]; rfl, by decide, by decide, by rw [hr]; decide, if_pos hr⟩
  rw [if_neg hr]
  by_cases ht : c = 9
  · exact .inl ⟨116, by rw [ht]; rfl, by decide, by decide, by rw [ht]; decide, if_pos ht⟩
  rw [if_neg ht]
  by_cases h0 : utf8_validate_cz (c :: s) = 0
  · exact .inr (.inl h0)
  rw [if_neg h0]
  by_cases hcontrol : c < 0x1F
  · exact .inr (.inr (.inl ⟨hcontrol, if_pos hcontrol⟩))
  · exact .inr (.inr (.inr ⟨⟨hcontrol, hquote, hslash⟩, if_neg hcontrol⟩))

/-- A step of the loop of `emit_string`: the character's bytes, unless it is U+001F. -/
theorem emitChars_step {c : UInt8} {s : Bytes} (hutf8 : isUtf8 (c :: s) = true) :
    ∃ n text, isUtf8 (s.drop n) = true ∧ emitChars (c :: s) = text ++ emitChars (s.drop n) ∧ (0 ∉ c :: s → 0 ∉ text) ∧
      (c = 0x1F ∧ text = [0x1F] ∨ 0x1F ∉ c :: s.take n ∧ ∀ out, Reads (.text out) text [] (.text (out ++ c :: s.take n))) := by
  rcases validate_cz_cases c s with ⟨-, hnone⟩ | ⟨n, hcz, hnext, htails, hascii⟩
  · rw [hnone] at hutf8
    cases hutf8
  rw [hutf8] at hnext
  rcases emitChars_cases c s with ⟨e, he, hu, h0, ⟨hc, hunit⟩, htext⟩ | hzero | ⟨hcontrol, htext⟩ | ⟨⟨hlow, hquote, hslash⟩, htext⟩
  · obtain rfl := hascii hc
    refine ⟨0, [92, e], hnext.symm, htext, fun _ => by simp [h0.symm], .inr ⟨by simp [hunit.symm], fun out => ?_⟩⟩
    exact reads_escape he hu out
  · omega
  · obtain rfl := hascii (UInt8.le_trans (UInt8.le_of_lt hcontrol) (by decide))
    refine ⟨0, 92 :: 117 :: write_hex16 c.toNat, hnext.symm, htext, fun _ => ?_, .inr ⟨?_, reads_control hcontrol⟩⟩
    · have hhex : 0 ∉ write_hex16 c.toNat := fun hmem => write_hex16_digits c.toNat 0 hmem rfl
      simp [hhex]
    · rw [List.take_zero, List.mem_singleton]
      exact fun h => UInt8.lt_irrefl c (h ▸ hcontrol)
  · -- the character goes through as it is
    rw [hcz, List.take_succ_cons, List.drop_succ_cons] at htext
    refine ⟨n, c :: s.take n, hnext.symm, htext, fun hnul hmem => hnul ((List.take_sublist (n + 1) (c :: s)).subset hmem), ?_⟩
    by_cases hunit : c = 0x1F
    · obtain rfl := hascii (by rw [hunit]; decide)
      exact .inl ⟨hunit, by rw [hunit]; rfl⟩
    right
    have hmany : ∀ b ∈ s.take n, (0x20 : UInt8) ≤ b ∧ b ≠ 34 ∧ b ≠ 92 := fun b hb => by
      have := htails b hb
      exact ⟨by grind, by grind, by grind⟩
    have hplain : (c :: s.take n).all isPlain = true := by
      simp only [List.all_cons, Bool.and_eq_true, List.all_eq_true, isPlain, bne_iff_ne, decide_eq_true_eq]
      exact ⟨⟨⟨hquote, hslash⟩, by grind⟩, fun b hb => ⟨⟨(hmany b hb).2.1, (hmany b hb).2.2⟩, (hmany b hb).1⟩⟩
    refine ⟨?_, reads_text hplain⟩
    rw [List.mem_cons, not_or]
    exact ⟨fun h => hunit h.symm, fun hmem => absurd (hmany _ hmem).1 (by decide)⟩

theorem reads_emit {s : Bytes} (hutf8 : isUtf8 s = true) (hunit : 0x1F ∉ s) (out : Bytes) :
    Reads (.text out) (emitChars s) [] (.text (out ++ s)) := by
  induction hlen : s.length using Nat.strong_induction_on generalizing s out with
  | _ len ih =>
    cases s with
    | nil =>
      rw [emitChars, List.append_nil]
      rfl
    | cons c s =>
      obtain ⟨n, text, hnext, htext, -, ⟨rfl, -⟩ | ⟨-, hreads⟩⟩ := emitChars_step hutf8
      · exact absurd List.mem_cons_self hunit
      have hlt : (s.drop n).length < len := by
        rw [← hlen, List.length_drop, List.length_cons]
        omega
      have hunit' : 0x1F ∉ s.drop n := fun hmem => hunit (List.mem_cons_of_mem _ (List.mem_of_mem_drop hmem))
      have hrest := (hreads out).append (ih _ hlt hnext hunit' (out ++ c :: s.take n) rfl)
      rw [htext]
      rwa [List.append_assoc, List.cons_append, List.take_append_drop] at hrest

/-- What is written for a string is read as the string; U+001F apart. -/
theorem writes_encoded {str text : Bytes} (h : json_encode_string str = some text) (hunit : 0x1F ∉ str) :
    Writes (.string str) text := by
  unfold json_encode_string at h
  split at h
  · cases h
    have hutf8 : isUtf8 str = true := by rwa [← utf8_validate_eq]
    exact writes_string (reads_emit hutf8 hunit []) hutf8
  · cases h

end FitsWebQL
