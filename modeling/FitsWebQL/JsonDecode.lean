/-
  FitsWebQL.JsonDecode — what `json_decode` (`json.c`) takes: exactly the JSON texts without
  `\u0000`, and it returns their value (`json_decode_iff`). No text is refused for want of
  fuel, and no two values are ever possible.

  A number ends where its literal does. What `strtod` makes of the text is what it makes of
  the literal, for whatever the parser lets stand behind one is no part of a number.
-/

import FitsWebQL.JsonParse
import FitsWebQL.Lib.JsonNumbers

namespace FitsWebQL

open Lib.JsonText Lib.JsonNumbers

/-! ## Numbers are read as the grammar reads them -/

theorem isdigit_eq : isdigit = isDigit := by
  funext b
  simp [isdigit, isDigit]

/-- `skip_digits` skips one digit at least, and all of them. -/
theorem skip_digits_some {s rest : Bytes} (h : skip_digits s = some rest) :
    ∃ ds, ds ≠ [] ∧ ds.all isDigit = true ∧ s = ds ++ rest ∧ ∀ b ∈ rest.head?, isDigit b = false := by
  unfold skip_digits at h
  rw [isdigit_eq] at h
  split at h
  · cases h
  · cases h
    refine ⟨s.takeWhile isDigit, fun hnil => ‹¬ _› (by rw [hnil]; rfl), List.all_takeWhile, List.takeWhile_append_dropWhile.symm, ?_⟩
    intro b hb
    have hnot := List.head?_dropWhile_not isDigit s
    rw [Option.mem_def.mp hb] at hnot
    simpa using hnot

theorem skip_digits_append {ds rest : Bytes} (hne : ds ≠ []) (hds : ds.all isDigit = true) (hrest : ∀ b ∈ rest.head?, isDigit b = false) :
    skip_digits (ds ++ rest) = some rest := by
  obtain ⟨htake, hdrop⟩ := takeWhile_append_of_head hrest ds
  obtain ⟨hall, hnil⟩ := takeWhile_all hds
  unfold skip_digits
  rw [isdigit_eq, htake, hdrop, hall, hnil, if_neg (by simpa using hne)]
  rfl

theorem skip_exponent_some {t rest : Bytes} (h : skip_exponent t = some rest) :
    ∃ w, t = w ++ rest ∧ exponent w = true ∧ w.all isWordByte = true ∧ ∀ b ∈ w.head?, isDigit b = false ∧ b ≠ 46 := by
  unfold skip_exponent at h
  split at h
  · rename_i hhead
    obtain ⟨e, u, rfl, he⟩ : ∃ e u, t = e :: u ∧ (e = 69 ∨ e = 101) := by
      cases t with
      | nil => simp at hhead
      | cons e u => exact ⟨e, u, rfl, by simpa using hhead⟩
    have hword : isWordByte e = true ∧ isDigit e = false ∧ e ≠ 46 := by rcases he with rfl | rfl <;> decide
    have hletter : (e == 101 || e == 69) = true := by rcases he with rfl | rfl <;> decide
    rw [List.tail_cons] at h
    split at h
    · rename_i hsign
      obtain ⟨c, v, rfl, hc⟩ : ∃ c v, u = c :: v ∧ (c = 43 ∨ c = 45) := by
        cases u with
        | nil => simp at hsign
        | cons c v => exact ⟨c, v, rfl, by simpa using hsign⟩
      obtain ⟨ds, hne, hds, hv, -⟩ := skip_digits_some h
      rw [List.tail_cons] at hv
      subst hv
      have hcword : isWordByte c = true := by rcases hc with rfl | rfl <;> decide
      refine ⟨e :: c :: ds, rfl, ?_, ?_, ?_⟩
      · simp [exponent, hletter, hc, hds, hne]
      · simp only [List.all_cons, hword.1, hcword, all_isWordByte hds, Bool.and_self]
      · rintro b ⟨⟩
        exact hword.2
    · rename_i hsign
      obtain ⟨ds, hne, hds, rfl, -⟩ := skip_digits_some h
      refine ⟨e :: ds, rfl, ?_, ?_, ?_⟩
      · have hhead : ¬ (ds.head? = some 43 ∨ ds.head? = some 45) := by
          obtain ⟨d, ds, rfl⟩ := List.exists_cons_of_ne_nil hne
          simpa using hsign
        simp [exponent, hletter, hds, hne, hhead]
      · simp only [List.all_cons, hword.1, all_isWordByte hds, Bool.and_self]
      · rintro b ⟨⟩
        exact hword.2
  · cases h
    exact ⟨[], rfl, rfl, rfl, by simp⟩

theorem skip_exponent_append {w rest : Bytes} (h : exponent w = true) (hrest : EndsWord rest) : skip_exponent (w ++ rest) = some rest := by
  have hdigit : ∀ b ∈ rest.head?, isDigit b = false := fun b hb => by
    have := hrest b hb
    simp only [isWordByte, Bool.or_eq_false_iff] at this
    exact this.1.1.1.1.1
  cases w with
  | nil =>
    have hno : ¬ (rest.head? = some 69 ∨ rest.head? = some 101) := by
      rintro (he | he)
      · exact absurd (hrest 69 he) (by decide)
      · exact absurd (hrest 101 he) (by decide)
    rw [List.nil_append, skip_exponent, if_neg hno]
  | cons e u =>
    simp only [exponent, Bool.and_eq_true, Bool.or_eq_true, beq_iff_eq, Bool.not_eq_true', List.isEmpty_eq_false_iff] at h
    obtain ⟨⟨he, hne⟩, hds⟩ := h
    rw [List.cons_append, skip_exponent, if_pos (by simpa [or_comm] using he), List.tail_cons]
    by_cases hsign : u.head? = some 43 ∨ u.head? = some 45
    · rw [if_pos hsign] at hne hds
      cases u with
      | nil => simp at hne
      | cons c v =>
        rw [List.cons_append, if_pos (by simpa using hsign), List.tail_cons]
        exact skip_digits_append hne hds hdigit
    · rw [if_neg hsign] at hne hds
      have hhead : (u ++ rest).head? = u.head? := by
        obtain ⟨d, v, rfl⟩ := List.exists_cons_of_ne_nil hne
        rfl
      rw [hhead, if_neg hsign]
      exact skip_digits_append hne hds hdigit

theorem skip_fraction_some {t rest : Bytes} (h : skip_fraction t = some rest) :
    ∃ w, t = w ++ rest ∧ fraction w = true ∧ w.all isWordByte = true ∧ ∀ b ∈ w.head?, isDigit b = false := by
  unfold skip_fraction at h
  obtain ⟨u, hu, hexp⟩ := Option.bind_eq_some_iff.mp h
  obtain ⟨w, rfl, hw, hword, hhead⟩ := skip_exponent_some hexp
  split at hu
  · rename_i hpoint
    obtain ⟨v, rfl⟩ : ∃ v, t = 46 :: v := by
      cases t with
      | nil => cases hpoint
      | cons c v => exact ⟨v, by rw [Option.some.inj hpoint]⟩
    obtain ⟨ds, hne, hds, hv, -⟩ := skip_digits_some hu
    rw [List.tail_cons] at hv
    subst hv
    obtain ⟨htake, hdrop⟩ := takeWhile_append_of_head (fun b hb => (hhead b hb).1) ds
    obtain ⟨hall, hnil⟩ := takeWhile_all hds
    refine ⟨46 :: (ds ++ w), by simp, ?_, ?_, ?_⟩
    · simp [fraction, htake, hdrop, hall, hnil, hne, hw]
    · have hpoint' : isWordByte 46 = true := by decide
      simp only [List.all_cons, List.all_append, hpoint', all_isWordByte hds, hword, Bool.and_self]
    · rintro b ⟨⟩
      decide
  · cases hu
    refine ⟨w, rfl, ?_, hword, fun b hb => (hhead b hb).1⟩
    cases w with
    | nil => rfl
    | cons e w => rw [fraction, if_neg (hhead e rfl).2, hw]

theorem endsWord_digit {rest : Bytes} (h : EndsWord rest) : ∀ b ∈ rest.head?, isDigit b = false := by
  intro b hb
  by_contra hdigit
  rw [Bool.not_eq_false] at hdigit
  exact absurd (h b hb) (by simp [isWordByte_of_isDigit hdigit])

theorem exponent_head {w : Bytes} (h : exponent w = true) : ∀ b ∈ w.head?, isDigit b = false ∧ b ≠ 46 := by
  rintro b hb
  cases w with
  | nil => cases hb
  | cons e w =>
    cases hb
    simp only [exponent, Bool.and_eq_true, Bool.or_eq_true, beq_iff_eq] at h
    rcases h.1.1 with rfl | rfl <;> decide

theorem skip_fraction_append {w rest : Bytes} (h : fraction w = true) (hrest : EndsWord rest) : skip_fraction (w ++ rest) = some rest := by
  by_cases hpoint : w.head? = some 46
  · obtain ⟨u, rfl⟩ : ∃ u, w = 46 :: u := by
      cases w with
      | nil => cases hpoint
      | cons c u => exact ⟨u, by rw [Option.some.inj hpoint]⟩
    simp only [fraction, if_true, Bool.and_eq_true, Bool.not_eq_true', List.isEmpty_eq_false_iff] at h
    have hhead : ∀ b ∈ (u.dropWhile isDigit ++ rest).head?, isDigit b = false := by
      intro b hb
      cases hu : u.dropWhile isDigit with
      | nil =>
        rw [hu] at hb
        exact endsWord_digit hrest b hb
      | cons c v =>
        rw [hu] at hb h
        exact (exponent_head h.2 b hb).1
    have hskip := skip_digits_append h.1 List.all_takeWhile hhead
    rw [← List.append_assoc, List.takeWhile_append_dropWhile] at hskip
    rw [skip_fraction, if_pos (by rfl), List.cons_append, List.tail_cons, hskip, Option.bind_some]
    exact skip_exponent_append h.2 hrest
  · have hexp : exponent w = true := by
      cases w with
      | nil => rfl
      | cons c u =>
        rw [fraction, if_neg (fun he => hpoint (congrArg some he))] at h
        exact h
    have hno : ¬ (w ++ rest).head? = some 46 := by
      intro he
      cases w with
      | nil => exact absurd (hrest 46 he) (by decide)
      | cons c u => exact hpoint he
    rw [skip_fraction, if_neg hno, Option.bind_some]
    exact skip_exponent_append hexp hrest

theorem skip_unsigned_some {t rest : Bytes} (h : skip_unsigned t = some rest) :
    ∃ w, t = w ++ rest ∧ unsignedNumber w = true ∧ w.all isWordByte = true := by
  unfold skip_unsigned at h
  obtain ⟨u, hu, hfrac⟩ := Option.bind_eq_some_iff.mp h
  obtain ⟨w, rfl, hw, hword, hhead⟩ := skip_fraction_some hfrac
  split at hu
  · rename_i hzero
    obtain ⟨v, rfl⟩ : ∃ v, t = 48 :: v := by
      cases t with
      | nil => cases hzero
      | cons c v => exact ⟨v, by rw [Option.some.inj hzero]⟩
    cases hu
    have hword' : isWordByte 48 = true := by decide
    exact ⟨48 :: w, by simp_all, by simp [unsignedNumber, hw], by simp only [List.all_cons, hword', hword, Bool.and_self]⟩
  · rename_i hzero
    obtain ⟨ds, hne, hds, rfl, -⟩ := skip_digits_some hu
    obtain ⟨d, ds, rfl⟩ := List.exists_cons_of_ne_nil hne
    have hd : d ≠ 48 := fun he => hzero (congrArg some he)
    simp only [List.all_cons, Bool.and_eq_true] at hds
    obtain ⟨-, hdrop⟩ := takeWhile_append_of_head hhead ds
    rw [(takeWhile_all hds.2).2, List.nil_append] at hdrop
    refine ⟨d :: ds ++ w, by simp, ?_, ?_⟩
    · simp [unsignedNumber, hd, hds.1, hdrop, hw]
    · simp only [List.cons_append, List.all_cons, List.all_append, isWordByte_of_isDigit hds.1, all_isWordByte hds.2, hword, Bool.and_self]

theorem skip_unsigned_append {w rest : Bytes} (h : unsignedNumber w = true) (hrest : EndsWord rest) :
    skip_unsigned (w ++ rest) = some rest := by
  cases w with
  | nil => cases h
  | cons d w =>
    rw [unsignedNumber] at h
    by_cases hzero : d = 48
    · rw [if_pos hzero] at h
      subst hzero
      rw [skip_unsigned, if_pos (by rfl), Option.bind_some]
      exact skip_fraction_append h hrest
    · rw [if_neg hzero, Bool.and_eq_true] at h
      have hhead : ∀ b ∈ (w.dropWhile isDigit ++ rest).head?, isDigit b = false := by
        intro b hb
        cases hw : w.dropWhile isDigit with
        | nil =>
          rw [hw] at hb
          exact endsWord_digit hrest b hb
        | cons c v =>
          have hnot := List.head?_dropWhile_not isDigit w
          rw [hw] at hb hnot
          cases hb
          simpa using hnot
      have hskip := skip_digits_append (List.cons_ne_nil d (w.takeWhile isDigit)) (by simp [h.1, List.all_takeWhile]) hhead
      rw [List.cons_append, ← List.append_assoc, List.takeWhile_append_dropWhile] at hskip
      rw [skip_unsigned, List.cons_append, if_neg (by simpa using hzero), hskip, Option.bind_some]
      exact skip_fraction_append h.2 hrest

/-! ### The number's value -/

theorem endsWord_ne {rest t : Bytes} {b : UInt8} (h : EndsWord rest) (hb : isWordByte b = true) : rest ≠ b :: t := by
  rintro rfl
  rw [h b rfl] at hb
  cases hb

theorem sign_append (v : Bytes) {rest : Bytes} (h : EndsWord rest) : sign (v ++ rest) = ((sign v).1, (sign v).2 ++ rest) := by
  cases v with
  | nil =>
    have hminus : ∀ t, rest ≠ 45 :: t := fun t => endsWord_ne h (by decide)
    have hplus : ∀ t, rest ≠ 43 :: t := fun t => endsWord_ne h (by decide)
    rw [List.nil_append, sign]
    · rfl
    · exact hminus
    · exact hplus
  | cons c v =>
    by_cases hminus : c = 45
    · subst hminus
      rfl
    by_cases hplus : c = 43
    · subst hplus
      rfl
    simp [sign, hminus, hplus]

theorem exponentPart_append (v : Bytes) {rest : Bytes} (h : EndsWord rest) : exponentPart (v ++ rest) = exponentPart v := by
  have hdigit : ∀ c ∈ rest.head?, isdigit c = false := isdigit_eq ▸ endsWord_digit h
  cases v with
  | nil =>
    cases rest with
    | nil => rfl
    | cons c t =>
      have hc : (c == 101 || c == 69) = false := by
        by_contra hc
        simp only [Bool.not_eq_false, Bool.or_eq_true, beq_iff_eq] at hc
        rcases hc with rfl | rfl <;> exact absurd (h _ rfl) (by decide)
      simp [exponentPart, hc]
  | cons c v =>
    have htake := fun v => (takeWhile_append_of_head hdigit v).1
    simp only [List.cons_append, exponentPart, sign_append v h, htake]

def pointDigits : Bytes → Bytes
  | 46 :: s => s.takeWhile isdigit
  | _ => []

def behindPoint : Bytes → Bytes
  | 46 :: s => s.dropWhile isdigit
  | s => s

theorem pointDigits_append (v : Bytes) {rest : Bytes} (h : EndsWord rest) : pointDigits (v ++ rest) = pointDigits v := by
  have hdigit : ∀ c ∈ rest.head?, isdigit c = false := isdigit_eq ▸ endsWord_digit h
  cases v with
  | nil =>
    rw [List.nil_append, pointDigits]
    · rfl
    · exact fun t => endsWord_ne h (by decide)
  | cons c v =>
    by_cases hc : c = 46
    · subst hc
      exact (takeWhile_append_of_head hdigit v).1
    · simp [pointDigits, hc]

theorem exponent_behindPoint (v : Bytes) {rest : Bytes} (h : EndsWord rest) :
    exponentPart (behindPoint (v ++ rest)) = exponentPart (behindPoint v) := by
  have hdigit : ∀ c ∈ rest.head?, isdigit c = false := isdigit_eq ▸ endsWord_digit h
  cases v with
  | nil =>
    rw [List.nil_append, behindPoint]
    · exact exponentPart_append [] h
    · exact fun t => endsWord_ne h (by decide)
  | cons c v =>
    by_cases hc : c = 46
    · subst hc
      show exponentPart ((v ++ rest).dropWhile isdigit) = exponentPart (v.dropWhile isdigit)
      rw [(takeWhile_append_of_head hdigit v).2, exponentPart_append _ h]
    · have hsame : ∀ t, behindPoint (c :: t) = c :: t := fun t => by simp [behindPoint, hc]
      rw [List.cons_append, hsame, hsame, ← List.cons_append, exponentPart_append _ h]

theorem strtod_eq (s : Bytes) : strtod s =
    let r := sign (s.dropWhile isspace)
    let whole := r.2.takeWhile isdigit
    let behind := r.2.dropWhile isdigit
    if whole = [] ∧ pointDigits behind = [] then (false, 0)
    else (r.1, (digitsValue (whole ++ pointDigits behind) : ℚ) * 10 ^
      (exponentPart (behindPoint behind) - (pointDigits behind).length)) := rfl

/-- What `strtod` reads ends with the literal. -/
theorem strtod_append {b : UInt8} (w : Bytes) {rest : Bytes} (hb : isspace b = false) (h : EndsWord rest) :
    strtod (b :: w ++ rest) = strtod (b :: w) := by
  have hdigit : ∀ c ∈ rest.head?, isdigit c = false := isdigit_eq ▸ endsWord_digit h
  have hdrop : ∀ t, (b :: t).dropWhile isspace = b :: t := fun t => List.dropWhile_cons_of_neg (by simp [hb])
  have htake := fun v => (takeWhile_append_of_head hdigit v).1
  have hafter := fun v => (takeWhile_append_of_head hdigit v).2
  have hwhole := sign_append (b :: w) h
  rw [List.cons_append] at hwhole ⊢
  simp only [strtod_eq, hdrop, hwhole, htake, hafter, pointDigits_append _ h, exponent_behindPoint _ h]

theorem number_head {b : UInt8} {w : Bytes} (h : isNumber (b :: w) = true) : b = 45 ∨ isDigit b = true := by
  by_cases hminus : b = 45
  · exact .inl hminus
  · right
    rw [isNumber, if_neg (by simpa using hminus), unsignedNumber] at h
    split at h
    · rename_i hzero
      subst hzero
      rfl
    · exact (Bool.and_eq_true _ _ ▸ h).1

theorem number_head_notSpace {b : UInt8} (h : b = 45 ∨ isDigit b = true) : isspace b = false := by
  have hall : ∀ n : Fin 256, isDigit (UInt8.ofNat n) = true → isspace (UInt8.ofNat n) = false := by decide +kernel
  rcases h with rfl | hb
  · decide
  · have := hall ⟨b.toNat, b.toNat_lt⟩
    rw [UInt8.ofNat_toNat] at this
    exact this hb

theorem parse_number_append {w rest : Bytes} (h : isNumber w = true) (hrest : EndsWord rest) :
    parse_number (w ++ rest) = some (Double.of (doubleValue w), rest) := by
  cases w with
  | nil => cases h
  | cons b w =>
    have hvalue : doubleValue (b :: w ++ rest) = doubleValue (b :: w) := by
      unfold doubleValue
      rw [strtod_append w (number_head_notSpace (number_head h)) hrest]
    unfold isNumber at h
    rw [parse_number, hvalue]
    by_cases hminus : b = 45
    · rw [if_pos (by simpa using hminus), List.tail_cons] at h
      rw [List.cons_append, if_pos (by simpa using hminus), List.tail_cons, skip_unsigned_append h hrest, Option.map_some]
    · rw [if_neg (by simpa using hminus)] at h
      rw [if_neg (by simpa using hminus), skip_unsigned_append h hrest, Option.map_some]

theorem parse_number_some {s rest : Bytes} {n : Double} (h : parse_number s = some (n, rest)) (hrest : EndsWord rest) :
    ∃ w, s = w ++ rest ∧ isNumber w = true ∧ w.all isWordByte = true ∧ n = Double.of (doubleValue w) := by
  obtain ⟨w, rfl, hnumber, hword⟩ : ∃ w, s = w ++ rest ∧ isNumber w = true ∧ w.all isWordByte = true := by
    obtain ⟨t, ht, he⟩ := Option.map_eq_some_iff.mp h
    cases he
    obtain ⟨w, hw, hnumber, hword⟩ := skip_unsigned_some ht
    split at hw
    · rename_i hminus
      obtain ⟨u, rfl⟩ : ∃ u, s = 45 :: u := by
        cases s with
        | nil => cases hminus
        | cons c u => exact ⟨u, by rw [Option.some.inj hminus]⟩
      rw [List.tail_cons] at hw
      have hbyte : isWordByte 45 = true := by decide
      refine ⟨45 :: w, by rw [hw, List.cons_append], by simpa [isNumber] using hnumber, ?_⟩
      simp only [List.all_cons, hbyte, hword, Bool.and_self]
    · rename_i hminus
      refine ⟨w, hw, ?_, hword⟩
      have hhead : ¬ w.head? = some 45 := by
        intro he
        cases w with
        | nil => cases he
        | cons c w => exact hminus (by rw [hw]; exact he)
      rw [isNumber, if_neg hhead, hnumber]
  rw [parse_number_append hnumber hrest] at h
  cases h
  exact ⟨w, rfl, hnumber, hword, rfl⟩

/-! ## Words -/

theorem expect_literal_append (str rest : Bytes) : expect_literal (str ++ rest) str = some rest := by
  induction str with
  | nil => cases rest <;> rfl
  | cons b str ih => rw [List.cons_append, expect_literal, if_pos rfl, ih]

theorem expect_literal_some {s str rest : Bytes} (h : expect_literal s str = some rest) : s = str ++ rest := by
  induction str generalizing s with
  | nil =>
    cases s <;>
    · cases h
      rfl
  | cons b str ih =>
    cases s with
    | nil => cases h
    | cons a s =>
      rw [expect_literal] at h
      split at h
      · subst_vars
        rw [ih h, List.cons_append]
      · cases h

theorem word_number {w : Bytes} (h : isNumber w = true) : word w = some (.number w) := by
  have hne : ∀ l : Bytes, isNumber l = false → w ≠ l := fun l hl he => by
    rw [← he, h] at hl
    cases hl
  rw [word, if_neg (hne _ (by decide)), if_neg (hne _ (by decide)), if_neg (hne _ (by decide)), if_pos h]

theorem word_cases {w : Bytes} {t : Token} (h : word w = some t) :
    (w = lit "null" ∧ t = .null) ∨ (w = lit "true" ∧ t = .bool true) ∨ (w = lit "false" ∧ t = .bool false) ∨
      isNumber w = true ∧ t = .number w := by
  have hnull : lit "null" = [110, 117, 108, 108] := by decide
  have htrue : lit "true" = [116, 114, 117, 101] := by decide
  have hfalse : lit "false" = [102, 97, 108, 115, 101] := by decide
  rw [hnull, htrue, hfalse]
  unfold word at h
  split_ifs at h with h1 h2 h3 h4 <;> cases h
  · exact .inl ⟨h1, rfl⟩
  · exact .inr (.inl ⟨h2, rfl⟩)
  · exact .inr (.inr (.inl ⟨h3, rfl⟩))
  · exact .inr (.inr (.inr ⟨h4, rfl⟩))

/-! ## Values -/

mutual

def JsonNode.of : Node → JsonNode
  | .null => .null
  | .bool b => .bool b
  | .string s => .string s
  | .number w => .number (Double.of (doubleValue w))
  | .array xs => .array (elementsOf xs)
  | .object ms => .object (membersOf ms)

def elementsOf : List Node → List JsonNode
  | [] => []
  | x :: xs => .of x :: elementsOf xs

def membersOf : List (Bytes × Node) → List (Bytes × JsonNode)
  | [] => []
  | (key, x) :: ms => (key, .of x) :: membersOf ms

end

mutual

def nulFree : Node → Bool
  | .null | .bool _ | .number _ => true
  | .string s => !s.elem 0
  | .array xs => elementsNulFree xs
  | .object ms => membersNulFree ms

def elementsNulFree : List Node → Bool
  | [] => true
  | x :: xs => nulFree x && elementsNulFree xs

def membersNulFree : List (Bytes × Node) → Bool
  | [] => true
  | (key, x) :: ms => !key.elem 0 && nulFree x && membersNulFree ms

end

theorem is_space_eq : is_space = isBlank := by
  funext c
  unfold is_space isBlank
  ac_rfl

theorem lex_skip_space (s : Bytes) : lex (skip_space s) = lex s := by
  rw [skip_space, is_space_eq, lex_blanks]

theorem skip_space_head (s : Bytes) : ∀ b ∈ (skip_space s).head?, isBlank b = false := by
  intro b hb
  have hnot := List.head?_dropWhile_not is_space s
  rw [skip_space] at hb
  rw [Option.mem_def.mp hb, is_space_eq] at hnot
  simpa using hnot

theorem skip_space_length (s : Bytes) : (skip_space s).length ≤ s.length := (List.dropWhile_suffix is_space).length_le

theorem skip_space_of_head {s : Bytes} (h : ∀ b ∈ s.head?, isBlank b = false) : skip_space s = s := by
  cases s with
  | nil => rfl
  | cons b s =>
    have hb : ¬ is_space b = true := by simp [is_space_eq, h b rfl]
    exact List.dropWhile_cons_of_neg hb

theorem endsWord_of_skip {s : Bytes} {p : UInt8} (h : (skip_space s).head? = some p) (hp : isPunct p = true) : EndsWord s := by
  refine endsWord_of_blanks fun b hb => ?_
  rw [skip_space, is_space_eq] at h
  rw [h] at hb
  cases hb
  exact hp

theorem endsWord_of_empty {s : Bytes} (h : skip_space s = []) : EndsWord s := by
  refine endsWord_of_blanks fun b hb => ?_
  rw [skip_space, is_space_eq] at h
  rw [h] at hb
  cases hb

theorem head_eq {s : Bytes} {b : UInt8} (h : s.head? = some b) : s = b :: s.tail := by
  cases s with
  | nil => cases h
  | cons c s =>
    cases h
    rfl

/-- The text at a mark, behind blanks. -/
theorem lex_mark {s : Bytes} {p : UInt8} (h : (skip_space s).head? = some p) (hp : isPunct p = true) :
    lex s = (lex (skip_space s).tail).map (.punct p :: ·) := by
  rw [← lex_skip_space, head_eq h, lex_punct hp, List.tail_cons]

/-! ### What is taken is a value -/

/-- The parser is behind a value, and the text's tokens are the value's and those behind it. -/
def TakesValue (s : Bytes) (v : JsonNode) (rest : Bytes) : Prop :=
  ∃ t : Node, v = .of t ∧ nulFree t = true ∧ lex s = (lex rest).map (t.tokens ++ ·)

theorem takes_word {w rest : Bytes} {v : JsonNode} {t : Node} {tok : Token} (hne : w ≠ []) (hword : w.all isWordByte = true)
    (hrest : EndsWord rest) (htok : word w = some tok) (ht : t.tokens = [tok]) (hv : v = .of t) (hnul : nulFree t = true) :
    TakesValue (w ++ rest) v rest := by
  refine ⟨t, hv, hnul, ?_⟩
  rw [lex_words hne hword hrest, htok, Option.bind_some, ht]
  rfl

theorem takes_string {s o rest : Bytes} (h : parse_string s = some (o, rest)) :
    lex s = (lex rest).map (.string o :: ·) ∧ 0 ∉ o ∧ isUtf8 o = true ∧ rest.length < s.length := by
  cases s with
  | nil => cases h
  | cons c s =>
    rw [parse_string] at h
    split at h
    · subst_vars
      obtain ⟨hlex, hnul, hutf8, hlt⟩ := lex_chars h (show isUtf8 [] = true from rfl)
      refine ⟨?_, hnul, hutf8, Nat.lt_succ_of_lt hlt⟩
      rw [lex_quote, hlex, List.nil_append]
    · cases h

/-- By induction on the fuel: each of the five takes what its tokens are. -/
theorem parse_sound (fuel : ℕ) :
    (∀ s v rest, parse_value fuel s = some (v, rest) → EndsWord rest → TakesValue s v rest) ∧
    (∀ s v rest, s.head? = some 91 → parse_array fuel s = some (v, rest) → TakesValue s v rest) ∧
    (∀ s vs rest, parseElements fuel s = some (vs, rest) → ∃ x xs, vs = elementsOf (x :: xs) ∧ elementsNulFree (x :: xs) = true ∧
      lex s = (lex rest).map (x.tokens ++ moreElements xs ++ ·)) ∧
    (∀ s v rest, s.head? = some 123 → parse_object fuel s = some (v, rest) → TakesValue s v rest) ∧
    (∀ s vs rest, parseMembers fuel s = some (vs, rest) → ∃ key x ms, vs = membersOf ((key, x) :: ms) ∧
      membersNulFree ((key, x) :: ms) = true ∧
      lex s = (lex rest).map (.string key :: .punct 58 :: (x.tokens ++ moreMembers ms) ++ ·)) := by
  induction fuel with
  | zero => exact ⟨nofun, nofun, nofun, nofun, nofun⟩
  | succ fuel ih =>
    obtain ⟨ihValue, ihArray, ihElements, ihObject, ihMembers⟩ := ih
    refine ⟨?_, ?_, ?_, ?_, ?_⟩
    · intro s v rest h hrest
      rw [parse_value] at h
      split_ifs at h with hn hf ht hquote hbracket hbrace
      · obtain ⟨u, hu, he⟩ := Option.map_eq_some_iff.mp h
        cases he
        rw [expect_literal_some hu]
        exact takes_word (t := .null) (by decide) (by decide) hrest (by decide +kernel) rfl rfl rfl
      · obtain ⟨u, hu, he⟩ := Option.map_eq_some_iff.mp h
        cases he
        rw [expect_literal_some hu]
        exact takes_word (t := .bool false) (by decide) (by decide) hrest (by decide +kernel) rfl rfl rfl
      · obtain ⟨u, hu, he⟩ := Option.map_eq_some_iff.mp h
        cases he
        rw [expect_literal_some hu]
        exact takes_word (t := .bool true) (by decide) (by decide) hrest (by decide +kernel) rfl rfl rfl
      · obtain ⟨⟨o, u⟩, hu, he⟩ := Option.map_eq_some_iff.mp h
        cases he
        obtain ⟨hlex, hnul, -, -⟩ := takes_string hu
        exact ⟨.string o, rfl, by simpa [nulFree] using hnul, hlex⟩
      · exact ihArray s v rest hbracket h
      · exact ihObject s v rest hbrace h
      · obtain ⟨⟨n, u⟩, hu, he⟩ := Option.map_eq_some_iff.mp h
        cases he
        obtain ⟨w, rfl, hnumber, hword, rfl⟩ := parse_number_some hu hrest
        have hne : w ≠ [] := by
          rintro rfl
          cases hnumber
        exact takes_word (t := .number w) hne hword hrest (word_number hnumber) rfl rfl rfl
    · intro s v rest hbracket h
      rw [parse_array] at h
      rw [TakesValue, head_eq hbracket, lex_punct (by decide)]
      split_ifs at h with hclose
      · cases h
        refine ⟨.array [], rfl, rfl, ?_⟩
        rw [lex_mark hclose (by decide), Option.map_map]
        rfl
      · obtain ⟨⟨vs, u⟩, hu, he⟩ := Option.map_eq_some_iff.mp h
        cases he
        obtain ⟨x, xs, rfl, hnul, hlex⟩ := ihElements _ _ _ hu
        refine ⟨.array (x :: xs), rfl, hnul, ?_⟩
        rw [← lex_skip_space, hlex, Option.map_map]
        rfl
    · intro s vs rest h
      rw [parseElements] at h
      obtain ⟨⟨v, u⟩, hu, h⟩ := Option.bind_eq_some_iff.mp h
      dsimp only at h
      split_ifs at h with hclose hcomma
      · cases h
        obtain ⟨x, rfl, hnul, hlex⟩ := ihValue _ _ _ hu (endsWord_of_skip hclose (by decide))
        refine ⟨x, [], rfl, by simp [elementsNulFree, hnul], ?_⟩
        rw [hlex, lex_mark hclose (by decide), Option.map_map]
        simp [moreElements, Function.comp_def]
      · obtain ⟨⟨vs', u'⟩, hu', he⟩ := Option.map_eq_some_iff.mp h
        cases he
        obtain ⟨x, rfl, hnul, hlex⟩ := ihValue _ _ _ hu (endsWord_of_skip hcomma (by decide))
        obtain ⟨y, ys, rfl, hnul', hlex'⟩ := ihElements _ _ _ hu'
        refine ⟨x, y :: ys, rfl, ?_, ?_⟩
        · rw [elementsNulFree, hnul, hnul']
          rfl
        · rw [hlex, lex_mark hcomma (by decide), ← lex_skip_space, hlex', Option.map_map, Option.map_map]
          simp [moreElements, Function.comp_def]
    · intro s v rest hbrace h
      rw [parse_object] at h
      rw [TakesValue, head_eq hbrace, lex_punct (by decide)]
      split_ifs at h with hclose
      · cases h
        refine ⟨.object [], rfl, rfl, ?_⟩
        rw [lex_mark hclose (by decide), Option.map_map]
        rfl
      · obtain ⟨⟨vs, u⟩, hu, he⟩ := Option.map_eq_some_iff.mp h
        cases he
        obtain ⟨key, x, ms, rfl, hnul, hlex⟩ := ihMembers _ _ _ hu
        refine ⟨.object ((key, x) :: ms), rfl, hnul, ?_⟩
        rw [← lex_skip_space, hlex, Option.map_map]
        rfl
    · intro s vs rest h
      rw [parseMembers] at h
      obtain ⟨⟨key, u⟩, hkey, h⟩ := Option.bind_eq_some_iff.mp h
      obtain ⟨hstring, hkeyNul, -, -⟩ := takes_string hkey
      dsimp only at h
      split_ifs at h with hcolon
      obtain ⟨⟨v, u'⟩, hu, h⟩ := Option.bind_eq_some_iff.mp h
      have hhead : lex s = (lex (skip_space (skip_space u).tail)).map (.string key :: .punct 58 :: ·) := by
        rw [hstring, lex_mark hcolon (by decide), Option.map_map, lex_skip_space]
        rfl
      dsimp only at h
      split_ifs at h with hclose hcomma
      · cases h
        obtain ⟨x, rfl, hnul, hlex⟩ := ihValue _ _ _ hu (endsWord_of_skip hclose (by decide))
        refine ⟨key, x, [], rfl, by simp [membersNulFree, hnul, hkeyNul], ?_⟩
        rw [hhead, hlex, lex_mark hclose (by decide), Option.map_map, Option.map_map]
        simp [moreMembers, Function.comp_def]
      · obtain ⟨⟨vs', u''⟩, hu', he⟩ := Option.map_eq_some_iff.mp h
        cases he
        obtain ⟨x, rfl, hnul, hlex⟩ := ihValue _ _ _ hu (endsWord_of_skip hcomma (by decide))
        obtain ⟨key', y, ms, rfl, hnul', hlex'⟩ := ihMembers _ _ _ hu'
        refine ⟨key, x, (key', y) :: ms, rfl, ?_, ?_⟩
        · rw [membersNulFree, hnul, hnul']
          simpa using hkeyNul
        · rw [hhead, hlex, lex_mark hcomma (by decide), ← lex_skip_space (skip_space u').tail, hlex']
          simp only [Option.map_map]
          simp [moreMembers, Function.comp_def]

/-! ### A value is taken -/

theorem word_of_first {s : Bytes} {tok : Token} {ts : List Token} (hblank : ∀ b ∈ s.head?, isBlank b = false)
    (h : lex s = some (tok :: ts)) (hpunct : ∀ p, tok ≠ .punct p) (hstring : ∀ o, tok ≠ .string o) :
    ∃ w rest, s = w ++ rest ∧ w ≠ [] ∧ EndsWord rest ∧ word w = some tok ∧ lex rest = some ts := by
  rcases lex_first hblank h with ⟨p, rest, -, -, htok, -⟩ | ⟨rest, -, htext⟩ | ⟨w, rest, hne, hs, -, hends, hword, hrest⟩
  · exact absurd htok (hpunct p)
  · obtain ⟨o, us, -, -, he⟩ := lexFrom_text htext
    cases he
    exact absurd rfl (hstring o)
  · exact ⟨w, rest, hs, hne, hends, hword, hrest⟩

theorem string_of_first {s o : Bytes} {ts : List Token} (hblank : ∀ b ∈ s.head?, isBlank b = false)
    (h : lex s = some (.string o :: ts)) (hnul : 0 ∉ o) :
    ∃ rest, parse_string s = some (o, rest) ∧ lex rest = some ts ∧ rest.length < s.length ∧ s.head? = some 34 := by
  rcases lex_first hblank h with ⟨p, rest, -, -, htok, -⟩ | ⟨u, rfl, htext⟩ | ⟨w, rest, -, -, -, -, hword, -⟩
  · cases htok
  · cases hchars : parseChars u with
    | none => exact absurd (lex_chars_none hchars (show isUtf8 [] = true from rfl) o ts htext) hnul
    | some r =>
      obtain ⟨o', rest⟩ := r
      obtain ⟨hlex, -, -, hlt⟩ := lex_chars hchars (show isUtf8 [] = true from rfl)
      rw [htext] at hlex
      obtain ⟨us, hus, he⟩ := Option.map_eq_some_iff.mp hlex.symm
      cases he
      refine ⟨rest, ?_, hus, Nat.lt_succ_of_lt hlt, rfl⟩
      rw [parse_string, if_pos rfl, hchars, List.nil_append]
  · rcases word_cases hword with ⟨-, he⟩ | ⟨-, he⟩ | ⟨-, he⟩ | ⟨-, he⟩ <;> cases he

theorem punct_of_first {s : Bytes} {p : UInt8} {ts : List Token} (h : lex s = some (.punct p :: ts)) :
    (skip_space s).head? = some p ∧ lex (skip_space s).tail = some ts ∧ (skip_space s).tail.length < s.length := by
  rw [← lex_skip_space] at h
  rcases lex_first (skip_space_head s) h with ⟨q, rest, -, hs, htok, hrest⟩ | ⟨u, -, htext⟩ | ⟨w, rest, -, -, -, -, hword, -⟩
  · cases htok
    have hlen := skip_space_length s
    rw [hs, List.length_cons] at hlen
    rw [hs]
    exact ⟨rfl, hrest, hlen⟩
  · obtain ⟨o, us, -, -, he⟩ := lexFrom_text htext
    cases he
  · rcases word_cases hword with ⟨-, he⟩ | ⟨-, he⟩ | ⟨-, he⟩ | ⟨-, he⟩ <;> cases he

theorem head_of_word {w rest : Bytes} {b : UInt8} (h : w.head? = some b) : (w ++ rest).head? = some b := by
  rw [head_eq h]
  rfl

theorem parse_word {w rest : Bytes} {tok : Token} (hends : EndsWord rest) (h : word w = some tok) (fuel : ℕ) :
    ∃ t : Node, t.tokens = [tok] ∧ parse_value (fuel + 1) (w ++ rest) = some (.of t, rest) := by
  rcases word_cases h with ⟨rfl, rfl⟩ | ⟨rfl, rfl⟩ | ⟨rfl, rfl⟩ | ⟨hnumber, rfl⟩
  · refine ⟨.null, rfl, ?_⟩
    rw [parse_value, if_pos (head_of_word (by decide)), expect_literal_append]
    rfl
  · refine ⟨.bool true, rfl, ?_⟩
    have hhead : (lit "true" ++ rest).head? = some 116 := head_of_word (by decide)
    rw [parse_value, hhead, if_neg (by decide), if_neg (by decide), if_pos rfl, expect_literal_append]
    rfl
  · refine ⟨.bool false, rfl, ?_⟩
    have hhead : (lit "false" ++ rest).head? = some 102 := head_of_word (by decide)
    rw [parse_value, hhead, if_neg (by decide), if_pos rfl, expect_literal_append]
    rfl
  · refine ⟨.number w, rfl, ?_⟩
    cases w with
    | nil => cases hnumber
    | cons b w =>
      have hno : ∀ c : UInt8, c ≠ 45 → isDigit c = false → ¬ (b :: w ++ rest).head? = some c := by
        intro c hminus hdigit he
        cases he
        rcases number_head hnumber with rfl | hb
        · exact hminus rfl
        · rw [hb] at hdigit
          cases hdigit
      rw [parse_value, if_neg (hno _ (by decide) (by decide)), if_neg (hno _ (by decide) (by decide)),
        if_neg (hno _ (by decide) (by decide)), if_neg (hno _ (by decide) (by decide)), if_neg (hno _ (by decide) (by decide)),
        if_neg (hno _ (by decide) (by decide)), parse_number_append hnumber hends]
      rfl

/-- A value that is one word. -/
theorem takes_one {t : Node} {tok : Token} {s : Bytes} {ts : List Token} {fuel : ℕ} (ht : t.tokens = [tok]) (hpunct : ∀ p, tok ≠ .punct p)
    (hstring : ∀ o, tok ≠ .string o) (hblank : ∀ b ∈ s.head?, isBlank b = false) (h : lex s = some (t.tokens ++ ts)) (hfuel : 0 < fuel) :
    ∃ rest, parse_value fuel s = some (.of t, rest) ∧ lex rest = some ts ∧ rest.length < s.length := by
  rw [ht] at h
  obtain ⟨w, rest, rfl, hne, hends, hword, hrest⟩ := word_of_first hblank h hpunct hstring
  obtain ⟨fuel, rfl⟩ := Nat.exists_eq_succ_of_ne_zero hfuel.ne'
  obtain ⟨t', ht', hparse⟩ := parse_word hends hword fuel
  have htokens : t.tokens ++ [] = t'.tokens ++ [] := by rw [ht, ht']
  have hsame : t = t' := (tokens_append_inj t t' htokens).1
  rw [← hsame] at hparse
  refine ⟨rest, hparse, hrest, ?_⟩
  have := List.length_pos_iff.mpr hne
  rw [List.length_append]
  omega

mutual

/-- By recursion on the value, whose tokens the text begins with. -/
theorem value_complete : (t : Node) → {s : Bytes} → {ts : List Token} → {fuel : ℕ} → nulFree t = true →
    (∀ b ∈ s.head?, isBlank b = false) → lex s = some (t.tokens ++ ts) → 3 * s.length + 3 ≤ fuel →
    ∃ rest, parse_value fuel s = some (.of t, rest) ∧ lex rest = some ts ∧ rest.length < s.length
  | .null, s, ts, fuel, _, hblank, h, hfuel => takes_one rfl nofun nofun hblank h (by omega)
  | .bool b, s, ts, fuel, _, hblank, h, hfuel => takes_one rfl nofun nofun hblank h (by omega)
  | .number w, s, ts, fuel, _, hblank, h, hfuel => takes_one rfl nofun nofun hblank h (by omega)
  | .string o, s, ts, fuel, hnul, hblank, h, hfuel => by
    obtain ⟨fuel, rfl⟩ : ∃ n, fuel = n + 1 := ⟨fuel - 1, by omega⟩
    have hnul' : 0 ∉ o := by simpa [nulFree] using hnul
    obtain ⟨rest, hparse, hrest, hlt, hhead⟩ := string_of_first hblank h hnul'
    refine ⟨rest, ?_, hrest, hlt⟩
    rw [parse_value, hhead, if_neg (by decide), if_neg (by decide), if_neg (by decide), if_pos rfl, hparse]
    rfl
  | .array [], s, ts, fuel, _, hblank, h, hfuel => by
    obtain ⟨fuel, rfl⟩ : ∃ n, fuel = n + 2 := ⟨fuel - 2, by omega⟩
    obtain ⟨hhead, hrest, hlt⟩ := punct_of_first (p := 91) h
    rw [skip_space_of_head hblank] at hhead hrest hlt
    obtain ⟨hclose, hrest', hlt'⟩ := punct_of_first (p := 93) hrest
    refine ⟨(skip_space s.tail).tail, ?_, hrest', by omega⟩
    rw [parse_value, hhead, if_neg (by decide), if_neg (by decide), if_neg (by decide), if_neg (by decide), if_pos rfl, parse_array,
      if_pos hclose]
    rfl
  | .array (x :: xs), s, ts, fuel, hnul, hblank, h, hfuel => by
    obtain ⟨fuel, rfl⟩ : ∃ n, fuel = n + 2 := ⟨fuel - 2, by omega⟩
    rw [Node.tokens, List.cons_append, List.append_assoc] at h
    obtain ⟨hhead, hrest, hlt⟩ := punct_of_first h
    rw [skip_space_of_head hblank] at hhead hrest hlt
    have hopen : ¬ (skip_space s.tail).head? = some 93 := by
      intro hclose
      rw [lex_mark hclose (by decide)] at hrest
      obtain ⟨us, -, he⟩ := Option.map_eq_some_iff.mp hrest
      exact tokens_ne_close x _ _ he.symm
    rw [← lex_skip_space] at hrest
    have hlen := skip_space_length s.tail
    obtain ⟨rest, hparse, hlex, hlt'⟩ :=
      elements_complete (x :: xs) (List.cons_ne_nil _ _) hnul (skip_space_head s.tail)
        (by rw [hrest, moreElements, List.tail_cons, List.append_assoc]) (show 3 * _ + 4 ≤ fuel by omega)
    refine ⟨rest, ?_, hlex, by omega⟩
    rw [parse_value, hhead, if_neg (by decide), if_neg (by decide), if_neg (by decide), if_neg (by decide), if_pos rfl, parse_array,
      if_neg hopen, hparse]
    rfl
  | .object [], s, ts, fuel, _, hblank, h, hfuel => by
    obtain ⟨fuel, rfl⟩ : ∃ n, fuel = n + 2 := ⟨fuel - 2, by omega⟩
    obtain ⟨hhead, hrest, hlt⟩ := punct_of_first (p := 123) h
    rw [skip_space_of_head hblank] at hhead hrest hlt
    obtain ⟨hclose, hrest', hlt'⟩ := punct_of_first (p := 125) hrest
    refine ⟨(skip_space s.tail).tail, ?_, hrest', by omega⟩
    rw [parse_value, hhead, if_neg (by decide), if_neg (by decide), if_neg (by decide), if_neg (by decide), if_neg (by decide), if_pos rfl,
      parse_object, if_pos hclose]
    rfl
  | .object ((key, x) :: ms), s, ts, fuel, hnul, hblank, h, hfuel => by
    obtain ⟨fuel, rfl⟩ : ∃ n, fuel = n + 2 := ⟨fuel - 2, by omega⟩
    rw [Node.tokens, List.cons_append, List.cons_append, List.cons_append, List.append_assoc] at h
    obtain ⟨hhead, hrest, hlt⟩ := punct_of_first h
    rw [skip_space_of_head hblank] at hhead hrest hlt
    have hopen : ¬ (skip_space s.tail).head? = some 125 := by
      intro hclose
      rw [lex_mark hclose (by decide)] at hrest
      obtain ⟨us, -, he⟩ := Option.map_eq_some_iff.mp hrest
      cases he
    rw [← lex_skip_space] at hrest
    have hlen := skip_space_length s.tail
    obtain ⟨rest, hparse, hlex, hlt'⟩ :=
      members_complete ((key, x) :: ms) (List.cons_ne_nil _ _) hnul (skip_space_head s.tail)
        (by rw [hrest, moreMembers, List.tail_cons, List.cons_append, List.cons_append, List.append_assoc])
        (show 3 * _ + 4 ≤ fuel by omega)
    refine ⟨rest, ?_, hlex, by omega⟩
    rw [parse_value, hhead, if_neg (by decide), if_neg (by decide), if_neg (by decide), if_neg (by decide), if_neg (by decide), if_pos rfl,
      parse_object, if_neg hopen, hparse]
    rfl

/-- The loop of an array that has elements. -/
theorem elements_complete : (xs : List Node) → {s : Bytes} → {ts : List Token} → {fuel : ℕ} → xs ≠ [] → elementsNulFree xs = true →
    (∀ b ∈ s.head?, isBlank b = false) → lex s = some ((moreElements xs).tail ++ ts) → 3 * s.length + 4 ≤ fuel →
    ∃ rest, parseElements fuel s = some (elementsOf xs, rest) ∧ lex rest = some ts ∧ rest.length < s.length
  | [], s, ts, fuel, hne, _, _, _, _ => absurd rfl hne
  | [x], s, ts, fuel, _, hnul, hblank, h, hfuel => by
    obtain ⟨fuel, rfl⟩ : ∃ n, fuel = n + 1 := ⟨fuel - 1, by omega⟩
    have hx : nulFree x = true := by simpa [elementsNulFree] using hnul
    rw [moreElements, List.tail_cons, List.append_assoc] at h
    obtain ⟨rest, hparse, hlex, hlt⟩ := value_complete x hx hblank h (show 3 * _ + 3 ≤ fuel by omega)
    obtain ⟨hclose, hrest, hlt'⟩ := punct_of_first (p := 93) hlex
    refine ⟨(skip_space rest).tail, ?_, hrest, by omega⟩
    rw [parseElements, hparse, Option.bind_eq_bind, Option.bind_some]
    dsimp only
    rw [if_pos hclose]
    rfl
  | x :: y :: ys, s, ts, fuel, _, hnul, hblank, h, hfuel => by
    obtain ⟨fuel, rfl⟩ : ∃ n, fuel = n + 1 := ⟨fuel - 1, by omega⟩
    rw [elementsNulFree, Bool.and_eq_true] at hnul
    rw [moreElements, List.tail_cons, List.append_assoc] at h
    obtain ⟨rest, hparse, hlex, hlt⟩ := value_complete x hnul.1 hblank h (show 3 * _ + 3 ≤ fuel by omega)
    obtain ⟨hcomma, hrest, hlt'⟩ := punct_of_first (p := 44) hlex
    rw [← lex_skip_space] at hrest
    have hlen := skip_space_length (skip_space rest).tail
    obtain ⟨rest', hparse', hlex', hlt''⟩ := elements_complete (y :: ys) (List.cons_ne_nil _ _) hnul.2
      (skip_space_head (skip_space rest).tail) hrest (show 3 * _ + 4 ≤ fuel by omega)
    refine ⟨rest', ?_, hlex', by omega⟩
    rw [parseElements, hparse, Option.bind_eq_bind, Option.bind_some]
    dsimp only
    rw [hcomma, if_neg (by decide), if_pos rfl, hparse']
    rfl

theorem members_complete : (ms : List (Bytes × Node)) → {s : Bytes} → {ts : List Token} → {fuel : ℕ} → ms ≠ [] → membersNulFree ms = true →
    (∀ b ∈ s.head?, isBlank b = false) → lex s = some ((moreMembers ms).tail ++ ts) → 3 * s.length + 4 ≤ fuel →
    ∃ rest, parseMembers fuel s = some (membersOf ms, rest) ∧ lex rest = some ts ∧ rest.length < s.length
  | [], s, ts, fuel, hne, _, _, _, _ => absurd rfl hne
  | [(key, x)], s, ts, fuel, _, hnul, hblank, h, hfuel => by
    obtain ⟨fuel, rfl⟩ : ∃ n, fuel = n + 1 := ⟨fuel - 1, by omega⟩
    simp only [membersNulFree, Bool.and_true, Bool.and_eq_true, Bool.not_eq_true', List.elem_eq_mem, decide_eq_false_iff_not] at hnul
    rw [moreMembers, List.tail_cons, List.cons_append, List.cons_append, List.append_assoc] at h
    obtain ⟨u, hkey, hu, hlt, -⟩ := string_of_first hblank h hnul.1
    obtain ⟨hcolon, hvalue, hlt'⟩ := punct_of_first (p := 58) hu
    rw [← lex_skip_space] at hvalue
    have hlen := skip_space_length (skip_space u).tail
    obtain ⟨rest, hparse, hlex, hlt''⟩ := value_complete x hnul.2 (skip_space_head _) hvalue (show 3 * _ + 3 ≤ fuel by omega)
    obtain ⟨hclose, hrest, hlt'''⟩ := punct_of_first (p := 125) hlex
    refine ⟨(skip_space rest).tail, ?_, hrest, by omega⟩
    rw [parseMembers, hkey, Option.bind_eq_bind, Option.bind_some]
    dsimp only
    rw [if_pos hcolon, hparse, Option.bind_eq_bind, Option.bind_some]
    dsimp only
    rw [if_pos hclose]
    rfl
  | (key, x) :: m :: ms, s, ts, fuel, _, hnul, hblank, h, hfuel => by
    obtain ⟨fuel, rfl⟩ : ∃ n, fuel = n + 1 := ⟨fuel - 1, by omega⟩
    rw [membersNulFree, Bool.and_eq_true, Bool.and_eq_true, Bool.not_eq_true', List.elem_eq_mem, decide_eq_false_iff_not] at hnul
    rw [moreMembers, List.tail_cons, List.cons_append, List.cons_append, List.append_assoc] at h
    obtain ⟨u, hkey, hu, hlt, -⟩ := string_of_first hblank h hnul.1.1
    obtain ⟨hcolon, hvalue, hlt'⟩ := punct_of_first (p := 58) hu
    rw [← lex_skip_space] at hvalue
    have hlen := skip_space_length (skip_space u).tail
    obtain ⟨rest, hparse, hlex, hlt''⟩ := value_complete x hnul.1.2 (skip_space_head _) hvalue (show 3 * _ + 3 ≤ fuel by omega)
    obtain ⟨hcomma, hrest, hlt'''⟩ := punct_of_first (p := 44) hlex
    rw [← lex_skip_space] at hrest
    have hlen' := skip_space_length (skip_space rest).tail
    obtain ⟨rest', hparse', hlex', hlt4⟩ := members_complete (m :: ms) (List.cons_ne_nil _ _) hnul.2
      (skip_space_head (skip_space rest).tail) hrest (show 3 * _ + 4 ≤ fuel by omega)
    refine ⟨rest', ?_, hlex', by omega⟩
    rw [parseMembers, hkey, Option.bind_eq_bind, Option.bind_some]
    dsimp only
    rw [if_pos hcolon, hparse, Option.bind_eq_bind, Option.bind_some]
    dsimp only
    rw [hcomma, if_neg (by decide), if_pos rfl, hparse']
    rfl

end

/-! ## json_decode -/

/-- What is decoded: the JSON texts without `\u0000`, as their values. -/
theorem json_decode_iff (json : Bytes) (v : JsonNode) :
    json_decode json = some v ↔ ∃ t : Node, Denotes (cString json) t ∧ nulFree t = true ∧ v = .of t := by
  unfold json_decode Denotes
  rw [← lex_skip_space (cString json)]
  dsimp only
  constructor
  · intro h
    obtain ⟨⟨ret, rest⟩, hparse, h⟩ := Option.bind_eq_some_iff.mp h
    dsimp only at h
    split at h
    · cases h
      rename_i hempty
      rw [List.isEmpty_iff] at hempty
      obtain ⟨t, rfl, hnul, hlex⟩ := (parse_sound _).1 _ _ _ hparse (endsWord_of_empty hempty)
      refine ⟨t, ?_, hnul, rfl⟩
      rw [hlex, ← lex_skip_space, hempty]
      simp [lex, run, finish]
    · cases h
  · rintro ⟨t, ht, hnul, rfl⟩
    rw [← List.append_nil t.tokens] at ht
    obtain ⟨rest, hparse, hrest, -⟩ := value_complete t hnul (skip_space_head _) ht (le_refl _)
    have hempty : skip_space rest = [] := eq_nil_of_lex (skip_space_head rest) (by rw [lex_skip_space, hrest])
    rw [hparse, Option.bind_eq_bind, Option.bind_some]
    dsimp only
    rw [hempty]
    rfl

end FitsWebQL
