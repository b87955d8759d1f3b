/-
  FitsWebQL.JsonParse — the parser of `json.c` (`json_decode` and the `parse_*` it calls).
  A text is a C string, what stands at `*s` behind its end is the NUL. A number is what
  `strtod` makes of the text from its first character on, wherever the number ends.

  The parser goes down into a value by calling itself; `fuel` bounds calls and turns of
  the loops, and three for each byte are enough.
-/

import FitsWebQL.CutOut
import FitsWebQL.JsonString
import FitsWebQL.Persist
import FitsWebQL.Lib.JsonLexer

namespace FitsWebQL

open Lib.JsonText

/-- `JsonNode`; an object has its members in order, a key may be there twice. -/
inductive JsonNode
  | null
  | bool (b : Bool)
  | string (s : Bytes)
  | number (n : Double)
  | array (elements : List JsonNode)
  | object (members : List (Bytes × JsonNode))

/-! ## Characters -/

def is_space (c : UInt8) : Bool := c == 9 || c == 10 || c == 13 || c == 32

def skip_space (s : Bytes) : Bytes := s.dropWhile is_space

def expect_literal : Bytes → Bytes → Option Bytes
  | s, [] => some s
  | [], _ :: _ => none
  | a :: s, b :: str => if a = b then expect_literal s str else none

def parse_hex16 : Bytes → Option (ℕ × Bytes)
  | a :: b :: c :: d :: s => do
    let a ← hexDigit? a
    let b ← hexDigit? b
    let c ← hexDigit? c
    let d ← hexDigit? d
    some (((a * 16 + b) * 16 + c) * 16 + d, s)
  | _ => none

def from_surrogate_pair (uc lc : ℕ) : Option ℕ :=
  if 0xD800 ≤ uc ∧ uc ≤ 0xDBFF ∧ 0xDC00 ≤ lc ∧ lc ≤ 0xDFFF then some (0x10000 + ((uc &&& 0x3FF) <<< 10 ||| lc &&& 0x3FF)) else none

def utf8_write_char (unicode : ℕ) : Bytes :=
  if unicode ≤ 0x7F then [UInt8.ofNat unicode]
  else if unicode ≤ 0x7FF then [UInt8.ofNat (0xC0 ||| unicode >>> 6), UInt8.ofNat (0x80 ||| unicode &&& 0x3F)]
  else if unicode ≤ 0xFFFF then
    [UInt8.ofNat (0xE0 ||| unicode >>> 12), UInt8.ofNat (0x80 ||| unicode >>> 6 &&& 0x3F), UInt8.ofNat (0x80 ||| unicode &&& 0x3F)]
  else
    [UInt8.ofNat (0xF0 ||| unicode >>> 18), UInt8.ofNat (0x80 ||| unicode >>> 12 &&& 0x3F),
      UInt8.ofNat (0x80 ||| unicode >>> 6 &&& 0x3F), UInt8.ofNat (0x80 ||| unicode &&& 0x3F)]

/-! ## Strings -/

/-- Behind `\u`: the bytes written, and where the text goes on. -/
def parse_unicode (s : Bytes) : Option (Bytes × Bytes) := do
  let (uc, s) ← parse_hex16 s
  if 0xD800 ≤ uc ∧ uc ≤ 0xDFFF then
    match s with
    | 92 :: 117 :: s =>
      let (lc, s) ← parse_hex16 s
      let unicode ← from_surrogate_pair uc lc
      some (utf8_write_char unicode, s)
    | _ => none
  else if uc = 0 then none
  else some (utf8_write_char uc, s)

def parse_escape : Bytes → Option (Bytes × Bytes)
  | [] => none
  | c :: s =>
    if c = 34 ∨ c = 92 ∨ c = 47 then some ([c], s)
    else if c = 98 then some ([8], s)
    else if c = 102 then some ([12], s)
    else if c = 110 then some ([10], s)
    else if c = 114 then some ([13], s)
    else if c = 116 then some ([9], s)
    else if c = 117 then parse_unicode s
    else none

def parse_char : Bytes → Option (Bytes × Bytes)
  | [] => none
  | c :: s =>
    if c = 92 then parse_escape s
    else if c ≤ 0x1F then none
    else if utf8_validate_cz (c :: s) = 0 then none
    else some ((c :: s).take (utf8_validate_cz (c :: s)), (c :: s).drop (utf8_validate_cz (c :: s)))

theorem parse_hex16_some {s rest : Bytes} {n : ℕ} (h : parse_hex16 s = some (n, rest)) :
    ∃ ds, ds.length = 4 ∧ (∀ b ∈ ds, hexDigit? b ≠ none) ∧ codeUnit ds = n ∧ s = ds ++ rest := by
  match s with
  | [] | [_] | [_, _] | [_, _, _] => cases h
  | a :: b :: c :: d :: s =>
    simp only [parse_hex16, Option.bind_eq_bind, Option.bind_eq_some_iff] at h
    obtain ⟨a', ha, b', hb, c', hc, d', hd, hn⟩ := h
    cases hn
    exact ⟨[a, b, c, d], rfl, by simp [ha, hb, hc, hd], by simp [codeUnit, ha, hb, hc, hd, mul_comm], rfl⟩

theorem parse_unicode_shorter {s b rest : Bytes} (h : parse_unicode s = some (b, rest)) : rest.length < s.length := by
  simp only [parse_unicode, Option.bind_eq_bind, Option.bind_eq_some_iff, Prod.exists] at h
  obtain ⟨uc, t, huc, h⟩ := h
  obtain ⟨ds, hlen, -, -, rfl⟩ := parse_hex16_some huc
  rw [List.length_append, hlen]
  split at h
  · split at h
    · simp only [Option.bind_eq_some_iff, Prod.exists] at h
      obtain ⟨lc, u, hlc, unicode, -, hu⟩ := h
      obtain ⟨es, hlen', -, -, rfl⟩ := parse_hex16_some hlc
      cases hu
      simp only [List.length_cons, List.length_append]
      omega
    · cases h
  · split at h
    · cases h
    · cases h
      omega

theorem parse_escape_shorter {s b rest : Bytes} (h : parse_escape s = some (b, rest)) : rest.length < s.length := by
  cases s with
  | nil => cases h
  | cons c s =>
    rw [List.length_cons]
    simp only [parse_escape] at h
    split_ifs at h
    · cases h; omega
    · cases h; omega
    · cases h; omega
    · cases h; omega
    · cases h; omega
    · cases h; omega
    · have := parse_unicode_shorter h
      omega

theorem parse_char_shorter {s b rest : Bytes} (h : parse_char s = some (b, rest)) : rest.length < s.length := by
  cases s with
  | nil => cases h
  | cons c s =>
    simp only [parse_char] at h
    split_ifs at h
    · have := parse_escape_shorter h
      rw [List.length_cons]
      omega
    · cases h
      rw [List.length_drop, List.length_cons]
      omega

/-- Behind the opening quote: what the string holds, and where the text goes on. -/
def parseChars (s : Bytes) : Option (Bytes × Bytes) :=
  if s.head? = some 34 then some ([], s.tail)
  else
    match _h : parse_char s with
    | none => none
    | some (b, rest) => (parseChars rest).map fun r => (b ++ r.1, r.2)
termination_by s.length
decreasing_by exact parse_char_shorter ‹_›

def parse_string : Bytes → Option (Bytes × Bytes)
  | [] => none
  | c :: s => if c = 34 then parseChars s else none

/-! ## Numbers -/

/-- `if (!is_digit(*s)) return false; do s++; while (is_digit(*s));` -/
def skip_digits (s : Bytes) : Option Bytes := if (s.takeWhile isdigit).isEmpty then none else some (s.dropWhile isdigit)

/-- `([Ee] [+-]? [0-9]+)?` -/
def skip_exponent (t : Bytes) : Option Bytes :=
  if t.head? = some 69 ∨ t.head? = some 101 then
    skip_digits (if t.tail.head? = some 43 ∨ t.tail.head? = some 45 then t.tail.tail else t.tail)
  else some t

/-- `('.' [0-9]+)?`, and the exponent. -/
def skip_fraction (t : Bytes) : Option Bytes := (if t.head? = some 46 then skip_digits t.tail else some t).bind skip_exponent

/-- `(0 | [1-9][0-9]*)`, and the rest. -/
def skip_unsigned (t : Bytes) : Option Bytes := (if t.head? = some 48 then some t.tail else skip_digits t).bind skip_fraction

def parse_number (s : Bytes) : Option (Double × Bytes) :=
  (skip_unsigned (if s.head? = some 45 then s.tail else s)).map fun t => (Double.of (doubleValue s), t)

/-! ## Values -/

mutual

def parse_value : ℕ → Bytes → Option (JsonNode × Bytes)
  | 0, _ => none
  | fuel + 1, s =>
    if s.head? = some 110 then (expect_literal s (lit "null")).map fun s => (.null, s)
    else if s.head? = some 102 then (expect_literal s (lit "false")).map fun s => (.bool false, s)
    else if s.head? = some 116 then (expect_literal s (lit "true")).map fun s => (.bool true, s)
    else if s.head? = some 34 then (parse_string s).map fun r => (.string r.1, r.2)
    else if s.head? = some 91 then parse_array fuel s
    else if s.head? = some 123 then parse_object fuel s
    else (parse_number s).map fun r => (.number r.1, r.2)

def parse_array : ℕ → Bytes → Option (JsonNode × Bytes)
  | 0, _ => none
  | fuel + 1, s =>
    let s := skip_space s.tail
    if s.head? = some 93 then some (.array [], s.tail)
    else (parseElements fuel s).map fun r => (.array r.1, r.2)

def parseElements : ℕ → Bytes → Option (List JsonNode × Bytes)
  | 0, _ => none
  | fuel + 1, s => do
    let (element, s) ← parse_value fuel s
    let s := skip_space s
    if s.head? = some 93 then some ([element], s.tail)
    else if s.head? = some 44 then (parseElements fuel (skip_space s.tail)).map fun r => (element :: r.1, r.2)
    else none

def parse_object : ℕ → Bytes → Option (JsonNode × Bytes)
  | 0, _ => none
  | fuel + 1, s =>
    let s := skip_space s.tail
    if s.head? = some 125 then some (.object [], s.tail)
    else (parseMembers fuel s).map fun r => (.object r.1, r.2)

def parseMembers : ℕ → Bytes → Option (List (Bytes × JsonNode) × Bytes)
  | 0, _ => none
  | fuel + 1, s => do
    let (key, s) ← parse_string s
    let s := skip_space s
    if s.head? = some 58 then
      let (value, s) ← parse_value fuel (skip_space s.tail)
      let s := skip_space s
      if s.head? = some 125 then some ([(key, value)], s.tail)
      else if s.head? = some 44 then (parseMembers fuel (skip_space s.tail)).map fun r => ((key, value) :: r.1, r.2)
      else none
    else none

end

def json_decode (json : Bytes) : Option JsonNode := do
  let s := skip_space (cString json)
  let (ret, s) ← parse_value (3 * s.length + 3) s
  if (skip_space s).isEmpty then some ret else none

/-! ## Strings are read as the grammar reads them -/

theorem or_low (c m k a : ℕ) (hc : c = 2 ^ k * a) (hm : m < 2 ^ k) : c ||| m = m + c := by
  rw [hc, ← Nat.two_pow_add_eq_or_of_lt hm, add_comm]

theorem from_surrogate_pair_eq {uc lc : ℕ} (h : 0xD800 ≤ uc ∧ uc ≤ 0xDBFF ∧ 0xDC00 ≤ lc ∧ lc ≤ 0xDFFF) :
    from_surrogate_pair uc lc = some (0x10000 + (uc - 0xD800) * 0x400 + (lc - 0xDC00)) := by
  have hand : ∀ n : ℕ, n &&& 0x3FF = n % 1024 := fun n => Nat.and_two_pow_sub_one_eq_mod n 10
  have hshift : (uc % 1024) <<< 10 = 2 ^ 10 * (uc % 1024) := by rw [Nat.shiftLeft_eq, mul_comm]
  rw [from_surrogate_pair, if_pos h, hand, hand, or_low _ (lc % 1024) 10 (uc % 1024) hshift (by omega), hshift]
  refine congrArg some ?_
  omega

theorem utf8_write_char_eq {n : ℕ} (h : IsScalar n) : utf8_write_char n = encodePoint n := by
  have hand : ∀ m : ℕ, m &&& 0x3F = m % 64 := fun m => Nat.and_two_pow_sub_one_eq_mod m 6
  have htail : ∀ m : ℕ, 0x80 ||| m % 64 = m % 64 + 0x80 := fun m => or_low 0x80 (m % 64) 6 2 rfl (by omega)
  have htwo : ∀ m, m < 0x800 → 0xC0 ||| m / 64 = m / 64 % 0x20 + 0xC0 := fun m hm => by
    rw [or_low 0xC0 (m / 64) 6 3 rfl (by omega), Nat.mod_eq_of_lt (by omega)]
  have hthree : ∀ m, m < 0x10000 → 0xE0 ||| m / 4096 = m / 4096 % 0x10 + 0xE0 := fun m hm => by
    rw [or_low 0xE0 (m / 4096) 5 7 rfl (by omega), Nat.mod_eq_of_lt (by omega)]
  have hfour : ∀ m, m < 0x110000 → 0xF0 ||| m / 262144 = m / 262144 % 8 + 0xF0 := fun m hm => by
    rw [or_low 0xF0 (m / 262144) 4 15 rfl (by omega), Nat.mod_eq_of_lt (by omega)]
  unfold utf8_write_char encodePoint String.utf8EncodeChar
  rw [charOfNat_val h]
  unfold IsScalar at h
  simp only [Nat.shiftRight_eq_div_pow, Nat.reducePow, hand, htail]
  split_ifs with h1 h2 h3
  · rfl
  · rw [htwo n (by omega)]
  · rw [hthree n (by omega)]
  · rw [hfour n (by omega)]

theorem lex_hex {ds : Bytes} (hlen : ds.length = 4) (hhex : ∀ b ∈ ds, hexDigit? b ≠ none) (out : Bytes) (surrogate : Option ℕ)
    (s : Bytes) : lexFrom (.hex out surrogate []) (ds ++ s) = (unicode out (codeUnit ds) surrogate).bind fun m => lexFrom m s := by
  match ds, hlen with
  | [a, b, c, d], _ =>
    simp only [List.forall_mem_cons] at hhex
    obtain ⟨ha, hb, hc, hd, -⟩ := hhex
    simp [lexFrom_cons, step, ha, hb, hc, hd, Option.bind_map, Function.comp_def]

theorem lex_hex_none {s : Bytes} (h : parse_hex16 s = none) (out : Bytes) (surrogate : Option ℕ) :
    lexFrom (.hex out surrogate []) s = none := by
  have hstep : ∀ ds b t, hexDigit? b = none → lexFrom (.hex out surrogate ds) (b :: t) = none := fun ds b t hb => by
    simp [lexFrom_cons, step, hb]
  have hgo : ∀ ds b t, ds.length < 3 → hexDigit? b ≠ none →
      lexFrom (.hex out surrogate ds) (b :: t) = lexFrom (.hex out surrogate (ds ++ [b])) t := fun ds b t hds hb => by
    simp [lexFrom_cons, step, hb, hds]
  have hend : ∀ ds, lexFrom (.hex out surrogate ds) [] = none := fun ds => lexFrom_nil _
  -- the text ends, or a character is no digit
  rcases s with _ | ⟨a, s⟩
  · exact hend _
  by_cases ha : hexDigit? a = none
  · exact hstep _ _ _ ha
  rw [hgo _ _ _ (by decide) ha]
  rcases s with _ | ⟨b, s⟩
  · exact hend _
  by_cases hb : hexDigit? b = none
  · exact hstep _ _ _ hb
  rw [hgo _ _ _ (by simp) hb]
  rcases s with _ | ⟨c, s⟩
  · exact hend _
  by_cases hc : hexDigit? c = none
  · exact hstep _ _ _ hc
  rw [hgo _ _ _ (by simp) hc]
  rcases s with _ | ⟨d, s⟩
  · exact hend _
  by_cases hd : hexDigit? d = none
  · exact hstep _ _ _ hd
  obtain ⟨a', ha⟩ := Option.ne_none_iff_exists'.mp ha
  obtain ⟨b', hb⟩ := Option.ne_none_iff_exists'.mp hb
  obtain ⟨c', hc⟩ := Option.ne_none_iff_exists'.mp hc
  obtain ⟨d', hd⟩ := Option.ne_none_iff_exists'.mp hd
  simp [parse_hex16, ha, hb, hc, hd] at h

theorem codeUnit_lt {ds : Bytes} (hlen : ds.length = 4) (hhex : ∀ b ∈ ds, hexDigit? b ≠ none) : codeUnit ds < 0x10000 := by
  have hdigit : ∀ b : UInt8, (hexDigit? b).getD 0 < 16 := by
    have hall : ∀ n : Fin 256, (hexDigit? (UInt8.ofNat n)).getD 0 < 16 := by decide +kernel
    intro b
    have hb := hall ⟨b.toNat, b.toNat_lt⟩
    rwa [UInt8.ofNat_toNat] at hb
  match ds, hlen with
  | [a, b, c, d], _ =>
    simp only [codeUnit, List.foldl_cons, List.foldl_nil]
    have := hdigit a
    have := hdigit b
    have := hdigit c
    have := hdigit d
    omega

theorem encodePoint_ne_nul {n : ℕ} (h : IsScalar n) (h0 : n ≠ 0) : 0 ∉ encodePoint n := by
  have hne : ∀ m, 0 < m → m < 256 → (0 : UInt8) ≠ UInt8.ofNat m := fun m hm hlt he => by
    have hz := congrArg UInt8.toNat he
    rw [ofNat_toNat hlt] at hz
    exact hm.ne hz
  unfold encodePoint String.utf8EncodeChar
  rw [charOfNat_val h]
  unfold IsScalar at h
  dsimp only
  split_ifs <;> simp only [List.mem_cons, List.not_mem_nil, or_false, not_or]
  · exact hne _ (by omega) (by omega)
  · exact ⟨hne _ (by omega) (by omega), hne _ (by omega) (by omega)⟩
  · exact ⟨hne _ (by omega) (by omega), hne _ (by omega) (by omega), hne _ (by omega) (by omega)⟩
  · exact ⟨hne _ (by omega) (by omega), hne _ (by omega) (by omega), hne _ (by omega) (by omega), hne _ (by omega) (by omega)⟩

/-- What a turn of the parser's loop must do: the grammar's reader is behind the same
    bytes, with the same whole characters decoded. -/
def TurnOf (m : Mode) (s out b rest : Bytes) : Prop :=
  lexFrom m s = lexFrom (.text (out ++ b)) rest ∧ isUtf8 b = true ∧ b ≠ [] ∧ 0 ∉ b

/-- Where the parser gives up, the grammar does too, but for a string that holds a NUL. -/
def GivenUp (m : Mode) (s : Bytes) : Prop := ∀ o us, lexFrom m s = some (.string o :: us) → 0 ∈ o

theorem givenUp_of_none {m : Mode} {s : Bytes} (h : lexFrom m s = none) : GivenUp m s := by
  intro o us hlex
  rw [h] at hlex
  cases hlex

theorem turn_of_point {m : Mode} {s out rest : Bytes} {n : ℕ} (hn : IsScalar n) (h0 : n ≠ 0)
    (h : lexFrom m s = lexFrom (.text (out ++ encodePoint n)) rest) : TurnOf m s out (utf8_write_char n) rest := by
  rw [TurnOf, utf8_write_char_eq hn]
  refine ⟨h, utf8_encodePoint hn, ?_, encodePoint_ne_nul hn h0⟩
  unfold encodePoint String.utf8EncodeChar
  dsimp only
  split_ifs <;> exact List.cons_ne_nil _ _

theorem lex_unicode {s b rest : Bytes} (h : parse_unicode s = some (b, rest)) (out : Bytes) :
    TurnOf (.hex out none []) s out b rest := by
  simp only [parse_unicode, Option.bind_eq_bind, Option.bind_eq_some_iff, Prod.exists] at h
  obtain ⟨uc, t, huc, h⟩ := h
  obtain ⟨ds, hlen, hhex, rfl, rfl⟩ := parse_hex16_some huc
  have hlt := codeUnit_lt hlen hhex
  split at h
  · rename_i hsurrogate
    split at h
    · simp only [Option.bind_eq_some_iff, Prod.exists] at h
      obtain ⟨lc, u, hlc, unicode, hpair, hu⟩ := h
      obtain ⟨es, hlen', hhex', rfl, rfl⟩ := parse_hex16_some hlc
      cases hu
      have hrange : 0xD800 ≤ codeUnit ds ∧ codeUnit ds ≤ 0xDBFF ∧ 0xDC00 ≤ codeUnit es ∧ codeUnit es ≤ 0xDFFF := by
        by_contra hnot
        simp [from_surrogate_pair, hnot] at hpair
      rw [from_surrogate_pair_eq hrange] at hpair
      have hvalue := Option.some.inj hpair
      subst hvalue
      refine turn_of_point (by unfold IsScalar; omega) (by omega) ?_
      rw [lex_hex hlen hhex, Lib.JsonText.unicode, if_pos (by omega), Option.bind_some, lexFrom_cons, step, if_pos rfl, Option.bind_some,
        lexFrom_cons, step, if_pos rfl, Option.bind_some]
      simp only [List.nil_append, Option.map_id']
      rw [lex_hex hlen' hhex', Lib.JsonText.unicode, if_pos (by omega), Option.bind_some]
    · cases h
  · rename_i hnone
    split at h
    · cases h
    · cases h
      refine turn_of_point (by unfold IsScalar; omega) ‹_› ?_
      rw [lex_hex hlen hhex, Lib.JsonText.unicode, if_neg (by omega), if_neg (by omega), Option.bind_some]

theorem lex_unicode_none {s : Bytes} (h : parse_unicode s = none) (out : Bytes) : GivenUp (.hex out none []) s := by
  intro o us hlex
  simp only [parse_unicode, Option.bind_eq_bind] at h
  cases huc : parse_hex16 s with
  | none =>
    rw [lex_hex_none huc] at hlex
    cases hlex
  | some r =>
    obtain ⟨uc, t⟩ := r
    obtain ⟨ds, hlen, hhex, rfl, rfl⟩ := parse_hex16_some huc
    rw [lex_hex hlen hhex, Lib.JsonText.unicode] at hlex
    rw [huc, Option.bind_some] at h
    dsimp only at h
    split at h
    · rename_i hsurrogate
      by_cases hhigh : codeUnit ds < 0xDC00
      · rw [if_pos ⟨hsurrogate.1, hhigh⟩, Option.bind_some] at hlex
        -- a low surrogate has to follow
        rcases t with _ | ⟨c, t⟩
        · cases hlex
        rcases t with _ | ⟨d, u⟩
        · rw [lexFrom_cons, step] at hlex
          split_ifs at hlex <;> cases hlex
        rw [lexFrom_cons, step] at hlex
        by_cases hc : c = 92
        · rw [if_pos hc, Option.bind_some, lexFrom_cons, step] at hlex
          by_cases hd : d = 117
          · rw [if_pos hd, Option.bind_some] at hlex
            simp only [List.nil_append, Option.map_id'] at hlex
            subst hc hd
            change ((parse_hex16 u).bind fun r => (from_surrogate_pair (codeUnit ds) r.1).bind
              fun n => some (utf8_write_char n, r.2)) = none at h
            cases hlc : parse_hex16 u with
            | none =>
              rw [lex_hex_none hlc] at hlex
              cases hlex
            | some r =>
              obtain ⟨lc, v⟩ := r
              obtain ⟨es, hlen', hhex', rfl, rfl⟩ := parse_hex16_some hlc
              rw [lex_hex hlen' hhex', Lib.JsonText.unicode] at hlex
              by_cases hlow : 0xDC00 ≤ codeUnit es ∧ codeUnit es < 0xE000
              · rw [hlc, Option.bind_some, from_surrogate_pair_eq (by omega)] at h
                cases h
              · rw [if_neg hlow] at hlex
                cases hlex
          · rw [if_neg hd] at hlex
            cases hlex
        · rw [if_neg hc] at hlex
          cases hlex
      · rw [if_neg (by omega), if_pos (by omega)] at hlex
        cases hlex
    · rename_i hnone
      split at h
      · rename_i hzero
        rw [if_neg (by omega), if_neg (by omega), Option.bind_some, hzero] at hlex
        obtain ⟨o', us', hprefix, -, hts⟩ := lexFrom_text hlex
        cases hts
        have hmem : (0 : UInt8) ∈ out ++ encodePoint 0 := List.mem_append_right _ (by decide)
        exact hprefix.subset hmem
      · cases h

theorem parse_escape_eq (c : UInt8) (s : Bytes) :
    parse_escape (c :: s) = if c = 117 then parse_unicode s else (escaped c).map fun e => ([e], s) := by
  simp only [parse_escape, escaped]
  split_ifs <;> simp_all

theorem lex_letter {c e : UInt8} (h : escaped c = some e) (hu : c ≠ 117) (out s : Bytes) :
    lexFrom (.escape out) (c :: s) = lexFrom (.text (out ++ [e])) s := by
  rw [lexFrom_cons, step, if_neg hu, h]
  simp

theorem lex_u (out s : Bytes) : lexFrom (.escape out) (117 :: s) = lexFrom (.hex out none []) s := by
  rw [lexFrom_cons, step, if_pos rfl]
  simp

theorem escaped_ascii {c e : UInt8} (h : escaped c = some e) : e ≤ 0x7F ∧ e ≠ 0 := by
  unfold escaped at h
  split_ifs at h with hself
  · cases h
    rcases hself with rfl | rfl | rfl <;> decide
  all_goals
    cases h
    decide

theorem lex_escape {s b rest : Bytes} (h : parse_escape s = some (b, rest)) (out : Bytes) : TurnOf (.escape out) s out b rest := by
  cases s with
  | nil => cases h
  | cons c s =>
    rw [parse_escape_eq] at h
    split at h
    · rename_i hu
      subst hu
      obtain ⟨hlex, hb⟩ := lex_unicode h out
      exact ⟨(lex_u out s).trans hlex, hb⟩
    · rename_i hu
      obtain ⟨e, he, hr⟩ := Option.map_eq_some_iff.mp h
      cases hr
      obtain ⟨hascii, h0⟩ := escaped_ascii he
      refine ⟨lex_letter he hu out _, utf8_of_ascii ?_, List.cons_ne_nil _ _, ?_⟩
      · simpa using hascii
      · simpa using h0.symm

theorem lex_escape_none {s : Bytes} (h : parse_escape s = none) (out : Bytes) : GivenUp (.escape out) s := by
  cases s with
  | nil => exact givenUp_of_none (lexFrom_nil _)
  | cons c s =>
    rw [parse_escape_eq] at h
    split at h
    · rename_i hu
      subst hu
      intro o us hlex
      rw [lex_u] at hlex
      exact lex_unicode_none h out o us hlex
    · rename_i hu
      refine givenUp_of_none ?_
      rw [lexFrom_cons, step, if_neg hu, Option.map_eq_none_iff.mp h]
      rfl

/-! ### Characters that stand for themselves -/

/-- What `utf8_validate_cz` looks at behind the first byte. -/
theorem validate_lead (c : UInt8) (s : Bytes) :
    utf8_validate_cz (c :: s) = (lead c).elim 0 fun l => if tails l.1 l.2.1 l.2.2 s then l.1 + 1 else 0 := by
  have hfirst : isTail (s.getD 0 0) = decide (0x80 ≤ s.getD 0 0 ∧ s.getD 0 0 ≤ 0xBF) := isTail_eq _
  by_cases h7F : c ≤ 0x7F
  · simp [utf8_validate_cz, lead, tails, h7F]
  by_cases hC1 : c ≤ 0xC1
  · have hC2 : c < 0xC2 := by grind
    simp [utf8_validate_cz, lead, h7F, hC1, hC2]
  have hC2 : ¬ c < 0xC2 := by grind
  by_cases hDF : c ≤ 0xDF
  · simp only [lead, h7F, hC2, hDF, if_true, if_false, Option.elim_some, tails_one (show (0 : UInt8) < 0x80 by decide)]
    simp only [utf8_validate_cz, List.getD_cons_zero, List.getD_cons_succ, h7F, hC1, hDF]
    grind
  by_cases hEF : c ≤ 0xEF
  · have htwo := fun low high (hlow : (0 : UInt8) < low) => tails_two hlow high s
    simp only [lead, h7F, hC2, hDF, hEF, if_true, if_false]
    simp only [utf8_validate_cz, List.getD_cons_zero, List.getD_cons_succ, h7F, hC1, hDF, hEF]
    split_ifs <;> simp only [Option.elim_some, htwo 0xA0 0xBF (by decide), htwo 0x80 0x9F (by decide),
      htwo 0x80 0xBF (by decide)] <;> grind
  have hE0 : c ≠ 0xE0 := by grind
  have hED : c ≠ 0xED := by grind
  have hthree := fun low high (hlow : (0 : UInt8) < low) => tails_three hlow high s
  simp only [lead, h7F, hC2, hDF, hE0, hED, hEF, if_false]
  simp only [utf8_validate_cz, List.getD_cons_zero, List.getD_cons_succ, h7F, hC1, hDF, hEF]
  split_ifs <;> simp only [Option.elim_some, Option.elim_none, hthree 0x90 0xBF (by decide), hthree 0x80 0x8F (by decide),
    hthree 0x80 0xBF (by decide)] <;> grind

theorem tails_take {n : ℕ} {low high : UInt8} {s : Bytes} (h : tails n low high s = true) :
    tails n low high (s.take n) = true ∧ (s.take n).length = n := by
  induction n generalizing low high s with
  | zero => exact ⟨rfl, rfl⟩
  | succ n ih =>
    cases s with
    | nil => cases h
    | cons b s =>
      simp only [tails, Bool.and_eq_true] at h
      obtain ⟨htake, hlen⟩ := ih h.2
      simp only [List.take_succ_cons, tails, h.1, htake, List.length_cons, hlen]
      exact ⟨rfl, trivial⟩

theorem lexFrom_raw {b : UInt8} (hquote : b ≠ 34) (hslash : b ≠ 92) (hlow : ¬ b < 32) (out s : Bytes) :
    lexFrom (.text out) (b :: s) = lexFrom (.text (out ++ [b])) s := by
  rw [lexFrom_cons, step, if_neg hquote, if_neg hslash, if_neg hlow]
  simp

/-- A character whose tails are not all there is never completed, by an escape least of all. -/
theorem unfinished {n : ℕ} {low high : UInt8} {s out : Bytes} (hout : ∀ e, isUtf8 (out ++ e) = octets n low high e)
    (hlow : 0x80 ≤ low) (hhigh : high ≤ 0xBF) (h : tails n low high s = false) : GivenUp (.text out) s := by
  induction s generalizing n low high out with
  | nil => exact givenUp_of_none (lexFrom_nil _)
  | cons b s ih =>
    cases n with
    | zero => cases h
    | succ n =>
      by_cases hquote : b = 34
      · have hopen : isUtf8 out = false := by simpa [octets] using hout []
        refine givenUp_of_none ?_
        rw [lexFrom_cons, step, if_pos hquote, hopen]
        rfl
      by_cases hslash : b = 92
      · intro o us hlex
        have hescape : lexFrom (.escape out) s = some (.string o :: us) := by
          rw [lexFrom_cons, step, if_neg hquote, if_pos hslash] at hlex
          simpa using hlex
        cases hparse : parse_escape s with
        | none => exact lex_escape_none hparse out o us hescape
        | some r =>
          obtain ⟨hturn, hutf8, hne, -⟩ := lex_escape hparse out
          rw [hturn] at hescape
          obtain ⟨o', us', ⟨e, rfl⟩, hvalid, -⟩ := lexFrom_text hescape
          obtain ⟨b', e', hb'⟩ := List.exists_cons_of_ne_nil hne
          rw [List.append_assoc, hout, hb', List.cons_append] at hvalid
          simp only [octets, Bool.and_eq_true, decide_eq_true_eq] at hvalid
          rw [hb'] at hutf8
          exact absurd ⟨UInt8.le_trans hlow hvalid.1.1, UInt8.le_trans hvalid.1.2 hhigh⟩ (utf8_head hutf8)
      by_cases hcontrol : b < 32
      · refine givenUp_of_none ?_
        rw [lexFrom_cons, step, if_neg hquote, if_neg hslash, if_pos hcontrol]
        rfl
      intro o us hlex
      rw [lexFrom_raw hquote hslash hcontrol] at hlex
      have hnext : ∀ e, isUtf8 (out ++ [b] ++ e) = (decide (low ≤ b ∧ b ≤ high) && octets n 0x80 0xBF e) := fun e => by
        rw [List.append_assoc, hout]
        rfl
      by_cases hb : low ≤ b ∧ b ≤ high
      · have hstate : ∀ e, isUtf8 (out ++ [b] ++ e) = octets n 0x80 0xBF e := fun e => by
          rw [hnext, decide_eq_true hb, Bool.true_and]
        have hmissing : tails n 0x80 0xBF s = false := by simpa [tails, hb] using h
        exact ih hstate (UInt8.le_refl _) (UInt8.le_refl _) hmissing o us hlex
      · obtain ⟨o', us', ⟨e, rfl⟩, hvalid, -⟩ := lexFrom_text hlex
        rw [hnext, decide_eq_false hb, Bool.false_and] at hvalid
        cases hvalid

theorem lexFrom_plain {s : Bytes} (h : s.all isPlain = true) (out t : Bytes) :
    lexFrom (.text out) (s ++ t) = lexFrom (.text (out ++ s)) t := by
  rw [lexFrom_append (reads_text h out)]
  simp

theorem lex_char {s b rest : Bytes} (h : parse_char s = some (b, rest)) (hquote : s.head? ≠ some 34) (out : Bytes) :
    TurnOf (.text out) s out b rest := by
  cases s with
  | nil => cases h
  | cons c s =>
    have hc : c ≠ 34 := fun he => hquote (congrArg some he)
    rw [parse_char] at h
    split_ifs at h with hslash hcontrol hcz
    · obtain ⟨hlex, hb⟩ := lex_escape h out
      refine ⟨?_, hb⟩
      rw [lexFrom_cons, step, if_neg hc, if_pos hslash, ← hlex]
      simp
    · cases h
      have hlow : (0x20 : UInt8) ≤ c := by grind
      rw [validate_lead] at hcz ⊢
      cases hlead : lead c with
      | none => simp [hlead] at hcz
      | some l =>
        obtain ⟨n, low, high⟩ := l
        simp only [hlead, Option.elim_some] at hcz ⊢
        obtain ⟨hlow', -⟩ := lead_bounds hlead
        have htails : tails n low high s = true := by
          by_contra hnot
          simp [hnot] at hcz
        simp only [htails, if_true, List.take_succ_cons, List.drop_succ_cons]
        have hspec := tails_spec hlow' htails
        have hplain : (c :: s.take n).all isPlain = true := by
          simp only [List.all_cons, Bool.and_eq_true, List.all_eq_true, isPlain, bne_iff_ne, decide_eq_true_eq]
          refine ⟨⟨⟨hc, hslash⟩, hlow⟩, fun b hb => ?_⟩
          have := hspec b hb
          exact ⟨⟨by grind, by grind⟩, by grind⟩
        refine ⟨?_, ?_, List.cons_ne_nil _ _, ?_⟩
        · conv_lhs => rw [← List.take_append_drop n s]
          exact lexFrom_plain hplain out _
        · have hwhole : tails n low high (s.take n) = true ∧ (s.take n).length = n := tails_take htails
          rw [utf8_cons, hlead, Option.map_some, Option.getD_some, octets_eq, hwhole.1, List.drop_of_length_le hwhole.2.le]
          rfl
        · intro hmem
          rcases List.mem_cons.mp hmem with h0 | hmem
          · exact absurd (h0 ▸ hlow) (by decide)
          · exact absurd (hspec 0 hmem) (by decide)

theorem lex_char_none {s : Bytes} (h : parse_char s = none) (hquote : s.head? ≠ some 34) {out : Bytes} (hout : isUtf8 out = true) :
    GivenUp (.text out) s := by
  cases s with
  | nil => exact givenUp_of_none (lexFrom_nil _)
  | cons c s =>
    have hc : c ≠ 34 := fun he => hquote (congrArg some he)
    rw [parse_char] at h
    split_ifs at h with hslash hcontrol hcz
    · intro o us hlex
      rw [lexFrom_cons, step, if_neg hc, if_pos hslash] at hlex
      exact lex_escape_none h out o us (by simpa using hlex)
    · refine givenUp_of_none ?_
      rw [lexFrom_cons, step, if_neg hc, if_neg hslash, if_pos (by grind)]
      rfl
    · have hhead : ∀ e, isUtf8 (out ++ [c] ++ e) = isUtf8 (c :: e) := fun e => by
        rw [List.append_assoc, utf8_append hout]
        rfl
      intro o us hlex
      rw [lexFrom_raw hc hslash (by grind)] at hlex
      cases hlead : lead c with
      | none =>
        obtain ⟨o', us', ⟨e, rfl⟩, hvalid, -⟩ := lexFrom_text hlex
        rw [hhead, utf8_cons, hlead] at hvalid
        cases hvalid
      | some l =>
        obtain ⟨n, low, high⟩ := l
        obtain ⟨hlow, hhigh⟩ := lead_bounds hlead
        have hstate : ∀ e, isUtf8 (out ++ [c] ++ e) = octets n low high e := fun e => by
          rw [hhead, utf8_cons, hlead, Option.map_some, Option.getD_some]
        have hmissing : tails n low high s = false := by
          rw [validate_lead, hlead, Option.elim_some] at hcz
          by_contra hnot
          simp [hnot] at hcz
        exact unfinished hstate hlow hhigh hmissing o us hlex

/-! ### A whole string -/

theorem parseChars_quote (s : Bytes) : parseChars (34 :: s) = some ([], s) := by
  rw [parseChars]
  rfl

theorem parseChars_char {s : Bytes} (hquote : s.head? ≠ some 34) :
    parseChars s = (parse_char s).bind fun r => (parseChars r.2).map fun q => (r.1 ++ q.1, q.2) := by
  rw [parseChars, if_neg hquote]
  split <;> simp_all

/-- What the parser takes for a string is the string's token. -/
theorem lex_chars {s o rest : Bytes} (h : parseChars s = some (o, rest)) {out : Bytes} (hout : isUtf8 out = true) :
    lexFrom (.text out) s = (lex rest).map (.string (out ++ o) :: ·) ∧ 0 ∉ o ∧ isUtf8 o = true ∧ rest.length < s.length := by
  induction hlen : s.length using Nat.strong_induction_on generalizing s o out with
  | _ len ih =>
    by_cases hquote : s.head? = some 34
    · obtain ⟨t, rfl⟩ : ∃ t, s = 34 :: t := by
        cases s with
        | nil => cases hquote
        | cons c t => exact ⟨t, by rw [Option.some.inj hquote]⟩
      rw [parseChars_quote] at h
      cases h
      refine ⟨?_, List.not_mem_nil, rfl, by rw [← hlen]; exact Nat.lt_succ_self _⟩
      rw [lexFrom_cons, step, if_pos rfl, if_pos hout, Option.bind_some, lexFrom_between, List.append_nil]
      rfl
    · rw [parseChars_char hquote] at h
      obtain ⟨⟨b, t⟩, hchar, h⟩ := Option.bind_eq_some_iff.mp h
      obtain ⟨⟨o', rest'⟩, hchars, hr⟩ := Option.map_eq_some_iff.mp h
      cases hr
      have hshorter := parse_char_shorter hchar
      obtain ⟨hturn, hutf8, -, hnul⟩ := lex_char hchar hquote out
      have hout' : isUtf8 (out ++ b) = true := by rw [utf8_append hout, hutf8]
      obtain ⟨hlex, hnul', hutf8', hlt⟩ := ih t.length (by omega) hchars hout' rfl
      refine ⟨?_, ?_, ?_, by omega⟩
      · rw [hturn, hlex, List.append_assoc]
      · rw [List.mem_append]
        exact fun hmem => hmem.elim hnul hnul'
      · rw [utf8_append hutf8, hutf8']

theorem lex_chars_none {s : Bytes} (h : parseChars s = none) {out : Bytes} (hout : isUtf8 out = true) : GivenUp (.text out) s := by
  induction hlen : s.length using Nat.strong_induction_on generalizing s out with
  | _ len ih =>
    by_cases hquote : s.head? = some 34
    · rw [parseChars, if_pos hquote] at h
      cases h
    · rw [parseChars_char hquote] at h
      cases hchar : parse_char s with
      | none => exact lex_char_none hchar hquote hout
      | some r =>
        obtain ⟨b, t⟩ := r
        rw [hchar, Option.bind_some, Option.map_eq_none_iff] at h
        have hshorter := parse_char_shorter hchar
        obtain ⟨hturn, hutf8, -, -⟩ := lex_char hchar hquote out
        have hout' : isUtf8 (out ++ b) = true := by rw [utf8_append hout, hutf8]
        intro o us hlex
        rw [hturn] at hlex
        exact ih t.length (by omega) h hout' rfl o us hlex

end FitsWebQL
