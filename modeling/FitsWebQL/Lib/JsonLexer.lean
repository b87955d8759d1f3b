/-
  FitsWebQL.Lib.JsonLexer — the first token of a JSON text, and what is left of the text
  behind it: the other way to read `Lib.JsonText.lex`, for parsers that look at one byte
  and go on from there. A string's bytes are UTF-8 as a whole; `lead` says what a first
  byte asks of the bytes behind it, and what is not UTF-8 so far stays so.

  Proved:
    lex_blanks, lex_punct, lex_quote, lex_word   the text by its first byte
    lexFrom_text          a string's token extends what was decoded
    utf8_append           whole characters in front do not matter
    utf8_encodePoint      a code point is written as one
-/

import Mathlib.Data.List.TakeWhile
import FitsWebQL.Lib.JsonText

namespace FitsWebQL.Lib.JsonText

/-! ## From any mode -/

def lexFrom (m : Mode) (s : List UInt8) : Option (List Token) := (run m s).bind fun r => (finish r.2).map fun ts => r.1 ++ ts

theorem lexFrom_between (s : List UInt8) : lexFrom .between s = lex s := rfl

theorem lexFrom_nil (m : Mode) : lexFrom m [] = finish m := by
  simp [lexFrom, run]

theorem lexFrom_cons (m : Mode) (b : UInt8) (s : List UInt8) :
    lexFrom m (b :: s) = (step m b).bind fun r => (lexFrom r.2 s).map fun ts => r.1 ++ ts := by
  unfold lexFrom
  rw [run, Option.bind_assoc]
  refine Option.bind_congr fun r _ => ?_
  rw [Option.bind_map, Option.map_bind]
  refine Option.bind_congr fun q _ => ?_
  simp [Function.comp_def, List.append_assoc]

theorem lexFrom_append {m m' : Mode} {s : List UInt8} {ts : List Token} (h : Reads m s ts m') (t : List UInt8) :
    lexFrom m (s ++ t) = (lexFrom m' t).map fun us => ts ++ us := by
  unfold lexFrom
  unfold Reads at h
  rw [run_append, h, Option.bind_some, Option.bind_map, Option.map_bind]
  refine Option.bind_congr fun q _ => ?_
  simp [Function.comp_def, List.append_assoc]

/-! ## By the first byte -/

theorem lex_punct {p : UInt8} (h : isPunct p = true) (s : List UInt8) : lex (p :: s) = (lex s).map (.punct p :: ·) := by
  have hstep : step .between p = some ([.punct p], .between) := by simp [step, enter, h]
  rw [← lexFrom_between, lexFrom_cons, hstep]
  rfl

theorem lex_blank {b : UInt8} (h : isBlank b = true) (s : List UInt8) : lex (b :: s) = lex s := by
  have hpunct : isPunct b = false := by
    simp only [isBlank, isPunct, Bool.or_eq_true, beq_iff_eq, Bool.or_eq_false_iff, beq_eq_false_iff_ne, ne_eq] at h ⊢
    rcases h with ((rfl | rfl) | rfl) | rfl <;> decide
  have hstep : step .between b = some ([], .between) := by simp [step, enter, h, hpunct]
  rw [← lexFrom_between, lexFrom_cons, hstep]
  simp [lexFrom_between]

theorem lex_blanks (s : List UInt8) : lex (s.dropWhile isBlank) = lex s := by
  induction s with
  | nil => rfl
  | cons b s ih =>
    by_cases h : isBlank b = true
    · rw [List.dropWhile_cons_of_pos h, lex_blank h, ih]
    · rw [List.dropWhile_cons_of_neg h]

theorem lex_quote (s : List UInt8) : lex (34 :: s) = lexFrom (.text []) s := by
  have hstep : step .between 34 = some ([], .text []) := rfl
  rw [← lexFrom_between, lexFrom_cons, hstep]
  simp

/-- A word goes on to the first byte that is none of its own. -/
theorem lexFrom_word (read s : List UInt8) :
    lexFrom (.word read) s =
      (word (read ++ s.takeWhile isWordByte)).bind fun t => (lex (s.dropWhile isWordByte)).map (t :: ·) := by
  induction s generalizing read with
  | nil =>
    have hlex : lex [] = some [] := rfl
    simp [lexFrom_nil, finish, hlex]
    cases word read <;> rfl
  | cons b s ih =>
    rw [lexFrom_cons, step]
    by_cases h : isWordByte b = true
    · rw [if_pos h, List.takeWhile_cons_of_pos h, List.dropWhile_cons_of_pos h]
      simp only [Option.bind_some, List.nil_append, Option.map_id', ih, List.append_assoc, List.singleton_append]
    · rw [if_neg h, List.takeWhile_cons_of_neg h, List.dropWhile_cons_of_neg h, List.append_nil, Option.bind_assoc]
      refine Option.bind_congr fun t _ => ?_
      rw [← lexFrom_between, lexFrom_cons, step, Option.bind_map, Option.map_bind]
      refine Option.bind_congr fun r _ => ?_
      simp [Function.comp_def]

theorem lex_word {b : UInt8} (h : isWordByte b = true) (s : List UInt8) :
    lex (b :: s) = (word (b :: s.takeWhile isWordByte)).bind fun t => (lex (s.dropWhile isWordByte)).map (t :: ·) := by
  rw [← lexFrom_between, lexFrom_cons, step, enter_word h]
  simp [lexFrom_word]

theorem lex_other {b : UInt8} (hpunct : isPunct b = false) (hblank : isBlank b = false) (hquote : b ≠ 34)
    (hword : isWordByte b = false) (s : List UInt8) : lex (b :: s) = none := by
  rw [← lexFrom_between, lexFrom_cons, step]
  simp [enter, hpunct, hblank, hquote, hword]

/-! ## The first token -/

def EndsWord (rest : List UInt8) : Prop := ∀ b ∈ rest.head?, isWordByte b = false

theorem takeWhile_append_of_head {p : UInt8 → Bool} {rest : List UInt8} (h : ∀ b ∈ rest.head?, p b = false) (w : List UInt8) :
    (w ++ rest).takeWhile p = w.takeWhile p ∧ (w ++ rest).dropWhile p = w.dropWhile p ++ rest := by
  induction w with
  | nil =>
    cases rest with
    | nil => exact ⟨rfl, rfl⟩
    | cons b rest => simp [h b rfl]
  | cons c w ih =>
    by_cases hc : p c = true
    · simp only [List.cons_append, List.takeWhile_cons_of_pos hc, List.dropWhile_cons_of_pos hc, ih, and_self]
    · simp only [List.cons_append, List.takeWhile_cons_of_neg hc, List.dropWhile_cons_of_neg hc, and_self]

theorem takeWhile_all {p : UInt8 → Bool} {w : List UInt8} (h : w.all p = true) : w.takeWhile p = w ∧ w.dropWhile p = [] := by
  simp only [List.all_eq_true] at h
  exact ⟨List.takeWhile_eq_self_iff.mpr h, List.dropWhile_eq_nil_iff.mpr h⟩

theorem endsWord_dropWhile (s : List UInt8) : EndsWord (s.dropWhile isWordByte) := by
  intro b hb
  have hnot := List.head?_dropWhile_not isWordByte s
  rw [Option.mem_def.mp hb] at hnot
  simpa using hnot

theorem endsWord_of_blanks {s : List UInt8} (h : ∀ b ∈ (s.dropWhile isBlank).head?, isPunct b = true) : EndsWord s := by
  intro b hb
  by_contra hword
  rw [Bool.not_eq_false] at hword
  obtain ⟨hpunct, hblank, -⟩ := word_bytes b hword
  cases s with
  | nil => cases hb
  | cons c s =>
    cases hb
    rw [List.dropWhile_cons_of_neg (by simp [hblank])] at h
    exact absurd (h b rfl) (by simp [hpunct])

theorem lex_words {w rest : List UInt8} (hne : w ≠ []) (hword : w.all isWordByte = true) (hrest : EndsWord rest) :
    lex (w ++ rest) = (word w).bind fun t => (lex rest).map (t :: ·) := by
  obtain ⟨b, w, rfl⟩ := List.exists_cons_of_ne_nil hne
  simp only [List.all_cons, Bool.and_eq_true] at hword
  obtain ⟨htake, hdrop⟩ := takeWhile_append_of_head hrest w
  obtain ⟨hall, hnil⟩ := takeWhile_all hword.2
  rw [List.cons_append, lex_word hword.1, htake, hdrop, hall, hnil, List.nil_append]

/-- A text that begins with no blank begins with its first token. -/
theorem lex_first {s : List UInt8} {t : Token} {ts : List Token} (hblank : ∀ b ∈ s.head?, isBlank b = false)
    (h : lex s = some (t :: ts)) :
    (∃ p rest, isPunct p = true ∧ s = p :: rest ∧ t = .punct p ∧ lex rest = some ts) ∨
      (∃ rest, s = 34 :: rest ∧ lexFrom (.text []) rest = some (t :: ts)) ∨
      ∃ w rest, w ≠ [] ∧ s = w ++ rest ∧ w.all isWordByte = true ∧ EndsWord rest ∧ word w = some t ∧ lex rest = some ts := by
  cases s with
  | nil => cases h
  | cons b s =>
    have hb := hblank b rfl
    by_cases hpunct : isPunct b = true
    · left
      rw [lex_punct hpunct] at h
      obtain ⟨us, hus, he⟩ := Option.map_eq_some_iff.mp h
      cases he
      exact ⟨b, s, hpunct, rfl, rfl, hus⟩
    by_cases hquote : b = 34
    · right; left
      subst hquote
      exact ⟨s, rfl, (lex_quote s).symm.trans h⟩
    by_cases hword : isWordByte b = true
    · right; right
      rw [lex_word hword] at h
      obtain ⟨t', ht', h⟩ := Option.bind_eq_some_iff.mp h
      obtain ⟨us, hus, he⟩ := Option.map_eq_some_iff.mp h
      cases he
      refine ⟨b :: s.takeWhile isWordByte, s.dropWhile isWordByte, List.cons_ne_nil _ _, ?_, ?_, endsWord_dropWhile s, ht', hus⟩
      · rw [List.cons_append, List.takeWhile_append_dropWhile]
      · simp [hword, List.all_takeWhile]
    · rw [lex_other (by simpa using hpunct) hb hquote (by simpa using hword)] at h
      cases h

/-! ## Strings -/

def Mode.Within (out : List UInt8) : Mode → Prop
  | .text o | .escape o | .hex o _ _ | .high o _ | .highEscape o _ => out <+: o
  | .between | .word _ => False

theorem unicode_within {out : List UInt8} {n : ℕ} {surrogate : Option ℕ} {m : Mode} (h : unicode out n surrogate = some m) :
    m.Within out := by
  unfold unicode at h
  cases surrogate with
  | none =>
    dsimp only at h
    split_ifs at h <;> cases h
    · exact List.prefix_refl out
    · exact List.prefix_append _ _
  | some high =>
    dsimp only at h
    split_ifs at h
    cases h
    exact List.prefix_append _ _

/-- A step in a string closes it, or goes on with more decoded. -/
theorem step_within {out : List UInt8} {m : Mode} (hm : m.Within out) {b : UInt8} {r : List Token × Mode} (h : step m b = some r) :
    (∃ o, out <+: o ∧ isUtf8 o = true ∧ r = ([.string o], .between)) ∨ r.1 = [] ∧ r.2.Within out := by
  cases m with
  | between => cases hm
  | word read => cases hm
  | text o =>
    simp only [step] at h
    split_ifs at h with hquote hutf8 hslash hlow
    · cases h
      exact .inl ⟨o, hm, hutf8, rfl⟩
    · cases h
      exact .inr ⟨rfl, hm⟩
    · cases h
      exact .inr ⟨rfl, hm.trans (List.prefix_append _ _)⟩
  | escape o =>
    simp only [step] at h
    split_ifs at h
    · cases h
      exact .inr ⟨rfl, hm⟩
    · obtain ⟨c, -, rfl⟩ := Option.map_eq_some_iff.mp h
      exact .inr ⟨rfl, hm.trans (List.prefix_append _ _)⟩
  | hex o surrogate digits =>
    simp only [step] at h
    split_ifs at h
    · cases h
      exact .inr ⟨rfl, hm⟩
    · obtain ⟨m', hm', rfl⟩ := Option.map_eq_some_iff.mp h
      have hwithin := unicode_within hm'
      refine .inr ⟨rfl, ?_⟩
      cases m' <;> first | exact hm.trans hwithin | exact hwithin
  | high o surrogate =>
    simp only [step] at h
    split_ifs at h
    cases h
    exact .inr ⟨rfl, hm⟩
  | highEscape o surrogate =>
    simp only [step] at h
    split_ifs at h
    cases h
    exact .inr ⟨rfl, hm⟩

/-- What is read from inside a string begins with the string's token, which extends what was decoded. -/
theorem lexFrom_within {out : List UInt8} {m : Mode} (hm : m.Within out) {s : List UInt8} {ts : List Token} (h : lexFrom m s = some ts) :
    ∃ o us, out <+: o ∧ isUtf8 o = true ∧ ts = .string o :: us := by
  induction s generalizing m ts with
  | nil =>
    rw [lexFrom_nil] at h
    cases m with
    | between => cases hm
    | word read => cases hm
    | text | escape | hex | high | highEscape => cases h
  | cons b s ih =>
    rw [lexFrom_cons] at h
    obtain ⟨r, hr, hrest⟩ := Option.bind_eq_some_iff.mp h
    obtain ⟨us, hus, rfl⟩ := Option.map_eq_some_iff.mp hrest
    rcases step_within hm hr with ⟨o, ho, hutf8, rfl⟩ | ⟨hnone, hwithin⟩
    · exact ⟨o, us, ho, hutf8, rfl⟩
    · rw [hnone, List.nil_append]
      exact ih hwithin hus

theorem lexFrom_text {out s : List UInt8} {ts : List Token} (h : lexFrom (.text out) s = some ts) :
    ∃ o us, out <+: o ∧ isUtf8 o = true ∧ ts = .string o :: us := lexFrom_within (m := .text out) (List.prefix_refl out) h

/-- Without tokens there is nothing but blanks. -/
theorem eq_nil_of_lex {s : List UInt8} (hblank : ∀ b ∈ s.head?, isBlank b = false) (h : lex s = some []) : s = [] := by
  cases s with
  | nil => rfl
  | cons b s =>
    exfalso
    by_cases hpunct : isPunct b = true
    · rw [lex_punct hpunct] at h
      obtain ⟨us, -, he⟩ := Option.map_eq_some_iff.mp h
      cases he
    by_cases hquote : b = 34
    · rw [hquote, lex_quote] at h
      obtain ⟨o, us, -, -, he⟩ := lexFrom_text h
      cases he
    by_cases hword : isWordByte b = true
    · rw [lex_word hword] at h
      obtain ⟨t, -, h⟩ := Option.bind_eq_some_iff.mp h
      obtain ⟨us, -, he⟩ := Option.map_eq_some_iff.mp h
      cases he
    · rw [lex_other (by simpa using hpunct) (hblank b rfl) hquote (by simpa using hword)] at h
      cases h

/-! ## Writers -/

/-- What `t` is to a reader of a text: these tokens, or no JSON when `ok` is false. -/
structure Emits (t : List UInt8) (ts : List Token) (ok : Bool) : Prop where
  reads : ∀ {rest}, EndsWord rest → lex (t ++ rest) = if ok then (lex rest).map (ts ++ ·) else none
  noNul : 0 ∉ t

theorem endsWord_append {s rest : List UInt8} (hs : EndsWord s) (hrest : EndsWord rest) : EndsWord (s ++ rest) := by
  cases s with
  | nil => exact hrest
  | cons b s => exact hs

theorem endsWord_punct {p : UInt8} (h : isPunct p = true) (s : List UInt8) : EndsWord (p :: s) := by
  rintro b ⟨⟩
  by_contra hword
  rw [Bool.not_eq_false] at hword
  rw [(word_bytes p hword).1] at h
  cases h

theorem endsWord_blanks {s : List UInt8} (hs : s.all isBlank = true) {t : List UInt8} (ht : EndsWord t) : EndsWord (s ++ t) := by
  cases s with
  | nil => exact ht
  | cons c s =>
    rintro b ⟨⟩
    by_contra hword
    rw [Bool.not_eq_false] at hword
    rw [List.all_cons, (word_bytes c hword).2.1] at hs
    cases hs

theorem emits_word {w : List UInt8} {t : Token} (hne : w ≠ []) (hword : w.all isWordByte = true) (h : word w = some t) :
    Emits w [t] true where
  reads hrest := by
    rw [lex_words hne hword hrest, h]
    rfl
  noNul hmem := by
    rw [List.all_eq_true] at hword
    exact absurd (hword 0 hmem) (by decide)

theorem emits_punct {p : UInt8} (h : isPunct p = true) : Emits [p] [.punct p] true where
  reads _ := lex_punct h _
  noNul hmem := by
    rw [List.mem_singleton] at hmem
    subst hmem
    cases h

section

variable {t u : List UInt8} {ts us : List Token} {ok ok' : Bool}

theorem Emits.append (h : Emits t ts ok) (h' : Emits u us ok') (hu : EndsWord u) : Emits (t ++ u) (ts ++ us) (ok && ok') where
  reads {rest} hrest := by
    rw [List.append_assoc, h.reads (endsWord_append hu hrest), h'.reads hrest]
    cases ok <;> cases ok' <;> simp [Function.comp_def]
  noNul hmem := (List.mem_append.mp hmem).elim h.noNul h'.noNul

theorem Emits.after_punct {p : UInt8} (h : Emits t ts ok) (hp : isPunct p = true) : Emits (p :: t) (.punct p :: ts) ok where
  reads hrest := by
    rw [List.cons_append, lex_punct hp, h.reads hrest]
    cases ok <;> simp [Function.comp_def]
  noNul hmem := by
    rcases List.mem_cons.mp hmem with h0 | hmem
    · subst h0
      cases hp
    · exact h.noNul hmem

theorem Emits.after_blanks {s : List UInt8} (h : Emits t ts ok) (hs : s.all isBlank = true) : Emits (s ++ t) ts ok where
  reads hrest := by
    rw [← h.reads hrest, ← lex_blanks (s ++ t ++ _), ← lex_blanks (t ++ _), List.append_assoc]
    rw [List.all_eq_true] at hs
    rw [List.dropWhile_append_of_pos hs]
  noNul hmem := by
    rcases List.mem_append.mp hmem with hmem | hmem
    · rw [List.all_eq_true] at hs
      exact absurd (hs 0 hmem) (by decide)
    · exact h.noNul hmem

end

/-- A whole text. -/
theorem denotes_emitted {t : List UInt8} {v : Node} {ok : Bool} (h : Emits t v.tokens ok) (w : Node) :
    Denotes t w ↔ ok = true ∧ w = v := by
  have hlex : lex t = if ok then some v.tokens else none := by
    have hends : EndsWord [] := nofun
    have hread := h.reads hends
    rw [List.append_nil] at hread
    rw [hread]
    cases ok <;> simp [lex, run, finish]
  unfold Denotes
  rw [hlex]
  cases ok with
  | false => simp
  | true =>
    simp only [if_true, true_and]
    constructor
    · intro he
      have hw : Denotes t w := by rw [Denotes, hlex, ← he]; rfl
      have hv : Denotes t v := by rw [Denotes, hlex]; rfl
      exact denotes_unique hw hv
    · rintro rfl
      rfl

/-! ## UTF-8 -/

/-- How many tails a first byte asks for, and the bounds of the first of them. -/
def lead (b : UInt8) : Option (ℕ × UInt8 × UInt8) :=
  if b ≤ 0x7F then some (0, 0x80, 0xBF)
  else if b < 0xC2 then none
  else if b ≤ 0xDF then some (1, 0x80, 0xBF)
  else if b = 0xE0 then some (2, 0xA0, 0xBF)
  else if b = 0xED then some (2, 0x80, 0x9F)
  else if b ≤ 0xEF then some (2, 0x80, 0xBF)
  else if b = 0xF0 then some (3, 0x90, 0xBF)
  else if b ≤ 0xF3 then some (3, 0x80, 0xBF)
  else if b = 0xF4 then some (3, 0x80, 0x8F)
  else none

theorem utf8_cons (b : UInt8) (s : List UInt8) : isUtf8 (b :: s) = ((lead b).map fun l => octets l.1 l.2.1 l.2.2 s).getD false := by
  rw [isUtf8, octets, lead]
  simp only [apply_ite (Option.map fun l : ℕ × UInt8 × UInt8 => octets l.1 l.2.1 l.2.2 s),
    apply_ite (fun o => Option.getD o false), Option.map_some, Option.map_none, Option.getD_some, Option.getD_none]

theorem lead_bounds {b : UInt8} {n : ℕ} {low high : UInt8} (h : lead b = some (n, low, high)) : 0x80 ≤ low ∧ high ≤ 0xBF := by
  have hall : (lead b).all (fun l => 0x80 ≤ l.2.1 && l.2.2 ≤ 0xBF) = true := by
    unfold lead
    simp only [apply_ite (Option.all fun l : ℕ × UInt8 × UInt8 => decide (0x80 ≤ l.2.1) && decide (l.2.2 ≤ 0xBF)),
      Option.all_some, Option.all_none, UInt8.reduceLE, decide_true, Bool.and_self, ite_self]
  rw [h] at hall
  simpa using hall

theorem octets_append {n : ℕ} {low high : UInt8} {s : List UInt8} (h : octets n low high s = true) (t : List UInt8) :
    octets n low high (s ++ t) = isUtf8 t := by
  induction s generalizing n low high with
  | nil =>
    cases n with
    | zero => cases t <;> simp [isUtf8, octets]
    | succ n => simp [octets] at h
  | cons b s ih =>
    cases n with
    | zero =>
      have hcons : octets 0 low high (b :: s) = isUtf8 (b :: s) := by simp [isUtf8, octets]
      have hcons' : octets 0 low high (b :: s ++ t) = isUtf8 (b :: (s ++ t)) := by simp [isUtf8, octets]
      rw [hcons, utf8_cons] at h
      rw [hcons', utf8_cons]
      cases hlead : lead b with
      | none => simp [hlead] at h
      | some l =>
        simp only [hlead, Option.map_some, Option.getD_some] at h ⊢
        exact ih h
    | succ n =>
      simp only [octets, Bool.and_eq_true, List.cons_append] at h ⊢
      rw [ih h.2, h.1, Bool.true_and]

theorem utf8_append {s : List UInt8} (h : isUtf8 s = true) (t : List UInt8) : isUtf8 (s ++ t) = isUtf8 t := octets_append h t

/-- A character does not begin with a tail. -/
theorem utf8_head {b : UInt8} {s : List UInt8} (h : isUtf8 (b :: s) = true) : ¬ (0x80 ≤ b ∧ b ≤ 0xBF) := by
  intro hb
  rw [utf8_cons, lead, if_neg (by grind), if_pos (by grind)] at h
  cases h

/-- A Unicode scalar value: a code point that is no surrogate. -/
def IsScalar (n : ℕ) : Prop := n < 0xD800 ∨ 0xE000 ≤ n ∧ n < 0x110000

theorem charOfNat_val {n : ℕ} (h : IsScalar n) : (Char.ofNat n).val.toNat = n := by
  have hvalid : n.isValidChar := by
    rcases h with h | h
    · exact .inl h
    · exact .inr ⟨by omega, h.2⟩
  rw [Char.ofNat, dif_pos hvalid]
  rfl

theorem ofNat_toNat {n : ℕ} (h : n < 256) : (UInt8.ofNat n).toNat = n := by
  rw [UInt8.toNat_ofNat']
  exact Nat.mod_eq_of_lt h

theorem utf8_encodePoint {n : ℕ} (h : IsScalar n) : isUtf8 (encodePoint n) = true := by
  unfold encodePoint String.utf8EncodeChar
  rw [charOfNat_val h]
  unfold IsScalar at h
  have htail : ∀ m, (UInt8.ofNat (m % 64 + 0x80)).toNat = m % 64 + 0x80 := fun m => ofNat_toNat (by omega)
  dsimp only
  split_ifs with h1 h2 h3
  · have hb : (UInt8.ofNat n).toNat = n := ofNat_toNat (by omega)
    simp [utf8_cons, lead, UInt8.le_iff_toNat_le, hb, h1, octets]
  · have hb : (UInt8.ofNat (n / 64 % 32 + 0xC0)).toNat = n / 64 % 32 + 0xC0 := ofNat_toNat (by omega)
    have hlead : lead (UInt8.ofNat (n / 64 % 32 + 0xC0)) = some (1, 0x80, 0xBF) := by
      simp only [lead, UInt8.le_iff_toNat_le, UInt8.lt_iff_toNat_lt, hb, UInt8.reduceToNat]
      rw [if_neg (by omega), if_neg (by omega), if_pos (by omega)]
    simp only [utf8_cons, hlead, Option.map_some, Option.getD_some, octets, Bool.and_true, decide_eq_true_eq,
      UInt8.le_iff_toNat_le, htail, UInt8.reduceToNat]
    omega
  · have hb : (UInt8.ofNat (n / 4096 % 16 + 0xE0)).toNat = n / 4096 % 16 + 0xE0 := ofNat_toNat (by omega)
    have hlead : lead (UInt8.ofNat (n / 4096 % 16 + 0xE0)) =
        if n / 4096 = 0 then some (2, 0xA0, 0xBF) else if n / 4096 = 13 then some (2, 0x80, 0x9F) else some (2, 0x80, 0xBF) := by
      simp only [lead, UInt8.le_iff_toNat_le, UInt8.lt_iff_toNat_lt, ← UInt8.toNat_inj, hb, UInt8.reduceToNat]
      rw [if_neg (by omega), if_neg (by omega), if_neg (by omega)]
      split_ifs <;> first | rfl | omega
    rw [utf8_cons, hlead]
    split_ifs <;>
    · simp only [Option.map_some, Option.getD_some, octets, Bool.and_true, Bool.and_eq_true, decide_eq_true_eq,
        UInt8.le_iff_toNat_le, htail, UInt8.reduceToNat]
      omega
  · have hb : (UInt8.ofNat (n / 262144 % 8 + 0xF0)).toNat = n / 262144 % 8 + 0xF0 := ofNat_toNat (by omega)
    have hlead : lead (UInt8.ofNat (n / 262144 % 8 + 0xF0)) =
        if n / 262144 = 0 then some (3, 0x90, 0xBF) else if n / 262144 = 4 then some (3, 0x80, 0x8F) else some (3, 0x80, 0xBF) := by
      simp only [lead, UInt8.le_iff_toNat_le, UInt8.lt_iff_toNat_lt, ← UInt8.toNat_inj, hb, UInt8.reduceToNat]
      rw [if_neg (by omega), if_neg (by omega), if_neg (by omega), if_neg (by omega), if_neg (by omega), if_neg (by omega)]
      split_ifs <;> first | rfl | omega
    rw [utf8_cons, hlead]
    split_ifs <;>
    · simp only [Option.map_some, Option.getD_some, octets, Bool.and_true, Bool.and_eq_true, decide_eq_true_eq,
        UInt8.le_iff_toNat_le, htail, UInt8.reduceToNat]
      omega

end FitsWebQL.Lib.JsonText
