/-
  FitsWebQL.Lib.JsonText — JSON texts, as bytes. A text is read byte by byte into tokens:
  between tokens, in a run of letters, digits and signs (a number or a literal), or in a
  string, whose escapes are decoded on the way and whose bytes have to be UTF-8. It denotes
  the value with these tokens; there is one at most (`denotes_unique`).

  `Writes v s`: `s`, with a punctuation mark behind it, gives the tokens of `v` and the mark.
  A writer is right when each of its parts is (`writes_array`, `writes_object`).
-/

import Mathlib.Data.List.Forall2
import Mathlib.Tactic.Common

namespace FitsWebQL.Lib.JsonText

/-! ## UTF-8 -/

/-- Octets that begin with `owed` tails, the first of them from `low` to `high`, and go on
    with whole characters. -/
def octets : ℕ → UInt8 → UInt8 → List UInt8 → Bool
  | 0, _, _, [] => true
  | _ + 1, _, _, [] => false
  | 0, _, _, b :: rest =>
    if b ≤ 0x7F then octets 0 0x80 0xBF rest
    else if b < 0xC2 then false
    else if b ≤ 0xDF then octets 1 0x80 0xBF rest
    else if b = 0xE0 then octets 2 0xA0 0xBF rest
    else if b = 0xED then octets 2 0x80 0x9F rest
    else if b ≤ 0xEF then octets 2 0x80 0xBF rest
    else if b = 0xF0 then octets 3 0x90 0xBF rest
    else if b ≤ 0xF3 then octets 3 0x80 0xBF rest
    else if b = 0xF4 then octets 3 0x80 0x8F rest
    else false
  | owed + 1, low, high, b :: rest => decide (low ≤ b ∧ b ≤ high) && octets owed 0x80 0xBF rest

def isUtf8 (s : List UInt8) : Bool := octets 0 0x80 0xBF s

theorem utf8_of_ascii {s : List UInt8} (h : ∀ b ∈ s, b ≤ 0x7F) : isUtf8 s = true := by
  unfold isUtf8
  induction s with
  | nil => rfl
  | cons b s ih =>
    rw [List.forall_mem_cons] at h
    simpa [octets, h.1] using ih h.2

def encodePoint (n : ℕ) : List UInt8 := String.utf8EncodeChar (Char.ofNat n)

/-! ## Values and tokens -/

inductive Token
  /-- One of `[`, `]`, `{`, `}`, `:` and `,`. -/
  | punct (b : UInt8)
  | string (s : List UInt8)
  | number (literal : List UInt8)
  | bool (b : Bool)
  | null
  deriving DecidableEq

inductive Node
  | null
  | bool (b : Bool)
  | number (literal : List UInt8)
  | string (s : List UInt8)
  | array (elements : List Node)
  | object (members : List (List UInt8 × Node))

/-- The member of an object with this name, the first if there are more. -/
def Node.get? (key : List UInt8) : Node → Option Node
  | .object ms => (ms.find? fun m => m.1 == key).map Prod.snd
  | .null | .bool _ | .number _ | .string _ | .array _ => none

def Node.count : Node → Option ℕ
  | .array xs => some xs.length
  | .null | .bool _ | .number _ | .string _ | .object _ => none

theorem get?_of_mem {ms : List (List UInt8 × Node)} {key : List UInt8} {v : Node} (hnames : (ms.map Prod.fst).Nodup)
    (h : (key, v) ∈ ms) : (Node.object ms).get? key = some v := by
  unfold Node.get?
  induction ms with
  | nil => cases h
  | cons m ms ih =>
    rw [List.map_cons, List.nodup_cons] at hnames
    rcases List.mem_cons.mp h with rfl | hmem
    · simp
    · have hne : m.1 ≠ key := fun he => hnames.1 (he ▸ List.mem_map_of_mem hmem)
      simpa [hne] using ih hnames.2 hmem

mutual

def Node.tokens : Node → List Token
  | .null => [.null]
  | .bool b => [.bool b]
  | .number literal => [.number literal]
  | .string s => [.string s]
  | .array [] => [.punct 91, .punct 93]
  | .array (x :: xs) => .punct 91 :: (x.tokens ++ moreElements xs)
  | .object [] => [.punct 123, .punct 125]
  | .object ((key, v) :: ms) => .punct 123 :: .string key :: .punct 58 :: (v.tokens ++ moreMembers ms)

def moreElements : List Node → List Token
  | [] => [.punct 93]
  | x :: xs => .punct 44 :: (x.tokens ++ moreElements xs)

def moreMembers : List (List UInt8 × Node) → List Token
  | [] => [.punct 125]
  | (key, v) :: ms => .punct 44 :: .string key :: .punct 58 :: (v.tokens ++ moreMembers ms)

end

/-! ## Words -/

def isDigit (b : UInt8) : Bool := decide (48 ≤ b ∧ b ≤ 57)

def isWordByte (b : UInt8) : Bool :=
  isDigit b || decide (65 ≤ b ∧ b ≤ 90) || decide (97 ≤ b ∧ b ≤ 122) || b == 43 || b == 45 || b == 46

def exponent : List UInt8 → Bool
  | [] => true
  | b :: rest =>
    let ds := if rest.head? = some 43 ∨ rest.head? = some 45 then rest.tail else rest
    (b == 101 || b == 69) && !ds.isEmpty && ds.all isDigit

def fraction : List UInt8 → Bool
  | [] => true
  | b :: rest =>
    if b = 46 then !(rest.takeWhile isDigit).isEmpty && exponent (rest.dropWhile isDigit) else exponent (b :: rest)

/-- An integer part without leading zeros, then maybe a fraction and an exponent. -/
def unsignedNumber : List UInt8 → Bool
  | [] => false
  | b :: rest => if b = 48 then fraction rest else isDigit b && fraction (rest.dropWhile isDigit)

def isNumber (w : List UInt8) : Bool := unsignedNumber (if w.head? = some 45 then w.tail else w)

def word (w : List UInt8) : Option Token :=
  if w = [110, 117, 108, 108] then some .null -- null
  else if w = [116, 114, 117, 101] then some (.bool true) -- true
  else if w = [102, 97, 108, 115, 101] then some (.bool false) -- false
  else if isNumber w then some (.number w)
  else none

/-! ## Reading -/

inductive Mode
  | between
  | word (read : List UInt8)
  /-- In a string, with what was decoded of it. -/
  | text (out : List UInt8)
  | escape (out : List UInt8)
  /-- In `\u`, behind a high surrogate or not. -/
  | hex (out : List UInt8) (surrogate : Option ℕ) (digits : List UInt8)
  | high (out : List UInt8) (surrogate : ℕ)
  | highEscape (out : List UInt8) (surrogate : ℕ)

def isPunct (b : UInt8) : Bool := b == 91 || b == 93 || b == 123 || b == 125 || b == 58 || b == 44

def isBlank (b : UInt8) : Bool := b == 32 || b == 9 || b == 10 || b == 13

def enter (b : UInt8) : Option (List Token × Mode) :=
  if isPunct b then some ([.punct b], .between)
  else if isBlank b then some ([], .between)
  else if b = 34 then some ([], .text [])
  else if isWordByte b then some ([], .word [b])
  else none

def escaped (b : UInt8) : Option UInt8 :=
  if b = 34 ∨ b = 92 ∨ b = 47 then some b
  else if b = 98 then some 8
  else if b = 102 then some 12
  else if b = 110 then some 10
  else if b = 114 then some 13
  else if b = 116 then some 9
  else none

def hexDigit? (b : UInt8) : Option ℕ :=
  if 48 ≤ b ∧ b ≤ 57 then some (b.toNat - 48)
  else if 65 ≤ b ∧ b ≤ 70 then some (b.toNat - 55)
  else if 97 ≤ b ∧ b ≤ 102 then some (b.toNat - 87)
  else none

def codeUnit (digits : List UInt8) : ℕ := digits.foldl (fun n b => 16 * n + (hexDigit? b).getD 0) 0

/-- A whole `\uXXXX`; surrogates come in pairs. -/
def unicode (out : List UInt8) (n : ℕ) : Option ℕ → Option Mode
  | none =>
    if 0xD800 ≤ n ∧ n < 0xDC00 then some (.high out n)
    else if 0xDC00 ≤ n ∧ n < 0xE000 then none
    else some (.text (out ++ encodePoint n))
  | some high =>
    if 0xDC00 ≤ n ∧ n < 0xE000 then some (.text (out ++ encodePoint (0x10000 + (high - 0xD800) * 0x400 + (n - 0xDC00)))) else none

def step : Mode → UInt8 → Option (List Token × Mode)
  | .between, b => enter b
  | .word read, b =>
    if isWordByte b then some ([], .word (read ++ [b]))
    else (word read).bind fun t => (enter b).map fun r => (t :: r.1, r.2)
  | .text out, b =>
    if b = 34 then if isUtf8 out then some ([.string out], .between) else none
    else if b = 92 then some ([], .escape out)
    else if b < 32 then none
    else some ([], .text (out ++ [b]))
  | .escape out, b =>
    if b = 117 then some ([], .hex out none []) else (escaped b).map fun c => ([], .text (out ++ [c]))
  | .hex out surrogate digits, b =>
    if (hexDigit? b).isNone then none
    else if digits.length < 3 then some ([], .hex out surrogate (digits ++ [b]))
    else (unicode out (codeUnit (digits ++ [b])) surrogate).map fun m => ([], m)
  | .high out surrogate, b => if b = 92 then some ([], .highEscape out surrogate) else none
  | .highEscape out surrogate, b => if b = 117 then some ([], .hex out (some surrogate) []) else none

def run : Mode → List UInt8 → Option (List Token × Mode)
  | m, [] => some ([], m)
  | m, b :: rest => (step m b).bind fun r => (run r.2 rest).map fun q => (r.1 ++ q.1, q.2)

def finish : Mode → Option (List Token)
  | .between => some []
  | .word read => (word read).map fun t => [t]
  | .text _ | .escape _ | .hex _ _ _ | .high _ _ | .highEscape _ _ => none

def lex (text : List UInt8) : Option (List Token) := (run .between text).bind fun r => (finish r.2).map fun ts => r.1 ++ ts

/-- The text is JSON, and its value is `v`. -/
def Denotes (text : List UInt8) (v : Node) : Prop := lex text = some v.tokens

/-! ## One value -/

/-- No value begins with a closing bracket. -/
theorem tokens_ne_close (v : Node) (ts us : List Token) : v.tokens ++ ts ≠ .punct 93 :: us := by
  rcases v with _ | b | literal | s | (_ | ⟨x, xs⟩) | (_ | ⟨m, ms⟩) <;> simp [Node.tokens]

mutual

/-- The tokens of a value end where it ends. -/
theorem tokens_append_inj : (v w : Node) → {ts us : List Token} → v.tokens ++ ts = w.tokens ++ us → v = w ∧ ts = us
  | .null, w, ts, us, h => by
    rcases w with _ | b | literal | s | (_ | ⟨x, xs⟩) | (_ | ⟨m, ms⟩) <;> simp_all [Node.tokens]
  | .bool b, w, ts, us, h => by
    rcases w with _ | b | literal | s | (_ | ⟨x, xs⟩) | (_ | ⟨m, ms⟩) <;> simp_all [Node.tokens]
  | .number literal, w, ts, us, h => by
    rcases w with _ | b | literal | s | (_ | ⟨x, xs⟩) | (_ | ⟨m, ms⟩) <;> simp_all [Node.tokens]
  | .string s, w, ts, us, h => by
    rcases w with _ | b | literal | s | (_ | ⟨x, xs⟩) | (_ | ⟨m, ms⟩) <;> simp_all [Node.tokens]
  | .array [], w, ts, us, h => by
    rcases w with _ | b | literal | s | (_ | ⟨x, xs⟩) | (_ | ⟨m, ms⟩)
    case array.cons => exact absurd (by simpa [Node.tokens] using h.symm) (tokens_ne_close x _ ts)
    all_goals simp_all [Node.tokens]
  | .array (x :: xs), w, ts, us, h => by
    rcases w with _ | b | literal | s | (_ | ⟨y, ys⟩) | (_ | ⟨m, ms⟩)
    case array.nil => exact absurd (by simpa [Node.tokens] using h) (tokens_ne_close x _ us)
    case array.cons =>
      simp only [Node.tokens, List.cons_append, List.cons.injEq, List.append_assoc, true_and] at h
      obtain ⟨rfl, hmore⟩ := tokens_append_inj x y h
      obtain ⟨rfl, rfl⟩ := moreElements_append_inj xs ys hmore
      exact ⟨rfl, rfl⟩
    all_goals simp [Node.tokens] at h
  | .object [], w, ts, us, h => by
    rcases w with _ | b | literal | s | (_ | ⟨x, xs⟩) | (_ | ⟨m, ms⟩) <;> simp_all [Node.tokens]
  | .object ((key, v) :: ms), w, ts, us, h => by
    rcases w with _ | b | literal | s | (_ | ⟨y, ys⟩) | (_ | ⟨⟨key', w⟩, ns⟩)
    case object.cons =>
      simp only [Node.tokens, List.cons_append, List.cons.injEq, Token.string.injEq, List.append_assoc, true_and] at h
      obtain ⟨rfl, hrest⟩ := h
      obtain ⟨rfl, hmore⟩ := tokens_append_inj v w hrest
      obtain ⟨rfl, rfl⟩ := moreMembers_append_inj ms ns hmore
      exact ⟨rfl, rfl⟩
    all_goals simp [Node.tokens] at h

theorem moreElements_append_inj : (xs ys : List Node) → {ts us : List Token} →
    moreElements xs ++ ts = moreElements ys ++ us → xs = ys ∧ ts = us
  | [], [], ts, us, h => by simpa [moreElements] using h
  | [], y :: ys, ts, us, h => by simp [moreElements] at h
  | x :: xs, [], ts, us, h => by simp [moreElements] at h
  | x :: xs, y :: ys, ts, us, h => by
    simp only [moreElements, List.cons_append, List.cons.injEq, List.append_assoc, true_and] at h
    obtain ⟨rfl, hmore⟩ := tokens_append_inj x y h
    obtain ⟨rfl, rfl⟩ := moreElements_append_inj xs ys hmore
    exact ⟨rfl, rfl⟩

theorem moreMembers_append_inj : (ms ns : List (List UInt8 × Node)) → {ts us : List Token} →
    moreMembers ms ++ ts = moreMembers ns ++ us → ms = ns ∧ ts = us
  | [], [], ts, us, h => by simpa [moreMembers] using h
  | [], (key, w) :: ns, ts, us, h => by simp [moreMembers] at h
  | (key, v) :: ms, [], ts, us, h => by simp [moreMembers] at h
  | (key, v) :: ms, (key', w) :: ns, ts, us, h => by
    simp only [moreMembers, List.cons_append, List.cons.injEq, Token.string.injEq, List.append_assoc, true_and] at h
    obtain ⟨rfl, hrest⟩ := h
    obtain ⟨rfl, hmore⟩ := tokens_append_inj v w hrest
    obtain ⟨rfl, rfl⟩ := moreMembers_append_inj ms ns hmore
    exact ⟨rfl, rfl⟩

end

theorem denotes_unique {text : List UInt8} {v w : Node} (hv : Denotes text v) (hw : Denotes text w) : v = w := by
  have htokens : v.tokens = w.tokens := Option.some.inj (hv.symm.trans hw)
  exact (tokens_append_inj v w (congrArg (· ++ []) htokens)).1

/-! ## Pieces of a text -/

/-- The bytes `s` take the reader from one mode to another, and give these tokens. -/
def Reads (m : Mode) (s : List UInt8) (ts : List Token) (m' : Mode) : Prop := run m s = some (ts, m')

/-- The reader goes on where it is after the bytes before. -/
theorem run_append (m : Mode) (s t : List UInt8) :
    run m (s ++ t) = (run m s).bind fun q => (run q.2 t).map fun r => (q.1 ++ r.1, r.2) := by
  induction s generalizing m with
  | nil => simp [run]
  | cons b s ih =>
    rw [List.cons_append, run, run, Option.bind_assoc]
    refine Option.bind_congr fun r _ => ?_
    rw [ih, Option.map_bind, Option.bind_map]
    refine Option.bind_congr fun q _ => ?_
    rw [Function.comp, Function.comp, Option.map_map]
    simp [Function.comp_def]

theorem Reads.append {m m' m'' : Mode} {s s' : List UInt8} {ts ts' : List Token} (h : Reads m s ts m') (h' : Reads m' s' ts' m'') :
    Reads m (s ++ s') (ts ++ ts') m'' := by
  unfold Reads at *
  rw [run_append, h, Option.bind_some, h', Option.map_some]

theorem reads_step {m m' : Mode} {b : UInt8} {ts : List Token} (h : step m b = some (ts, m')) : Reads m [b] ts m' := by
  simp [Reads, run, h]

def isPlain (b : UInt8) : Bool := b != 34 && b != 92 && decide (32 ≤ b)

theorem reads_text {s : List UInt8} (h : s.all isPlain) (out : List UInt8) : Reads (.text out) s [] (.text (out ++ s)) := by
  induction s generalizing out with
  | nil => simp [Reads, run]
  | cons b s ih =>
    simp only [List.all_cons, Bool.and_eq_true] at h
    obtain ⟨hb, hs⟩ := h
    simp only [isPlain, Bool.and_eq_true, bne_iff_ne, decide_eq_true_eq] at hb
    have hstep : Reads (.text out) [b] [] (.text (out ++ [b])) := by
      refine reads_step ?_
      simp [step, hb.1.1, hb.1.2, UInt8.not_lt.mpr hb.2]
    have hrest := hstep.append (ih hs (out ++ [b]))
    simpa using hrest

/-- A backslash and a letter. -/
theorem reads_escape {b c : UInt8} (h : escaped b = some c) (hb : b ≠ 117) (out : List UInt8) :
    Reads (.text out) [92, b] [] (.text (out ++ [c])) := by
  have hslash : Reads (.text out) [92] [] (.escape out) := reads_step rfl
  have hletter : Reads (.escape out) [b] [] (.text (out ++ [c])) := reads_step (by simp [step, hb, h])
  exact hslash.append hletter

/-- A backslash, `u` and four digits, of a code point that is not a surrogate. -/
theorem reads_unicode {ds : List UInt8} (hlen : ds.length = 4) (hhex : ∀ b ∈ ds, hexDigit? b ≠ none)
    (hunit : codeUnit ds < 0xD800) (out : List UInt8) :
    Reads (.text out) (92 :: 117 :: ds) [] (.text (out ++ encodePoint (codeUnit ds))) := by
  have hopen : Reads (.text out) [92, 117] [] (.hex out none []) := rfl
  match ds, hlen with
  | [a, b, c, d], _ =>
    simp only [List.forall_mem_cons] at hhex
    obtain ⟨ha, hb, hc, hd, -⟩ := hhex
    have hall : unicode out (codeUnit [a, b, c, d]) none = some (.text (out ++ encodePoint (codeUnit [a, b, c, d]))) := by
      rw [unicode, if_neg (by omega), if_neg (by omega)]
    have hdigits : Reads (.hex out none []) [a, b, c, d] [] (.text (out ++ encodePoint (codeUnit [a, b, c, d]))) := by
      simp [Reads, run, step, ha, hb, hc, hd, hall]
    exact hopen.append hdigits

/-! ## Writers -/

/-- `s` is written for `v`: with a punctuation mark behind it, it gives the tokens of both. -/
def Writes (v : Node) (s : List UInt8) : Prop :=
  ∀ c, isPunct c = true → Reads .between (s ++ [c]) (v.tokens ++ [.punct c]) .between

def WritesMember (m : List UInt8 × Node) (s : List UInt8) : Prop :=
  ∀ c, isPunct c = true → Reads .between (s ++ [c]) (.string m.1 :: .punct 58 :: (m.2.tokens ++ [.punct c])) .between

theorem reads_punct {c : UInt8} (h : isPunct c = true) : Reads .between [c] [.punct c] .between :=
  reads_step (by simp [step, enter, h])

theorem writes_of_reads {v : Node} {s : List UInt8} (h : Reads .between s v.tokens .between) : Writes v s :=
  fun _ hc => h.append (reads_punct hc)

theorem denotes_of_reads {v : Node} {s : List UInt8} (h : Reads .between s v.tokens .between) : Denotes s v := by
  have hrun : run .between s = some (v.tokens, .between) := h
  simp [Denotes, lex, hrun, finish]

theorem reads_string {s out : List UInt8} (h : Reads (.text []) s [] (.text out)) (hutf8 : isUtf8 out = true) :
    Reads .between (34 :: (s ++ [34])) [.string out] .between := by
  have hopen : Reads .between [34] [] (.text []) := reads_step rfl
  have hclose : Reads (.text out) [34] [.string out] .between := reads_step (by simp [step, hutf8])
  exact hopen.append (h.append hclose)

theorem writes_string {s out : List UInt8} (h : Reads (.text []) s [] (.text out)) (hutf8 : isUtf8 out = true) :
    Writes (.string out) (34 :: (s ++ [34])) :=
  writes_of_reads (reads_string h hutf8)

/-! ### Words -/

theorem word_bytes (b : UInt8) (h : isWordByte b = true) : isPunct b = false ∧ isBlank b = false ∧ b ≠ 34 := by
  simp only [isWordByte, isDigit, isPunct, isBlank, Bool.or_eq_true, decide_eq_true_eq, beq_iff_eq, Bool.or_eq_false_iff,
    beq_eq_false_iff_ne, ne_eq, UInt8.le_iff_toNat_le, ← UInt8.toNat_inj, UInt8.reduceToNat] at h ⊢
  omega

theorem enter_word {b : UInt8} (h : isWordByte b = true) : enter b = some ([], .word [b]) := by
  obtain ⟨hpunct, hblank, hquote⟩ := word_bytes b h
  simp [enter, h, hpunct, hblank, hquote]

theorem reads_word {w : List UInt8} (h : w.all isWordByte = true) (read : List UInt8) : Reads (.word read) w [] (.word (read ++ w)) := by
  induction w generalizing read with
  | nil => simp [Reads, run]
  | cons b w ih =>
    simp only [List.all_cons, Bool.and_eq_true] at h
    have hstep : Reads (.word read) [b] [] (.word (read ++ [b])) := reads_step (by simp [step, h.1])
    have hrest := hstep.append (ih h.2 (read ++ [b]))
    simpa using hrest

theorem punct_not_word {c : UInt8} (h : isPunct c = true) : isWordByte c = false := by
  by_contra hword
  have := (word_bytes c (by simpa using hword)).1
  simp [this] at h

/-- A word is known whole when a mark follows it. -/
theorem writes_word {v : Node} {b : UInt8} {w : List UInt8} {t : Token} (hbytes : (b :: w).all isWordByte = true)
    (hword : word (b :: w) = some t) (hv : v.tokens = [t]) : Writes v (b :: w) := by
  intro c hc
  simp only [List.all_cons, Bool.and_eq_true] at hbytes
  have hfirst : Reads .between [b] [] (.word [b]) := reads_step (enter_word hbytes.1)
  have hend : Reads (.word (b :: w)) [c] [t, .punct c] .between := by
    refine reads_step ?_
    simp [step, punct_not_word hc, hword, enter, hc]
  rw [hv]
  exact (hfirst.append (reads_word hbytes.2 [b])).append hend

theorem writes_number {w : List UInt8} (hbytes : w.all isWordByte = true) (h : isNumber w = true) : Writes (.number w) w := by
  cases w with
  | nil => exact absurd h (by decide)
  | cons b w =>
    refine writes_word hbytes ?_ rfl
    have hnull : b :: w ≠ [110, 117, 108, 108] := fun he => by rw [he] at h; exact absurd h (by decide)
    have htrue : b :: w ≠ [116, 114, 117, 101] := fun he => by rw [he] at h; exact absurd h (by decide)
    have hfalse : b :: w ≠ [102, 97, 108, 115, 101] := fun he => by rw [he] at h; exact absurd h (by decide)
    simp only [word, if_neg hnull, if_neg htrue, if_neg hfalse, h, if_true]

theorem writes_null : Writes .null [110, 117, 108, 108] := writes_word rfl rfl rfl

/-! ### Brackets -/

theorem reads_elements {x : Node} {t : List UInt8} {xs : List Node} {texts : List (List UInt8)} (hx : Writes x t)
    (h : List.Forall₂ Writes xs texts) :
    Reads .between ([44].intercalate (t :: texts) ++ [93]) (x.tokens ++ moreElements xs) .between := by
  induction h generalizing x t with
  | nil => simpa [moreElements] using hx 93 rfl
  | @cons y t' xs texts hy _ ih =>
    have hrest := (hx 44 rfl).append (ih hy)
    simpa [moreElements, List.intercalate] using hrest

theorem writes_array {xs : List Node} {texts : List (List UInt8)} (h : List.Forall₂ Writes xs texts) :
    Writes (.array xs) (91 :: ([44].intercalate texts ++ [93])) := by
  refine writes_of_reads ?_
  have hopen : Reads .between [91] [.punct 91] .between := reads_punct rfl
  cases h with
  | nil => exact hopen.append (reads_punct rfl)
  | cons hx hxs => exact hopen.append (reads_elements hx hxs)

/-- `"key" : value`. -/
theorem writes_member {key t : List UInt8} {v : Node} (hplain : key.all isPlain = true) (hutf8 : isUtf8 key = true)
    (h : Writes v t) : WritesMember (key, v) (34 :: (key ++ [34]) ++ [32, 58, 32] ++ t) := by
  intro c hc
  have hkey : Reads .between (34 :: (key ++ [34])) [.string key] .between := reads_string (reads_text hplain []) hutf8
  have hcolon : Reads .between [32, 58, 32] [.punct 58] .between := rfl
  rw [List.append_assoc]
  exact (hkey.append hcolon).append (h c hc)

theorem reads_members {m : List UInt8 × Node} {t : List UInt8} {ms : List (List UInt8 × Node)} {texts : List (List UInt8)}
    (hm : WritesMember m t) (h : List.Forall₂ WritesMember ms texts) :
    Reads .between ([44].intercalate (t :: texts) ++ [125]) (.string m.1 :: .punct 58 :: (m.2.tokens ++ moreMembers ms)) .between := by
  induction h generalizing m t with
  | nil => simpa [moreMembers] using hm 125 rfl
  | @cons m' t' ms texts hm' _ ih =>
    have hrest := (hm 44 rfl).append (ih hm')
    simpa [moreMembers, List.intercalate] using hrest

theorem Reads.none_append {m m' : Mode} {s t : List UInt8} {ts : List Token} (h : Reads m s ts m') (hfail : run m' t = none) :
    run m (s ++ t) = none := by
  unfold Reads at h
  rw [run_append, h, Option.bind_some, hfail, Option.map_none]

theorem run_none_append {m : Mode} {s : List UInt8} (h : run m s = none) (t : List UInt8) : run m (s ++ t) = none := by
  rw [run_append, h, Option.bind_none]

/-- Members before one that cannot be read do not make a text of it, nor do those behind it. -/
theorem not_denotes_object {ms : List (List UInt8 × Node)} {texts rest : List (List UInt8)} {t next : List UInt8}
    (h : List.Forall₂ WritesMember ms texts) (hfail : run .between (t ++ [44]) = none) (v : Node) :
    ¬ Denotes (123 :: ([44].intercalate (texts ++ t :: next :: rest) ++ [125])) v := by
  have hmembers : run .between ([44].intercalate (texts ++ t :: next :: rest) ++ [125]) = none := by
    induction h with
    | nil =>
      have hrun := run_none_append hfail ([44].intercalate (next :: rest) ++ [125])
      simpa [List.intercalate] using hrun
    | @cons m t' ms texts hm _ ih =>
      have hrun := (hm 44 rfl).none_append ih
      cases texts <;> simpa [List.intercalate] using hrun
  have hopen : Reads .between [123] [.punct 123] .between := reads_punct rfl
  have hrun := hopen.none_append hmembers
  rw [List.singleton_append] at hrun
  simp [Denotes, lex, hrun]

theorem denotes_object {ms : List (List UInt8 × Node)} {texts : List (List UInt8)} (h : List.Forall₂ WritesMember ms texts) :
    Denotes (123 :: ([44].intercalate texts ++ [125])) (.object ms) := by
  refine denotes_of_reads ?_
  have hopen : Reads .between [123] [.punct 123] .between := reads_punct rfl
  cases h with
  | nil => exact hopen.append (reads_punct rfl)
  | cons hm hms => exact hopen.append (reads_members hm hms)

end FitsWebQL.Lib.JsonText
