/-
  FitsWebQL.JsonEncode — the writer of `json.c` (`json_encode`, `json_stringify` and the
  `emit_*` they call). A value is written without blanks, or on lines of its own behind
  an indentation; the two differ in what stands before an element and behind a colon only.

  A string is asserted to be UTF-8. A number is written with 16 digits, and as `null` when
  that is no JSON number.

  Proved:
    emit_number_eq          NaN and the infinities, and no others, are written as `null`
    json_stringify_isSome   a value is written when its strings are UTF-8
    json_decode_stringify   what is written is decoded as the value again, its numbers at
                            16 digits; unless U+001F is in a string
-/

import FitsWebQL.JsonDecode
import FitsWebQL.Lib.PrintfG

namespace FitsWebQL

open Lib.Binary Lib.JsonText Lib.PrintfG

/-! ## Numbers and strings -/

def number_is_valid (num : Bytes) : Bool := (parse_number num).any fun r => r.2.isEmpty

def emit_number (num : Value) : Bytes := if number_is_valid (g 16 num) then g 16 num else lit "null"

def JsonNode.emit_string (str : Bytes) : Option Bytes := json_encode_string (cString str)

/-! ## Values -/

mutual

/-- `emit_value` and `emit_value_indented`: `newline` is what stands before an element or a
    closing bracket at a level, `gap` what stands behind a colon. -/
def emitWith (newline : ℕ → Bytes) (gap : Bytes) : ℕ → JsonNode → Option Bytes
  | _, .null => some (lit "null")
  | _, .bool b => some (lit (if b then "true" else "false"))
  | _, .string s => JsonNode.emit_string s
  | _, .number n => some (emit_number n.value)
  | _, .array [] => some (lit "[]")
  | level, .array (x :: xs) => do
    let text ← emitElements newline gap (level + 1) (x :: xs)
    some (91 :: text ++ newline level ++ [93])
  | _, .object [] => some (lit "\x7b\x7d")
  | level, .object (m :: ms) => do
    let text ← emitMembers newline gap (level + 1) (m :: ms)
    some (123 :: text ++ newline level ++ [125])

def emitElements (newline : ℕ → Bytes) (gap : Bytes) : ℕ → List JsonNode → Option Bytes
  | _, [] => some []
  | level, element :: next => do
    let text ← emitWith newline gap level element
    let rest ← emitElements newline gap level next
    some (newline level ++ text ++ (if next.isEmpty then [] else [44]) ++ rest)

def emitMembers (newline : ℕ → Bytes) (gap : Bytes) : ℕ → List (Bytes × JsonNode) → Option Bytes
  | _, [] => some []
  | level, (key, member) :: next => do
    let name ← JsonNode.emit_string key
    let text ← emitWith newline gap level member
    let rest ← emitMembers newline gap level next
    some (newline level ++ name ++ 58 :: gap ++ text ++ (if next.isEmpty then [] else [44]) ++ rest)

end

def emit_value (node : JsonNode) : Option Bytes := emitWith (fun _ => []) [] 0 node

def emit_value_indented (node : JsonNode) (space : Bytes) (indent_level : ℕ) : Option Bytes :=
  emitWith (fun level => 10 :: (List.replicate level space).flatten) [32] indent_level node

/-- `none` is an assertion that fails. -/
def json_stringify (node : JsonNode) : Option Bytes → Option Bytes
  | some space => emit_value_indented node space 0
  | none => emit_value node

def json_encode (node : JsonNode) : Option Bytes := json_stringify node none

/-! ## A number as it is written -/

theorem magnitude_nonneg {f : Format} (x : Number f) {negative : Bool} {m : ℚ} (h : x.value = .finite negative m) : 0 ≤ m := by
  have hvalue := x.of_format
  rw [h] at hvalue
  have hrange := value_inRange f negative m
  rw [show f.value negative m = .finite negative m from hvalue] at hrange
  rcases hrange.2 with h0 | hmin
  · exact h0.ge
  · exact (zpow_pos two_pos _).le.trans hmin

theorem number_is_valid_iff (num : Bytes) : number_is_valid num = true ↔ isNumber num = true ∧ num.all isWordByte = true := by
  have hend : EndsWord [] := nofun
  unfold number_is_valid
  constructor
  · intro h
    cases hparse : parse_number num with
    | none => simp [hparse] at h
    | some r =>
      obtain ⟨n, rest⟩ := r
      obtain rfl : rest = [] := by simpa [hparse] using h
      obtain ⟨w, hw, hnumber, hword, -⟩ := parse_number_some hparse hend
      rw [List.append_nil] at hw
      exact ⟨hw ▸ hnumber, hw ▸ hword⟩
  · rintro ⟨hnumber, -⟩
    have hparse := parse_number_append hnumber hend
    rw [List.append_nil] at hparse
    rw [hparse]
    rfl

theorem valid_g (x : Double) : number_is_valid (g 16 x.value) = isFinite x.value := by
  cases h : x.value with
  | finite negative m =>
    have hend : EndsWord [] := nofun
    have hnumber := isNumber_g (p := 16) (by decide) negative (magnitude_nonneg x h)
    have hparse := parse_number_append hnumber hend
    rw [List.append_nil] at hparse
    rw [number_is_valid, hparse]
    rfl
  | infinite negative =>
    refine Bool.eq_false_iff.mpr fun hvalid => ?_
    rw [number_is_valid_iff, notNumber_g 16 (by simp)] at hvalid
    cases hvalid.1
  | nan =>
    refine Bool.eq_false_iff.mpr fun hvalid => ?_
    rw [number_is_valid_iff, notNumber_g 16 (by simp)] at hvalid
    cases hvalid.1

/-- `null` stands for what is no number. -/
theorem emit_number_eq (x : Double) : emit_number x.value = if isFinite x.value then g 16 x.value else lit "null" := by
  rw [emit_number, valid_g]

/-! ## A value as it is read again -/

mutual

def writtenNode : JsonNode → Node
  | .null => .null
  | .bool b => .bool b
  | .string s => .string (cString s)
  | .number n => if isFinite n.value then .number (g 16 n.value) else .null
  | .array xs => .array (writtenElements xs)
  | .object ms => .object (writtenMembers ms)

def writtenElements : List JsonNode → List Node
  | [] => []
  | x :: xs => writtenNode x :: writtenElements xs

def writtenMembers : List (Bytes × JsonNode) → List (Bytes × Node)
  | [] => []
  | (key, x) :: ms => (cString key, writtenNode x) :: writtenMembers ms

end

mutual

/-- A number comes back at 16 digits, and what is none as `null`. -/
def reread : JsonNode → JsonNode
  | .null => .null
  | .bool b => .bool b
  | .string s => .string (cString s)
  | .number n => if isFinite n.value then .number (Double.of (doubleValue (g 16 n.value))) else .null
  | .array xs => .array (rereadElements xs)
  | .object ms => .object (rereadMembers ms)

def rereadElements : List JsonNode → List JsonNode
  | [] => []
  | x :: xs => reread x :: rereadElements xs

def rereadMembers : List (Bytes × JsonNode) → List (Bytes × JsonNode)
  | [] => []
  | (key, x) :: ms => (cString key, reread x) :: rereadMembers ms

end

mutual

def unitFree : JsonNode → Bool
  | .null | .bool _ | .number _ => true
  | .string s => !(cString s).elem 0x1F
  | .array xs => elementsUnitFree xs
  | .object ms => membersUnitFree ms

def elementsUnitFree : List JsonNode → Bool
  | [] => true
  | x :: xs => unitFree x && elementsUnitFree xs

def membersUnitFree : List (Bytes × JsonNode) → Bool
  | [] => true
  | (key, x) :: ms => !(cString key).elem 0x1F && unitFree x && membersUnitFree ms

end

mutual

def textual : JsonNode → Bool
  | .null | .bool _ | .number _ => true
  | .string s => utf8_validate (cString s)
  | .array xs => elementsTextual xs
  | .object ms => membersTextual ms

def elementsTextual : List JsonNode → Bool
  | [] => true
  | x :: xs => textual x && elementsTextual xs

def membersTextual : List (Bytes × JsonNode) → Bool
  | [] => true
  | (key, x) :: ms => utf8_validate (cString key) && textual x && membersTextual ms

end

mutual

theorem of_written : (v : JsonNode) → JsonNode.of (writtenNode v) = reread v
  | .null => rfl
  | .bool b => rfl
  | .string s => rfl
  | .number n => by
    unfold writtenNode reread
    split <;> rfl
  | .array xs => congrArg JsonNode.array (of_writtenElements xs)
  | .object ms => congrArg JsonNode.object (of_writtenMembers ms)

theorem of_writtenElements : (xs : List JsonNode) → elementsOf (writtenElements xs) = rereadElements xs
  | [] => rfl
  | x :: xs => congrArg₂ List.cons (of_written x) (of_writtenElements xs)

theorem of_writtenMembers : (ms : List (Bytes × JsonNode)) → membersOf (writtenMembers ms) = rereadMembers ms
  | [] => rfl
  | (key, x) :: ms => congrArg₂ List.cons (congrArg (Prod.mk (cString key)) (of_written x)) (of_writtenMembers ms)

end

theorem zero_notMem_cString (s : Bytes) : 0 ∉ cString s := by
  intro hmem
  simpa using List.mem_takeWhile_imp hmem

mutual

theorem nulFree_written : (v : JsonNode) → nulFree (writtenNode v) = true
  | .null => rfl
  | .bool b => rfl
  | .string s => by simp [writtenNode, nulFree, zero_notMem_cString]
  | .number n => by
    unfold writtenNode
    split <;> rfl
  | .array xs => nulFree_writtenElements xs
  | .object ms => nulFree_writtenMembers ms

theorem nulFree_writtenElements : (xs : List JsonNode) → elementsNulFree (writtenElements xs) = true
  | [] => rfl
  | x :: xs => by rw [writtenElements, elementsNulFree, nulFree_written x, nulFree_writtenElements xs, Bool.and_self]

theorem nulFree_writtenMembers : (ms : List (Bytes × JsonNode)) → membersNulFree (writtenMembers ms) = true
  | [] => rfl
  | (key, x) :: ms => by
    rw [writtenMembers, membersNulFree, nulFree_written x, nulFree_writtenMembers ms]
    simp [zero_notMem_cString]

end

/-! ## What the writer writes -/

theorem lex_emitted {s : Bytes} (hutf8 : isUtf8 s = true) (out t : Bytes) :
    lexFrom (.text out) (emitChars s ++ t) = if 0x1F ∈ s then none else lexFrom (.text (out ++ s)) t := by
  induction hlen : s.length using Nat.strong_induction_on generalizing s out with
  | _ len ih =>
    cases s with
    | nil => simp [emitChars]
    | cons c s =>
      obtain ⟨n, text, hnext, htext, -, hunit | ⟨hfree, hreads⟩⟩ := emitChars_step hutf8
      · rw [htext, hunit.2, hunit.1, if_pos List.mem_cons_self]
        rfl
      · have hlt : (s.drop n).length < len := by
          rw [← hlen, List.length_drop, List.length_cons]
          omega
        have hmem : 0x1F ∈ c :: s ↔ 0x1F ∈ s.drop n := by
          conv_lhs => rw [← List.take_append_drop n s, ← List.cons_append, List.mem_append]
          exact or_iff_right hfree
        rw [htext, List.append_assoc, lexFrom_append (hreads out), ih _ hlt hnext _ rfl]
        simp only [hmem, List.append_assoc, List.cons_append, List.take_append_drop, List.nil_append, Option.map_id']

theorem zero_notMem_emitChars {s : Bytes} (hutf8 : isUtf8 s = true) (h : 0 ∉ s) : 0 ∉ emitChars s := by
  induction hlen : s.length using Nat.strong_induction_on generalizing s with
  | _ len ih =>
    cases s with
    | nil => simp [emitChars]
    | cons c s =>
      obtain ⟨n, text, hnext, htext, hnul, -⟩ := emitChars_step hutf8
      have hlt : (s.drop n).length < len := by
        rw [← hlen, List.length_drop, List.length_cons]
        omega
      have hrest : 0 ∉ s.drop n := fun hmem => h (List.mem_cons_of_mem _ (List.mem_of_mem_drop hmem))
      rw [htext, List.mem_append]
      exact fun hmem => hmem.elim (hnul h) (ih _ hlt hnext hrest rfl)

theorem emits_string {s text : Bytes} (h : JsonNode.emit_string s = some text) :
    Emits text [.string (cString s)] (!(cString s).elem 0x1F) := by
  unfold JsonNode.emit_string json_encode_string at h
  split at h
  · cases h
    rename_i hutf8
    rw [utf8_validate_eq] at hutf8
    refine ⟨fun {rest} _ => ?_, ?_⟩
    · rw [List.cons_append, lex_quote, List.append_assoc, lex_emitted hutf8, List.nil_append, List.singleton_append, lexFrom_cons, step,
        if_pos rfl, if_pos hutf8, Option.bind_some, lexFrom_between]
      by_cases hunit : 0x1F ∈ cString s <;> simp [hunit]
    · simp [zero_notMem_emitChars hutf8 (zero_notMem_cString s)]
  · cases h

theorem emits_number (x : Double) : Emits (emit_number x.value) (writtenNode (.number x)).tokens true := by
  rw [emit_number_eq, writtenNode]
  by_cases h : isFinite x.value = true
  · obtain ⟨hnumber, hword⟩ := (number_is_valid_iff _).mp ((valid_g x).trans h)
    have hne : g 16 x.value ≠ [] := fun he => by
      rw [he] at hnumber
      cases hnumber
    rw [if_pos h, if_pos h]
    exact emits_word hne hword (word_number hnumber)
  · rw [if_neg h, if_neg h]
    exact emits_word (by decide) (by decide) rfl

/-- A closing bracket on a line of its own. -/
theorem emits_closing {s : Bytes} (hs : s.all isBlank = true) {p : UInt8} (hp : isPunct p = true) :
    Emits (s ++ [p]) [.punct p] true ∧ EndsWord (s ++ [p]) :=
  ⟨(emits_punct hp).after_blanks hs, endsWord_blanks hs (endsWord_punct hp [])⟩

mutual

/-- By recursion on the value. -/
theorem emits_value {newline : ℕ → Bytes} {gap : Bytes} (hnewline : ∀ level, (newline level).all isBlank = true)
    (hgap : gap.all isBlank = true) : (v : JsonNode) → {level : ℕ} → {text : Bytes} →
    emitWith newline gap level v = some text → Emits text (writtenNode v).tokens (unitFree v)
  | .null, _, _, h => by
    cases h
    exact emits_word (by decide) (by decide) rfl
  | .bool b, _, _, h => by
    cases h
    cases b <;> exact emits_word (by decide) (by decide) rfl
  | .string s, _, _, h => emits_string h
  | .number n, _, _, h => by
    cases h
    exact emits_number n
  | .array [], _, _, h => by
    cases h
    exact (emits_punct rfl).after_punct rfl
  | .array (x :: xs), level, text, h => by
    obtain ⟨t, ht, he⟩ := Option.bind_eq_some_iff.mp h
    cases he
    exact (emits_elements hnewline hgap (x :: xs) (List.cons_ne_nil _ _) ht level).after_punct rfl
  | .object [], _, _, h => by
    cases h
    exact (emits_punct rfl).after_punct rfl
  | .object (m :: ms), level, text, h => by
    obtain ⟨t, ht, he⟩ := Option.bind_eq_some_iff.mp h
    cases he
    exact (emits_members hnewline hgap (m :: ms) (List.cons_ne_nil _ _) ht level).after_punct rfl

/-- The elements, and the closing bracket. -/
theorem emits_elements {newline : ℕ → Bytes} {gap : Bytes} (hnewline : ∀ level, (newline level).all isBlank = true)
    (hgap : gap.all isBlank = true) : (xs : List JsonNode) → xs ≠ [] → {level : ℕ} → {text : Bytes} →
    emitElements newline gap level xs = some text → (outer : ℕ) →
      Emits (text ++ newline outer ++ [93]) (moreElements (writtenElements xs)).tail (elementsUnitFree xs)
  | [], hne, _, _, _, _ => absurd rfl hne
  | x :: next, _, level, text, h, outer => by
    obtain ⟨t, ht, h⟩ := Option.bind_eq_some_iff.mp h
    obtain ⟨rest, hrest, he⟩ := Option.bind_eq_some_iff.mp h
    cases he
    have hvalue := (emits_value hnewline hgap x ht).after_blanks (hnewline level)
    cases next with
    | nil =>
      cases hrest
      obtain ⟨hclosing, hends⟩ := emits_closing (hnewline outer) (p := 93) rfl
      have htext := hvalue.append hclosing hends
      simpa [writtenElements, moreElements, elementsUnitFree] using htext
    | cons y ys =>
      have hmore := (emits_elements hnewline hgap (y :: ys) (List.cons_ne_nil _ _) hrest outer).after_punct (p := 44) rfl
      have htext := hvalue.append hmore (endsWord_punct rfl _)
      simpa [writtenElements, moreElements, elementsUnitFree] using htext

theorem emits_members {newline : ℕ → Bytes} {gap : Bytes} (hnewline : ∀ level, (newline level).all isBlank = true)
    (hgap : gap.all isBlank = true) : (ms : List (Bytes × JsonNode)) → ms ≠ [] → {level : ℕ} → {text : Bytes} →
    emitMembers newline gap level ms = some text → (outer : ℕ) →
      Emits (text ++ newline outer ++ [125]) (moreMembers (writtenMembers ms)).tail (membersUnitFree ms)
  | [], hne, _, _, _, _ => absurd rfl hne
  | (key, x) :: next, _, level, text, h, outer => by
    obtain ⟨name, hname, h⟩ := Option.bind_eq_some_iff.mp h
    obtain ⟨t, ht, h⟩ := Option.bind_eq_some_iff.mp h
    obtain ⟨rest, hrest, he⟩ := Option.bind_eq_some_iff.mp h
    cases he
    have hcolon := ((emits_value hnewline hgap x ht).after_blanks hgap).after_punct (p := 58) rfl
    have hmember := ((emits_string hname).after_blanks (hnewline level)).append hcolon (endsWord_punct rfl _)
    cases next with
    | nil =>
      cases hrest
      obtain ⟨hclosing, hends⟩ := emits_closing (hnewline outer) (p := 125) rfl
      have htext := hmember.append hclosing hends
      simpa [writtenMembers, moreMembers, membersUnitFree] using htext
    | cons m ms =>
      have hmore := (emits_members hnewline hgap (m :: ms) (List.cons_ne_nil _ _) hrest outer).after_punct (p := 44) rfl
      have htext := hmember.append hmore (endsWord_punct rfl _)
      simpa [writtenMembers, moreMembers, membersUnitFree, Bool.and_assoc] using htext

end

mutual

/-- What has to be UTF-8 is; the rest of the writer cannot fail. -/
theorem emitWith_isSome (newline : ℕ → Bytes) (gap : Bytes) : (v : JsonNode) → (level : ℕ) →
    (emitWith newline gap level v).isSome = textual v
  | .null, _ | .bool _, _ | .number _, _ | .array [], _ | .object [], _ => rfl
  | .string s, _ => by
    simp only [emitWith, JsonNode.emit_string, json_encode_string, textual]
    split <;> simp_all
  | .array (x :: xs), level => by
    have hxs := emitElements_isSome newline gap (x :: xs) (level + 1)
    rw [emitWith, textual, ← hxs]
    cases emitElements newline gap (level + 1) (x :: xs) <;> rfl
  | .object (m :: ms), level => by
    have hms := emitMembers_isSome newline gap (m :: ms) (level + 1)
    rw [emitWith, textual, ← hms]
    cases emitMembers newline gap (level + 1) (m :: ms) <;> rfl

theorem emitElements_isSome (newline : ℕ → Bytes) (gap : Bytes) : (xs : List JsonNode) → (level : ℕ) →
    (emitElements newline gap level xs).isSome = elementsTextual xs
  | [], _ => rfl
  | x :: xs, level => by
    rw [emitElements, elementsTextual, ← emitWith_isSome newline gap x level, ← emitElements_isSome newline gap xs level]
    cases emitWith newline gap level x <;> cases emitElements newline gap level xs <;> rfl

theorem emitMembers_isSome (newline : ℕ → Bytes) (gap : Bytes) : (ms : List (Bytes × JsonNode)) → (level : ℕ) →
    (emitMembers newline gap level ms).isSome = membersTextual ms
  | [], _ => rfl
  | (key, x) :: ms, level => by
    have hkey : (JsonNode.emit_string key).isSome = utf8_validate (cString key) := by
      simp only [JsonNode.emit_string, json_encode_string]
      split <;> simp_all
    rw [emitMembers, membersTextual, ← hkey, ← emitWith_isSome newline gap x level, ← emitMembers_isSome newline gap ms level]
    cases JsonNode.emit_string key <;> cases emitWith newline gap level x <;> cases emitMembers newline gap level ms <;> rfl

end

/-! ## json_stringify -/

theorem emits_stringify {v : JsonNode} {space : Option Bytes} (hspace : ∀ s ∈ space, s.all is_space = true) {text : Bytes}
    (h : json_stringify v space = some text) : Emits text (writtenNode v).tokens (unitFree v) := by
  cases space with
  | none => exact emits_value (fun _ => rfl) rfl v h
  | some s =>
    have hs : s.all isBlank = true := by
      rw [← is_space_eq]
      exact hspace s rfl
    refine emits_value (fun level => ?_) rfl v h
    rw [List.all_cons, List.all_flatten, List.all_eq_true.mpr]
    · rfl
    · intro t ht
      rw [List.eq_of_mem_replicate ht]
      exact hs

theorem json_stringify_isSome (v : JsonNode) (space : Option Bytes) : (json_stringify v space).isSome = textual v := by
  cases space <;> exact emitWith_isSome _ _ v 0

/-- What is written comes back. -/
theorem json_decode_stringify {v : JsonNode} {space : Option Bytes} (hspace : ∀ s ∈ space, s.all is_space = true) {text : Bytes}
    (h : json_stringify v space = some text) (v' : JsonNode) :
    json_decode text = some v' ↔ unitFree v = true ∧ v' = reread v := by
  have hemits := emits_stringify hspace h
  have hwhole : cString text = text := by
    unfold cString
    rw [List.takeWhile_eq_self_iff]
    intro b hb
    have hne : b ≠ 0 := fun h0 => hemits.noNul (h0 ▸ hb)
    simpa using hne
  rw [json_decode_iff, hwhole]
  constructor
  · rintro ⟨t, ht, -, rfl⟩
    obtain ⟨hfree, rfl⟩ := (denotes_emitted hemits t).mp ht
    exact ⟨hfree, of_written v⟩
  · rintro ⟨hfree, rfl⟩
    exact ⟨writtenNode v, (denotes_emitted hemits _).mpr ⟨hfree, rfl⟩, nulFree_written v, (of_written v).symm⟩

theorem stringify_lines :
    json_stringify (.array [.string (lit "a"), .bool true]) (some [32]) = some (lit "[\n \"a\",\n true\n]") := by
  simp [json_stringify, emit_value_indented, emitWith, emitElements, JsonNode.emit_string, json_encode_string, cString, utf8_validate,
    emitChars, utf8_validate_cz, show lit "a" = [97] from rfl]
  decide

theorem json_decode_lines :
    json_decode (lit "[\n \"a\",\n true\n]") = some (.array [.string (lit "a"), .bool true]) :=
  (json_decode_stringify (by simp [is_space]) stringify_lines _).mpr ⟨by decide, rfl⟩

end FitsWebQL
