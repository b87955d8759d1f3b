/-
  FitsWebQL.Lib.Wire — messages as bytes: little-endian words written one after the
  other, and read back at an offset the way a `DataView` and a typed array do, an offset
  outside the message (or, for an array, not a multiple of its element's size) being an
  error.

  `At msg off rest` says what stands in a message from an offset on; reading a word
  (`At.word`), an array (`At.words`), some bytes (`At.slice`) or all the rest (`At.rest`)
  gives back what was written there and moves the offset on; at the end no word is left
  (`At.ended`).
-/

import Mathlib

namespace FitsWebQL.Lib.Wire

/-! ## Words -/

def bytesOf (w : UInt32) : List UInt8 := [w.toUInt8, (w >>> 8).toUInt8, (w >>> 16).toUInt8, (w >>> 24).toUInt8]

def wordOf (b : List UInt8) : UInt32 :=
  UInt32.ofNat ((b.getD 0 0).toNat + 256 * ((b.getD 1 0).toNat + 256 * ((b.getD 2 0).toNat + 256 * (b.getD 3 0).toNat)))

def wordsOf : ℕ → List UInt8 → List UInt32
  | 0, _ => []
  | n + 1, b => wordOf b :: wordsOf n (b.drop 4)

@[simp] theorem bytesOf_length (w : UInt32) : (bytesOf w).length = 4 := rfl

theorem wordOf_append {p : List UInt8} (q : List UInt8) (h : 4 ≤ p.length) : wordOf (p ++ q) = wordOf p := by
  unfold wordOf
  rw [List.getD_append _ _ _ _ (by omega), List.getD_append _ _ _ _ (by omega), List.getD_append _ _ _ _ (by omega),
    List.getD_append _ _ _ _ (by omega)]

/-- The first byte of a word is its lowest. -/
theorem wordOf_low (b : List UInt8) : (wordOf b).toUInt8 = b.getD 0 0 := by
  have h := (b.getD 0 0).toNat_lt
  apply UInt8.toNat_inj.mp
  unfold wordOf
  rw [UInt32.toNat_toUInt8, UInt32.toNat_ofNat']
  omega

theorem wordOf_bytesOf (w : UInt32) (rest : List UInt8) : wordOf (bytesOf w ++ rest) = w := by
  rw [wordOf_append rest (le_of_eq (bytesOf_length w).symm)]
  have hw : w.toNat < 2 ^ 32 := w.toNat_lt
  have hshift : ∀ k : UInt32, (w >>> k).toNat = w.toNat / 2 ^ (k.toNat % 32) := by
    intro k
    rw [UInt32.toNat_shiftRight, Nat.shiftRight_eq_div_pow]
  apply UInt32.toNat_inj.mp
  unfold wordOf bytesOf
  simp only [List.getD_cons_zero, List.getD_cons_succ, UInt32.toNat_toUInt8, hshift, UInt32.toNat_ofNat']
  show (w.toNat % 2 ^ 8 + 256 * (w.toNat / 2 ^ 8 % 2 ^ 8 + 256 * (w.toNat / 2 ^ 16 % 2 ^ 8 +
    256 * (w.toNat / 2 ^ 24 % 2 ^ 8)))) % 2 ^ 32 = w.toNat
  omega

theorem bytesOf_wordOf {b : List UInt8} (h : 4 ≤ b.length) : bytesOf (wordOf b) = b.take 4 := by
  obtain ⟨b0, b1, b2, b3, rest, rfl⟩ : ∃ b0 b1 b2 b3 rest, b = b0 :: b1 :: b2 :: b3 :: rest := by
    match b, h with
    | b0 :: b1 :: b2 :: b3 :: rest, _ => exact ⟨b0, b1, b2, b3, rest, rfl⟩
  have h0 := b0.toNat_lt
  have h1 := b1.toNat_lt
  have h2 := b2.toNat_lt
  have h3 := b3.toNat_lt
  have hn : (wordOf (b0 :: b1 :: b2 :: b3 :: rest)).toNat = b0.toNat + 256 * (b1.toNat + 256 * (b2.toNat + 256 * b3.toNat)) := by
    unfold wordOf
    simp only [List.getD_cons_zero, List.getD_cons_succ, UInt32.toNat_ofNat']
    omega
  have hshift : ∀ k : UInt32, ((wordOf (b0 :: b1 :: b2 :: b3 :: rest)) >>> k).toNat =
      (b0.toNat + 256 * (b1.toNat + 256 * (b2.toNat + 256 * b3.toNat))) / 2 ^ (k.toNat % 32) := by
    intro k
    rw [UInt32.toNat_shiftRight, Nat.shiftRight_eq_div_pow, hn]
  unfold bytesOf
  show [_, _, _, _] = [b0, b1, b2, b3]
  rw [List.cons.injEq, List.cons.injEq, List.cons.injEq, List.cons.injEq]
  refine ⟨?_, ?_, ?_, ?_, rfl⟩
  · apply UInt8.toNat_inj.mp
    rw [UInt32.toNat_toUInt8, hn]
    omega
  · apply UInt8.toNat_inj.mp
    rw [UInt32.toNat_toUInt8, hshift]
    show _ / 2 ^ 8 % 2 ^ 8 = _
    omega
  · apply UInt8.toNat_inj.mp
    rw [UInt32.toNat_toUInt8, hshift]
    show _ / 2 ^ 16 % 2 ^ 8 = _
    omega
  · apply UInt8.toNat_inj.mp
    rw [UInt32.toNat_toUInt8, hshift]
    show _ / 2 ^ 24 % 2 ^ 8 = _
    omega

theorem wordsOf_length (n : ℕ) (b : List UInt8) : (wordsOf n b).length = n := by
  induction n generalizing b with
  | zero => rfl
  | succ n ih => rw [wordsOf, List.length_cons, ih]

theorem wordsOf_succ (n : ℕ) (b : List UInt8) : wordsOf (n + 1) b = wordsOf n b ++ [wordOf (b.drop (4 * n))] := by
  induction n generalizing b with
  | zero => rfl
  | succ n ih =>
    rw [wordsOf, ih, List.drop_drop, wordsOf, List.cons_append]
    congr 5
    omega

theorem wordsOf_add (n m : ℕ) (b : List UInt8) : wordsOf (n + m) b = wordsOf n b ++ wordsOf m (b.drop (4 * n)) := by
  induction m with
  | zero => rw [Nat.add_zero, wordsOf, List.append_nil]
  | succ m ih => rw [← Nat.add_assoc, wordsOf_succ, ih, wordsOf_succ, List.drop_drop, Nat.mul_add, List.append_assoc]

theorem wordsOf_append {n : ℕ} {b : List UInt8} (h : 4 * n ≤ b.length) (rest : List UInt8) :
    wordsOf n (b ++ rest) = wordsOf n b := by
  induction n generalizing b with
  | zero => rfl
  | succ n ih =>
    rw [wordsOf, wordsOf, wordOf_append rest (by omega), List.drop_append_of_le_length (by omega),
      ih (by rw [List.length_drop]; omega)]

theorem flatMap_bytesOf_length (ws : List UInt32) : (ws.flatMap bytesOf).length = 4 * ws.length := by
  induction ws with
  | nil => rfl
  | cons w ws ih =>
    rw [List.flatMap_cons, List.length_append, ih, bytesOf_length, List.length_cons]
    omega

theorem wordsOf_flatMap (ws : List UInt32) (rest : List UInt8) :
    wordsOf ws.length (ws.flatMap bytesOf ++ rest) = ws := by
  induction ws with
  | nil => rfl
  | cons w ws ih =>
    rw [List.length_cons, wordsOf, List.flatMap_cons, List.append_assoc, wordOf_bytesOf]
    congr 1

theorem flatMap_bytesOf_inj {ws ws' : List UInt32} (hl : ws.length = ws'.length)
    (h : ws.flatMap bytesOf = ws'.flatMap bytesOf) : ws = ws' := by
  rw [← wordsOf_flatMap ws [], ← wordsOf_flatMap ws' [], hl, h]

/-! ## Reading -/

/-- `getUint32(off, true)`; a float is the word of its bits. -/
def getUint32 (msg : List UInt8) (off : ℕ) : Option UInt32 := if off + 4 ≤ msg.length then some (wordOf (msg.drop off)) else none

def getWords (msg : List UInt8) (off n : ℕ) : Option (List UInt32) :=
  if off % 4 = 0 ∧ off + 4 * n ≤ msg.length then some (wordsOf n (msg.drop off)) else none

def getSlice (msg : List UInt8) (off n : ℕ) : Option (List UInt8) :=
  if off + n ≤ msg.length then some ((msg.drop off).take n) else none

def getBytes (msg : List UInt8) (off : ℕ) : Option (List UInt8) := if off ≤ msg.length then some (msg.drop off) else none

structure At (msg : List UInt8) (off : ℕ) (rest : List UInt8) : Prop where
  le : off ≤ msg.length
  drop : msg.drop off = rest

theorem At.start (msg : List UInt8) : At msg 0 msg := ⟨Nat.zero_le _, rfl⟩

theorem At.length {msg : List UInt8} {off : ℕ} {rest : List UInt8} (h : At msg off rest) : msg.length = off + rest.length := by
  have hle := h.le
  rw [← h.drop, List.length_drop]
  omega

theorem At.skip {msg : List UInt8} {off : ℕ} {front rest : List UInt8} (h : At msg off (front ++ rest)) :
    At msg (off + front.length) rest := by
  refine ⟨?_, ?_⟩
  · rw [h.length, List.length_append]
    omega
  · rw [← List.drop_drop, h.drop, List.drop_left]

theorem At.word {msg : List UInt8} {off : ℕ} {w : UInt32} {rest : List UInt8} (h : At msg off (bytesOf w ++ rest)) :
    getUint32 msg off = some w ∧ At msg (off + 4) rest := by
  refine ⟨?_, h.skip⟩
  unfold getUint32
  rw [if_pos, h.drop, wordOf_bytesOf]
  rw [h.length, List.length_append, bytesOf_length]
  omega

theorem At.words {msg : List UInt8} {off : ℕ} {ws : List UInt32} {rest : List UInt8}
    (h : At msg off (ws.flatMap bytesOf ++ rest)) (h4 : off % 4 = 0) :
    getWords msg off ws.length = some ws ∧ At msg (off + 4 * ws.length) rest := by
  have hskip := h.skip
  rw [flatMap_bytesOf_length] at hskip
  refine ⟨?_, hskip⟩
  unfold getWords
  rw [if_pos ⟨h4, hskip.le⟩, h.drop, wordsOf_flatMap]

theorem At.slice {msg : List UInt8} {off : ℕ} {front rest : List UInt8} (h : At msg off (front ++ rest)) :
    getSlice msg off front.length = some front ∧ At msg (off + front.length) rest := by
  refine ⟨?_, h.skip⟩
  unfold getSlice
  rw [if_pos h.skip.le, h.drop, List.take_left]

theorem At.ended {msg : List UInt8} {off : ℕ} (h : At msg off []) : getUint32 msg off = none := by
  have hlen := h.length
  simp at hlen
  simp [getUint32, hlen]

theorem At.rest {msg : List UInt8} {off : ℕ} {rest : List UInt8} (h : At msg off rest) : getBytes msg off = some rest := by
  unfold getBytes
  rw [if_pos h.le, h.drop]

end FitsWebQL.Lib.Wire
