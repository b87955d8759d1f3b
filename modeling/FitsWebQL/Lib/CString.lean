/-
  FitsWebQL.Lib.CString — C strings in blocks of memory (an array is a block of its size, a
  pointer a place in one), with every access checked: `none` is an access past a block's end.

  A block holds a string at a place when the bytes from there to the first NUL are it
  (`Holds`). Proved: the parts of a held string are read and held where they are
  (`Holds.append_right`, `Holds.read`); a NUL written into it cuts it (`Holds.cut`); a string stored
  with room for its NUL is held (`holds_store`), and so is what `strncpy` copies before a NUL
  that was there (`holds_strncpy`).
-/

import Mathlib

namespace FitsWebQL.Lib.CString

variable {β : Type*}

def read (block : List β) (i : ℕ) : Option β := block[i]?

def write (block : List β) (i : ℕ) (b : β) : Option (List β) := if i < block.length then some (block.set i b) else none

variable [Zero β] [DecidableEq β]

def untilNul : List β → Option (List β)
  | [] => none
  | b :: rest => if b = 0 then some [] else (untilNul rest).map (b :: ·)

def cstring (block : List β) (p : ℕ) : Option (List β) := untilNul (block.drop p)

def strlen (block : List β) (p : ℕ) : Option ℕ := (cstring block p).map List.length

/-- The first `c` from `p` on (`strstr` for one byte); `some none` is `NULL`. -/
def strchr (block : List β) (p : ℕ) (c : β) : Option (Option ℕ) :=
  (cstring block p).map fun s => if c ∈ s then some (p + (s.takeWhile (· != c)).length) else none

omit [DecidableEq β] in
/-- `s` and its NUL, to the front of a block (`strcpy`, and what `sscanf` stores). -/
def store (block s : List β) : Option (List β) :=
  if s.length < block.length then some (s ++ 0 :: block.drop (s.length + 1)) else none

def untilNulOr : ℕ → List β → Option (List β)
  | 0, _ => some []
  | _ + 1, [] => none
  | n + 1, b :: rest => if b = 0 then some [] else (untilNulOr n rest).map (b :: ·)

def strncpy (dst src : List β) (n : ℕ) : Option (List β) :=
  (untilNulOr n src).bind fun s =>
    if n ≤ dst.length then some (s ++ List.replicate (n - s.length) 0 ++ dst.drop n) else none

/-- `strncmp(a, b, n) == 0`. -/
def strncmp : List β → List β → ℕ → Option Bool
  | _, _, 0 => some true
  | a :: as, b :: bs, n + 1 => if a ≠ b then some false else if a = 0 then some true else strncmp as bs n
  | _, _, _ + 1 => none

/-! ## Held strings -/

def Holds (block : List β) (p : ℕ) (s : List β) : Prop := cstring block p = some s

theorem untilNul_append {s : List β} (hs : 0 ∉ s) (rest : List β) : untilNul (s ++ 0 :: rest) = some s := by
  induction s with
  | nil => exact if_pos rfl
  | cons b s ih =>
    rw [List.mem_cons, not_or] at hs
    rw [List.cons_append, untilNul, if_neg (Ne.symm hs.1), ih hs.2, Option.map_some]

theorem untilNul_some {l s : List β} (h : untilNul l = some s) : 0 ∉ s ∧ ∃ rest, l = s ++ 0 :: rest := by
  induction l generalizing s with
  | nil => cases h
  | cons b l ih =>
    unfold untilNul at h
    split at h
    case isTrue hb =>
      cases h
      exact ⟨List.not_mem_nil, l, by rw [hb]; rfl⟩
    case isFalse hb =>
      obtain ⟨t, ht, rfl⟩ := Option.map_eq_some_iff.mp h
      obtain ⟨hzero, rest, rfl⟩ := ih ht
      refine ⟨?_, rest, rfl⟩
      rw [List.mem_cons, not_or]
      exact ⟨Ne.symm hb, hzero⟩

theorem holds_iff {block s : List β} {p : ℕ} : Holds block p s ↔ 0 ∉ s ∧ ∃ rest, block.drop p = s ++ 0 :: rest := by
  constructor
  · exact untilNul_some
  · intro h
    obtain ⟨hs, rest, hrest⟩ := h
    unfold Holds cstring
    rw [hrest, untilNul_append hs]

section Held

variable {block s : List β} {p : ℕ}

theorem Holds.nul_notMem (h : Holds block p s) : 0 ∉ s := (holds_iff.mp h).1

theorem Holds.strlen (h : Holds block p s) : strlen block p = some s.length := by
  unfold CString.strlen
  rw [h, Option.map_some]

theorem Holds.strchr_none (h : Holds block p s) {c : β} (hc : c ∉ s) : strchr block p c = some none := by
  unfold strchr
  rw [h, Option.map_some, if_neg hc]

omit [Zero β] in
theorem forall_bne {l : List β} {c : β} (hc : c ∉ l) : ∀ b ∈ l, (b != c) = true := fun _ hb =>
  bne_iff_ne.mpr fun heq => hc (heq ▸ hb)

omit [Zero β] in
theorem takeWhile_before {before rest : List β} {c : β} (hc : c ∉ before) : (before ++ c :: rest).takeWhile (· != c) = before := by
  rw [List.takeWhile_append_of_pos (forall_bne hc)]
  simp

theorem Holds.strchr_some {before rest : List β} {c : β} (h : Holds block p (before ++ c :: rest)) (hc : c ∉ before) :
    strchr block p c = some (some (p + before.length)) := by
  unfold strchr
  rw [h, Option.map_some, if_pos (List.mem_append_right _ List.mem_cons_self), takeWhile_before hc]

theorem Holds.lt_length (h : Holds block p s) : p + s.length < block.length := by
  obtain ⟨-, rest, hrest⟩ := holds_iff.mp h
  have hlen := congrArg List.length hrest
  rw [List.length_drop, List.length_append, List.length_cons] at hlen
  omega

/-- A string ends at the first NUL. -/
theorem Holds.length_le (h : Holds block p s) {n : ℕ} (hn : block[p + n]? = some 0) : s.length ≤ n := by
  by_contra hlong
  rw [not_le] at hlong
  obtain ⟨hs, rest, hrest⟩ := holds_iff.mp h
  rw [← List.getElem?_drop, hrest, List.getElem?_append_left hlong] at hn
  exact hs (List.mem_of_getElem? hn)

section Parts

variable {a b : List β} {c : β}

theorem Holds.append_right (h : Holds block p (a ++ b)) : Holds block (p + a.length) b := by
  obtain ⟨hs, rest, hrest⟩ := holds_iff.mp h
  refine holds_iff.mpr ⟨fun hmem => hs (List.mem_append_right a hmem), rest, ?_⟩
  rw [← List.drop_drop, hrest, List.append_assoc, List.drop_left]

theorem Holds.read (h : Holds block p (a ++ c :: b)) : read block (p + a.length) = some c := by
  obtain ⟨-, rest, hrest⟩ := holds_iff.mp h
  unfold CString.read
  rw [← List.getElem?_drop, hrest, List.append_assoc, List.getElem?_append_right (Nat.le_refl _), Nat.sub_self]
  rfl

/-- The string ends at a NUL that is written into it. -/
theorem Holds.cut (h : Holds block p (a ++ c :: b)) :
    write block (p + a.length) 0 = some (block.set (p + a.length) 0) ∧ Holds (block.set (p + a.length) 0) p a := by
  have hlt := h.lt_length
  rw [List.length_append, List.length_cons] at hlt
  obtain ⟨hs, rest, hrest⟩ := holds_iff.mp h
  constructor
  · exact if_pos (by omega)
  · refine holds_iff.mpr ⟨fun hmem => hs (List.mem_append_left _ hmem), b ++ 0 :: rest, ?_⟩
    rw [List.drop_set, if_neg (by omega), Nat.add_sub_cancel_left, hrest, List.append_assoc,
      List.set_append_right _ _ (Nat.le_refl _), Nat.sub_self]
    rfl

end Parts

theorem holds_store (hs : 0 ∉ s) (hroom : s.length < block.length) : ∃ block', store block s = some block' ∧ Holds block' 0 s := by
  refine ⟨_, if_pos hroom, holds_iff.mpr ⟨hs, block.drop (s.length + 1), ?_⟩⟩
  rw [List.drop_zero]

theorem untilNulOr_eq (n : ℕ) {l : List β} (h : n ≤ l.length) : untilNulOr n l = some ((l.take n).takeWhile (· != 0)) := by
  induction n generalizing l with
  | zero => rfl
  | succ n ih =>
    cases l with
    | nil => exact absurd h (by simp)
    | cons b l =>
      rw [List.length_cons, Nat.succ_le_succ_iff] at h
      unfold untilNulOr
      rw [List.take_succ_cons, List.takeWhile_cons]
      by_cases hb : b = 0
      · rw [if_pos hb, if_neg (by simpa using hb)]
      · rw [if_neg hb, if_pos (by simpa using hb), ih h, Option.map_some]

omit [DecidableEq β] in
/-- `n` bytes written over a block that has a NUL after them. -/
theorem padded_nul {dst : List β} {n : ℕ} (hlen : s.length ≤ n) (hdst : dst[n]? = some 0) :
    ∃ rest, s ++ List.replicate (n - s.length) 0 ++ dst.drop n = s ++ 0 :: rest := by
  have hn : n < dst.length := (List.getElem?_eq_some_iff.mp hdst).1
  rw [List.append_assoc]
  rcases hlen.eq_or_lt with hfull | hshort
  · have hnul : dst[n] = 0 := (List.getElem?_eq_some_iff.mp hdst).2
    refine ⟨dst.drop (n + 1), ?_⟩
    rw [hfull, Nat.sub_self, List.replicate_zero, List.nil_append, List.drop_eq_getElem_cons hn, hnul]
  · obtain ⟨m, hm⟩ := Nat.exists_eq_succ_of_ne_zero (Nat.sub_ne_zero_of_lt hshort)
    refine ⟨List.replicate m 0 ++ dst.drop n, ?_⟩
    rw [hm, List.replicate_succ, List.cons_append]

/-- A NUL after the `n` bytes ends what is copied at the latest. -/
theorem holds_strncpy {dst src : List β} {n : ℕ} (hsrc : n ≤ src.length) (hdst : dst[n]? = some 0) :
    ∃ block, strncpy dst src n = some block ∧ Holds block 0 ((src.take n).takeWhile (· != 0)) ∧ block[n]? = some 0 := by
  have hn : n < dst.length := (List.getElem?_eq_some_iff.mp hdst).1
  have hcopy : strncpy dst src n = some ((src.take n).takeWhile (· != 0) ++
      List.replicate (n - ((src.take n).takeWhile (· != 0)).length) 0 ++ dst.drop n) := by
    unfold strncpy
    rw [untilNulOr_eq n hsrc, Option.bind_some, if_pos hn.le]
  have hlen : ((src.take n).takeWhile (· != 0)).length ≤ n :=
    (List.takeWhile_sublist _).length_le.trans (List.length_take_le _ _)
  have hzero : (0 : β) ∉ (src.take n).takeWhile (· != 0) := by
    intro hmem
    simpa using List.mem_takeWhile_imp hmem
  rw [hcopy]
  generalize (src.take n).takeWhile (· != 0) = s at hlen hzero
  have hfilled : (s ++ List.replicate (n - s.length) 0).length = n := by
    rw [List.length_append, List.length_replicate]
    omega
  obtain ⟨rest, hrest⟩ := padded_nul hlen hdst
  refine ⟨_, rfl, holds_iff.mpr ⟨hzero, rest, ?_⟩, ?_⟩
  · rw [List.drop_zero]
    exact hrest
  · rw [List.getElem?_append_right hfilled.le, hfilled, Nat.sub_self, List.getElem?_drop, Nat.add_zero, hdst]

theorem strncmp_eq {key : List β} (hkey : 0 ∉ key) {block : List β} (hlen : key.length ≤ block.length) :
    strncmp block key key.length = some (block.take key.length == key) := by
  induction key generalizing block with
  | nil => simp [strncmp]
  | cons b key ih =>
    cases block with
    | nil => exact absurd hlen (by simp)
    | cons a block =>
      rw [List.mem_cons, not_or] at hkey
      rw [List.length_cons, List.length_cons, Nat.succ_le_succ_iff] at hlen
      rw [List.length_cons, List.take_succ_cons, List.cons_beq_cons]
      unfold strncmp
      by_cases hab : a = b
      · subst hab
        rw [if_neg (not_not.mpr rfl), if_neg (Ne.symm hkey.1), ih hkey.2 hlen, beq_self_eq_true, Bool.true_and]
      · rw [if_pos hab, beq_eq_false_iff_ne.mpr hab, Bool.false_and]

/-- A key without a NUL is found in a held string where it is found in the block. -/
theorem Holds.take_beq {key : List β} (h : Holds block 0 s) (hkey : 0 ∉ key) :
    (block.take key.length == key) = (s.take key.length == key) := by
  obtain ⟨hs, rest, hrest⟩ := holds_iff.mp h
  rw [List.drop_zero] at hrest
  subst hrest
  rcases le_or_gt key.length s.length with hlong | hshort
  · rw [List.take_append_of_le_length hlong]
  · have hblock : (s ++ 0 :: rest).take key.length ≠ key := by
      intro heq
      apply hkey
      rw [← heq, List.take_append, List.mem_append]
      obtain ⟨m, hm⟩ := Nat.exists_eq_succ_of_ne_zero (Nat.sub_ne_zero_of_lt hshort)
      rw [hm, List.take_succ_cons]
      exact Or.inr List.mem_cons_self
    have hstring : s.take key.length ≠ key := by
      intro heq
      have hlen := congrArg List.length heq
      rw [List.length_take] at hlen
      omega
    rw [beq_eq_false_iff_ne.mpr hblock, beq_eq_false_iff_ne.mpr hstring]

end Held

end FitsWebQL.Lib.CString
