/-
  FitsWebQL.MatrixInvert — the inverse of a matrix in the browser (`matrix_invert`, for the
  coordinates of an image with a CD matrix): Gauss-Jordan elimination of a copy `C` of the
  matrix, with a unit matrix `I` that gets the same row operations, both in place.

  A matrix has at least one row, `M[0]`, and rows of equal length. Entries of a field, in
  exact arithmetic; a result of `none` is `undefined`.

  Proved, for matrices of every size:
  - the loops over an operation's entries make the row operation (`swapLoop_eq`,
    `scaleLoop_eq`, `eliminateLoop_eq`).
  - `column_keeps`: before column `i` the columns left of it are unit columns, and what row
    operations keep is kept.
  - `matrixInvert_correct`: an invertible matrix gives its inverse on both sides, and
    `undefined` comes for the singular ones only.
-/

import Mathlib
import FitsWebQL.Lib.RowOperations

namespace FitsWebQL

open Lib.RowOperations

variable {K : Type*} [Field K] {n : ℕ}

/-- `A[i][j] = x`. -/
def setEntry (A : Matrix (Fin n) (Fin n) K) (i j : Fin n) (x : K) : Matrix (Fin n) (Fin n) K := fun r c =>
  if r = i ∧ c = j then x else A r c

/-- `C` is on the left, `I` on the right. -/
def swapTurn (i ii : Fin n) : Augmented (Fin n) K → Fin n → Augmented (Fin n) K
  | ⟨C, I⟩, j =>
    ⟨setEntry (setEntry C i j (C ii j)) ii j (C i j), setEntry (setEntry I i j (I ii j)) ii j (I i j)⟩

def scaleTurn (i : Fin n) (e : K) : Augmented (Fin n) K → Fin n → Augmented (Fin n) K
  | ⟨C, I⟩, j => ⟨setEntry C i j (C i j / e), setEntry I i j (I i j / e)⟩

def subtractTurn (i ii : Fin n) (e : K) : Augmented (Fin n) K → Fin n → Augmented (Fin n) K
  | ⟨C, I⟩, j => ⟨setEntry C ii j (C ii j - e * C i j), setEntry I ii j (I ii j - e * I i j)⟩

def swapLoop (i ii : Fin n) (s : Augmented (Fin n) K) : Augmented (Fin n) K := (List.finRange n).foldl (swapTurn i ii) s

def scaleLoop (i : Fin n) (e : K) (s : Augmented (Fin n) K) : Augmented (Fin n) K :=
  (List.finRange n).foldl (scaleTurn i e) s

def eliminateTurn (i : Fin n) (s : Augmented (Fin n) K) (ii : Fin n) : Augmented (Fin n) K :=
  if ii = i then s
  else
    let e := s.left ii i
    (List.finRange n).foldl (subtractTurn i ii e) s

def eliminateLoop (i : Fin n) (s : Augmented (Fin n) K) : Augmented (Fin n) K := (List.finRange n).foldl (eliminateTurn i) s

variable [DecidableEq K]

def findPivot (i : Fin n) (C : Matrix (Fin n) (Fin n) K) : Option (Fin n) :=
  ((List.finRange n).filter fun ii => i < ii).find? fun ii => C ii i ≠ 0

def bringPivot (i : Fin n) (s : Augmented (Fin n) K) : Augmented (Fin n) K :=
  if s.left i i = 0 then
    match findPivot i s.left with
    | some ii => swapLoop i ii s
    | none => s
  else s

def reduceColumn (s : Augmented (Fin n) K) (i : Fin n) : Option (Augmented (Fin n) K) :=
  let s := bringPivot i s
  let e := s.left i i
  if e = 0 then none else some (eliminateLoop i (scaleLoop i e s))

def matrixInvert {rows cols : ℕ} (M : Matrix (Fin (rows + 1)) (Fin cols) K) :
    Option (Matrix (Fin (rows + 1)) (Fin (rows + 1)) K) :=
  if h : rows + 1 = cols then
    let C : Matrix (Fin (rows + 1)) (Fin (rows + 1)) K := fun i j => M i (Fin.cast h j)
    let I : Matrix (Fin (rows + 1)) (Fin (rows + 1)) K := fun i j => if i = j then 1 else 0
    ((List.finRange (rows + 1)).foldlM reduceColumn ⟨C, I⟩).map (·.right)
  else none

/-! ## Loops over entries -/

section Entries

omit [DecidableEq K]

def column (s : Augmented (Fin n) K) (j : Fin n) (r : Fin n) : K × K := (s.left r j, s.right r j)

omit [Field K] in
theorem column_inj {s s' : Augmented (Fin n) K} (h : ∀ j, column s j = column s' j) : s = s' := by
  ext r j
  · exact congrArg Prod.fst (congrFun (h j) r)
  · exact congrArg Prod.snd (congrFun (h j) r)

omit [Field K] in
theorem foldl_columns {turn : Augmented (Fin n) K → Fin n → Augmented (Fin n) K}
    {operation : Augmented (Fin n) K → Augmented (Fin n) K}
    (hturn : ∀ s j, column (turn s j) j = column (operation s) j)
    (hother : ∀ s j c, c ≠ j → column (turn s j) c = column s c)
    (hlocal : ∀ s s' j, column s j = column s' j → column (operation s) j = column (operation s') j)
    (s : Augmented (Fin n) K) : (List.finRange n).foldl turn s = operation s := by
  have heach : Each column turn s (column (operation s)) :=
    ⟨fun s' j _ hj => (hturn s' j).trans (hlocal s' s j hj), hother⟩
  exact column_inj fun j => (foldl_each heach (List.nodup_finRange n)).1 j (List.mem_finRange j)

omit [Field K] in
theorem setEntry_column (A : Matrix (Fin n) (Fin n) K) (i j r : Fin n) (x : K) :
    setEntry A i j x r j = if r = i then x else A r j := by
  unfold setEntry
  exact if_congr (and_iff_left rfl) rfl rfl

omit [Field K] in
theorem setEntry_other (A : Matrix (Fin n) (Fin n) K) (i : Fin n) {j c : Fin n} (hc : c ≠ j) (r : Fin n) (x : K) :
    setEntry A i j x r c = A r c := if_neg fun h => hc h.2

omit [Field K] in
theorem swapEntries_column (A : Matrix (Fin n) (Fin n) K) (i ii j r : Fin n) :
    setEntry (setEntry A i j (A ii j)) ii j (A i j) r j = swapRows A i ii r j := by
  unfold swapRows
  rw [setEntry_column, setEntry_column, Equiv.swap_apply_def]
  by_cases hii : r = ii
  · by_cases hi : r = i
    · rw [if_pos hii, if_pos hi, ← hii, ← hi]
    · rw [if_pos hii, if_neg hi, if_pos hii]
  · rw [if_neg hii, if_neg hii]
    split <;> rfl

omit [Field K] in
theorem column_left {s s' : Augmented (Fin n) K} {j : Fin n} (h : column s j = column s' j) (r : Fin n) :
    s.left r j = s'.left r j := congrArg Prod.fst (congrFun h r)

omit [Field K] in
theorem column_right {s s' : Augmented (Fin n) K} {j : Fin n} (h : column s j = column s' j) (r : Fin n) :
    s.right r j = s'.right r j := congrArg Prod.snd (congrFun h r)

omit [Field K] in
theorem swapLoop_eq (i ii : Fin n) (s : Augmented (Fin n) K) : swapLoop i ii s = s.swap i ii := by
  apply foldl_columns
  · intro s j
    funext r
    exact Prod.ext (swapEntries_column s.left i ii j r) (swapEntries_column s.right i ii j r)
  · intro s j c hc
    funext r
    simp only [column, swapTurn, setEntry_other _ _ hc]
  · intro s s' j h
    funext r
    exact congrFun h (Equiv.swap i ii r)

theorem scaleLoop_eq (i : Fin n) (e : K) (s : Augmented (Fin n) K) : scaleLoop i e s = s.divide i e := by
  apply foldl_columns
  · intro s j
    funext r
    have hentry : ∀ A : Matrix (Fin n) (Fin n) K, setEntry A i j (A i j / e) r j = divideRow A i e r j := by
      intro A
      unfold divideRow
      rw [setEntry_column]
      split
      case isTrue hr => rw [hr]
      case isFalse => rfl
    exact Prod.ext (hentry s.left) (hentry s.right)
  · intro s j c hc
    funext r
    simp only [column, scaleTurn, setEntry_other _ _ hc]
  · intro s s' j h
    funext r
    simp only [column, Augmented.divide, divideRow, column_left h, column_right h]

/-- Row `ii` alone. -/
theorem subtractLoop_eq {i ii : Fin n} (hii : ii ≠ i) (e : K) (s : Augmented (Fin n) K) :
    (List.finRange n).foldl (subtractTurn i ii e) s = s.clear i (Pi.single ii e) := by
  apply foldl_columns
  · intro s j
    funext r
    have hentry : ∀ A : Matrix (Fin n) (Fin n) K,
        setEntry A ii j (A ii j - e * A i j) r j = clearRows A i (Pi.single ii e) r j := by
      intro A
      unfold clearRows
      rw [setEntry_column]
      by_cases hr : r = ii
      · rw [if_pos hr, hr, if_neg hii, Pi.single_eq_same]
      · rw [if_neg hr, Pi.single_eq_of_ne hr, zero_mul, sub_zero, ite_self]
    exact Prod.ext (hentry s.left) (hentry s.right)
  · intro s j c hc
    funext r
    simp only [column, subtractTurn, setEntry_other _ _ hc]
  · intro s s' j h
    funext r
    simp only [column, Augmented.clear, clearRows, column_left h, column_right h]

theorem eliminateTurn_eq (i : Fin n) (s : Augmented (Fin n) K) (ii : Fin n) :
    eliminateTurn i s ii = if ii = i then s else s.clear i (Pi.single ii (s.left ii i)) := by
  unfold eliminateTurn
  split
  case isTrue => rfl
  case isFalse hii => exact subtractLoop_eq hii _ s

def row (s : Augmented (Fin n) K) (r : Fin n) : (Fin n → K) × (Fin n → K) := (s.left r, s.right r)

theorem row_clear_self (s : Augmented (Fin n) K) (i : Fin n) (e : Fin n → K) : row (s.clear i e) i = row s i :=
  Prod.ext (clearRows_self s.left i e) (clearRows_self s.right i e)

theorem row_clear_zero (s : Augmented (Fin n) K) (i : Fin n) {e : Fin n → K} {r : Fin n} (h : e r = 0) :
    row (s.clear i e) r = row s r := Prod.ext (clearRows_zero s.left i e h) (clearRows_zero s.right i e h)

theorem row_clear_congr {s s' : Augmented (Fin n) K} {i r : Fin n} {e e' : Fin n → K} (hri : r ≠ i)
    (hr : row s r = row s' r) (hi : row s i = row s' i) (he : e r = e' r) : row (s.clear i e) r = row (s'.clear i e') r := by
  obtain ⟨hrl, hrr⟩ := Prod.ext_iff.mp hr
  obtain ⟨hil, hir⟩ := Prod.ext_iff.mp hi
  apply Prod.ext
  · change clearRows s.left i e r = clearRows s'.left i e' r
    rw [clearRows_of_ne _ _ _ hri, clearRows_of_ne _ _ _ hri, he]
    funext j
    exact congrArg₂ (fun x y => x - e' r * y) (congrFun hrl j) (congrFun hil j)
  · change clearRows s.right i e r = clearRows s'.right i e' r
    rw [clearRows_of_ne _ _ _ hri, clearRows_of_ne _ _ _ hri, he]
    funext j
    exact congrArg₂ (fun x y => x - e' r * y) (congrFun hrr j) (congrFun hir j)

/-- Each row is cleared in its own turn, with the number that it has in column `i` then. -/
theorem eliminateLoop_eq (i : Fin n) (s : Augmented (Fin n) K) :
    eliminateLoop i s = s.clear i fun r => s.left r i := by
  have heach : Each row (eliminateTurn i) s (row (s.clear i fun r => s.left r i)) := by
    constructor
    · intro s' r hdone hr
      have hi : row s' i = row s i := by
        rcases hdone i with h | h
        · exact h
        · rw [h, row_clear_self]
      have hentry : s'.left r i = s.left r i := congrFun (congrArg Prod.fst hr) i
      rw [eliminateTurn_eq]
      by_cases hri : r = i
      · subst hri
        rw [if_pos rfl, row_clear_self, hr]
      · rw [if_neg hri]
        exact row_clear_congr hri hr hi ((Pi.single_eq_same r _).trans hentry)
    · intro s' r c hc
      rw [eliminateTurn_eq]
      split
      · rfl
      · exact row_clear_zero s' i (Pi.single_eq_of_ne hc _)
  have hrow : ∀ r, row (eliminateLoop i s) r = row (s.clear i fun r => s.left r i) r := fun r =>
    (foldl_each heach (List.nodup_finRange n)).1 r (List.mem_finRange r)
  ext r j
  · exact congrFun (congrArg Prod.fst (hrow r)) j
  · exact congrFun (congrArg Prod.snd (hrow r)) j

end Entries

/-! ## Columns -/

section Columns

variable {M : Matrix (Fin n) (Fin n) K} {s : Augmented (Fin n) K}

omit [Field K] [DecidableEq K] in
theorem swap_self (s : Augmented (Fin n) K) (i : Fin n) : s.swap i i = s := by
  ext r j
  · change s.left (Equiv.swap i i r) j = s.left r j
    rw [Equiv.swap_self, Equiv.refl_apply]
  · change s.right (Equiv.swap i i r) j = s.right r j
    rw [Equiv.swap_self, Equiv.refl_apply]

theorem findPivot_some {i k : Fin n} {C : Matrix (Fin n) (Fin n) K} (h : findPivot i C = some k) : i < k ∧ C k i ≠ 0 := by
  unfold findPivot at h
  have hmem := List.mem_of_find?_eq_some h
  rw [List.mem_filter] at hmem
  have hfound := List.find?_some h
  exact ⟨of_decide_eq_true hmem.2, of_decide_eq_true hfound⟩

theorem findPivot_none {i : Fin n} {C : Matrix (Fin n) (Fin n) K} (h : findPivot i C = none) {k : Fin n} (hk : i < k) :
    C k i = 0 := by
  unfold findPivot at h
  rw [List.find?_eq_none] at h
  have hnot := h k (List.mem_filter.mpr ⟨List.mem_finRange k, decide_eq_true hk⟩)
  simpa using hnot

/-- A row from `i` on is brought to row `i`, unless they are all 0 in the column. -/
theorem bringPivot_cases (i : Fin n) (s : Augmented (Fin n) K) :
    (∃ k, i ≤ k ∧ s.left k i ≠ 0 ∧ bringPivot i s = s.swap i k) ∨ (bringPivot i s = s ∧ ∀ r, i ≤ r → s.left r i = 0) := by
  unfold bringPivot
  by_cases hi : s.left i i = 0
  · rw [if_pos hi]
    cases hfind : findPivot i s.left with
    | some k =>
      obtain ⟨hk, hpivot⟩ := findPivot_some hfind
      exact Or.inl ⟨k, hk.le, hpivot, swapLoop_eq i k s⟩
    | none =>
      refine Or.inr ⟨rfl, fun r hr => ?_⟩
      rcases hr.eq_or_lt with rfl | hlt
      · exact hi
      · exact findPivot_none hfind hlt
  · rw [if_neg hi]
    exact Or.inl ⟨i, le_refl i, hi, (swap_self s i).symm⟩

structure Progress (M : Matrix (Fin n) (Fin n) K) (i : ℕ) (s : Augmented (Fin n) K) : Prop where
  reduces : Reduces M s
  unit : ∀ j : Fin n, j < i → UnitColumn s.left j

omit [DecidableEq K] in
theorem Progress.swap {i k : Fin n} (h : Progress M i s) (hk : i ≤ k) : Progress M i (s.swap i k) := by
  refine ⟨h.reduces.swap i k, fun j hj => (h.unit j hj).swap ?_ ?_⟩
  · exact (Fin.lt_def.mpr hj).ne'
  · exact (lt_of_lt_of_le (Fin.lt_def.mpr hj) hk).ne'

omit [DecidableEq K] in
/-- The row that has the pivot is divided by it and taken off the others. -/
theorem Progress.pivot {i : Fin n} (h : Progress M i s) (hpivot : s.left i i ≠ 0) :
    Progress M (i + 1) (eliminateLoop i (scaleLoop i (s.left i i) s)) := by
  rw [scaleLoop_eq, eliminateLoop_eq]
  refine ⟨(h.reduces.divide i hpivot).clear i _, fun j hj => ?_⟩
  rcases (Nat.lt_succ_iff.mp hj).eq_or_lt with hlast | hbefore
  · rw [Fin.ext hlast]
    exact unitColumn_pivot (divideRow_pivot hpivot)
  · have hij : i ≠ j := (Fin.lt_def.mpr hbefore).ne'
    exact ((h.unit j hbefore).divide hij _).clear hij _

theorem column_keeps (i : Fin n) (s : Augmented (Fin n) K) (h : Progress M i s) :
    (∃ s', reduceColumn s i = some s' ∧ Progress M (i + 1) s') ∨ (reduceColumn s i = none ∧ M.det = 0) := by
  unfold reduceColumn
  rcases bringPivot_cases i s with hbrought | hstuck
  · obtain ⟨k, hk, hpivot, hswap⟩ := hbrought
    have hentry : (s.swap i k).left i i = s.left k i := by
      change s.left (Equiv.swap i k i) i = s.left k i
      rw [Equiv.swap_apply_left]
    have hne : (s.swap i k).left i i ≠ 0 := by
      rw [hentry]
      exact hpivot
    rw [hswap]
    exact Or.inl ⟨_, if_neg hne, (h.swap hk).pivot hne⟩
  · obtain ⟨hsame, hzero⟩ := hstuck
    rw [hsame]
    refine Or.inr ⟨if_pos (hzero i (le_refl i)), ?_⟩
    apply h.reduces.det_of_stuck (fun j => j < i) (lt_irrefl i)
    · intro j hj
      exact h.unit j (Fin.lt_def.mp hj)
    · intro r hr
      exact hzero r (not_lt.mp hr)

end Columns

/-! ## The result -/

theorem matrixInvert_cases (M : Matrix (Fin (n + 1)) (Fin (n + 1)) K) :
    (∃ N, matrixInvert M = some N ∧ N * M = 1 ∧ M * N = 1) ∨ (matrixInvert M = none ∧ M.det = 0) := by
  have hstart : Progress M 0 ⟨M, 1⟩ := ⟨Reduces.start M, fun j hj => absurd hj (Nat.not_lt_zero j)⟩
  have hrun : matrixInvert M = ((List.finRange (n + 1)).foldlM reduceColumn ⟨M, 1⟩).map (·.right) := by
    have hone : (fun i j => if i = j then 1 else 0) = (1 : Matrix (Fin (n + 1)) (Fin (n + 1)) K) := by
      ext i j
      exact Matrix.one_apply.symm
    unfold matrixInvert
    rw [dif_pos rfl, hone]
    rfl
  rw [hrun]
  rcases foldlM_finRange column_keeps hstart with hdone | hstuck
  · obtain ⟨s, hs, hprogress⟩ := hdone
    have hunit : ∀ j, UnitColumn s.left j := fun j => hprogress.unit j j.isLt
    refine Or.inl ⟨s.right, ?_, hprogress.reduces.right_mul hunit, hprogress.reduces.mul_right hunit⟩
    rw [hs]
    rfl
  · obtain ⟨hs, hdet⟩ := hstuck
    refine Or.inr ⟨?_, hdet⟩
    rw [hs]
    rfl

theorem matrixInvert_correct (M : Matrix (Fin (n + 1)) (Fin (n + 1)) ℚ) :
    (M.det ≠ 0 → ∃ N, matrixInvert M = some N ∧ N * M = 1 ∧ M * N = 1) ∧ (matrixInvert M = none ↔ M.det = 0) := by
  rcases matrixInvert_cases M with hinverse | hsingular
  · obtain ⟨N, hN, hleft, hright⟩ := hinverse
    have hdet : M.det ≠ 0 := Matrix.det_ne_zero_of_left_inverse hleft
    refine ⟨fun _ => ⟨N, hN, hleft, hright⟩, ?_⟩
    constructor
    · intro h
      rw [hN] at h
      cases h
    · intro h
      exact absurd h hdet
  · obtain ⟨hnone, hdet⟩ := hsingular
    exact ⟨fun h => absurd hdet h, fun _ => hdet, fun _ => hnone⟩

end FitsWebQL
