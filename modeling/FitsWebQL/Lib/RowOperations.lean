/-
  FitsWebQL.Lib.RowOperations — row operations on a matrix that is augmented by another one:
  two rows swapped, a row divided by a number, multiples of a row taken off the others. And
  loops that make one in place, an entry or a row at a time.

  Proved: a matrix that row operations reduce stays the other one times the first, and has no
  kernel that the first has not (`Reduces`, kept by `swap`, `divide` and `clear`); columns that
  are unit columns stay so, and a divided and cleared one becomes one. All columns unit, the
  other matrix is the inverse (`Reduces.right_mul`, `Reduces.mul_right`). A column without a
  pivot shows that the matrix is singular (`Reduces.det_of_stuck`). A loop that changes each
  part once makes every part what its own turn makes of it (`foldl_each`); one over all indices
  that may stop keeps its invariant until it does (`foldlM_finRange`).
-/

import Mathlib

namespace FitsWebQL.Lib.RowOperations

/-! ## Loops over parts -/

section Loops

variable {σ α β : Type*} {part : σ → α → β} {op : σ → α → σ} {s : σ} {val : α → β}

/-- `own` is about states in which each part is as before or done, and `a` as before. -/
structure Each (part : σ → α → β) (op : σ → α → σ) (s : σ) (val : α → β) : Prop where
  own : ∀ s' a, (∀ c, part s' c = part s c ∨ part s' c = val c) → part s' a = part s a → part (op s' a) a = val a
  other : ∀ s' a c, c ≠ a → part (op s' a) c = part s' c

theorem foldl_each (h : Each part op s val) {l : List α} (hl : l.Nodup) :
    (∀ c ∈ l, part (l.foldl op s) c = val c) ∧ ∀ c, c ∉ l → part (l.foldl op s) c = part s c := by
  induction l using List.reverseRecOn with
  | nil => exact ⟨fun c hc => absurd hc List.not_mem_nil, fun c _ => rfl⟩
  | append_singleton l a ih =>
    rw [List.nodup_append] at hl
    obtain ⟨hdone, hrest⟩ := ih hl.1
    have ha : a ∉ l := fun hmem => hl.2.2 a hmem a (List.mem_singleton_self a) rfl
    have hparts : ∀ c, part (l.foldl op s) c = part s c ∨ part (l.foldl op s) c = val c := by
      intro c
      by_cases hc : c ∈ l
      · exact Or.inr (hdone c hc)
      · exact Or.inl (hrest c hc)
    rw [List.foldl_append, List.foldl_cons, List.foldl_nil]
    constructor
    · intro c hc
      by_cases hca : c = a
      · subst hca
        exact h.own _ c hparts (hrest c ha)
      · rw [h.other _ a c hca]
        rcases List.mem_append.mp hc with hmem | hmem
        · exact hdone c hmem
        · exact absurd (List.mem_singleton.mp hmem) hca
    · intro c hc
      rw [List.mem_append, not_or, List.mem_singleton] at hc
      rw [h.other _ a c hc.2]
      exact hrest c hc.1

/-- A loop over all indices that may stop, and stops for a reason only. -/
theorem foldlM_finRange {n : ℕ} {f : σ → Fin n → Option σ} {P : ℕ → σ → Prop} {Q : Prop}
    (hstep : ∀ (i : Fin n) (s : σ), P i s → (∃ s', f s i = some s' ∧ P (i + 1) s') ∨ (f s i = none ∧ Q)) {s : σ} (hs : P 0 s) :
    (∃ s', (List.finRange n).foldlM f s = some s' ∧ P n s') ∨ ((List.finRange n).foldlM f s = none ∧ Q) := by
  induction n with
  | zero => exact Or.inl ⟨s, rfl, hs⟩
  | succ n ih =>
    rw [List.finRange_succ_last, List.foldlM_append, List.foldlM_map]
    rcases ih (f := fun s i => f s i.castSucc) (fun i s hi => hstep i.castSucc s hi) with ⟨s', hrun, hs'⟩ | ⟨hrun, hQ⟩
    · rw [hrun]
      rcases hstep (Fin.last n) s' hs' with ⟨s'', hlast, hs''⟩ | ⟨hlast, hQ⟩
      · exact Or.inl ⟨s'', by simp [hlast], hs''⟩
      · exact Or.inr ⟨by simp [hlast], hQ⟩
    · rw [hrun]
      exact Or.inr ⟨rfl, hQ⟩

end Loops

/-! ## Row operations -/

variable {ι κ K : Type*} [DecidableEq ι]

def swapRows (A : Matrix ι κ K) (i k : ι) : Matrix ι κ K := fun r => A (Equiv.swap i k r)

def divideRow [Div K] (A : Matrix ι κ K) (i : ι) (e : K) : Matrix ι κ K := fun r j => if r = i then A r j / e else A r j

def clearRows [Sub K] [Mul K] (A : Matrix ι κ K) (i : ι) (e : ι → K) : Matrix ι κ K := fun r j =>
  if r = i then A r j else A r j - e r * A i j

section Rows

variable [Ring K] (A : Matrix ι κ K) (i : ι) (e : ι → K)

theorem clearRows_self : clearRows A i e i = A i := funext fun _ => if_pos rfl

theorem clearRows_of_ne {r : ι} (h : r ≠ i) : clearRows A i e r = fun j => A r j - e r * A i j := funext fun _ => if_neg h

theorem clearRows_zero {r : ι} (h : e r = 0) : clearRows A i e r = A r := by
  funext j
  unfold clearRows
  rw [h, zero_mul, sub_zero, ite_self]

end Rows

@[ext] structure Augmented (ι K : Type*) where
  left : Matrix ι ι K
  right : Matrix ι ι K

namespace Augmented

variable [Field K] (s : Augmented ι K)

def swap (i k : ι) : Augmented ι K := ⟨swapRows s.left i k, swapRows s.right i k⟩

def divide (i : ι) (e : K) : Augmented ι K := ⟨divideRow s.left i e, divideRow s.right i e⟩

def clear (i : ι) (e : ι → K) : Augmented ι K := ⟨clearRows s.left i e, clearRows s.right i e⟩

end Augmented

/-! ## What they keep -/

section Keep

variable [Fintype κ] [Field K] (A : Matrix ι κ K)

theorem divideRow_dot (i : ι) (e : K) (v : κ → K) (r : ι) :
    divideRow A i e r ⬝ᵥ v = if r = i then A r ⬝ᵥ v / e else A r ⬝ᵥ v := by
  unfold divideRow
  split
  · simp only [dotProduct, Finset.sum_div]
    exact Finset.sum_congr rfl fun j _ => by ring
  · rfl

theorem clearRows_dot (i : ι) (e : ι → K) (v : κ → K) (r : ι) :
    clearRows A i e r ⬝ᵥ v = if r = i then A r ⬝ᵥ v else A r ⬝ᵥ v - e r * (A i ⬝ᵥ v) := by
  unfold clearRows
  split
  · rfl
  · simp only [dotProduct, Finset.mul_sum, ← Finset.sum_sub_distrib]
    exact Finset.sum_congr rfl fun j _ => by ring

theorem swapRows_mul {μ : Type*} (B : Matrix κ μ K) (i k : ι) : swapRows A i k * B = swapRows (A * B) i k := rfl

theorem divideRow_mul {μ : Type*} (B : Matrix κ μ K) (i : ι) (e : K) : divideRow A i e * B = divideRow (A * B) i e := by
  ext r j
  exact divideRow_dot A i e (fun k => B k j) r

theorem clearRows_mul {μ : Type*} (B : Matrix κ μ K) (i : ι) (e : ι → K) : clearRows A i e * B = clearRows (A * B) i e := by
  ext r j
  exact clearRows_dot A i e (fun k => B k j) r

end Keep

section Reduces

variable [Fintype ι] [Field K] {M : Matrix ι ι K} {s : Augmented ι K}

/-- What row operations on `M`, augmented by the unit matrix, keep. -/
structure Reduces (M : Matrix ι ι K) (s : Augmented ι K) : Prop where
  product : s.left = s.right * M
  kernel : ∀ x, s.left.mulVec x = 0 → M.mulVec x = 0

theorem Reduces.start (M : Matrix ι ι K) : Reduces M ⟨M, 1⟩ := ⟨(one_mul M).symm, fun _ h => h⟩

theorem Reduces.swap (h : Reduces M s) (i k : ι) : Reduces M (s.swap i k) := by
  refine ⟨?_, fun x hx => h.kernel x ?_⟩
  · change swapRows s.left i k = swapRows s.right i k * M
    rw [swapRows_mul, ← h.product]
  · funext r
    have hr := congrFun hx (Equiv.swap i k r)
    change s.left (Equiv.swap i k (Equiv.swap i k r)) ⬝ᵥ x = 0 at hr
    rwa [Equiv.swap_apply_self] at hr

theorem Reduces.divide (h : Reduces M s) (i : ι) {e : K} (he : e ≠ 0) : Reduces M (s.divide i e) := by
  refine ⟨?_, fun x hx => h.kernel x ?_⟩
  · change divideRow s.left i e = divideRow s.right i e * M
    rw [divideRow_mul, ← h.product]
  · funext r
    have hr : divideRow s.left i e r ⬝ᵥ x = 0 := congrFun hx r
    rw [divideRow_dot] at hr
    split at hr
    · exact (div_eq_zero_iff.mp hr).resolve_right he
    · exact hr

theorem Reduces.clear (h : Reduces M s) (i : ι) (e : ι → K) : Reduces M (s.clear i e) := by
  refine ⟨?_, fun x hx => h.kernel x ?_⟩
  · change clearRows s.left i e = clearRows s.right i e * M
    rw [clearRows_mul, ← h.product]
  · have hrow : ∀ r, (if r = i then s.left r ⬝ᵥ x else s.left r ⬝ᵥ x - e r * (s.left i ⬝ᵥ x)) = 0 := by
      intro r
      rw [← clearRows_dot]
      exact congrFun hx r
    have hi : s.left i ⬝ᵥ x = 0 := by simpa using hrow i
    funext r
    have hr := hrow r
    rw [hi, mul_zero, sub_zero, ite_self] at hr
    exact hr

end Reduces

/-! ## Unit columns -/

section UnitColumns

variable [Field K] {A : Matrix ι ι K}

def UnitColumn (A : Matrix ι ι K) (j : ι) : Prop := ∀ r, A r j = if r = j then 1 else 0

theorem UnitColumn.zero {j r : ι} (h : UnitColumn A j) (hr : r ≠ j) : A r j = 0 := (h r).trans (if_neg hr)

theorem UnitColumn.swap {i k j : ι} (h : UnitColumn A j) (hi : i ≠ j) (hk : k ≠ j) : UnitColumn (swapRows A i k) j := by
  intro r
  have hsame : Equiv.swap i k r = j ↔ r = j := by
    rw [Equiv.swap_apply_eq_iff, Equiv.swap_apply_of_ne_of_ne hi.symm hk.symm]
  exact (h _).trans (if_congr hsame rfl rfl)

theorem UnitColumn.divide {i j : ι} (h : UnitColumn A j) (hi : i ≠ j) (e : K) : UnitColumn (divideRow A i e) j := by
  intro r
  unfold divideRow
  split
  case isTrue hr => rw [hr, h.zero hi, zero_div, if_neg hi]
  case isFalse => exact h r

theorem UnitColumn.clear {i j : ι} (h : UnitColumn A j) (hi : i ≠ j) (e : ι → K) : UnitColumn (clearRows A i e) j := by
  intro r
  unfold clearRows
  rw [h.zero hi, mul_zero, sub_zero, ite_self]
  exact h r

/-- The column of the row that is divided by its pivot and taken off the others. -/
theorem unitColumn_pivot {i : ι} (h : A i i = 1) : UnitColumn (clearRows A i fun r => A r i) i := by
  intro r
  unfold clearRows
  split
  case isTrue hr => rw [hr, h]
  case isFalse => rw [h, mul_one, sub_self]

theorem divideRow_pivot {i : ι} (h : A i i ≠ 0) : divideRow A i (A i i) i i = 1 := by
  unfold divideRow
  rw [if_pos rfl, div_self h]

theorem eq_one_of_unitColumns (h : ∀ j, UnitColumn A j) : A = 1 := by
  ext r j
  rw [h j r, Matrix.one_apply]

end UnitColumns

/-! ## Inverses and singular matrices -/

section Inverse

variable [Fintype ι] [Field K] {M : Matrix ι ι K} {s : Augmented ι K}

theorem Reduces.right_mul (h : Reduces M s) (hunit : ∀ j, UnitColumn s.left j) : s.right * M = 1 := by
  rw [← h.product]
  exact eq_one_of_unitColumns hunit

theorem Reduces.mul_right (h : Reduces M s) (hunit : ∀ j, UnitColumn s.left j) : M * s.right = 1 :=
  mul_eq_one_comm.mp (h.right_mul hunit)

/-- A column that is 0 outside the rows whose columns are unit columns is their combination,
and so is that column of the matrix that was reduced. -/
theorem Reduces.det_of_stuck (h : Reduces M s) (done : ι → Prop) [DecidablePred done] {i : ι} (hi : ¬ done i)
    (hunit : ∀ j, done j → UnitColumn s.left j) (hzero : ∀ r, ¬ done r → s.left r i = 0) : M.det = 0 := by
  let x : ι → K := fun j => if j = i then 1 else if done j then - s.left j i else 0
  have hterm : ∀ r j, s.left r j * x j = (if j = i then s.left r i else 0) + if j = r ∧ done r then - s.left r i else 0 := by
    intro r j
    by_cases hj : j = i
    · subst hj
      have hnot : ¬ (j = r ∧ done r) := fun hjr => hi (hjr.1 ▸ hjr.2)
      simp [x, hnot]
    · by_cases hdone : done j
      · rw [hunit j hdone r]
        by_cases hr : r = j
        · subst hr
          simp [x, hj, hdone]
        · simp [x, hj, hr, Ne.symm hr]
      · have hnot : ¬ (j = r ∧ done r) := fun hjr => hdone (hjr.1 ▸ hjr.2)
        simp [x, hj, hdone, hnot]
  have hkernel : s.left.mulVec x = 0 := by
    funext r
    change ∑ j, s.left r j * x j = 0
    rw [Finset.sum_congr rfl fun j _ => hterm r j, Finset.sum_add_distrib, Finset.sum_ite_eq' Finset.univ i, if_pos (Finset.mem_univ i)]
    by_cases hr : done r
    · simp [hr]
    · simp [hr, hzero r hr]
  have hx : x ≠ 0 := by
    intro h0
    have hone : x i = 1 := if_pos rfl
    rw [h0] at hone
    exact zero_ne_one hone
  exact Matrix.exists_mulVec_eq_zero_iff.mp ⟨x, hx, h.kernel x hkernel⟩

end Inverse

end FitsWebQL.Lib.RowOperations
