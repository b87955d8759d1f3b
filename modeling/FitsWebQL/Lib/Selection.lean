/-
  FitsWebQL.Lib.Selection — order statistics: the value at a place of the sorted list, and
  what a list that is only partitioned at the place still shows of them.

  Proved, over any linear order: a partitioned list sorts half by half (`sorted_append`); the
  largest value below the place is the one before it in the sorted list (`max_before`).
-/

import Mathlib

namespace FitsWebQL.Lib.Selection

variable {α : Type*} [LinearOrder α]

def sorted (l : List α) : List α := l.insertionSort (· ≤ ·)

/-- `std::nth_element` may do anything that leaves the values, the `n`-th one where sorting
    puts it, and no greater value before the place than behind it. -/
structure NthElement (nth_element : List α → ℕ → List α) : Prop where
  perm : ∀ v n, (nth_element v n).Perm v
  nth : ∀ v n, n < v.length → (nth_element v n)[n]? = (sorted v)[n]?
  partitioned : ∀ v n, n < v.length → ∀ x ∈ (nth_element v n).take n, ∀ y ∈ (nth_element v n).drop n, ¬ y < x

theorem sorted_perm (l : List α) : (sorted l).Perm l := List.perm_insertionSort _ l

theorem sorted_length (l : List α) : (sorted l).length = l.length := (sorted_perm l).length_eq

theorem sorted_pairwise (l : List α) : (sorted l).Pairwise (· ≤ ·) := List.pairwise_insertionSort _ l

/-- There is one way to sort. -/
theorem sorted_eq {l s : List α} (h : s.Perm l) (hs : s.Pairwise (· ≤ ·)) : sorted l = s :=
  ((sorted_perm l).trans h.symm).eq_of_pairwise' (sorted_pairwise l) hs

theorem sorted_congr {l l' : List α} (h : l.Perm l') : sorted l = sorted l' :=
  sorted_eq ((sorted_perm l').trans h.symm) (sorted_pairwise l')

theorem sorted_append {a b : List α} (h : ∀ x ∈ a, ∀ y ∈ b, x ≤ y) : sorted (a ++ b) = sorted a ++ sorted b := by
  refine sorted_eq ((sorted_perm a).append (sorted_perm b)) ?_
  rw [List.pairwise_append]
  refine ⟨sorted_pairwise a, sorted_pairwise b, fun x hx y hy => ?_⟩
  exact h x ((sorted_perm a).mem_iff.mp hx) y ((sorted_perm b).mem_iff.mp hy)

/-- The largest value comes last. -/
theorem max_sorted {a : List α} (hne : a ≠ []) : a.max? = (sorted a)[a.length - 1]? := by
  have hpos : 0 < a.length := List.length_pos_of_ne_nil hne
  have hlast : a.length - 1 < (sorted a).length := by
    rw [sorted_length]
    omega
  rw [List.getElem?_eq_getElem hlast, List.max?_eq_some_iff]
  refine ⟨(sorted_perm a).mem_iff.mp (List.getElem_mem hlast), fun b hb => ?_⟩
  obtain ⟨i, hi, rfl⟩ := List.mem_iff_getElem.mp ((sorted_perm a).mem_iff.mpr hb)
  rw [sorted_length] at hi
  rcases Nat.eq_or_lt_of_le (Nat.le_sub_one_of_lt hi) with heq | hlt
  · exact le_of_eq (getElem_congr_idx heq)
  · exact List.pairwise_iff_getElem.mp (sorted_pairwise a) i _ _ _ hlt

/-- In a list partitioned at place `n` the largest value before it is the one before the
    `n`-th. -/
theorem max_before {out : List α} {n : ℕ} (hn : 0 < n) (hlen : n ≤ out.length)
    (h : ∀ x ∈ out.take n, ∀ y ∈ out.drop n, x ≤ y) : (out.take n).max? = (sorted out)[n - 1]? := by
  have htake : (out.take n).length = n := by rw [List.length_take, Nat.min_eq_left hlen]
  have hne : out.take n ≠ [] := by
    intro he
    rw [he, List.length_nil] at htake
    omega
  have hsplit : sorted out = sorted (out.take n) ++ sorted (out.drop n) := by
    rw [← sorted_append h, List.take_append_drop]
  rw [max_sorted hne, htake, hsplit, List.getElem?_append_left]
  rw [sorted_length, htake]
  omega

/-- Sorting is one way to do it. -/
theorem sorted_nthElement : NthElement (fun (v : List α) _ => sorted v) where
  perm v _ := sorted_perm v
  nth v n _ := rfl
  partitioned v n _ x hx y hy := by
    have hpair := sorted_pairwise v
    rw [← List.take_append_drop n (sorted v), List.pairwise_append] at hpair
    exact not_lt.mpr (hpair.2.2 x hx y hy)

end FitsWebQL.Lib.Selection
