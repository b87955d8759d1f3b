/-
  FitsWebQL.Median — `stl_median`, over any linearly ordered values: a partition around the
  middle place, then the value there, or half the sum of it and of the largest one before
  it. `+` and `/` are those of the values, exact or rounded as floats are; values that are
  no numbers are not ordered.

  `std::nth_element`, the parallel one too, is a parameter with what the standard promises
  of it.

  Proved, for every vector that is not empty:
  - `stlMedian_is_median`: the median, and the vector in some order.
  - `stlMedian_eq`: so it is what the statistics have (`stlMedian`), where the vector is
    sorted instead.
-/

import FitsWebQL.CutStatistics
import FitsWebQL.Lib.Selection

namespace FitsWebQL

open Lib.Selection

variable {α : Type*} [LinearOrder α] [Add α] [Div α] [OfNat α 2]

/-- `none` is NAN. The second is what `v` is left as. -/
def stlMedianOf (nth_element : List α → ℕ → List α) (v : List α) : Option α × List α :=
  if v.length = 0 then (none, v)
  else if v.length = 1 then (v[0]?, v)
  else
    let n := v.length / 2
    let v := nth_element v n
    if v.length % 2 = 1 then (v[n]?, v)
    else
      -- even sized vector
      let max_it := (v.take n).max?
      (max_it.bind fun max_it => v[n]?.map fun middle => (max_it + middle) / 2, v)

/-- The value in the middle of the sorted vector, or half the sum of the two there. -/
def median (v : List α) : Option α :=
  let n := v.length / 2
  if v.length % 2 = 1 then (sorted v)[n]?
  else (sorted v)[n - 1]?.bind fun before => (sorted v)[n]?.map fun middle => (before + middle) / 2

theorem median_isSome {v : List α} (hne : v ≠ []) : ∃ m, median v = some m := by
  have hpos : 0 < v.length := List.length_pos_of_ne_nil hne
  have hplace : ∀ i < v.length, ∃ x, (sorted v)[i]? = some x := by
    intro i hi
    rw [← sorted_length v] at hi
    exact ⟨_, List.getElem?_eq_getElem hi⟩
  obtain ⟨middle, hmiddle⟩ := hplace (v.length / 2) (by omega)
  obtain ⟨before, hbefore⟩ := hplace (v.length / 2 - 1) (by omega)
  unfold median
  dsimp only
  split
  · exact ⟨middle, hmiddle⟩
  · exact ⟨(before + middle) / 2, by rw [hbefore, hmiddle]; rfl⟩

/-- A vector of two values or more. -/
theorem stlMedianOf_many {nth_element : List α → ℕ → List α} (h : NthElement nth_element) {v : List α} (hlen : 2 ≤ v.length) :
    stlMedianOf nth_element v = (median v, nth_element v (v.length / 2)) := by
  have hperm := h.perm v (v.length / 2)
  have hplace : v.length / 2 < v.length := by omega
  have hmiddle := h.nth v (v.length / 2) hplace
  unfold stlMedianOf median
  dsimp only
  rw [if_neg (by omega), if_neg (by omega), hperm.length_eq]
  split
  · rw [hmiddle]
  · have hmax : ((nth_element v (v.length / 2)).take (v.length / 2)).max? = (sorted v)[v.length / 2 - 1]? := by
      have hlen' : v.length / 2 ≤ (nth_element v (v.length / 2)).length := by
        rw [hperm.length_eq]
        exact hplace.le
      rw [max_before (by omega) hlen' fun x hx y hy => not_lt.mp (h.partitioned v _ hplace x hx y hy), sorted_congr hperm]
    rw [hmax, hmiddle]

theorem stlMedian_is_median {nth_element : List α → ℕ → List α} (h : NthElement nth_element) {v : List α} (hne : v ≠ []) :
    ∃ m, (stlMedianOf nth_element v).1 = some m ∧ median v = some m ∧ (stlMedianOf nth_element v).2.Perm v := by
  obtain ⟨m, hm⟩ := median_isSome hne
  rcases Nat.lt_or_ge v.length 2 with hone | hmany
  · obtain ⟨x, rfl⟩ : ∃ x, v = [x] := List.length_eq_one_iff.mp (by have := List.length_pos_of_ne_nil hne; omega)
    have hmedian : median [x] = some x := by simp [median, sorted]
    exact ⟨x, rfl, hmedian, List.Perm.refl _⟩
  · rw [stlMedianOf_many h hmany]
    exact ⟨m, hm, hm, h.perm v _⟩

/-- Four values, two of them equal. -/
theorem stlMedian_is_median_four :
    ∃ m, (stlMedianOf (fun v _ => sorted v) [3, 1, 2, (1 : ℚ)]).1 = some m ∧ median [3, 1, 2, (1 : ℚ)] = some m ∧
      (stlMedianOf (fun v _ => sorted v) [3, 1, 2, (1 : ℚ)]).2.Perm [3, 1, 2, 1] :=
  stlMedian_is_median sorted_nthElement (by decide)

/-- Whatever `nth_element` does, the median is that of the sorted vector. -/
theorem stlMedian_eq {nth_element : List ℚ → ℕ → List ℚ} (h : NthElement nth_element) (v : List ℚ) :
    (stlMedianOf nth_element v).1 = stlMedian (v.map some) := by
  match v with
  | [] => rfl
  | [x] => rfl
  | x :: y :: rest =>
    have hlen : 2 ≤ (x :: y :: rest).length := by simp
    generalize hnumbers : x :: y :: rest = w at hlen
    have hstart : stlMedian (w.map some) = (stlMedianOf (fun v _ => sorted v) w).1 := by
      have hsize := sorted_length w
      have hmapM : (w.map some).mapM id = some w := mapM_id_some w
      unfold stlMedianOf
      dsimp only
      rw [if_neg (by omega), if_neg (by omega), hsize, ← hnumbers]
      rw [← hnumbers] at hmapM
      simp only [List.map_cons, stlMedian] at hmapM ⊢
      rw [hmapM]
      simp only [Option.bind_eq_bind, Option.bind_some]
      split
      · rfl
      · simp only [Option.map_eq_bind]
        rfl
    rw [hstart, stlMedianOf_many h hlen, stlMedianOf_many sorted_nthElement hlen]

end FitsWebQL
