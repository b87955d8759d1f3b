/-
  FitsWebQL.Lib.Bins — histograms on regular axes. One kind has an axis that grows by whole
  bins, so that every value has a bin; the other has fixed bounds, and what is outside them
  is counted in cells of its own, below and above.

  Proved: a growing histogram counts every value (`total_fill`) and has its first upper bound
  in a bin above it (`bin_stop`), the inner cells of a fixed one hold the weight between the
  bounds (`sum_cellCount`), and a walk along the cells stops at one of them exactly when they
  hold as much as it looks for (`walk_lt_iff`).
-/

import FitsWebQL.Lib.Tiling

namespace FitsWebQL.Lib.Bins

open Tiling

/-! ## A growing axis -/

/-- Bin `k` is from `lower + k * step` up to `lower + (k + 1) * step`; the axis has the bins from `first` to
    before `last`. -/
structure Growing where
  lower : ℚ
  step : ℚ
  first : ℤ
  last : ℤ
  counts : ℤ → ℕ
  outside : ∀ k, k < first ∨ last ≤ k → counts k = 0

namespace Growing

/-- `n` bins; `none` for bounds that are equal. -/
def make (n : ℕ) (start stop : ℚ) : Option Growing :=
  if start = stop then none
  else
    some { lower := start, step := (stop - start) / n, first := 0, last := n, counts := fun _ => 0, outside := fun _ _ => rfl }

variable (h : Growing)

def bin (x : ℚ) : ℤ := ⌊(x - h.lower) / h.step⌋

def add (x : ℚ) : Growing :=
  { h with
    first := min h.first (h.bin x)
    last := max h.last (h.bin x + 1)
    counts := Function.update h.counts (h.bin x) (h.counts (h.bin x) + 1)
    outside := by
      intro k hk
      rw [Function.update_of_ne (by omega)]
      exact h.outside k (by omega) }

def fill (v : List ℚ) : Growing := v.foldl add h

def total : ℕ := ((ints h.first h.last).map h.counts).sum

def centre (k : ℤ) : ℚ := h.lower + ((k : ℚ) + 1 / 2) * h.step

def centres : List (ℚ × ℕ) := (ints h.first h.last).map fun k => (h.centre k, h.counts k)

variable {h}

theorem make_isSome {n : ℕ} {start stop : ℚ} (hne : start ≠ stop) : ∃ h, make n start stop = some h ∧ h.total = 0 := by
  refine ⟨_, if_neg hne, ?_⟩
  unfold total
  rw [sum_ints]
  exact Finset.sum_const_zero

theorem step_make {n : ℕ} {start stop : ℚ} (hmake : make n start stop = some h) : h.step = (stop - start) / n ∧ ∀ k, h.counts k = 0 := by
  unfold make at hmake
  split at hmake
  · cases hmake
  · obtain rfl := Option.some.inj hmake
    exact ⟨rfl, fun _ => rfl⟩

/-- One more in the bin of `x`, wherever the axis had ended. -/
theorem sum_add (h : Growing) (P : ℤ → Prop) [DecidablePred P] (x : ℚ) :
    ((ints (h.add x).first (h.add x).last).map fun k => if P k then (h.add x).counts k else 0).sum =
      ((ints h.first h.last).map fun k => if P k then h.counts k else 0).sum + if P (h.bin x) then 1 else 0 := by
  rw [sum_ints, sum_ints]
  have hmem : h.bin x ∈ Finset.Ico (h.add x).first (h.add x).last := by
    rw [Finset.mem_Ico]
    exact ⟨min_le_right _ _, lt_of_lt_of_le (Int.lt_succ _) (le_max_right _ _)⟩
  have hsub : Finset.Ico h.first h.last ⊆ Finset.Ico (h.add x).first (h.add x).last :=
    Finset.Ico_subset_Ico (min_le_left _ _) (le_max_left _ _)
  have hold : ∑ k ∈ Finset.Ico h.first h.last, (if P k then h.counts k else 0) =
      ∑ k ∈ Finset.Ico (h.add x).first (h.add x).last, if P k then h.counts k else 0 := by
    refine Finset.sum_subset hsub fun k _ hk => ?_
    rw [Finset.mem_Ico] at hk
    rw [h.outside k (by omega), ite_self]
  have hnew : ∀ k, (if P k then (h.add x).counts k else 0) =
      (if P k then h.counts k else 0) + if h.bin x = k then if P k then 1 else 0 else 0 := by
    intro k
    have hcounts : (h.add x).counts k = if k = h.bin x then h.counts (h.bin x) + 1 else h.counts k := Function.update_apply _ _ _ _
    rw [hcounts]
    by_cases hk : k = h.bin x
    · subst hk
      rw [if_pos rfl, if_pos rfl]
      split <;> rfl
    · rw [if_neg hk, if_neg (Ne.symm hk), Nat.add_zero]
  rw [hold, Finset.sum_congr rfl fun k _ => hnew k, Finset.sum_add_distrib, Finset.sum_ite_eq, if_pos hmem]

theorem total_add (h : Growing) (x : ℚ) : (h.add x).total = h.total + 1 := by
  have hsum := sum_add h (fun _ => True) x
  unfold total
  simpa only [if_true] using hsum

theorem total_fill (h : Growing) (v : List ℚ) : (h.fill v).total = h.total + v.length := by
  unfold fill
  induction v generalizing h with
  | nil => rfl
  | cons x v ih => rw [List.foldl_cons, ih, total_add, List.length_cons, Nat.add_assoc, Nat.add_comm 1]

/-- The bound above is in the bin after the last. -/
theorem bin_stop {n : ℕ} (hn : 0 < n) {start stop : ℚ} (hmake : make n start stop = some h) :
    h.bin stop = n ∧ h.centre n = stop + h.step / 2 := by
  unfold make at hmake
  split at hmake
  · cases hmake
  · rename_i hne
    obtain rfl := Option.some.inj hmake
    have hn' : (n : ℚ) ≠ 0 := by exact_mod_cast hn.ne'
    have hwidth : stop - start ≠ 0 := sub_ne_zero.mpr (Ne.symm hne)
    constructor
    · unfold bin
      dsimp only
      rw [div_div_cancel₀ hwidth]
      exact Int.floor_natCast n
    · unfold centre
      dsimp only
      push_cast
      field_simp
      ring

/-- A value between the bounds is in a bin with its centre between them. -/
theorem bin_inside {n : ℕ} (hn : 0 < n) {start stop : ℚ} (hlt : start < stop) (hmake : make n start stop = some h) {x : ℚ}
    (hx : start ≤ x ∧ x < stop) : start ≤ h.centre (h.bin x) ∧ h.centre (h.bin x) < stop := by
  unfold make at hmake
  rw [if_neg hlt.ne] at hmake
  obtain rfl := Option.some.inj hmake
  have hn' : (0 : ℚ) < n := by exact_mod_cast hn
  obtain ⟨step, hstep⟩ : ∃ step, (stop - start) / n = step := ⟨_, rfl⟩
  have hpos : 0 < step := by
    rw [← hstep]
    exact div_pos (sub_pos.mpr hlt) hn'
  have hstop : stop = start + n * step := by
    rw [← hstep, mul_div_cancel₀ _ hn'.ne']
    ring
  unfold bin centre
  dsimp only
  rw [hstep]
  have hlow : (0 : ℤ) ≤ ⌊(x - start) / step⌋ := Int.floor_nonneg.mpr (div_nonneg (by linarith) hpos.le)
  have hhigh : ⌊(x - start) / step⌋ < n := by
    rw [Int.floor_lt, Int.cast_natCast, div_lt_iff₀ hpos]
    linarith
  have hlow' : (0 : ℚ) ≤ (⌊(x - start) / step⌋ : ℤ) := by exact_mod_cast hlow
  have hhigh' : ((⌊(x - start) / step⌋ : ℤ) : ℚ) + 1 ≤ n := by exact_mod_cast hhigh
  constructor
  · have hnonneg : 0 ≤ (((⌊(x - start) / step⌋ : ℤ) : ℚ) + 1 / 2) * step := mul_nonneg (by linarith) hpos.le
    linarith
  · rw [hstop, add_lt_add_iff_left, mul_lt_mul_iff_left₀ hpos]
    linarith

end Growing

/-! ## Fixed bounds -/

/-- `none` is below or above. -/
def cell (n : ℕ) (lower upper x : ℚ) : Option ℕ :=
  let z := (x - lower) / (upper - lower)
  if z < 1 then if 0 ≤ z then some ⌊z * n⌋.toNat else none else none

def cellCount (n : ℕ) (lower upper : ℚ) (entries : List (ℚ × ℕ)) (i : ℕ) : ℕ :=
  (entries.map fun e => if cell n lower upper e.1 = some i then e.2 else 0).sum

/-- The weight in all cells, those below and above the bounds too. -/
def sumAll (entries : List (ℚ × ℕ)) : ℕ := (entries.map Prod.snd).sum

def inner (lower upper : ℚ) (entries : List (ℚ × ℕ)) : ℕ := (entries.map fun e => if lower ≤ e.1 ∧ e.1 < upper then e.2 else 0).sum

variable {n : ℕ} {lower upper : ℚ}

theorem cell_inside (hn : 0 < n) (hlt : lower < upper) {x : ℚ} (hx : lower ≤ x ∧ x < upper) : ∃ i < n, cell n lower upper x = some i := by
  have hwidth : 0 < upper - lower := by linarith
  have hz0 : 0 ≤ (x - lower) / (upper - lower) := div_nonneg (by linarith) hwidth.le
  have hz1 : (x - lower) / (upper - lower) < 1 := (div_lt_one hwidth).mpr (by linarith)
  have hn' : (0 : ℚ) < n := by exact_mod_cast hn
  have hfloor : ⌊(x - lower) / (upper - lower) * n⌋ < n := by
    rw [Int.floor_lt]
    push_cast
    nlinarith
  have hfloor0 : 0 ≤ ⌊(x - lower) / (upper - lower) * n⌋ := Int.floor_nonneg.mpr (mul_nonneg hz0 hn'.le)
  refine ⟨⌊(x - lower) / (upper - lower) * n⌋.toNat, by omega, ?_⟩
  unfold cell
  dsimp only
  rw [if_pos hz1, if_pos hz0]

theorem cell_outside (hlt : lower < upper) {x : ℚ} (hx : ¬ (lower ≤ x ∧ x < upper)) : cell n lower upper x = none := by
  have hwidth : 0 < upper - lower := by linarith
  unfold cell
  dsimp only
  split
  · rename_i hz1
    refine if_neg fun hz0 => hx ⟨?_, ?_⟩
    · rw [div_nonneg_iff] at hz0
      rcases hz0 with h | h
      · linarith [h.1]
      · linarith [h.2]
    · rw [div_lt_one hwidth] at hz1
      linarith
  · rfl

theorem inner_empty (lower upper : ℚ) {h : Growing} (hempty : ∀ k, h.counts k = 0) : inner lower upper h.centres = 0 := by
  refine List.sum_eq_zero fun w hw => ?_
  obtain ⟨e, he, rfl⟩ := List.mem_map.mp hw
  obtain ⟨k, -, rfl⟩ := List.mem_map.mp he
  rw [hempty k, ite_self]

/-- Of the values a growing histogram is given, those with a bin whose centre is between the bounds. -/
theorem inner_fill (lower upper : ℚ) (h : Growing) (v : List ℚ) :
    inner lower upper (h.fill v).centres =
      inner lower upper h.centres + v.countP fun x => lower ≤ h.centre (h.bin x) ∧ h.centre (h.bin x) < upper := by
  unfold Growing.fill
  induction v generalizing h with
  | nil => rfl
  | cons x v ih =>
    have hadd : inner lower upper (h.add x).centres =
        inner lower upper h.centres + if lower ≤ h.centre (h.bin x) ∧ h.centre (h.bin x) < upper then 1 else 0 := by
      unfold inner Growing.centres
      rw [List.map_map, List.map_map]
      exact Growing.sum_add h (fun k => lower ≤ h.centre k ∧ h.centre k < upper) x
    have hsame : (v.countP fun y => lower ≤ (h.add x).centre ((h.add x).bin y) ∧ (h.add x).centre ((h.add x).bin y) < upper) =
        v.countP fun y => lower ≤ h.centre (h.bin y) ∧ h.centre (h.bin y) < upper := rfl
    rw [List.foldl_cons, ih, hadd, hsame, List.countP_cons, Nat.add_assoc]
    simp only [decide_eq_true_eq]
    rw [Nat.add_comm (List.countP _ v)]

theorem sum_cellCount (hn : 0 < n) (hlt : lower < upper) (entries : List (ℚ × ℕ)) :
    ((List.range n).map (cellCount n lower upper entries)).sum = inner lower upper entries := by
  unfold inner
  induction entries with
  | nil =>
    have hnone : cellCount n lower upper [] = fun _ => 0 := rfl
    simp [hnone]
  | cons e entries ih =>
    have hcons : ∀ i, cellCount n lower upper (e :: entries) i =
        (if cell n lower upper e.1 = some i then e.2 else 0) + cellCount n lower upper entries i := fun i => rfl
    rw [List.map_cons, List.sum_cons, ← ih, List.map_congr_left fun i _ => hcons i, List.sum_map_add]
    congr 1
    by_cases hx : lower ≤ e.1 ∧ e.1 < upper
    · obtain ⟨i, hi, hcell⟩ := cell_inside hn hlt hx
      have hsum : ((List.range n).map fun j => if cell n lower upper e.1 = some j then e.2 else 0).sum =
          ∑ j ∈ Finset.range n, if cell n lower upper e.1 = some j then e.2 else 0 := rfl
      rw [if_pos hx, hsum, hcell, Finset.sum_eq_single i (fun j _ hne => if_neg fun h => hne (Option.some.inj h).symm)
        (fun hout => absurd (Finset.mem_range.mpr hi) hout), if_pos rfl]
    · rw [if_neg hx, List.map_congr_left fun j _ => if_neg (by rw [cell_outside hlt hx]; exact nofun)]
      simp

/-! ## A walk along the cells -/

def walk (goal : ℚ) : List ℕ → ℚ → ℕ
  | [], _ => 0
  | count :: counts, cumulative => if cumulative + count ≥ goal then 0 else walk goal counts (cumulative + count) + 1

theorem walk_lt_iff (goal : ℚ) (counts : List ℕ) (cumulative : ℚ) :
    walk goal counts cumulative < counts.length ↔ counts ≠ [] ∧ goal ≤ cumulative + counts.sum := by
  induction counts generalizing cumulative with
  | nil => simp [walk]
  | cons count counts ih =>
    have hsum : (((count :: counts).sum : ℕ) : ℚ) = count + counts.sum := by
      rw [List.sum_cons]
      push_cast
      rfl
    have hrest : (0 : ℚ) ≤ counts.sum := Nat.cast_nonneg _
    unfold walk
    rw [hsum, List.length_cons]
    split
    · rename_i hstop
      exact ⟨fun _ => ⟨List.cons_ne_nil _ _, by linarith⟩, fun _ => Nat.succ_pos _⟩
    · rename_i hgo
      rw [Nat.succ_lt_succ_iff, ih, ← add_assoc]
      refine ⟨fun h => ⟨List.cons_ne_nil _ _, h.2⟩, fun h => ⟨?_, h.2⟩⟩
      rintro rfl
      simp only [List.sum_nil, Nat.cast_zero, add_zero] at h
      exact hgo h.2

end FitsWebQL.Lib.Bins
