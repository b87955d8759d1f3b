/-
  FitsWebQL.DeNaN — taking the NaN and infinite values out of a vector before its median
  and histogram are made (`deNaN`). The scan goes up from the front; a value that is not
  finite is replaced by the last finite one, the end coming down as values are taken from
  it. The vector is then cut after `v_end`.

  When the scan meets a value that is not finite and nothing finite is left behind it, the
  loop breaks with `v_end` at that very value, so the cut keeps it. The source says so of a
  vector of NaNs only; it happens to any vector whose finite values end up in front of a
  value that is not finite.

  Proved:
  - `deNaN_eq`: the two indices walk the vector as `Lib.Prune.prune` does.
  - `deNaN_perm_iff`: exactly the finite values are left precisely when the value at the
    index equal to their number, if there is one, is finite.
  - `nan_behind_a_number`: `[1, NaN]` is left as it is.
-/

import FitsWebQL.Pixel
import FitsWebQL.Lib.Prune

namespace FitsWebQL

open Lib.Prune

def valueAt (v : List (Option ℚ)) (i : ℕ) : Option ℚ := v.getD i none

/-- `while (v_end > i && !std::isfinite(v[v_end])) v_end--;` -/
def lastFinite (v : List (Option ℚ)) (i : ℕ) : ℕ → ℕ
  | 0 => 0
  | v_end + 1 => if i < v_end + 1 ∧ (valueAt v (v_end + 1)).isSome = false then lastFinite v i v_end else v_end + 1

theorem lastFinite_le (v : List (Option ℚ)) (i v_end : ℕ) : lastFinite v i v_end ≤ v_end := by
  induction v_end with
  | zero => simp [lastFinite]
  | succ v_end ih =>
    unfold lastFinite
    split <;> omega

/-- The scan: the vector and `v_end` when the loop is left, by its condition or by `break`. -/
def deNaNLoop (v : List (Option ℚ)) (i v_end : ℕ) : List (Option ℚ) × ℕ :=
  if i ≤ v_end then
    if (valueAt v i).isSome then deNaNLoop v (i + 1) v_end
    else
      let v_end' := lastFinite v i v_end
      if v_end' ≤ i then (v, v_end')
      else deNaNLoop (v.set i (valueAt v v_end')) (i + 1) (v_end' - 1)
  else (v, v_end)
termination_by v_end + 1 - i
decreasing_by
  · omega
  · have := lastFinite_le v i v_end
    omega

def deNaN (v : List (Option ℚ)) : List (Option ℚ) :=
  if v.isEmpty then v
  else
    let r := deNaNLoop v 0 (v.length - 1)
    r.1.take (r.2 + 1)

/-! ## The two indices and the values between them -/

theorem valueAt_append (front rest : List (Option ℚ)) (i : ℕ) : valueAt (front ++ rest) (front.length + i) = valueAt rest i := by
  rw [valueAt, valueAt, List.getD_eq_getElem?_getD, List.getD_eq_getElem?_getD, List.getElem?_append_right (by omega),
    Nat.add_sub_cancel_left]

/-- Coming down from the end over values that are not finite. -/
theorem lastFinite_skip {v : List (Option ℚ)} {i e n : ℕ} (hi : i ≤ e)
    (hbad : ∀ j, e < j → j ≤ e + n → (valueAt v j).isSome = false) : lastFinite v i (e + n) = lastFinite v i e := by
  induction n with
  | zero => rfl
  | succ n ih =>
    rw [← Nat.add_assoc, lastFinite, if_pos ⟨by omega, hbad _ (by omega) (by omega)⟩]
    exact ih fun j h1 h2 => hbad j h1 (by omega)

theorem lastFinite_here {v : List (Option ℚ)} {i e : ℕ} (h : (valueAt v e).isSome = true ∨ e ≤ i) : lastFinite v i e = e := by
  cases e with
  | zero => rfl
  | succ e =>
    rw [lastFinite, if_neg]
    rintro ⟨h1, h2⟩
    rcases h with h | h
    · simp [h2] at h
    · omega

/-- A value in front of `bad` alone: the end comes down to it. -/
theorem lastFinite_stop (front suf bad : List (Option ℚ)) (x : Option ℚ) (hbad : ∀ y ∈ bad, y.isSome = false) :
    lastFinite (front ++ x :: bad ++ suf) front.length (front.length + bad.length) = front.length := by
  rw [lastFinite_skip le_rfl, lastFinite_here (Or.inr le_rfl)]
  intro j h1 h2
  obtain ⟨k, rfl⟩ : ∃ k, j = front.length + (k + 1) := ⟨j - front.length - 1, by omega⟩
  have hk : k < bad.length := by omega
  rw [List.append_assoc, valueAt_append]
  simp only [valueAt, List.getD_eq_getElem?_getD, List.cons_append, List.getElem?_cons_succ, List.getElem?_append_left hk,
    List.getElem?_eq_getElem hk, Option.getD_some]
  exact hbad _ (List.getElem_mem hk)

/-- A finite value in front of `bad`: the end comes down to that one. -/
theorem lastFinite_swap (front before suf bad : List (Option ℚ)) (x y : Option ℚ) (hy : y.isSome = true)
    (hbad : ∀ z ∈ bad, z.isSome = false) :
    lastFinite (front ++ x :: (before ++ y :: bad) ++ suf) front.length
      (front.length + (before ++ y :: bad).length) = front.length + (before.length + 1) := by
  have e : front.length + (before ++ y :: bad).length = front.length + (before.length + 1) + bad.length := by
    simp
    omega
  have hread : ∀ j, valueAt (front ++ x :: (before ++ y :: bad) ++ suf) (front.length + (before.length + 1) + j) =
      valueAt (y :: bad ++ suf) j := by
    intro j
    have := valueAt_append (front ++ x :: before) (y :: bad ++ suf) j
    simpa [Nat.add_assoc] using this
  rw [e, lastFinite_skip (by omega), lastFinite_here]
  · left
    have := hread 0
    simp only [Nat.add_zero] at this
    rw [this]
    simpa [valueAt] using hy
  · intro j h1 h2
    obtain ⟨k, rfl⟩ : ∃ k, j = front.length + (before.length + 1) + (k + 1) :=
      ⟨j - (front.length + (before.length + 1)) - 1, by omega⟩
    have hk : k < bad.length := by omega
    rw [hread]
    simp only [valueAt, List.getD_eq_getElem?_getD, List.cons_append, List.getElem?_cons_succ, List.getElem?_append_left hk,
      List.getElem?_eq_getElem hk, Option.getD_some]
    exact hbad _ (List.getElem_mem hk)

/-- The loop over a vector whose front is done, whose window is still to be scanned and
    whose back has been given up. -/
theorem deNaNLoop_eq (window front back : List (Option ℚ)) (v_end : ℕ) (h : v_end + 1 = front.length + window.length) :
    (deNaNLoop (front ++ window ++ back) front.length v_end).1.take
      ((deNaNLoop (front ++ window ++ back) front.length v_end).2 + 1) = front ++ prune Option.isSome window := by
  induction window using prune_induction (p := Option.isSome) generalizing front back v_end with
  | nil =>
    simp only [List.length_nil, Nat.add_zero] at h
    rw [deNaNLoop, if_neg (by omega), prune_nil]
    simp [h]
  | good x xs hx ih =>
    have hread : valueAt (front ++ x :: xs ++ back) front.length = x := by simp [valueAt]
    simp only [List.length_cons] at h
    rw [deNaNLoop, if_pos (by omega), hread, if_pos hx, prune_good hx]
    have := ih (front ++ [x]) back v_end (by simp; omega)
    simpa using this
  | swap x xs before y hx hpop ih =>
    obtain ⟨hy, bad, rfl, hbad⟩ := popGood_some hpop
    have hread : valueAt (front ++ x :: (before ++ y :: bad) ++ back) front.length = x := by simp [valueAt]
    have hend : v_end = front.length + (before ++ y :: bad).length := by
      simp only [List.length_cons] at h
      omega
    have hlast := lastFinite_swap front before back bad x y hy hbad
    have hmoved : valueAt (front ++ x :: (before ++ y :: bad) ++ back) (front.length + (before.length + 1)) = y := by
      have := valueAt_append (front ++ x :: before) (y :: bad ++ back) 0
      simp only [List.append_assoc, List.cons_append, List.length_append, List.length_cons, Nat.add_zero] at this ⊢
      exact this
    rw [deNaNLoop, if_pos (by omega), hread, if_neg (by simp [hx]), hend, hlast]
    simp only
    rw [if_neg (by omega), hmoved, prune_swap hx hpop]
    have := ih (front ++ [y]) (y :: bad ++ back) (front.length + (before.length + 1) - 1) (by simp; omega)
    simpa using this
  | stop x xs hx hpop =>
    have hbad := popGood_none hpop
    have hread : valueAt (front ++ x :: xs ++ back) front.length = x := by simp [valueAt]
    have hend : v_end = front.length + xs.length := by
      simp only [List.length_cons] at h
      omega
    rw [deNaNLoop, if_pos (by omega), hread, if_neg (by simp [hx]), hend, lastFinite_stop front back xs x hbad]
    simp only
    rw [if_pos le_rfl, prune_stop hx hpop]
    simp [List.take_append, List.take_of_length_le]

theorem deNaN_eq (v : List (Option ℚ)) : deNaN v = prune Option.isSome v := by
  cases v with
  | nil => simp [deNaN, prune_nil]
  | cons x xs =>
    have := deNaNLoop_eq (x :: xs) [] [] ((x :: xs).length - 1) (by simp)
    simpa [deNaN] using this

/-! ## What is left -/

/-- The finite values are all there, whatever else is. -/
theorem deNaN_finite (v : List (Option ℚ)) : ((deNaN v).filter Option.isSome).Perm (v.filter Option.isSome) := by
  rw [deNaN_eq]
  exact prune_filter v

/-- `deNaN` leaves the finite values of `v`, in some order, and nothing else. -/
def Pruned (v : List (Option ℚ)) : Prop := (deNaN v : Multiset (Option ℚ)) = (v.filter Option.isSome : List (Option ℚ))

/-- The value behind as many values as are finite is finite, or there is none. -/
def FiniteAtCount (v : List (Option ℚ)) : Prop := ∀ x ∈ v[v.countP Option.isSome]?, x.isSome = true

instance (v : List (Option ℚ)) : Decidable (FiniteAtCount v) := by
  unfold FiniteAtCount
  infer_instance

theorem deNaN_perm_iff (v : List (Option ℚ)) : Pruned v ↔ FiniteAtCount v := by
  rw [Pruned, Multiset.coe_eq_coe, deNaN_eq]
  exact prune_perm_iff v

theorem exists_map_some {l : List (Option ℚ)} (h : ∀ x ∈ l, x.isSome = true) : ∃ w : List ℚ, l = w.map some := by
  induction l with
  | nil => exact ⟨[], rfl⟩
  | cons x l ih =>
    obtain ⟨q, rfl⟩ := Option.isSome_iff_exists.mp (h x (by simp))
    obtain ⟨w, rfl⟩ := ih fun y hy => h y (by simp [hy])
    exact ⟨q :: w, rfl⟩

/-- What is left then is numbers, as many as there were. -/
theorem deNaN_numbers {v : List (Option ℚ)} (h : FiniteAtCount v) :
    ∃ w : List ℚ, deNaN v = w.map some ∧ w.length = v.countP Option.isSome ∧ ∀ x ∈ w, some x ∈ v := by
  have hperm : (deNaN v).Perm (v.filter Option.isSome) := Multiset.coe_eq_coe.mp ((deNaN_perm_iff v).mpr h)
  have hmem : ∀ x ∈ deNaN v, x ∈ v ∧ x.isSome = true := fun x hx => List.mem_filter.mp (hperm.mem_iff.mp hx)
  obtain ⟨w, hw⟩ := exists_map_some fun x hx => (hmem x hx).2
  refine ⟨w, hw, ?_, ?_⟩
  · rw [← List.length_map (f := some), ← hw, hperm.length_eq, List.countP_eq_length_filter]
  · intro x hx
    exact (hmem (some x) (hw ▸ List.mem_map_of_mem hx)).1

/-- Otherwise a NaN is left. -/
theorem deNaN_nan {v : List (Option ℚ)} (h : ¬ FiniteAtCount v) : none ∈ deNaN v := by
  by_contra hnone
  have hall : ∀ x ∈ deNaN v, x.isSome = true := by
    intro x hx
    cases x with
    | none => exact absurd hx hnone
    | some q => rfl
  refine h ((deNaN_perm_iff v).mp (Multiset.coe_eq_coe.mpr ?_))
  have hkeep : (deNaN v).filter Option.isSome = deNaN v := List.filter_eq_self.mpr hall
  exact hkeep ▸ deNaN_finite v

theorem nan_behind_a_number : deNaN [some 1, none] = [some 1, none] ∧ ¬ Pruned [some 1, none] := by
  have h : deNaN [some 1, none] = [some 1, none] := by simp [deNaN, deNaNLoop, lastFinite, valueAt]
  refine ⟨h, ?_⟩
  rw [Pruned, h]
  decide

end FitsWebQL
