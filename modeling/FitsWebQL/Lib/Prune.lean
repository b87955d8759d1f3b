/-
  FitsWebQL.Lib.Prune — taking the elements that fail a test out of a list by moving
  good ones forward from the end. The walk keeps a good element; a bad one gives its place
  to the last good element behind it, and whatever lay behind that one is dropped. A bad
  element with no good one behind it stays, and is then the last (`prune`).

  Proved: no good element is lost and none is made (`prune_filter`); what is left is a
  rearrangement of the good elements exactly when the element at the index that equals
  their number, if the list is that long, is good (`prune_perm_iff`).
-/

import Mathlib

namespace FitsWebQL.Lib.Prune

variable {α : Type*} (p : α → Bool)

def popGood : List α → Option (List α × α)
  | [] => none
  | x :: xs =>
    match popGood xs with
    | some (before, y) => some (x :: before, y)
    | none => if p x then some ([], x) else none

variable {p}

theorem popGood_none {l : List α} (h : popGood p l = none) : ∀ x ∈ l, p x = false := by
  induction l with
  | nil => simp
  | cons x xs ih =>
    cases hx : popGood p xs with
    | some r => simp [popGood, hx] at h
    | none =>
      have hp : p x = false := by simpa [popGood, hx] using h
      simpa [hp] using ih hx

theorem popGood_some {l before : List α} {y : α} (h : popGood p l = some (before, y)) :
    p y = true ∧ ∃ bad, l = before ++ y :: bad ∧ ∀ x ∈ bad, p x = false := by
  induction l generalizing before with
  | nil => simp [popGood] at h
  | cons x xs ih =>
    cases hx : popGood p xs with
    | some r =>
      obtain ⟨b, z⟩ := r
      simp only [popGood, hx, Option.some.injEq, Prod.mk.injEq] at h
      obtain ⟨rfl, rfl⟩ := h
      obtain ⟨hy, bad, rfl, hbad⟩ := ih hx
      exact ⟨hy, bad, rfl, hbad⟩
    | none =>
      simp only [popGood, hx] at h
      split at h
      · cases h
        exact ⟨‹_›, xs, rfl, popGood_none hx⟩
      · cases h

theorem popGood_length {l before : List α} {y : α} (h : popGood p l = some (before, y)) : before.length < l.length := by
  obtain ⟨-, bad, rfl, -⟩ := popGood_some h
  simp

variable (p)

def prune : List α → List α
  | [] => []
  | x :: xs =>
    if p x then x :: prune xs
    else
      match _hpop : popGood p xs with
      | some (before, y) => y :: prune before
      | none => [x]
termination_by l => l.length
decreasing_by
  · simp
  · have := popGood_length _hpop
    simp only [List.length_cons]
    omega

variable {p}

theorem prune_nil : prune p [] = [] := by simp [prune]

theorem prune_good {x : α} (h : p x = true) (xs : List α) : prune p (x :: xs) = x :: prune p xs := by
  rw [prune, if_pos h]

theorem prune_swap {x y : α} {xs before : List α} (h : p x = false) (hpop : popGood p xs = some (before, y)) :
    prune p (x :: xs) = y :: prune p before := by
  rw [prune, if_neg (by simp [h])]
  split
  · rename_i hs
    cases hpop.symm.trans hs
    rfl
  · rename_i hs
    cases hpop.symm.trans hs

theorem prune_stop {x : α} {xs : List α} (h : p x = false) (hpop : popGood p xs = none) : prune p (x :: xs) = [x] := by
  rw [prune, if_neg (by simp [h])]
  split
  · rename_i hs
    cases hpop.symm.trans hs
  · rfl

/-- The cases of the walk, as an induction. -/
theorem prune_induction {motive : List α → Prop} (nil : motive [])
    (good : ∀ x xs, p x = true → motive xs → motive (x :: xs))
    (swap : ∀ x xs before y, p x = false → popGood p xs = some (before, y) → motive before → motive (x :: xs))
    (stop : ∀ x xs, p x = false → popGood p xs = none → motive (x :: xs)) (l : List α) : motive l := by
  induction hn : l.length using Nat.strong_induction_on generalizing l with
  | _ n ih =>
    subst hn
    cases l with
    | nil => exact nil
    | cons x xs =>
      cases hx : p x with
      | true => exact good x xs hx (ih xs.length (by simp) xs rfl)
      | false =>
        cases hpop : popGood p xs with
        | none => exact stop x xs hx hpop
        | some r =>
          have hlen : r.1.length < (x :: xs).length := (popGood_length hpop).trans (by simp)
          exact swap x xs r.1 r.2 hx hpop (ih _ hlen r.1 rfl)

theorem filter_bad {l : List α} (h : ∀ x ∈ l, p x = false) : l.filter p = [] := by
  simpa [List.filter_eq_nil_iff] using h

/-- The good elements of a list whose head is bad and whose last good element is `y`. -/
theorem filter_swap {x y : α} {xs before : List α} (hx : p x = false) (hpop : popGood p xs = some (before, y)) :
    ((x :: xs).filter p).Perm (y :: before.filter p) := by
  obtain ⟨hy, bad, rfl, hbad⟩ := popGood_some hpop
  simp [hx, hy, filter_bad hbad]

theorem prune_filter (l : List α) : ((prune p l).filter p).Perm (l.filter p) := by
  induction l using prune_induction (p := p) with
  | nil => simp [prune_nil]
  | good x xs hx ih => simpa [prune_good hx, hx] using ih
  | swap x xs before y hx hpop ih =>
    rw [prune_swap hx hpop, List.filter_cons_of_pos (popGood_some hpop).1]
    exact (ih.cons y).trans (filter_swap hx hpop).symm
  | stop x xs hx hpop => simp [prune_stop hx hpop, hx, filter_bad (popGood_none hpop)]

/-- The index reached when every good element has been placed. -/
theorem countP_swap {x y : α} {xs before : List α} (hx : p x = false) (hpop : popGood p xs = some (before, y)) :
    (x :: xs).countP p = before.countP p + 1 := by
  rw [List.countP_eq_length_filter, (filter_swap hx hpop).length_eq, List.length_cons, List.countP_eq_length_filter]

theorem prune_perm_iff (l : List α) : (prune p l).Perm (l.filter p) ↔ ∀ x ∈ l[l.countP p]?, p x = true := by
  induction l using prune_induction (p := p) with
  | nil => simp [prune_nil]
  | good x xs hx ih =>
    rw [prune_good hx, List.filter_cons_of_pos hx, List.perm_cons, ih, List.countP_cons_of_pos hx,
      List.getElem?_cons_succ]
  | swap x xs before y hx hpop ih =>
    rw [prune_swap hx hpop, (filter_swap hx hpop).congr_right, List.perm_cons, ih, countP_swap hx hpop,
      List.getElem?_cons_succ]
    obtain ⟨hy, bad, rfl, -⟩ := popGood_some hpop
    rcases Nat.lt_or_eq_of_le (List.countP_le_length (p := p) (l := before)) with h | h
    · rw [List.getElem?_append_left h]
    · simp [h, hy]
  | stop x xs hx hpop =>
    have hcount : (x :: xs).countP p = 0 := by
      rw [List.countP_cons_of_neg (by simp [hx]), List.countP_eq_zero]
      simpa using popGood_none hpop
    rw [prune_stop hx hpop, hcount, List.filter_cons_of_neg (by simp [hx]), filter_bad (popGood_none hpop)]
    simp [hx]

end FitsWebQL.Lib.Prune
