/-
  FitsWebQL.Lib.Search — loops that look for the first place where a test holds, and the test
  may read outside (`none`): `List.findM?` in `Option`. After the place is found nothing more
  is read.

  Proved: an upward loop finds the least place and a downward one the greatest (`findM_up`,
  `findM_down`); a loop that finds nothing has tried every place (`findM_miss`), the one
  outside too (`findM_fault`).
-/

import Mathlib

namespace FitsWebQL.Lib.Search

variable {ι : Type} {test : ι → Option Bool} {before rest : List ι}

theorem findM_cons (i : ι) (l : List ι) :
    (i :: l).findM? test = (test i).bind fun hit => if hit then some (some i) else l.findM? test := by
  rw [List.findM?]
  cases test i with
  | none => rfl
  | some hit => cases hit <;> rfl

theorem findM_miss (h : ∀ j ∈ before, test j = some false) : (before ++ rest).findM? test = rest.findM? test := by
  induction before with
  | nil => rfl
  | cons j before ih =>
    rw [List.cons_append, findM_cons, h j List.mem_cons_self]
    exact ih fun k hk => h k (List.mem_cons_of_mem j hk)

theorem findM_hit (h : ∀ j ∈ before, test j = some false) {i : ι} (hi : test i = some true) :
    (before ++ i :: rest).findM? test = some (some i) := by
  rw [findM_miss h, findM_cons, hi]
  rfl

theorem findM_fault (h : ∀ j ∈ before, test j = some false) {i : ι} (hi : test i = none) :
    (before ++ i :: rest).findM? test = none := by
  rw [findM_miss h, findM_cons, hi]
  rfl

theorem findM_none {l : List ι} (h : ∀ j ∈ l, test j = some false) : l.findM? test = some none := by
  rw [← List.append_nil l, findM_miss h]
  rfl

/-- Whether there is one. -/
theorem findM_any {l : List ι} {p : ι → Bool} (h : ∀ j ∈ l, test j = some (p j)) : (l.findM? test).map Option.isSome = some (l.any p) := by
  induction l with
  | nil => rfl
  | cons j l ih =>
    rw [findM_cons, h j List.mem_cons_self, List.any_cons]
    cases hj : p j with
    | true => rfl
    | false => exact ih fun k hk => h k (List.mem_cons_of_mem j hk)

/-- A test that never reads outside. -/
theorem find_of_findM {l : List ι} {p : ι → Bool} {r : Option ι} (h : l.findM? (fun j => some (p j)) = some r) : l.find? p = r := by
  have hpure : l.findM? (fun j => some (p j)) = some (l.find? p) := List.findM?_pure p l
  exact Option.some.inj (hpure.symm.trans h)

/-! ## Counting up and down -/

variable {test : ℕ → Option Bool} {i n : ℕ}

theorem range_split (hi : i < n) : List.range n = List.range i ++ i :: List.range' (i + 1) (n - (i + 1)) := by
  obtain ⟨k, rfl⟩ := Nat.exists_eq_add_of_lt hi
  rw [show i + k + 1 - (i + 1) = k by omega, ← List.range'_succ, List.range_eq_range', List.range_eq_range',
    show i + k + 1 = i + (k + 1) by omega, ← List.range'_append_1, Nat.zero_add]

theorem findM_up (hi : i < n) (hhit : test i = some true) (hmiss : ∀ j < i, test j = some false) :
    (List.range n).findM? test = some (some i) := by
  rw [range_split hi]
  exact findM_hit (fun j hj => hmiss j (List.mem_range.mp hj)) hhit

theorem findM_down (hi : i < n) (hhit : test i = some true) (hmiss : ∀ j, i < j → j < n → test j = some false) (rest : List ℕ) :
    ((List.range n).reverse ++ rest).findM? test = some (some i) := by
  have hsplit : (List.range n).reverse ++ rest = (List.range' (i + 1) (n - (i + 1))).reverse ++ i :: ((List.range i).reverse ++ rest) := by
    rw [range_split hi]
    simp
  rw [hsplit]
  refine findM_hit (fun j hj => ?_) hhit
  rw [List.mem_reverse, List.mem_range'_1] at hj
  exact hmiss j (by omega) (by omega)

end FitsWebQL.Lib.Search
