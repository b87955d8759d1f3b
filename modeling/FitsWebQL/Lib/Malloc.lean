/-
  FitsWebQL.Lib.Malloc — memory as an allocator hands it out, or does not (`Allocator`): it
  holds something, and nothing is known of what. A program fills it from the front (`memcpy`,
  `read`) and looks at as much of it as it means to use (`view`).

  Memory that was filled whole shows what it was filled with (`view_overwrite`).
-/

import Mathlib

namespace FitsWebQL.Lib.Malloc

/-- The numbers of elements, of `size` bytes each, that a call is given memory for: not for
    none, and not for more than an address space has. -/
structure Allocator (size : ℕ) where
  gives : ℕ → Bool
  nothing : gives 0 = false
  addressable : ∀ {n}, gives n = true → size * n < 2 ^ 63

def Allocator.plenty (size : ℕ) : Allocator size where
  gives n := decide (0 < n ∧ size * n < 2 ^ 63)
  nothing := rfl
  addressable h := (of_decide_eq_true h).2

abbrev Memory (α : Type*) := ℕ → α

variable {α : Type*}

def overwrite (m : Memory α) (src : List α) : Memory α := fun i => src[i]?.getD (m i)

def view (m : Memory α) (n : ℕ) : List α := (List.range n).map m

@[simp] theorem view_length (m : Memory α) (n : ℕ) : (view m n).length = n := by
  unfold view
  rw [List.length_map, List.length_range]

theorem overwrite_lt (m : Memory α) {src : List α} {i : ℕ} (h : i < src.length) : overwrite m src i = src[i] := by
  unfold overwrite
  rw [List.getElem?_eq_getElem h, Option.getD_some]

/-- Memory filled whole shows what it was filled with. -/
theorem view_overwrite (m : Memory α) {src : List α} {n : ℕ} (h : src.length = n) : view (overwrite m src) n = src := by
  unfold view
  apply List.ext_getElem
  · rw [List.length_map, List.length_range, h]
  · intro i _ hi
    rw [List.getElem_map, List.getElem_range]
    exact overwrite_lt m hi

theorem view_eq_iff {m m' : Memory α} {n : ℕ} : view m n = view m' n ↔ ∀ i < n, m i = m' i := by
  unfold view
  rw [List.map_inj_left]
  simp only [List.mem_range]

end FitsWebQL.Lib.Malloc
