/-
  FitsWebQL.Lib.Members — a record kept as named members. One list of names says what is
  written, another what is taken up: a member is put where its name stands, by the value
  it has and the one there was.

  When no name stands twice among those taken up and no field twice among those written,
  a record is restored field by field (`restore_save`).
-/

import Mathlib

namespace FitsWebQL.Lib.Members

variable {κ ι J : Type*} [DecidableEq κ] [DecidableEq ι] {V : ι → Type*}

/-- How a field's value is written, and what a member makes of a field. -/
structure Coding (V : ι → Type*) (J : Type*) where
  write : (i : ι) → V i → J
  read : (i : ι) → J → V i → V i

namespace Coding

variable (c : Coding V J)

def save (names : List (κ × ι)) (s : (i : ι) → V i) : List (κ × J) := names.map fun n => (n.1, c.write n.2 (s n.2))

/-- A member is compared with every name. -/
def takeUp (names : List (κ × ι)) (s : (i : ι) → V i) (m : κ × J) : (i : ι) → V i :=
  names.foldl (fun s n => if m.1 = n.1 then Function.update s n.2 (c.read n.2 m.2 (s n.2)) else s) s

def restore (names : List (κ × ι)) (members : List (κ × J)) (s : (i : ι) → V i) : (i : ι) → V i :=
  members.foldl (c.takeUp names) s

variable {c}

theorem takeUp_of_notMem {names : List (κ × ι)} {k : κ} (h : k ∉ names.map Prod.fst) (j : J) (s : (i : ι) → V i) :
    c.takeUp names s (k, j) = s := by
  induction names with
  | nil => rfl
  | cons n names ih =>
    rw [List.map_cons, List.mem_cons, not_or] at h
    show c.takeUp names (if k = n.1 then _ else s) (k, j) = s
    rw [if_neg h.1]
    exact ih h.2

theorem takeUp_of_mem {names : List (κ × ι)} (hkeys : (names.map Prod.fst).Nodup) {n : κ × ι} (hn : n ∈ names) (j : J)
    (s : (i : ι) → V i) : c.takeUp names s (n.1, j) = Function.update s n.2 (c.read n.2 j (s n.2)) := by
  induction names generalizing s with
  | nil => cases hn
  | cons n' names ih =>
    rw [List.map_cons, List.nodup_cons] at hkeys
    show c.takeUp names (if n.1 = n'.1 then _ else s) (n.1, j) = _
    rcases List.mem_cons.mp hn with rfl | hn
    · rw [if_pos rfl]
      exact takeUp_of_notMem hkeys.1 _ _
    · have hne : n.1 ≠ n'.1 := fun h => hkeys.1 (h ▸ List.mem_map_of_mem hn)
      rw [if_neg hne]
      exact ih hkeys.2 hn s

/-- A field without a member keeps its value. -/
theorem restore_save_of_notMem {written names : List (κ × ι)} (hkeys : (names.map Prod.fst).Nodup) (hsub : written ⊆ names)
    {i : ι} (hi : i ∉ written.map Prod.snd) (s d : (i : ι) → V i) : c.restore names (c.save written s) d i = d i := by
  induction written generalizing d with
  | nil => rfl
  | cons n written ih =>
    rw [List.map_cons, List.mem_cons, not_or] at hi
    rw [List.cons_subset] at hsub
    show c.restore names (c.save written s) (c.takeUp names d (n.1, _)) i = d i
    rw [takeUp_of_mem hkeys hsub.1, ih hsub.2 hi.2]
    exact Function.update_of_ne hi.1 _ _

theorem restore_save {written names : List (κ × ι)} (hkeys : (names.map Prod.fst).Nodup) (hsub : written ⊆ names)
    (hfields : (written.map Prod.snd).Nodup) {i : ι} (hi : i ∈ written.map Prod.snd) (s d : (i : ι) → V i) :
    c.restore names (c.save written s) d i = c.read i (c.write i (s i)) (d i) := by
  induction written generalizing d with
  | nil => cases hi
  | cons n written ih =>
    rw [List.map_cons, List.nodup_cons] at hfields
    rw [List.map_cons, List.mem_cons] at hi
    rw [List.cons_subset] at hsub
    show c.restore names (c.save written s) (c.takeUp names d (n.1, _)) i = _
    rw [takeUp_of_mem hkeys hsub.1]
    rcases hi with rfl | hi
    · rw [restore_save_of_notMem hkeys hsub.2 hfields.1]
      exact Function.update_self _ _ _
    · have hne : i ≠ n.2 := fun h => hfields.1 (h ▸ hi)
      rw [ih hsub.2 hfields.2 hi, Function.update_of_ne hne]

end Coding

end FitsWebQL.Lib.Members
