/-
  FitsWebQL.Lib.Tasks — any number of tasks, each at a point of its code. A task goes from
  one point to another; how many tasks are at a kind of point changes by that task only
  (`countP_goto`).
-/

import Mathlib

namespace FitsWebQL.Lib.Tasks

variable {π : Type*}

def goto (tasks : List π) (i : ℕ) (p : π) : List π := tasks.set i p

def one (kind : π → Bool) (p : π) : ℕ := if kind p then 1 else 0

theorem one_le (kind : π → Bool) (p : π) : one kind p ≤ 1 := by
  unfold one
  split
  · exact le_refl 1
  · exact Nat.zero_le 1

theorem countP_cons_one (kind : π → Bool) (p : π) (tasks : List π) : (p :: tasks).countP kind = tasks.countP kind + one kind p := by
  rw [List.countP_cons]
  rfl

theorem countP_snoc (kind : π → Bool) (tasks : List π) (p : π) : (tasks ++ [p]).countP kind = tasks.countP kind + one kind p := by
  rw [List.countP_append, countP_cons_one, List.countP_nil, Nat.zero_add]

theorem countP_goto {tasks : List π} {i : ℕ} {p : π} (h : tasks[i]? = some p) (kind : π → Bool) (p' : π) :
    (goto tasks i p').countP kind + one kind p = tasks.countP kind + one kind p' := by
  induction tasks generalizing i with
  | nil => cases h
  | cons q tasks ih =>
    cases i with
    | zero =>
      cases h
      show (p' :: tasks).countP kind + _ = _
      rw [countP_cons_one, countP_cons_one]
      omega
    | succ i =>
      have hrest := ih h
      show (q :: goto tasks i p').countP kind + _ = _
      rw [countP_cons_one, countP_cons_one]
      omega

theorem mem_goto {tasks : List π} {i : ℕ} {p q : π} (h : q ∈ goto tasks i p) : q ∈ tasks ∨ q = p :=
  List.mem_or_eq_of_mem_set h

end FitsWebQL.Lib.Tasks
