/-
  FitsWebQL.Lib.Loops — `while` loops, run for at most a number of turns (`none`: it is still
  running after them).

  Proved: a loop ends after the turn that first makes its guard false (`exists_endsAfter`), and
  with more turns than that it gives what its body makes of the state by then (`whileLoop_eq`).
-/

import Mathlib.Logic.Function.Iterate
import Mathlib.Data.Nat.Find
import Mathlib.Tactic.Common

namespace FitsWebQL.Lib.Loops

variable {σ : Type*}

def whileLoop (guard : σ → Prop) [DecidablePred guard] (body : σ → σ) : ℕ → σ → Option σ
  | 0, _ => none
  | turns + 1, s => if guard s then whileLoop guard body turns (body s) else some s

variable {guard : σ → Prop} [DecidablePred guard] {body : σ → σ}

theorem whileLoop_done {s : σ} (h : ¬ guard s) (turns : ℕ) : whileLoop guard body (turns + 1) s = some s := if_neg h

theorem whileLoop_turn {s : σ} (h : guard s) (turns : ℕ) :
    whileLoop guard body (turns + 1) s = whileLoop guard body turns (body s) := if_pos h

structure EndsAfter (guard : σ → Prop) (body : σ → σ) (s : σ) (n : ℕ) : Prop where
  before : ∀ k < n, guard (body^[k] s)
  after : ¬ guard (body^[n] s)

theorem whileLoop_eq {n turns : ℕ} {s : σ} (h : EndsAfter guard body s n) (hturns : n < turns) :
    whileLoop guard body turns s = some (body^[n] s) := by
  induction n generalizing s turns with
  | zero =>
    obtain ⟨turns, rfl⟩ := Nat.exists_eq_succ_of_ne_zero (Nat.ne_zero_of_lt hturns)
    exact whileLoop_done h.after turns
  | succ n ih =>
    obtain ⟨turns, rfl⟩ := Nat.exists_eq_succ_of_ne_zero (Nat.ne_zero_of_lt hturns)
    have hfirst : guard s := h.before 0 (Nat.succ_pos n)
    have hrest : EndsAfter guard body (body s) n :=
      ⟨fun k hk => h.before (k + 1) (Nat.succ_lt_succ hk), h.after⟩
    rw [whileLoop_turn hfirst]
    exact ih hrest (Nat.lt_of_succ_lt_succ hturns)

/-- A guard that fails at some turn fails first at one. -/
theorem exists_endsAfter {s : σ} (h : ∃ n, ¬ guard (body^[n] s)) : ∃ n, EndsAfter guard body s n :=
  ⟨Nat.find h, fun _ hk => not_not.mp (Nat.find_min h hk), Nat.find_spec h⟩

end FitsWebQL.Lib.Loops
