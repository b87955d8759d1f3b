/-
  FitsWebQL.Lib.Paths — a path as the moves it makes from a directory: stay where one is,
  one up, or down into a name. A directory is the names down to it from the root, and above
  the root is the root.

  `climb` is what a path comes to wherever it starts: how many directories it goes up, and
  the names it then goes down. A walk that never climbs stays under its start
  (`climb_eq_zero_iff`); one that climbs comes back under it exactly when it goes down by the
  names it climbed over (`under_walk_iff`).
-/

import Mathlib

namespace FitsWebQL.Lib.Paths

variable {α : Type}

inductive Move (α : Type)
  | stay
  | up
  | down (name : α)
  deriving DecidableEq

def step (dir : List α) : Move α → List α
  | .stay => dir
  | .up => dir.dropLast
  | .down name => dir ++ [name]

def walk (dir : List α) (moves : List (Move α)) : List α := moves.foldl step dir

def climbStep : ℕ × List α → Move α → ℕ × List α
  | s, .stay => s
  | (n, []), .up => (n + 1, [])
  | (n, name :: names), .up => (n, (name :: names).dropLast)
  | (n, names), .down name => (n, names ++ [name])

/-- Up, and then down. -/
def climb (moves : List (Move α)) : ℕ × List α := moves.foldl climbStep (0, [])

def Move.isUp : Move α → Bool
  | .stay => false
  | .up => true
  | .down _ => false

def Move.isDown : Move α → Bool
  | .stay => false
  | .up => false
  | .down _ => true

def NeverAbove (moves : List (Move α)) : Prop := ∀ part, part <+: moves → part.countP Move.isUp ≤ part.countP Move.isDown

theorem climb_snoc (moves : List (Move α)) (m : Move α) : climb (moves ++ [m]) = climbStep (climb moves) m := by
  simp [climb, List.foldl_append]

theorem step_climbStep (dir : List α) (s : ℕ × List α) (m : Move α) :
    step (dir.take (dir.length - s.1) ++ s.2) m =
      dir.take (dir.length - (climbStep s m).1) ++ (climbStep s m).2 := by
  obtain ⟨n, names⟩ := s
  cases m with
  | stay => rfl
  | down name => simp [step, climbStep, List.append_assoc]
  | up =>
    cases names with
    | nil =>
      simp only [step, climbStep, List.append_nil, List.dropLast_eq_take, List.take_take, List.length_take]
      congr 1
      omega
    | cons name names =>
      simp only [step, climbStep]
      rw [List.dropLast_append_of_ne_nil (by simp)]

theorem walk_climb (dir : List α) (moves : List (Move α)) :
    walk dir moves = dir.take (dir.length - (climb moves).1) ++ (climb moves).2 := by
  induction moves using List.reverseRecOn with
  | nil => simp [walk, climb]
  | append_singleton moves m ih =>
    rw [climb_snoc, ← step_climbStep, ← ih]
    simp [walk, List.foldl_append]

theorem under_walk_iff {dir : List α} {moves : List (Move α)} :
    dir <+: walk dir moves ↔ dir.drop (dir.length - (climb moves).1) <+: (climb moves).2 := by
  rw [walk_climb]
  nth_rewrite 1 [← List.take_append_drop (dir.length - (climb moves).1) dir]
  exact List.prefix_append_right_inj _

/-- A path goes down as often as it goes up, but for where it ends. -/
theorem climb_balance (moves : List (Move α)) :
    (climb moves).1 + moves.countP Move.isDown = moves.countP Move.isUp + (climb moves).2.length := by
  induction moves using List.reverseRecOn with
  | nil => simp [climb]
  | append_singleton moves m ih =>
    rw [climb_snoc, List.countP_append, List.countP_append]
    rcases hclimb : climb moves with ⟨n, names⟩
    rw [hclimb] at ih
    dsimp only at ih
    cases m with
    | stay => simpa [climbStep, Move.isUp, Move.isDown] using ih
    | down name =>
      simp [climbStep, Move.isUp, Move.isDown]
      omega
    | up =>
      cases names with
      | nil =>
        simp [climbStep, Move.isUp, Move.isDown]
        simp at ih
        omega
      | cons name names =>
        simp [climbStep, Move.isUp, Move.isDown]
        simp at ih
        omega

theorem neverAbove_snoc {moves : List (Move α)} {m : Move α} :
    NeverAbove (moves ++ [m]) ↔
      NeverAbove moves ∧ (moves ++ [m]).countP Move.isUp ≤ (moves ++ [m]).countP Move.isDown := by
  unfold NeverAbove
  constructor
  · intro h
    exact ⟨fun part hpart => h part (hpart.trans (List.prefix_append _ _)), h _ List.prefix_rfl⟩
  · rintro ⟨h, hall⟩ part hpart
    rcases List.prefix_concat_iff.mp hpart with rfl | hpart
    · exact hall
    · exact h part hpart

theorem climb_eq_zero_iff {moves : List (Move α)} : (climb moves).1 = 0 ↔ NeverAbove moves := by
  induction moves using List.reverseRecOn with
  | nil => simp [climb, NeverAbove]
  | append_singleton moves m ih =>
    have hbalance := climb_balance moves
    rw [neverAbove_snoc, ← ih, climb_snoc, List.countP_append, List.countP_append]
    rcases hclimb : climb moves with ⟨n, names⟩
    rw [hclimb] at hbalance
    dsimp only at hbalance
    cases m with
    | stay =>
      simp [climbStep, Move.isUp, Move.isDown]
      omega
    | down name =>
      simp [climbStep, Move.isUp, Move.isDown]
      omega
    | up =>
      cases names with
      | nil =>
        simp [climbStep, Move.isUp, Move.isDown]
        simp at hbalance
        omega
      | cons name names =>
        simp [climbStep, Move.isUp, Move.isDown]
        simp at hbalance
        omega

theorem under_walk_of_neverAbove {moves : List (Move α)} (h : NeverAbove moves) (dir : List α) : dir <+: walk dir moves := by
  rw [under_walk_iff, climb_eq_zero_iff.mpr h]
  simp

end FitsWebQL.Lib.Paths
