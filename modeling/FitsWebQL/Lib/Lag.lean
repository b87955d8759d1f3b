/-
  FitsWebQL.Lib.Lag — a reader of blocks that is handed a stream in pieces and takes at
  most one block at a call, however many there are. What it has taken is then the least,
  over all ways to cut the calls in two, of the whole blocks in the first part and one for
  each call of the second (`le_taken_iff`): it falls behind where a piece holds several
  blocks and catches up at one block a call.
-/

import Mathlib.Data.List.Induction
import Mathlib.Tactic.Common

namespace FitsWebQL.Lib.Lag

variable {α : Type*} (B : ℕ)

def blocks (cs : List (List α)) : ℕ := cs.flatten.length / B

def takenFrom (r n : ℕ) : List (List α) → ℕ
  | [] => r
  | c :: cs => takenFrom (if B * (r + 1) ≤ n + c.length then r + 1 else r) (n + c.length) cs

def taken (cs : List (List α)) : ℕ := takenFrom B 0 0 cs

theorem takenFrom_append (r n : ℕ) (cs ds : List (List α)) :
    takenFrom B r n (cs ++ ds) = takenFrom B (takenFrom B r n cs) (n + cs.flatten.length) ds := by
  induction cs generalizing r n with
  | nil => simp [takenFrom]
  | cons c cs ih => simp only [List.cons_append, takenFrom, ih, List.flatten_cons, List.length_append, Nat.add_assoc]

theorem taken_nil : taken B ([] : List (List α)) = 0 := rfl

theorem taken_snoc (cs : List (List α)) (c : List α) :
    taken B (cs ++ [c]) =
      if B * (taken B cs + 1) ≤ cs.flatten.length + c.length then taken B cs + 1 else taken B cs := by
  unfold taken
  rw [takenFrom_append, Nat.zero_add]
  rfl

theorem taken_le_snoc (cs : List (List α)) (c : List α) : taken B cs ≤ taken B (cs ++ [c]) := by
  rw [taken_snoc]
  split <;> omega

theorem taken_mono (cs ds : List (List α)) : taken B cs ≤ taken B (cs ++ ds) := by
  induction ds using List.reverseRecOn with
  | nil => simp
  | append_singleton ds d ih =>
    rw [← List.append_assoc]
    exact Nat.le_trans ih (taken_le_snoc B _ d)

/-- Every block taken was there. -/
theorem taken_le (cs : List (List α)) : B * taken B cs ≤ cs.flatten.length := by
  induction cs using List.reverseRecOn with
  | nil => simp [taken_nil]
  | append_singleton cs c ih =>
    rw [taken_snoc, List.flatten_append, List.length_append, List.flatten_singleton]
    split
    · assumption
    · omega

variable {B} (hB : 0 < B)
include hB

theorem taken_le_blocks (cs : List (List α)) : taken B cs ≤ blocks B cs := by
  unfold blocks
  rw [Nat.le_div_iff_mul_le hB, Nat.mul_comm]
  exact taken_le B cs

theorem le_taken_snoc_iff (k : ℕ) (cs : List (List α)) (c : List α) :
    k ≤ taken B (cs ++ [c]) ↔ k ≤ taken B cs + 1 ∧ k ≤ blocks B (cs ++ [c]) := by
  have hblocks := taken_le_blocks hB (cs ++ [c])
  have htaken := taken_le_snoc B cs c
  rw [taken_snoc] at *
  constructor
  · intro h
    refine ⟨?_, Nat.le_trans h hblocks⟩
    split at h <;> omega
  · rintro ⟨h1, h2⟩
    split
    · exact h1
    · rename_i hno
      by_contra hlt
      have hk : k = taken B cs + 1 := by
        split at hblocks <;> omega
      unfold blocks at h2
      rw [hk, Nat.le_div_iff_mul_le hB, Nat.mul_comm, List.flatten_append, List.length_append, List.flatten_singleton] at h2
      exact hno h2

/-- What is taken is the least of the splits. -/
theorem le_taken_iff (k : ℕ) (cs : List (List α)) : k ≤ taken B cs ↔ ∀ a b, cs = a ++ b → k ≤ blocks B a + b.length := by
  induction cs using List.reverseRecOn generalizing k with
  | nil =>
    constructor
    · intro h a b _
      rw [taken_nil] at h
      omega
    · intro h
      have hnil := h [] [] rfl
      unfold blocks at hnil
      simp at hnil
      omega
  | append_singleton cs c ih =>
    rw [le_taken_snoc_iff hB]
    constructor
    · rintro ⟨h1, h2⟩ a b hab
      rcases List.eq_nil_or_concat b with rfl | ⟨b, d, rfl⟩
      · rw [List.append_nil] at hab
        subst hab
        exact h2
      · rw [List.concat_eq_append, ← List.append_assoc] at hab
        obtain ⟨hcs, -⟩ := List.append_inj' hab rfl
        have hsplit : k - 1 ≤ blocks B a + b.length := (ih (k - 1)).mp (by omega) a b hcs
        rw [List.concat_eq_append, List.length_append, List.length_singleton]
        omega
    · intro h
      refine ⟨?_, by simpa using h (cs ++ [c]) [] (by simp)⟩
      have hpred : k - 1 ≤ taken B cs := by
        refine (ih (k - 1)).mpr fun a b hab => ?_
        have hsplit := h a (b ++ [c]) (by rw [hab, List.append_assoc])
        rw [List.length_append, List.length_singleton] at hsplit
        omega
      omega

/-- A split that is the least. -/
theorem exists_taken (cs : List (List α)) : ∃ a b, cs = a ++ b ∧ taken B cs = blocks B a + b.length := by
  by_contra hno
  push Not at hno
  have hmore : taken B cs + 1 ≤ taken B cs := by
    refine (le_taken_iff hB _ cs).mpr fun a b hab => ?_
    have hle := (le_taken_iff hB _ cs).mp (Nat.le_refl _) a b hab
    have hne := hno a b hab
    omega
  omega

end FitsWebQL.Lib.Lag
