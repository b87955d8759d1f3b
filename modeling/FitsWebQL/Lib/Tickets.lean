/-
  FitsWebQL.Lib.Tickets — a counter that is only raised, and tickets that pass while they are
  at its value. What has passed has passed in order (`Moves.ordered`), however often the
  counter is raised between.
-/

import Mathlib

namespace FitsWebQL.Lib.Tickets

variable {α : Type*} [LinearOrder α]

/-- The counter, and the tickets that have passed, the last one first. -/
structure Gate (α : Type*) where
  last : α
  passed : List α

inductive Moves : Gate α → Gate α → Prop
  | stay (g : Gate α) : Moves g g
  | raise (g : Gate α) (a : α) : g.last ≤ a → Moves g ⟨a, g.passed⟩
  | pass (g : Gate α) : Moves g ⟨g.last, g.last :: g.passed⟩

/-- Nothing has passed before something lower, nor above the counter. -/
structure Gate.Ordered (g : Gate α) : Prop where
  passed : g.passed.Pairwise fun a b => b ≤ a
  last : ∀ a ∈ g.passed, a ≤ g.last

theorem ordered_nil (a : α) : (⟨a, []⟩ : Gate α).Ordered := ⟨List.Pairwise.nil, fun _ h => by cases h⟩

theorem Moves.ordered {g g' : Gate α} (h : Moves g g') (hg : g.Ordered) : g'.Ordered := by
  cases h with
  | stay => exact hg
  | raise a ha => exact ⟨hg.passed, fun b hb => (hg.last b hb).trans ha⟩
  | pass =>
    refine ⟨List.pairwise_cons.mpr ⟨hg.last, hg.passed⟩, fun b hb => ?_⟩
    rcases List.mem_cons.mp hb with rfl | hb
    · exact le_refl _
    · exact hg.last b hb

theorem Moves.le {g g' : Gate α} (h : Moves g g') : g.last ≤ g'.last := by
  cases h with
  | stay => exact le_refl _
  | raise a ha => exact ha
  | pass => exact le_refl _

end FitsWebQL.Lib.Tickets
