/-
  FitsWebQL.Lib.Scatter — loops that write to an array through computed indices:
  `dst[idx] = op(dst[idx], v)` for each pair `(idx, v)` of a list of writes, in order.

  Proved: an adding loop leaves at each index what was there plus the values written
  there (`scatter_add`), a loop storing a constant leaves that constant where it wrote
  and the rest as it was (`scatter_const`); two storing loops that make the same writes,
  no index twice with different values, leave the same array in whatever order they make
  them (`store_congr`).
-/

import Mathlib

namespace FitsWebQL.Lib.Scatter

variable {α β γ : Type*} [DecidableEq α]

def scatter (op : β → γ → β) : List (α × γ) → (α → β) → α → β
  | [], dst => dst
  | w :: ws, dst => scatter op ws fun a => if a = w.1 then op (dst a) w.2 else dst a

theorem scatter_append (op : β → γ → β) (ws ws' : List (α × γ)) (dst : α → β) :
    scatter op (ws ++ ws') dst = scatter op ws' (scatter op ws dst) := by
  induction ws generalizing dst with
  | nil => rfl
  | cons w ws ih => exact ih _

def hits (a : α) (ws : List (α × γ)) : ℕ := (ws.map fun w => if a = w.1 then 1 else 0).sum

def added [AddCommMonoid γ] (a : α) (ws : List (α × γ)) : γ := (ws.map fun w => if a = w.1 then w.2 else 0).sum

theorem hits_cons (a : α) (w : α × γ) (ws : List (α × γ)) : hits a (w :: ws) = (if a = w.1 then 1 else 0) + hits a ws := rfl

theorem added_cons [AddCommMonoid γ] (a : α) (w : α × γ) (ws : List (α × γ)) :
    added a (w :: ws) = (if a = w.1 then w.2 else 0) + added a ws := rfl

theorem scatter_add [AddCommMonoid γ] (ws : List (α × γ)) (dst : α → γ) (a : α) :
    scatter (fun x v => x + v) ws dst a = dst a + added a ws := by
  induction ws generalizing dst with
  | nil => exact (add_zero (dst a)).symm
  | cons w ws ih =>
    rw [scatter, ih, added_cons]
    by_cases h : a = w.1
    · rw [if_pos h, if_pos h, add_assoc]
    · rw [if_neg h, if_neg h, zero_add]

theorem scatter_const (c : β) (ws : List (α × γ)) (dst : α → β) (a : α) :
    scatter (fun _ _ => c) ws dst a = if 0 < hits a ws then c else dst a := by
  induction ws generalizing dst with
  | nil => rfl
  | cons w ws ih =>
    rw [scatter, ih, hits_cons]
    by_cases h : a = w.1
    · rw [if_pos h, if_pos h, ite_self, if_pos (by omega)]
    · rw [if_neg h, if_neg h, Nat.zero_add]

theorem added_append [AddCommMonoid γ] (a : α) (ws ws' : List (α × γ)) : added a (ws ++ ws') = added a ws + added a ws' := by
  simp [added]

theorem hits_append (a : α) (ws ws' : List (α × γ)) : hits a (ws ++ ws') = hits a ws + hits a ws' := by
  simp [hits]

theorem added_flatMap [AddCommMonoid γ] {ι : Type*} (a : α) (l : List ι) (f : ι → List (α × γ)) :
    added a (l.flatMap f) = (l.map fun i => added a (f i)).sum := by
  induction l with
  | nil => rfl
  | cons i l ih => rw [List.flatMap_cons, added_append, ih, List.map_cons, List.sum_cons]

theorem hits_flatMap {ι : Type*} (a : α) (l : List ι) (f : ι → List (α × γ)) :
    hits a (l.flatMap f) = (l.map fun i => hits a (f i)).sum := by
  induction l with
  | nil => rfl
  | cons i l ih => rw [List.flatMap_cons, hits_append, ih, List.map_cons, List.sum_cons]

/-- A sum over the writes a loop makes, as a sum over the loop. -/
theorem sum_filterMap {ι M : Type*} [AddCommMonoid M] (l : List ι) (g : ι → Option γ) (f : γ → M) :
    ((l.filterMap g).map f).sum = (l.map fun i => ((g i).map f).getD 0).sum := by
  induction l with
  | nil => rfl
  | cons i l ih =>
    cases h : g i with
    | none => simp [h, ih]
    | some v => simp [h, ih]

/-! ## Storing -/

/-- `dst[idx] = v` for every write. -/
def store (ws : List (α × γ)) (dst : α → γ) : α → γ := scatter (fun _ v => v) ws dst

theorem store_notMem (ws : List (α × γ)) (dst : α → γ) (a : α) (h : ∀ w ∈ ws, w.1 ≠ a) : store ws dst a = dst a := by
  unfold store
  induction ws generalizing dst with
  | nil => rfl
  | cons w ws ih =>
    rw [scatter, ih _ fun w' hw' => h w' (List.mem_cons_of_mem _ hw')]
    exact if_neg (Ne.symm (h w List.mem_cons_self))

/-- Every write to `a` stores `v`, and there is one. -/
theorem store_mem (ws : List (α × γ)) (dst : α → γ) (a : α) (v : γ) (hmem : (a, v) ∈ ws)
    (hall : ∀ w ∈ ws, w.1 = a → w.2 = v) : store ws dst a = v := by
  induction ws generalizing dst with
  | nil => cases hmem
  | cons w ws ih =>
    have htail : ∀ w' ∈ ws, w'.1 = a → w'.2 = v := fun w' hw' => hall w' (List.mem_cons_of_mem _ hw')
    by_cases hlater : ∃ w' ∈ ws, w'.1 = a
    · obtain ⟨w', hw', rfl⟩ := hlater
      have hv := htail w' hw' rfl
      subst hv
      exact ih _ hw' htail
    · have hlast : store (w :: ws) dst a = if a = w.1 then w.2 else dst a :=
        store_notMem ws _ a fun w' hw' e => hlater ⟨w', hw', e⟩
      rcases List.mem_cons.mp hmem with rfl | hin
      · rw [hlast, if_pos rfl]
      · exact absurd ⟨_, hin, rfl⟩ hlater

theorem store_congr {ws ws' : List (α × γ)} (hsame : ∀ w, w ∈ ws ↔ w ∈ ws')
    (hfun : ∀ w ∈ ws, ∀ w' ∈ ws, w.1 = w'.1 → w.2 = w'.2) (dst : α → γ) : store ws dst = store ws' dst := by
  funext a
  by_cases h : ∃ w ∈ ws, w.1 = a
  · obtain ⟨w, hw, rfl⟩ := h
    rw [store_mem ws dst w.1 w.2 hw fun w' hw' e => hfun w' hw' w hw e,
      store_mem ws' dst w.1 w.2 ((hsame w).mp hw) fun w' hw' e => hfun w' ((hsame w').mpr hw') w hw e]
  · rw [store_notMem ws dst a fun w hw e => h ⟨w, hw, e⟩,
      store_notMem ws' dst a fun w hw e => h ⟨w, (hsame w).mpr hw, e⟩]

theorem store_apply_congr (ws : List (α × γ)) {dst dst' : α → γ} {a : α} (h : dst a = dst' a) : store ws dst a = store ws dst' a := by
  unfold store
  induction ws generalizing dst dst' with
  | nil => exact h
  | cons w ws ih =>
    refine ih ?_
    dsimp only
    rw [h]

/-- Nothing but `v` is stored where `v` is. -/
theorem store_same (ws : List (α × γ)) (dst : α → γ) {a : α} {v : γ} (hdst : dst a = v) (hall : ∀ w ∈ ws, w.1 = a → w.2 = v) :
    store ws dst a = v := by
  by_cases h : ∃ w ∈ ws, w.1 = a
  · obtain ⟨w, hw, he⟩ := h
    have hv := hall w hw he
    subst he hv
    exact store_mem ws dst w.1 w.2 hw hall
  · rw [store_notMem ws dst a fun w hw he => h ⟨w, hw, he⟩]
    exact hdst

/-- One store for each of a list, no two to the same place. -/
theorem hits_map {ι : Type*} {f : ι → α} {v : ι → γ} {l : List ι} (hl : l.Nodup)
    (hinj : ∀ x ∈ l, ∀ y ∈ l, f x = f y → x = y) (a : α) :
    hits a (l.map fun x => (f x, v x)) = if ∃ x ∈ l, a = f x then 1 else 0 := by
  induction l with
  | nil => simp [hits]
  | cons y l ih =>
    obtain ⟨hy, hl⟩ := List.nodup_cons.mp hl
    rw [List.map_cons, hits_cons, ih hl fun x hx z hz => hinj x (List.mem_cons_of_mem y hx) z (List.mem_cons_of_mem y hz)]
    by_cases hhere : a = f y
    · have hother : ¬ ∃ x ∈ l, a = f x := by
        rintro ⟨x, hx, he⟩
        exact hy (hinj y List.mem_cons_self x (List.mem_cons_of_mem y hx) (hhere.symm.trans he) ▸ hx)
      rw [if_pos hhere, if_neg hother, if_pos ⟨y, List.mem_cons_self, hhere⟩]
    · rw [if_neg hhere, Nat.zero_add]
      simp only [List.mem_cons, exists_eq_or_imp, hhere, false_or]

theorem store_append (ws ws' : List (α × γ)) (dst : α → γ) : store (ws ++ ws') dst = store ws' (store ws dst) :=
  scatter_append _ ws ws' dst

end FitsWebQL.Lib.Scatter
