/-
  FitsWebQL.Lib.Params — texts of parameters, `key=value` with separators between, read by
  a table of rules. Each parameter is shown to every rule; one that applies to the key
  reads the value, and gives a change of the state or an error that ends everything.

  `keep` goes on where `run` gives an error. `run_eq_keep_iff`: they come to the same
  exactly when no rule that applies gives one.
-/

import Mathlib.Tactic.Common

namespace FitsWebQL.Lib.Params

variable {α ε σ : Type}

def param [DecidableEq α] (eq : α) (s : List α) : Option (List α × List α) :=
  if eq ∈ s then some (s.takeWhile (· ≠ eq), (s.dropWhile (· ≠ eq)).drop 1) else none

def params [DecidableEq α] (separator eq : α) (text : List α) : List (List α × List α) :=
  (text.splitOn separator).filterMap (param eq)

structure Rule (α ε σ : Type) where
  applies : List α → Bool
  read : List α → Except ε (σ → σ)

def Rule.take (p : List α × List α) (s : σ) (r : Rule α ε σ) : Except ε σ :=
  if r.applies p.1 then (r.read p.2).map fun change => change s else .ok s

def Rule.keep (p : List α × List α) (s : σ) (r : Rule α ε σ) : σ :=
  if r.applies p.1 then
    match r.read p.2 with
    | .ok change => change s
    | .error _ => s
  else s

def run (rules : List (Rule α ε σ)) (init : σ) (ps : List (List α × List α)) : Except ε σ :=
  ps.foldlM (fun s p => rules.foldlM (Rule.take p) s) init

def keep (rules : List (Rule α ε σ)) (init : σ) (ps : List (List α × List α)) : σ :=
  ps.foldl (fun s p => rules.foldl (Rule.keep p) s) init

/-- A step that is an error exactly where `P` fails, whatever the state, and `g` else. -/
theorem foldlM_settled {β : Type} {f : σ → β → Except ε σ} {g : σ → β → σ} {P : β → Prop}
    (hok : ∀ s x, P x → f s x = .ok (g s x)) (herr : ∀ s x, ¬ P x → ∃ e, f s x = .error e) (xs : List β) (s : σ) :
    ((∀ x ∈ xs, P x) → xs.foldlM f s = .ok (xs.foldl g s)) ∧ ((¬ ∀ x ∈ xs, P x) → ∃ e, xs.foldlM f s = .error e) := by
  induction xs generalizing s with
  | nil => simp [pure, Except.pure]
  | cons x xs ih =>
    rw [List.foldlM_cons, List.forall_mem_cons]
    by_cases hx : P x
    · rw [hok s x hx]
      simp only [hx, true_and]
      exact ih (g s x)
    · obtain ⟨e, he⟩ := herr s x hx
      rw [he]
      simp only [hx, false_and, not_false_eq_true, false_implies, true_and]
      exact fun _ => ⟨e, rfl⟩

def Rule.Reads (p : List α × List α) (r : Rule α ε σ) : Prop := r.applies p.1 = true → ∃ change, r.read p.2 = .ok change

theorem take_of_reads {p : List α × List α} {r : Rule α ε σ} (h : r.Reads p) (s : σ) : r.take p s = .ok (r.keep p s) := by
  unfold Rule.take Rule.keep
  by_cases happlies : r.applies p.1 = true
  · obtain ⟨change, hread⟩ := h happlies
    simp [happlies, hread, Except.map]
  · simp [happlies]

theorem take_of_not_reads {p : List α × List α} {r : Rule α ε σ} (h : ¬ r.Reads p) (s : σ) : ∃ e, r.take p s = .error e := by
  unfold Rule.Reads at h
  rw [Classical.not_imp] at h
  obtain ⟨happlies, hread⟩ := h
  unfold Rule.take
  cases hvalue : r.read p.2 with
  | ok change => exact absurd ⟨change, hvalue⟩ hread
  | error e => exact ⟨e, by simp [happlies, Except.map]⟩

theorem run_eq_keep_iff {rules : List (Rule α ε σ)} {init : σ} {ps : List (List α × List α)} :
    run rules init ps = .ok (keep rules init ps) ↔ ∀ p ∈ ps, ∀ r ∈ rules, r.Reads p := by
  have hrules : ∀ p s, _ := fun p s => foldlM_settled (f := Rule.take p) (g := Rule.keep p)
    (fun s r hr => take_of_reads hr s) (fun s r hr => take_of_not_reads hr s) rules s
  obtain ⟨hok, herr⟩ := foldlM_settled (f := fun s p => rules.foldlM (Rule.take p) s) (g := fun s p => rules.foldl (Rule.keep p) s)
    (fun s p => (hrules p s).1) (fun s p => (hrules p s).2) ps init
  constructor
  · intro hrun
    by_contra hnot
    obtain ⟨e, he⟩ := herr hnot
    have hrun' : ps.foldlM (fun s p => rules.foldlM (Rule.take p) s) init = .ok (keep rules init ps) := hrun
    rw [he] at hrun'
    cases hrun'
  · exact hok

/-- Steps that do not depend on each other. -/
theorem mapM_eq_map_iff {β γ : Type} {f : β → Except ε γ} {g : β → γ} {xs : List β} :
    xs.mapM f = .ok (xs.map g) ↔ ∀ x ∈ xs, f x = .ok (g x) := by
  induction xs with
  | nil => simp [pure, Except.pure]
  | cons x xs ih =>
    rw [List.mapM_cons, List.map_cons, List.forall_mem_cons, ← ih]
    cases hx : f x with
    | error e => simp [bind, Except.bind]
    | ok y =>
      cases hxs : xs.mapM f with
      | error e => simp [bind, Except.bind]
      | ok ys => simp [bind, Except.bind, pure, Except.pure]

end FitsWebQL.Lib.Params
