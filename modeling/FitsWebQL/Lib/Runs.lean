/-
  FitsWebQL.Lib.Runs — runs of a state machine, an event at a time. An event is not
  always possible; a run in which one is not, is none.
-/

import Mathlib

namespace FitsWebQL.Lib.Runs

variable {σ ε : Type*} (step : σ → ε → Option σ)

def run : σ → List ε → Option σ
  | s, [] => some s
  | s, e :: es => (step s e).bind fun s' => run s' es

def Each (P : σ → ε → Prop) : σ → List ε → Prop
  | _, [] => True
  | s, e :: es => P s e ∧ ∀ s', step s e = some s' → Each P s' es

variable {step}

instance instDecidableEach (P : σ → ε → Prop) [∀ s e, Decidable (P s e)] :
    ∀ (s : σ) (es : List ε), Decidable (Each step P s es)
  | _, [] => isTrue trivial
  | s, e :: es =>
    match h : step s e with
    | none => decidable_of_iff (P s e) ⟨fun hp => ⟨hp, fun _ hs => by rw [h] at hs; cases hs⟩, fun hp => hp.1⟩
    | some s' =>
      haveI := instDecidableEach P s' es
      decidable_of_iff (P s e ∧ Each step P s' es)
        ⟨fun hp => ⟨hp.1, fun _ hs => by rw [h] at hs; cases hs; exact hp.2⟩, fun hp => ⟨hp.1, hp.2 s' h⟩⟩

theorem each_of_forall {P : ε → Prop} {es : List ε} (hp : ∀ e ∈ es, P e) (s : σ) : Each step (fun _ e => P e) s es := by
  induction es generalizing s with
  | nil => trivial
  | cons e es ih =>
    obtain ⟨he, hes⟩ := List.forall_mem_cons.mp hp
    exact ⟨he, fun s' _ => ih hes s'⟩

/-- What every event keeps, where `P` holds of it, a run keeps. -/
theorem run_invariant {P : σ → ε → Prop} (I : σ → Prop) (hstep : ∀ s e s', I s → P s e → step s e = some s' → I s')
    (es : List ε) {s s' : σ} (hs : I s) (hp : Each step P s es) (h : run step s es = some s') : I s' := by
  induction es generalizing s with
  | nil =>
    cases h
    exact hs
  | cons e es ih =>
    obtain ⟨he, hes⟩ := hp
    obtain ⟨s1, h1, h2⟩ := Option.bind_eq_some_iff.mp h
    exact ih (hstep s e s1 hs he h1) (hes s1 h1) h2

/-- What every event keeps, a run keeps. -/
theorem run_keeps (I : σ → Prop) (hstep : ∀ s e s', I s → step s e = some s' → I s') (es : List ε) {s s' : σ} (hs : I s)
    (h : run step s es = some s') : I s' := by
  induction es generalizing s with
  | nil =>
    cases h
    exact hs
  | cons e es ih =>
    obtain ⟨s1, h1, h2⟩ := Option.bind_eq_some_iff.mp h
    exact ih (hstep s e s1 hs h1) h2

end FitsWebQL.Lib.Runs
