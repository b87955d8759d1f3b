/-
  FitsWebQL.Lib.OrderedMap — a map kept as a list of entries in the order of their keys, and
  the loop that visits every entry in that order with a state of its own, erasing some and
  changing others (`sweep`).

  Proved: when what becomes of an entry depends on the entry alone, a sweep leaves what
  `filterMap` does (`sweep_fst`), reads after it are reads before it followed by what
  becomes of the entry (`get?_filterMap`), and the state is the visits' in order
  (`sweep_snd`).
-/

import Mathlib

namespace FitsWebQL.Lib

@[ext]
structure OrderedMap (κ β : Type*) [LinearOrder κ] where
  entries : List (κ × β)
  sorted : (entries.map Prod.fst).Pairwise (· < ·)

namespace OrderedMap

variable {κ β γ σ : Type*} [LinearOrder κ]

def get? (m : OrderedMap κ β) (k : κ) : Option β := (m.entries.find? fun p => p.1 = k).map Prod.snd

def keys (m : OrderedMap κ β) : List κ := m.entries.map Prod.fst

/-! ## Keeping some entries -/

def keep (f : κ → β → Option γ) (l : List (κ × β)) : List (κ × γ) := l.filterMap fun p => (f p.1 p.2).map fun c => (p.1, c)

omit [LinearOrder κ] in
theorem keep_keys (f : κ → β → Option γ) (l : List (κ × β)) : ((keep f l).map Prod.fst).Sublist (l.map Prod.fst) := by
  induction l with
  | nil => exact List.Sublist.slnil
  | cons p l ih =>
    cases h : f p.1 p.2 with
    | none => simpa [keep, h] using ih.cons p.1
    | some c => simpa [keep, h] using ih.cons_cons p.1

def filterMap (m : OrderedMap κ β) (f : κ → β → Option γ) : OrderedMap κ γ where
  entries := keep f m.entries
  sorted := m.sorted.sublist (keep_keys f m.entries)

theorem find?_keep {f : κ → β → Option γ} {l : List (κ × β)} (h : (l.map Prod.fst).Nodup) (k : κ) :
    ((keep f l).find? fun p => p.1 = k).map Prod.snd = ((l.find? fun p => p.1 = k).map Prod.snd).bind (f k) := by
  induction l with
  | nil => rfl
  | cons p l ih =>
    rw [List.map_cons, List.nodup_cons] at h
    have hrest := ih h.2
    by_cases hk : p.1 = k
    · subst hk
      have hgone : (keep f l).find? (fun q => q.1 = p.1) = none := by
        rw [List.find?_eq_none]
        intro q hq he
        exact h.1 ((keep_keys f l).subset (List.mem_map.mpr ⟨q, hq, by simpa using he⟩))
      cases hf : f p.1 p.2 with
      | none =>
        have : keep f (p :: l) = keep f l := by simp [keep, hf]
        simp [this, hgone, hf]
      | some c =>
        have : keep f (p :: l) = (p.1, c) :: keep f l := by simp [keep, hf]
        simp [this, hf]
    · have hskip : ((keep f (p :: l)).find? fun q => q.1 = k) = (keep f l).find? fun q => q.1 = k := by
        cases hf : f p.1 p.2 <;> simp [keep, hf, hk]
      rw [hskip, List.find?_cons_of_neg (by simp [hk])]
      exact hrest

@[simp] theorem get?_filterMap (m : OrderedMap κ β) (f : κ → β → Option γ) (k : κ) :
    (m.filterMap f).get? k = (m.get? k).bind (f k) :=
  find?_keep (m.sorted.imp ne_of_lt) k

/-- Where every entry is kept, the keys are. -/
theorem keys_filterMap_some (m : OrderedMap κ β) (f : κ → β → γ) : (m.filterMap fun k b => some (f k b)).keys = m.keys := by
  have h : ∀ l : List (κ × β), (keep (fun k b => some (f k b)) l).map Prod.fst = l.map Prod.fst := by
    intro l
    simp [keep]
  exact h m.entries

/-! ## Visiting every entry -/

/-- `visit` gives the state after an entry, and the entry's new value or `none` to erase it. -/
def sweepList (visit : σ → κ → β → σ × Option γ) : List (κ × β) → σ → List (κ × γ) × σ
  | [], s => ([], s)
  | p :: rest, s =>
    let r := visit s p.1 p.2
    let swept := sweepList visit rest r.1
    match r.2 with
    | none => swept
    | some c => ((p.1, c) :: swept.1, swept.2)

omit [LinearOrder κ] in
theorem sweepList_keys (visit : σ → κ → β → σ × Option γ) (l : List (κ × β)) (s : σ) :
    ((sweepList visit l s).1.map Prod.fst).Sublist (l.map Prod.fst) := by
  induction l generalizing s with
  | nil => exact List.Sublist.slnil
  | cons p l ih =>
    have h := ih (visit s p.1 p.2).1
    cases hv : (visit s p.1 p.2).2 with
    | none => simpa [sweepList, hv] using h.cons p.1
    | some c => simpa [sweepList, hv] using h.cons_cons p.1

def sweep (m : OrderedMap κ β) (visit : σ → κ → β → σ × Option γ) (s : σ) : OrderedMap κ γ × σ :=
  (⟨(sweepList visit m.entries s).1, m.sorted.sublist (sweepList_keys visit m.entries s)⟩, (sweepList visit m.entries s).2)

theorem sweep_fst {visit : σ → κ → β → σ × Option γ} {f : κ → β → Option γ} (h : ∀ s k b, (visit s k b).2 = f k b)
    (m : OrderedMap κ β) (s : σ) : (m.sweep visit s).1 = m.filterMap f := by
  have hlist : ∀ (l : List (κ × β)) (s : σ), (sweepList visit l s).1 = keep f l := by
    intro l
    induction l with
    | nil => exact fun s => rfl
    | cons p l ih =>
      intro s
      have hp := h s p.1 p.2
      cases hf : f p.1 p.2 with
      | none =>
        rw [hf] at hp
        simp [sweepList, keep, hp, hf] at ih ⊢
        exact ih _
      | some c =>
        rw [hf] at hp
        simp [sweepList, keep, hp, hf] at ih ⊢
        exact ih _
  exact OrderedMap.ext (hlist m.entries s)

theorem sweep_snd (visit : σ → κ → β → σ × Option γ) (m : OrderedMap κ β) (s : σ) :
    (m.sweep visit s).2 = m.entries.foldl (fun s p => (visit s p.1 p.2).1) s := by
  have hlist : ∀ (l : List (κ × β)) (s : σ), (sweepList visit l s).2 = l.foldl (fun s p => (visit s p.1 p.2).1) s := by
    intro l
    induction l with
    | nil => exact fun s => rfl
    | cons p l ih =>
      intro s
      rw [List.foldl_cons, ← ih]
      cases hv : (visit s p.1 p.2).2 <;> simp [sweepList, hv]
  exact hlist m.entries s

end OrderedMap

end FitsWebQL.Lib
