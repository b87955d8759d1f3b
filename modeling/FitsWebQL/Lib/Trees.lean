/-
  FitsWebQL.Lib.Trees — trees whose nodes are names: what stands at a node, its parent and
  its children in order. A node is put under another, taken out with its tree, or dropped
  with all that is under it. `Wf` says that parents and children agree and that no node is
  under itself; the operations keep it.
-/

import Mathlib

namespace FitsWebQL.Lib.Trees

open Relation

structure Forest (α L : Type*) where
  label : α → Option L
  parent : α → Option α
  kids : α → List α

namespace Forest

variable {α L : Type*} {f : Forest α L} {p q x y z : α}

@[ext]
theorem ext {f g : Forest α L} (hlabel : ∀ x, f.label x = g.label x) (hparent : ∀ x, f.parent x = g.parent x)
    (hkids : ∀ x, f.kids x = g.kids x) : f = g := by
  cases f
  cases g
  simp only [mk.injEq]
  exact ⟨funext hlabel, funext hparent, funext hkids⟩

/-- `y` is `x`, or in the tree under it. -/
def Under (f : Forest α L) : α → α → Prop := ReflTransGen fun p x => x ∈ f.kids p

structure Wf (f : Forest α L) : Prop where
  mem_kids : ∀ {p x}, x ∈ f.kids p ↔ f.parent x = some p
  nodup : ∀ p, (f.kids p).Nodup
  live : ∀ {p x}, f.parent x = some p → f.label x ≠ none ∧ f.label p ≠ none
  acyclic : ∀ {p x}, x ∈ f.kids p → ¬ f.Under x p

def empty : Forest α L := ⟨fun _ => none, fun _ => none, fun _ => []⟩

theorem wf_empty : (empty : Forest α L).Wf where
  mem_kids := by simp [empty]
  nodup _ := List.nodup_nil
  live := by simp [empty]
  acyclic := by simp [empty]

/-! ## Under a node -/

theorem under_iff : f.Under x y ↔ y = x ∨ ∃ c ∈ f.kids x, f.Under c y := by
  rw [Under, ReflTransGen.cases_head_iff]
  exact or_congr eq_comm Iff.rfl

@[simp]
theorem under_refl (x : α) : f.Under x x := ReflTransGen.refl

theorem under_of_mem (h : x ∈ f.kids p) : f.Under p x := ReflTransGen.single h

theorem Under.trans (h1 : f.Under x y) (h2 : f.Under y z) : f.Under x z := ReflTransGen.trans h1 h2

/-- Of two nodes above a third, one is above the other. -/
theorem Wf.under_total (h : f.Wf) (hx : f.Under x z) (hy : f.Under y z) : f.Under x y ∨ f.Under y x := by
  induction hx with
  | refl => exact Or.inr hy
  | tail hb hc ih =>
    rcases ReflTransGen.cases_tail hy with rfl | ⟨b, hyb, hbz⟩
    · exact Or.inl (ReflTransGen.tail hb hc)
    · -- it has one parent
      have hsame := Option.some.inj ((h.mem_kids.mp hbz).symm.trans (h.mem_kids.mp hc))
      subst hsame
      exact ih hyb

theorem Wf.sibling_eq (h : f.Wf) (hx : x ∈ f.kids p) (hy : y ∈ f.kids p) (hxy : f.Under x y) : x = y := by
  rcases ReflTransGen.cases_tail hxy with rfl | ⟨b, hxb, hb⟩
  · rfl
  · have hsame := Option.some.inj ((h.mem_kids.mp hb).symm.trans (h.mem_kids.mp hy))
    subst hsame
    exact absurd hxb (h.acyclic hx)

theorem Wf.siblings_apart (h : f.Wf) (hx : x ∈ f.kids p) (hy : y ∈ f.kids p) (hne : x ≠ y) (hxz : f.Under x z) : ¬ f.Under y z := by
  intro hyz
  rcases h.under_total hxz hyz with hxy | hyx
  · exact hne (h.sibling_eq hx hy hxy)
  · exact hne (h.sibling_eq hy hx hyx).symm

theorem Wf.under_live (h : f.Wf) (hx : f.label x ≠ none) (hxy : f.Under x y) : f.label y ≠ none := by
  rcases ReflTransGen.cases_tail hxy with rfl | ⟨b, -, hb⟩
  · exact hx
  · exact (h.live (h.mem_kids.mp hb)).1

/-- The nodes under `x` are closed under children. -/
theorem under_closed (hy : f.Under x y) : ∀ z ∈ f.kids y, f.Under x z := fun _ hz => ReflTransGen.tail hy hz

/-! ## Labels -/

section Operations

variable [DecidableEq α]

def setLabel (f : Forest α L) (x : α) (l : L) : Forest α L := { f with label := Function.update f.label x (some l) }

theorem wf_setLabel (h : f.Wf) (x : α) (l : L) : (f.setLabel x l).Wf where
  mem_kids := h.mem_kids
  nodup := h.nodup
  acyclic := h.acyclic
  live hp := by
    have hlive : ∀ y, f.label y ≠ none → (f.setLabel x l).label y ≠ none := by
      intro y hy
      simp only [setLabel, Function.update_apply]
      split
      · exact Option.some_ne_none l
      · exact hy
    exact ⟨hlive _ (h.live hp).1, hlive _ (h.live hp).2⟩

/-! ## Put under a node -/

/-- `x` is put under `p`, whose children are then `l`. -/
def link (f : Forest α L) (p x : α) (l : List α) : Forest α L :=
  { f with parent := Function.update f.parent x (some p), kids := Function.update f.kids p l }

theorem link_mem {l : List α} (hl : l.Perm (x :: f.kids p)) : y ∈ (f.link p x l).kids q ↔ y ∈ f.kids q ∨ (q = p ∧ y = x) := by
  simp only [link, Function.update_apply]
  split
  · rename_i hq
    subst hq
    rw [hl.mem_iff, List.mem_cons]
    tauto
  · rename_i hq
    simp [hq]

theorem under_link {l : List α} (hl : l.Perm (x :: f.kids p)) (h : (f.link p x l).Under y z) :
    f.Under y z ∨ (f.Under y p ∧ f.Under x z) := by
  induction h with
  | refl => exact Or.inl ReflTransGen.refl
  | tail _ hc ih =>
    rcases (link_mem hl).mp hc with hc | ⟨rfl, rfl⟩
    · rcases ih with ih | ⟨ih, ih'⟩
      · exact Or.inl (ReflTransGen.tail ih hc)
      · exact Or.inr ⟨ih, ReflTransGen.tail ih' hc⟩
    · rcases ih with ih | ⟨ih, -⟩
      · exact Or.inr ⟨ih, ReflTransGen.refl⟩
      · exact Or.inr ⟨ih, ReflTransGen.refl⟩

theorem wf_link (h : f.Wf) {l : List α} (hl : l.Perm (x :: f.kids p)) (hroot : f.parent x = none) (hx : f.label x ≠ none)
    (hp : f.label p ≠ none) (hcycle : ¬ f.Under x p) : (f.link p x l).Wf where
  mem_kids {q y} := by
    rw [link_mem hl, h.mem_kids]
    simp only [link, Function.update_apply]
    split
    · rename_i hy
      subst hy
      simp [hroot, eq_comm]
    · rename_i hy
      simp [hy]
  nodup q := by
    simp only [link, Function.update_apply]
    split
    · have hnotMem : x ∉ f.kids p := fun hmem => by rw [h.mem_kids, hroot] at hmem; cases hmem
      exact hl.nodup_iff.mpr (List.nodup_cons.mpr ⟨hnotMem, h.nodup p⟩)
    · exact h.nodup q
  live {q y} hq := by
    simp only [link, Function.update_apply] at hq
    split at hq
    · rename_i hy
      subst hy
      cases hq
      exact ⟨hx, hp⟩
    · exact h.live hq
  acyclic {q y} hy hunder := by
    have hunder := under_link hl hunder
    rcases (link_mem hl).mp hy with hy | ⟨rfl, rfl⟩
    · rcases hunder with hunder | ⟨hyp, hxq⟩
      · exact h.acyclic hy hunder
      · exact hcycle ((hxq.trans (under_of_mem hy)).trans hyp)
    · rcases hunder with hunder | ⟨hunder, -⟩
      · exact hcycle hunder
      · exact hcycle hunder

/-! ## Taken out -/

def detach (f : Forest α L) (x : α) : Forest α L :=
  { f with parent := Function.update f.parent x none, kids := fun p => (f.kids p).erase x }

theorem Wf.detach_mem (h : f.Wf) : y ∈ (f.detach x).kids q ↔ y ≠ x ∧ y ∈ f.kids q := (h.nodup q).mem_erase_iff

theorem under_of_detach (h : (f.detach x).Under y z) : f.Under y z := by
  induction h with
  | refl => exact ReflTransGen.refl
  | tail _ hc ih => exact ReflTransGen.tail ih (List.mem_of_mem_erase hc)

theorem Wf.under_detach (h : f.Wf) : (f.detach x).Under x y ↔ f.Under x y := by
  refine ⟨under_of_detach, fun hy => ?_⟩
  induction hy with
  | refl => exact ReflTransGen.refl
  | tail hb hc ih =>
    refine ReflTransGen.tail ih (h.detach_mem.mpr ⟨?_, hc⟩)
    rintro rfl
    exact h.acyclic hc hb

theorem wf_detach (h : f.Wf) (x : α) : (f.detach x).Wf where
  mem_kids {q y} := by
    rw [h.detach_mem, h.mem_kids]
    simp only [detach, Function.update_apply]
    split <;> simp_all
  nodup q := (h.nodup q).erase x
  live {q y} hq := by
    simp only [detach, Function.update_apply] at hq
    split at hq
    · cases hq
    · exact h.live hq
  acyclic hy hunder := h.acyclic (h.detach_mem.mp hy).2 (under_of_detach hunder)

end Operations

/-! ## Dropped -/

section Drop

open Classical

noncomputable def drop (f : Forest α L) (S : Set α) : Forest α L where
  label x := if x ∈ S then none else f.label x
  parent x := if x ∈ S then none else f.parent x
  kids p := if p ∈ S then [] else (f.kids p).filter (· ∉ S)

variable {S T : Set α}

theorem drop_mem : x ∈ (f.drop S).kids p ↔ p ∉ S ∧ x ∈ f.kids p ∧ x ∉ S := by
  by_cases hp : p ∈ S <;> simp [drop, hp]

theorem under_of_drop (h : (f.drop S).Under x y) : f.Under x y := by
  induction h with
  | refl => exact ReflTransGen.refl
  | tail _ hc ih => exact ReflTransGen.tail ih (drop_mem.mp hc).2.1

/-- Nothing under a node of `S` is left. -/
def Closed (f : Forest α L) (S : Set α) : Prop := ∀ p ∈ S, ∀ x ∈ f.kids p, x ∈ S

theorem closed_under : f.Closed {y | f.Under x y} := fun _ hp y hy => under_closed hp y hy

theorem Closed.under_drop (h : f.Closed S) (hy : y ∉ S) : (f.drop S).Under x y ↔ f.Under x y := by
  refine ⟨under_of_drop, fun hxy => ?_⟩
  induction hxy with
  | refl => exact ReflTransGen.refl
  | tail hb hc ih =>
    have hb' := fun hmem => hy (h _ hmem _ hc)
    exact ReflTransGen.tail (ih hb') (drop_mem.mpr ⟨hb', hc, hy⟩)

theorem wf_drop (h : f.Wf) (hS : f.Closed S) : (f.drop S).Wf where
  mem_kids {p x} := by
    rw [drop_mem, h.mem_kids]
    simp only [drop]
    split
    · rename_i hx
      simp [hx]
    · rename_i hx
      refine ⟨fun hp => hp.2.1, fun hp => ⟨fun hmem => hx (hS p hmem x (h.mem_kids.mpr hp)), hp, hx⟩⟩
  nodup p := by
    simp only [drop]
    split
    · exact List.nodup_nil
    · exact (h.nodup p).filter _
  live {p x} hp := by
    simp only [drop] at hp
    split at hp
    · cases hp
    · rename_i hx
      have hpS : p ∉ S := fun hmem => hx (hS p hmem x (h.mem_kids.mpr hp))
      simp only [drop, if_neg hx, if_neg hpS]
      exact h.live hp
  acyclic hx hunder := h.acyclic (drop_mem.mp hx).2.1 (under_of_drop hunder)

theorem drop_drop : (f.drop S).drop T = f.drop (S ∪ T) := by
  ext1 x
  · by_cases hS : x ∈ S <;> by_cases hT : x ∈ T <;> simp [drop, hS, hT]
  · by_cases hS : x ∈ S <;> by_cases hT : x ∈ T <;> simp [drop, hS, hT]
  · by_cases hS : x ∈ S <;> by_cases hT : x ∈ T <;> simp [drop, hS, hT, List.filter_filter, Bool.and_comm]

theorem drop_empty : f.drop ∅ = f := by
  ext1 x <;> simp [drop]

variable [DecidableEq α]

theorem Wf.drop_detach (h : f.Wf) (hx : x ∈ S) : (f.detach x).drop S = f.drop S := by
  ext1 y
  · rfl
  · by_cases hy : y ∈ S
    · simp [drop, hy]
    · have hne : y ≠ x := fun he => hy (he ▸ hx)
      simp [drop, detach, hy, hne]
  · simp only [drop, detach]
    split
    · rfl
    · rw [(h.nodup y).erase_eq_filter, List.filter_filter]
      refine List.filter_congr fun z _ => ?_
      by_cases hz : z ∈ S
      · simp [hz]
      · have hne : z ≠ x := fun he => hz (he ▸ hx)
        simp [hz, hne]

end Drop

end Forest

end FitsWebQL.Lib.Trees
