/-
  FitsWebQL.Lib.Siblings — the neighbours of an element in a list without duplicates, as a
  doubly linked list stores them: what becomes of them when an element is put at one of the
  ends or taken out. All of it is said for a list that is split at the element.
-/

import Mathlib

namespace FitsWebQL.Lib.Siblings

variable {α : Type*} [DecidableEq α]

def before (l : List α) (x : α) : Option α := (l.takeWhile (· ≠ x)).getLast?

def behind (l : List α) (x : α) : Option α := (l.dropWhile (· ≠ x)).tail.head?

variable {as bs l : List α} {x y : α}

theorem takeWhile_split (h : x ∉ as) : (as ++ x :: bs).takeWhile (· ≠ x) = as := by
  rw [List.takeWhile_append_of_pos]
  · simp
  · intro a ha
    simp only [ne_eq, decide_eq_true_eq]
    exact fun he => h (he ▸ ha)

theorem dropWhile_split (h : x ∉ as) : (as ++ x :: bs).dropWhile (· ≠ x) = x :: bs := by
  rw [List.dropWhile_append_of_pos]
  · simp
  · intro a ha
    simp only [ne_eq, decide_eq_true_eq]
    exact fun he => h (he ▸ ha)

theorem before_split (h : x ∉ as) : before (as ++ x :: bs) x = as.getLast? := by rw [before, takeWhile_split h]

theorem behind_split (h : x ∉ as) : behind (as ++ x :: bs) x = bs.head? := by rw [behind, dropWhile_split h, List.tail_cons]

omit [DecidableEq α] in
/-- A list without duplicates, split at one of its elements. -/
theorem exists_split (hl : l.Nodup) (hx : x ∈ l) : ∃ as bs, l = as ++ x :: bs ∧ x ∉ as ∧ x ∉ bs ∧ (as ++ bs).Nodup := by
  obtain ⟨as, bs, rfl⟩ := List.append_of_mem hx
  have hnodup := List.nodup_middle.mp hl
  have hnotMem := (List.nodup_cons.mp hnodup).1
  rw [List.mem_append, not_or] at hnotMem
  exact ⟨as, bs, rfl, hnotMem.1, hnotMem.2, (List.nodup_cons.mp hnodup).2⟩

/-! ## At an end -/

theorem before_snoc (hx : x ∈ l) : before (l ++ [y]) x = before l x := by
  obtain ⟨as, bs, rfl, has⟩ := List.eq_append_cons_of_mem hx
  rw [List.append_assoc, List.cons_append, before_split has, before_split has]

theorem behind_snoc (hl : l.Nodup) (hx : x ∈ l) : behind (l ++ [y]) x = if l.getLast? = some x then some y else behind l x := by
  obtain ⟨as, bs, rfl, has, hbs, -⟩ := exists_split hl hx
  rw [List.append_assoc, List.cons_append, behind_split has, behind_split has, List.getLast?_append]
  cases bs with
  | nil => simp
  | cons b bs =>
    have hlast : ¬ (b :: bs).getLast? = some x := fun he => hbs (List.mem_of_getLast? he)
    rw [List.getLast?_cons_cons, if_neg (by
      rw [List.getLast?_eq_getLast_of_ne_nil (List.cons_ne_nil b bs)] at hlast ⊢
      exact hlast)]
    rfl

theorem before_snoc_self (h : y ∉ l) : before (l ++ [y]) y = l.getLast? := before_split h

theorem behind_snoc_self (h : y ∉ l) : behind (l ++ [y]) y = none := behind_split h

theorem behind_cons (hx : x ≠ y) : behind (y :: l) x = behind l x := by
  rw [behind, List.dropWhile_cons_of_pos (by simpa using hx.symm), behind]

theorem before_cons (hx : x ∈ l) (hne : x ≠ y) (hl : l.Nodup) :
    before (y :: l) x = if l.head? = some x then some y else before l x := by
  obtain ⟨as, bs, rfl, has, -, -⟩ := exists_split hl hx
  have has' : x ∉ y :: as := by simp [hne, has]
  rw [← List.cons_append, before_split has', before_split has]
  cases as with
  | nil => simp
  | cons a as =>
    have hhead : ¬ a = x := fun he => has (he ▸ List.mem_cons_self)
    simp [List.getLast?_cons, hhead]

theorem before_cons_self : before (y :: l) y = none := before_split (List.not_mem_nil : y ∉ ([] : List α))

theorem behind_cons_self : behind (y :: l) y = l.head? := behind_split (List.not_mem_nil : y ∉ ([] : List α))

/-! ## Taken out -/

theorem erase_split (h : x ∉ as) : (as ++ x :: bs).erase x = as ++ bs := by rw [List.erase_append_right _ h, List.erase_cons_head]

theorem before_erase (hl : l.Nodup) (hx : x ∈ l) (hy : y ∈ l) (hne : y ≠ x) :
    before (l.erase x) y = if behind l x = some y then before l x else before l y := by
  obtain ⟨as, bs, rfl, has, hbs, hnodup⟩ := exists_split hl hx
  rw [erase_split has, behind_split has, before_split has]
  rcases List.mem_append.mp hy with hy | hy
  · -- the same is before it
    have hnotMem : y ∉ bs := fun hb => List.disjoint_of_nodup_append hnodup hy hb
    have hhead : ¬ bs.head? = some y := fun he => hnotMem (List.mem_of_mem_head? he)
    rw [if_neg hhead]
    obtain ⟨cs, ds, rfl, hcs⟩ := List.eq_append_cons_of_mem hy
    rw [List.append_assoc, List.append_assoc, List.cons_append, List.cons_append, before_split hcs, before_split hcs]
  · have hy : y ∈ bs := (List.mem_cons.mp hy).resolve_left hne
    have hnotMem : y ∉ as := fun ha => List.disjoint_of_nodup_append hnodup ha hy
    obtain ⟨cs, ds, rfl, hcs⟩ := List.eq_append_cons_of_mem hy
    have hleft : y ∉ as ++ cs := by simp [hnotMem, hcs]
    have hright : y ∉ as ++ x :: cs := by simp [hnotMem, hcs, hne]
    rw [← List.append_assoc, ← List.cons_append, ← List.append_assoc as, before_split hleft, before_split hright]
    cases cs with
    | nil => simp
    | cons c cs =>
      have hhead : ¬ c = y := fun he => hcs (he ▸ List.mem_cons_self)
      simp [List.getLast?_append, List.getLast?_cons, hhead]

theorem behind_erase (hl : l.Nodup) (hx : x ∈ l) (hy : y ∈ l) (hne : y ≠ x) :
    behind (l.erase x) y = if before l x = some y then behind l x else behind l y := by
  obtain ⟨as, bs, rfl, has, hbs, hnodup⟩ := exists_split hl hx
  rw [erase_split has, behind_split has, before_split has]
  rcases List.mem_append.mp hy with hy | hy
  · obtain ⟨cs, ds, rfl, hcs, hds, -⟩ := exists_split (List.Nodup.of_append_left hnodup) hy
    rw [List.append_assoc, List.append_assoc, List.cons_append, List.cons_append, behind_split hcs, behind_split hcs]
    cases ds with
    | nil => simp
    | cons d ds =>
      have hlast : ¬ (d :: ds).getLast? = some y := fun he => hds (List.mem_of_getLast? he)
      rw [List.getLast?_append, List.getLast?_cons_cons] at *
      simp_all
  · have hy : y ∈ bs := (List.mem_cons.mp hy).resolve_left hne
    have hnotMem : y ∉ as := fun ha => List.disjoint_of_nodup_append hnodup ha hy
    rw [if_neg fun he => hnotMem (List.mem_of_getLast? he)]
    obtain ⟨cs, ds, rfl, hcs⟩ := List.eq_append_cons_of_mem hy
    have hleft : y ∉ as ++ cs := by simp [hnotMem, hcs]
    have hright : y ∉ as ++ x :: cs := by simp [hnotMem, hcs, hne]
    rw [← List.append_assoc, ← List.cons_append, ← List.append_assoc as, behind_split hleft, behind_split hright]

theorem head?_erase (hl : l.Nodup) (hx : x ∈ l) : (l.erase x).head? = if before l x = none then behind l x else l.head? := by
  obtain ⟨as, bs, rfl, has, -, -⟩ := exists_split hl hx
  rw [erase_split has, behind_split has, before_split has]
  cases as with
  | nil => simp
  | cons a as => simp [List.getLast?_cons]

theorem getLast?_erase (hl : l.Nodup) (hx : x ∈ l) : (l.erase x).getLast? = if behind l x = none then before l x else l.getLast? := by
  obtain ⟨as, bs, rfl, has, -, -⟩ := exists_split hl hx
  rw [erase_split has, behind_split has, before_split has]
  cases bs with
  | nil => simp
  | cons b bs => simp [List.getLast?_append, List.getLast?_cons]

theorem mem_of_before (h : before l x = some y) : y ∈ l := by
  rw [before] at h
  exact (List.takeWhile_sublist _).subset (List.mem_of_getLast? h)

theorem mem_of_behind (h : behind l x = some y) : y ∈ l := by
  rw [behind] at h
  exact (List.dropWhile_sublist _).subset (List.mem_of_mem_tail (List.mem_of_mem_head? h))

theorem ne_of_before (hl : l.Nodup) (hx : x ∈ l) (h : before l x = some y) : y ≠ x := by
  obtain ⟨as, bs, rfl, has, -, -⟩ := exists_split hl hx
  rw [before_split has] at h
  exact fun he => has (he ▸ List.mem_of_getLast? h)

theorem ne_of_behind (hl : l.Nodup) (hx : x ∈ l) (h : behind l x = some y) : y ≠ x := by
  obtain ⟨as, bs, rfl, has, hbs, -⟩ := exists_split hl hx
  rw [behind_split has] at h
  exact fun he => hbs (he ▸ List.mem_of_mem_head? h)

end FitsWebQL.Lib.Siblings
