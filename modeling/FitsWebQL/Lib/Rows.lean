/-
  FitsWebQL.Lib.Rows — images as rows of equal width, one after the other in an array, and
  the loops that turn them upside down: a list of pairs of places, each swapped, or each
  written from the other's.

  Proved: two cells have one place only if they are one (`place_inj`); of pairs that share no
  place each is swapped (`swapAll_pair`, `swapAll_outside`), and each place is written once
  (`hits_writeBoth`); swapped in pairs an image is upside down (`mirror_row`). Threads that
  each have a part of the array of their own may run in any order (`foldl_own`).
-/

import FitsWebQL.Lib.Scatter

namespace FitsWebQL.Lib.Rows

open Scatter

def place (width r c : ℕ) : ℕ := r * width + c

theorem place_div {width c : ℕ} (r : ℕ) (hc : c < width) : place width r c / width = r := by
  unfold place
  rw [Nat.mul_comm, Nat.mul_add_div (by omega), Nat.div_eq_of_lt hc, Nat.add_zero]

theorem place_div_mod (width p : ℕ) : place width (p / width) (p % width) = p := by
  unfold place
  rw [Nat.mul_comm]
  exact Nat.div_add_mod p width

theorem place_inj {width r c r' c' : ℕ} (hc : c < width) (hc' : c' < width) (h : place width r c = place width r' c') :
    r = r' ∧ c = c' := by
  have hrow : r = r' := by
    rw [← place_div r hc, h, place_div r' hc']
  subst hrow
  unfold place at h
  exact ⟨rfl, by omega⟩

theorem place_lt {width height r c : ℕ} (hr : r < height) (hc : c < width) : place width r c < width * height := by
  unfold place
  have hmul : (r + 1) * width ≤ height * width := Nat.mul_le_mul_right width hr
  rw [Nat.succ_mul] at hmul
  rw [Nat.mul_comm width]
  omega

theorem place_add (width s r c : ℕ) : s * width + place width r c = place width (s + r) c := by
  unfold place
  rw [Nat.add_mul, Nat.add_assoc]

/-- Every place is a cell's. -/
theorem exists_place {width height p : ℕ} (h : p < width * height) : ∃ r < height, ∃ c < width, p = place width r c := by
  have hw : 0 < width := Nat.pos_of_ne_zero fun h0 => by simp [h0] at h
  exact ⟨p / width, Nat.div_lt_of_lt_mul h, p % width, Nat.mod_lt p hw, (place_div_mod width p).symm⟩

/-- `foreach (j = 0 ... n, i = 0 ... width)`. -/
def cells (n width : ℕ) : List (ℕ × ℕ) := List.range n ×ˢ List.range width

theorem mem_cells {n width : ℕ} {x : ℕ × ℕ} : x ∈ cells n width ↔ x.1 < n ∧ x.2 < width := by
  unfold cells
  rw [List.mem_product, List.mem_range, List.mem_range]

theorem nodup_cells (n width : ℕ) : (cells n width).Nodup := List.nodup_range.product List.nodup_range

variable {ι α : Type*} {f g : ι → ℕ}

/-! ## Pairs of places -/

structure Apart (f g : ι → ℕ) (l : List ι) : Prop where
  left : ∀ x ∈ l, ∀ y ∈ l, f x = f y → x = y
  right : ∀ x ∈ l, ∀ y ∈ l, g x = g y → x = y
  across : ∀ x ∈ l, ∀ y ∈ l, f x ≠ g y

theorem Apart.tail {x : ι} {l : List ι} (h : Apart f g (x :: l)) : Apart f g l where
  left a ha b hb := h.left a (List.mem_cons_of_mem x ha) b (List.mem_cons_of_mem x hb)
  right a ha b hb := h.right a (List.mem_cons_of_mem x ha) b (List.mem_cons_of_mem x hb)
  across a ha b hb := h.across a (List.mem_cons_of_mem x ha) b (List.mem_cons_of_mem x hb)

/-- `tmp = a[p]; a[p] = a[q]; a[q] = tmp;` -/
def swap (a : ℕ → α) (p q : ℕ) : ℕ → α := fun i => if i = q then a p else if i = p then a q else a i

def swapAll (f g : ι → ℕ) (l : List ι) (a : ℕ → α) : ℕ → α := l.foldl (fun a x => swap a (f x) (g x)) a

theorem swapAll_outside {l : List ι} {i : ℕ} (h : ∀ x ∈ l, f x ≠ i ∧ g x ≠ i) (a : ℕ → α) : swapAll f g l a i = a i := by
  unfold swapAll
  induction l generalizing a with
  | nil => rfl
  | cons x l ih =>
    obtain ⟨hf, hg⟩ := h x List.mem_cons_self
    rw [List.foldl_cons, ih fun y hy => h y (List.mem_cons_of_mem x hy)]
    unfold swap
    rw [if_neg hg.symm, if_neg hf.symm]

theorem swapAll_pair {l : List ι} (hl : l.Nodup) (h : Apart f g l) {x : ι} (hx : x ∈ l) (a : ℕ → α) :
    swapAll f g l a (f x) = a (g x) ∧ swapAll f g l a (g x) = a (f x) := by
  induction l generalizing a with
  | nil => cases hx
  | cons y l ih =>
    obtain ⟨hy, hl⟩ := List.nodup_cons.mp hl
    have hstep : swapAll f g (y :: l) a = swapAll f g l (swap a (f y) (g y)) := rfl
    rw [hstep]
    rcases List.mem_cons.mp hx with rfl | hin
    · -- later pairs leave these two alone
      have hf : ∀ z ∈ l, f z ≠ f x ∧ g z ≠ f x := fun z hz =>
        ⟨fun e => hy (h.left z (List.mem_cons_of_mem x hz) x List.mem_cons_self e ▸ hz),
          fun e => h.across x List.mem_cons_self z (List.mem_cons_of_mem x hz) e.symm⟩
      have hg : ∀ z ∈ l, f z ≠ g x ∧ g z ≠ g x := fun z hz =>
        ⟨h.across z (List.mem_cons_of_mem x hz) x List.mem_cons_self,
          fun e => hy (h.right z (List.mem_cons_of_mem x hz) x List.mem_cons_self e ▸ hz)⟩
      rw [swapAll_outside hf, swapAll_outside hg]
      unfold swap
      rw [if_neg (h.across x List.mem_cons_self x List.mem_cons_self), if_pos rfl, if_pos rfl]
      exact ⟨rfl, rfl⟩
    · have hne : y ≠ x := fun e => hy (e ▸ hin)
      have hfx : f x ≠ g y ∧ f x ≠ f y :=
        ⟨h.across x hx y List.mem_cons_self, fun e => hne (h.left x hx y List.mem_cons_self e).symm⟩
      have hgx : g x ≠ g y ∧ g x ≠ f y :=
        ⟨fun e => hne (h.right x hx y List.mem_cons_self e).symm, (h.across y List.mem_cons_self x hx).symm⟩
      obtain ⟨h1, h2⟩ := ih hl h.tail hin (swap a (f y) (g y))
      rw [h1, h2]
      unfold swap
      rw [if_neg hgx.1, if_neg hgx.2, if_neg hfx.1, if_neg hfx.2]
      exact ⟨rfl, rfl⟩

theorem swapAll_congr {l : List ι} {R : ℕ → Prop} (hR : ∀ x ∈ l, R (f x) ∧ R (g x)) {a b : ℕ → α} (h : ∀ p, R p → a p = b p) :
    ∀ p, R p → swapAll f g l a p = swapAll f g l b p := by
  unfold swapAll
  induction l generalizing a b with
  | nil => exact h
  | cons x l ih =>
    obtain ⟨hf, hg⟩ := hR x List.mem_cons_self
    have hswap : ∀ p, R p → swap a (f x) (g x) p = swap b (f x) (g x) p := by
      intro p hp
      unfold swap
      rw [h _ hf, h _ hg, h p hp]
    exact ih (fun y hy => hR y (List.mem_cons_of_mem x hy)) hswap

def writeBoth (f g : ι → ℕ) (u v : ι → α) (l : List ι) : List (ℕ × α) := l.flatMap fun x => [(f x, u x), (g x, v x)]

theorem hits_writeBoth {u v : ι → α} {l : List ι} (hl : l.Nodup) (h : Apart f g l) (p : ℕ) :
    hits p (writeBoth f g u v l) = if ∃ x ∈ l, p = f x ∨ p = g x then 1 else 0 := by
  unfold writeBoth
  induction l with
  | nil => simp [hits]
  | cons y l ih =>
    obtain ⟨hy, hl⟩ := List.nodup_cons.mp hl
    have hhead : hits p [(f y, u y), (g y, v y)] = if p = f y ∨ p = g y then 1 else 0 := by
      have hfg := h.across y List.mem_cons_self y List.mem_cons_self
      by_cases hf : p = f y
      · simp [hits, hf, hfg]
      · simp [hits, hf]
    have hother : (p = f y ∨ p = g y) → ¬ ∃ x ∈ l, p = f x ∨ p = g x := by
      rintro (rfl | rfl) ⟨x, hx, he | he⟩
      · exact hy (h.left y List.mem_cons_self x (List.mem_cons_of_mem y hx) he ▸ hx)
      · exact h.across y List.mem_cons_self x (List.mem_cons_of_mem y hx) he
      · exact h.across x (List.mem_cons_of_mem y hx) y List.mem_cons_self he.symm
      · exact hy (h.right y List.mem_cons_self x (List.mem_cons_of_mem y hx) he ▸ hx)
    rw [List.flatMap_cons, hits_append, hhead, ih hl h.tail]
    by_cases hhere : p = f y ∨ p = g y
    · rw [if_pos hhere, if_neg (hother hhere), if_pos ⟨y, List.mem_cons_self, hhere⟩]
    · rw [if_neg hhere, Nat.zero_add]
      simp only [List.mem_cons, exists_eq_or_imp, hhere, false_or]

theorem mem_writeBoth {u v : ι → α} {l : List ι} {w : ℕ × α} :
    w ∈ writeBoth f g u v l ↔ ∃ x ∈ l, w = (f x, u x) ∨ w = (g x, v x) := by
  simp [writeBoth]

/-! ## Upside down -/

section Mirror

variable (width height base : ℕ)

/-- The place of a cell in the upper half, and of the one it is exchanged with. -/
def upper (x : ℕ × ℕ) : ℕ := base + place width x.1 x.2

def lower (x : ℕ × ℕ) : ℕ := base + place width (height - 1 - x.1) x.2

def half : List (ℕ × ℕ) := cells (height / 2) width

theorem nodup_half : (half width height).Nodup := nodup_cells (height / 2) width

theorem half_apart : Apart (upper width base) (lower width height base) (half width height) where
  left x hx y hy h := by
    obtain ⟨-, hxc⟩ := mem_cells.mp hx
    obtain ⟨-, hyc⟩ := mem_cells.mp hy
    obtain ⟨h1, h2⟩ := place_inj hxc hyc (Nat.add_left_cancel h)
    exact Prod.ext h1 h2
  right x hx y hy h := by
    obtain ⟨hxr, hxc⟩ := mem_cells.mp hx
    obtain ⟨hyr, hyc⟩ := mem_cells.mp hy
    obtain ⟨h1, h2⟩ := place_inj hxc hyc (Nat.add_left_cancel h)
    exact Prod.ext (by omega) h2
  across x hx y hy h := by
    obtain ⟨hxr, hxc⟩ := mem_cells.mp hx
    obtain ⟨hyr, hyc⟩ := mem_cells.mp hy
    obtain ⟨h1, -⟩ := place_inj hxc hyc (Nat.add_left_cancel h)
    omega

variable {width height}

/-- The cells in a pair: all but the middle row's. -/
theorem exists_half {r c : ℕ} (hc : c < width) :
    (∃ x ∈ half width height, base + place width r c = upper width base x ∨ base + place width r c = lower width height base x) ↔
      r < height ∧ 2 * r + 1 ≠ height := by
  constructor
  · intro h
    rcases h with ⟨x, hx, h | h⟩
    · obtain ⟨hxr, hxc⟩ := mem_cells.mp hx
      obtain ⟨h1, -⟩ := place_inj hc hxc (Nat.add_left_cancel h)
      omega
    · obtain ⟨hxr, hxc⟩ := mem_cells.mp hx
      obtain ⟨h1, -⟩ := place_inj hc hxc (Nat.add_left_cancel h)
      omega
  · intro h
    obtain ⟨hr, hmiddle⟩ := h
    rcases Nat.lt_or_ge r (height / 2) with h | h
    · exact ⟨(r, c), mem_cells.mpr ⟨h, hc⟩, Or.inl rfl⟩
    · refine ⟨(height - 1 - r, c), mem_cells.mpr ⟨by dsimp only; omega, hc⟩, Or.inr ?_⟩
      unfold lower
      rw [show height - 1 - (height - 1 - r) = r by omega]

/-- Both places of a pair are the image's. -/
theorem half_within {x : ℕ × ℕ} (hx : x ∈ half width height) :
    (base ≤ upper width base x ∧ upper width base x < base + width * height) ∧
      base ≤ lower width height base x ∧ lower width height base x < base + width * height := by
  obtain ⟨hxr, hxc⟩ := mem_cells.mp hx
  have hup : place width x.1 x.2 < width * height := place_lt (by omega) hxc
  have hlow : place width (height - 1 - x.1) x.2 < width * height := place_lt (by omega) hxc
  unfold upper lower
  omega

end Mirror

def mirror (width height base : ℕ) (a : ℕ → α) : ℕ → α :=
  swapAll (upper width base) (lower width height base) (half width height) a

theorem mirror_row (width height base : ℕ) (a : ℕ → α) {r c : ℕ} (hr : r < height) (hc : c < width) :
    mirror width height base a (base + place width r c) = a (base + place width (height - 1 - r) c) := by
  have hpair := fun x hx => @swapAll_pair _ α _ _ _ (nodup_half width height) (half_apart width height base) x hx a
  unfold mirror
  rcases Nat.lt_trichotomy (2 * r + 1) height with h | h | h
  · exact (hpair (r, c) (mem_cells.mpr ⟨by dsimp only; omega, hc⟩)).1
  · -- the middle row
    have hr' : height - 1 - r = r := by omega
    rw [hr']
    refine swapAll_outside (fun x hx => ?_) a
    have hnone := mt (@exists_half width height base r c hc).mp (by omega)
    exact ⟨fun e => hnone ⟨x, hx, Or.inl e.symm⟩, fun e => hnone ⟨x, hx, Or.inr e.symm⟩⟩
  · have hlower := (hpair (height - 1 - r, c) (mem_cells.mpr ⟨by dsimp only; omega, hc⟩)).2
    unfold lower upper at hlower
    dsimp only at hlower
    rwa [show height - 1 - (height - 1 - r) = r by omega] at hlower

theorem mirror_outside (width height base : ℕ) (a : ℕ → α) {i : ℕ} (h : i < base ∨ base + width * height ≤ i) :
    mirror width height base a i = a i := by
  refine swapAll_outside (fun x hx => ?_) a
  have hwithin := half_within base hx
  omega

theorem mirror_congr {width height base : ℕ} {R : ℕ → Prop} (hR : ∀ p, base ≤ p → p < base + width * height → R p) {a b : ℕ → α}
    (h : ∀ p, R p → a p = b p) : ∀ p, R p → mirror width height base a p = mirror width height base b p := by
  refine swapAll_congr (fun x hx => ?_) h
  obtain ⟨hupper, hlower⟩ := half_within base hx
  exact ⟨hR _ hupper.1 hupper.2, hR _ hlower.1 hlower.2⟩

theorem mirror_one {width height : ℕ} (h : height ≤ 1) (base : ℕ) (a : ℕ → α) : mirror width height base a = a := by
  have hnone : half width height = [] := by
    unfold half cells
    rw [show height / 2 = 0 by omega]
    rfl
  unfold mirror
  rw [hnone]
  rfl

/-! ## Parts of one array -/

/-- Each writes to its own part, from what is there. -/
structure Own (f : ι → (ℕ → α) → ℕ → α) (R : ι → ℕ → Prop) : Prop where
  frame : ∀ i a p, ¬ R i p → f i a p = a p
  reads : ∀ i a b, (∀ p, R i p → a p = b p) → ∀ p, R i p → f i a p = f i b p

variable {f : ι → (ℕ → α) → ℕ → α} {R : ι → ℕ → Prop} {l : List ι}

theorem foldl_outside (h : Own f R) {p : ℕ} (hp : ∀ i ∈ l, ¬ R i p) (a : ℕ → α) : l.foldl (fun a i => f i a) a p = a p := by
  induction l generalizing a with
  | nil => rfl
  | cons i l ih =>
    rw [List.foldl_cons, ih fun j hj => hp j (List.mem_cons_of_mem i hj)]
    exact h.frame i a p (hp i List.mem_cons_self)

/-- Parts that are apart are each as if the others had not run, in whatever order they do. -/
theorem foldl_own (h : Own f R) (hl : l.Nodup) (hapart : ∀ i ∈ l, ∀ j ∈ l, i ≠ j → ∀ p, R i p → ¬ R j p) {i : ι} (hi : i ∈ l)
    (a : ℕ → α) {p : ℕ} (hp : R i p) : l.foldl (fun a i => f i a) a p = f i a p := by
  induction l generalizing a with
  | nil => cases hi
  | cons j l ih =>
    obtain ⟨hj, hl⟩ := List.nodup_cons.mp hl
    rw [List.foldl_cons]
    rcases List.mem_cons.mp hi with rfl | hin
    · exact foldl_outside h (fun k hk => hapart i List.mem_cons_self k (List.mem_cons_of_mem i hk) (fun e => hj (e ▸ hk)) p hp) _
    · have hne : i ≠ j := fun e => hj (e ▸ hin)
      rw [ih hl (fun x hx y hy => hapart x (List.mem_cons_of_mem j hx) y (List.mem_cons_of_mem j hy)) hin]
      exact h.reads i _ a (fun q hq => h.frame j a q (hapart i hi j List.mem_cons_self hne q hq)) p hp

end FitsWebQL.Lib.Rows
