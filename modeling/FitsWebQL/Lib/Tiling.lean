/-
  FitsWebQL.Lib.Tiling — sums over an interval or a rectangle of integers, taken tile
  by tile. A line is cut into tiles of `T` cells, tile `i` holding `T * i .. T * i + T - 1`;
  a range `[a, b)` meets tile `i` in the local range `[max (a - T * i) 0, min (b - T * i) T)`.

  Proved: for any set of tiles holding every tile the range meets, the sum over the tiles
  of the sums over the local ranges is the sum over the range (`sum_tiles`), and the same
  for a rectangle (`sum_tiles_rect`); a loop over a list of consecutive integers is the
  sum over the interval (`sum_ints`).
-/

import Mathlib

namespace FitsWebQL.Lib.Tiling

variable {M : Type*} [AddCommMonoid M]

/-! ## Tiles of a line -/

/-- The local range of `[a, b)` in tile `i`. -/
noncomputable def local_ (T a b i : ℤ) : Finset ℤ := Finset.Ico (max (a - T * i) 0) (min (b - T * i) T)

theorem mem_local {T a b i x : ℤ} : x ∈ local_ T a b i ↔ (a ≤ T * i + x ∧ T * i + x < b) ∧ 0 ≤ x ∧ x < T := by
  simp only [local_, Finset.mem_Ico, max_le_iff, lt_min_iff]
  omega

theorem tile_of {T : ℤ} (hT : 0 < T) {i x : ℤ} (h0 : 0 ≤ x) (hx : x < T) : (T * i + x) / T = i := by
  rw [add_comm, Int.add_mul_ediv_left _ _ (by omega), Int.ediv_eq_zero_of_lt h0 hx, zero_add]

/-- The cells of `[a, b)` in tile `i` are its local range, moved to the tile. -/
theorem sum_tile {T : ℤ} (hT : 0 < T) (a b i : ℤ) (g : ℤ → M) :
    ∑ x ∈ local_ T a b i, g (T * i + x) = ∑ x ∈ Finset.Ico a b with x / T = i, g x := by
  refine Finset.sum_bij (fun x _ => T * i + x) ?_ ?_ ?_ ?_
  · intro x hx
    obtain ⟨hab, h0, h1⟩ := mem_local.mp hx
    exact Finset.mem_filter.mpr ⟨Finset.mem_Ico.mpr hab, tile_of hT h0 h1⟩
  · intro x _ y _ h
    omega
  · intro x hx
    obtain ⟨hab, hi⟩ := Finset.mem_filter.mp hx
    have hab := Finset.mem_Ico.mp hab
    have hd := Int.mul_ediv_add_emod x T
    rw [hi] at hd
    refine ⟨x % T, mem_local.mpr ⟨by omega, Int.emod_nonneg _ (by omega), Int.emod_lt_of_pos _ hT⟩, hd⟩
  · intro x _
    rfl

/-- Summing tile by tile over any set of tiles that holds every tile the range meets. -/
theorem sum_tiles {T : ℤ} (hT : 0 < T) (a b : ℤ) (I : Finset ℤ) (hI : ∀ x, a ≤ x → x < b → x / T ∈ I) (g : ℤ → M) :
    ∑ i ∈ I, ∑ x ∈ local_ T a b i, g (T * i + x) = ∑ x ∈ Finset.Ico a b, g x := by
  rw [← Finset.sum_fiberwise_of_maps_to (g := fun x => x / T)
    (fun x hx => hI x (Finset.mem_Ico.mp hx).1 (Finset.mem_Ico.mp hx).2)]
  exact Finset.sum_congr rfl fun i _ => sum_tile hT a b i g

/-- A range cut in two. -/
theorem sum_Ico_split {a b c : ℤ} (hab : a ≤ b) (hbc : b ≤ c) (g : ℤ → M) :
    ∑ x ∈ Finset.Ico a c, g x = ∑ x ∈ Finset.Ico a b, g x + ∑ x ∈ Finset.Ico b c, g x := by
  rw [← Finset.Ico_union_Ico_eq_Ico hab hbc, Finset.sum_union (Finset.Ico_disjoint_Ico_consecutive a b c)]

/-! ## Tiles of a rectangle -/

/-- The sum over `[x1, x2) × [y1, y2)`. -/
noncomputable def rect (x1 x2 y1 y2 : ℤ) (f : ℤ → ℤ → M) : M := ∑ y ∈ Finset.Ico y1 y2, ∑ x ∈ Finset.Ico x1 x2, f y x

/-- The part of that sum in tile `(iy, ix)`, in the tile's own coordinates. -/
noncomputable def tileRect (T x1 x2 y1 y2 iy ix : ℤ) (f : ℤ → ℤ → M) : M :=
  ∑ y ∈ local_ T y1 y2 iy, ∑ x ∈ local_ T x1 x2 ix, f (T * iy + y) (T * ix + x)

theorem sum_tiles_rect {T : ℤ} (hT : 0 < T) (x1 x2 y1 y2 : ℤ) (I J : Finset ℤ)
    (hI : ∀ y, y1 ≤ y → y < y2 → y / T ∈ I) (hJ : ∀ x, x1 ≤ x → x < x2 → x / T ∈ J) (f : ℤ → ℤ → M) :
    ∑ iy ∈ I, ∑ ix ∈ J, tileRect T x1 x2 y1 y2 iy ix f = rect x1 x2 y1 y2 f := by
  have row : ∀ iy, ∑ ix ∈ J, tileRect T x1 x2 y1 y2 iy ix f =
      ∑ y ∈ local_ T y1 y2 iy, ∑ x ∈ Finset.Ico x1 x2, f (T * iy + y) x := by
    intro iy
    simp only [tileRect]
    rw [Finset.sum_comm]
    exact Finset.sum_congr rfl fun y _ => sum_tiles hT x1 x2 J hJ fun x => f (T * iy + y) x
  rw [Finset.sum_congr rfl fun iy _ => row iy]
  exact sum_tiles hT y1 y2 I hI fun y => ∑ x ∈ Finset.Ico x1 x2, f y x

theorem rect_congr {x1 x2 y1 y2 : ℤ} {f g : ℤ → ℤ → M}
    (h : ∀ y x, y1 ≤ y → y < y2 → x1 ≤ x → x < x2 → f y x = g y x) : rect x1 x2 y1 y2 f = rect x1 x2 y1 y2 g := by
  refine Finset.sum_congr rfl fun y hy => Finset.sum_congr rfl fun x hx => ?_
  rw [Finset.mem_Ico] at hx hy
  exact h y x hy.1 hy.2 hx.1 hx.2

theorem tileRect_congr {T x1 x2 y1 y2 iy ix : ℤ} {f g : ℤ → ℤ → M}
    (h : ∀ y x, y1 ≤ y → y < y2 → x1 ≤ x → x < x2 → f y x = g y x) :
    tileRect T x1 x2 y1 y2 iy ix f = tileRect T x1 x2 y1 y2 iy ix g := by
  refine Finset.sum_congr rfl fun y hy => Finset.sum_congr rfl fun x hx => ?_
  rw [mem_local] at hy hx
  exact h _ _ hy.1.1 hy.1.2 hx.1.1 hx.1.2

/-- A sum over one cell: in the cell's tile and nowhere else. -/
theorem tileRect_single {T : ℤ} (hT : 0 < T) {x1 x2 y1 y2 : ℤ} (iy ix : ℤ) {y0 x0 : ℤ} (hy : y1 ≤ y0 ∧ y0 < y2)
    (hx : x1 ≤ x0 ∧ x0 < x2) (g : M) :
    tileRect T x1 x2 y1 y2 iy ix (fun y x => if y = y0 ∧ x = x0 then g else 0) =
      if y0 / T = iy ∧ x0 / T = ix then g else 0 := by
  have row : ∀ y, ∑ x ∈ local_ T x1 x2 ix, (if y = y0 ∧ T * ix + x = x0 then g else 0) =
      if y = y0 then if x0 / T = ix then g else 0 else 0 := by
    intro y
    rw [sum_tile hT x1 x2 ix fun x => if y = y0 ∧ x = x0 then g else 0]
    by_cases h : y = y0
    · simp only [h, true_and, if_true, Finset.sum_ite_eq', Finset.mem_filter, Finset.mem_Ico, hx, and_self]
    · simp only [h, false_and, if_false, Finset.sum_const_zero]
  unfold tileRect
  simp only [row]
  rw [sum_tile hT y1 y2 iy fun y => if y = y0 then if x0 / T = ix then g else 0 else 0]
  simp only [Finset.sum_ite_eq', Finset.mem_filter, Finset.mem_Ico, hy, true_and, and_self]
  by_cases h : y0 / T = iy
  · simp only [h, true_and, if_true]
  · simp only [h, false_and, if_false]

/-! ## Cells in row-major order -/

theorem rowMajor_iff {width y x : ℤ} (hy : 0 ≤ y) (hx : 0 ≤ x ∧ x < width) {p : ℕ} :
    p = (y * width + x).toNat ↔ y = p / width ∧ x = p % width := by
  have h0 : 0 ≤ y * width := mul_nonneg hy (by omega)
  constructor
  · intro h
    have hp : (p : ℤ) = x + y * width := by omega
    rw [hp, Int.add_mul_ediv_right _ _ (by omega), Int.ediv_eq_zero_of_lt hx.1 hx.2, Int.add_mul_emod_self_right,
      Int.emod_eq_of_lt hx.1 hx.2]
    exact ⟨(zero_add y).symm, rfl⟩
  · rintro ⟨rfl, rfl⟩
    have := Int.mul_ediv_add_emod p width
    rw [mul_comm] at this
    omega

theorem row_lt {width height : ℤ} (hw : 0 < width) {p : ℕ} (hp : p < (width * height).toNat) :
    (0 ≤ (p : ℤ) / width ∧ (p : ℤ) / width < height) ∧ 0 ≤ (p : ℤ) % width ∧ (p : ℤ) % width < width := by
  refine ⟨⟨Int.ediv_nonneg (by omega) (by omega), ?_⟩, Int.emod_nonneg _ (by omega), Int.emod_lt_of_pos _ hw⟩
  rw [Int.ediv_lt_iff_lt_mul hw, mul_comm]
  omega

theorem rowMajor_lt {width height y x : ℤ} (hy : 0 ≤ y ∧ y < height) (hx : 0 ≤ x ∧ x < width) :
    (y * width + x).toNat < (width * height).toNat := by
  have h1 : y * width + width ≤ height * width := by nlinarith
  have h2 : 0 ≤ y * width := mul_nonneg hy.1 (by omega)
  rw [mul_comm width]
  omega

/-- A loop over the cells in row-major order is a sum over the rectangle. -/
theorem sum_range_rect {width height : ℤ} (hw : 0 < width) (g : ℕ → M) :
    ∑ p ∈ Finset.range (width * height).toNat, g p = rect 0 width 0 height fun y x => g (y * width + x).toNat := by
  unfold rect
  rw [← Finset.sum_product']
  refine Finset.sum_bij' (fun p _ => ((p : ℤ) / width, (p : ℤ) % width)) (fun q _ => (q.1 * width + q.2).toNat) ?_ ?_ ?_ ?_ ?_
  · intro p hp
    obtain ⟨hy, hx⟩ := row_lt hw (Finset.mem_range.mp hp)
    exact Finset.mem_product.mpr ⟨Finset.mem_Ico.mpr hy, Finset.mem_Ico.mpr hx⟩
  · intro q hq
    obtain ⟨hy, hx⟩ := Finset.mem_product.mp hq
    rw [Finset.mem_Ico] at hy hx
    exact Finset.mem_range.mpr (rowMajor_lt hy hx)
  · intro p hp
    obtain ⟨hy, hx⟩ := row_lt hw (Finset.mem_range.mp hp)
    exact ((rowMajor_iff hy.1 hx).mpr ⟨rfl, rfl⟩).symm
  · intro q hq
    obtain ⟨hy, hx⟩ := Finset.mem_product.mp hq
    rw [Finset.mem_Ico] at hy hx
    obtain ⟨e1, e2⟩ := (rowMajor_iff hy.1 hx).mp rfl
    exact Prod.ext e1.symm e2.symm
  · intro p hp
    obtain ⟨hy, hx⟩ := row_lt hw (Finset.mem_range.mp hp)
    exact congrArg g ((rowMajor_iff hy.1 hx).mpr ⟨rfl, rfl⟩)

/-! ## Loops over consecutive integers -/

/-- The values of `for (i = a; i < b; i++)`, in order. -/
def ints (a b : ℤ) : List ℤ := (List.range (b - a).toNat).map fun k : ℕ => a + k

theorem mem_ints {a b i : ℤ} : i ∈ ints a b ↔ a ≤ i ∧ i < b := by
  simp only [ints, List.mem_map, List.mem_range]
  constructor
  · rintro ⟨k, hk, rfl⟩
    omega
  · intro h
    exact ⟨(i - a).toNat, by omega, by omega⟩

theorem nodup_ints (a b : ℤ) : (ints a b).Nodup :=
  List.nodup_range.map fun i j h => by simpa using h

theorem ints_nil {a b : ℤ} (h : b ≤ a) : ints a b = [] := by
  simp [ints, Int.toNat_eq_zero.mpr (show b - a ≤ 0 by omega)]

theorem ints_cons {a b : ℤ} (h : a < b) : ints a b = a :: ints (a + 1) b := by
  have e : (b - a).toNat = (b - (a + 1)).toNat + 1 := by omega
  rw [ints, e, List.range_succ_eq_map, List.map_cons, List.map_map]
  simp only [ints, List.cons.injEq, Nat.cast_zero, add_zero, true_and]
  refine List.map_congr_left fun k _ => ?_
  simp only [Function.comp, Nat.succ_eq_add_one, Nat.cast_add, Nat.cast_one]
  omega

theorem sum_ints (a b : ℤ) (g : ℤ → M) : ((ints a b).map g).sum = ∑ i ∈ Finset.Ico a b, g i := by
  have e : (ints a b).toFinset = Finset.Ico a b := by
    ext i
    simp [mem_ints]
  rw [← e, List.sum_toFinset g (nodup_ints a b)]

/-- `foreach (y = y1 ... y2, x = x1 ... x2)` adding up `f y x`. -/
def foreachSum (y1 y2 x1 x2 : ℤ) (f : ℤ → ℤ → M) : M := ((ints y1 y2).map fun y => ((ints x1 x2).map (f y)).sum).sum

theorem foreachSum_eq (y1 y2 x1 x2 : ℤ) (f : ℤ → ℤ → M) : foreachSum y1 y2 x1 x2 f = rect x1 x2 y1 y2 f := by
  simp only [foreachSum, sum_ints, rect]

/-- A loop that adds `g p` at every step. -/
theorem foldl_add {α : Type*} (g : α → M) : ∀ (ps : List α) (s : M), ps.foldl (fun s p => s + g p) s = s + (ps.map g).sum
  | [], s => by simp
  | p :: ps, s => by rw [List.foldl_cons, foldl_add g ps, List.map_cons, List.sum_cons, add_assoc]

theorem sum_map_flatMap {α β : Type*} (l : List α) (k : α → List β) (g : β → M) :
    ((l.flatMap k).map g).sum = (l.map fun a => ((k a).map g).sum).sum := by
  induction l with
  | nil => rfl
  | cons a l ih => simp only [List.flatMap_cons, List.map_append, List.sum_append, List.map_cons, List.sum_cons, ih]

end FitsWebQL.Lib.Tiling
