/-
  FitsWebQL.Contour — the contour lines of a video frame (CONREC: `CContourMap::contour`,
  `generate_levels`, `FITSRaster`; consolidating the segments is switched off). Each cell of
  the raster is cut into four triangles that meet in its centre, and each triangle gives one
  segment a level at most, picked from a table by the signs of its heights.

  The loops are exact (a field); `double` rounding is not modelled. The bounds of the two
  loops are exchanged: `i`, the first argument of `value`, goes up to the bound in `y`.

  Proved:
    line_iff         in a triangle the segment is where the linear height is at the level
    contour_iff      what is drawn for a level is the level line of the whole surface, less
                     the triangles that only touch the level
    contour_columns  a frame wider than high is contoured in its first columns only
-/

import FitsWebQL.Header
import FitsWebQL.Lib.LevelTriangle

namespace FitsWebQL

open Lib.LevelTriangle

variable {α : Type*} [Field α] [LinearOrder α] [IsStrictOrderedRing α]

structure CRaster (α : Type*) where
  value : ℤ → ℤ → α
  lower_bound : ℤ × ℤ
  upper_bound : ℤ × ℤ

structure SPair (α : Type*) where
  p1 : Point α
  p2 : Point α

/-! ## A triangle -/

def castab : List (List (List ℕ)) := [
  [[0, 0, 8], [0, 2, 5], [7, 6, 9]],
  [[0, 3, 4], [1, 3, 1], [4, 3, 0]],
  [[9, 6, 7], [5, 2, 0], [8, 0, 0]]]

/-- `sh[m] + 1`. -/
def sh (h : α) : ℕ := if 0 < h then 2 else if h < 0 then 0 else 1

def case_value (v1 v2 v3 : Vertex α) : ℕ := ((castab.getD (sh v1.height) []).getD (sh v2.height) []).getD (sh v3.height) 0

/-- The `switch`; `none` is no segment. -/
def segmentOf (case : ℕ) (v1 v2 v3 : Vertex α) : Option (SPair α) :=
  match case with
  | 1 => some ⟨v1.point, v2.point⟩
  | 2 => some ⟨v2.point, v3.point⟩
  | 3 => some ⟨v3.point, v1.point⟩
  | 4 => some ⟨v1.point, crossing v2 v3⟩
  | 5 => some ⟨v2.point, crossing v3 v1⟩
  | 6 => some ⟨v3.point, crossing v1 v2⟩
  | 7 => some ⟨crossing v1 v2, crossing v2 v3⟩
  | 8 => some ⟨crossing v2 v3, crossing v3 v1⟩
  | 9 => some ⟨crossing v3 v1, crossing v1 v2⟩
  | _ => none

def line (v1 v2 v3 : Vertex α) : Option (SPair α) := segmentOf (case_value v1 v2 v3) v1 v2 v3

/-! ## A cell -/

section

variable (r : CRaster α) (i j : ℤ) (level : α)

def corner (di dj : ℤ) : Vertex α := ⟨⟨(i + di : ℤ), (j + dj : ℤ)⟩, r.value (i + di) (j + dj) - level⟩

def centre : Vertex α where
  point := ⟨0.5 * (i + i + 1), 0.5 * (j + j + 1)⟩
  height := 0.25 * ((corner r i j level 0 0).height + (corner r i j level 1 0).height + (corner r i j level 1 1).height +
    (corner r i j level 0 1).height)

/-- The triangles, as the vertices `m1` and `m3`; `m2` is the centre. -/
def triangles : List (Vertex α × Vertex α) := [
  (corner r i j level 0 0, corner r i j level 1 0), (corner r i j level 1 0, corner r i j level 1 1),
  (corner r i j level 1 1, corner r i j level 0 1), (corner r i j level 0 1, corner r i j level 0 0)]

def cellSegments : List (SPair α) := (triangles r i j level).filterMap fun t => line t.1 (centre r i j level) t.2

def dmin : α := min (min (r.value i j) (r.value i (j + 1))) (min (r.value (i + 1) j) (r.value (i + 1) (j + 1)))
def dmax : α := max (max (r.value i j) (r.value i (j + 1))) (max (r.value (i + 1) j) (r.value (i + 1) (j + 1)))

end

def cell (r : CRaster α) (levels : List α) (i j : ℤ) : List (ℕ × SPair α) :=
  if levels.head?.any (· ≤ dmax r i j) && levels.getLast?.any (dmin r i j ≤ ·) then
    levels.zipIdx.flatMap fun l =>
      if dmin r i j ≤ l.1 ∧ l.1 ≤ dmax r i j then (cellSegments r i j l.1).map fun s => (l.2, s) else []
  else []

/-! ## The raster -/

/-- `for (j = upper.x - 1; j >= lower.x; j--)`. -/
def loopJ (r : CRaster α) : List ℤ := (List.range (r.upper_bound.1 - r.lower_bound.1).toNat).map fun (n : ℕ) => r.upper_bound.1 - 1 - n

/-- `for (i = lower.y; i <= upper.y - 1; i++)`. -/
def loopI (r : CRaster α) : List ℤ := (List.range (r.upper_bound.2 - r.lower_bound.2).toNat).map fun (n : ℕ) => r.lower_bound.2 + n

def contour (r : CRaster α) (levels : List α) : List (ℕ × SPair α) :=
  (loopJ r).flatMap fun j => (loopI r).flatMap fun i => cell r levels i j

def generate_levels (min max : α) (num : ℕ) : List α := (List.range num).map fun (i : ℕ) => min + (max - min) / ((num : α) - 1) * i

/-- `FITSRaster`: `stride` bytes a row. -/
def FITSRaster (pixels : Option (List UInt8)) (width height stride : ℤ) : CRaster ℚ where
  value x y :=
    match pixels with
    | none => 0
    | some data => if width ≤ x ∨ height ≤ y then 0 else ((data.getD (y * stride + x).toNat 0).toNat : ℚ)
  lower_bound := (0, 0)
  upper_bound := (width - 1, height - 1)

/-! ## The segment of a triangle -/

def Touches (u v w : Vertex α) : Prop :=
  u.height = 0 ∧ SameSide v w ∨ v.height = 0 ∧ SameSide u w ∨ w.height = 0 ∧ SameSide u v

def Flat (u v w : Vertex α) : Prop := u.height = 0 ∧ v.height = 0 ∧ w.height = 0

def OnLine (u v w : Vertex α) (p : Point α) : Prop :=
  Slice u v w p ∧ ¬ Touches u v w ∧ (Flat u v w → Between w.point u.point p)

section

omit [IsStrictOrderedRing α]

theorem sh_pos {h : α} (hpos : 0 < h) : sh h = 2 := if_pos hpos

theorem sh_neg {h : α} (hneg : h < 0) : sh h = 0 := by rw [sh, if_neg hneg.not_gt, if_pos hneg]

theorem sh_zero {h : α} (h0 : h = 0) : sh h = 1 := by rw [sh, if_neg h0.not_gt, if_neg h0.not_lt]

variable {u v w : Vertex α} {p : Point α}

theorem drawn_segment {q q' : Point α} (hline : line u v w = some ⟨q, q'⟩) (hslice : Slice u v w p ↔ Between q q' p)
    (hsigns : ¬ Touches u v w ∧ ¬ Flat u v w) : (∃ s ∈ line u v w, Between s.p1 s.p2 p) ↔ OnLine u v w p := by
  constructor
  · rintro ⟨s, hs, hbetween⟩
    rw [hline] at hs
    cases hs
    exact ⟨hslice.mpr hbetween, hsigns.1, fun hflat => absurd hflat hsigns.2⟩
  · rintro ⟨hp, -, -⟩
    exact ⟨_, hline, hslice.mp hp⟩

theorem drawn_nothing (hline : line u v w = none) (hnone : Touches u v w ∨ ¬ Slice u v w p) :
    (∃ s ∈ line u v w, Between s.p1 s.p2 p) ↔ OnLine u v w p := by
  rw [hline]
  constructor
  · rintro ⟨s, ⟨⟩, -⟩
  · rintro ⟨hp, htouch, -⟩
    exact (hnone.elim htouch fun h => h hp).elim

end

omit [IsStrictOrderedRing α] in
theorem line_of {u v w : Vertex α} {a b c : ℕ} (hu : sh u.height = a) (hv : sh v.height = b) (hw : sh w.height = c) :
    line u v w = segmentOf (((castab.getD a []).getD b []).getD c 0) u v w := by
  rw [line, case_value, hu, hv, hw]

section

variable {u v w : Vertex α} {p : Point α}

theorem cut_first (hv : Opposite u v) (hw : Opposite u w) : Slice u v w p ↔ Between (crossing w u) (crossing u v) p := by
  rw [slice_opposite hv hw, between_swap, crossing_swap u w]

theorem cut_second (hw : Opposite v w) (hu : Opposite v u) : Slice u v w p ↔ Between (crossing u v) (crossing v w) p := by
  rw [slice_rotate, slice_opposite hw hu, between_swap, crossing_swap v u]

theorem cut_third (hu : Opposite w u) (hv : Opposite w v) : Slice u v w p ↔ Between (crossing v w) (crossing w u) p := by
  rw [slice_rotate, slice_rotate, slice_opposite hu hv, between_swap, crossing_swap w v]

omit [IsStrictOrderedRing α] in
theorem slice_rotate' : Slice u v w p ↔ Slice w u v p := slice_rotate.trans slice_rotate

/-- A triangle at the level: the side of the box. -/
theorem drawn_flat (h : Flat u v w) : (∃ s ∈ line u v w, Between s.p1 s.p2 p) ↔ OnLine u v w p := by
  have hline : line u v w = some ⟨w.point, u.point⟩ := line_of (sh_zero h.1) (sh_zero h.2.1) (sh_zero h.2.2)
  have htouch : ¬ Touches u v w := by
    unfold Touches SameSide
    rw [h.1, h.2.1, h.2.2]
    simp
  rw [hline]
  constructor
  · rintro ⟨s, ⟨⟩, hbetween⟩
    refine ⟨?_, htouch, fun _ => hbetween⟩
    obtain ⟨s, t, hs, ht, hsum, hx, hy⟩ := hbetween
    refine ⟨t, 0, s, ⟨ht, le_rfl, hs, by linear_combination hsum⟩, ?_, by linear_combination hx, by linear_combination hy⟩
    rw [h.1, h.2.1, h.2.2]
    ring
  · rintro ⟨-, -, hflat⟩
    exact ⟨_, rfl, hflat h⟩

/-- The table, by the signs of the three heights. -/
theorem line_iff (u v w : Vertex α) (p : Point α) : (∃ s ∈ line u v w, Between s.p1 s.p2 p) ↔ OnLine u v w p := by
  rcases lt_trichotomy u.height 0 with hu | hu | hu <;> rcases lt_trichotomy v.height 0 with hv | hv | hv <;>
    rcases lt_trichotomy w.height 0 with hw | hw | hw
  -- `u` below the level
  · exact drawn_nothing (line_of (sh_neg hu) (sh_neg hv) (sh_neg hw)) (.inr (slice_empty (.inr ⟨hu, hv⟩) (.inr ⟨hv, hw⟩) p))
  · exact drawn_nothing (line_of (sh_neg hu) (sh_neg hv) (sh_zero hw)) (.inl (.inr (.inr ⟨hw, .inr ⟨hu, hv⟩⟩)))
  · exact drawn_segment (line_of (sh_neg hu) (sh_neg hv) (sh_pos hw)) (cut_third (above_below hw hu) (above_below hw hv))
      (by unfold Touches Flat SameSide; grind)
  · exact drawn_nothing (line_of (sh_neg hu) (sh_zero hv) (sh_neg hw)) (.inl (.inr (.inl ⟨hv, .inr ⟨hu, hw⟩⟩)))
  · exact drawn_segment (line_of (sh_neg hu) (sh_zero hv) (sh_zero hw)) (slice_rotate.trans (slice_side hv hw hu.ne))
      (by unfold Touches Flat SameSide; grind)
  · exact drawn_segment (line_of (sh_neg hu) (sh_zero hv) (sh_pos hw)) (slice_rotate.trans (slice_through hv (above_below hw hu)))
      (by unfold Touches Flat SameSide; grind)
  · exact drawn_segment (line_of (sh_neg hu) (sh_pos hv) (sh_neg hw)) (cut_second (above_below hv hw) (above_below hv hu))
      (by unfold Touches Flat SameSide; grind)
  · exact drawn_segment (line_of (sh_neg hu) (sh_pos hv) (sh_zero hw)) (slice_rotate'.trans (slice_through hw (below_above hu hv)))
      (by unfold Touches Flat SameSide; grind)
  · exact drawn_segment (line_of (sh_neg hu) (sh_pos hv) (sh_pos hw)) (cut_first (below_above hu hv) (below_above hu hw))
      (by unfold Touches Flat SameSide; grind)
  -- `u` on the level
  · exact drawn_nothing (line_of (sh_zero hu) (sh_neg hv) (sh_neg hw)) (.inl (.inl ⟨hu, .inr ⟨hv, hw⟩⟩))
  · exact drawn_segment (line_of (sh_zero hu) (sh_neg hv) (sh_zero hw)) (slice_rotate'.trans (slice_side hw hu hv.ne))
      (by unfold Touches Flat SameSide; grind)
  · exact drawn_segment (line_of (sh_zero hu) (sh_neg hv) (sh_pos hw)) (slice_through hu (below_above hv hw))
      (by unfold Touches Flat SameSide; grind)
  · exact drawn_segment (line_of (sh_zero hu) (sh_zero hv) (sh_neg hw)) (slice_side hu hv hw.ne)
      (by unfold Touches Flat SameSide; grind)
  · exact drawn_flat ⟨hu, hv, hw⟩
  · exact drawn_segment (line_of (sh_zero hu) (sh_zero hv) (sh_pos hw)) (slice_side hu hv hw.ne')
      (by unfold Touches Flat SameSide; grind)
  · exact drawn_segment (line_of (sh_zero hu) (sh_pos hv) (sh_neg hw)) (slice_through hu (above_below hv hw))
      (by unfold Touches Flat SameSide; grind)
  · exact drawn_segment (line_of (sh_zero hu) (sh_pos hv) (sh_zero hw)) (slice_rotate'.trans (slice_side hw hu hv.ne'))
      (by unfold Touches Flat SameSide; grind)
  · exact drawn_nothing (line_of (sh_zero hu) (sh_pos hv) (sh_pos hw)) (.inl (.inl ⟨hu, .inl ⟨hv, hw⟩⟩))
  -- `u` above the level
  · exact drawn_segment (line_of (sh_pos hu) (sh_neg hv) (sh_neg hw)) (cut_first (above_below hu hv) (above_below hu hw))
      (by unfold Touches Flat SameSide; grind)
  · exact drawn_segment (line_of (sh_pos hu) (sh_neg hv) (sh_zero hw)) (slice_rotate'.trans (slice_through hw (above_below hu hv)))
      (by unfold Touches Flat SameSide; grind)
  · exact drawn_segment (line_of (sh_pos hu) (sh_neg hv) (sh_pos hw)) (cut_second (below_above hv hw) (below_above hv hu))
      (by unfold Touches Flat SameSide; grind)
  · exact drawn_segment (line_of (sh_pos hu) (sh_zero hv) (sh_neg hw)) (slice_rotate.trans (slice_through hv (below_above hw hu)))
      (by unfold Touches Flat SameSide; grind)
  · exact drawn_segment (line_of (sh_pos hu) (sh_zero hv) (sh_zero hw)) (slice_rotate.trans (slice_side hv hw hu.ne'))
      (by unfold Touches Flat SameSide; grind)
  · exact drawn_nothing (line_of (sh_pos hu) (sh_zero hv) (sh_pos hw)) (.inl (.inr (.inl ⟨hv, .inl ⟨hu, hw⟩⟩)))
  · exact drawn_segment (line_of (sh_pos hu) (sh_pos hv) (sh_neg hw)) (cut_third (below_above hw hu) (below_above hw hv))
      (by unfold Touches Flat SameSide; grind)
  · exact drawn_nothing (line_of (sh_pos hu) (sh_pos hv) (sh_zero hw)) (.inl (.inr (.inr ⟨hw, .inl ⟨hu, hv⟩⟩)))
  · exact drawn_nothing (line_of (sh_pos hu) (sh_pos hv) (sh_pos hw)) (.inr (slice_empty (.inl ⟨hu, hv⟩) (.inl ⟨hv, hw⟩) p))

end

/-! ## Cells -/

omit [Field α] [IsStrictOrderedRing α] in
theorem value_bounds (r : CRaster α) (i j : ℤ) {di dj : ℤ} (hi : di = 0 ∨ di = 1) (hj : dj = 0 ∨ dj = 1) :
    dmin r i j ≤ r.value (i + di) (j + dj) ∧ r.value (i + di) (j + dj) ≤ dmax r i j := by
  unfold dmin dmax
  rcases hi with rfl | rfl <;> rcases hj with rfl | rfl <;> simp

/-- The side of the level a cell is on. -/
theorem heights_of_cell {r : CRaster α} {i j : ℤ} {level : α} :
    (level < dmin r i j → (∀ {di dj : ℤ}, (di = 0 ∨ di = 1) → (dj = 0 ∨ dj = 1) → 0 < (corner r i j level di dj).height) ∧
      0 < (centre r i j level).height) ∧
    (dmax r i j < level → (∀ {di dj : ℤ}, (di = 0 ∨ di = 1) → (dj = 0 ∨ dj = 1) → (corner r i j level di dj).height < 0) ∧
      (centre r i j level).height < 0) := by
  constructor
  · intro h
    have hcorner : ∀ {di dj : ℤ}, (di = 0 ∨ di = 1) → (dj = 0 ∨ dj = 1) → 0 < (corner r i j level di dj).height := fun hi hj =>
      sub_pos.mpr (h.trans_le (value_bounds r i j hi hj).1)
    refine ⟨hcorner, mul_pos (by norm_num) ?_⟩
    have h00 := hcorner (.inl rfl) (.inl rfl)
    have h10 := hcorner (.inr rfl) (.inl rfl)
    have h11 := hcorner (.inr rfl) (.inr rfl)
    have h01 := hcorner (.inl rfl) (.inr rfl)
    linarith
  · intro h
    have hcorner : ∀ {di dj : ℤ}, (di = 0 ∨ di = 1) → (dj = 0 ∨ dj = 1) → (corner r i j level di dj).height < 0 := fun hi hj =>
      sub_neg.mpr ((value_bounds r i j hi hj).2.trans_lt h)
    refine ⟨hcorner, mul_neg_of_pos_of_neg (by norm_num) ?_⟩
    have h00 := hcorner (.inl rfl) (.inl rfl)
    have h10 := hcorner (.inr rfl) (.inl rfl)
    have h11 := hcorner (.inr rfl) (.inr rfl)
    have h01 := hcorner (.inl rfl) (.inr rfl)
    linarith

omit [LinearOrder α] [IsStrictOrderedRing α] in
theorem triangle_heights {r : CRaster α} {i j : ℤ} {level : α} {t : Vertex α × Vertex α} (ht : t ∈ triangles r i j level) :
    ∃ di dj di' dj' : ℤ, t = (corner r i j level di dj, corner r i j level di' dj') ∧ (di = 0 ∨ di = 1) ∧ (dj = 0 ∨ dj = 1) ∧
      (di' = 0 ∨ di' = 1) ∧ (dj' = 0 ∨ dj' = 1) := by
  simp only [triangles, List.mem_cons, List.not_mem_nil, or_false] at ht
  rcases ht with rfl | rfl | rfl | rfl
  · exact ⟨0, 0, 1, 0, rfl, by simp⟩
  · exact ⟨1, 0, 1, 1, rfl, by simp⟩
  · exact ⟨1, 1, 0, 1, rfl, by simp⟩
  · exact ⟨0, 1, 0, 0, rfl, by simp⟩

/-- A level that is met in a cell is between its least and its greatest value. -/
theorem level_between {r : CRaster α} {i j : ℤ} {level : α} {t : Vertex α × Vertex α} (ht : t ∈ triangles r i j level) {p : Point α}
    (hp : Slice t.1 (centre r i j level) t.2 p) : dmin r i j ≤ level ∧ level ≤ dmax r i j := by
  obtain ⟨di, dj, di', dj', rfl, hi, hj, hi', hj'⟩ := triangle_heights ht
  constructor <;> by_contra h <;> rw [not_le] at h
  · obtain ⟨hcorner, hcentre⟩ := heights_of_cell.1 h
    exact slice_empty (.inl ⟨hcorner hi hj, hcentre⟩) (.inl ⟨hcentre, hcorner hi' hj'⟩) p hp
  · obtain ⟨hcorner, hcentre⟩ := heights_of_cell.2 h
    exact slice_empty (.inr ⟨hcorner hi hj, hcentre⟩) (.inr ⟨hcentre, hcorner hi' hj'⟩) p hp

/-- What is drawn of a cell. -/
theorem mem_cellSegments {r : CRaster α} {i j : ℤ} {level : α} {p : Point α} :
    (∃ s ∈ cellSegments r i j level, Between s.p1 s.p2 p) ↔
      ∃ t ∈ triangles r i j level, OnLine t.1 (centre r i j level) t.2 p := by
  unfold cellSegments
  constructor
  · rintro ⟨s, hs, hbetween⟩
    obtain ⟨t, ht, hline⟩ := List.mem_filterMap.mp hs
    exact ⟨t, ht, (line_iff _ _ _ p).mp ⟨s, hline, hbetween⟩⟩
  · rintro ⟨t, ht, hp⟩
    obtain ⟨s, hline, hbetween⟩ := (line_iff _ _ _ p).mpr hp
    exact ⟨s, List.mem_filterMap.mpr ⟨t, ht, hline⟩, hbetween⟩

def Drawn (r : CRaster α) (levels : List α) (k : ℕ) (p : Point α) : Prop :=
  ∃ s, (k, s) ∈ contour r levels ∧ Between s.p1 s.p2 p

def InLoops (r : CRaster α) (i j : ℤ) : Prop :=
  (r.lower_bound.2 ≤ i ∧ i < r.upper_bound.2) ∧ r.lower_bound.1 ≤ j ∧ j < r.upper_bound.1

omit [Field α] [LinearOrder α] [IsStrictOrderedRing α] in
theorem mem_loops {r : CRaster α} {i j : ℤ} : (j ∈ loopJ r ∧ i ∈ loopI r) ↔ InLoops r i j := by
  unfold loopJ loopI InLoops
  simp only [List.mem_map, List.mem_range]
  constructor
  · rintro ⟨⟨n, hn, rfl⟩, m, hm, rfl⟩
    omega
  · rintro ⟨⟨hi, hi'⟩, hj, hj'⟩
    exact ⟨⟨(r.upper_bound.1 - 1 - j).toNat, by omega, by omega⟩, (i - r.lower_bound.2).toNat, by omega, by omega⟩

omit [Field α] [IsStrictOrderedRing α] in
/-- The guard in front of the levels lets a level of the cell through. -/
theorem levels_guard {levels : List α} (hsorted : levels.Pairwise (· ≤ ·)) {level lo hi : α} (hmem : level ∈ levels)
    (h : lo ≤ level ∧ level ≤ hi) :
    (levels.head?.any (· ≤ hi) && levels.getLast?.any (lo ≤ ·)) = true := by
  obtain ⟨first, rest, rfl⟩ := List.exists_cons_of_ne_nil (List.ne_nil_of_mem hmem)
  have hhead : first ≤ level := by
    rcases List.mem_cons.mp hmem with rfl | hmem
    · exact le_rfl
    · exact (List.pairwise_cons.mp hsorted).1 _ hmem
  have hlast : level ≤ (first :: rest).getLast (List.cons_ne_nil _ _) := hsorted.rel_getLast hmem
  rw [List.getLast?_eq_getLast_of_ne_nil (List.cons_ne_nil _ _)]
  simp only [List.head?_cons, Option.any_some, Bool.and_eq_true, decide_eq_true_eq]
  exact ⟨hhead.trans h.2, h.1.trans hlast⟩

/-- The contour lines: the level line of the surface over the cells of the loops. -/
theorem contour_iff (r : CRaster α) {levels : List α} (hsorted : levels.Pairwise (· ≤ ·)) {k : ℕ} {level : α}
    (hk : levels[k]? = some level)
    (p : Point α) :
    Drawn r levels k p ↔ ∃ i j, InLoops r i j ∧ ∃ t ∈ triangles r i j level, OnLine t.1 (centre r i j level) t.2 p := by
  unfold Drawn contour
  simp only [List.mem_flatMap, cell]
  constructor
  · rintro ⟨s, ⟨j, hj, i, hi, hs⟩, hbetween⟩
    refine ⟨i, j, mem_loops.mp ⟨hj, hi⟩, ?_⟩
    split at hs
    · obtain ⟨l, hl, hs⟩ := List.mem_flatMap.mp hs
      split at hs
      · obtain ⟨s', hs', he⟩ := List.mem_map.mp hs
        cases he
        have hlevel : l.1 = level := by
          have := List.mem_zipIdx_iff_getElem?.mp hl
          rw [hk] at this
          exact (Option.some.inj this).symm
        rw [hlevel] at hs'
        exact mem_cellSegments.mp ⟨s, hs', hbetween⟩
      · cases hs
    · cases hs
  · rintro ⟨i, j, hin, t, ht, hp⟩
    obtain ⟨hj, hi⟩ := mem_loops.mpr hin
    obtain ⟨s, hs, hbetween⟩ := mem_cellSegments.mpr ⟨t, ht, hp⟩
    have hlevel := level_between ht hp.1
    refine ⟨s, ⟨j, hj, i, hi, ?_⟩, hbetween⟩
    rw [if_pos (levels_guard hsorted (List.mem_of_getElem? hk) hlevel), List.mem_flatMap]
    refine ⟨(level, k), List.mem_zipIdx_iff_getElem?.mpr hk, ?_⟩
    rw [if_pos hlevel]
    exact List.mem_map_of_mem hs

def slope : CRaster ℚ := ⟨fun x _ => x, (0, 0), (1, 1)⟩

theorem contour_iff_slope :
    Drawn slope [1 / 2] 0 ⟨1 / 2, 0⟩ ↔
      ∃ i j, InLoops slope i j ∧ ∃ t ∈ triangles slope i j (1 / 2), OnLine t.1 (centre slope i j (1 / 2)) t.2 ⟨1 / 2, 0⟩ :=
  contour_iff slope (List.pairwise_singleton _ _) rfl _

theorem generate_levels_sorted {min max : α} (h : min ≤ max) (num : ℕ) : (generate_levels min max num).Pairwise (· ≤ ·) := by
  unfold generate_levels
  rw [List.pairwise_map]
  refine List.pairwise_lt_range.imp_of_mem fun {i k} hi hk hlt => ?_
  have hnum : (1 : α) ≤ num := by exact_mod_cast (List.mem_range.mp hi).trans_le' (by omega)
  have hstep : 0 ≤ (max - min) / ((num : α) - 1) := div_nonneg (sub_nonneg.mpr h) (sub_nonneg.mpr hnum)
  have hik : (i : α) ≤ k := by exact_mod_cast hlt.le
  linarith [mul_le_mul_of_nonneg_left hik hstep]

/-! ## What is read -/

section

variable {r r' : CRaster α} (hlow : r.lower_bound = r'.lower_bound) (hup : r.upper_bound = r'.upper_bound)

omit [IsStrictOrderedRing α]

/-- A cell reads its four corners. -/
theorem cell_congr (levels : List α) {i j : ℤ}
    (h : ∀ di dj : ℤ, (di = 0 ∨ di = 1) → (dj = 0 ∨ dj = 1) → r.value (i + di) (j + dj) = r'.value (i + di) (j + dj)) :
    cell r levels i j = cell r' levels i j := by
  have hcorner : ∀ level di dj, (di = 0 ∨ di = 1) → (dj = 0 ∨ dj = 1) → corner r i j level di dj = corner r' i j level di dj :=
    fun level di dj hi hj => by rw [corner, corner, h di dj hi hj]
  have hsegments : ∀ level, cellSegments r i j level = cellSegments r' i j level := fun level => by
    have hcentre : centre r i j level = centre r' i j level := by
      unfold centre
      rw [hcorner level 0 0 (by simp) (by simp), hcorner level 1 0 (by simp) (by simp), hcorner level 1 1 (by simp) (by simp),
        hcorner level 0 1 (by simp) (by simp)]
    unfold cellSegments triangles
    rw [hcentre, hcorner level 0 0 (by simp) (by simp), hcorner level 1 0 (by simp) (by simp), hcorner level 1 1 (by simp) (by simp),
      hcorner level 0 1 (by simp) (by simp)]
  have h00 := h 0 0 (by simp) (by simp)
  have h01 := h 0 1 (by simp) (by simp)
  have h10 := h 1 0 (by simp) (by simp)
  have h11 := h 1 1 (by simp) (by simp)
  simp only [add_zero] at h00 h01 h10
  unfold cell dmin dmax
  simp only [hsegments, h00, h01, h10, h11]

include hlow hup in
/-- The loops read up to the bounds, the other way around. -/
theorem contour_congr (levels : List α)
    (h : ∀ x y : ℤ, r.lower_bound.2 ≤ x → x ≤ r.upper_bound.2 → r.lower_bound.1 ≤ y → y ≤ r.upper_bound.1 → r.value x y = r'.value x y) :
    contour r levels = contour r' levels := by
  have hj : loopJ r = loopJ r' := by rw [loopJ, loopJ, hlow, hup]
  have hi : loopI r = loopI r' := by rw [loopI, loopI, hlow, hup]
  unfold contour
  rw [← hj, ← hi]
  refine List.flatMap_congr fun j hmem => List.flatMap_congr fun i hmem' => cell_congr levels fun di dj hdi hdj => ?_
  obtain ⟨⟨hi1, hi2⟩, hj1, hj2⟩ := mem_loops.mp ⟨hmem, hmem'⟩
  exact h _ _ (by omega) (by omega) (by omega) (by omega)

end

/-- A frame is contoured from its first columns, as many as it has rows. -/
theorem contour_columns {data data' : List UInt8} {width height stride : ℤ}
    (h : ∀ x y : ℤ, 0 ≤ x ∧ x < width ∧ x < height → 0 ≤ y ∧ y < height →
      data.getD (y * stride + x).toNat 0 = data'.getD (y * stride + x).toNat 0) (levels : List ℚ) :
    contour (FITSRaster (some data) width height stride) levels = contour (FITSRaster (some data') width height stride) levels := by
  refine contour_congr (by rfl) (by rfl) levels fun x y hx hx' hy hy' => ?_
  change 0 ≤ x at hx
  change x ≤ height - 1 at hx'
  change 0 ≤ y at hy
  show (if width ≤ x ∨ height ≤ y then (0 : ℚ) else _) = if width ≤ x ∨ height ≤ y then 0 else _
  split
  · rfl
  · rename_i hin
    rw [not_or, not_le, not_le] at hin
    rw [h x y ⟨hx, hin.1, by omega⟩ ⟨hy, hin.2⟩]

theorem contour_columns_wide :
    contour (FITSRaster (some [1, 2, 3, 4, 5, 6]) 3 2 3) [5] = contour (FITSRaster (some [1, 2, 90, 4, 5, 100]) 3 2 3) [5] := by
  refine contour_columns ?_ [5]
  rintro x y ⟨hx, -, hx'⟩ ⟨hy, hy'⟩
  interval_cases x <;> interval_cases y <;> rfl

end FitsWebQL
