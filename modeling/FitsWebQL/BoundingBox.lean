/-
  FitsWebQL.BoundingBox — the rectangle of the valid pixels (`true_image_dimensions`), in the
  server and in the browser. Four loops over the mask look for the first row, the last row,
  the first column and the last column with a byte that is not 0; the columns are tried
  between the two rows only.

  In the server the counter of the second loop is a `size_t`, so `i >= 0` always holds: with
  no byte to stop at the loop goes on from 0 to 2^64 - 1, outside the mask (`none`). The
  browser's counter is signed.

  Proved:
  - `bounding_box`: with a byte that is not 0 both find the smallest rectangle.
  - `trueImageDimensions_reads_inside_iff`: for any mask, the server's loops end inside it
    exactly when there is such a byte; `all_invalid`.
-/

import FitsWebQL.Lib.Rows
import FitsWebQL.Lib.Search

namespace FitsWebQL

open Lib.Rows Lib.Search

structure Mask where
  width : ℕ
  height : ℕ
  alpha : List UInt8
  length_eq : alpha.length = width * height
  size : width * height < 2 ^ 63

/-- `alpha[i] > 0`, `none` outside. -/
def Mask.read (m : Mask) (i : ℕ) : Option Bool := m.alpha[i]?.map fun b => decide (0 < b)

def trueImageDimensions (m : Mask) : Option (ℤ × ℤ) := do
  let linesize := m.width
  let length := m.width * m.height
  -- find y1
  let i ← (List.range length).findM? m.read
  let y1 := (i.map (· / linesize)).getD 0
  -- find y2
  let i ← ((List.range length).reverse ++ [2 ^ 64 - 1]).findM? m.read
  let y2 := (i.map (· / linesize)).getD 0
  let found_data := fun x => ((List.range' y1 (y2 + 1 - y1)).findM? fun y => m.read (y * linesize + x)).map Option.isSome
  -- find x1
  let x ← (List.range m.width).findM? found_data
  let x1 := x.getD 0
  -- find x2
  let x ← (List.range m.width).reverse.findM? found_data
  let x2 := x.getD 0
  some (|(x2 : ℤ) - x1| + 1, |(y2 : ℤ) - y1| + 1)

/-! ## In the browser -/

/-- `n | 0`. -/
def toInt32 (n : ℤ) : ℤ := n.bmod (2 ^ 32)

/-- `undefined > 0` is false. -/
def Mask.alphaAt (m : Mask) (i : ℕ) : Bool := m.alpha[i]?.any fun b => 0 < b

structure BoundingDims where
  x1 : ℤ
  y1 : ℤ
  y2 : ℤ
  width : ℤ
  height : ℤ
  deriving DecidableEq

def browserImageDimensions (m : Mask) : BoundingDims :=
  let width := toInt32 m.width
  let height := toInt32 m.height
  let linesize := width.toNat
  let length := (toInt32 (width * height)).toNat
  let y1 := (((List.range length).find? m.alphaAt).map (· / linesize)).getD 0
  let y2 := (((List.range length).reverse.find? m.alphaAt).map (· / linesize)).getD 0
  let found_data := fun x => (List.range' y1 (y2 + 1 - y1)).any fun y => m.alphaAt (y * linesize + x)
  let x1 := ((List.range width.toNat).find? found_data).getD 0
  let x2 := ((List.range width.toNat).reverse.find? found_data).getD 0
  -- y1 and y2 are swapped in WebGL
  { x1 := x1, y1 := y1, y2 := (height - 1) - y2, width := |(x2 : ℤ) - x1| + 1, height := |(y2 : ℤ) - y1| + 1 }

/-! ## Rows and columns -/

namespace Mask

variable (m : Mask)

def Valid (x y : ℕ) : Prop := x < m.width ∧ y < m.height ∧ m.read (place m.width y x) = some true

def rows : Set ℕ := {y | ∃ x, m.Valid x y}

def columns : Set ℕ := {x | ∃ y, m.Valid x y}

def mirroredRows : Set ℕ := {y | y < m.height ∧ m.height - 1 - y ∈ m.rows}

def Within (x1 x2 y1 y2 : ℕ) : Prop := ∀ x y, m.Valid x y → (x1 ≤ x ∧ x ≤ x2) ∧ y1 ≤ y ∧ y ≤ y2

variable {m}

theorem read_eq {i : ℕ} (hi : i < m.width * m.height) : m.read i = some (m.alphaAt i) := by
  unfold read alphaAt
  rw [List.getElem?_eq_getElem (by rw [m.length_eq]; exact hi)]
  rfl

theorem read_outside {i : ℕ} (hi : m.width * m.height ≤ i) : m.read i = none := by
  unfold read
  rw [List.getElem?_eq_none (by rw [m.length_eq]; exact hi)]
  rfl

theorem lt_of_read {i : ℕ} (h : m.read i = some true) : i < m.width * m.height := by
  by_contra hout
  rw [read_outside (by omega)] at h
  cases h

/-- The pixel of a byte. -/
theorem read_iff_valid {i : ℕ} (hi : i < m.width * m.height) : m.read i = some true ↔ m.Valid (i % m.width) (i / m.width) := by
  have hw : 0 < m.width := Nat.pos_of_ne_zero fun h0 => by simp [h0] at hi
  unfold Valid
  rw [place_div_mod]
  exact ⟨fun h => ⟨Nat.mod_lt i hw, Nat.div_lt_of_lt_mul hi, h⟩, fun h => h.2.2⟩

theorem exists_read (h : ∃ b ∈ m.alpha, b ≠ 0) : ∃ i, m.read i = some true := by
  obtain ⟨b, hb, hne⟩ := h
  obtain ⟨i, hi, rfl⟩ := List.mem_iff_getElem.mp hb
  refine ⟨i, ?_⟩
  unfold read
  rw [List.getElem?_eq_getElem hi, Option.map_some, decide_eq_true (UInt8.pos_iff_ne_zero.mpr hne)]

/-! ## The four edges -/

theorem least_row {i : ℕ} (h : IsLeast {i | m.read i = some true} i) : IsLeast m.rows (i / m.width) := by
  obtain ⟨hi, hmin⟩ := h
  refine ⟨⟨_, (read_iff_valid (lt_of_read hi)).mp hi⟩, fun y hy => ?_⟩
  obtain ⟨x, hx, -, hread⟩ := hy
  have hle : i ≤ place m.width y x := hmin hread
  exact (Nat.div_le_div_right hle).trans (place_div y hx).le

theorem greatest_row {i : ℕ} (h : IsGreatest {i | m.read i = some true} i) : IsGreatest m.rows (i / m.width) := by
  obtain ⟨hi, hmax⟩ := h
  refine ⟨⟨_, (read_iff_valid (lt_of_read hi)).mp hi⟩, fun y hy => ?_⟩
  obtain ⟨x, hx, -, hread⟩ := hy
  have hle : y * m.width + x ≤ i := hmax hread
  exact (Nat.le_div_iff_mul_le (by omega)).mpr (by omega)

/-- Valid pixels have a first and a last one, and first and last columns. -/
theorem exists_edges (h : ∃ i, m.read i = some true) :
    ∃ i1 i2 x1 x2, IsLeast {i | m.read i = some true} i1 ∧ IsGreatest {i | m.read i = some true} i2 ∧ IsLeast m.columns x1 ∧
      IsGreatest m.columns x2 := by
  have hcolumns : m.columns.Nonempty := by
    obtain ⟨i, hi⟩ := h
    exact ⟨_, _, (read_iff_valid (lt_of_read hi)).mp hi⟩
  have hbytes : {i | m.read i = some true}.Nonempty := h
  have hlast : BddAbove {i | m.read i = some true} := ⟨m.width * m.height, fun i hi => (lt_of_read hi).le⟩
  have hright : BddAbove m.columns := ⟨m.width, fun x ⟨y, hx, _⟩ => hx.le⟩
  exact ⟨_, _, _, _, ⟨Nat.sInf_mem hbytes, fun i hi => Nat.sInf_le hi⟩, ⟨Nat.sSup_mem hbytes hlast, fun i hi => le_csSup hlast hi⟩,
    ⟨Nat.sInf_mem hcolumns, fun x hx => Nat.sInf_le hx⟩, ⟨Nat.sSup_mem hcolumns hright, fun x hx => le_csSup hright hx⟩⟩

/-- Between the first and the last row a column is tried throughout. -/
theorem found_iff {y1 y2 x : ℕ} (hy1 : IsLeast m.rows y1) (hy2 : IsGreatest m.rows y2) (hx : x < m.width) :
    ((List.range' y1 (y2 + 1 - y1)).any fun y => m.alphaAt (y * m.width + x)) = true ↔ x ∈ m.columns := by
  obtain ⟨⟨z, -, hy2h, -⟩, hlast⟩ := hy2
  rw [List.any_eq_true]
  constructor
  · intro hfound
    obtain ⟨y, hy, hread⟩ := hfound
    rw [List.mem_range'_1] at hy
    have hyh : y < m.height := by omega
    refine ⟨y, hx, hyh, ?_⟩
    rw [read_eq (place_lt hyh hx)]
    exact congrArg some hread
  · intro hcolumn
    obtain ⟨y, hvalid⟩ := hcolumn
    have hfrom := hy1.2 ⟨x, hvalid⟩
    have hto := hlast ⟨x, hvalid⟩
    refine ⟨y, List.mem_range'_1.mpr (by omega), ?_⟩
    have hread := hvalid.2.2
    rw [read_eq (place_lt hvalid.2.1 hx)] at hread
    exact Option.some.inj hread

end Mask

variable {m : Mask}

open Mask

/-- What the last two loops try. -/
theorem findM_found (y1 : ℕ) {y2 x : ℕ} (hy2 : IsGreatest m.rows y2) (hx : x < m.width) :
    ((List.range' y1 (y2 + 1 - y1)).findM? fun y => m.read (y * m.width + x)).map Option.isSome =
      some ((List.range' y1 (y2 + 1 - y1)).any fun y => m.alphaAt (y * m.width + x)) := by
  obtain ⟨⟨z, -, hy2h, -⟩, -⟩ := hy2
  refine findM_any fun y hy => ?_
  rw [List.mem_range'_1] at hy
  exact read_eq (place_lt (show y < m.height by omega) hx)

/-- The four edges, as either program finds them: any test of bytes and of columns that is the mask's. -/
theorem scans {i1 i2 x1 x2 : ℕ} (hi1 : IsLeast {i | m.read i = some true} i1) (hi2 : IsGreatest {i | m.read i = some true} i2)
    (hx1 : IsLeast m.columns x1) (hx2 : IsGreatest m.columns x2) {read column : ℕ → Option Bool}
    (hread : ∀ i < m.width * m.height, read i = m.read i)
    (hcolumn : ∀ x < m.width, ∃ found, column x = some found ∧ (found = true ↔ x ∈ m.columns)) (rest : List ℕ) :
    (List.range (m.width * m.height)).findM? read = some (some i1) ∧
      ((List.range (m.width * m.height)).reverse ++ rest).findM? read = some (some i2) ∧
      (List.range m.width).findM? column = some (some x1) ∧ (List.range m.width).reverse.findM? column = some (some x2) := by
  have hmiss : ∀ i < m.width * m.height, m.read i ≠ some true → read i = some false := by
    intro i hi hne
    rw [hread i hi, read_eq hi] at *
    cases hb : m.alphaAt i with
    | false => rfl
    | true => exact absurd (congrArg some hb) hne
  have hhit : ∀ x ∈ m.columns, x < m.width ∧ column x = some true := by
    intro x hx
    have hlt : x < m.width := hx.choose_spec.1
    obtain ⟨found, hfound, hiff⟩ := hcolumn x hlt
    exact ⟨hlt, hfound.trans (congrArg some (hiff.mpr hx))⟩
  have hempty : ∀ x < m.width, x ∉ m.columns → column x = some false := by
    intro x hlt hx
    obtain ⟨found, hfound, hiff⟩ := hcolumn x hlt
    rw [hfound]
    exact congrArg some (Bool.eq_false_iff.mpr fun h => hx (hiff.mp h))
  have hl1 := lt_of_read hi1.1
  have hl2 := lt_of_read hi2.1
  have hdown := findM_down (hhit x2 hx2.1).1 (hhit x2 hx2.1).2 (fun j hj hlt => hempty j hlt fun h => absurd (hx2.2 h) (by omega)) []
  rw [List.append_nil] at hdown
  exact ⟨findM_up hl1 ((hread i1 hl1).trans hi1.1) fun j hj => hmiss j (by omega) fun h => absurd (hi1.2 h) (by omega),
    findM_down hl2 ((hread i2 hl2).trans hi2.1) (fun j hj hlt => hmiss j hlt fun h => absurd (hi2.2 h) (by omega)) rest,
    findM_up (hhit x1 hx1.1).1 (hhit x1 hx1.1).2 fun j hj =>
      hempty j (hj.trans (hhit x1 hx1.1).1) fun h => absurd (hx1.2 h) (by omega),
    hdown⟩

section Found

variable {i1 i2 x1 x2 : ℕ} (hi1 : IsLeast {i | m.read i = some true} i1) (hi2 : IsGreatest {i | m.read i = some true} i2)
  (hx1 : IsLeast m.columns x1) (hx2 : IsGreatest m.columns x2)

include hi1 hi2 hx1 hx2

theorem trueImageDimensions_found :
    trueImageDimensions m = some (|(x2 : ℤ) - x1| + 1, |((i2 / m.width : ℕ) : ℤ) - (i1 / m.width : ℕ)| + 1) := by
  have hy1 := least_row hi1
  have hy2 := greatest_row hi2
  obtain ⟨h1, h2, h3, h4⟩ := scans hi1 hi2 hx1 hx2 (fun i _ => rfl)
    (fun x hx => ⟨_, findM_found (i1 / m.width) hy2 hx, found_iff hy1 hy2 hx⟩) [2 ^ 64 - 1]
  unfold trueImageDimensions
  dsimp only
  rw [h1, Option.bind_eq_bind, Option.bind_some, h2]
  dsimp only [Option.bind_eq_bind, Option.bind_some, Option.map_some, Option.getD_some]
  rw [h3]
  dsimp only [Option.bind_some, Option.getD_some]
  rw [h4]
  rfl

/-- The browser's 32-bit numbers hold every place. -/
theorem browserImageDimensions_found (h31 : m.width * m.height < 2 ^ 31) :
    browserImageDimensions m =
      { x1 := x1, y1 := (i1 / m.width : ℕ), y2 := (m.height - 1) - (i2 / m.width : ℕ), width := |(x2 : ℤ) - x1| + 1,
        height := |((i2 / m.width : ℕ) : ℤ) - (i1 / m.width : ℕ)| + 1 } := by
  have hy1 := least_row hi1
  have hy2 := greatest_row hi2
  obtain ⟨h1, h2, h3, h4⟩ := scans hi1 hi2 hx1 hx2 (fun i hi => (read_eq hi).symm)
    (fun x hx => ⟨_, rfl, found_iff hy1 hy2 hx⟩) []
  rw [List.append_nil] at h2
  have hplace := lt_of_read hi1.1
  have hw : 0 < m.width := Nat.pos_of_mul_pos_right (Nat.zero_lt_of_lt hplace)
  have hh : 0 < m.height := Nat.pos_of_mul_pos_left (Nat.zero_lt_of_lt hplace)
  have hwlt : m.width < 2 ^ 31 := (Nat.le_mul_of_pos_right m.width hh).trans_lt h31
  have hhlt : m.height < 2 ^ 31 := (Nat.le_mul_of_pos_left m.height hw).trans_lt h31
  have hint : ∀ n : ℕ, n < 2 ^ 31 → toInt32 n = n := by
    intro n hn
    unfold toInt32
    exact Int.bmod_eq_of_le (by omega) (by omega)
  unfold browserImageDimensions
  dsimp only
  rw [hint _ hwlt, hint _ hhlt, ← Nat.cast_mul, hint _ h31, Int.toNat_natCast, Int.toNat_natCast, find_of_findM h1, find_of_findM h2]
  dsimp only [Option.map_some, Option.getD_some]
  rw [find_of_findM h3, find_of_findM h4]
  rfl

end Found

theorem bounding_box (m : Mask) (h31 : m.width * m.height < 2 ^ 31) (hvalid : ∃ b ∈ m.alpha, b ≠ 0) :
    ∃ x1 x2 y1 y2, (IsLeast m.columns x1 ∧ IsGreatest m.columns x2 ∧ IsLeast m.rows y1 ∧ IsGreatest m.rows y2) ∧
      (m.Within x1 x2 y1 y2 ∧ ∀ a1 a2 b1 b2, m.Within a1 a2 b1 b2 → a1 ≤ x1 ∧ x2 ≤ a2 ∧ b1 ≤ y1 ∧ y2 ≤ b2) ∧
      trueImageDimensions m = some ((x2 : ℤ) - x1 + 1, (y2 : ℤ) - y1 + 1) ∧
      browserImageDimensions m =
        { x1 := x1, y1 := y1, y2 := (m.height - 1) - y2, width := (x2 : ℤ) - x1 + 1, height := (y2 : ℤ) - y1 + 1 } ∧
      IsLeast m.mirroredRows (m.height - 1 - y2) := by
  obtain ⟨i1, i2, x1, x2, hi1, hi2, hx1, hx2⟩ := exists_edges (exists_read hvalid)
  have hy1 := least_row hi1
  have hy2 := greatest_row hi2
  have hserver := trueImageDimensions_found hi1 hi2 hx1 hx2
  have hbrowser := browserImageDimensions_found hi1 hi2 hx1 hx2 h31
  generalize i1 / m.width = y1 at *
  generalize i2 / m.width = y2 at *
  have hxle : x1 ≤ x2 := hx1.2 hx2.1
  have hyle : y1 ≤ y2 := hy1.2 hy2.1
  rw [abs_of_nonneg (by omega), abs_of_nonneg (by omega)] at hserver hbrowser
  refine ⟨x1, x2, y1, y2, ⟨hx1, hx2, hy1, hy2⟩, ⟨fun x y hxy => ?_, fun a1 a2 b1 b2 h => ?_⟩, hserver, hbrowser, ?_, ?_⟩
  · exact ⟨⟨hx1.2 ⟨y, hxy⟩, hx2.2 ⟨y, hxy⟩⟩, hy1.2 ⟨x, hxy⟩, hy2.2 ⟨x, hxy⟩⟩
  · obtain ⟨ya, hya⟩ := hx1.1
    obtain ⟨yb, hyb⟩ := hx2.1
    obtain ⟨xa, hxa⟩ := hy1.1
    obtain ⟨xb, hxb⟩ := hy2.1
    exact ⟨(h _ _ hya).1.1, (h _ _ hyb).1.2, (h _ _ hxa).2.1, (h _ _ hxb).2.2⟩
  · have hlt : y2 < m.height := hy2.1.choose_spec.2.1
    refine ⟨by omega, ?_⟩
    rw [show m.height - 1 - (m.height - 1 - y2) = y2 by omega]
    exact hy2.1
  · rintro y ⟨hylt, hy⟩
    have hle := hy2.2 hy
    omega

def diagonalMask : Mask where
  width := 3
  height := 2
  alpha := [0, 255, 0, 0, 0, 1]
  length_eq := rfl
  size := by decide

theorem bounding_box_two :
    ∃ x1 x2 y1 y2, (IsLeast diagonalMask.columns x1 ∧ IsGreatest diagonalMask.columns x2 ∧ IsLeast diagonalMask.rows y1 ∧
        IsGreatest diagonalMask.rows y2) ∧
      (diagonalMask.Within x1 x2 y1 y2 ∧ ∀ a1 a2 b1 b2, diagonalMask.Within a1 a2 b1 b2 → a1 ≤ x1 ∧ x2 ≤ a2 ∧ b1 ≤ y1 ∧ y2 ≤ b2) ∧
      trueImageDimensions diagonalMask = some ((x2 : ℤ) - x1 + 1, (y2 : ℤ) - y1 + 1) ∧
      browserImageDimensions diagonalMask =
        { x1 := x1, y1 := y1, y2 := (diagonalMask.height - 1) - y2, width := (x2 : ℤ) - x1 + 1, height := (y2 : ℤ) - y1 + 1 } ∧
      IsLeast diagonalMask.mirroredRows (diagonalMask.height - 1 - y2) :=
  bounding_box diagonalMask (by decide) (by decide)

/-! ## Where the loops end -/

theorem trueImageDimensions_reads_inside_iff (m : Mask) : (trueImageDimensions m).isSome ↔ ∃ b ∈ m.alpha, b ≠ 0 := by
  constructor
  · intro h
    by_contra hnone
    push Not at hnone
    have hzero : ∀ i < m.width * m.height, m.read i = some false := by
      intro i hi
      rw [← m.length_eq] at hi
      unfold Mask.read
      rw [List.getElem?_eq_getElem hi, hnone _ (List.getElem_mem hi)]
      rfl
    have hup := findM_none fun i hi => hzero i (List.mem_range.mp hi)
    -- the counter has wrapped
    have hdown : ((List.range (m.width * m.height)).reverse ++ [2 ^ 64 - 1]).findM? m.read = none := by
      have hsize := m.size
      refine findM_fault (fun i hi => hzero i (List.mem_range.mp (List.mem_reverse.mp hi))) (read_outside ?_)
      omega
    unfold trueImageDimensions at h
    dsimp only at h
    rw [hup, Option.bind_eq_bind, Option.bind_some, hdown, Option.bind_none] at h
    cases h
  · intro h
    obtain ⟨i1, i2, x1, x2, hi1, hi2, hx1, hx2⟩ := exists_edges (exists_read h)
    rw [trueImageDimensions_found hi1 hi2 hx1 hx2]
    rfl

def invalidMask : Mask where
  width := 1
  height := 1
  alpha := [0]
  length_eq := rfl
  size := by decide

theorem all_invalid : trueImageDimensions invalidMask = none := by
  decide

end FitsWebQL
