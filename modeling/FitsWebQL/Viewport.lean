/-
  FitsWebQL.Viewport — the part of the image that a real-time request asks for, copied to
  two buffers of `native_size` floats, pixels and mask, with 0 where the rectangle is outside
  the image. The rectangle is the client's, four `int`s in any order; the buffers are of
  |x2 - x1 + 1| by |y2 - y1 + 1|, the loops go upwards from x1 to x2 and from y1 to y2.

  `none` is a signed overflow, a place outside a buffer or the image, or the assertion
  `dst_offset == native_size` at the end.

  Proved, for every rectangle, image and outcome of the two allocations:
  - `viewport_fills_iff`: both buffers are filled, and nothing else touched, exactly when the
    rectangle is not reversed (or has no row or column), and the `int`s and the memory suffice.
  - `viewport_reversed`.
-/

import FitsWebQL.Lib.Rows
import FitsWebQL.Lib.Tiling

namespace FitsWebQL

open Lib.Tiling

/-- `img_pixels` and `img_mask`. A pixel is `none` for NaN and the infinities. -/
structure ViewImage where
  width : ℕ
  height : ℕ
  img_pixels : List (Option ℚ)
  img_mask : List UInt8
  pixels_length : img_pixels.length = width * height
  mask_length : img_mask.length = width * height
  size : width * height < 2 ^ 63

structure ViewRectangle where
  x1 : ℤ
  y1 : ℤ
  x2 : ℤ
  y2 : ℤ
  x1_int : -2 ^ 31 ≤ x1 ∧ x1 < 2 ^ 31
  y1_int : -2 ^ 31 ≤ y1 ∧ y1 < 2 ^ 31
  x2_int : -2 ^ 31 ≤ x2 ∧ x2 < 2 ^ 31
  y2_int : -2 ^ 31 ≤ y2 ∧ y2 < 2 ^ 31

structure ViewBuffers where
  view_pixels : Bool
  view_mask : Bool

def intResult (n : ℤ) : Option ℤ := if -2 ^ 31 ≤ n ∧ n < 2 ^ 31 then some n else none

def longResult (n : ℤ) : Option ℤ := if -2 ^ 63 ≤ n ∧ n < 2 ^ 63 then some n else none

/-- `for (int i = a; i <= b; i++)`: the last `i++` has to fit too. -/
def countUp (a b : ℤ) : Option (List ℤ) := if a ≤ b then (intResult (b + 1)).map fun stop => ints a stop else some []

/-- `abs(a2 - a1 + 1)`. -/
def viewDim (a1 a2 : ℤ) : Option ℕ := do
  let d ← intResult (a2 - a1)
  let d ← intResult (d + 1)
  let dim ← intResult |d|
  some dim.toNat

def viewPixel (img : ViewImage) (src_offset i j : ℤ) : Option (Option ℚ × ℚ) :=
  if 0 ≤ i ∧ i < img.width ∧ 0 ≤ j ∧ j < img.height then do
    -- the sum is a `size_t`
    let src := ((src_offset + i) % 2 ^ 64).toNat
    let pixel ← img.img_pixels[src]?
    let mask ← img.img_mask[src]?
    some (pixel, if mask = 255 then 1 else 0)
  else some (some 0, 0)

/-- The body of the inner loop. `written` is what both buffers hold, `dst_offset` its length. -/
def viewStore (img : ViewImage) (buffers : ViewBuffers) (native_size : ℕ) (src_offset j : ℤ) (written : List (Option ℚ × ℚ))
    (i : ℤ) : Option (List (Option ℚ × ℚ)) := do
  let v ← viewPixel img src_offset i j
  if buffers.view_pixels && buffers.view_mask && decide (written.length < native_size) then some (written ++ [v]) else none

def viewRow (img : ViewImage) (buffers : ViewBuffers) (native_size : ℕ) (x1 x2 : ℤ) (written : List (Option ℚ × ℚ)) (j : ℤ) :
    Option (List (Option ℚ × ℚ)) := do
  let src_offset ← longResult (j * img.width)
  let is ← countUp x1 x2
  is.foldlM (viewStore img buffers native_size src_offset j) written

def viewport (img : ViewImage) (buffers : ViewBuffers) (r : ViewRectangle) : Option (List (Option ℚ × ℚ)) := do
  let dimx ← viewDim r.x1 r.x2
  let dimy ← viewDim r.y1 r.y2
  let native_size := dimx * dimy
  let js ← countUp r.y1 r.y2
  let written ← js.foldlM (viewRow img buffers native_size r.x1 r.x2) []
  if written.length = native_size then some written else none

/-- `native_size` elements are written to each buffer, and none outside. -/
def FillsBuffer (img : ViewImage) (buffers : ViewBuffers) (r : ViewRectangle) : Prop :=
  ∃ written, viewport img buffers r = some written ∧ written.length = (r.x2 - r.x1 + 1).natAbs * (r.y2 - r.y1 + 1).natAbs

structure ViewFits (img : ViewImage) (buffers : ViewBuffers) (r : ViewRectangle) : Prop where
  /-- The `int`s of the dimensions. -/
  dimx : -2 ^ 31 ≤ r.x2 - r.x1 ∧ r.x2 - r.x1 ≤ 2 ^ 31 - 2
  dimy : -2 ^ 31 ≤ r.y2 - r.y1 ∧ r.y2 - r.y1 ≤ 2 ^ 31 - 2
  /-- Not reversed, or nothing to copy. -/
  ordered : (r.x1 ≤ r.x2 + 1 ∧ r.y1 ≤ r.y2 + 1) ∨ r.x2 + 1 = r.x1 ∨ r.y2 + 1 = r.y1
  /-- The counters, and the offset of each row. -/
  rows : r.y1 ≤ r.y2 → r.y2 < 2 ^ 31 - 1 ∧ ∀ j, r.y1 ≤ j → j ≤ r.y2 → -2 ^ 63 ≤ j * img.width ∧ j * img.width < 2 ^ 63
  columns : r.y1 ≤ r.y2 → r.x1 ≤ r.x2 → r.x2 < 2 ^ 31 - 1
  memory : r.y1 ≤ r.y2 → r.x1 ≤ r.x2 → buffers.view_pixels = true ∧ buffers.view_mask = true

/-! ## Dimensions and counters -/

theorem intResult_eq_some {n m : ℤ} : intResult n = some m ↔ (-2 ^ 31 ≤ n ∧ n < 2 ^ 31) ∧ n = m := by
  unfold intResult
  rw [Option.ite_none_right_eq_some, Option.some.injEq]

theorem viewDim_eq_some {a1 a2 : ℤ} {dim : ℕ} :
    viewDim a1 a2 = some dim ↔ (-2 ^ 31 ≤ a2 - a1 ∧ a2 - a1 ≤ 2 ^ 31 - 2) ∧ dim = (a2 - a1 + 1).natAbs := by
  unfold viewDim
  simp only [Option.bind_eq_bind, Option.bind_eq_some_iff, intResult_eq_some, Option.some.injEq, Int.abs_eq_natAbs]
  constructor
  · intro h
    obtain ⟨d, ⟨hd, rfl⟩, d', ⟨hd', rfl⟩, e, ⟨he, rfl⟩, rfl⟩ := h
    omega
  · intro h
    obtain ⟨hd, rfl⟩ := h
    exact ⟨_, ⟨by omega, rfl⟩, _, ⟨by omega, rfl⟩, _, ⟨by omega, rfl⟩, by omega⟩

theorem countUp_eq_some {a b : ℤ} {l : List ℤ} :
    countUp a b = some l ↔ (a ≤ b → -2 ^ 31 ≤ b + 1 ∧ b + 1 < 2 ^ 31) ∧ l = ints a (b + 1) := by
  unfold countUp
  split
  · rename_i hle
    simp only [Option.map_eq_some_iff, intResult_eq_some, hle, forall_const]
    constructor
    · intro h
      obtain ⟨stop, ⟨hstop, rfl⟩, rfl⟩ := h
      exact ⟨hstop, rfl⟩
    · intro h
      obtain ⟨hstop, rfl⟩ := h
      exact ⟨_, ⟨hstop, rfl⟩, rfl⟩
  · rename_i hgt
    rw [ints_nil (show b + 1 ≤ a by omega), Option.some.injEq]
    exact ⟨fun h => ⟨fun hle => absurd hle hgt, h.symm⟩, fun h => h.2.symm⟩

theorem ints_length (a b : ℤ) : (ints a b).length = (b - a).toNat := by
  rw [ints, List.length_map, List.length_range]

/-! ## How much is written -/

/-- A loop whose every turn writes as much, if it may. -/
theorem foldlM_writes {ι β : Type} {f : List β → ι → Option (List β)} {ok : ι → Prop} {room : Prop} {m N : ℕ}
    (hf : ∀ (w : List β) (i : ι) (n : ℕ), (f w i).map List.length = some n ↔
      ok i ∧ (m ≠ 0 → room ∧ w.length + m ≤ N) ∧ n = w.length + m) (l : List ι) (w : List β) (n : ℕ) :
    (l.foldlM f w).map List.length = some n ↔
      (∀ i ∈ l, ok i) ∧ (l.length * m ≠ 0 → room ∧ w.length + l.length * m ≤ N) ∧ n = w.length + l.length * m := by
  induction l generalizing w with
  | nil =>
    simp only [List.foldlM_nil, Option.pure_def, Option.map_some, Option.some.injEq, List.not_mem_nil, List.length_nil, Nat.zero_mul]
    exact ⟨fun h => ⟨nofun, fun h0 => absurd rfl h0, h.symm⟩, fun h => h.2.2.symm⟩
  | cons i l ih =>
    have hlen : (i :: l).length * m = m + l.length * m := by rw [List.length_cons, Nat.succ_mul, Nat.add_comm]
    rw [List.foldlM_cons, hlen]
    constructor
    · intro h
      cases hw' : f w i with
      | none =>
        rw [hw'] at h
        cases h
      | some w' =>
        rw [hw'] at h
        obtain ⟨hok, hroom, hn⟩ := (hf w i w'.length).mp (by rw [hw']; rfl)
        obtain ⟨hoks, hrooms, hns⟩ := (ih w').mp h
        refine ⟨List.forall_mem_cons.mpr ⟨hok, hoks⟩, fun hne => ?_, by omega⟩
        by_cases hm : m = 0
        · have := hrooms (by omega)
          exact ⟨this.1, by omega⟩
        · by_cases hrest : l.length * m = 0
          · have := hroom hm
            exact ⟨this.1, by omega⟩
          · have := hrooms hrest
            exact ⟨this.1, by omega⟩
    · intro h
      obtain ⟨hoks, hrooms, rfl⟩ := h
      obtain ⟨hok, hoks⟩ := List.forall_mem_cons.mp hoks
      have hstep := (hf w i (w.length + m)).mpr ⟨hok, fun hm => ⟨(hrooms (by omega)).1, by have := (hrooms (by omega)).2; omega⟩, rfl⟩
      obtain ⟨w', hw', hlen'⟩ := Option.map_eq_some_iff.mp hstep
      rw [hw']
      exact (ih w').mpr ⟨hoks, fun hrest => ⟨(hrooms (by omega)).1, by have := (hrooms (by omega)).2; omega⟩, by omega⟩

/-- Nothing is read outside the image. -/
theorem viewPixel_isSome (img : ViewImage) (i j : ℤ) : ∃ v, viewPixel img (j * img.width) i j = some v := by
  unfold viewPixel
  split
  · rename_i hin
    obtain ⟨hi0, hiw, hj0, hjh⟩ := hin
    obtain ⟨x, rfl⟩ := Int.eq_ofNat_of_zero_le hi0
    obtain ⟨y, rfl⟩ := Int.eq_ofNat_of_zero_le hj0
    have hplace : y * img.width + x < img.width * img.height := Lib.Rows.place_lt (by omega) (by omega)
    have hsize := img.size
    have hsrc : (((y : ℤ) * img.width + x) % 2 ^ 64).toNat = y * img.width + x := by
      rw [← Nat.cast_mul, ← Nat.cast_add, Int.emod_eq_of_lt (by omega) (by omega)]
      rfl
    dsimp only
    rw [hsrc, List.getElem?_eq_getElem (by rw [img.pixels_length]; exact hplace),
      List.getElem?_eq_getElem (by rw [img.mask_length]; exact hplace)]
    exact ⟨_, rfl⟩
  · exact ⟨_, rfl⟩

section Writes

variable (img : ViewImage) (buffers : ViewBuffers) (N : ℕ)

theorem viewStore_writes (j : ℤ) (w : List (Option ℚ × ℚ)) (i : ℤ) (n : ℕ) :
    (viewStore img buffers N (j * img.width) j w i).map List.length = some n ↔
      True ∧ (1 ≠ 0 → (buffers.view_pixels = true ∧ buffers.view_mask = true) ∧ w.length + 1 ≤ N) ∧ n = w.length + 1 := by
  obtain ⟨v, hv⟩ := viewPixel_isSome img i j
  unfold viewStore
  rw [hv]
  simp only [Option.bind_eq_bind, Option.bind_some, Option.map_eq_some_iff, Option.ite_none_right_eq_some, Bool.and_eq_true,
    decide_eq_true_eq, Option.some.injEq]
  constructor
  · intro h
    obtain ⟨w', ⟨⟨hroom, hlt⟩, rfl⟩, rfl⟩ := h
    exact ⟨trivial, fun _ => ⟨hroom, hlt⟩, by simp⟩
  · intro h
    obtain ⟨-, hroom, rfl⟩ := h
    exact ⟨_, ⟨hroom (by decide), rfl⟩, by simp⟩

theorem viewRow_writes (x1 x2 : ℤ) (w : List (Option ℚ × ℚ)) (j : ℤ) (n : ℕ) :
    (viewRow img buffers N x1 x2 w j).map List.length = some n ↔
      ((-2 ^ 63 ≤ j * img.width ∧ j * img.width < 2 ^ 63) ∧ (x1 ≤ x2 → -2 ^ 31 ≤ x2 + 1 ∧ x2 + 1 < 2 ^ 31)) ∧
        ((x2 + 1 - x1).toNat ≠ 0 → (buffers.view_pixels = true ∧ buffers.view_mask = true) ∧ w.length + (x2 + 1 - x1).toNat ≤ N) ∧
          n = w.length + (x2 + 1 - x1).toNat := by
  have hwrites := foldlM_writes (viewStore_writes img buffers N j) (ints x1 (x2 + 1)) w n
  rw [ints_length, Nat.mul_one] at hwrites
  unfold viewRow longResult
  constructor
  · intro h
    obtain ⟨w', hw', hn⟩ := Option.map_eq_some_iff.mp h
    simp only [Option.bind_eq_bind, Option.bind_eq_some_iff, Option.ite_none_right_eq_some, Option.some.injEq, countUp_eq_some] at hw'
    obtain ⟨src, ⟨hsrc, rfl⟩, is, ⟨his, rfl⟩, hfold⟩ := hw'
    exact ⟨⟨hsrc, his⟩, (hwrites.mp (Option.map_eq_some_iff.mpr ⟨w', hfold, hn⟩)).2⟩
  · intro h
    obtain ⟨⟨hsrc, his⟩, hroom⟩ := h
    rw [if_pos hsrc, Option.bind_eq_bind, Option.bind_some, countUp_eq_some.mpr ⟨his, rfl⟩]
    exact hwrites.mpr ⟨fun _ _ => trivial, hroom⟩

end Writes

/-- The loops count upwards what the dimensions count in either direction. -/
theorem written_eq_iff (a b : ℤ) : b.toNat * a.toNat = a.natAbs * b.natAbs ↔ (0 ≤ a ∧ 0 ≤ b) ∨ a = 0 ∨ b = 0 := by
  constructor
  · intro h
    by_contra hnot
    push Not at hnot
    obtain ⟨hneg, ha, hb⟩ := hnot
    have hpos : 0 < a.natAbs * b.natAbs := Nat.mul_pos (by omega) (by omega)
    rcases lt_or_ge a 0 with h0 | h0
    · rw [show a.toNat = 0 by omega, Nat.mul_zero] at h
      omega
    · rw [show b.toNat = 0 by have := hneg h0; omega, Nat.zero_mul] at h
      omega
  · intro h
    rcases h with ⟨ha, hb⟩ | rfl | rfl
    · rw [show a.natAbs = a.toNat by omega, show b.natAbs = b.toNat by omega, Nat.mul_comm]
    · simp
    · simp

/-! ## Exactly when -/

theorem viewport_fills_iff (img : ViewImage) (buffers : ViewBuffers) (r : ViewRectangle) :
    FillsBuffer img buffers r ↔ ViewFits img buffers r := by
  have hwrites := fun N n => foldlM_writes (fun w j n => viewRow_writes img buffers N r.x1 r.x2 w j n) (ints r.y1 (r.y2 + 1)) [] n
  simp only [ints_length, List.length_nil, Nat.zero_add, mem_ints] at hwrites
  have hcount := written_eq_iff (r.x2 - r.x1 + 1) (r.y2 - r.y1 + 1)
  have hx : r.x2 + 1 - r.x1 = r.x2 - r.x1 + 1 := by ring
  have hy : r.y2 + 1 - r.y1 = r.y2 - r.y1 + 1 := by ring
  rw [hx, hy] at hwrites
  have hrx := r.x2_int
  have hry := r.y2_int
  constructor
  · intro h
    obtain ⟨written, hview, hlen⟩ := h
    unfold viewport at hview
    simp only [Option.bind_eq_bind, Option.bind_eq_some_iff, viewDim_eq_some, countUp_eq_some, Option.ite_none_right_eq_some,
      Option.some.injEq] at hview
    obtain ⟨dimx, ⟨hdimx, rfl⟩, dimy, ⟨hdimy, rfl⟩, js, ⟨hjs, rfl⟩, w, hfold, -, rfl⟩ := hview
    obtain ⟨hrows, hroom, hn⟩ := (hwrites _ _).mp (Option.map_eq_some_iff.mpr ⟨w, hfold, rfl⟩)
    refine ⟨hdimx, hdimy, ?_, fun hle => ⟨?_, fun j hj hj' => ?_⟩, fun hle hle' => ?_, fun hle hle' => ?_⟩
    · have := hcount.mp (hn.symm.trans hlen)
      omega
    · have := hjs hle
      omega
    · exact (hrows j ⟨hj, by omega⟩).1
    · have := (hrows r.y1 ⟨le_refl _, by omega⟩).2 hle'
      omega
    · exact (hroom (Nat.mul_pos (by omega) (by omega)).ne').1
  · intro h
    obtain ⟨hdimx, hdimy, hordered, hrows, hcolumns, hmemory⟩ := h
    have heq := hcount.mpr (by omega)
    have hfold := (hwrites ((r.x2 - r.x1 + 1).natAbs * (r.y2 - r.y1 + 1).natAbs) _).mpr
      ⟨fun j hj => ⟨(hrows (by omega)).2 j hj.1 (by omega), fun hle => by have := hcolumns (by omega) hle; omega⟩,
        fun hne => ⟨hmemory ?_ ?_, heq.le⟩, rfl⟩
    · obtain ⟨w, hw, hn⟩ := Option.map_eq_some_iff.mp hfold
      refine ⟨w, ?_, hn.trans heq⟩
      unfold viewport
      simp only [Option.bind_eq_bind, Option.bind_eq_some_iff, viewDim_eq_some, countUp_eq_some, Option.ite_none_right_eq_some,
        Option.some.injEq]
      exact ⟨_, ⟨hdimx, rfl⟩, _, ⟨hdimy, rfl⟩, _, ⟨fun hle => by have := (hrows hle).1; omega, rfl⟩, w, hw, hn.trans heq, rfl⟩
    · have := Nat.pos_of_mul_pos_right (Nat.pos_of_ne_zero hne)
      omega
    · have := Nat.pos_of_mul_pos_left (Nat.pos_of_ne_zero hne)
      omega

theorem zero_int : (-2 ^ 31 : ℤ) ≤ 0 ∧ (0 : ℤ) < 2 ^ 31 := by decide

theorem two_int : (-2 ^ 31 : ℤ) ≤ 2 ∧ (2 : ℤ) < 2 ^ 31 := by decide

def reversedRectangle : ViewRectangle where
  x1 := 2
  y1 := 0
  x2 := 0
  y2 := 0
  x1_int := two_int
  y1_int := zero_int
  x2_int := zero_int
  y2_int := zero_int

theorem three_pixels : 3 * 1 < 2 ^ 63 := by decide

def darkRow : ViewImage where
  width := 3
  height := 1
  img_pixels := [some 0, some 0, some 0]
  img_mask := [0, 0, 0]
  pixels_length := rfl
  mask_length := rfl
  size := three_pixels

theorem viewport_reversed : ¬ FillsBuffer darkRow ⟨true, true⟩ reversedRectangle := by
  intro h
  obtain ⟨written, hwritten, -⟩ := h
  have hfails : viewport darkRow ⟨true, true⟩ reversedRectangle = none := by decide
  rw [hfails] at hwritten
  cases hwritten

end FitsWebQL
