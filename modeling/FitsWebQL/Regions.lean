/-
  FitsWebQL.Regions — how a group of up to four planes is cut into 256 x 256 regions
  and compressed (`FITS::zfp_compress_cube`), and what a region decompresses to.

  `make_planeF32` turns each plane into physical pixels (0 where invalid) and a mask
  (255 or 0). Region `(idy, idx)` of the group is a ZFP stream of 64 x 64 blocks of
  4 x 4 x 4 pixels and, for each plane, an LZ4 block of 256 x 256 mask bytes; pixels
  outside the image are 0 with mask 0. Decoding puts block values back at their pixels
  and writes NaN where the mask is 0 (`nan_mask`), then stores half floats.

  Proved: a decoded region of the compressed group holds, at each of its pixels inside
  the image, the plane's physical value there, and NaN elsewhere
  (`frameRegion_zfpCompressCube`), and so does every frame of a cube compressed group by
  group (`frameRegion_zfpCompress`).
-/

import FitsWebQL.Pixel

namespace FitsWebQL

def ZFP_CACHE_REGION : ℤ := 256

/-- `make_indices`: C division, so toward zero. -/
def makeIndices (x y : ℤ) : ℤ × ℤ := (x.tdiv ZFP_CACHE_REGION, y.tdiv ZFP_CACHE_REGION)

/-- `std::map<int, std::map<int, ...>>`, from `idy` and `idx`. -/
abbrev CompressedBlocks (β : Type) := ℤ → ℤ → Option β

/-! ## make_planeF32 -/

def makePlaneF32Pixels (s : Scale) (src : Plane) (i : ℕ) : ℚ := (s.pixel src i).getD 0

def makePlaneF32Mask (s : Scale) (src : Plane) (i : ℕ) : UInt8 := if (s.pixel src i).isSome then 255 else 0

/-! ## The 4x4x4 blocks -/

/-- The encoder's loops: value `o` of the `n`-th block of a region whose pixel of plane
    `k` at row `y`, column `x` is `val k y x`. -/
def blockOf (val : ℕ → ℕ → ℕ → ℚ) (n o : ℕ) : ℚ :=
  val (o / 16) (4 * (n / 64) + o / 4 % 4) (4 * (n % 64) + o % 4)

/-- The decoder's loops: `_pixels[k][j]` from the blocks of the stream. -/
def unblock (block : ℕ → ℕ → ℚ) (k j : ℕ) : ℚ :=
  block (j / 256 / 4 * 64 + j % 256 / 4) (16 * k + 4 * (j / 256 % 4) + j % 256 % 4)

theorem unblock_blockOf (val : ℕ → ℕ → ℕ → ℚ) (k j : ℕ) :
    unblock (blockOf val) k j = val k (j / 256) (j % 256) := by
  have hk : (16 * k + 4 * (j / 256 % 4) + j % 256 % 4) / 16 = k := by omega
  have hy : 4 * ((j / 256 / 4 * 64 + j % 256 / 4) / 64) +
      (16 * k + 4 * (j / 256 % 4) + j % 256 % 4) / 4 % 4 = j / 256 := by omega
  have hx : 4 * ((j / 256 / 4 * 64 + j % 256 / 4) % 64) +
      (16 * k + 4 * (j / 256 % 4) + j % 256 % 4) % 4 = j % 256 := by omega
  simp only [unblock, blockOf, hk, hy, hx]

/-! ## zfp_compress_cube -/

variable (C : Codec)

/-- Row `y`, column `x` of region `(idy, idx)`: the image's pixel there, or the padding. -/
def cutRegion {α : Type} (width height : ℤ) (pad : α) (plane : ℕ → α) (idy idx : ℤ) (y x : ℕ) : α :=
  let src_y := idy * ZFP_CACHE_REGION
  let src_x := idx * ZFP_CACHE_REGION
  if width ≤ src_x + x ∨ height ≤ src_y + y then pad
  else plane ((src_y + y) * width + (src_x + x)).toNat

/-- The loops over `src_y` and `src_x` visit the regions that meet the image. -/
def regionInImage (width height idy idx : ℤ) : Bool :=
  decide (0 ≤ idy) && decide (idy * ZFP_CACHE_REGION < height) &&
    (decide (0 ≤ idx) && decide (idx * ZFP_CACHE_REGION < width))

theorem regionInImage_iff {width height idy idx : ℤ} :
    regionInImage width height idy idx = true ↔
      (0 ≤ idy ∧ idy * ZFP_CACHE_REGION < height) ∧ 0 ≤ idx ∧ idx * ZFP_CACHE_REGION < width := by
  simp only [regionInImage, Bool.and_eq_true, decide_eq_true_eq]

/-- The pixel blocks of a group, `pixels k` being its plane `k` after `make_planeF32`. -/
def compressPixels (width height : ℤ) (pixels : ℕ → ℕ → ℚ) : CompressedBlocks C.Zfp := fun idy idx =>
  if regionInImage width height idy idx then
    some (C.encodeZfp (blockOf fun k => cutRegion width height 0 (pixels k) idy idx))
  else none

def compressMask (width height : ℤ) (mask : ℕ → UInt8) : CompressedBlocks C.Lz4 := fun idy idx =>
  if regionInImage width height idy idx then
    some (C.lz4CompressHC fun j => cutRegion width height 0 mask idy idx (j / 256) (j % 256))
  else none

structure Cube where
  width : ℤ
  height : ℤ
  depth : ℤ
  cubePixels : ℕ → Option (CompressedBlocks C.Zfp)
  cubeMask : ℕ → Option (CompressedBlocks C.Lz4)

variable {C}

/-- `zfp_compress_cube(start_k)` with all the group's planes present. The planes past
    the end of the cube are zero, with a zero mask. -/
def Cube.zfpCompressCube (q : Cube C) (s : Scale) (fits_cube : ℕ → Plane) (start_k : ℕ) : Cube C :=
  let pixels : ℕ → ℕ → ℚ := fun k =>
    if (start_k + k : ℤ) < q.depth then makePlaneF32Pixels s (fits_cube (start_k + k)) else fun _ => 0
  let mask : ℕ → ℕ → UInt8 := fun k =>
    if (start_k + k : ℤ) < q.depth then makePlaneF32Mask s (fits_cube (start_k + k)) else fun _ => 0
  { q with
    cubePixels := fun g => if g = start_k / 4 then some (compressPixels C q.width q.height pixels) else q.cubePixels g
    cubeMask := fun f => if start_k ≤ f ∧ f < start_k + 4 then some (compressMask C q.width q.height (mask (f - start_k)))
      else q.cubeMask f }

/-! ## Decoding -/

def nanMask (buffer : ℕ → ℚ) (mask : ℕ → UInt8) (i : ℕ) : Option ℚ := if mask i = 0 then none else some (buffer i)

/-- `f32tof16`: a plain conversion, the rescaling by the frame's range is commented out. -/
def f32tof16 (src : ℕ → Option ℚ) : C.Region := fun i => C.floatToHalfFast (src i)

/-- The region `(idy, idx)` of frame `f`: plane `f mod 4` of group `f / 4`, with the
    mask of frame `f` applied. -/
def Cube.frameRegion (q : Cube C) (f : ℕ) (idy idx : ℤ) : Option C.Region := do
  let pixel_blocks ← q.cubePixels (f / 4)
  let stream ← pixel_blocks idy idx
  let mask_blocks ← q.cubeMask f
  let buffer ← mask_blocks idy idx
  let mask ← C.lz4DecompressSafe buffer
  some (f32tof16 (nanMask (unblock (C.decodeZfp stream) (f % 4)) mask))

/-- What a region of a plane should hold: the physical pixels inside the image. -/
def regionOf (width height : ℤ) (phys : ℕ → Option ℚ) (idy idx : ℤ) (j : ℕ) : Option ℚ :=
  cutRegion width height none phys idy idx (j / 256) (j % 256)

/-- Pixel `(y, x)` of a region, read back. -/
theorem regionOf_read (width height : ℤ) (phys : ℕ → Option ℚ) {idy idx y x : ℤ} (hy : 0 ≤ y ∧ y < ZFP_CACHE_REGION)
    (hx : 0 ≤ x ∧ x < ZFP_CACHE_REGION) (hh : ZFP_CACHE_REGION * idy + y < height) (hw : ZFP_CACHE_REGION * idx + x < width) :
    C.halfToFloatFast (f32tof16 (regionOf width height phys idy idx) (y * ZFP_CACHE_REGION + x).toNat) =
      phys ((ZFP_CACHE_REGION * idy + y) * width + (ZFP_CACHE_REGION * idx + x)).toNat := by
  simp only [ZFP_CACHE_REGION] at *
  have hrow : (((y * 256 + x).toNat / 256 : ℕ) : ℤ) = y := by omega
  have hcol : (((y * 256 + x).toNat % 256 : ℕ) : ℤ) = x := by omega
  have hin : ¬ (width ≤ idx * 256 + x ∨ height ≤ idy * 256 + y) := by omega
  simp only [f32tof16, C.half_lossless, regionOf, cutRegion, ZFP_CACHE_REGION, hrow, hcol, if_neg hin]
  rw [mul_comm idy, mul_comm idx]

theorem frameRegion_zfpCompressCube (q : Cube C) (s : Scale) (fits_cube : ℕ → Plane) (f : ℕ) (hf : f < q.depth)
    (idy idx : ℤ) (hr : regionInImage q.width q.height idy idx = true) :
    (q.zfpCompressCube s fits_cube (4 * (f / 4))).frameRegion f idy idx =
      some (f32tof16 (regionOf q.width q.height (s.pixel (fits_cube f)) idy idx)) := by
  have hg : f / 4 = 4 * (f / 4) / 4 := by omega
  have hm : 4 * (f / 4) ≤ f ∧ f < 4 * (f / 4) + 4 := by omega
  have hk : 4 * (f / 4) + f % 4 = f := by omega
  have hk' : 4 * (f / 4) + (f - 4 * (f / 4)) = f := by omega
  have hd : ((4 * (f / 4) : ℕ) + (f % 4 : ℕ) : ℤ) < q.depth := by omega
  have hd' : ((4 * (f / 4) : ℕ) + (f - 4 * (f / 4) : ℕ) : ℤ) < q.depth := by omega
  simp only [Cube.frameRegion, Cube.zfpCompressCube, ← hg, if_true, hm, and_self, Option.bind_eq_bind,
    Option.bind_some, compressPixels, compressMask, hr, C.zfp_lossless, C.lz4_lossless, hd', hk',
    Option.some.injEq]
  congr 1
  funext j
  simp only [nanMask, regionOf, cutRegion, unblock_blockOf, hd, hk, if_true, makePlaneF32Pixels, makePlaneF32Mask]
  split
  · rfl
  · cases s.pixel (fits_cube f) ((idy * ZFP_CACHE_REGION + (j / 256 : ℕ)) * q.width +
        (idx * ZFP_CACHE_REGION + (j % 256 : ℕ))).toNat <;> rfl

theorem frameRegion_other_group (q : Cube C) (s : Scale) (fits_cube : ℕ → Plane) (f g : ℕ) (hg : f / 4 ≠ g)
    (idy idx : ℤ) : (q.zfpCompressCube s fits_cube (4 * g)).frameRegion f idy idx = q.frameRegion f idy idx := by
  have h1 : ¬ f / 4 = 4 * g / 4 := by omega
  have h2 : ¬ (4 * g ≤ f ∧ f < 4 * g + 4) := by omega
  simp only [Cube.frameRegion, Cube.zfpCompressCube, h1, h2, if_false]

/-! ## The whole cube -/

def Cube.zfpCompress (q : Cube C) (s : Scale) (fits_cube : ℕ → Plane) : Cube C :=
  if q.depth ≤ 1 then q
  else (List.range ((q.depth.toNat + 3) / 4)).foldl (fun q g => q.zfpCompressCube s fits_cube (4 * g)) q

def Cube.groups (q : Cube C) (s : Scale) (fits_cube : ℕ → Plane) (n : ℕ) : Cube C :=
  (List.range n).foldl (fun q g => q.zfpCompressCube s fits_cube (4 * g)) q

theorem groups_succ (q : Cube C) (s : Scale) (fits_cube : ℕ → Plane) (n : ℕ) :
    q.groups s fits_cube (n + 1) = (q.groups s fits_cube n).zfpCompressCube s fits_cube (4 * n) := by
  simp [Cube.groups, List.range_succ]

theorem groups_dims (q : Cube C) (s : Scale) (fits_cube : ℕ → Plane) (n : ℕ) :
    (q.groups s fits_cube n).width = q.width ∧ (q.groups s fits_cube n).height = q.height ∧
      (q.groups s fits_cube n).depth = q.depth := by
  induction n with
  | zero => exact ⟨rfl, rfl, rfl⟩
  | succ n ih =>
    rw [groups_succ]
    exact ih

theorem groups_frameRegion (q : Cube C) (s : Scale) (fits_cube : ℕ → Plane) (f : ℕ) (hf : f < q.depth) (idy idx : ℤ)
    (hr : regionInImage q.width q.height idy idx = true) (n : ℕ) (hn : f / 4 < n) :
    (q.groups s fits_cube n).frameRegion f idy idx =
      some (f32tof16 (regionOf q.width q.height (s.pixel (fits_cube f)) idy idx)) := by
  induction n with
  | zero => omega
  | succ n ih =>
    obtain ⟨hw, hh, hd⟩ := groups_dims q s fits_cube n
    rw [groups_succ]
    by_cases e : f / 4 = n
    · subst e
      rw [frameRegion_zfpCompressCube _ s fits_cube f (by rw [hd]; exact hf) idy idx (by rw [hw, hh]; exact hr), hw, hh]
    · rw [frameRegion_other_group _ s fits_cube f n e]
      exact ih (by omega)

theorem groups_loaded (q : Cube C) (s : Scale) (fits_cube : ℕ → Plane) (f n : ℕ) (hn : f / 4 < n) :
    ((q.groups s fits_cube n).cubePixels (f / 4)).isSome = true ∧ ((q.groups s fits_cube n).cubeMask f).isSome = true := by
  induction n with
  | zero => omega
  | succ n ih =>
    rw [groups_succ]
    by_cases e : f / 4 = n
    · have h1 : f / 4 = 4 * n / 4 := by omega
      have h2 : 4 * n ≤ f ∧ f < 4 * n + 4 := by omega
      simp only [Cube.zfpCompressCube, if_pos h1, if_pos h2, Option.isSome_some, and_self]
    · have h1 : ¬ f / 4 = 4 * n / 4 := by omega
      have h2 : ¬ (4 * n ≤ f ∧ f < 4 * n + 4) := by omega
      simp only [Cube.zfpCompressCube, if_neg h1, if_neg h2]
      exact ih (by omega)

theorem zfpCompress_loaded (q : Cube C) (s : Scale) (fits_cube : ℕ → Plane) (hd : 1 < q.depth) (f : ℕ) (hf : f < q.depth) :
    ((q.zfpCompress s fits_cube).cubePixels (f / 4)).isSome = true ∧
      ((q.zfpCompress s fits_cube).cubeMask f).isSome = true := by
  unfold Cube.zfpCompress
  rw [if_neg (by omega)]
  exact groups_loaded q s fits_cube f _ (by omega)

/-- Every region of every frame of a compressed cube holds its plane's physical pixels. -/
theorem frameRegion_zfpCompress (q : Cube C) (s : Scale) (fits_cube : ℕ → Plane) (hd : 1 < q.depth) (f : ℕ)
    (hf : f < q.depth) (idy idx : ℤ) (hr : regionInImage q.width q.height idy idx = true) :
    (q.zfpCompress s fits_cube).frameRegion f idy idx =
      some (f32tof16 (regionOf q.width q.height (s.pixel (fits_cube f)) idy idx)) := by
  unfold Cube.zfpCompress
  rw [if_neg (by omega)]
  exact groups_frameRegion q s fits_cube f hf idy idx hr _ (by omega)

end FitsWebQL
