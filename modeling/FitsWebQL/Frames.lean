/-
  FitsWebQL.Frames — where the readers of a cube (`get_spectrum`, `get_cube`,
  `get_video_frame`) find a frame: the decompressed regions of the cache, when the frame's
  group and mask are compressed, or its raw plane.

  A reader walks the regions of a box row by row, asking `request_cached_region_ptr` for
  each; the first null sends it to the raw plane (`goto jmp`), keeping what it did so far
  (`regionLoop`). The walk is a fold over the regions before the first missing one
  (`regionLoop_eq`), over all of them when none is (`regionLoop_all`).
-/

import FitsWebQL.Cache
import FitsWebQL.Header

namespace FitsWebQL

open Lib.Tiling (ints)

/-- What a reader sees of a cube. `region` is what `request_cached_region_ptr` hands back. -/
structure FrameSource (C : Codec) where
  compressedPixels : ℕ → Bool
  compressedMask : ℕ → Bool
  region : ℕ → ℤ → ℤ → Option C.Region
  fitsCube : ℕ → Option Plane

variable {C : Codec}

/-- `compressed_pixels && compressed_mask` for frame `i`. -/
def FrameSource.isCompressed (src : FrameSource C) (i : ℕ) : Bool := src.compressedPixels (i / 4) && src.compressedMask i

/-- The compressed store, as a coherent cache hands its regions back, and raw planes. -/
def Cube.source (q : Cube C) (fits_cube : ℕ → Option Plane) : FrameSource C where
  compressedPixels g := (q.cubePixels g).isSome
  compressedMask f := (q.cubeMask f).isSome
  region := q.frameRegion
  fitsCube := fits_cube

def FitsHeader.noBlocks (h : FitsHeader) : Cube C :=
  { width := h.width, height := h.height, depth := h.depth, cubePixels := fun _ => none, cubeMask := fun _ => none }

def FitsHeader.compressedSource (h : FitsHeader) (planes : ℕ → Plane) : FrameSource C :=
  (h.noBlocks.zfpCompress h.scale planes).source fun _ => none

def FitsHeader.rawSource (h : FitsHeader) (planes : ℕ → Plane) : FrameSource C :=
  h.noBlocks.source fun f => some (planes f)

theorem rawSource_isCompressed (h : FitsHeader) (planes : ℕ → Plane) (i : ℕ) :
    (h.rawSource planes : FrameSource C).isCompressed i = false := rfl

theorem rawSource_fitsCube (h : FitsHeader) (planes : ℕ → Plane) (i : ℕ) :
    (h.rawSource planes : FrameSource C).fitsCube i = some (planes i) := rfl

theorem compressedSource_isCompressed (h : FitsHeader) (planes : ℕ → Plane) (hd : 1 < h.depth) (i : ℕ) (hi : i < h.depth) :
    (h.compressedSource planes : FrameSource C).isCompressed i = true := by
  obtain ⟨h1, h2⟩ := zfpCompress_loaded (h.noBlocks : Cube C) h.scale planes hd i hi
  simp only [FitsHeader.compressedSource, FrameSource.isCompressed, Cube.source, h1, h2, Bool.and_self]

theorem compressedSource_region (h : FitsHeader) (planes : ℕ → Plane) (hd : 1 < h.depth) (i : ℕ) (hi : i < h.depth)
    (idy idx : ℤ) (hr : regionInImage h.width h.height idy idx = true) :
    (h.compressedSource planes : FrameSource C).region i idy idx =
      some (f32tof16 (regionOf h.width h.height (h.scale.pixel (planes i)) idy idx)) :=
  frameRegion_zfpCompress (h.noBlocks : Cube C) h.scale planes hd i hi idy idx hr

/-! ## Walking the regions of a box -/

def boxRegions (start_y end_y start_x end_x : ℤ) : List (ℤ × ℤ) :=
  (ints start_y (end_y + 1)).flatMap fun idy => (ints start_x (end_x + 1)).map fun idx => (idy, idx)

theorem mem_boxRegions {start_y end_y start_x end_x : ℤ} {p : ℤ × ℤ} :
    p ∈ boxRegions start_y end_y start_x end_x ↔
      (start_y ≤ p.1 ∧ p.1 ≤ end_y) ∧ start_x ≤ p.2 ∧ p.2 ≤ end_x := by
  obtain ⟨y, x⟩ := p
  simp only [boxRegions, List.mem_flatMap, List.mem_map, Lib.Tiling.mem_ints, Prod.mk.injEq]
  constructor
  · rintro ⟨a, ha, b, hb, rfl, rfl⟩
    omega
  · rintro ⟨hy, hx⟩
    exact ⟨y, by omega, x, by omega, rfl, rfl⟩

theorem nodup_boxRegions (start_y end_y start_x end_x : ℤ) : (boxRegions start_y end_y start_x end_x).Nodup :=
  (Lib.Tiling.nodup_ints start_y (end_y + 1)).product (Lib.Tiling.nodup_ints start_x (end_x + 1))

theorem sum_boxRegions {M : Type} [AddCommMonoid M] (start_y end_y start_x end_x : ℤ) (g : ℤ × ℤ → M) :
    ((boxRegions start_y end_y start_x end_x).map g).sum =
      ∑ p ∈ Finset.Ico start_y (end_y + 1) ×ˢ Finset.Ico start_x (end_x + 1), g p := by
  rw [boxRegions, Lib.Tiling.sum_map_flatMap, Finset.sum_product, ← Lib.Tiling.sum_ints]
  congr 1
  refine List.map_congr_left fun idy _ => ?_
  rw [← Lib.Tiling.sum_ints, List.map_map]
  rfl

/-- The regions of the whole image, in the order they are walked. -/
def FitsHeader.imageRegions (h : FitsHeader) : List (ℤ × ℤ) :=
  boxRegions (makeIndices 0 0).2 (makeIndices (h.width - 1) (h.height - 1)).2 (makeIndices 0 0).1
    (makeIndices (h.width - 1) (h.height - 1)).1

theorem mem_imageRegions {h : FitsHeader} (hw : 0 < h.width) (hh : 0 < h.height) {q : ℤ × ℤ} :
    q ∈ h.imageRegions ↔ (0 ≤ q.1 ∧ q.1 ≤ (h.height - 1) / ZFP_CACHE_REGION) ∧ 0 ≤ q.2 ∧ q.2 ≤ (h.width - 1) / ZFP_CACHE_REGION := by
  unfold FitsHeader.imageRegions makeIndices
  rw [mem_boxRegions, Int.tdiv_eq_ediv_of_nonneg (show 0 ≤ h.height - 1 by omega),
    Int.tdiv_eq_ediv_of_nonneg (show 0 ≤ h.width - 1 by omega), Int.zero_tdiv]

/-- The walk; `false` when a region was missing. -/
def regionLoop {σ R : Type} (region : ℤ → ℤ → Option R) (body : σ → ℤ → ℤ → R → σ) : List (ℤ × ℤ) → σ → σ × Bool
  | [], s => (s, true)
  | (idy, idx) :: rest, s =>
    match region idy idx with
    | none => (s, false)
    | some r => regionLoop region body rest (body s idy idx r)

theorem regionLoop_all {σ R : Type} {region : ℤ → ℤ → Option R} {body : σ → ℤ → ℤ → R → σ} {v : ℤ → ℤ → R} :
    ∀ (ps : List (ℤ × ℤ)) (s : σ), (∀ p ∈ ps, region p.1 p.2 = some (v p.1 p.2)) →
      regionLoop region body ps s = (ps.foldl (fun s p => body s p.1 p.2 (v p.1 p.2)) s, true) := by
  intro ps
  induction ps with
  | nil => intro s _; rfl
  | cons p rest ih =>
    intro s h
    obtain ⟨idy, idx⟩ := p
    have h0 := h (idy, idx) (by simp)
    simp only at h0
    simp only [regionLoop, h0, List.foldl_cons]
    exact ih _ fun p hp => h p (by simp [hp])

/-- Any walk: the regions up to the first missing one, and whether there was none. -/
theorem regionLoop_eq {σ R : Type} (region : ℤ → ℤ → Option R) (body : σ → ℤ → ℤ → R → σ) :
    ∀ (ps : List (ℤ × ℤ)) (s : σ), regionLoop region body ps s =
      ((ps.takeWhile fun p => (region p.1 p.2).isSome).foldl
          (fun s p => ((region p.1 p.2).map (body s p.1 p.2)).getD s) s,
        ps.all fun p => (region p.1 p.2).isSome) := by
  intro ps
  induction ps with
  | nil => intro s; rfl
  | cons p rest ih =>
    intro s
    obtain ⟨idy, idx⟩ := p
    cases h : region idy idx with
    | none => simp [regionLoop, h]
    | some r => simp [regionLoop, h, ih]

theorem regionLoop_const {σ R : Type} {region : ℤ → ℤ → Option R} {body : σ → ℤ → ℤ → R → σ}
    (h : ∀ s idy idx r, body s idy idx r = s) : ∀ (ps : List (ℤ × ℤ)) (s : σ), (regionLoop region body ps s).1 = s := by
  intro ps
  induction ps with
  | nil => intro s; rfl
  | cons p rest ih =>
    intro s
    obtain ⟨idy, idx⟩ := p
    unfold regionLoop
    split
    · rfl
    · rw [h, ih]

end FitsWebQL
