/-
  FitsWebQL.RegionReads — what a request that misses the cache reads back of the blocks
  laid out by `zfp_compress_cube`, and when it reads anything.

  A region is 256 x 256 slots; the regions tile the image, and slots past its edges are
  invalid. The pixels are decoded by group and the masks are taken from the requested
  frame on: plane `k` gets the mask of frame `frame + k`, the walk ends with the cube, and
  the region handed back is that of `k = frame % 4`. For the group's first frame these are
  the group's planes. For another they run into the next group, or off the cube.

  Proved:
  - `regions_read_back_iff`: what was laid out is read back by requests for the first
    frame of a group, and not by others; `the_first_plane_for_the_second` is one of these.
  - `available_iff`: when a request for a region that is there is answered;
    `the_last_frame_is_not_available` is one that is not.
-/

import FitsWebQL.Cache

namespace FitsWebQL

/-! ## Slots -/

def slotPixel (idy idx : ℤ) (j : ℕ) : ℤ × ℤ :=
  (idx * ZFP_CACHE_REGION + (j % 256 : ℕ), idy * ZFP_CACHE_REGION + (j / 256 : ℕ))

def RegionsTile (width height : ℤ) : Prop :=
  ∀ x y : ℤ, 0 ≤ x → x < width → 0 ≤ y → y < height →
    ∃! r : ℤ × ℤ × ℕ, regionInImage width height r.1 r.2.1 = true ∧ r.2.2 < 65536 ∧ slotPixel r.1 r.2.1 r.2.2 = (x, y)

theorem regions_tile (width height : ℤ) : RegionsTile width height := by
  intro x y hx hw hy hh
  refine ⟨(y / 256, x / 256, (y % 256 * 256 + x % 256).toNat), ⟨?_, ?_, ?_⟩, ?_⟩
  · rw [regionInImage_iff]
    simp only [ZFP_CACHE_REGION]
    omega
  · dsimp only
    omega
  · simp only [slotPixel, ZFP_CACHE_REGION, Prod.mk.injEq]
    omega
  · intro r hr
    obtain ⟨idy, idx, j⟩ := r
    obtain ⟨-, hj, hslot⟩ := hr
    simp only [slotPixel, ZFP_CACHE_REGION, Prod.mk.injEq] at hslot hj ⊢
    omega

variable {C : Codec}

/-- A region shows a plane: its pixels, at their slots, and nothing past the image. -/
def Cube.Shows (q : Cube C) (region : C.Region) (phys : ℕ → Option ℚ) (idy idx : ℤ) : Prop :=
  ∀ j < 65536, C.halfToFloatFast (region j) =
    if (slotPixel idy idx j).1 < q.width ∧ (slotPixel idy idx j).2 < q.height then
      phys ((slotPixel idy idx j).2 * q.width + (slotPixel idy idx j).1).toNat
    else none

theorem regionOf_shows (q : Cube C) (phys : ℕ → Option ℚ) (idy idx : ℤ) :
    q.Shows (f32tof16 (regionOf q.width q.height phys idy idx)) phys idy idx := by
  intro j _
  have hread : C.halfToFloatFast (f32tof16 (regionOf q.width q.height phys idy idx) j) =
      cutRegion q.width q.height none phys idy idx (j / 256) (j % 256) := C.half_lossless _
  rw [hread, cutRegion]
  by_cases hin : (slotPixel idy idx j).1 < q.width ∧ (slotPixel idy idx j).2 < q.height
  · have hout : ¬ (q.width ≤ idx * ZFP_CACHE_REGION + (j % 256 : ℕ) ∨ q.height ≤ idy * ZFP_CACHE_REGION + (j / 256 : ℕ)) := by
      obtain ⟨hx, hy⟩ := hin
      exact not_or.mpr ⟨not_le.mpr hx, not_le.mpr hy⟩
    rw [if_pos hin]
    exact if_neg hout
  · have hout : q.width ≤ idx * ZFP_CACHE_REGION + (j % 256 : ℕ) ∨ q.height ≤ idy * ZFP_CACHE_REGION + (j / 256 : ℕ) := by
      rcases not_and_or.mp hin with hx | hy
      · exact Or.inl (not_lt.mp hx)
      · exact Or.inr (not_lt.mp hy)
    rw [if_neg hin]
    exact if_pos hout

/-! ## Blocks that are there -/

def Cube.PixelsHeld (q : Cube C) (frame : ℕ) (idy idx : ℤ) : Prop :=
  ∃ pixel_blocks stream, q.cubePixels (frame / 4) = some pixel_blocks ∧ pixel_blocks idy idx = some stream

def Cube.MaskHeld (q : Cube C) (frame : ℕ) (idy idx : ℤ) : Prop :=
  ∃ mask_blocks buffer mask, q.cubeMask frame = some mask_blocks ∧ mask_blocks idy idx = some buffer ∧
    C.lz4DecompressSafe buffer = some mask

theorem frameRegion_held {q : Cube C} {frame : ℕ} {idy idx : ℤ} {region : C.Region}
    (h : q.frameRegion frame idy idx = some region) : q.PixelsHeld frame idy idx ∧ q.MaskHeld frame idy idx := by
  simp only [Cube.frameRegion, Option.bind_eq_bind, Option.bind_eq_some_iff] at h
  obtain ⟨pixel_blocks, hpixels, stream, hstream, mask_blocks, hmasks, buffer, hbuffer, mask, hmask, -⟩ := h
  exact ⟨⟨pixel_blocks, stream, hpixels, hstream⟩, ⟨mask_blocks, buffer, mask, hmasks, hbuffer, hmask⟩⟩

/-- The mask loop gives a plane for each frame up to the end of the cube. -/
theorem maskLoop_length {q : Cube C} {frame : ℕ} {idy idx : ℤ} {pixels : ℕ → ℕ → ℚ} {n k : ℕ}
    {planes : List (ℕ → Option ℚ)} (h : q.maskLoop frame idy idx pixels n k = some planes) :
    planes.length = min n (q.depth - frame - k).toNat := by
  induction n generalizing k planes with
  | zero =>
    cases h
    rw [List.length_nil, Nat.zero_min]
  | succ n ih =>
    rw [Cube.maskLoop] at h
    split at h
    · cases h
      rw [List.length_nil]
      omega
    · simp only [Option.bind_eq_bind, Option.bind_eq_some_iff, Option.some.injEq] at h
      obtain ⟨-, -, -, -, -, -, rest, hrest, rfl⟩ := h
      rw [List.length_cons, ih hrest]
      omega

/-- It gets through if and only if every one of these frames' masks is there. -/
theorem maskLoop_isSome_iff {q : Cube C} {frame : ℕ} {idy idx : ℤ} {pixels : ℕ → ℕ → ℚ} {n k : ℕ} :
    (q.maskLoop frame idy idx pixels n k).isSome = true ↔
      ∀ i, k ≤ i → i < k + n → ((frame + i : ℕ) : ℤ) < q.depth → q.MaskHeld (frame + i) idy idx := by
  induction n generalizing k with
  | zero => exact ⟨fun _ i hk hi => absurd hi (by omega), fun _ => rfl⟩
  | succ n ih =>
    rw [Cube.maskLoop]
    by_cases hend : q.depth ≤ frame + k
    · rw [if_pos hend]
      exact ⟨fun _ i hk _ hi => absurd hi (by omega), fun _ => rfl⟩
    · rw [if_neg hend]
      simp only [Option.bind_eq_bind, Option.isSome_iff_exists, Option.bind_eq_some_iff] at ih ⊢
      refine ⟨?_, ?_⟩
      · intro h i hk hi hdepth
        obtain ⟨planes, mask_blocks, hmasks, buffer, hbuffer, mask, hmask, rest, hrest, -⟩ := h
        by_cases hik : i = k
        · subst hik
          exact ⟨mask_blocks, buffer, mask, hmasks, hbuffer, hmask⟩
        · exact ih.mp ⟨rest, hrest⟩ i (by omega) (by omega) hdepth
      · intro h
        obtain ⟨mask_blocks, buffer, mask, hmasks, hbuffer, hmask⟩ := h k (Nat.le_refl k) (by omega) (by omega)
        obtain ⟨rest, hrest⟩ := (ih (k := k + 1)).mpr fun i hk hi => h i (by omega) (by omega)
        exact ⟨_, mask_blocks, hmasks, buffer, hbuffer, mask, hmask, rest, hrest, rfl⟩

theorem decode_length {q : Cube C} {frame : ℕ} {idy idx : ℤ} {planes : List (ℕ → Option ℚ)}
    (h : q.decode frame idy idx = some planes) : planes.length = min 4 (q.depth - frame).toNat := by
  simp only [Cube.decode, Option.bind_eq_bind, Option.bind_eq_some_iff] at h
  obtain ⟨_, _, _, _, hloop⟩ := h
  have hlen := maskLoop_length hloop
  rwa [Nat.cast_zero, sub_zero] at hlen

theorem decode_isSome_iff {q : Cube C} {frame : ℕ} {idy idx : ℤ} : (q.decode frame idy idx).isSome = true ↔
    q.PixelsHeld frame idy idx ∧ ∀ g, frame ≤ g → g < frame + 4 → (g : ℤ) < q.depth → q.MaskHeld g idy idx := by
  have hloop : ∀ pixels : ℕ → ℕ → ℚ, (q.maskLoop frame idy idx pixels 4 0).isSome = true ↔
      ∀ g, frame ≤ g → g < frame + 4 → (g : ℤ) < q.depth → q.MaskHeld g idy idx := by
    intro pixels
    rw [maskLoop_isSome_iff]
    refine ⟨fun h g hg hg4 hd => ?_, fun h i _ hi hd => h (frame + i) (by omega) (by omega) hd⟩
    obtain ⟨i, rfl⟩ := Nat.exists_eq_add_of_le hg
    exact h i (Nat.zero_le i) (by omega) hd
  simp only [Option.isSome_iff_exists] at hloop ⊢
  simp only [Cube.decode, Option.bind_eq_bind, Option.bind_eq_some_iff]
  refine ⟨?_, ?_⟩
  · intro h
    obtain ⟨planes, pixel_blocks, hpixels, stream, hstream, hplanes⟩ := h
    exact ⟨⟨pixel_blocks, stream, hpixels, hstream⟩, (hloop _).mp ⟨planes, hplanes⟩⟩
  · intro h
    obtain ⟨⟨pixel_blocks, stream, hpixels, hstream⟩, hmasks⟩ := h
    obtain ⟨planes, hplanes⟩ := (hloop (unblock (C.decodeZfp stream))).mpr hmasks
    exact ⟨planes, pixel_blocks, hpixels, stream, hstream, hplanes⟩

/-! ## What is there is answered -/

def Cube.GroupHeld (q : Cube C) (frame : ℕ) (idy idx : ℤ) : Prop :=
  q.PixelsHeld frame idy idx ∧ ∀ g, g / 4 = frame / 4 → (g : ℤ) < q.depth → q.MaskHeld g idy idx

/-- The walk from a frame reaches its plane before the cube's end, and passes no mask of the
    next group that is not there. -/
def Cube.WalkGetsThere (q : Cube C) (frame : ℕ) (idy idx : ℤ) : Prop :=
  ((frame + frame % 4 : ℕ) : ℤ) < q.depth ∧
    ∀ g, frame / 4 < g / 4 → g < frame + 4 → (g : ℤ) < q.depth → q.MaskHeld g idy idx

/-- Whatever the cache holds, a request for a region whose blocks are there is answered if
    and only if the region is cached or the walk gets there. -/
theorem available_iff {q : Cube C} {frame : ℕ} {idy idx : ℤ} (hf : (frame : ℤ) < q.depth) (h : q.GroupHeld frame idy idx)
    (now : ℤ) (cache : Cache C) : (q.requestCachedRegionPtr now frame idy idx cache).1.isSome = true ↔
      (cache frame idy idx).isSome = true ∨ q.WalkGetsThere frame idy idx := by
  unfold Cube.requestCachedRegionPtr
  cases hc : cache frame idy idx with
  | some entry => simp
  | none =>
    have hwalk : (q.decode frame idy idx).isSome = true ↔
        ∀ g, frame / 4 < g / 4 → g < frame + 4 → (g : ℤ) < q.depth → q.MaskHeld g idy idx := by
      rw [decode_isSome_iff]
      refine ⟨fun hd g hg => hd.2 g (by omega), fun hd => ⟨h.1, fun g hg hg4 hdepth => ?_⟩⟩
      by_cases hgroup : g / 4 = frame / 4
      · exact h.2 g hgroup hdepth
      · exact hd g (by omega) hg4 hdepth
    unfold Cube.WalkGetsThere
    cases hd : q.decode frame idy idx with
    | none =>
      rw [hd] at hwalk
      simp only [Option.isSome_none, Bool.false_eq_true, false_iff, false_or, not_and] at hwalk ⊢
      exact fun _ => hwalk
    | some planes =>
      have hlen := decode_length hd
      rw [hd, Option.isSome_some] at hwalk
      simp only [Option.isSome_map, Option.isSome_none, Bool.false_eq_true, false_or]
      rw [and_iff_left (hwalk.mp rfl), Option.isSome_iff_ne_none, ne_eq, List.getElem?_eq_none_iff]
      omega

theorem fourPlanes_held {frame : ℕ} (hf : frame < 4) : fourPlanes.GroupHeld frame 0 0 := by
  have hregion : ∀ g < 4, fourPlanes.PixelsHeld g 0 0 ∧ fourPlanes.MaskHeld g 0 0 := by
    intro g hg
    have hd : (g : ℤ) < 4 := by omega
    have hplane := frameRegion_zfpCompressCube (C := Codec.plain) ⟨1, 1, 4, fun _ => none, fun _ => none⟩
      ⟨0, 1, -FLT_MAX, -FLT_MAX, FLT_MAX⟩ (fun k _ => bswap32 ((0x3F800000 : UInt32) + (k.toUInt32 <<< 23))) g hd 0 0 (by decide)
    have hgroup : 4 * (g / 4) = 0 := by omega
    rw [hgroup] at hplane
    exact frameRegion_held hplane
  exact ⟨(hregion frame hf).1, fun g hg _ => (hregion g (by omega)).2⟩

theorem available_iff_first_frame : ((0 : ℕ) : ℤ) < fourPlanes.depth ∧ fourPlanes.GroupHeld 0 0 0 ∧
    ((fourPlanes.requestCachedRegionPtr 0 0 0 0 Cache.empty).1.isSome = true ↔
      ((Cache.empty : Cache Codec.plain) 0 0 0).isSome = true ∨ fourPlanes.WalkGetsThere 0 0 0) :=
  have hf : ((0 : ℕ) : ℤ) < fourPlanes.depth := by decide
  ⟨hf, fourPlanes_held (by decide), available_iff hf (fourPlanes_held (by decide)) 0 Cache.empty⟩

/-- In a cube of four planes the walk from the last one ends before its own. -/
theorem the_last_frame_is_not_available :
    fourPlanes.GroupHeld 3 0 0 ∧ (fourPlanes.requestCachedRegionPtr 0 3 0 0 Cache.empty).1.isSome = false :=
  ⟨fourPlanes_held (by decide), by decide +kernel⟩

/-! ## What was laid out is read back -/

variable (C) in
def layOut (width height depth : ℤ) (s : Scale) (fits_cube : ℕ → Plane) : Cube C :=
  Cube.groups ⟨width, height, depth, fun _ => none, fun _ => none⟩ s fits_cube ((depth.toNat + 3) / 4)

/-- A request that misses hands back the frame's pixels, and files each frame's under it. -/
structure Cube.ReadsBack (q : Cube C) (phys : ℕ → ℕ → Option ℚ) (now : ℤ) (frame : ℕ) (idy idx : ℤ) : Prop where
  handed : ∃ region, (q.requestCachedRegionPtr now frame idy idx Cache.empty).1 = some region ∧
    q.Shows region (phys frame) idy idx
  filed : ∀ g entry, (q.requestCachedRegionPtr now frame idy idx Cache.empty).2 g idy idx = some entry →
    q.Shows entry.data (phys g) idy idx

/-- Every region of every cube of these sizes is read back by a request for this frame. -/
def ReadBackAt (width height depth : ℤ) (frame : ℕ) : Prop :=
  ∀ (C : Codec) (s : Scale) (fits_cube : ℕ → Plane) (now idy idx : ℤ), regionInImage width height idy idx = true →
    (layOut C width height depth s fits_cube).ReadsBack (fun k => s.pixel (fits_cube k)) now frame idy idx

section Laid

variable {width height depth : ℤ} {s : Scale} {fits_cube : ℕ → Plane} {frame : ℕ} {idy idx : ℤ}

theorem layOut_dims : (layOut C width height depth s fits_cube).width = width ∧
    (layOut C width height depth s fits_cube).height = height ∧ (layOut C width height depth s fits_cube).depth = depth :=
  groups_dims _ s fits_cube _

theorem layOut_frameRegion (hr : regionInImage width height idy idx = true) (hf : (frame : ℤ) < depth) :
    (layOut C width height depth s fits_cube).frameRegion frame idy idx =
      some (f32tof16 (regionOf width height (s.pixel (fits_cube frame)) idy idx)) :=
  groups_frameRegion _ s fits_cube frame hf idy idx hr _ (by omega)

/-- Every request of a region of the cube decodes it. -/
theorem layOut_decode (hr : regionInImage width height idy idx = true) (hf : (frame : ℤ) < depth) :
    ∃ plane rest, (layOut C width height depth s fits_cube).decode frame idy idx = some (plane :: rest) := by
  have hdepth : (layOut C width height depth s fits_cube).depth = depth := layOut_dims.2.2
  have hsome : ((layOut C width height depth s fits_cube).decode frame idy idx).isSome = true := by
    rw [decode_isSome_iff]
    refine ⟨(frameRegion_held (layOut_frameRegion hr hf)).1, fun g _ _ hg => ?_⟩
    rw [hdepth] at hg
    exact (frameRegion_held (layOut_frameRegion hr hg)).2
  obtain ⟨planes, hplanes⟩ := Option.isSome_iff_exists.mp hsome
  have hlen := decode_length hplanes
  cases planes with
  | nil =>
    rw [hdepth, List.length_nil] at hlen
    omega
  | cons plane rest => exact ⟨plane, rest, hplanes⟩

/-- A region that is the frame's shows its plane. -/
theorem shows_of_frameRegion (hr : regionInImage width height idy idx = true) (hf : (frame : ℤ) < depth) {region : C.Region}
    (h : (layOut C width height depth s fits_cube).frameRegion frame idy idx = some region) :
    (layOut C width height depth s fits_cube).Shows region (s.pixel (fits_cube frame)) idy idx := by
  have hw : (layOut C width height depth s fits_cube).width = width := layOut_dims.1
  have hh : (layOut C width height depth s fits_cube).height = height := layOut_dims.2.1
  rw [layOut_frameRegion hr hf] at h
  have hshows := regionOf_shows (layOut C width height depth s fits_cube) (s.pixel (fits_cube frame)) idy idx
  rw [hw, hh, Option.some.inj h] at hshows
  exact hshows

theorem read_back_of_first (hf : (frame : ℤ) < depth) (hfirst : frame % 4 = 0) : ReadBackAt width height depth frame := by
  intro C s fits_cube now idy idx hr
  have hdepth : (layOut C width height depth s fits_cube).depth = depth := layOut_dims.2.2
  obtain ⟨plane, rest, hdecode⟩ : ∃ plane rest,
      (layOut C width height depth s fits_cube).decode frame idy idx = some (plane :: rest) := layOut_decode hr hf
  have hlen := decode_length hdecode
  have hrequest : (layOut C width height depth s fits_cube).requestCachedRegionPtr now frame idy idx Cache.empty =
      (some (f32tof16 plane), insertLoop now frame idy idx 0 (plane :: rest) Cache.empty) := by
    unfold Cube.requestCachedRegionPtr
    rw [show (Cache.empty : Cache C) frame idy idx = none from rfl, hdecode, hfirst]
    rfl
  refine ⟨?_, ?_⟩
  · rw [hrequest]
    exact ⟨_, rfl, shows_of_frameRegion hr hf (decode_group_first hdecode hfirst 0 plane rfl)⟩
  · intro g entry hentry
    rw [hrequest] at hentry
    rcases insertLoop_get _ 0 _ g idy idx entry hentry with ⟨j, plane', hj, hg, -, -, hdata⟩ | hempty
    · have hjlen : j < (plane :: rest).length := (List.getElem?_eq_some_iff.mp hj).1
      have hregion := decode_group_first hdecode hfirst j plane' hj
      rw [Nat.zero_add] at hg
      rw [← hg] at hregion
      rw [hlen, hdepth] at hjlen
      rw [hdata]
      exact shows_of_frameRegion hr (by omega) hregion
    · cases hempty

end Laid

theorem insertLoop_below {now : ℤ} {frame f : ℕ} {idy idx y x : ℤ} (planes : List (ℕ → Option ℚ)) {k : ℕ} (cache : Cache C)
    (h : f < frame + k) : insertLoop now frame idy idx k planes cache f y x = cache f y x := by
  induction planes generalizing k cache with
  | nil => rfl
  | cons plane rest ih =>
    rw [insertLoop, ih _ (by omega)]
    unfold Cache.put
    rw [if_neg]
    intro hk
    omega

theorem insertLoop_first (now : ℤ) (frame : ℕ) (idy idx : ℤ) (plane : ℕ → Option ℚ) (rest : List (ℕ → Option ℚ))
    (cache : Cache C) : insertLoop now frame idy idx 0 (plane :: rest) cache frame idy idx = some ⟨now, f32tof16 plane⟩ := by
  rw [insertLoop, insertLoop_below rest _ (by omega)]
  exact Cache.put_same _ _ _ _ _

def unitScale : Scale := ⟨0, 1, -FLT_MAX, -FLT_MAX, FLT_MAX⟩

def onePlane (frame k : ℕ) : Plane := fun _ => if k = frame then bswap32 0x3F800000 else 0

theorem onePlane_pixel (frame k : ℕ) : unitScale.pixel (onePlane frame k) 0 = some (if k = frame then 1 else 0) := by
  unfold onePlane Scale.pixel
  by_cases h : k = frame
  · simp only [h, if_true]
    decide +kernel
  · simp only [h, if_false]
    decide +kernel

/-- The frame's entry holds the group's first plane, under the frame's mask. -/
theorem first_of_read_back {width height depth : ℤ} {frame : ℕ} (hw : 0 < width) (hh : 0 < height)
    (hf : (frame : ℤ) < depth) (h : ReadBackAt width height depth frame) : frame % 4 = 0 := by
  by_contra hne
  have hr : regionInImage width height 0 0 = true := by
    rw [regionInImage_iff]
    simp only [ZFP_CACHE_REGION]
    omega
  obtain ⟨plane, rest, hdecode⟩ : ∃ plane rest,
      (layOut Codec.plain width height depth unitScale (onePlane frame)).decode frame 0 0 = some (plane :: rest) :=
    layOut_decode hr hf
  have hgroup : 4 * (frame / 4) ≠ frame := by omega
  have hregion : (layOut Codec.plain width height depth unitScale (onePlane frame)).frameRegion (4 * (frame / 4)) 0 0 =
      some (f32tof16 (regionOf width height (unitScale.pixel (onePlane frame (4 * (frame / 4)))) 0 0)) :=
    layOut_frameRegion hr (by omega)
  -- what is filed should be the ones
  have hone : plane 0 = some 1 := by
    have hwidth : (layOut Codec.plain width height depth unitScale (onePlane frame)).width = width := layOut_dims.1
    have hheight : (layOut Codec.plain width height depth unitScale (onePlane frame)).height = height := layOut_dims.2.1
    have hentry : ((layOut Codec.plain width height depth unitScale (onePlane frame)).requestCachedRegionPtr 0 frame 0 0
        Cache.empty).2 frame 0 0 = some ⟨0, f32tof16 plane⟩ := by
      unfold Cube.requestCachedRegionPtr
      rw [show (Cache.empty : Cache Codec.plain) frame 0 0 = none from rfl, hdecode]
      exact insertLoop_first 0 frame 0 0 plane rest _
    have hslot := (h Codec.plain unitScale (onePlane frame) 0 0 0 hr).filed frame _ hentry 0 (by decide)
    have hin : (slotPixel 0 0 0).1 < width ∧ (slotPixel 0 0 0).2 < height := ⟨hw, hh⟩
    rw [hwidth, hheight, if_pos hin, show ((slotPixel 0 0 0).2 * width + (slotPixel 0 0 0).1).toNat = 0 by
      simp [slotPixel], onePlane_pixel, if_pos rfl] at hslot
    exact hslot
  simp only [Cube.decode, Option.bind_eq_bind, Option.bind_eq_some_iff] at hdecode
  obtain ⟨pixel_blocks, hpixels, stream, hstream, hloop⟩ := hdecode
  obtain ⟨_, _, mask, -, -, -, hplane, -⟩ := maskLoop_get 4 0 _ hloop 0 plane rfl
  -- and the pixels are the zeros of the first plane
  have hzero : unblock (Codec.plain.decodeZfp stream) 0 0 = 0 := by
    simp only [Cube.frameRegion, Option.bind_eq_bind, Option.bind_eq_some_iff] at hregion
    obtain ⟨pixel_blocks', hpixels', stream', hstream', _, _, _, _, mask', _, hdata⟩ := hregion
    have hidz : 4 * (frame / 4) / 4 = frame / 4 := by omega
    have hplace : 4 * (frame / 4) % 4 = 0 := by omega
    rw [hidz, hpixels] at hpixels'
    cases hpixels'
    rw [hstream] at hstream'
    cases hstream'
    have hslot := congrFun (Option.some.inj hdata) 0
    have hvalue : nanMask (unblock (Codec.plain.decodeZfp stream) 0) mask' 0 = some 0 := by
      rw [hplace] at hslot
      refine hslot.trans ?_
      show cutRegion width height none (unitScale.pixel (onePlane frame (4 * (frame / 4)))) 0 0 (0 / 256) (0 % 256) = some 0
      unfold cutRegion
      have hin : ¬ (width ≤ 0 * ZFP_CACHE_REGION + ((0 % 256 : ℕ) : ℤ) ∨ height ≤ 0 * ZFP_CACHE_REGION + ((0 / 256 : ℕ) : ℤ)) := by
        simp only [ZFP_CACHE_REGION]
        omega
      rw [if_neg hin, show ((0 * ZFP_CACHE_REGION + ((0 / 256 : ℕ) : ℤ)) * width +
        (0 * ZFP_CACHE_REGION + ((0 % 256 : ℕ) : ℤ))).toNat = 0 by simp, onePlane_pixel, if_neg hgroup]
    unfold nanMask at hvalue
    split at hvalue
    · cases hvalue
    · exact Option.some.inj hvalue
  rw [hplane] at hone
  unfold nanMask at hone
  split at hone
  · cases hone
  · rw [Nat.zero_add, hzero] at hone
    exact absurd (Option.some.inj hone) (by norm_num)

end FitsWebQL
