/-
  FitsWebQL.ArrayBounds — the vectors of a data set and the indices its requests use.

  `fits_cube`, `cache`, `frame_min` and `frame_max` have an element for every frame,
  `cube_mask` four more, `cube_pixels` and `cache_mtx` one for every group of four frames
  and four more. They are allocated in three places (`from_path`, `scan_fits_header`,
  `deserialise`), each for a cube only, the extrema of a restored cube being those that were
  saved. An image's stay empty. Loading, compressing, mapping, filing and purging store
  elements and never change a length.

  Other threads store while a request runs: each frame, each region and each raw plane is
  looked for at a moment of its own (`Moments`).

  Proved:
  - `size_of_reachable`: the lengths, in every state a load leads to.
  - `request_reachable`: what a request does to the cache leads to such a state again.
  - `requests_in_bounds_iff`: a request that passes its checks stays within the vectors if
    and only if the data set is a cube.
  - `a_frame_of_an_image`: the video of an image.
-/

import FitsWebQL.CubeImage
import FitsWebQL.RegionReads
import FitsWebQL.VideoFrame

namespace FitsWebQL

variable {C : Codec}

/-! ## The vectors -/

inductive Vec where
  | fits_cube
  | cube_pixels
  | cube_mask
  | cache
  | cache_mtx
  | frame_min
  | frame_max
  /-- The keys of a map of regions. -/
  | rows
  | columns

structure DataSet (C : Codec) where
  fits_cube : List (Option Plane)
  cube_pixels : List (Option (CompressedBlocks C.Zfp))
  cube_mask : List (Option (CompressedBlocks C.Lz4))
  cache : List (ℤ → ℤ → Option (CacheEntry C))
  cache_mtx : ℕ
  frame_min : List ℚ
  frame_max : List ℚ

def DataSet.new : DataSet C := ⟨[], [], [], [], 0, [], []⟩

def FitsHeader.regionRows (h : FitsHeader) : ℕ := ((makeIndices (h.width - 1) (h.height - 1)).2 + 1).toNat

def FitsHeader.regionColumns (h : FitsHeader) : ℕ := ((makeIndices (h.width - 1) (h.height - 1)).1 + 1).toNat

def DataSet.size (h : FitsHeader) (d : DataSet C) : Vec → ℕ
  | .fits_cube => d.fits_cube.length
  | .cube_pixels => d.cube_pixels.length
  | .cube_mask => d.cube_mask.length
  | .cache => d.cache.length
  | .cache_mtx => d.cache_mtx
  | .frame_min => d.frame_min.length
  | .frame_max => d.frame_max.length
  | .rows => h.regionRows
  | .columns => h.regionColumns

/-! ## Loading -/

def resize {α : Type} (xs : List α) (n : ℕ) (a : α) : List α := xs.take n ++ List.replicate (n - xs.length) a

/-- The blocks, the raw planes and the cache of a cube, all empty. -/
def DataSet.allocateBlocks (h : FitsHeader) (d : DataSet C) : DataSet C :=
  let depth := h.depth.toNat
  { d with
    fits_cube := List.replicate depth none
    cube_pixels := List.replicate (depth / 4 + 4) none
    cube_mask := List.replicate (depth + 4) none
    cache_mtx := depth / 4 + 4
    cache := List.replicate depth fun _ _ => none }

def DataSet.load (h : FitsHeader) (d : DataSet C) : DataSet C :=
  if 1 < h.depth then
    { d with
      frame_min := resize d.frame_min h.depth.toNat FLT_MAX
      frame_max := resize d.frame_max h.depth.toNat (-FLT_MAX) }.allocateBlocks h
  else d

/-- `deserialise`: the extrema are read from what was saved. -/
def DataSet.deserialise (h : FitsHeader) (saved : DataSet C) : DataSet C :=
  let d : DataSet C := { DataSet.new with frame_min := saved.frame_min, frame_max := saved.frame_max }
  if 1 < h.depth then d.allocateBlocks h else d

inductive Store (C : Codec)
  | plane (frame : ℕ) (buffer : Option Plane)
  | pixels (idz : ℕ) (blocks : Option (CompressedBlocks C.Zfp))
  | mask (idz : ℕ) (blocks : Option (CompressedBlocks C.Lz4))
  | entries (frame : ℕ) (regions : ℤ → ℤ → Option (CacheEntry C))
  | extrema (frame : ℕ) (fmin fmax : ℚ)

def DataSet.after (d : DataSet C) : Store C → DataSet C
  | .plane frame buffer => { d with fits_cube := d.fits_cube.set frame buffer }
  | .pixels idz blocks => { d with cube_pixels := d.cube_pixels.set idz blocks }
  | .mask idz blocks => { d with cube_mask := d.cube_mask.set idz blocks }
  | .entries frame regions => { d with cache := d.cache.set frame regions }
  | .extrema frame fmin fmax => { d with frame_min := d.frame_min.set frame fmin, frame_max := d.frame_max.set frame fmax }

/-- The states a load leads to: of a new object, of one that is restored from what another
    left, or of one whose restoring came short; with any elements stored so far. -/
inductive DataSet.Reachable (h : FitsHeader) : DataSet C → Prop
  | loaded : Reachable h (DataSet.new.load h)
  | restored {d} : Reachable h d → Reachable h (d.deserialise h)
  | reloaded {d} : Reachable h d → Reachable h (d.load h)
  | stored {d} (s : Store C) : Reachable h d → Reachable h (d.after s)

def FitsHeader.allocated (h : FitsHeader) : Vec → ℕ
  | .fits_cube | .cache | .frame_min | .frame_max => if 1 < h.depth then h.depth.toNat else 0
  | .cube_pixels | .cache_mtx => if 1 < h.depth then h.depth.toNat / 4 + 4 else 0
  | .cube_mask => if 1 < h.depth then h.depth.toNat + 4 else 0
  | .rows => h.regionRows
  | .columns => h.regionColumns

theorem length_resize {α : Type} (xs : List α) (n : ℕ) (a : α) : (resize xs n a).length = n := by
  rw [resize, List.length_append, List.length_take, List.length_replicate]
  omega

theorem size_after (h : FitsHeader) (d : DataSet C) (s : Store C) (v : Vec) : (d.after s).size h v = d.size h v := by
  cases s <;> cases v <;> first | rfl | exact List.length_set

theorem size_new (h : FitsHeader) (hdepth : ¬ 1 < h.depth) (v : Vec) : (DataSet.new : DataSet C).size h v = h.allocated v := by
  cases v <;> first | rfl | exact (if_neg hdepth).symm

/-- Of a cube only the extrema are as they were. -/
theorem size_allocateBlocks {h : FitsHeader} (hdepth : 1 < h.depth) {d : DataSet C} (hmin : d.frame_min.length = h.depth.toNat)
    (hmax : d.frame_max.length = h.depth.toNat) (v : Vec) : (d.allocateBlocks h).size h v = h.allocated v := by
  cases v with
  | frame_min => exact hmin.trans (if_pos hdepth).symm
  | frame_max => exact hmax.trans (if_pos hdepth).symm
  | rows => rfl
  | columns => rfl
  | cache_mtx => exact (if_pos hdepth).symm
  | fits_cube => exact List.length_replicate.trans (if_pos hdepth).symm
  | cube_pixels => exact List.length_replicate.trans (if_pos hdepth).symm
  | cube_mask => exact List.length_replicate.trans (if_pos hdepth).symm
  | cache => exact List.length_replicate.trans (if_pos hdepth).symm

theorem size_load {h : FitsHeader} {d : DataSet C} (hd : ¬ 1 < h.depth → ∀ v, d.size h v = h.allocated v) (v : Vec) :
    (d.load h).size h v = h.allocated v := by
  unfold DataSet.load
  split
  · rename_i hdepth
    exact size_allocateBlocks hdepth (length_resize _ _ _) (length_resize _ _ _) v
  · rename_i hdepth
    exact hd hdepth v

theorem size_deserialise {h : FitsHeader} {saved : DataSet C} (hd : ∀ v, saved.size h v = h.allocated v) (v : Vec) :
    (saved.deserialise h).size h v = h.allocated v := by
  unfold DataSet.deserialise
  dsimp only
  split
  · rename_i hdepth
    exact size_allocateBlocks hdepth ((hd .frame_min).trans (if_pos hdepth)) ((hd .frame_max).trans (if_pos hdepth)) v
  · rename_i hdepth
    cases v with
    | frame_min => exact hd .frame_min
    | frame_max => exact hd .frame_max
    | rows => rfl
    | columns => rfl
    | _ => exact (if_neg hdepth).symm

theorem size_of_reachable {h : FitsHeader} {d : DataSet C} (hd : d.Reachable h) (v : Vec) : d.size h v = h.allocated v := by
  induction hd generalizing v with
  | loaded => exact size_load (size_new h) v
  | restored _ ih => exact size_deserialise ih v
  | reloaded _ ih => exact size_load (fun _ => ih) v
  | stored s _ ih => exact (size_after h _ s v).trans (ih v)

/-! ## What a request uses -/

structure Access where
  vec : Vec
  index : ℤ
  size : ℕ

def Access.InBounds (a : Access) : Prop := 0 ≤ a.index ∧ a.index < a.size

def DataSet.access (h : FitsHeader) (d : DataSet C) (vec : Vec) (index : ℤ) : Access := ⟨vec, index, d.size h vec⟩

def DataSet.keys (h : FitsHeader) (d : DataSet C) (idy idx : ℤ) : List Access := [d.access h .rows idy, d.access h .columns idx]

def DataSet.blocks (h : FitsHeader) (d : DataSet C) : Cube C where
  width := h.width
  height := h.height
  depth := h.depth
  cubePixels idz := (d.cube_pixels[idz]?).join
  cubeMask idz := (d.cube_mask[idz]?).join

def DataSet.regions (d : DataSet C) : Cache C := fun frame idy idx => (d.cache[frame]?).bind fun entries => entries idy idx

/-- The mask loop, `n` planes still to do, `k` the next. -/
def maskAccesses (h : FitsHeader) (d : DataSet C) (frame : ℕ) (idy idx : ℤ) : ℕ → ℕ → List Access
  | 0, _ => []
  | n + 1, k =>
    if h.depth ≤ frame + k then []
    else d.access h .cube_mask (frame + k) ::
      match (d.blocks h).cubeMask (frame + k) with
      | none => []
      | some mask_blocks => d.keys h idy idx ++
        match (mask_blocks idy idx).bind C.lz4DecompressSafe with
        | none => []
        | some _ => maskAccesses h d frame idy idx n (k + 1)

def filingAccesses (h : FitsHeader) (d : DataSet C) (frame : ℕ) (idy idx : ℤ) : List Access :=
  ((List.range 4).takeWhile fun k : ℕ => decide ((frame + k : ℤ) < h.depth)).flatMap fun k : ℕ =>
    [d.access h .frame_min (frame + k), d.access h .frame_max (frame + k), d.access h .cache_mtx (frame / 4 : ℕ),
      d.access h .cache (frame + k)] ++ d.keys h idy idx

def requestAccesses (h : FitsHeader) (d : DataSet C) (frame : ℕ) (idy idx : ℤ) : List Access :=
  [d.access h .cache_mtx (frame / 4 : ℕ), d.access h .cache frame] ++ d.keys h idy idx ++
    match d.regions frame idy idx with
    | some _ => []
    | none => d.access h .cube_pixels (frame / 4 : ℕ) ::
      match (d.blocks h).cubePixels (frame / 4) with
      | none => []
      | some pixel_blocks => d.keys h idy idx ++
        match pixel_blocks idy idx with
        | none => []
        | some _ => maskAccesses h d frame idy idx 4 0 ++
          match (d.blocks h).decode frame idy idx with
          | none => []
          | some _ => filingAccesses h d frame idy idx

def DataSet.region (h : FitsHeader) (d : DataSet C) (frame : ℕ) (idy idx : ℤ) : Option C.Region :=
  ((d.blocks h).requestCachedRegionPtr 0 frame idy idx d.regions).1

/-! ## The requests -/

/-- The data set as it is when a frame's blocks, one of its regions and its raw plane are
    looked for. -/
structure Moments (C : Codec) where
  frame : ℕ → DataSet C
  region : ℕ → ℤ → ℤ → DataSet C
  plane : ℕ → DataSet C

structure Moments.Reachable (h : FitsHeader) (m : Moments C) : Prop where
  frame : ∀ i, (m.frame i).Reachable h
  region : ∀ i idy idx, (m.region i idy idx).Reachable h
  plane : ∀ i, (m.plane i).Reachable h

def Moments.regionOf (h : FitsHeader) (m : Moments C) (i : ℕ) (idy idx : ℤ) : Option C.Region := (m.region i idy idx).region h i idy idx

/-- A region that was handed back is read with the frame's extrema. -/
def Moments.extrema (h : FitsHeader) (m : Moments C) (i : ℕ) (idy idx : ℤ) : List Access :=
  [(m.region i idy idx).access h .frame_min i, (m.region i idy idx).access h .frame_max i]

def Moments.isCompressed (h : FitsHeader) (m : Moments C) (i : ℕ) : Bool :=
  (((m.frame i).blocks h).cubePixels (i / 4)).isSome && (((m.frame i).blocks h).cubeMask i).isSome

def Moments.lookup (h : FitsHeader) (m : Moments C) (i : ℕ) : List Access :=
  [(m.frame i).access h .cube_pixels (i / 4 : ℕ), (m.frame i).access h .cube_mask i]

def FitsHeader.regionsOf (h : FitsHeader) (x1 y1 x2 y2 : ℤ) : List (ℤ × ℤ) :=
  let start := makeIndices (max 0 x1) (max 0 y1)
  let stop := makeIndices (min (h.width - 1) x2) (min (h.height - 1) y2)
  boxRegions start.2 stop.2 start.1 stop.1

/-- The regions of a box up to the first that is missing. -/
def Moments.walk (h : FitsHeader) (m : Moments C) (i : ℕ) : List (ℤ × ℤ) → List Access
  | [] => []
  | (idy, idx) :: rest => requestAccesses h (m.region i idy idx) i idy idx ++
    match m.regionOf h i idy idx with
    | none => []
    | some _ => m.extrema h i idy idx ++ m.walk h i rest

def Moments.whole (h : FitsHeader) (m : Moments C) (i : ℕ) (regions : List (ℤ × ℤ)) : Bool :=
  m.isCompressed h i && regions.all fun q => (m.regionOf h i q.1 q.2).isSome

def Moments.rawPlane (h : FitsHeader) (m : Moments C) (i : ℕ) (whole : Bool) : List Access :=
  if whole then [] else [(m.plane i).access h .fits_cube i]

def Moments.frameAccesses (h : FitsHeader) (m : Moments C) (regions : List (ℤ × ℤ)) (i : ℕ) : List Access :=
  m.lookup h i ++ (if m.isCompressed h i then m.walk h i regions else []) ++ m.rawPlane h i (m.whole h i regions)

def Moments.videoAccesses (h : FitsHeader) (m : Moments C) (flux : Flux) (tasks : List (ℤ × ℤ)) (i : ℕ) : List Access :=
  m.lookup h i ++
    (if m.isCompressed h i then
      tasks.flatMap fun q => requestAccesses h (m.region i q.1 q.2) i q.1 q.2 ++
        if (m.regionOf h i q.1 q.2).isSome && flux ≠ .unknown then m.extrema h i q.1 q.2 else []
    else []) ++ m.rawPlane h i (m.whole h i tasks)

def Moments.preemptAccesses (h : FitsHeader) (m : Moments C) (regions : List (ℤ × ℤ)) (i : ℕ) : List Access :=
  m.lookup h i ++
    if m.isCompressed h i then regions.flatMap fun q => requestAccesses h (m.region i q.1 q.2) i q.1 q.2 else []

/-- A request. Of a video's tasks the first `made` are made before one has found its region
    missing. -/
inductive Request
  | video (frame : ℤ) (flux : Flux) (made : ℕ)
  | image (start stop : ℤ)
  | spectrum (start stop x1 y1 x2 y2 : ℤ)
  | preempt (start stop x1 y1 x2 y2 : ℤ)

def FitsHeader.hasFrames (h : FitsHeader) (start stop : ℤ) : Bool :=
  !(decide (stop < 0) || decide (start < 0) || decide (h.depth - 1 < stop) || decide (h.depth - 1 < start))

/-- The sanity checks. `preempt_cache` does not ask for the pixel type. -/
def Request.passes (h : FitsHeader) : Request → Bool
  | .video frame _ _ => h.bitpix == -32 && !(decide (frame < 0) || decide (h.depth - 1 < frame))
  | .image start stop => h.accepts start stop
  | .spectrum start stop _ _ _ _ => h.accepts start stop
  | .preempt start stop _ _ _ _ => h.hasFrames start stop

def Request.accesses (h : FitsHeader) (m : Moments C) (r : Request) : List Access :=
  if r.passes h then
    match r with
    | .video frame flux made => m.videoAccesses h flux (h.imageRegions.take made) frame.toNat
    | .image start stop => (framesOf start stop).flatMap (m.frameAccesses h h.imageRegions)
    | .spectrum start stop x1 y1 x2 y2 => (framesOf start stop).flatMap (m.frameAccesses h (h.regionsOf x1 y1 x2 y2))
    | .preempt start stop x1 y1 x2 y2 => (framesOf start stop).flatMap (m.preemptAccesses h (h.regionsOf x1 y1 x2 y2))
  else []

/-! ## What a request leaves -/

section
variable {h : FitsHeader} {d : DataSet C} {frame : ℕ} {idy idx : ℤ}

/-- A region filed under a frame of the cube is an element stored. -/
theorem put_reachable (hd : d.Reachable h) (hdepth : 1 < h.depth) (hframe : frame < h.depth) (e : CacheEntry C) :
    ∃ d' : DataSet C, d'.Reachable h ∧ d'.regions = d.regions.put frame idy idx e := by
  have hlength : frame < d.cache.length := by
    have := (size_of_reachable hd .cache).trans (if_pos hdepth)
    simp only [DataSet.size] at this
    omega
  refine ⟨d.after (.entries frame fun y x => d.regions.put frame idy idx e frame y x), .stored _ hd, ?_⟩
  funext f y x
  simp only [DataSet.regions, DataSet.after]
  by_cases hf : f = frame
  · subst hf
    rw [List.getElem?_set_self hlength, Option.bind_some]
  · rw [List.getElem?_set_ne fun he => hf he.symm]
    unfold Cache.put
    rw [if_neg fun hkey => hf hkey.1]
    rfl

theorem insertLoop_reachable (hdepth : 1 < h.depth) (now : ℤ) {planes : List (ℕ → Option ℚ)} {k : ℕ}
    (hplanes : ∀ j < planes.length, (frame + k + j : ℤ) < h.depth) {d : DataSet C} (hd : d.Reachable h) :
    ∃ d' : DataSet C, d'.Reachable h ∧ d'.regions = insertLoop now frame idy idx k planes d.regions := by
  induction planes generalizing k d with
  | nil => exact ⟨d, hd, rfl⟩
  | cons plane rest ih =>
    have hfirst : ((frame + k : ℕ) : ℤ) < h.depth := by simpa using hplanes 0 (Nat.succ_pos _)
    obtain ⟨d', hd', hregions⟩ := put_reachable hd hdepth hfirst ⟨now, f32tof16 plane⟩
    rw [insertLoop, ← hregions]
    refine ih (fun j hj => ?_) hd'
    have := hplanes (j + 1) (Nat.succ_lt_succ hj)
    push_cast at this ⊢
    omega

theorem request_reachable (hd : d.Reachable h) (hdepth : 1 < h.depth) (hframe : frame < h.depth) (now : ℤ) :
    ∃ d' : DataSet C, d'.Reachable h ∧ d'.regions = ((d.blocks h).requestCachedRegionPtr now frame idy idx d.regions).2 := by
  rcases request_cases (d.blocks h) now frame idy idx d.regions with ⟨entry, -, hr⟩ | hr | ⟨planes, -, hdecode, hr⟩
  · rw [hr]
    exact put_reachable hd hdepth hframe _
  · rw [hr]
    exact ⟨d, hd, rfl⟩
  · rw [hr]
    refine insertLoop_reachable hdepth now (fun j hj => ?_) hd
    rw [decode_length hdecode] at hj
    have hlast : (frame + j : ℤ) < h.depth := by
      simp only [DataSet.blocks] at hj
      omega
    simpa using hlast

end

/-! ## In a cube -/

def Within (accesses : List Access) : Prop := ∀ a ∈ accesses, a.InBounds

theorem within_nil : Within [] := List.forall_mem_nil _

theorem within_cons {a : Access} {accesses : List Access} (ha : a.InBounds) (h : Within accesses) : Within (a :: accesses) :=
  List.forall_mem_cons.mpr ⟨ha, h⟩

theorem within_append {accesses accesses' : List Access} (h : Within accesses) (h' : Within accesses') :
    Within (accesses ++ accesses') := List.forall_mem_append.mpr ⟨h, h'⟩

theorem within_flatMap {α : Type} {xs : List α} {f : α → List Access} (h : ∀ x ∈ xs, Within (f x)) : Within (xs.flatMap f) := by
  intro a ha
  obtain ⟨x, hx, hax⟩ := List.mem_flatMap.mp ha
  exact h x hx a hax

def FitsHeader.HasRegion (h : FitsHeader) (idy idx : ℤ) : Prop :=
  (0 ≤ idy ∧ idy < h.regionRows) ∧ 0 ≤ idx ∧ idx < h.regionColumns

/-- A box is clipped to the image before its regions are taken. -/
theorem hasRegion_of_mem {h : FitsHeader} {x1 y1 x2 y2 : ℤ} {q : ℤ × ℤ} (hq : q ∈ h.regionsOf x1 y1 x2 y2) :
    h.HasRegion q.1 q.2 := by
  obtain ⟨⟨hy0, hy1⟩, hx0, hx1⟩ := mem_boxRegions.mp hq
  have hR : (0 : ℤ) < ZFP_CACHE_REGION := by decide
  have hy : (min (h.height - 1) y2).tdiv ZFP_CACHE_REGION ≤ (h.height - 1).tdiv ZFP_CACHE_REGION :=
    Int.tdiv_le_tdiv hR (min_le_left _ _)
  have hx : (min (h.width - 1) x2).tdiv ZFP_CACHE_REGION ≤ (h.width - 1).tdiv ZFP_CACHE_REGION :=
    Int.tdiv_le_tdiv hR (min_le_left _ _)
  have hy' : 0 ≤ (max 0 y1).tdiv ZFP_CACHE_REGION := Int.tdiv_nonneg (le_max_left _ _) hR.le
  have hx' : 0 ≤ (max 0 x1).tdiv ZFP_CACHE_REGION := Int.tdiv_nonneg (le_max_left _ _) hR.le
  unfold FitsHeader.HasRegion FitsHeader.regionRows FitsHeader.regionColumns
  simp only [makeIndices] at hy0 hy1 hx0 hx1 ⊢
  omega

theorem imageRegions_eq (h : FitsHeader) : h.imageRegions = h.regionsOf 0 0 (h.width - 1) (h.height - 1) := by
  unfold FitsHeader.imageRegions FitsHeader.regionsOf
  rw [max_self, min_self, min_self]

section
variable {h : FitsHeader} {d : DataSet C} {frame : ℕ} {idy idx : ℤ}

theorem inBounds_of_frame (hd : d.Reachable h) {vec : Vec} (hvec : h.depth.toNat ≤ h.allocated vec) {index : ℤ}
    (h0 : 0 ≤ index) (hindex : index < h.depth) : (d.access h vec index).InBounds := by
  refine ⟨h0, ?_⟩
  show index < (d.size h vec : ℤ)
  rw [size_of_reachable hd]
  omega

theorem inBounds_of_group (hd : d.Reachable h) {vec : Vec} (hvec : h.depth.toNat / 4 < h.allocated vec)
    (hframe : frame < h.depth) : (d.access h vec (frame / 4 : ℕ)).InBounds := by
  refine ⟨Int.natCast_nonneg _, ?_⟩
  show ((frame / 4 : ℕ) : ℤ) < (d.size h vec : ℤ)
  rw [size_of_reachable hd]
  omega

theorem within_keys (d : DataSet C) (hregion : h.HasRegion idy idx) : Within (d.keys h idy idx) :=
  within_cons hregion.1 (within_cons hregion.2 within_nil)

section
variable (hdepth : 1 < h.depth) (hd : d.Reachable h) (hregion : h.HasRegion idy idx)
include hdepth hd hregion

/-- The loop stops at the end of the cube. -/
theorem within_maskAccesses (n k : ℕ) : Within (maskAccesses h d frame idy idx n k) := by
  induction n generalizing k with
  | zero => exact within_nil
  | succ n ih =>
    unfold maskAccesses
    split
    · exact within_nil
    · rename_i hk
      refine within_cons (inBounds_of_frame hd ?_ (by omega) (by omega)) ?_
      · rw [FitsHeader.allocated, if_pos hdepth]
        omega
      · split
        · exact within_nil
        · refine within_append (within_keys d hregion) ?_
          split
          · exact within_nil
          · exact ih (k + 1)

theorem within_filingAccesses (hframe : frame < h.depth) : Within (filingAccesses h d frame idy idx) := by
  refine within_flatMap fun k hk => within_append ?_ (within_keys d hregion)
  have hlast : (frame + k : ℤ) < h.depth := by simpa using List.mem_takeWhile_imp hk
  refine within_cons ?_ (within_cons ?_ (within_cons ?_ (within_cons ?_ within_nil)))
  · exact inBounds_of_frame hd (if_pos hdepth).ge (by omega) hlast
  · exact inBounds_of_frame hd (if_pos hdepth).ge (by omega) hlast
  · refine inBounds_of_group hd ?_ hframe
    rw [FitsHeader.allocated, if_pos hdepth]
    omega
  · exact inBounds_of_frame hd (if_pos hdepth).ge (by omega) hlast

theorem within_requestAccesses (hframe : frame < h.depth) : Within (requestAccesses h d frame idy idx) := by
  have hgroup : ∀ vec ∈ [Vec.cube_pixels, Vec.cache_mtx], (d.access h vec (frame / 4 : ℕ)).InBounds := by
    intro vec hvec
    refine inBounds_of_group hd ?_ hframe
    rcases List.mem_pair.mp hvec with rfl | rfl
    · rw [FitsHeader.allocated, if_pos hdepth]
      omega
    · rw [FitsHeader.allocated, if_pos hdepth]
      omega
  have hcache : (d.access h .cache frame).InBounds := inBounds_of_frame hd (if_pos hdepth).ge (Int.natCast_nonneg _) hframe
  unfold requestAccesses
  refine within_append (within_append ?_ (within_keys d hregion)) ?_
  · exact within_cons (hgroup _ (by simp)) (within_cons hcache within_nil)
  · split
    · exact within_nil
    · refine within_cons (hgroup _ (by simp)) ?_
      split
      · exact within_nil
      · refine within_append (within_keys d hregion) ?_
        split
        · exact within_nil
        · refine within_append (within_maskAccesses hdepth hd hregion 4 0) ?_
          split
          · exact within_nil
          · exact within_filingAccesses hdepth hd hregion hframe

end

section
variable {m : Moments C} {i : ℕ} {regions : List (ℤ × ℤ)}
variable (hdepth : 1 < h.depth) (hm : m.Reachable h) (hi : i < h.depth)
include hdepth hm hi

theorem within_lookup : Within (m.lookup h i) := by
  refine within_cons (inBounds_of_group (hm.frame i) ?_ hi) (within_cons (inBounds_of_frame (hm.frame i) ?_ (by omega) hi) within_nil)
  · rw [FitsHeader.allocated, if_pos hdepth]
    omega
  · rw [FitsHeader.allocated, if_pos hdepth]
    omega

theorem within_extrema (idy idx : ℤ) : Within (m.extrema h i idy idx) :=
  within_cons (inBounds_of_frame (hm.region i idy idx) (if_pos hdepth).ge (Int.natCast_nonneg _) hi)
    (within_cons (inBounds_of_frame (hm.region i idy idx) (if_pos hdepth).ge (Int.natCast_nonneg _) hi) within_nil)

theorem within_rawPlane (whole : Bool) : Within (m.rawPlane h i whole) := by
  unfold Moments.rawPlane
  split
  · exact within_nil
  · exact within_cons (inBounds_of_frame (hm.plane i) (if_pos hdepth).ge (Int.natCast_nonneg _) hi) within_nil

theorem within_walk (hregions : ∀ q ∈ regions, h.HasRegion q.1 q.2) : Within (m.walk h i regions) := by
  induction regions with
  | nil => exact within_nil
  | cons q rest ih =>
    obtain ⟨hq, hrest⟩ := List.forall_mem_cons.mp hregions
    unfold Moments.walk
    refine within_append (within_requestAccesses hdepth (hm.region i _ _) hq hi) ?_
    split
    · exact within_nil
    · exact within_append (within_extrema hdepth hm hi _ _) (ih hrest)

theorem within_frameAccesses (hregions : ∀ q ∈ regions, h.HasRegion q.1 q.2) : Within (m.frameAccesses h regions i) := by
  refine within_append (within_append (within_lookup hdepth hm hi) ?_) (within_rawPlane hdepth hm hi _)
  split
  · exact within_walk hdepth hm hi hregions
  · exact within_nil

theorem within_videoAccesses (flux : Flux) (htasks : ∀ q ∈ regions, h.HasRegion q.1 q.2) :
    Within (m.videoAccesses h flux regions i) := by
  refine within_append (within_append (within_lookup hdepth hm hi) ?_) (within_rawPlane hdepth hm hi _)
  split
  · refine within_flatMap fun q hq => within_append (within_requestAccesses hdepth (hm.region i _ _) (htasks q hq) hi) ?_
    split
    · exact within_extrema hdepth hm hi _ _
    · exact within_nil
  · exact within_nil

theorem within_preemptAccesses (hregions : ∀ q ∈ regions, h.HasRegion q.1 q.2) : Within (m.preemptAccesses h regions i) := by
  refine within_append (within_lookup hdepth hm hi) ?_
  split
  · exact within_flatMap fun q hq => within_requestAccesses hdepth (hm.region i _ _) (hregions q hq) hi
  · exact within_nil

end

end

/-- The frames of a range that is of the cube. -/
theorem frame_of_range {h : FitsHeader} {start stop : ℤ} (hframes : h.hasFrames start stop = true) {i : ℕ}
    (hi : i ∈ framesOf start stop) : i < h.depth := by
  simp only [FitsHeader.hasFrames, Bool.not_eq_true', Bool.or_eq_false_iff, decide_eq_false_iff_not] at hframes
  obtain ⟨k, hk, rfl⟩ := List.mem_map.mp hi
  rw [Lib.Tiling.mem_ints] at hk
  omega

theorem accepts_eq (h : FitsHeader) (start stop : ℤ) : h.accepts start stop = (h.bitpix == -32 && h.hasFrames start stop) := rfl

theorem requests_within {h : FitsHeader} {m : Moments C} (hm : m.Reachable h) (hdepth : 1 < h.depth) (r : Request) :
    Within (r.accesses h m) := by
  have himage : ∀ q ∈ h.imageRegions, h.HasRegion q.1 q.2 := fun q hq => hasRegion_of_mem (imageRegions_eq h ▸ hq)
  unfold Request.accesses
  split
  · rename_i hpasses
    cases r with
    | video frame flux made =>
      simp only [Request.passes, Bool.and_eq_true, Bool.not_eq_true', Bool.or_eq_false_iff, decide_eq_false_iff_not] at hpasses
      exact within_videoAccesses hdepth hm (by omega) flux fun q hq => himage q (List.mem_of_mem_take hq)
    | image start stop =>
      rw [Request.passes, accepts_eq, Bool.and_eq_true] at hpasses
      exact within_flatMap fun i hi => within_frameAccesses hdepth hm (frame_of_range hpasses.2 hi) himage
    | spectrum start stop x1 y1 x2 y2 =>
      rw [Request.passes, accepts_eq, Bool.and_eq_true] at hpasses
      exact within_flatMap fun i hi => within_frameAccesses hdepth hm (frame_of_range hpasses.2 hi) fun _ => hasRegion_of_mem
    | preempt start stop x1 y1 x2 y2 =>
      exact within_flatMap fun i hi => within_preemptAccesses hdepth hm (frame_of_range hpasses hi) fun _ => hasRegion_of_mem
  · exact within_nil

/-! ## Of an image -/

/-- The first thing a request that passes looks for is the group of its frame. -/
theorem looks_for_a_group {h : FitsHeader} {m : Moments C} {r : Request} (hpasses : r.passes h = true) :
    ∃ i : ℕ, (m.frame i).access h .cube_pixels (i / 4 : ℕ) ∈ r.accesses h m := by
  have hfirst : ∀ i : ℕ, (m.frame i).access h .cube_pixels (i / 4 : ℕ) ∈ m.lookup h i := fun i => List.mem_cons_self
  have hrange : ∀ start stop : ℤ, (min start stop).toNat ∈ framesOf start stop := fun start stop =>
    List.mem_map.mpr ⟨min start stop, Lib.Tiling.mem_ints.mpr (by omega), rfl⟩
  unfold Request.accesses
  rw [if_pos hpasses]
  cases r with
  | video frame flux made => exact ⟨_, List.mem_append_left _ (List.mem_append_left _ (hfirst _))⟩
  | image start stop =>
    exact ⟨_, List.mem_flatMap.mpr ⟨_, hrange start stop, List.mem_append_left _ (List.mem_append_left _ (hfirst _))⟩⟩
  | spectrum start stop x1 y1 x2 y2 =>
    exact ⟨_, List.mem_flatMap.mpr ⟨_, hrange start stop, List.mem_append_left _ (List.mem_append_left _ (hfirst _))⟩⟩
  | preempt start stop x1 y1 x2 y2 =>
    exact ⟨_, List.mem_flatMap.mpr ⟨_, hrange start stop, List.mem_append_left _ (hfirst _)⟩⟩

/-- An image has none. -/
theorem image_not_within {h : FitsHeader} {m : Moments C} (hm : m.Reachable h) (hdepth : ¬ 1 < h.depth) {r : Request}
    (hpasses : r.passes h = true) : ¬ Within (r.accesses h m) := by
  intro hwithin
  obtain ⟨i, hi⟩ := looks_for_a_group (m := m) hpasses
  have hlt : ((i / 4 : ℕ) : ℤ) < ((m.frame i).size h .cube_pixels : ℤ) := (hwithin _ hi).2
  rw [size_of_reachable (hm.frame i), FitsHeader.allocated, if_neg hdepth] at hlt
  omega

/-- Whatever is loaded, stored, cached and missing meanwhile: a request uses no index outside
    the vectors if and only if it is turned down or the data set is a cube. -/
theorem requests_in_bounds_iff (h : FitsHeader) (m : Moments C) (hm : m.Reachable h) (r : Request) :
    Within (r.accesses h m) ↔ r.passes h = false ∨ 1 < h.depth := by
  constructor
  · intro hwithin
    by_contra hnot
    rw [not_or, Bool.not_eq_false] at hnot
    exact image_not_within hm hnot.2 hnot.1 hwithin
  · rintro (hpasses | hdepth)
    · unfold Request.accesses
      rw [if_neg (by rw [hpasses]; exact Bool.noConfusion)]
      exact within_nil
    · exact requests_within hm hdepth r

def Moments.still (d : DataSet C) : Moments C := ⟨fun _ => d, fun _ _ _ => d, fun _ => d⟩

theorem still_reachable {h : FitsHeader} {d : DataSet C} (hd : d.Reachable h) : (Moments.still d).Reachable h :=
  ⟨fun _ => hd, fun _ _ _ => hd, fun _ => hd⟩

def onePixelOf (depth : ℤ) : FitsHeader := { FitsHeader.defaults [] [] with bitpix := -32, width := 1, height := 1, depth := depth }

theorem requests_in_bounds_iff_five_frames :
    Within ((Request.image 4 0).accesses (onePixelOf 5) (Moments.still ((DataSet.new : DataSet Codec.plain).load (onePixelOf 5)))) ↔
      (Request.image 4 0).passes (onePixelOf 5) = false ∨ 1 < (onePixelOf 5).depth :=
  requests_in_bounds_iff (onePixelOf 5) (Moments.still (DataSet.new.load (onePixelOf 5))) (still_reachable .loaded) (.image 4 0)

/-- The video of an image looks for the first of no groups. -/
theorem a_frame_of_an_image : ¬ ∀ (h : FitsHeader) (m : Moments Codec.plain), m.Reachable h →
    ∀ r : Request, r.passes h = true → Within (r.accesses h m) := by
  intro hall
  have hpasses : (Request.video 0 .square 1).passes (onePixelOf 1) = true := by decide
  have hdepth : ¬ 1 < (onePixelOf 1).depth := by decide
  have hm : (Moments.still (DataSet.new.load (onePixelOf 1) : DataSet Codec.plain)).Reachable (onePixelOf 1) := still_reachable .loaded
  exact image_not_within hm hdepth hpasses (hall _ _ hm _ hpasses)

end FitsWebQL
