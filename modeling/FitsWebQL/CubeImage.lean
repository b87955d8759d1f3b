/-
  FitsWebQL.CubeImage — the image of a range of frames (`FITS::get_cube` and the ISPC
  kernels `make_image_spectrumF16`, `make_image_spectrumF32_ro`, `join_pixels_masks`).

  Every OpenMP thread has a cleared pixel and mask buffer of its own. A compressed frame
  is added to its thread's buffer region by region; when a region is missing the whole
  raw plane is added instead, on top of what the regions before it left there. The
  threads' buffers are then joined into the two result buffers, which `get_cube` takes as
  allocated. A cached value, already physical, is scaled by `bzero` and `bscale` again.

  Proved, whatever frames and regions are there and whichever thread takes which frame:
  - `cubeFrame_pixels`, `cubeFrame_mask`: what one frame leaves in its thread's buffer.
  - `joinAll_apply`: joining adds every thread's buffer to the result, pixel by pixel.
  - `getCube_eq`: the image is what was in the result buffers plus, for every frame,
    what its regions and its raw plane add; or the division by zero of a plane smaller
    than the number of threads.
-/

import FitsWebQL.Lib.Scatter
import FitsWebQL.Spectrum

namespace FitsWebQL

open Lib.Tiling Lib.Scatter

variable {C : Codec}

/-! ## The kernels -/

structure PlaneBuffer where
  pixels : ℕ → ℚ
  mask : ℕ → UInt8

def PlaneBuffer.cleared : PlaneBuffer := ⟨fun _ => 0, fun _ => 0⟩

/-- `dst_pixels[idx] += tmp; dst_mask[idx] = 255` for the valid pixels, and the frame's
    mean and integrated value. -/
def makeImageSpectrum (writes : List (ℕ × ℚ)) (cdelt3 : ℚ) (dst : PlaneBuffer) : PlaneBuffer × ℚ × ℚ :=
  let sum := (writes.map Prod.snd).sum
  let count := writes.length
  (⟨scatter (fun pixel tmp => pixel + tmp) writes dst.pixels, scatter (fun _ _ => 255) writes dst.mask⟩,
    reduceSpectrum true cdelt3 sum count, reduceSpectrum false cdelt3 sum count)

def makeImageSpectrumF32Ro (s : Scale) (src : Plane) (cdelt3 : ℚ) (dst : PlaneBuffer) (total_size : ℕ) :
    PlaneBuffer × ℚ × ℚ :=
  makeImageSpectrum ((List.range total_size).filterMap fun i => (s.pixel src i).map fun tmp => (i, tmp)) cdelt3 dst

def makeImageSpectrumF16 (s : Scale) (src : C.Region) (dx dy src_stride : ℤ) (cdelt3 : ℚ) (dst : PlaneBuffer)
    (offset_x offset_y dst_stride : ℤ) : PlaneBuffer × ℚ × ℚ :=
  makeImageSpectrum
    ((ints 0 dy).flatMap fun y => (ints 0 dx).filterMap fun x =>
      (s.physical (C.halfToFloatFast (src (y * src_stride + x).toNat))).map fun tmp =>
        (((offset_y + y) * dst_stride + (offset_x + x)).toNat, tmp))
    cdelt3 dst

def joinPixelsMasks (dst src : PlaneBuffer) (start work_size : ℕ) : PlaneBuffer where
  pixels i := if start ≤ i ∧ i < start + work_size then dst.pixels i + src.pixels i else dst.pixels i
  mask i := if start ≤ i ∧ i < start + work_size then dst.mask i ||| src.mask i else dst.mask i

/-! ## get_cube -/

/-- One frame: its thread's buffer, and its mean and integrated value. -/
def cubeFrame (h : FitsHeader) (src : FrameSource C) (i : ℕ) (omp : PlaneBuffer) : PlaneBuffer × ℚ × ℚ :=
  let stop := makeIndices (h.width - 1) (h.height - 1)
  let cached : (PlaneBuffer × ℚ × ℚ) × Bool :=
    if src.isCompressed i then
      regionLoop (src.region i)
        (fun st idy idx region =>
          let offset_x := idx * ZFP_CACHE_REGION
          let offset_y := idy * ZFP_CACHE_REGION
          let dx := min ((idx + 1) * ZFP_CACHE_REGION) h.width - idx * ZFP_CACHE_REGION
          let dy := min ((idy + 1) * ZFP_CACHE_REGION) h.height - idy * ZFP_CACHE_REGION
          let r := makeImageSpectrumF16 h.scale region dx dy ZFP_CACHE_REGION h.cdelt st.1 offset_x offset_y h.width
          (r.1, st.2.1 + r.2.1, st.2.2 + r.2.2))
        (boxRegions (makeIndices 0 0).2 stop.2 (makeIndices 0 0).1 stop.1) (omp, 0, 0)
    else ((omp, 0, 0), false)
  if cached.2 then cached.1
  else
    match src.fitsCube i with
    | none => (cached.1.1, 0, 0)
    | some pixels_buf => makeImageSpectrumF32Ro h.scale pixels_buf h.cdelt cached.1.1 (h.width * h.height).toNat

/-- The frame loop, frame `i` being taken by thread `tid i`. A thread takes its frames in
    ascending order, so threads apart, the frames may be taken in ascending order. -/
def cubeLoop (h : FitsHeader) (src : FrameSource C) (tid : ℕ → ℕ) :
    List ℕ → (ℕ → PlaneBuffer) → (ℕ → PlaneBuffer) × List (ℚ × ℚ)
  | [], omp => (omp, [])
  | i :: is, omp =>
    let r := cubeFrame h src i (omp (tid i))
    let rest := cubeLoop h src tid is (fun t => if t = tid i then r.1 else omp t)
    (rest.1, r.2 :: rest.2)

def MAX_WORK_SIZE : ℕ := 1024 * 1024 * 1024

def joinParts (plane_size num_threads : ℕ) (omp img : PlaneBuffer) : PlaneBuffer :=
  (List.range num_threads).foldl
    (fun img tid =>
      let work_size := plane_size / num_threads
      let start := tid * work_size
      joinPixelsMasks img omp start (if tid + 1 = num_threads then plane_size - start else work_size))
    img

def joinAll (plane_size num_threads max_threads : ℕ) (omp : ℕ → PlaneBuffer) (img : PlaneBuffer) : PlaneBuffer :=
  (List.range max_threads).foldl (fun img i => joinParts plane_size num_threads (omp i) img) img

structure CubeResult where
  img : PlaneBuffer
  mean_spectrum : List ℚ
  integrated_spectrum : List ℚ

inductive CubeReply where
  | empty
  | divisionByZero
  | image (r : CubeResult)

def framesOf (start stop : ℤ) : List ℕ := (ints (min start stop) (max start stop + 1)).map Int.toNat

/-- `get_cube(start, end)`, `img` being what the two result buffers hold when allocated. -/
def getCube (h : FitsHeader) (src : FrameSource C) (max_threads : ℕ) (tid : ℕ → ℕ) (img : PlaneBuffer)
    (start stop : ℤ) : CubeReply :=
  if h.accepts start stop then
    let plane_size := (h.width * h.height).toNat
    let r := cubeLoop h src tid (framesOf start stop) fun _ => PlaneBuffer.cleared
    let work_size := min (plane_size / max_threads) MAX_WORK_SIZE
    if work_size = 0 then .divisionByZero
    else
      let num_threads := plane_size / work_size
      .image ⟨joinAll plane_size num_threads max_threads r.1 img, r.2.map Prod.fst, r.2.map Prod.snd⟩
  else .empty

/-! ## What a frame writes -/

/-- A buffer after `dst_pixels[idx] += tmp; dst_mask[idx] = 255` for every write. -/
def PlaneBuffer.land (dst : PlaneBuffer) (writes : List (ℕ × ℚ)) : PlaneBuffer :=
  ⟨scatter (fun pixel tmp => pixel + tmp) writes dst.pixels, scatter (fun _ _ => 255) writes dst.mask⟩

theorem land_append (dst : PlaneBuffer) (ws ws' : List (ℕ × ℚ)) : dst.land (ws ++ ws') = (dst.land ws).land ws' := by
  simp only [PlaneBuffer.land, scatter_append]

theorem land_pixels (dst : PlaneBuffer) (ws : List (ℕ × ℚ)) (p : ℕ) : (dst.land ws).pixels p = dst.pixels p + added p ws :=
  scatter_add ws dst.pixels p

theorem land_mask (dst : PlaneBuffer) (ws : List (ℕ × ℚ)) (p : ℕ) :
    (dst.land ws).mask p = if 0 < hits p ws then 255 else dst.mask p :=
  scatter_const 255 ws dst.mask p

def spectra (cdelt3 : ℚ) (writes : List (ℕ × ℚ)) : ℚ × ℚ :=
  (reduceSpectrum true cdelt3 (writes.map Prod.snd).sum writes.length,
    reduceSpectrum false cdelt3 (writes.map Prod.snd).sum writes.length)

def FrameSource.walked (src : FrameSource C) (h : FitsHeader) (i : ℕ) : List (ℤ × ℤ) :=
  if src.isCompressed i then h.imageRegions.takeWhile fun q => (src.region i q.1 q.2).isSome else []

def FrameSource.complete (src : FrameSource C) (h : FitsHeader) (i : ℕ) : Bool :=
  src.isCompressed i && h.imageRegions.all fun q => (src.region i q.1 q.2).isSome

def regionWrites (h : FitsHeader) (region : C.Region) (q : ℤ × ℤ) : List (ℕ × ℚ) :=
  (ints 0 (min ((q.1 + 1) * ZFP_CACHE_REGION) h.height - q.1 * ZFP_CACHE_REGION)).flatMap fun y =>
    (ints 0 (min ((q.2 + 1) * ZFP_CACHE_REGION) h.width - q.2 * ZFP_CACHE_REGION)).filterMap fun x =>
      (h.scale.physical (C.halfToFloatFast (region (y * ZFP_CACHE_REGION + x).toNat))).map fun tmp =>
        (((q.1 * ZFP_CACHE_REGION + y) * h.width + (q.2 * ZFP_CACHE_REGION + x)).toNat, tmp)

def planeWrites (h : FitsHeader) (plane : Plane) : List (ℕ × ℚ) :=
  (List.range (h.width * h.height).toNat).filterMap fun i => (h.scale.pixel plane i).map fun tmp => (i, tmp)

def FrameSource.regionWrites (src : FrameSource C) (h : FitsHeader) (i : ℕ) (q : ℤ × ℤ) : List (ℕ × ℚ) :=
  ((src.region i q.1 q.2).map fun region => FitsWebQL.regionWrites h region q).getD []

def FrameSource.writes (src : FrameSource C) (h : FitsHeader) (i : ℕ) : List (ℕ × ℚ) :=
  (src.walked h i).flatMap (src.regionWrites h i) ++
    if src.complete h i then [] else ((src.fitsCube i).map (planeWrites h)).getD []

def FrameSource.spectra (src : FrameSource C) (h : FitsHeader) (i : ℕ) : ℚ × ℚ :=
  if src.complete h i then
    (((src.walked h i).map fun q => (FitsWebQL.spectra h.cdelt (src.regionWrites h i q)).1).sum,
      ((src.walked h i).map fun q => (FitsWebQL.spectra h.cdelt (src.regionWrites h i q)).2).sum)
  else ((src.fitsCube i).map fun plane => FitsWebQL.spectra h.cdelt (planeWrites h plane)).getD (0, 0)

/-- The walk of `cubeFrame`, region after region. -/
theorem foldl_regions (writes : ℤ × ℤ → List (ℕ × ℚ)) (cdelt3 : ℚ) (ps : List (ℤ × ℤ)) (dst : PlaneBuffer) (m n : ℚ) :
    ps.foldl (fun (st : PlaneBuffer × ℚ × ℚ) q =>
        (st.1.land (writes q), st.2.1 + (spectra cdelt3 (writes q)).1, st.2.2 + (spectra cdelt3 (writes q)).2)) (dst, m, n) =
      (dst.land (ps.flatMap writes), m + (ps.map fun q => (spectra cdelt3 (writes q)).1).sum,
        n + (ps.map fun q => (spectra cdelt3 (writes q)).2).sum) := by
  induction ps generalizing dst m n with
  | nil => simp [PlaneBuffer.land, scatter]
  | cons q ps ih =>
    rw [List.foldl_cons, ih, List.flatMap_cons, land_append]
    simp only [List.map_cons, List.sum_cons, add_assoc]

theorem cubeFrame_eq (h : FitsHeader) (src : FrameSource C) (i : ℕ) (omp : PlaneBuffer) :
    cubeFrame h src i omp = (omp.land (src.writes h i), src.spectra h i) := by
  unfold cubeFrame FrameSource.writes FrameSource.spectra FrameSource.complete FrameSource.walked
  cases src.isCompressed i with
  | false =>
    simp only [Bool.false_eq_true, if_false, Bool.false_and, List.flatMap_nil, List.nil_append]
    cases src.fitsCube i with
    | none => rfl
    | some plane => rfl
  | true =>
    simp only [if_true, Bool.true_and, regionLoop_eq]
    rw [List.foldl_ext _ (fun st q => (st.1.land (src.regionWrites h i q),
      st.2.1 + (FitsWebQL.spectra h.cdelt (src.regionWrites h i q)).1,
      st.2.2 + (FitsWebQL.spectra h.cdelt (src.regionWrites h i q)).2)) _ ?_, foldl_regions]
    · simp only [zero_add]
      change (if (h.imageRegions.all fun q => (src.region i q.1 q.2).isSome) = true then _ else _) = _
      split
      · simp only [List.append_nil]
        rfl
      · cases src.fitsCube i with
        | none =>
          simp only [Option.map_none, Option.getD_none, List.append_nil]
          rfl
        | some plane =>
          simp only [Option.map_some, Option.getD_some, land_append]
          rfl
    · intro st q hq
      have hs : (src.region i q.1 q.2).isSome = true :=
        List.mem_takeWhile_imp (p := fun q : ℤ × ℤ => (src.region i q.1 q.2).isSome) hq
      obtain ⟨region, hr⟩ := Option.isSome_iff_exists.mp hs
      simp only [FrameSource.regionWrites, hr, Option.map_some, Option.getD_some]
      rfl

/-! ## The threads' buffers -/

def threadWrites (h : FitsHeader) (src : FrameSource C) (tid : ℕ → ℕ) (is : List ℕ) (t : ℕ) : List (ℕ × ℚ) :=
  (is.filter fun i => tid i = t).flatMap (src.writes h)

theorem cubeLoop_eq (h : FitsHeader) (src : FrameSource C) (tid : ℕ → ℕ) (is : List ℕ) (omp : ℕ → PlaneBuffer) :
    cubeLoop h src tid is omp = (fun t => (omp t).land (threadWrites h src tid is t), is.map (src.spectra h)) := by
  induction is generalizing omp with
  | nil => rfl
  | cons i is ih =>
    rw [cubeLoop, ih]
    simp only [cubeFrame_eq, List.map_cons, Prod.mk.injEq, and_true]
    funext t
    unfold threadWrites
    by_cases ht : tid i = t
    · subst ht
      rw [if_pos rfl, List.filter_cons_of_pos (by simp), List.flatMap_cons, land_append]
    · rw [if_neg (Ne.symm ht), List.filter_cons_of_neg (by simpa using ht)]

/-! ## Joining -/

def PlaneBuffer.joined (img omp : PlaneBuffer) (plane_size : ℕ) : PlaneBuffer where
  pixels p := if p < plane_size then img.pixels p + omp.pixels p else img.pixels p
  mask p := if p < plane_size then img.mask p ||| omp.mask p else img.mask p

/-- Joining the next `n` pixels. -/
theorem joinPixelsMasks_joined (img omp : PlaneBuffer) (a n : ℕ) :
    joinPixelsMasks (img.joined omp a) omp a n = img.joined omp (a + n) := by
  unfold joinPixelsMasks PlaneBuffer.joined
  congr 1 <;> funext p <;> dsimp only
  all_goals
    by_cases h1 : p < a
    · rw [if_neg (by omega), if_pos h1, if_pos (by omega)]
    · by_cases h2 : p < a + n
      · rw [if_pos (by omega), if_neg h1, if_pos h2]
      · rw [if_neg (by omega), if_neg h1, if_neg h2]

/-- The parts cover the plane and do not overlap. -/
theorem joinParts_eq {plane_size num_threads : ℕ} (hn : 0 < num_threads) (omp img : PlaneBuffer) :
    joinParts plane_size num_threads omp img = img.joined omp plane_size := by
  -- the first `k` parts, all of the same size
  have first : ∀ k, k < num_threads →
      (List.range k).foldl (fun img tid => joinPixelsMasks img omp (tid * (plane_size / num_threads))
          (if tid + 1 = num_threads then plane_size - tid * (plane_size / num_threads) else plane_size / num_threads)) img =
        img.joined omp (k * (plane_size / num_threads)) := by
    intro k
    induction k with
    | zero =>
      intro _
      simp [PlaneBuffer.joined]
    | succ k ih =>
      intro hk
      rw [List.range_succ, List.foldl_append, ih (by omega), List.foldl_cons, List.foldl_nil, if_neg (by omega),
        joinPixelsMasks_joined, Nat.succ_mul]
  obtain ⟨k, rfl⟩ : ∃ k, num_threads = k + 1 := ⟨num_threads - 1, by omega⟩
  have hle : k * (plane_size / (k + 1)) ≤ plane_size := by
    have h1 : (k + 1) * (plane_size / (k + 1)) ≤ plane_size := Nat.mul_div_le _ _
    rw [Nat.succ_mul] at h1
    exact le_trans (Nat.le_add_right _ _) h1
  unfold joinParts
  rw [List.range_succ, List.foldl_append, first k (by omega), List.foldl_cons, List.foldl_nil]
  dsimp only
  rw [if_pos rfl, joinPixelsMasks_joined, Nat.add_sub_cancel' hle]

theorem joined_joined_pixels (img : PlaneBuffer) (plane_size : ℕ) (omp : ℕ → PlaneBuffer) (n p : ℕ) (hp : p < plane_size) :
    ((List.range n).foldl (fun img i => img.joined (omp i) plane_size) img).pixels p =
      img.pixels p + ∑ t ∈ Finset.range n, (omp t).pixels p := by
  induction n with
  | zero => simp
  | succ n ih =>
    rw [List.range_succ, List.foldl_append, List.foldl_cons, List.foldl_nil, Finset.sum_range_succ, ← add_assoc, ← ih]
    exact if_pos hp

/-- A mask byte is what was there, with 255 put over it if any thread's is 255. -/
theorem joined_joined_mask (img : PlaneBuffer) (plane_size : ℕ) (omp : ℕ → PlaneBuffer) (n p : ℕ) (hp : p < plane_size)
    (valid : ℕ → Prop) [DecidablePred valid] (hv : ∀ t < n, (omp t).mask p = if valid t then 255 else 0) :
    ((List.range n).foldl (fun img i => img.joined (omp i) plane_size) img).mask p =
      if ∃ t < n, valid t then 255 else img.mask p := by
  have or255 : ∀ m : UInt8, m ||| 255 = 255 := by decide +kernel
  induction n with
  | zero => simp
  | succ n ih =>
    rw [List.range_succ, List.foldl_append, List.foldl_cons, List.foldl_nil]
    change (if p < plane_size then _ ||| (omp n).mask p else _) = _
    rw [if_pos hp, ih fun t ht => hv t (by omega), hv n (by omega)]
    by_cases hn : valid n
    · rw [if_pos hn, or255, if_pos ⟨n, by omega, hn⟩]
    · rw [if_neg hn, UInt8.or_zero]
      have : (∃ t < n + 1, valid t) ↔ ∃ t < n, valid t := by
        constructor
        · rintro ⟨t, ht, hvt⟩
          rcases Nat.lt_succ_iff_lt_or_eq.mp ht with h | rfl
          · exact ⟨t, h, hvt⟩
          · exact absurd hvt hn
        · rintro ⟨t, ht, hvt⟩
          exact ⟨t, by omega, hvt⟩
      simp only [this]

/-! ## The image -/

/-- However the frames are shared out, the threads' buffers add up to what the frames add. -/
theorem sum_threadWrites (h : FitsHeader) (src : FrameSource C) (tid : ℕ → ℕ) {max_threads : ℕ}
    (htid : ∀ i, tid i < max_threads) (is : List ℕ) (p : ℕ) :
    ∑ t ∈ Finset.range max_threads, added p (threadWrites h src tid is t) =
      (is.map fun i => added p (src.writes h i)).sum := by
  unfold threadWrites
  induction is with
  | nil => simp [added]
  | cons i is ih =>
    have split : ∀ t, added p (((i :: is).filter fun i => tid i = t).flatMap (src.writes h)) =
        (if tid i = t then added p (src.writes h i) else 0) +
          added p ((is.filter fun i => tid i = t).flatMap (src.writes h)) := by
      intro t
      by_cases ht : tid i = t
      · rw [List.filter_cons_of_pos (by simpa using ht), List.flatMap_cons, added_append, if_pos ht]
      · rw [List.filter_cons_of_neg (by simpa using ht), if_neg ht, zero_add]
    rw [Finset.sum_congr rfl fun t _ => split t, Finset.sum_add_distrib, ih, List.map_cons, List.sum_cons,
      Finset.sum_ite_eq, if_pos (Finset.mem_range.mpr (htid i))]

theorem hits_threadWrites (h : FitsHeader) (src : FrameSource C) (tid : ℕ → ℕ) (is : List ℕ) (t p : ℕ) :
    0 < hits p (threadWrites h src tid is t) ↔ ∃ i ∈ is, tid i = t ∧ 0 < hits p (src.writes h i) := by
  unfold threadWrites
  rw [hits_flatMap]
  constructor
  · intro hpos
    by_contra hn
    refine hpos.ne' (List.sum_eq_zero fun n hn' => ?_)
    obtain ⟨i, hi, rfl⟩ := List.mem_map.mp hn'
    rw [List.mem_filter, decide_eq_true_eq] at hi
    by_contra h0
    exact hn ⟨i, hi.1, hi.2, Nat.pos_of_ne_zero h0⟩
  · rintro ⟨i, hi, ht, hpos⟩
    have hmem : i ∈ is.filter fun i => tid i = t := List.mem_filter.mpr ⟨hi, by simpa using ht⟩
    exact lt_of_lt_of_le hpos (List.single_le_sum (fun _ _ => Nat.zero_le _) _ (List.mem_map.mpr ⟨i, hmem, rfl⟩))

/-- The reply to an accepted request, for a plane of at least a pixel a thread. -/
theorem getCube_eq (h : FitsHeader) (src : FrameSource C) {max_threads : ℕ} (hmax : 0 < max_threads) (tid : ℕ → ℕ)
    (htid : ∀ i, tid i < max_threads) (img : PlaneBuffer) {start stop : ℤ} (ha : h.accepts start stop = true)
    (hsize : max_threads ≤ (h.width * h.height).toNat) :
    ∃ r, getCube h src max_threads tid img start stop = .image r ∧
      (∀ p < (h.width * h.height).toNat,
        r.img.pixels p = img.pixels p + ((framesOf start stop).map fun i => added p (src.writes h i)).sum) ∧
      (∀ p < (h.width * h.height).toNat,
        r.img.mask p = if ∃ i ∈ framesOf start stop, 0 < hits p (src.writes h i) then 255 else img.mask p) ∧
      r.mean_spectrum = (framesOf start stop).map (fun i => (src.spectra h i).1) ∧
      r.integrated_spectrum = (framesOf start stop).map (fun i => (src.spectra h i).2) := by
  have hwork : 0 < min ((h.width * h.height).toNat / max_threads) MAX_WORK_SIZE :=
    lt_min (Nat.div_pos hsize hmax) (by decide)
  have hparts : 0 < (h.width * h.height).toNat / min ((h.width * h.height).toNat / max_threads) MAX_WORK_SIZE :=
    Nat.div_pos (le_trans (min_le_left _ _) (Nat.div_le_self _ _)) hwork
  unfold getCube
  rw [if_pos ha]
  dsimp only
  rw [if_neg (by omega)]
  refine ⟨_, rfl, ?_, ?_, ?_, ?_⟩
  · intro p hp
    unfold joinAll
    simp only [joinParts_eq hparts, cubeLoop_eq]
    rw [joined_joined_pixels img _ (fun t => PlaneBuffer.cleared.land (threadWrites h src tid (framesOf start stop) t)) _ p hp,
      ← sum_threadWrites h src tid htid]
    congr 1
    refine Finset.sum_congr rfl fun t _ => ?_
    rw [land_pixels]
    exact zero_add _
  · intro p hp
    unfold joinAll
    simp only [joinParts_eq hparts, cubeLoop_eq]
    rw [joined_joined_mask img _ (fun t => PlaneBuffer.cleared.land (threadWrites h src tid (framesOf start stop) t)) _ p hp
      (fun t => 0 < hits p (threadWrites h src tid (framesOf start stop) t)) fun t _ => land_mask _ _ _]
    have threads : (∃ t < max_threads, 0 < hits p (threadWrites h src tid (framesOf start stop) t)) ↔
        ∃ i ∈ framesOf start stop, 0 < hits p (src.writes h i) := by
      simp only [hits_threadWrites]
      constructor
      · rintro ⟨t, _, i, hi, _, hpos⟩
        exact ⟨i, hi, hpos⟩
      · rintro ⟨i, hi, hpos⟩
        exact ⟨tid i, htid i, i, hi, rfl, hpos⟩
    simp only [threads]
  · simp only [cubeLoop_eq, List.map_map]
    rfl
  · simp only [cubeLoop_eq, List.map_map]
    rfl

/-- A plane of fewer pixels than threads: the share of a thread is 0, and the number of
    shares a division by it. -/
theorem getCube_small (h : FitsHeader) (src : FrameSource C) (max_threads : ℕ) (tid : ℕ → ℕ) (img : PlaneBuffer)
    {start stop : ℤ} (ha : h.accepts start stop = true) (hsize : (h.width * h.height).toNat < max_threads) :
    getCube h src max_threads tid img start stop = .divisionByZero := by
  unfold getCube
  rw [if_pos ha]
  dsimp only
  rw [Nat.div_eq_of_lt hsize, if_pos (by decide)]

end FitsWebQL
