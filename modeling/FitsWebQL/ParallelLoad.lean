/-
  FitsWebQL.ParallelLoad — the two ways `from_path` loads a cube. An uncompressed file is
  read by an OpenMP team in groups of four frames: every thread adds its frames to a plane
  of its own, the planes are joined part by part afterwards and the extrema reduced over
  the team. The gzip of the file is read frame after frame into the image itself.

  A frame that could not be read leaves nothing. `pread` reads MAX_RW_COUNT bytes at most,
  `gzread`, of any zlib, none at all when the length does not fit an int; a mapped file is
  never short.

  Proved, for every complete cube:
  - `parallel_eq`: whichever thread takes which group, in whatever order the frames are
    done, the extrema reduced and the parts joined, the team leaves what one thread
    leaves that takes the frames in order.
  - `loadGz_eq`: what the gzip leaves.
  - `parallel_agrees_iff`: the two agree exactly when the gzip is itself of at least 2880
    bytes, and both read the frames or neither does (or no pixel is valid).
  - `small_gzip`: the loader asks the size of the compressed file for a FITS header.
-/

import FitsWebQL.CubeImage
import FitsWebQL.CutOut
import FitsWebQL.HeaderLoops

namespace FitsWebQL

open Lib.FileReads Lib.Tiling Lib.Scatter Lib.Wire

/-! ## One frame -/

structure FrameStatistics where
  fmin : ℚ
  fmax : ℚ
  mean : ℚ
  integrated : ℚ

/-- `dst_pixels[i]` and `tmp` for the valid pixels. -/
def frameWrites (s : Scale) (src : Plane) (total_size : ℕ) : List (ℕ × ℚ) :=
  (List.range (foreachCount total_size)).filterMap fun i => (s.pixel src i).map fun tmp => (i, tmp)

/-- `make_image_spectrumF32_ro`, with `frame_min` FLT_MAX and `frame_max` -FLT_MAX. -/
def frameStatistics (s : Scale) (src : Plane) (cdelt3 : ℚ) (total_size : ℕ) : FrameStatistics :=
  let writes := frameWrites s src total_size
  let r := makeImageSpectrumF32Ro s src cdelt3 PlaneBuffer.cleared (foreachCount total_size)
  ⟨(writes.map Prod.snd).foldl min FLT_MAX, (writes.map Prod.snd).foldl max (-FLT_MAX), r.2.1, r.2.2⟩

/-- `frame_min`, `frame_max`, `mean_spectrum` and `integrated_spectrum`. -/
abbrev FrameArrays := ℕ → FrameStatistics

def FrameArrays.fresh : FrameArrays := fun _ => ⟨FLT_MAX, -FLT_MAX, 0, 0⟩

structure LoadedCube where
  img : PlaneBuffer
  frames : FrameArrays
  dmin : ℚ
  dmax : ℚ

def LoadedCube.cleared : LoadedCube := ⟨PlaneBuffer.cleared, FrameArrays.fresh, FLT_MAX, -FLT_MAX⟩

section Frames

variable (h : FitsHeader)

def FitsHeader.frameWrites (plane : Plane) : List (ℕ × ℚ) := FitsWebQL.frameWrites h.scale plane h.planeSize

def FitsHeader.frameStatistics (plane : Plane) : FrameStatistics :=
  FitsWebQL.frameStatistics h.scale plane h.cdelt h.planeSize

def LoadedCube.addFrame (st : LoadedCube) (frame : ℕ) (plane : Plane) : LoadedCube where
  img := st.img.land (h.frameWrites plane)
  frames := set st.frames frame (h.frameStatistics plane)
  dmin := min st.dmin (h.frameStatistics plane).fmin
  dmax := max st.dmax (h.frameStatistics plane).fmax

/-! ## The uncompressed file -/

/-- What the team has: the threads' planes and private extrema, and the arrays. -/
structure Team where
  omp : ℕ → PlaneBuffer
  pmin : ℕ → ℚ
  pmax : ℕ → ℚ
  frames : FrameArrays

/-- At the start of the loop; a private extremum starts at the reduction's identity. -/
def Team.start : Team := ⟨fun _ => PlaneBuffer.cleared, fun _ => FLT_MAX, fun _ => -FLT_MAX, FrameArrays.fresh⟩

/-- Thread `t` takes a frame; `none` is a frame it could not read. -/
def Team.takeFrame (st : Team) (t frame : ℕ) : Option Plane → Team
  | none => st
  | some plane => {
      omp := set st.omp t ((st.omp t).land (h.frameWrites plane))
      pmin := set st.pmin t (min (st.pmin t) (h.frameStatistics plane).fmin)
      pmax := set st.pmax t (max (st.pmax t) (h.frameStatistics plane).fmax)
      frames := set st.frames frame (h.frameStatistics plane) }

def LoadedCube.takeFrame (st : LoadedCube) (frame : ℕ) : Option Plane → LoadedCube
  | none => st
  | some plane => st.addFrame h frame plane

/-- `num_threads`, the number of parts the planes are joined in. -/
def joinThreads (plane_size max_threads : ℕ) : ℕ := plane_size / min (plane_size / max_threads) MAX_WORK_SIZE

/-- What the runtime chooses: the thread of each group of four, the order in which the
    frames are done, the order of the reduction and that of each thread's parts. -/
structure Schedule (depth no_omp_threads num_threads : ℕ) where
  tid : ℕ → ℕ
  tid_lt : ∀ g, tid g < no_omp_threads
  order : List ℕ
  order_perm : order.Perm (List.range depth)
  reduction : List ℕ
  reduction_perm : reduction.Perm (List.range no_omp_threads)
  parts : ℕ → List ℕ
  parts_perm : ∀ i, (parts i).Perm (List.range num_threads)

def joinPart (plane_size num_threads : ℕ) (omp img : PlaneBuffer) (tid : ℕ) : PlaneBuffer :=
  let work_size := plane_size / num_threads
  let start := tid * work_size
  joinPixelsMasks img omp start (if tid + 1 = num_threads then plane_size - start else work_size)

variable {depth no_omp_threads num_threads : ℕ} (sched : Schedule depth no_omp_threads num_threads)

def runTeam (src : ℕ → Option Plane) : Team :=
  sched.order.foldl (fun st frame => st.takeFrame h (sched.tid (frame / 4)) frame (src frame)) Team.start

def loadParallel (max_threads : ℕ) (src : ℕ → Option Plane) : LoadedCube :=
  let team := runTeam h sched src
  { img := (List.range max_threads).foldl
      (fun img i => (sched.parts i).foldl (joinPart h.planeSize num_threads (team.omp i)) img) PlaneBuffer.cleared
    frames := team.frames
    dmin := sched.reduction.foldl (fun m t => min m (team.pmin t)) FLT_MAX
    dmax := sched.reduction.foldl (fun m t => max m (team.pmax t)) (-FLT_MAX) }

def loadSequential (depth : ℕ) (src : ℕ → Option Plane) : LoadedCube :=
  (List.range depth).foldl (fun st frame => st.takeFrame h frame (src frame)) LoadedCube.cleared

end Frames

/-! ## The frames in any order -/

theorem land_comm (dst : PlaneBuffer) (ws ws' : List (ℕ × ℚ)) : (dst.land ws).land ws' = (dst.land ws').land ws := by
  have hpixels : ((dst.land ws).land ws').pixels = ((dst.land ws').land ws).pixels := by
    funext p
    rw [land_pixels, land_pixels, land_pixels, land_pixels, add_right_comm]
  have hmask : ((dst.land ws).land ws').mask = ((dst.land ws').land ws).mask := by
    funext p
    rw [land_mask, land_mask, land_mask, land_mask]
    split <;> split <;> rfl
  exact (PlaneBuffer.mk.injEq ..).mpr ⟨hpixels, hmask⟩

theorem set_comm {β : Type} (a : ℕ → β) (v : ℕ → β) (f g : ℕ) : set (set a f (v f)) g (v g) = set (set a g (v g)) f (v f) := by
  funext j
  unfold set
  by_cases hg : j = g
  · by_cases hf : j = f
    · rw [if_pos hg, if_pos hf, ← hf, ← hg]
    · rw [if_pos hg, if_neg hf, if_pos hg]
  · rw [if_neg hg, if_neg hg]

/-- Two frames of one thread, in either order. -/
theorem takeFrame_comm (h : FitsHeader) (src : ℕ → Option Plane) (st : LoadedCube) (f g : ℕ) :
    (st.takeFrame h f (src f)).takeFrame h g (src g) = (st.takeFrame h g (src g)).takeFrame h f (src f) := by
  by_cases hfg : f = g
  · rw [hfg]
  cases hf : src f with
  | none => rfl
  | some plane =>
    cases hg : src g with
    | none => rfl
    | some plane' =>
      have hframes : set (set st.frames f (h.frameStatistics plane)) g (h.frameStatistics plane') =
          set (set st.frames g (h.frameStatistics plane')) f (h.frameStatistics plane) := by
        have hset := set_comm st.frames (fun i => if i = f then h.frameStatistics plane else h.frameStatistics plane') f g
        rwa [if_pos rfl, if_neg (Ne.symm hfg)] at hset
      exact (LoadedCube.mk.injEq ..).mpr ⟨land_comm _ _ _, hframes, min_right_comm _ _ _, max_right_comm _ _ _⟩

theorem foldl_frames_perm (h : FitsHeader) (src : ℕ → Option Plane) {fs gs : List ℕ} (hperm : fs.Perm gs) (st : LoadedCube) :
    fs.foldl (fun st frame => st.takeFrame h frame (src frame)) st =
      gs.foldl (fun st frame => st.takeFrame h frame (src frame)) st := by
  have : RightCommutative fun (st : LoadedCube) frame => st.takeFrame h frame (src frame) :=
    ⟨fun st f g => takeFrame_comm h src st f g⟩
  exact hperm.foldl_eq st

/-! ## The team beside one thread -/

/-- The threads' planes add up to the one thread's image, and so on. -/
structure Simulates (plane_size no_omp_threads max_threads : ℕ) (team : Team) (seq : LoadedCube) : Prop where
  pixels : ∀ p, ∑ t ∈ Finset.range max_threads, (team.omp t).pixels p = seq.img.pixels p
  mask : ∀ p, seq.img.mask p = if ∃ t < max_threads, (team.omp t).mask p = 255 then 255 else 0
  byte : ∀ t p, (team.omp t).mask p = if (team.omp t).mask p = 255 then 255 else 0
  outside : ∀ p, plane_size ≤ p → seq.img.pixels p = 0 ∧ seq.img.mask p = 0
  frames : team.frames = seq.frames
  pmin : ∀ m, m ≤ seq.dmin ↔ m ≤ FLT_MAX ∧ ∀ t < no_omp_threads, m ≤ team.pmin t
  pmax : ∀ m, seq.dmax ≤ m ↔ -FLT_MAX ≤ m ∧ ∀ t < no_omp_threads, team.pmax t ≤ m

variable {plane_size no_omp_threads max_threads : ℕ}

theorem simulates_start : Simulates plane_size no_omp_threads max_threads Team.start LoadedCube.cleared where
  pixels _ := Finset.sum_const_zero
  mask p := by
    rw [if_neg]
    · rfl
    · rintro ⟨t, -, ht⟩
      exact absurd ht (show ¬ (0 : UInt8) = 255 by decide)
  byte _ _ := rfl
  outside _ _ := ⟨rfl, rfl⟩
  frames := rfl
  pmin _ := ⟨fun hm => ⟨hm, fun _ _ => hm⟩, fun hm => hm.1⟩
  pmax _ := ⟨fun hm => ⟨hm, fun _ _ => hm⟩, fun hm => hm.1⟩

theorem frameWrites_lt (h : FitsHeader) (plane : Plane) {w : ℕ × ℚ} (hw : w ∈ h.frameWrites plane) : w.1 < h.planeSize := by
  obtain ⟨i, hi, hpixel⟩ := List.mem_filterMap.mp hw
  obtain ⟨tmp, -, rfl⟩ := Option.map_eq_some_iff.mp hpixel
  have hcount : foreachCount h.planeSize ≤ h.planeSize := by
    unfold foreachCount
    split
    · exact Nat.mod_le _ _
    · exact Nat.zero_le _
  exact Nat.lt_of_lt_of_le (List.mem_range.mp hi) hcount

/-- Nothing is written past the plane. -/
theorem frameWrites_outside (h : FitsHeader) (plane : Plane) {p : ℕ} (hp : h.planeSize ≤ p) :
    added p (h.frameWrites plane) = 0 ∧ hits p (h.frameWrites plane) = 0 := by
  have hne : ∀ w ∈ h.frameWrites plane, p ≠ w.1 := fun w hw e => by
    have hlt := frameWrites_lt h plane hw
    omega
  constructor
  · refine List.sum_eq_zero fun v hv => ?_
    obtain ⟨w, hw, rfl⟩ := List.mem_map.mp hv
    exact if_neg (hne w hw)
  · refine List.sum_eq_zero fun v hv => ?_
    obtain ⟨w, hw, rfl⟩ := List.mem_map.mp hv
    exact if_neg (hne w hw)

/-- What holds of every thread's value after one of them is replaced. -/
theorem forall_set_iff {β : Type} {P : β → Prop} {a : ℕ → β} {n t₀ : ℕ} (ht₀ : t₀ < n) {v c : β} (hv : P v ↔ P (a t₀) ∧ P c) :
    (∀ t < n, P (set a t₀ v t)) ↔ (∀ t < n, P (a t)) ∧ P c := by
  unfold set
  constructor
  · intro hall
    have hown := hall t₀ ht₀
    rw [if_pos rfl, hv] at hown
    refine ⟨fun t ht => ?_, hown.2⟩
    by_cases heq : t = t₀
    · rw [heq]
      exact hown.1
    · have ht' := hall t ht
      rwa [if_neg heq] at ht'
  · rintro ⟨hall, hc⟩ t ht
    split
    · exact hv.mpr ⟨hall t₀ ht₀, hc⟩
    · exact hall t ht

/-- A frame keeps them side by side, whichever thread of the team takes it. -/
theorem simulates_takeFrame {h : FitsHeader} {team : Team} {seq : LoadedCube}
    (hsim : Simulates h.planeSize no_omp_threads max_threads team seq) {t₀ : ℕ} (ht₀ : t₀ < no_omp_threads)
    (hteam : no_omp_threads ≤ max_threads) (frame : ℕ) (plane : Option Plane) :
    Simulates h.planeSize no_omp_threads max_threads (team.takeFrame h t₀ frame plane) (seq.takeFrame h frame plane) := by
  cases plane with
  | none => exact hsim
  | some plane =>
    have hpixel : ∀ t p, ((team.takeFrame h t₀ frame (some plane)).omp t).pixels p =
        (team.omp t).pixels p + if t = t₀ then added p (h.frameWrites plane) else 0 := by
      intro t p
      show (set team.omp t₀ ((team.omp t₀).land (h.frameWrites plane)) t).pixels p = _
      unfold set
      by_cases ht : t = t₀
      · rw [if_pos ht, if_pos ht, land_pixels, ht]
      · rw [if_neg ht, if_neg ht, add_zero]
    have hmask : ∀ t p, ((team.takeFrame h t₀ frame (some plane)).omp t).mask p =
        if t = t₀ ∧ 0 < hits p (h.frameWrites plane) then 255 else (team.omp t).mask p := by
      intro t p
      show (set team.omp t₀ ((team.omp t₀).land (h.frameWrites plane)) t).mask p = _
      unfold set
      by_cases ht : t = t₀
      · rw [if_pos ht, land_mask, ht]
        simp only [true_and]
      · rw [if_neg ht, if_neg fun h' => ht h'.1]
    constructor
    · intro p
      show _ = (seq.img.land (h.frameWrites plane)).pixels p
      rw [land_pixels, ← hsim.pixels p, Finset.sum_congr rfl fun t _ => hpixel t p, Finset.sum_add_distrib,
        Finset.sum_ite_eq', if_pos (Finset.mem_range.mpr (by omega))]
    · intro p
      show (seq.img.land (h.frameWrites plane)).mask p = _
      rw [land_mask, hsim.mask p]
      by_cases hhit : 0 < hits p (h.frameWrites plane)
      · rw [if_pos hhit, if_pos ⟨t₀, by omega, by rw [hmask, if_pos ⟨rfl, hhit⟩]⟩]
      · have hsame : ∀ t, ((team.takeFrame h t₀ frame (some plane)).omp t).mask p = (team.omp t).mask p := by
          intro t
          rw [hmask, if_neg fun h' => hhit h'.2]
        simp only [if_neg hhit, hsame]
    · intro t p
      rw [hmask]
      split
      · rfl
      · exact hsim.byte t p
    · intro p hp
      obtain ⟨hadded, hhits⟩ := frameWrites_outside h plane hp
      obtain ⟨hpix, hm⟩ := hsim.outside p hp
      constructor
      · show (seq.img.land (h.frameWrites plane)).pixels p = 0
        rw [land_pixels, hadded, hpix, add_zero]
      · show (seq.img.land (h.frameWrites plane)).mask p = 0
        rw [land_mask, hhits, if_neg (Nat.lt_irrefl 0), hm]
    · show set team.frames frame _ = set seq.frames frame _
      rw [hsim.frames]
    · intro m
      show m ≤ min seq.dmin _ ↔ _ ∧ ∀ t < no_omp_threads, m ≤ set team.pmin t₀ _ t
      rw [le_min_iff, hsim.pmin m, forall_set_iff (P := fun v => m ≤ v) ht₀ le_min_iff, and_assoc]
    · intro m
      show max seq.dmax _ ≤ m ↔ _ ∧ ∀ t < no_omp_threads, set team.pmax t₀ _ t ≤ m
      rw [max_le_iff, hsim.pmax m, forall_set_iff (P := fun v => v ≤ m) ht₀ max_le_iff, and_assoc]

/-- The whole loop. -/
theorem simulates_runTeam (h : FitsHeader) {depth num_threads : ℕ} (sched : Schedule depth no_omp_threads num_threads)
    (hteam : no_omp_threads ≤ max_threads) (src : ℕ → Option Plane) :
    Simulates h.planeSize no_omp_threads max_threads (runTeam h sched src) (loadSequential h depth src) := by
  unfold loadSequential runTeam
  rw [← foldl_frames_perm h src sched.order_perm]
  generalize sched.order = order
  have key : ∀ (team : Team) (seq : LoadedCube), Simulates h.planeSize no_omp_threads max_threads team seq →
      Simulates h.planeSize no_omp_threads max_threads
        (order.foldl (fun st frame => st.takeFrame h (sched.tid (frame / 4)) frame (src frame)) team)
        (order.foldl (fun st frame => st.takeFrame h frame (src frame)) seq) := by
    induction order with
    | nil => exact fun _ _ hsim => hsim
    | cons frame order ih =>
      exact fun team seq hsim => ih _ _ (simulates_takeFrame hsim (sched.tid_lt _) hteam frame (src frame))
  exact key _ _ simulates_start

/-! ## The join -/

theorem joinPixelsMasks_comm (img omp : PlaneBuffer) (a n b m : ℕ) :
    joinPixelsMasks (joinPixelsMasks img omp a n) omp b m = joinPixelsMasks (joinPixelsMasks img omp b m) omp a n := by
  have hpixels : (joinPixelsMasks (joinPixelsMasks img omp a n) omp b m).pixels =
      (joinPixelsMasks (joinPixelsMasks img omp b m) omp a n).pixels := by
    funext p
    by_cases ha : a ≤ p ∧ p < a + n <;> by_cases hb : b ≤ p ∧ p < b + m <;> simp [joinPixelsMasks, ha, hb]
  have hmask : (joinPixelsMasks (joinPixelsMasks img omp a n) omp b m).mask =
      (joinPixelsMasks (joinPixelsMasks img omp b m) omp a n).mask := by
    funext p
    by_cases ha : a ≤ p ∧ p < a + n <;> by_cases hb : b ≤ p ∧ p < b + m <;> simp [joinPixelsMasks, ha, hb]
  exact (PlaneBuffer.mk.injEq ..).mpr ⟨hpixels, hmask⟩

/-- A thread's parts in any order. -/
theorem joinPart_perm {plane_size num_threads : ℕ} (hn : 0 < num_threads) (omp img : PlaneBuffer) {parts : List ℕ}
    (hperm : parts.Perm (List.range num_threads)) :
    parts.foldl (joinPart plane_size num_threads omp) img = img.joined omp plane_size := by
  have : RightCommutative (joinPart plane_size num_threads omp) := ⟨fun img a b => joinPixelsMasks_comm img omp _ _ _ _⟩
  rw [hperm.foldl_eq img, ← joinParts_eq hn]
  rfl

theorem joined_outside (plane_size : ℕ) (omp : ℕ → PlaneBuffer) (n : ℕ) {p : ℕ} (hp : plane_size ≤ p) (img : PlaneBuffer) :
    ((List.range n).foldl (fun img i => img.joined (omp i) plane_size) img).pixels p = img.pixels p ∧
      ((List.range n).foldl (fun img i => img.joined (omp i) plane_size) img).mask p = img.mask p := by
  induction n with
  | zero => exact ⟨rfl, rfl⟩
  | succ n ih =>
    rw [List.range_succ, List.foldl_append, List.foldl_cons, List.foldl_nil]
    exact ⟨(if_neg (by omega)).trans ih.1, (if_neg (by omega)).trans ih.2⟩

/-! ## The reduction -/

theorem le_foldl_min (pmin : ℕ → ℚ) (ts : List ℕ) (m₀ m : ℚ) :
    m ≤ ts.foldl (fun m t => min m (pmin t)) m₀ ↔ m ≤ m₀ ∧ ∀ t ∈ ts, m ≤ pmin t := by
  induction ts generalizing m₀ with
  | nil => simp
  | cons t ts ih => rw [List.foldl_cons, ih, le_min_iff, List.forall_mem_cons, and_assoc]

theorem foldl_max_le (pmax : ℕ → ℚ) (ts : List ℕ) (m₀ m : ℚ) :
    ts.foldl (fun m t => max m (pmax t)) m₀ ≤ m ↔ m₀ ≤ m ∧ ∀ t ∈ ts, pmax t ≤ m := by
  induction ts generalizing m₀ with
  | nil => simp
  | cons t ts ih => rw [List.foldl_cons, ih, max_le_iff, List.forall_mem_cons, and_assoc]

theorem joinThreads_pos {plane_size max_threads : ℕ} (hmax : 0 < max_threads) (hsize : max_threads ≤ plane_size) :
    0 < joinThreads plane_size max_threads := by
  have hwork : 0 < min (plane_size / max_threads) MAX_WORK_SIZE := lt_min (Nat.div_pos hsize hmax) (by decide)
  exact Nat.div_pos (le_trans (min_le_left _ _) (Nat.div_le_self _ _)) hwork

/-- What the team leaves is what one thread leaves that takes the frames in order. -/
theorem parallel_eq (h : FitsHeader) {depth num_threads : ℕ} (hn : 0 < num_threads)
    (sched : Schedule depth no_omp_threads num_threads) (hteam : no_omp_threads ≤ max_threads) (src : ℕ → Option Plane) :
    loadParallel h sched max_threads src = loadSequential h depth src := by
  have hsim := simulates_runTeam h sched hteam src
  have hmem : ∀ t, t ∈ sched.reduction ↔ t < no_omp_threads := fun t => by
    rw [sched.reduction_perm.mem_iff, List.mem_range]
  have himg : (loadParallel h sched max_threads src).img =
      (List.range max_threads).foldl (fun img i => img.joined ((runTeam h sched src).omp i) h.planeSize) PlaneBuffer.cleared := by
    unfold loadParallel
    simp only [joinPart_perm hn _ _ (sched.parts_perm _)]
  have hpixels : (loadParallel h sched max_threads src).img.pixels = (loadSequential h depth src).img.pixels := by
    funext p
    rw [himg]
    rcases Nat.lt_or_ge p h.planeSize with hp | hp
    · rw [joined_joined_pixels _ _ _ _ _ hp, hsim.pixels p]
      exact zero_add _
    · rw [(joined_outside _ _ _ hp _).1, (hsim.outside p hp).1]
      rfl
  have hmask : (loadParallel h sched max_threads src).img.mask = (loadSequential h depth src).img.mask := by
    funext p
    rw [himg]
    rcases Nat.lt_or_ge p h.planeSize with hp | hp
    · rw [joined_joined_mask _ _ _ _ _ hp (fun t => ((runTeam h sched src).omp t).mask p = 255) fun t _ => hsim.byte t p,
        hsim.mask p]
      rfl
    · rw [(joined_outside _ _ _ hp _).2, (hsim.outside p hp).2]
      rfl
  have hdmin : (loadParallel h sched max_threads src).dmin = (loadSequential h depth src).dmin := by
    refine eq_of_forall_le_iff fun m => ?_
    have hmin := le_foldl_min (runTeam h sched src).pmin sched.reduction FLT_MAX m
    simp only [hmem] at hmin
    rw [hsim.pmin m]
    exact hmin
  have hdmax : (loadParallel h sched max_threads src).dmax = (loadSequential h depth src).dmax := by
    refine eq_of_forall_ge_iff fun m => ?_
    have hmax := foldl_max_le (runTeam h sched src).pmax sched.reduction (-FLT_MAX) m
    simp only [hmem] at hmax
    rw [hsim.pmax m]
    exact hmax
  exact (LoadedCube.mk.injEq ..).mpr ⟨(PlaneBuffer.mk.injEq ..).mpr ⟨hpixels, hmask⟩, hsim.frames, hdmin, hdmax⟩

/-! ## Reading the frames -/

def planeOf (bytes : Bytes) : Plane := fun i => wordOf (bytes.drop (4 * i))

def fileFrame (l : LoadedHeader) (file : Bytes) (use_mmap : Bool) (frame : ℕ) : Option Plane :=
  let offset := l.hdr_len + l.fits.frameSize * frame
  if use_mmap then some (planeOf ((file.drop offset).take l.fits.frameSize))
  else
    let bytes := pread file l.fits.frameSize offset
    if bytes.length = l.fits.frameSize then some (planeOf bytes) else none

/-- The inner loop: a short read breaks it. -/
def gzGroup (z : Zlib) (h : FitsHeader) : List ℕ → GzStream × LoadedCube → GzStream × LoadedCube
  | [], st => st
  | frame :: frames, st =>
    -- the length is an `unsigned`
    let r := z.gzread st.1 (h.frameSize % 2 ^ 32)
    match r.1 with
    | none => (r.2, st.2)
    | some bytes =>
      if bytes.length = h.frameSize then gzGroup z h frames (r.2, st.2.addFrame h frame (planeOf bytes)) else (r.2, st.2)

def groupFrames (depth g : ℕ) : List ℕ := List.range' (4 * g) (min (4 * g + 4) depth - 4 * g)

def loadGz (z : Zlib) (l : LoadedHeader) (stream : Bytes) : LoadedCube :=
  let depth := l.fits.depth.toNat
  ((List.range ((depth + 3) / 4)).foldl (fun st g => gzGroup z l.fits (groupFrames depth g) st)
    (⟨stream.drop l.hdr_len, false⟩, LoadedCube.cleared)).2

/-- A gzip: its size on the disk, and the bytes `gzread` gives. -/
structure GzFile where
  st_size : ℕ
  stream : Bytes

def noOmpThreads (max_threads va_count : ℕ) : ℕ := max (max_threads / va_count) 1

variable {depth num_threads : ℕ}

/-- `from_path` on the file of a cube with header `l`; `none` is a file thought too short. -/
def fromPathFile (l : LoadedHeader) (file : Bytes) (use_mmap : Bool) (max_threads : ℕ)
    (sched : Schedule depth no_omp_threads num_threads) : Option LoadedCube :=
  if file.length < FITS_CHUNK_LENGTH then none
  else some (loadParallel l.fits sched max_threads (fileFrame l file use_mmap))

def fromPathGz (z : Zlib) (l : LoadedHeader) (gz : GzFile) : Option LoadedCube :=
  if gz.st_size < FITS_CHUNK_LENGTH then none else some (loadGz z l gz.stream)

/-! ## What each way reads -/

def framePlane (l : LoadedHeader) (file : Bytes) (frame : ℕ) : Plane :=
  planeOf ((file.drop (l.hdr_len + l.fits.frameSize * frame)).take l.fits.frameSize)

def HoldsFrames (l : LoadedHeader) (file : Bytes) : Prop := l.hdr_len + l.fits.frameSize * l.fits.depth.toNat ≤ file.length

theorem holds_frame {l : LoadedHeader} {file : Bytes} (hf : HoldsFrames l file) {frame : ℕ} (hframe : frame < l.fits.depth.toNat) :
    l.hdr_len + l.fits.frameSize * frame + l.fits.frameSize ≤ file.length := by
  have hmul : l.fits.frameSize * (frame + 1) ≤ l.fits.frameSize * l.fits.depth.toNat := Nat.mul_le_mul_left _ hframe
  unfold HoldsFrames at hf
  rw [Nat.mul_add, Nat.mul_one] at hmul
  omega

/-- A thread has every frame, or none. -/
theorem fileFrame_eq {l : LoadedHeader} {file : Bytes} (hf : HoldsFrames l file) (use_mmap : Bool) {frame : ℕ}
    (hframe : frame < l.fits.depth.toNat) :
    fileFrame l file use_mmap frame =
      if use_mmap = true ∨ l.fits.frameSize ≤ MAX_RW_COUNT then some (framePlane l file frame) else none := by
  have hthere := holds_frame hf hframe
  unfold fileFrame framePlane
  dsimp only
  cases use_mmap with
  | true => simp
  | false =>
    rw [if_neg Bool.false_ne_true]
    simp only [Bool.false_eq_true, false_or, pread_full]
    by_cases hsize : l.fits.frameSize ≤ MAX_RW_COUNT
    · rw [if_pos hsize, if_pos ⟨hsize, by omega⟩, pread_eq hsize]
    · rw [if_neg hsize, if_neg fun hread => hsize hread.1]

theorem loadSequential_congr (h : FitsHeader) {depth : ℕ} {src src' : ℕ → Option Plane} (hsrc : ∀ f < depth, src f = src' f) :
    loadSequential h depth src = loadSequential h depth src' :=
  List.foldl_ext _ _ _ fun st f hf => by rw [hsrc f (List.mem_range.mp hf)]

theorem loadSequential_none (h : FitsHeader) (depth : ℕ) : loadSequential h depth (fun _ => none) = LoadedCube.cleared := by
  unfold loadSequential
  induction depth with
  | zero => rfl
  | succ n ih =>
    rw [List.range_succ, List.foldl_append, ih]
    rfl

/-- What the team leaves of a file. -/
theorem loadParallel_file {l : LoadedHeader} {file : Bytes} (hf : HoldsFrames l file) (use_mmap : Bool) (hn : 0 < num_threads)
    (sched : Schedule l.fits.depth.toNat no_omp_threads num_threads) (hteam : no_omp_threads ≤ max_threads) :
    loadParallel l.fits sched max_threads (fileFrame l file use_mmap) =
      if use_mmap = true ∨ l.fits.frameSize ≤ MAX_RW_COUNT then
        loadSequential l.fits l.fits.depth.toNat fun f => some (framePlane l file f)
      else LoadedCube.cleared := by
  rw [parallel_eq l.fits hn sched hteam, loadSequential_congr l.fits fun f hframe => fileFrame_eq hf use_mmap hframe]
  split
  · rfl
  · exact loadSequential_none _ _

/-! ## The gzip -/

variable (z : Zlib)

/-- A frame too long for `gzread` leaves nothing. -/
theorem gzGroup_long {h : FitsHeader} (hlen : 2 ^ 31 ≤ h.frameSize) (frames : List ℕ) (st : GzStream × LoadedCube) :
    (gzGroup z h frames st).2 = st.2 := by
  cases frames with
  | nil => rfl
  | cons frame frames =>
    rw [gzGroup]
    cases hread : (z.gzread st.1 (h.frameSize % 2 ^ 32)).1 with
    | none => rfl
    | some bytes =>
      dsimp only
      rw [if_neg (z.gzread_short hlen hread)]

/-- Frames that are all there, read in order. -/
theorem gzGroup_eq {h : FitsHeader} (hlen : h.frameSize < 2 ^ 31) {data : Bytes} (n f : ℕ)
    (hthere : h.frameSize * (f + n) ≤ data.length) (st : LoadedCube) :
    gzGroup z h (List.range' f n) (⟨data.drop (h.frameSize * f), false⟩, st) =
      (⟨data.drop (h.frameSize * (f + n)), false⟩,
        (List.range' f n).foldl (fun st frame => st.addFrame h frame
          (planeOf ((data.drop (h.frameSize * frame)).take h.frameSize))) st) := by
  induction n generalizing f st with
  | zero => rfl
  | succ n ih =>
    have hnext : h.frameSize * (f + 1) ≤ data.length := le_trans (Nat.mul_le_mul_left _ (by omega)) hthere
    rw [Nat.mul_add, Nat.mul_one] at hnext
    have hread : z.gzread ⟨data.drop (h.frameSize * f), false⟩ (h.frameSize % 2 ^ 32) =
        (some ((data.drop (h.frameSize * f)).take h.frameSize), ⟨data.drop (h.frameSize * (f + 1)), false⟩) := by
      rw [Nat.mod_eq_of_lt (by omega), z.whole rfl hlen (by rw [List.length_drop]; omega), List.drop_drop, Nat.mul_add,
        Nat.mul_one]
    rw [List.range'_succ, gzGroup, hread]
    dsimp only
    rw [if_pos (by rw [List.length_take, List.length_drop]; omega), ih (f + 1) (by rwa [Nat.add_right_comm, Nat.add_assoc f n 1]),
      List.foldl_cons, show f + 1 + n = f + (n + 1) by omega]

/-- The groups up to the `g`th. -/
theorem gzGroups_eq {l : LoadedHeader} {stream : Bytes} (hf : HoldsFrames l stream) (hlen : l.fits.frameSize < 2 ^ 31) (g : ℕ)
    (hg : 4 * g ≤ l.fits.depth.toNat + 3) :
    (List.range g).foldl (fun st g => gzGroup z l.fits (groupFrames l.fits.depth.toNat g) st)
        (⟨stream.drop l.hdr_len, false⟩, LoadedCube.cleared) =
      (⟨(stream.drop l.hdr_len).drop (l.fits.frameSize * min (4 * g) l.fits.depth.toNat), false⟩,
        loadSequential l.fits (min (4 * g) l.fits.depth.toNat) fun f => some (framePlane l stream f)) := by
  induction g with
  | zero =>
    rw [Nat.mul_zero, Nat.zero_min, Nat.mul_zero, List.drop_zero]
    rfl
  | succ g ih =>
    have hstart : min (4 * g) l.fits.depth.toNat = 4 * g := by omega
    have hend : 4 * g + (min (4 * g + 4) l.fits.depth.toNat - 4 * g) = min (4 * (g + 1)) l.fits.depth.toNat := by omega
    have hthere : l.fits.frameSize * (4 * g + (min (4 * g + 4) l.fits.depth.toNat - 4 * g)) ≤ (stream.drop l.hdr_len).length := by
      have hmul : l.fits.frameSize * min (4 * (g + 1)) l.fits.depth.toNat ≤ l.fits.frameSize * l.fits.depth.toNat :=
        Nat.mul_le_mul_left _ (min_le_right _ _)
      unfold HoldsFrames at hf
      rw [hend, List.length_drop]
      omega
    rw [List.range_succ, List.foldl_append, ih (by omega), List.foldl_cons, List.foldl_nil, hstart]
    unfold groupFrames
    rw [gzGroup_eq z hlen _ _ hthere, hend]
    refine Prod.ext rfl ?_
    have hsplit : List.range (min (4 * (g + 1)) l.fits.depth.toNat) =
        List.range (4 * g) ++ List.range' (4 * g) (min (4 * g + 4) l.fits.depth.toNat - 4 * g) := by
      rw [← hend, List.range_add, List.range'_eq_map_range]
    unfold loadSequential
    rw [hsplit, List.foldl_append]
    refine List.foldl_ext _ _ _ fun st f _ => ?_
    unfold framePlane
    rw [List.drop_drop]
    rfl

/-- What the gzip leaves. -/
theorem loadGz_eq {l : LoadedHeader} {stream : Bytes} (hf : HoldsFrames l stream) :
    loadGz z l stream =
      if l.fits.frameSize < 2 ^ 31 then loadSequential l.fits l.fits.depth.toNat fun f => some (framePlane l stream f)
      else LoadedCube.cleared := by
  unfold loadGz
  dsimp only
  split
  · rename_i hlen
    rw [gzGroups_eq z hf hlen _ (by omega), Nat.min_eq_right (by omega)]
  · rename_i hlen
    generalize (l.fits.depth.toNat + 3) / 4 = n
    induction n with
    | zero => rfl
    | succ n ih => rw [List.range_succ, List.foldl_append, List.foldl_cons, List.foldl_nil, gzGroup_long z (by omega), ih]

/-! ## Both ways -/

def NoValidPixel (l : LoadedHeader) (file : Bytes) : Prop :=
  ∀ f < l.fits.depth.toNat, ∀ i < foreachCount l.fits.planeSize, l.fits.scale.pixel (framePlane l file f) i = none

theorem frameWrites_nil_iff (h : FitsHeader) (plane : Plane) :
    h.frameWrites plane = [] ↔ ∀ i < foreachCount h.planeSize, h.scale.pixel plane i = none := by
  unfold FitsHeader.frameWrites frameWrites
  simp only [List.filterMap_eq_nil_iff, List.mem_range, Option.map_eq_none_iff]

/-- A byte of the mask is 255 where a frame has a valid pixel. -/
theorem loadSequential_mask (h : FitsHeader) (depth : ℕ) (planes : ℕ → Plane) (p : ℕ) :
    (loadSequential h depth fun f => some (planes f)).img.mask p =
      if ∃ f < depth, 0 < hits p (h.frameWrites (planes f)) then 255 else 0 := by
  induction depth with
  | zero => simp [loadSequential, LoadedCube.cleared, PlaneBuffer.cleared]
  | succ n ih =>
    have hlast : (loadSequential h (n + 1) fun f => some (planes f)).img =
        (loadSequential h n fun f => some (planes f)).img.land (h.frameWrites (planes n)) := by
      unfold loadSequential
      rw [List.range_succ, List.foldl_append]
      rfl
    rw [hlast, land_mask, ih]
    by_cases hhit : 0 < hits p (h.frameWrites (planes n))
    · rw [if_pos hhit, if_pos ⟨n, Nat.lt_succ_self n, hhit⟩]
    · have hiff : (∃ f < n + 1, 0 < hits p (h.frameWrites (planes f))) ↔ ∃ f < n, 0 < hits p (h.frameWrites (planes f)) := by
        constructor
        · rintro ⟨f, hf, hpos⟩
          rcases Nat.lt_succ_iff_lt_or_eq.mp hf with hf | rfl
          · exact ⟨f, hf, hpos⟩
          · exact absurd hpos hhit
        · rintro ⟨f, hf, hpos⟩
          exact ⟨f, by omega, hpos⟩
      rw [if_neg hhit]
      simp only [hiff]

/-- A frame without a valid pixel changes nothing. -/
theorem addFrame_nil {h : FitsHeader} {plane : Plane} (hnil : h.frameWrites plane = []) (f : ℕ) :
    LoadedCube.cleared.addFrame h f plane = LoadedCube.cleared := by
  have hstats : h.frameStatistics plane = ⟨FLT_MAX, -FLT_MAX, 0, 0⟩ := by
    have hwrites : FitsWebQL.frameWrites h.scale plane h.planeSize = [] := hnil
    have hkernel : (makeImageSpectrumF32Ro h.scale plane h.cdelt PlaneBuffer.cleared (foreachCount h.planeSize)).2 =
        spectra h.cdelt (FitsWebQL.frameWrites h.scale plane h.planeSize) := rfl
    unfold FitsHeader.frameStatistics frameStatistics
    dsimp only
    rw [hkernel, hwrites]
    rfl
  have hframes : set FrameArrays.fresh f ⟨FLT_MAX, -FLT_MAX, 0, 0⟩ = FrameArrays.fresh := by
    funext j
    unfold set
    split <;> rfl
  unfold LoadedCube.addFrame
  rw [hnil, hstats]
  exact (LoadedCube.mk.injEq ..).mpr ⟨rfl, hframes, min_self _, max_self _⟩

theorem loadSequential_cleared_iff (l : LoadedHeader) (file : Bytes) :
    (loadSequential l.fits l.fits.depth.toNat fun f => some (framePlane l file f)) = LoadedCube.cleared ↔ NoValidPixel l file := by
  constructor
  · intro heq f hf
    rw [← frameWrites_nil_iff]
    by_contra hne
    obtain ⟨w, hw⟩ := List.exists_mem_of_ne_nil _ hne
    have hhit : 0 < hits w.1 (l.fits.frameWrites (framePlane l file f)) :=
      lt_of_lt_of_le (by rw [if_pos rfl]; exact Nat.one_pos)
        (List.single_le_sum (fun _ _ => Nat.zero_le _) _ (List.mem_map.mpr ⟨w, hw, rfl⟩))
    have hmask := loadSequential_mask l.fits l.fits.depth.toNat (framePlane l file) w.1
    rw [heq, if_pos ⟨f, hf, hhit⟩] at hmask
    exact absurd hmask (show ¬ (0 : UInt8) = 255 by decide)
  · intro hnone
    have key : ∀ n ≤ l.fits.depth.toNat, (loadSequential l.fits n fun f => some (framePlane l file f)) = LoadedCube.cleared := by
      intro n hn
      induction n with
      | zero => rfl
      | succ n ih =>
        unfold loadSequential at ih ⊢
        rw [List.range_succ, List.foldl_append, ih (by omega)]
        exact addFrame_nil ((frameWrites_nil_iff _ _).mpr (hnone n hn)) n
    exact key _ (Nat.le_refl _)

/-- A complete cube of at least a pixel a thread. -/
structure CompleteCube (fits : FitsHeader) (file : Bytes) (l : LoadedHeader) (max_threads : ℕ) : Prop where
  header : fileHeader fits file = some l
  bitpix : l.fits.bitpix = -32
  width : 0 < l.fits.width
  height : 0 < l.fits.height
  depth : 1 < l.fits.depth
  threads : max_threads ≤ l.fits.planeSize
  frames : HoldsFrames l file

theorem header_unit {fits : FitsHeader} {file : Bytes} {l : LoadedHeader} (h : fileHeader fits file = some l) :
    FITS_CHUNK_LENGTH ≤ file.length := by
  rcases fileHeader_eq fits file with ⟨k, hk, -, -, -⟩ | ⟨-, hnone⟩
  · have hmul := (Nat.le_div_iff_mul_le chunk_pos).mp (show 1 ≤ file.length / FITS_CHUNK_LENGTH by omega)
    omega
  · rw [hnone] at h
    cases h

theorem noOmpThreads_le {max_threads : ℕ} (hmax : 0 < max_threads) (va_count : ℕ) :
    noOmpThreads max_threads va_count ≤ max_threads := max_le (Nat.div_le_self _ _) hmax

theorem parallel_agrees_iff {fits : FitsHeader} {file : Bytes} {l : LoadedHeader} {max_threads : ℕ} (hmax : 0 < max_threads)
    (hc : CompleteCube fits file l max_threads) (use_mmap : Bool) (va_count : ℕ)
    (sched : Schedule l.fits.depth.toNat (noOmpThreads max_threads va_count) (joinThreads l.fits.planeSize max_threads))
    (st_size : ℕ) (z : Zlib) :
    fromPathFile l file use_mmap max_threads sched = fromPathGz z l ⟨st_size, file⟩ ↔
      FITS_CHUNK_LENGTH ≤ st_size ∧
        (((use_mmap = true ∨ l.fits.frameSize ≤ MAX_RW_COUNT) ↔ l.fits.frameSize < 2 ^ 31) ∨ NoValidPixel l file) := by
  have hunit := header_unit hc.header
  unfold fromPathFile fromPathGz
  rw [if_neg (by omega),
    loadParallel_file hc.frames use_mmap (joinThreads_pos hmax hc.threads) sched (noOmpThreads_le hmax va_count)]
  dsimp only
  rw [loadGz_eq z hc.frames, ← loadSequential_cleared_iff]
  by_cases hsize : st_size < FITS_CHUNK_LENGTH
  · rw [if_pos hsize]
    constructor
    · intro h
      cases h
    · rintro ⟨h, -⟩
      omega
  · rw [if_neg hsize, Option.some_inj]
    have hle : FITS_CHUNK_LENGTH ≤ st_size := by omega
    by_cases hfile : use_mmap = true ∨ l.fits.frameSize ≤ MAX_RW_COUNT
    · by_cases hgz : l.fits.frameSize < 2 ^ 31
      · simp only [hfile, hgz, if_true, hle, iff_self, true_or, and_self]
      · simp only [hfile, hgz, if_true, if_false, hle, iff_false, not_true_eq_false, false_or, true_and]
    · by_cases hgz : l.fits.frameSize < 2 ^ 31
      · simp only [hfile, hgz, if_true, if_false, hle, iff_true, false_or, true_and]
        exact eq_comm
      · simp only [hfile, hgz, if_false, hle, iff_self, true_or, and_self]

def zeroCube : Bytes :=
  headerUnit ["BITPIX  = -32", "NAXIS   = 3", "NAXIS1  = 2", "NAXIS2  = 1", "NAXIS3  = 2", "END"] ++ List.replicate FITS_CHUNK_LENGTH 0

def zeroCubeHeader : LoadedHeader := (fileHeader {} zeroCube).getD ⟨{}, []⟩

def zeroCubeFields : FitsHeader := { bitpix := -32, naxis := 3, width := 2, height := 1, depth := 2 }

theorem zeroCube_cards :
    ReadsCards {} zeroCubeFields ["BITPIX  = -32", "NAXIS   = 3", "NAXIS1  = 2", "NAXIS2  = 1", "NAXIS3  = 2", "END"] := by
  decide +kernel

theorem zeroCubeHeader_eq :
    zeroCubeHeader = ⟨headerEnd zeroCubeFields,
      headerUnit ["BITPIX  = -32", "NAXIS   = 3", "NAXIS1  = 2", "NAXIS2  = 1", "NAXIS3  = 2", "END"]⟩ := by
  unfold zeroCubeHeader zeroCube
  rw [fileHeader_headerUnit zeroCube_cards (by decide), Option.getD_some]

theorem zeroCube_sizes :
    zeroCubeHeader.fits.depth = 2 ∧ zeroCubeHeader.fits.planeSize = 2 ∧ zeroCubeHeader.fits.frameSize = 8 ∧
      zeroCubeHeader.hdr_len = 2880 ∧ zeroCubeHeader.fits.bitpix = -32 ∧ zeroCubeHeader.fits.width = 2 ∧
      zeroCubeHeader.fits.height = 1 := by
  have hlen : zeroCubeHeader.hdr_len = 2880 := by
    rw [LoadedHeader.hdr_len, zeroCubeHeader_eq]
    exact headerUnit_length zeroCube_cards
  rw [hlen, zeroCubeHeader_eq]
  decide +kernel

/-- A header of one unit, and the data it announces. -/
theorem complete_of_cards {fields : FitsHeader} {cards : List String} (h : ReadsCards {} fields cards) (hnaxis : fields.naxis ≠ 0)
    {data : Bytes} {max_threads : ℕ} (hfits : (headerEnd fields).bitpix = -32 ∧ 0 < (headerEnd fields).width ∧
      0 < (headerEnd fields).height ∧ 1 < (headerEnd fields).depth ∧ max_threads ≤ (headerEnd fields).planeSize)
    (hdata : (headerEnd fields).frameSize * (headerEnd fields).depth.toNat ≤ data.length) :
    CompleteCube {} (headerUnit cards ++ data) ⟨headerEnd fields, headerUnit cards⟩ max_threads := by
  obtain ⟨hbitpix, hwidth, hheight, hdepth, hthreads⟩ := hfits
  refine ⟨fileHeader_headerUnit h hnaxis data, hbitpix, hwidth, hheight, hdepth, hthreads, ?_⟩
  unfold HoldsFrames LoadedHeader.hdr_len
  rw [List.length_append]
  exact Nat.add_le_add_left hdata _

theorem zeroCube_complete : CompleteCube {} zeroCube zeroCubeHeader 1 := by
  rw [zeroCubeHeader_eq]
  exact complete_of_cards zeroCube_cards (by decide) (by decide +kernel) (by decide +kernel)

/-- One thread takes both frames, the second one first. -/
def oneThread : Schedule zeroCubeHeader.fits.depth.toNat (noOmpThreads 1 1) (joinThreads zeroCubeHeader.fits.planeSize 1) where
  tid _ := 0
  tid_lt _ := by decide
  order := [1, 0]
  order_perm := by
    rw [zeroCube_sizes.1]
    decide
  reduction := [0]
  reduction_perm := by decide
  parts _ := [0]
  parts_perm _ := by
    rw [zeroCube_sizes.2.1]
    decide

/-- The gzip of the cube is of 100 bytes, and is not read. -/
theorem small_gzip :
    CompleteCube {} zeroCube zeroCubeHeader 1 ∧ ∀ z,
      fromPathFile zeroCubeHeader zeroCube true 1 oneThread ≠ fromPathGz z zeroCubeHeader ⟨100, zeroCube⟩ := by
  refine ⟨zeroCube_complete, fun z => ?_⟩
  have hunit := header_unit zeroCube_complete.header
  unfold fromPathFile fromPathGz
  rw [if_neg (by omega), if_pos (by decide)]
  exact Option.some_ne_none _

/-! ## Two threads -/

def patchyCards : List String := ["BITPIX  = -32", "NAXIS   = 3", "NAXIS1  = 2", "NAXIS2  = 1", "NAXIS3  = 5", "END"]

def patchyFields : FitsHeader := { bitpix := -32, naxis := 3, width := 2, height := 1, depth := 5 }

def patchyFrame (first second : Bool) : Bytes :=
  (if first then [0x3F, 0x80, 0, 0] else [0x7F, 0xC0, 0, 0]) ++ if second then [0x40, 0, 0, 0] else [0x7F, 0xC0, 0, 0]

def patchyCube : Bytes :=
  headerUnit patchyCards ++ (patchyFrame true false ++ patchyFrame false false ++ patchyFrame true true ++
    patchyFrame false true ++ patchyFrame true true)

def patchyHeader : LoadedHeader := ⟨headerEnd patchyFields, headerUnit patchyCards⟩

theorem patchyCube_complete : CompleteCube {} patchyCube patchyHeader 2 :=
  complete_of_cards (by decide +kernel) (by decide) (by decide +kernel) (by decide +kernel)

/-- The second thread takes the fifth frame, before the first has done its group. -/
def twoThreads : Schedule patchyHeader.fits.depth.toNat (noOmpThreads 2 1) (joinThreads patchyHeader.fits.planeSize 2) where
  tid g := g % 2
  tid_lt g := Nat.mod_lt g (by decide)
  order := [2, 4, 0, 3, 1]
  order_perm := by decide +kernel
  reduction := [1, 0]
  reduction_perm := by decide
  parts i := if i = 0 then [1, 0] else [0, 1]
  parts_perm i := by
    split <;> decide +kernel

theorem parallel_agrees_iff_two_threads :
    fromPathFile patchyHeader patchyCube false 2 twoThreads = fromPathGz exactZlib patchyHeader ⟨2880, patchyCube⟩ :=
  (parallel_agrees_iff (by decide) patchyCube_complete false 1 twoThreads 2880 exactZlib).mpr
    ⟨by decide, Or.inl ⟨fun _ => by decide +kernel, fun _ => Or.inr (by decide +kernel)⟩⟩

end FitsWebQL
