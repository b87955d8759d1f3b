/-
  FitsWebQL.ThreadHistograms — the histograms of a cube's pixels while it is loaded
  (`update_thread_histogram`), one for each loader thread in `hist_pool`. A thread's
  histogram is made from the bounds of the first frame that can give it a range; frames of
  the thread that come before, with both bounds within EPSILON of 0, are left out by a guard.
  Bounds that nearly coincide are moved apart, by 0.9 and 1.1; negative ones move towards
  each other.

  A histogram of Boost's is a parameter with what it does (`GrowingHistogram`), and the one
  of `Lib.Bins` is one. A thread has an entry of its own, so the calls of all threads are
  one list here, in any order.

  Proved, for every cube and every way its frames are given to threads:
  - `thread_histograms_total`: the totals and the pixels left out are the valid pixels,
    unless a histogram is asked for with equal bounds, which raises.
  - `axis_bounds_differ`: no frame asks for that but one whose valid pixels are all
    negative and within 1e-14 of 0.
  - `zero_frame_left_out`.
-/

import FitsWebQL.Pixel
import FitsWebQL.SpectralAxis
import FitsWebQL.Lib.Bins

namespace FitsWebQL

open Lib.Bins

def NBINS2 : ℕ := 16384

structure GrowingHistogram (H : Type) where
  /-- With bounds; `none` raises. -/
  make : ℚ → ℚ → Option H
  fill : H → List ℚ → H
  total : H → ℕ
  make_total : ∀ {start stop : ℚ}, start ≠ stop → ∃ h, make start stop = some h ∧ total h = 0
  fill_total : ∀ h v, total (fill h v) = total h + v.length

/-- `make_histogram(axis::regular<Ipp32f, use_default, use_default, axis::option::growth_t>(NBINS2, ...))`. -/
def regularHistogram : GrowingHistogram Growing where
  make := Growing.make NBINS2
  fill := Growing.fill
  total := Growing.total
  make_total hne := Growing.make_isSome hne
  fill_total := Growing.total_fill

/-- What a frame is given as: pixels with a mask, or the raw plane. -/
inductive FramePixels where
  | masked (pixels : List ℚ) (mask : List UInt8)
  | raw (scale : Scale) (words : List UInt32)

def FramePixels.values : FramePixels → List ℚ
  | masked pixels mask => (pixels.zip mask).filterMap fun p => if p.2 ≠ 0 then some p.1 else none
  | raw scale words => words.filterMap scale.word

/-- A frame with `frame_min` and `frame_max`, which bound its valid pixels. -/
structure LoadedFrame where
  pixels : FramePixels
  frame_min : ℚ
  frame_max : ℚ
  bounds : ∀ v ∈ pixels.values, frame_min ≤ v ∧ v ≤ frame_max

namespace LoadedFrame

variable (f : LoadedFrame)

def count : ℕ := f.pixels.values.length

/-- 0.9f and 1.1f. -/
def axisBounds : ℚ × ℚ :=
  if fpzero |f.frame_max - f.frame_min| then (f.frame_min * (15099494 / 2 ^ 24), f.frame_max * (9227469 / 2 ^ 23))
  else (f.frame_min, f.frame_max)

def blank : Bool := f.count = 0 || fpzero f.frame_min && fpzero f.frame_max

end LoadedFrame

variable {H : Type}

/-- `update_thread_histogram`, both of them; the outer `none` raises. -/
def updateThreadHistogram (B : GrowingHistogram H) (hist : Option H) (f : LoadedFrame) : Option (Option H) :=
  let v := f.pixels.values
  if v.length = 0 then some hist
  else
    match hist with
    | none =>
      if fpzero f.frame_min && fpzero f.frame_max then some none
      else (B.make f.axisBounds.1 f.axisBounds.2).map fun hist => some (B.fill hist v)
    | some hist => some (some (B.fill hist v))

structure HistogramCall where
  tid : ℕ
  frame : LoadedFrame

def HistogramCall.run (B : GrowingHistogram H) (hist_pool : ℕ → Option H) (c : HistogramCall) : Option (ℕ → Option H) :=
  (updateThreadHistogram B (hist_pool c.tid) c.frame).map (Function.update hist_pool c.tid)

/-- A way to load a cube: each frame once, by some thread, in some order. -/
structure CubeLoading (cube : List LoadedFrame) where
  max_threads : ℕ
  calls : List HistogramCall
  tid_lt : ∀ c ∈ calls, c.tid < max_threads
  each : (calls.map HistogramCall.frame).Perm cube

def CubeLoading.histPool {cube : List LoadedFrame} (B : GrowingHistogram H) (l : CubeLoading cube) : Option (ℕ → Option H) :=
  l.calls.foldlM (HistogramCall.run B) fun _ => none

def poolTotal (B : GrowingHistogram H) (max_threads : ℕ) (hist_pool : ℕ → Option H) : ℕ :=
  ∑ t ∈ Finset.range max_threads, ((hist_pool t).map B.total).getD 0

def threadFrames (calls : List HistogramCall) (t : ℕ) : List LoadedFrame := (calls.filter fun c => c.tid = t).map HistogramCall.frame

def pixelCount (frames : List LoadedFrame) : ℕ := (frames.map LoadedFrame.count).sum

/-- The valid pixels of the frames a thread has before the first that makes its histogram. -/
def leftOut (frames : List LoadedFrame) : ℕ := pixelCount (frames.takeWhile LoadedFrame.blank)

/-! ## Bounds -/

theorem fpzero_iff (a : ℚ) : fpzero a = true ↔ -EPSILON ℚ ≤ a ∧ a ≤ EPSILON ℚ := by
  unfold fpzero
  rw [decide_eq_true_eq, abs_le]

theorem fpzero_zero : fpzero (0 : ℚ) = true := by
  rw [fpzero_iff]
  unfold EPSILON
  norm_num

theorem axis_bounds_differ {f : LoadedFrame} (hblank : f.blank = false) (hpixels : 0 ≤ f.frame_max ∨ f.frame_min ≤ -1 / 10 ^ 14) :
    f.axisBounds.1 ≠ f.axisBounds.2 := by
  unfold LoadedFrame.blank at hblank
  rw [Bool.or_eq_false_iff, decide_eq_false_iff_not] at hblank
  obtain ⟨hcount, hzero⟩ := hblank
  obtain ⟨v, hv⟩ := List.exists_mem_of_length_pos (Nat.pos_of_ne_zero hcount)
  have hle : f.frame_min ≤ f.frame_max := (f.bounds v hv).1.trans (f.bounds v hv).2
  have hnot : ¬ (fpzero f.frame_min = true ∧ fpzero f.frame_max = true) := by
    rw [← Bool.and_eq_true, hzero]
    exact Bool.false_ne_true
  rw [fpzero_iff, fpzero_iff] at hnot
  unfold LoadedFrame.axisBounds
  split
  · rename_i hnear
    rw [fpzero_iff, abs_of_nonneg (sub_nonneg.mpr hle)] at hnear
    dsimp only
    intro heq
    unfold EPSILON at hnot hnear
    rcases hpixels with hmax | hmin
    · -- both bounds are 0
      have hmax0 : f.frame_max = 0 := by linarith
      have hmin0 : f.frame_min = 0 := by linarith
      rw [hmax0, hmin0] at hnot
      exact hnot (by norm_num)
    · linarith [hnear.2]
  · rename_i hfar
    dsimp only
    intro heq
    rw [heq, sub_self, abs_zero] at hfar
    exact hfar fpzero_zero

/-! ## One call -/

def leftOutFrom (hist : Option H) (frames : List LoadedFrame) : ℕ := if hist.isSome then 0 else leftOut frames

theorem update_counts (B : GrowingHistogram H) (hist : Option H) (f : LoadedFrame)
    (hbounds : f.blank = false → f.axisBounds.1 ≠ f.axisBounds.2) :
    ∃ hist', updateThreadHistogram B hist f = some hist' ∧ ∀ frames,
      (hist'.map B.total).getD 0 + leftOutFrom hist (f :: frames) = (hist.map B.total).getD 0 + f.count + leftOutFrom hist' frames := by
  have htake : ∀ frames, leftOut (f :: frames) = if f.blank then f.count + leftOut frames else 0 := by
    intro frames
    unfold leftOut
    rw [List.takeWhile_cons]
    split <;> rfl
  unfold updateThreadHistogram
  dsimp only
  by_cases hempty : f.pixels.values.length = 0
  · have hblank : f.blank = true := by simp [LoadedFrame.blank, LoadedFrame.count, hempty]
    refine ⟨hist, if_pos hempty, fun frames => ?_⟩
    have hcount : f.count = 0 := hempty
    unfold leftOutFrom
    rw [htake, if_pos hblank, hcount]
    split <;> omega
  · rw [if_neg hempty]
    cases hist with
    | some h =>
      refine ⟨some (B.fill h f.pixels.values), rfl, fun frames => ?_⟩
      have hfill : B.total (B.fill h f.pixels.values) = B.total h + f.count := B.fill_total h _
      simp [leftOutFrom, hfill]
    | none =>
      dsimp only
      by_cases hzero : (fpzero f.frame_min && fpzero f.frame_max) = true
      · have hblank : f.blank = true := by simp [LoadedFrame.blank, hzero]
        refine ⟨none, if_pos hzero, fun frames => ?_⟩
        unfold leftOutFrom
        rw [htake, if_pos hblank]
        simp
      · have hblank : f.blank = false := by
          unfold LoadedFrame.blank LoadedFrame.count
          simp only [decide_eq_false hempty, Bool.false_or]
          exact Bool.eq_false_iff.mpr hzero
        obtain ⟨h, hmake, htotal⟩ := B.make_total (hbounds hblank)
        refine ⟨some (B.fill h f.pixels.values), by rw [if_neg hzero, hmake]; rfl, fun frames => ?_⟩
        have hfill : B.total (B.fill h f.pixels.values) = B.total h + f.count := B.fill_total h _
        unfold leftOutFrom
        rw [htake, hblank]
        simp [hfill, htotal]

/-! ## A whole load -/

theorem run_counts (B : GrowingHistogram H) (calls : List HistogramCall)
    (hbounds : ∀ c ∈ calls, c.frame.blank = false → c.frame.axisBounds.1 ≠ c.frame.axisBounds.2) (hist_pool : ℕ → Option H) :
    ∃ hist_pool', calls.foldlM (HistogramCall.run B) hist_pool = some hist_pool' ∧ ∀ t,
      ((hist_pool' t).map B.total).getD 0 + leftOutFrom (hist_pool t) (threadFrames calls t) =
        ((hist_pool t).map B.total).getD 0 + pixelCount (threadFrames calls t) := by
  induction calls generalizing hist_pool with
  | nil =>
    refine ⟨hist_pool, rfl, fun t => ?_⟩
    unfold leftOutFrom
    split <;> rfl
  | cons c calls ih =>
    obtain ⟨hist', hupdate, hcounts⟩ := update_counts B (hist_pool c.tid) c.frame (hbounds c List.mem_cons_self)
    obtain ⟨hist_pool', hrun, hrest⟩ := ih (fun d hd => hbounds d (List.mem_cons_of_mem c hd)) (Function.update hist_pool c.tid hist')
    refine ⟨hist_pool', ?_, fun t => ?_⟩
    · rw [List.foldlM_cons, HistogramCall.run, hupdate]
      exact hrun
    · have hafter := hrest t
      by_cases ht : t = c.tid
      · subst ht
        have hframes : threadFrames (c :: calls) c.tid = c.frame :: threadFrames calls c.tid := by simp [threadFrames]
        have hpixels : pixelCount (c.frame :: threadFrames calls c.tid) = c.frame.count + pixelCount (threadFrames calls c.tid) := rfl
        have hstep := hcounts (threadFrames calls c.tid)
        rw [Function.update_self] at hafter
        rw [hframes, hpixels]
        omega
      · have hframes : threadFrames (c :: calls) t = threadFrames calls t := by simp [threadFrames, Ne.symm ht]
        rw [Function.update_of_ne ht] at hafter
        rw [hframes]
        exact hafter

/-- Every frame is some thread's. -/
theorem sum_threadFrames (calls : List HistogramCall) {n : ℕ} (h : ∀ c ∈ calls, c.tid < n) :
    ∑ t ∈ Finset.range n, pixelCount (threadFrames calls t) = pixelCount (calls.map HistogramCall.frame) := by
  induction calls with
  | nil => exact Finset.sum_const_zero
  | cons c calls ih =>
    have hhead : ∀ t, pixelCount (threadFrames (c :: calls) t) =
        (if c.tid = t then c.frame.count else 0) + pixelCount (threadFrames calls t) := by
      intro t
      by_cases ht : c.tid = t
      · simp [threadFrames, pixelCount, ht]
      · simp [threadFrames, ht]
    have hpixels : pixelCount ((c :: calls).map HistogramCall.frame) = c.frame.count + pixelCount (calls.map HistogramCall.frame) := rfl
    rw [Finset.sum_congr rfl fun t _ => hhead t, Finset.sum_add_distrib, ih fun d hd => h d (List.mem_cons_of_mem c hd), hpixels,
      Finset.sum_ite_eq, if_pos (Finset.mem_range.mpr (h c List.mem_cons_self))]

theorem thread_histograms_total (B : GrowingHistogram H) {cube : List LoadedFrame} (l : CubeLoading cube)
    (hbounds : ∀ f ∈ cube, f.blank = false → f.axisBounds.1 ≠ f.axisBounds.2) :
    ∃ hist_pool, l.histPool B = some hist_pool ∧
      poolTotal B l.max_threads hist_pool + ∑ t ∈ Finset.range l.max_threads, leftOut (threadFrames l.calls t) = pixelCount cube := by
  have hcalls : ∀ c ∈ l.calls, c.frame.blank = false → c.frame.axisBounds.1 ≠ c.frame.axisBounds.2 :=
    fun c hc => hbounds c.frame (l.each.mem_iff.mp (List.mem_map_of_mem hc))
  obtain ⟨hist_pool, hrun, hcounts⟩ := run_counts B l.calls hcalls fun _ => none
  refine ⟨hist_pool, hrun, ?_⟩
  have hthread : ∀ t, ((hist_pool t).map B.total).getD 0 + leftOut (threadFrames l.calls t) = pixelCount (threadFrames l.calls t) := by
    intro t
    have h := hcounts t
    rwa [show (((none : Option H).map B.total).getD 0) = 0 from rfl, Nat.zero_add] at h
  have hframes : pixelCount (l.calls.map HistogramCall.frame) = pixelCount cube := (l.each.map LoadedFrame.count).sum_eq
  unfold poolTotal
  rw [← Finset.sum_add_distrib, Finset.sum_congr rfl fun t _ => hthread t, sum_threadFrames l.calls l.tid_lt, hframes]

/-! ## A frame of zeros -/

def zeroFrame : LoadedFrame where
  pixels := .masked [0] [255]
  frame_min := 0
  frame_max := 0
  bounds := by decide

def constantFrame : LoadedFrame where
  pixels := .masked [1] [255]
  frame_min := 1
  frame_max := 1
  bounds := by decide

def inOrder (cube : List LoadedFrame) : CubeLoading cube where
  max_threads := 1
  calls := cube.map fun f => ⟨0, f⟩
  tid_lt := by simp
  each := by
    rw [List.map_map, Function.comp_def, List.map_id']

theorem thread_histograms_total_zero :
    ∃ hist_pool, (inOrder [zeroFrame, constantFrame]).histPool regularHistogram = some hist_pool ∧
      poolTotal regularHistogram 1 hist_pool + ∑ t ∈ Finset.range 1, leftOut (threadFrames (inOrder [zeroFrame, constantFrame]).calls t) =
        pixelCount [zeroFrame, constantFrame] :=
  thread_histograms_total regularHistogram (inOrder [zeroFrame, constantFrame]) fun f hf hblank =>
    axis_bounds_differ hblank (Or.inl (by
      rcases List.mem_pair.mp hf with rfl | rfl
      · exact le_refl (0 : ℚ)
      · exact zero_le_one))

/-- A cube of one frame. -/
theorem zero_frame_left_out :
    ¬ ∀ (cube : List LoadedFrame) (l : CubeLoading cube),
      ∃ hist_pool, l.histPool regularHistogram = some hist_pool ∧
        poolTotal regularHistogram l.max_threads hist_pool = pixelCount cube := by
  intro h
  obtain ⟨hist_pool, hrun, htotal⟩ := h [zeroFrame] (inOrder [zeroFrame])
  have hblank : zeroFrame.blank = true := by
    unfold LoadedFrame.blank
    rw [show zeroFrame.frame_min = 0 from rfl, show zeroFrame.frame_max = 0 from rfl, fpzero_zero]
    rfl
  obtain ⟨hist_pool', hrun', hcounts⟩ := run_counts regularHistogram (inOrder [zeroFrame]).calls
    (fun c hc hnot => by
      rw [List.mem_singleton.mp hc] at hnot
      exact absurd hblank (by rw [hnot]; decide))
    fun _ => none
  obtain rfl := Option.some.inj (hrun.symm.trans hrun')
  have hzero := hcounts 0
  have hleft : leftOutFrom (none : Option Growing) (threadFrames (inOrder [zeroFrame]).calls 0) = 1 := by
    have hframes : threadFrames (inOrder [zeroFrame]).calls 0 = [zeroFrame] := rfl
    have hcount : zeroFrame.count = 1 := rfl
    simp [leftOutFrom, leftOut, pixelCount, hframes, hblank, hcount]
  have hpixels : pixelCount (threadFrames (inOrder [zeroFrame]).calls 0) = 1 := by decide
  rw [hleft, hpixels] at hzero
  have hcube : pixelCount [zeroFrame] = 1 := by decide
  have hpool : poolTotal regularHistogram 1 hist_pool = ((hist_pool 0).map regularHistogram.total).getD 0 := Finset.sum_range_one _
  have hthreads : (inOrder [zeroFrame]).max_threads = 1 := rfl
  rw [hthreads, hpool, hcube] at htotal
  rw [htotal] at hzero
  exact absurd hzero (by simp)

end FitsWebQL
