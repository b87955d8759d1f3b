/-
  FitsWebQL.WorkSplit — the chunks that an array of pixels is cut into: when a 2D image is
  read (`from_path`), for its statistics (`make_image_statistics`), for a histogram
  (`make_histogram`) and when the threads' images are joined (`get_cube`). The four are one
  formula. `work_size` is an integer division by the number of threads, so it is 0 for an
  image with fewer pixels, and what comes next divides by it.

  `num_threads` is an `int`: from 2^31 chunks on it is negative and the loop over the chunks
  does not run. It takes more than 2^30 threads.

  Proved, for any number of pixels and threads:
  - `split_exact_iff`: no division by zero, and chunks that hold every pixel once and are
    each short enough for the kernels, exactly when there are as many pixels as threads and
    the number of chunks fits an `int`.
  - `fewer_pixels_than_threads`.
-/

import FitsWebQL.Histogram

namespace FitsWebQL

open Lib.ParallelFor

structure PixelArray where
  total_size : ℕ
  pos : 0 < total_size
  bytes : 4 * total_size < 2 ^ 63

structure MaxThreads where
  max_threads : ℕ
  pos : 0 < max_threads
  int : max_threads < 2 ^ 31

structure Chunk where
  start : ℕ
  work_size : ℕ
  deriving DecidableEq

def Chunk.indices (c : Chunk) : List ℕ := List.range' c.start c.work_size

/-- `int n = ...` of a `size_t`. -/
def intOfSize (n : ℕ) : ℤ := (n : ℤ).bmod (2 ^ 32)

/-- `none` is the division by zero. -/
def splitWork (total_size max_threads : ℕ) : Option (List Chunk) :=
  let work_size := workSize total_size max_threads
  if work_size = 0 then none
  else
    let num_threads := (intOfSize (total_size / work_size)).toNat
    some ((List.range num_threads).map fun tid => ⟨chunkStart total_size num_threads tid, chunkSize total_size num_threads tid⟩)

/-! ## The four -/

def fromPathSplit (plane_size max_threads : ℕ) : Option (List Chunk) := splitWork plane_size max_threads

def makeImageStatisticsSplit (total_size max_threads : ℕ) : Option (List Chunk) := splitWork total_size max_threads

/-- One value has no histogram. -/
def makeHistogramSplit (total_size max_threads : ℕ) : Option (List Chunk) :=
  if total_size ≤ 1 then some [] else splitWork total_size max_threads

/-- `get_cube`, when the threads' images are joined. -/
def getCubeSplit (plane_size max_threads : ℕ) : Option (List Chunk) := splitWork plane_size max_threads

/-! ## Exact -/

/-- Every index is in one chunk, and the `unsigned int` of a kernel holds each length. -/
structure Exact (total_size : ℕ) (chunks : List Chunk) : Prop where
  indices : (chunks.flatMap Chunk.indices).Perm (List.range total_size)
  fits : ∀ c ∈ chunks, c.work_size < 2 ^ 32

/-- All four split the array, `make_histogram` from two values on. -/
structure SplitsExactly (total_size max_threads : ℕ) : Prop where
  fromPath : ∃ chunks, fromPathSplit total_size max_threads = some chunks ∧ Exact total_size chunks
  makeImageStatistics : ∃ chunks, makeImageStatisticsSplit total_size max_threads = some chunks ∧ Exact total_size chunks
  makeHistogram : 1 < total_size → ∃ chunks, makeHistogramSplit total_size max_threads = some chunks ∧ Exact total_size chunks
  getCube : ∃ chunks, getCubeSplit total_size max_threads = some chunks ∧ Exact total_size chunks

theorem intOfSize_of_fits {n : ℕ} (h : n < 2 ^ 31) : intOfSize n = n := by
  unfold intOfSize
  rw [Int.bmod_eq_of_le] <;> omega

theorem intOfSize_neg {n : ℕ} (h : 2 ^ 31 ≤ n) (h' : n < 2 ^ 32) : intOfSize n < 0 := by
  unfold intOfSize
  rw [Int.bmod_def, Int.emod_eq_of_lt (by omega) (by omega), if_neg (by omega)]
  omega

/-- Twice as many chunks as threads, or as many as a size of 2^30 makes. -/
theorem numThreads_lt (a : PixelArray) (omp : MaxThreads) (h : omp.max_threads ≤ a.total_size) :
    numThreads a.total_size omp.max_threads < 2 ^ 32 := by
  obtain ⟨T, hpos, hbytes⟩ := a
  obtain ⟨M, hM, hint⟩ := omp
  dsimp only at h ⊢
  have hwork := workSize_pos hM h
  unfold numThreads workSize at *
  rcases Nat.le_total (T / M) max_work_size with hle | hle
  · rw [min_eq_left hle] at hwork ⊢
    have hlt : T < M * (T / M + 1) := Nat.lt_mul_div_succ T hM
    rw [Nat.div_lt_iff_lt_mul hwork]
    nlinarith
  · rw [min_eq_right hle]
    unfold max_work_size
    omega

theorem splitWork_exact {a : PixelArray} {omp : MaxThreads} (h : omp.max_threads ≤ a.total_size)
    (hfits : numThreads a.total_size omp.max_threads < 2 ^ 31) :
    ∃ chunks, splitWork a.total_size omp.max_threads = some chunks ∧ Exact a.total_size chunks := by
  have hthreads := numThreads_pos omp.pos h
  have hint : (intOfSize (a.total_size / workSize a.total_size omp.max_threads)).toNat =
      numThreads a.total_size omp.max_threads := by
    have heq := intOfSize_of_fits hfits
    unfold numThreads at heq ⊢
    rw [heq, Int.toNat_natCast]
  unfold splitWork
  dsimp only
  rw [if_neg (workSize_pos omp.pos h).ne', hint]
  refine ⟨_, rfl, ⟨?_, ?_⟩⟩
  · have hchunk : ∀ t ∈ List.range (numThreads a.total_size omp.max_threads),
        (Chunk.mk (chunkStart a.total_size (numThreads a.total_size omp.max_threads) t)
          (chunkSize a.total_size (numThreads a.total_size omp.max_threads) t)).indices =
          chunk (List.range a.total_size) (numThreads a.total_size omp.max_threads) t :=
      fun t ht => (chunk_range (List.mem_range.mp ht)).symm
    rw [List.flatMap_map, List.flatMap_congr hchunk, chunks_join _ hthreads]
  · intro c hc
    obtain ⟨t, -, rfl⟩ := List.mem_map.mp hc
    exact (chunkSize_fits omp.pos h t).trans (by decide)

theorem splitWork_exact_iff (a : PixelArray) (omp : MaxThreads) :
    (∃ chunks, splitWork a.total_size omp.max_threads = some chunks ∧ Exact a.total_size chunks) ↔
      omp.max_threads ≤ a.total_size ∧ numThreads a.total_size omp.max_threads < 2 ^ 31 := by
  refine ⟨?_, fun h => splitWork_exact h.1 h.2⟩
  intro h
  obtain ⟨chunks, hchunks, hexact⟩ := h
  unfold splitWork at hchunks
  dsimp only at hchunks
  by_cases hwork : workSize a.total_size omp.max_threads = 0
  · rw [if_pos hwork] at hchunks
    cases hchunks
  rw [if_neg hwork, Option.some_inj] at hchunks
  have hle : omp.max_threads ≤ a.total_size := by
    by_contra hlt
    exact hwork (by rw [workSize, Nat.div_eq_of_lt (not_le.mp hlt), Nat.zero_min])
  refine ⟨hle, ?_⟩
  by_contra hbig
  -- no chunk at all
  have hneg := intOfSize_neg (not_lt.mp hbig) (numThreads_lt a omp hle)
  unfold numThreads at hneg
  rw [Int.toNat_of_nonpos hneg.le, List.range_zero, List.map_nil] at hchunks
  have hperm := hexact.indices
  rw [← hchunks, List.flatMap_nil, List.nil_perm, List.range_eq_nil] at hperm
  have hpos := a.pos
  omega

theorem split_exact_iff (a : PixelArray) (omp : MaxThreads) :
    SplitsExactly a.total_size omp.max_threads ↔
      omp.max_threads ≤ a.total_size ∧ a.total_size / min (a.total_size / omp.max_threads) max_work_size < 2 ^ 31 := by
  have hiff := splitWork_exact_iff a omp
  constructor
  · intro h
    exact hiff.mp h.fromPath
  · intro h
    have hsplit := hiff.mpr h
    refine ⟨hsplit, hsplit, fun hmany => ?_, hsplit⟩
    unfold makeHistogramSplit
    rw [if_neg (by omega)]
    exact hsplit

/-- Three pixels, four threads. -/
theorem fewer_pixels_than_threads :
    ¬ ∀ (a : PixelArray) (omp : MaxThreads), SplitsExactly a.total_size omp.max_threads := by
  intro h
  obtain ⟨chunks, hchunks, -⟩ := (h ⟨3, by decide, by decide⟩ ⟨4, by decide, by decide⟩).fromPath
  cases hchunks

end FitsWebQL
