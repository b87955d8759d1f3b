/-
  FitsWebQL.Histogram — the histogram of a vector of pixel values (`make_histogram` and
  the ISPC kernel `histogram`). The vector is cut into chunks; each is counted into a
  histogram of its own, and these are added to the result one after the other, in whatever
  order the threads get to the critical section. A bin is an `Ipp32u`.

  `num_threads` is the number of chunks, not of threads: the length divided by the chunk
  size. It and the chunk sizes are natural numbers here; `numThreads_fits` says when an
  `int` holds the first, and `chunkSize_fits` that one always holds the others. The values
  are scaled in exact arithmetic, and IPP's adder is a parameter, `IppAdd`: what it makes of
  a sum that does not fit is not said.

  Proved, for any vector and any order of merging:
  - `binIndex_eq_some`: a value is counted in bin `k` exactly when it lies in the `k`-th of
    `nbins` equal parts of `[pmin, pmax]`, the last one with its upper end; so an index is
    always below `nbins`.
  - `makeHistogram_counts`: a bin that gets fewer than 2^32 values holds their number, which
    is what one pass over the whole vector leaves there.
  - `a_full_bin_overflows`: no adder helps a bin with 2^32 values.
-/

import FitsWebQL.Messages
import FitsWebQL.Lib.ParallelFor
import FitsWebQL.Lib.Scatter

namespace FitsWebQL

open Lib.ParallelFor

/-! ## The work split -/

def max_work_size : ℕ := 1024 * 1024 * 1024

/-- `MIN(total_size / max_threads, max_work_size)`. -/
def workSize (total_size max_threads : ℕ) : ℕ := min (total_size / max_threads) max_work_size

def numThreads (total_size max_threads : ℕ) : ℕ := total_size / workSize total_size max_threads

theorem workSize_pos {total_size max_threads : ℕ} (h0 : 0 < max_threads) (h : max_threads ≤ total_size) :
    0 < workSize total_size max_threads :=
  lt_min (Nat.div_pos h h0) (by decide)

theorem numThreads_pos {total_size max_threads : ℕ} (h0 : 0 < max_threads) (h : max_threads ≤ total_size) :
    0 < numThreads total_size max_threads :=
  Nat.div_pos ((min_le_left _ _).trans (Nat.div_le_self _ _)) (workSize_pos h0 h)

theorem numThreads_fits {total_size max_threads : ℕ} (hthreads : max_threads ≤ 2 ^ 30) (htotal : total_size < 2 ^ 61) :
    numThreads total_size max_threads < 2 ^ 31 := by
  unfold numThreads workSize
  rcases Nat.le_total (total_size / max_threads) max_work_size with h | h
  · rw [min_eq_left h]
    rcases Nat.eq_zero_or_pos (total_size / max_threads) with h0 | h0
    · simp [h0]
    · rw [Nat.div_lt_iff_lt_mul h0]
      have hlt : total_size < max_threads * (total_size / max_threads + 1) :=
        Nat.lt_mul_div_succ _ (Nat.pos_of_ne_zero fun e => by simp [e] at h0)
      nlinarith
  · rw [min_eq_right h, max_work_size]
    omega

/-- A chunk is shorter than two of the size the work was divided by, the last one too. -/
theorem chunkSize_fits {total_size max_threads : ℕ} (h0 : 0 < max_threads) (h : max_threads ≤ total_size) (t : ℕ) :
    chunkSize total_size (numThreads total_size max_threads) t < 2 ^ 31 := by
  have hwork := workSize_pos h0 h
  have hthreads := numThreads_pos h0 h
  have hmax : workSize total_size max_threads ≤ 2 ^ 30 := min_le_right _ _
  have htotal := Nat.div_add_mod total_size (workSize total_size max_threads)
  have hrest := Nat.mod_lt total_size hwork
  -- what the division leaves is shared out over the chunks again
  have hlast : total_size / numThreads total_size max_threads + total_size % numThreads total_size max_threads < 2 ^ 31 := by
    unfold numThreads at hthreads ⊢
    generalize hn : total_size / workSize total_size max_threads = n at htotal hthreads ⊢
    generalize workSize total_size max_threads = w at htotal hrest hwork hmax hn
    generalize total_size % w = s at htotal hrest
    subst htotal
    rw [Nat.mul_comm w n, Nat.mul_add_div hthreads, Nat.mul_add_mod]
    have hs := Nat.div_add_mod s n
    have hle : s / n ≤ n * (s / n) := Nat.le_mul_of_pos_left _ hthreads
    omega
  unfold chunkSize
  split
  · rename_i ht
    have hsum := Nat.div_add_mod total_size (numThreads total_size max_threads)
    rw [← ht] at hsum hlast ⊢
    rw [Nat.succ_mul] at hsum
    unfold chunkStart
    omega
  · omega

/-! ## The kernel -/

/-- `(data - pmin)/(pmax - pmin)`, `none` when it is NaN or infinite. -/
def scaledTo (pmin pmax : ℚ) : Option ℚ → Option ℚ
  | none => none
  | some data => if pmax - pmin = 0 then none else some ((data - pmin) / (pmax - pmin))

/-- `(int) x`. -/
def toInt (x : ℚ) : ℤ := if x < 0 then ⌈x⌉ else ⌊x⌋

def binIndex (nbins : ℕ) (pmin pmax : ℚ) (data : Option ℚ) : Option ℤ :=
  match scaledTo pmin pmax data with
  | none => none
  | some tmp => if tmp < 0 ∨ 1 < tmp then none else some (min (max (toInt (tmp * nbins)) 0) (nbins - 1))

/-- `atomic_add_local(&hist[index], 1)` for every value counted. -/
def histogram (data : List (Option ℚ)) (nbins : ℕ) (pmin pmax : ℚ) (hist : ℕ → UInt32) : ℕ → UInt32 :=
  Lib.Scatter.scatter (fun x v => x + v) (data.filterMap fun d => (binIndex nbins pmin pmax d).map fun k => (k.toNat, 1)) hist

/-! ## make_histogram -/

/-- `for (int i = 0; i < nbins; i++) bins[i] = 0;` -/
def zeroed (nbins : ℕ) (bins : ℕ → UInt32) : ℕ → UInt32 := fun i => if i < nbins then 0 else bins i

/-- `ippsAdd_32u_I(pSrc, pSrcDst, len)`, what is in `pSrcDst` afterwards: the sums, where they
    fit. -/
structure IppAdd where
  ippsAdd_32u_I : (ℕ → UInt32) → (ℕ → UInt32) → ℕ → ℕ → UInt32
  sums : ∀ (pSrc pSrcDst : ℕ → UInt32) (len : ℕ), ∀ i < len, (pSrcDst i).toNat + (pSrc i).toNat < 2 ^ 32 →
    (ippsAdd_32u_I pSrc pSrcDst len i).toNat = (pSrcDst i).toNat + (pSrc i).toNat

/-- `stack tid` is what `thread_hist` holds when chunk `tid` declares it, `order` the order
    in which the chunks enter the critical section. -/
def makeHistogram (ipp : IppAdd) (v : List (Option ℚ)) (bins : ℕ → UInt32) (nbins : ℕ) (pmin pmax : ℚ)
    (max_threads : ℕ) (stack : ℕ → ℕ → UInt32) (order : List ℕ) : ℕ → UInt32 :=
  if v.length ≤ 1 then bins
  else
    let num_threads := numThreads v.length max_threads
    let thread_hist := fun tid => histogram (chunk v num_threads tid) nbins pmin pmax (zeroed nbins (stack tid))
    order.foldl (fun bins tid => ipp.ippsAdd_32u_I (thread_hist tid) bins nbins) (zeroed nbins bins)

/-! ## Which bin -/

/-- `x` lies in the `k`-th of `nbins` equal parts of `[pmin, pmax]`; the last has its end. -/
def InBin (nbins : ℕ) (pmin pmax : ℚ) (k : ℕ) (x : ℚ) : Prop :=
  pmin ≤ x ∧ x ≤ pmax ∧ pmin + k * ((pmax - pmin) / nbins) ≤ x ∧
    (x < pmin + (k + 1) * ((pmax - pmin) / nbins) ∨ k + 1 = nbins)

instance (nbins : ℕ) (pmin pmax : ℚ) (k : ℕ) (x : ℚ) : Decidable (InBin nbins pmin pmax k x) := by
  unfold InBin
  infer_instance

variable {nbins : ℕ} {pmin pmax : ℚ}

theorem binIndex_some {x : ℚ} (h : pmin < pmax) :
    binIndex nbins pmin pmax (some x) =
      if pmin ≤ x ∧ x ≤ pmax then some (min ⌊(x - pmin) / (pmax - pmin) * nbins⌋ (nbins - 1)) else none := by
  have hpos : 0 < pmax - pmin := by linarith
  have hlo : (x - pmin) / (pmax - pmin) < 0 ↔ ¬ pmin ≤ x := by
    rw [div_lt_iff₀ hpos, zero_mul, sub_neg, not_le]
  have hhi : 1 < (x - pmin) / (pmax - pmin) ↔ ¬ x ≤ pmax := by
    rw [lt_div_iff₀ hpos, one_mul, not_le]
    constructor <;> intro h <;> linarith
  simp only [binIndex, scaledTo, if_neg hpos.ne', hlo, hhi]
  by_cases hin : pmin ≤ x ∧ x ≤ pmax
  · have h0 : 0 ≤ (x - pmin) / (pmax - pmin) * nbins := by
      have : 0 ≤ x - pmin := by linarith [hin.1]
      positivity
    rw [if_neg (by simp [hin]), if_pos hin, toInt, if_neg (by linarith), max_eq_left (Int.floor_nonneg.mpr h0)]
  · rw [if_neg hin, if_pos (by tauto)]

/-- An index the kernel writes to is below the number of bins. -/
theorem binIndex_bound {d : Option ℚ} {k : ℤ} (h : pmin < pmax) (hbins : 0 < nbins) (hk : binIndex nbins pmin pmax d = some k) :
    0 ≤ k ∧ k < nbins := by
  cases d with
  | none => cases hk
  | some x =>
    rw [binIndex_some h] at hk
    split at hk
    · rename_i hin
      have h0 : 0 ≤ ⌊(x - pmin) / (pmax - pmin) * nbins⌋ := by
        have : 0 ≤ x - pmin := by linarith [hin.1]
        have : 0 < pmax - pmin := by linarith
        exact Int.floor_nonneg.mpr (by positivity)
      rw [Option.some.injEq] at hk
      omega
    · cases hk

theorem binIndex_eq_some {x : ℚ} {k : ℕ} (h : pmin < pmax) (hk : k < nbins) :
    binIndex nbins pmin pmax (some x) = some (k : ℤ) ↔ InBin nbins pmin pmax k x := by
  have hpos : 0 < pmax - pmin := by linarith
  have hn : (0 : ℚ) < nbins := by exact_mod_cast (by omega : 0 < nbins)
  have hle : ∀ m : ℚ, pmin + m * ((pmax - pmin) / nbins) ≤ x ↔ m ≤ (x - pmin) / (pmax - pmin) * nbins := by
    intro m
    rw [div_mul_eq_mul_div, le_div_iff₀ hpos, ← le_sub_iff_add_le', ← mul_div_assoc, div_le_iff₀ hn]
  have hlt : ∀ m : ℚ, x < pmin + m * ((pmax - pmin) / nbins) ↔ (x - pmin) / (pmax - pmin) * nbins < m := by
    intro m
    rw [← not_le, ← not_le, hle]
  rw [binIndex_some h, InBin, hle, hlt]
  by_cases hin : pmin ≤ x ∧ x ≤ pmax
  · rw [if_pos hin, Option.some.injEq]
    have hlow : (k : ℚ) ≤ (x - pmin) / (pmax - pmin) * nbins ↔ (k : ℤ) ≤ ⌊(x - pmin) / (pmax - pmin) * nbins⌋ := by
      rw [Int.le_floor, Int.cast_natCast]
    have hhigh : (x - pmin) / (pmax - pmin) * nbins < (k : ℚ) + 1 ↔ ⌊(x - pmin) / (pmax - pmin) * nbins⌋ < (k : ℤ) + 1 := by
      rw [Int.floor_lt]
      push_cast
      rfl
    rw [hlow, hhigh]
    simp only [hin, true_and]
    omega
  · rw [if_neg hin]
    simp only [reduceCtorEq, false_iff]
    tauto

/-! ## How many -/

def binCount (nbins : ℕ) (pmin pmax : ℚ) (k : ℕ) (v : List (Option ℚ)) : ℕ :=
  v.countP fun d => d.any fun x => decide (InBin nbins pmin pmax k x)

def inRange (pmin pmax : ℚ) (v : List (Option ℚ)) : ℕ := v.countP fun d => d.any fun x => decide (pmin ≤ x ∧ x ≤ pmax)

theorem sum_ones {α : Type} (p : α → Bool) (l : List α) :
    (l.map fun a => if p a then (1 : UInt32) else 0).sum = UInt32.ofNat (l.countP p) := by
  induction l with
  | nil => simp
  | cons a l ih =>
    by_cases h : p a = true
    · rw [List.map_cons, List.sum_cons, ih, List.countP_cons_of_pos h, if_pos h, UInt32.ofNat_add, add_comm]
      rfl
    · rw [List.map_cons, List.sum_cons, ih, List.countP_cons_of_neg h, if_neg h, zero_add]

/-- One kernel call adds to bin `k` the number of values in it. -/
theorem histogram_apply (h : pmin < pmax) (data : List (Option ℚ)) (hist : ℕ → UInt32) {k : ℕ} (hk : k < nbins) :
    histogram data nbins pmin pmax hist k = hist k + UInt32.ofNat (binCount nbins pmin pmax k data) := by
  rw [histogram, Lib.Scatter.scatter_add, Lib.Scatter.added, Lib.Scatter.sum_filterMap, binCount, ← sum_ones]
  congr 2
  refine List.map_congr_left fun d _ => ?_
  cases d with
  | none => rfl
  | some x =>
    have hiff := binIndex_eq_some (x := x) h hk
    cases hb : binIndex nbins pmin pmax (some x) with
    | none =>
      rw [hb] at hiff
      simp [← hiff]
    | some i =>
      obtain ⟨h0, -⟩ := binIndex_bound h (by omega) hb
      rw [hb, Option.some.injEq] at hiff
      have hi : k = i.toNat ↔ InBin nbins pmin pmax k x := by
        rw [← hiff]
        omega
      simp [hi]

/-- Adding up histograms, as long as the whole sum fits. -/
theorem foldl_ippsAdd (ipp : IppAdd) (thread_hist : ℕ → ℕ → UInt32) {i : ℕ} (hi : i < nbins) (order : List ℕ)
    (bins : ℕ → UInt32) (hfits : (bins i).toNat + (order.map fun tid => (thread_hist tid i).toNat).sum < 2 ^ 32) :
    (order.foldl (fun bins tid => ipp.ippsAdd_32u_I (thread_hist tid) bins nbins) bins i).toNat =
      (bins i).toNat + (order.map fun tid => (thread_hist tid i).toNat).sum := by
  induction order generalizing bins with
  | nil => simp
  | cons tid order ih =>
    rw [List.map_cons, List.sum_cons] at hfits ⊢
    have hsum := ipp.sums (thread_hist tid) bins nbins i hi (by omega)
    rw [List.foldl_cons, ih _ (by omega), hsum, Nat.add_assoc]

/-- The chunks' counts add up to the vector's. -/
theorem sum_binCount (v : List (Option ℚ)) {n : ℕ} (hn : 0 < n) (k : ℕ) :
    ((List.range n).map fun t => binCount nbins pmin pmax k (chunk v n t)).sum = binCount nbins pmin pmax k v := by
  conv_rhs => rw [← chunks_join v hn, binCount, List.countP_flatMap]
  rfl

/-- A value in the range lies in one bin. -/
theorem sum_inBin (h : pmin < pmax) (hbins : 0 < nbins) (x : ℚ) :
    ∑ k ∈ Finset.range nbins, (if InBin nbins pmin pmax k x then 1 else 0) = if pmin ≤ x ∧ x ≤ pmax then 1 else 0 := by
  by_cases hin : pmin ≤ x ∧ x ≤ pmax
  · have hb := @binIndex_some nbins pmin pmax x h
    rw [if_pos hin] at hb
    obtain ⟨h0, h1⟩ := binIndex_bound h hbins hb
    generalize min ⌊(x - pmin) / (pmax - pmin) * nbins⌋ (nbins - 1 : ℤ) = i at hb h0 h1
    have hiff : ∀ k ∈ Finset.range nbins,
        (if InBin nbins pmin pmax k x then 1 else 0) = if i.toNat = k then 1 else 0 := by
      intro k hk
      have he := binIndex_eq_some (x := x) h (Finset.mem_range.mp hk)
      rw [hb, Option.some.injEq] at he
      have : InBin nbins pmin pmax k x ↔ i.toNat = k := by
        rw [← he]
        omega
      simp only [this]
    rw [if_pos hin, Finset.sum_congr rfl hiff, Finset.sum_ite_eq, if_pos (Finset.mem_range.mpr (by omega))]
  · rw [if_neg hin]
    refine Finset.sum_eq_zero fun k _ => if_neg fun hk => hin ⟨hk.1, hk.2.1⟩

theorem sum_bins (h : pmin < pmax) (hbins : 0 < nbins) (v : List (Option ℚ)) :
    ∑ k ∈ Finset.range nbins, binCount nbins pmin pmax k v = inRange pmin pmax v := by
  induction v with
  | nil => simp [binCount, inRange]
  | cons d v ih =>
    simp only [binCount, inRange, List.countP_cons] at ih ⊢
    rw [Finset.sum_add_distrib, ih]
    cases d with
    | none => simp
    | some x => simpa using sum_inBin h hbins x

/-! ## The whole routine -/

/-- What a chunk's own histogram holds: a chunk is too short to fill a bin. -/
theorem chunkHistogram_apply (h : pmin < pmax) {v : List (Option ℚ)} {max_threads : ℕ} (h0 : 0 < max_threads)
    (hthreads : max_threads ≤ v.length) (stack : ℕ → UInt32) {tid k : ℕ} (htid : tid < numThreads v.length max_threads)
    (hk : k < nbins) :
    (histogram (chunk v (numThreads v.length max_threads) tid) nbins pmin pmax (zeroed nbins stack) k).toNat =
      binCount nbins pmin pmax k (chunk v (numThreads v.length max_threads) tid) := by
  have hlen : binCount nbins pmin pmax k (chunk v (numThreads v.length max_threads) tid) < 2 ^ 31 := by
    have hsize := chunkSize_fits h0 hthreads tid
    rw [← chunk_length htid] at hsize
    exact List.countP_le_length.trans_lt hsize
  rw [histogram_apply h _ _ hk, zeroed, if_pos hk, zero_add, UInt32.toNat_ofNat']
  exact Nat.mod_eq_of_lt (by omega)

/-- The bins after the parallel loop, whatever they and the chunks' histograms held. -/
theorem makeHistogram_apply (ipp : IppAdd) (h : pmin < pmax) {v : List (Option ℚ)} (hv : 2 ≤ v.length) {max_threads : ℕ}
    (h0 : 0 < max_threads) (hthreads : max_threads ≤ v.length) {order : List ℕ}
    (horder : order.Perm (List.range (numThreads v.length max_threads))) (bins : ℕ → UInt32) (stack : ℕ → ℕ → UInt32)
    {k : ℕ} (hk : k < nbins) (hfits : binCount nbins pmin pmax k v < 2 ^ 32) :
    (makeHistogram ipp v bins nbins pmin pmax max_threads stack order k).toNat = binCount nbins pmin pmax k v := by
  have hsum : (order.map fun tid => (histogram (chunk v (numThreads v.length max_threads) tid) nbins pmin pmax
      (zeroed nbins (stack tid)) k).toNat).sum = binCount nbins pmin pmax k v := by
    rw [(horder.map _).sum_eq, ← sum_binCount v (numThreads_pos h0 hthreads)]
    congr 1
    refine List.map_congr_left fun tid htid => ?_
    exact chunkHistogram_apply h h0 hthreads (stack tid) (List.mem_range.mp htid) hk
  have hzero : (zeroed nbins bins k).toNat = 0 := by rw [zeroed, if_pos hk]; rfl
  rw [makeHistogram, if_neg (by omega)]
  simp only
  rw [foldl_ippsAdd ipp _ hk order _ (by rw [hzero, hsum]; omega), hzero, hsum, Nat.zero_add]

/-- Every index the kernel computes is inside `thread_hist`; a bin with fewer than 2^32
    values holds their number, as after one pass over the vector; and such bins add up to the
    number of values in the range. -/
theorem makeHistogram_counts (ipp : IppAdd) (h : pmin < pmax) (hbins : 0 < nbins) (hmax : nbins ≤ NBINS)
    (v : List (Option ℚ)) (hv : 2 ≤ v.length) (max_threads : ℕ) (h0 : 0 < max_threads) (hthreads : max_threads ≤ v.length)
    (order : List ℕ) (horder : order.Perm (List.range (numThreads v.length max_threads))) (bins : ℕ → UInt32)
    (stack : ℕ → ℕ → UInt32) :
    let result := makeHistogram ipp v bins nbins pmin pmax max_threads stack order
    (∀ d ∈ v, ∀ k, binIndex nbins pmin pmax d = some k → 0 ≤ k ∧ k < nbins ∧ k < NBINS) ∧
      (∀ k < nbins, binCount nbins pmin pmax k v < 2 ^ 32 →
        (result k).toNat = binCount nbins pmin pmax k v ∧ result k = histogram v nbins pmin pmax (fun _ => 0) k) ∧
      ((∀ k < nbins, binCount nbins pmin pmax k v < 2 ^ 32) →
        ∑ k ∈ Finset.range nbins, (result k).toNat = inRange pmin pmax v) := by
  intro result
  have hexact : ∀ k < nbins, binCount nbins pmin pmax k v < 2 ^ 32 → (result k).toNat = binCount nbins pmin pmax k v :=
    fun k hk hfits => makeHistogram_apply ipp h hv h0 hthreads horder bins stack hk hfits
  refine ⟨?_, ?_, ?_⟩
  · intro d _ k hk
    have := binIndex_bound h hbins hk
    omega
  · intro k hk hfits
    refine ⟨hexact k hk hfits, ?_⟩
    rw [← UInt32.toNat_inj, hexact k hk hfits, histogram_apply h _ _ hk, zero_add, UInt32.toNat_ofNat',
      Nat.mod_eq_of_lt hfits]
  · intro hfits
    rw [← sum_bins h hbins v]
    exact Finset.sum_congr rfl fun k hk => hexact k (Finset.mem_range.mp hk) (hfits k (Finset.mem_range.mp hk))

def addWords : IppAdd where
  ippsAdd_32u_I pSrc pSrcDst len i := if i < len then pSrcDst i + pSrc i else pSrcDst i
  sums pSrc pSrcDst len i hi hfits := by
    rw [if_pos hi, UInt32.toNat_add]
    exact Nat.mod_eq_of_lt hfits

/-- Three chunks, merged last to first. -/
theorem three_values_in_two_bins :
    (makeHistogram addWords [some 0, some 1, some (1 / 2)] (fun _ => 7) 2 0 1 2 (fun _ _ => 9) [2, 1, 0] 1).toNat = 2 := by
  have h := @makeHistogram_counts 2 0 1 addWords (by norm_num) (by decide) (by decide)
    [some 0, some 1, some (1 / 2)] (by decide) 2 (by decide) (by decide) [2, 1, 0] (by decide) (fun _ => 7) fun _ _ => 9
  have hcount : binCount 2 0 1 1 [some 0, some 1, some (1 / 2)] = 2 := by decide +kernel
  exact (h.2.1 1 (by decide) (by rw [hcount]; decide)).1.trans hcount

theorem binCount_equal (n : ℕ) : binCount 1 0 1 0 (List.replicate n (some (1 / 2))) = n := by
  have h : InBin 1 0 1 0 2⁻¹ := by norm_num [InBin]
  simp [binCount, List.countP_replicate, h]

/-- An image of 65536 x 65536 equal pixels: their number is no `Ipp32u`. -/
theorem a_full_bin_overflows :
    binCount 1 0 1 0 (List.replicate (2 ^ 32) (some (1 / 2))) = 2 ^ 32 ∧
      ∀ (ipp : IppAdd) (bins : ℕ → UInt32) (stack : ℕ → ℕ → UInt32) (order : List ℕ),
        (makeHistogram ipp (List.replicate (2 ^ 32) (some (1 / 2))) bins 1 0 1 1 stack order 0).toNat ≠
          binCount 1 0 1 0 (List.replicate (2 ^ 32) (some (1 / 2))) := by
  have hcount := binCount_equal (2 ^ 32)
  refine ⟨hcount, fun ipp bins stack order => ?_⟩
  rw [hcount]
  exact (UInt32.toNat_lt _).ne

end FitsWebQL
