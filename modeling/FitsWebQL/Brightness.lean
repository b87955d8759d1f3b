/-
  FitsWebQL.Brightness — the brightness of an image under the ratio tone curve:
  `FITS::calculate_brightness` and the ISPC kernel `pixels_mean_brightness_ratio`.

  The image is cut into chunks, a kernel call gives each chunk's mean, a thread keeps the
  mean of the last chunk it ran (`brightness =`, not `+=`), and the sum over the threads is
  divided by the number of chunks.

  Proved, `brightness_iff`: for a mask and a split, the result is the mean over the valid
  pixels whatever these are exactly when the chunks hold equally many valid pixels and no
  thread runs two of them.
-/

import FitsWebQL.Histogram

namespace FitsWebQL

open Lib.ParallelFor

/-! ## The tone curve -/

structure MaskedImage where
  pixels : List ℚ
  mask : List UInt8
  same_size : pixels.length = mask.length

/-- One masked-in pixel: `pixel > 0 ? pixel/(1 + pixel) : 0`. -/
def ratioTone (black sensitivity value : ℚ) : ℚ :=
  let pixel := 5 * (value - black) * sensitivity
  if 0 < pixel then pixel / (1 + pixel) else 0

/-- `partial_sum += ...` under `cif(mask[j] > 0)`. -/
def toneTerm (black sensitivity : ℚ) (p : ℚ × UInt8) : ℚ := if 0 < p.2 then ratioTone black sensitivity p.1 else 0

def countTerm (p : ℚ × UInt8) : ℕ := if 0 < p.2 then 1 else 0

def pixelsMeanBrightnessRatio (W : ℕ) [NeZero W] (pixels : List ℚ) (mask : List UInt8) (black sensitivity : ℚ) : ℚ :=
  let sum : ℚ := reduceAdd (foreach (toneTerm black sensitivity) (pixels.zip mask) 0 fun _ : Fin W => 0)
  let count : ℕ := reduceAdd (foreach countTerm (pixels.zip mask) 0 fun _ : Fin W => 0)
  if 0 < count then sum / count else 0

/-- `schedule tid` is the thread that runs chunk `tid`. -/
def calculateBrightness (W : ℕ) [NeZero W] (img : MaskedImage) (black sensitivity : ℚ) (max_threads : ℕ)
    (schedule : ℕ → ℕ) : ℚ :=
  let num_threads := numThreads img.pixels.length max_threads
  reduction schedule max_threads num_threads (fun _ tid =>
    pixelsMeanBrightnessRatio W (chunk img.pixels num_threads tid) (chunk img.mask num_threads tid) black sensitivity) /
      num_threads

/-! ## Sums and counts -/

def toneSum (black sensitivity : ℚ) (ps : List (ℚ × UInt8)) : ℚ := (ps.map (toneTerm black sensitivity)).sum

def validCount (mask : List UInt8) : ℕ := mask.countP fun m => decide (0 < m)

variable {W : ℕ} [NeZero W]

/-- A term for each valid pixel, and none for the others. -/
theorem sum_valid {R : Type*} [Semiring R] (mask : List UInt8) (x : R) :
    (mask.map fun m => if 0 < m then x else 0).sum = validCount mask * x := by
  induction mask with
  | nil => simp [validCount]
  | cons m mask ih =>
    rw [List.map_cons, List.sum_cons, ih, validCount, validCount, List.countP_cons, Nat.cast_add, add_mul, add_comm]
    congr 1
    by_cases hm : 0 < m
    · simp [hm]
    · simp [hm]

theorem zip_mask {pixels : List ℚ} {mask : List UInt8} (h : pixels.length = mask.length) : (pixels.zip mask).map Prod.snd = mask :=
  List.map_snd_zip h.ge

theorem sum_countTerm {pixels : List ℚ} {mask : List UInt8} (h : pixels.length = mask.length) :
    ((pixels.zip mask).map countTerm).sum = validCount mask := by
  have hsum := sum_valid mask 1
  nth_rewrite 1 [← zip_mask h] at hsum
  rw [List.map_map, Nat.mul_one] at hsum
  exact hsum

/-- The kernel gives the mean over the valid pixels, 0 when there is none. -/
theorem pixelsMean_eq {pixels : List ℚ} {mask : List UInt8} (h : pixels.length = mask.length) (black sensitivity : ℚ) :
    pixelsMeanBrightnessRatio W pixels mask black sensitivity = toneSum black sensitivity (pixels.zip mask) / validCount mask := by
  have hcount : reduceAdd (foreach countTerm (pixels.zip mask) 0 fun _ : Fin W => 0) = validCount mask := by
    rw [reduceAdd_foreach, sum_countTerm h]
    simp [reduceAdd]
  have hsum : reduceAdd (foreach (toneTerm black sensitivity) (pixels.zip mask) 0 fun _ : Fin W => 0) =
      toneSum black sensitivity (pixels.zip mask) := by
    rw [reduceAdd_foreach, toneSum]
    simp [reduceAdd]
  rw [pixelsMeanBrightnessRatio, hcount, hsum]
  split
  · rfl
  · rename_i h0
    rw [Nat.eq_zero_of_not_pos h0, Nat.cast_zero, div_zero]

/-- Where every pixel has one value. -/
theorem toneSum_const {pixels : List ℚ} {mask : List UInt8} (h : pixels.length = mask.length) {c : ℚ}
    (hc : ∀ p ∈ pixels, p = c) (black sensitivity : ℚ) :
    toneSum black sensitivity (pixels.zip mask) = validCount mask * ratioTone black sensitivity c := by
  have hterm : ∀ x ∈ pixels.zip mask, toneTerm black sensitivity x = if 0 < x.2 then ratioTone black sensitivity c else 0 := by
    intro x hx
    rw [toneTerm, hc x.1 (List.of_mem_zip hx).1]
  have hsum := sum_valid mask (ratioTone black sensitivity c)
  nth_rewrite 1 [← zip_mask h] at hsum
  rw [List.map_map] at hsum
  rw [toneSum, List.map_congr_left hterm]
  exact hsum

/-! ## The whole routine -/

section Split

variable (img : MaskedImage) (black sensitivity : ℚ) {max_threads : ℕ} {schedule : ℕ → ℕ}

def chunkTone (n t : ℕ) : ℚ := toneSum black sensitivity ((chunk img.pixels n t).zip (chunk img.mask n t))

theorem chunk_same_size {n t : ℕ} (h : t < n) : (chunk img.pixels n t).length = (chunk img.mask n t).length := by
  rw [chunk_length h, chunk_length h, img.same_size]

theorem sum_chunkTone {n : ℕ} (hn : 0 < n) :
    ∑ t ∈ Finset.range n, chunkTone img black sensitivity n t = toneSum black sensitivity (img.pixels.zip img.mask) := by
  have h := sum_chunks (img.pixels.zip img.mask) hn (toneTerm black sensitivity)
  rw [← List.sum_toFinset _ List.nodup_range, List.toFinset_range] at h
  refine Eq.trans (Finset.sum_congr rfl fun t _ => ?_) h
  rw [chunkTone, toneSum, chunk_zip img.same_size]

theorem sum_validCount (mask : List UInt8) {n : ℕ} (hn : 0 < n) :
    ∑ t ∈ Finset.range n, validCount (chunk mask n t) = validCount mask := by
  conv_rhs => rw [← chunks_join mask hn, validCount, List.countP_flatMap]
  rw [← List.sum_toFinset _ List.nodup_range, List.toFinset_range]
  rfl

/-- The threads' last chunks' means, over the number of chunks. -/
theorem calculateBrightness_eq (hs : ∀ t < numThreads img.pixels.length max_threads, schedule t < max_threads) :
    calculateBrightness W img black sensitivity max_threads schedule =
      (∑ t ∈ Finset.range (numThreads img.pixels.length max_threads),
        if IsLast schedule (numThreads img.pixels.length max_threads) t then
          chunkTone img black sensitivity (numThreads img.pixels.length max_threads) t /
            validCount (chunk img.mask (numThreads img.pixels.length max_threads) t)
        else 0) / numThreads img.pixels.length max_threads := by
  rw [calculateBrightness, reduction_store _ hs]
  congr 1
  refine Finset.sum_congr rfl fun t ht => ?_
  rw [pixelsMean_eq (chunk_same_size img (Finset.mem_range.mp ht)), chunkTone]

end Split

/-- The chunks hold equally many valid pixels, and each is the only one of its thread. -/
structure Balanced (mask : List UInt8) (max_threads : ℕ) (schedule : ℕ → ℕ) : Prop where
  same : ∀ t < numThreads mask.length max_threads, ∀ u < numThreads mask.length max_threads,
    validCount (chunk mask (numThreads mask.length max_threads) t) = validCount (chunk mask (numThreads mask.length max_threads) u)
  own : ∀ t < numThreads mask.length max_threads, ∀ u < numThreads mask.length max_threads, schedule t = schedule u → t = u

theorem brightness_of_balanced {img : MaskedImage} {max_threads : ℕ} {schedule : ℕ → ℕ} (h0 : 0 < max_threads)
    (hthreads : max_threads ≤ img.mask.length) (hs : ∀ t < numThreads img.mask.length max_threads, schedule t < max_threads)
    (hb : Balanced img.mask max_threads schedule) (black sensitivity : ℚ) :
    calculateBrightness W img black sensitivity max_threads schedule =
      pixelsMeanBrightnessRatio W img.pixels img.mask black sensitivity := by
  have hn := numThreads_pos h0 hthreads
  have hsum := sum_validCount img.mask hn
  have htone := sum_chunkTone img black sensitivity hn
  rw [pixelsMean_eq img.same_size, calculateBrightness_eq img black sensitivity (by rw [img.same_size]; exact hs)]
  obtain ⟨hsame, hown⟩ := hb
  rw [img.same_size]
  generalize numThreads img.mask.length max_threads = n at *
  -- every chunk counts as many as the first
  have hterm : ∀ t ∈ Finset.range n, (if IsLast schedule n t then
      chunkTone img black sensitivity n t / validCount (chunk img.mask n t) else 0) =
        chunkTone img black sensitivity n t / validCount (chunk img.mask n 0) := by
    intro t ht
    have ht := Finset.mem_range.mp ht
    rw [if_pos, hsame t ht 0 hn]
    intro u hu htu he
    have := hown u hu t ht he
    omega
  have hcount : validCount img.mask = n * validCount (chunk img.mask n 0) := by
    rw [← hsum, Finset.sum_congr rfl fun t ht => hsame t (Finset.mem_range.mp ht) 0 hn, Finset.sum_const, Finset.card_range,
      smul_eq_mul]
  rw [Finset.sum_congr rfl hterm, ← Finset.sum_div, htone, hcount, Nat.cast_mul, div_div, mul_comm]

/-! ## An image that lights up one chunk -/

def probePixel (length n t i : ℕ) : ℚ :=
  if chunkStart length n t ≤ i ∧ i < chunkStart length n t + chunkSize length n t then 1 else 0

def probe (mask : List UInt8) (n t : ℕ) : MaskedImage where
  pixels := (List.range mask.length).map (probePixel mask.length n t)
  mask := mask
  same_size := by simp

theorem ratioTone_one : ratioTone 0 (1 / 5) 1 = 1 / 2 := by norm_num [ratioTone]

theorem ratioTone_zero : ratioTone 0 (1 / 5) 0 = 0 := by norm_num [ratioTone]

theorem probe_chunkTone {mask : List UInt8} {n t u : ℕ} (ht : t < n) (hu : u < n) :
    chunkTone (probe mask n t) 0 (1 / 5) n u = if u = t then (validCount (chunk mask n t) : ℚ) / 2 else 0 := by
  have hpix : ∀ p ∈ chunk (probe mask n t).pixels n u, p = if u = t then 1 else 0 := by
    intro p hp
    simp only [probe, chunk_map, chunk_range hu, List.mem_map, List.mem_range'_1] at hp
    obtain ⟨i, hi, rfl⟩ := hp
    unfold probePixel
    by_cases hut : u = t
    · rw [if_pos hut, if_pos (hut ▸ hi)]
    · rw [if_neg hut, if_neg]
      intro hit
      exact hut (chunk_disjoint hu ht hi hit)
  rw [chunkTone, toneSum_const (chunk_same_size (probe mask n t) hu) hpix]
  by_cases hut : u = t
  · subst hut
    rw [if_pos rfl, if_pos rfl, ratioTone_one]
    change (validCount (chunk mask n u) : ℚ) * (1 / 2) = _
    ring
  · rw [if_neg hut, if_neg hut, ratioTone_zero, mul_zero]

/-- What the code makes of such an image, and what the mean is. -/
theorem probe_brightness {mask : List UInt8} {max_threads : ℕ} {schedule : ℕ → ℕ} {n t : ℕ}
    (hn : numThreads mask.length max_threads = n) (hs : ∀ t < n, schedule t < max_threads) (ht : t < n) :
    calculateBrightness W (probe mask n t) 0 (1 / 5) max_threads schedule =
        (if IsLast schedule n t then (validCount (chunk mask n t) : ℚ) / 2 / validCount (chunk mask n t) else 0) / n ∧
      pixelsMeanBrightnessRatio W (probe mask n t).pixels (probe mask n t).mask 0 (1 / 5) =
        (validCount (chunk mask n t) : ℚ) / 2 / validCount mask := by
  have hlen : (probe mask n t).pixels.length = mask.length := (probe mask n t).same_size
  constructor
  · rw [calculateBrightness_eq (probe mask n t) 0 (1 / 5) (by rw [hlen, hn]; exact hs), hlen, hn]
    congr 1
    rw [Finset.sum_eq_single_of_mem t (Finset.mem_range.mpr ht)]
    · rw [probe_chunkTone ht ht, if_pos rfl]
      rfl
    · intro u hu hut
      rw [probe_chunkTone ht (Finset.mem_range.mp hu), if_neg hut, zero_div, ite_self]
  · rw [pixelsMean_eq (probe mask n t).same_size, ← sum_chunkTone (probe mask n t) 0 (1 / 5) (by omega : 0 < n),
      Finset.sum_congr rfl fun u hu => probe_chunkTone ht (Finset.mem_range.mp hu),
      Finset.sum_ite_eq' (Finset.range n) t, if_pos (Finset.mem_range.mpr ht)]
    rfl

/-- Numbers that are all `0` or `C / n` and add up to `C` are all `C / n`. -/
theorem all_equal_of_sum {n C : ℕ} {c : ℕ → ℕ} (hC : 0 < C) (hsum : ∑ t ∈ Finset.range n, c t = C)
    (h : ∀ t < n, 0 < c t → n * c t = C) : ∀ t < n, n * c t = C := by
  intro t ht
  by_contra hne
  have hzero : c t = 0 := by
    by_contra h0
    exact hne (h t ht (Nat.pos_of_ne_zero h0))
  have hle : ∀ u ∈ Finset.range n, n * c u ≤ if u = t then 0 else C := by
    intro u hu
    by_cases hut : u = t
    · rw [if_pos hut, hut, hzero, Nat.mul_zero]
    · rw [if_neg hut]
      rcases Nat.eq_zero_or_pos (c u) with h0 | h0
      · simp [h0]
      · exact (h u (Finset.mem_range.mp hu) h0).le
  have htotal := Finset.sum_le_sum hle
  have hcard : ∑ u ∈ Finset.range n, (if u = t then 0 else C) + C = n * C := by
    have hsplit := Finset.sum_add_distrib (s := Finset.range n) (f := fun u => if u = t then 0 else C)
      (g := fun u => if u = t then C else 0)
    rw [Finset.sum_ite_eq' (Finset.range n) t, if_pos (Finset.mem_range.mpr ht)] at hsplit
    rw [← hsplit, Finset.sum_congr rfl fun u _ => show _ = C by by_cases hut : u = t <;> simp [hut]]
    simp
  rw [← Finset.mul_sum, hsum] at htotal
  omega

section Exact

variable {mask : List UInt8} {max_threads : ℕ} {schedule : ℕ → ℕ}

def BrightnessExact (W : ℕ) [NeZero W] (mask : List UInt8) (max_threads : ℕ) (schedule : ℕ → ℕ) : Prop :=
  ∀ img : MaskedImage, img.mask = mask → ∀ black sensitivity,
    calculateBrightness W img black sensitivity max_threads schedule =
      pixelsMeanBrightnessRatio W img.pixels img.mask black sensitivity

/-- A chunk with valid pixels is then its thread's last, and holds the `n`-th part of them. -/
theorem share_of_exact {n : ℕ} (hn : numThreads mask.length max_threads = n) (hvalid : 0 < validCount mask)
    (hs : ∀ t < n, schedule t < max_threads) (h : BrightnessExact W mask max_threads schedule) {t : ℕ} (ht : t < n)
    (hc : 0 < validCount (chunk mask n t)) : IsLast schedule n t ∧ n * validCount (chunk mask n t) = validCount mask := by
  obtain ⟨hcode, hmean⟩ := probe_brightness (W := W) hn hs ht
  have he := hcode.symm.trans ((h (probe mask n t) rfl 0 (1 / 5)).trans hmean)
  have hnq : (0 : ℚ) < n := by exact_mod_cast (by omega : 0 < n)
  have hcq : (0 : ℚ) < validCount (chunk mask n t) := by exact_mod_cast hc
  have hvq : (0 : ℚ) < validCount mask := by exact_mod_cast hvalid
  split at he
  · rename_i hl
    refine ⟨hl, ?_⟩
    have hhalf : (validCount (chunk mask n t) : ℚ) / 2 / validCount (chunk mask n t) = 1 / 2 := by field_simp
    rw [hhalf, div_div, div_div, div_eq_div_iff (by positivity) (by positivity)] at he
    have : (n * validCount (chunk mask n t) : ℚ) = validCount mask := by linarith
    exact_mod_cast this
  · rw [zero_div] at he
    have : (0 : ℚ) < validCount (chunk mask n t) / 2 / validCount mask := by positivity
    linarith

theorem balanced_of_exact (hvalid : 0 < validCount mask) (h0 : 0 < max_threads) (hthreads : max_threads ≤ mask.length)
    (hs : ∀ t < numThreads mask.length max_threads, schedule t < max_threads)
    (h : BrightnessExact W mask max_threads schedule) : Balanced mask max_threads schedule := by
  have hpos := numThreads_pos h0 hthreads
  have hshare := fun t ht hc => share_of_exact (t := t) rfl hvalid hs h ht hc
  have hcounts := sum_validCount mask hpos
  have hall := all_equal_of_sum hvalid hcounts fun t ht hc => (hshare t ht hc).2
  have hlast : ∀ t < numThreads mask.length max_threads, IsLast schedule (numThreads mask.length max_threads) t := by
    intro t ht
    refine (hshare t ht (Nat.pos_of_ne_zero fun hz => ?_)).1
    have := hall t ht
    rw [hz] at this
    omega
  refine ⟨?_, ?_⟩
  · intro t ht u hu
    exact Nat.eq_of_mul_eq_mul_left hpos ((hall t ht).trans (hall u hu).symm)
  · intro t ht u hu he
    rcases Nat.lt_trichotomy t u with hlt | heq | hgt
    · exact absurd he.symm (hlast t ht u hu hlt)
    · exact heq
    · exact absurd he (hlast u hu t ht hgt)

end Exact

/-- For a mask and a split: the mean, whatever the pixels, exactly for balanced chunks that
    are each a thread's only one. -/
theorem brightness_iff (W : ℕ) [NeZero W] (mask : List UInt8) (hvalid : 0 < validCount mask) (max_threads : ℕ)
    (h0 : 0 < max_threads) (hthreads : max_threads ≤ mask.length) (schedule : ℕ → ℕ)
    (hs : ∀ t < numThreads mask.length max_threads, schedule t < max_threads) :
    BrightnessExact W mask max_threads schedule ↔ Balanced mask max_threads schedule := by
  constructor
  · exact balanced_of_exact hvalid h0 hthreads hs
  · intro hb img himg black sensitivity
    subst himg
    exact brightness_of_balanced h0 hthreads hs hb black sensitivity

theorem two_pixels_two_threads : BrightnessExact 4 [255, 255] 2 id :=
  (brightness_iff 4 [255, 255] (by decide) 2 (by decide) (by decide) id (by decide)).mpr ⟨by decide, by decide⟩

def threeEqualPixels : MaskedImage where
  pixels := [1, 1, 1]
  mask := [255, 255, 255]
  same_size := rfl

/-- Three chunks for two threads: the first thread's first mean is written over. -/
theorem a_mean_is_overwritten :
    calculateBrightness 1 threeEqualPixels 0 (1 / 5) 2 (fun tid => tid / 2) = 1 / 3 ∧
      pixelsMeanBrightnessRatio 1 threeEqualPixels.pixels threeEqualPixels.mask 0 (1 / 5) = 1 / 2 := by
  decide +kernel

end FitsWebQL
