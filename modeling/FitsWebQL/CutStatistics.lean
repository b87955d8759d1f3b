/-
  FitsWebQL.CutStatistics — the statistics of an image: of the whole cube's when it is
  loaded (`FITS::make_image_statistics`), of a range of frames when a user cuts one out
  (`FITS::make_cube_statistics`). The two are copies of each other: range of the pixels,
  histogram, median, deviations from it, and from these the black and white levels and the
  sensitivities. The second takes `median`, the member that holds the whole cube's, where
  the levels need the cut's own `_median`.

  Exact arithmetic; a division by zero gives no number (`none`). The process ends where an
  integer is divided by zero, which is what more threads than pixels lead to, and
  `std::nth_element` is undefined on values that are not ordered, so a NaN left among the
  pixels gives no result here.

  Proved:
  - `cutValues_isSome_iff`: when there are statistics at all.
  - `cut_statistics_iff`: for a cube and a cut, the two routines agree and the median lies
    between black and white exactly when there are statistics and the stored median gives
    the levels that the cut's own does.
  - `a_stale_median`: it need not.
-/

import FitsWebQL.DeNaN
import FitsWebQL.Sensitivity
import FitsWebQL.Deviations

namespace FitsWebQL

open Lib.ParallelFor

/-! ## Minimum and maximum -/

/-- `image_min_max`: the range so far, widened by a chunk's valid pixels times `cdelt3`. -/
def imageMinMax (cdelt3 : ℚ) (pixels : List (ℚ × UInt8)) (range : ℚ × ℚ) : ℚ × ℚ :=
  pixels.foldl (fun r p => if p.2 = 0 then r else (min r.1 (p.1 * cdelt3), max r.2 (p.1 * cdelt3))) range

/-- `reduction(min : _pmin) reduction(max : _pmax)` over the chunks. -/
def pixelRange (cdelt3 : ℚ) (pixels : List (ℚ × UInt8)) (schedule : ℕ → ℕ) (team n : ℕ) : ℚ × ℚ :=
  (List.range team).foldl
    (fun r w =>
      let own := threadRun schedule n (fun r tid => imageMinMax cdelt3 (chunk pixels n tid) r) (FLT_MAX, -FLT_MAX) w
      (min r.1 own.1, max r.2 own.2))
    (FLT_MAX, -FLT_MAX)

/-- What `image_min_max` leaves of a pixel: scaled if it is valid, a quiet NaN if not. -/
def restored (cdelt3 : ℚ) (p : ℚ × UInt8) : Option ℚ := if p.2 = 0 then none else some (p.1 * cdelt3)

/-! ## The median -/

/-- `nth_element`: the values sorted, more than what it asks for of either half. -/
def sortedValues (v : List ℚ) : List ℚ := v.insertionSort (· ≤ ·)

def stlMedian (v : List (Option ℚ)) : Option ℚ :=
  match v with
  | [] => none
  | [x] => x
  | x :: y :: rest => do
    let numbers ← (x :: y :: rest).mapM id
    let sorted := sortedValues numbers
    let n := numbers.length / 2
    if numbers.length % 2 = 1 then sorted[n]?
    else do
      let max_it ← (sorted.take n).max?
      let middle ← sorted[n]?
      return (max_it + middle) / 2

/-! ## The two routines -/

/-- The threads of a parallel region: which runs a chunk, the order in which `n` chunks reach
    a critical section, and what a chunk's `thread_hist` holds when it is declared. `ipp` adds
    the histograms up. -/
structure CutTeam where
  ipp : IppAdd
  max_threads : ℕ
  schedule : ℕ → ℕ
  order : ℕ → List ℕ
  stack : ℕ → ℕ → UInt32
  some_thread : 0 < max_threads
  in_team : ∀ tid, schedule tid < max_threads
  every_chunk : ∀ n, (order n).Perm (List.range n)

structure CubeObject where
  header : FitsHeader
  median : ℚ
  dmin : ℚ
  dmax : ℚ

/-- What both routines compute before the levels; `bins` is the histogram. -/
structure CutValues where
  pmin : ℚ
  pmax : ℚ
  median : ℚ
  mad : ℚ
  madP : ℚ
  madN : ℚ
  bins : ℕ → UInt32

def CubeObject.scaled (obj : CubeObject) (img : MaskedImage) : MaskedImage :=
  if obj.header.depth = 1 then img
  else
    { pixels := img.pixels.map (· * obj.header.cdelt)
      mask := img.mask
      same_size := by rw [List.length_map, img.same_size] }

def CubeObject.copied (obj : CubeObject) (img : MaskedImage) : List (Option ℚ) :=
  if obj.header.depth = 1 then img.pixels.map some else (img.pixels.zip img.mask).map (restored obj.header.cdelt)

def CubeObject.range (obj : CubeObject) (team : CutTeam) (img : MaskedImage) : ℚ × ℚ :=
  if obj.header.depth = 1 then (obj.dmin, obj.dmax)
  else
    pixelRange obj.header.cdelt (img.pixels.zip img.mask) team.schedule team.max_threads
      (numThreads img.pixels.length team.max_threads)

/-- The deviations from `median`, the threads' accumulators added up. -/
def CutTeam.deviations (W : ℕ) [NeZero W] (team : CutTeam) (img : MaskedImage) (median : ℚ) : Deviations :=
  let num_threads := numThreads img.pixels.length team.max_threads
  reduction team.schedule team.max_threads num_threads fun acc tid =>
    asymmetricMad W (chunk (img.pixels.zip img.mask) num_threads tid) median acc

/-- `_mad`, `_madP`, `_madN` after the divisions. -/
def Deviations.means (d : Deviations) : ℚ × ℚ × ℚ :=
  let _mad := if 0 < d.count then d.mad / d.count else d.mad
  (_mad, if 0 < d.countP then d.madP / d.countP else _mad, if 0 < d.countN then d.madN / d.countN else _mad)

/-- The values once the median of the pruned pixels `v` is known. -/
def valuesAround (W : ℕ) [NeZero W] (team : CutTeam) (obj : CubeObject) (bins : ℕ → UInt32) (img : MaskedImage)
    (v : List (Option ℚ)) (_median : ℚ) : CutValues :=
  let (_pmin, _pmax) := obj.range team img
  let (_mad, _madP, _madN) := (team.deviations W (obj.scaled img) _median).means
  { pmin := _pmin, pmax := _pmax, median := _median, mad := _mad, madP := _madP, madN := _madN
    bins := makeHistogram team.ipp v bins NBINS _pmin _pmax team.max_threads team.stack
      (team.order (numThreads v.length team.max_threads)) }

def cutValues (W : ℕ) [NeZero W] (team : CutTeam) (obj : CubeObject) (bins : ℕ → UInt32) (img : MaskedImage) : Option CutValues :=
  -- `total_size / work_size`
  if workSize img.pixels.length team.max_threads = 0 then none
  else
    let v := deNaN (obj.copied img)
    -- the same division in `make_histogram`
    if 1 < v.length ∧ workSize v.length team.max_threads = 0 then none
    else (stlMedian v).map (valuesAround W team obj bins img v)

/-- The tuple `make_cube_statistics` returns, the members `make_image_statistics` sets. -/
structure Statistics where
  pmin : ℚ
  pmax : ℚ
  median : ℚ
  black : ℚ
  white : ℚ
  sensitivity : Option ℚ
  ratio_sensitivity : Option ℚ
  deriving DecidableEq

/-- `x / y`, no number when `y` is zero. -/
def quotient (x y : ℚ) : Option ℚ := if y = 0 then none else some (x / y)

/-- `u`: 7.5 in ALMAWebQL's style, 0.5 in SubaruWebQL's. -/
def CubeObject.u (obj : CubeObject) : ℚ := if obj.header.is_optical then 1 / 2 else 15 / 2

def levels (W : ℕ) [NeZero W] (team : CutTeam) (obj : CubeObject) (img : MaskedImage) (c : CutValues) (median : ℚ) : Statistics :=
  let _black := max c.pmin (median - obj.u * c.madN)
  let _white := min c.pmax (median + obj.u * c.madP)
  let _sensitivity := if obj.header.is_optical then quotient 1 (15 * c.mad) else quotient 1 (_white - _black)
  { pmin := c.pmin, pmax := c.pmax, median := c.median, black := _black, white := _white, sensitivity := _sensitivity
    ratio_sensitivity :=
      if obj.header.is_optical then
        autoBrightness (fun s => calculateBrightness W (obj.scaled img) _black s team.max_threads team.schedule) _sensitivity
      else _sensitivity }

/-- `make_cube_statistics`: the levels lie around the member `median`. -/
def makeCubeStatistics (W : ℕ) [NeZero W] (team : CutTeam) (obj : CubeObject) (bins : ℕ → UInt32) (img : MaskedImage) :
    Option (Statistics × (ℕ → UInt32)) :=
  (cutValues W team obj bins img).map fun c => (levels W team obj img c obj.median, c.bins)

/-- `make_image_statistics`: the levels lie around the median just computed. -/
def makeImageStatistics (W : ℕ) [NeZero W] (team : CutTeam) (obj : CubeObject) (hist : ℕ → UInt32) (img : MaskedImage) :
    Option (Statistics × (ℕ → UInt32)) :=
  (cutValues W team obj hist img).map fun c => (levels W team obj img c c.median, c.bins)

/-! ## When there are statistics -/

theorem workSize_eq_zero {total_size max_threads : ℕ} (h0 : 0 < max_threads) :
    workSize total_size max_threads = 0 ↔ total_size < max_threads := by
  rw [← Nat.div_eq_zero_iff_lt h0, workSize]
  have : max_work_size = 1024 * 1024 * 1024 := rfl
  omega

theorem copied_cut {obj : CubeObject} (hdepth : 1 < obj.header.depth) (img : MaskedImage) :
    obj.copied img = (img.pixels.zip img.mask).map (restored obj.header.cdelt) := if_neg (by omega)

theorem countP_copied {obj : CubeObject} (hdepth : 1 < obj.header.depth) (img : MaskedImage) :
    (obj.copied img).countP Option.isSome = validCount img.mask := by
  have hvalid : ∀ x : ℚ × UInt8, (restored obj.header.cdelt x).isSome = decide (0 < x.2) := by
    intro x
    unfold restored
    by_cases hm : x.2 = 0
    · simp [hm]
    · have hpos : 0 < x.2 := UInt8.pos_iff_ne_zero.mpr hm
      simp [hm, hpos]
  rw [copied_cut hdepth, List.countP_map, validCount]
  nth_rewrite 2 [← zip_mask img.same_size]
  rw [List.countP_map]
  exact List.countP_congr fun x _ => by rw [Function.comp, hvalid]; rfl

theorem mapM_id_some (w : List ℚ) : (w.map some).mapM id = some w := by
  induction w with
  | nil => rfl
  | cons x w ih => simp [List.mapM_cons, ih]

theorem mapM_id_none {v : List (Option ℚ)} (h : none ∈ v) : v.mapM id = none := by
  induction v with
  | nil => simp at h
  | cons x v ih =>
    rcases List.mem_cons.mp h with rfl | h
    · simp [List.mapM_cons]
    · simp [List.mapM_cons, ih h]

theorem stlMedian_none {v : List (Option ℚ)} (h : none ∈ v) : stlMedian v = none := by
  match v, h with
  | [x], h =>
    simp only [List.mem_singleton] at h
    simp [stlMedian, ← h]
  | x :: y :: rest, h => simp only [stlMedian, mapM_id_none h, Option.bind_eq_bind, Option.bind_none]

/-- The median of numbers is one, between any bounds they have. -/
theorem stlMedian_some {w : List ℚ} (hw : w ≠ []) :
    ∃ m, stlMedian (w.map some) = some m ∧ ∀ lo hi, (∀ x ∈ w, lo ≤ x ∧ x ≤ hi) → lo ≤ m ∧ m ≤ hi := by
  match w, hw with
  | [x], _ => exact ⟨x, rfl, fun lo hi h => h x (by simp)⟩
  | x :: y :: rest, _ =>
    generalize hnumbers : x :: y :: rest = w
    have hlen : 2 ≤ w.length := by simp [← hnumbers]
    have hmem : ∀ q ∈ sortedValues w, q ∈ w := fun q hq => (List.mem_insertionSort (· ≤ ·)).mp hq
    have hsorted : (sortedValues w).length = w.length := List.length_insertionSort (· ≤ ·) w
    have hmid : w.length / 2 < (sortedValues w).length := by omega
    have hstart : stlMedian (w.map some) =
        if w.length % 2 = 1 then (sortedValues w)[w.length / 2]?
        else do
          let max_it ← ((sortedValues w).take (w.length / 2)).max?
          let middle ← (sortedValues w)[w.length / 2]?
          return (max_it + middle) / 2 := by
      rw [← hnumbers]
      simp only [List.map_cons, stlMedian]
      rw [← List.map_cons, ← List.map_cons, mapM_id_some]
      rfl
    rw [hstart, List.getElem?_eq_getElem hmid]
    have hin : (sortedValues w)[w.length / 2] ∈ w := hmem _ (List.getElem_mem hmid)
    split
    · exact ⟨_, rfl, fun lo hi h => h _ hin⟩
    · have hne : (sortedValues w).take (w.length / 2) ≠ [] := by
        intro he
        have := congrArg List.length he
        simp only [List.length_take, List.length_nil] at this
        omega
      obtain ⟨m, hm⟩ := Option.ne_none_iff_exists'.mp (mt List.max?_eq_none_iff.mp hne)
      have hmw : m ∈ w := hmem _ (List.mem_of_mem_take (List.max?_mem hm))
      refine ⟨(m + (sortedValues w)[w.length / 2]) / 2, by simp [hm], fun lo hi h => ?_⟩
      have h1 := h _ hin
      have h2 := h _ hmw
      constructor <;> linarith

/-! ## The range holds every valid value -/

def Covers (r : ℚ × ℚ) (x : ℚ) : Prop := r.1 ≤ x ∧ x ≤ r.2

theorem covers_min_max {r : ℚ × ℚ} {x : ℚ} (h : Covers r x) (q : ℚ × ℚ) : Covers (min r.1 q.1, max r.2 q.2) x :=
  ⟨(min_le_left _ _).trans h.1, h.2.trans (le_max_left _ _)⟩

theorem imageMinMax_keeps {cdelt3 x : ℚ} {r : ℚ × ℚ} (pixels : List (ℚ × UInt8)) (h : Covers r x) :
    Covers (imageMinMax cdelt3 pixels r) x := by
  unfold imageMinMax
  induction pixels generalizing r with
  | nil => exact h
  | cons p pixels ih =>
    rw [List.foldl_cons]
    split
    · exact ih h
    · exact ih (covers_min_max h (p.1 * cdelt3, p.1 * cdelt3))

theorem imageMinMax_mem {cdelt3 : ℚ} {pixels : List (ℚ × UInt8)} {p : ℚ × UInt8} (hp : p ∈ pixels) (hvalid : p.2 ≠ 0)
    (r : ℚ × ℚ) : Covers (imageMinMax cdelt3 pixels r) (p.1 * cdelt3) := by
  unfold imageMinMax
  refine foldl_of_mem (P := fun r => Covers r (p.1 * cdelt3)) ?_ hp ?_ r
  · intro r q h
    split
    · exact h
    · exact covers_min_max h (q.1 * cdelt3, q.1 * cdelt3)
  · intro r
    rw [if_neg hvalid]
    exact ⟨min_le_right _ _, le_max_right _ _⟩

theorem pixelRange_covers {cdelt3 : ℚ} {pixels : List (ℚ × UInt8)} {schedule : ℕ → ℕ} {team n : ℕ} (hn : 0 < n)
    (hteam : ∀ t, schedule t < team) {p : ℚ × UInt8} (hp : p ∈ pixels) (hvalid : p.2 ≠ 0) :
    Covers (pixelRange cdelt3 pixels schedule team n) (p.1 * cdelt3) := by
  obtain ⟨t, ht, hpt⟩ := mem_chunk hn hp
  have hown : Covers (threadRun schedule n (fun r tid => imageMinMax cdelt3 (chunk pixels n tid) r) (FLT_MAX, -FLT_MAX)
      (schedule t)) (p.1 * cdelt3) :=
    threadRun_of_mem (P := fun r => Covers r (p.1 * cdelt3)) (fun r u h => imageMinMax_keeps _ h) ht
      (fun r => imageMinMax_mem hpt hvalid r) _
  unfold pixelRange
  refine foldl_of_mem (P := fun r => Covers r (p.1 * cdelt3)) ?_ (List.mem_range.mpr (hteam t)) ?_ _
  · intro r w h
    exact covers_min_max h _
  · intro r
    exact ⟨(min_le_right _ _).trans hown.1, hown.2.trans (le_max_right _ _)⟩

/-! ## Deviations are not negative -/

def Deviations.Nonneg (d : Deviations) : Prop := 0 ≤ d.mad ∧ 0 ≤ d.madP ∧ 0 ≤ d.madN

theorem nonneg_zero : (0 : Deviations).Nonneg := ⟨le_rfl, le_rfl, le_rfl⟩

theorem nonneg_add {d e : Deviations} (hd : d.Nonneg) (he : e.Nonneg) : (d + e).Nonneg :=
  ⟨add_nonneg hd.1 he.1, add_nonneg hd.2.1 he.2.1, add_nonneg hd.2.2 he.2.2⟩

theorem nonneg_smul {d : Deviations} (n : ℕ) (hd : d.Nonneg) : (n • d).Nonneg :=
  ⟨nsmul_nonneg hd.1 n, nsmul_nonneg hd.2.1 n, nsmul_nonneg hd.2.2 n⟩

theorem nonneg_sum {l : List Deviations} (h : ∀ d ∈ l, d.Nonneg) : l.sum.Nonneg := by
  induction l with
  | nil => exact nonneg_zero
  | cons d l ih =>
    rw [List.sum_cons]
    exact nonneg_add (h d (by simp)) (ih fun e he => h e (by simp [he]))

theorem deviation_nonneg (median : ℚ) (p : ℚ × UInt8) : (deviation median p).Nonneg := by
  unfold deviation
  simp only
  split
  · exact nonneg_zero
  · refine ⟨abs_nonneg _, ?_, ?_⟩
    · simp only
      split
      · linarith
      · exact le_rfl
    · simp only
      split
      · linarith
      · exact le_rfl

theorem asymmetricMad_nonneg {W : ℕ} [NeZero W] {median : ℚ} (pixels : List (ℚ × UInt8)) {acc : Deviations}
    (h : acc.Nonneg) : (asymmetricMad W pixels median acc).Nonneg := by
  rw [asymmetricMad_eq]
  refine nonneg_add (nonneg_smul W h) (nonneg_sum fun d hd => ?_)
  obtain ⟨p, -, rfl⟩ := List.mem_map.mp hd
  exact deviation_nonneg median p

theorem teamDeviations_nonneg (W : ℕ) [NeZero W] (team : CutTeam) (img : MaskedImage) (median : ℚ) :
    (team.deviations W img median).Nonneg := by
  unfold CutTeam.deviations reduction
  refine nonneg_sum fun d hd => ?_
  obtain ⟨w, -, rfl⟩ := List.mem_map.mp hd
  exact List.foldlRecOn _ _ nonneg_zero fun acc h tid _ => asymmetricMad_nonneg _ h

theorem means_nonneg {d : Deviations} (h : d.Nonneg) : 0 ≤ d.means.1 ∧ 0 ≤ d.means.2.1 ∧ 0 ≤ d.means.2.2 := by
  obtain ⟨h0, h1, h2⟩ := h
  have hmad : 0 ≤ d.means.1 := by
    simp only [Deviations.means]
    split <;> positivity
  refine ⟨hmad, ?_, ?_⟩
  · simp only [Deviations.means] at hmad ⊢
    split
    · positivity
    · exact hmad
  · simp only [Deviations.means] at hmad ⊢
    split
    · positivity
    · exact hmad

/-! ## The values both routines start from -/

structure HasStatistics (team : CutTeam) (obj : CubeObject) (img : MaskedImage) : Prop where
  pixels : team.max_threads ≤ img.pixels.length
  valid : validCount img.mask = 1 ∨ team.max_threads ≤ validCount img.mask
  finite : FiniteAtCount (obj.copied img)

structure CutValues.Ordered (c : CutValues) : Prop where
  low : c.pmin ≤ c.median
  high : c.median ≤ c.pmax
  madP : 0 ≤ c.madP
  madN : 0 ≤ c.madN

variable {W : ℕ} [NeZero W] {team : CutTeam} {obj : CubeObject} {img : MaskedImage} {bins : ℕ → UInt32}

theorem cutValues_of_hasStatistics (hdepth : 1 < obj.header.depth) (hvalid : 0 < validCount img.mask)
    (h : HasStatistics team obj img) : ∃ c, cutValues W team obj bins img = some c ∧ c.Ordered := by
  obtain ⟨w, hw, hlen, hmem⟩ := deNaN_numbers h.finite
  rw [countP_copied hdepth] at hlen
  have hne : w ≠ [] := by
    rintro rfl
    simp at hlen
    omega
  obtain ⟨m, hm, hbetween⟩ := stlMedian_some hne
  have hwork : ¬ workSize img.pixels.length team.max_threads = 0 := by
    rw [workSize_eq_zero team.some_thread]
    exact not_lt.mpr h.pixels
  have hsize : ¬ (1 < (deNaN (obj.copied img)).length ∧ workSize (deNaN (obj.copied img)).length team.max_threads = 0) := by
    rw [workSize_eq_zero team.some_thread, hw, List.length_map, hlen]
    rcases h.valid with h1 | h1 <;> omega
  -- every value the median is made of is a valid pixel's
  have hrange : ∀ x ∈ w, (obj.range team img).1 ≤ x ∧ x ≤ (obj.range team img).2 := by
    intro x hx
    have hx := hmem x hx
    rw [copied_cut hdepth] at hx
    obtain ⟨p, hp, hpx⟩ := List.mem_map.mp hx
    by_cases hz : p.2 = 0
    · simp [restored, hz] at hpx
    · rw [restored, if_neg hz, Option.some.injEq] at hpx
      rw [← hpx, CubeObject.range, if_neg (by omega)]
      exact pixelRange_covers (numThreads_pos team.some_thread h.pixels) team.in_team hp hz
  obtain ⟨hlow, hhigh⟩ := hbetween _ _ hrange
  obtain ⟨-, hP, hN⟩ := means_nonneg (teamDeviations_nonneg W team (obj.scaled img) m)
  refine ⟨valuesAround W team obj bins img (deNaN (obj.copied img)) m, ?_, ⟨hlow, hhigh, hP, hN⟩⟩
  rw [cutValues, if_neg hwork]
  simp only
  rw [if_neg hsize, hw, hm, Option.map_some]

theorem hasStatistics_of_cutValues (hdepth : 1 < obj.header.depth) (hvalid : 0 < validCount img.mask) {c : CutValues}
    (h : cutValues W team obj bins img = some c) : HasStatistics team obj img := by
  simp only [cutValues] at h
  split at h
  · cases h
  · rename_i hwork
    rw [workSize_eq_zero team.some_thread, not_lt] at hwork
    split at h
    · cases h
    · rename_i hsize
      have hfinite : FiniteAtCount (obj.copied img) := by
        by_contra hnot
        rw [stlMedian_none (deNaN_nan hnot)] at h
        cases h
      obtain ⟨w, hw, hlen, -⟩ := deNaN_numbers hfinite
      rw [workSize_eq_zero team.some_thread, hw, List.length_map, hlen, countP_copied hdepth] at hsize
      exact ⟨hwork, by omega, hfinite⟩

theorem cutValues_isSome_iff (hdepth : 1 < obj.header.depth) (hvalid : 0 < validCount img.mask) :
    (∃ c, cutValues W team obj bins img = some c) ↔ HasStatistics team obj img := by
  constructor
  · intro ⟨c, hc⟩
    exact hasStatistics_of_cutValues hdepth hvalid hc
  · intro h
    obtain ⟨c, hc, -⟩ : ∃ c, cutValues W team obj bins img = some c ∧ c.Ordered := cutValues_of_hasStatistics hdepth hvalid h
    exact ⟨c, hc⟩

/-- The histogram aside, the values do not depend on what the bins held. -/
theorem cutValues_bins (bins bins' : ℕ → UInt32) :
    cutValues W team obj bins' img = (cutValues W team obj bins img).map fun c =>
      { c with bins := (valuesAround W team obj bins' img (deNaN (obj.copied img)) c.median).bins } := by
  unfold cutValues
  simp only
  split
  · rfl
  · split
    · rfl
    · cases stlMedian (deNaN (obj.copied img)) <;> rfl

/-! ## The levels -/

theorem max_sub_eq_iff (p m q d : ℚ) : max p (m - d) = max p (q - d) ↔ m = q ∨ (m ≤ p + d ∧ q ≤ p + d) := by
  constructor
  · intro h
    by_contra hne
    rw [not_or, not_and_or] at hne
    rcases le_total (m - d) p with h1 | h1 <;> rcases le_total (q - d) p with h2 | h2
    · rcases hne.2 with h3 | h3 <;> exact h3 (by linarith)
    · rw [max_eq_left h1, max_eq_right h2] at h
      rcases hne.2 with h3 | h3 <;> exact h3 (by linarith)
    · rw [max_eq_right h1, max_eq_left h2] at h
      rcases hne.2 with h3 | h3 <;> exact h3 (by linarith)
    · rw [max_eq_right h1, max_eq_right h2] at h
      exact hne.1 (by linarith)
  · rintro (rfl | ⟨h1, h2⟩)
    · rfl
    · rw [max_eq_left (by linarith), max_eq_left (by linarith)]

theorem min_add_eq_iff (p m q d : ℚ) : min p (m + d) = min p (q + d) ↔ m = q ∨ (p - d ≤ m ∧ p - d ≤ q) := by
  have h := max_sub_eq_iff (-p) (-m) (-q) d
  have hm : max (-p) (-m - d) = -min p (m + d) := by rw [← max_neg_neg, neg_add']
  have hq : max (-p) (-q - d) = -min p (q + d) := by rw [← max_neg_neg, neg_add']
  rw [hm, hq, neg_inj, neg_inj] at h
  rw [h]
  constructor
  · rintro (h | ⟨h1, h2⟩)
    · exact Or.inl h
    · exact Or.inr ⟨by linarith, by linarith⟩
  · rintro (h | ⟨h1, h2⟩)
    · exact Or.inl h
    · exact Or.inr ⟨by linarith, by linarith⟩

/-- The stored median is the cut's, or neither moves a level off the end of the range. -/
def SameLevels (obj : CubeObject) (c : CutValues) : Prop :=
  obj.median = c.median ∨
    (obj.median ≤ c.pmin + obj.u * c.madN ∧ c.median ≤ c.pmin + obj.u * c.madN) ∧
      (c.pmax - obj.u * c.madP ≤ obj.median ∧ c.pmax - obj.u * c.madP ≤ c.median)

theorem levels_eq_iff (c : CutValues) :
    levels W team obj img c obj.median = levels W team obj img c c.median ↔ SameLevels obj c := by
  have hlevels : levels W team obj img c obj.median = levels W team obj img c c.median ↔
      max c.pmin (obj.median - obj.u * c.madN) = max c.pmin (c.median - obj.u * c.madN) ∧
        min c.pmax (obj.median + obj.u * c.madP) = min c.pmax (c.median + obj.u * c.madP) := by
    constructor
    · intro h
      exact ⟨congrArg Statistics.black h, congrArg Statistics.white h⟩
    · rintro ⟨hb, hw⟩
      simp only [levels, hb, hw]
  rw [hlevels, max_sub_eq_iff, min_add_eq_iff, ← or_and_left]
  rfl

theorem u_pos (obj : CubeObject) : 0 < obj.u := by
  unfold CubeObject.u
  split <;> norm_num

/-- Around its own median an image's levels enclose it. -/
theorem levels_enclose {c : CutValues} (h : c.Ordered) :
    (levels W team obj img c c.median).black ≤ c.median ∧ c.median ≤ (levels W team obj img c c.median).white := by
  have hN : 0 ≤ obj.u * c.madN := mul_nonneg (u_pos obj).le h.madN
  have hP : 0 ≤ obj.u * c.madP := mul_nonneg (u_pos obj).le h.madP
  simp only [levels]
  exact ⟨max_le h.low (by linarith), le_min h.high (by linarith)⟩

/-- The routine for a cut gives what the one for an image does, with the median between
    black and white. -/
def CutAgrees (W : ℕ) [NeZero W] (team : CutTeam) (obj : CubeObject) (bins hist : ℕ → UInt32) (img : MaskedImage) : Prop :=
  ∃ s, (makeCubeStatistics W team obj bins img).map Prod.fst = some s ∧
    (makeImageStatistics W team obj hist img).map Prod.fst = some s ∧ s.black ≤ s.median ∧ s.median ≤ s.white

/-- Both routines, when there are values to start from. -/
theorem statistics_of_values {c : CutValues} (h : cutValues W team obj bins img = some c) (hist : ℕ → UInt32) :
    (makeCubeStatistics W team obj bins img).map Prod.fst = some (levels W team obj img c obj.median) ∧
      (makeImageStatistics W team obj hist img).map Prod.fst = some (levels W team obj img c c.median) := by
  constructor
  · rw [makeCubeStatistics, h]
    rfl
  · rw [makeImageStatistics, cutValues_bins bins, h]
    rfl

theorem cut_statistics_iff (W : ℕ) [NeZero W] (team : CutTeam) (obj : CubeObject) (hdepth : 1 < obj.header.depth)
    (bins hist : ℕ → UInt32) (img : MaskedImage) (hvalid : 0 < validCount img.mask) :
    CutAgrees W team obj bins hist img ↔
      HasStatistics team obj img ∧ ∀ c, cutValues W team obj bins img = some c → SameLevels obj c := by
  constructor
  · rintro ⟨s, hcube, himage, -⟩
    obtain ⟨c, hc⟩ : ∃ c, cutValues W team obj bins img = some c := by
      rw [makeCubeStatistics] at hcube
      cases h : cutValues W team obj bins img with
      | none => simp [h] at hcube
      | some c => exact ⟨c, rfl⟩
    refine ⟨hasStatistics_of_cutValues hdepth hvalid hc, fun c' hc' => ?_⟩
    cases hc.symm.trans hc'
    obtain ⟨h1, h2⟩ := statistics_of_values hc hist
    have hiff : levels W team obj img c obj.median = levels W team obj img c c.median ↔ SameLevels obj c := levels_eq_iff c
    rw [← hiff]
    exact Option.some.inj (h1.symm.trans (hcube.trans (himage.symm.trans h2)))
  · rintro ⟨hstat, hsame⟩
    obtain ⟨c, hc, ho⟩ : ∃ c, cutValues W team obj bins img = some c ∧ c.Ordered :=
      cutValues_of_hasStatistics hdepth hvalid hstat
    obtain ⟨h1, h2⟩ := statistics_of_values hc hist
    rw [(levels_eq_iff c).mpr (hsame c hc)] at h1
    exact ⟨_, h1, h2, levels_enclose ho⟩

/-! ## A cut unlike its cube -/

def alone : CutTeam where
  ipp := addWords
  max_threads := 1
  schedule := fun _ => 0
  order := List.range
  stack := fun _ _ => 0
  some_thread := by decide
  in_team := fun _ => by decide
  every_chunk := fun _ => List.Perm.refl _

def radioCube (m : ℚ) : CubeObject where
  header := { depth := 2, is_optical := false }
  median := m
  dmin := 0
  dmax := 0

def threePixels : MaskedImage where
  pixels := [1, 2, 3]
  mask := [255, 255, 255]
  same_size := rfl

theorem cutValues_stored (m : ℚ) : cutValues W team { obj with median := m } bins img = cutValues W team obj bins img := rfl

theorem threePixels_statistics : HasStatistics alone (radioCube 0) threePixels := ⟨by decide, by decide, by decide +kernel⟩

theorem threePixels_values (bins : ℕ → UInt32) :
    ∃ c, cutValues 1 alone (radioCube 0) bins threePixels = some c ∧ c.pmin = 1 ∧ c.pmax = 3 ∧ c.median = 2 ∧
      c.madP = 1 ∧ c.madN = 1 := by
  have hcopied : (radioCube 0).copied threePixels = [some 1, some 2, some 3] := by decide +kernel
  have hprune : deNaN [some 1, some 2, some 3] = [some 1, some 2, some 3] := by simp [deNaN, deNaNLoop, valueAt]
  have hfacts : stlMedian [some 1, some 2, some 3] = some 2 ∧ (radioCube 0).range alone threePixels = (1, 3) ∧
      (alone.deviations 1 ((radioCube 0).scaled threePixels) 2).means = (2 / 3, 1, 1) := by
    decide +kernel
  obtain ⟨hmedian, hrange, hmeans⟩ := hfacts
  refine ⟨valuesAround 1 alone (radioCube 0) bins threePixels [some 1, some 2, some 3] 2, ?_, ?_⟩
  · rw [cutValues, if_neg (by decide), hcopied, hprune]
    simp only
    rw [if_neg (by decide), hmedian, Option.map_some]
  · simp only [valuesAround, hrange, hmeans, and_self]

/-- The cube's median, 100, puts black at 92.5 and white at 3, the brightest pixel. -/
theorem a_stale_median :
    (∃ s, (makeCubeStatistics 1 alone (radioCube 100) (fun _ => 0) threePixels).map Prod.fst = some s ∧ s.median = 2 ∧
      s.black = 185 / 2 ∧ s.white = 3) ∧ ¬ CutAgrees 1 alone (radioCube 100) (fun _ => 0) (fun _ => 0) threePixels := by
  obtain ⟨c, hc, hmin, hmax, hmedian, hP, hN⟩ := threePixels_values fun _ => 0
  have hcube : (makeCubeStatistics 1 alone (radioCube 100) (fun _ => 0) threePixels).map Prod.fst =
      some (levels 1 alone (radioCube 100) threePixels c 100) :=
    (@statistics_of_values 1 _ alone (radioCube 100) threePixels (fun _ => 0) c
      ((@cutValues_stored 1 _ alone (radioCube 0) threePixels (fun _ => 0) 100).trans hc) fun _ => 0).1
  have hu : (radioCube 100).u = 15 / 2 := rfl
  have hblack : (levels 1 alone (radioCube 100) threePixels c 100).black = 185 / 2 := by
    norm_num [levels, hmin, hN, hu]
  have hwhite : (levels 1 alone (radioCube 100) threePixels c 100).white = 3 := by
    norm_num [levels, hmax, hP, hu]
  refine ⟨⟨_, hcube, hmedian, hblack, hwhite⟩, ?_⟩
  rintro ⟨s, hs, -, hle, -⟩
  cases hcube.symm.trans hs
  rw [hblack, show (levels 1 alone (radioCube 100) threePixels c 100).median = 2 from hmedian] at hle
  norm_num at hle

/-- A stored median that is not the cut's, near enough for levels at the ends of the range. -/
theorem a_close_median : CutAgrees 1 alone (radioCube 3) (fun _ => 0) (fun _ => 0) threePixels := by
  refine (cut_statistics_iff 1 alone (radioCube 3) (by decide) (fun _ => 0) (fun _ => 0) threePixels (by decide)).mpr
    ⟨⟨by decide, by decide, threePixels_statistics.finite⟩, fun c hc => ?_⟩
  obtain ⟨c', hc', hmin, hmax, hmedian, hP, hN⟩ := threePixels_values fun _ => 0
  cases hc.symm.trans ((@cutValues_stored 1 _ alone (radioCube 0) threePixels (fun _ => 0) 3).trans hc')
  have hu : (radioCube 3).u = 15 / 2 := rfl
  have hm : (radioCube 3).median = 3 := rfl
  right
  rw [hmin, hmax, hmedian, hP, hN, hu, hm]
  norm_num

end FitsWebQL
