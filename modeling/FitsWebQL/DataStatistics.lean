/-
  FitsWebQL.DataStatistics — the statistics of a whole cube (`make_data_statistics`), from
  the threads' histograms. Each of their bins goes with its count to the cell that its
  centre is in, of a histogram from `dmin` to `dmax`; the median is where the cells reach
  half of the total, and the deviations are means over the cells on its two sides.

  The axis cannot be made when `dmin` is `dmax`. A bin that grew past an end has its centre
  outside, so has the bin that the largest pixel of a thread's first frame is in, and the
  total has the cells outside that the walk does not pass: it may run off the end, and the
  median is then above `dmax`.

  Proved, for every cube with a valid pixel and every way it was loaded:
  - `data_statistics_defined_iff`: the statistics are there and in their ranges exactly when
    the pixels differ and half of what the threads counted has its centre from `dmin` to
    before `dmax`.
  - `counted_inside`: of the frame a histogram was made from, the pixels below its maximum have.
  - `constant_cube_raises`.
-/

import FitsWebQL.ThreadHistograms

namespace FitsWebQL

open Lib.Bins

structure DataStatistics where
  data_median : ℚ
  data_madP : ℚ
  data_madN : ℚ

def mergedEntries (max_threads : ℕ) (hist_pool : ℕ → Option Growing) : List (ℚ × ℕ) :=
  (List.range max_threads).flatMap fun t => ((hist_pool t).map Growing.centres).getD []

def dataCells (entries : List (ℚ × ℕ)) (dmin dmax : ℚ) : List (ℚ × ℕ) :=
  (List.range NBINS2).map fun i : ℕ => (dmin + ((i : ℚ) + 1 / 2) * ((dmax - dmin) / NBINS2), cellCount NBINS2 dmin dmax entries i)

def sideDeviation (cells : List (ℚ × ℕ)) (data_median : ℚ) (side : ℚ → Bool) : ℚ :=
  let cells := cells.filter fun x => side x.1
  let mad := (cells.map fun x => |x.1 - data_median| * x.2).sum
  let count := (cells.map fun x => (x.2 : ℚ)).sum
  if 0 < count then mad / count else mad

/-- `none` is the exception of an axis with equal bounds. -/
def makeDataStatistics (max_threads : ℕ) (hist_pool : ℕ → Option Growing) (dmin dmax : ℚ) : Option DataStatistics :=
  if dmin = dmax then none
  else
    let entries := mergedEntries max_threads hist_pool
    let cells := dataCells entries dmin dmax
    let sum_all : ℚ := sumAll entries
    -- the approximate position of the median
    let pos := walk (1 / 2 * sum_all) (cells.map Prod.snd) 0
    let dx := (dmax - dmin) / (NBINS2 * 2 : ℕ)
    let data_median := dmin + (2 * pos + 1 : ℕ) * dx
    some ⟨data_median, sideDeviation cells data_median fun centre => centre > data_median,
      sideDeviation cells data_median fun centre => centre < data_median⟩

structure CountedCube where
  cube : List LoadedFrame
  loading : CubeLoading cube
  hist_pool : ℕ → Option Growing
  loaded : loading.histPool regularHistogram = some hist_pool
  dmin : ℚ
  dmax : ℚ
  least : IsLeast {v | ∃ f ∈ cube, v ∈ f.pixels.values} dmin
  greatest : IsGreatest {v | ∃ f ∈ cube, v ∈ f.pixels.values} dmax

namespace CountedCube

variable (c : CountedCube)

def entries : List (ℚ × ℕ) := mergedEntries c.loading.max_threads c.hist_pool

def statistics : Option DataStatistics := makeDataStatistics c.loading.max_threads c.hist_pool c.dmin c.dmax

/-- No exception, the median between the bounds, no negative deviation. -/
def Defined : Prop :=
  ∃ s, c.statistics = some s ∧ (c.dmin ≤ s.data_median ∧ s.data_median ≤ c.dmax) ∧ 0 ≤ s.data_madP ∧ 0 ≤ s.data_madN

end CountedCube

/-! ## Ranges -/

theorem sideDeviation_nonneg (cells : List (ℚ × ℕ)) (data_median : ℚ) (side : ℚ → Bool) : 0 ≤ sideDeviation cells data_median side := by
  have hmad : 0 ≤ ((cells.filter fun x => side x.1).map fun x => |x.1 - data_median| * x.2).sum := by
    refine List.sum_nonneg fun d hd => ?_
    obtain ⟨x, -, rfl⟩ := List.mem_map.mp hd
    exact mul_nonneg (abs_nonneg _) (Nat.cast_nonneg _)
  unfold sideDeviation
  dsimp only
  split
  · rename_i hcount
    exact div_nonneg hmad hcount.le
  · exact hmad

/-- The middle of cell `pos`; one past the last is above. -/
theorem median_range {dmin dmax : ℚ} (hlt : dmin < dmax) (pos : ℕ) :
    dmin ≤ dmin + (2 * pos + 1 : ℕ) * ((dmax - dmin) / (NBINS2 * 2 : ℕ)) ∧
      (dmin + (2 * pos + 1 : ℕ) * ((dmax - dmin) / (NBINS2 * 2 : ℕ)) ≤ dmax ↔ pos < NBINS2) := by
  have hcells : (0 : ℚ) < (NBINS2 * 2 : ℕ) := by exact_mod_cast (by decide : 0 < NBINS2 * 2)
  obtain ⟨dx, hdx⟩ : ∃ dx, (dmax - dmin) / (NBINS2 * 2 : ℕ) = dx := ⟨_, rfl⟩
  have hpos : 0 < dx := by
    rw [← hdx]
    exact div_pos (sub_pos.mpr hlt) hcells
  have hmax : dmax = dmin + (NBINS2 * 2 : ℕ) * dx := by
    rw [← hdx, mul_div_cancel₀ _ hcells.ne']
    ring
  rw [hdx]
  constructor
  · have hnonneg : 0 ≤ ((2 * pos + 1 : ℕ) : ℚ) * dx := mul_nonneg (Nat.cast_nonneg _) hpos.le
    linarith
  · rw [hmax, add_le_add_iff_left, mul_le_mul_iff_left₀ hpos, Nat.cast_le]
    omega

theorem makeDataStatistics_equal (max_threads : ℕ) (hist_pool : ℕ → Option Growing) (d : ℚ) :
    makeDataStatistics max_threads hist_pool d d = none := by
  unfold makeDataStatistics
  rw [if_pos rfl]

/-- The deviations are never negative. -/
theorem makeDataStatistics_of_ne (max_threads : ℕ) (hist_pool : ℕ → Option Growing) {dmin dmax : ℚ} (hne : dmin ≠ dmax) :
    ∃ s, makeDataStatistics max_threads hist_pool dmin dmax = some s ∧ 0 ≤ s.data_madP ∧ 0 ≤ s.data_madN := by
  unfold makeDataStatistics
  rw [if_neg hne]
  refine ⟨_, rfl, ?_, ?_⟩
  · dsimp only
    exact sideDeviation_nonneg _ _ _
  · dsimp only
    exact sideDeviation_nonneg _ _ _

theorem makeDataStatistics_median {max_threads : ℕ} {hist_pool : ℕ → Option Growing} {dmin dmax : ℚ} (hlt : dmin < dmax)
    {s : DataStatistics} (hs : makeDataStatistics max_threads hist_pool dmin dmax = some s) :
    dmin ≤ s.data_median ∧ (s.data_median ≤ dmax ↔
      sumAll (mergedEntries max_threads hist_pool) ≤ 2 * inner dmin dmax (mergedEntries max_threads hist_pool)) := by
  unfold makeDataStatistics at hs
  rw [if_neg hlt.ne, Option.some.injEq] at hs
  subst hs
  dsimp only
  generalize mergedEntries max_threads hist_pool = entries
  obtain ⟨hlow, hhigh⟩ := median_range hlt (walk (1 / 2 * (sumAll entries : ℚ)) ((dataCells entries dmin dmax).map Prod.snd) 0)
  refine ⟨hlow, hhigh.trans ?_⟩
  have hcounts : (dataCells entries dmin dmax).map Prod.snd = (List.range NBINS2).map (cellCount NBINS2 dmin dmax entries) := by
    unfold dataCells
    rw [List.map_map]
    rfl
  have hlength : ((List.range NBINS2).map (cellCount NBINS2 dmin dmax entries)).length = NBINS2 := by
    rw [List.length_map, List.length_range]
  have hwalk := walk_lt_iff (1 / 2 * (sumAll entries : ℚ)) ((List.range NBINS2).map (cellCount NBINS2 dmin dmax entries)) 0
  rw [hlength, sum_cellCount (by decide) hlt] at hwalk
  rw [hcounts, hwalk]
  have hhalf : 1 / 2 * (sumAll entries : ℚ) ≤ 0 + (inner dmin dmax entries : ℕ) ↔ sumAll entries ≤ 2 * inner dmin dmax entries := by
    rw [← Nat.cast_le (α := ℚ), Nat.cast_mul]
    push_cast
    constructor <;> intro h <;> linarith
  rw [hhalf]
  refine and_iff_right fun hnil => ?_
  rw [hnil] at hlength
  exact absurd hlength (by decide)

/-! ## Exactly when -/

theorem data_statistics_defined_iff (c : CountedCube) :
    c.Defined ↔ c.dmin ≠ c.dmax ∧ sumAll c.entries ≤ 2 * inner c.dmin c.dmax c.entries := by
  have hle : c.dmin ≤ c.dmax := c.least.2 c.greatest.1
  constructor
  · intro h
    obtain ⟨s, hs, ⟨-, hmax⟩, -⟩ := h
    have hne : c.dmin ≠ c.dmax := by
      intro heq
      have hraises : c.statistics = none := by
        unfold CountedCube.statistics
        rw [heq, makeDataStatistics_equal]
      rw [hraises] at hs
      cases hs
    exact ⟨hne, (makeDataStatistics_median (lt_of_le_of_ne hle hne) hs).2.mp hmax⟩
  · intro h
    obtain ⟨hne, hhalf⟩ := h
    obtain ⟨s, hs, hmad⟩ := makeDataStatistics_of_ne c.loading.max_threads c.hist_pool hne
    obtain ⟨hlow, hhigh⟩ := makeDataStatistics_median (lt_of_le_of_ne hle hne) hs
    exact ⟨s, hs, ⟨hlow, hhigh.mpr hhalf⟩, hmad⟩

/-- Of the frame a histogram is made from, the pixels at the maximum are counted outside the
    bounds, all others inside. -/
theorem counted_inside {f : LoadedFrame} (hlt : f.frame_min < f.frame_max) (hfar : fpzero |f.frame_max - f.frame_min| = false)
    {hist : Growing} (hist_eq : updateThreadHistogram regularHistogram none f = some (some hist)) :
    inner f.frame_min f.frame_max hist.centres = f.pixels.values.countP fun v => v ≠ f.frame_max := by
  have hbounds : f.axisBounds = (f.frame_min, f.frame_max) := by
    unfold LoadedFrame.axisBounds
    rw [hfar]
    rfl
  obtain ⟨h, hmake, -⟩ := @Growing.make_isSome NBINS2 _ _ hlt.ne
  obtain ⟨hbin, hcentre⟩ := Growing.bin_stop (by decide) hmake
  have hfill : hist = h.fill f.pixels.values := by
    have hnone : regularHistogram.make f.frame_min f.frame_max = some h := hmake
    unfold updateThreadHistogram at hist_eq
    dsimp only at hist_eq
    split at hist_eq
    · cases hist_eq
    · split at hist_eq
      · cases hist_eq
      · rw [hbounds, hnone] at hist_eq
        exact (Option.some.inj (Option.some.inj hist_eq)).symm
  obtain ⟨hstep, hempty⟩ := Growing.step_make hmake
  rw [hfill, inner_fill, inner_empty _ _ hempty, Nat.zero_add]
  refine List.countP_congr fun v hv => ?_
  rw [decide_eq_true_eq, decide_eq_true_eq]
  constructor
  · rintro hin rfl
    rw [hbin, hcentre] at hin
    have hpos : 0 < h.step := by
      rw [hstep]
      exact div_pos (sub_pos.mpr hlt) (by exact_mod_cast (by decide : 0 < NBINS2))
    linarith [hin.2]
  · intro hne
    obtain ⟨hmin, hmax⟩ := f.bounds v hv
    exact Growing.bin_inside (by decide) hlt hmake ⟨hmin, lt_of_le_of_ne hmax hne⟩

def lowFrame : LoadedFrame where
  pixels := .masked [1, 1, 2] [255, 255, 255]
  frame_min := 1
  frame_max := 2
  bounds := by decide

/-- Two of its three pixels are counted inside. -/
theorem low_frame_counted :
    ∃ c : CountedCube, c.cube = [lowFrame] ∧ c.dmin ≠ c.dmax ∧ sumAll c.entries ≤ 2 * inner c.dmin c.dmax c.entries := by
  have hfar : fpzero |lowFrame.frame_max - lowFrame.frame_min| = false := by decide +kernel
  obtain ⟨h, hmake, htotal⟩ := @Growing.make_isSome NBINS2 1 2 (by decide)
  have hupdate : updateThreadHistogram regularHistogram none lowFrame = some (some (h.fill [1, 1, 2])) := by
    have hbounds : lowFrame.axisBounds = (1, 2) := by
      unfold LoadedFrame.axisBounds
      rw [hfar]
      rfl
    have hzero : (fpzero lowFrame.frame_min && fpzero lowFrame.frame_max) = false := by decide +kernel
    have hnone : regularHistogram.make 1 2 = some h := hmake
    unfold updateThreadHistogram
    dsimp only
    rw [if_neg (by decide), hzero, hbounds, hnone]
    rfl
  have hinner := counted_inside (by decide) hfar hupdate
  have hsum : sumAll (h.fill [1, 1, 2]).centres = 3 := by
    have hfill := Growing.total_fill h [1, 1, 2]
    rw [htotal] at hfill
    unfold sumAll Growing.centres
    rw [List.map_map]
    exact hfill
  have hvalues : lowFrame.pixels.values = [1, 1, 2] := rfl
  have hne : (1 : ℚ) ≠ 2 := by decide
  refine ⟨⟨[lowFrame], inOrder _, Function.update (fun _ => none) 0 (some (h.fill [1, 1, 2])), ?_, 1, 2, ?_, ?_⟩, rfl, hne, ?_⟩
  · show (List.foldlM (HistogramCall.run regularHistogram) (fun _ => none) [⟨0, lowFrame⟩]) = _
    rw [List.foldlM_cons, HistogramCall.run, hupdate]
    rfl
  · simp [IsLeast, lowerBounds, hvalues]
  · simp [IsGreatest, upperBounds, hvalues]
  · have hentries : mergedEntries 1 (Function.update (fun _ => none) 0 (some (h.fill [1, 1, 2]))) = (h.fill [1, 1, 2]).centres := by
      simp [mergedEntries]
    show sumAll (mergedEntries 1 _) ≤ 2 * inner 1 2 (mergedEntries 1 _)
    rw [hentries, hsum, show inner 1 2 (h.fill [1, 1, 2]).centres = 2 from hinner]
    decide

/-- Two frames of one pixel, both 1. -/
theorem constant_cube_raises :
    ∃ c : CountedCube, c.cube = [constantFrame, constantFrame] ∧ c.dmin = 1 ∧ c.dmax = 1 ∧ c.statistics = none ∧ ¬ c.Defined := by
  obtain ⟨hist_pool, hrun, -⟩ := run_counts regularHistogram (inOrder [constantFrame, constantFrame]).calls
    (fun d hd hblank => axis_bounds_differ hblank (Or.inl (by
      obtain ⟨f, hf, rfl⟩ := List.mem_map.mp hd
      rcases List.mem_pair.mp hf with rfl | rfl
      · exact zero_le_one
      · exact zero_le_one)))
    fun _ => none
  have hvalues : ∀ v, (∃ f ∈ [constantFrame, constantFrame], v ∈ f.pixels.values) ↔ v = 1 := by
    intro v
    have hone : constantFrame.pixels.values = [1] := rfl
    simp [hone]
  have hraises := makeDataStatistics_equal 1 hist_pool 1
  refine ⟨⟨[constantFrame, constantFrame], inOrder _, hist_pool, hrun, 1, 1, ⟨(hvalues 1).mpr rfl, fun v hv => ((hvalues v).mp hv).ge⟩,
    ⟨(hvalues 1).mpr rfl, fun v hv => ((hvalues v).mp hv).le⟩⟩, rfl, rfl, rfl, hraises, ?_⟩
  intro h
  obtain ⟨s, hs, -⟩ := h
  exact absurd (hs.symm.trans hraises) nofun

end FitsWebQL
