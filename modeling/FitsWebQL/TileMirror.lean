/-
  FitsWebQL.TileMirror — `tileMirror32f_C1R`: an image copied upside down by rows, a span of
  them for each thread. The kernel `copy_mirror_float32` copies each pair of rows to each
  other's place and no middle row, and every thread calls it with the height of the whole
  image instead of its span's (`tileHeight` is computed and not used).

  The kernel's indices and the offsets of the spans are 32-bit and signed.

  Proved, for every width, height and number of threads:
  - `tileMirror_flips_iff`: every pixel written once, and the image upside down, exactly when
    there is no pixel, or the height is even, one thread runs and the indices fit.
  - `tileMirror_one_pixel`: one pixel is never written.
-/

import FitsWebQL.Lib.Rows

namespace FitsWebQL

open Lib.Scatter Lib.Rows

def copyMirrorFloat32 (src : ℕ → ℚ) (base width height : ℕ) : List (ℕ × ℚ) :=
  writeBoth (upper width base) (lower width height base) (fun x => src (lower width height base x))
    (fun x => src (upper width base x)) (half width height)

def mirrorThread (src : ℕ → ℚ) (width height numThreads tid : ℕ) : List (ℕ × ℚ) :=
  let slice := height / numThreads
  copyMirrorFloat32 src (tid * slice * width) width height

def MirrorInts (width height numThreads : ℕ) : Prop :=
  (∀ tid < numThreads, tid * (height / numThreads) * width < 2 ^ 31) ∧ ∀ x ∈ half width height, lower width height 0 x < 2 ^ 31

instance (width height numThreads : ℕ) : Decidable (MirrorInts width height numThreads) :=
  inferInstanceAs (Decidable (_ ∧ _))

/-- The stores of all threads, `none` on overflow. -/
def tileMirror32f (src : ℕ → ℚ) (width height numThreads : ℕ) : Option (List (ℕ × ℚ)) :=
  if MirrorInts width height numThreads then some ((List.range numThreads).flatMap (mirrorThread src width height numThreads))
  else none

/-- `dst(x, height-1-y) = src(x, y)`, every pixel stored once, in whatever order the threads and lanes run. -/
def FlipsVertically (width height numThreads : ℕ) : Prop :=
  ∀ src dst : ℕ → ℚ, ∃ stores, tileMirror32f src width height numThreads = some stores ∧
    ∀ ws : List (ℕ × ℚ), ws.Perm stores →
      (∀ p < width * height, hits p ws = 1) ∧
        ∀ y < height, ∀ x < width, store ws dst (place width (height - 1 - y) x) = src (place width y x)

/-! ## What one thread writes -/

def CoversRow (height slice tid y : ℕ) : Prop := tid * slice ≤ y ∧ y < tid * slice + height ∧ 2 * (y - tid * slice) + 1 ≠ height

instance (height slice tid y : ℕ) : Decidable (CoversRow height slice tid y) := inferInstanceAs (Decidable (_ ∧ _ ∧ _))

variable {width height numThreads : ℕ}

/-- Each store is a row's, from the row it is exchanged with. -/
theorem mem_mirrorThread (src : ℕ → ℚ) {tid : ℕ} {w : ℕ × ℚ} :
    w ∈ mirrorThread src width height numThreads tid ↔
      ∃ r < height, ∃ c < width, 2 * r + 1 ≠ height ∧
        w = (place width (tid * (height / numThreads) + r) c, src (place width (tid * (height / numThreads) + (height - 1 - r)) c)) := by
  unfold mirrorThread copyMirrorFloat32
  rw [mem_writeBoth]
  unfold upper lower
  simp only [place_add]
  constructor
  · intro hmem
    rcases hmem with ⟨x, hx, rfl | rfl⟩
    · obtain ⟨hr, hc⟩ := mem_cells.mp hx
      exact ⟨x.1, by omega, x.2, hc, by omega, rfl⟩
    · obtain ⟨hr, hc⟩ := mem_cells.mp hx
      refine ⟨height - 1 - x.1, by omega, x.2, hc, by omega, ?_⟩
      rw [show height - 1 - (height - 1 - x.1) = x.1 by omega]
  · intro hrow
    obtain ⟨r, hr, c, hc, hmiddle, rfl⟩ := hrow
    rcases Nat.lt_or_ge r (height / 2) with h | h
    · exact ⟨(r, c), mem_cells.mpr ⟨h, hc⟩, Or.inl rfl⟩
    · refine ⟨(height - 1 - r, c), mem_cells.mpr ⟨by dsimp only; omega, hc⟩, Or.inr ?_⟩
      rw [show height - 1 - (height - 1 - r) = r by omega]

theorem hits_mirrorThread (src : ℕ → ℚ) (tid : ℕ) {y x : ℕ} (hx : x < width) :
    hits (place width y x) (mirrorThread src width height numThreads tid) =
      if CoversRow height (height / numThreads) tid y then 1 else 0 := by
  unfold mirrorThread copyMirrorFloat32
  dsimp only
  rw [hits_writeBoth (nodup_half width height) (half_apart width height _)]
  refine if_congr ?_ rfl rfl
  unfold CoversRow
  generalize tid * (height / numThreads) = s
  rcases Nat.lt_or_ge y s with hy | hy
  · -- above the thread's span
    have habove : ∀ r c, place width y x ≠ s * width + place width r c := by
      intro r c heq
      have hbefore : (y + 1) * width ≤ s * width := Nat.mul_le_mul_right width hy
      unfold place at heq
      rw [Nat.succ_mul] at hbefore
      omega
    refine iff_of_false ?_ fun h => by omega
    intro hpair
    rcases hpair with ⟨z, -, h | h⟩
    · exact habove _ _ h
    · exact habove _ _ h
  · have hsplit : place width y x = s * width + place width (y - s) x := by
      rw [place_add, Nat.add_sub_of_le hy]
    rw [hsplit, exists_half (s * width) hx]
    omega

/-! ## All threads -/

theorem tileMirror32f_eq_some {src : ℕ → ℚ} {stores : List (ℕ × ℚ)} :
    tileMirror32f src width height numThreads = some stores ↔
      MirrorInts width height numThreads ∧ (List.range numThreads).flatMap (mirrorThread src width height numThreads) = stores := by
  unfold tileMirror32f
  rw [Option.ite_none_right_eq_some, Option.some.injEq]

theorem hits_threads (src : ℕ → ℚ) (numThreads : ℕ) {y x : ℕ} (hx : x < width) :
    hits (place width y x) ((List.range numThreads).flatMap (mirrorThread src width height numThreads)) =
      ∑ tid ∈ Finset.range numThreads, if CoversRow height (height / numThreads) tid y then 1 else 0 := by
  rw [hits_flatMap, List.map_congr_left fun tid _ => hits_mirrorThread src tid hx]
  rfl

/-- Two threads write a row twice. -/
theorem two_le_hits {slice y a b : ℕ} (hab : a < b) (hb : b < numThreads) (ha : CoversRow height slice a y)
    (hcb : CoversRow height slice b y) :
    2 ≤ ∑ tid ∈ Finset.range numThreads, if CoversRow height slice tid y then 1 else 0 := by
  have hsub : ({a, b} : Finset ℕ) ⊆ Finset.range numThreads := by
    intro t ht
    rw [Finset.mem_insert, Finset.mem_singleton] at ht
    rw [Finset.mem_range]
    omega
  calc 2 = ∑ tid ∈ ({a, b} : Finset ℕ), if CoversRow height slice tid y then 1 else 0 := by
        rw [Finset.sum_pair hab.ne, if_pos ha, if_pos hcb]
    _ ≤ _ := Finset.sum_le_sum_of_subset hsub

/-- Two threads or more: a row that is written twice, or not at all, unless two threads have three rows. -/
theorem covers_twice (hpos : 0 < height) (hn : 2 ≤ numThreads) (hthree : ¬ (height = 3 ∧ numThreads = 2)) :
    ∃ y < height, (∑ tid ∈ Finset.range numThreads, if CoversRow height (height / numThreads) tid y then 1 else 0) ≠ 1 := by
  have twice : ∀ y a b, a < b → b < numThreads → CoversRow height (height / numThreads) a y → CoversRow height (height / numThreads) b y →
      (∑ tid ∈ Finset.range numThreads, if CoversRow height (height / numThreads) tid y then 1 else 0) ≠ 1 := by
    intro y a b hab hb ha hcb h
    have := two_le_hits hab hb ha hcb
    omega
  have hslice := Nat.div_add_mod height numThreads
  have hrest := Nat.mod_lt height (show 0 < numThreads by omega)
  generalize hs : height / numThreads = s at *
  have hlt : s < height := by
    rw [← hs]
    exact Nat.div_lt_self hpos hn
  by_cases hone : height = 1
  · -- one row is its own middle
    have hs0 : s = 0 := by omega
    subst hone hs0
    refine ⟨0, by omega, ?_⟩
    rw [Finset.sum_eq_zero fun tid _ => if_neg fun h : CoversRow 1 0 tid 0 => h.2.2 (by omega)]
    omega
  · by_cases hmiddle : 2 * s + 1 = height
    · by_cases hs2 : 2 ≤ s
      · exact ⟨s + 1, by omega, twice (s + 1) 0 1 (by omega) (by omega) ⟨by omega, by omega, by omega⟩ ⟨by omega, by omega, by omega⟩⟩
      · -- three rows, three threads
        have hs1 : s = 1 := by omega
        subst hs1
        have hheight : height = 3 := by omega
        have hthreads : numThreads = 3 := by omega
        subst hheight hthreads
        exact ⟨2, by omega, twice 2 0 2 (by omega) (by omega) ⟨by omega, by omega, by omega⟩ ⟨by omega, by omega, by omega⟩⟩
    · exact ⟨s, hlt, twice s 0 1 (by omega) (by omega) ⟨by omega, by omega, by omega⟩ ⟨by omega, by omega, by omega⟩⟩

/-! ## Exactly when -/

/-- No pixel. -/
theorem flips_empty (h : width * height = 0) : FlipsVertically width height numThreads := by
  have hnone : ∀ y < height, ¬ 0 < width := fun y hy hw => by
    have hpos := Nat.mul_pos hw (Nat.zero_lt_of_lt hy)
    omega
  have hints : MirrorInts width height numThreads := by
    refine ⟨fun tid _ => ?_, fun x hx => ?_⟩
    · rcases Nat.mul_eq_zero.mp h with rfl | rfl
      · rw [Nat.mul_zero]
        norm_num
      · rw [Nat.zero_div, Nat.mul_zero, Nat.zero_mul]
        norm_num
    · obtain ⟨hr, hc⟩ := mem_cells.mp hx
      exact absurd (Nat.zero_lt_of_lt hc) (hnone x.1 (by omega))
  refine fun src dst => ⟨_, if_pos hints, fun ws _ => ⟨fun p hp => ?_, fun y hy x hx => ?_⟩⟩
  · omega
  · exact absurd (Nat.zero_lt_of_lt hx) (hnone y hy)

/-- The places of the last row fit. -/
theorem mirrorInts_one (h : width * height ≤ 2 ^ 31) : MirrorInts width height 1 := by
  refine ⟨fun tid htid => ?_, fun x hx => ?_⟩
  · rw [show tid = 0 by omega, Nat.zero_mul, Nat.zero_mul]
    norm_num
  · obtain ⟨hr, hc⟩ := mem_cells.mp hx
    have hlast : place width (height - 1 - x.1) x.2 < width * height := place_lt (by omega) hc
    unfold lower
    omega

theorem flips_one (heven : Even height) (hsize : width * height ≤ 2 ^ 31) : FlipsVertically width height 1 := by
  intro src dst
  refine ⟨_, if_pos (mirrorInts_one hsize), fun ws hperm => ⟨fun p hp => ?_, fun y hy x hx => ?_⟩⟩
  · obtain ⟨r, hr, c, hc, rfl⟩ := exists_place hp
    obtain ⟨k, rfl⟩ := heven
    have hperm' : hits (place width r c) ws = _ := (hperm.map fun w : ℕ × ℚ => if place width r c = w.1 then 1 else 0).sum_eq
    rw [hperm']
    refine (hits_threads src 1 hc).trans ?_
    rw [Finset.sum_range_one, if_pos ⟨by omega, by omega, by omega⟩]
  · have hmem : ∀ w, w ∈ ws ↔ ∃ r < height, ∃ c < width, 2 * r + 1 ≠ height ∧
        w = (place width r c, src (place width (height - 1 - r) c)) := by
      intro w
      rw [hperm.mem_iff, List.range_one, List.flatMap_singleton, mem_mirrorThread]
      simp only [Nat.zero_mul, Nat.zero_add]
    obtain ⟨k, rfl⟩ := heven
    refine store_mem ws dst _ _ ((hmem _).mpr ⟨k + k - 1 - y, by omega, x, hx, by omega, ?_⟩) fun w hw he => ?_
    · rw [show k + k - 1 - (k + k - 1 - y) = y by omega]
    · obtain ⟨r, hr, c, hc, -, rfl⟩ := (hmem w).mp hw
      obtain ⟨h1, h2⟩ := place_inj hc hx he
      rw [h1, h2, show k + k - 1 - (k + k - 1 - y) = y by omega]

/-- Three rows and two threads: each row is written once, the middle one from below the image. -/
theorem three_rows (hw : 0 < width) : ¬ FlipsVertically width 3 2 := by
  intro h
  obtain ⟨stores, hstores, hflips⟩ := h (fun p => p) fun _ => 0
  obtain ⟨-, rfl⟩ := tileMirror32f_eq_some.mp hstores
  have hrow := (hflips _ (List.Perm.refl _)).2 1 (by omega) 0 hw
  have hmem : ∀ w : ℕ × ℚ, w ∈ (List.range 2).flatMap (mirrorThread (fun p => p) width 3 2) ↔
      ∃ tid < 2, ∃ r < 3, ∃ c < width, 2 * r + 1 ≠ 3 ∧ w = (place width (tid + r) c, ((place width (tid + (2 - r)) c : ℕ) : ℚ)) := by
    intro w
    simp only [List.mem_flatMap, List.mem_range, mem_mirrorThread, show 3 / 2 = 1 from rfl, Nat.mul_one, show 3 - 1 = 2 from rfl]
  have hbelow : store ((List.range 2).flatMap (mirrorThread (fun p => p) width 3 2)) (fun _ => 0) (place width 1 0) =
      ((place width 3 0 : ℕ) : ℚ) := by
    refine store_mem _ _ _ _ ((hmem _).mpr ⟨1, by omega, 0, by omega, 0, hw, by omega, rfl⟩) fun w hw' he => ?_
    obtain ⟨tid, htid, r, hr, c, hc, hmiddle, rfl⟩ := (hmem w).mp hw'
    obtain ⟨h1, rfl⟩ := place_inj hc hw he
    obtain ⟨rfl, rfl⟩ : tid = 1 ∧ r = 0 := by omega
    rfl
  have heq : ((place width 3 0 : ℕ) : ℚ) = ((place width 1 0 : ℕ) : ℚ) := hbelow.symm.trans hrow
  have hplaces : place width 3 0 = place width 1 0 := by exact_mod_cast heq
  obtain ⟨h31, -⟩ := place_inj hw hw hplaces
  omega

theorem flips_row (h : FlipsVertically width height numThreads) {y : ℕ} (hy : y < height) (hw : 0 < width) :
    MirrorInts width height numThreads ∧
      (∑ tid ∈ Finset.range numThreads, if CoversRow height (height / numThreads) tid y then 1 else 0) = 1 := by
  obtain ⟨stores, hstores, hflips⟩ := h (fun _ => 0) fun _ => 0
  obtain ⟨hints, rfl⟩ := tileMirror32f_eq_some.mp hstores
  have hone := (hflips _ (List.Perm.refl _)).1 (place width y 0) (place_lt hy hw)
  rw [hits_threads _ _ hw] at hone
  exact ⟨hints, hone⟩

theorem tileMirror_flips_iff (width height numThreads : ℕ) :
    FlipsVertically width height numThreads ↔
      width = 0 ∨ height = 0 ∨ (Even height ∧ numThreads = 1 ∧ width * height ≤ 2 ^ 31) := by
  constructor
  · intro h
    rcases Nat.eq_zero_or_pos width with hw | hw
    · exact Or.inl hw
    rcases Nat.eq_zero_or_pos height with hh | hh
    · exact Or.inr (Or.inl hh)
    refine Or.inr (Or.inr ?_)
    match numThreads with
    | 0 =>
      obtain ⟨-, hnone⟩ := flips_row h hh hw
      simp at hnone
    | 1 =>
      have heven : Even height := by
        -- an odd height has a middle row
        rcases Nat.even_or_odd' height with ⟨k, rfl | rfl⟩
        · exact even_two_mul k
        · obtain ⟨-, hmiddle⟩ := flips_row h (show k < 2 * k + 1 by omega) hw
          rw [Finset.sum_range_one, if_neg fun hc => hc.2.2 (by omega)] at hmiddle
          omega
      refine ⟨heven, rfl, ?_⟩
      obtain ⟨⟨-, hints⟩, -⟩ := flips_row h hh hw
      have hlast := hints (0, width - 1) (mem_cells.mpr ⟨by obtain ⟨k, rfl⟩ := heven; dsimp only; omega, by dsimp only; omega⟩)
      have hplace : lower width height 0 (0, width - 1) + 1 = width * height := by
        unfold lower place
        obtain ⟨k, rfl⟩ : ∃ k, height = k + 1 := ⟨height - 1, by omega⟩
        rw [Nat.mul_add, Nat.mul_comm width k]
        dsimp only
        rw [show k + 1 - 1 - 0 = k by omega]
        omega
      omega
    | n + 2 =>
      exfalso
      by_cases hthree : height = 3 ∧ n + 2 = 2
      · obtain ⟨rfl, hn⟩ := hthree
        rw [hn] at h
        exact three_rows hw h
      · obtain ⟨y, hy, hne⟩ := covers_twice hh (show 2 ≤ n + 2 by omega) hthree
        exact hne (flips_row h hy hw).2
  · intro h
    rcases h with rfl | rfl | ⟨heven, rfl, hsize⟩
    · exact flips_empty (Nat.zero_mul height)
    · exact flips_empty (Nat.mul_zero width)
    · exact flips_one heven hsize

/-- One pixel, one thread. -/
theorem tileMirror_one_pixel : ¬ FlipsVertically 1 1 1 := by
  intro h
  obtain ⟨-, hone⟩ := flips_row h (show 0 < 1 by decide) (show 0 < 1 by decide)
  exact absurd hone (by decide)

end FitsWebQL
