/-
  FitsWebQL.Sensitivity — the search for the sensitivity that gives a dark image
  (`FITS::auto_brightness`, `fits.cpp`).

  The search halves a bracket: each step evaluates the brightness at the midpoint, moves an
  end of the bracket there, and stops when that brightness is near enough to the target.
  What it returns is the midpoint of the bracket after the move, which it never evaluated.

  The sensitivities it can try are the points of grids, the starting bracket cut into 2, 4,
  8 parts and so on. The one it stops at is the first inner point that meets the tolerance,
  of the coarsest grid that has one, and there is one only (`search_grid`,
  `met_is_midpoint`).

  Proved:
  - `search_brackets`: the target stays bracketed.
  - `search_hits_iff`: the sensitivity returned is near the target exactly when from the
    first grid point that meets the tolerance the sensitivities that do reach at least half
    a part of its grid further towards the target.
-/

import FitsWebQL.Brightness

namespace FitsWebQL

def target_brightness : ℚ := 1 / 10

/-- `0.1f * target_brightness`. -/
def tolerance : ℚ := 1 / 10 * target_brightness

def max_iter : ℕ := 20

structure Bracket where
  a : ℚ
  b : ℚ

def Bracket.mid (s : Bracket) : ℚ := 1 / 2 * (s.a + s.b)

/-- The end of the bracket that the brightness at the midpoint moves, if it moves one. -/
def Bracket.narrow (br : ℚ → ℚ) (s : Bracket) : Bracket where
  a := if br s.mid < target_brightness then s.mid else s.a
  b := if target_brightness < br s.mid then s.mid else s.b

/-- `fabs(target_brightness - brightness) < 0.1f * target_brightness`. -/
def near (brightness : ℚ) : Prop := |target_brightness - brightness| < tolerance

instance (brightness : ℚ) : Decidable (near brightness) := by
  unfold near
  infer_instance

/-- How a search ended: the brackets at the head and at the end of its last step, whether
    `break` ended it, and every bracket it went through. -/
structure Search where
  before : Bracket
  after : Bracket
  stopped : Bool
  trace : List Bracket

def search (br : ℚ → ℚ) : ℕ → Bracket → Search
  | 0, s => ⟨s, s.narrow br, decide (near (br s.mid)), [s, s.narrow br]⟩
  | n + 1, s =>
    if near (br s.mid) then ⟨s, s.narrow br, true, [s, s.narrow br]⟩
    else
      let rest := search br n (s.narrow br)
      { rest with trace := s :: rest.trace }

/-- The search a sensitivity leads to, if one is made: none for NaN (or an infinity, whose
    ends are infinite too), nor when the target is not between the ends. -/
def brightnessSearch (br : ℚ → ℚ) : Option ℚ → Option Search
  | none => none
  | some ratio_sensitivity =>
    let a := 1 / 100 * ratio_sensitivity
    let b := 100 * ratio_sensitivity
    if target_brightness < br a ∨ br b < target_brightness then none else some (search br max_iter ⟨a, b⟩)

/-- `auto_brightness`, `br` being `calculate_brightness` on the image. -/
def autoBrightness (br : ℚ → ℚ) (ratio_sensitivity : Option ℚ) : Option ℚ :=
  match brightnessSearch br ratio_sensitivity with
  | none => ratio_sensitivity
  | some s => some s.after.mid

/-! ## The target stays between the ends -/

def Bracket.Holds (br : ℚ → ℚ) (s : Bracket) : Prop := br s.a ≤ target_brightness ∧ target_brightness ≤ br s.b

variable {br : ℚ → ℚ}

theorem narrow_holds {s : Bracket} (h : s.Holds br) : (s.narrow br).Holds br := by
  obtain ⟨ha, hb⟩ := h
  refine ⟨?_, ?_⟩
  · unfold Bracket.narrow
    split
    · exact le_of_lt ‹_›
    · exact ha
  · simp only [Bracket.narrow]
    split
    · exact le_of_lt ‹_›
    · exact hb

theorem search_holds (n : ℕ) {s : Bracket} (h : s.Holds br) : ∀ t ∈ (search br n s).trace, t.Holds br := by
  induction n generalizing s with
  | zero => simp [search, h, narrow_holds h]
  | succ n ih =>
    unfold search
    split
    · simp [h, narrow_holds h]
    · simp only [List.mem_cons, forall_eq_or_imp]
      exact ⟨h, ih (narrow_holds h)⟩

theorem search_brackets {ratio : Option ℚ} {s : Search} (h : brightnessSearch br ratio = some s) :
    ∀ t ∈ s.trace, t.Holds br := by
  cases ratio with
  | none => cases h
  | some r =>
    simp only [brightnessSearch] at h
    split at h
    · cases h
    · rename_i hin
      rw [not_or, not_lt, not_lt] at hin
      cases h
      exact search_holds max_iter hin

/-- What the last step does. -/
theorem search_last (n : ℕ) (s : Bracket) :
    (search br n s).after = (search br n s).before.narrow br ∧ (search br n s).before ∈ (search br n s).trace ∧
      ((search br n s).stopped = true → near (br (search br n s).before.mid)) := by
  induction n generalizing s with
  | zero => simp [search]
  | succ n ih =>
    unfold search
    split
    · simp_all
    · obtain ⟨h1, h2, h3⟩ := ih (s.narrow br)
      exact ⟨h1, List.mem_cons_of_mem _ h2, h3⟩

/-! ## The point returned and the point evaluated -/

/-- Half a bracket on from the midpoint, towards the target, the brightness is still within
    the tolerance. -/
def StaysNear (br : ℚ → ℚ) (s : Bracket) : Prop :=
  (target_brightness < br s.mid → target_brightness - tolerance < br (1 / 2 * (s.a + s.mid))) ∧
    (br s.mid < target_brightness → br (1 / 2 * (s.mid + s.b)) < target_brightness + tolerance)

instance (br : ℚ → ℚ) (s : Bracket) : Decidable (StaysNear br s) := by
  unfold StaysNear
  infer_instance

theorem narrow_low {s : Bracket} (h : br s.mid < target_brightness) : s.narrow br = ⟨s.mid, s.b⟩ := by
  rw [Bracket.narrow, if_pos h, if_neg h.not_gt]

theorem narrow_high {s : Bracket} (h : target_brightness < br s.mid) : s.narrow br = ⟨s.a, s.mid⟩ := by
  rw [Bracket.narrow, if_neg h.not_gt, if_pos h]

theorem narrow_hit {s : Bracket} (h : br s.mid = target_brightness) : s.narrow br = s := by
  rw [Bracket.narrow, if_neg h.not_lt, if_neg h.not_gt]

theorem narrow_near_iff (hmono : Monotone br) {s : Bracket} (h : s.Holds br) (hnear : near (br s.mid)) :
    near (br (s.narrow br).mid) ↔ StaysNear br s := by
  obtain ⟨ha, hb⟩ := h
  obtain ⟨hlow, hhigh⟩ := abs_lt.mp hnear
  rcases lt_trichotomy (br s.mid) target_brightness with hlt | heq | hgt
  · have hmid : s.mid < s.b := by
      by_contra hle
      have := hmono (not_lt.mp hle)
      linarith
    have hx : s.mid ≤ 1 / 2 * (s.mid + s.b) := by linarith
    have hbr := hmono hx
    have hnarrow : (s.narrow br).mid = 1 / 2 * (s.mid + s.b) := by rw [narrow_low hlt, Bracket.mid]
    rw [hnarrow, near, abs_lt]
    constructor
    · intro hn
      refine ⟨fun h => absurd h hlt.not_gt, fun _ => ?_⟩
      linarith [hn.1]
    · intro hs
      have := hs.2 hlt
      constructor <;> linarith
  · rw [narrow_hit heq]
    refine ⟨fun _ => ⟨fun h => absurd heq h.ne', fun h => absurd heq h.ne⟩, fun _ => hnear⟩
  · have hmid : s.a < s.mid := by
      by_contra hle
      have := hmono (not_lt.mp hle)
      linarith
    have hx : 1 / 2 * (s.a + s.mid) ≤ s.mid := by linarith
    have hbr := hmono hx
    have hnarrow : (s.narrow br).mid = 1 / 2 * (s.a + s.mid) := by rw [narrow_high hgt, Bracket.mid]
    rw [hnarrow, near, abs_lt]
    constructor
    · intro hn
      refine ⟨fun _ => ?_, fun h => absurd h hgt.not_gt⟩
      linarith [hn.2]
    · intro hs
      have := hs.1 hgt
      constructor <;> linarith

/-! ## The grids of the starting bracket -/

def startBracket (ratio : ℚ) : Bracket := ⟨1 / 100 * ratio, 100 * ratio⟩

def part (ratio : ℚ) (k : ℕ) : ℚ := (100 * ratio - 1 / 100 * ratio) / 2 ^ k

def gridPoint (ratio : ℚ) (k j : ℕ) : ℚ := 1 / 100 * ratio + j * part ratio k

def gridBracket (ratio : ℚ) (k i : ℕ) : Bracket := ⟨gridPoint ratio k i, gridPoint ratio k (i + 1)⟩

/-- No inner point of the grids up to `2 ^ m` parts meets the tolerance. -/
def Unmet (br : ℚ → ℚ) (ratio : ℚ) (m : ℕ) : Prop :=
  ∀ k ≤ m, ∀ j, 0 < j → j < 2 ^ k → ¬ near (br (gridPoint ratio k j))

/-- An inner point of the grid of `2 ^ (k + 1)` parts meets it, and none of a coarser grid. -/
structure FirstMet (br : ℚ → ℚ) (ratio : ℚ) (k j : ℕ) : Prop where
  inner : 0 < j ∧ j < 2 ^ (k + 1)
  met : near (br (gridPoint ratio (k + 1) j))
  coarser : Unmet br ratio k

/-- The sensitivities that meet the tolerance go on for half a part towards the target. -/
def ReachesOn (br : ℚ → ℚ) (ratio : ℚ) (k j : ℕ) : Prop :=
  (target_brightness < br (gridPoint ratio (k + 1) j) →
      ∃ y ≤ gridPoint ratio (k + 1) j - part ratio (k + 2), near (br y)) ∧
    (br (gridPoint ratio (k + 1) j) < target_brightness →
      ∃ y ≥ gridPoint ratio (k + 1) j + part ratio (k + 2), near (br y))

theorem gridPoint_double (ratio : ℚ) (k j : ℕ) : gridPoint ratio (k + 1) (2 * j) = gridPoint ratio k j := by
  simp only [gridPoint, part, pow_succ, Nat.cast_mul, Nat.cast_ofNat]
  field_simp

theorem gridBracket_mid (ratio : ℚ) (k i : ℕ) : (gridBracket ratio k i).mid = gridPoint ratio (k + 1) (2 * i + 1) := by
  simp only [Bracket.mid, gridBracket, gridPoint, part, pow_succ, Nat.cast_add, Nat.cast_mul, Nat.cast_ofNat, Nat.cast_one]
  field_simp
  ring

/-- The starting bracket is one part. -/
theorem startBracket_eq (ratio : ℚ) : startBracket ratio = gridBracket ratio 0 0 := by
  simp [startBracket, gridBracket, gridPoint, part]

theorem gridPoint_zero (ratio : ℚ) (k : ℕ) : gridPoint ratio k 0 = (startBracket ratio).a := by
  simp [gridPoint, startBracket]

theorem gridPoint_last (ratio : ℚ) (k : ℕ) : gridPoint ratio k (2 ^ k) = (startBracket ratio).b := by
  simp only [gridPoint, part, startBracket, Nat.cast_pow, Nat.cast_ofNat]
  field_simp
  ring

theorem gridPoint_le {ratio : ℚ} (h : 0 ≤ ratio) (k : ℕ) {i j : ℕ} (hij : i ≤ j) : gridPoint ratio k i ≤ gridPoint ratio k j := by
  have hpart : 0 ≤ part ratio k := div_nonneg (by linarith) (by positivity)
  have hle : (i : ℚ) ≤ j := by exact_mod_cast hij
  have := mul_le_mul_of_nonneg_right hle hpart
  unfold gridPoint
  linarith

theorem gridPoint_ge {ratio : ℚ} (h : ratio < 0) (k : ℕ) {i j : ℕ} (hij : i ≤ j) : gridPoint ratio k j ≤ gridPoint ratio k i := by
  have hpart : part ratio k ≤ 0 := div_nonpos_of_nonpos_of_nonneg (by linarith) (by positivity)
  have hle : (i : ℚ) ≤ j := by exact_mod_cast hij
  have := mul_le_mul_of_nonpos_right hle hpart
  unfold gridPoint
  linarith

/-- From a negative ratio the brightness is the target all along. -/
theorem br_grid_le (hmono : Monotone br) {ratio : ℚ} (hstart : (startBracket ratio).Holds br) {k i j : ℕ} (hij : i ≤ j)
    (hj : j ≤ 2 ^ k) : br (gridPoint ratio k i) ≤ br (gridPoint ratio k j) := by
  rcases le_or_gt 0 ratio with h | h
  · exact hmono (gridPoint_le h k hij)
  · have hi := hmono (gridPoint_ge h k (Nat.zero_le i))
    have hj := hmono (gridPoint_ge h k hj)
    rw [gridPoint_zero] at hi
    rw [gridPoint_last] at hj
    exact (hi.trans hstart.1).trans (hstart.2.trans hj)

theorem near_of_between {u v : ℚ} (hu : near u) (h : u ≤ v ∧ v ≤ target_brightness ∨ target_brightness ≤ v ∧ v ≤ u) : near v := by
  obtain ⟨hlow, hhigh⟩ := abs_lt.mp hu
  have htol : 0 < tolerance := by norm_num [tolerance, target_brightness]
  refine abs_lt.mpr ?_
  rcases h with ⟨huv, hv⟩ | ⟨hv, huv⟩
  · constructor <;> linarith
  · constructor <;> linarith

section Grid

variable {ratio : ℚ}

/-- A point of the next grid that meets the tolerance can only be the midpoint of the part
    the target is in: between any other and the target there is a point of this grid. -/
theorem met_is_midpoint (hmono : Monotone br) (hstart : (startBracket ratio).Holds br) {m i j : ℕ}
    (hunmet : Unmet br ratio m) (hi : i < 2 ^ m) (hholds : (gridBracket ratio m i).Holds br) (hj0 : 0 < j)
    (hj : j < 2 ^ (m + 1)) (hnear : near (br (gridPoint ratio (m + 1) j))) : j = 2 * i + 1 := by
  have hpow : 2 ^ (m + 1) = 2 * 2 ^ m := by rw [pow_succ, mul_comm]
  rcases Nat.lt_trichotomy j (2 * i + 1) with hlt | heq | hgt
  · have hle := br_grid_le hmono hstart (k := m + 1) (by omega : j ≤ 2 * i) (by omega)
    rw [gridPoint_double] at hle
    exact absurd (near_of_between hnear (.inl ⟨hle, hholds.1⟩)) (hunmet m le_rfl i (by omega) hi)
  · exact heq
  · have hle := br_grid_le hmono hstart (k := m + 1) (by omega : 2 * (i + 1) ≤ j) hj.le
    rw [gridPoint_double] at hle
    exact absurd (near_of_between hnear (.inr ⟨hholds.2, hle⟩)) (hunmet m le_rfl (i + 1) (by omega) (by omega))

theorem unmet_succ (hmono : Monotone br) (hstart : (startBracket ratio).Holds br) {m i : ℕ} (hunmet : Unmet br ratio m)
    (hi : i < 2 ^ m) (hholds : (gridBracket ratio m i).Holds br) (hmid : ¬ near (br (gridBracket ratio m i).mid)) :
    Unmet br ratio (m + 1) := by
  intro k hk j hj0 hj hnear
  rcases Nat.le_succ_iff.mp hk with hk | rfl
  · exact hunmet k hk j hj0 hj hnear
  · have heq := met_is_midpoint hmono hstart hunmet hi hholds hj0 hj hnear
    rw [gridBracket_mid, ← heq] at hmid
    exact hmid hnear

/-- A step keeps one half of the part. -/
theorem narrow_grid {m i : ℕ} (hi : i < 2 ^ m) (hmid : ¬ near (br (gridBracket ratio m i).mid)) :
    ∃ i' < 2 ^ (m + 1), (gridBracket ratio m i).narrow br = gridBracket ratio (m + 1) i' := by
  have hpow : 2 ^ (m + 1) = 2 * 2 ^ m := by rw [pow_succ, mul_comm]
  rcases lt_trichotomy (br (gridBracket ratio m i).mid) target_brightness with hlt | heq | hgt
  · refine ⟨2 * i + 1, by omega, ?_⟩
    rw [narrow_low hlt, gridBracket_mid]
    simp only [gridBracket, Bracket.mk.injEq, true_and]
    exact (gridPoint_double ratio m (i + 1)).symm
  · exact absurd (by rw [heq]; norm_num [near, tolerance, target_brightness]) hmid
  · refine ⟨2 * i, by omega, ?_⟩
    rw [narrow_high hgt, gridBracket_mid]
    simp only [gridBracket, Bracket.mk.injEq, and_true]
    exact (gridPoint_double ratio m i).symm

/-- The search goes through parts of finer and finer grids: it stops in the first that has
    a point that meets the tolerance, or there is none in any it tried. -/
theorem search_grid (hmono : Monotone br) (hstart : (startBracket ratio).Holds br) (n : ℕ) {m i : ℕ}
    (hunmet : Unmet br ratio m) (hi : i < 2 ^ m) (hholds : (gridBracket ratio m i).Holds br) :
    ((search br n (gridBracket ratio m i)).stopped = true → ∃ k ≤ m + n, ∃ i' < 2 ^ k,
        (search br n (gridBracket ratio m i)).before = gridBracket ratio k i' ∧ FirstMet br ratio k (2 * i' + 1)) ∧
      ((search br n (gridBracket ratio m i)).stopped = false → Unmet br ratio (m + n + 1)) := by
  have hpow : 2 ^ (m + 1) = 2 * 2 ^ m := by rw [pow_succ, mul_comm]
  have hmet : near (br (gridBracket ratio m i).mid) → FirstMet br ratio m (2 * i + 1) := by
    intro hnear
    rw [gridBracket_mid] at hnear
    exact ⟨by omega, hnear, hunmet⟩
  induction n generalizing m i with
  | zero =>
    refine ⟨fun hstop => ⟨m, le_rfl, i, hi, rfl, hmet (of_decide_eq_true hstop)⟩, fun hgo => ?_⟩
    exact unmet_succ hmono hstart hunmet hi hholds (of_decide_eq_false hgo)
  | succ n ih =>
    unfold search
    split
    · rename_i hnear
      exact ⟨fun _ => ⟨m, by omega, i, hi, rfl, hmet hnear⟩, fun hgo => by cases hgo⟩
    · rename_i hmid
      obtain ⟨i', hi', hnarrow⟩ := narrow_grid hi hmid
      have hnext : (gridBracket ratio (m + 1) i').Holds br := hnarrow ▸ narrow_holds hholds
      have hunmet' := unmet_succ hmono hstart hunmet hi hholds hmid
      have hrest := ih hunmet' hi' hnext (by rw [pow_succ, mul_comm]) fun hnear => by
        rw [gridBracket_mid] at hnear
        exact ⟨by rw [pow_succ]; omega, hnear, hunmet'⟩
      rw [hnarrow]
      refine ⟨fun hstop => ?_, fun hgo => ?_⟩
      · obtain ⟨k, hk, hrest⟩ := hrest.1 hstop
        exact ⟨k, by omega, hrest⟩
      · have hall := hrest.2 hgo
        rwa [show m + 1 + n + 1 = m + (n + 1) + 1 by omega] at hall

theorem firstMet_unique (hmono : Monotone br) (hstart : (startBracket ratio).Holds br) {k k' i j : ℕ} (hi : i < 2 ^ k)
    (hholds : (gridBracket ratio k i).Holds br) (h : FirstMet br ratio k (2 * i + 1)) (h' : FirstMet br ratio k' j) :
    k' = k ∧ j = 2 * i + 1 := by
  rcases Nat.lt_trichotomy k k' with hlt | rfl | hgt
  · exact absurd h.met (h'.coarser _ hlt _ h.inner.1 h.inner.2)
  · exact ⟨rfl, met_is_midpoint hmono hstart h.coarser hi hholds h'.inner.1 h'.inner.2 h'.met⟩
  · exact absurd h'.met (h.coarser _ hgt _ h'.inner.1 h'.inner.2)

/-- The points half a part from the midpoint are those that can be returned. -/
theorem staysNear_grid (hmono : Monotone br) {m i : ℕ} (hholds : (gridBracket ratio m i).Holds br)
    (hnear : near (br (gridBracket ratio m i).mid)) : StaysNear br (gridBracket ratio m i) ↔ ReachesOn br ratio m (2 * i + 1) := by
  obtain ⟨hlow, hhigh⟩ := abs_lt.mp hnear
  obtain ⟨ha, hb⟩ := hholds
  have hbelow : 1 / 2 * ((gridBracket ratio m i).a + (gridBracket ratio m i).mid) =
      (gridBracket ratio m i).mid - part ratio (m + 2) := by
    simp only [Bracket.mid, gridBracket, gridPoint, part, pow_succ, Nat.cast_add, Nat.cast_one]
    field_simp
    ring
  have habove : 1 / 2 * ((gridBracket ratio m i).mid + (gridBracket ratio m i).b) =
      (gridBracket ratio m i).mid + part ratio (m + 2) := by
    simp only [Bracket.mid, gridBracket, gridPoint, part, pow_succ, Nat.cast_add, Nat.cast_one]
    field_simp
    ring
  rw [StaysNear, ReachesOn, ← gridBracket_mid, hbelow, habove]
  refine and_congr (forall_congr' fun hgt => ⟨fun h => ⟨_, le_rfl, ?_⟩, ?_⟩) (forall_congr' fun hlt => ⟨fun h => ⟨_, le_rfl, ?_⟩, ?_⟩)
  · have hmid : (gridBracket ratio m i).a < (gridBracket ratio m i).mid := by
      by_contra hle
      have := hmono (not_lt.mp hle)
      linarith
    have := hmono (by linarith : (gridBracket ratio m i).mid - part ratio (m + 2) ≤ (gridBracket ratio m i).mid)
    refine abs_lt.mpr ?_
    constructor <;> linarith
  · rintro ⟨y, hy, hnear⟩
    have := hmono hy
    linarith [(abs_lt.mp hnear).2]
  · have hmid : (gridBracket ratio m i).mid < (gridBracket ratio m i).b := by
      by_contra hle
      have := hmono (not_lt.mp hle)
      linarith
    have := hmono (by linarith : (gridBracket ratio m i).mid ≤ (gridBracket ratio m i).mid + part ratio (m + 2))
    refine abs_lt.mpr ?_
    constructor <;> linarith
  · rintro ⟨y, hy, hnear⟩
    have := hmono hy
    linarith [(abs_lt.mp hnear).1]

end Grid

/-! ## When the target is hit -/

/-- The target stays bracketed, and a search ended by the tolerance returns a sensitivity
    whose brightness is within it. -/
def HitsTarget (br : ℚ → ℚ) (ratio : Option ℚ) : Prop :=
  ∀ s, brightnessSearch br ratio = some s →
    (∀ t ∈ s.trace, t.Holds br) ∧
      (s.stopped = true → ∃ x, autoBrightness br ratio = some x ∧ near (br x))

/-- Of the grids a search can get to, the first with an inner point that meets the
    tolerance: from there the sensitivities that meet it reach half a part on. -/
def WideEnough (br : ℚ → ℚ) (ratio : ℚ) : Prop := ∀ k ≤ max_iter, ∀ j, FirstMet br ratio k j → ReachesOn br ratio k j

theorem brightnessSearch_some {ratio : ℚ} (hstart : (startBracket ratio).Holds br) :
    brightnessSearch br (some ratio) = some (search br max_iter (startBracket ratio)) := by
  have hends : ¬ (target_brightness < br (1 / 100 * ratio) ∨ br (100 * ratio) < target_brightness) := by
    rw [not_or, not_lt, not_lt]
    exact hstart
  exact if_neg hends

theorem start_of_search {ratio : Option ℚ} {s : Search} (h : brightnessSearch br ratio = some s) :
    ∃ r, ratio = some r ∧ (startBracket r).Holds br := by
  cases ratio with
  | none => cases h
  | some r =>
    simp only [brightnessSearch] at h
    split at h
    · cases h
    · rename_i hin
      rw [not_or, not_lt, not_lt] at hin
      exact ⟨r, rfl, hin⟩

/-- What the search returns is near the target exactly when the grids are wide enough. -/
theorem stopped_iff (hmono : Monotone br) {ratio : ℚ} (hstart : (startBracket ratio).Holds br) :
    ((search br max_iter (startBracket ratio)).stopped = true → near (br (search br max_iter (startBracket ratio)).after.mid)) ↔
      WideEnough br ratio := by
  obtain ⟨hafter, htrace, hstopped⟩ := @search_last br max_iter (startBracket ratio)
  have hholds := search_holds max_iter hstart _ htrace
  rw [startBracket_eq] at hafter hstopped hholds ⊢
  have hunmet : Unmet br ratio 0 := by
    intro k hk j hj0 hj
    obtain rfl : k = 0 := by omega
    exact absurd hj (by omega)
  obtain ⟨hmet, hnone⟩ := search_grid hmono hstart max_iter hunmet (i := 0) (by simp) (startBracket_eq ratio ▸ hstart)
  generalize search br max_iter (gridBracket ratio 0 0) = s at *
  cases hstop : s.stopped with
  | false =>
    refine ⟨fun _ k hk j hfirst => ?_, fun _ h => by cases h⟩
    exact absurd hfirst.met (hnone hstop _ (by omega) _ hfirst.inner.1 hfirst.inner.2)
  | true =>
    obtain ⟨k, hk, i, hi, hbefore, hfirst⟩ := hmet hstop
    have hnear := hstopped hstop
    rw [hbefore] at hholds hnear
    have hiff : near (br s.after.mid) ↔ ReachesOn br ratio k (2 * i + 1) := by
      rw [hafter, hbefore, narrow_near_iff hmono hholds hnear, staysNear_grid hmono hholds hnear]
    refine ⟨fun h k' hk' j hfirst' => ?_, fun h _ => hiff.mpr (h k (by omega) _ hfirst)⟩
    obtain ⟨rfl, rfl⟩ := firstMet_unique hmono hstart hi hholds hfirst hfirst'
    exact hiff.mp (h rfl)

theorem search_hits_iff (br : ℚ → ℚ) (hmono : Monotone br) (ratio : Option ℚ) :
    HitsTarget br ratio ↔ ∀ r, ratio = some r → (startBracket r).Holds br → WideEnough br r := by
  constructor
  · rintro h r rfl hstart
    refine (stopped_iff hmono hstart).mp fun hstop => ?_
    obtain ⟨x, hx, hnear⟩ := (h _ (brightnessSearch_some hstart)).2 hstop
    simp only [autoBrightness, brightnessSearch_some hstart, Option.some.injEq] at hx
    exact hx ▸ hnear
  · intro h s hs
    refine ⟨search_brackets hs, fun hstop => ?_⟩
    obtain ⟨r, rfl, hstart⟩ := start_of_search hs
    have hnear := (stopped_iff hmono hstart).mpr (h r rfl hstart)
    obtain rfl : search br max_iter (startBracket r) = s := Option.some.inj ((brightnessSearch_some hstart).symm.trans hs)
    exact ⟨_, by rw [autoBrightness, hs], hnear hstop⟩

/-! ## One bright pixel -/

def lonePixel : MaskedImage where
  pixels := [1]
  mask := [255]
  same_size := rfl

def onePixelBrightness (sensitivity : ℚ) : ℚ := calculateBrightness 1 lonePixel 0 sensitivity 1 fun _ => 0

theorem onePixelBrightness_eq (sensitivity : ℚ) : onePixelBrightness sensitivity = ratioTone 0 sensitivity 1 := by
  have h := @brightness_of_balanced 1 _ lonePixel 1 (fun _ => 0) (by decide)
    (by decide) (by decide) ⟨by decide, by decide⟩ 0 sensitivity
  rw [onePixelBrightness, h, pixelsMean_eq rfl]
  simp [toneSum, toneTerm, validCount, lonePixel]

theorem onePixelBrightness_mono : Monotone onePixelBrightness := by
  intro s t hst
  simp only [onePixelBrightness_eq, ratioTone, sub_zero, mul_one]
  by_cases hs : 0 < 5 * s
  · have ht : 0 < 5 * t := by linarith
    rw [if_pos hs, if_pos ht, div_le_div_iff₀ (by linarith) (by linarith)]
    nlinarith
  · rw [if_neg hs]
    split
    · positivity
    · exact le_rfl

/-- The first midpoint, 117/5000, is near enough; half of it is returned. -/
theorem search_misses : Monotone onePixelBrightness ∧
    autoBrightness onePixelBrightness (some (117 / 250025)) = some (1170351 / 100010000) ∧
      ¬ HitsTarget onePixelBrightness (some (117 / 250025)) := by
  have hend : autoBrightness onePixelBrightness (some (117 / 250025)) = some (1170351 / 100010000) ∧
      (brightnessSearch onePixelBrightness (some (117 / 250025))).any (fun s => s.stopped) = true ∧
        ¬ near (onePixelBrightness (1170351 / 100010000)) := by
    decide +kernel
  refine ⟨onePixelBrightness_mono, hend.1, fun h => ?_⟩
  obtain ⟨s, hs, hstop⟩ := (Option.any_eq_true _ _).mp hend.2.1
  obtain ⟨x, hx, hnear⟩ := (h s hs).2 hstop
  rw [hend.1, Option.some.injEq] at hx
  exact hend.2.2 (hx ▸ hnear)

/-- From 1/3125 the first step misses, and the second one stops at three quarters. -/
theorem search_stops_in_time : HitsTarget onePixelBrightness (some (1 / 3125)) := by
  refine (search_hits_iff onePixelBrightness onePixelBrightness_mono (some (1 / 3125))).mpr ?_
  rintro r hr -
  obtain rfl := Option.some.inj hr
  have hpoints : near (onePixelBrightness (gridPoint (1 / 3125) 2 3)) ∧
      (∀ j < 2, ¬ near (onePixelBrightness (gridPoint (1 / 3125) 1 j))) ∧
      (∀ j < 3, ¬ near (onePixelBrightness (gridPoint (1 / 3125) 2 j))) ∧
      target_brightness < onePixelBrightness (gridPoint (1 / 3125) 2 3) ∧
      near (onePixelBrightness (gridPoint (1 / 3125) 2 3 - part (1 / 3125) 3)) := by
    decide +kernel
  obtain ⟨hthird, hfirst, hsecond, habove, hon⟩ := hpoints
  rintro k - j ⟨⟨hj0, hj⟩, hmet, hcoarser⟩
  have hk : k < 2 := by
    by_contra hk
    exact hcoarser 2 (by omega) 3 (by decide) (by decide) hthird
  interval_cases k
  · exact absurd hmet (hfirst j hj)
  · have hj3 : ¬ j < 3 := fun hj3 => hsecond j hj3 hmet
    obtain rfl : j = 3 := by omega
    exact ⟨fun _ => ⟨_, le_rfl, hon⟩, fun hbelow => absurd hbelow habove.not_gt⟩

end FitsWebQL
