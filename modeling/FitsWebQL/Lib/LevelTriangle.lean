/-
  FitsWebQL.Lib.LevelTriangle — the level line of a plane over a triangle. A triangle has a
  height at each vertex, positive above the level and negative below it; between the
  vertices the height is linear. Where it is zero is a segment between two sides, between a
  vertex and a side, or a side; it is one vertex, or nothing, when the signs do not change;
  and the whole triangle when all three heights are zero.

  Proved:
    slice_opposite    a vertex on one side of the level, two on the other
    slice_through     a vertex on the level, one vertex on each side of it
    slice_side        two vertices on the level
    slice_empty       three vertices on one side
-/

import Mathlib.Algebra.Order.Field.Basic
import Mathlib.Tactic.FieldSimp
import Mathlib.Tactic.LinearCombination
import Mathlib.Tactic.Linarith
import Mathlib.Tactic.Positivity
import Mathlib.Tactic.Ring

namespace FitsWebQL.Lib.LevelTriangle

variable {α : Type*} [Field α] [LinearOrder α] [IsStrictOrderedRing α]

@[ext] structure Point (α : Type*) where
  x : α
  y : α
  deriving DecidableEq

structure Vertex (α : Type*) where
  point : Point α
  height : α

/-- Where the level crosses between two vertices: a coordinate of it. -/
def sect (h h' u u' : α) : α := (h' * u - h * u') / (h' - h)

def crossing (v w : Vertex α) : Point α :=
  ⟨sect v.height w.height v.point.x w.point.x, sect v.height w.height v.point.y w.point.y⟩

def Between (p q r : Point α) : Prop := ∃ s t : α, 0 ≤ s ∧ 0 ≤ t ∧ s + t = 1 ∧ r.x = s * p.x + t * q.x ∧ r.y = s * p.y + t * q.y

/-- `r` is in the triangle, and the height there is zero. -/
def Slice (u v w : Vertex α) (r : Point α) : Prop :=
  ∃ a b c : α, (0 ≤ a ∧ 0 ≤ b ∧ 0 ≤ c ∧ a + b + c = 1) ∧ a * u.height + b * v.height + c * w.height = 0 ∧
    r.x = a * u.point.x + b * v.point.x + c * w.point.x ∧ r.y = a * u.point.y + b * v.point.y + c * w.point.y

/-! ## Symmetry -/

omit [IsStrictOrderedRing α] in
theorem between_swap {p q r : Point α} : Between p q r ↔ Between q p r := by
  constructor <;>
  · rintro ⟨s, t, hs, ht, hsum, hx, hy⟩
    exact ⟨t, s, ht, hs, by rw [add_comm, hsum], by rw [hx, add_comm], by rw [hy, add_comm]⟩

omit [IsStrictOrderedRing α] in
theorem slice_rotate {u v w : Vertex α} {r : Point α} : Slice u v w r ↔ Slice v w u r := by
  constructor
  · rintro ⟨a, b, c, ⟨ha, hb, hc, hsum⟩, hz, hx, hy⟩
    exact ⟨b, c, a, ⟨hb, hc, ha, by linear_combination hsum⟩, by linear_combination hz, by linear_combination hx, by linear_combination hy⟩
  · rintro ⟨a, b, c, ⟨ha, hb, hc, hsum⟩, hz, hx, hy⟩
    exact ⟨c, a, b, ⟨hc, ha, hb, by linear_combination hsum⟩, by linear_combination hz, by linear_combination hx, by linear_combination hy⟩

omit [LinearOrder α] [IsStrictOrderedRing α] in
theorem crossing_swap (v w : Vertex α) : crossing v w = crossing w v := by
  have hsect : ∀ h h' u u' : α, sect h h' u u' = sect h' h u' u := fun h h' u u' => by
    rw [sect, sect, ← neg_sub h h', ← neg_sub (h * u'), neg_div_neg_eq]
  ext <;> exact hsect _ _ _ _

/-! ## The level between two vertices -/

def Opposite (v w : Vertex α) : Prop := w.height / v.height < 0

theorem above_below {v w : Vertex α} (hv : 0 < v.height) (hw : w.height < 0) : Opposite v w := div_neg_of_neg_of_pos hw hv

theorem below_above {v w : Vertex α} (hv : v.height < 0) (hw : 0 < w.height) : Opposite v w := div_neg_of_pos_of_neg hw hv

omit [IsStrictOrderedRing α] in
theorem Opposite.ne_zero {v w : Vertex α} (h : Opposite v w) : v.height ≠ 0 := by
  intro h0
  rw [Opposite, h0, div_zero] at h
  exact lt_irrefl _ h

/-- A crossing in terms of the ratio of the heights. -/
theorem sect_ratio {h h' : α} (hneg : h' / h < 0) (u u' : α) : sect h h' u u' = (u' - h' / h * u) / (1 - h' / h) := by
  have hne : h ≠ 0 := by
    rintro rfl
    rw [div_zero] at hneg
    exact lt_irrefl _ hneg
  have hden : (1 : α) - h' / h ≠ 0 := by linarith
  have hdiff : h' - h ≠ 0 := by
    intro h0
    rw [sub_eq_zero.mp h0, div_self hne] at hneg
    linarith
  rw [sect, div_eq_div_iff hdiff hden]
  field_simp
  ring

/-- One vertex on one side of the level, the others on the other: between the two sides that cross it. -/
theorem slice_opposite {u v w : Vertex α} (hv : Opposite u v) (hw : Opposite u w) {r : Point α} :
    Slice u v w r ↔ Between (crossing u v) (crossing u w) r := by
  have hne := hv.ne_zero
  have hratio : ∀ {v : Vertex α}, v.height = v.height / u.height * u.height := fun {v} => (div_mul_cancel₀ _ hne).symm
  have hone : (1 : α) - v.height / u.height ≠ 0 := by
    unfold Opposite at hv
    linarith
  have htwo : (1 : α) - w.height / u.height ≠ 0 := by
    unfold Opposite at hw
    linarith
  unfold Slice Between crossing
  simp only [sect_ratio hv, sect_ratio hw]
  rw [hratio (v := v), hratio (v := w)]
  unfold Opposite at hv hw
  generalize hρ : v.height / u.height = ρ at *
  generalize hσ : w.height / u.height = σ at *
  constructor
  · rintro ⟨a, b, c, ⟨ha, hb, hc, hsum⟩, hz, hx, hy⟩
    have hzero : a + b * ρ + c * σ = 0 := by
      have hmul : (a + b * ρ + c * σ) * u.height = 0 := by linear_combination hz
      exact (mul_eq_zero.mp hmul).resolve_right hne
    refine ⟨b * (1 - ρ), c * (1 - σ), mul_nonneg hb (by linarith), mul_nonneg hc (by linarith), by linear_combination hsum - hzero, ?_, ?_⟩
    · rw [hx]
      field_simp
      linear_combination u.point.x * hzero
    · rw [hy]
      field_simp
      linear_combination u.point.y * hzero
  · rintro ⟨s, t, hs, ht, hsum, hx, hy⟩
    have hs' : 0 ≤ s / (1 - ρ) := div_nonneg hs (by linarith)
    have ht' : 0 ≤ t / (1 - σ) := div_nonneg ht (by linarith)
    have hback : s / (1 - ρ) * (1 - ρ) = s ∧ t / (1 - σ) * (1 - σ) = t := ⟨div_mul_cancel₀ _ hone, div_mul_cancel₀ _ htwo⟩
    generalize hS : s / (1 - ρ) = S at *
    generalize hT : t / (1 - σ) = T at *
    refine ⟨-(S * ρ) - T * σ, S, T, ⟨?_, hs', ht', by linear_combination hsum + hback.1 + hback.2⟩, by ring, ?_, ?_⟩
    · have := mul_nonneg hs' (by linarith : 0 ≤ -ρ)
      have := mul_nonneg ht' (by linarith : 0 ≤ -σ)
      linarith
    · rw [hx, ← hback.1, ← hback.2]
      field_simp
      ring
    · rw [hy, ← hback.1, ← hback.2]
      field_simp
      ring

/-- A vertex on the level, the others on different sides: between the vertex and the side across. -/
theorem slice_through {u v w : Vertex α} (hu : u.height = 0) (hvw : Opposite v w) {r : Point α} :
    Slice u v w r ↔ Between u.point (crossing v w) r := by
  have hne := hvw.ne_zero
  have hratio : w.height = w.height / v.height * v.height := (div_mul_cancel₀ _ hne).symm
  have hone : (1 : α) - w.height / v.height ≠ 0 := by
    unfold Opposite at hvw
    linarith
  unfold Slice Between crossing
  simp only [sect_ratio hvw, hu, mul_zero, zero_add]
  rw [hratio]
  unfold Opposite at hvw
  generalize hρ : w.height / v.height = ρ at *
  constructor
  · rintro ⟨a, b, c, ⟨ha, hb, hc, hsum⟩, hz, hx, hy⟩
    have hzero : b + c * ρ = 0 := by
      have hmul : (b + c * ρ) * v.height = 0 := by linear_combination hz
      exact (mul_eq_zero.mp hmul).resolve_right hne
    refine ⟨a, c * (1 - ρ), ha, mul_nonneg hc (by linarith), by linear_combination hsum - hzero, ?_, ?_⟩
    · rw [hx]
      field_simp
      linear_combination v.point.x * hzero
    · rw [hy]
      field_simp
      linear_combination v.point.y * hzero
  · rintro ⟨s, t, hs, ht, hsum, hx, hy⟩
    have ht' : 0 ≤ t / (1 - ρ) := div_nonneg ht (by linarith)
    have hback : t / (1 - ρ) * (1 - ρ) = t := div_mul_cancel₀ _ hone
    generalize hT : t / (1 - ρ) = T at *
    refine ⟨s, -(T * ρ), T, ⟨hs, ?_, ht', by linear_combination hsum + hback⟩, by ring, ?_, ?_⟩
    · have := mul_nonneg ht' (by linarith : 0 ≤ -ρ)
      linarith
    · rw [hx, ← hback]
      field_simp
      ring
    · rw [hy, ← hback]
      field_simp
      ring

omit [IsStrictOrderedRing α] in
/-- Two vertices on the level: the side between them. -/
theorem slice_side {u v w : Vertex α} (hu : u.height = 0) (hv : v.height = 0) (hw : w.height ≠ 0) {r : Point α} :
    Slice u v w r ↔ Between u.point v.point r := by
  constructor
  · rintro ⟨a, b, c, ⟨ha, hb, hc, hsum⟩, hz, hx, hy⟩
    rw [hu, hv, mul_zero, mul_zero, zero_add, zero_add] at hz
    obtain rfl := (mul_eq_zero.mp hz).resolve_right hw
    exact ⟨a, b, ha, hb, by linear_combination hsum, by linear_combination hx, by linear_combination hy⟩
  · rintro ⟨s, t, hs, ht, hsum, hx, hy⟩
    exact ⟨s, t, 0, ⟨hs, ht, le_rfl, by linear_combination hsum⟩, by rw [hu, hv]; ring, by linear_combination hx, by linear_combination hy⟩

def SameSide (v w : Vertex α) : Prop := 0 < v.height ∧ 0 < w.height ∨ v.height < 0 ∧ w.height < 0

/-- Heights of one sign only add up to zero when none of them counts. -/
theorem SameSide.weights {v w : Vertex α} (h : SameSide v w) {b c : α} (hb : 0 ≤ b) (hc : 0 ≤ c)
    (hz : b * v.height + c * w.height = 0) : b = 0 ∧ c = 0 := by
  rcases h with ⟨hv, hw⟩ | ⟨hv, hw⟩
  · have hbv := mul_nonneg hb hv.le
    have hcw := mul_nonneg hc hw.le
    exact ⟨(mul_eq_zero.mp (by linarith : b * v.height = 0)).resolve_right hv.ne',
      (mul_eq_zero.mp (by linarith : c * w.height = 0)).resolve_right hw.ne'⟩
  · have hbv := mul_nonpos_of_nonneg_of_nonpos hb hv.le
    have hcw := mul_nonpos_of_nonneg_of_nonpos hc hw.le
    exact ⟨(mul_eq_zero.mp (by linarith : b * v.height = 0)).resolve_right hv.ne,
      (mul_eq_zero.mp (by linarith : c * w.height = 0)).resolve_right hw.ne⟩

/-- Three vertices on one side: nothing. -/
theorem slice_empty {u v w : Vertex α} (huv : SameSide u v) (hvw : SameSide v w) (r : Point α) : ¬ Slice u v w r := by
  rintro ⟨a, b, c, ⟨ha, hb, hc, hsum⟩, hz, -, -⟩
  have hall : a = 0 ∧ b = 0 ∧ c = 0 := by
    rcases huv with ⟨hu, hv⟩ | ⟨hu, hv⟩
    · have hw : 0 < w.height := hvw.elim And.right fun h => absurd h.1 hv.not_gt
      have hau := mul_nonneg ha hu.le
      have hbv := mul_nonneg hb hv.le
      have hcw := mul_nonneg hc hw.le
      exact ⟨(mul_eq_zero.mp (by linarith : a * u.height = 0)).resolve_right hu.ne',
        SameSide.weights (.inl ⟨hv, hw⟩) hb hc (by linarith)⟩
    · have hw : w.height < 0 := hvw.elim (fun h => absurd h.1 hv.not_gt) And.right
      have hau := mul_nonpos_of_nonneg_of_nonpos ha hu.le
      have hbv := mul_nonpos_of_nonneg_of_nonpos hb hv.le
      have hcw := mul_nonpos_of_nonneg_of_nonpos hc hw.le
      exact ⟨(mul_eq_zero.mp (by linarith : a * u.height = 0)).resolve_right hu.ne,
        SameSide.weights (.inr ⟨hv, hw⟩) hb hc (by linarith)⟩
  obtain ⟨rfl, rfl, rfl⟩ := hall
  linarith

end FitsWebQL.Lib.LevelTriangle
