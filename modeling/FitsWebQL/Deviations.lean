/-
  FitsWebQL.Deviations — the ISPC kernel `asymmetric_mad`, which adds a chunk's
  deviations from the median to six accumulators passed by reference: the number of valid
  pixels and the sum of `|value - median|`, and the same for the pixels above and for those
  below the median.

  Each lane of the kernel's vector registers starts from the accumulator (`varying float
  vmad = mad`), and the lanes are added up at the end, so what was in an accumulator before
  the call is counted once for each lane. A thread that runs one chunk starts from zero and
  never sees it; a thread that runs several does.

  The lanes' counters (`varying int vcount`) have 32 bits; here they are natural numbers, so
  what is said of the counts is said of calls that leave every lane below 2^31.

  Proved:
  - `asymmetricMad_eq`: a call gives `W` times what was there plus the chunk's own.
  - `chunks_in_turn_iff`: calling the kernel on the pieces of an array in turn gives what one
    call on the array does exactly when there is one lane, or no valid pixel before the last
    piece.
  - `two_pixels_in_two_calls`: eight lanes, two calls of one valid pixel: nine of them.
-/

import FitsWebQL.Lib.ParallelFor

namespace FitsWebQL

open Lib.ParallelFor

/-! ## The accumulators -/

@[ext]
structure Deviations where
  count : ℕ
  mad : ℚ
  countP : ℕ
  madP : ℚ
  countN : ℕ
  madN : ℚ
  deriving DecidableEq

namespace Deviations

instance : Zero Deviations := ⟨⟨0, 0, 0, 0, 0, 0⟩⟩

instance : Add Deviations :=
  ⟨fun d e => ⟨d.count + e.count, d.mad + e.mad, d.countP + e.countP, d.madP + e.madP, d.countN + e.countN, d.madN + e.madN⟩⟩

instance : SMul ℕ Deviations :=
  ⟨fun n d => ⟨n • d.count, n • d.mad, n • d.countP, n • d.madP, n • d.countN, n • d.madN⟩⟩

def toProd (d : Deviations) : ℕ × ℚ × ℕ × ℚ × ℕ × ℚ := (d.count, d.mad, d.countP, d.madP, d.countN, d.madN)

theorem toProd_injective : Function.Injective toProd := by
  intro d e h
  simp only [toProd, Prod.mk.injEq] at h
  exact Deviations.ext h.1 h.2.1 h.2.2.1 h.2.2.2.1 h.2.2.2.2.1 h.2.2.2.2.2

instance : AddCommMonoid Deviations :=
  toProd_injective.addCommMonoid toProd rfl (fun _ _ => rfl) fun _ _ => rfl

@[simp] theorem count_zero : (0 : Deviations).count = 0 := rfl

@[simp] theorem count_add (d e : Deviations) : (d + e).count = d.count + e.count := rfl

@[simp] theorem count_smul (n : ℕ) (d : Deviations) : (n • d).count = n * d.count := rfl

end Deviations

/-! ## The kernel -/

/-- What pixel `i` adds, under `cif(mask[i])`. -/
def deviation (median : ℚ) (p : ℚ × UInt8) : Deviations :=
  let tmp := p.1
  if p.2 = 0 then 0
  else
    { count := 1
      mad := |tmp - median|
      countP := if median < tmp then 1 else 0
      madP := if median < tmp then tmp - median else 0
      countN := if tmp < median then 1 else 0
      madN := if tmp < median then median - tmp else 0 }

/-- `asymmetric_mad` on `data[i]`, `mask[i]`, from what the accumulators hold. -/
def asymmetricMad (W : ℕ) [NeZero W] (pixels : List (ℚ × UInt8)) (median : ℚ) (acc : Deviations) : Deviations :=
  reduceAdd (foreach (deviation median) pixels 0 fun _ : Fin W => acc)

def deviations (median : ℚ) (pixels : List (ℚ × UInt8)) : Deviations := (pixels.map (deviation median)).sum

variable {W : ℕ} [NeZero W] {median : ℚ}

theorem asymmetricMad_eq (pixels : List (ℚ × UInt8)) (acc : Deviations) :
    asymmetricMad W pixels median acc = W • acc + deviations median pixels := by
  rw [asymmetricMad, reduceAdd_foreach, reduceAdd_const, deviations]

/-! ## Valid pixels -/

def NoneValid (pixels : List (ℚ × UInt8)) : Prop := ∀ p ∈ pixels, p.2 = 0

instance (pixels : List (ℚ × UInt8)) : Decidable (NoneValid pixels) := by
  unfold NoneValid
  infer_instance

theorem deviations_append (ps qs : List (ℚ × UInt8)) :
    deviations median (ps ++ qs) = deviations median ps + deviations median qs := by
  simp [deviations]

theorem deviations_noneValid {pixels : List (ℚ × UInt8)} (h : NoneValid pixels) : deviations median pixels = 0 := by
  unfold deviations
  refine List.sum_eq_zero fun d hd => ?_
  obtain ⟨p, hp, rfl⟩ := List.mem_map.mp hd
  rw [deviation, if_pos (h p hp)]

theorem noneValid_of_count {pixels : List (ℚ × UInt8)} (h : (deviations median pixels).count = 0) : NoneValid pixels := by
  induction pixels with
  | nil => simp [NoneValid]
  | cons p ps ih =>
    have hsplit : deviations median (p :: ps) = deviation median p + deviations median ps := by simp [deviations]
    rw [hsplit, Deviations.count_add] at h
    have hp : p.2 = 0 := by
      by_contra hne
      have hone : (deviation median p).count = 1 := by rw [deviation, if_neg hne]
      omega
    intro q hq
    rcases List.mem_cons.mp hq with rfl | hq
    · exact hp
    · exact ih (by omega) q hq

/-! ## Chunks in turn -/

/-- The kernel on one piece after the other, with the same accumulators. -/
def madInTurn (W : ℕ) [NeZero W] (median : ℚ) (pieces : List (List (ℚ × UInt8))) (acc : Deviations) : Deviations :=
  pieces.foldl (fun acc pixels => asymmetricMad W pixels median acc) acc

theorem madInTurn_cons (pixels : List (ℚ × UInt8)) (pieces : List (List (ℚ × UInt8))) (acc : Deviations) :
    madInTurn W median (pixels :: pieces) acc = madInTurn W median pieces (W • acc + deviations median pixels) := by
  rw [madInTurn, List.foldl_cons, asymmetricMad_eq]
  rfl

/-- Nothing counted is lost. -/
theorem count_madInTurn (pieces : List (List (ℚ × UInt8))) (acc : Deviations) :
    acc.count + (deviations median pieces.flatten).count ≤ (madInTurn W median pieces acc).count := by
  induction pieces generalizing acc with
  | nil => simp [madInTurn, deviations]
  | cons pixels pieces ih =>
    have h := ih (W • acc + deviations median pixels)
    have hW : acc.count ≤ W * acc.count := Nat.le_mul_of_pos_left _ (NeZero.pos W)
    rw [madInTurn_cons, List.flatten_cons, deviations_append]
    simp only [Deviations.count_add, Deviations.count_smul] at h ⊢
    omega

/-- What more than one lane starts from is counted more than once. -/
theorem count_lt_madInTurn (hW : 2 ≤ W) {acc : Deviations} (hacc : 0 < acc.count) (pixels : List (ℚ × UInt8))
    (pieces : List (List (ℚ × UInt8))) :
    acc.count + (deviations median (pixels :: pieces).flatten).count <
      (madInTurn W median (pixels :: pieces) acc).count := by
  have h := @count_madInTurn W _ median pieces (W • acc + deviations median pixels)
  have hlt : acc.count < W * acc.count := by nlinarith
  rw [madInTurn_cons, List.flatten_cons, deviations_append]
  simp only [Deviations.count_add, Deviations.count_smul] at h ⊢
  omega

/-- With one lane the accumulators are simply added to. -/
theorem madInTurn_one_lane (hW : W = 1) (pieces : List (List (ℚ × UInt8))) (acc : Deviations) :
    madInTurn W median pieces acc = acc + deviations median pieces.flatten := by
  induction pieces generalizing acc with
  | nil => simp [madInTurn, deviations]
  | cons pixels pieces ih => rw [madInTurn_cons, ih, hW, one_smul, List.flatten_cons, deviations_append, add_assoc]

def ValidLast (pieces : List (List (ℚ × UInt8))) : Prop := ∀ pixels ∈ pieces.dropLast, NoneValid pixels

instance (pieces : List (List (ℚ × UInt8))) : Decidable (ValidLast pieces) := by
  unfold ValidLast
  infer_instance

theorem madInTurn_iff (hW : 2 ≤ W) (pieces : List (List (ℚ × UInt8))) :
    madInTurn W median pieces 0 = deviations median pieces.flatten ↔ ValidLast pieces := by
  induction pieces with
  | nil => simp [madInTurn, deviations, ValidLast]
  | cons pixels pieces ih =>
    cases pieces with
    | nil => simp [madInTurn, ValidLast, asymmetricMad_eq]
    | cons next pieces =>
      have hstart : madInTurn W median (pixels :: next :: pieces) 0 =
          madInTurn W median (next :: pieces) (deviations median pixels) := by
        rw [madInTurn_cons, smul_zero, zero_add]
      rw [hstart, List.flatten_cons, deviations_append]
      constructor
      · intro h
        -- a valid pixel in this piece would be counted `W` times by the next call
        have hcount : (deviations median pixels).count = 0 := by
          by_contra hne
          have := @count_lt_madInTurn W _ median hW _ (Nat.pos_of_ne_zero hne) next pieces
          rw [h, Deviations.count_add] at this
          omega
        have hnone := noneValid_of_count hcount
        rw [deviations_noneValid hnone, zero_add] at h
        intro ps hps
        rcases List.mem_cons.mp hps with rfl | hps
        · exact hnone
        · exact ih.mp h ps hps
      · intro h
        rw [deviations_noneValid (h pixels (by simp)), zero_add]
        exact ih.mpr fun ps hps => h ps (by simp [hps])

/-- In turn on the pieces, and in one call on the whole array: the same accumulators. -/
def Additive (W : ℕ) [NeZero W] (median : ℚ) (pieces : List (List (ℚ × UInt8))) : Prop :=
  madInTurn W median pieces 0 = asymmetricMad W pieces.flatten median 0

theorem chunks_in_turn_iff (W : ℕ) [NeZero W] (median : ℚ) (pieces : List (List (ℚ × UInt8))) :
    Additive W median pieces ↔ W = 1 ∨ ValidLast pieces := by
  rw [Additive, asymmetricMad_eq, smul_zero, zero_add]
  rcases Nat.lt_or_eq_of_le (show 1 ≤ W from NeZero.pos W) with hW | hW
  · rw [madInTurn_iff hW]
    exact ⟨Or.inr, fun h => h.resolve_left (by omega)⟩
  · have h := @madInTurn_one_lane W _ median hW.symm pieces 0
    rw [zero_add] at h
    exact ⟨fun _ => Or.inl hW.symm, fun _ => h⟩

/-- Only the last of three pieces has a valid pixel. -/
theorem additive_valid_last : Additive 8 0 [[(3, 0)], [], [(1, 255), (2, 255)]] :=
  (chunks_in_turn_iff 8 0 [[(3, 0)], [], [(1, 255), (2, 255)]]).mpr (Or.inr (by decide))

/-- Eight lanes start from the first pixel. -/
theorem two_pixels_in_two_calls :
    madInTurn 8 0 [[(1, 255)], [(1, 255)]] 0 = ⟨9, 9, 9, 9, 0, 0⟩ ∧
      asymmetricMad 8 [(1, 255), (1, 255)] 0 0 = ⟨2, 2, 2, 2, 0, 0⟩ ∧ ¬ Additive 8 0 [[(1, 255)], [(1, 255)]] := by
  have h : madInTurn 8 0 [[(1, 255)], [(1, 255)]] 0 = ⟨9, 9, 9, 9, 0, 0⟩ ∧
      asymmetricMad 8 [(1, 255), (1, 255)] 0 0 = ⟨2, 2, 2, 2, 0, 0⟩ := by
    decide +kernel
  refine ⟨h.1, h.2, fun hadd => ?_⟩
  have := h.1.symm.trans (hadd.trans h.2)
  simp at this

end FitsWebQL
