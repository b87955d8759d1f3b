/-
  FitsWebQL.CubeBuffers — the memory `get_cube` allocates: a pixel and a mask buffer for
  every OpenMP thread, which it clears, and the two of the result, which it does not.
  `join_pixels_masks` then adds to the one and ORs into the other.

  Proved:
  - `getCubeIn_eq`: what the threads' buffers held is never seen.
  - `cube_hidden_iff`: what the result's held is, whenever there is an image.
  - `a_pixel_added_to`: a cube of two frames of one pixel.
-/

import FitsWebQL.CubeImage
import FitsWebQL.Lib.Malloc

namespace FitsWebQL

open Lib.Malloc

variable {C : Codec}

structure CubeMemory where
  img : PlaneBuffer
  omp : ℕ → PlaneBuffer

/-- `omp_pixels[i][j] = 0.0f` for `j < plane_size`, and the `memset` of `omp_mask[i]`. -/
def PlaneBuffer.clear (b : PlaneBuffer) (plane_size : ℕ) : PlaneBuffer where
  pixels := overwrite b.pixels (List.replicate plane_size 0)
  mask := overwrite b.mask (List.replicate plane_size 0)

def getCubeIn (m : CubeMemory) (h : FitsHeader) (src : FrameSource C) (max_threads : ℕ) (tid : ℕ → ℕ) (start stop : ℤ) :
    CubeReply :=
  if h.accepts start stop then
    let plane_size := (h.width * h.height).toNat
    let r := cubeLoop h src tid (framesOf start stop) fun t => (m.omp t).clear plane_size
    let work_size := min (plane_size / max_threads) MAX_WORK_SIZE
    if work_size = 0 then .divisionByZero
    else
      let num_threads := plane_size / work_size
      .image ⟨joinAll plane_size num_threads max_threads r.1 m.img, r.2.map Prod.fst, r.2.map Prod.snd⟩
  else .empty

/-- The replies cannot be told apart: the planes are the same, and the spectra. -/
def CubeReply.Same (plane_size : ℕ) : CubeReply → CubeReply → Prop
  | .empty, .empty => True
  | .divisionByZero, .divisionByZero => True
  | .image r, .image r' =>
    view r.img.pixels plane_size = view r'.img.pixels plane_size ∧ view r.img.mask plane_size = view r'.img.mask plane_size ∧
      r.mean_spectrum = r'.mean_spectrum ∧ r.integrated_spectrum = r'.integrated_spectrum
  | _, _ => False

/-! ## The threads' buffers -/

def PlaneBuffer.Agree (b b' : PlaneBuffer) (plane_size : ℕ) : Prop :=
  ∀ p < plane_size, b.pixels p = b'.pixels p ∧ b.mask p = b'.mask p

theorem agree_clear (b : PlaneBuffer) (plane_size : ℕ) : (b.clear plane_size).Agree PlaneBuffer.cleared plane_size := by
  intro p hp
  have hlength : ∀ {α : Type} (a : α), p < (List.replicate plane_size a).length := fun a => by
    rw [List.length_replicate]
    exact hp
  refine ⟨(overwrite_lt b.pixels (hlength 0)).trans ?_, (overwrite_lt b.mask (hlength 0)).trans ?_⟩
  · rw [List.getElem_replicate]
    rfl
  · rw [List.getElem_replicate]
    rfl

theorem agree_land {b b' : PlaneBuffer} {plane_size : ℕ} (h : b.Agree b' plane_size) (writes : List (ℕ × ℚ)) :
    (b.land writes).Agree (b'.land writes) plane_size := by
  intro p hp
  obtain ⟨hpixel, hmask⟩ := h p hp
  refine ⟨?_, ?_⟩
  · rw [land_pixels, land_pixels, hpixel]
  · rw [land_mask, land_mask, hmask]

theorem joined_congr {b b' : PlaneBuffer} {plane_size : ℕ} (h : b.Agree b' plane_size) (img : PlaneBuffer) :
    img.joined b plane_size = img.joined b' plane_size := by
  unfold PlaneBuffer.joined
  congr 1
  · funext p
    split
    · rename_i hp
      rw [(h p hp).1]
    · rfl
  · funext p
    split
    · rename_i hp
      rw [(h p hp).2]
    · rfl

theorem joinAll_congr {omp omp' : ℕ → PlaneBuffer} {plane_size num_threads : ℕ} (hn : 0 < num_threads)
    (h : ∀ t, (omp t).Agree (omp' t) plane_size) (max_threads : ℕ) (img : PlaneBuffer) :
    joinAll plane_size num_threads max_threads omp img = joinAll plane_size num_threads max_threads omp' img := by
  unfold joinAll
  refine List.foldl_ext _ _ _ fun img t _ => ?_
  rw [joinParts_eq hn, joinParts_eq hn, joined_congr (h t)]

/-- The share of a thread is not 0, and neither is their number. -/
theorem parts_pos {plane_size max_threads : ℕ} (h : min (plane_size / max_threads) MAX_WORK_SIZE ≠ 0) :
    0 < plane_size / min (plane_size / max_threads) MAX_WORK_SIZE :=
  Nat.div_pos ((min_le_left _ _).trans (Nat.div_le_self _ _)) (Nat.pos_of_ne_zero h)

/-- Cleared, the threads' buffers hide what they held. -/
theorem getCubeIn_eq (m : CubeMemory) (h : FitsHeader) (src : FrameSource C) (max_threads : ℕ) (tid : ℕ → ℕ) (start stop : ℤ) :
    getCubeIn m h src max_threads tid start stop = getCube h src max_threads tid m.img start stop := by
  unfold getCubeIn getCube
  split
  · dsimp only
    split
    · rfl
    · rename_i hwork
      simp only [cubeLoop_eq]
      rw [joinAll_congr (parts_pos hwork) fun t => agree_land (agree_clear (m.omp t) _) _]
  · rfl

/-! ## The result's buffers -/

def CubeMemoryHidden (h : FitsHeader) (src : FrameSource C) (max_threads : ℕ) (tid : ℕ → ℕ) (start stop : ℤ) : Prop :=
  ∀ m m' : CubeMemory, (getCubeIn m h src max_threads tid start stop).Same (h.width * h.height).toNat
    (getCubeIn m' h src max_threads tid start stop)

section
variable {h : FitsHeader} {src : FrameSource C} {max_threads : ℕ} {tid : ℕ → ℕ} {start stop : ℤ}

/-- The reply is none, or the program ends in the division. -/
theorem hidden_of_noImage (hnone : h.accepts start stop = false ∨ (h.width * h.height).toNat / max_threads = 0) :
    CubeMemoryHidden h src max_threads tid start stop := by
  intro m m'
  unfold getCubeIn
  by_cases ha : h.accepts start stop = true
  · have hshare : (h.width * h.height).toNat / max_threads = 0 := hnone.resolve_left (by rw [ha]; exact Bool.noConfusion)
    simp only [ha, if_true, hshare, Nat.zero_min]
    trivial
  · rw [if_neg ha, if_neg ha]
    trivial

variable (src tid) in
/-- A pixel of the image is added to what was there, and is the same in any memory. -/
theorem first_pixel_added (ha : h.accepts start stop = true) (hshare : (h.width * h.height).toNat / max_threads ≠ 0) :
    ∃ a, ∀ m : CubeMemory, ∃ r, getCubeIn m h src max_threads tid start stop = .image r ∧ r.img.pixels 0 = m.img.pixels 0 + a := by
  have hpos : 0 < (h.width * h.height).toNat := Nat.pos_of_ne_zero fun h0 => hshare (by rw [h0, Nat.zero_div])
  have hwork : min ((h.width * h.height).toNat / max_threads) MAX_WORK_SIZE ≠ 0 := by
    have hmax : 0 < MAX_WORK_SIZE := by decide
    omega
  refine ⟨∑ t ∈ Finset.range max_threads, (PlaneBuffer.cleared.land (threadWrites h src tid (framesOf start stop) t)).pixels 0,
    fun m => ?_⟩
  rw [getCubeIn_eq]
  unfold getCube
  rw [if_pos ha]
  dsimp only
  rw [if_neg hwork]
  refine ⟨_, rfl, ?_⟩
  unfold joinAll
  simp only [joinParts_eq (parts_pos hwork), cubeLoop_eq]
  exact joined_joined_pixels _ _ (fun t => PlaneBuffer.cleared.land (threadWrites h src tid (framesOf start stop) t)) _ 0 hpos

theorem noImage_of_hidden (hhidden : CubeMemoryHidden h src max_threads tid start stop) :
    h.accepts start stop = false ∨ (h.width * h.height).toNat / max_threads = 0 := by
  by_contra hnot
  rw [not_or] at hnot
  have ha : h.accepts start stop = true := Bool.eq_true_of_not_eq_false hnot.1
  have hpos : 0 < (h.width * h.height).toNat := Nat.pos_of_ne_zero fun h0 => hnot.2 (by rw [h0, Nat.zero_div])
  -- cleared result buffers, and such as hold a 1 in every pixel
  obtain ⟨a, hadded⟩ := first_pixel_added src tid ha hnot.2
  obtain ⟨r, hr, hzero⟩ := hadded ⟨PlaneBuffer.cleared, fun _ => PlaneBuffer.cleared⟩
  obtain ⟨r', hr', hone⟩ := hadded ⟨⟨fun _ => 1, fun _ => 0⟩, fun _ => PlaneBuffer.cleared⟩
  have hsame := hhidden ⟨PlaneBuffer.cleared, fun _ => PlaneBuffer.cleared⟩ ⟨⟨fun _ => 1, fun _ => 0⟩, fun _ => PlaneBuffer.cleared⟩
  rw [hr, hr'] at hsame
  have hfirst := view_eq_iff.mp hsame.1 0 hpos
  rw [hzero, hone, add_left_inj] at hfirst
  exact absurd hfirst (by decide)

end

/-- Whatever the frames are and whichever thread takes which: the image does not depend on
    the memory if and only if there is none. -/
theorem cube_hidden_iff (h : FitsHeader) (src : FrameSource C) (max_threads : ℕ) (tid : ℕ → ℕ) (start stop : ℤ) :
    CubeMemoryHidden h src max_threads tid start stop ↔
      h.accepts start stop = false ∨ (h.width * h.height).toNat / max_threads = 0 := ⟨noImage_of_hidden, hidden_of_noImage⟩

/-! ## A cube of two frames -/

def twoFrameCube : FitsHeader := { FitsHeader.defaults [] [] with bitpix := -32, naxis := 3, width := 1, height := 1, depth := 2 }

def rawPlanes : FrameSource Codec.plain := ⟨fun _ => false, fun _ => false, fun _ _ _ => none, fun _ => some fun _ => 0x3F800000⟩

theorem a_pixel_added_to : ¬ ∀ (h : FitsHeader) (src : FrameSource Codec.plain) (max_threads : ℕ) (tid : ℕ → ℕ) (start stop : ℤ),
    1 < h.depth → CubeMemoryHidden h src max_threads tid start stop := by
  intro hall
  have hnone := noImage_of_hidden (hall twoFrameCube rawPlanes 1 (fun _ => 0) 0 1 (by decide +kernel))
  revert hnone
  decide +kernel

end FitsWebQL
