/-
  FitsWebQL.DownloadMeans — the means and the integrated values of a downloaded cube's
  frames, beside those of the file loader (`from_path`), which reads each plane at once (its
  kernel takes all pixels of a plane of fewer than 2^31).
  A frame comes in pieces, and what the kernel says of each piece is added up. The sums
  add up to the frame's. The means do not, but where the valid pixels of a frame all come
  in one piece (`frames_loaded`; `a_frame_in_two_pieces` has the mean of two pixels of
  value 1 be 2).
-/

import FitsWebQL.DownloadStream
import FitsWebQL.Spectrum

namespace FitsWebQL

open Lib.Feed Lib.Wire

/-! ## The file loader -/

structure LoadedPlane where
  frame_min : ℚ
  frame_max : ℚ
  mean : ℚ
  integrated : ℚ

/-- `from_path`'s loop over the planes, at one plane's words: one kernel call for them all. -/
def FitsHeader.loadPlane (h : FitsHeader) (omp_pixels : ℕ → Option ℚ) (omp_mask : ℕ → UInt8) (words : List UInt32) : LoadedPlane :=
  let r := makeImageSpectrumRo h.scale (words.take (foreachCount words.length)) 0
    { pixels := omp_pixels, mask := omp_mask, sum := 0, count := 0, min := FLT_MAX, max := -FLT_MAX }
  ⟨r.min, r.max, reduceSpectrum true h.cdelt r.sum r.count, reduceSpectrum false h.cdelt r.sum r.count⟩

def filePlane (file : Bytes) (hdr_len plane_size frame : ℕ) : List UInt32 :=
  wordsOf plane_size (file.drop (hdr_len + 4 * (frame * plane_size)))

/-! ## Valid pixels -/

def Scale.valid (s : Scale) (words : List UInt32) : List ℚ := words.filterMap s.word

theorem valid_append (s : Scale) (ws ws' : List UInt32) : s.valid (ws ++ ws') = s.valid ws ++ s.valid ws' :=
  List.filterMap_append

/-- The kernel sums and counts the valid pixels. -/
theorem makeImageSpectrumRo_valid (s : Scale) (ws : List UInt32) (i : ℕ) (r : Spectrum) :
    (makeImageSpectrumRo s ws i r).sum = r.sum + (s.valid ws).sum ∧
      (makeImageSpectrumRo s ws i r).count = r.count + (s.valid ws).length := by
  induction ws generalizing i r with
  | nil => exact ⟨(add_zero _).symm, rfl⟩
  | cons w ws ih =>
    obtain ⟨h1, h2⟩ := ih (i + 1) (r.addPixel i (s.word w))
    rw [makeImageSpectrumRo, h1, h2]
    unfold Scale.valid
    cases hw : s.word w with
    | none =>
      rw [List.filterMap_cons_none hw]
      exact ⟨rfl, rfl⟩
    | some tmp =>
      rw [List.filterMap_cons_some hw, List.sum_cons, List.length_cons]
      exact ⟨add_assoc _ _ _, by show r.count + 1 + _ = _; omega⟩

def meanOf (pixels : List ℚ) : ℚ := pixels.sum / pixels.length

theorem meanOf_nil : meanOf [] = 0 := by
  unfold meanOf
  rw [List.sum_nil, zero_div]

theorem reduceSpectrum_mean (cdelt3 : ℚ) (pixels : List ℚ) : reduceSpectrum true cdelt3 pixels.sum pixels.length = meanOf pixels :=
  reduceSpectrum_average cdelt3 pixels.sum pixels.length

theorem integratedOf (cdelt3 : ℚ) (pixels : List ℚ) :
    reduceSpectrum false cdelt3 pixels.sum pixels.length = pixels.sum * cdelt3 := by
  apply reduceSpectrum_integrated
  intro h
  rw [List.length_eq_zero_iff.mp h, List.sum_nil]

/-- The means of two pieces add up to the mean of both: one has no valid pixel, or their
    sums cancel. -/
def MeansAdd (a b : List ℚ) : Prop := a = [] ∨ b = [] ∨ a.sum * b.length ^ 2 + b.sum * a.length ^ 2 = 0

instance (a b : List ℚ) : Decidable (MeansAdd a b) := inferInstanceAs (Decidable (_ ∨ _ ∨ _))

theorem meanOf_append_iff (a b : List ℚ) : meanOf (a ++ b) = meanOf a + meanOf b ↔ MeansAdd a b := by
  by_cases ha : a = []
  · rw [ha, List.nil_append, meanOf_nil, zero_add]
    exact ⟨fun _ => Or.inl rfl, fun _ => rfl⟩
  by_cases hb : b = []
  · rw [hb, List.append_nil, meanOf_nil, add_zero]
    exact ⟨fun _ => Or.inr (Or.inl rfl), fun _ => rfl⟩
  have hm : (0 : ℚ) < a.length := Nat.cast_pos.mpr (List.length_pos_iff.mpr ha)
  have hn : (0 : ℚ) < b.length := Nat.cast_pos.mpr (List.length_pos_iff.mpr hb)
  have hadd : MeansAdd a b ↔ a.sum * b.length ^ 2 + b.sum * a.length ^ 2 = 0 :=
    ⟨fun h => (h.resolve_left ha).resolve_left hb, fun h => Or.inr (Or.inr h)⟩
  unfold meanOf
  rw [hadd, List.sum_append, List.length_append, Nat.cast_add, div_add_div _ _ hm.ne' hn.ne',
    div_eq_div_iff (by positivity) (by positivity)]
  constructor
  · intro h
    linear_combination -h
  · intro h
    linear_combination -h

/-! ## The words of a frame -/

def frameWords (words : List UInt32) (plane_size frame : ℕ) : List UInt32 := (words.drop (frame * plane_size)).take plane_size

/-- A frame all read is the file's plane. -/
theorem frameWords_eq {t : Download} {stream : Bytes} {plane_size frame : ℕ} (h : (frame + 1) * plane_size ≤ t.data.running_size) :
    frameWords (t.words stream) plane_size frame = filePlane stream t.data.header.length plane_size frame := by
  obtain ⟨rest, hrest⟩ := Nat.exists_eq_add_of_le h
  rw [Nat.add_mul, Nat.one_mul, Nat.add_assoc] at hrest
  unfold frameWords filePlane Download.words
  rw [hrest, wordsOf_add, List.drop_left' (wordsOf_length _ _), wordsOf_add, List.take_left' (wordsOf_length _ _), List.drop_drop]

/-- Words of the current frame. -/
theorem frameWords_current {words ws : List UInt32} {plane_size frame start : ℕ} (hlen : words.length = frame * plane_size + start)
    (hroom : start + ws.length ≤ plane_size) :
    frameWords (words ++ ws) plane_size frame = frameWords words plane_size frame ++ ws := by
  unfold frameWords
  rw [List.drop_append_of_le_length (by omega), List.take_of_length_le, List.take_of_length_le]
  · rw [List.length_drop]
    omega
  · rw [List.length_append, List.length_drop]
    omega

theorem frameWords_append {words : List UInt32} {plane_size frame : ℕ} (h : (frame + 1) * plane_size ≤ words.length)
    (ws : List UInt32) : frameWords (words ++ ws) plane_size frame = frameWords words plane_size frame := by
  rw [Nat.add_mul, Nat.one_mul] at h
  unfold frameWords
  rw [List.drop_append_of_le_length (by omega), List.take_append_of_le_length (by rw [List.length_drop]; omega)]

/-! ## What every call keeps -/

/-- A number of a frame, 0 where its plane is not there yet. -/
def Dataset.soFar (d : Dataset) (q : ℕ → ℚ) : ℚ := if (d.fits_cube d.frame).isSome then q d.frame else 0

/-- Of the frames all read and of the planes there, `q` is what `F` is of the valid pixels
    read; and a frame begun has its plane. -/
structure FrameValues (d : Dataset) (words : List UInt32) (q : ℕ → ℚ) (F : List ℚ → ℚ) : Prop where
  value : ∀ f, (f + 1) * d.fits.planeSize ≤ words.length ∨ (d.fits_cube f).isSome →
    q f = F (d.fits.scale.valid (frameWords words d.fits.planeSize f))
  plane : d.frame * d.fits.planeSize < words.length → (d.fits_cube d.frame).isSome

/-- With nothing read of a frame, or its value so far. -/
theorem soFar_eq {d : Dataset} {words : List UInt32} {q : ℕ → ℚ} {F : List ℚ → ℚ} (h : FrameValues d words q F)
    (hlen : words.length = d.running_size) (h0 : F [] = 0) :
    d.soFar q = F (d.fits.scale.valid (frameWords words d.fits.planeSize d.frame)) := by
  unfold Dataset.soFar
  split
  · exact h.value _ (Or.inr ‹_›)
  · have hf := frame_start d
    have hnone : ¬ d.frame * d.fits.planeSize < words.length := fun hlt => ‹¬ _› (h.plane hlt)
    have hnil : frameWords words d.fits.planeSize d.frame = [] := by
      unfold frameWords
      rw [List.drop_of_length_le (by omega), List.take_nil]
    rw [hnil]
    exact h0.symm

/-- Planes of other frames come with no words. -/
theorem readWords_isSome {d : Dataset} (hd : d.Sound) (he : d.hdr_end = true) (hr : d.running_size < d.fits_file_size)
    (ws : List UInt32) {f : ℕ} (hf : f ≠ d.frame) (h : ((d.readWords ws).fits_cube f).isSome) : (d.fits_cube f).isSome := by
  obtain ⟨-, -, hready, -⟩ := ready_withPlane hd he hr
  cases hp : d.fits_cube f with
  | some plane => rfl
  | none =>
    exfalso
    have hnone : d.withPlane.fits_cube f = none := by
      unfold Dataset.withPlane
      split
      · rw [newPlane_of_ne hf]
        exact hp
      · exact hp
    rw [← readWords_withPlane, readWords_other_plane hready ws (by rw [(withPlane_frame d).1]; exact hf) hnone] at h
    cases h

/-- A call on the data: the piece's value is added to the frame's, and what is added is
    what the frame's value grows by. -/
theorem frameValues_readWords {d : Dataset} {words ws : List UInt32} {q : ℕ → ℚ} {F : List ℚ → ℚ} (hd : d.Sound)
    (he : d.hdr_end = true) (hr : d.running_size < d.fits_file_size) (hdepth : 1 < d.fits.depth) (h : FrameValues d words q F)
    (hlen : words.length = d.running_size) (hroom : d.start + ws.length ≤ d.fits.planeSize) (h0 : F [] = 0)
    (hadd : F (d.fits.scale.valid (frameWords words d.fits.planeSize d.frame) ++ d.fits.scale.valid ws) =
      F (d.fits.scale.valid (frameWords words d.fits.planeSize d.frame)) + F (d.fits.scale.valid ws)) :
    FrameValues (d.readWords ws) (words ++ ws) (set q d.frame (d.soFar q + F (d.fits.scale.valid ws))) F := by
  obtain ⟨-, -, -, hplane⟩ := ready_withPlane hd he hr
  have hf := frame_start d
  constructor
  · rw [readWords_fits]
    intro f hfull
    by_cases hframe : f = d.frame
    · rw [hframe, set_same, soFar_eq h hlen h0, frameWords_current (by omega) hroom, valid_append, hadd]
    · -- the other frames that count are all read
      have hlt : f < d.frame := by
        rcases hfull with hfull | hsome
        · by_contra hle
          have hmul : (d.frame + 2) * d.fits.planeSize ≤ (f + 1) * d.fits.planeSize := Nat.mul_le_mul_right _ (by omega)
          rw [List.length_append] at hfull
          rw [Nat.add_mul] at hmul
          omega
        · by_contra hle
          have hmul : (d.frame + 1) * d.fits.planeSize ≤ f * d.fits.planeSize := Nat.mul_le_mul_right _ (by omega)
          rw [Nat.add_mul, Nat.one_mul] at hmul
          have hnone := hd.ahead he hdepth f (by have := start_lt hplane; omega)
          have hsome' := readWords_isSome hd he hr ws hframe hsome
          rw [hnone] at hsome'
          cases hsome'
      have hmul : (f + 1) * d.fits.planeSize ≤ d.frame * d.fits.planeSize := Nat.mul_le_mul_right _ hlt
      rw [set_of_ne _ _ hframe, frameWords_append (by omega)]
      exact h.value f (Or.inl (by omega))
  · rw [List.length_append, hlen, readWords_fits]
    by_cases hend : d.start + ws.length = d.fits.planeSize
    · have hrun : d.running_size + ws.length = (d.frame + 1) * d.fits.planeSize := by
        rw [Nat.add_mul, Nat.one_mul]
        omega
      have hframe : (d.readWords ws).frame = d.frame + 1 := by
        show (d.readWords ws).running_size / (d.readWords ws).fits.planeSize = _
        rw [readWords_running, readWords_fits, hrun, Nat.mul_div_cancel _ hplane]
      rw [hframe, hrun]
      exact fun hlt => absurd hlt (lt_irrefl _)
    · intro _
      obtain ⟨-, -, hready, -⟩ := ready_withPlane hd he hr
      obtain ⟨-, hstart⟩ := withPlane_frame d
      have hready' := ready_readWords hready ws fun _ => by rw [hstart, withPlane_fits]; omega
      rw [readWords_withPlane] at hready'
      apply hready'.plane
      rw [readWords_fits]
      exact hdepth

/-! ## The two spectra -/

theorem spectrum_valid (d : Dataset) (ws : List UInt32) (frame : ℕ) :
    ((d.newPlane frame).spectrum ws).sum = (d.fits.scale.valid ws).sum ∧
      ((d.newPlane frame).spectrum ws).count = (d.fits.scale.valid ws).length := by
  unfold Dataset.spectrum
  obtain ⟨h1, h2⟩ := makeImageSpectrumRo_valid (d.newPlane frame).fits.scale ws (d.newPlane frame).start
    { pixels := (d.newPlane frame).img_pixels, mask := (d.newPlane frame).img_mask, sum := 0, count := 0,
      min := (d.newPlane frame).frame_min (d.newPlane frame).frame, max := (d.newPlane frame).frame_max (d.newPlane frame).frame }
  rw [h1, h2, newPlane_fits]
  exact ⟨zero_add _, Nat.zero_add _⟩

/-- The mean of the piece is added. -/
theorem addMean_eq {d : Dataset} (hdepth : 1 < d.fits.depth) (hi : 0 < d.img_size) (ws : List UInt32) (mean_spectrum : ℕ → ℚ) :
    d.addMean ws mean_spectrum =
      set mean_spectrum d.frame (d.soFar mean_spectrum + meanOf (d.fits.scale.valid ws)) := by
  obtain ⟨h1, h2⟩ := spectrum_valid d ws d.frame
  have hmean : (if 0 < d.img_size ∧ 0 < (d.fits.scale.valid ws).length then
      (d.fits.scale.valid ws).sum / ((d.fits.scale.valid ws).length : ℚ) else 0) = meanOf (d.fits.scale.valid ws) := by
    rw [← reduceSpectrum_mean 0]
    unfold reduceSpectrum
    simp only [hi, true_and, if_true]
  unfold Dataset.addMean
  rw [if_pos hdepth]
  dsimp only
  rw [h1, h2, hmean]
  rfl

/-- The sum of the piece is added. -/
theorem readWords_integrated {d : Dataset} (hd : d.Sound) (he : d.hdr_end = true) (hr : d.running_size < d.fits_file_size)
    (hdepth : 1 < d.fits.depth) (ws : List UInt32) :
    (d.readWords ws).integrated_spectrum =
      set d.integrated_spectrum d.frame (d.soFar d.integrated_spectrum + (d.fits.scale.valid ws).sum * d.fits.cdelt) := by
  obtain ⟨plane, -, hread⟩ := readWords_newPlane hd he hr hdepth ws
  have hsum := (makeImageSpectrumRo_valid (d.newPlane d.frame).fits.scale ws d.start
    { pixels := (d.newPlane d.frame).img_pixels, mask := (d.newPlane d.frame).img_mask, sum := 0, count := 0,
      min := (d.newPlane d.frame).frame_min d.frame, max := (d.newPlane d.frame).frame_max d.frame }).1
  have hnew : (d.newPlane d.frame).integrated_spectrum d.frame = d.soFar d.integrated_spectrum ∧
      ∀ v, set (d.newPlane d.frame).integrated_spectrum d.frame v = set d.integrated_spectrum d.frame v := by
    unfold Dataset.newPlane Dataset.soFar
    cases d.fits_cube d.frame with
    | some _ => exact ⟨rfl, fun _ => rfl⟩
    | none => exact ⟨set_same _ _ _, fun v => set_set _ _ _ v⟩
  have hadd : ((d.newPlane d.frame).addWords d.frame d.start plane ws).integrated_spectrum =
      set d.integrated_spectrum d.frame (d.soFar d.integrated_spectrum + (d.fits.scale.valid ws).sum * d.fits.cdelt) := by
    unfold Dataset.addWords
    dsimp only
    rw [hsum, hnew.2, hnew.1, newPlane_fits, zero_add]
  rw [hread]
  split
  · obtain ⟨cube, zfp, hend⟩ := endPlane_frame ((d.newPlane d.frame).addWords d.frame d.start plane ws) d.frame
    rw [hend]
    exact hadd
  · exact hadd

/-! ## Runs -/

/-- The valid pixels of the current frame read so far, and those of the piece, have means
    that add up. -/
def Download.PieceAdds (t : Download) (stream contents : Bytes) : Prop :=
  let d := t.data
  d.hdr_end = true → d.running_size < d.fits_file_size → 1 < d.fits.depth →
    MeansAdd (d.fits.scale.valid (frameWords (t.words stream) d.fits.planeSize d.frame)) (d.fits.scale.valid (t.wordsRead contents))

instance (t : Download) (stream contents : Bytes) : Decidable (t.PieceAdds stream contents) :=
  inferInstanceAs (Decidable (_ → _ → _ → _))

structure Download.Values (t : Download) (stream : Bytes) (q : Download → ℕ → ℚ) (F : FitsHeader → List ℚ → ℚ) : Prop where
  streamed : t.Streamed stream
  header : t.data.hdr_end = false → q t = fun _ => 0
  value : t.data.hdr_end = true → 1 < t.data.fits.depth → FrameValues t.data (t.words stream) (q t) (F t.data.fits)

/-- A spectrum that starts at 0 and to which every call adds what `F` is of its piece. -/
structure Accumulates (q : Download → ℕ → ℚ) (F : FitsHeader → List ℚ → ℚ) : Prop where
  nil : ∀ h, F h [] = 0
  init : ∀ fits, q (Download.init fits) = fun _ => 0
  header : ∀ t c t', t.data.hdr_end = false → writeData t c = some t' → q t' = q t
  data : ∀ t c t', t.data.Sound → t.data.hdr_end = true → t.data.running_size < t.data.fits_file_size → 1 < t.data.fits.depth →
    writeData t c = some t' →
    q t' = set (q t) t.data.frame (t.data.soFar (q t) + F t.data.fits (t.data.fits.scale.valid (t.wordsRead c)))

theorem values_init {q : Download → ℕ → ℚ} {F : FitsHeader → List ℚ → ℚ} (ha : Accumulates q F) (fits : FitsHeader) :
    (Download.init fits).Values [] q F where
  streamed := streamed_init fits
  header _ := ha.init fits
  value h := by cases h

/-- With nothing read, every frame's value is that of no pixels. -/
theorem frameValues_nil {d : Dataset} {q : ℕ → ℚ} {F : List ℚ → ℚ} (hq : q = fun _ => 0) (h0 : F [] = 0) :
    FrameValues d [] q F where
  value f _ := by
    have hnil : frameWords [] d.fits.planeSize f = [] := by
      unfold frameWords
      rw [List.drop_nil, List.take_nil]
    rw [hq, hnil]
    exact h0.symm
  plane h := by cases h

theorem values_writeData {q : Download → ℕ → ℚ} {F : FitsHeader → List ℚ → ℚ} (ha : Accumulates q F) {t t' : Download}
    {stream c : Bytes} (ht : t.Values stream q F) (h : writeData t c = some t')
    (hadd : t.data.hdr_end = true → t.data.running_size < t.data.fits_file_size → 1 < t.data.fits.depth →
      let a := t.data.fits.scale.valid (frameWords (t.words stream) t.data.fits.planeSize t.data.frame)
      let b := t.data.fits.scale.valid (t.wordsRead c)
      F t.data.fits (a ++ b) = F t.data.fits a + F t.data.fits b) : t'.Values (stream ++ c) q F := by
  obtain ⟨hstreamed, hwords⟩ := streamed_writeData ht.streamed h
  have hs := ht.streamed.sound
  by_cases he : t.data.hdr_end = true
  · by_cases hr : t.data.running_size < t.data.fits_file_size
    · have hshape := writeData_shape he h
      have he' : t'.data.hdr_end = true := (congrArg (fun s => s.1.2.2) hshape).trans he
      have hfits : t'.data.fits = t.data.fits := congrArg (fun s => s.1.2.1) hshape
      refine ⟨hstreamed, fun hend => absurd (he'.symm.trans hend) Bool.noConfusion, fun _ hdepth => ?_⟩
      rw [hfits] at hdepth ⊢
      obtain ⟨-, -, hroom⟩ := wordsRead_room (c := c) hs he hr
      rw [hwords, ha.data t c t' hs he hr hdepth h]
      have hdata : t'.data = t.data.readWords (t.wordsRead c) := by
        rcases writeData_data he h with ⟨hr', -⟩ | ⟨-, ws, hws, rfl⟩
        · omega
        · rw [wordsRead_eq he hr, ← hws]
      rw [hdata]
      exact frameValues_readWords hs he hr hdepth (ht.value he hdepth) (words_length _ _) (hroom hdepth) (ha.nil _)
        (hadd he hr hdepth)
    · rcases writeData_data he h with ⟨-, rfl⟩ | ⟨hr', -⟩
      · rw [wordsRead_done (by omega), List.append_nil] at hwords
        refine ⟨hstreamed, ht.header, fun _ hdepth => ?_⟩
        rw [hwords]
        exact ht.value he hdepth
      · exact absurd hr' hr
  · have he' : t.data.hdr_end = false := by simpa using he
    have hq := (ha.header t c t' he' h).trans (ht.header he')
    have hnil : t'.words (stream ++ c) = [] := by
      rw [hwords, wordsRead_header he', List.append_nil, ← List.length_eq_zero_iff, words_length, hs.running he']
    refine ⟨hstreamed, fun _ => hq, fun _ _ => ?_⟩
    rw [hnil]
    exact frameValues_nil hq (ha.nil _)

theorem mean_accumulates : Accumulates (fun t => t.mean_spectrum) fun _ => meanOf where
  nil _ := meanOf_nil
  init _ := rfl
  header t c t' he h := by
    rcases writeData_header he h with rfl | rfl
    · rfl
    · rfl
  data t c t' hs he hr hdepth h := by
    obtain ⟨-, -, -, hplane⟩ := ready_withPlane hs he hr
    rcases writeData_data he h with ⟨hr', -⟩ | ⟨-, ws, hws, rfl⟩
    · omega
    · rw [wordsRead_eq he hr, ← hws]
      exact addMean_eq hdepth (by rw [hs.image he]; exact hplane) ws t.mean_spectrum

theorem integrated_accumulates :
    Accumulates (fun t => t.data.integrated_spectrum) fun h pixels => pixels.sum * h.cdelt where
  nil _ := by rw [List.sum_nil, zero_mul]
  init _ := rfl
  header t c t' he h := by
    rcases writeData_header he h with rfl | rfl
    · rfl
    · dsimp only
      rw [readUnit_eq]
      split
      · rfl
      · rfl
  data t c t' hs he hr hdepth h := by
    rcases writeData_data he h with ⟨hr', -⟩ | ⟨-, ws, hws, rfl⟩
    · omega
    · rw [wordsRead_eq he hr, ← hws]
      exact readWords_integrated hs he hr hdepth ws

/-- What the loader makes of a plane whose pixels an int can count. -/
theorem loadPlane_eq (h : FitsHeader) (omp_pixels : ℕ → Option ℚ) (omp_mask : ℕ → UInt8) {ws : List UInt32}
    (hws : ws.length < 2 ^ 31) : (h.loadPlane omp_pixels omp_mask ws).mean = meanOf (h.scale.valid ws) ∧
      (h.loadPlane omp_pixels omp_mask ws).integrated = (h.scale.valid ws).sum * h.cdelt := by
  obtain ⟨h1, h2⟩ := makeImageSpectrumRo_valid h.scale ws 0
    { pixels := omp_pixels, mask := omp_mask, sum := 0, count := 0, min := FLT_MAX, max := -FLT_MAX }
  unfold FitsHeader.loadPlane
  dsimp only
  rw [foreachCount_of_lt hws, List.take_length, h1, h2, zero_add, Nat.zero_add]
  exact ⟨reduceSpectrum_mean _ _, integratedOf _ _⟩

/-- However the stream is cut: the integrated value of a frame all read is that of its valid
    pixels, and the loader's, and so is its mean if every piece's mean adds up with that of
    the frame's pieces before it. -/
theorem frames_loaded (fits : FitsHeader) (cs : List Bytes) (t : Download) (h : feedAll writeData (Download.init fits) cs = some t)
    (he : t.data.hdr_end = true) (hdepth : 1 < t.data.fits.depth) (f : ℕ)
    (hf : (f + 1) * t.data.fits.planeSize ≤ t.data.running_size) (omp_pixels : ℕ → Option ℚ) (omp_mask : ℕ → UInt8) :
    let words := filePlane cs.flatten t.data.header.length t.data.fits.planeSize f
    let plane := t.data.fits.loadPlane omp_pixels omp_mask words
    (t.data.integrated_spectrum f = (t.data.fits.scale.valid words).sum * t.data.fits.cdelt ∧
      (t.data.fits.planeSize < 2 ^ 31 → t.data.integrated_spectrum f = plane.integrated)) ∧
    (Along writeData Download.PieceAdds (Download.init fits) [] cs →
      t.mean_spectrum f = meanOf (t.data.fits.scale.valid words) ∧
        (t.data.fits.planeSize < 2 ^ 31 → t.mean_spectrum f = plane.mean)) := by
  have hwords := words_length t cs.flatten
  have hlen : (filePlane cs.flatten t.data.header.length t.data.fits.planeSize f).length = t.data.fits.planeSize :=
    wordsOf_length _ _
  have hloaded : t.data.fits.planeSize < 2 ^ 31 → _ ∧ _ := fun hplane =>
    loadPlane_eq t.data.fits omp_pixels omp_mask (hlen.trans_lt hplane)
  dsimp only
  have hintegrated : t.data.integrated_spectrum f =
      (t.data.fits.scale.valid (filePlane cs.flatten t.data.header.length t.data.fits.planeSize f)).sum * t.data.fits.cdelt := by
    rw [← frameWords_eq hf]
    have hv := feedAll_along (fun stream (t : Download) => t.Values stream (fun t => t.data.integrated_spectrum)
        fun h pixels => pixels.sum * h.cdelt)
      (fun _ _ _ _ ht _ hc => values_writeData integrated_accumulates ht hc fun _ _ _ => by dsimp only; rw [List.sum_append, add_mul])
      cs (values_init integrated_accumulates fits) (along_of_forall (fun _ _ _ => trivial) _ _ _) h
    exact (hv.value he hdepth).value f (Or.inl (by rw [List.nil_append, hwords]; exact hf))
  refine ⟨⟨hintegrated, fun hplane => hintegrated.trans (hloaded hplane).2.symm⟩, fun hadds => ?_⟩
  have hmean : t.mean_spectrum f =
      meanOf (t.data.fits.scale.valid (filePlane cs.flatten t.data.header.length t.data.fits.planeSize f)) := by
    rw [← frameWords_eq hf]
    have hv := feedAll_along (fun stream (t : Download) => t.Values stream (fun t => t.mean_spectrum) fun _ => meanOf)
      (fun _ _ _ _ ht hp hc => values_writeData mean_accumulates ht hc fun he hr hd => (meanOf_append_iff _ _).mpr (hp he hr hd))
      cs (values_init mean_accumulates fits) hadds h
    exact (hv.value he hdepth).value f (Or.inl (by rw [List.nil_append, hwords]; exact hf))
  exact ⟨hmean, fun hplane => hmean.trans (hloaded hplane).1.symm⟩

def pixelPairs : Bytes :=
  headerUnit ["BITPIX  = -32", "NAXIS   = 3", "NAXIS1  = 2", "NAXIS2  = 1", "NAXIS3  = 2", "END"]

theorem pixelPairs_cards : ReadsCards {} { bitpix := -32, naxis := 3, width := 2, height := 1, depth := 2 }
    ["BITPIX  = -32", "NAXIS   = 3", "NAXIS1  = 2", "NAXIS2  = 1", "NAXIS3  = 2", "END"] := by
  decide +kernel

theorem feed_pixelPairs (cs : List Bytes) :
    feedAll writeData (Download.init {}) (pixelPairs :: cs) =
      feedAll writeData (Download.headerRead { bitpix := -32, naxis := 3, width := 2, height := 1, depth := 2 } pixelPairs []) cs :=
  feedAll_headerUnit pixelPairs_cards (by decide) cs

/-- Nothing is asked of the header. -/
theorem pieceAdds_pixelPairs {cs : List Bytes}
    (h : Along writeData Download.PieceAdds
      (Download.headerRead { bitpix := -32, naxis := 3, width := 2, height := 1, depth := 2 } pixelPairs []) pixelPairs cs) :
    Along writeData Download.PieceAdds (Download.init {}) [] (pixelPairs :: cs) := by
  refine ⟨fun he => absurd he (by decide), fun t' ht' => ?_⟩
  have hread := @writeData_headerUnit _ _ _ pixelPairs_cards (by decide) [] (by decide)
  rw [List.append_nil] at hread
  obtain rfl := Option.some.inj (hread.symm.trans ht')
  exact h

def pixelOfOne : Bytes := [0x3F, 0x80, 0, 0]

/-- A frame in one piece. -/
theorem frames_loaded_one_piece :
    ∃ t, feedAll writeData (Download.init {}) [pixelPairs, pixelOfOne ++ pixelOfOne] = some t ∧ t.mean_spectrum 0 = 1 ∧
      t.mean_spectrum 0 = (t.data.fits.loadPlane (fun _ => some 0) (fun _ => 0)
        (filePlane [pixelPairs, pixelOfOne ++ pixelOfOne].flatten t.data.header.length t.data.fits.planeSize 0)).mean := by
  have hread : (feedAll writeData (Download.init {}) [pixelPairs, pixelOfOne ++ pixelOfOne]).map (fun t =>
      (t.data.hdr_end, t.data.fits.depth, t.data.fits.planeSize, t.data.running_size, t.mean_spectrum 0)) =
      some (true, 2, 2, 2, 1) := by
    rw [feed_pixelPairs]
    decide +kernel
  obtain ⟨t, ht, hvalues⟩ := Option.map_eq_some_iff.mp hread
  simp only [Prod.mk.injEq] at hvalues
  obtain ⟨he, hdepth, hplane, hrun, hmean⟩ := hvalues
  refine ⟨t, ht, hmean, ?_⟩
  exact ((frames_loaded {} _ t ht he (by rw [hdepth]; decide) 0 (by rw [hplane, hrun]) (fun _ => some 0) (fun _ => 0)).2
    (pieceAdds_pixelPairs (by decide +kernel))).2 (by rw [hplane]; decide)

/-- A frame of two pixels of value 1, a pixel a piece: its mean is 2. -/
theorem a_frame_in_two_pieces :
    ¬ ∀ (fits : FitsHeader) (cs : List Bytes) (t : Download), feedAll writeData (Download.init fits) cs = some t →
      t.data.hdr_end = true → 1 < t.data.fits.depth → ∀ f, (f + 1) * t.data.fits.planeSize ≤ t.data.running_size →
      t.mean_spectrum f = (t.data.fits.loadPlane (fun _ => some 0) (fun _ => 0)
        (filePlane cs.flatten t.data.header.length t.data.fits.planeSize f)).mean := by
  have hread : (feedAll writeData (Download.init {}) [pixelPairs, pixelOfOne, pixelOfOne]).map (fun t =>
      ((t.data.hdr_end, t.data.fits.depth, t.data.fits.planeSize, t.data.running_size), (t.mean_spectrum 0,
        (t.data.fits.loadPlane (fun _ => some 0) (fun _ => 0)
          (filePlane [pixelPairs, pixelOfOne, pixelOfOne].flatten t.data.header.length t.data.fits.planeSize 0)).mean))) =
      some ((true, 2, 2, 2), (2, 1)) := by
    rw [feed_pixelPairs]
    decide +kernel
  obtain ⟨t, ht, hvalues⟩ := Option.map_eq_some_iff.mp hread
  simp only [Prod.mk.injEq] at hvalues
  obtain ⟨⟨he, hdepth, hplane, hrun⟩, hmean, hloaded⟩ := hvalues
  intro h
  have hsame := h {} _ t ht he (by rw [hdepth]; decide) 0 (by rw [hplane, hrun])
  rw [hmean, hloaded] at hsame
  revert hsame
  decide

end FitsWebQL
