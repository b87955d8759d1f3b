/-
  FitsWebQL.DownloadSteps — the words of a call of `scan_fits_data`, read at once and
  read one by one: in exact arithmetic the same (`readWords_snoc`), short of the plane's
  end. `Dataset.Sound` is what holds of a data set all along.
-/

import FitsWebQL.Download

namespace FitsWebQL

/-! ## Kernels, run on one piece after another -/

@[simp] theorem set_same {β : Type} (a : ℕ → β) (i : ℕ) (v : β) : set a i v i = v := if_pos rfl

theorem set_of_ne {β : Type} (a : ℕ → β) {i j : ℕ} (v : β) (h : j ≠ i) : set a i v j = a j := if_neg h

@[simp] theorem set_set {β : Type} (a : ℕ → β) (i : ℕ) (v w : β) : set (set a i v) i w = set a i w := by
  funext j
  by_cases h : j = i
  · rw [h, set_same, set_same]
  · rw [set_of_ne _ _ h, set_of_ne _ _ h, set_of_ne _ _ h]

@[simp] theorem set_eq_self {β : Type} (a : ℕ → β) (i : ℕ) : set a i (a i) = a := by
  funext j
  by_cases h : j = i
  · rw [h, set_same]
  · rw [set_of_ne _ _ h]

theorem fits2float32_append (s : Scale) (ws ws' : List UInt32) (i : ℕ) (d : Dataset) :
    fits2float32 s (ws ++ ws') i d = fits2float32 s ws' (i + ws.length) (fits2float32 s ws i d) := by
  induction ws generalizing i d with
  | nil => rfl
  | cons w ws ih =>
    rw [List.cons_append, fits2float32, ih, fits2float32, List.length_cons]
    congr 1
    omega

/-- The kernel leaves everything but the image and the extrema alone. -/
theorem fits2float32_frame (s : Scale) (ws : List UInt32) (i : ℕ) (d : Dataset) :
    ∃ pixels mask dmin dmax, dmin ≤ d.dmin ∧ d.dmax ≤ dmax ∧
      fits2float32 s ws i d = { d with img_pixels := pixels, img_mask := mask, dmin := dmin, dmax := dmax } := by
  induction ws generalizing i d with
  | nil => exact ⟨d.img_pixels, d.img_mask, d.dmin, d.dmax, le_refl _, le_refl _, rfl⟩
  | cons w ws ih =>
    obtain ⟨pixels, mask, dmin, dmax, h1, h2, h3⟩ := ih (i + 1) (d.setPixel i (s.word w))
    rw [fits2float32, h3]
    cases hw : s.word w with
    | none =>
      rw [hw] at h1 h2
      exact ⟨pixels, mask, dmin, dmax, h1, h2, rfl⟩
    | some tmp =>
      rw [hw] at h1 h2
      exact ⟨pixels, mask, dmin, dmax, h1.trans (min_le_left _ _), (le_max_left _ _).trans h2, rfl⟩

def Dataset.readTo (d : Dataset) (n : ℕ) : Dataset := { d with running_size := n }

theorem readTo_readTo (d : Dataset) (n m : ℕ) : (d.readTo n).readTo m = d.readTo m := rfl

theorem fits2float32_readTo (s : Scale) (ws : List UInt32) (i n : ℕ) (d : Dataset) :
    fits2float32 s ws i (d.readTo n) = (fits2float32 s ws i d).readTo n := by
  induction ws generalizing i d with
  | nil => rfl
  | cons w ws ih =>
    rw [fits2float32, fits2float32, ← ih]
    congr 1
    cases s.word w <;> rfl

theorem makeImageSpectrumRo_append (s : Scale) (ws ws' : List UInt32) (i : ℕ) (r : Spectrum) :
    makeImageSpectrumRo s (ws ++ ws') i r = makeImageSpectrumRo s ws' (i + ws.length) (makeImageSpectrumRo s ws i r) := by
  induction ws generalizing i r with
  | nil => rfl
  | cons w ws ih =>
    rw [List.cons_append, makeImageSpectrumRo, ih, makeImageSpectrumRo, List.length_cons]
    congr 1
    omega

/-- A sum and a count from which the loop starts are added to. -/
theorem makeImageSpectrumRo_from (s : Scale) (ws : List UInt32) (i : ℕ) (r : Spectrum) (sum : ℚ) (count : ℕ) :
    makeImageSpectrumRo s ws i { r with sum := sum + r.sum, count := count + r.count } =
      let r' := makeImageSpectrumRo s ws i r
      { r' with sum := sum + r'.sum, count := count + r'.count } := by
  induction ws generalizing i r with
  | nil => rfl
  | cons w ws ih =>
    rw [makeImageSpectrumRo, makeImageSpectrumRo, ← ih]
    congr 1
    cases s.word w with
    | none => rfl
    | some tmp =>
      simp only [Spectrum.addPixel, add_assoc]

theorem makeImageSpectrumRo_extrema (s : Scale) (ws : List UInt32) (i : ℕ) (r : Spectrum) :
    (makeImageSpectrumRo s ws i r).min ≤ r.min ∧ r.max ≤ (makeImageSpectrumRo s ws i r).max := by
  induction ws generalizing i r with
  | nil => exact ⟨le_refl _, le_refl _⟩
  | cons w ws ih =>
    rw [makeImageSpectrumRo]
    obtain ⟨h1, h2⟩ := ih (i + 1) (r.addPixel i (s.word w))
    cases hw : s.word w with
    | none =>
      rw [hw] at h1 h2
      exact ⟨h1, h2⟩
    | some tmp =>
      rw [hw] at h1 h2
      exact ⟨h1.trans (min_le_left _ _), (le_max_left _ _).trans h2⟩

/-- With no valid word there is no sum. -/
theorem makeImageSpectrumRo_count (s : Scale) (ws : List UInt32) (i : ℕ) (r : Spectrum) (hr : r.count = 0 → r.sum = 0)
    (h : (makeImageSpectrumRo s ws i r).count = 0) : (makeImageSpectrumRo s ws i r).sum = 0 := by
  induction ws generalizing i r with
  | nil => exact hr h
  | cons w ws ih =>
    rw [makeImageSpectrumRo] at h ⊢
    apply ih _ _ _ h
    cases s.word w with
    | none => exact hr
    | some tmp =>
      intro hc
      exact absurd hc (Nat.succ_ne_zero _)

theorem memcpyWords_append (plane : RawPlane) (i : ℕ) (ws ws' : List UInt32) :
    memcpyWords (memcpyWords plane i ws) (i + ws.length) ws' = memcpyWords plane i (ws ++ ws') := by
  funext j
  unfold memcpyWords
  rw [List.length_append]
  by_cases h2 : i + ws.length ≤ j ∧ j < i + ws.length + ws'.length
  · rw [if_pos h2, if_pos (by omega), List.getElem?_append_right (by omega)]
    congr 1
    omega
  · rw [if_neg h2]
    by_cases h1 : i ≤ j ∧ j < i + ws.length
    · rw [if_pos h1, if_pos (by omega), List.getElem?_append_left (by omega)]
    · rw [if_neg h1, if_neg (by omega)]

/-! ## One plane -/

theorem frame_start (d : Dataset) : d.frame * d.fits.planeSize + d.start = d.running_size := by
  unfold Dataset.start Dataset.frame
  exact Nat.add_sub_of_le (Nat.div_mul_le_self _ _)

theorem start_lt {d : Dataset} (h : 0 < d.fits.planeSize) : d.start < d.fits.planeSize := by
  have h1 := Nat.div_add_mod d.running_size d.fits.planeSize
  have h2 := Nat.mod_lt d.running_size h
  have h3 := frame_start d
  unfold Dataset.frame at h3
  rw [Nat.mul_comm] at h3
  omega

/-- Short of the plane's end the frame stays and the start moves on. -/
theorem frame_of_running {d d' : Dataset} {n : ℕ} (hf : d'.fits = d.fits) (hr : d'.running_size = d.running_size + n)
    (hn : d.start + n < d.fits.planeSize) : d'.frame = d.frame ∧ d'.start = d.start + n := by
  have h := frame_start d
  have hframe : d'.frame = d.frame := by
    show d'.running_size / d'.fits.planeSize = d.frame
    rw [hf, hr, ← h, Nat.add_assoc, Nat.add_comm, Nat.add_mul_div_right _ _ (by omega), Nat.div_eq_of_lt hn, Nat.zero_add]
  have h' := frame_start d'
  rw [hframe, hf, hr] at h'
  exact ⟨hframe, by omega⟩

def Dataset.addWords (d : Dataset) (frame start : ℕ) (plane : RawPlane) (words : List UInt32) : Dataset :=
  let r := makeImageSpectrumRo d.fits.scale words start
    { pixels := d.img_pixels, mask := d.img_mask, sum := 0, count := 0, min := d.frame_min frame, max := d.frame_max frame }
  { d with
    fits_cube := set d.fits_cube frame (some (memcpyWords plane start words))
    img_pixels := r.pixels
    img_mask := r.mask
    dmin := min d.dmin r.min
    dmax := max d.dmax r.max
    frame_min := set d.frame_min frame r.min
    frame_max := set d.frame_max frame r.max
    integrated_spectrum := set d.integrated_spectrum frame (d.integrated_spectrum frame + r.sum * d.fits.cdelt) }

theorem newPlane_of_isSome {d : Dataset} {frame : ℕ} (h : (d.fits_cube frame).isSome) : d.newPlane frame = d := by
  obtain ⟨plane, hp⟩ := Option.isSome_iff_exists.mp h
  unfold Dataset.newPlane
  rw [hp]

theorem readPlane_eq {d : Dataset} {plane : RawPlane} (hi : 0 < d.img_size) (hp : d.fits_cube d.frame = some plane)
    (words : List UInt32) :
    d.readPlane words =
      if d.start + words.length = d.fits.planeSize then (d.addWords d.frame d.start plane words).endPlane d.frame
      else d.addWords d.frame d.start plane words := by
  have hsum : ∀ r : Spectrum, (r.count = 0 → r.sum = 0) →
      (if 0 < r.count then r.sum * d.fits.cdelt else 0) = r.sum * d.fits.cdelt := by
    intro r hr
    by_cases hc : 0 < r.count
    · rw [if_pos hc]
    · rw [if_neg hc, hr (by omega), zero_mul]
  unfold Dataset.readPlane
  dsimp only
  rw [newPlane_of_isSome (by rw [hp]; rfl), hp]
  have hadd : Dataset.addSpectrum
      { d with fits_cube := set d.fits_cube d.frame ((some plane).map fun plane => memcpyWords plane d.start words) }
      words = d.addWords d.frame d.start plane words := by
    unfold Dataset.addSpectrum Dataset.spectrum
    rw [if_pos hi]
    dsimp only
    rw [hsum]
    · rfl
    · apply makeImageSpectrumRo_count
      exact fun _ => rfl
  rw [hadd]
  rfl

theorem addWords_append (d : Dataset) (frame start : ℕ) (plane : RawPlane) (ws ws' : List UInt32) :
    (d.addWords frame start plane ws).addWords frame (start + ws.length) (memcpyWords plane start ws) ws' =
      d.addWords frame start plane (ws ++ ws') := by
  unfold Dataset.addWords
  dsimp only
  rw [makeImageSpectrumRo_append, memcpyWords_append]
  set r := makeImageSpectrumRo d.fits.scale ws start
    { pixels := d.img_pixels, mask := d.img_mask, sum := 0, count := 0, min := d.frame_min frame, max := d.frame_max frame }
    with hr
  have hfrom := makeImageSpectrumRo_from d.fits.scale ws' (start + ws.length) { r with sum := 0, count := 0 } r.sum r.count
  have hext := makeImageSpectrumRo_extrema d.fits.scale ws' (start + ws.length) { r with sum := 0, count := 0 }
  dsimp only at hfrom hext
  rw [add_zero, add_zero] at hfrom
  rw [hfrom]
  dsimp only
  rw [set_same, set_same, set_same, set_set, set_set, set_set, set_set, min_assoc, max_assoc, min_eq_right hext.1,
    max_eq_right hext.2, add_assoc, ← add_mul]

theorem addWords_nil {d : Dataset} {frame start : ℕ} {plane : RawPlane} (hp : d.fits_cube frame = some plane)
    (hmin : d.dmin ≤ d.frame_min frame) (hmax : d.frame_max frame ≤ d.dmax) : d.addWords frame start plane [] = d := by
  have hcopy : memcpyWords plane start [] = plane := by
    funext j
    unfold memcpyWords
    rw [if_neg (by rw [List.length_nil]; omega)]
  unfold Dataset.addWords
  dsimp only [makeImageSpectrumRo]
  rw [hcopy, ← hp, set_eq_self, set_eq_self, set_eq_self, min_eq_left hmin, max_eq_left hmax, zero_mul, add_zero,
    set_eq_self]

theorem endPlane_readTo (d : Dataset) (frame n : ℕ) : (d.readTo n).endPlane frame = (d.endPlane frame).readTo n := by
  have hz : ∀ k, (d.readTo n).zfpCompressCube k = (d.zfpCompressCube k).readTo n := by
    intro k
    unfold Dataset.zfpCompressCube Dataset.readTo
    dsimp only
    split
    · rfl
    · rfl
  have hdepth : (d.readTo n).fits = d.fits := rfl
  unfold Dataset.endPlane
  dsimp only
  rw [hz, hz, hdepth]
  split
  · split
    · rfl
    · split
      · rfl
      · rfl
  · rfl

/-! ## What reading leaves alone -/

def Dataset.shape (d : Dataset) : (Bytes × FitsHeader × Bool) × (ℕ × ℕ × ℕ) :=
  ((d.header, d.fits, d.hdr_end), (d.fits_file_size, d.img_size, d.cube_size))

theorem newPlane_shape (d : Dataset) (frame : ℕ) : (d.newPlane frame).shape = d.shape := by
  unfold Dataset.newPlane
  split
  · rfl
  · rfl

/-- The end of a plane only compresses planes. -/
theorem endPlane_frame (d : Dataset) (frame : ℕ) :
    ∃ cube zfp, d.endPlane frame = { d with fits_cube := cube, zfp_compressed := zfp } := by
  have hz : ∀ k, ∃ cube zfp, d.zfpCompressCube k = { d with fits_cube := cube, zfp_compressed := zfp } := by
    intro k
    unfold Dataset.zfpCompressCube
    dsimp only
    split
    · exact ⟨_, _, rfl⟩
    · exact ⟨d.fits_cube, d.zfp_compressed, rfl⟩
  unfold Dataset.endPlane
  dsimp only
  split
  · split
    · exact hz _
    · split
      · exact hz _
      · exact ⟨d.fits_cube, d.zfp_compressed, rfl⟩
  · exact ⟨d.fits_cube, d.zfp_compressed, rfl⟩

/-- It brings no plane back. -/
theorem endPlane_none {d : Dataset} {frame f : ℕ} (h : d.fits_cube f = none) : (d.endPlane frame).fits_cube f = none := by
  have hz : ∀ k, (d.zfpCompressCube k).fits_cube f = none := by
    intro k
    unfold Dataset.zfpCompressCube
    dsimp only
    split
    · dsimp only
      split
      · rfl
      · exact h
    · exact h
  unfold Dataset.endPlane
  dsimp only
  split
  · split
    · exact hz _
    · split
      · exact hz _
      · exact h
  · exact h

theorem endPlane_shape (d : Dataset) (frame : ℕ) : (d.endPlane frame).shape = d.shape := by
  obtain ⟨cube, zfp, h⟩ := endPlane_frame d frame
  rw [h]
  rfl

theorem readPlane_shape (d : Dataset) (ws : List UInt32) : (d.readPlane ws).shape = d.shape := by
  have hadd : ∀ d : Dataset, (d.addSpectrum ws).shape = d.shape := by
    intro d
    unfold Dataset.addSpectrum
    split
    · rfl
    · rfl
  unfold Dataset.readPlane
  dsimp only
  split
  · rw [endPlane_shape, hadd]
    exact newPlane_shape d d.frame
  · rw [hadd]
    exact newPlane_shape d d.frame

theorem readWords_shape (d : Dataset) (ws : List UInt32) : (d.readWords ws).shape = d.shape := by
  have himage : (d.readImage ws).shape = d.shape := by
    obtain ⟨pixels, mask, dmin, dmax, _, _, hf⟩ := fits2float32_frame d.fits.scale ws d.running_size d
    unfold Dataset.readImage
    split
    · rw [hf]
      rfl
    · rfl
  have hd' : (if d.fits.depth = 1 then d.readImage ws else d).shape = d.shape := by
    split
    · exact himage
    · rfl
  unfold Dataset.readWords
  dsimp only
  split
  · exact (readPlane_shape _ ws).trans hd'
  · exact hd'

section
variable (d : Dataset) (ws : List UInt32)

theorem readWords_header : (d.readWords ws).header = d.header := congrArg (fun s => s.1.1) (readWords_shape d ws)
theorem readWords_fits : (d.readWords ws).fits = d.fits := congrArg (fun s => s.1.2.1) (readWords_shape d ws)
theorem readWords_hdr_end : (d.readWords ws).hdr_end = d.hdr_end := congrArg (fun s => s.1.2.2) (readWords_shape d ws)
theorem readWords_total : (d.readWords ws).fits_file_size = d.fits_file_size :=
  congrArg (fun s => s.2.1) (readWords_shape d ws)
theorem readWords_img_size : (d.readWords ws).img_size = d.img_size := congrArg (fun s => s.2.2.1) (readWords_shape d ws)
theorem readWords_cube_size : (d.readWords ws).cube_size = d.cube_size := congrArg (fun s => s.2.2.2) (readWords_shape d ws)
theorem readWords_running : (d.readWords ws).running_size = d.running_size + ws.length := rfl

end

/-! ## Word by word -/

/-- What the kernels need: an image, and in a cube the plane to which the words go. -/
structure Dataset.Ready (d : Dataset) : Prop where
  image : 0 < d.img_size
  plane : 1 < d.fits.depth → (d.fits_cube d.frame).isSome

theorem readWords_image {d : Dataset} (h : d.fits.depth = 1) (hi : 0 < d.img_size) (ws : List UInt32) :
    d.readWords ws = (fits2float32 d.fits.scale ws d.running_size d).readTo (d.running_size + ws.length) := by
  obtain ⟨pixels, mask, dmin, dmax, _, _, hf⟩ := fits2float32_frame d.fits.scale ws d.running_size d
  unfold Dataset.readWords Dataset.readImage
  rw [if_pos h, if_pos hi, hf]
  dsimp only
  rw [if_neg (by omega)]
  rfl

theorem readWords_cube {d : Dataset} (h : 1 < d.fits.depth) (ws : List UInt32) :
    d.readWords ws = (d.readPlane ws).readTo (d.running_size + ws.length) := by
  have hdepth : d.fits.depth ≠ 1 := by omega
  unfold Dataset.readWords
  rw [if_neg hdepth]
  dsimp only
  rw [if_pos h]
  rfl

theorem readWords_plane {d : Dataset} {plane : RawPlane} (h : 1 < d.fits.depth) (hi : 0 < d.img_size)
    (hp : d.fits_cube d.frame = some plane) (ws : List UInt32) :
    d.readWords ws =
      (if d.start + ws.length = d.fits.planeSize then (d.addWords d.frame d.start plane ws).endPlane d.frame
        else d.addWords d.frame d.start plane ws).readTo (d.running_size + ws.length) := by
  rw [readWords_cube h, readPlane_eq hi hp]

theorem readWords_other {d : Dataset} (h : d.fits.depth < 1) (ws : List UInt32) :
    d.readWords ws = d.readTo (d.running_size + ws.length) := by
  unfold Dataset.readWords
  rw [if_neg (by omega)]
  dsimp only
  rw [if_neg (by omega)]
  rfl

/-- Words read at once, short of the plane's end, and then one more. -/
theorem readWords_snoc {d : Dataset} (hd : d.Ready) (ws : List UInt32) (w : UInt32)
    (hroom : 1 < d.fits.depth → d.start + ws.length < d.fits.planeSize) :
    d.readWords (ws ++ [w]) = (d.readWords ws).readWords [w] := by
  have hlen : d.running_size + (ws ++ [w]).length = d.running_size + ws.length + [w].length := by
    rw [List.length_append, Nat.add_assoc]
  have hfits := readWords_fits d ws
  have himage := readWords_img_size d ws
  set d' : Dataset := d.readWords ws with hd'
  have hr : d'.running_size = d.running_size + ws.length := rfl
  rcases lt_trichotomy d.fits.depth 1 with h | h | h
  · rw [readWords_other h, readWords_other (by rw [hfits]; exact h), hlen, hd', readWords_other h,
      readTo_readTo]
    rfl
  · rw [readWords_image h hd.image, readWords_image (by rw [hfits]; exact h) (by rw [himage]; exact hd.image), hlen,
      fits2float32_append, hfits, hr, hd', readWords_image h hd.image, fits2float32_readTo, readTo_readTo]
  · obtain ⟨plane, hp⟩ := Option.isSome_iff_exists.mp (hd.plane h)
    obtain ⟨hframe, hstart⟩ := frame_of_running hfits hr (hroom h)
    rw [readWords_plane h hd.image hp, if_neg (hroom h).ne] at hd'
    have hp' : d'.fits_cube d'.frame = some (memcpyWords plane d.start ws) := by
      rw [hframe, hd']
      exact set_same _ _ _
    have hadd : d'.addWords d.frame (d.start + ws.length) (memcpyWords plane d.start ws) [w] =
        (d.addWords d.frame d.start plane (ws ++ [w])).readTo (d.running_size + ws.length) := by
      rw [← addWords_append, hd']
      rfl
    have hend : d.start + (ws ++ [w]).length = d.start + ws.length + [w].length := by
      rw [List.length_append, Nat.add_assoc]
    rw [readWords_plane h hd.image hp, readWords_plane (by rw [hfits]; exact h) (by rw [himage]; exact hd.image) hp',
      hframe, hstart, hadd, hend, hr, hfits, hlen, endPlane_readTo]
    split
    · rw [readTo_readTo]
    · rw [readTo_readTo]

/-- Reading no words does nothing. -/
theorem readWords_nil {d : Dataset} (hd : d.Ready) (hmin : d.dmin ≤ d.frame_min d.frame)
    (hmax : d.frame_max d.frame ≤ d.dmax) (hroom : 1 < d.fits.depth → d.start < d.fits.planeSize) : d.readWords [] = d := by
  rcases lt_trichotomy d.fits.depth 1 with h | h | h
  · rw [readWords_other h]
    rfl
  · rw [readWords_image h hd.image]
    rfl
  · obtain ⟨plane, hp⟩ := Option.isSome_iff_exists.mp (hd.plane h)
    rw [readWords_plane h hd.image hp, if_neg (by have := hroom h; rw [List.length_nil]; omega), addWords_nil hp hmin hmax]
    rfl

/-- Short of the plane's end the plane stays. -/
theorem ready_readWords {d : Dataset} (hd : d.Ready) (ws : List UInt32)
    (hroom : 1 < d.fits.depth → d.start + ws.length < d.fits.planeSize) : (d.readWords ws).Ready := by
  constructor
  · rw [readWords_img_size]
    exact hd.image
  · intro h
    rw [readWords_fits] at h
    obtain ⟨plane, hp⟩ := Option.isSome_iff_exists.mp (hd.plane h)
    obtain ⟨hframe, -⟩ := frame_of_running (readWords_fits d ws) (readWords_running d ws) (hroom h)
    rw [hframe, readWords_plane h hd.image hp, if_neg (hroom h).ne]
    show (set d.fits_cube d.frame (some (memcpyWords plane d.start ws)) d.frame).isSome
    rw [set_same]
    rfl

/-! ## What holds of every data set -/

/-- The extrema bound the frames', the header's end has sized everything, and of planes
    ahead there is nothing yet. -/
structure Dataset.Sound (d : Dataset) : Prop where
  dmin : d.dmin ≤ FLT_MAX
  dmax : -FLT_MAX ≤ d.dmax
  frame_min : ∀ f, d.dmin ≤ d.frame_min f
  frame_max : ∀ f, d.frame_max f ≤ d.dmax
  total : d.hdr_end → d.fits_file_size = d.fits.totalSize
  image : d.hdr_end → d.img_size = d.fits.planeSize
  cube : d.hdr_end → 1 < d.fits.depth → d.cube_size = d.fits.depth.toNat
  running : d.hdr_end = false → d.running_size = 0
  ahead : d.hdr_end → 1 < d.fits.depth → ∀ f, d.running_size < f * d.fits.planeSize → d.fits_cube f = none

theorem sound_init (fits : FitsHeader) : (Dataset.init fits).Sound where
  dmin := le_refl _
  dmax := le_refl _
  frame_min _ := le_refl _
  frame_max _ := le_refl _
  total h := by cases h
  image h := by cases h
  cube h := by cases h
  running _ := rfl
  ahead h := by cases h

theorem sound_allocate {d : Dataset} (hd : d.Sound) : d.allocate.Sound where
  dmin := hd.dmin
  dmax := hd.dmax
  frame_min := hd.frame_min
  frame_max := hd.frame_max
  total _ := rfl
  image _ := rfl
  cube _ h := if_pos h
  running h := by cases h
  ahead _ h f _ := by
    have hcube : d.allocate.fits_cube = fun _ => none := if_pos h
    rw [hcube]

def Dataset.EndsHeader (d : Dataset) (unit : Bytes) : Prop :=
  (processFitsHeaderUnit d.fits unit).2 = true ∧ 0 < (processFitsHeaderUnit d.fits unit).1.naxis

instance (d : Dataset) (unit : Bytes) : Decidable (d.EndsHeader unit) :=
  inferInstanceAs (Decidable (_ ∧ _))

def Dataset.withUnit (d : Dataset) (unit : Bytes) : Dataset :=
  { d with header := d.header ++ unit, fits := (processFitsHeaderUnit d.fits unit).1 }

theorem readUnit_eq (d : Dataset) (unit : Bytes) :
    d.readUnit unit = if d.EndsHeader unit then (d.withUnit unit).allocate else d.withUnit unit := by
  have hand : ((processFitsHeaderUnit d.fits unit).2 && decide (0 < (processFitsHeaderUnit d.fits unit).1.naxis)) = true ↔
      d.EndsHeader unit := by
    rw [Bool.and_eq_true, decide_eq_true_iff]
    exact Iff.rfl
  unfold Dataset.readUnit
  dsimp only
  by_cases h : d.EndsHeader unit
  · rw [if_pos h, if_pos (hand.mpr h)]
    rfl
  · rw [if_neg h, if_neg fun h' => h (hand.mp h')]
    rfl

/-- Until the header ends only the header changes. -/
theorem sound_withUnit {d : Dataset} (hd : d.Sound) (hend : d.hdr_end = false) (unit : Bytes) : (d.withUnit unit).Sound where
  dmin := hd.dmin
  dmax := hd.dmax
  frame_min := hd.frame_min
  frame_max := hd.frame_max
  total h := absurd (hend.symm.trans h) Bool.false_ne_true
  image h := absurd (hend.symm.trans h) Bool.false_ne_true
  cube h := absurd (hend.symm.trans h) Bool.false_ne_true
  running := hd.running
  ahead h := absurd (hend.symm.trans h) Bool.false_ne_true

theorem sound_readUnit {d : Dataset} (hd : d.Sound) (hend : d.hdr_end = false) (unit : Bytes) : (d.readUnit unit).Sound := by
  have hs := sound_withUnit hd hend unit
  rw [readUnit_eq]
  split
  · exact sound_allocate hs
  · exact hs

theorem ne_frame_of_ahead {d : Dataset} {f : ℕ} (h : d.running_size < f * d.fits.planeSize) : f ≠ d.frame := by
  have hf := frame_start d
  rintro rfl
  omega

theorem sound_newPlane {d : Dataset} (hd : d.Sound) : (d.newPlane d.frame).Sound := by
  unfold Dataset.newPlane
  split
  · exact hd
  · constructor
    · exact hd.dmin
    · exact hd.dmax
    · intro f
      show d.dmin ≤ set d.frame_min d.frame FLT_MAX f
      by_cases h : f = d.frame
      · rw [h, set_same]
        exact hd.dmin
      · rw [set_of_ne _ _ h]
        exact hd.frame_min f
    · intro f
      show set d.frame_max d.frame (-FLT_MAX) f ≤ d.dmax
      by_cases h : f = d.frame
      · rw [h, set_same]
        exact hd.dmax
      · rw [set_of_ne _ _ h]
        exact hd.frame_max f
    · exact hd.total
    · exact hd.image
    · exact hd.cube
    · exact hd.running
    · intro he h f hf
      show set d.fits_cube d.frame (some fun _ => none) f = none
      have hne : f ≠ d.frame := ne_frame_of_ahead hf
      rw [set_of_ne _ _ hne]
      exact hd.ahead he h f hf

/-- The extrema of what is there and of words that come. -/
theorem readWords_extrema {d : Dataset} (hd : d.Sound) (hr : d.Ready) (ws : List UInt32) :
    (d.readWords ws).dmin ≤ d.dmin ∧ d.dmax ≤ (d.readWords ws).dmax ∧
      (∀ f, (d.readWords ws).dmin ≤ (d.readWords ws).frame_min f) ∧
      ∀ f, (d.readWords ws).frame_max f ≤ (d.readWords ws).dmax := by
  rcases lt_trichotomy d.fits.depth 1 with h | h | h
  · rw [readWords_other h]
    exact ⟨le_refl _, le_refl _, hd.frame_min, hd.frame_max⟩
  · obtain ⟨pixels, mask, dmin, dmax, h1, h2, hf⟩ := fits2float32_frame d.fits.scale ws d.running_size d
    rw [readWords_image h hr.image, hf]
    exact ⟨h1, h2, fun f => h1.trans (hd.frame_min f), fun f => (hd.frame_max f).trans h2⟩
  · obtain ⟨plane, hp⟩ := Option.isSome_iff_exists.mp (hr.plane h)
    set d' := d.addWords d.frame d.start plane ws with hd'
    have hadd : d'.dmin ≤ d.dmin ∧ d.dmax ≤ d'.dmax ∧ (∀ f, d'.dmin ≤ d'.frame_min f) ∧ ∀ f, d'.frame_max f ≤ d'.dmax := by
      rw [hd']
      refine ⟨min_le_left _ _, le_max_left _ _, ?_, ?_⟩
      · intro f
        by_cases hf : f = d.frame
        · rw [hf]
          show min d.dmin _ ≤ set d.frame_min d.frame _ d.frame
          rw [set_same]
          exact min_le_right _ _
        · show min d.dmin _ ≤ set d.frame_min d.frame _ f
          rw [set_of_ne _ _ hf]
          exact (min_le_left _ _).trans (hd.frame_min f)
      · intro f
        by_cases hf : f = d.frame
        · rw [hf]
          show set d.frame_max d.frame _ d.frame ≤ max d.dmax _
          rw [set_same]
          exact le_max_right _ _
        · show set d.frame_max d.frame _ f ≤ max d.dmax _
          rw [set_of_ne _ _ hf]
          exact (hd.frame_max f).trans (le_max_left _ _)
    rw [readWords_plane h hr.image hp, ← hd']
    split
    · obtain ⟨cube, zfp, hz⟩ := endPlane_frame d' d.frame
      rw [hz]
      exact hadd
    · exact hadd

/-- Words go to the frame's plane only. -/
theorem readWords_other_plane {d : Dataset} (hr : d.Ready) (ws : List UInt32) {f : ℕ} (hf : f ≠ d.frame)
    (h : d.fits_cube f = none) : (d.readWords ws).fits_cube f = none := by
  rcases lt_trichotomy d.fits.depth 1 with hdepth | hdepth | hdepth
  · rw [readWords_other hdepth]
    exact h
  · obtain ⟨pixels, mask, dmin, dmax, _, _, hfr⟩ := fits2float32_frame d.fits.scale ws d.running_size d
    rw [readWords_image hdepth hr.image, hfr]
    exact h
  · obtain ⟨plane, hp⟩ := Option.isSome_iff_exists.mp (hr.plane hdepth)
    have hadd : (d.addWords d.frame d.start plane ws).fits_cube f = none := by
      show set d.fits_cube d.frame _ f = none
      rw [set_of_ne _ _ hf]
      exact h
    rw [readWords_plane hdepth hr.image hp]
    split
    · exact endPlane_none hadd
    · exact hadd

theorem sound_readWords {d : Dataset} (hd : d.Sound) (he : d.hdr_end = true) (hr : d.Ready) (ws : List UInt32) :
    (d.readWords ws).Sound := by
  obtain ⟨h1, h2, h3, h4⟩ := readWords_extrema hd hr ws
  constructor
  · exact h1.trans hd.dmin
  · exact hd.dmax.trans h2
  · exact h3
  · exact h4
  · rw [readWords_hdr_end, readWords_total, readWords_fits]
    exact hd.total
  · rw [readWords_hdr_end, readWords_img_size, readWords_fits]
    exact hd.image
  · rw [readWords_hdr_end, readWords_cube_size, readWords_fits]
    exact hd.cube
  · intro he'
    rw [readWords_hdr_end, he] at he'
    cases he'
  · intro _ h f hf
    rw [readWords_fits] at h hf
    rw [readWords_running] at hf
    have hf' : d.running_size < f * d.fits.planeSize := by omega
    exact readWords_other_plane hr ws (ne_frame_of_ahead hf') (hd.ahead he h f hf')

end FitsWebQL
