/-
  FitsWebQL.DownloadBounds — what a download can overrun. The buffer: a call that reads
  one unit, or stops at the end of a plane, leaves the rest of its piece behind, and the
  next piece may not fit (`room_left_iff`). The arrays: the words are counted with
  NAXIS4, the arrays sized without it (`in_bounds_iff`).
-/

import FitsWebQL.DownloadRuns

namespace FitsWebQL

open Lib.Feed Lib.Wire

/-- What libcurl hands over: some bytes, at most `CURL_MAX_WRITE_SIZE`. -/
def Piece (c : Bytes) : Prop := c ≠ [] ∧ c.length ≤ CURL_MAX_WRITE_SIZE

instance (c : Bytes) : Decidable (Piece c) := inferInstanceAs (Decidable (_ ∧ _))

/-! ## The buffer -/

/-- After the piece there is room for any other: at most one unit is left behind, or all
    is read. -/
def Download.LeavesRoom (t : Download) (contents : Bytes) : Prop :=
  let n := t.buffer.length + contents.length
  if t.data.hdr_end = false then
    let unit := (t.buffer ++ contents).take FITS_CHUNK_LENGTH
    n ≤ 2 * FITS_CHUNK_LENGTH ∨ t.data.EndsHeader unit ∧ (t.data.announced unit).totalSize = 0
  else t.data.fits_file_size ≤ t.data.running_size ∨ t.data.fits.depth ≤ 1 ∨
    n ≤ 4 * t.data.room + FITS_CHUNK_LENGTH ∨ t.data.fits_file_size ≤ t.data.running_size + t.data.room

def Download.HasRoom (t : Download) : Prop := ∀ c, Piece c → t.Fits c

theorem hasRoom_iff (t : Download) : t.HasRoom ↔ t.data.done = true ∨ t.buffer.length ≤ FITS_CHUNK_LENGTH := by
  have hlen : BUFFER_LENGTH = CURL_MAX_WRITE_SIZE + FITS_CHUNK_LENGTH := rfl
  constructor
  · intro h
    have hpiece : Piece (List.replicate CURL_MAX_WRITE_SIZE 0) := by
      refine ⟨?_, ?_⟩
      · exact List.cons_ne_nil 0 (List.replicate 16383 0)
      · rw [List.length_replicate]
    rcases h _ hpiece with h | h
    · exact Or.inl h
    · rw [List.length_replicate] at h
      exact Or.inr (by omega)
  · intro h c hc
    rcases h with h | h
    · exact Or.inl h
    · have := hc.2
      exact Or.inr (by omega)

theorem allocate_done {d : Dataset} (h : d.running_size = 0) : d.allocate.done = true ↔ (headerEnd d.fits).totalSize = 0 := by
  show (true && decide ((headerEnd d.fits).totalSize ≤ d.running_size)) = true ↔ _
  rw [h, Bool.true_and, decide_eq_true_iff]
  exact Nat.le_zero

theorem readUnit_done {d : Dataset} (hd : d.Sound) (he : d.hdr_end = false) (unit : Bytes) :
    (d.readUnit unit).done = true ↔ d.EndsHeader unit ∧ (d.announced unit).totalSize = 0 := by
  rw [readUnit_eq]
  by_cases h : d.EndsHeader unit
  · rw [if_pos h]
    have hrun : (d.withUnit unit).running_size = 0 := hd.running he
    rw [allocate_done hrun, withUnit_announced]
    exact ⟨fun h' => ⟨h, h'⟩, fun h' => h'.2⟩
  · have he' : (d.withUnit unit).hdr_end = false := he
    rw [if_neg h]
    unfold Dataset.done
    rw [he', Bool.false_and]
    exact ⟨fun h' => (by cases h'), fun h' => absurd h'.1 h⟩

/-- A call leaves room exactly when `LeavesRoom` says so. -/
theorem hasRoom_writeData_iff {t t' : Download} {c : Bytes} (hs : t.data.Sound) (h : writeData t c = some t') :
    t'.HasRoom ↔ t.LeavesRoom c := by
  rw [hasRoom_iff]
  unfold Download.LeavesRoom
  dsimp only
  rw [← List.length_append]
  rcases writeData_cases h with ⟨he, hshort, rfl⟩ | ⟨he, hunit, rfl⟩ | ⟨he, hr, rfl⟩ | ⟨he, hr, ws, rfl, rfl⟩
  · rw [if_pos he]
    exact ⟨fun _ => Or.inl (by omega), fun _ => Or.inr (by dsimp only; omega)⟩
  · rw [if_pos he]
    dsimp only
    rw [readUnit_done hs he, List.length_drop]
    constructor
    · intro h
      rcases h with h | h
      · exact Or.inr h
      · exact Or.inl (by omega)
    · intro h
      rcases h with h | h
      · exact Or.inr (by omega)
      · exact Or.inl h
  · rw [if_neg (by simp [he])]
    exact ⟨fun _ => Or.inl hr, fun _ => Or.inl (by simp [Dataset.done, he, hr])⟩
  · obtain ⟨-, -, -, hplane⟩ := ready_withPlane hs he hr
    have hlt := start_lt hplane
    rw [if_neg (by simp [he])]
    dsimp only
    unfold Dataset.done
    rw [wordsOf_length, readWords_hdr_end, he, Bool.true_and, decide_eq_true_iff, readWords_total, readWords_running,
      wordsOf_length, List.length_drop]
    have hchunk : FITS_CHUNK_LENGTH = 2880 := rfl
    unfold Dataset.workSize Dataset.room
    dsimp only
    split
    · omega
    · omega

def NeverOverflows : Download → List Bytes → Prop
  | t, [] => t.HasRoom
  | t, c :: cs => t.HasRoom ∧ ∀ t', writeData t c = some t' → NeverOverflows t' cs

def EveryCallLeavesRoom : Download → List Bytes → Prop
  | _, [] => True
  | t, c :: cs => t.LeavesRoom c ∧ ∀ t', writeData t c = some t' → EveryCallLeavesRoom t' cs

theorem neverOverflows_iff (cs : List Bytes) (t : Download) (hs : t.data.Sound) (hcs : ∀ c ∈ cs, Piece c) :
    NeverOverflows t cs ↔ t.HasRoom ∧ EveryCallLeavesRoom t cs := by
  induction cs generalizing t with
  | nil => exact ⟨fun h => ⟨h, trivial⟩, fun h => h.1⟩
  | cons c cs ih =>
    have hc := hcs c List.mem_cons_self
    have hcs' : ∀ x ∈ cs, Piece x := fun x hx => hcs x (List.mem_cons_of_mem _ hx)
    constructor
    · intro h
      obtain ⟨h1, h2⟩ := h
      obtain ⟨t1, ht⟩ := Option.isSome_iff_exists.mp ((writeData_isSome_iff t c).mpr (h1 c hc))
      refine ⟨h1, ?_, ?_⟩
      · rw [← hasRoom_writeData_iff hs ht]
        exact ((ih t1 (sound_writeData hs hc.1 ht) hcs').mp (h2 t1 ht)).1
      · intro t2 ht2
        exact ((ih t2 (sound_writeData hs hc.1 ht2) hcs').mp (h2 t2 ht2)).2
    · intro h
      obtain ⟨h1, h2, h3⟩ := h
      refine ⟨h1, ?_⟩
      intro t1 ht
      exact (ih t1 (sound_writeData hs hc.1 ht) hcs').mpr ⟨(hasRoom_writeData_iff hs ht).mpr h2, h3 t1 ht⟩

/-- No piece that may come in a run or right after it overruns the buffer, exactly when
    every call of the run leaves room. -/
theorem room_left_iff (fits : FitsHeader) (cs : List Bytes) (hcs : ∀ c ∈ cs, Piece c) :
    NeverOverflows (Download.init fits) cs ↔ EveryCallLeavesRoom (Download.init fits) cs := by
  rw [neverOverflows_iff cs _ (sound_init fits) hcs]
  refine ⟨fun h => h.2, fun h => ⟨?_, h⟩⟩
  rw [hasRoom_iff]
  exact Or.inr (Nat.zero_le _)

theorem room_left_iff_two_pieces : NeverOverflows (Download.init {}) [twoPixels, List.replicate 8 0] := by
  refine (room_left_iff {} [twoPixels, List.replicate 8 0] (by decide +kernel)).mpr ⟨?_, ?_⟩
  · have he : (Download.init {}).data.hdr_end = false := rfl
    unfold Download.LeavesRoom
    dsimp only
    rw [if_pos he]
    exact Or.inl (by decide +kernel)
  · intro t h
    obtain ⟨he, hdepth, -⟩ := read_twoPixels h
    refine ⟨?_, fun _ _ => trivial⟩
    unfold Download.LeavesRoom
    rw [he, if_neg Bool.noConfusion]
    exact Or.inr (Or.inl hdepth.le)

def smallImage : Bytes := headerUnit ["BITPIX  = -32", "NAXIS   = 2", "NAXIS1  = 64", "NAXIS2  = 128", "END"]

def smallImageFields : FitsHeader := { bitpix := -32, naxis := 2, width := 64, height := 128 }

theorem headerRead_overflows {fits : FitsHeader} {unit rest c : Bytes}
    (h : (Download.headerRead fits unit rest).data.running_size < (Download.headerRead fits unit rest).data.fits_file_size)
    (hlong : BUFFER_LENGTH < rest.length + c.length) : writeData (Download.headerRead fits unit rest) c = none := by
  unfold writeData scanFitsData
  rw [if_pos (show (Download.headerRead fits unit rest).data.hdr_end = true from rfl), if_neg (not_le.mpr h)]
  exact if_pos hlong

/-- The header and the data behind it in a full piece, then another full one. -/
theorem two_full_pieces :
    ¬ ∀ (fits : FitsHeader) (cs : List Bytes), (∀ c ∈ cs, Piece c) → feedAll writeData (Download.init fits) cs ≠ none := by
  intro h
  have hcards : ReadsCards {} smallImageFields
      ["BITPIX  = -32", "NAXIS   = 2", "NAXIS1  = 64", "NAXIS2  = 128", "END"] := by
    decide +kernel
  have hread : writeData (Download.init {}) (smallImage ++ List.replicate 13504 0) =
      some (Download.headerRead smallImageFields smallImage (List.replicate 13504 0)) :=
    writeData_headerUnit hcards (by decide) (by rw [List.length_replicate]; decide)
  have hnone : writeData (Download.headerRead smallImageFields smallImage (List.replicate 13504 0)) (List.replicate 16384 0) = none := by
    refine headerRead_overflows (by decide +kernel) ?_
    rw [List.length_replicate, List.length_replicate]
    decide
  have hpiece : ∀ c : Bytes, 0 < c.length → c.length ≤ CURL_MAX_WRITE_SIZE → Piece c := fun c hpos hle =>
    ⟨List.ne_nil_of_length_pos hpos, hle⟩
  refine h {} [smallImage ++ List.replicate 13504 0, List.replicate 16384 0] (fun c hc => ?_)
    (by rw [feedAll, hread, Option.bind_some, feedAll, hnone, Option.bind_none])
  have hlen : smallImage.length = FITS_CHUNK_LENGTH := headerUnit_length hcards
  rcases List.mem_pair.mp hc with rfl | rfl
  · refine hpiece _ ?_ ?_ <;>
    · rw [List.length_append, hlen, List.length_replicate]
      decide
  · refine hpiece _ ?_ ?_ <;>
    · rw [List.length_replicate]
      decide

/-! ## The arrays -/

def Download.InBounds (t : Download) (contents : Bytes) : Prop :=
  t.data.hdr_end = true → t.data.running_size < t.data.fits_file_size →
    ∀ a ∈ t.data.accesses (t.buffer.length + contents.length), a.2 < t.data.arrayLength a.1

def StaysInBounds : Download → List Bytes → Prop
  | _, [] => True
  | t, c :: cs => t.InBounds c ∧ ∀ t', writeData t c = some t' → StaysInBounds t' cs

def FitsHeader.Counted (h : FitsHeader) : Prop := h.depth ≤ 0 ∨ h.totalSize ≤ h.planeSize * h.depth.toNat

theorem mem_imageAccesses {start count : ℕ} {a : DataArray × ℕ} (h : a ∈ imageAccesses start count) :
    (a.1 = .img_pixels ∨ a.1 = .img_mask) ∧ start ≤ a.2 ∧ a.2 < start + count := by
  obtain ⟨i, hi, ha⟩ := List.mem_flatMap.mp h
  obtain ⟨j, hj, rfl⟩ := List.mem_range'.mp hi
  rcases List.mem_cons.mp ha with rfl | ha
  · exact ⟨Or.inl rfl, by omega, by omega⟩
  · rw [List.mem_singleton.mp ha]
    exact ⟨Or.inr rfl, by omega, by omega⟩

theorem mem_frameArrays {frame : ℕ} {a : DataArray × ℕ} (h : a ∈ frameArrays frame) (d : Dataset) :
    d.arrayLength a.1 = d.cube_size ∧ a.2 = frame := by
  unfold frameArrays at h
  simp only [List.mem_cons, List.not_mem_nil, or_false] at h
  rcases h with rfl | rfl | rfl | rfl
  · exact ⟨rfl, rfl⟩
  · exact ⟨rfl, rfl⟩
  · exact ⟨rfl, rfl⟩
  · exact ⟨rfl, rfl⟩

/-- Compression stays below the depth. -/
theorem mem_endAccesses {d : Dataset} {frame : ℕ} {a : DataArray × ℕ} (h : a ∈ d.endAccesses frame) :
    d.arrayLength a.1 = d.cube_size ∧ a.2 < d.fits.depth.toNat := by
  have hc : ∀ k, a ∈ d.compressAccesses k → d.arrayLength a.1 = d.cube_size ∧ a.2 < d.fits.depth.toNat := by
    intro k hk
    obtain ⟨i, hi, ha⟩ := List.mem_flatMap.mp hk
    obtain ⟨j, hj, rfl⟩ := List.mem_range'.mp hi
    simp only [List.mem_cons, List.not_mem_nil, or_false] at ha
    rcases ha with rfl | rfl | rfl
    · exact ⟨rfl, by dsimp only; omega⟩
    · exact ⟨rfl, by dsimp only; omega⟩
    · exact ⟨rfl, by dsimp only; omega⟩
  unfold Dataset.endAccesses at h
  dsimp only at h
  split at h
  · split at h
    · exact hc _ h
    · split at h
      · exact hc _ h
      · cases h
  · cases h

/-- A call in a data set whose words the arrays hold. -/
theorem inBounds_of_counted {d : Dataset} (hd : d.Sound) (he : d.hdr_end = true) (hr : d.running_size < d.fits_file_size)
    (hc : d.fits.Counted) (n : ℕ) : ∀ a ∈ d.accesses n, a.2 < d.arrayLength a.1 := by
  obtain ⟨-, -, -, hplane⟩ := ready_withPlane hd he hr
  obtain ⟨-, htotal, hroom⟩ := workSize_le (n := n) hr (start_lt hplane)
  have himage := hd.image he
  have hsum := hd.total he
  have hpixel : ∀ a : DataArray × ℕ, (a.1 = .img_pixels ∨ a.1 = .img_mask) → d.arrayLength a.1 = d.img_size := by
    intro a ha
    rcases ha with ha | ha
    · rw [ha]
      rfl
    · rw [ha]
      rfl
  intro a ha
  unfold Dataset.accesses at ha
  dsimp only at ha
  by_cases h1 : d.fits.depth = 1
  · rw [if_pos h1] at ha
    split at ha
    · obtain ⟨harray, -, hlt⟩ := mem_imageAccesses ha
      rw [hpixel a harray, himage]
      rcases hc with hc | hc
      · omega
      · have hone : d.fits.depth.toNat = 1 := by omega
        rw [hone, Nat.mul_one] at hc
        omega
    · cases ha
  · rw [if_neg h1] at ha
    by_cases h : 1 < d.fits.depth
    · rw [if_pos h] at ha
      have hcube := hd.cube he h
      have hframe : d.frame < d.fits.depth.toNat := by
        unfold Dataset.frame
        rw [Nat.div_lt_iff_lt_mul hplane, Nat.mul_comm]
        rcases hc with hc | hc
        · omega
        · omega
      rcases List.mem_cons.mp ha with rfl | ha
      · show d.frame < d.cube_size
        rw [hcube]
        exact hframe
      · have hnumbers : a ∈ frameArrays d.frame → a.2 < d.arrayLength a.1 := by
          intro ha
          obtain ⟨hlen, hidx⟩ := mem_frameArrays ha d
          rw [hlen, hidx, hcube]
          exact hframe
        simp only [List.mem_append] at ha
        rcases ha with ((ha | ha) | ha) | ha
        · split at ha
          · exact hnumbers ha
          · cases ha
        · obtain ⟨i, hi, rfl⟩ := List.mem_map.mp ha
          obtain ⟨j, hj, rfl⟩ := List.mem_range'.mp hi
          show d.start + 1 * j < d.fits.planeSize
          have := hroom h
          omega
        · split at ha
          · rcases List.mem_append.mp ha with ha | ha
            · obtain ⟨harray, -, hlt⟩ := mem_imageAccesses ha
              have := hroom h
              rw [hpixel a harray, himage]
              omega
            · exact hnumbers ha
          · cases ha
        · split at ha
          · obtain ⟨hlen, hidx⟩ := mem_endAccesses ha
            rw [hlen, hcube]
            exact hidx
          · cases ha
    · rw [if_neg h] at ha
      cases ha

theorem staysInBounds_of_counted (cs : List Bytes) (t : Download) (hs : t.data.Sound) (he : t.data.hdr_end = true)
    (hc : t.data.fits.Counted) (hcs : ∀ c ∈ cs, Piece c) : StaysInBounds t cs := by
  induction cs generalizing t with
  | nil => exact trivial
  | cons c cs ih =>
    refine ⟨fun _ hr => inBounds_of_counted hs he hr hc _, ?_⟩
    intro t' ht
    have hshape := writeData_shape he ht
    apply ih
    · exact sound_writeData hs (hcs c List.mem_cons_self).1 ht
    · exact (congrArg (fun s => s.1.2.2) hshape).trans he
    · have hfits : t'.data.fits = t.data.fits := congrArg (fun s => s.1.2.1) hshape
      rw [hfits]
      exact hc
    · exact fun x hx => hcs x (List.mem_cons_of_mem _ hx)

theorem frame_accessed {d : Dataset} (h : 1 < d.fits.depth) (n : ℕ) : (DataArray.fits_cube, d.frame) ∈ d.accesses n := by
  unfold Dataset.accesses
  dsimp only
  rw [if_neg (by omega), if_pos h]
  exact List.mem_cons_self

/-- A call in bounds, with a word in the buffer, reads one and stays inside the arrays. -/
theorem running_of_inBounds {d : Dataset} (hd : d.Sound) (he : d.hdr_end = true) (hr : d.running_size < d.fits_file_size)
    (hdepth : 0 < d.fits.depth) {n : ℕ} (hn : 4 ≤ n) (h : ∀ a ∈ d.accesses n, a.2 < d.arrayLength a.1) :
    1 ≤ d.workSize n ∧ d.running_size + d.workSize n ≤ d.fits.planeSize * d.fits.depth.toNat := by
  obtain ⟨-, -, -, hplane⟩ := ready_withPlane hd he hr
  obtain ⟨-, -, hroom⟩ := workSize_le (n := n) hr (start_lt hplane)
  have hlt := start_lt hplane
  have hone : 1 ≤ d.workSize n := by
    unfold Dataset.workSize
    dsimp only
    split
    · omega
    · omega
  refine ⟨hone, ?_⟩
  by_cases h1 : d.fits.depth = 1
  · have hdepth1 : d.fits.depth.toNat = 1 := by omega
    have hlast : (DataArray.img_pixels, d.running_size + (d.workSize n - 1)) ∈ d.accesses n := by
      unfold Dataset.accesses
      dsimp only
      rw [if_pos h1, if_pos (by rw [hd.image he]; exact hplane)]
      apply List.mem_flatMap.mpr
      refine ⟨d.running_size + (d.workSize n - 1), ?_, List.mem_cons_self⟩
      exact List.mem_range'.mpr ⟨d.workSize n - 1, by omega, by omega⟩
    have hidx : d.running_size + (d.workSize n - 1) < d.img_size := h _ hlast
    rw [hd.image he] at hidx
    rw [hdepth1, Nat.mul_one]
    omega
  · have hdepth2 : 1 < d.fits.depth := by omega
    have hidx : d.frame < d.cube_size := h _ (frame_accessed hdepth2 n)
    rw [hd.cube he hdepth2] at hidx
    have hmul : d.fits.planeSize * (d.frame + 1) ≤ d.fits.planeSize * d.fits.depth.toNat := Nat.mul_le_mul_left _ hidx
    rw [Nat.mul_add, Nat.mul_one, Nat.mul_comm _ d.frame] at hmul
    have := frame_start d
    have := hroom hdepth2
    omega

/-- A word at a time, in bounds, the words read are never more than the arrays hold. -/
theorem running_le_of_staysInBounds (k : ℕ) (t : Download) (hs : t.data.Sound) (he : t.data.hdr_end = true)
    (hb : t.buffer.length ≤ CURL_MAX_WRITE_SIZE) (hdepth : 0 < t.data.fits.depth)
    (htotal : t.data.fits.planeSize * t.data.fits.depth.toNat < t.data.fits_file_size)
    (hle : t.data.running_size ≤ t.data.fits.planeSize * t.data.fits.depth.toNat)
    (h : StaysInBounds t (List.replicate k [0, 0, 0, 0])) :
    t.data.running_size + k ≤ t.data.fits.planeSize * t.data.fits.depth.toNat := by
  induction k generalizing t with
  | zero => exact hle
  | succ k ih =>
    obtain ⟨hin, hnext⟩ := h
    have hr : t.data.running_size < t.data.fits_file_size := by omega
    have hlen : ([0, 0, 0, 0] : Bytes).length = 4 := rfl
    have hmax : BUFFER_LENGTH = CURL_MAX_WRITE_SIZE + 2880 := rfl
    obtain ⟨hone, hmore⟩ := running_of_inBounds hs he hr hdepth (by omega) (hin he hr)
    have ht : writeData t [0, 0, 0, 0] = some {
        data := t.data.readWords (wordsOf (t.data.workSize (t.buffer ++ [0, 0, 0, 0]).length) (t.buffer ++ [0, 0, 0, 0]))
        buffer := (t.buffer ++ [0, 0, 0, 0]).drop (4 * t.data.workSize (t.buffer ++ [0, 0, 0, 0]).length)
        mean_spectrum := t.data.addMean
          (wordsOf (t.data.workSize (t.buffer ++ [0, 0, 0, 0]).length) (t.buffer ++ [0, 0, 0, 0])) t.mean_spectrum } := by
      unfold writeData scanFitsData
      rw [if_pos he, if_neg (by omega), if_neg (by omega)]
    have hs' := sound_writeData hs (List.cons_ne_nil _ _) ht
    have hih := ih _ hs'
    dsimp only at hih
    rw [readWords_hdr_end, readWords_fits, readWords_total, readWords_running, wordsOf_length, List.length_drop,
      List.length_append] at hih
    have := hih he (by omega) hdepth htotal hmore (hnext _ (by rw [ht, List.length_append]))
    omega

/-- Every call after the header is in bounds, however the data come, exactly when the
    arrays hold all the words the header announces. -/
theorem in_bounds_iff (fits : FitsHeader) (hs : List Bytes) (c : Bytes) (t0 t : Download) (hpieces : ∀ x ∈ c :: hs, Piece x)
    (h0 : feedAll writeData (Download.init fits) hs = some t0) (he0 : t0.data.hdr_end = false)
    (h1 : writeData t0 c = some t) (he : t.data.hdr_end = true) :
    (∀ cs : List Bytes, (∀ x ∈ cs, Piece x) → StaysInBounds t cs) ↔ t.data.fits.Counted := by
  have hsound0 : t0.data.Sound := by
    obtain ⟨x, -, hx⟩ := steps_of_run micro_monotone writeData_follows hs (Download.init fits) t0 (Dataset.init fits, [])
      ⟨rfl, sound_init fits, Or.inr rfl⟩ (fun x hx => (hpieces x (List.mem_cons_of_mem _ hx)).1) h0
    rw [hx.1]
    exact hx.2.1
  have hsound := sound_writeData hsound0 (hpieces c List.mem_cons_self).1 h1
  have hfresh : t.data.running_size = 0 ∧ t.buffer.length ≤ CURL_MAX_WRITE_SIZE := by
    have hmax : BUFFER_LENGTH = CURL_MAX_WRITE_SIZE + FITS_CHUNK_LENGTH := rfl
    unfold writeData at h1
    rw [if_neg (by rw [he0]; exact Bool.noConfusion)] at h1
    unfold scanFitsHeader at h1
    dsimp only at h1
    split at h1
    · cases h1
    · split at h1
      · cases h1
        exact absurd (he0.symm.trans he) Bool.false_ne_true
      · cases h1
        refine ⟨?_, ?_⟩
        · exact (readUnit_header _ _).2.trans (hsound0.running he0)
        · dsimp only
          rw [List.length_drop, List.length_append]
          omega
  constructor
  · intro h
    apply Classical.byContradiction
    intro hc
    unfold FitsHeader.Counted at hc
    rw [not_or] at hc
    have hrun := running_le_of_staysInBounds (t.data.fits.planeSize * t.data.fits.depth.toNat + 1) t hsound he hfresh.2
      (by omega) (by rw [hsound.total he]; omega) (by rw [hfresh.1]; exact Nat.zero_le _) (h _ ?_)
    · omega
    · intro x hx
      rw [List.eq_of_mem_replicate hx]
      exact ⟨List.cons_ne_nil _ _, by decide⟩
  · intro hc cs hcs
    exact staysInBounds_of_counted cs t hsound he hc hcs

/-- An image of two pixels counts them right. -/
theorem in_bounds_iff_two_pixels :
    ∃ t, writeData (Download.init {}) twoPixels = some t ∧ ∀ cs : List Bytes, (∀ x ∈ cs, Piece x) → StaysInBounds t cs := by
  obtain ⟨t, ht⟩ := Option.isSome_iff_exists.mp ((writeData_isSome_iff (Download.init {}) twoPixels).mpr
    (Or.inr (by decide +kernel)))
  obtain ⟨he, hdepth, -, htotal, hplane⟩ := read_twoPixels ht
  refine ⟨t, ht, (in_bounds_iff {} [] twoPixels (Download.init {}) t ?_ rfl rfl ht he).mpr (Or.inr ?_)⟩
  · decide +kernel
  · rw [htotal, hplane, hdepth]
    decide

theorem staysInBounds_append (cs : List Bytes) (c : Bytes) (t t' : Download) (h : StaysInBounds t (cs ++ [c]))
    (ht : feedAll writeData t cs = some t') : t'.InBounds c := by
  induction cs generalizing t with
  | nil =>
    cases ht
    exact h.1
  | cons c' cs ih =>
    obtain ⟨t1, h1, h2⟩ := Option.bind_eq_some_iff.mp ht
    exact ih t1 (h.2 t1 h1) h2

def twoPolarisations : Bytes :=
  headerUnit ["BITPIX  = -32", "NAXIS   = 4", "NAXIS1  = 1", "NAXIS2  = 1", "NAXIS3  = 2", "NAXIS4  = 2", "END"]

def twoPolarisationsFields : FitsHeader :=
  { bitpix := -32, naxis := 4, width := 1, height := 1, depth := 2, polarisation := 2 }

/-- The third word goes to frame 2 of 2. -/
theorem a_second_polarisation :
    ¬ ∀ (fits : FitsHeader) (cs : List Bytes), (∀ c ∈ cs, Piece c) → StaysInBounds (Download.init fits) cs := by
  intro h
  have hstays := h {} ([twoPolarisations, [0, 0, 0, 0], [0, 0, 0, 0]] ++ [[0, 0, 0, 0]]) (by decide +kernel)
  have hread : (feedAll writeData (Download.init {}) [twoPolarisations, [0, 0, 0, 0], [0, 0, 0, 0]]).map
      (fun t => (t.data.hdr_end, decide (t.data.running_size < t.data.fits_file_size),
        decide (1 < t.data.fits.depth), t.data.frame, t.data.cube_size)) = some (true, true, true, 2, 2) := by
    have hcards : ReadsCards {} twoPolarisationsFields
        ["BITPIX  = -32", "NAXIS   = 4", "NAXIS1  = 1", "NAXIS2  = 1", "NAXIS3  = 2", "NAXIS4  = 2", "END"] := by
      decide +kernel
    rw [twoPolarisations, feedAll_headerUnit hcards (by decide)]
    decide +kernel
  obtain ⟨t, ht, hfields⟩ := Option.map_eq_some_iff.mp hread
  simp only [Prod.mk.injEq, decide_eq_true_eq] at hfields
  obtain ⟨he, hr, hdepth, hframe, hcube⟩ := hfields
  have hlt : t.data.frame < t.data.cube_size :=
    staysInBounds_append _ _ _ _ hstays ht he hr _ (frame_accessed hdepth _)
  omega

end FitsWebQL
