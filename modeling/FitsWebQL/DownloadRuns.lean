/-
  FitsWebQL.DownloadRuns — a download, however the file is cut into pieces. A call of
  `write_data` takes some of the small steps there are (`writeData_follows`): a unit of
  the header, a new plane, a word of the data. It does not always take all of them: a
  call reads one unit of the header only, nothing behind the unit that ends it, and no
  word past the end of a plane.
-/

import FitsWebQL.DownloadSteps
import FitsWebQL.Lib.Feed

namespace FitsWebQL

open Lib.Feed Lib.Wire

/-! ## Small steps -/

def Dataset.done (d : Dataset) : Bool := d.hdr_end && decide (d.fits_file_size ≤ d.running_size)

def Dataset.needsPlane (d : Dataset) : Bool := decide (1 < d.fits.depth) && (d.fits_cube d.frame).isNone

def Dataset.micro (d : Dataset) (pending : Bytes) : Option (Dataset × Bytes) :=
  if d.hdr_end = false then
    if FITS_CHUNK_LENGTH ≤ pending.length then
      some (d.readUnit (pending.take FITS_CHUNK_LENGTH), pending.drop FITS_CHUNK_LENGTH)
    else none
  else if d.fits_file_size ≤ d.running_size then none
  else if d.needsPlane = true then
    if pending = [] then none else some (d.newPlane d.frame, pending)
  else if 4 ≤ pending.length then some (d.readWords [wordOf pending], pending.drop 4)
  else none

theorem micro_unit {d : Dataset} {p : Bytes} (h : d.hdr_end = false) (hp : FITS_CHUNK_LENGTH ≤ p.length) :
    d.micro p = some (d.readUnit (p.take FITS_CHUNK_LENGTH), p.drop FITS_CHUNK_LENGTH) := by
  unfold Dataset.micro
  rw [if_pos h, if_pos hp]

theorem micro_plane {d : Dataset} {p : Bytes} (h : d.hdr_end = true) (hd : d.running_size < d.fits_file_size)
    (hn : d.needsPlane = true) (hp : p ≠ []) : d.micro p = some (d.newPlane d.frame, p) := by
  unfold Dataset.micro
  rw [if_neg (by rw [h]; exact Bool.noConfusion), if_neg (by omega), if_pos hn, if_neg hp]

theorem micro_word {d : Dataset} {p : Bytes} (h : d.hdr_end = true) (hd : d.running_size < d.fits_file_size)
    (hn : d.needsPlane = false) (hp : 4 ≤ p.length) : d.micro p = some (d.readWords [wordOf p], p.drop 4) := by
  unfold Dataset.micro
  rw [if_neg (by rw [h]; exact Bool.noConfusion), if_neg (by omega), if_neg (by rw [hn]; exact Bool.noConfusion), if_pos hp]

/-- What a small step can be. -/
theorem micro_cases {d : Dataset} {p : Bytes} {d' : Dataset} {p' : Bytes} (h : d.micro p = some (d', p')) :
    (d.hdr_end = false ∧ FITS_CHUNK_LENGTH ≤ p.length ∧ d' = d.readUnit (p.take FITS_CHUNK_LENGTH) ∧
        p' = p.drop FITS_CHUNK_LENGTH) ∨
      (d.hdr_end = true ∧ d.running_size < d.fits_file_size ∧ d.needsPlane = true ∧ p ≠ [] ∧ d' = d.newPlane d.frame ∧
        p' = p) ∨
      (d.hdr_end = true ∧ d.running_size < d.fits_file_size ∧ d.needsPlane = false ∧ 4 ≤ p.length ∧
        d' = d.readWords [wordOf p] ∧ p' = p.drop 4) := by
  unfold Dataset.micro at h
  by_cases he : d.hdr_end = false
  · rw [if_pos he] at h
    split at h
    · cases h
      exact Or.inl ⟨he, ‹_›, rfl, rfl⟩
    · cases h
  · rw [if_neg he] at h
    have he' : d.hdr_end = true := by simpa using he
    split at h
    · cases h
    · split at h
      · split at h
        · cases h
        · cases h
          exact Or.inr (Or.inl ⟨he', by omega, ‹_›, ‹_›, rfl, rfl⟩)
      · split at h
        · cases h
          exact Or.inr (Or.inr ⟨he', by omega, by simpa using ‹¬ d.needsPlane = true›, ‹_›, rfl, rfl⟩)
        · cases h

theorem micro_monotone : Monotone Dataset.micro := by
  intro d p d' p' q h
  rcases micro_cases h with ⟨he, hp, rfl, rfl⟩ | ⟨he, hr, hn, hp, rfl, rfl⟩ | ⟨he, hr, hn, hp, rfl, rfl⟩
  · rw [micro_unit he (by rw [List.length_append]; omega), List.take_append_of_le_length hp, List.drop_append_of_le_length hp]
  · exact micro_plane he hr hn (List.append_ne_nil_of_left_ne_nil hp q)
  · rw [micro_word he hr hn (by rw [List.length_append]; omega), wordOf_append q hp, List.drop_append_of_le_length hp]

def Dataset.progress (d : Dataset) : ℕ := d.header.length + 2 * d.running_size + if d.needsPlane = true then 0 else 1

theorem readUnit_header (d : Dataset) (unit : Bytes) :
    (d.readUnit unit).header = d.header ++ unit ∧ (d.readUnit unit).running_size = d.running_size := by
  rw [readUnit_eq]
  split
  · exact ⟨rfl, rfl⟩
  · exact ⟨rfl, rfl⟩

theorem needsPlane_newPlane (d : Dataset) : (d.newPlane d.frame).needsPlane = false := by
  unfold Dataset.newPlane
  cases hp : d.fits_cube d.frame with
  | some plane =>
    show (decide (1 < d.fits.depth) && (d.fits_cube d.frame).isNone) = false
    rw [hp]
    exact Bool.and_false _
  | none =>
    show (decide (1 < d.fits.depth) && (set d.fits_cube d.frame (some fun _ => none) d.frame).isNone) = false
    rw [set_same]
    exact Bool.and_false _

theorem newPlane_header (d : Dataset) (frame : ℕ) :
    (d.newPlane frame).header = d.header ∧ (d.newPlane frame).running_size = d.running_size := by
  unfold Dataset.newPlane
  split
  · exact ⟨rfl, rfl⟩
  · exact ⟨rfl, rfl⟩

theorem micro_grows (d : Dataset) (p : Bytes) (d' : Dataset) (p' : Bytes) (h : d.micro p = some (d', p')) :
    d.progress < d'.progress := by
  have hone : (if d.needsPlane = true then 0 else 1) ≤ 1 := by
    split
    · exact Nat.zero_le 1
    · exact le_refl 1
  unfold Dataset.progress
  rcases micro_cases h with ⟨he, hp, rfl, rfl⟩ | ⟨he, hr, hn, hp, rfl, rfl⟩ | ⟨he, hr, hn, hp, rfl, rfl⟩
  · obtain ⟨h1, h2⟩ := readUnit_header d (p.take FITS_CHUNK_LENGTH)
    rw [h1, h2, List.length_append, List.length_take, Nat.min_eq_left hp]
    unfold FITS_CHUNK_LENGTH
    omega
  · obtain ⟨h1, h2⟩ := newPlane_header d d.frame
    rw [h1, h2, needsPlane_newPlane, hn]
    exact Nat.lt_succ_self _
  · rw [readWords_header, readWords_running, List.length_singleton]
    omega

/-! ## A call, in small steps -/

/-- What a data set ready for its next word is. -/
theorem ready_of_sound {d : Dataset} (hd : d.Sound) (he : d.hdr_end = true) (hr : d.running_size < d.fits_file_size)
    (hn : d.needsPlane = false) : d.Ready ∧ 0 < d.fits.planeSize := by
  have hplane : 0 < d.fits.planeSize := by
    have htotal := hd.total he
    apply Nat.pos_of_ne_zero
    intro h0
    have : d.fits.totalSize = 0 := by
      unfold FitsHeader.totalSize
      unfold FitsHeader.planeSize at h0
      unfold size_t at h0 ⊢
      rw [Int.mul_emod, Int.mul_emod (d.fits.width * d.fits.height)]
      have h0' : d.fits.width * d.fits.height % 2 ^ 64 = 0 := by omega
      rw [h0']
      simp
    omega
  refine ⟨⟨?_, ?_⟩, hplane⟩
  · rw [hd.image he]
    exact hplane
  · intro h
    unfold Dataset.needsPlane at hn
    rw [decide_eq_true h, Bool.true_and] at hn
    cases hp : d.fits_cube d.frame with
    | none =>
      rw [hp] at hn
      cases hn
    | some plane => rfl

/-- After words short of the plane's end the plane is there. -/
theorem needsPlane_readWords {d : Dataset} (hd : d.Ready) (ws : List UInt32)
    (hroom : 1 < d.fits.depth → d.start + ws.length < d.fits.planeSize) : (d.readWords ws).needsPlane = false := by
  have hready := ready_readWords hd ws hroom
  unfold Dataset.needsPlane
  rw [Bool.and_eq_false_iff]
  by_cases h : 1 < (d.readWords ws).fits.depth
  · right
    rw [Option.isNone_eq_false_iff]
    exact hready.plane h
  · left
    exact decide_eq_false h

/-- The words of a call, one by one. -/
theorem steps_words {d : Dataset} (hd : d.Sound) (he : d.hdr_end = true) (hn : d.needsPlane = false) (b : Bytes) (k : ℕ)
    (hb : 4 * k ≤ b.length) (ht : d.running_size + k ≤ d.fits_file_size) (hlt : d.running_size < d.fits_file_size)
    (hroom : 1 < d.fits.depth → d.start + k ≤ d.fits.planeSize) :
    Steps Dataset.micro (d, b) (d.readWords (wordsOf k b), b.drop (4 * k)) := by
  obtain ⟨hready, hplane⟩ := ready_of_sound hd he hlt hn
  induction k with
  | zero =>
    rw [wordsOf, readWords_nil hready (hd.frame_min _) (hd.frame_max _) fun _ => start_lt hplane]
    exact Relation.ReflTransGen.refl
  | succ k ih =>
    have hroom' : 1 < d.fits.depth → d.start + (wordsOf k b).length < d.fits.planeSize := by
      intro h
      rw [wordsOf_length]
      exact hroom h
    refine Relation.ReflTransGen.tail (ih (by omega) (by omega) fun h => (by have := hroom h; omega)) ?_
    have hneeds := needsPlane_readWords hready (wordsOf k b) hroom'
    show (d.readWords (wordsOf k b)).micro (b.drop (4 * k)) = _
    rw [micro_word (by rw [readWords_hdr_end]; exact he) (by rw [readWords_running, readWords_total, wordsOf_length]; omega)
      hneeds (by rw [List.length_drop]; omega), wordsOf_succ, readWords_snoc hready _ _ hroom', List.drop_drop]
    congr 3

theorem workSize_le {d : Dataset} {n : ℕ} (hr : d.running_size < d.fits_file_size) (hp : d.start < d.fits.planeSize) :
    4 * d.workSize n ≤ n ∧ d.running_size + d.workSize n ≤ d.fits_file_size ∧
      (1 < d.fits.depth → d.start + d.workSize n ≤ d.fits.planeSize) := by
  unfold Dataset.workSize
  dsimp only
  split
  · exact ⟨by omega, by omega, fun _ => by omega⟩
  · exact ⟨by omega, by omega, fun h => absurd h ‹_›⟩

def Dataset.withPlane (d : Dataset) : Dataset := if 1 < d.fits.depth then d.newPlane d.frame else d

theorem withPlane_shape (d : Dataset) : d.withPlane.shape = d.shape := by
  unfold Dataset.withPlane
  split
  · exact newPlane_shape d d.frame
  · rfl

theorem withPlane_running (d : Dataset) : d.withPlane.running_size = d.running_size := by
  unfold Dataset.withPlane
  split
  · exact (newPlane_header d d.frame).2
  · rfl

theorem withPlane_fits (d : Dataset) : d.withPlane.fits = d.fits := congrArg (fun s => s.1.2.1) (withPlane_shape d)

theorem withPlane_frame (d : Dataset) : d.withPlane.frame = d.frame ∧ d.withPlane.start = d.start := by
  have hframe : d.withPlane.frame = d.frame := by
    unfold Dataset.frame
    rw [withPlane_running, withPlane_fits]
  refine ⟨hframe, ?_⟩
  unfold Dataset.start
  rw [withPlane_running, withPlane_fits, hframe]

theorem needsPlane_withPlane (d : Dataset) : d.withPlane.needsPlane = false := by
  by_cases h : 1 < d.fits.depth
  · unfold Dataset.withPlane
    rw [if_pos h]
    exact needsPlane_newPlane d
  · unfold Dataset.needsPlane
    rw [withPlane_fits, decide_eq_false h]
    rfl

theorem sound_withPlane {d : Dataset} (hd : d.Sound) : d.withPlane.Sound := by
  unfold Dataset.withPlane
  split
  · exact sound_newPlane hd
  · exact hd

/-- The words of a call go to a new plane where there is none. -/
theorem readWords_withPlane (d : Dataset) (ws : List UInt32) : d.withPlane.readWords ws = d.readWords ws := by
  by_cases h : 1 < d.fits.depth
  · have hsome : (d.withPlane.fits_cube d.frame).isSome := by
      have hn := needsPlane_withPlane d
      unfold Dataset.needsPlane at hn
      rw [withPlane_fits, decide_eq_true h, Bool.true_and, (withPlane_frame d).1, Option.isNone_eq_false_iff] at hn
      exact hn
    have hplane : d.withPlane.readPlane ws = d.readPlane ws := by
      obtain ⟨hf, hs⟩ := withPlane_frame d
      have hd : d.newPlane d.frame = d.withPlane := by
        unfold Dataset.withPlane
        rw [if_pos h]
      unfold Dataset.readPlane
      dsimp only
      rw [hf, hs, hd, newPlane_of_isSome hsome]
    rw [readWords_cube h, readWords_cube (by rw [withPlane_fits]; exact h), hplane, withPlane_running]
  · unfold Dataset.withPlane
    rw [if_neg h]

theorem steps_withPlane {d : Dataset} (he : d.hdr_end = true) (hr : d.running_size < d.fits_file_size) {b : Bytes}
    (hb : b ≠ []) : Steps Dataset.micro (d, b) (d.withPlane, b) := by
  by_cases hn : d.needsPlane = true
  · have hdepth : 1 < d.fits.depth := by
      unfold Dataset.needsPlane at hn
      rw [Bool.and_eq_true] at hn
      exact of_decide_eq_true hn.1
    unfold Dataset.withPlane
    rw [if_pos hdepth]
    exact steps_single (micro_plane he hr hn hb)
  · have hsame : d.withPlane = d := by
      unfold Dataset.withPlane
      split
      · apply newPlane_of_isSome
        unfold Dataset.needsPlane at hn
        rw [decide_eq_true ‹_›, Bool.true_and, Bool.not_eq_true, Option.isNone_eq_false_iff] at hn
        exact hn
      · rfl
    rw [hsame]
    exact Relation.ReflTransGen.refl

/-- A data set short of its last word, with the frame's plane there. -/
theorem ready_withPlane {d : Dataset} (hd : d.Sound) (he : d.hdr_end = true) (hr : d.running_size < d.fits_file_size) :
    d.withPlane.hdr_end = true ∧ d.withPlane.fits_file_size = d.fits_file_size ∧ d.withPlane.Ready ∧ 0 < d.fits.planeSize := by
  have he' : d.withPlane.hdr_end = true := (congrArg (fun s => s.1.2.2) (withPlane_shape d)).trans he
  have htotal : d.withPlane.fits_file_size = d.fits_file_size := congrArg (fun s => s.2.1) (withPlane_shape d)
  obtain ⟨hready, hplane⟩ := ready_of_sound (sound_withPlane hd) he' (by rw [withPlane_running, htotal]; exact hr)
    (needsPlane_withPlane d)
  rw [withPlane_fits] at hplane
  exact ⟨he', htotal, hready, hplane⟩

/-- A call of `scan_fits_data` that is not skipped, in small steps. -/
theorem steps_data {d : Dataset} (hd : d.Sound) (he : d.hdr_end = true) (hr : d.running_size < d.fits_file_size) {b : Bytes}
    (hb : b ≠ []) :
    Steps Dataset.micro (d, b) (d.readWords (wordsOf (d.workSize b.length) b), b.drop (4 * d.workSize b.length)) ∧
      (d.readWords (wordsOf (d.workSize b.length) b)).Sound := by
  obtain ⟨he', htotal, hready, hplane⟩ := ready_withPlane hd he hr
  have hsound := sound_withPlane hd
  obtain ⟨h4, ht, hroom⟩ := workSize_le (n := b.length) hr (start_lt hplane)
  have hsteps := steps_words hsound he' (needsPlane_withPlane d) b (d.workSize b.length) h4
    (by rw [withPlane_running, htotal]; exact ht) (by rw [withPlane_running, htotal]; exact hr)
    (by rw [withPlane_fits, (withPlane_frame d).2]; exact hroom)
  rw [← readWords_withPlane]
  exact ⟨(steps_withPlane he hr hb).trans hsteps, sound_readWords hsound he' hready _⟩

/-- What a call of `write_data` does: more of the header is awaited, a unit of it is
    read, the piece is dropped, or words are read. -/
theorem writeData_cases {t t' : Download} {c : Bytes} (h : writeData t c = some t') :
    (t.data.hdr_end = false ∧ (t.buffer ++ c).length < FITS_CHUNK_LENGTH ∧ t' = { t with buffer := t.buffer ++ c }) ∨
      (t.data.hdr_end = false ∧ FITS_CHUNK_LENGTH ≤ (t.buffer ++ c).length ∧
        t' = { t with
          data := t.data.readUnit ((t.buffer ++ c).take FITS_CHUNK_LENGTH)
          buffer := (t.buffer ++ c).drop FITS_CHUNK_LENGTH }) ∨
      (t.data.hdr_end = true ∧ t.data.fits_file_size ≤ t.data.running_size ∧ t' = t) ∨
      (t.data.hdr_end = true ∧ t.data.running_size < t.data.fits_file_size ∧
        ∃ ws : List UInt32, ws = wordsOf (t.data.workSize (t.buffer ++ c).length) (t.buffer ++ c) ∧
          t' = ⟨t.data.readWords ws, (t.buffer ++ c).drop (4 * ws.length), t.data.addMean ws t.mean_spectrum⟩) := by
  unfold writeData at h
  by_cases he : t.data.hdr_end = true
  · rw [if_pos he] at h
    unfold scanFitsData at h
    right; right
    by_cases hr : t.data.fits_file_size ≤ t.data.running_size
    · rw [if_pos hr] at h
      cases h
      exact Or.inl ⟨he, hr, rfl⟩
    · rw [if_neg hr] at h
      split at h
      · cases h
      · cases h
        refine Or.inr ⟨he, by omega, _, rfl, ?_⟩
        rw [wordsOf_length]
  · rw [if_neg he] at h
    have he' : t.data.hdr_end = false := by simpa using he
    unfold scanFitsHeader at h
    dsimp only at h
    split at h
    · cases h
    · split at h
      · rename_i hshort
        cases h
        exact Or.inl ⟨he', hshort, rfl⟩
      · cases h
        exact Or.inr (Or.inl ⟨he', by omega, rfl⟩)

/-- While the header is being read, a call waits for a block or reads one. -/
theorem writeData_header {t t' : Download} {c : Bytes} (he : t.data.hdr_end = false) (h : writeData t c = some t') :
    t' = { t with buffer := t.buffer ++ c } ∨
      t' = { t with
        data := t.data.readUnit ((t.buffer ++ c).take FITS_CHUNK_LENGTH)
        buffer := (t.buffer ++ c).drop FITS_CHUNK_LENGTH } := by
  rcases writeData_cases h with ⟨-, -, hwait⟩ | ⟨-, -, hread⟩ | ⟨he', -⟩ | ⟨he', -⟩
  · exact Or.inl hwait
  · exact Or.inr hread
  · exact absurd (he.symm.trans he') Bool.noConfusion
  · exact absurd (he.symm.trans he') Bool.noConfusion

/-- Once the header is read, a call drops its piece or reads the whole words there are. -/
theorem writeData_data {t t' : Download} {c : Bytes} (he : t.data.hdr_end = true) (h : writeData t c = some t') :
    (t.data.fits_file_size ≤ t.data.running_size ∧ t' = t) ∨
      (t.data.running_size < t.data.fits_file_size ∧
        ∃ ws : List UInt32, ws = wordsOf (t.data.workSize (t.buffer ++ c).length) (t.buffer ++ c) ∧
          t' = ⟨t.data.readWords ws, (t.buffer ++ c).drop (4 * ws.length), t.data.addMean ws t.mean_spectrum⟩) := by
  rcases writeData_cases h with ⟨he', -⟩ | ⟨he', -⟩ | ⟨-, hdone⟩ | ⟨-, hread⟩
  · exact absurd (he.symm.trans he') Bool.noConfusion
  · exact absurd (he.symm.trans he') Bool.noConfusion
  · exact Or.inl hdone
  · exact Or.inr hread

/-- A call on the data keeps the header and the sizes. -/
theorem writeData_shape {t t' : Download} {c : Bytes} (he : t.data.hdr_end = true) (h : writeData t c = some t') :
    t'.data.shape = t.data.shape := by
  rcases writeData_data he h with ⟨-, rfl⟩ | ⟨-, ws, -, rfl⟩
  · rfl
  · exact readWords_shape _ _

/-- The point of the stream at which a download is; what is pending does not matter when
    all is read. -/
def Download.At (t : Download) (x : Dataset × Bytes) : Prop :=
  t.data = x.1 ∧ x.1.Sound ∧ (x.1.done = true ∨ t.buffer = x.2)

/-- `writeData_follows`: a call takes some of the small steps there are. -/
theorem writeData_follows : @Follows _ _ Dataset.micro _ writeData Download.At fun c => c ≠ [] := by
  intro t x c t' hx hc h
  obtain ⟨d, p⟩ := x
  obtain ⟨rfl, hsound, hp⟩ := hx
  dsimp only at hsound hp ⊢
  -- what is pending is in the buffer, unless all is read
  have hbuffer : ¬ t.data.done = true → t.buffer = p := hp.resolve_left
  rcases writeData_cases h with ⟨he, -, rfl⟩ | ⟨he, hunit, rfl⟩ | ⟨he, hr, rfl⟩ | ⟨he, hr, ws, rfl, rfl⟩
  · have hp := hbuffer (by simp [Dataset.done, he])
    exact ⟨(t.data, p ++ c), Relation.ReflTransGen.refl, rfl, hsound, Or.inr (by rw [← hp])⟩
  · have hp := hbuffer (by simp [Dataset.done, he])
    rw [hp] at hunit ⊢
    exact ⟨_, steps_single (a := (t.data, p ++ c)) (micro_unit he hunit), rfl, sound_readUnit hsound he _, Or.inr rfl⟩
  · exact ⟨(t'.data, p ++ c), Relation.ReflTransGen.refl, rfl, hsound, Or.inl (by simp [Dataset.done, he, hr])⟩
  · have hp := hbuffer (by simp [Dataset.done, hr])
    rw [hp, wordsOf_length]
    obtain ⟨hsteps, hsound'⟩ := steps_data hsound he hr (b := p ++ c) (List.append_ne_nil_of_right_ne_nil p hc)
    exact ⟨_, hsteps, rfl, hsound', Or.inr rfl⟩

/-! ## A call that leaves nothing to do -/

def Download.Fits (t : Download) (contents : Bytes) : Prop :=
  t.data.done = true ∨ t.buffer.length + contents.length ≤ BUFFER_LENGTH

theorem writeData_isSome_iff (t : Download) (c : Bytes) : (writeData t c).isSome ↔ t.Fits c := by
  unfold writeData Download.Fits Dataset.done
  by_cases he : t.data.hdr_end = true
  · rw [if_pos he, he, Bool.true_and, decide_eq_true_iff]
    unfold scanFitsData
    by_cases hr : t.data.fits_file_size ≤ t.data.running_size
    · rw [if_pos hr]
      exact ⟨fun _ => Or.inl hr, fun _ => rfl⟩
    · rw [if_neg hr]
      by_cases hb : BUFFER_LENGTH < t.buffer.length + c.length
      · rw [if_pos hb]
        exact ⟨fun h => (by cases h), fun h => h.elim (fun h => absurd h hr) (fun h => by omega)⟩
      · rw [if_neg hb]
        exact ⟨fun _ => Or.inr (by omega), fun _ => rfl⟩
  · rw [if_neg he]
    have he' : t.data.hdr_end = false := by simpa using he
    rw [he', Bool.false_and]
    unfold scanFitsHeader
    by_cases hb : BUFFER_LENGTH < t.buffer.length + c.length
    · rw [if_pos hb]
      exact ⟨fun h => (by cases h), fun h => h.elim (fun h => (by cases h)) (fun h => by omega)⟩
    · rw [if_neg hb]
      refine ⟨fun _ => Or.inr (by omega), fun _ => ?_⟩
      dsimp only
      split
      · rfl
      · rfl

def Dataset.room (d : Dataset) : ℕ := d.fits.planeSize - d.start

def Dataset.announced (d : Dataset) (unit : Bytes) : FitsHeader := headerEnd (processFitsHeaderUnit d.fits unit).1

theorem withUnit_announced (d : Dataset) (unit : Bytes) : headerEnd (d.withUnit unit).fits = d.announced unit := by
  unfold Dataset.withUnit Dataset.announced
  dsimp only

/-- Nothing behind the unit at the front of the buffer is left for another call. -/
def Dataset.UnitUsesUp (d : Dataset) (buffer : Bytes) : Prop :=
  let unit := buffer.take FITS_CHUNK_LENGTH
  if d.EndsHeader unit then
    (d.announced unit).totalSize = 0 ∨ buffer.length < FITS_CHUNK_LENGTH + if 1 < (d.announced unit).depth then 1 else 4
  else buffer.length < 2 * FITS_CHUNK_LENGTH

/-- The piece leaves nothing for another call to do: no unit, no plane and no word. -/
def Download.UsesUp (t : Download) (contents : Bytes) : Prop :=
  let n := t.buffer.length + contents.length
  if t.data.hdr_end = false then n < FITS_CHUNK_LENGTH ∨ t.data.UnitUsesUp (t.buffer ++ contents)
  else t.data.fits_file_size ≤ t.data.running_size ∨ t.data.fits.depth ≤ 1 ∨ n ≤ 4 * t.data.room ∨
    t.data.fits_file_size ≤ t.data.running_size + t.data.room

theorem micro_none_of_done {d : Dataset} (h : d.done = true) (p : Bytes) : d.micro p = none := by
  unfold Dataset.done at h
  rw [Bool.and_eq_true, decide_eq_true_iff] at h
  unfold Dataset.micro
  rw [if_neg (by rw [h.1]; exact Bool.noConfusion), if_pos h.2]

/-- Where no small step is left after the header. -/
theorem micro_none_iff {d : Dataset} (he : d.hdr_end = true) (p : Bytes) :
    d.micro p = none ↔ d.fits_file_size ≤ d.running_size ∨ if d.needsPlane = true then p = [] else p.length < 4 := by
  unfold Dataset.micro
  rw [if_neg (by rw [he]; exact Bool.noConfusion)]
  by_cases hr : d.fits_file_size ≤ d.running_size
  · rw [if_pos hr]
    exact ⟨fun _ => Or.inl hr, fun _ => rfl⟩
  · rw [if_neg hr]
    by_cases hn : d.needsPlane = true
    · rw [if_pos hn, if_pos hn]
      by_cases hp : p = []
      · rw [if_pos hp]
        exact ⟨fun _ => Or.inr hp, fun _ => rfl⟩
      · rw [if_neg hp]
        exact ⟨fun h => (by cases h), fun h => h.elim (fun h => absurd h hr) (fun h => absurd h hp)⟩
    · rw [if_neg hn, if_neg hn]
      by_cases hp : 4 ≤ p.length
      · rw [if_pos hp]
        exact ⟨fun h => (by cases h), fun h => h.elim (fun h => absurd h hr) (fun h => by omega)⟩
      · rw [if_neg hp]
        exact ⟨fun _ => Or.inr (by omega), fun _ => rfl⟩

/-- Where the header has just ended. -/
theorem micro_none_allocate {d : Dataset} (h0 : d.running_size = 0) (p : Bytes) :
    d.allocate.micro p = none ↔ (headerEnd d.fits).totalSize = 0 ∨ p.length < if 1 < (headerEnd d.fits).depth then 1 else 4 := by
  have htotal : d.allocate.fits_file_size ≤ d.allocate.running_size ↔ (headerEnd d.fits).totalSize = 0 := by
    show (headerEnd d.fits).totalSize ≤ d.running_size ↔ _
    rw [h0]
    exact Nat.le_zero
  rw [micro_none_iff rfl, htotal]
  apply or_congr Iff.rfl
  by_cases hdepth : 1 < (headerEnd d.fits).depth
  · have hcube : d.allocate.fits_cube = fun _ => none := if_pos hdepth
    have hn : d.allocate.needsPlane = true := by
      unfold Dataset.needsPlane
      rw [hcube, Bool.and_eq_true]
      exact ⟨decide_eq_true hdepth, rfl⟩
    rw [if_pos hn, if_pos hdepth, ← List.length_eq_zero_iff]
    omega
  · have hn : d.allocate.needsPlane = false := by
      unfold Dataset.needsPlane
      rw [Bool.and_eq_false_iff]
      exact Or.inl (decide_eq_false hdepth)
    rw [hn, if_neg Bool.false_ne_true, if_neg hdepth]

/-- After one unit of the header. -/
theorem micro_none_readUnit {d : Dataset} (hd : d.Sound) (he : d.hdr_end = false) {b : Bytes}
    (hb : FITS_CHUNK_LENGTH ≤ b.length) :
    (d.readUnit (b.take FITS_CHUNK_LENGTH)).micro (b.drop FITS_CHUNK_LENGTH) = none ↔ d.UnitUsesUp b := by
  have hlen : (b.drop FITS_CHUNK_LENGTH).length = b.length - FITS_CHUNK_LENGTH := List.length_drop
  unfold Dataset.UnitUsesUp
  dsimp only
  rw [readUnit_eq]
  by_cases h : d.EndsHeader (b.take FITS_CHUNK_LENGTH)
  · have hrun : (d.withUnit (b.take FITS_CHUNK_LENGTH)).running_size = 0 := hd.running he
    rw [if_pos h, if_pos h, micro_none_allocate hrun, hlen, withUnit_announced]
    apply or_congr Iff.rfl
    split
    · omega
    · omega
  · rw [if_neg h, if_neg h]
    have he' : (d.withUnit (b.take FITS_CHUNK_LENGTH)).hdr_end = false := he
    unfold Dataset.micro
    rw [if_pos he', hlen]
    by_cases h2 : FITS_CHUNK_LENGTH ≤ b.length - FITS_CHUNK_LENGTH
    · rw [if_pos h2]
      exact ⟨fun h => (by cases h), fun h => by omega⟩
    · rw [if_neg h2]
      exact ⟨fun _ => by omega, fun _ => rfl⟩

/-- At the plane's end the next plane is not. -/
theorem needsPlane_of_end {d : Dataset} (hd : d.Sound) (he : d.hdr_end = true) (hr : d.Ready) (h : 1 < d.fits.depth)
    (hplane : 0 < d.fits.planeSize) (ws : List UInt32) (hend : d.start + ws.length = d.fits.planeSize) :
    (d.readWords ws).needsPlane = true := by
  have hf := frame_start d
  have hrun : d.running_size + ws.length = (d.frame + 1) * d.fits.planeSize := by
    rw [Nat.add_mul, Nat.one_mul]
    omega
  have hframe : (d.readWords ws).frame = d.frame + 1 := by
    show (d.readWords ws).running_size / (d.readWords ws).fits.planeSize = _
    rw [readWords_running, readWords_fits, hrun, Nat.mul_div_cancel _ hplane]
  have hahead : d.fits_cube (d.frame + 1) = none := by
    apply hd.ahead he h
    rw [Nat.add_mul, Nat.one_mul]
    have := start_lt hplane
    omega
  unfold Dataset.needsPlane
  rw [readWords_fits, decide_eq_true h, hframe, readWords_other_plane hr ws (Nat.succ_ne_self _) hahead]
  rfl

/-- After the words of a call. -/
theorem micro_none_readWords {d : Dataset} (hd : d.Sound) (he : d.hdr_end = true) (hr : d.running_size < d.fits_file_size)
    (b : Bytes) :
    (d.readWords (wordsOf (d.workSize b.length) b)).micro (b.drop (4 * d.workSize b.length)) = none ↔
      d.fits.depth ≤ 1 ∨ b.length ≤ 4 * d.room ∨ d.fits_file_size ≤ d.running_size + d.room := by
  obtain ⟨he', htotal, hready, hplane⟩ := ready_withPlane hd he hr
  obtain ⟨hframe, hstart⟩ := withPlane_frame d
  have hlt := start_lt hplane
  set k := d.workSize b.length with hk
  have hlen : (wordsOf k b).length = k := wordsOf_length k b
  have hdrop : (b.drop (4 * k)).length = b.length - 4 * k := List.length_drop
  rw [micro_none_iff (by rw [readWords_hdr_end]; exact he), readWords_total, readWords_running, hlen,
    ← List.length_eq_zero_iff, hdrop]
  unfold Dataset.workSize at hk
  dsimp only at hk
  unfold Dataset.room
  by_cases hdepth : 1 < d.fits.depth
  · rw [if_pos hdepth] at hk
    by_cases hend : d.start + k = d.fits.planeSize
    · have hn : (d.readWords (wordsOf k b)).needsPlane = true := by
        rw [← readWords_withPlane]
        apply needsPlane_of_end (sound_withPlane hd) he' hready
        · rw [withPlane_fits]
          exact hdepth
        · rw [withPlane_fits]
          exact hplane
        · rw [withPlane_fits, hstart, hlen]
          exact hend
      rw [if_pos hn]
      omega
    · have hn : (d.readWords (wordsOf k b)).needsPlane = false := by
        rw [← readWords_withPlane]
        apply needsPlane_readWords hready
        intro _
        rw [withPlane_fits, hstart, hlen]
        omega
      rw [hn, if_neg Bool.false_ne_true]
      omega
  · rw [if_neg hdepth] at hk
    have hn : (d.readWords (wordsOf k b)).needsPlane = false := by
      rw [← readWords_withPlane]
      apply needsPlane_readWords hready
      intro h
      rw [withPlane_fits] at h
      exact absurd h hdepth
    rw [hn, if_neg Bool.false_ne_true]
    omega

theorem sound_writeData {t t' : Download} {c : Bytes} (hs : t.data.Sound) (hc : c ≠ []) (h : writeData t c = some t') :
    t'.data.Sound := by
  obtain ⟨x', -, hx'⟩ := writeData_follows t (t.data, t.buffer) c t' ⟨rfl, hs, Or.inr rfl⟩ hc h
  rw [hx'.1]
  exact hx'.2.1

/-- A call uses its piece up exactly when `UsesUp` says so. -/
theorem stuck_writeData_iff {t t' : Download} {c : Bytes} (hs : t.data.Sound) (h : writeData t c = some t') :
    t'.data.micro t'.buffer = none ↔ t.UsesUp c := by
  unfold Download.UsesUp
  dsimp only
  rw [← List.length_append]
  rcases writeData_cases h with ⟨he, hshort, rfl⟩ | ⟨he, hunit, rfl⟩ | ⟨he, hr, rfl⟩ | ⟨he, hr, ws, rfl, rfl⟩
  · rw [if_pos he]
    unfold Dataset.micro
    dsimp only
    rw [if_pos he, if_neg (by omega)]
    exact ⟨fun _ => Or.inl hshort, fun _ => rfl⟩
  · rw [if_pos he]
    dsimp only
    rw [micro_none_readUnit hs he hunit]
    exact ⟨Or.inr, fun h => h.resolve_left (by omega)⟩
  · rw [if_neg (by simp [he]), micro_none_iff he]
    exact ⟨fun _ => Or.inl hr, fun _ => Or.inl hr⟩
  · rw [if_neg (by simp [he])]
    dsimp only
    rw [wordsOf_length, micro_none_readWords hs he hr]
    exact ⟨Or.inr, fun h => h.resolve_left (by omega)⟩

/-! ## Whole downloads -/

def KeepsUp : Download → List Bytes → Prop
  | _, [] => True
  | t, [c] => t.Fits c ∧ t.UsesUp c
  | t, c :: c' :: cs => t.Fits c ∧ ∀ t', writeData t c = some t' → KeepsUp t' (c' :: cs)

theorem keepsUp_iff (cs : List Bytes) (c : Bytes) (t : Download) (hs : t.data.Sound) (hne : ∀ x ∈ c :: cs, x ≠ []) :
    KeepsUp t (c :: cs) ↔ ∃ t', feedAll writeData t (c :: cs) = some t' ∧ t'.data.micro t'.buffer = none := by
  induction cs generalizing t c with
  | nil =>
    show t.Fits c ∧ t.UsesUp c ↔ _
    rw [← writeData_isSome_iff, Option.isSome_iff_exists]
    have hfeed : feedAll writeData t [c] = writeData t c := by
      show (writeData t c).bind some = writeData t c
      exact Option.bind_fun_some _
    rw [hfeed]
    constructor
    · intro h
      obtain ⟨⟨t', h1⟩, h2⟩ := h
      exact ⟨t', h1, (stuck_writeData_iff hs h1).mpr h2⟩
    · intro h
      obtain ⟨t', h1, h2⟩ := h
      exact ⟨⟨t', h1⟩, (stuck_writeData_iff hs h1).mp h2⟩
  | cons c' cs ih =>
    show (t.Fits c ∧ ∀ t', writeData t c = some t' → KeepsUp t' (c' :: cs)) ↔ _
    rw [← writeData_isSome_iff, Option.isSome_iff_exists]
    have hfeed : feedAll writeData t (c :: c' :: cs) = (writeData t c).bind fun t' => feedAll writeData t' (c' :: cs) := rfl
    rw [hfeed]
    have hc : c ≠ [] := hne c List.mem_cons_self
    have hcs : ∀ x ∈ c' :: cs, x ≠ [] := fun x hx => hne x (List.mem_cons_of_mem _ hx)
    constructor
    · intro h
      obtain ⟨⟨t1, h1⟩, h2⟩ := h
      rw [h1]
      exact (ih c' t1 (sound_writeData hs hc h1) hcs).mp (h2 t1 h1)
    · intro h
      obtain ⟨t', h1, h2⟩ := h
      obtain ⟨t1, h3, h4⟩ := Option.bind_eq_some_iff.mp h1
      refine ⟨⟨t1, h3⟩, ?_⟩
      intro t2 h5
      cases h3.symm.trans h5
      exact (ih c' t1 (sound_writeData hs hc h3) hcs).mpr ⟨t', h4, h2⟩

def bytewise (stream : Bytes) : List Bytes := stream.map fun b => [b]

theorem bytewise_flatten (stream : Bytes) : (bytewise stream).flatten = stream := by
  induction stream with
  | nil => rfl
  | cons b stream ih =>
    show [b] ++ (bytewise stream).flatten = b :: stream
    rw [ih]
    rfl

/-- With nothing left to do a byte more always fits and is used up. -/
theorem byte_keeps_up {t : Download} (hs : t.data.Sound) (h : t.data.micro t.buffer = none) (b : UInt8) :
    t.Fits [b] ∧ t.UsesUp [b] := by
  unfold Download.Fits Download.UsesUp
  have hbuffer : BUFFER_LENGTH = 19264 := rfl
  have hchunk : FITS_CHUNK_LENGTH = 2880 := rfl
  by_cases he : t.data.hdr_end = true
  · rw [micro_none_iff he] at h
    rw [if_neg (by rw [he]; exact Bool.noConfusion)]
    by_cases hr : t.data.fits_file_size ≤ t.data.running_size
    · refine ⟨Or.inl ?_, Or.inl hr⟩
      unfold Dataset.done
      rw [he, decide_eq_true hr]
      rfl
    · have hlen : t.buffer.length < 4 := by
        rcases h with h | h
        · exact absurd h hr
        · split at h
          · rw [h]
            exact Nat.zero_lt_succ 3
          · exact h
      obtain ⟨-, -, -, hplane⟩ := ready_withPlane hs he (by omega)
      have hlt := start_lt hplane
      refine ⟨Or.inr ?_, Or.inr (Or.inr (Or.inl ?_))⟩
      · rw [List.length_singleton]
        omega
      · unfold Dataset.room
        rw [List.length_singleton]
        omega
  · have he' : t.data.hdr_end = false := by simpa using he
    have hlen : t.buffer.length < 2880 := by
      unfold Dataset.micro at h
      rw [if_pos he'] at h
      split at h
      · cases h
      · omega
    rw [if_pos he']
    refine ⟨Or.inr (by rw [List.length_singleton]; omega), ?_⟩
    by_cases hn : t.buffer.length + [b].length < FITS_CHUNK_LENGTH
    · exact Or.inl hn
    · right
      unfold Dataset.UnitUsesUp
      rw [List.length_append]
      rw [List.length_singleton] at hn ⊢
      dsimp only
      split
      · right
        split
        · omega
        · omega
      · omega

theorem bytewise_run (stream : Bytes) (t : Download) (hs : t.data.Sound) (h : t.data.micro t.buffer = none) :
    ∃ t', feedAll writeData t (bytewise stream) = some t' ∧ t'.data.micro t'.buffer = none := by
  induction stream generalizing t with
  | nil => exact ⟨t, rfl, h⟩
  | cons b stream ih =>
    obtain ⟨hfits, huses⟩ := byte_keeps_up hs h b
    obtain ⟨t1, h1⟩ := Option.isSome_iff_exists.mp ((writeData_isSome_iff t [b]).mpr hfits)
    obtain ⟨t', h2, h3⟩ := ih t1 (sound_writeData hs (List.cons_ne_nil b []) h1) ((stuck_writeData_iff hs h1).mpr huses)
    refine ⟨t', ?_, h3⟩
    show (writeData t [b]).bind (fun t' => feedAll writeData t' (bytewise stream)) = some t'
    rw [h1]
    exact h2

/-- What the download of a file in these pieces leaves: all but the buffer and the means. -/
def stateAfter (fits : FitsHeader) (cs : List Bytes) : Option Dataset :=
  (feedAll writeData (Download.init fits) cs).map fun t => t.data

/-- The state after the last piece is the stream's, however it was cut, exactly when every
    copy fits in the buffer and the last piece is used up. -/
theorem cut_agrees_iff (fits : FitsHeader) (cs : List Bytes) (hcs : ∀ c ∈ cs, c ≠ []) :
    (stateAfter fits cs = stateAfter fits (bytewise cs.flatten) ↔ KeepsUp (Download.init fits) cs) ∧
      ∀ cs' : List Bytes, (∀ c ∈ cs', c ≠ []) → cs'.flatten = cs.flatten → KeepsUp (Download.init fits) cs →
        KeepsUp (Download.init fits) cs' → stateAfter fits cs' = stateAfter fits cs := by
  have key : ∀ cs : List Bytes, (∀ c ∈ cs, c ≠ []) →
      (stateAfter fits cs = stateAfter fits (bytewise cs.flatten) ↔ KeepsUp (Download.init fits) cs) := by
    intro cs hcs
    have hs : (Download.init fits).data.Sound := sound_init fits
    have hat : (Download.init fits).At (Dataset.init fits, []) := ⟨rfl, hs, Or.inr rfl⟩
    obtain ⟨tb, hb, hbs⟩ := bytewise_run cs.flatten (Download.init fits) hs rfl
    have hbne : ∀ c ∈ bytewise cs.flatten, c ≠ [] := by
      intro c hc
      obtain ⟨b, -, rfl⟩ := List.mem_map.mp hc
      exact List.cons_ne_nil b []
    obtain ⟨xb, hxb, hatb⟩ := steps_of_run micro_monotone writeData_follows _ _ _ _ hat hbne hb
    rw [bytewise_flatten] at hxb
    have hstuck : ∀ (t : Download) (x : Dataset × Bytes), t.At x → (Stuck Dataset.micro x ↔ t.data.micro t.buffer = none) := by
      intro t x h
      obtain ⟨h1, -, h2⟩ := h
      rw [h1]
      rcases h2 with h2 | h2
      · exact ⟨fun _ => micro_none_of_done h2 _, fun _ => micro_none_of_done h2 _⟩
      · rw [h2]
        exact Iff.rfl
    unfold stateAfter
    rw [hb]
    cases cs with
    | nil =>
      cases hb
      exact ⟨fun _ => trivial, fun _ => rfl⟩
    | cons c cs =>
      rw [keepsUp_iff cs c _ hs hcs]
      cases ht : feedAll writeData (Download.init fits) (c :: cs) with
      | none =>
        constructor
        · intro h
          cases h
        · intro h
          obtain ⟨t', h, -⟩ := h
          cases h
      | some t =>
        obtain ⟨x, hx, hatx⟩ := steps_of_run micro_monotone writeData_follows _ _ _ _ hat hcs ht
        have hiff := state_eq_iff Dataset.progress micro_grows hx hxb ((hstuck tb xb hatb).mpr hbs)
        rw [← hatx.1, ← hatb.1, hstuck t x hatx] at hiff
        rw [Option.map_some, Option.map_some, Option.some_inj, hiff]
        constructor
        · intro h
          exact ⟨t, rfl, h⟩
        · intro h
          obtain ⟨t', h1, h2⟩ := h
          cases h1
          exact h2
  refine ⟨key cs hcs, ?_⟩
  intro cs' hcs' hf hk hk'
  rw [(key cs' hcs').mpr hk', (key cs hcs).mpr hk, hf]

/-! ## Headers of one unit -/

def headerUnit (cards : List String) : Bytes :=
  (cards.flatMap fun card => lit card ++ List.replicate (FITS_LINE_LENGTH - card.length) 32) ++
    List.replicate (FITS_CHUNK_LENGTH - FITS_LINE_LENGTH * cards.length) 32

deriving instance DecidableEq for FitsHeader

def paddedCard (card : String) : Bytes := lit card ++ List.replicate (FITS_LINE_LENGTH - card.length) 32

def blankCard : Bytes := List.replicate FITS_LINE_LENGTH 32

theorem foldl_unchanged {α β : Type} (f : β → α → β) {l : List α} {b : β} (h : ∀ a ∈ l, f b a = b) : l.foldl f b = b := by
  induction l with
  | nil => rfl
  | cons a l ih =>
    rw [List.foldl_cons, h a (by simp)]
    exact ih fun c hc => h c (by simp [hc])

/-- A blank card changes nothing, where there is a range of values. -/
theorem processCard_blank {h : FitsHeader} (hrange : h.scale.datamin ≠ h.scale.datamax) : processCard h blankCard = h := by
  have hkeys : (∀ c ∈ valueCards.map Prod.fst, hasKey blankCard c = false) ∧
      (∀ c ∈ textCards.map Prod.fst, hasKey blankCard c = false) ∧ hasKey blankCard (lit "TELESCOP= ") = false ∧
      hasKey blankCard (lit "FRAMEID = ") = false := by
    decide +kernel
  have hwords : find blankCard (lit "ASTRO-F") = false ∧ find blankCard (lit "HSCPIPE") = false ∧
      (find (blankCard.map toLower) (lit "suzaku") || find (blankCard.map toLower) (lit "hitomi") ||
        find (blankCard.map toLower) (lit "x-ray")) = false := by
    decide +kernel
  obtain ⟨hvalue, htext, htelescope, hframe⟩ := hkeys
  obtain ⟨hastro, hhsc, hxray⟩ := hwords
  have hv : valueCards.foldl (fun h c => if hasKey blankCard c.1 then c.2 h (blankCard.drop 10) else h) h = h :=
    foldl_unchanged _ fun c hc => by rw [hvalue c.1 (List.mem_map_of_mem hc)]; rfl
  have ht : textCards.foldl (fun (r : FitsHeader × Bytes) c =>
      if hasKey r.2 c.1 then
        (c.2 r.1 (hdrGetStringValueWithSpaces (r.2.drop 10)).1, r.2.take 10 ++ (hdrGetStringValueWithSpaces (r.2.drop 10)).2)
      else r) (h, blankCard) = (h, blankCard) :=
    foldl_unchanged _ fun c hc => by rw [htext c.1 (List.mem_map_of_mem hc)]; rfl
  unfold processCard
  dsimp only
  rw [hv, ht]
  dsimp only
  rw [if_neg hrange]
  unfold telescopeCard surveyCard
  simp only [htelescope, hastro, hhsc, hframe, hxray, Bool.false_eq_true, if_false]

theorem lit_length (s : String) : (lit s).length = s.length := by
  rw [lit, List.length_map, String.length_toList]

theorem paddedCard_length {card : String} (h : card.length ≤ FITS_LINE_LENGTH) : (paddedCard card).length = FITS_LINE_LENGTH := by
  rw [paddedCard, List.length_append, lit_length, List.length_replicate]
  omega

theorem cardsOf_blank (n : ℕ) : cardsOf n (List.replicate (FITS_LINE_LENGTH * n) 32) = List.replicate n blankCard := by
  induction n with
  | zero => rfl
  | succ n ih =>
    rw [cardsOf, List.take_replicate, List.drop_replicate, List.replicate_succ, Nat.mul_succ, Nat.add_sub_cancel, ih,
      Nat.min_eq_left (Nat.le_add_left _ _)]
    rfl

theorem cardsOf_padded (cards : List String) (n : ℕ) (hshort : ∀ c ∈ cards, c.length ≤ FITS_LINE_LENGTH) :
    cardsOf (cards.length + n) (cards.flatMap paddedCard ++ List.replicate (FITS_LINE_LENGTH * n) 32) =
      cards.map paddedCard ++ List.replicate n blankCard := by
  induction cards with
  | nil => simpa using cardsOf_blank n
  | cons card cards ih =>
    have hlen := paddedCard_length (hshort card (by simp))
    rw [List.length_cons, Nat.add_right_comm, cardsOf, List.flatMap_cons, List.append_assoc,
      List.take_left' hlen, List.drop_left' hlen, ih fun c hc => hshort c (by simp [hc])]
    rfl

/-- A header of so many cards turns `fits` into `fits'` and ends; there is a range of values. -/
def ReadsCards (fits fits' : FitsHeader) (cards : List String) : Prop :=
  (cards.length ≤ 36 ∧ ∀ c ∈ cards, c.length ≤ FITS_LINE_LENGTH ∧ (paddedCard c).all (· != 0) = true) ∧
    cards.foldl (fun h c => processCard h (paddedCard c)) fits = fits' ∧ fits'.scale.datamin ≠ fits'.scale.datamax ∧
      cards.any (fun c => hasKey (paddedCard c) (lit "END       ")) = true

instance (fits fits' : FitsHeader) (cards : List String) : Decidable (ReadsCards fits fits' cards) :=
  inferInstanceAs (Decidable (_ ∧ _))

theorem headerUnit_length {fits fits' : FitsHeader} {cards : List String} (h : ReadsCards fits fits' cards) :
    (headerUnit cards).length = FITS_CHUNK_LENGTH := by
  obtain ⟨⟨hlen, hshort⟩, -⟩ := h
  have hcards : ∀ cs : List String, (∀ c ∈ cs, c.length ≤ FITS_LINE_LENGTH) →
      (cs.flatMap paddedCard).length = FITS_LINE_LENGTH * cs.length := by
    intro cs hcs
    induction cs with
    | nil => rfl
    | cons c cs ih =>
      rw [List.flatMap_cons, List.length_append, paddedCard_length (hcs c (by simp)), ih fun c hc => hcs c (by simp [hc]),
        List.length_cons, Nat.mul_succ, Nat.add_comm]
  have hsum := hcards cards fun c hc => (hshort c hc).1
  have htotal : (headerUnit cards).length =
      (cards.flatMap paddedCard).length + (FITS_CHUNK_LENGTH - FITS_LINE_LENGTH * cards.length) := by
    rw [headerUnit, List.length_append, List.length_replicate]
    rfl
  rw [htotal, hsum]
  simp only [FITS_CHUNK_LENGTH, FITS_LINE_LENGTH]
  omega

/-- The blanks behind the cards say nothing. -/
theorem process_headerUnit {fits fits' : FitsHeader} {cards : List String} (h : ReadsCards fits fits' cards) :
    processFitsHeaderUnit fits (headerUnit cards) = (fits', true) := by
  obtain ⟨⟨hlen, hshort⟩, hfields, hrange, hends⟩ := h
  have hcards : cardsOf (FITS_CHUNK_LENGTH / FITS_LINE_LENGTH) (headerUnit cards) =
      cards.map paddedCard ++ List.replicate (36 - cards.length) blankCard := by
    have hpadded := cardsOf_padded cards (36 - cards.length) fun c hc => (hshort c hc).1
    rw [Nat.add_sub_cancel' hlen, Nat.mul_sub] at hpadded
    exact hpadded
  have hnul : ∀ card ∈ cards.map paddedCard ++ List.replicate (36 - cards.length) blankCard,
      card.takeWhile (· != 0) = card := by
    intro card hcard
    rw [List.takeWhile_eq_self_iff]
    intro b hb
    rcases List.mem_append.mp hcard with hc | hc
    · obtain ⟨c, hcs, rfl⟩ := List.mem_map.mp hc
      exact List.all_eq_true.mp (hshort c hcs).2 b hb
    · rw [List.eq_of_mem_replicate hc] at hb
      rw [List.eq_of_mem_replicate hb]
      rfl
  unfold processFitsHeaderUnit
  dsimp only
  rw [hcards]
  refine Prod.ext ?_ ?_
  · dsimp only
    rw [List.foldl_ext _ (fun h card => processCard h card) _ fun h card hcard => by rw [hnul card hcard], List.foldl_append,
      List.foldl_map, hfields]
    refine foldl_unchanged _ fun card hcard => ?_
    rw [List.eq_of_mem_replicate hcard]
    exact processCard_blank hrange
  · dsimp only
    rw [List.any_append, List.any_map, Bool.or_eq_true]
    exact Or.inl hends

/-- A download that has read a header of one unit, with what came behind it in the piece. -/
def Download.headerRead (fits' : FitsHeader) (unit rest : Bytes) : Download :=
  { Download.init fits' with data := { Dataset.init fits' with header := unit }.allocate, buffer := rest }

theorem writeData_headerUnit {fits fits' : FitsHeader} {cards : List String} (h : ReadsCards fits fits' cards)
    (hnaxis : 0 < fits'.naxis) {rest : Bytes} (hroom : FITS_CHUNK_LENGTH + rest.length ≤ BUFFER_LENGTH) :
    writeData (Download.init fits) (headerUnit cards ++ rest) = some (Download.headerRead fits' (headerUnit cards) rest) := by
  have hlen := headerUnit_length h
  have hunit := process_headerUnit h
  have hbuffer : (Download.init fits).buffer ++ (headerUnit cards ++ rest) = headerUnit cards ++ rest := rfl
  have hread : (Download.init fits).data.readUnit (headerUnit cards) =
      { Dataset.init fits' with header := headerUnit cards }.allocate := by
    unfold Dataset.readUnit
    have hfits : (Download.init fits).data.fits = fits := rfl
    rw [hfits, hunit]
    dsimp only
    rw [Bool.true_and, if_pos (decide_eq_true hnaxis)]
    rfl
  unfold writeData
  rw [if_neg (show ¬ (Download.init fits).data.hdr_end = true from Bool.noConfusion)]
  unfold scanFitsHeader
  dsimp only
  rw [hbuffer, List.take_left' hlen, List.drop_left' hlen, hread, List.length_append, hlen,
    if_neg (by rw [show (Download.init fits).buffer = [] from rfl, List.length_nil]; omega), if_neg (by omega)]
  rfl

theorem feedAll_headerUnit {fits fits' : FitsHeader} {cards : List String} (h : ReadsCards fits fits' cards)
    (hnaxis : 0 < fits'.naxis) (cs : List Bytes) :
    feedAll writeData (Download.init fits) (headerUnit cards :: cs) =
      feedAll writeData (Download.headerRead fits' (headerUnit cards) []) cs := by
  have hread := @writeData_headerUnit fits fits' cards h hnaxis [] (by decide)
  rw [List.append_nil] at hread
  rw [feedAll, hread]
  rfl

def twoPixels : Bytes := headerUnit ["BITPIX  = -32", "NAXIS   = 2", "NAXIS1  = 2", "NAXIS2  = 1", "END"]

def twoPixelsFields : FitsHeader := { bitpix := -32, naxis := 2, width := 2, height := 1 }

theorem twoPixels_cards :
    ReadsCards {} twoPixelsFields ["BITPIX  = -32", "NAXIS   = 2", "NAXIS1  = 2", "NAXIS2  = 1", "END"] := by
  decide +kernel

theorem writeData_twoPixels {rest : Bytes} (hroom : FITS_CHUNK_LENGTH + rest.length ≤ BUFFER_LENGTH) :
    writeData (Download.init {}) (twoPixels ++ rest) = some (Download.headerRead twoPixelsFields twoPixels rest) :=
  writeData_headerUnit twoPixels_cards (by decide) hroom

theorem read_twoPixels {t : Download} (h : writeData (Download.init {}) twoPixels = some t) :
    t.data.hdr_end = true ∧ t.data.fits.depth = 1 ∧ t.buffer = [] ∧ t.data.fits.totalSize = 2 ∧ t.data.fits.planeSize = 2 := by
  have hread := @writeData_twoPixels [] (by decide)
  rw [List.append_nil, h, Option.some_inj] at hread
  rw [hread]
  decide +kernel

/-- The header in one piece and the data in another. -/
theorem cut_agrees_iff_two_pieces :
    stateAfter {} [twoPixels, List.replicate 8 0] = stateAfter {} (bytewise [twoPixels, List.replicate 8 0].flatten) := by
  refine (cut_agrees_iff {} [twoPixels, List.replicate 8 0] (by decide +kernel)).1.mpr ⟨Or.inr (by decide +kernel), ?_⟩
  intro t' h
  obtain ⟨he, hdepth, hbuffer, -⟩ := read_twoPixels h
  refine ⟨Or.inr ?_, ?_⟩
  · rw [hbuffer]
    decide +kernel
  · unfold Download.UsesUp
    rw [he, if_neg Bool.noConfusion]
    exact Or.inr (Or.inl hdepth.le)

/-- The header and the data in one piece: the data is not read. -/
theorem header_and_data_in_one_piece :
    ¬ ∀ (fits : FitsHeader) (cs cs' : List Bytes), (∀ c ∈ cs, c ≠ [] ∧ c.length ≤ CURL_MAX_WRITE_SIZE) →
      (∀ c ∈ cs', c ≠ [] ∧ c.length ≤ CURL_MAX_WRITE_SIZE) → cs.flatten = cs'.flatten →
      stateAfter fits cs = stateAfter fits cs' := by
  intro h
  have he := h {} [twoPixels ++ List.replicate 8 0] [twoPixels, List.replicate 8 0] (by decide +kernel) (by decide +kernel)
    (by decide +kernel)
  have hone : feedAll writeData (Download.init {}) [twoPixels ++ List.replicate 8 0] =
      some (Download.headerRead twoPixelsFields twoPixels (List.replicate 8 0)) := by
    rw [feedAll, writeData_twoPixels (by decide)]
    rfl
  have htwo : feedAll writeData (Download.init {}) [twoPixels, List.replicate 8 0] =
      feedAll writeData (Download.headerRead twoPixelsFields twoPixels []) [List.replicate 8 0] :=
    feedAll_headerUnit twoPixels_cards (by decide) _
  have hr := congrArg (fun d => d.map Dataset.running_size) he
  unfold stateAfter at hr
  rw [hone, htwo] at hr
  revert hr
  decide +kernel

end FitsWebQL
