/-
  FitsWebQL.DownloadStream — a download and the stream it has been handed so far. The
  words read are the stream's behind the header, one after the other, and the buffer
  holds what comes next (`streamed_writeData`); in a cube every word stands in its
  frame's plane or does not yet (`HoldsWords`).
-/

import FitsWebQL.DownloadRuns

namespace FitsWebQL

open Lib.Feed Lib.Wire

/-! ## The stream so far -/

def Download.words (t : Download) (stream : Bytes) : List UInt32 :=
  wordsOf t.data.running_size (stream.drop t.data.header.length)

def Download.wordsRead (t : Download) (contents : Bytes) : List UInt32 :=
  if t.data.hdr_end = true ∧ t.data.running_size < t.data.fits_file_size then
    wordsOf (t.data.workSize (t.buffer ++ contents).length) (t.buffer ++ contents)
  else []

/-- The header and the words read are the stream's first bytes, and the buffer holds the
    rest, as long as there is something to read. -/
structure Download.Streamed (t : Download) (stream : Bytes) : Prop where
  sound : t.data.Sound
  used : t.data.header.length + 4 * t.data.running_size ≤ stream.length
  pending : t.data.done = false → t.buffer = stream.drop (t.data.header.length + 4 * t.data.running_size)

theorem streamed_init (fits : FitsHeader) : (Download.init fits).Streamed [] where
  sound := sound_init fits
  used := le_refl 0
  pending _ := rfl

theorem words_length (t : Download) (stream : Bytes) : (t.words stream).length = t.data.running_size := wordsOf_length _ _

/-- What was read stays what it was when more of the stream comes. -/
theorem words_append {t : Download} {stream : Bytes} (ht : t.Streamed stream) (c : Bytes) :
    t.words (stream ++ c) = t.words stream := by
  have := ht.used
  unfold Download.words
  rw [List.drop_append_of_le_length (by omega), wordsOf_append (by rw [List.length_drop]; omega)]

theorem done_of_hdr {d : Dataset} (he : d.hdr_end = false) : d.done = false := by
  unfold Dataset.done
  rw [he, Bool.false_and]

theorem done_of_lt {d : Dataset} (hr : d.running_size < d.fits_file_size) : d.done = false := by
  unfold Dataset.done
  rw [decide_eq_false (by omega), Bool.and_false]

/-- Words are read at the end of the header or behind it. -/
theorem wordsRead_eq {t : Download} (he : t.data.hdr_end = true) (hr : t.data.running_size < t.data.fits_file_size) (c : Bytes) :
    t.wordsRead c = wordsOf (t.data.workSize (t.buffer ++ c).length) (t.buffer ++ c) := if_pos ⟨he, hr⟩

theorem wordsRead_header {t : Download} (he : t.data.hdr_end = false) (c : Bytes) : t.wordsRead c = [] := by
  unfold Download.wordsRead
  rw [if_neg]
  intro h
  rw [he] at h
  cases h.1

theorem wordsRead_done {t : Download} (hr : t.data.fits_file_size ≤ t.data.running_size) (c : Bytes) : t.wordsRead c = [] :=
  if_neg fun h => by omega

/-- A call that reads words: there is room for them in the plane and in the file, and
    they stand at the front of what is pending. -/
theorem wordsRead_room {t : Download} {c : Bytes} (hs : t.data.Sound) (he : t.data.hdr_end = true)
    (hr : t.data.running_size < t.data.fits_file_size) :
    4 * (t.wordsRead c).length ≤ (t.buffer ++ c).length ∧
      t.data.running_size + (t.wordsRead c).length ≤ t.data.fits_file_size ∧
      (1 < t.data.fits.depth → t.data.start + (t.wordsRead c).length ≤ t.data.fits.planeSize) := by
  obtain ⟨-, -, -, hplane⟩ := ready_withPlane hs he hr
  rw [wordsRead_eq he hr, wordsOf_length]
  exact workSize_le hr (start_lt hplane)

theorem sound_readWords' {d : Dataset} (hd : d.Sound) (he : d.hdr_end = true) (hr : d.running_size < d.fits_file_size)
    (ws : List UInt32) : (d.readWords ws).Sound := by
  obtain ⟨he', -, hready, -⟩ := ready_withPlane hd he hr
  rw [← readWords_withPlane]
  exact sound_readWords (sound_withPlane hd) he' hready ws

/-- A call keeps in step with the stream, and the words it reads are the next ones. -/
theorem streamed_writeData {t t' : Download} {stream c : Bytes} (ht : t.Streamed stream) (h : writeData t c = some t') :
    t'.Streamed (stream ++ c) ∧ t'.words (stream ++ c) = t.words stream ++ t.wordsRead c := by
  have hused := ht.used
  have hmore : stream.length ≤ (stream ++ c).length := by
    rw [List.length_append]
    exact Nat.le_add_right _ _
  have hbuffer : t.data.done = false →
      t.buffer ++ c = (stream ++ c).drop (t.data.header.length + 4 * t.data.running_size) := by
    intro hd
    rw [ht.pending hd, List.drop_append_of_le_length hused]
  rcases writeData_cases h with ⟨he, -, rfl⟩ | ⟨he, hb, rfl⟩ | ⟨he, hr, rfl⟩ | ⟨he, hr, ws, hws, rfl⟩
  · rw [wordsRead_header he, List.append_nil]
    exact ⟨⟨ht.sound, hused.trans hmore, fun hd => hbuffer hd⟩, words_append ht c⟩
  · -- a unit of the header: no words are read yet
    have hrun := ht.sound.running he
    obtain ⟨h1, h2⟩ := readUnit_header t.data ((t.buffer ++ c).take FITS_CHUNK_LENGTH)
    have hlen : ((t.buffer ++ c).take FITS_CHUNK_LENGTH).length = FITS_CHUNK_LENGTH := by
      rw [List.length_take, Nat.min_eq_left hb]
    have hb' := hbuffer (done_of_hdr he)
    rw [wordsRead_header he, List.append_nil]
    refine ⟨⟨sound_readUnit ht.sound he _, ?_, fun _ => ?_⟩, ?_⟩
    · dsimp only
      rw [h1, h2, List.length_append, hlen, hrun]
      rw [hb', List.length_drop, hrun] at hb
      have : 0 < FITS_CHUNK_LENGTH := by decide
      omega
    · dsimp only
      rw [h1, h2, List.length_append, hlen, hrun, hb', List.drop_drop, hrun]
      rfl
    · unfold Download.words
      dsimp only
      rw [h2, hrun, wordsOf, wordsOf]
  · rw [wordsRead_done hr, List.append_nil]
    refine ⟨⟨ht.sound, hused.trans hmore, fun hd => ?_⟩, words_append ht c⟩
    unfold Dataset.done at hd
    rw [he, decide_eq_true hr] at hd
    cases hd
  · obtain ⟨h4, -, -⟩ := wordsRead_room (c := c) ht.sound he hr
    rw [wordsRead_eq he hr, ← hws] at h4 ⊢
    have hb' := hbuffer (done_of_lt hr)
    rw [hb', List.length_drop] at h4
    refine ⟨⟨sound_readWords' ht.sound he hr ws, ?_, fun _ => ?_⟩, ?_⟩
    · dsimp only
      rw [readWords_header, readWords_running]
      omega
    · dsimp only
      rw [readWords_header, readWords_running, hb', List.drop_drop]
      congr 1
      omega
    · rw [← words_append ht c]
      unfold Download.words
      dsimp only
      rw [readWords_header, readWords_running, wordsOf_add, List.drop_drop, ← hb', hws, wordsOf_length]

/-! ## The words of a frame -/

/-- Words read in a cube go to the frame's plane, which is there or a new one. -/
theorem readWords_newPlane {d : Dataset} (hd : d.Sound) (he : d.hdr_end = true) (hr : d.running_size < d.fits_file_size)
    (hdepth : 1 < d.fits.depth) (ws : List UInt32) :
    ∃ plane, (d.newPlane d.frame).fits_cube d.frame = some plane ∧
      d.readWords ws =
        (if d.start + ws.length = d.fits.planeSize then
            ((d.newPlane d.frame).addWords d.frame d.start plane ws).endPlane d.frame
          else (d.newPlane d.frame).addWords d.frame d.start plane ws).readTo (d.running_size + ws.length) := by
  obtain ⟨-, -, hready, -⟩ := ready_withPlane hd he hr
  obtain ⟨hframe, hstart⟩ := withPlane_frame d
  have hfits := withPlane_fits d
  have hrun := withPlane_running d
  have hplane := hready.plane (by rw [hfits]; exact hdepth)
  have hnew : d.newPlane d.frame = d.withPlane := by
    unfold Dataset.withPlane
    rw [if_pos hdepth]
  rw [hframe] at hplane
  obtain ⟨plane, hp⟩ := Option.isSome_iff_exists.mp hplane
  refine ⟨plane, by rw [hnew]; exact hp, ?_⟩
  rw [← readWords_withPlane, readWords_plane (by rw [hfits]; exact hdepth) hready.image (by rw [hframe]; exact hp), hframe,
    hstart, hfits, hrun, hnew]

theorem newPlane_of_ne {d : Dataset} {frame f : ℕ} (h : f ≠ frame) : (d.newPlane frame).fits_cube f = d.fits_cube f := by
  unfold Dataset.newPlane
  split
  · rfl
  · exact set_of_ne _ _ h

theorem newPlane_compressed (d : Dataset) (frame : ℕ) : (d.newPlane frame).zfp_compressed = d.zfp_compressed := by
  unfold Dataset.newPlane
  split
  · rfl
  · rfl

theorem newPlane_fits (d : Dataset) (frame : ℕ) : (d.newPlane frame).fits = d.fits :=
  congrArg (fun s => s.1.2.1) (newPlane_shape d frame)

/-- Of a plane as far as it was read: the words are those of its frame. -/
def HoldsWords (plane : Option RawPlane) (words : List UInt32) (first plane_size : ℕ) : Prop :=
  ∃ p, plane = some p ∧ ∀ j < plane_size, first + j < words.length → p j = words[first + j]?

theorem holdsWords_append {plane : Option RawPlane} {words : List UInt32} {first n : ℕ} (h : HoldsWords plane words first n)
    (hn : first + n ≤ words.length) (ws : List UInt32) : HoldsWords plane (words ++ ws) first n := by
  obtain ⟨p, hp, hw⟩ := h
  refine ⟨p, hp, ?_⟩
  intro j hj _
  rw [hw j hj (by omega), List.getElem?_append_left (by omega)]

/-- Words copied behind those that are there. -/
theorem holdsWords_memcpy {p : RawPlane} {words : List UInt32} {first n start : ℕ}
    (h : ∀ j < start, p j = words[first + j]?) (hs : first + start = words.length) (ws : List UInt32) :
    HoldsWords (some (memcpyWords p start ws)) (words ++ ws) first n := by
  refine ⟨_, rfl, ?_⟩
  intro j _ hlen
  rw [List.length_append] at hlen
  unfold memcpyWords
  by_cases hj : start ≤ j
  · rw [if_pos ⟨hj, by omega⟩, List.getElem?_append_right (by omega)]
    congr 1
    omega
  · rw [if_neg (by omega), h j (by omega), List.getElem?_append_left (by omega)]

end FitsWebQL
