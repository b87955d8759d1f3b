/-
  FitsWebQL.VideoSession — the video of a session (`[init_video]`, `[video]`, `[end_video]`
  and the close handler). The handlers run one after the other; every `[video]` request
  gets a thread, and the threads take `video_mtx` in any order, each for all of its work.
  `init_video` takes it too: it makes the encoder and the picture anew. A picture owns a
  plane of its own, the dummy `B`, and is lent the two planes of a frame while it is
  encoded; its deleter frees every plane that is not `NULL`.

  What a thread finds (the frame that is predicted, whether there are planes for it and
  memory to scale them down) comes with the event. The messages with the encoder's output
  are sent under the mutex, so they are in the order of the frames.

  Proved, over every run:
    video_memory    every buffer is freed once: the frames' by their threads, the `B` planes
                    by the deleter
    video_planes    the encoder is never given a plane that is too small, unless libx265
                    ran out of memory when it was set up; a client may ask for a size
                    without pixels, which libx265 refuses
    video_order     until the next `init_video` the frames are encoded in the order of their
                    numbers, and the request with the greatest number is never too late
-/

import FitsWebQL.VideoFrame
import FitsWebQL.Lib.Runs

namespace FitsWebQL

open Lib.Runs

/-! ## Buffers and pictures -/

structure VideoPlane where
  id : ℕ
  size : ℤ
  deriving DecidableEq

structure Picture where
  planes0 : Option VideoPlane
  planes1 : Option VideoPlane
  planes2 : Option VideoPlane
  stride0 : ℤ
  stride1 : ℤ
  stride2 : ℤ
  deriving DecidableEq

def Picture.freed (p : Picture) : List ℕ := [p.planes0, p.planes1, p.planes2].filterMap fun b => b.map VideoPlane.id

/-- `planes[0]` and `planes[1]`, with their strides. -/
def Picture.lend (p : Picture) (luma mask : VideoPlane) (padded_width : ℤ) : Picture :=
  { p with planes0 := some luma, planes1 := some mask, stride0 := padded_width, stride1 := padded_width }

/-- "done with the planes" -/
def Picture.done (p : Picture) : Picture := { p with planes0 := none, planes1 := none, stride0 := 0, stride1 := 0 }

/-- The encoder reads `height` rows of `width` bytes of each plane. -/
def Picture.Covers (p : Picture) (width height : ℤ) : Prop :=
  ∀ b ∈ [(p.planes0, p.stride0), (p.planes1, p.stride1), (p.planes2, p.stride2)], ∃ plane ∈ b.1, width ≤ b.2 ∧ b.2 * height ≤ plane.size

/-! ## The session -/

variable {fits_width fits_height : ℤ}

/-- The size of the video: the image's, or smaller (`scale < 1.0`). For a window without pixels
    the sides are 0 or negative. -/
structure VideoSize (fits_width fits_height : ℤ) where
  width : ℤ
  height : ℤ
  width_le : width ≤ fits_width
  height_le : height ≤ fits_height

structure VideoRequest where
  seq : ℤ
  deriving DecidableEq

structure Encoded where
  seq : ℤ
  frame_idx : ℤ
  width : ℤ
  height : ℤ
  picture : Picture

structure Video (fits_width fits_height : ℤ) where
  active : Bool
  last_video_seq : ℤ
  last_frame_idx : ℤ
  /-- `width` and `height`; the constructor's are 0. -/
  size : Option (VideoSize fits_width fits_height)
  /-- The size the encoder was opened with. -/
  encoder : Option (VideoSize fits_width fits_height)
  picture : Option Picture
  streaming : Bool
  /-- The threads that have not had the mutex, and whether they have found the session active. -/
  threads : List (VideoRequest × Bool)
  /-- How many buffers were allocated, and which were freed. -/
  allocated : ℕ
  freed : List ℕ
  /-- The last frame first. -/
  encoded : List Encoded

def Video.new : Video fits_width fits_height := ⟨true, -1, -1, none, none, none, false, [], 0, [], []⟩

inductive VideoSetup
  | noMask
  | noParam
  | noEncoder
  | noPicture
  /-- Whether there was memory for `B_buf`. -/
  | done (B_buf : Bool)
  deriving DecidableEq

/-- What `get_video_frame` returns: nothing, planes that are not filled in (a flux that is not
    known), or a frame. -/
inductive FramePlanes
  | nothing
  | noLuma
  | luma
  deriving DecidableEq

/-- What a thread finds: the frame predicted, its planes, and whether there was memory to
    scale them down. -/
structure VideoWork where
  frame_idx : ℤ
  planes : FramePlanes
  resized : Bool

inductive VideoEvent (fits_width fits_height : ℤ)
  | init_video (seq : ℤ) (size : VideoSize fits_width fits_height) (setup : VideoSetup)
  | end_video
  | video (r : VideoRequest)
  /-- `if (!user->ptr->active) return;` of a thread. -/
  | check (n : ℕ)
  /-- A thread with the mutex. -/
  | locked (n : ℕ) (work : VideoWork)
  | close
  /-- `join_all` is through: `delete user->ptr`. -/
  | delete

/-! ## Steps -/

def Video.dropPicture (s : Video fits_width fits_height) : Video fits_width fits_height :=
  { s with picture := none, freed := s.freed ++ s.picture.elim [] Picture.freed }

def Video.alloc (s : Video fits_width fits_height) (size : ℤ) : VideoPlane × Video fits_width fits_height :=
  (⟨s.allocated, size⟩, { s with allocated := s.allocated + 1 })

/-- `user->ptr->picture = ...`, with `B_buf`. -/
def Video.newPicture (s : Video fits_width fits_height) (size : VideoSize fits_width fits_height) (B_buf : Bool) :
    Video fits_width fits_height :=
  let frame_size := padded size.width * padded size.height
  let r := if B_buf then (some (s.alloc frame_size).1, (s.alloc frame_size).2) else (none, s)
  { r.2.dropPicture with picture := some ⟨none, none, r.1, 0, 0, padded size.width⟩, streaming := true }

/-- `[init_video]`, with the mutex. -/
def Video.initVideo (s : Video fits_width fits_height) (seq : ℤ) (size : VideoSize fits_width fits_height) :
    VideoSetup → Video fits_width fits_height
  | .noMask => { s with last_video_seq := seq, last_frame_idx := -1 }
  | .noParam => { s with last_video_seq := seq, last_frame_idx := -1, size := some size }
  | .noEncoder => { s with last_video_seq := seq, last_frame_idx := -1, size := some size, encoder := none }
  | .noPicture => { s with last_video_seq := seq, last_frame_idx := -1, size := some size, encoder := some size }
  | .done B_buf =>
    Video.newPicture { s with last_video_seq := seq, last_frame_idx := -1, size := some size, encoder := some size } size B_buf

def Video.getPlanes (s : Video fits_width fits_height) : (VideoPlane × VideoPlane) × Video fits_width fits_height :=
  let luma := s.alloc (padded fits_width * padded fits_height)
  let mask := luma.2.alloc (padded fits_width * padded fits_height)
  ((luma.1, mask.1), mask.2)

def Video.smaller (s : Video fits_width fits_height) : Option (VideoSize fits_width fits_height) :=
  s.size.filter fun size => size.width < fits_width || size.height < fits_height

/-- The frame to encode: the width of its rows and its planes. What is scaled down is freed. -/
def Video.scaled (s : Video fits_width fits_height) (luma mask : VideoPlane) (resized : Bool) :
    (ℤ × VideoPlane × VideoPlane) × Video fits_width fits_height :=
  match s.smaller, resized with
  | some size, true =>
    let pixels_buf := s.alloc (padded size.width * padded size.height)
    let mask_buf := pixels_buf.2.alloc (padded size.width * padded size.height)
    ((padded size.width, pixels_buf.1, mask_buf.1), { mask_buf.2 with freed := mask_buf.2.freed ++ [luma.id, mask.id] })
  | _, _ => ((padded fits_width, luma, mask), s)

def Video.release (s : Video fits_width fits_height) (luma mask : VideoPlane) : Video fits_width fits_height :=
  { s with freed := s.freed ++ [luma.id, mask.id] }

/-- `x265_encoder_encode`: the planes are lent to the picture. -/
def Video.encode (s : Video fits_width fits_height) (seq frame_idx padded_width : ℤ) (luma mask : VideoPlane) :
    Video fits_width fits_height :=
  match s.picture, s.encoder with
  | some picture, some encoder =>
    { s with
      encoded := ⟨seq, frame_idx, encoder.width, encoder.height, picture.lend luma mask padded_width⟩ :: s.encoded
      picture := some (picture.lend luma mask padded_width).done }
  | _, _ => s

def Video.thread (s : Video fits_width fits_height) (r : VideoRequest) (work : VideoWork) : Video fits_width fits_height :=
  if s.last_video_seq > r.seq then s
  else if work.frame_idx = s.last_frame_idx then { s with last_video_seq := r.seq }
  else
    let s := { s with last_video_seq := r.seq, last_frame_idx := work.frame_idx }
    match work.planes with
    | .nothing => s
    | .noLuma => s.getPlanes.2.release s.getPlanes.1.1 s.getPlanes.1.2
    | .luma =>
      let f := s.getPlanes.2.scaled s.getPlanes.1.1 s.getPlanes.1.2 work.resized
      (f.2.encode r.seq work.frame_idx f.1.1 f.1.2.1 f.1.2.2).release f.1.2.1 f.1.2.2

def Video.step (s : Video fits_width fits_height) : VideoEvent fits_width fits_height → Option (Video fits_width fits_height)
  | .init_video seq size setup => if s.active then some (s.initVideo seq size setup) else none
  | .end_video => if s.active then some { s with streaming := false } else none
  | .video r => if s.active then some { s with threads := s.threads ++ [(r, false)] } else none
  | .check n =>
    match s.threads[n]? with
    | some (r, false) => some { s with threads := if s.active then s.threads.set n (r, true) else s.threads.eraseIdx n }
    | _ => none
  | .locked n work =>
    match s.threads[n]? with
    | some (r, true) => some (Video.thread { s with threads := s.threads.eraseIdx n } r work)
    | _ => none
  | .close => some { s with active := false }
  | .delete => if !s.active && s.threads.isEmpty then some { s.dropPicture with encoder := none } else none

/-! ## Memory -/

def Video.owned (s : Video fits_width fits_height) : List ℕ := s.picture.elim [] Picture.freed

/-- Between two steps the picture has the `B` plane only, and every buffer that is not the
    picture's was freed, once. -/
structure Video.Kept (s : Video fits_width fits_height) : Prop where
  returned : ∀ p ∈ s.picture, p.planes0 = none ∧ p.planes1 = none
  accounts : (s.freed ++ s.owned).Perm (List.range s.allocated)

theorem kept_new : (Video.new : Video fits_width fits_height).Kept := ⟨nofun, List.Perm.refl _⟩

variable {s : Video fits_width fits_height}

def Video.Holds (s : Video fits_width fits_height) (ids : List ℕ) : Prop :=
  (∀ p ∈ s.picture, p.planes0 = none ∧ p.planes1 = none) ∧ (s.freed ++ ids ++ s.owned).Perm (List.range s.allocated)

theorem Video.Kept.holds (h : s.Kept) : s.Holds [] := ⟨h.returned, by rw [List.append_nil]; exact h.accounts⟩

theorem holds_getPlanes (h : s.Kept) : s.getPlanes.2.Holds [s.getPlanes.1.1.id, s.getPlanes.1.2.id] := by
  refine ⟨h.returned, ?_⟩
  show (s.freed ++ [s.allocated, s.allocated + 1] ++ s.owned).Perm (List.range (s.allocated + 1 + 1))
  rw [List.range_succ, List.range_succ, List.append_assoc (List.range _)]
  refine List.Perm.trans ?_ (h.accounts.append_right _)
  rw [List.append_assoc, List.append_assoc]
  exact List.perm_append_comm.append_left _

theorem holds_release {luma mask : VideoPlane} (h : s.Holds [luma.id, mask.id]) : (s.release luma mask).Kept := ⟨h.1, h.2⟩

theorem holds_scaled {luma mask : VideoPlane} (h : s.Holds [luma.id, mask.id]) (resized : Bool) :
    (s.scaled luma mask resized).2.Holds [(s.scaled luma mask resized).1.2.1.id, (s.scaled luma mask resized).1.2.2.id] := by
  unfold Video.scaled
  split
  · refine ⟨h.1, ?_⟩
    show (s.freed ++ [luma.id, mask.id] ++ [s.allocated, s.allocated + 1] ++ s.owned).Perm (List.range (s.allocated + 1 + 1))
    rw [List.range_succ, List.range_succ, List.append_assoc (List.range _)]
    refine List.Perm.trans ?_ (h.2.append_right _)
    rw [List.append_assoc, List.append_assoc (s.freed ++ _)]
    exact List.perm_append_comm.append_left _
  · exact h

theorem holds_encode {ids : List ℕ} (h : s.Holds ids) (seq frame_idx padded_width : ℤ) (luma mask : VideoPlane) :
    (s.encode seq frame_idx padded_width luma mask).Holds ids := by
  unfold Video.encode
  split
  · rename_i picture encoder hpicture hencoder
    refine ⟨by rintro p ⟨⟩; exact ⟨rfl, rfl⟩, ?_⟩
    -- the planes are returned, and `B` was there before
    have hsame : (picture.lend luma mask padded_width).done.freed = s.owned := by
      obtain ⟨h0, h1⟩ := h.1 picture hpicture
      rw [Video.owned, hpicture, Option.elim_some, Picture.freed, Picture.freed, h0, h1]
      rfl
    show (s.freed ++ ids ++ (picture.lend luma mask padded_width).done.freed).Perm _
    rw [hsame]
    exact h.2
  · exact h

theorem kept_thread (h : s.Kept) (r : VideoRequest) (work : VideoWork) : (s.thread r work).Kept := by
  unfold Video.thread
  split_ifs
  · exact h
  · exact ⟨h.returned, h.accounts⟩
  · have h' : Video.Kept { s with last_video_seq := r.seq, last_frame_idx := work.frame_idx } := ⟨h.returned, h.accounts⟩
    dsimp only
    split
    · exact h'
    · exact holds_release (holds_getPlanes h')
    · exact holds_release (holds_encode (holds_scaled (holds_getPlanes h') work.resized) _ _ _ _ _)

theorem kept_dropPicture (h : s.Kept) : s.dropPicture.Kept := by
  refine ⟨nofun, ?_⟩
  show ((s.freed ++ s.owned) ++ []).Perm _
  rw [List.append_nil]
  exact h.accounts

theorem kept_newPicture (h : s.Kept) (size : VideoSize fits_width fits_height) (B_buf : Bool) : (s.newPicture size B_buf).Kept := by
  refine ⟨by rintro p ⟨⟩; exact ⟨rfl, rfl⟩, ?_⟩
  cases B_buf with
  | false =>
    show ((s.freed ++ s.owned) ++ []).Perm _
    rw [List.append_nil]
    exact h.accounts
  | true =>
    show ((s.freed ++ s.owned) ++ [s.allocated]).Perm (List.range (s.allocated + 1))
    rw [List.range_succ]
    exact h.accounts.append_right _

theorem kept_step {s' : Video fits_width fits_height} (e : VideoEvent fits_width fits_height) (h : s.Kept) (hs : s.step e = some s') :
    s'.Kept := by
  cases e with
  | init_video seq size setup =>
    simp only [Video.step] at hs
    split at hs
    · cases hs
      cases setup with
      | done B_buf =>
        have h' : Video.Kept { s with last_video_seq := seq, last_frame_idx := -1, size := some size, encoder := some size } :=
          ⟨h.returned, h.accounts⟩
        exact kept_newPicture h' size B_buf
      | noMask | noParam | noEncoder | noPicture => exact ⟨h.returned, h.accounts⟩
    · cases hs
  | end_video | video | check =>
    simp only [Video.step] at hs
    split at hs <;> cases hs
    exact ⟨h.returned, h.accounts⟩
  | locked n work =>
    simp only [Video.step] at hs
    split at hs <;> cases hs
    have h' : Video.Kept { s with threads := s.threads.eraseIdx n } := ⟨h.returned, h.accounts⟩
    exact kept_thread h' _ work
  | close =>
    cases hs
    exact ⟨h.returned, h.accounts⟩
  | delete =>
    simp only [Video.step] at hs
    split at hs
    · cases hs
      exact ⟨(kept_dropPicture h).returned, (kept_dropPicture h).accounts⟩
    · cases hs

/-- In every run the buffers that are not the picture's were freed, each of them once; and all
    of them when the session is deleted. -/
theorem video_memory {es : List (VideoEvent fits_width fits_height)} (h : run Video.step Video.new es = some s) :
    (s.freed ++ s.owned).Perm (List.range s.allocated) ∧ ∀ s', s.step .delete = some s' → s'.freed.Perm (List.range s'.allocated) := by
  have hkept : s.Kept := run_keeps Video.Kept (fun _ e _ => kept_step e) es kept_new h
  refine ⟨hkept.accounts, fun s' hs => ?_⟩
  have hkept' := (kept_step .delete hkept hs).accounts
  simp only [Video.step] at hs
  split at hs
  · cases hs
    rwa [Video.owned, show ({ s.dropPicture with encoder := none } : Video fits_width fits_height).picture = none from rfl,
      Option.elim_none, List.append_nil] at hkept'
  · cases hs

/-- A video of an image of 40 by 20 pixels: a size that is refused, one of 20 by 10, a frame, and
    the end. -/
def shortVideo : List (VideoEvent 40 20) := [
  .init_video 0 ⟨-8, -4, by decide, by decide⟩ .noEncoder,
  .init_video 1 ⟨20, 10, by decide, by decide⟩ (.done true), .video ⟨2⟩, .check 0, .locked 0 ⟨7, .luma, true⟩, .close]

theorem video_memory_short : ∃ s, run Video.step Video.new shortVideo = some s ∧ (s.freed ++ s.owned).Perm (List.range s.allocated) ∧
    ∀ s', s.step .delete = some s' → s'.freed.Perm (List.range s'.allocated) := by
  obtain ⟨s, h⟩ := Option.isSome_iff_exists.mp (by decide +kernel : (run Video.step Video.new shortVideo).isSome)
  exact ⟨s, h, video_memory h⟩

/-! ## Planes -/

/-- libx265 and `B_buf` had memory when the video was set up. -/
def Plenty : VideoEvent fits_width fits_height → Prop
  | .init_video _ _ setup => setup ≠ .noParam ∧ setup ≠ .noPicture ∧ setup ≠ .done false
  | .end_video | .video _ | .check _ | .locked _ _ | .close | .delete => True

def VideoSetup.Opened : VideoSetup → Prop
  | .noMask | .noParam | .noEncoder => False
  | .noPicture | .done _ => True

/-- `x265_encoder_open` refuses a picture without pixels. -/
def Refuses : VideoEvent fits_width fits_height → Prop
  | .init_video _ size setup => setup.Opened → 0 < size.width ∧ 0 < size.height
  | .end_video | .video _ | .check _ | .locked _ _ | .close | .delete => True

/-- The encoder's size is the session's and has pixels, and the `B` plane covers it. -/
structure Video.Sized (s : Video fits_width fits_height) : Prop where
  encoder : ∀ size ∈ s.encoder, s.size = some size ∧ (0 < size.width ∧ 0 < size.height) ∧
    ∀ p ∈ s.picture, ∃ plane ∈ p.planes2, size.width ≤ p.stride2 ∧ p.stride2 * size.height ≤ plane.size
  encoded : ∀ x ∈ s.encoded, x.picture.Covers x.width x.height

theorem sized_new : (Video.new : Video fits_width fits_height).Sized := ⟨nofun, List.forall_mem_nil _⟩

theorem padded_covers {width height w h : ℤ} (hw : 0 < w) (hh : 0 < h) (hwidth : w ≤ width) (hheight : h ≤ height) :
    w ≤ padded width ∧ padded width * h ≤ padded width * padded height := by
  have hpw : width ≤ padded width := le_padded (by omega)
  have hph : height ≤ padded height := le_padded (by omega)
  exact ⟨by omega, Int.mul_le_mul_of_nonneg_left (by omega) (by omega)⟩

/-- The planes of a frame cover a size that is not above the image's, nor above the one it was
    scaled down to. -/
def Fits (f : ℤ × VideoPlane × VideoPlane) (w h : ℤ) : Prop := w ≤ f.1 ∧ f.1 * h ≤ f.2.1.size ∧ f.1 * h ≤ f.2.2.size

theorem fits_scaled {luma mask : VideoPlane} (hluma : luma.size = padded fits_width * padded fits_height)
    (hmask : mask.size = padded fits_width * padded fits_height) (resized : Bool) {size : VideoSize fits_width fits_height}
    (h : s.size = some size) (hpos : 0 < size.width ∧ 0 < size.height) :
    Fits (s.scaled luma mask resized).1 size.width size.height := by
  unfold Video.scaled
  split
  · rename_i size' hsmaller
    have hsame : size' = size := by
      rw [Video.smaller, h] at hsmaller
      exact (Option.mem_filter_iff.mp hsmaller).1 |> fun he => (Option.some.inj he).symm
    rw [hsame]
    have hcovers := padded_covers hpos.1 hpos.2 le_rfl le_rfl
    exact ⟨hcovers.1, hcovers.2, hcovers.2⟩
  · have hcovers := padded_covers hpos.1 hpos.2 size.width_le size.height_le
    exact ⟨hcovers.1, by rw [hluma]; exact hcovers.2, by rw [hmask]; exact hcovers.2⟩

theorem scaled_frame (luma mask : VideoPlane) (resized : Bool) :
    (s.scaled luma mask resized).2.size = s.size ∧ (s.scaled luma mask resized).2.encoder = s.encoder ∧
      (s.scaled luma mask resized).2.picture = s.picture ∧ (s.scaled luma mask resized).2.encoded = s.encoded := by
  unfold Video.scaled
  split <;> exact ⟨rfl, rfl, rfl, rfl⟩

theorem sized_encode (h : s.Sized) (seq frame_idx : ℤ) {f : ℤ × VideoPlane × VideoPlane}
    (hf : ∀ size ∈ s.encoder, Fits f size.width size.height) : (s.encode seq frame_idx f.1 f.2.1 f.2.2).Sized := by
  unfold Video.encode
  split
  · rename_i picture encoder hpicture hencoder
    obtain ⟨-, -, hplane⟩ := h.encoder encoder hencoder
    obtain ⟨plane, hmem, hstride, hcovers⟩ := hplane picture hpicture
    refine ⟨fun size hsome => ?_, ?_⟩
    · obtain ⟨hsize, hpos, hplane'⟩ := h.encoder size hsome
      refine ⟨hsize, hpos, ?_⟩
      rintro p ⟨⟩
      exact hplane' picture hpicture
    · refine List.forall_mem_cons.mpr ⟨?_, h.encoded⟩
      obtain ⟨hw, hluma, hmask⟩ := hf encoder hencoder
      simp only [Picture.Covers, Picture.lend, List.mem_cons, List.not_mem_nil, or_false]
      rintro b (rfl | rfl | rfl)
      · exact ⟨_, rfl, hw, hluma⟩
      · exact ⟨_, rfl, hw, hmask⟩
      · exact ⟨plane, hmem, hstride, hcovers⟩
  · exact h

theorem sized_thread (h : s.Sized) (r : VideoRequest) (work : VideoWork) : (s.thread r work).Sized := by
  unfold Video.thread
  split_ifs
  · exact h
  · exact ⟨h.encoder, h.encoded⟩
  · dsimp only
    split
    · exact ⟨h.encoder, h.encoded⟩
    · exact ⟨h.encoder, h.encoded⟩
    · generalize hs1 : Video.getPlanes { s with last_video_seq := r.seq, last_frame_idx := work.frame_idx } = g
      have hg : g.2.size = s.size ∧ g.2.encoder = s.encoder ∧ g.2.picture = s.picture ∧ g.2.encoded = s.encoded := by
        subst hs1
        exact ⟨rfl, rfl, rfl, rfl⟩
      have hgs : g.2.Sized := ⟨by rw [hg.1, hg.2.1, hg.2.2.1]; exact h.encoder, by rw [hg.2.2.2]; exact h.encoded⟩
      have hplanes : g.1.1.size = padded fits_width * padded fits_height ∧ g.1.2.size = padded fits_width * padded fits_height := by
        subst hs1
        exact ⟨rfl, rfl⟩
      obtain ⟨h1, h2, h3, h4⟩ := scaled_frame (s := g.2) g.1.1 g.1.2 work.resized
      have hscaled : (g.2.scaled g.1.1 g.1.2 work.resized).2.Sized :=
        ⟨by rw [h1, h2, h3]; exact hgs.encoder, by rw [h4]; exact hgs.encoded⟩
      have hencode := sized_encode hscaled r.seq work.frame_idx fun size hsome => by
        rw [h2] at hsome
        obtain ⟨hsize, hpos, -⟩ := hgs.encoder size hsome
        exact fits_scaled hplanes.1 hplanes.2 work.resized hsize hpos
      exact ⟨hencode.encoder, hencode.encoded⟩

theorem sized_step {s' : Video fits_width fits_height} (e : VideoEvent fits_width fits_height) (h : s.Sized) (he : Plenty e ∧ Refuses e)
    (hs : s.step e = some s') : s'.Sized := by
  cases e with
  | init_video seq size setup =>
    simp only [Video.step] at hs
    split at hs
    · cases hs
      obtain ⟨⟨hparam, hpicture, hbuf⟩, hrefuses⟩ := he
      cases setup with
      | noMask => exact ⟨h.encoder, h.encoded⟩
      | noParam => exact absurd rfl hparam
      | noEncoder => exact ⟨nofun, h.encoded⟩
      | noPicture => exact absurd rfl hpicture
      | done B_buf =>
        cases B_buf with
        | false => exact absurd rfl hbuf
        | true =>
          obtain ⟨hw, hh⟩ := hrefuses trivial
          refine ⟨?_, h.encoded⟩
          rintro size' ⟨⟩
          refine ⟨rfl, ⟨hw, hh⟩, ?_⟩
          rintro p ⟨⟩
          exact ⟨_, rfl, padded_covers hw hh le_rfl le_rfl⟩
    · cases hs
  | end_video | video | check =>
    simp only [Video.step] at hs
    split at hs <;> cases hs
    exact ⟨h.encoder, h.encoded⟩
  | locked n work =>
    simp only [Video.step] at hs
    split at hs <;> cases hs
    have h' : Video.Sized { s with threads := s.threads.eraseIdx n } := ⟨h.encoder, h.encoded⟩
    exact sized_thread h' _ work
  | close =>
    cases hs
    exact ⟨h.encoder, h.encoded⟩
  | delete =>
    simp only [Video.step] at hs
    split at hs
    · cases hs
      exact ⟨nofun, h.encoded⟩
    · cases hs

/-- In every run in which libx265 had memory to set up the video, what the encoder is given
    covers the picture it reads. -/
theorem video_planes {es : List (VideoEvent fits_width fits_height)} (hplenty : ∀ e ∈ es, Plenty e) (hrefuses : ∀ e ∈ es, Refuses e)
    (h : run Video.step Video.new es = some s) : ∀ x ∈ s.encoded, x.picture.Covers x.width x.height := by
  have hboth : ∀ e ∈ es, Plenty e ∧ Refuses e := fun e he => ⟨hplenty e he, hrefuses e he⟩
  exact (run_invariant Video.Sized (fun _ e _ => sized_step e) es sized_new (each_of_forall hboth _) h).encoded

theorem video_planes_short : ∃ s, run Video.step Video.new shortVideo = some s ∧ s.encoded.map Encoded.seq = [2] ∧
    ∀ x ∈ s.encoded, x.picture.Covers x.width x.height := by
  have hplenty : ∀ e ∈ shortVideo, Plenty e := by
    rw [shortVideo]
    simp [Plenty]
  have hrefuses : ∀ e ∈ shortVideo, Refuses e := by
    rw [shortVideo]
    simp [Refuses, VideoSetup.Opened]
  obtain ⟨s, h, hseq⟩ := Option.map_eq_some_iff.mp
    (by decide +kernel : (run Video.step Video.new shortVideo).map (fun s => s.encoded.map Encoded.seq) = some [2])
  exact ⟨s, h, hseq, video_planes hplenty hrefuses h⟩

/-! ## Order -/

def requests : List (VideoEvent fits_width fits_height) → List VideoRequest
  | [] => []
  | .video r :: es => r :: requests es
  | _ :: es => requests es

def Going : VideoEvent fits_width fits_height → Prop
  | .init_video _ _ _ => False
  | .end_video | .video _ | .check _ | .locked _ _ | .close | .delete => True

structure Video.Follows (s s' : Video fits_width fits_height) (rs : List VideoRequest) : Prop where
  frames : ∃ new : List Encoded, s'.encoded = new ++ s.encoded ∧ (new.map Encoded.seq).Pairwise (· ≥ ·) ∧
    ∀ x ∈ new, s.last_video_seq ≤ x.seq ∧ x.seq ≤ s'.last_video_seq
  threads : ∀ t ∈ s'.threads, t.1 ∈ s.threads.map Prod.fst ++ rs
  last : s.last_video_seq ≤ s'.last_video_seq ∧
    (s'.last_video_seq = s.last_video_seq ∨ ∃ r ∈ s.threads.map Prod.fst ++ rs, r.seq = s'.last_video_seq)

theorem Video.Follows.refl (s : Video fits_width fits_height) : s.Follows s [] :=
  ⟨⟨[], rfl, List.Pairwise.nil, List.forall_mem_nil _⟩, fun _ ht => List.mem_append_left _ (List.mem_map_of_mem ht), le_rfl, Or.inl rfl⟩

theorem Video.Follows.trans {s1 s2 : Video fits_width fits_height} {rs1 rs2 : List VideoRequest} (h1 : s.Follows s1 rs1)
    (h2 : s1.Follows s2 rs2) : s.Follows s2 (rs1 ++ rs2) := by
  have hmem : ∀ r ∈ s1.threads.map Prod.fst ++ rs2, r ∈ s.threads.map Prod.fst ++ (rs1 ++ rs2) := by
    intro r hr
    rw [← List.append_assoc]
    rcases List.mem_append.mp hr with hr | hr
    · obtain ⟨t, ht, rfl⟩ := List.mem_map.mp hr
      exact List.mem_append_left _ (h1.threads t ht)
    · exact List.mem_append_right _ hr
  refine ⟨?_, fun t ht => hmem _ (h2.threads t ht), h1.last.1.trans h2.last.1, ?_⟩
  · obtain ⟨new1, heq1, hsorted1, hbounds1⟩ := h1.frames
    obtain ⟨new2, heq2, hsorted2, hbounds2⟩ := h2.frames
    refine ⟨new2 ++ new1, by rw [heq2, heq1, List.append_assoc], ?_, ?_⟩
    · rw [List.map_append, List.pairwise_append]
      refine ⟨hsorted2, hsorted1, ?_⟩
      -- what came later was not older than the last before it
      intro a ha b hb
      obtain ⟨x, hx, rfl⟩ := List.mem_map.mp ha
      obtain ⟨y, hy, rfl⟩ := List.mem_map.mp hb
      exact le_trans (hbounds1 y hy).2 (hbounds2 x hx).1
    · intro x hx
      rcases List.mem_append.mp hx with hx | hx
      · exact ⟨h1.last.1.trans (hbounds2 x hx).1, (hbounds2 x hx).2⟩
      · exact ⟨(hbounds1 x hx).1, (hbounds1 x hx).2.trans h2.last.1⟩
  · rcases h2.last.2 with hlast | ⟨r, hr, hlast⟩
    · rw [hlast]
      rcases h1.last.2 with hlast1 | ⟨r, hr, hlast1⟩
      · exact Or.inl hlast1
      · refine Or.inr ⟨r, ?_, hlast1⟩
        rw [← List.append_assoc]
        exact List.mem_append_left _ hr
    · exact Or.inr ⟨r, hmem r hr, hlast⟩

/-- A step that encodes nothing and lets no request in or by. -/
theorem follows_of {s' : Video fits_width fits_height} {rs : List VideoRequest} (hencoded : s'.encoded = s.encoded)
    (hlast : s'.last_video_seq = s.last_video_seq) (hthreads : ∀ t ∈ s'.threads, t.1 ∈ s.threads.map Prod.fst ++ rs) : s.Follows s' rs :=
  ⟨⟨[], hencoded, List.Pairwise.nil, List.forall_mem_nil _⟩, hthreads, hlast.ge, Or.inl hlast⟩

theorem encode_frame (seq frame_idx padded_width : ℤ) (luma mask : VideoPlane) :
    (s.encode seq frame_idx padded_width luma mask).threads = s.threads ∧
      (s.encode seq frame_idx padded_width luma mask).last_video_seq = s.last_video_seq ∧
      ((s.encode seq frame_idx padded_width luma mask).encoded = s.encoded ∨
        ∃ x : Encoded, x.seq = seq ∧ (s.encode seq frame_idx padded_width luma mask).encoded = x :: s.encoded) := by
  unfold Video.encode
  split
  · exact ⟨rfl, rfl, Or.inr ⟨_, rfl, rfl⟩⟩
  · exact ⟨rfl, rfl, Or.inl rfl⟩

theorem scaled_threads (luma mask : VideoPlane) (resized : Bool) :
    (s.scaled luma mask resized).2.threads = s.threads ∧ (s.scaled luma mask resized).2.last_video_seq = s.last_video_seq := by
  unfold Video.scaled
  split <;> exact ⟨rfl, rfl⟩

/-- What a thread does that is not too late. -/
theorem thread_frame {r : VideoRequest} (h : s.last_video_seq ≤ r.seq) (work : VideoWork) :
    (s.thread r work).threads = s.threads ∧ (s.thread r work).last_video_seq = r.seq ∧
      ((s.thread r work).encoded = s.encoded ∨ ∃ x : Encoded, x.seq = r.seq ∧ (s.thread r work).encoded = x :: s.encoded) := by
  unfold Video.thread
  rw [if_neg h.not_gt]
  split_ifs
  · exact ⟨rfl, rfl, Or.inl rfl⟩
  · dsimp only
    split
    · exact ⟨rfl, rfl, Or.inl rfl⟩
    · exact ⟨rfl, rfl, Or.inl rfl⟩
    · generalize hs1 : Video.getPlanes { s with last_video_seq := r.seq, last_frame_idx := work.frame_idx } = g
      have hg : g.2.threads = s.threads ∧ g.2.last_video_seq = r.seq ∧ g.2.encoded = s.encoded := by
        subst hs1
        exact ⟨rfl, rfl, rfl⟩
      obtain ⟨h1, h2⟩ := scaled_threads (s := g.2) g.1.1 g.1.2 work.resized
      obtain ⟨-, -, -, h3⟩ := scaled_frame (s := g.2) g.1.1 g.1.2 work.resized
      generalize g.2.scaled g.1.1 g.1.2 work.resized = f at h1 h2 h3
      obtain ⟨h4, h5, h6⟩ := encode_frame (s := f.2) r.seq work.frame_idx f.1.1 f.1.2.1 f.1.2.2
      refine ⟨h4.trans (h1.trans hg.1), h5.trans (h2.trans hg.2.1), ?_⟩
      rw [h3, hg.2.2] at h6
      exact h6

theorem follows_step {s' : Video fits_width fits_height} (e : VideoEvent fits_width fits_height) (he : Going e) (hs : s.step e = some s') :
    s.Follows s' (requests [e]) := by
  cases e with
  | init_video => exact he.elim
  | end_video =>
    simp only [Video.step] at hs
    split at hs <;> cases hs
    exact follows_of rfl rfl fun t ht => List.mem_append_left _ (List.mem_map_of_mem ht)
  | video r =>
    simp only [Video.step] at hs
    split at hs <;> cases hs
    refine follows_of rfl rfl fun t ht => ?_
    rcases List.mem_append.mp ht with ht | ht
    · exact List.mem_append_left _ (List.mem_map_of_mem ht)
    · rw [List.mem_singleton.mp ht]
      exact List.mem_append_right _ (List.mem_singleton_self r)
  | check n =>
    simp only [Video.step] at hs
    split at hs
    · rename_i r hr
      cases hs
      refine follows_of rfl rfl fun t ht => List.mem_append_left _ ?_
      have hmem : r ∈ s.threads.map Prod.fst := List.mem_map_of_mem (List.mem_of_getElem? hr)
      dsimp only at ht
      split_ifs at ht
      · rcases List.mem_or_eq_of_mem_set ht with ht | rfl
        · exact List.mem_map_of_mem ht
        · exact hmem
      · exact List.mem_map_of_mem (List.mem_of_mem_eraseIdx ht)
    · cases hs
  | locked n work =>
    simp only [Video.step] at hs
    split at hs
    · rename_i r hr
      cases hs
      have hmem : r ∈ s.threads.map Prod.fst := List.mem_map_of_mem (List.mem_of_getElem? hr)
      have herase : ∀ t ∈ s.threads.eraseIdx n, t.1 ∈ s.threads.map Prod.fst ++
          requests [(.locked n work : VideoEvent fits_width fits_height)] :=
        fun t ht => List.mem_append_left _ (List.mem_map_of_mem (List.mem_of_mem_eraseIdx ht))
      by_cases hold : s.last_video_seq ≤ r.seq
      · have hframe := thread_frame (s := { s with threads := s.threads.eraseIdx n }) hold work
        obtain ⟨hthreads, hlast, hencoded⟩ := hframe
        refine ⟨?_, by rw [hthreads]; exact herase, by rw [hlast]; exact hold, Or.inr ⟨r, List.mem_append_left _ hmem, hlast.symm⟩⟩
        rcases hencoded with hencoded | ⟨x, hx, hencoded⟩
        · exact ⟨[], hencoded, List.Pairwise.nil, List.forall_mem_nil _⟩
        · refine ⟨[x], hencoded, List.pairwise_singleton _ _, fun y hy => ?_⟩
          rw [List.mem_singleton.mp hy, hx, hlast]
          exact ⟨hold, le_rfl⟩
      · have hskip : Video.thread { s with threads := s.threads.eraseIdx n } r work = { s with threads := s.threads.eraseIdx n } := by
          rw [Video.thread, if_pos (not_le.mp hold)]
        rw [hskip]
        exact follows_of rfl rfl herase
    · cases hs
  | close =>
    cases hs
    exact follows_of rfl rfl fun t ht => List.mem_append_left _ (List.mem_map_of_mem ht)
  | delete =>
    simp only [Video.step] at hs
    split at hs
    · cases hs
      exact follows_of rfl rfl fun t ht => List.mem_append_left _ (List.mem_map_of_mem ht)
    · cases hs

theorem requests_cons (e : VideoEvent fits_width fits_height) (es : List (VideoEvent fits_width fits_height)) :
    requests (e :: es) = requests [e] ++ requests es := by
  cases e <;> rfl

theorem follows_run {es : List (VideoEvent fits_width fits_height)} (hgoing : ∀ e ∈ es, Going e) {s s' : Video fits_width fits_height}
    (h : run Video.step s es = some s') : s.Follows s' (requests es) := by
  induction es generalizing s with
  | nil =>
    cases h
    exact Video.Follows.refl _
  | cons e es ih =>
    obtain ⟨he, hes⟩ := List.forall_mem_cons.mp hgoing
    obtain ⟨s1, h1, h2⟩ := Option.bind_eq_some_iff.mp h
    rw [requests_cons]
    exact (follows_step e he h1).trans (ih hes h2)

/-- From a state on, and until the video is set up anew, the frames are encoded in the order of
    their numbers, whatever the order of the threads; and a request whose number is not below
    any other's is not skipped as an old one. -/
theorem video_order {es : List (VideoEvent fits_width fits_height)} (hgoing : ∀ e ∈ es, Going e) {s' : Video fits_width fits_height}
    (h : run Video.step s es = some s') :
    (∃ new : List Encoded, s'.encoded = new ++ s.encoded ∧ (new.map Encoded.seq).Pairwise (· ≥ ·) ∧ ∀ x ∈ new, s.last_video_seq ≤ x.seq) ∧
    ∀ r : VideoRequest, s.last_video_seq ≤ r.seq → (∀ q ∈ s.threads.map Prod.fst ++ requests es, q.seq ≤ r.seq) →
      ∀ work, (s'.thread r work).last_video_seq = r.seq := by
  have hfollows := follows_run hgoing h
  refine ⟨?_, fun r hstart hgreatest work => ?_⟩
  · obtain ⟨new, heq, hsorted, hbounds⟩ := hfollows.frames
    exact ⟨new, heq, hsorted, fun x hx => (hbounds x hx).1⟩
  · have hlast : s'.last_video_seq ≤ r.seq := by
      rcases hfollows.last.2 with hlast | ⟨q, hq, hlast⟩
      · rw [hlast]
        exact hstart
      · rw [← hlast]
        exact hgreatest q hq
    exact (thread_frame hlast work).2.1

/-- A video was set up, and two threads have the mutex: the later request first. -/
def smallVideo : Video 40 20 := Video.new.initVideo 1 ⟨20, 10, by decide, by decide⟩ (.done true)

def swappedVideo : List (VideoEvent 40 20) := [
  .video ⟨2⟩, .video ⟨3⟩, .check 0, .check 1, .locked 1 ⟨7, .luma, true⟩, .locked 0 ⟨8, .luma, true⟩]

theorem video_order_swapped : ∃ s, run Video.step smallVideo swappedVideo = some s ∧ s.encoded.map Encoded.seq = [3] ∧
    ∀ work, (s.thread ⟨3⟩ work).last_video_seq = 3 := by
  obtain ⟨s, h, hseq⟩ := Option.map_eq_some_iff.mp
    (by decide +kernel : (run Video.step smallVideo swappedVideo).map (fun s => s.encoded.map Encoded.seq) = some [3])
  refine ⟨s, h, hseq, (video_order ?_ h).2 ⟨3⟩ (by decide) ?_⟩
  · simp [Going, swappedVideo]
  · simp [smallVideo, Video.new, Video.initVideo, Video.newPicture, Video.alloc, Video.dropPicture, requests, swappedVideo]

end FitsWebQL
