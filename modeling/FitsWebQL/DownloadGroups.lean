/-
  FitsWebQL.DownloadGroups — the frames of a downloaded cube are compressed four at a
  time: at the end of a frame `scan_fits_data` calls `zfp_compress_cube` for the four
  frames that end there, or, at the end of the last frame, for those left over.

  In a cube of at least four frames every group is compressed once, when its last frame
  has come, and with the words of its frames (`groups_compressed_once`). With two or
  three frames the test for what is left over is never made, since it stands behind
  `start_k >= 0` (`two_frames_never_compressed`).
-/

import FitsWebQL.DownloadStream

namespace FitsWebQL

open Lib.Feed Lib.Wire

/-! ## Jobs -/

def FitsHeader.compressJob (h : FitsHeader) (frame : ℕ) : Option ℕ :=
  if 3 ≤ frame then
    if (frame - 3) % 4 = 0 then some (frame - 3)
    else if (frame : ℤ) = h.depth - 1 then some (frame - frame % 4)
    else none
  else none

theorem endPlane_eq (d : Dataset) (frame : ℕ) :
    d.endPlane frame = ((d.fits.compressJob frame).map d.zfpCompressCube).getD d := by
  unfold Dataset.endPlane FitsHeader.compressJob
  dsimp only
  by_cases h3 : 3 ≤ frame
  · have hk : ((frame : ℤ) - 3).toNat = frame - 3 := by omega
    rw [if_pos h3, if_pos (by omega), hk]
    split
    · rfl
    · split
      · rfl
      · rfl
  · rw [if_neg h3, if_neg (by omega)]
    rfl

def Download.job (t : Download) (contents : Bytes) : Option ℕ :=
  if t.data.hdr_end = true ∧ t.data.running_size < t.data.fits_file_size ∧ 1 < t.data.fits.depth ∧
      t.data.start + (t.wordsRead contents).length = t.data.fits.planeSize then
    t.data.fits.compressJob t.data.frame
  else none

structure Jobs where
  download : Download
  started : List ℕ

def Jobs.init (fits : FitsHeader) : Jobs := ⟨Download.init fits, []⟩

def Jobs.call (l : Jobs) (contents : Bytes) : Option Jobs :=
  (writeData l.download contents).map fun t => ⟨t, l.started ++ (l.download.job contents).toList⟩

/-! ## Groups -/

def FitsHeader.groupsDone (h : FitsHeader) (frames : ℕ) : ℕ :=
  if (frames : ℤ) < h.depth then frames / 4 else (h.depth.toNat + 3) / 4

/-- At least four frames, none of them empty, and no four more behind the last group. -/
def FitsHeader.WholeGroups (h : FitsHeader) : Prop :=
  4 ≤ h.depth ∧ 0 < h.planeSize ∧ h.totalSize / h.planeSize / 4 ≤ h.depth.toNat / 4

instance (h : FitsHeader) : Decidable h.WholeGroups := inferInstanceAs (Decidable (_ ∧ _ ∧ _))

theorem compressJob_eq (h : FitsHeader) (frame : ℕ) :
    h.compressJob frame =
      if frame % 4 = 3 then some (frame - 3)
      else if 3 ≤ frame ∧ (frame : ℤ) = h.depth - 1 then some (frame - frame % 4)
      else none := by
  unfold FitsHeader.compressJob
  by_cases h3 : 3 ≤ frame
  · have hmod : (frame - 3) % 4 = 0 ↔ frame % 4 = 3 := by omega
    simp only [h3, hmod, true_and, if_true]
  · rw [if_neg h3, if_neg (by omega), if_neg (by omega)]

/-- At the end of a frame the next group is complete and compressed, or nothing is. -/
theorem compressJob_cases {h : FitsHeader} {frame : ℕ} (h4 : 4 ≤ h.depth) (hn : (frame + 1) / 4 ≤ h.depth.toNat / 4) :
    (h.compressJob frame = none ∧ h.groupsDone (frame + 1) = h.groupsDone frame) ∨
      (h.compressJob frame = some (4 * h.groupsDone frame) ∧ h.groupsDone (frame + 1) = h.groupsDone frame + 1 ∧
        (frame : ℤ) < h.depth ∧ min (4 * h.groupsDone frame + 4) h.depth.toNat = frame + 1) := by
  rw [compressJob_eq]
  unfold FitsHeader.groupsDone
  by_cases h3 : frame % 4 = 3
  · have hlast : (frame : ℤ) < h.depth := by omega
    have hjob : frame - 3 = 4 * (frame / 4) := by omega
    rw [if_pos h3, if_pos hlast, hjob]
    refine Or.inr ⟨rfl, ?_, hlast, by omega⟩
    split
    · omega
    · omega
  · rw [if_neg h3]
    by_cases hd : 3 ≤ frame ∧ (frame : ℤ) = h.depth - 1
    · have hjob : frame - frame % 4 = 4 * (frame / 4) := by omega
      rw [if_pos hd, if_neg (by omega), if_pos (by omega), hjob]
      exact Or.inr ⟨rfl, by omega, by omega, by omega⟩
    · rw [if_neg hd]
      refine Or.inl ⟨rfl, ?_⟩
      split
      · rw [if_pos (by omega)]
        omega
      · rw [if_neg (by omega)]

/-- The frames of the next group have all their planes: they are compressed and let go. -/
theorem zfpCompressCube_eq (d : Dataset) (start_k : ℕ)
    (h : ∀ f, start_k ≤ f → f < min (start_k + 4) d.fits.depth.toNat → (d.fits_cube f).isSome) :
    d.zfpCompressCube start_k =
      { d with
        zfp_compressed := d.zfp_compressed ++ [(start_k, fun k =>
          if k < min (start_k + 4) d.fits.depth.toNat - start_k then d.fits_cube (start_k + k) else none)]
        fits_cube := fun i => if start_k ≤ i ∧ i < min (start_k + 4) d.fits.depth.toNat then none else d.fits_cube i } := by
  unfold Dataset.zfpCompressCube
  dsimp only
  rw [if_pos]
  rw [List.all_eq_true]
  intro f hf
  obtain ⟨i, hi, rfl⟩ := List.mem_range'.mp hf
  exact h _ (by omega) (by omega)

/-! ## What every call keeps -/

/-- With `groups` groups compressed: the jobs are theirs; each has got the words of its
    frames and nothing else; and the frames behind them have theirs. -/
structure Grouped (d : Dataset) (groups : ℕ) (words : List UInt32) (jobs : List ℕ) : Prop where
  started : jobs = (List.range groups).map fun g => 4 * g
  compressed : d.zfp_compressed.map Prod.fst = jobs
  held : ∀ job ∈ d.zfp_compressed, ∀ f, job.1 ≤ f → f < min (job.1 + 4) d.fits.depth.toNat →
    (f + 1) * d.fits.planeSize ≤ words.length ∧ HoldsWords (job.2 (f - job.1)) words (f * d.fits.planeSize) d.fits.planeSize
  inside : ∀ job ∈ d.zfp_compressed, ∀ f, job.1 ≤ f → d.fits.depth.toNat ≤ f → job.2 (f - job.1) = none
  waiting : ∀ f, 4 * groups ≤ f → (f : ℤ) < d.fits.depth → f * d.fits.planeSize < words.length →
    HoldsWords (d.fits_cube f) words (f * d.fits.planeSize) d.fits.planeSize

/-- Words go to the frame's plane. -/
theorem grouped_addWords {d : Dataset} {groups : ℕ} {words ws : List UInt32} {jobs : List ℕ} {plane : RawPlane}
    (h : Grouped d groups words jobs) (hlen : words.length = d.running_size)
    (hplane : (d.newPlane d.frame).fits_cube d.frame = some plane) (hroom : d.start + ws.length ≤ d.fits.planeSize) :
    Grouped ((d.newPlane d.frame).addWords d.frame d.start plane ws) groups (words ++ ws) jobs := by
  have hf := frame_start d
  have hfits : ((d.newPlane d.frame).addWords d.frame d.start plane ws).fits = d.fits := newPlane_fits d d.frame
  have hz : ((d.newPlane d.frame).addWords d.frame d.start plane ws).zfp_compressed = d.zfp_compressed :=
    newPlane_compressed d d.frame
  have hmore : words.length ≤ (words ++ ws).length := by
    rw [List.length_append]
    exact Nat.le_add_right _ _
  constructor
  · exact h.started
  · rw [hz]
    exact h.compressed
  · rw [hz, hfits]
    intro job hjob f h1 h2
    obtain ⟨h3, h4⟩ := h.held job hjob f h1 h2
    rw [Nat.add_mul, Nat.one_mul] at h3
    refine ⟨by rw [Nat.add_mul, Nat.one_mul]; omega, holdsWords_append h4 h3 ws⟩
  · rw [hz, hfits]
    exact h.inside
  · rw [hfits]
    intro f h1 h2 h3
    rw [List.length_append] at h3
    by_cases hframe : f = d.frame
    · subst hframe
      show HoldsWords (set (d.newPlane d.frame).fits_cube d.frame (some (memcpyWords plane d.start ws)) d.frame) _ _ _
      rw [set_same]
      apply holdsWords_memcpy _ (by omega)
      -- what stands before `start` was there before
      intro j hj
      obtain ⟨p, hp, hw⟩ := h.waiting d.frame h1 h2 (by omega)
      rw [newPlane_of_isSome (by rw [hp]; rfl), hp, Option.some_inj] at hplane
      rw [← hplane]
      exact hw j (by omega) (by omega)
    · show HoldsWords (set (d.newPlane d.frame).fits_cube d.frame _ f) _ _ _
      rw [set_of_ne _ _ hframe, newPlane_of_ne hframe]
      have hlt : f < d.frame := by
        by_contra hle
        have hmul : (d.frame + 1) * d.fits.planeSize ≤ f * d.fits.planeSize := Nat.mul_le_mul_right _ (by omega)
        rw [Nat.add_mul, Nat.one_mul] at hmul
        omega
      have hmul : (f + 1) * d.fits.planeSize ≤ d.frame * d.fits.planeSize := Nat.mul_le_mul_right _ hlt
      rw [Nat.add_mul, Nat.one_mul] at hmul
      exact holdsWords_append (h.waiting f h1 h2 (by omega)) (by omega) ws

/-- At the end of a frame the next group is compressed when it is complete. -/
theorem grouped_endPlane {d : Dataset} {words : List UInt32} {jobs : List ℕ} {frame : ℕ}
    (h : Grouped d (d.fits.groupsDone frame) words jobs) (hplane : 0 < d.fits.planeSize)
    (hlen : words.length = (frame + 1) * d.fits.planeSize) (h4 : 4 ≤ d.fits.depth)
    (hn : (frame + 1) / 4 ≤ d.fits.depth.toNat / 4) :
    Grouped (d.endPlane frame) (d.fits.groupsDone (frame + 1)) words (jobs ++ (d.fits.compressJob frame).toList) := by
  have hread : ∀ f, f ≤ frame → f * d.fits.planeSize < words.length ∧ (f + 1) * d.fits.planeSize ≤ words.length := by
    intro f hf
    have hmul : (f + 1) * d.fits.planeSize ≤ (frame + 1) * d.fits.planeSize := Nat.mul_le_mul_right _ (by omega)
    rw [hlen]
    refine ⟨?_, hmul⟩
    rw [Nat.add_mul, Nat.one_mul] at hmul
    omega
  have hle : ∀ f, f * d.fits.planeSize < words.length → f ≤ frame := by
    intro f hf
    rw [hlen] at hf
    exact Nat.lt_succ_iff.mp (Nat.lt_of_mul_lt_mul_right hf)
  rw [endPlane_eq]
  rcases compressJob_cases h4 hn with ⟨hjob, hgroups⟩ | ⟨hjob, hgroups, hlast, hend⟩
  · rw [hjob, hgroups]
    show Grouped d _ words (jobs ++ [])
    rw [List.append_nil]
    exact h
  · rw [hjob, hgroups]
    show Grouped (d.zfpCompressCube (4 * d.fits.groupsDone frame)) _ words (jobs ++ [4 * d.fits.groupsDone frame])
    set groups := d.fits.groupsDone frame with hg
    -- the group's frames are those behind the groups compressed, up to this one
    have hgroup : ∀ f, 4 * groups ≤ f → f < min (4 * groups + 4) d.fits.depth.toNat →
        HoldsWords (d.fits_cube f) words (f * d.fits.planeSize) d.fits.planeSize := by
      intro f h1 h2
      exact h.waiting f h1 (by omega) (hread f (by omega)).1
    have hz := zfpCompressCube_eq d (4 * groups) fun f h1 h2 => by
      obtain ⟨p, hp, -⟩ := hgroup f h1 h2
      rw [hp]
      rfl
    rw [hz]
    constructor
    · rw [h.started, List.range_succ, List.map_append]
      rfl
    · rw [List.map_append, h.compressed]
      rfl
    · intro job hjob f h1 h2
      rcases List.mem_append.mp hjob with hjob | hjob
      · exact h.held job hjob f h1 h2
      · rw [List.mem_singleton.mp hjob] at h1 h2 ⊢
        dsimp only at h1 h2 ⊢
        rw [if_pos (by omega), Nat.add_sub_of_le h1]
        exact ⟨(hread f (by omega)).2, hgroup f h1 h2⟩
    · intro job hjob f h1 h2
      rcases List.mem_append.mp hjob with hjob | hjob
      · exact h.inside job hjob f h1 h2
      · rw [List.mem_singleton.mp hjob] at h1 ⊢
        dsimp only at h1 h2 ⊢
        exact if_neg (by omega)
    · intro f h1 h2 h3
      have := hle f h3
      dsimp only at h1 h2
      omega

theorem grouped_readTo {d : Dataset} {groups : ℕ} {words : List UInt32} {jobs : List ℕ} (h : Grouped d groups words jobs) (n : ℕ) :
    Grouped (d.readTo n) groups words jobs where
  started := h.started
  compressed := h.compressed
  held := h.held
  inside := h.inside
  waiting := h.waiting

/-! ## Runs -/

/-- A call on the data. -/
theorem grouped_readWords {d : Dataset} {words ws : List UInt32} {jobs : List ℕ} (hd : d.Sound) (he : d.hdr_end = true)
    (hr : d.running_size < d.fits_file_size) (hc : d.fits.WholeGroups)
    (h : Grouped d (d.fits.groupsDone d.frame) words jobs) (hlen : words.length = d.running_size)
    (hroom : d.start + ws.length ≤ d.fits.planeSize) (htotal : d.running_size + ws.length ≤ d.fits_file_size) :
    Grouped (d.readWords ws) (d.fits.groupsDone (d.readWords ws).frame) (words ++ ws)
      (jobs ++ (if d.start + ws.length = d.fits.planeSize then d.fits.compressJob d.frame else none).toList) := by
  obtain ⟨h4, hplane, hn⟩ := hc
  obtain ⟨plane, hp, hread⟩ := readWords_newPlane hd he hr (by omega) ws
  have hadd := grouped_addWords h hlen hp hroom
  have hf := frame_start d
  have hfits : ((d.newPlane d.frame).addWords d.frame d.start plane ws).fits = d.fits := newPlane_fits d d.frame
  by_cases hend : d.start + ws.length = d.fits.planeSize
  · have hrun : d.running_size + ws.length = (d.frame + 1) * d.fits.planeSize := by
      rw [Nat.add_mul, Nat.one_mul]
      omega
    have hframe : (d.readWords ws).frame = d.frame + 1 := by
      show (d.readWords ws).running_size / (d.readWords ws).fits.planeSize = _
      rw [readWords_running, readWords_fits, hrun, Nat.mul_div_cancel _ hplane]
    have hcount : d.frame + 1 ≤ d.fits.totalSize / d.fits.planeSize := by
      rw [Nat.le_div_iff_mul_le hplane, ← hrun, ← hd.total he]
      exact htotal
    rw [if_pos hend, hframe]
    rw [if_pos hend] at hread
    rw [hread]
    apply grouped_readTo
    rw [← hfits] at hadd hplane h4 hn hcount hrun ⊢
    apply grouped_endPlane hadd hplane _ h4 ((Nat.div_le_div_right hcount).trans hn)
    rw [List.length_append, hlen, hrun]
  · obtain ⟨hframe, -⟩ := frame_of_running (readWords_fits d ws) (readWords_running d ws) (by omega)
    rw [if_neg hend, hframe]
    rw [if_neg hend] at hread
    rw [hread]
    show Grouped _ _ _ (jobs ++ [])
    rw [List.append_nil]
    exact grouped_readTo hadd _

/-- What a run keeps: until the header has ended there are no jobs, and behind it the
    frames are grouped. -/
structure Jobs.Runs (l : Jobs) (stream : Bytes) : Prop where
  streamed : l.download.Streamed stream
  header : l.download.data.hdr_end = false → l.started = [] ∧ l.download.data.zfp_compressed = []
  grouped : l.download.data.hdr_end = true → l.download.data.fits.WholeGroups →
    Grouped l.download.data (l.download.data.fits.groupsDone l.download.data.frame) (l.download.words stream) l.started

theorem runs_init (fits : FitsHeader) : (Jobs.init fits).Runs [] where
  streamed := streamed_init fits
  header _ := ⟨rfl, rfl⟩
  grouped h := by cases h

/-- The unit that ends the header leaves nothing read. -/
theorem grouped_allocate {d : Dataset} (h : d.running_size = 0) (hz : d.zfp_compressed = [])
    (hc : d.allocate.fits.WholeGroups) : Grouped d.allocate (d.allocate.fits.groupsDone d.allocate.frame) [] [] := by
  have hz' : d.allocate.zfp_compressed = [] := hz
  have hframe : d.allocate.frame = 0 := by
    show d.running_size / _ = 0
    rw [h, Nat.zero_div]
  have hgroups : d.allocate.fits.groupsDone 0 = 0 := by
    have h4 := hc.1
    unfold FitsHeader.groupsDone
    rw [if_pos (by omega)]
  rw [hframe, hgroups]
  constructor
  · rfl
  · rw [hz']
    rfl
  · rw [hz']
    intro job hjob
    cases hjob
  · rw [hz']
    intro job hjob
    cases hjob
  · intro f _ _ h3
    cases h3

theorem job_header {t : Download} (he : t.data.hdr_end = false) (c : Bytes) : t.job c = none := by
  unfold Download.job
  rw [if_neg]
  intro h
  rw [he] at h
  cases h.1

theorem runs_call {l l' : Jobs} {stream c : Bytes} (hl : l.Runs stream) (h : l.call c = some l') : l'.Runs (stream ++ c) := by
  obtain ⟨t', ht, rfl⟩ := Option.map_eq_some_iff.mp h
  obtain ⟨hstreamed, hwords⟩ := streamed_writeData hl.streamed ht
  have hs := hl.streamed.sound
  rcases writeData_cases ht with ⟨he, -, rfl⟩ | ⟨he, hb, rfl⟩ | ⟨he, hr, rfl⟩ | ⟨he, hr, ws, hws, rfl⟩
  · refine ⟨hstreamed, fun _ => ?_, fun he' => ?_⟩
    · rw [job_header he]
      show l.started ++ [] = [] ∧ _
      rw [List.append_nil]
      exact hl.header he
    · rw [he] at he'
      cases he'
  · obtain ⟨hstarted, hz⟩ := hl.header he
    have hrun := hs.running he
    refine ⟨hstreamed, fun _ => ?_, ?_⟩
    · rw [job_header he, hstarted]
      refine ⟨rfl, ?_⟩
      dsimp only
      rw [readUnit_eq]
      split
      · exact hz
      · exact hz
    · rw [job_header he, hstarted]
      dsimp only at hwords ⊢
      rw [hwords, wordsRead_header he, List.append_nil]
      have hnil : l.download.words stream = [] := by
        rw [← List.length_eq_zero_iff, words_length, hrun]
      rw [hnil, readUnit_eq]
      split
      · intro _ hc
        apply grouped_allocate _ _ hc
        · exact hrun
        · exact hz
      · intro he'
        exact absurd (he.symm.trans he') Bool.false_ne_true
  · have hjob : l.download.job c = none := by
      unfold Download.job
      exact if_neg fun h => by omega
    refine ⟨hstreamed, fun he' => absurd (he'.symm.trans he) Bool.false_ne_true, fun _ hc => ?_⟩
    rw [hjob, words_append hl.streamed]
    show Grouped _ _ _ (l.started ++ [])
    rw [List.append_nil]
    exact hl.grouped he hc
  · refine ⟨hstreamed, fun he' => ?_, fun _ hc => ?_⟩
    · dsimp only at he'
      rw [readWords_hdr_end, he] at he'
      cases he'
    · obtain ⟨-, htotal, hroom⟩ := wordsRead_room (c := c) hs he hr
      rw [wordsRead_eq he hr, ← hws] at htotal hroom
      dsimp only at hc hwords ⊢
      rw [readWords_fits] at hc ⊢
      have hdepth : 1 < l.download.data.fits.depth := by have := hc.1; omega
      have hjob : l.download.job c =
          if l.download.data.start + ws.length = l.download.data.fits.planeSize then
            l.download.data.fits.compressJob l.download.data.frame
          else none := by
        unfold Download.job
        rw [wordsRead_eq he hr, ← hws]
        simp only [he, hr, hdepth, true_and]
      rw [hjob, hwords, wordsRead_eq he hr, ← hws]
      exact grouped_readWords hs he hr hc (hl.grouped he hc) (words_length _ _) (hroom hdepth) htotal

/-- In a cube of at least four frames (and of one polarisation, or of so few that no four
    more frames end), however the stream is cut: no job is started twice, each is of four
    frames of the cube (at its end perhaps fewer) that have all come, and when the last
    frame has come every group has had its job. Each job got its frames' words. -/
theorem groups_compressed_once (fits : FitsHeader) (cs : List Bytes) (l : Jobs) (h : feedAll Jobs.call (Jobs.init fits) cs = some l)
    (he : l.download.data.hdr_end = true) (hc : l.download.data.fits.WholeGroups) :
    let d := l.download.data
    l.started.Nodup ∧
      (∀ k ∈ l.started, k % 4 = 0 ∧ k < d.fits.depth.toNat ∧ min (k + 4) d.fits.depth.toNat * d.fits.planeSize ≤ d.running_size) ∧
      (d.fits.depth.toNat * d.fits.planeSize ≤ d.running_size → ∀ k, k % 4 = 0 → k < d.fits.depth.toNat → k ∈ l.started) ∧
      d.zfp_compressed.map Prod.fst = l.started ∧
      ∀ job ∈ d.zfp_compressed, ∀ f, job.1 ≤ f →
        (f < min (job.1 + 4) d.fits.depth.toNat →
          HoldsWords (job.2 (f - job.1)) (l.download.words cs.flatten) (f * d.fits.planeSize) d.fits.planeSize) ∧
        (d.fits.depth.toNat ≤ f → job.2 (f - job.1) = none) := by
  have hruns := feedAll_along (fun stream (l : Jobs) => l.Runs stream) (fun _ _ _ _ hl _ hc => runs_call hl hc) cs
    (runs_init fits) (along_of_forall (fun _ _ _ => trivial) _ _ _) h
  rw [List.nil_append] at hruns
  obtain ⟨h4, hplane, hn⟩ := hc
  have hg := hruns.grouped he ⟨h4, hplane, hn⟩
  set d := l.download.data with hd
  have hmem : ∀ k, k ∈ l.started ↔ k % 4 = 0 ∧ k < 4 * d.fits.groupsDone d.frame := by
    intro k
    rw [hg.started, List.mem_map]
    constructor
    · intro hk
      obtain ⟨g, hg, rfl⟩ := hk
      rw [List.mem_range] at hg
      exact ⟨by omega, by omega⟩
    · intro hk
      exact ⟨k / 4, List.mem_range.mpr (by omega), by omega⟩
  have hframe : d.frame * d.fits.planeSize ≤ d.running_size := Nat.div_mul_le_self _ _
  refine ⟨?_, ?_, ?_, hg.compressed, ?_⟩
  · rw [hg.started]
    exact List.nodup_range.map fun a b hab => by simpa using hab
  · intro k hk
    obtain ⟨h1, h2⟩ := (hmem k).mp hk
    unfold FitsHeader.groupsDone at h2
    have hlast : k < d.fits.depth.toNat ∧ min (k + 4) d.fits.depth.toNat ≤ d.frame := by
      split at h2
      · exact ⟨by omega, by omega⟩
      · exact ⟨by omega, by omega⟩
    exact ⟨h1, hlast.1, (Nat.mul_le_mul_right _ hlast.2).trans hframe⟩
  · intro hall k h1 h2
    rw [hmem]
    refine ⟨h1, ?_⟩
    have hlast : d.fits.depth.toNat ≤ d.frame := (Nat.le_div_iff_mul_le hplane).mpr hall
    unfold FitsHeader.groupsDone
    rw [if_neg (by omega)]
    omega
  · intro job hjob f h1
    exact ⟨fun h2 => (hg.held job hjob f h1 h2).2, fun h2 => hg.inside job hjob f h1 h2⟩

/-- A cube of so many frames of one pixel: the header, and the frames one by one. -/
def onePixelFrames (header : Bytes) (depth : ℕ) : List Bytes := header :: List.replicate depth (List.replicate 4 0)

/-- Before the header is read no group is complete. -/
theorem calls_headerUnit {fits fits' : FitsHeader} {cards : List String} (h : ReadsCards fits fits' cards)
    (hnaxis : 0 < fits'.naxis) (cs : List Bytes) :
    feedAll Jobs.call (Jobs.init fits) (headerUnit cards :: cs) =
      feedAll Jobs.call ⟨Download.headerRead fits' (headerUnit cards) [], []⟩ cs := by
  have hread := @writeData_headerUnit fits fits' cards h hnaxis [] (by decide)
  rw [List.append_nil] at hread
  have hcall : Jobs.call (Jobs.init fits) (headerUnit cards) =
      some ⟨Download.headerRead fits' (headerUnit cards) [], []⟩ := by
    have hinit : (Jobs.init fits).download = Download.init fits := rfl
    rw [Jobs.call, hinit, hread]
    rfl
  rw [feedAll, hcall]
  rfl

def fourFrames : Bytes :=
  headerUnit ["BITPIX  = -32", "NAXIS   = 3", "NAXIS1  = 1", "NAXIS2  = 1", "NAXIS3  = 4", "END"]

theorem groups_compressed_once_four_frames :
    ∃ l, feedAll Jobs.call (Jobs.init {}) (onePixelFrames fourFrames 4) = some l ∧ l.started = [0] ∧ l.started.Nodup := by
  have hread : (feedAll Jobs.call (Jobs.init {}) (onePixelFrames fourFrames 4)).map (fun l =>
      (l.download.data.hdr_end, l.started, decide l.download.data.fits.WholeGroups)) = some (true, [0], true) := by
    rw [onePixelFrames, fourFrames, @calls_headerUnit _ { bitpix := -32, naxis := 3, width := 1, height := 1, depth := 4 } _
      (by decide +kernel) (by decide)]
    decide +kernel
  obtain ⟨l, hl, hvalues⟩ := Option.map_eq_some_iff.mp hread
  rw [Prod.mk.injEq, Prod.mk.injEq, decide_eq_true_iff] at hvalues
  obtain ⟨he, hstarted, hc⟩ := hvalues
  exact ⟨l, hl, hstarted, (groups_compressed_once {} _ l hl he hc).1⟩

def twoFrames : Bytes :=
  headerUnit ["BITPIX  = -32", "NAXIS   = 3", "NAXIS1  = 1", "NAXIS2  = 1", "NAXIS3  = 2", "END"]

/-- A cube of two frames is all read, and no job was started. -/
theorem two_frames_never_compressed :
    ¬ ∀ (fits : FitsHeader) (cs : List Bytes) (l : Jobs), feedAll Jobs.call (Jobs.init fits) cs = some l →
      l.download.data.hdr_end = true → 1 < l.download.data.fits.depth →
      l.download.data.fits.depth.toNat * l.download.data.fits.planeSize ≤ l.download.data.running_size →
      ∀ k, k % 4 = 0 → k < l.download.data.fits.depth.toNat → l.started.count k = 1 := by
  have hread : (feedAll Jobs.call (Jobs.init {}) (onePixelFrames twoFrames 2)).map (fun l =>
      (l.download.data.hdr_end, l.started, l.download.data.fits.depth, l.download.data.fits.planeSize,
        l.download.data.running_size)) = some (true, [], 2, 1, 2) := by
    rw [onePixelFrames, twoFrames, @calls_headerUnit _ { bitpix := -32, naxis := 3, width := 1, height := 1, depth := 2 } _
      (by decide +kernel) (by decide)]
    decide +kernel
  obtain ⟨l, hl, hvalues⟩ := Option.map_eq_some_iff.mp hread
  simp only [Prod.mk.injEq] at hvalues
  obtain ⟨he, hstarted, hdepth, hplane, hrun⟩ := hvalues
  intro h
  have hcount := h {} _ l hl he (by rw [hdepth]; decide) (by rw [hdepth, hplane, hrun]; decide) 0 rfl (by rw [hdepth]; decide)
  rw [hstarted] at hcount
  cases hcount

end FitsWebQL
