/-
  FitsWebQL.LocalLoad — what `from_path` reads of a local file, and how it ends. A file of
  fewer than 2880 bytes, or whose header is cut short, is given up; so are samples other
  than 32-bit floats and empty dimensions. A single image is read by `pread` in as many
  parts as there is work for, a cube frame by frame: pointed at through the memory map, or
  by `pread`; a gzip by `gzread`, of any zlib, one frame after the other.

  Every reader but the map compares the bytes it got with those it asked for. A mapped
  plane is taken where the header says it is, and nobody asks how long the file is.

  A plane of fewer pixels than the machine has threads divides by zero, in the image's loop
  before it and in the cube's after it.

  Proved, for every file, object, and choice of threads and allocations:
  - `loadFrames_eq`: the planes a team points at, and whether it had every frame.
  - `reads_within_iff`: no plane outside the file is read, and a file too short never ends
    well, exactly when every mapped frame that a thread takes ends inside the file, and
    what is too short is not divided by zero.
  - `readInside_mapped`: a mapped cube stays inside when the file is as long as it says.
  - `header_alone`: a header of 2880 bytes that promises two frames, and nothing else.
-/

import FitsWebQL.Lib.ParallelFor
import FitsWebQL.ParallelLoad

namespace FitsWebQL

open Lib.FileReads Lib.ParallelFor

/-! ## The file and the object -/

/-- A file on the disk: as it is, or a gzip, of a size and what `gzread` gives of it. -/
inductive LocalFile where
  | plain (content : Bytes)
  | gzip (st_size : ℕ) (stream : Bytes)

/-- `st.st_size`. -/
def LocalFile.fitsFileSize : LocalFile → ℕ
  | .plain content => content.length
  | .gzip st_size _ => st_size

def LocalFile.bytes : LocalFile → Bytes
  | .plain content => content
  | .gzip _ stream => stream

def LocalFile.isPlain : LocalFile → Bool
  | .plain _ => true
  | .gzip _ _ => false

/-- The object as `deserialise` leaves it: its fields, its header, and whether both header
    and data were found in the cache. -/
structure LocalObject where
  fits : FitsHeader
  header : Bytes
  processed : Bool

def LocalObject.fresh : LocalObject := ⟨{}, [], false⟩

/-- The header: read behind what is there until NAXIS is, or as it was found. -/
def LocalObject.readHeader (o : LocalObject) (bytes : Bytes) : Option LoadedHeader :=
  if o.fits.naxis = 0 then headerLoop (bytes.length / FITS_CHUNK_LENGTH) o.fits o.header bytes
  else some ⟨headerEnd o.fits, o.header⟩

theorem fresh_readHeader (bytes : Bytes) : LocalObject.fresh.readHeader bytes = fileHeader {} bytes := rfl

/-- Where the data are read from: `offset`, or where the stream is. -/
def LocalObject.dataStart (o : LocalObject) (l : LoadedHeader) : LocalFile → ℕ
  | .plain _ => l.hdr_len
  | .gzip _ _ =>
    if o.fits.naxis = 0 then l.hdr_len - o.header.length
    else if 0 < o.fits.naxis then o.header.length else 0

/-! ## What comes from outside -/

/-- zlib, the threads, what was allocated and mapped, the thread of each group of four frames
    and the order the frames are done in. -/
structure LoadEnv where
  zlib : Zlib
  max_threads : ℕ
  max_threads_pos : 0 < max_threads
  mmap : Bool
  image : Bool
  buffers : ℕ → Bool
  plane : ℕ → Bool
  tid : ℕ → ℕ
  order : ℕ → List ℕ
  order_perm : ∀ depth, (order depth).Perm (List.range depth)

/-- How a load ends: before `bSuccess` is looked at, or with it. -/
inductive LoadEnd where
  | returned
  | divisionByZero
  | finished (bSuccess : Bool)
  deriving DecidableEq

structure LoadTrace where
  mapped : List (ℕ × ℕ)
  ended : LoadEnd

/-! ## from_path -/

def LocalObject.toData (o : LocalObject) (env : LoadEnv) (file : LocalFile) (use_mmap : Bool) : Option LoadedHeader :=
  if file.fitsFileSize < FITS_CHUNK_LENGTH then none
  else if (use_mmap && file.isPlain && !env.mmap) = true then none
  else if o.processed = true then none
  else
    (o.readHeader file.bytes).bind fun l =>
      if l.fits.bitpix ≠ -32 then none
      else if l.fits.width ≤ 0 ∨ l.fits.height ≤ 0 ∨ l.fits.depth ≤ 0 then none
      else if l.fits.frameSize ≠ l.fits.planeSize * 4 then none
      else if env.image = false then none
      else some l

def readsPart (content : Bytes) (offset plane_size num_threads tid : ℕ) : Bool :=
  let work_size := chunkSize plane_size num_threads tid
  (pread content (work_size * 4) (offset + chunkStart plane_size num_threads tid * 4)).length == work_size * 4

def loadImage (env : LoadEnv) (l : LoadedHeader) (offset : ℕ) (file : LocalFile) : LoadEnd :=
  if l.fits.planeSize / env.max_threads = 0 then .divisionByZero
  else
    match file with
    | .plain content =>
      let num_threads := joinThreads l.fits.planeSize env.max_threads
      .finished ((List.range num_threads).all (readsPart content offset l.fits.planeSize num_threads))
    | .gzip _ stream =>
      match (env.zlib.gzread ⟨stream.drop offset, false⟩ (l.fits.frameSize % 2 ^ 32)).1 with
      | none => .returned
      | some bytes => if bytes.length = l.fits.frameSize then .finished true else .returned

structure LoadState where
  mapped : List (ℕ × ℕ)
  bSuccess : Bool

def takePlane (env : LoadEnv) (l : LoadedHeader) (content : Bytes) (use_mmap : Bool) (st : LoadState) (frame : ℕ) : LoadState :=
  if env.buffers (env.tid (frame / 4)) = false then { st with bSuccess := false }
  else
    let offset := l.hdr_len + l.fits.frameSize * frame
    if use_mmap then { st with mapped := st.mapped ++ [(offset, l.fits.frameSize)] }
    else if env.plane frame = false then { st with bSuccess := false }
    else if (pread content l.fits.frameSize offset).length = l.fits.frameSize then st
    else { st with bSuccess := false }

def loadFrames (env : LoadEnv) (l : LoadedHeader) (content : Bytes) (use_mmap : Bool) (frames : List ℕ) : LoadState :=
  frames.foldl (takePlane env l content use_mmap) ⟨[], true⟩

/-- A group of a gzip's frames: a short read breaks the loop over the group. -/
def gzTake (env : LoadEnv) (h : FitsHeader) : List ℕ → GzStream × Bool → GzStream × Bool
  | [], st => st
  | frame :: frames, st =>
    if env.plane frame = false then (st.1, false)
    else
      let r := env.zlib.gzread st.1 (h.frameSize % 2 ^ 32)
      match r.1 with
      | none => (r.2, false)
      | some bytes => if bytes.length = h.frameSize then gzTake env h frames (r.2, st.2) else (r.2, false)

def gzFrames (env : LoadEnv) (l : LoadedHeader) (stream : Bytes) : Bool :=
  let depth := l.fits.depth.toNat
  ((List.range ((depth + 3) / 4)).foldl (fun st g => gzTake env l.fits (groupFrames depth g) st) (⟨stream, false⟩, true)).2

def readCube (env : LoadEnv) (l : LoadedHeader) (offset : ℕ) (use_mmap : Bool) : LocalFile → LoadTrace
  | .plain content =>
    let st := loadFrames env l content use_mmap (env.order l.fits.depth.toNat)
    ⟨st.mapped, if l.fits.planeSize / env.max_threads = 0 then .divisionByZero else .finished st.bSuccess⟩
  | .gzip _ stream => ⟨[], .finished (gzFrames env l (stream.drop offset))⟩

def LocalObject.fromPath (o : LocalObject) (env : LoadEnv) (file : LocalFile) (use_mmap : Bool) : LoadTrace :=
  match o.toData env file use_mmap with
  | none => ⟨[], .returned⟩
  | some l =>
    if l.fits.depth = 1 then ⟨[], loadImage env l (o.dataStart l file) file⟩
    else readCube env l (o.dataStart l file) use_mmap file

/-! ## The frames of a team -/

def hasPlane (env : LoadEnv) (l : LoadedHeader) (content : Bytes) (use_mmap : Bool) (frame : ℕ) : Bool :=
  env.buffers (env.tid (frame / 4)) &&
    (use_mmap || env.plane frame &&
      (pread content l.fits.frameSize (l.hdr_len + l.fits.frameSize * frame)).length == l.fits.frameSize)

def mappedPlane (l : LoadedHeader) (frame : ℕ) : ℕ × ℕ := (l.hdr_len + l.fits.frameSize * frame, l.fits.frameSize)

theorem takePlane_eq (env : LoadEnv) (l : LoadedHeader) (content : Bytes) (use_mmap : Bool) (st : LoadState) (frame : ℕ) :
    takePlane env l content use_mmap st frame =
      ⟨st.mapped ++ if (use_mmap && env.buffers (env.tid (frame / 4))) = true then [mappedPlane l frame] else [],
        st.bSuccess && hasPlane env l content use_mmap frame⟩ := by
  unfold takePlane hasPlane mappedPlane
  cases env.buffers (env.tid (frame / 4)) with
  | false => simp
  | true =>
    cases use_mmap with
    | true => simp
    | false =>
      cases env.plane frame with
      | false => simp
      | true =>
        by_cases hread : (pread content l.fits.frameSize (l.hdr_len + l.fits.frameSize * frame)).length = l.fits.frameSize
        · simp [hread]
        · simp [hread]

/-- The planes pointed at, and whether every frame was had. -/
theorem loadFrames_eq (env : LoadEnv) (l : LoadedHeader) (content : Bytes) (use_mmap : Bool) (frames : List ℕ) :
    loadFrames env l content use_mmap frames =
      ⟨(frames.filter fun f => use_mmap && env.buffers (env.tid (f / 4))).map (mappedPlane l),
        frames.all (hasPlane env l content use_mmap)⟩ := by
  have key : ∀ st : LoadState, frames.foldl (takePlane env l content use_mmap) st =
      ⟨st.mapped ++ (frames.filter fun f => use_mmap && env.buffers (env.tid (f / 4))).map (mappedPlane l),
        st.bSuccess && frames.all (hasPlane env l content use_mmap)⟩ := by
    induction frames with
    | nil => intro st; simp
    | cons f frames ih =>
      intro st
      rw [List.foldl_cons, ih, takePlane_eq, List.filter_cons, List.all_cons, Bool.and_assoc]
      split
      · simp
      · simp
  rw [loadFrames, key]
  simp

theorem pread_short {content : Bytes} {count offset : ℕ} (hshort : content.length < offset + count) (hcount : 0 < count) :
    (pread content count offset).length ≠ count := by
  rw [pread_length]
  omega

/-! ## An image -/

/-- The last part of an image cut short is not had. -/
theorem readsPart_short {content : Bytes} {offset plane_size num_threads : ℕ} (hn : 0 < num_threads)
    (hparts : num_threads ≤ plane_size) (hshort : content.length < offset + plane_size * 4) :
    (List.range num_threads).all (readsPart content offset plane_size num_threads) = false := by
  have hlast : chunkStart plane_size num_threads (num_threads - 1) + chunkSize plane_size num_threads (num_threads - 1) =
      plane_size := by
    have hle : chunkStart plane_size num_threads (num_threads - 1) ≤ plane_size := chunkStart_le (by omega)
    rw [chunkSize, if_pos (by omega)]
    omega
  have hsize : 0 < chunkSize plane_size num_threads (num_threads - 1) := by
    have hend : chunkStart plane_size num_threads num_threads ≤ plane_size := chunkStart_le le_rfl
    have hq : 0 < plane_size / num_threads := Nat.div_pos hparts hn
    have hstart : chunkStart plane_size num_threads num_threads =
        chunkStart plane_size num_threads (num_threads - 1) + plane_size / num_threads := by
      obtain ⟨k, rfl⟩ : ∃ k, num_threads = k + 1 := ⟨num_threads - 1, by omega⟩
      rw [chunkStart, chunkStart, Nat.succ_mul]
      rfl
    omega
  rw [List.all_eq_false]
  refine ⟨num_threads - 1, List.mem_range.mpr (by omega), ?_⟩
  unfold readsPart
  rw [beq_iff_eq]
  exact pread_short (by omega) (by omega)

theorem joinThreads_le (plane_size max_threads : ℕ) : joinThreads plane_size max_threads ≤ plane_size := Nat.div_le_self _ _

/-! ## A gzip -/

/-- A read that gives as much as was asked for: there is as much, and it is behind. -/
theorem gzread_frame {z : Zlib} {s : GzStream} {len : ℕ} {bytes : Bytes} (hread : (z.gzread s (len % 2 ^ 32)).1 = some bytes)
    (hlen : bytes.length = len) : len ≤ s.rest.length ∧ (z.gzread s (len % 2 ^ 32)).2.rest = s.rest.drop len := by
  have hmod : len % 2 ^ 32 = len := by
    have hle := (z.next hread).1
    have hmod := Nat.mod_le len (2 ^ 32)
    omega
  rw [hmod] at hread ⊢
  obtain ⟨hthere, -, hrest⟩ := z.gzread_full hread hlen
  exact ⟨hthere, hrest⟩

/-- A group that is had: the stream was long enough, and is behind it. -/
theorem gzTake_full (env : LoadEnv) (h : FitsHeader) (frames : List ℕ) (st : GzStream × Bool)
    (hok : (gzTake env h frames st).2 = true) :
    st.2 = true ∧ h.frameSize * frames.length ≤ st.1.rest.length ∧
      (gzTake env h frames st).1.rest = st.1.rest.drop (h.frameSize * frames.length) := by
  induction frames generalizing st with
  | nil => exact ⟨hok, by simp, by simp [gzTake]⟩
  | cons f frames ih =>
    unfold gzTake at hok ⊢
    split at hok
    · cases hok
    · rw [if_neg ‹_›]
      dsimp only at hok ⊢
      cases hread : (env.zlib.gzread st.1 (h.frameSize % 2 ^ 32)).1 with
      | none =>
        rw [hread] at hok
        cases hok
      | some bytes =>
        rw [hread] at hok
        dsimp only at hok ⊢
        by_cases hlen : bytes.length = h.frameSize
        · rw [if_pos hlen] at hok ⊢
          obtain ⟨hthere, hrest⟩ := gzread_frame hread hlen
          obtain ⟨hst, hle, hdrop⟩ := ih _ hok
          rw [hrest, List.length_drop] at hle
          rw [hdrop, hrest, List.drop_drop, List.length_cons, Nat.mul_add, Nat.mul_one]
          exact ⟨hst, by omega, by rw [Nat.add_comm]⟩
        · rw [if_neg hlen] at hok
          cases hok

theorem groupFrames_length (depth g : ℕ) : (groupFrames depth g).length = min (4 * g + 4) depth - 4 * g := List.length_range'

/-- A cube that is had from a gzip is there. -/
theorem gzFrames_full {env : LoadEnv} {l : LoadedHeader} {stream : Bytes} (hok : gzFrames env l stream = true) :
    l.fits.frameSize * l.fits.depth.toNat ≤ stream.length := by
  have key : ∀ k, ((List.range k).foldl (fun st g => gzTake env l.fits (groupFrames l.fits.depth.toNat g) st)
      (⟨stream, false⟩, true)).2 = true →
        l.fits.frameSize * min (4 * k) l.fits.depth.toNat ≤ stream.length ∧
        ((List.range k).foldl (fun st g => gzTake env l.fits (groupFrames l.fits.depth.toNat g) st)
          (⟨stream, false⟩, true)).1.rest = stream.drop (l.fits.frameSize * min (4 * k) l.fits.depth.toNat) := by
    intro k
    induction k with
    | zero => intro _; simp
    | succ k ih =>
      intro hk
      rw [List.range_succ, List.foldl_append, List.foldl_cons, List.foldl_nil] at hk ⊢
      obtain ⟨hbefore, hle, hdrop⟩ := gzTake_full env l.fits _ _ hk
      obtain ⟨hle', hrest⟩ := ih hbefore
      rw [hrest, groupFrames_length] at hle hdrop
      rw [List.length_drop] at hle
      have hsum : min (4 * (k + 1)) l.fits.depth.toNat =
          min (4 * k) l.fits.depth.toNat + (min (4 * k + 4) l.fits.depth.toNat - 4 * k) := by omega
      rw [hsum, Nat.mul_add, hdrop, List.drop_drop]
      exact ⟨by omega, rfl⟩
  have hall := (key _ hok).1
  have hdepth : min (4 * ((l.fits.depth.toNat + 3) / 4)) l.fits.depth.toNat = l.fits.depth.toNat := by omega
  rwa [hdepth] at hall

/-! ## Within the file -/

def LocalObject.TooShort (o : LocalObject) (l : LoadedHeader) (file : LocalFile) : Prop :=
  file.bytes.length - o.dataStart l file < l.fits.frameSize * l.fits.depth.toNat

/-- No mapped plane outside the file is read, and a load of a file that is too short, or
    whose header is, ends without data. -/
structure ReadsWithin (o : LocalObject) (file : LocalFile) (trace : LoadTrace) : Prop where
  inside : ∀ plane ∈ trace.mapped, plane.1 + plane.2 ≤ file.fitsFileSize
  short : (∀ l, o.readHeader file.bytes = some l → o.TooShort l file) → trace.ended = .returned ∨ trace.ended = .finished false

/-- Every mapped frame that a thread takes ends inside the file; a plane of fewer pixels than
    threads is not too short, unless it is of a cube in a gzip. -/
structure ReadInside (o : LocalObject) (env : LoadEnv) (file : LocalFile) (use_mmap : Bool) (l : LoadedHeader) : Prop where
  frames : file.isPlain = true → use_mmap = true → l.fits.depth ≠ 1 → ∀ f < l.fits.depth.toNat,
    env.buffers (env.tid (f / 4)) = true → l.hdr_len + l.fits.frameSize * (f + 1) ≤ file.fitsFileSize
  divides : l.fits.planeSize < env.max_threads → file.isPlain = true ∨ l.fits.depth = 1 → ¬ o.TooShort l file

theorem toData_some {o : LocalObject} {env : LoadEnv} {file : LocalFile} {use_mmap : Bool} {l : LoadedHeader}
    (h : o.toData env file use_mmap = some l) :
    o.readHeader file.bytes = some l ∧ 0 < l.fits.depth ∧ l.fits.frameSize = l.fits.planeSize * 4 := by
  unfold LocalObject.toData at h
  split at h
  · cases h
  split at h
  · cases h
  split at h
  · cases h
  obtain ⟨l', hread, h⟩ := Option.bind_eq_some_iff.mp h
  split at h
  · cases h
  split at h
  · cases h
  split at h
  · cases h
  split at h
  · cases h
  cases h
  refine ⟨hread, by omega, by omega⟩

section Branches

variable {o : LocalObject} {env : LoadEnv} {file : LocalFile} {use_mmap : Bool} {l : LoadedHeader}
  (hread : o.readHeader file.bytes = some l)

include hread

theorem tooShort_iff : (∀ l', o.readHeader file.bytes = some l' → o.TooShort l' file) ↔ o.TooShort l file := by
  rw [hread]
  constructor
  · intro h
    exact h l rfl
  · intro h l' hl'
    cases hl'
    exact h

theorem image_within (hdepth : l.fits.depth = 1) (hframe : l.fits.frameSize = l.fits.planeSize * 4) :
    ReadsWithin o file ⟨[], loadImage env l (o.dataStart l file) file⟩ ↔ ReadInside o env file use_mmap l := by
  by_cases hsmall : l.fits.planeSize < env.max_threads
  · have hend : loadImage env l (o.dataStart l file) file = .divisionByZero := if_pos (Nat.div_eq_of_lt hsmall)
    rw [hend]
    constructor
    · intro h
      refine ⟨fun _ _ hne => absurd hdepth hne, fun _ _ hts => ?_⟩
      rcases h.short ((tooShort_iff hread).mpr hts) with he | he <;> cases he
    · intro h
      refine ⟨fun plane hp => (by cases hp), fun hts => ?_⟩
      exact absurd ((tooShort_iff hread).mp hts) (h.divides hsmall (Or.inr hdepth))
  · have hthreads : env.max_threads ≤ l.fits.planeSize := by omega
    have hpos := env.max_threads_pos
    have hwork : ¬ l.fits.planeSize / env.max_threads = 0 := (Nat.div_pos hthreads hpos).ne'
    refine iff_of_true ⟨fun plane hp => (by cases hp), fun hts => ?_⟩
      ⟨fun _ _ hne => absurd hdepth hne, fun hlt => absurd hlt hsmall⟩
    have hshort := (tooShort_iff hread).mp hts
    unfold LocalObject.TooShort at hshort
    rw [hdepth, Int.toNat_one, Nat.mul_one] at hshort
    unfold loadImage
    rw [if_neg hwork]
    cases file with
    | plain content =>
      have hlen : content.length - o.dataStart l (.plain content) < l.fits.frameSize := hshort
      exact Or.inr (congrArg LoadEnd.finished
        (readsPart_short (joinThreads_pos hpos hthreads) (joinThreads_le _ _) (by omega)))
    | gzip st_size stream =>
      dsimp only
      cases hbytes : (env.zlib.gzread ⟨stream.drop (o.dataStart l (.gzip st_size stream)), false⟩
          (l.fits.frameSize % 2 ^ 32)).1 with
      | none => exact Or.inl rfl
      | some bytes =>
        dsimp only
        split
        · have hthere := (gzread_frame hbytes ‹_›).1
          have hlen : (LocalFile.gzip st_size stream).bytes.length = stream.length := rfl
          simp only [List.length_drop] at hthere
          omega
        · exact Or.inl rfl

theorem plain_within {content : Bytes} (hfile : file = .plain content) (hdepth : l.fits.depth ≠ 1) (hpos : 0 < l.fits.depth)
    (hframe : l.fits.frameSize = l.fits.planeSize * 4) :
    ReadsWithin o file (readCube env l (o.dataStart l file) use_mmap file) ↔ ReadInside o env file use_mmap l := by
  subst hfile
  have hmem : ∀ f, f ∈ env.order l.fits.depth.toNat ↔ f < l.fits.depth.toNat := fun f =>
    ((env.order_perm _).mem_iff).trans List.mem_range
  have hinside : (∀ plane ∈ (readCube env l (o.dataStart l (.plain content)) use_mmap (.plain content)).mapped,
      plane.1 + plane.2 ≤ content.length) ↔
      (use_mmap = true → ∀ f < l.fits.depth.toNat, env.buffers (env.tid (f / 4)) = true →
        l.hdr_len + l.fits.frameSize * (f + 1) ≤ content.length) := by
    unfold readCube
    simp only [loadFrames_eq, List.mem_map, List.mem_filter, Bool.and_eq_true, hmem]
    constructor
    · intro h hmap f hf hbuf
      have := h _ ⟨f, ⟨hf, hmap, hbuf⟩, rfl⟩
      simp only [mappedPlane] at this
      rw [Nat.mul_add, Nat.mul_one]
      omega
    · rintro h _ ⟨f, ⟨hf, hmap, hbuf⟩, rfl⟩
      have := h hmap f hf hbuf
      simp only [mappedPlane]
      rw [Nat.mul_add, Nat.mul_one] at this
      omega
  constructor
  · intro h
    refine ⟨fun _ hmap _ => hinside.mp h.inside hmap, fun hsmall _ hts => ?_⟩
    have hend : (readCube env l (o.dataStart l (.plain content)) use_mmap (.plain content)).ended = .divisionByZero :=
      if_pos (Nat.div_eq_of_lt hsmall)
    rcases h.short ((tooShort_iff hread).mpr hts) with he | he <;> rw [hend] at he <;> cases he
  · intro h
    refine ⟨hinside.mpr fun hmap => h.frames rfl hmap hdepth, fun hts => ?_⟩
    have hshort := (tooShort_iff hread).mp hts
    by_cases hsmall : l.fits.planeSize < env.max_threads
    · exact absurd hshort (h.divides hsmall (Or.inl rfl))
    have hpixels : 0 < l.fits.planeSize := lt_of_lt_of_le env.max_threads_pos (by omega)
    have hwork : ¬ l.fits.planeSize / env.max_threads = 0 := (Nat.div_pos (by omega) env.max_threads_pos).ne'
    -- the last frame is not had: no thread takes it, or its read is short
    have hlast : hasPlane env l content use_mmap (l.fits.depth.toNat - 1) = false := by
      have hmul : l.fits.frameSize * l.fits.depth.toNat =
          l.fits.frameSize * (l.fits.depth.toNat - 1) + l.fits.frameSize := by
        rw [← Nat.mul_succ]
        congr 1
        omega
      have hlen : content.length - l.hdr_len < l.fits.frameSize * l.fits.depth.toNat := hshort
      unfold hasPlane
      cases hbuf : env.buffers (env.tid ((l.fits.depth.toNat - 1) / 4)) with
      | false => rfl
      | true =>
        cases hmap : use_mmap with
        | true =>
          have hin : l.hdr_len + l.fits.frameSize * (l.fits.depth.toNat - 1 + 1) ≤ content.length :=
            h.frames rfl hmap hdepth _ (by omega) hbuf
          rw [Nat.mul_add, Nat.mul_one] at hin
          omega
        | false =>
          have hne := @pread_short content l.fits.frameSize (l.hdr_len + l.fits.frameSize * (l.fits.depth.toNat - 1))
            (by omega) (by omega)
          simp [hne]
    have hall : (env.order l.fits.depth.toNat).all (hasPlane env l content use_mmap) = false :=
      List.all_eq_false.mpr
        ⟨l.fits.depth.toNat - 1, (hmem _).mpr (by omega), by rw [hlast]; exact Bool.false_ne_true⟩
    refine Or.inr ?_
    unfold readCube
    dsimp only
    rw [if_neg hwork, loadFrames_eq, hall]

theorem gzip_within {st_size : ℕ} {stream : Bytes} (hfile : file = .gzip st_size stream) (hdepth : l.fits.depth ≠ 1) :
    ReadsWithin o file (readCube env l (o.dataStart l file) use_mmap file) ↔ ReadInside o env file use_mmap l := by
  subst hfile
  refine iff_of_true ⟨fun plane hp => (by cases hp), fun hts => Or.inr ?_⟩ ⟨fun hplain => (by cases hplain), fun _ hcase => ?_⟩
  · have hshort := (tooShort_iff hread).mp hts
    unfold readCube
    dsimp only
    cases hok : gzFrames env l (stream.drop (o.dataStart l (.gzip st_size stream))) with
    | false => rfl
    | true =>
      have hfull := gzFrames_full hok
      have hlen : stream.length - o.dataStart l (.gzip st_size stream) < l.fits.frameSize * l.fits.depth.toNat := hshort
      rw [List.length_drop] at hfull
      omega
  · rcases hcase with hcase | hcase
    · cases hcase
    · exact absurd hcase hdepth

end Branches

/-- A load reads within the file, and ends without data when the file is too short, exactly
    when it is given up before the data, or stays inside. -/
theorem reads_within_iff (o : LocalObject) (env : LoadEnv) (file : LocalFile) (use_mmap : Bool) :
    ReadsWithin o file (o.fromPath env file use_mmap) ↔
      ∀ l, o.toData env file use_mmap = some l → ReadInside o env file use_mmap l := by
  unfold LocalObject.fromPath
  cases hdata : o.toData env file use_mmap with
  | none =>
    refine iff_of_true ⟨fun plane hp => (by cases hp), fun _ => Or.inl rfl⟩ fun l hl => ?_
    cases hl
  | some l =>
    obtain ⟨hread, hpos, hframe⟩ := toData_some hdata
    have hone : (∀ l', some l = some l' → ReadInside o env file use_mmap l') ↔ ReadInside o env file use_mmap l := by
      constructor
      · intro h
        exact h l rfl
      · intro h l' hl'
        cases hl'
        exact h
    rw [hone]
    dsimp only
    by_cases hdepth : l.fits.depth = 1
    · rw [if_pos hdepth]
      exact image_within hread hdepth hframe
    · rw [if_neg hdepth]
      cases hfile : file with
      | plain content =>
        rw [← hfile]
        exact plain_within hread hfile hdepth hpos hframe
      | gzip st_size stream =>
        rw [← hfile]
        exact gzip_within hread hfile hdepth

/-- A mapped cube, every thread with its buffers: it stays inside when the file is as long as
    the header says. -/
theorem readInside_mapped {o : LocalObject} {env : LoadEnv} {content : Bytes} {l : LoadedHeader}
    (hdepth : 1 < l.fits.depth) (hbuffers : ∀ t, env.buffers t = true) (hthreads : env.max_threads ≤ l.fits.planeSize) :
    ReadInside o env (.plain content) true l ↔ HoldsFrames l content := by
  constructor
  · intro h
    have hlast : l.hdr_len + l.fits.frameSize * (l.fits.depth.toNat - 1 + 1) ≤ content.length :=
      h.frames rfl rfl (by omega) _ (by omega) (hbuffers _)
    rwa [Nat.sub_add_cancel (by omega)] at hlast
  · intro h
    refine ⟨fun _ _ _ f hf _ => ?_, fun hlt => by omega⟩
    rw [Nat.mul_add, Nat.mul_one, ← Nat.add_assoc]
    exact holds_frame h hf

/-! ## A header and nothing else -/

def headerAlone : Bytes := zeroCube.take FITS_CHUNK_LENGTH

theorem frames_in_order (depth : ℕ) : (List.range depth).Perm (List.range depth) := List.Perm.refl _

def plentyOf : LoadEnv where
  zlib := exactZlib
  max_threads := 1
  max_threads_pos := Nat.one_pos
  mmap := true
  image := true
  buffers _ := true
  plane _ := true
  tid _ := 0
  order := List.range
  order_perm := frames_in_order

theorem headerAlone_eq :
    headerAlone = headerUnit ["BITPIX  = -32", "NAXIS   = 3", "NAXIS1  = 2", "NAXIS2  = 1", "NAXIS3  = 2", "END"] :=
  List.take_left' (headerUnit_length zeroCube_cards)

theorem headerAlone_length : headerAlone.length = 2880 := by
  rw [headerAlone_eq]
  exact headerUnit_length zeroCube_cards

/-- The loader comes to the data. -/
theorem headerAlone_fromPath (use_mmap : Bool) :
    LocalObject.fresh.fromPath plentyOf (.plain headerAlone) use_mmap =
      readCube plentyOf zeroCubeHeader 2880 use_mmap (.plain headerAlone) := by
  obtain ⟨hdepth, hplane, hframe, hlen, hbitpix, hwidth, hheight⟩ := zeroCube_sizes
  have hread : LocalObject.fresh.readHeader headerAlone = some zeroCubeHeader := by
    have hfile := fileHeader_headerUnit zeroCube_cards (by decide) []
    rw [List.append_nil] at hfile
    rw [fresh_readHeader, headerAlone_eq, hfile, zeroCubeHeader_eq]
  have hdata : LocalObject.fresh.toData plentyOf (.plain headerAlone) use_mmap = some zeroCubeHeader := by
    unfold LocalObject.toData
    rw [if_neg (by rw [LocalFile.fitsFileSize, headerAlone_length]; decide), if_neg (by simp [plentyOf]),
      if_neg (by exact Bool.noConfusion), LocalFile.bytes, hread, Option.bind_some, if_neg (by omega), if_neg (by omega),
      if_neg (by omega)]
    rfl
  unfold LocalObject.fromPath
  rw [hdata]
  dsimp only
  rw [if_neg (by omega)]
  unfold LocalObject.dataStart
  rw [hlen]

/-- Both planes are read behind the end of the file, and the load ends well; without the map
    it does not. -/
theorem header_alone :
    (LocalObject.fresh.fromPath plentyOf (.plain headerAlone) true).mapped = [(2880, 8), (2888, 8)] ∧
      headerAlone.length = 2880 ∧
      (LocalObject.fresh.fromPath plentyOf (.plain headerAlone) true).ended = .finished true ∧
      (LocalObject.fresh.fromPath plentyOf (.plain headerAlone) false).ended = .finished false ∧
      ¬ ReadsWithin .fresh (.plain headerAlone) (LocalObject.fresh.fromPath plentyOf (.plain headerAlone) true) := by
  have hrun : (LocalObject.fresh.fromPath plentyOf (.plain headerAlone) true).mapped = [(2880, 8), (2888, 8)] ∧
      (LocalObject.fresh.fromPath plentyOf (.plain headerAlone) true).ended = .finished true ∧
      (LocalObject.fresh.fromPath plentyOf (.plain headerAlone) false).ended = .finished false := by
    rw [headerAlone_fromPath, headerAlone_fromPath, zeroCubeHeader_eq, headerAlone_eq]
    decide +kernel
  obtain ⟨hmapped, hend, hpread⟩ := hrun
  refine ⟨hmapped, headerAlone_length, hend, hpread, fun h => ?_⟩
  have hin : 2880 + 8 ≤ headerAlone.length := h.inside (2880, 8) (by rw [hmapped]; exact List.mem_cons_self)
  rw [headerAlone_length] at hin
  omega

end FitsWebQL
