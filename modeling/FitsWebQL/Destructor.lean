/-
  FitsWebQL.Destructor — the end of a FITS object (`FITS::~FITS`, `fits.cpp`) in every
  state a loader leaves it in. What the destructor uses is a null pointer or not, by
  where the loaders returned: the header, the two planes with their deleters, the groups of
  compressed blocks. `serialise` hands the header and the other strings to the JSON library
  (`json.c`), which takes the length of a string before anything else and asserts that it
  is UTF-8.

  A loader can end the server itself: the file loader when it ends a restored header
  that is not there, the downloader when it clears a plane that is not there. Then there is
  no object to destroy.

  Proved:
  - `destroy_iff`: when a destructor ends, for any object and any state of the cache.
  - `reached_header_iff`, `reached_planes_iff`: what a life leaves to it.
  - `destroyed_iff`: when the destructor at the end of a life does.
  - `missing_file_destroyed`: an object whose file is not there.
-/

import FitsWebQL.HeaderLoops
import FitsWebQL.JsonString

namespace FitsWebQL

open Lib.Lag

/-! ## Objects -/

/-- What a plane's shared pointer holds: a mapped file, or what the allocator gave for
    `size` elements (which can be NULL) with the deleter that saves it. -/
inductive PlanePtr
  | mapped
  | allocated (size : ℕ) (there : Bool)
  deriving DecidableEq

abbrev GroupBlocks := List Bool

structure FitsObject where
  /-- The strings among them are serialised. `flux` may change to another name of a tone
      mapping when the image is done. -/
  fits : FitsHeader
  /-- The bytes written to `header`, with its NUL; `none` is NULL. -/
  header : Option Bytes
  hdr_len : ℕ
  img_pixels : Option PlanePtr
  img_mask : Option PlanePtr
  /-- `none` is a null pointer. -/
  cube_pixels : List (Option GroupBlocks)
  cube_mask : List (Option GroupBlocks)
  /-- `processed_header && processed_data`. -/
  processed : Bool

def FitsObject.new (fits : FitsHeader) : FitsObject := ⟨fits, none, 0, none, none, [], [], false⟩

/-- What `deserialise` finds; a header in the JSON has no NUL. -/
structure SavedObject where
  fits : FitsHeader
  header : Option Bytes
  pixels : Bool
  mask : Bool
  cube_pixels : List (Option GroupBlocks)
  cube_mask : List (Option GroupBlocks)
  processed_data : Bool

def FitsObject.deserialise (o : FitsObject) : Option SavedObject → FitsObject
  | none => o
  | some s => {
    fits := s.fits
    header := (s.header.map (· ++ [0])).or o.header
    hdr_len := (s.header.map List.length).getD o.hdr_len
    img_pixels := if s.pixels then some .mapped else o.img_pixels
    img_mask := if s.mask then some .mapped else o.img_mask
    cube_pixels := s.cube_pixels
    cube_mask := s.cube_mask
    processed := s.processed_data }

/-! ## The destructor -/

/-- The state of the cache then: is the JSON file there, can its copy be opened; of a
    plane's file, its size, and whether it can be opened. -/
structure CacheState where
  json : Bool
  jsonTmp : Bool
  pixels : Option ℕ
  pixelsOpens : Bool
  mask : Option ℕ
  maskOpens : Bool

inductive Fault
  | nullHeader
  /-- A string is read past what was written. -/
  | unendedHeader
  | nullPlane
  /-- `assert(utf8_validate(str))`. -/
  | notUtf8
  deriving DecidableEq

/-- `ptr->clear()`, when it is not null: the deleter of a block looks at it, too. -/
def releaseGroup : Option GroupBlocks → Except Fault Unit
  | none => .ok ()
  | some _ => .ok ()

/-- The deleter of a plane of elements of `width` bytes: where the file has not its size,
    it writes it. -/
def releasePlane (width : ℕ) (file : Option ℕ) (opens : Bool) : Option PlanePtr → Except Fault Unit
  | none => .ok ()
  | some .mapped => .ok ()
  | some (.allocated size there) =>
    let save := file ≠ some (size * width % 2 ^ 64)
    if save ∧ opens = true ∧ 0 < size ∧ there = false then .error .nullPlane else .ok ()

def json_mkstring : Option Bytes → Except Fault Bytes
  | none => .error .nullHeader
  | some s => if (0 : UInt8) ∈ s then .ok (cString s) else .error .unendedHeader

def emit_string (s : Bytes) : Except Fault Unit := if utf8_validate s then .ok () else .error .notUtf8

def FitsHeader.strings (h : FitsHeader) : List Bytes :=
  [h.flux, h.btype, h.bunit, h.cunit1, h.ctype1, h.cunit2, h.ctype2, h.cunit3, h.ctype3, h.line, h.filter, h.specsys,
    h.timesys, h.object, h.date_obs, h.beam_unit, h.beam_type].map cString

/-- `FITS::serialise`; first all strings are copied, then they are written. -/
def FitsObject.serialise (o : FitsObject) (c : CacheState) : Except Fault Unit :=
  if c.json = true then .ok ()
  else if c.jsonTmp = false then .ok ()
  else do
    let header ← json_mkstring o.header
    forM (o.fits.strings ++ [header]) emit_string

def FitsObject.destroy (o : FitsObject) (c : CacheState) : Except Fault Unit := do
  forM o.cube_pixels releaseGroup
  forM o.cube_mask releaseGroup
  releasePlane 4 c.pixels c.pixelsOpens o.img_pixels
  releasePlane 1 c.mask c.maskOpens o.img_mask
  o.serialise c

/-! ## When it ends -/

theorem bind_ok_iff {α β : Type} {x : Except Fault α} {f : α → Except Fault β} {b : β} :
    (x >>= f) = .ok b ↔ ∃ a, x = .ok a ∧ f a = .ok b := by
  cases x with
  | error e => simp [bind, Except.bind]
  | ok a => simp [bind, Except.bind]

theorem seq_ok_iff {x y : Except Fault Unit} : (x >>= fun _ => y) = .ok () ↔ x = .ok () ∧ y = .ok () := by
  rw [bind_ok_iff]
  constructor
  · rintro ⟨⟨⟩, hx, hy⟩
    exact ⟨hx, hy⟩
  · rintro ⟨hx, hy⟩
    exact ⟨(), hx, hy⟩

theorem forM_ok_iff {α : Type} {f : α → Except Fault Unit} {xs : List α} : forM xs f = .ok () ↔ ∀ x ∈ xs, f x = .ok () := by
  induction xs with
  | nil => simp [pure, Except.pure]
  | cons x xs ih => rw [List.forM_cons, seq_ok_iff, List.forall_mem_cons, ih]

def PlaneSafe (width : ℕ) (file : Option ℕ) (opens : Bool) (plane : Option PlanePtr) : Prop :=
  ∀ size, plane = some (.allocated size false) → file = some (size * width % 2 ^ 64) ∨ opens = false ∨ size = 0

def Encodable (fits : FitsHeader) (header : Bytes) : Prop := ∀ s ∈ fits.strings ++ [cString header], utf8_validate s = true

def FitsObject.HeaderReady (o : FitsObject) : Prop := ∃ header, o.header = some header ∧ (0 : UInt8) ∈ header ∧ Encodable o.fits header

theorem releaseGroup_ok (group : Option GroupBlocks) : releaseGroup group = .ok () := by
  cases group <;> rfl

theorem releasePlane_iff {width : ℕ} {file : Option ℕ} {opens : Bool} {plane : Option PlanePtr} :
    releasePlane width file opens plane = .ok () ↔ PlaneSafe width file opens plane := by
  unfold PlaneSafe
  rcases plane with _ | (_ | ⟨size, there⟩)
  · simp [releasePlane]
  · simp [releasePlane]
  · cases there with
    | true => simp [releasePlane]
    | false =>
      simp only [releasePlane, Option.some.injEq, PlanePtr.allocated.injEq, and_true, forall_eq']
      by_cases hfile : file = some (size * width % 2 ^ 64)
      · simp [hfile]
      · by_cases hsize : size = 0
        · simp [hsize]
        · have hpos : 0 < size := Nat.pos_of_ne_zero hsize
          cases opens with
          | false => simp
          | true => simp [hsize, hpos]

theorem serialise_iff {o : FitsObject} {c : CacheState} :
    o.serialise c = .ok () ↔ c.json = true ∨ c.jsonTmp = false ∨ o.HeaderReady := by
  unfold FitsObject.serialise
  by_cases hjson : c.json = true
  · simp [hjson]
  · by_cases htmp : c.jsonTmp = false
    · simp [htmp]
    · rw [if_neg hjson, if_neg htmp, bind_ok_iff, or_iff_right hjson, or_iff_right htmp]
      simp only [forM_ok_iff]
      unfold FitsObject.HeaderReady Encodable
      constructor
      · rintro ⟨text, hread, htexts⟩
        unfold json_mkstring at hread
        split at hread
        · cases hread
        · rename_i header hheader
          split at hread
          · cases hread
            refine ⟨header, hheader, by assumption, fun s hs => ?_⟩
            have hs := htexts s hs
            unfold emit_string at hs
            split at hs
            · assumption
            · cases hs
          · cases hread
      · rintro ⟨header, hheader, hends, htexts⟩
        refine ⟨cString header, ?_, fun s hs => ?_⟩
        · rw [hheader, json_mkstring, if_pos hends]
        · rw [emit_string, if_pos (htexts s hs)]

theorem destroy_iff {o : FitsObject} {c : CacheState} :
    o.destroy c = .ok () ↔
      PlaneSafe 4 c.pixels c.pixelsOpens o.img_pixels ∧ PlaneSafe 1 c.mask c.maskOpens o.img_mask ∧
        (c.json = true ∨ c.jsonTmp = false ∨ o.HeaderReady) := by
  have hgroups : ∀ groups : List (Option GroupBlocks), forM groups releaseGroup = .ok () := by
    intro groups
    rw [forM_ok_iff]
    intro group _
    exact releaseGroup_ok group
  unfold FitsObject.destroy
  rw [seq_ok_iff, seq_ok_iff, seq_ok_iff, seq_ok_iff, releasePlane_iff, releasePlane_iff, serialise_iff]
  simp [hgroups]

/-! ## The loaders -/

/-- What `from_path` meets: can the file be opened, has it 2880 bytes, is it mapped; its
    bytes, or those of the decompressed stream; does the allocator give the planes; and the
    groups that are compressed. -/
structure PathFile where
  opened : Bool
  large : Bool
  mapped : Bool
  file : Bytes
  pixels : Bool
  mask : Bool
  cube_pixels : List (Option GroupBlocks)
  cube_mask : List (Option GroupBlocks)

/-- What `from_url` meets: what is received, whether the transfer is completed or not. -/
structure UrlStream where
  curl : Bool
  pieces : List Bytes
  pixels : Bool
  mask : Bool
  cube_pixels : List (Option GroupBlocks)
  cube_mask : List (Option GroupBlocks)

def FitsObject.makePlanes (o : FitsObject) (pixels mask : Bool) : FitsObject :=
  { o with
    img_pixels := o.img_pixels.or (some (.allocated o.fits.planeSize pixels))
    img_mask := o.img_mask.or (some (.allocated o.fits.planeSize mask)) }

def PlanePtr.isNull : PlanePtr → Bool
  | .mapped => false
  | .allocated _ there => !there

def FitsObject.hasPlanes (o : FitsObject) : Bool := !o.img_pixels.any PlanePtr.isNull && !o.img_mask.any PlanePtr.isNull

/-- `from_path` reads on. -/
def FitsHeader.Supported (h : FitsHeader) : Prop := h.bitpix = -32 ∧ 0 < h.width ∧ 0 < h.height ∧ 0 < h.depth

instance (h : FitsHeader) : Decidable h.Supported := inferInstanceAs (Decidable (_ ∧ _ ∧ _ ∧ _))

def FitsObject.readData (o : FitsObject) (i : PathFile) : FitsObject :=
  if o.fits.Supported then
    let o := o.makePlanes i.pixels i.mask
    if o.hasPlanes = true ∧ o.fits.depth ≠ 1 then { o with cube_pixels := i.cube_pixels, cube_mask := i.cube_mask } else o
  else o

def readInto (old : Bytes) (offset : ℕ) (new : Bytes) : Bytes := old.take offset ++ new ++ old.drop (offset + new.length)

def FitsObject.text (o : FitsObject) : Bytes := (o.header.getD []).take o.hdr_len

def FitsObject.Reads (o : FitsObject) (i : PathFile) : Prop :=
  i.opened = true ∧ i.large = true ∧ i.mapped = true ∧ o.processed = false

instance (o : FitsObject) (i : PathFile) : Decidable (o.Reads i) := inferInstanceAs (Decidable (_ ∧ _ ∧ _ ∧ _))

def FitsObject.fromPath (o : FitsObject) (i : PathFile) : Option FitsObject :=
  if o.Reads i then
    if o.fits.naxis = 0 then
      match headerLoop (i.file.length / FITS_CHUNK_LENGTH) o.fits o.text i.file with
      | none => some { o with
          fits := fieldsAt o.fits i.file (i.file.length / FITS_CHUNK_LENGTH)
          header := some (readInto (o.header.getD []) o.hdr_len i.file) }
      | some l => some ({ o with fits := l.fits, header := some (l.header ++ [0]), hdr_len := l.hdr_len }.readData i)
    else
      match o.header with
      -- `header[offset] = '\0'`
      | none => none
      | some _ => some ({ o with fits := headerEnd o.fits }.readData i)
  else some o

/-- The end of `scan_fits_header`: the planes are made and cleared. -/
def FitsObject.endHeader (o : FitsObject) (i : UrlStream) : Option FitsObject :=
  let o := o.makePlanes i.pixels i.mask
  if o.hasPlanes = false ∧ 0 < o.fits.planeSize then none
  else some (if 1 < o.fits.depth then { o with cube_pixels := i.cube_pixels, cube_mask := i.cube_mask } else o)

def FitsObject.receive (o : FitsObject) (t : Download) : FitsObject :=
  { o with
    fits := t.data.fits
    header := if t.data.header = [] then none else some (t.data.header ++ [0])
    hdr_len := t.data.header.length }

def FitsObject.fromUrl (o : FitsObject) (i : UrlStream) : Option FitsObject :=
  if o.processed = true ∨ i.curl = false then some o
  else (scanAll (Download.init o.fits) i.pieces).bind fun t =>
    if t.data.hdr_end = true then (o.receive t).endHeader i else some (o.receive t)

inductive Loading
  | never
  | path (i : PathFile)
  | url (i : UrlStream)

structure Life where
  fits : FitsHeader
  saved : Option SavedObject
  loading : Loading

def Life.start (l : Life) : FitsObject := (FitsObject.new l.fits).deserialise l.saved

def Life.reached (l : Life) : Option FitsObject :=
  match l.loading with
  | .never => some (FitsObject.new l.fits)
  | .path i => l.start.fromPath i
  | .url i => l.start.fromUrl i

/-! ## Headers -/

theorem headerLoop_prior (n : ℕ) (fits : FitsHeader) (prior header file : Bytes) :
    headerLoop n fits (prior ++ header) file =
      (headerLoop n fits header file).map fun l => ⟨l.fits, prior ++ l.header⟩ := by
  induction n generalizing fits header file with
  | zero => rfl
  | succ n ih =>
    rw [headerLoop, headerLoop]
    split
    · simp [List.append_assoc]
    · rw [List.append_assoc, ih]

/-- The file loader's loop, behind what was restored. -/
theorem headerLoop_ends (fits : FitsHeader) (prior file : Bytes) :
    (∃ k, EndsWith fits file k ∧ headerLoop (file.length / FITS_CHUNK_LENGTH) fits prior file =
        some ⟨(headerAt fits file k).fits, prior ++ (headerAt fits file k).header⟩) ∨
      (∀ k, ¬ EndsWith fits file k) ∧ headerLoop (file.length / FITS_CHUNK_LENGTH) fits prior file = none := by
  have hprior := headerLoop_prior (file.length / FITS_CHUNK_LENGTH) fits prior [] file
  rw [List.append_nil] at hprior
  rw [hprior]
  rcases fileHeader_eq fits file with ⟨k, hk, hstop, hbefore, hfile⟩ | ⟨hnone, hfile⟩
  · refine Or.inl ⟨k, ⟨hk, hstop, hbefore⟩, ?_⟩
    unfold fileHeader at hfile
    rw [hfile, Option.map_some]
  · refine Or.inr ⟨fun k hk => hnone k hk.1 hk.2.1, ?_⟩
    unfold fileHeader at hfile
    rw [hfile, Option.map_none]

theorem readData_header (o : FitsObject) (i : PathFile) : (o.readData i).header = o.header ∧ (o.readData i).fits = o.fits := by
  unfold FitsObject.readData
  split
  · dsimp only
    split <;> exact ⟨rfl, rfl⟩
  · exact ⟨rfl, rfl⟩

theorem readData_planes (o : FitsObject) (i : PathFile) :
    ((o.readData i).img_pixels =
        if o.fits.Supported then o.img_pixels.or (some (.allocated o.fits.planeSize i.pixels)) else o.img_pixels) ∧
      (o.readData i).img_mask = if o.fits.Supported then o.img_mask.or (some (.allocated o.fits.planeSize i.mask)) else o.img_mask := by
  unfold FitsObject.readData
  by_cases h : o.fits.Supported
  · simp only [if_pos h]
    split <;> exact ⟨rfl, rfl⟩
  · simp [h]

structure FitsObject.Restored (o : FitsObject) : Prop where
  header : ∀ header, o.header = some header → (0 : UInt8) ∈ header
  img_pixels : o.img_pixels = none ∨ o.img_pixels = some .mapped
  img_mask : o.img_mask = none ∨ o.img_mask = some .mapped

theorem new_restored (fits : FitsHeader) : (FitsObject.new fits).Restored where
  header header h := by cases h
  img_pixels := Or.inl rfl
  img_mask := Or.inl rfl

theorem start_restored (l : Life) : l.start.Restored := by
  unfold Life.start
  cases hsaved : l.saved with
  | none => exact new_restored l.fits
  | some s =>
    refine ⟨?_, ?_, ?_⟩
    · intro header h
      simp only [FitsObject.deserialise, FitsObject.new] at h
      cases hheader : s.header with
      | none =>
        rw [hheader] at h
        cases h
      | some text =>
        rw [hheader] at h
        cases h
        simp
    · simp only [FitsObject.deserialise, FitsObject.new]
      cases s.pixels <;> simp
    · simp only [FitsObject.deserialise, FitsObject.new]
      cases s.mask <;> simp

/-! ## What a life leaves -/

/-- The fields and the header the file loader ends with, when the header is complete. -/
inductive FitsObject.HeaderRead (o : FitsObject) (i : PathFile) : FitsHeader → Bytes → Prop
  /-- Nothing is read when NAXIS was restored. -/
  | restored {header : Bytes} (hnaxis : o.fits.naxis ≠ 0) (hheader : o.header = some header) :
      HeaderRead o i (headerEnd o.fits) header
  | ended {k : ℕ} (hnaxis : o.fits.naxis = 0) (hends : EndsWith o.fits i.file k) :
      HeaderRead o i (headerAt o.fits i.file k).fits (o.text ++ (headerAt o.fits i.file k).header ++ [0])

def FitsObject.HeaderCut (o : FitsObject) (i : PathFile) : Prop := o.fits.naxis = 0 ∧ ∀ k, ¬ EndsWith o.fits i.file k

def FitsObject.cut (o : FitsObject) (i : PathFile) : FitsObject :=
  { o with
    fits := fieldsAt o.fits i.file (i.file.length / FITS_CHUNK_LENGTH)
    header := some (readInto (o.header.getD []) o.hdr_len i.file) }

/-- `from_path` by the place it returns at. -/
theorem fromPath_cases {o o' : FitsObject} {i : PathFile} (h : o.fromPath i = some o') :
    (¬ o.Reads i ∧ o' = o) ∨ (o.Reads i ∧ o.HeaderCut i ∧ o' = o.cut i) ∨
      (o.Reads i ∧ ∃ fits header, o.HeaderRead i fits header ∧
        ∃ hdr_len, o' = FitsObject.readData { o with fits, header := some header, hdr_len } i) := by
  unfold FitsObject.fromPath at h
  by_cases hreads : o.Reads i
  · rw [if_pos hreads] at h
    by_cases hnaxis : o.fits.naxis = 0
    · rw [if_pos hnaxis] at h
      rcases headerLoop_ends o.fits o.text i.file with ⟨k, hk, hloop⟩ | ⟨hnone, hloop⟩
      · simp only [hloop, Option.some.injEq] at h
        exact Or.inr (Or.inr ⟨hreads, _, _, .ended hnaxis hk, _, h.symm⟩)
      · simp only [hloop, Option.some.injEq] at h
        exact Or.inr (Or.inl ⟨hreads, ⟨hnaxis, hnone⟩, h.symm⟩)
    · rw [if_neg hnaxis] at h
      cases hheader : o.header with
      | none =>
        rw [hheader] at h
        cases h
      | some header =>
        simp only [hheader, Option.some.injEq] at h
        exact Or.inr (Or.inr ⟨hreads, _, _, .restored hnaxis hheader, o.hdr_len, h.symm⟩)
  · rw [if_neg hreads] at h
    cases h
    exact Or.inl ⟨hreads, rfl⟩

theorem headerRead_unique {o : FitsObject} {i : PathFile} {fits fits' : FitsHeader} {header header' : Bytes}
    (h : o.HeaderRead i fits header) (h' : o.HeaderRead i fits' header') : fits = fits' ∧ header = header' := by
  cases h with
  | restored hnaxis hheader =>
    cases h' with
    | restored _ hheader' => exact ⟨rfl, Option.some.inj (hheader.symm.trans hheader')⟩
    | ended hnaxis' _ => exact absurd hnaxis' hnaxis
  | ended hnaxis hends =>
    cases h' with
    | restored hnaxis' _ => exact absurd hnaxis hnaxis'
    | ended _ hends' =>
      rw [endsWith_unique hends hends']
      exact ⟨rfl, rfl⟩

theorem headerRead_ends {o : FitsObject} {i : PathFile} (ho : o.Restored) {fits : FitsHeader} {header : Bytes}
    (h : o.HeaderRead i fits header) : (0 : UInt8) ∈ header := by
  cases h with
  | restored _ hheader => exact ho.header _ hheader
  | ended _ _ => simp

theorem headerRead_not_cut {o : FitsObject} {i : PathFile} {fits : FitsHeader} {header : Bytes}
    (h : o.HeaderRead i fits header) : ¬ o.HeaderCut i := by
  rintro ⟨hnaxis, hnone⟩
  cases h with
  | restored hnaxis' _ => exact hnaxis' hnaxis
  | ended _ hends => exact hnone _ hends

def PathFile.HeaderSafe (i : PathFile) (o : FitsObject) : Prop :=
  if o.Reads i then
    (∃ fits header, o.HeaderRead i fits header ∧ Encodable fits header) ∨ (o.HeaderCut i ∧ (o.cut i).HeaderReady)
  else o.HeaderReady

theorem fromPath_header {o o' : FitsObject} {i : PathFile} (ho : o.Restored) (h : o.fromPath i = some o') :
    o'.HeaderReady ↔ i.HeaderSafe o := by
  unfold PathFile.HeaderSafe
  rcases fromPath_cases h with ⟨hreads, rfl⟩ | ⟨hreads, hcut, rfl⟩ | ⟨hreads, fits, header, hread, hdr_len, rfl⟩
  · rw [if_neg hreads]
  · rw [if_pos hreads]
    constructor
    · intro hready
      exact Or.inr ⟨hcut, hready⟩
    · rintro (⟨fits, header, hread, -⟩ | ⟨-, hready⟩)
      · exact absurd hcut (headerRead_not_cut hread)
      · exact hready
  · rw [if_pos hreads]
    unfold FitsObject.HeaderReady
    simp only [(readData_header _ i).1, (readData_header _ i).2, Option.some.injEq]
    constructor
    · rintro ⟨header', rfl, -, htexts⟩
      exact Or.inl ⟨fits, header, hread, htexts⟩
    · rintro (⟨fits', header', hread', htexts⟩ | ⟨hcut, -⟩)
      · obtain ⟨rfl, rfl⟩ := headerRead_unique hread hread'
        exact ⟨header, rfl, headerRead_ends ho hread, htexts⟩
      · exact absurd hcut (headerRead_not_cut hread)

def Unwritten (width : ℕ) (file : Option ℕ) (opens : Bool) (size : ℕ) : Prop :=
  file = some (size * width % 2 ^ 64) ∨ opens = false ∨ size = 0

/-- Where `from_path` comes to the data, it has the planes or need not write them. -/
def PathFile.PlanesSafe (i : PathFile) (o : FitsObject) (c : CacheState) : Prop :=
  o.Reads i → ∀ fits header, o.HeaderRead i fits header → fits.Supported →
    (o.img_pixels = none → i.pixels = false → Unwritten 4 c.pixels c.pixelsOpens fits.planeSize) ∧
      (o.img_mask = none → i.mask = false → Unwritten 1 c.mask c.maskOpens fits.planeSize)

theorem planeSafe_restored {width : ℕ} {file : Option ℕ} {opens : Bool} {plane : Option PlanePtr}
    (h : plane = none ∨ plane = some .mapped) : PlaneSafe width file opens plane := by
  intro size hplane
  rcases h with rfl | rfl
  · cases hplane
  · cases hplane

theorem planeSafe_or {width : ℕ} {file : Option ℕ} {opens : Bool} {plane : Option PlanePtr} (size : ℕ) (there : Bool)
    (h : plane = none ∨ plane = some .mapped) :
    PlaneSafe width file opens (plane.or (some (.allocated size there))) ↔
      (plane = none → there = false → Unwritten width file opens size) := by
  unfold PlaneSafe Unwritten
  rcases h with rfl | rfl
  · cases there with
    | true => simp
    | false => simp
  · simp

theorem fromPath_planes {o o' : FitsObject} {i : PathFile} (ho : o.Restored) (h : o.fromPath i = some o') (c : CacheState) :
    (PlaneSafe 4 c.pixels c.pixelsOpens o'.img_pixels ∧ PlaneSafe 1 c.mask c.maskOpens o'.img_mask) ↔ i.PlanesSafe o c := by
  have hpixels : PlaneSafe 4 c.pixels c.pixelsOpens o.img_pixels := planeSafe_restored ho.img_pixels
  have hmask : PlaneSafe 1 c.mask c.maskOpens o.img_mask := planeSafe_restored ho.img_mask
  unfold PathFile.PlanesSafe
  rcases fromPath_cases h with ⟨hreads, rfl⟩ | ⟨hreads, hcut, rfl⟩ | ⟨hreads, fits, header, hread, hdr_len, rfl⟩
  · exact ⟨fun _ hr => absurd hr hreads, fun _ => ⟨hpixels, hmask⟩⟩
  · exact ⟨fun _ _ _ _ hread => absurd hcut (headerRead_not_cut hread), fun _ => ⟨hpixels, hmask⟩⟩
  · rw [(readData_planes _ i).1, (readData_planes _ i).2]
    by_cases hsupported : fits.Supported
    · rw [if_pos hsupported, if_pos hsupported, planeSafe_or _ _ ho.img_pixels, planeSafe_or _ _ ho.img_mask]
      constructor
      · intro hsafe _ fits' header' hread' _
        obtain ⟨rfl, rfl⟩ := headerRead_unique hread hread'
        exact hsafe
      · intro hsafe
        exact hsafe hreads fits header hread hsupported
    · rw [if_neg hsupported, if_neg hsupported]
      constructor
      · intro _ _ fits' header' hread' hsupported'
        obtain ⟨rfl, rfl⟩ := headerRead_unique hread hread'
        exact absurd hsupported' hsupported
      · intro _
        exact ⟨hpixels, hmask⟩

/-! ## Downloads -/

/-- `from_url` starts a transfer. -/
def FitsObject.Downloads (o : FitsObject) (i : UrlStream) : Prop := o.processed = false ∧ i.curl = true

instance (o : FitsObject) (i : UrlStream) : Decidable (o.Downloads i) := inferInstanceAs (Decidable (_ ∧ _))

/-- What is received leaves a header that can be serialised: there is a unit, and what is
    read of the header is UTF-8. -/
def UrlStream.HeaderSafe (i : UrlStream) (o : FitsObject) : Prop :=
  if o.Downloads i then
    FITS_CHUNK_LENGTH ≤ i.pieces.flatten.length ∧
      ∀ t, scanAll (Download.init o.fits) i.pieces = some t → Encodable t.data.fits (t.data.header ++ [0])
  else o.HeaderReady

theorem taken_pos_iff (cs : List Bytes) : 0 < taken FITS_CHUNK_LENGTH cs ↔ FITS_CHUNK_LENGTH ≤ cs.flatten.length := by
  induction cs using List.reverseRecOn with
  | nil =>
    rw [taken_nil]
    simp [FITS_CHUNK_LENGTH]
  | append_singleton cs c ih =>
    rw [taken_snoc, List.flatten_append, List.length_append, List.flatten_singleton]
    split
    · rename_i hnext
      refine ⟨fun _ => ?_, fun _ => Nat.succ_pos _⟩
      rw [Nat.mul_add, Nat.mul_one] at hnext
      omega
    · rename_i hnext
      constructor
      · intro hpos
        have hle := ih.mp hpos
        omega
      · intro hle
        by_contra hzero
        have htaken : taken FITS_CHUNK_LENGTH cs = 0 := by omega
        rw [htaken] at hnext
        omega

/-- A downloader has a header once it has a unit. -/
theorem scanned_header {fits : FitsHeader} {cs : List Bytes} {t : Download} (h : scanAll (Download.init fits) cs = some t) :
    t.data.header ≠ [] ↔ FITS_CHUNK_LENGTH ≤ cs.flatten.length := by
  obtain ⟨b, c, hcs, hscan, hlast⟩ :=
    scanned_of_scanAll cs (init_running fits cs.flatten).toScanned (List.prefix_refl _) h
  rw [List.nil_append] at hscan
  have hmono := taken_mono FITS_CHUNK_LENGTH b c
  rw [← hcs] at hmono
  have htaken : 0 < taken FITS_CHUNK_LENGTH b ↔ 0 < taken FITS_CHUNK_LENGTH cs := by
    rcases hlast with hend | rfl
    · rcases hscan.fields with ⟨he, -⟩ | ⟨-, k, hk, -⟩
      · exact absurd (he.symm.trans hend) Bool.false_ne_true
      · omega
    · rw [List.append_nil] at hcs
      rw [hcs]
  have hwithin := hscan.within
  have hlen : cs.flatten.length = b.flatten.length + c.flatten.length := by
    rw [hcs, List.flatten_append, List.length_append]
  rw [← taken_pos_iff, ← htaken, hscan.header, ← List.length_pos_iff, List.length_take]
  unfold FITS_CHUNK_LENGTH at *
  omega

/-- The planes are there, or are of no size. -/
theorem endHeader_eq {o o' : FitsObject} {i : UrlStream} (h : o.endHeader i = some o') :
    o'.fits = o.fits ∧ o'.header = o.header ∧
      ∃ size, o'.img_pixels = o.img_pixels.or (some (.allocated size i.pixels)) ∧
        o'.img_mask = o.img_mask.or (some (.allocated size i.mask)) ∧ (o'.hasPlanes = true ∨ size = 0) := by
  unfold FitsObject.endHeader at h
  dsimp only at h
  by_cases hnull : (o.makePlanes i.pixels i.mask).hasPlanes = false ∧ 0 < (o.makePlanes i.pixels i.mask).fits.planeSize
  · rw [if_pos hnull] at h
    cases h
  · rw [if_neg hnull, Option.some.injEq] at h
    have hplanes : (o.makePlanes i.pixels i.mask).hasPlanes = true ∨ o.fits.planeSize = 0 := by
      by_contra hcon
      rw [not_or] at hcon
      exact hnull ⟨by simpa using hcon.1, Nat.pos_of_ne_zero hcon.2⟩
    subst h
    split <;> exact ⟨rfl, rfl, _, rfl, rfl, hplanes⟩

/-- `from_url` by the place it returns at. -/
theorem fromUrl_cases {o o' : FitsObject} {i : UrlStream} (h : o.fromUrl i = some o') :
    (¬ o.Downloads i ∧ o' = o) ∨
      (o.Downloads i ∧ ∃ t, scanAll (Download.init o.fits) i.pieces = some t ∧
        (o' = o.receive t ∨ (o.receive t).endHeader i = some o')) := by
  unfold FitsObject.fromUrl at h
  by_cases hskip : o.processed = true ∨ i.curl = false
  · rw [if_pos hskip] at h
    refine Or.inl ⟨?_, (Option.some.inj h).symm⟩
    rintro ⟨hprocessed, hcurl⟩
    rcases hskip with hskip | hskip
    · exact Bool.false_ne_true (hprocessed.symm.trans hskip)
    · exact Bool.false_ne_true (hskip.symm.trans hcurl)
  · rw [if_neg hskip] at h
    rw [not_or] at hskip
    obtain ⟨t, hscan, hreceived⟩ := Option.bind_eq_some_iff.mp h
    refine Or.inr ⟨⟨by simpa using hskip.1, by simpa using hskip.2⟩, t, hscan, ?_⟩
    split at hreceived
    · exact Or.inr hreceived
    · exact Or.inl (Option.some.inj hreceived).symm

theorem receive_header {o : FitsObject} {i : UrlStream} {t : Download}
    (hscan : scanAll (Download.init o.fits) i.pieces = some t) :
    (o.receive t).HeaderReady ↔ FITS_CHUNK_LENGTH ≤ i.pieces.flatten.length ∧
      ∀ t, scanAll (Download.init o.fits) i.pieces = some t → Encodable t.data.fits (t.data.header ++ [0]) := by
  rw [← scanned_header hscan]
  unfold FitsObject.HeaderReady FitsObject.receive
  constructor
  · rintro ⟨header, hsome, -, htexts⟩
    by_cases hempty : t.data.header = []
    · simp [hempty] at hsome
    · simp only [if_neg hempty, Option.some.injEq] at hsome
      subst hsome
      refine ⟨hempty, fun t' hscan' => ?_⟩
      rw [hscan, Option.some.injEq] at hscan'
      rwa [← hscan']
  · rintro ⟨hne, htexts⟩
    exact ⟨t.data.header ++ [0], if_neg hne, by simp, htexts t hscan⟩

theorem fromUrl_header {o o' : FitsObject} {i : UrlStream} (h : o.fromUrl i = some o') :
    o'.HeaderReady ↔ i.HeaderSafe o := by
  unfold UrlStream.HeaderSafe
  rcases fromUrl_cases h with ⟨hdownloads, rfl⟩ | ⟨hdownloads, t, hscan, rfl | hend⟩
  · rw [if_neg hdownloads]
  · rw [if_pos hdownloads, receive_header hscan]
  · obtain ⟨hfits, hheader, -⟩ := endHeader_eq hend
    rw [if_pos hdownloads, ← receive_header hscan]
    unfold FitsObject.HeaderReady
    rw [hfits, hheader]

theorem fromUrl_planes {o o' : FitsObject} {i : UrlStream} (ho : o.Restored) (h : o.fromUrl i = some o') (c : CacheState) :
    PlaneSafe 4 c.pixels c.pixelsOpens o'.img_pixels ∧ PlaneSafe 1 c.mask c.maskOpens o'.img_mask := by
  have hpixels : PlaneSafe 4 c.pixels c.pixelsOpens o.img_pixels := planeSafe_restored ho.img_pixels
  have hmask : PlaneSafe 1 c.mask c.maskOpens o.img_mask := planeSafe_restored ho.img_mask
  rcases fromUrl_cases h with ⟨-, rfl⟩ | ⟨-, t, -, rfl | hend⟩
  · exact ⟨hpixels, hmask⟩
  · exact ⟨hpixels, hmask⟩
  · obtain ⟨-, -, size, hp, hm, hplanes⟩ := endHeader_eq hend
    have hp : o'.img_pixels = o.img_pixels.or (some (.allocated size i.pixels)) := hp
    have hm : o'.img_mask = o.img_mask.or (some (.allocated size i.mask)) := hm
    unfold FitsObject.hasPlanes at hplanes
    rw [hp, hm] at hplanes ⊢
    rw [planeSafe_or size i.pixels ho.img_pixels, planeSafe_or size i.mask ho.img_mask]
    rcases hplanes with hplanes | rfl
    · rw [Bool.and_eq_true] at hplanes
      constructor
      · intro hnone hthere
        simp [hnone, hthere, PlanePtr.isNull] at hplanes
      · intro hnone hthere
        simp [hnone, hthere, PlanePtr.isNull] at hplanes
    · exact ⟨fun _ _ => Or.inr (Or.inr rfl), fun _ _ => Or.inr (Or.inr rfl)⟩

/-! ## A life and its end -/

def Life.HeaderSafe (l : Life) : Prop :=
  match l.loading with
  | .never => False
  | .path i => i.HeaderSafe l.start
  | .url i => i.HeaderSafe l.start

def Life.PlanesSafe (l : Life) (c : CacheState) : Prop :=
  match l.loading with
  | .never => True
  | .path i => i.PlanesSafe l.start c
  | .url _ => True

theorem reached_header_iff {l : Life} {o : FitsObject} (h : l.reached = some o) : o.HeaderReady ↔ l.HeaderSafe := by
  unfold Life.reached at h
  unfold Life.HeaderSafe
  cases hloading : l.loading with
  | never =>
    rw [hloading] at h
    obtain rfl := Option.some.inj h
    simp [FitsObject.HeaderReady, FitsObject.new]
  | path i =>
    rw [hloading] at h
    exact fromPath_header (start_restored l) h
  | url i =>
    rw [hloading] at h
    exact fromUrl_header h

theorem reached_planes_iff {l : Life} {o : FitsObject} (h : l.reached = some o) (c : CacheState) :
    (PlaneSafe 4 c.pixels c.pixelsOpens o.img_pixels ∧ PlaneSafe 1 c.mask c.maskOpens o.img_mask) ↔ l.PlanesSafe c := by
  unfold Life.reached at h
  unfold Life.PlanesSafe
  cases hloading : l.loading with
  | never =>
    rw [hloading] at h
    obtain rfl := Option.some.inj h
    exact ⟨fun _ => trivial, fun _ => ⟨planeSafe_restored (Or.inl rfl), planeSafe_restored (Or.inl rfl)⟩⟩
  | path i =>
    rw [hloading] at h
    exact fromPath_planes (start_restored l) h c
  | url i =>
    rw [hloading] at h
    exact ⟨fun _ => trivial, fun _ => fromUrl_planes (start_restored l) h c⟩

theorem destroyed_iff {l : Life} {o : FitsObject} (h : l.reached = some o) (c : CacheState) :
    o.destroy c = .ok () ↔ l.PlanesSafe c ∧ (c.json = true ∨ c.jsonTmp = false ∨ l.HeaderSafe) := by
  rw [destroy_iff, ← reached_header_iff h, ← reached_planes_iff h c, and_assoc]

/-! ## Lives that end badly, and one that does not -/

def emptyCache : CacheState := ⟨false, true, none, true, none, true⟩

def noFile : PathFile := ⟨false, false, false, [], false, false, [], []⟩

/-- A header of one unit is all the file loader reads. -/
theorem endsWith_headerUnit {fits fits' : FitsHeader} {cards : List String} (h : ReadsCards fits fits' cards) (hnaxis : fits'.naxis ≠ 0)
    (rest : Bytes) :
    ∃ k, EndsWith fits (headerUnit cards ++ rest) k ∧
      headerAt fits (headerUnit cards ++ rest) k = ⟨headerEnd fits', headerUnit cards⟩ := by
  have hfile := fileHeader_headerUnit h hnaxis rest
  rcases fileHeader_eq fits (headerUnit cards ++ rest) with ⟨k, hk, hstop, hbefore, heq⟩ | ⟨-, heq⟩
  · exact ⟨k, ⟨hk, hstop, hbefore⟩, Option.some.inj (heq.symm.trans hfile)⟩
  · exact absurd (heq.symm.trans hfile) nofun

theorem headerUnit_ascii {cards : List String} (h : (cards.all fun card => (lit card).all (· ≤ 0x7F)) = true) :
    ∀ b ∈ headerUnit cards, b ≤ 0x7F := by
  simp only [List.all_eq_true, decide_eq_true_eq] at h
  intro b hb
  unfold headerUnit at hb
  rcases List.mem_append.mp hb with hb | hb
  · obtain ⟨card, hcard, hb⟩ := List.mem_flatMap.mp hb
    rcases List.mem_append.mp hb with hb | hb
    · exact h card hcard b hb
    · rw [List.eq_of_mem_replicate hb]
      decide
  · rw [List.eq_of_mem_replicate hb]
    decide

def pixelCards : List String := ["BITPIX  = -32", "NAXIS   = 2", "NAXIS1  = 1", "NAXIS2  = 1", "END"]

def pixelBytes : Bytes := [0x3F, 0x80, 0, 0] ++ List.replicate 2876 0

def pixelImage : PathFile := ⟨true, true, true, headerUnit pixelCards ++ pixelBytes, true, true, [], []⟩

/-- It is loaded, with memory for both planes. -/
theorem pixel_image_destroyed : ∃ o, (Life.mk {} none (.path pixelImage)).reached = some o ∧ o.img_pixels = some (.allocated 1 true) ∧
    o.destroy emptyCache = .ok () := by
  have hcards : ReadsCards {} { bitpix := -32, naxis := 2, width := 1, height := 1 } pixelCards := by decide +kernel
  have hfile := fileHeader_headerUnit hcards (by decide) pixelBytes
  obtain ⟨k, hends, hheader⟩ := endsWith_headerUnit hcards (by decide) pixelBytes
  have hloop : headerLoop (pixelImage.file.length / FITS_CHUNK_LENGTH) {} (FitsObject.new {}).text pixelImage.file =
      some ⟨headerEnd { bitpix := -32, naxis := 2, width := 1, height := 1 }, headerUnit pixelCards⟩ := by
    rw [show (FitsObject.new {}).text = [] from rfl, show pixelImage.file = headerUnit pixelCards ++ pixelBytes from rfl]
    exact hfile
  obtain ⟨o, hreached, hplane⟩ : ∃ o, (Life.mk {} none (.path pixelImage)).reached = some o ∧ o.img_pixels = some (.allocated 1 true) := by
    have hreads : (FitsObject.new {}).Reads pixelImage := ⟨rfl, rfl, rfl, rfl⟩
    show ∃ o, (FitsObject.new {}).fromPath pixelImage = some o ∧ _
    unfold FitsObject.fromPath
    rw [if_pos hreads, if_pos (show (FitsObject.new {}).fits.naxis = 0 from rfl)]
    rw [show (FitsObject.new {}).fits = {} from rfl, hloop]
    exact ⟨_, rfl, by rw [(readData_planes _ _).1]; rfl⟩
  refine ⟨o, hreached, hplane, (destroyed_iff hreached emptyCache).mpr ⟨?_, Or.inr (Or.inr ?_)⟩⟩
  · intro _ fits header _ _
    exact ⟨fun _ hpixels => Bool.noConfusion hpixels, fun _ hmask => Bool.noConfusion hmask⟩
  · show pixelImage.HeaderSafe (FitsObject.new {})
    unfold PathFile.HeaderSafe
    rw [if_pos ⟨rfl, rfl, rfl, rfl⟩]
    refine Or.inl ⟨_, _, .ended rfl hends, ?_⟩
    have hascii : ∀ b ∈ headerUnit pixelCards, b ≤ 0x7F := headerUnit_ascii (by decide +kernel)
    show Encodable (headerAt {} _ k).fits ([] ++ (headerAt {} _ k).header ++ [0])
    rw [show headerAt {} pixelImage.file k = _ from hheader]
    intro s hs
    rw [utf8_validate_eq]
    refine Lib.JsonText.utf8_of_ascii ?_
    rcases List.mem_append.mp hs with hs | hs
    · have hstrings :
          ((headerEnd { bitpix := -32, naxis := 2, width := 1, height := 1 }).strings.all fun s => s.all (· ≤ 0x7F)) = true := by
        decide +kernel
      simp only [List.all_eq_true, decide_eq_true_eq] at hstrings
      exact hstrings s hs
    · rw [List.mem_singleton.mp hs]
      intro b hb
      rcases List.mem_append.mp ((List.takeWhile_prefix _).mem hb) with hb | hb
      · exact hascii b hb
      · rw [List.mem_singleton.mp hb]
        decide

/-- An object never loaded, one whose file is not there, and one of a download in which
    nothing came. -/
theorem missing_file_destroyed :
    (FitsObject.new {}).destroy emptyCache = .error .nullHeader ∧
      (Life.mk {} none .never).reached = some (FitsObject.new {}) ∧
      (Life.mk {} none (.path noFile)).reached = some (FitsObject.new {}) ∧
      (Life.mk {} none (.url ⟨true, [], true, true, [], []⟩)).reached = some (FitsObject.new {}) :=
  ⟨rfl, rfl, rfl, rfl⟩

end FitsWebQL
