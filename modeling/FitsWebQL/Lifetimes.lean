/-
  FitsWebQL.Lifetimes — a data set over the runs of the server. An object is made, takes
  up what is kept of the data set (`deserialise`), loads what it has to (`from_path`,
  `from_url`), and is destroyed, or the server is stopped before it is. Both loaders leave
  at once when `deserialise` has set `processed_header` and `processed_data`.

  `deserialise` sets `processed_data` of an image whatever `has_data` is, and of a cube
  when every block file can be mapped. `serialise` keeps the first object that has a
  header, whether its load was finished or not, and no later one.

  Where every object that is kept was loaded in full, or is a cube with a group that cannot be
  mapped and stays so, a load is skipped only with `has_data` true and all planes there, and
  one that failed is not (`skipped_only_when_finished`).
  `a_broken_download_is_skipped`: an image whose download broke off is not loaded again.
-/

import FitsWebQL.Persist
import FitsWebQL.Lib.Runs

namespace FitsWebQL

open Lib.Binary Lib.Members Lib.Runs

/-! ## Loaders -/

/-- `processed_header && processed_data`. -/
def FITS.processed (o : FITS) : Bool := o.processed_header && o.processed_data

/-- How `from_path` ends, with what it made of the members other than `has_data`. -/
inductive PathLoad
  /-- The file is not opened, is too small, or is not mapped. -/
  | notOpened
  | headerCut (members : Members)
  /-- `bitpix` or the dimensions are not supported. -/
  | refused (members : Members)
  /-- A compressed image ends early. -/
  | streamCut (members : Members) (pixels mask : BlockBytes)
  | read (members : Members) (pixels mask : BlockBytes) (compressed : BlockLog) (bSuccess : Bool)

/-- How `from_url` ends; the planes are made when the header is complete. -/
inductive UrlLoad
  | noCurl
  | download (members : Members) (planes : Option (BlockBytes × BlockBytes)) (compressed : BlockLog) (bSuccess : Bool)

/-- `if (!img_pixels)`, `if (!img_mask)`. -/
def FITS.makePlanes (o : FITS) (pixels mask : BlockBytes) : FITS :=
  { o with img_pixels := o.img_pixels.or (some (.allocated pixels)), img_mask := o.img_mask.or (some (.allocated mask)) }

def FITS.setProcessed (o : FITS) : FITS := { o with processed_header := true, processed_data := true }

/-- The loaders' first exit: what `deserialise` has processed is not loaded. -/
def FITS.unlessProcessed (o loaded : FITS) : FITS := if o.processed then o else loaded

def FITS.fromPath (o : FITS) : PathLoad → FITS
  | .notOpened => o.setProcessed
  | .headerCut members | .refused members =>
    o.unlessProcessed { o with members := members.setHasData o.members.has_data }.setProcessed
  | .streamCut members pixels mask =>
    o.unlessProcessed ({ o with members := members.setHasData o.members.has_data }.makePlanes pixels mask).setProcessed
  | .read members pixels mask compressed bSuccess =>
    o.unlessProcessed ({ o with members := members.setHasData bSuccess, compressed }.makePlanes pixels mask).setProcessed

def FITS.fromUrl (o : FITS) : UrlLoad → FITS
  | .noCurl => o.unlessProcessed { o with processed_data := true }
  | .download members none compressed bSuccess =>
    o.unlessProcessed { o with members := members.setHasData bSuccess, compressed, processed_data := true }
  | .download members (some (pixels, mask)) compressed bSuccess =>
    o.unlessProcessed ({ o with members := members.setHasData bSuccess, compressed }.makePlanes pixels mask).setProcessed

/-! ## Runs -/

structure Server where
  files : CacheFiles
  object : Option FITS

inductive ServerEvent
  | path (flux : String) (load : PathLoad)
  | url (flux : String) (load : UrlLoad)
  | destroy
  /-- The server is stopped without destructors. -/
  | stop

section Runs

variable (logf : ℚ → Single) (dataset_id : String)

/-- An object as the loaders have it: made, and given what is kept. -/
def Server.start (s : Server) (flux : String) : FITS := (FITS.new logf dataset_id flux).deserialise s.files

def Server.step (s : Server) : ServerEvent → Option Server
  | .path flux load => if s.object.isNone then some { s with object := some ((s.start logf dataset_id flux).fromPath load) } else none
  | .url flux load => if s.object.isNone then some { s with object := some ((s.start logf dataset_id flux).fromUrl load) } else none
  | .destroy => s.object.map fun o => ⟨o.destroy s.files, none⟩
  | .stop => some ⟨s.files, none⟩

end Runs

def Server.empty : Server := ⟨.none, none⟩

/-- The planes of a restored object: the image's are mapped, and a cube's blocks cover
    every region of every frame. -/
structure FITS.PlanesComplete (o : FITS) : Prop where
  img_pixels : ∃ content, o.img_pixels = some (.mapped content) ∧ content.length = o.members.frame_size
  img_mask : ∃ content, o.img_mask = some (.mapped content) ∧ content.length = o.members.plane_size
  cube : 1 < o.members.depth → ∀ frame : ℕ, (frame : ℤ) < o.members.depth.toInt → ∀ idy idx : ℤ,
    regionInImage o.members.width.toInt o.members.height.toInt idy idx = true →
    (∃ blocks, o.cube.cube_pixels (frame / 4) = some blocks ∧ blocks idy idx ≠ none) ∧
    ∃ blocks, o.cube.cube_mask frame = some blocks ∧ blocks idy idx ≠ none

/-! ## Mapping all groups -/

section Groups

variable {files : BlockFiles}

theorem loadMasks_mask_or (file : Option BlockBytes → Option (CompressedBlocks BlockBytes)) (ks : List ℕ) (s : StoredBlocks)
    (i : ℕ) : (loadMasks file files ks s).1.cube_mask i = s.cube_mask i ∨
      (loadMasks file files ks s).1.cube_mask i = file (files.lz4 i) := by
  induction ks generalizing s with
  | nil => exact Or.inl rfl
  | cons k ks ih =>
    rw [loadMasks]
    cases hblocks : file (files.lz4 k) with
    | none => exact Or.inl rfl
    | some blocks =>
      dsimp only
      rcases ih { s with cube_mask := Function.update s.cube_mask k (some blocks) } with h | h
      · rw [h]
        rcases eq_or_ne i k with rfl | hik
        · right
          rw [hblocks]
          exact Function.update_self _ _ _
        · exact Or.inl (Function.update_of_ne hik _ _)
      · exact Or.inr h

def BlockFiles.Mapped (files : BlockFiles) (s : StoredBlocks) (k : ℕ) : Prop :=
  (mmapFile (files.zfp (k / 4)) ≠ none ∧ s.cube_pixels (k / 4) = mmapFile (files.zfp (k / 4))) ∧
  ∀ j < 4, mmapFile (files.lz4 (k + j)) ≠ none ∧ s.cube_mask (k + j) = mmapFile (files.lz4 (k + j))

theorem zfpMmapCube_keeps {s : StoredBlocks} {k : ℕ} (h : files.Mapped s k) (k' : ℕ) :
    files.Mapped (zfpMmapCube files k' s).1 k := by
  obtain ⟨⟨hne, hpixels⟩, hmasks⟩ := h
  unfold zfpMmapCube loadCube
  dsimp only
  cases hblocks : mmapFile (files.zfp (k' / 4)) with
  | none => exact ⟨⟨hne, hpixels⟩, hmasks⟩
  | some blocks =>
    dsimp only
    refine ⟨⟨hne, ?_⟩, fun j hj => ⟨(hmasks j hj).1, ?_⟩⟩
    · rw [loadMasks_pixels]
      dsimp only
      rcases eq_or_ne (k / 4) (k' / 4) with hk | hk
      · rw [hk, Function.update_self, hblocks]
      · rw [Function.update_of_ne hk]
        exact hpixels
    · rcases loadMasks_mask_or mmapFile (List.range' k' 4)
        { s with cube_pixels := Function.update s.cube_pixels (k' / 4) (some blocks) } (k + j) with h | h
      · exact h.trans (hmasks j hj).2
      · exact h

theorem zfpMmapCube_mapped {s : StoredBlocks} {k : ℕ} (h : (zfpMmapCube files k s).2 = true) :
    files.Mapped (zfpMmapCube files k s).1 k := by
  unfold zfpMmapCube loadCube at h ⊢
  dsimp only at h ⊢
  cases hblocks : mmapFile (files.zfp (k / 4)) with
  | none =>
    rw [hblocks] at h
    cases h
  | some blocks =>
    rw [hblocks] at h
    dsimp only at h ⊢
    rw [loadMasks_ok] at h
    have hmask : ∀ j < 4, mmapFile (files.lz4 (k + j)) ≠ none := by
      intro j hj
      apply h
      rw [List.mem_range'_1]
      omega
    refine ⟨⟨?_, ?_⟩, fun j hj => ⟨hmask j hj, ?_⟩⟩
    · rw [hblocks]
      exact Option.some_ne_none _
    · rw [loadMasks_pixels, hblocks]
      exact Function.update_self _ _ _
    · exact loadMasks_mask hj (fun i hi => hmask i (by omega)) _

/-- A group whose files can all be mapped is. -/
theorem zfpMmapCube_ok {s : StoredBlocks} {k : ℕ} (hzfp : mmapFile (files.zfp (k / 4)) ≠ none)
    (hlz4 : ∀ j < 4, mmapFile (files.lz4 (k + j)) ≠ none) : (zfpMmapCube files k s).2 = true := by
  unfold zfpMmapCube loadCube
  dsimp only
  cases hblocks : mmapFile (files.zfp (k / 4)) with
  | none => exact absurd hblocks hzfp
  | some blocks =>
    dsimp only
    rw [loadMasks_ok]
    intro i hi
    rw [List.mem_range'_1] at hi
    have hplace : k + (i - k) = i := by omega
    have h := hlz4 (i - k) (by omega)
    rw [hplace] at h
    exact h

theorem groups_ok (ks : List ℕ) (h : ∀ k ∈ ks, ∀ s, (zfpMmapCube files k s).2 = true) (r : StoredBlocks × Bool) (hr : r.2 = true) :
    (ks.foldl (fun r k => let group := zfpMmapCube files k r.1; (group.1, r.2 && group.2)) r).2 = true := by
  induction ks generalizing r with
  | nil => exact hr
  | cons k ks ih =>
    rw [List.foldl_cons]
    apply ih (fun k' hk' => h k' (List.mem_cons_of_mem _ hk'))
    simp [hr, h k List.mem_cons_self r.1]

/-- The loop over the groups. -/
theorem groups_mapped (ks : List ℕ) (r : StoredBlocks × Bool)
    (h : (ks.foldl (fun r k => let group := zfpMmapCube files k r.1; (group.1, r.2 && group.2)) r).2 = true) :
    r.2 = true ∧ (∀ k ∈ ks, files.Mapped
      (ks.foldl (fun r k => let group := zfpMmapCube files k r.1; (group.1, r.2 && group.2)) r).1 k) ∧
    ∀ k, files.Mapped r.1 k → files.Mapped
      (ks.foldl (fun r k => let group := zfpMmapCube files k r.1; (group.1, r.2 && group.2)) r).1 k := by
  induction ks generalizing r with
  | nil => exact ⟨h, fun k hk => absurd hk List.not_mem_nil, fun k hk => hk⟩
  | cons k ks ih =>
    rw [List.foldl_cons] at h ⊢
    obtain ⟨hgroup, hmem, hkeep⟩ := ih _ h
    dsimp only at hgroup hmem hkeep ⊢
    rw [Bool.and_eq_true] at hgroup
    refine ⟨hgroup.1, fun k' hk' => ?_, fun k' hk' => hkeep k' (zfpMmapCube_keeps hk' k)⟩
    rcases List.mem_cons.mp hk' with rfl | hk'
    · exact hkeep k' (zfpMmapCube_mapped hgroup.2)
    · exact hmem k' hk'

end Groups

theorem mmapGroups_mapped {files : BlockFiles} {depth : ℕ} (h : (mmapGroups files depth).2 = true) {frame : ℕ} (hf : frame < depth) :
    (mmapFile (files.zfp (frame / 4)) ≠ none ∧ (mmapGroups files depth).1.cube_pixels (frame / 4) = mmapFile (files.zfp (frame / 4))) ∧
    mmapFile (files.lz4 frame) ≠ none ∧ (mmapGroups files depth).1.cube_mask frame = mmapFile (files.lz4 frame) := by
  have hmem : 4 * (frame / 4) ∈ (List.range depth).filter (4 ∣ ·) := by
    simp only [List.mem_filter, List.mem_range, decide_eq_true_eq]
    exact ⟨by omega, Nat.dvd_mul_right 4 _⟩
  obtain ⟨hpixels, hmasks⟩ := (groups_mapped _ _ h).2.1 _ hmem
  have hgroup : 4 * (frame / 4) / 4 = frame / 4 := by omega
  have hframe : 4 * (frame / 4) + frame % 4 = frame := by omega
  have hmask := hmasks (frame % 4) (Nat.mod_lt _ (by decide))
  rw [hgroup] at hpixels
  rw [hframe] at hmask
  exact ⟨hpixels, hmask⟩

/-! ## Blocks -/

def hasBlock (bs : List RegionBlock) (idy idx : ℤ) : Prop := ∃ b ∈ bs, (b.idy.toInt, b.idx.toInt) = (idy, idx)

/-- A block for every region of every group, and of every mask of one. -/
def BlockLog.Whole (log : BlockLog) (s : Members) : Prop :=
  ∀ frame : ℕ, (4 * (frame / 4 : ℕ) : ℤ) < s.depth.toInt → ∀ idy idx : ℤ, regionInImage s.width.toInt s.height.toInt idy idx = true →
    hasBlock (log.zfp (frame / 4)) idy idx ∧ hasBlock (log.lz4 frame) idy idx

def BlockFiles.Log (files : BlockFiles) (log : BlockLog) : Prop :=
  ∀ k, files.zfp k = blockFile (log.zfp k) ∧ files.lz4 k = blockFile (log.lz4 k)

def BlockLog.append (log log' : BlockLog) : BlockLog := ⟨fun k => log.zfp k ++ log'.zfp k, fun k => log.lz4 k ++ log'.lz4 k⟩

theorem log_letGo {files : BlockFiles} {log : BlockLog} (h : files.Log log) (log' : BlockLog) :
    (files.letGo log').Log (log.append log') := by
  intro k
  obtain ⟨hzfp, hlz4⟩ := h k
  unfold BlockFiles.letGo BlockLog.append blockFile at *
  dsimp only
  rw [List.foldl_append, List.foldl_append, hzfp, hlz4]
  exact ⟨rfl, rfl⟩

theorem hasBlock_append {bs bs' : List RegionBlock} {idy idx : ℤ} (h : hasBlock bs idy idx ∨ hasBlock bs' idy idx) :
    hasBlock (bs ++ bs') idy idx := by
  rcases h with ⟨b, hb, hkey⟩ | ⟨b, hb, hkey⟩
  · exact ⟨b, List.mem_append_left _ hb, hkey⟩
  · exact ⟨b, List.mem_append_right _ hb, hkey⟩

theorem whole_append {log log' : BlockLog} {s : Members} (h : log.Whole s ∨ log'.Whole s) : (log.append log').Whole s := by
  intro frame hframe idy idx hregion
  rcases h with h | h
  · obtain ⟨hzfp, hlz4⟩ := h frame hframe idy idx hregion
    exact ⟨hasBlock_append (Or.inl hzfp), hasBlock_append (Or.inl hlz4)⟩
  · obtain ⟨hzfp, hlz4⟩ := h frame hframe idy idx hregion
    exact ⟨hasBlock_append (Or.inr hzfp), hasBlock_append (Or.inr hlz4)⟩

theorem lastWritten_ne_none {bs : List RegionBlock} {idy idx : ℤ} (h : hasBlock bs idy idx) : lastWritten bs idy idx ≠ none := by
  obtain ⟨b, hb, hkey⟩ := h
  unfold lastWritten
  simp only [ne_eq, Option.map_eq_none_iff, List.find?_eq_none, List.mem_reverse, decide_eq_true_eq, not_forall, not_not]
  exact ⟨b, hb, hkey⟩

theorem mmapFile_hasBlock {bs : List RegionBlock} {idy idx : ℤ} (h : hasBlock bs idy idx) :
    ∃ blocks, mmapFile (blockFile bs) = some blocks ∧ blocks idy idx ≠ none := by
  have hne : bs ≠ [] := by
    rintro rfl
    obtain ⟨b, hb, -⟩ := h
    exact absurd hb List.not_mem_nil
  exact ⟨_, mmapFile_blockFile hne, lastWritten_ne_none h⟩

/-- What the mapping of whole logs shows. -/
theorem mmapGroups_whole {files : BlockFiles} {log : BlockLog} (hlog : files.Log log) {s : Members} (hwhole : log.Whole s)
    (h : (mmapGroups files s.depth.toInt.toNat).2 = true) (frame : ℕ) (hframe : (frame : ℤ) < s.depth.toInt) (idy idx : ℤ)
    (hregion : regionInImage s.width.toInt s.height.toInt idy idx = true) :
    (∃ blocks, (mmapGroups files s.depth.toInt.toNat).1.cube_pixels (frame / 4) = some blocks ∧ blocks idy idx ≠ none) ∧
    ∃ blocks, (mmapGroups files s.depth.toInt.toNat).1.cube_mask frame = some blocks ∧ blocks idy idx ≠ none := by
  obtain ⟨hzfp, hlz4⟩ := hwhole frame (by omega) idy idx hregion
  obtain ⟨⟨-, hpixels⟩, -, hmask⟩ := @mmapGroups_mapped _ _ h frame (by omega)
  rw [hpixels, hmask, (hlog (frame / 4)).1, (hlog frame).2]
  exact ⟨mmapFile_hasBlock hzfp, mmapFile_hasBlock hlz4⟩

/-- Whole logs can be mapped. -/
theorem mmapGroups_ok {files : BlockFiles} {log : BlockLog} (hlog : files.Log log) {s : Members} (hwhole : log.Whole s)
    (hwidth : 0 < s.width.toInt) (hheight : 0 < s.height.toInt) : (mmapGroups files s.depth.toInt.toNat).2 = true := by
  have hregion : regionInImage s.width.toInt s.height.toInt 0 0 = true := by
    rw [regionInImage_iff]
    omega
  unfold mmapGroups
  apply groups_ok
  · intro k hk stored
    simp only [List.mem_filter, List.mem_range, decide_eq_true_eq] at hk
    obtain ⟨hlt, hdvd⟩ := hk
    apply zfpMmapCube_ok
    · obtain ⟨blocks, hblocks, -⟩ := mmapFile_hasBlock (hwhole k (by omega) 0 0 hregion).1
      rw [(hlog (k / 4)).1, hblocks]
      exact Option.some_ne_none _
    · intro j hj
      obtain ⟨blocks, hblocks, -⟩ := mmapFile_hasBlock (hwhole (k + j) (by omega) 0 0 hregion).2
      rw [(hlog (k + j)).2, hblocks]
      exact Option.some_ne_none _
  · rfl

/-! ## The object that is kept -/

/-- An object whose load was finished: the data is there, in a `BITPIX` and dimensions that
    are supported, with both planes and a cube's blocks in full. -/
structure FITS.Finished (o : FITS) : Prop where
  loaded : o.Loaded
  width_pos : 0 < o.members.width.toInt
  height_pos : 0 < o.members.height.toInt
  width : IsDouble o.members.width
  height : IsDouble o.members.height
  depth : IsDouble o.members.depth
  whole : 1 < o.members.depth → o.compressed.Whole o.members

def BlockFiles.LacksGroup (files : BlockFiles) (k : ℕ) : Prop :=
  mmapFile (files.zfp (k / 4)) = none ∨ ∃ j < 4, mmapFile (files.lz4 (k + j)) = none

def Members.Lacks (s : Members) (files : BlockFiles) : Prop :=
  IsDouble s.depth ∧ 1 < s.depth ∧ ∃ k < s.depth.toInt.toNat, 4 ∣ k ∧ files.LacksGroup k

structure FITS.Completes (o : FITS) (r : Members) : Prop where
  finished : o.Finished
  has_data : r.has_data = true
  bitpix : r.bitpix = -32
  width : r.width = o.members.width
  height : r.height = o.members.height
  depth : r.depth = o.members.depth

/-- The files keep the members `r` of a finished load, and its planes. -/
structure CacheFiles.Keep (files : CacheFiles) (r : Members) (log : BlockLog) : Prop where
  json : files.json = some (memberCoding.save serialiseMembers r)
  has_data : r.has_data = true
  bitpix : r.bitpix = -32
  plane_pos : 0 < r.plane_size
  memory : 4 * r.plane_size < 2 ^ 64
  width_pos : 0 < r.width.toInt
  height_pos : 0 < r.height.toInt
  width : IsDouble r.width
  height : IsDouble r.height
  depth : IsDouble r.depth
  pixels : ∃ content, files.pixels = some content ∧ content.length = 4 * r.plane_size
  mask : ∃ content, files.mask = some content ∧ content.length = r.plane_size
  whole : 1 < r.depth → log.Whole r

theorem rewritten_long {s d : Members} (hwidth : IsDouble s.width) (hheight : IsDouble s.height) (hdepth : IsDouble s.depth) :
    (s.rewritten d).width = s.width ∧ (s.rewritten d).height = s.height ∧ (s.rewritten d).depth = s.depth :=
  ⟨(rewritten_apply s d .width).trans (takeMember_long hwidth _), (rewritten_apply s d .height).trans (takeMember_long hheight _),
    (rewritten_apply s d .depth).trans (takeMember_long hdepth _)⟩

theorem rewritten_has_data (s d : Members) : (s.rewritten d).has_data = s.has_data := rewritten_apply s d .has_data

theorem plane_size_congr {s s' : Members} (hwidth : s'.width = s.width) (hheight : s'.height = s.height) :
    s'.plane_size = s.plane_size := by
  unfold Members.plane_size
  rw [hwidth, hheight]

/-! ## Starting from what is kept -/

theorem mapImage_of_size {content : BlockBytes} {size : ℕ} (h : content.length = size) (hpos : 0 < size)
    (buffer : Option ImageBuffer) : mapImage (some content) size buffer = some (.mapped content) := by
  simp [mapImage, h, hpos.ne']

@[simp] theorem mapCube_img_pixels (o : FITS) (files : CacheFiles) : (o.mapCube files).img_pixels = o.img_pixels := by
  unfold FITS.mapCube
  split
  · rfl
  · rfl

@[simp] theorem mapCube_img_mask (o : FITS) (files : CacheFiles) : (o.mapCube files).img_mask = o.img_mask := by
  unfold FITS.mapCube
  split
  · rfl
  · rfl

theorem mapCube_complete {o : FITS} {files : CacheFiles} (hdepth : 1 < o.members.depth) (hnew : o.processed_data = false)
    (h : (o.mapCube files).processed_data = true) :
    (mmapGroups files.blocks o.members.depth.toInt.toNat).2 = true ∧
      (o.mapCube files).cube = (mmapGroups files.blocks o.members.depth.toInt.toNat).1 := by
  unfold FITS.mapCube at h ⊢
  rw [if_pos hdepth] at h ⊢
  simp only [hnew, Bool.false_or] at h
  exact ⟨h, rfl⟩

@[simp] theorem setHasData_has_data (s : Members) (b : Bool) : (s.setHasData b).has_data = b := Function.update_self _ _ _

theorem mapImages_depth (o : FITS) (files : CacheFiles) : (o.mapImages files).members.depth = o.members.depth := by
  unfold FITS.mapImages
  dsimp only
  split
  · rfl
  · exact Function.update_of_ne (by decide) _ _

/-- Whatever became of the load of an image, once it is kept the image is not loaded again. -/
theorem image_processed {files : CacheFiles} {r : Members} (hjson : files.json = some (memberCoding.save serialiseMembers r))
    (hdepth : IsDouble r.depth) (himage : r.depth ≤ 1) (o : FITS) : (o.deserialise files).processed = true := by
  have hback : (r.rewritten o.members).depth = r.depth := (rewritten_apply r o.members .depth).trans (takeMember_long hdepth _)
  have hnot : ¬ 1 < (({ o with members := r.rewritten o.members } : FITS).mapImages files).members.depth := by
    rw [mapImages_depth, hback]
    exact Int64.not_lt.mpr himage
  rw [deserialise_save hjson]
  unfold FITS.mapCube
  rw [if_neg hnot]
  rfl

section Start

variable {files : CacheFiles} {r : Members} {log : BlockLog}

/-- The members and planes of an object that starts from a finished load. -/
theorem deserialise_keep (h : files.Keep r log) (logf : ℚ → Single) (dataset_id flux : String) :
    ((FITS.new logf dataset_id flux).deserialise files).members = r.rewritten (FITS.new logf dataset_id flux).members ∧
    (∃ content, ((FITS.new logf dataset_id flux).deserialise files).img_pixels = some (.mapped content) ∧
      content.length = (r.rewritten (FITS.new logf dataset_id flux).members).frame_size) ∧
    ∃ content, ((FITS.new logf dataset_id flux).deserialise files).img_mask = some (.mapped content) ∧
      content.length = (r.rewritten (FITS.new logf dataset_id flux).members).plane_size := by
  obtain ⟨hwidth, hheight, -⟩ := rewritten_long (d := (FITS.new logf dataset_id flux).members) h.width h.height h.depth
  have hplane := plane_size_congr hwidth hheight
  have hframe : (r.rewritten (FITS.new logf dataset_id flux).members).frame_size = 4 * r.plane_size := by
    rw [← hplane]
    apply frame_size_of_bitpix
    · rw [rewritten_bitpix]
      exact h.bitpix
    · rw [hplane]
      exact h.memory
  obtain ⟨pixels, hpixels, hplen⟩ := h.pixels
  obtain ⟨mask, hmask, hmlen⟩ := h.mask
  have hpos := h.plane_pos
  have hmapped : mapImage files.pixels (r.rewritten (FITS.new logf dataset_id flux).members).frame_size none =
      some (.mapped pixels) := by
    rw [hpixels]
    exact mapImage_of_size (hplen.trans hframe.symm) (by omega) none
  have hmapped' : mapImage files.mask (r.rewritten (FITS.new logf dataset_id flux).members).plane_size none =
      some (.mapped mask) := by
    rw [hmask]
    exact mapImage_of_size (hmlen.trans hplane.symm) (by omega) none
  rw [deserialise_save h.json, mapCube_members, mapCube_img_pixels, mapCube_img_mask]
  refine ⟨?_, ⟨pixels, hmapped, hplen.trans hframe.symm⟩, mask, hmapped', hmlen.trans hplane.symm⟩
  apply mapImages_members
  · exact (congrArg imageReady hmapped).trans rfl
  · exact (congrArg imageReady hmapped').trans rfl

/-- It leaves a loader at once only when all planes are there. -/
theorem processed_complete (h : files.Keep r log) (hlog : files.blocks.Log log) (logf : ℚ → Single) (dataset_id flux : String)
    (hproc : ((FITS.new logf dataset_id flux).deserialise files).processed_data = true) :
    ((FITS.new logf dataset_id flux).deserialise files).PlanesComplete := by
  obtain ⟨hmembers, hpixels, hmask⟩ := deserialise_keep h logf dataset_id flux
  obtain ⟨hwidth, hheight, hdepth⟩ := rewritten_long (d := (FITS.new logf dataset_id flux).members) h.width h.height h.depth
  refine ⟨?_, ?_, ?_⟩
  · rw [hmembers]
    exact hpixels
  · rw [hmembers]
    exact hmask
  · rw [hmembers, hwidth, hheight, hdepth]
    intro hcube
    rw [deserialise_save h.json] at hproc hmembers ⊢
    rw [mapCube_members] at hmembers
    obtain ⟨hgroups, hstored⟩ := mapCube_complete (by rw [hmembers, hdepth]; exact hcube) rfl hproc
    rw [hmembers, hdepth] at hgroups hstored
    rw [hstored]
    exact fun frame hframe idy idx hregion => mmapGroups_whole hlog (h.whole hcube) hgroups frame hframe idy idx hregion

/-- And it does leave. -/
theorem keep_processed (h : files.Keep r log) (hlog : files.blocks.Log log) (logf : ℚ → Single) (dataset_id flux : String) :
    ((FITS.new logf dataset_id flux).deserialise files).processed = true := by
  by_cases himage : r.depth ≤ 1
  · exact image_processed h.json h.depth himage _
  · obtain ⟨hwidth, hheight, hdepth⟩ := rewritten_long (d := (FITS.new logf dataset_id flux).members) h.width h.height h.depth
    have hcube : 1 < r.depth := Int64.not_le.mp himage
    have hmembers := (deserialise_keep h logf dataset_id flux).1
    rw [deserialise_save h.json] at hmembers ⊢
    rw [mapCube_members] at hmembers
    have hgroups := mmapGroups_ok hlog (h.whole hcube) h.width_pos h.height_pos
    unfold FITS.mapCube
    rw [hmembers, hdepth, if_pos hcube]
    dsimp only
    rw [hgroups]
    rfl

/-- A cube with a group that cannot be mapped is loaded again. -/
theorem lacks_not_processed (hjson : files.json = some (memberCoding.save serialiseMembers r)) (h : r.Lacks files.blocks)
    (logf : ℚ → Single) (dataset_id flux : String) : ((FITS.new logf dataset_id flux).deserialise files).processed = false := by
  obtain ⟨hdouble, hcube, k, hk, hdvd, hlacks⟩ := h
  have hback : (r.rewritten (FITS.new logf dataset_id flux).members).depth = r.depth :=
    (rewritten_apply r _ .depth).trans (takeMember_long hdouble _)
  by_contra hproc
  rw [Bool.not_eq_false] at hproc
  have hdata := (Bool.and_eq_true_iff.mp hproc).2
  rw [deserialise_save hjson] at hdata
  generalize hnew : ({ FITS.new logf dataset_id flux with
    members := r.rewritten (FITS.new logf dataset_id flux).members } : FITS) = new at hdata
  have hfresh : (new.mapImages files).processed_data = false := by
    rw [← hnew]
    rfl
  have hdepth : (new.mapImages files).members.depth = r.depth := by
    rw [mapImages_depth, ← hnew, hback]
  have hgroups := (mapCube_complete (by rw [hdepth]; exact hcube) hfresh hdata).1
  rw [hdepth] at hgroups
  have hmem : k ∈ (List.range r.depth.toInt.toNat).filter (4 ∣ ·) := by
    simp only [List.mem_filter, List.mem_range, decide_eq_true_eq]
    exact ⟨hk, hdvd⟩
  obtain ⟨hpixels, hmasks⟩ := (groups_mapped _ _ hgroups).2.1 k hmem
  rcases hlacks with hzfp | ⟨j, hj, hlz4⟩
  · exact hpixels.1 hzfp
  · exact (hmasks j hj).1 hlz4

end Start

/-! ## Every run -/

section Invariant

variable {logf : ℚ → Single} {dataset_id : String}

/-- When the destructor writes the members, the object's load was finished, or it is a cube
    with a group that cannot be mapped; and it stays so, until a load is finished. -/
def Server.Safe (s : Server) : ServerEvent → Prop
  | .destroy => ∀ o, s.object = some o →
      (s.files.json = none → o.members.header ≠ none →
        o.Finished ∨ o.members.Lacks (s.files.blocks.letGo o.compressed)) ∧
      ∀ r : Members, s.files.json = some (memberCoding.save serialiseMembers r) → r.Lacks s.files.blocks →
        r.Lacks (s.files.blocks.letGo o.compressed) ∨ o.Completes r
  | _ => True

def FITS.PlanesMapped (o : FITS) : Prop :=
  (∃ content, o.img_pixels = some (.mapped content)) ∧ ∃ content, o.img_mask = some (.mapped content)

/-- What is kept is a finished load, and an object that started from it has its data; or it
    is a cube with a group that cannot be mapped. -/
def Server.Inv (s : Server) : Prop :=
  ∃ log, s.files.blocks.Log log ∧ (s.files.json ≠ none →
    (∃ r, s.files.Keep r log) ∧ (∀ o, s.object = some o → o.PlanesMapped ∧ o.members.has_data = true) ∨
    ∃ r : Members, s.files.json = some (memberCoding.save serialiseMembers r) ∧ r.Lacks s.files.blocks)

theorem empty_inv : Server.empty.Inv :=
  ⟨⟨fun _ => [], fun _ => []⟩, fun _ => ⟨rfl, rfl⟩, fun h => absurd rfl h⟩

theorem setProcessed_of_processed {o : FITS} (h : o.processed = true) : o.setProcessed = o := by
  cases o
  simp only [FITS.processed, Bool.and_eq_true] at h
  simp [FITS.setProcessed, h.1, h.2]

theorem unlessProcessed_of_processed {o : FITS} (h : o.processed = true) (loaded : FITS) : o.unlessProcessed loaded = o := if_pos h

theorem fromPath_of_processed {o : FITS} (h : o.processed = true) (load : PathLoad) : o.fromPath load = o := by
  cases load with
  | notOpened => exact setProcessed_of_processed h
  | headerCut _ | refused _ | streamCut _ _ _ | read _ _ _ _ _ => exact unlessProcessed_of_processed h _

theorem fromUrl_of_processed {o : FITS} (h : o.processed = true) (load : UrlLoad) : o.fromUrl load = o := by
  cases load with
  | noCurl => exact unlessProcessed_of_processed h _
  | download _ planes _ _ =>
    cases planes with
    | none => exact unlessProcessed_of_processed h _
    | some _ => exact unlessProcessed_of_processed h _

/-- An object that starts from a finished load is not loaded, and has its data. -/
theorem start_keep {s : Server} {log : BlockLog} {r : Members} (hlog : s.files.blocks.Log log) (hr : s.files.Keep r log)
    (flux : String) : (s.start logf dataset_id flux).processed = true ∧ (s.start logf dataset_id flux).PlanesMapped ∧
      (s.start logf dataset_id flux).members.has_data = true := by
  obtain ⟨hmembers, ⟨pixels, hpixels, -⟩, mask, hmask, -⟩ := deserialise_keep hr logf dataset_id flux
  refine ⟨keep_processed hr hlog logf dataset_id flux, ⟨⟨pixels, hpixels⟩, mask, hmask⟩, ?_⟩
  unfold Server.start
  rw [hmembers, rewritten_has_data]
  exact hr.has_data

theorem start_of_none {s : Server} (hjson : s.files.json = none) (flux : String) :
    (s.start logf dataset_id flux).processed = false := by
  unfold Server.start FITS.deserialise
  rw [hjson]
  rfl

/-- A finished load is kept by the first destructor that gets to it. -/
theorem destroy_finished {o : FITS} {files : CacheFiles} (ho : o.Finished) (hjson : files.json = none) (log : BlockLog) :
    (o.destroy files).Keep o.members (log.append o.compressed) := by
  obtain ⟨pixels, hpixels, hplen⟩ := ho.loaded.img_pixels
  obtain ⟨mask, hmask, hmlen⟩ := ho.loaded.img_mask
  obtain ⟨pixels', hpixels', hplen'⟩ := @saveImage_length pixels files.pixels
  obtain ⟨mask', hmask', hmlen'⟩ := @saveImage_length mask files.mask
  refine ⟨destroy_json ho.loaded.header hjson, ho.loaded.has_data, ho.loaded.bitpix, ho.loaded.plane_pos, ho.loaded.memory,
    ho.width_pos, ho.height_pos, ho.width, ho.height, ho.depth, ⟨pixels', ?_, hplen'.trans hplen⟩, ⟨mask', ?_, hmlen'.trans hmlen⟩,
    fun hdepth => whole_append (Or.inr (ho.whole hdepth))⟩
  · show saveImage files.pixels o.img_pixels = _
    rw [hpixels, hpixels']
  · show saveImage files.mask o.img_mask = _
    rw [hmask, hmask']

theorem whole_congr {log : BlockLog} {s s' : Members} (hwidth : s'.width = s.width) (hheight : s'.height = s.height)
    (hdepth : s'.depth = s.depth) (h : log.Whole s) : log.Whole s' := by
  unfold BlockLog.Whole
  rw [hwidth, hheight, hdepth]
  exact h

/-- A finished load completes what was kept of it without its blocks. -/
theorem destroy_completes {o : FITS} {files : CacheFiles} {r : Members} (ho : o.Completes r)
    (hjson : files.json = some (memberCoding.save serialiseMembers r)) (log : BlockLog) :
    (o.destroy files).Keep r (log.append o.compressed) := by
  have hfirst := @destroy_finished o { files with json := none } ho.finished rfl log
  have hsize := plane_size_congr ho.width ho.height
  refine ⟨?_, ho.has_data, ho.bitpix, ?_, ?_, ?_, ?_, ?_, ?_, ?_, ?_, ?_, ?_⟩
  · show o.serialise files.json = _
    unfold FITS.serialise
    rw [hjson]
  · rw [hsize]
    exact hfirst.plane_pos
  · rw [hsize]
    exact hfirst.memory
  · rw [ho.width]
    exact hfirst.width_pos
  · rw [ho.height]
    exact hfirst.height_pos
  · rw [ho.width]
    exact hfirst.width
  · rw [ho.height]
    exact hfirst.height
  · rw [ho.depth]
    exact hfirst.depth
  · rw [hsize]
    exact hfirst.pixels
  · rw [hsize]
    exact hfirst.mask
  · intro hdepth
    rw [ho.depth] at hdepth
    exact whole_congr ho.width ho.height ho.depth (hfirst.whole hdepth)

/-- What is kept stays: the members are there, the planes are mapped, and more blocks do no harm. -/
theorem destroy_keep {o : FITS} {files : CacheFiles} {r : Members} {log : BlockLog} (h : files.Keep r log) (ho : o.PlanesMapped) :
    (o.destroy files).Keep r (log.append o.compressed) := by
  obtain ⟨⟨pixels, hpixels⟩, mask, hmask⟩ := ho
  refine ⟨?_, h.has_data, h.bitpix, h.plane_pos, h.memory, h.width_pos, h.height_pos, h.width, h.height,
    h.depth, ?_, ?_,
    fun hdepth => whole_append (Or.inl (h.whole hdepth))⟩
  · show o.serialise files.json = _
    unfold FITS.serialise
    rw [h.json]
  · show ∃ content, saveImage files.pixels o.img_pixels = _ ∧ _
    rw [hpixels]
    exact h.pixels
  · show ∃ content, saveImage files.mask o.img_mask = _ ∧ _
    rw [hmask]
    exact h.mask

/-- What an event does. -/
theorem step_cases {s s' : Server} {e : ServerEvent} (h : s.step logf dataset_id e = some s') :
    (∃ flux o, ((∃ load, o = (s.start logf dataset_id flux).fromPath load) ∨ ∃ load, o = (s.start logf dataset_id flux).fromUrl load) ∧
      s' = { s with object := some o }) ∨
    (e = .destroy ∧ ∃ o, s.object = some o ∧ s' = ⟨o.destroy s.files, none⟩) ∨
    (e = .stop ∧ s' = ⟨s.files, none⟩) := by
  cases e with
  | path flux load =>
    obtain ⟨-, hs⟩ := Option.ite_none_right_eq_some.mp h
    exact Or.inl ⟨flux, _, Or.inl ⟨load, rfl⟩, (Option.some.inj hs).symm⟩
  | url flux load =>
    obtain ⟨-, hs⟩ := Option.ite_none_right_eq_some.mp h
    exact Or.inl ⟨flux, _, Or.inr ⟨load, rfl⟩, (Option.some.inj hs).symm⟩
  | destroy =>
    obtain ⟨o, ho, rfl⟩ := Option.map_eq_some_iff.mp h
    exact Or.inr (Or.inl ⟨rfl, o, ho, rfl⟩)
  | stop => exact Or.inr (Or.inr ⟨rfl, (Option.some.inj h).symm⟩)

theorem serialise_of_noHeader {o : FITS} (h : o.members.header = none) : o.serialise none = none := by
  unfold FITS.serialise
  rw [h]

/-- What a destructor leaves. -/
theorem destroy_inv {s : Server} {o : FITS} (hi : s.Inv) (ho : s.object = some o) (hsafe : s.Safe .destroy) :
    (⟨o.destroy s.files, none⟩ : Server).Inv := by
  obtain ⟨log, hlog, hkeep⟩ := hi
  obtain ⟨hwrites, hstays⟩ := hsafe o ho
  refine ⟨log.append o.compressed, log_letGo hlog o.compressed, fun hjson => ?_⟩
  by_cases hnone : s.files.json = none
  · -- the first object that has a header
    have hheader : o.members.header ≠ none := by
      intro hheader
      apply hjson
      show o.serialise s.files.json = none
      rw [hnone, serialise_of_noHeader hheader]
    rcases hwrites hnone hheader with hfinished | hlacks
    · exact Or.inl ⟨⟨o.members, destroy_finished hfinished hnone log⟩, fun _ h => by cases h⟩
    · exact Or.inr ⟨o.members, destroy_json hheader hnone, hlacks⟩
  · rcases hkeep hnone with ⟨⟨r, hr⟩, hobject⟩ | ⟨r, hr, hlacks⟩
    · exact Or.inl ⟨⟨r, destroy_keep hr (hobject o ho).1⟩, fun _ h => by cases h⟩
    · rcases hstays r hr hlacks with hlacks | hcompletes
      · refine Or.inr ⟨r, ?_, hlacks⟩
        show o.serialise s.files.json = _
        unfold FITS.serialise
        rw [hr]
      · exact Or.inl ⟨⟨r, destroy_completes hcompletes hr log⟩, fun _ h => by cases h⟩

theorem step_inv {s s' : Server} {e : ServerEvent} (hi : s.Inv) (hsafe : s.Safe e)
    (h : s.step logf dataset_id e = some s') : s'.Inv := by
  rcases step_cases h with ⟨flux, o, hload, rfl⟩ | ⟨rfl, o, ho, rfl⟩ | ⟨-, rfl⟩
  · obtain ⟨log, hlog, hkeep⟩ := hi
    refine ⟨log, hlog, fun hjson => ?_⟩
    rcases hkeep hjson with ⟨⟨r, hr⟩, -⟩ | hlacks
    · refine Or.inl ⟨⟨r, hr⟩, fun o' ho' => ?_⟩
      cases ho'
      -- what is kept is not loaded again
      obtain ⟨hproc, hstart⟩ := @start_keep logf dataset_id _ _ _ hlog hr flux
      rcases hload with ⟨load, rfl⟩ | ⟨load, rfl⟩
      · rw [fromPath_of_processed hproc]
        exact hstart
      · rw [fromUrl_of_processed hproc]
        exact hstart
    · exact Or.inr hlacks
  · exact destroy_inv hi ho hsafe
  · obtain ⟨log, hlog, hkeep⟩ := hi
    refine ⟨log, hlog, fun hjson => ?_⟩
    rcases hkeep hjson with ⟨hr, -⟩ | hlacks
    · exact Or.inl ⟨hr, fun _ h => by cases h⟩
    · exact Or.inr hlacks

theorem run_inv {s : Server} {es : List ServerEvent} (hsafe : Each (Server.step logf dataset_id) Server.Safe .empty es)
    (h : run (Server.step logf dataset_id) .empty es = some s) : s.Inv :=
  run_invariant Server.Inv (fun _ _ _ hi hsafe h => step_inv hi hsafe h) es empty_inv hsafe h

theorem start_processed {s : Server} (hi : s.Inv) {flux : String} (h : (s.start logf dataset_id flux).processed = true) :
    (s.start logf dataset_id flux).members.has_data = true ∧ (s.start logf dataset_id flux).PlanesComplete := by
  by_cases hnone : s.files.json = none
  · rw [start_of_none hnone] at h
    cases h
  · obtain ⟨log, hlog, hkeep⟩ := hi
    rcases hkeep hnone with ⟨⟨r, hr⟩, -⟩ | ⟨r, hr, hlacks⟩
    · exact ⟨(start_keep hlog hr flux).2.2, processed_complete hr hlog logf dataset_id flux (Bool.and_eq_true_iff.mp h).2⟩
    · exact absurd (lacks_not_processed hr hlacks logf dataset_id flux) (by simpa [Server.start] using h)

/-- An object destroyed without its data leaves nothing to take as loaded. -/
theorem start_after_failure {s : Server} (hi : s.Inv) {o : FITS} (ho : s.object = some o) (hdata : o.members.has_data = false)
    (hsafe : s.Safe .destroy) (flux : String) :
    (Server.start logf dataset_id ⟨o.destroy s.files, none⟩ flux).processed = false := by
  obtain ⟨log, hlog, hkeep⟩ := id hi
  obtain ⟨hwrites, hstays⟩ := hsafe o ho
  by_cases hnone : s.files.json = none
  · by_cases hheader : o.members.header = none
    · apply start_of_none
      show o.serialise s.files.json = none
      rw [hnone, serialise_of_noHeader hheader]
    · rcases hwrites hnone hheader with hfinished | hlacks
      · exact absurd (hdata.symm.trans hfinished.loaded.has_data) Bool.false_ne_true
      · exact lacks_not_processed (destroy_json hheader hnone) hlacks logf dataset_id flux
  · rcases hkeep hnone with ⟨-, hobject⟩ | ⟨r, hr, hlacks⟩
    · exact absurd (hdata.symm.trans (hobject o ho).2) Bool.false_ne_true
    · rcases hstays r hr hlacks with hlacks | hcompletes
      · refine lacks_not_processed (r := r) ?_ hlacks logf dataset_id flux
        show o.serialise s.files.json = _
        unfold FITS.serialise
        rw [hr]
      · exact absurd (hdata.symm.trans hcompletes.finished.loaded.has_data) Bool.false_ne_true

end Invariant

/-- `has_data` is true only where it was. -/
theorem has_data_of_deserialise {files : CacheFiles} {r : Members} (hjson : files.json = some (memberCoding.save serialiseMembers r))
    {o : FITS} (h : (o.deserialise files).members.has_data = true) : r.has_data = true := by
  rw [deserialise_save hjson, mapCube_members] at h
  unfold FITS.mapImages at h
  dsimp only at h
  split at h
  · rw [← rewritten_has_data r o.members]
    exact h
  · rw [setHasData_has_data] at h
    cases h

def onePixelDownload (pixels mask : BlockBytes) (bSuccess : Bool) : ServerEvent :=
  .url "" (.download (pixelObject 1 1 []).members (some (pixels, mask)) ⟨fun _ => [], fun _ => []⟩ bSuccess)

def onePixelLeft (pixels mask : BlockBytes) (bSuccess : Bool) : FITS :=
  { pixelObject 1 1 [] with
    members := (pixelObject 1 1 []).members.setHasData bSuccess
    img_pixels := some (.allocated pixels)
    img_mask := some (.allocated mask) }

section OnePixel

variable (pixels mask : BlockBytes) (bSuccess : Bool)

theorem run_onePixelDownload :
    run (Server.step single "") .empty [onePixelDownload pixels mask bSuccess] =
      some ⟨.none, some (onePixelLeft pixels mask bSuccess)⟩ := rfl

theorem run_onePixelDestroyed :
    run (Server.step single "") .empty [onePixelDownload pixels mask bSuccess, .destroy] =
      some ⟨(onePixelLeft pixels mask bSuccess).destroy .none, none⟩ := rfl

theorem onePixelLeft_json : ((onePixelLeft pixels mask bSuccess).destroy .none).json =
    some (memberCoding.save serialiseMembers (onePixelLeft pixels mask bSuccess).members) :=
  destroy_json (Option.some_ne_none _) rfl

theorem onePixelLeft_processed (o : FITS) : (o.deserialise ((onePixelLeft pixels mask bSuccess).destroy .none)).processed = true := by
  have hdepth : (onePixelLeft pixels mask bSuccess).members.depth = 1 := rfl
  apply image_processed (onePixelLeft_json pixels mask bSuccess)
  · rw [hdepth]
    exact round_of_le (by decide)
  · rw [hdepth]
    decide

end OnePixel

theorem onePixelLeft_finished : (onePixelLeft [63, 128, 0, 0] [255] true).Finished := by
  have hdata : (pixelObject 1 1 []).members.setHasData true = (pixelObject 1 1 []).members := Function.update_eq_self Member.has_data _
  have hsame : onePixelLeft [63, 128, 0, 0] [255] true = pixelObject 1 1 [] :=
    congrArg (fun s : Members => { pixelObject 1 1 [] with members := s }) hdata
  have hone : IsDouble 1 := round_of_le (by decide)
  rw [hsame]
  exact ⟨pixelObject_loaded (fun _ => rfl) fun h => absurd h (by decide), Int.one_pos, Int.one_pos, hone, hone, hone,
    fun h => absurd h (by decide)⟩

def brokenCube : ServerEvent :=
  .url "" (.download (pixelObject 2 1 []).members (some ([0, 0, 0, 0], [0])) ⟨fun _ => [], fun _ => []⟩ false)

def brokenCubeLeft : FITS :=
  { pixelObject 2 1 [] with
    members := (pixelObject 2 1 []).members.setHasData false
    img_pixels := some (.allocated [0, 0, 0, 0])
    img_mask := some (.allocated [0]) }

theorem run_brokenCube : run (Server.step single "") .empty [brokenCube] = some ⟨.none, some brokenCubeLeft⟩ := rfl

theorem brokenCube_lacks : brokenCubeLeft.members.Lacks (CacheFiles.none.blocks.letGo brokenCubeLeft.compressed) :=
  have hdepth : IsDouble 2 := round_of_le (by decide)
  ⟨hdepth, show (1 : Int64) < 2 by decide, 0, show 0 < (2 : Int64).toInt.toNat by decide, Nat.dvd_zero 4,
    Or.inl rfl⟩

theorem brokenCube_safe {s : Server} (hs : s = ⟨.none, some brokenCubeLeft⟩) : s.Safe .destroy := by
  intro o ho
  subst hs
  cases ho
  refine ⟨fun _ _ => Or.inr brokenCube_lacks, fun r hjson _ => ?_⟩
  cases hjson

end FitsWebQL
