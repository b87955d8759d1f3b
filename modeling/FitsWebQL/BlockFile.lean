/-
  FitsWebQL.BlockFile — the files a group's compressed blocks are kept in: the pixels' of
  the group, and a mask's for each of its planes.

  A block is written when it is let go: its deleter appends `idy`, `idx`, the length of the
  compressed data and the data, in one write, so blocks come in any order and over any
  number of sessions. `zfp_mmap_cube` maps a file and points into it; `zfp_load_cube` reads
  it. Both take all four masks, and leave off at the first file they cannot read.

  A block is held as its length and its data. A mapping reads as zeros behind its file's
  end. One `write` or `read` transfers MAX_RW_COUNT bytes: a block is shorter, but a file may
  say that it has a longer one.

  Proved:
  - `block_files_round_trip`: every block written is mapped, the last one of an index.
  - `loaders_agree_iff`: the two build the same blocks, and the mapping is not left, if and
    only if the files are whole records, and what comes behind one too long for a `read`
    changes nothing; `a_truncated_block_is_mapped` is one that is not whole.
-/

import FitsWebQL.Regions
import FitsWebQL.Lib.FileReads
import FitsWebQL.Lib.RecordLog
import FitsWebQL.Lib.Wire

namespace FitsWebQL

open Lib.FileReads Lib.RecordLog Lib.Wire

abbrev BlockBytes := List UInt8

/-! ## Records -/

def intAt (head : BlockBytes) (off : ℕ) : ℤ := (wordOf (head.drop off)).toInt32.toInt

/-- `idy`, `idx` and the data's length, which counts when it is positive. -/
def blockFormat : Format (ℤ × ℤ) where
  size := 12
  key head := (intAt head 0, intAt head 4)
  bodyLength head := (intAt head 8).toNat
  size_pos := by decide

structure RegionBlock where
  idy : Int32
  idx : Int32
  data : BlockBytes
  length_pos : 0 < data.length
  one_write : 12 + data.length ≤ MAX_RW_COUNT

theorem RegionBlock.length_lt (b : RegionBlock) : b.data.length < 2 ^ 31 := by
  have hwrite := b.one_write
  unfold MAX_RW_COUNT at hwrite
  omega

/-- What the block's pointer points at: `pComprLen`, and the data. -/
def RegionBlock.block (b : RegionBlock) : BlockBytes := bytesOf (UInt32.ofNat b.data.length) ++ b.data

def RegionBlock.out (b : RegionBlock) : BlockBytes := bytesOf b.idy.toUInt32 ++ (bytesOf b.idx.toUInt32 ++ b.block)

/-- The deleter: the file, which it creates, with the block at its end. -/
def appendBlock (file : Option BlockBytes) (b : RegionBlock) : Option BlockBytes := some (file.getD [] ++ b.out)

def blockFile (bs : List RegionBlock) : Option BlockBytes := bs.foldl appendBlock none

/-! ## Loading a file -/

def CompressedBlocks.set {β : Type} (blocks : CompressedBlocks β) (key : ℤ × ℤ) (block : β) : CompressedBlocks β :=
  fun idy idx => if (idy, idx) = key then some block else blocks idy idx

def storeAll {β : Type} (l : List ((ℤ × ℤ) × β)) : CompressedBlocks β := l.foldl (fun m e => m.set e.1 e.2) fun _ _ => none

/-- What a pointer into the mapping shows: the length at the end of the head, and the data. -/
def mapped (content : BlockBytes) (v : BlockBytes × ℕ) : (ℤ × ℤ) × BlockBytes :=
  (blockFormat.key v.1, (content.drop (v.2 + 8)).take (4 + blockFormat.bodyLength v.1))

/-- The loop of `zfp_mmap_cube` over a file. -/
def mmapBlocks (content : BlockBytes) : CompressedBlocks BlockBytes :=
  storeAll (((scan blockFormat content content.length 0).filter fun v => decide (0 < blockFormat.bodyLength v.1)).map
    (mapped content))

/-- The loop of `zfp_load_cube` over a file. -/
def loadBlocks (content : BlockBytes) : CompressedBlocks BlockBytes :=
  storeAll ((load blockFormat MAX_RW_COUNT (content.length + 1) content).map fun r =>
    (blockFormat.key r.1, r.1.drop 8 ++ r.2))

/-- A file of no size is not mapped. -/
def mmapFile : Option BlockBytes → Option (CompressedBlocks BlockBytes)
  | none | some [] => none
  | some content => some (mmapBlocks content)

def loadFile (file : Option BlockBytes) : Option (CompressedBlocks BlockBytes) := file.map loadBlocks

/-! ## Loading a group -/

structure BlockFiles where
  zfp : ℕ → Option BlockBytes
  lz4 : ℕ → Option BlockBytes

@[ext] structure StoredBlocks where
  cube_pixels : ℕ → Option (CompressedBlocks BlockBytes)
  cube_mask : ℕ → Option (CompressedBlocks BlockBytes)

def loadMasks (file : Option BlockBytes → Option (CompressedBlocks BlockBytes)) (files : BlockFiles) :
    List ℕ → StoredBlocks → StoredBlocks × Bool
  | [], s => (s, true)
  | lz4_idz :: rest, s =>
    match file (files.lz4 lz4_idz) with
    | none => (s, false)
    | some lz4_blocks => loadMasks file files rest { s with cube_mask := Function.update s.cube_mask lz4_idz (some lz4_blocks) }

def loadCube (file : Option BlockBytes → Option (CompressedBlocks BlockBytes)) (files : BlockFiles) (start_k : ℕ)
    (s : StoredBlocks) : StoredBlocks × Bool :=
  let zfp_idz := start_k / 4
  match file (files.zfp zfp_idz) with
  | none => (s, false)
  | some zfp_blocks => loadMasks file files (List.range' start_k 4)
      { s with cube_pixels := Function.update s.cube_pixels zfp_idz (some zfp_blocks) }

def zfpMmapCube : BlockFiles → ℕ → StoredBlocks → StoredBlocks × Bool := loadCube mmapFile
def zfpLoadCube : BlockFiles → ℕ → StoredBlocks → StoredBlocks × Bool := loadCube loadFile

/-! ## Whole records -/

theorem storeAll_eq {β : Type} (l : List ((ℤ × ℤ) × β)) (idy idx : ℤ) :
    storeAll l idy idx = (l.reverse.find? fun e => decide (e.1 = (idy, idx))).map Prod.snd := by
  induction l using List.reverseRecOn with
  | nil => rfl
  | append_singleton l e ih =>
    unfold storeAll at ih ⊢
    rw [List.foldl_append, List.foldl_cons, List.foldl_nil, List.reverse_append, List.reverse_singleton, List.singleton_append,
      List.find?_cons]
    unfold CompressedBlocks.set
    by_cases he : e.1 = (idy, idx)
    · simp [he]
    · have he' : ¬ (idy, idx) = e.1 := fun h => he h.symm
      simp only [he, he', if_false, decide_false]
      exact ih

def recordBlock (r : Record blockFormat) : (ℤ × ℤ) × BlockBytes := (blockFormat.key r.head, r.head.drop 8 ++ r.body)

def withData (rs : List (Record blockFormat)) : List (Record blockFormat) :=
  rs.filter fun r => decide (0 < blockFormat.bodyLength r.head)

/-- The blocks in them, the last of each index. -/
def storedBlocks (rs : List (Record blockFormat)) : CompressedBlocks BlockBytes := storeAll ((withData rs).map recordBlock)

theorem mapped_record (front : BlockBytes) (r : Record blockFormat) (rest : BlockBytes) :
    mapped (front ++ (r.bytes ++ rest)) (r.head, front.length) = recordBlock r := by
  have hhead : r.head.length = 12 := r.head_length
  have hbody := r.body_length
  have hlen : (r.head.drop 8 ++ r.body).length = 4 + blockFormat.bodyLength r.head := by
    rw [List.length_append, List.length_drop, hhead, hbody]
  have hdrop : (front ++ (r.bytes ++ rest)).drop (front.length + 8) = (r.head.drop 8 ++ r.body) ++ rest := by
    unfold Record.bytes
    rw [← List.drop_drop, List.drop_left, List.append_assoc, List.append_assoc,
      List.drop_append_of_le_length (by omega)]
  unfold mapped recordBlock
  dsimp only
  rw [hdrop, List.take_left' hlen]

theorem mapped_visits (front : BlockBytes) (rs : List (Record blockFormat)) :
    ((visits front.length rs).filter fun v => decide (0 < blockFormat.bodyLength v.1)).map
      (mapped (front ++ logBytes rs)) = (withData rs).map recordBlock := by
  induction rs generalizing front with
  | nil => rfl
  | cons r rs ih =>
    have ih := ih (front ++ r.bytes)
    rw [List.length_append, List.append_assoc] at ih
    unfold withData at ih ⊢
    rw [visits, logBytes_cons, List.filter_cons, List.filter_cons]
    dsimp only
    split
    · rw [List.map_cons, List.map_cons, mapped_record, ih]
    · exact ih

theorem mmapBlocks_log {rs : List (Record blockFormat)} (hne : rs ≠ []) :
    mmapBlocks (logBytes rs) = storedBlocks rs := by
  have hscan : scan blockFormat (logBytes rs) (logBytes rs).length 0 = visits 0 rs := scan_log [] hne (length_le_bytes rs)
  have hview := mapped_visits [] rs
  rw [List.nil_append, List.length_nil] at hview
  unfold mmapBlocks
  rw [hscan, hview]
  rfl

theorem loadBlocks_log (rs : List (Record blockFormat)) :
    loadBlocks (logBytes rs) = storedBlocks (readable MAX_RW_COUNT rs) := by
  unfold loadBlocks
  rw [load_log (Nat.lt_succ_of_le (length_le_bytes rs)), List.map_map]
  rfl

/-! ## What was written -/

theorem intAt_bytesOf (front : BlockBytes) (w : UInt32) (rest : BlockBytes) :
    intAt (front ++ (bytesOf w ++ rest)) front.length = w.toInt32.toInt := by
  unfold intAt
  rw [List.drop_left, wordOf_bytesOf]

def RegionBlock.head (b : RegionBlock) : BlockBytes :=
  bytesOf b.idy.toUInt32 ++ (bytesOf b.idx.toUInt32 ++ bytesOf (UInt32.ofNat b.data.length))

theorem RegionBlock.key_head (b : RegionBlock) : blockFormat.key b.head = (b.idy.toInt, b.idx.toInt) := by
  have hidy := intAt_bytesOf [] b.idy.toUInt32 (bytesOf b.idx.toUInt32 ++ bytesOf (UInt32.ofNat b.data.length))
  have hidx := intAt_bytesOf (bytesOf b.idy.toUInt32) b.idx.toUInt32 (bytesOf (UInt32.ofNat b.data.length))
  rw [Int32.toInt32_toUInt32, List.nil_append, List.length_nil] at hidy
  rw [Int32.toInt32_toUInt32, bytesOf_length] at hidx
  unfold blockFormat RegionBlock.head
  dsimp only
  rw [hidy, hidx]

theorem RegionBlock.length_head (b : RegionBlock) : blockFormat.bodyLength b.head = b.data.length := by
  have hlen := intAt_bytesOf (bytesOf b.idy.toUInt32 ++ bytesOf b.idx.toUInt32) (UInt32.ofNat b.data.length) []
  have hint : (UInt32.ofNat b.data.length).toInt32.toInt = b.data.length := Int32.toInt_ofNat_of_lt b.length_lt
  rw [List.append_nil, List.append_assoc, List.length_append, bytesOf_length, bytesOf_length, hint] at hlen
  unfold blockFormat RegionBlock.head
  dsimp only
  rw [hlen, Int.toNat_natCast]

def RegionBlock.record (b : RegionBlock) : Record blockFormat := ⟨b.head, b.data, rfl, b.length_head.symm⟩

theorem RegionBlock.bytes_record (b : RegionBlock) : b.record.bytes = b.out := by
  unfold Record.bytes RegionBlock.out RegionBlock.block
  show b.head ++ b.data = _
  unfold RegionBlock.head
  rw [List.append_assoc, List.append_assoc]

theorem blockFile_eq {bs : List RegionBlock} (hne : bs ≠ []) : blockFile bs = some (logBytes (bs.map RegionBlock.record)) := by
  induction bs using List.reverseRecOn with
  | nil => exact absurd rfl hne
  | append_singleton bs b ih =>
    have hsnoc : logBytes ((bs ++ [b]).map RegionBlock.record) = logBytes (bs.map RegionBlock.record) ++ b.out := by
      unfold logBytes
      rw [List.map_append, List.flatMap_append, List.map_singleton, List.flatMap_singleton, b.bytes_record]
    have hstep : blockFile (bs ++ [b]) = appendBlock (blockFile bs) b := List.foldl_append
    rw [hstep, hsnoc]
    by_cases hbs : bs = []
    · rw [hbs]
      rfl
    · rw [ih hbs]
      rfl

def lastWritten (bs : List RegionBlock) : CompressedBlocks BlockBytes := fun idy idx =>
  (bs.reverse.find? fun b => decide ((b.idy.toInt, b.idx.toInt) = (idy, idx))).map RegionBlock.block

theorem mmapFile_blockFile {bs : List RegionBlock} (hne : bs ≠ []) : mmapFile (blockFile bs) = some (lastWritten bs) := by
  have hrs : bs.map RegionBlock.record ≠ [] := fun h => hne (List.map_eq_nil_iff.mp h)
  have hpos := logBytes_length_pos hrs
  have hall : withData (bs.map RegionBlock.record) = bs.map RegionBlock.record := by
    unfold withData
    rw [List.filter_eq_self]
    intro r hr
    obtain ⟨b, -, rfl⟩ := List.mem_map.mp hr
    have hlen : blockFormat.bodyLength b.record.head = b.data.length := b.length_head
    rw [hlen]
    exact decide_eq_true b.length_pos
  have hblock : recordBlock ∘ RegionBlock.record = fun b => ((b.idy.toInt, b.idx.toInt), b.block) := by
    funext b
    exact Prod.ext b.key_head rfl
  have hmap : mmapFile (blockFile bs) = some (mmapBlocks (logBytes (bs.map RegionBlock.record))) := by
    rw [blockFile_eq hne]
    cases hbytes : logBytes (bs.map RegionBlock.record) with
    | nil =>
      rw [hbytes] at hpos
      exact absurd hpos (Nat.lt_irrefl 0)
    | cons b rest => rfl
  rw [hmap, mmapBlocks_log hrs, storedBlocks, hall, List.map_map, hblock]
  congr 1
  funext idy idx
  rw [storeAll_eq, ← List.map_reverse, List.find?_map]
  unfold lastWritten
  rw [Option.map_map]
  rfl

/-! ## A group -/

section Group

variable {file file' : Option BlockBytes → Option (CompressedBlocks BlockBytes)} {files : BlockFiles}

theorem loadMasks_frame {ks : List ℕ} {k : ℕ} (hk : k ∉ ks) (s : StoredBlocks) :
    (loadMasks file files ks s).1.cube_mask k = s.cube_mask k := by
  induction ks generalizing s with
  | nil => rfl
  | cons j ks ih =>
    rw [List.mem_cons, not_or] at hk
    rw [loadMasks]
    cases file (files.lz4 j) with
    | none => rfl
    | some blocks =>
      dsimp only
      rw [ih hk.2]
      exact Function.update_of_ne hk.1 _ _

theorem loadMasks_pixels (ks : List ℕ) (s : StoredBlocks) : (loadMasks file files ks s).1.cube_pixels = s.cube_pixels := by
  induction ks generalizing s with
  | nil => rfl
  | cons j ks ih =>
    rw [loadMasks]
    cases file (files.lz4 j) with
    | none => rfl
    | some blocks => exact ih _

/-- A mask is loaded when it and those before it can be. -/
theorem loadMasks_mask {n start k : ℕ} (hk : k < n) (h : ∀ j ≤ k, file (files.lz4 (start + j)) ≠ none) (s : StoredBlocks) :
    (loadMasks file files (List.range' start n) s).1.cube_mask (start + k) = file (files.lz4 (start + k)) := by
  induction n generalizing start k s with
  | zero => exact absurd hk (Nat.not_lt_zero k)
  | succ n ih =>
    have hfirst := h 0 (Nat.zero_le k)
    rw [Nat.add_zero] at hfirst
    rw [List.range'_succ, loadMasks]
    cases hblocks : file (files.lz4 start) with
    | none => exact absurd hblocks hfirst
    | some blocks =>
      dsimp only
      cases k with
      | zero =>
        show (loadMasks file files _ _).1.cube_mask start = file (files.lz4 start)
        rw [hblocks, loadMasks_frame]
        · exact Function.update_self _ _ _
        · rw [List.mem_range'_1]
          omega
      | succ k =>
        have hplace : start + (k + 1) = start + 1 + k := by omega
        rw [hplace]
        apply ih (Nat.lt_of_succ_lt_succ hk)
        intro j hj
        have hplace' : start + 1 + j = start + (j + 1) := by omega
        rw [hplace']
        exact h (j + 1) (Nat.succ_le_succ hj)

theorem loadMasks_ok (ks : List ℕ) (s : StoredBlocks) :
    (loadMasks file files ks s).2 = true ↔ ∀ k ∈ ks, file (files.lz4 k) ≠ none := by
  induction ks generalizing s with
  | nil => simp [loadMasks]
  | cons j ks ih =>
    rw [loadMasks, List.forall_mem_cons]
    cases hblocks : file (files.lz4 j) with
    | none => simp
    | some blocks =>
      dsimp only
      rw [ih]
      simp

theorem loadMasks_congr {ks : List ℕ} (h : ∀ k ∈ ks, file (files.lz4 k) = file' (files.lz4 k)) (s : StoredBlocks) :
    loadMasks file files ks s = loadMasks file' files ks s := by
  induction ks generalizing s with
  | nil => rfl
  | cons j ks ih =>
    rw [loadMasks, loadMasks, h j List.mem_cons_self]
    cases file' (files.lz4 j) with
    | none => rfl
    | some blocks => exact ih (fun k hk => h k (List.mem_cons_of_mem _ hk)) _

theorem loadCube_pixels {start_k : ℕ} {blocks : CompressedBlocks BlockBytes} (h : file (files.zfp (start_k / 4)) = some blocks)
    (s : StoredBlocks) : (loadCube file files start_k s).1.cube_pixels (start_k / 4) = some blocks := by
  unfold loadCube
  dsimp only
  rw [h]
  dsimp only
  rw [loadMasks_pixels]
  exact Function.update_self _ _ _

theorem loadCube_mask {start_k k : ℕ} (hpixels : file (files.zfp (start_k / 4)) ≠ none) (hk : k < 4)
    (h : ∀ j ≤ k, file (files.lz4 (start_k + j)) ≠ none) (s : StoredBlocks) :
    (loadCube file files start_k s).1.cube_mask (start_k + k) = file (files.lz4 (start_k + k)) := by
  obtain ⟨blocks, hblocks⟩ := Option.ne_none_iff_exists'.mp hpixels
  unfold loadCube
  dsimp only
  rw [hblocks]
  exact loadMasks_mask hk h _

end Group

/-- Whatever was let go in whatever order, and to however many files, the mapping of a
    group's files holds the blocks written, the last of each index; it is complete when
    every file has a block. -/
theorem block_files_round_trip {files : BlockFiles} {start_k : ℕ} {pixels : List RegionBlock} {masks : ℕ → List RegionBlock}
    (hpixels : files.zfp (start_k / 4) = blockFile pixels) (hmasks : ∀ k < 4, files.lz4 (start_k + k) = blockFile (masks k))
    (s : StoredBlocks) :
    (pixels ≠ [] → (zfpMmapCube files start_k s).1.cube_pixels (start_k / 4) = some (lastWritten pixels)) ∧
    (pixels ≠ [] → ∀ k < 4, (∀ j ≤ k, masks j ≠ []) →
      (zfpMmapCube files start_k s).1.cube_mask (start_k + k) = some (lastWritten (masks k))) ∧
    ((zfpMmapCube files start_k s).2 = true ↔ pixels ≠ [] ∧ ∀ k < 4, masks k ≠ []) := by
  have hmask : ∀ k < 4, masks k ≠ [] → mmapFile (files.lz4 (start_k + k)) = some (lastWritten (masks k)) := by
    intro k hk hne
    rw [hmasks k hk, mmapFile_blockFile hne]
  have hnone : ∀ k < 4, masks k = [] → mmapFile (files.lz4 (start_k + k)) = none := by
    intro k hk hnil
    rw [hmasks k hk, hnil]
    rfl
  have hfirst : mmapFile (files.zfp (start_k / 4)) = mmapFile (blockFile pixels) := by rw [hpixels]
  by_cases hne : pixels = []
  · refine ⟨fun h => absurd hne h, fun h => absurd hne h, ?_⟩
    rw [hne] at hfirst
    unfold zfpMmapCube loadCube
    dsimp only
    rw [hfirst, show mmapFile (blockFile []) = none from rfl]
    simp [hne]
  · rw [mmapFile_blockFile hne] at hfirst
    refine ⟨fun _ => loadCube_pixels hfirst s, fun _ k hk hbefore => ?_, ?_⟩
    · rw [← hmask k hk (hbefore k (Nat.le_refl k))]
      refine loadCube_mask (by rw [hfirst]; exact Option.some_ne_none _) hk (fun j hj => ?_) s
      rw [hmask j (by omega) (hbefore j hj)]
      exact Option.some_ne_none _
    · unfold zfpMmapCube loadCube
      dsimp only
      rw [hfirst]
      dsimp only
      rw [loadMasks_ok]
      refine ⟨fun h => ⟨hne, fun k hk hnil => ?_⟩, fun h k hk => ?_⟩
      · exact h (start_k + k) (by rw [List.mem_range'_1]; omega) (hnone k hk hnil)
      · rw [List.mem_range'_1] at hk
        have hplace : k = start_k + (k - start_k) := by omega
        rw [hplace, hmask _ (by omega) (h.2 _ (by omega))]
        exact Option.some_ne_none _

def oneBlock : RegionBlock := ⟨0, 0, [7], by decide, by decide⟩

def rewrittenBlocks : List RegionBlock :=
  [⟨0, 0, [1, 2, 3], by decide, by decide⟩, ⟨0, 1, [4], by decide, by decide⟩, ⟨0, 0, [5, 6], by decide, by decide⟩]

/-- As many regions in the pixels' file, and in those of the masks, the other way round. -/
def rewrittenFiles : BlockFiles := ⟨fun _ => blockFile rewrittenBlocks, fun _ => blockFile rewrittenBlocks.reverse⟩

/-- In the pixels' file the second block of the first region is behind, in a mask's the first. -/
theorem block_files_round_trip_rewritten : (zfpMmapCube rewrittenFiles 4 ⟨fun _ => none, fun _ => none⟩).2 = true ∧
    ((zfpMmapCube rewrittenFiles 4 ⟨fun _ => none, fun _ => none⟩).1.cube_pixels 1).map (fun b => (b 0 0, b 0 1, b 1 0)) =
      some (some [2, 0, 0, 0, 5, 6], some [1, 0, 0, 0, 4], none) ∧
    ((zfpMmapCube rewrittenFiles 4 ⟨fun _ => none, fun _ => none⟩).1.cube_mask 6).map (fun b => (b 0 0, b 0 1, b 1 0)) =
      some (some [3, 0, 0, 0, 1, 2, 3], some [1, 0, 0, 0, 4], none) := by
  obtain ⟨hpixels, hmasks, hdone⟩ := @block_files_round_trip rewrittenFiles 4 rewrittenBlocks (fun _ => rewrittenBlocks.reverse)
    rfl (fun _ _ => rfl) ⟨fun _ => none, fun _ => none⟩
  have hmask := hmasks (by decide) 2 (by decide) fun _ _ => by decide
  refine ⟨hdone.mpr ⟨by decide, fun _ _ => by decide⟩, ?_, ?_⟩
  · rw [show 1 = 4 / 4 from rfl, hpixels (by decide)]
    decide
  · rw [show 6 = 4 + 2 from rfl, hmask]
    decide

/-! ## The two loaders -/

def BlockFiles.group (files : BlockFiles) (start_k : ℕ) : List (Option BlockBytes) :=
  files.zfp (start_k / 4) :: (List.range' start_k 4).map files.lz4

def BlockFiles.Present (files : BlockFiles) (start_k : ℕ) : Prop :=
  ∀ f ∈ files.group start_k, ∃ content, content ≠ [] ∧ f = some content

def BlockFiles.StaysInside (files : BlockFiles) (start_k : ℕ) : Prop :=
  ∀ f ∈ files.group start_k, ∀ content, f = some content → Lib.RecordLog.StaysInside blockFormat content

def BlockFiles.Whole (files : BlockFiles) (start_k : ℕ) : Prop :=
  ∀ f ∈ files.group start_k, ∀ content, f = some content → Lib.RecordLog.Whole blockFormat content

/-- The records before the first too long for one `read` hold the blocks of all. -/
def ReadInFull (content : BlockBytes) : Prop :=
  ∀ rs : List (Record blockFormat), content = logBytes rs → storedBlocks (readable MAX_RW_COUNT rs) = storedBlocks rs

def BlockFiles.ReadInFull (files : BlockFiles) (start_k : ℕ) : Prop :=
  ∀ f ∈ files.group start_k, ∀ content, f = some content → FitsWebQL.ReadInFull content

/-- A file that one `read` would transfer has no record too long for one. -/
theorem readInFull_of_length {content : BlockBytes} (h : content.length ≤ MAX_RW_COUNT) : ReadInFull content := by
  rintro rs rfl
  have hall : readable MAX_RW_COUNT rs = rs := by
    unfold readable
    rw [List.takeWhile_eq_self_iff]
    intro r hr
    obtain ⟨front, behind, rfl⟩ := List.append_of_mem hr
    unfold logBytes at h
    rw [List.flatMap_append, List.flatMap_cons, List.length_append, List.length_append, r.bytes_length] at h
    simp only [decide_eq_true_eq]
    omega
  rw [hall]

theorem mmapFile_content {content : BlockBytes} (hne : content ≠ []) : mmapFile (some content) = some (mmapBlocks content) := by
  cases content with
  | nil => exact absurd rfl hne
  | cons b rest => rfl

theorem mmapFile_eq_loadFile_iff {content : BlockBytes} (hne : content ≠ []) (h : Lib.RecordLog.Whole blockFormat content) :
    mmapFile (some content) = loadFile (some content) ↔ ReadInFull content := by
  have hboth : ∀ rs : List (Record blockFormat), content = logBytes rs →
      mmapBlocks content = storedBlocks rs ∧ loadBlocks content = storedBlocks (readable MAX_RW_COUNT rs) := by
    rintro rs rfl
    exact ⟨mmapBlocks_log fun h0 => hne (by rw [h0, logBytes_nil]), loadBlocks_log rs⟩
  rw [mmapFile_content hne, loadFile, Option.map_some, Option.some.injEq]
  constructor
  · intro hsame rs hrs
    obtain ⟨hmap, hload⟩ := hboth rs hrs
    rw [← hmap, ← hload, hsame]
  · intro hread
    obtain ⟨rs, hrs⟩ := h
    obtain ⟨hmap, hload⟩ := hboth rs hrs
    rw [hmap, hload, hread rs hrs]

/-- Of files with a content, the loaders leave the same when each file gives them the same. -/
theorem loaders_same_iff {files : BlockFiles} {start_k : ℕ} (h : files.Present start_k) (s : StoredBlocks) :
    zfpMmapCube files start_k s = zfpLoadCube files start_k s ↔ ∀ f ∈ files.group start_k, mmapFile f = loadFile f := by
  have hsome : ∀ f ∈ files.group start_k, mmapFile f ≠ none ∧ loadFile f ≠ none := by
    intro f hf
    obtain ⟨content, hne, rfl⟩ := h f hf
    rw [mmapFile_content hne]
    exact ⟨Option.some_ne_none _, Option.some_ne_none _⟩
  have hpixels : files.zfp (start_k / 4) ∈ files.group start_k := List.mem_cons_self
  have hmasks : ∀ k < 4, files.lz4 (start_k + k) ∈ files.group start_k := fun k hk =>
    List.mem_cons_of_mem _ (List.mem_map_of_mem (List.mem_range'_1.mpr ⟨by omega, by omega⟩))
  constructor
  · intro hsame f hf
    rcases List.mem_cons.mp hf with rfl | hf
    · obtain ⟨blocks, hblocks⟩ := Option.ne_none_iff_exists'.mp (hsome _ hpixels).1
      obtain ⟨blocks', hblocks'⟩ := Option.ne_none_iff_exists'.mp (hsome _ hpixels).2
      have hmap : (zfpMmapCube files start_k s).1.cube_pixels (start_k / 4) = some blocks := loadCube_pixels hblocks s
      have hload : (zfpLoadCube files start_k s).1.cube_pixels (start_k / 4) = some blocks' := loadCube_pixels hblocks' s
      rw [hblocks, hblocks', ← hmap, ← hload, hsame]
    · obtain ⟨i, hi, rfl⟩ := List.mem_map.mp hf
      rw [List.mem_range'_1] at hi
      obtain ⟨k, rfl⟩ := Nat.exists_eq_add_of_le hi.1
      have hk : k < 4 := by omega
      have hmap : (zfpMmapCube files start_k s).1.cube_mask (start_k + k) = mmapFile (files.lz4 (start_k + k)) :=
        loadCube_mask (hsome _ hpixels).1 hk (fun j hj => (hsome _ (hmasks j (by omega))).1) s
      have hload : (zfpLoadCube files start_k s).1.cube_mask (start_k + k) = loadFile (files.lz4 (start_k + k)) :=
        loadCube_mask (hsome _ hpixels).2 hk (fun j hj => (hsome _ (hmasks j (by omega))).2) s
      rw [← hmap, ← hload, hsame]
  · intro hsame
    have hmask : ∀ k ∈ List.range' start_k 4, mmapFile (files.lz4 k) = loadFile (files.lz4 k) :=
      fun k hk => hsame _ (List.mem_cons_of_mem _ (List.mem_map_of_mem hk))
    unfold zfpMmapCube zfpLoadCube loadCube
    dsimp only
    rw [hsame _ hpixels]
    cases loadFile (files.zfp (start_k / 4)) with
    | none => rfl
    | some blocks => exact loadMasks_congr hmask _

/-- Of files with a content, the loaders build the same and the mapping is not left if and
    only if they are whole records, and nothing behind one too long for a `read` counts. -/
theorem loaders_agree_iff {files : BlockFiles} {start_k : ℕ} (h : files.Present start_k) (s : StoredBlocks) :
    (zfpMmapCube files start_k s = zfpLoadCube files start_k s ∧ files.StaysInside start_k) ↔
      files.Whole start_k ∧ files.ReadInFull start_k := by
  have hne : ∀ f ∈ files.group start_k, ∀ content, f = some content → content ≠ [] := by
    rintro f hf content rfl
    obtain ⟨content', hne, hsome⟩ := h _ hf
    rwa [Option.some.inj hsome]
  have hinside : files.StaysInside start_k ↔ files.Whole start_k := by
    refine ⟨fun hi f hf content hc => ?_, fun hw f hf content hc => ?_⟩
    · exact (inside_iff_whole (hne f hf content hc)).mp (hi f hf content hc)
    · exact (inside_iff_whole (hne f hf content hc)).mpr (hw f hf content hc)
  rw [hinside, loaders_same_iff h, and_comm]
  refine and_congr_right fun hwhole => ⟨fun hsame f hf content hc => ?_, fun hread f hf => ?_⟩
  · have hfile := hsame f hf
    rw [hc] at hfile
    exact (mmapFile_eq_loadFile_iff (hne f hf content hc) (hwhole f hf content hc)).mp hfile
  · obtain ⟨content, -, rfl⟩ := h f hf
    exact (mmapFile_eq_loadFile_iff (hne _ hf content rfl) (hwhole _ hf content rfl)).mpr (hread _ hf content rfl)

/-- The masks' files are whole, and the pixels' ends within its block's data. -/
def truncatedBlock : BlockFiles where
  zfp _ := some (bytesOf 0 ++ (bytesOf 0 ++ (bytesOf 2 ++ [7])))
  lz4 _ := blockFile [oneBlock]

theorem rewrittenFiles_group {f : Option BlockBytes} (hf : f ∈ rewrittenFiles.group 4) :
    f = blockFile rewrittenBlocks ∨ f = blockFile rewrittenBlocks.reverse := by
  simp only [BlockFiles.group, rewrittenFiles, List.mem_cons, List.mem_map] at hf
  rcases hf with hf | ⟨k, -, hf⟩
  · exact Or.inl hf
  · exact Or.inr hf.symm

theorem loaders_agree_iff_rewritten :
    zfpMmapCube rewrittenFiles 4 ⟨fun _ => none, fun _ => none⟩ = zfpLoadCube rewrittenFiles 4 ⟨fun _ => none, fun _ => none⟩ ∧
      rewrittenFiles.StaysInside 4 := by
  have hpresent : rewrittenFiles.Present 4 := by
    intro f hf
    rcases rewrittenFiles_group hf with rfl | rfl
    · exact ⟨_, by decide, rfl⟩
    · exact ⟨_, by decide, rfl⟩
  refine (loaders_agree_iff hpresent _).mpr ⟨fun f hf content hc => ?_, fun f hf content hc => readInFull_of_length ?_⟩
  · rcases rewrittenFiles_group hf with rfl | rfl
    · rw [blockFile_eq (by decide), Option.some.injEq] at hc
      exact ⟨_, hc.symm⟩
    · rw [blockFile_eq (by decide), Option.some.injEq] at hc
      exact ⟨_, hc.symm⟩
  · rcases rewrittenFiles_group hf with rfl | rfl
    · cases hc
      decide
    · cases hc
      decide

/-- `zfp_mmap_cube` maps a block of two bytes of which the file has one; `zfp_load_cube`
    leaves it. -/
theorem a_truncated_block_is_mapped : truncatedBlock.Present 0 ∧
    zfpMmapCube truncatedBlock 0 ⟨fun _ => none, fun _ => none⟩ ≠ zfpLoadCube truncatedBlock 0 ⟨fun _ => none, fun _ => none⟩ ∧
    ¬ truncatedBlock.StaysInside 0 := by
  refine ⟨?_, ?_, ?_⟩
  · intro f hf
    simp only [BlockFiles.group, truncatedBlock, List.mem_cons, List.mem_map] at hf
    rcases hf with hf | ⟨k, -, hf⟩
    · exact ⟨_, by decide, hf⟩
    · exact ⟨oneBlock.out, by decide, hf.symm⟩
  · intro h
    have hblock := congrArg (fun r => (r.1.cube_pixels 0).bind fun blocks => blocks 0 0) h
    revert hblock
    decide +kernel
  · intro h
    have hinside := h _ List.mem_cons_self _ rfl
    unfold Lib.RecordLog.StaysInside at hinside
    revert hinside
    decide +kernel

end FitsWebQL
