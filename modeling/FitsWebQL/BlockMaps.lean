/-
  FitsWebQL.BlockMaps — what `zfp_mmap_cube` stores of a group: the pixels' blocks and the
  mapping they point into, then a mask's blocks and mapping, plane after plane.

  A mapping is let go when no list holds it any more (`shared_ptr`); blocks that were
  compressed or read (`zfp_compress_cube`, `zfp_load_cube`) point into none.

  The pixels are stored before the first mask's file is looked at, and each mask before the
  next one's. A file that cannot be mapped ends the call, and nothing is taken back.

  Proved, of every state the blocks can come to:
  - `mapCube_contents`: the blocks are those of `zfpMmapCube`.
  - `no_dangling`: the blocks point into mappings that are held.
  - `no_trace_iff`: a call that fails leaves no trace if and only if the pixels' file is what
    it fails at.
-/

import FitsWebQL.BlockFile

namespace FitsWebQL

structure HeldBlocks where
  mmap : Option ℕ
  blocks : CompressedBlocks BlockBytes

/-- The vectors' elements; mappings are numbered as they are made, `mmaps` so far. -/
structure MappedBlocks where
  cube_pixels : ℕ → Option HeldBlocks
  cube_mask : ℕ → Option HeldBlocks
  cube_pixels_mmap : ℕ → Option ℕ
  cube_mask_mmap : ℕ → Option ℕ
  mmaps : ℕ

def MappedBlocks.empty : MappedBlocks := ⟨fun _ => none, fun _ => none, fun _ => none, fun _ => none, 0⟩

/-- `cube_pixels[zfp_idz].store(zfp_blocks)`, and `cube_pixels_mmap[zfp_idz] = zfp_mmap`. -/
def MappedBlocks.mapPixels (s : MappedBlocks) (zfp_idz : ℕ) (zfp_blocks : CompressedBlocks BlockBytes) : MappedBlocks :=
  { s with
    cube_pixels := Function.update s.cube_pixels zfp_idz (some ⟨some s.mmaps, zfp_blocks⟩)
    cube_pixels_mmap := Function.update s.cube_pixels_mmap zfp_idz (some s.mmaps)
    mmaps := s.mmaps + 1 }

/-- `cube_mask[lz4_idz].store(lz4_blocks)`, and `cube_mask_mmap[lz4_idz] = lz4_mmap`. -/
def MappedBlocks.mapMask (s : MappedBlocks) (lz4_idz : ℕ) (lz4_blocks : CompressedBlocks BlockBytes) : MappedBlocks :=
  { s with
    cube_mask := Function.update s.cube_mask lz4_idz (some ⟨some s.mmaps, lz4_blocks⟩)
    cube_mask_mmap := Function.update s.cube_mask_mmap lz4_idz (some s.mmaps)
    mmaps := s.mmaps + 1 }

def mapMasks (files : BlockFiles) : List ℕ → MappedBlocks → MappedBlocks × Bool
  | [], s => (s, true)
  | lz4_idz :: rest, s =>
    match mmapFile (files.lz4 lz4_idz) with
    | none => (s, false)
    | some lz4_blocks => mapMasks files rest (s.mapMask lz4_idz lz4_blocks)

def mapCube (files : BlockFiles) (start_k : ℕ) (s : MappedBlocks) : MappedBlocks × Bool :=
  let zfp_idz := start_k / 4
  match mmapFile (files.zfp zfp_idz) with
  | none => (s, false)
  | some zfp_blocks => mapMasks files (List.range' start_k 4) (s.mapPixels zfp_idz zfp_blocks)

/-- What becomes of a data set's blocks: groups are mapped, and blocks stored that were
    compressed or read. -/
inductive BlockEvent
  | map (files : BlockFiles) (start_k : ℕ)
  | pixels (zfp_idz : ℕ) (zfp_blocks : CompressedBlocks BlockBytes)
  | mask (lz4_idz : ℕ) (lz4_blocks : CompressedBlocks BlockBytes)

def MappedBlocks.after (s : MappedBlocks) : BlockEvent → MappedBlocks
  | .map files start_k => (mapCube files start_k s).1
  | .pixels zfp_idz zfp_blocks => { s with cube_pixels := Function.update s.cube_pixels zfp_idz (some ⟨none, zfp_blocks⟩) }
  | .mask lz4_idz lz4_blocks => { s with cube_mask := Function.update s.cube_mask lz4_idz (some ⟨none, lz4_blocks⟩) }

def reached (events : List BlockEvent) : MappedBlocks := events.foldl MappedBlocks.after MappedBlocks.empty

/-! ## The blocks -/

def MappedBlocks.contents (s : MappedBlocks) : StoredBlocks where
  cube_pixels := Option.map HeldBlocks.blocks ∘ s.cube_pixels
  cube_mask := Option.map HeldBlocks.blocks ∘ s.cube_mask

theorem mapMasks_contents (files : BlockFiles) (ks : List ℕ) (s : MappedBlocks) :
    ((mapMasks files ks s).1.contents, (mapMasks files ks s).2) = loadMasks mmapFile files ks s.contents := by
  induction ks generalizing s with
  | nil => rfl
  | cons k ks ih =>
    rw [mapMasks, loadMasks]
    cases mmapFile (files.lz4 k) with
    | none => rfl
    | some blocks =>
      dsimp only
      rw [ih]
      unfold MappedBlocks.contents MappedBlocks.mapMask
      rw [Function.comp_update]
      rfl

/-- Mappings apart, the group is mapped as its files say. -/
theorem mapCube_contents (files : BlockFiles) (start_k : ℕ) (s : MappedBlocks) :
    ((mapCube files start_k s).1.contents, (mapCube files start_k s).2) = zfpMmapCube files start_k s.contents := by
  unfold mapCube zfpMmapCube loadCube
  dsimp only
  cases mmapFile (files.zfp (start_k / 4)) with
  | none => rfl
  | some blocks =>
    dsimp only
    rw [mapMasks_contents]
    unfold MappedBlocks.contents MappedBlocks.mapPixels
    rw [Function.comp_update]
    rfl

/-! ## The mappings -/

/-- Blocks point into the mapping stored beside them, and mappings are numbered. -/
structure MappedBlocks.Ok (s : MappedBlocks) : Prop where
  pixels : ∀ g b m, s.cube_pixels g = some b → b.mmap = some m → s.cube_pixels_mmap g = some m
  mask : ∀ k b m, s.cube_mask k = some b → b.mmap = some m → s.cube_mask_mmap k = some m
  numbered : ∀ g m, s.cube_pixels_mmap g = some m → m < s.mmaps

theorem ok_empty : MappedBlocks.empty.Ok := by
  refine ⟨fun _ _ _ h => ?_, fun _ _ _ h => ?_, fun _ _ h => ?_⟩
  · cases h
  · cases h
  · cases h

section
variable {s : MappedBlocks}

theorem ok_mapPixels (h : s.Ok) (zfp_idz : ℕ) (zfp_blocks : CompressedBlocks BlockBytes) : (s.mapPixels zfp_idz zfp_blocks).Ok := by
  refine ⟨fun g b m hb hm => ?_, h.mask, fun g m hg => ?_⟩
  · show Function.update s.cube_pixels_mmap zfp_idz (some s.mmaps) g = some m
    change Function.update s.cube_pixels zfp_idz _ g = some b at hb
    by_cases hsame : g = zfp_idz
    · subst hsame
      rw [Function.update_self] at hb ⊢
      cases hb
      exact hm
    · rw [Function.update_of_ne hsame] at hb ⊢
      exact h.pixels g b m hb hm
  · show m < s.mmaps + 1
    change Function.update s.cube_pixels_mmap zfp_idz _ g = some m at hg
    by_cases hsame : g = zfp_idz
    · subst hsame
      rw [Function.update_self] at hg
      cases hg
      exact Nat.lt_succ_self _
    · rw [Function.update_of_ne hsame] at hg
      exact Nat.lt_succ_of_lt (h.numbered g m hg)

theorem ok_mapMask (h : s.Ok) (lz4_idz : ℕ) (lz4_blocks : CompressedBlocks BlockBytes) : (s.mapMask lz4_idz lz4_blocks).Ok := by
  refine ⟨h.pixels, fun k b m hb hm => ?_, fun g m hg => Nat.lt_succ_of_lt (h.numbered g m hg)⟩
  show Function.update s.cube_mask_mmap lz4_idz (some s.mmaps) k = some m
  change Function.update s.cube_mask lz4_idz _ k = some b at hb
  by_cases hsame : k = lz4_idz
  · subst hsame
    rw [Function.update_self] at hb ⊢
    cases hb
    exact hm
  · rw [Function.update_of_ne hsame] at hb ⊢
    exact h.mask k b m hb hm

theorem ok_mapMasks (files : BlockFiles) (ks : List ℕ) (h : s.Ok) : (mapMasks files ks s).1.Ok := by
  induction ks generalizing s with
  | nil => exact h
  | cons k ks ih =>
    rw [mapMasks]
    cases mmapFile (files.lz4 k) with
    | none => exact h
    | some blocks => exact ih (ok_mapMask h k blocks)

theorem ok_mapCube (files : BlockFiles) (start_k : ℕ) (h : s.Ok) : (mapCube files start_k s).1.Ok := by
  unfold mapCube
  dsimp only
  cases mmapFile (files.zfp (start_k / 4)) with
  | none => exact h
  | some blocks => exact ok_mapMasks files _ (ok_mapPixels h _ blocks)

/-- Blocks that point into no mapping. -/
theorem update_allocated {cube : ℕ → Option HeldBlocks} {mmaps : ℕ → Option ℕ}
    (h : ∀ g b m, cube g = some b → b.mmap = some m → mmaps g = some m) (i : ℕ) (blocks : CompressedBlocks BlockBytes) (g : ℕ)
    (b : HeldBlocks) (m : ℕ) (hb : Function.update cube i (some ⟨none, blocks⟩) g = some b) (hm : b.mmap = some m) :
    mmaps g = some m := by
  by_cases hsame : g = i
  · subst hsame
    rw [Function.update_self] at hb
    cases hb
    cases hm
  · rw [Function.update_of_ne hsame] at hb
    exact h g b m hb hm

theorem ok_after (h : s.Ok) (e : BlockEvent) : (s.after e).Ok := by
  cases e with
  | map files start_k => exact ok_mapCube files start_k h
  | pixels zfp_idz zfp_blocks => exact ⟨update_allocated h.pixels zfp_idz zfp_blocks, h.mask, h.numbered⟩
  | mask lz4_idz lz4_blocks => exact ⟨h.pixels, update_allocated h.mask lz4_idz lz4_blocks, h.numbered⟩

theorem ok_reached (events : List BlockEvent) : (reached events).Ok := by
  unfold reached
  induction events using List.reverseRecOn with
  | nil => exact ok_empty
  | append_singleton events e ih =>
    rw [List.foldl_append]
    exact ok_after ih e

def MappedBlocks.Mapped (s : MappedBlocks) (m : ℕ) : Prop :=
  (∃ g, s.cube_pixels_mmap g = some m) ∨ ∃ k, s.cube_mask_mmap k = some m

structure MappedBlocks.NoDangling (s : MappedBlocks) : Prop where
  pixels : ∀ g b m, s.cube_pixels g = some b → b.mmap = some m → s.Mapped m
  mask : ∀ k b m, s.cube_mask k = some b → b.mmap = some m → s.Mapped m

theorem no_dangling (h : s.Ok) : s.NoDangling :=
  ⟨fun g b m hb hm => Or.inl ⟨g, h.pixels g b m hb hm⟩, fun k b m hb hm => Or.inr ⟨k, h.mask k b m hb hm⟩⟩

end

/-! ## A call that fails -/

structure SameGroup (s s' : MappedBlocks) (start_k : ℕ) : Prop where
  cube_pixels : s'.cube_pixels (start_k / 4) = s.cube_pixels (start_k / 4)
  cube_pixels_mmap : s'.cube_pixels_mmap (start_k / 4) = s.cube_pixels_mmap (start_k / 4)
  cube_mask : ∀ k < 4, s'.cube_mask (start_k + k) = s.cube_mask (start_k + k)
  cube_mask_mmap : ∀ k < 4, s'.cube_mask_mmap (start_k + k) = s.cube_mask_mmap (start_k + k)

def NoTrace (files : BlockFiles) (start_k : ℕ) (s : MappedBlocks) : Prop :=
  (mapCube files start_k s).2 = false →
    SameGroup s (mapCube files start_k s).1 start_k ∧ (mapCube files start_k s).1.NoDangling

def Absent (file : Option BlockBytes) : Prop := ∀ content, file = some content → content = []

theorem mmapFile_none_iff (file : Option BlockBytes) : mmapFile file = none ↔ Absent file := by
  unfold Absent
  cases file with
  | none => simp [mmapFile]
  | some content =>
    cases content with
    | nil => simp [mmapFile]
    | cons b content => simp [mmapFile]

theorem mapMasks_pixels_mmap (files : BlockFiles) (ks : List ℕ) (s : MappedBlocks) :
    (mapMasks files ks s).1.cube_pixels_mmap = s.cube_pixels_mmap := by
  induction ks generalizing s with
  | nil => rfl
  | cons k ks ih =>
    rw [mapMasks]
    cases mmapFile (files.lz4 k) with
    | none => rfl
    | some blocks => exact ih _

theorem mapCube_succeeds (files : BlockFiles) (start_k : ℕ) (s : MappedBlocks) :
    (mapCube files start_k s).2 = true ↔
      ¬ Absent (files.zfp (start_k / 4)) ∧ ∀ k < 4, ¬ Absent (files.lz4 (start_k + k)) := by
  have hflag : (mapCube files start_k s).2 = (zfpMmapCube files start_k s.contents).2 :=
    congrArg Prod.snd (mapCube_contents files start_k s)
  simp only [← mmapFile_none_iff]
  rw [hflag]
  unfold zfpMmapCube loadCube
  dsimp only
  cases mmapFile (files.zfp (start_k / 4)) with
  | none => simp
  | some blocks =>
    dsimp only
    rw [loadMasks_ok]
    refine ⟨fun h => ⟨Option.some_ne_none _, fun k hk => h _ (List.mem_range'_1.mpr (by omega))⟩, fun h k hk => ?_⟩
    obtain ⟨hle, hlt⟩ := List.mem_range'_1.mp hk
    have hplane := h.2 (k - start_k) (by omega)
    rwa [Nat.add_sub_cancel' hle] at hplane

/-- Whatever was stored before and whatever the files hold: a call that fails leaves no trace
    if and only if there are no pixels to map, or it does not fail. -/
theorem no_trace_iff (events : List BlockEvent) (files : BlockFiles) (start_k : ℕ) :
    NoTrace files start_k (reached events) ↔
      Absent (files.zfp (start_k / 4)) ∨ ∀ k < 4, ¬ Absent (files.lz4 (start_k + k)) := by
  have hok := ok_reached events
  constructor
  · intro htrace
    by_contra hnot
    rw [not_or] at hnot
    obtain ⟨hpixels, hmasks⟩ := hnot
    have hfails : (mapCube files start_k (reached events)).2 = false := by
      rw [Bool.eq_false_iff, Ne, mapCube_succeeds]
      exact fun h => hmasks h.2
    -- the pixels' mapping is a new one
    have hsame := (htrace hfails).1.cube_pixels_mmap
    obtain ⟨blocks, hblocks⟩ := Option.ne_none_iff_exists'.mp fun h => hpixels ((mmapFile_none_iff _).mp h)
    have hnew : (mapCube files start_k (reached events)).1.cube_pixels_mmap (start_k / 4) = some (reached events).mmaps := by
      unfold mapCube
      dsimp only
      rw [hblocks]
      dsimp only
      rw [mapMasks_pixels_mmap]
      exact Function.update_self _ _ _
    rw [hnew] at hsame
    exact absurd (hok.numbered _ _ hsame.symm) (Nat.lt_irrefl _)
  · intro hfiles hfails
    have hpixels : Absent (files.zfp (start_k / 4)) := hfiles.elim id fun hmasks => by
      by_contra hpixels
      rw [(mapCube_succeeds files start_k _).mpr ⟨hpixels, hmasks⟩] at hfails
      cases hfails
    have hkept : (mapCube files start_k (reached events)).1 = reached events := by
      unfold mapCube
      dsimp only
      rw [(mmapFile_none_iff _).mpr hpixels]
    rw [hkept]
    exact ⟨⟨rfl, rfl, fun _ _ => rfl, fun _ _ => rfl⟩, no_dangling hok⟩

/-! ## A group with one mask's file -/

/-- Group 1: its pixels' file, and frame 4's mask's. Those of the other three masks could not be
    opened when their blocks were to be appended. -/
def oneMask : BlockFiles where
  zfp g := if g = 1 then blockFile [oneBlock] else none
  lz4 k := if k = 4 then blockFile [oneBlock] else none

/-- The call fails at the second mask's file, with the pixels and the first mask stored. -/
theorem a_failed_call_stores :
    ¬ ∀ (events : List BlockEvent) (files : BlockFiles) (start_k : ℕ), NoTrace files start_k (reached events) := by
  intro h
  have hfails : (mapCube oneMask 4 (reached [])).2 = false := by decide +kernel
  have hsame := (h [] oneMask 4 hfails).1.cube_pixels_mmap
  revert hsame
  decide +kernel

end FitsWebQL
