/-
  FitsWebQL.TileResize — `tileResize32f_C1R` and `tileResize8u_C1R`: an image resized by
  rows, a tile of them for each thread, each written to its own place; with `mirror` each
  tile goes to the place upside down and is then turned over where it is, by the kernels
  `mirror_float32` and `mirror_u8`.

  What the IPP calls answer is a parameter (`Ipp`). Threads have rows of their own, so one
  runs after the other here, in any order. Offsets are `int`.

  The kernels are given a width and take it for the distance from one row to the next, which
  is `dstStep`: the video's frames are padded and have a longer one.

  Proved, for every size, step and number of threads, when IPP succeeds and a tile's resize
  writes the rows that the whole image's has:
  - `tileResize_mirror_iff`: mirrored is upside down, and each pixel is written once, exactly
    when no offset overflows, and rows follow one another, or there are no columns, or no
    tile has two rows.
  - `mirror_padded_rows`: two rows of one pixel, one of padding.
-/

import FitsWebQL.Lib.Rows
import FitsWebQL.Lib.ParallelFor

namespace FitsWebQL

open Lib.Scatter Lib.Rows Lib.ParallelFor

structure IppiSize where
  width : ℕ
  height : ℕ
  deriving DecidableEq

inductive IppStatus where
  | ippStsNoErr
  | ippStsNoMemErr
  | other (code : ℤ)
  deriving DecidableEq

open IppStatus

/-- The calls of one resize. `getSrcRoi` has the row its tile begins at in the source; `resize` has
    the pixels it writes, by row and column of the tile. -/
structure Ipp (α : Type) where
  resizeGetSize : IppiSize → IppiSize → IppStatus
  specAllocated : Bool
  resizeLanczosInit : IppiSize → IppiSize → IppStatus
  getBorderSize : IppStatus
  bufferAllocated : Bool
  getSrcRoi : ℕ → IppiSize → IppStatus × ℕ
  resizeLanczos : (ℕ → α) → ℕ → ℕ → IppiSize → IppStatus × (ℕ → ℕ → Option α)

structure ResizeArgs where
  srcSize : IppiSize
  srcStep : ℕ
  dstSize : IppiSize
  dstStep : ℕ
  numThreads : ℕ
  step_le : dstSize.width ≤ dstStep
  threads_pos : 0 < numThreads

namespace ResizeArgs

variable (args : ResizeArgs)

def slice : ℕ := args.dstSize.height / args.numThreads

def tail : ℕ := args.dstSize.height % args.numThreads

/-- `dstTileSize`, and `dstLastTileSize` for the last thread. -/
def tileSize (i : ℕ) : IppiSize :=
  ⟨args.dstSize.width, if i + 1 = args.numThreads then args.slice + args.tail else args.slice⟩

def dstOffset (i : ℕ) : ℕ := i * args.slice

def tileRow (mirror : Bool) (i : ℕ) : ℕ :=
  if !mirror then args.dstOffset i
  else if i + 1 = args.numThreads then 0
  else args.dstSize.height - (i + 1) * args.slice

end ResizeArgs

section Tiles

variable {α : Type} (ipp : Ipp α) (pSrc : ℕ → α) (args : ResizeArgs) (mirror : Bool)

def tileResized (i : ℕ) : IppStatus × (ℕ → ℕ → Option α) :=
  let srcOffset := (ipp.getSrcRoi (args.dstOffset i) (args.tileSize i)).2
  ipp.resizeLanczos (fun k => pSrc (srcOffset * args.srcStep + k)) args.srcStep (args.dstOffset i) (args.tileSize i)

def tileStatus (i : ℕ) : IppStatus :=
  let roi := (ipp.getSrcRoi (args.dstOffset i) (args.tileSize i)).1
  if roi = ippStsNoErr then (tileResized ipp pSrc args i).1 else roi

def tileStores (i : ℕ) : List (ℕ × α) :=
  if (ipp.getSrcRoi (args.dstOffset i) (args.tileSize i)).1 = ippStsNoErr then
    (cells (args.tileSize i).height (args.tileSize i).width).filterMap fun x =>
      ((tileResized ipp pSrc args i).2 x.1 x.2).map fun v =>
        (args.tileRow mirror i * args.dstStep + place args.dstStep x.1 x.2, v)
  else []

def tileThread (i : ℕ) (dst : ℕ → α) : ℕ → α :=
  if (ipp.getSrcRoi (args.dstOffset i) (args.tileSize i)).1 = ippStsNoErr then
    let dst := store (tileStores ipp pSrc args mirror i) dst
    if mirror then
      Lib.Rows.mirror (args.tileSize i).width (args.tileSize i).height (args.tileRow mirror i * args.dstStep) dst
    else dst
  else dst

def TileInts (i : ℕ) : Prop :=
  let roi := ipp.getSrcRoi (args.dstOffset i) (args.tileSize i)
  roi.1 = ippStsNoErr →
    roi.2 * args.srcStep < 2 ^ 31 ∧ args.tileRow mirror i * args.dstStep < 2 ^ 31 ∧
      (mirror = true → ∀ x ∈ half (args.tileSize i).width (args.tileSize i).height,
        lower (args.tileSize i).width (args.tileSize i).height 0 x < 2 ^ 31)

instance (i : ℕ) : Decidable (TileInts ipp args mirror i) := inferInstanceAs (Decidable (_ → _))

end Tiles

/-- `none` on overflow; else the status and `pDst` when the threads have run in some order. -/
def tileResize {α : Type} (ipp : Ipp α) (pSrc : ℕ → α) (args : ResizeArgs) (pDst : ℕ → α) (mirror : Bool) (order : List ℕ) :
    Option (IppStatus × (ℕ → α)) :=
  let status := ipp.resizeGetSize args.srcSize args.dstSize
  if status ≠ ippStsNoErr then some (status, pDst)
  else if !ipp.specAllocated then some (ippStsNoMemErr, pDst)
  else
    let status := ipp.resizeLanczosInit args.srcSize args.dstSize
    if status ≠ ippStsNoErr then some (status, pDst)
    else
      let status := ipp.getBorderSize
      if status ≠ ippStsNoErr then some (status, pDst)
      else if !ipp.bufferAllocated then some (ippStsNoMemErr, pDst)
      else if ∀ i < args.numThreads, TileInts ipp args mirror i then
        let pStatus := (List.range args.numThreads).map (tileStatus ipp pSrc args)
        let pDst := order.foldl (fun dst i => tileThread ipp pSrc args mirror i dst) pDst
        -- the first bad status
        some ((pStatus.find? fun s => s ≠ ippStsNoErr).getD status, pDst)
      else none

/-- A float, `none` for NaN and the infinities. -/
def tileResize32f_C1R (ipp : Ipp (Option ℚ)) (pSrc : ℕ → Option ℚ) (args : ResizeArgs) (pDst : ℕ → Option ℚ) (mirror : Bool)
    (order : List ℕ) : Option (IppStatus × (ℕ → Option ℚ)) :=
  tileResize ipp pSrc args pDst mirror order

def tileResize8u_C1R (ipp : Ipp UInt8) (pSrc : ℕ → UInt8) (args : ResizeArgs) (pDst : ℕ → UInt8) (mirror : Bool)
    (order : List ℕ) : Option (IppStatus × (ℕ → UInt8)) :=
  tileResize ipp pSrc args pDst mirror order

variable {α : Type}

/-- Every call succeeds, a tile begins at row `roi` of the source, and its resize writes the rows of the
    whole image's. -/
structure Ipp.Resizes (ipp : Ipp α) (pSrc : ℕ → α) (args : ResizeArgs) (roi : ℕ → IppiSize → ℕ) (image : ℕ → ℕ → α) : Prop where
  getSize : ipp.resizeGetSize args.srcSize args.dstSize = ippStsNoErr
  spec : ipp.specAllocated = true
  init : ipp.resizeLanczosInit args.srcSize args.dstSize = ippStsNoErr
  border : ipp.getBorderSize = ippStsNoErr
  buffer : ipp.bufferAllocated = true
  srcRoi : ∀ y tile, ipp.getSrcRoi y tile = (ippStsNoErr, roi y tile)
  status : ∀ i < args.numThreads, (tileResized ipp pSrc args i).1 = ippStsNoErr
  rows : ∀ i < args.numThreads, ∀ r < (args.tileSize i).height, ∀ c < args.dstSize.width,
    (tileResized ipp pSrc args i).2 r c = some (image (args.dstOffset i + r) c)

/-- With `mirror` the image is upside down, and either way each of its pixels is stored once. -/
def MirrorFlips (resize : Ipp α → (ℕ → α) → ResizeArgs → (ℕ → α) → Bool → List ℕ → Option (IppStatus × (ℕ → α)))
    (args : ResizeArgs) (roi : ℕ → IppiSize → ℕ) : Prop :=
  ∀ (ipp : Ipp α) (pSrc pDst : ℕ → α) (image : ℕ → ℕ → α) (order order' : List ℕ), ipp.Resizes pSrc args roi image →
    order.Perm (List.range args.numThreads) → order'.Perm (List.range args.numThreads) →
      ∃ upright mirrored, resize ipp pSrc args pDst false order = some (ippStsNoErr, upright) ∧
        resize ipp pSrc args pDst true order' = some (ippStsNoErr, mirrored) ∧
        (∀ y < args.dstSize.height, ∀ c < args.dstSize.width,
          mirrored (place args.dstStep (args.dstSize.height - 1 - y) c) = upright (place args.dstStep y c)) ∧
        ∀ mirror, ∀ y < args.dstSize.height, ∀ c < args.dstSize.width,
          hits (place args.dstStep y c) ((List.range args.numThreads).flatMap (tileStores ipp pSrc args mirror)) = 1

def OffsetsFit (args : ResizeArgs) (roi : ℕ → IppiSize → ℕ) : Prop :=
  ∀ i < args.numThreads, roi (args.dstOffset i) (args.tileSize i) * args.srcStep < 2 ^ 31 ∧
    (∀ mirror, args.tileRow mirror i * args.dstStep < 2 ^ 31) ∧
      ∀ x ∈ half (args.tileSize i).width (args.tileSize i).height,
        lower (args.tileSize i).width (args.tileSize i).height 0 x < 2 ^ 31

/-! ## The rows of a tile -/

namespace ResizeArgs

variable {args : ResizeArgs} {i : ℕ}

theorem tileSize_height : (args.tileSize i).height = chunkSize args.dstSize.height args.numThreads i := by
  unfold tileSize chunkSize chunkStart
  dsimp only
  split
  · rename_i hlast
    have hall : args.numThreads * args.slice + args.tail = args.dstSize.height := Nat.div_add_mod _ _
    have hslice : args.dstSize.height / args.numThreads = args.slice := rfl
    rw [hslice]
    rw [← hlast, Nat.succ_mul] at hall
    omega
  · rfl

theorem dstOffset_eq : args.dstOffset i = chunkStart args.dstSize.height args.numThreads i := rfl

theorem tile_end_le (hi : i < args.numThreads) : args.dstOffset i + (args.tileSize i).height ≤ args.dstSize.height := by
  rw [tileSize_height, dstOffset_eq]
  exact chunk_end_le hi

/-- Upside down a tile ends where it began. -/
theorem tileRow_mirrored :
    args.tileRow true i = args.dstSize.height - (args.dstOffset i + (args.tileSize i).height) := by
  unfold tileRow
  rw [if_neg (by decide)]
  split
  · rename_i hlast
    have hall : args.numThreads * args.slice + args.tail = args.dstSize.height := Nat.div_add_mod _ _
    have hheight : (args.tileSize i).height = args.slice + args.tail := if_pos hlast
    rw [← hlast, Nat.succ_mul] at hall
    rw [hheight]
    unfold dstOffset
    omega
  · rename_i hlast
    have hheight : (args.tileSize i).height = args.slice := if_neg hlast
    rw [hheight, Nat.succ_mul]
    rfl

def Has (args : ResizeArgs) (mirror : Bool) (i q : ℕ) : Prop :=
  args.tileRow mirror i ≤ q ∧ q < args.tileRow mirror i + (args.tileSize i).height

instance (mirror : Bool) (i q : ℕ) : Decidable (args.Has mirror i q) := inferInstanceAs (Decidable (_ ∧ _))

theorem has_mirrored (hi : i < args.numThreads) {q : ℕ} (hq : q < args.dstSize.height) :
    args.Has true i q ↔ args.Has false i (args.dstSize.height - 1 - q) := by
  have hend := tile_end_le hi
  have hrow := @tileRow_mirrored args i
  have hupright : args.tileRow false i = args.dstOffset i := rfl
  unfold Has
  omega

theorem has_lt (hi : i < args.numThreads) {mirror : Bool} {q : ℕ} (h : args.Has mirror i q) : q < args.dstSize.height := by
  have hend := tile_end_le hi
  have hrow := @tileRow_mirrored args i
  have hupright : args.tileRow false i = args.dstOffset i := rfl
  unfold Has at h
  cases mirror <;> omega

/-- A row is in one tile only. -/
theorem has_unique {mirror : Bool} {j q : ℕ} (hi : i < args.numThreads) (hj : j < args.numThreads) (h : args.Has mirror i q)
    (h' : args.Has mirror j q) : i = j := by
  have hupright : ∀ q, args.Has false i q → args.Has false j q → i = j := by
    intro q h h'
    unfold Has at h h'
    rw [tileSize_height] at h h'
    exact chunk_disjoint hi hj h h'
  cases mirror with
  | false => exact hupright q h h'
  | true => exact hupright _ ((has_mirrored hi (has_lt hi h)).mp h) ((has_mirrored hj (has_lt hi h)).mp h')

/-- Every row is in a tile. -/
theorem exists_has (args : ResizeArgs) (mirror : Bool) {q : ℕ} (hq : q < args.dstSize.height) :
    ∃ i < args.numThreads, args.Has mirror i q := by
  have hupright : ∀ q < args.dstSize.height, ∃ i < args.numThreads, args.Has false i q := by
    intro q hq
    obtain ⟨i, hi, hmem⟩ := mem_chunk args.threads_pos (List.mem_range.mpr hq)
    rw [chunk_range hi, List.mem_range'_1] at hmem
    refine ⟨i, hi, ?_⟩
    unfold Has
    rw [tileSize_height]
    exact hmem
  cases mirror with
  | false => exact hupright q hq
  | true =>
    obtain ⟨i, hi, h⟩ := hupright (args.dstSize.height - 1 - q) (by omega)
    exact ⟨i, hi, (has_mirrored hi hq).mpr h⟩

end ResizeArgs

/-! ## What a thread leaves -/

section Thread

variable {ipp : Ipp α} {pSrc : ℕ → α} {args : ResizeArgs} {roi : ℕ → IppiSize → ℕ} {image : ℕ → ℕ → α} {i : ℕ}

open ResizeArgs

theorem tileStores_eq (h : ipp.Resizes pSrc args roi image) (mirror : Bool) (hi : i < args.numThreads) :
    tileStores ipp pSrc args mirror i = (cells (args.tileSize i).height args.dstSize.width).map fun x =>
      (args.tileRow mirror i * args.dstStep + place args.dstStep x.1 x.2, image (args.dstOffset i + x.1) x.2) := by
  unfold tileStores
  rw [if_pos (by rw [h.srcRoi])]
  rw [← List.filterMap_eq_map']
  refine List.filterMap_congr fun x hx => ?_
  obtain ⟨hr, hc⟩ := mem_cells.mp hx
  rw [h.rows i hi x.1 hr x.2 hc]
  rfl

theorem tileThread_eq (h : ipp.Resizes pSrc args roi image) (mirror : Bool) (i : ℕ) (dst : ℕ → α) :
    tileThread ipp pSrc args mirror i dst =
      if mirror then
        Lib.Rows.mirror args.dstSize.width (args.tileSize i).height (args.tileRow mirror i * args.dstStep)
          (store (tileStores ipp pSrc args mirror i) dst)
      else store (tileStores ipp pSrc args mirror i) dst := by
  unfold tileThread
  rw [if_pos (by rw [h.srcRoi])]
  rfl

def TilePlaces (args : ResizeArgs) (mirror : Bool) (i p : ℕ) : Prop :=
  args.tileRow mirror i * args.dstStep ≤ p ∧ p < args.tileRow mirror i * args.dstStep + args.dstStep * (args.tileSize i).height

theorem tilePlaces_place {mirror : Bool} {r c : ℕ} (hr : r < (args.tileSize i).height) (hc : c < args.dstSize.width) :
    TilePlaces args mirror i (args.tileRow mirror i * args.dstStep + place args.dstStep r c) := by
  have hlt : place args.dstStep r c < args.dstStep * (args.tileSize i).height := place_lt hr (hc.trans_le args.step_le)
  unfold TilePlaces
  omega

theorem has_of_tilePlaces {mirror : Bool} {p : ℕ} (h : TilePlaces args mirror i p) : args.Has mirror i (p / args.dstStep) := by
  obtain ⟨hlow, hhigh⟩ := h
  have hpos : 0 < args.dstStep := Nat.pos_of_ne_zero fun h0 => by simp [h0] at hhigh
  rw [Nat.mul_comm args.dstStep, ← Nat.add_mul] at hhigh
  exact ⟨(Nat.le_div_iff_mul_le hpos).mpr hlow, (Nat.div_lt_iff_lt_mul hpos).mpr hhigh⟩

theorem tileThread_own (h : ipp.Resizes pSrc args roi image) (mirror : Bool) :
    Own (fun i dst => if i < args.numThreads then tileThread ipp pSrc args mirror i dst else dst) (TilePlaces args mirror) := by
  have hstored : ∀ i < args.numThreads, ∀ w ∈ tileStores ipp pSrc args mirror i, TilePlaces args mirror i w.1 := by
    intro i hi w hw
    rw [tileStores_eq h mirror hi] at hw
    obtain ⟨x, hx, rfl⟩ := List.mem_map.mp hw
    obtain ⟨hr, hc⟩ := mem_cells.mp hx
    exact tilePlaces_place hr hc
  -- what the kernel turns over is within the thread's places
  have hwithin : ∀ i, args.dstSize.width * (args.tileSize i).height ≤ args.dstStep * (args.tileSize i).height :=
    fun i => Nat.mul_le_mul_right _ args.step_le
  constructor
  · intro i a p hp
    split
    · rename_i hi
      have hkeep : store (tileStores ipp pSrc args mirror i) a p = a p :=
        store_notMem _ a p fun w hw e => hp (e ▸ hstored i hi w hw)
      rw [tileThread_eq h]
      split
      · rw [mirror_outside _ _ _ _ ?_, hkeep]
        have := hwithin i
        unfold TilePlaces at hp
        omega
      · exact hkeep
    · rfl
  · intro i a b hab p hp
    split
    · have hstore : ∀ q, TilePlaces args mirror i q →
          store (tileStores ipp pSrc args mirror i) a q = store (tileStores ipp pSrc args mirror i) b q :=
        fun q hq => store_apply_congr _ (hab q hq)
      rw [tileThread_eq h, tileThread_eq h]
      split
      · refine mirror_congr (fun q hlow hhigh => ?_) hstore p hp
        have := hwithin i
        unfold TilePlaces
        omega
      · exact hstore p hp
    · exact hab p hp

/-- All threads have run: each place is as its thread alone leaves it. -/
theorem threads_place (h : ipp.Resizes pSrc args roi image) (mirror : Bool) {order : List ℕ}
    (horder : order.Perm (List.range args.numThreads)) (hi : i < args.numThreads) (dst : ℕ → α) {p : ℕ}
    (hp : TilePlaces args mirror i p) :
    order.foldl (fun dst i => tileThread ipp pSrc args mirror i dst) dst p = tileThread ipp pSrc args mirror i dst p := by
  have hmem : ∀ j ∈ order, j < args.numThreads := fun j hj => List.mem_range.mp (horder.mem_iff.mp hj)
  have hown := foldl_own (tileThread_own h mirror) (horder.nodup_iff.mpr List.nodup_range)
    (fun j hj k hk hne q hjq hkq =>
      hne (has_unique (hmem j hj) (hmem k hk) (has_of_tilePlaces hjq) (has_of_tilePlaces hkq)))
    (horder.mem_iff.mpr (List.mem_range.mpr hi)) dst hp
  rw [if_pos hi] at hown
  rw [← hown]
  exact congrFun (List.foldl_ext _ _ dst fun a j hj => (if_pos (hmem j hj)).symm) p

/-- A pixel of a tile, when its resize has run. -/
theorem stored_place (h : ipp.Resizes pSrc args roi image) (mirror : Bool) (hi : i < args.numThreads) (dst : ℕ → α) {r c : ℕ}
    (hr : r < (args.tileSize i).height) (hc : c < args.dstSize.width) :
    store (tileStores ipp pSrc args mirror i) dst (args.tileRow mirror i * args.dstStep + place args.dstStep r c) =
      image (args.dstOffset i + r) c := by
  rw [tileStores_eq h mirror hi]
  refine store_mem _ _ _ _ (List.mem_map.mpr ⟨(r, c), mem_cells.mpr ⟨hr, hc⟩, rfl⟩) fun w hw he => ?_
  obtain ⟨x, hx, rfl⟩ := List.mem_map.mp hw
  obtain ⟨-, hxc⟩ := mem_cells.mp hx
  obtain ⟨h1, h2⟩ := place_inj (hxc.trans_le args.step_le) (hc.trans_le args.step_le) (Nat.add_left_cancel he)
  rw [h1, h2]

/-- Not mirrored: the image. -/
theorem upright_place (h : ipp.Resizes pSrc args roi image) {order : List ℕ} (horder : order.Perm (List.range args.numThreads))
    (dst : ℕ → α) {y c : ℕ} (hy : y < args.dstSize.height) (hc : c < args.dstSize.width) :
    order.foldl (fun dst i => tileThread ipp pSrc args false i dst) dst (place args.dstStep y c) = image y c := by
  obtain ⟨i, hi, hlow, hhigh⟩ := exists_has args false hy
  obtain ⟨r, rfl⟩ := Nat.exists_eq_add_of_le hlow
  have hr : r < (args.tileSize i).height := by omega
  rw [← place_add, threads_place h false horder hi dst (tilePlaces_place hr hc), tileThread_eq h]
  exact stored_place h false hi dst hr hc

/-- Mirrored: the image upside down, when the kernel's rows are the tile's. -/
theorem mirrored_place (h : ipp.Resizes pSrc args roi image) {order : List ℕ} (horder : order.Perm (List.range args.numThreads))
    (hrows : args.dstStep = args.dstSize.width ∨ args.slice + args.tail ≤ 1) (dst : ℕ → α) {y c : ℕ} (hy : y < args.dstSize.height)
    (hc : c < args.dstSize.width) :
    order.foldl (fun dst i => tileThread ipp pSrc args true i dst) dst (place args.dstStep (args.dstSize.height - 1 - y) c) =
      image y c := by
  obtain ⟨i, hi, hlow, hhigh⟩ := exists_has args false hy
  obtain ⟨r, rfl⟩ := Nat.exists_eq_add_of_le hlow
  have hr : r < (args.tileSize i).height := by omega
  have hrow := @tileRow_mirrored args i
  have hend := tile_end_le hi
  have hplace : place args.dstStep (args.dstSize.height - 1 - (args.tileRow false i + r)) c =
      args.tileRow true i * args.dstStep + place args.dstStep ((args.tileSize i).height - 1 - r) c := by
    have hupright : args.tileRow false i = args.dstOffset i := rfl
    rw [place_add]
    congr 1
    omega
  rw [hplace, threads_place h true horder hi dst (tilePlaces_place (by omega) hc), tileThread_eq h, if_pos rfl]
  rcases hrows with hstep | hone
  · have hturn := mirror_row args.dstSize.width (args.tileSize i).height (args.tileRow true i * args.dstStep)
      (store (tileStores ipp pSrc args true i) dst) (show (args.tileSize i).height - 1 - r < (args.tileSize i).height by omega) hc
    rw [hstep] at hturn ⊢
    rw [hturn, show (args.tileSize i).height - 1 - ((args.tileSize i).height - 1 - r) = r by omega, ← hstep]
    exact stored_place h true hi dst hr hc
  · have hheight : (args.tileSize i).height ≤ 1 := by
      unfold tileSize
      dsimp only
      split <;> omega
    rw [mirror_one hheight, show (args.tileSize i).height - 1 - r = r by omega]
    exact stored_place h true hi dst hr hc

/-- One tile stores to a place, once. -/
theorem hits_place (h : ipp.Resizes pSrc args roi image) (mirror : Bool) {y c : ℕ} (hy : y < args.dstSize.height)
    (hc : c < args.dstSize.width) :
    hits (place args.dstStep y c) ((List.range args.numThreads).flatMap (tileStores ipp pSrc args mirror)) = 1 := by
  have htile : ∀ i ∈ List.range args.numThreads, hits (place args.dstStep y c) (tileStores ipp pSrc args mirror i) =
      if args.Has mirror i y then 1 else 0 := by
    intro i hi
    rw [tileStores_eq h mirror (List.mem_range.mp hi), hits_map (nodup_cells _ _)]
    · refine if_congr ⟨?_, fun hy => ?_⟩ rfl rfl
      · intro hcell
        obtain ⟨x, hx, he⟩ := hcell
        obtain ⟨hxr, hxc⟩ := mem_cells.mp hx
        rw [place_add] at he
        obtain ⟨h1, -⟩ := place_inj (hc.trans_le args.step_le) (hxc.trans_le args.step_le) he
        unfold Has
        omega
      · obtain ⟨r, hr⟩ := Nat.exists_eq_add_of_le hy.1
        subst hr
        exact ⟨(r, c), mem_cells.mpr ⟨by have := hy.2; dsimp only; omega, hc⟩, (place_add _ _ _ _).symm⟩
    · intro x hx z hz he
      obtain ⟨-, hxc⟩ := mem_cells.mp hx
      obtain ⟨-, hzc⟩ := mem_cells.mp hz
      obtain ⟨h1, h2⟩ := place_inj (hxc.trans_le args.step_le) (hzc.trans_le args.step_le) (Nat.add_left_cancel he)
      exact Prod.ext h1 h2
  obtain ⟨i, hi, hiy⟩ := exists_has args mirror hy
  have hsum : ((List.range args.numThreads).map fun i => if args.Has mirror i y then 1 else 0).sum =
      ∑ j ∈ Finset.range args.numThreads, if args.Has mirror j y then 1 else 0 := rfl
  rw [hits_flatMap, List.map_congr_left htile, hsum, Finset.sum_eq_single i, if_pos hiy]
  · exact fun j hj hne => if_neg fun hjy => hne (has_unique (Finset.mem_range.mp hj) hi hjy hiy)
  · exact fun hout => absurd (Finset.mem_range.mpr hi) hout

/-- Every call succeeds: the threads run, unless an offset overflows. -/
theorem tileResize_resizes (h : ipp.Resizes pSrc args roi image) (mirror : Bool) (order : List ℕ) (dst : ℕ → α) :
    tileResize ipp pSrc args dst mirror order =
      if ∀ i < args.numThreads, TileInts ipp args mirror i then
        some (ippStsNoErr, order.foldl (fun dst i => tileThread ipp pSrc args mirror i dst) dst)
      else none := by
  have hstatus : ((List.range args.numThreads).map (tileStatus ipp pSrc args)).find? (fun s => s ≠ ippStsNoErr) = none := by
    rw [List.find?_eq_none]
    intro s hs
    obtain ⟨i, hi, rfl⟩ := List.mem_map.mp hs
    have hok : tileStatus ipp pSrc args i = ippStsNoErr := by
      unfold tileStatus
      rw [h.srcRoi, if_pos rfl]
      exact h.status i (List.mem_range.mp hi)
    simp [hok]
  unfold tileResize
  dsimp only
  rw [h.getSize, h.spec, h.init, h.border, h.buffer, hstatus]
  rfl

theorem tileInts_iff (h : ipp.Resizes pSrc args roi image) (mirror : Bool) (i : ℕ) :
    TileInts ipp args mirror i ↔
      roi (args.dstOffset i) (args.tileSize i) * args.srcStep < 2 ^ 31 ∧ args.tileRow mirror i * args.dstStep < 2 ^ 31 ∧
        (mirror = true → ∀ x ∈ half (args.tileSize i).width (args.tileSize i).height,
          lower (args.tileSize i).width (args.tileSize i).height 0 x < 2 ^ 31) := by
  unfold TileInts
  rw [h.srcRoi]
  exact forall_prop_of_true rfl

theorem offsetsFit_iff (h : ipp.Resizes pSrc args roi image) :
    OffsetsFit args roi ↔ ∀ mirror, ∀ i < args.numThreads, TileInts ipp args mirror i := by
  simp only [tileInts_iff h]
  constructor
  · intro hfit mirror i hi
    obtain ⟨hsrc, hrow, hkernel⟩ := hfit i hi
    exact ⟨hsrc, hrow mirror, fun _ => hkernel⟩
  · intro hints i hi
    exact ⟨(hints false i hi).1, fun mirror => (hints mirror i hi).2.1, (hints true i hi).2.2 rfl⟩

end Thread

/-! ## Exactly when -/

open ResizeArgs

def exactIpp (roi : ℕ → IppiSize → ℕ) (image : ℕ → ℕ → α) : Ipp α where
  resizeGetSize _ _ := ippStsNoErr
  specAllocated := true
  resizeLanczosInit _ _ := ippStsNoErr
  getBorderSize := ippStsNoErr
  bufferAllocated := true
  getSrcRoi y tile := (ippStsNoErr, roi y tile)
  resizeLanczos _ _ y _ := (ippStsNoErr, fun r c => some (image (y + r) c))

theorem exactIpp_resizes (pSrc : ℕ → α) (args : ResizeArgs) (roi : ℕ → IppiSize → ℕ) (image : ℕ → ℕ → α) :
    (exactIpp roi image).Resizes pSrc args roi image where
  getSize := rfl
  spec := rfl
  init := rfl
  border := rfl
  buffer := rfl
  srcRoi _ _ := rfl
  status _ _ := rfl
  rows _ _ _ _ _ _ := rfl

theorem flips_of {args : ResizeArgs} {roi : ℕ → IppiSize → ℕ} (hfit : OffsetsFit args roi)
    (hrows : args.dstStep = args.dstSize.width ∨ args.dstSize.width = 0 ∨ args.slice + args.tail ≤ 1) :
    MirrorFlips (@tileResize α) args roi := by
  intro ipp pSrc pDst image order order' h horder horder'
  have hints := (offsetsFit_iff h).mp hfit
  refine ⟨_, _, (tileResize_resizes h false order pDst).trans (if_pos (hints false)),
    (tileResize_resizes h true order' pDst).trans (if_pos (hints true)), fun y hy c hc => ?_,
    fun mirror y hy c hc => hits_place h mirror hy hc⟩
  rw [upright_place h horder pDst hy hc]
  refine mirrored_place h horder' ?_ pDst hy hc
  rcases hrows with hstep | hwidth | hone
  · exact Or.inl hstep
  · omega
  · exact Or.inr hone

theorem fit_of_flips {args : ResizeArgs} {roi : ℕ → IppiSize → ℕ} (a : α) (h : MirrorFlips (@tileResize α) args roi) :
    OffsetsFit args roi := by
  have hipp := exactIpp_resizes (fun _ => a) args roi fun _ _ => a
  obtain ⟨upright, mirrored, hupright, hmirrored, -⟩ :=
    h _ (fun _ => a) (fun _ => a) _ (List.range args.numThreads) (List.range args.numThreads) hipp (List.Perm.refl _) (List.Perm.refl _)
  rw [tileResize_resizes hipp, Option.ite_none_right_eq_some] at hupright hmirrored
  refine (offsetsFit_iff hipp).mpr fun mirror => ?_
  cases mirror with
  | false => exact hupright.1
  | true => exact hmirrored.1

/-- The kernel reads the first pixel of the last row where rows follow one another. -/
theorem rows_of_flips {args : ResizeArgs} {roi : ℕ → IppiSize → ℕ} {a b : α} (hab : a ≠ b) (h : MirrorFlips (@tileResize α) args roi) :
    args.dstStep = args.dstSize.width ∨ args.dstSize.width = 0 ∨ args.slice + args.tail ≤ 1 := by
  by_contra hnot
  push Not at hnot
  obtain ⟨hstep, hwidth, htwo⟩ := hnot
  have hw : 0 < args.dstSize.width := by omega
  have hlong : args.dstSize.width < args.dstStep := lt_of_le_of_ne args.step_le (Ne.symm hstep)
  -- one pixel differs, the first of the last row
  obtain ⟨image, himage⟩ : ∃ image : ℕ → ℕ → α, ∀ y c, image y c = if y = args.dstSize.height - 1 ∧ c = 0 then a else b :=
    ⟨_, fun _ _ => rfl⟩
  have hipp := exactIpp_resizes (fun _ => b) args roi image
  obtain ⟨upright, mirrored, hupright, hmirrored, hflip, -⟩ :=
    h _ (fun _ => b) (fun _ => b) _ (List.range args.numThreads) (List.range args.numThreads) hipp (List.Perm.refl _) (List.Perm.refl _)
  rw [tileResize_resizes hipp, Option.ite_none_right_eq_some] at hupright hmirrored
  obtain ⟨-, hupright⟩ := hupright
  obtain ⟨-, hmirrored⟩ := hmirrored
  obtain rfl := congrArg Prod.snd (Option.some.inj hupright)
  obtain rfl := congrArg Prod.snd (Option.some.inj hmirrored)
  have hpos := args.threads_pos
  obtain ⟨i, hlast⟩ : ∃ i, i + 1 = args.numThreads := ⟨args.numThreads - 1, by omega⟩
  have hi : i < args.numThreads := by omega
  have hheight : (args.tileSize i).height = args.slice + args.tail := if_pos hlast
  have hend := tile_end_le hi
  have hrow : args.tileRow true i = 0 := by
    unfold tileRow
    rw [if_neg (by decide), if_pos hlast]
  have hbottom := @tileRow_mirrored args i
  have hfirst := hflip (args.dstSize.height - 1) (by omega) 0 hw
  dsimp only at hfirst
  have hplace : place args.dstStep (args.dstSize.height - 1 - (args.dstSize.height - 1)) 0 =
      args.tileRow true i * args.dstStep + place args.dstStep 0 0 := by
    rw [place_add, hrow, Nat.sub_self]
  have hturn := mirror_row args.dstSize.width (args.tileSize i).height (args.tileRow true i * args.dstStep)
    (store (tileStores (exactIpp roi image) (fun _ => b) args true i) fun _ => b) (show 0 < (args.tileSize i).height by omega) hw
  rw [upright_place hipp (List.Perm.refl _) _ (by omega) hw, himage, if_pos ⟨rfl, rfl⟩, hplace,
    threads_place hipp true (List.Perm.refl _) hi _ (tilePlaces_place (by omega) hw), tileThread_eq hipp, if_pos rfl] at hfirst
  have hcorner : place args.dstStep 0 0 = place args.dstSize.width 0 0 := by
    unfold place
    rw [Nat.zero_mul, Nat.zero_mul]
  rw [hcorner, hturn] at hfirst
  refine hab (hfirst.symm.trans (store_same _ _ rfl fun w hw' he => ?_))
  rw [tileStores_eq hipp true hi] at hw'
  obtain ⟨x, hx, rfl⟩ := List.mem_map.mp hw'
  obtain ⟨hr, hc⟩ := mem_cells.mp hx
  refine (himage _ _).trans (if_neg fun hlastPixel => ?_)
  -- that pixel is a padded row further on
  have hx1 : x.1 = (args.tileSize i).height - 1 := by omega
  have hfar : x.1 * args.dstSize.width < x.1 * args.dstStep := Nat.mul_lt_mul_of_pos_left hlong (by omega)
  unfold place at he
  rw [hlastPixel.2, hrow] at he
  dsimp only at he
  rw [show (args.tileSize i).height - 1 - 0 = x.1 by omega] at he
  omega

theorem tileResize_mirror_iff (args : ResizeArgs) (roi : ℕ → IppiSize → ℕ) :
    (MirrorFlips tileResize32f_C1R args roi ↔
        OffsetsFit args roi ∧ (args.dstStep = args.dstSize.width ∨ args.dstSize.width = 0 ∨ args.slice + args.tail ≤ 1)) ∧
      (MirrorFlips tileResize8u_C1R args roi ↔
        OffsetsFit args roi ∧ (args.dstStep = args.dstSize.width ∨ args.dstSize.width = 0 ∨ args.slice + args.tail ≤ 1)) := by
  have hfloat : (none : Option ℚ) ≠ some 0 := nofun
  have hbyte : (0 : UInt8) ≠ 1 := by decide
  exact ⟨⟨fun h => ⟨fit_of_flips none h, rows_of_flips hfloat h⟩, fun h => flips_of h.1 h.2⟩,
    ⟨fun h => ⟨fit_of_flips 0 h, rows_of_flips hbyte h⟩, fun h => flips_of h.1 h.2⟩⟩

theorem padded_step : 1 ≤ 2 := by decide

def paddedRows : ResizeArgs where
  srcSize := ⟨1, 2⟩
  srcStep := 2
  dstSize := ⟨1, 2⟩
  dstStep := 2
  numThreads := 1
  step_le := padded_step
  threads_pos := Nat.one_pos

theorem mirror_padded_rows : ¬ MirrorFlips tileResize32f_C1R paddedRows fun _ _ => 0 := by
  intro h
  have hfloat : (none : Option ℚ) ≠ some 0 := nofun
  exact absurd (rows_of_flips hfloat h) (by decide)

end FitsWebQL
