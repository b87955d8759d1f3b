/-
  FitsWebQL.CachePurge — dropping idle regions from the cache (`FITS::purge_cache`, run
  every ten seconds by the purge thread). It walks every frame's map of rows and every row's
  map of entries, and erases an entry last used more than `CACHE_TIMEOUT` seconds before.

  The time it compares with is read into `timestamp`, which is no variable of its own but
  the FITS object's, set by `update_timestamp` each time a client uses the data set. So a
  purge that meets an entry makes the data set look as if it had just been used.

  Proved:
  - `purge_lookup`: exactly the idle entries go; a null entry stays, and so do emptied rows.
  - `purge_refines`: to a reader of the cache it is `purgeCache`.
  - `purge_timestamp`: the object's time afterwards is the one read at the last entry met.
  - `purge_exact_iff`: nothing else is changed exactly when no entry is met or that time is
    what was there.
  - `a_purge_is_a_use`: one region, used ten seconds ago; the data set two hours ago.
-/

import FitsWebQL.Cache
import FitsWebQL.Lib.OrderedMap

namespace FitsWebQL

open Lib (OrderedMap)

variable {C : Codec}

/-! ## The nested maps -/

/-- `std::map<int, std::shared_ptr<struct CacheEntry>>`; an entry may be null. -/
abbrev CacheRow (C : Codec) := OrderedMap ℤ (Option (CacheEntry C))

abbrev DecompressedBlocks (C : Codec) := OrderedMap ℤ (CacheRow C)

structure CachedObject (C : Codec) (Rest : Type) where
  timestamp : ℤ
  cache : List (DecompressedBlocks C)
  rest : Rest

/-- `cache[frame][idy][idx]`; `some none` is a null pointer under these keys. -/
def cacheLookup (cache : List (DecompressedBlocks C)) (frame : ℕ) (idy idx : ℤ) : Option (Option (CacheEntry C)) :=
  (cache[frame]?).bind fun z_entry => (z_entry.get? idy).bind fun row => row.get? idx

/-! ## purge_cache -/

structure PurgeState where
  timestamp : ℤ
  count : ℕ

def purgeEntry (now : ℤ) (s : PurgeState) (entry : Option (CacheEntry C)) : PurgeState × Option (Option (CacheEntry C)) :=
  match entry with
  | none => (s, some none)
  | some e =>
    let s := { s with timestamp := now }
    if s.timestamp - e.timestamp > CACHE_TIMEOUT then ({ s with count := s.count + 1 }, none) else (s, some (some e))

/-- `clock frame idy idx` is the time read when that entry is visited. -/
def purgeRow (clock : ℕ → ℤ → ℤ → ℤ) (frame : ℕ) (idy : ℤ) (row : CacheRow C) (s : PurgeState) : CacheRow C × PurgeState :=
  row.sweep (fun s idx entry => purgeEntry (clock frame idy idx) s entry) s

def purgeFrame (clock : ℕ → ℤ → ℤ → ℤ) (frame : ℕ) (z_entry : DecompressedBlocks C) (s : PurgeState) :
    DecompressedBlocks C × PurgeState :=
  z_entry.sweep (fun s idy row => let r := purgeRow clock frame idy row s; (r.2, some r.1)) s

def purgeFrames (clock : ℕ → ℤ → ℤ → ℤ) : ℕ → List (DecompressedBlocks C) → PurgeState → List (DecompressedBlocks C) × PurgeState
  | _, [], s => ([], s)
  | i, z_entry :: cache, s =>
    let r := purgeFrame clock i z_entry s
    let rest := purgeFrames clock (i + 1) cache r.2
    (r.1 :: rest.1, rest.2)

/-- `purge_cache`: the object after it. The count is only printed. -/
def CachedObject.purgeCache {Rest : Type} (clock : ℕ → ℤ → ℤ → ℤ) (obj : CachedObject C Rest) : CachedObject C Rest :=
  let r := purgeFrames clock 0 obj.cache ⟨obj.timestamp, 0⟩
  { obj with timestamp := r.2.timestamp, cache := r.1 }

/-! ## What becomes of an entry -/

/-- Gone if idle, else as it was. -/
def verdict (clock : ℕ → ℤ → ℤ → ℤ) (frame : ℕ) (idy idx : ℤ) : Option (CacheEntry C) → Option (Option (CacheEntry C))
  | none => some none
  | some e => if CACHE_TIMEOUT < clock frame idy idx - e.timestamp then none else some (some e)

variable {clock : ℕ → ℤ → ℤ → ℤ}

theorem purgeEntry_verdict (frame : ℕ) (idy : ℤ) (s : PurgeState) (idx : ℤ) (entry : Option (CacheEntry C)) :
    (purgeEntry (clock frame idy idx) s entry).2 = verdict clock frame idy idx entry := by
  cases entry with
  | none => rfl
  | some e =>
    simp only [purgeEntry, verdict, gt_iff_lt]
    split <;> rfl

theorem purgeRow_fst (frame : ℕ) (idy : ℤ) (row : CacheRow C) (s : PurgeState) :
    (purgeRow clock frame idy row s).1 = row.filterMap (verdict clock frame idy) :=
  OrderedMap.sweep_fst (purgeEntry_verdict frame idy) row s

theorem purgeFrame_fst (frame : ℕ) (z_entry : DecompressedBlocks C) (s : PurgeState) :
    (purgeFrame clock frame z_entry s).1 =
      z_entry.filterMap fun idy row => some (row.filterMap (verdict clock frame idy)) := by
  refine OrderedMap.sweep_fst (fun s idy row => ?_) z_entry s
  simp only [purgeRow_fst]

theorem purgeFrames_get (cache : List (DecompressedBlocks C)) (i : ℕ) (s : PurgeState) (k : ℕ) :
    (purgeFrames clock i cache s).1[k]? =
      (cache[k]?).map fun z_entry => z_entry.filterMap fun idy row => some (row.filterMap (verdict clock (i + k) idy)) := by
  induction cache generalizing i s k with
  | nil => simp [purgeFrames]
  | cons z_entry cache ih =>
    cases k with
    | zero => simp [purgeFrames, purgeFrame_fst]
    | succ k =>
      simp only [purgeFrames, List.getElem?_cons_succ, ih]
      rw [Nat.add_assoc, Nat.add_comm 1 k]

/-! ## What is left in the cache -/

variable {Rest : Type} (obj : CachedObject C Rest)

theorem purge_frame (k : ℕ) : (obj.purgeCache clock).cache[k]? =
    (obj.cache[k]?).map fun z_entry => z_entry.filterMap fun idy row => some (row.filterMap (verdict clock k idy)) := by
  have h := @purgeFrames_get C clock obj.cache 0 ⟨obj.timestamp, 0⟩ k
  rw [Nat.zero_add] at h
  exact h

theorem purge_lookup (frame : ℕ) (idy idx : ℤ) :
    cacheLookup (obj.purgeCache clock).cache frame idy idx =
      (cacheLookup obj.cache frame idy idx).bind (verdict clock frame idy idx) := by
  unfold cacheLookup
  rw [purge_frame]
  cases obj.cache[frame]? with
  | none => rfl
  | some z_entry =>
    simp only [Option.map_some, Option.bind_some, OrderedMap.get?_filterMap]
    cases z_entry.get? idy with
    | none => rfl
    | some row => simp

theorem purge_rows (frame : ℕ) :
    ((obj.purgeCache clock).cache[frame]?).map OrderedMap.keys = (obj.cache[frame]?).map OrderedMap.keys := by
  rw [purge_frame, Option.map_map]
  cases obj.cache[frame]? with
  | none => rfl
  | some z_entry => exact congrArg some (OrderedMap.keys_filterMap_some z_entry _)

def CachedObject.view : Cache C := fun frame idy idx => (cacheLookup obj.cache frame idy idx).join

theorem purge_refines : (obj.purgeCache clock).view = purgeCache clock obj.view := by
  funext frame idy idx
  simp only [CachedObject.view, purgeCache, purge_lookup]
  generalize cacheLookup obj.cache frame idy idx = found
  cases found with
  | none => rfl
  | some entry =>
    cases entry with
    | none => rfl
    | some e =>
      simp only [Option.bind_some, Option.join_some, verdict, gt_iff_lt]
      split <;> rfl

/-! ## What is left of the object's time -/

def rowTimes (clock : ℕ → ℤ → ℤ → ℤ) (frame : ℕ) (idy : ℤ) (row : CacheRow C) : List ℤ :=
  row.entries.filterMap fun p => p.2.map fun _ => clock frame idy p.1

def frameTimes (clock : ℕ → ℤ → ℤ → ℤ) (frame : ℕ) (z_entry : DecompressedBlocks C) : List ℤ :=
  z_entry.entries.flatMap fun p => rowTimes clock frame p.1 p.2

def purgeTimes (clock : ℕ → ℤ → ℤ → ℤ) : ℕ → List (DecompressedBlocks C) → List ℤ
  | _, [] => []
  | i, z_entry :: cache => frameTimes clock i z_entry ++ purgeTimes clock (i + 1) cache

theorem getLastD_append (l l' : List ℤ) (t : ℤ) : (l ++ l').getLastD t = l'.getLastD (l.getLastD t) := by
  cases l' with
  | nil => simp
  | cons x l' => simp [List.getLastD_eq_getLast?]

theorem purgeRow_time (frame : ℕ) (idy : ℤ) (row : CacheRow C) (s : PurgeState) :
    (purgeRow clock frame idy row s).2.timestamp = (rowTimes clock frame idy row).getLastD s.timestamp := by
  rw [purgeRow, OrderedMap.sweep_snd, rowTimes]
  induction row.entries generalizing s with
  | nil => rfl
  | cons p entries ih =>
    rw [List.foldl_cons, ih]
    cases hp : p.2 with
    | none => simp [hp, purgeEntry]
    | some e =>
      have hnow : (purgeEntry (clock frame idy p.1) s (some e)).1.timestamp = clock frame idy p.1 := by
        simp only [purgeEntry]
        split <;> rfl
      rw [hnow]
      simp [hp, List.getLastD_eq_getLast?, List.getLast?_cons]

theorem purgeFrame_time (frame : ℕ) (z_entry : DecompressedBlocks C) (s : PurgeState) :
    (purgeFrame clock frame z_entry s).2.timestamp = (frameTimes clock frame z_entry).getLastD s.timestamp := by
  rw [purgeFrame, OrderedMap.sweep_snd, frameTimes]
  induction z_entry.entries generalizing s with
  | nil => rfl
  | cons p entries ih => rw [List.foldl_cons, ih, List.flatMap_cons, getLastD_append, purgeRow_time]

theorem purgeFrames_time (cache : List (DecompressedBlocks C)) (i : ℕ) (s : PurgeState) :
    (purgeFrames clock i cache s).2.timestamp = (purgeTimes clock i cache).getLastD s.timestamp := by
  induction cache generalizing i s with
  | nil => rfl
  | cons z_entry cache ih => rw [purgeFrames, purgeTimes, getLastD_append, ← purgeFrame_time]; exact ih _ _

theorem purge_timestamp : (obj.purgeCache clock).timestamp = (purgeTimes clock 0 obj.cache).getLastD obj.timestamp :=
  purgeFrames_time obj.cache 0 ⟨obj.timestamp, 0⟩

/-! ## Nothing else -/

/-- The idle entries are gone, the others as they were; no frame or row is, and everything
    but the cache is as it was, the object's own time too. -/
structure PurgeExact (clock : ℕ → ℤ → ℤ → ℤ) (before after : CachedObject C Rest) : Prop where
  entries : ∀ frame idy idx, cacheLookup after.cache frame idy idx =
    (cacheLookup before.cache frame idy idx).bind (verdict clock frame idy idx)
  rows : ∀ frame : ℕ, (after.cache[frame]?).map OrderedMap.keys = (before.cache[frame]?).map OrderedMap.keys
  rest : after.rest = before.rest
  timestamp : after.timestamp = before.timestamp

theorem purge_exact_iff (clock : ℕ → ℤ → ℤ → ℤ) (obj : CachedObject C Rest) :
    PurgeExact clock obj (obj.purgeCache clock) ↔
      ∀ now ∈ (purgeTimes clock 0 obj.cache).getLast?, now = obj.timestamp := by
  have htime : (obj.purgeCache clock).timestamp = _ := purge_timestamp obj
  rw [List.getLastD_eq_getLast?] at htime
  constructor
  · intro h now hnow
    rw [hnow, Option.getD_some] at htime
    exact htime.symm.trans h.timestamp
  · intro h
    refine ⟨purge_lookup obj, purge_rows obj, rfl, ?_⟩
    rw [htime]
    cases hlast : (purgeTimes clock 0 obj.cache).getLast? with
    | none => rfl
    | some now => exact h now hlast

/-- One region of frame 0, last used at 7190, in a data set last used at 0. -/
def usedRegion : CachedObject Codec.plain Unit where
  timestamp := 0
  cache := [⟨[(0, ⟨[(0, some ⟨7190, fun _ => none⟩)], by simp⟩)], by simp⟩]
  rest := ()

/-- The purge at 7200 keeps the region and moves the data set's time two hours on. -/
theorem a_purge_is_a_use :
    (cacheLookup (usedRegion.purgeCache fun _ _ _ => 7200).cache 0 0 0).isSome = true ∧
      (usedRegion.purgeCache fun _ _ _ => 7200).timestamp = 7200 ∧
      ¬ PurgeExact (fun _ _ _ => 7200) usedRegion (usedRegion.purgeCache fun _ _ _ => 7200) := by
  refine ⟨by decide, by decide, fun h => ?_⟩
  have := h.timestamp
  revert this
  decide

end FitsWebQL
