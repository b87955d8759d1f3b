/-
  FitsWebQL.CacheLocks — the mutexes of the decompressed region cache. `cache[f]` is a
  map of its own for each frame, and `cache_mtx` has a mutex for every four frames:
  lookups, purges and compression jobs (with PRELOAD) take `cache_mtx[f / 4]` for
  `cache[f]`. A request that misses files four frames from its own on, and takes its own
  frame's mutex for all of them.

  Any number of threads run requests, purges and jobs, a step at a time: a mutex taken, a
  map used and the mutex given back, or a step without either. When an entry was last
  used is left to the purge.

  Where a request stays inside a group (it is for the first frame of one, or of the last
  one) every map is used under its own mutex, and nobody files an entry in a map that
  another uses (`own_mutex_held`). `a_lookup_while_filing`: a request for frame 1 files an
  entry in `cache[4]` under `cache_mtx[0]` while another looks into it.
-/

import FitsWebQL.RegionReads
import FitsWebQL.Lib.Locks
import FitsWebQL.Lib.Runs

namespace FitsWebQL

open Lib.Locks Lib.Runs

variable {C : Codec}

/-! ## Threads -/

abbrev RegionMaps (C : Codec) := ℕ → ℤ → ℤ → Option C.Region

/-- An entry to be filed: `cache[frame][idy][idx] = region`. -/
structure Filing (C : Codec) where
  frame : ℕ
  idy : ℤ
  idx : ℤ
  region : C.Region

def RegionMaps.file (cache : RegionMaps C) (e : Filing C) : RegionMaps C := fun f y x =>
  if f = e.frame ∧ y = e.idy ∧ x = e.idx then some e.region else cache f y x

def RegionMaps.erase (cache : RegionMaps C) (frame : ℕ) (stale : ℤ → ℤ → Bool) : RegionMaps C := fun f y x =>
  if f = frame ∧ stale y x = true then none else cache f y x

/-- Where a thread is. At `lookup`, `insert`, `purge` and `compress` it is about to take a
    mutex; at `looking`, `inserting`, `purging` and `compressing` it has it, and uses a map. -/
inductive CachePoint (C : Codec)
  | idle
  | lookup (frame : ℕ) (idy idx : ℤ)
  | looking (frame : ℕ) (idy idx : ℤ)
  | decode (frame : ℕ) (idy idx : ℤ)
  | insert (frame : ℕ) (idy idx : ℤ) (k : ℕ) (planes : List (ℕ → Option ℚ))
  | inserting (frame : ℕ) (idy idx : ℤ) (k : ℕ) (plane : ℕ → Option ℚ) (planes : List (ℕ → Option ℚ))
  | purge (i : ℕ)
  | purging (i : ℕ)
  | compress (entries : List (Filing C))
  | compressing (entry : Filing C) (entries : List (Filing C))

/-- What a thread can be asked to do; a job files regions of its group. -/
inductive CacheTask (C : Codec)
  | request (frame : ℕ) (idy idx : ℤ)
  | purge
  | compress (start_k : ℕ) (entries : List (Filing C))

structure LockedCache (C : Codec) where
  cube : Cube C
  cache : RegionMaps C
  threads : Threads ℕ ℕ (CachePoint C)

def LockedCache.init (q : Cube C) : LockedCache C := ⟨q, fun _ _ _ => none, ⟨fun _ => SharedMutex.free, fun _ => .idle⟩⟩

inductive CacheStep (C : Codec)
  | start (t : ℕ) (task : CacheTask C)
  | next (t : ℕ) (stale : ℤ → ℤ → Bool)
  | publish (cube : Cube C)

def CacheTask.point (q : Cube C) : CacheTask C → Option (CachePoint C)
  | .request frame idy idx => if (frame : ℤ) < q.depth then some (.lookup frame idy idx) else none
  | .purge => some (.purge 0)
  | .compress start_k entries =>
    if entries.all fun e => decide (start_k ≤ e.frame) && decide (e.frame < min (start_k + 4) q.depth.toNat) then
      some (.compress entries)
    else none

def LockedCache.goto (s : LockedCache C) (t : ℕ) (p : CachePoint C) : LockedCache C := { s with threads := s.threads.move t p }

def LockedCache.take (s : LockedCache C) (t i : ℕ) (mode : Mode) (p : CachePoint C) : Option (LockedCache C) :=
  (s.threads.acquire t i mode p).map fun threads => { s with threads := threads }

def LockedCache.give (s : LockedCache C) (t i : ℕ) (mode : Mode) (p : CachePoint C) : LockedCache C :=
  { s with threads := s.threads.release t i mode p }

def LockedCache.next (s : LockedCache C) (t : ℕ) (stale : ℤ → ℤ → Bool) : Option (LockedCache C) :=
  match s.threads.pc t with
  | .idle => none
  | .lookup frame idy idx => s.take t (frame / 4) .shared (.looking frame idy idx)
  | .looking frame idy idx =>
    some (s.give t (frame / 4) .shared (if (s.cache frame idy idx).isSome then .idle else .decode frame idy idx))
  | .decode frame idy idx =>
    match s.cube.decode frame idy idx with
    | none => some (s.goto t .idle)
    | some planes => some (s.goto t (.insert frame idy idx 0 planes))
  | .insert _ _ _ _ [] => some (s.goto t .idle)
  | .insert frame idy idx k (plane :: planes) => s.take t (frame / 4) .exclusive (.inserting frame idy idx k plane planes)
  | .inserting frame idy idx k plane planes =>
    some { s.give t (frame / 4) .exclusive (.insert frame idy idx (k + 1) planes) with
      cache := s.cache.file ⟨frame + k, idy, idx, f32tof16 plane⟩ }
  | .purge i => if (i : ℤ) < s.cube.depth then s.take t (i / 4) .exclusive (.purging i) else some (s.goto t .idle)
  | .purging i => some { s.give t (i / 4) .exclusive (.purge (i + 1)) with cache := s.cache.erase i stale }
  | .compress [] => some (s.goto t .idle)
  | .compress (entry :: entries) => s.take t (entry.frame / 4) .exclusive (.compressing entry entries)
  | .compressing entry entries =>
    some { s.give t (entry.frame / 4) .exclusive (.compress entries) with cache := s.cache.file entry }

def LockedCache.step (s : LockedCache C) : CacheStep C → Option (LockedCache C)
  | .start t task =>
    match s.threads.pc t with
    | .idle => (task.point s.cube).map fun p => s.goto t p
    | _ => none
  | .next t stale => s.next t stale
  | .publish cube => if cube.depth = s.cube.depth then some { s with cube := cube } else none

/-! ## Mutexes and maps -/

def CachePoint.holds : CachePoint C → Option (ℕ × Mode)
  | .looking frame _ _ => some (frame / 4, .shared)
  | .inserting frame _ _ _ _ _ => some (frame / 4, .exclusive)
  | .purging i => some (i / 4, .exclusive)
  | .compressing entry _ => some (entry.frame / 4, .exclusive)
  | _ => none

/-- The frame whose map a thread uses, and whether it may change it. -/
def CachePoint.uses : CachePoint C → Option (ℕ × Mode)
  | .looking frame _ _ => some (frame, .shared)
  | .inserting frame _ _ k _ _ => some (frame + k, .exclusive)
  | .purging i => some (i, .exclusive)
  | .compressing entry _ => some (entry.frame, .exclusive)
  | _ => none

def LockedCache.Guarded (s : LockedCache C) : Prop :=
  ∀ t f mode, (s.threads.pc t).uses = some (f, mode) → (s.threads.mtx (f / 4)).Held t mode

def LockedCache.NoOverlap (s : LockedCache C) : Prop :=
  ∀ t t' f mode, (s.threads.pc t).uses = some (f, .exclusive) → (s.threads.pc t').uses = some (f, mode) → t' = t

/-- The four frames from this one on are of one group, as far as there are so many. -/
def Cube.InOneGroup (q : Cube C) (frame : ℕ) : Prop := frame % 4 = 0 ∨ q.depth ≤ 4 * (frame / 4 : ℕ) + 4

instance (q : Cube C) (frame : ℕ) : Decidable (q.InOneGroup frame) := inferInstanceAs (Decidable (_ ∨ _))

/-- A request that has missed, and is about to file what it decodes, stays in one group. -/
def CachePoint.FilesInOneGroup (q : Cube C) : CachePoint C → Prop
  | .decode frame idy idx => (q.decode frame idy idx).isSome = true → q.InOneGroup frame
  | _ => True

instance (q : Cube C) : ∀ p : CachePoint C, Decidable (p.FilesInOneGroup q)
  | .decode _ _ _ => inferInstanceAs (Decidable (_ → _))
  | .idle | .lookup _ _ _ | .looking _ _ _ | .insert _ _ _ _ _ | .inserting _ _ _ _ _ _ | .purge _ | .purging _ | .compress _
  | .compressing _ _ => isTrue trivial

def LockedCache.FilesInOneGroup (s : LockedCache C) : CacheStep C → Prop
  | .next t _ => (s.threads.pc t).FilesInOneGroup s.cube
  | _ => True

instance (s : LockedCache C) : ∀ e : CacheStep C, Decidable (s.FilesInOneGroup e)
  | .next t _ => inferInstanceAs (Decidable ((s.threads.pc t).FilesInOneGroup s.cube))
  | .start _ _ | .publish _ => isTrue trivial

def CachePoint.Stays : CachePoint C → Prop
  | .insert frame _ _ k planes => ∀ j, k ≤ j → j < k + planes.length → (frame + j) / 4 = frame / 4
  | .inserting frame _ _ k _ planes => ∀ j, k ≤ j → j < k + planes.length + 1 → (frame + j) / 4 = frame / 4
  | _ => True

structure LockedCache.Ok (s : LockedCache C) : Prop where
  agree : Agree CachePoint.holds s.threads
  stays : ∀ t, (s.threads.pc t).Stays

theorem ok_init (q : Cube C) : (LockedCache.init q).Ok where
  agree := agree_free fun _ => rfl
  stays _ := trivial

theorem stays_update {pc : ℕ → CachePoint C} (h : ∀ t, (pc t).Stays) {p : CachePoint C} (hp : p.Stays) (t t' : ℕ) :
    (Function.update pc t p t').Stays := by
  by_cases ht : t' = t
  · rw [ht, Function.update_self]
    exact hp
  · rw [Function.update_of_ne ht]
    exact h t'

section
variable {s s' : LockedCache C} {t i : ℕ} {mode : Mode} {p : CachePoint C}

theorem ok_goto (h : s.Ok) (hold : (s.threads.pc t).holds = none) (hp : p.holds = none) (hs : p.Stays) : (s.goto t p).Ok where
  agree := agree_move h.agree (hp.trans hold.symm)
  stays := stays_update h.stays hs t

theorem ok_take (h : s.Ok) (hold : (s.threads.pc t).holds = none) (hp : p.holds = some (i, mode)) (hs : p.Stays)
    (htake : s.take t i mode p = some s') : s'.Ok := by
  obtain ⟨threads, hthreads, rfl⟩ := Option.map_eq_some_iff.mp htake
  refine ⟨agree_acquire h.agree hold hp hthreads, ?_⟩
  obtain ⟨m, -, rfl⟩ := Option.map_eq_some_iff.mp hthreads
  exact stays_update h.stays hs t

theorem ok_give (h : s.Ok) (hold : (s.threads.pc t).holds = some (i, mode)) (hp : p.holds = none) (hs : p.Stays)
    (cache : RegionMaps C) : ({ s.give t i mode p with cache := cache } : LockedCache C).Ok where
  agree := agree_release h.agree hold hp
  stays := stays_update h.stays hs t

end

/-- The planes a request files are of its group, if the four frames from its own on are. -/
theorem stays_of_decode {q : Cube C} {frame : ℕ} {idy idx : ℤ} {planes : List (ℕ → Option ℚ)}
    (h : q.decode frame idy idx = some planes) (hg : q.InOneGroup frame) :
    (CachePoint.insert frame idy idx 0 planes : CachePoint C).Stays := by
  have hlen := decode_length h
  intro j _ hj
  rw [Nat.zero_add] at hj
  rcases hg with hg | hg
  · omega
  · omega

theorem ok_next {s s' : LockedCache C} {t : ℕ} {stale : ℤ → ℤ → Bool} (h : s.Ok) (hg : s.FilesInOneGroup (.next t stale))
    (hs : s.next t stale = some s') : s'.Ok := by
  have hstays := h.stays t
  unfold LockedCache.next at hs
  unfold LockedCache.FilesInOneGroup at hg
  dsimp only at hg
  cases hpc : s.threads.pc t with
  | idle =>
    rw [hpc] at hs
    cases hs
  | lookup frame idy idx =>
    rw [hpc] at hs
    refine ok_take h (by rw [hpc]; rfl) ?_ ?_ hs
    · rfl
    · exact trivial
  | looking frame idy idx =>
    rw [hpc] at hs
    cases hs
    apply ok_give h (by rw [hpc]; rfl)
    · split
      · rfl
      · rfl
    · split
      · exact trivial
      · exact trivial
  | decode frame idy idx =>
    rw [hpc] at hs hg
    dsimp only at hs hg
    cases hd : s.cube.decode frame idy idx with
    | none =>
      rw [hd] at hs
      cases hs
      exact ok_goto h (by rw [hpc]; rfl) rfl trivial
    | some planes =>
      rw [hd] at hs
      cases hs
      exact ok_goto h (by rw [hpc]; rfl) rfl (stays_of_decode hd (hg (by rw [hd]; rfl)))
  | insert frame idy idx k planes =>
    rw [hpc] at hs hstays
    cases planes with
    | nil =>
      cases hs
      exact ok_goto h (by rw [hpc]; rfl) rfl trivial
    | cons plane planes =>
      dsimp only at hs
      refine ok_take h (by rw [hpc]; rfl) ?_ ?_ hs
      · rfl
      · intro j h1 h2
        exact hstays j h1 (by rw [List.length_cons]; omega)
  | inserting frame idy idx k plane planes =>
    rw [hpc] at hs hstays
    cases hs
    apply ok_give h (by rw [hpc]; rfl) rfl
    intro j h1 h2
    exact hstays j (by omega) (by omega)
  | purge i =>
    rw [hpc] at hs
    dsimp only at hs
    split at hs
    · refine ok_take h (by rw [hpc]; rfl) ?_ ?_ hs
      · rfl
      · exact trivial
    · cases hs
      exact ok_goto h (by rw [hpc]; rfl) rfl trivial
  | purging i =>
    rw [hpc] at hs
    cases hs
    apply ok_give h (by rw [hpc]; rfl)
    · rfl
    · exact trivial
  | compress entries =>
    rw [hpc] at hs
    cases entries with
    | nil =>
      cases hs
      exact ok_goto h (by rw [hpc]; rfl) rfl trivial
    | cons entry entries =>
      dsimp only at hs
      refine ok_take h (by rw [hpc]; rfl) ?_ ?_ hs
      · rfl
      · exact trivial
  | compressing entry entries =>
    rw [hpc] at hs
    cases hs
    apply ok_give h (by rw [hpc]; rfl)
    · rfl
    · exact trivial

theorem point_holds {q : Cube C} {task : CacheTask C} {p : CachePoint C} (h : task.point q = some p) : p.holds = none ∧ p.Stays := by
  cases task with
  | request frame idy idx =>
    simp only [CacheTask.point] at h
    split at h
    · cases h
      exact ⟨rfl, trivial⟩
    · cases h
  | purge =>
    cases h
    exact ⟨rfl, trivial⟩
  | compress start_k entries =>
    simp only [CacheTask.point] at h
    split at h
    · cases h
      exact ⟨rfl, trivial⟩
    · cases h

theorem ok_step {s s' : LockedCache C} {e : CacheStep C} (h : s.Ok) (hg : s.FilesInOneGroup e) (hs : s.step e = some s') :
    s'.Ok := by
  cases e with
  | start t task =>
    unfold LockedCache.step at hs
    dsimp only at hs
    cases hpc : s.threads.pc t with
    | idle =>
      rw [hpc] at hs
      obtain ⟨p, hp, rfl⟩ := Option.map_eq_some_iff.mp hs
      have hpoint := point_holds hp
      exact ok_goto h (by rw [hpc]; rfl) hpoint.1 hpoint.2
    | _ =>
      rw [hpc] at hs
      cases hs
  | next t stale => exact ok_next h hg hs
  | publish cube =>
    unfold LockedCache.step at hs
    dsimp only at hs
    split at hs
    · cases hs
      exact ⟨h.agree, h.stays⟩
    · cases hs

/-! ## Runs -/

/-- Whoever uses a map of its group has the map's mutex. -/
theorem holds_of_uses {p : CachePoint C} {f : ℕ} {mode : Mode} (h : p.uses = some (f, mode)) (hs : p.Stays) :
    p.holds = some (f / 4, mode) := by
  cases p with
  | looking frame idy idx =>
    cases h
    rfl
  | inserting frame idy idx k plane planes =>
    cases h
    show some (frame / 4, Mode.exclusive) = some ((frame + k) / 4, Mode.exclusive)
    rw [hs k (le_refl k) (by omega)]
  | purging i =>
    cases h
    rfl
  | compressing entry entries =>
    cases h
    rfl
  | _ => cases h

/-- In whatever order the threads take their steps: as long as requests file entries in
    one group only, whoever uses a map has its mutex, exclusively to change it, and nobody
    uses a map while another may change it. -/
theorem own_mutex_held (q : Cube C) (steps : List (CacheStep C)) (s : LockedCache C)
    (hg : Each LockedCache.step LockedCache.FilesInOneGroup (LockedCache.init q) steps)
    (h : run LockedCache.step (LockedCache.init q) steps = some s) : s.Guarded ∧ s.NoOverlap := by
  have hok : s.Ok := run_invariant LockedCache.Ok (fun _ _ _ h hg hs => ok_step h hg hs) steps (ok_init q) hg h
  refine ⟨?_, ?_⟩
  · intro t f mode huses
    rw [hok.agree.held]
    exact holds_of_uses huses (hok.stays t)
  · intro t t' f mode huses huses'
    exact hok.agree.exclusive (holds_of_uses huses (hok.stays t)) (holds_of_uses huses' (hok.stays t'))

def fiveFrames : Cube Codec.plain := layOut Codec.plain 1 1 5 unitScale fun _ _ => 0

def CacheTask.alone (t : ℕ) (task : CacheTask C) (steps : ℕ) : List (CacheStep C) :=
  .start t task :: List.replicate steps (.next t fun _ _ => false)

/-- A request for frame 0 files its first entry, and a purge waits for its mutex. -/
theorem own_mutex_held_filing :
    ∃ s, run LockedCache.step (LockedCache.init fiveFrames)
        (CacheTask.alone 0 (.request 0 0 0) 4 ++ [.start 1 .purge]) = some s ∧
      (s.threads.pc 0).uses = some (0, .exclusive) ∧ s.Guarded ∧ s.NoOverlap := by
  have hrun : (run LockedCache.step (LockedCache.init fiveFrames)
      (CacheTask.alone 0 (.request 0 0 0) 4 ++ [.start 1 .purge])).map (fun s => (s.threads.pc 0).uses) =
      some (some (0, .exclusive)) := by
    decide +kernel
  obtain ⟨s, hs, huses⟩ := Option.map_eq_some_iff.mp hrun
  exact ⟨s, hs, huses, own_mutex_held fiveFrames _ s (by decide +kernel) hs⟩

/-- A request for frame 1 files its fourth entry in `cache[4]`, while a request for frame 4
    looks into it. -/
theorem a_lookup_while_filing :
    ¬ ∀ (q : Cube Codec.plain) (steps : List (CacheStep Codec.plain)) (s : LockedCache Codec.plain),
      run LockedCache.step (LockedCache.init q) steps = some s → s.Guarded ∧ s.NoOverlap := by
  have hrun : (run LockedCache.step (LockedCache.init fiveFrames)
      (CacheTask.alone 0 (.request 1 0 0) 10 ++ CacheTask.alone 1 (.request 4 0 0) 1)).map
        (fun s => ((s.threads.pc 0).uses, (s.threads.pc 1).uses)) = some (some (4, .exclusive), some (4, .shared)) := by
    decide +kernel
  obtain ⟨s, hs, huses⟩ := Option.map_eq_some_iff.mp hrun
  rw [Prod.mk.injEq] at huses
  intro h
  have hsame := (h fiveFrames _ s hs).2 0 1 4 .shared huses.1 huses.2
  cases hsame

end FitsWebQL
