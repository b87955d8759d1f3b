/-
  FitsWebQL.Cache — the decompressed region cache (`FITS::request_cached_region_ptr`,
  `FITS::purge_cache`, `FITS::preempt_cache`).

  `cache[frame][idy][idx]` holds a region of frame `frame`. A request answers from the
  cache, stamping the entry; on a miss it decompresses the block of the frame's group of
  four, then walks `k = 0..3` up to the end of the cube, applying the mask of frame
  `frame + k` to plane `k`, and files the result under `cache[frame + k]`; it answers with
  the one filed at `k = frame % 4`. Any missing block answers null and files nothing.
  A purge drops entries last used more than `CACHE_TIMEOUT` seconds ago. A pre-emption
  requests every region of a box for a range of frames, in whatever order the OpenMP
  schedule takes the frames.

  The walk starts at the group's plane 0 but at the requested frame's mask and slot, so
  the two agree only for the first frame of a group. Proved:
  - `request_cases`: everything a request can do.
  - `coherent_of_group_first`: in a run whose decoding misses are all for the first frame
    of a group, every entry and every region handed back holds its frame's pixels.
  - `a_second_frame_requested_first`: a miss on frame 1 files plane 0 under frame 1.
-/

import FitsWebQL.Regions

namespace FitsWebQL

variable {C : Codec}

/-! ## The cache -/

def CACHE_TIMEOUT : ℤ := 60 * 60

structure CacheEntry (C : Codec) where
  timestamp : ℤ
  data : C.Region

abbrev Cache (C : Codec) := ℕ → ℤ → ℤ → Option (CacheEntry C)

def Cache.empty : Cache C := fun _ _ _ => none

/-- `cache[frame][idy][idx] = entry`. -/
def Cache.put (cache : Cache C) (frame : ℕ) (idy idx : ℤ) (entry : CacheEntry C) : Cache C := fun f y x =>
  if f = frame ∧ y = idy ∧ x = idx then some entry else cache f y x

@[simp] theorem Cache.put_same (cache : Cache C) (f : ℕ) (y x : ℤ) (e : CacheEntry C) :
    cache.put f y x e f y x = some e := by simp [Cache.put]

theorem Cache.put_cases {cache : Cache C} {f g : ℕ} {y x y' x' : ℤ} {e e' : CacheEntry C}
    (h : cache.put f y x e g y' x' = some e') : (g = f ∧ y' = y ∧ x' = x ∧ e' = e) ∨ cache g y' x' = some e' := by
  unfold Cache.put at h
  split at h
  · rename_i hk
    exact Or.inl ⟨hk.1, hk.2.1, hk.2.2, (Option.some.inj h).symm⟩
  · exact Or.inr h

/-! ## A request -/

/-- The mask loop: `n` planes still to do, `k` the next. Plane `k` gets the mask of frame
    `frame + k`; a missing or broken block gives up. -/
def Cube.maskLoop (q : Cube C) (frame : ℕ) (idy idx : ℤ) (pixels : ℕ → ℕ → ℚ) : ℕ → ℕ → Option (List (ℕ → Option ℚ))
  | 0, _ => some []
  | n + 1, k =>
    if q.depth ≤ frame + k then some []
    else do
      let mask_blocks ← q.cubeMask (frame + k)
      let buffer ← mask_blocks idy idx
      let mask ← C.lz4DecompressSafe buffer
      let rest ← q.maskLoop frame idy idx pixels n (k + 1)
      some (nanMask (pixels k) mask :: rest)

def Cube.decode (q : Cube C) (frame : ℕ) (idy idx : ℤ) : Option (List (ℕ → Option ℚ)) := do
  let pixel_blocks ← q.cubePixels (frame / 4)
  let stream ← pixel_blocks idy idx
  q.maskLoop frame idy idx (unblock (C.decodeZfp stream)) 4 0

def insertLoop (now : ℤ) (frame : ℕ) (idy idx : ℤ) : ℕ → List (ℕ → Option ℚ) → Cache C → Cache C
  | _, [], cache => cache
  | k, plane :: rest, cache =>
    insertLoop now frame idy idx (k + 1) rest (cache.put (frame + k) idy idx ⟨now, f32tof16 plane⟩)

/-- `request_cached_region_ptr`: the region handed back and the cache after. -/
def Cube.requestCachedRegionPtr (q : Cube C) (now : ℤ) (frame : ℕ) (idy idx : ℤ) (cache : Cache C) :
    Option C.Region × Cache C :=
  match cache frame idy idx with
  | some entry => (some entry.data, cache.put frame idy idx { entry with timestamp := now })
  | none =>
    match q.decode frame idy idx with
    | none => (none, cache)
    | some planes => ((planes[frame % 4]?).map f32tof16, insertLoop now frame idy idx 0 planes cache)

/-! ## Purging and pre-emption -/

/-- `clock` is the time read when each entry is visited. -/
def purgeCache (clock : ℕ → ℤ → ℤ → ℤ) (cache : Cache C) : Cache C := fun f y x =>
  match cache f y x with
  | some entry => if clock f y x - entry.timestamp > CACHE_TIMEOUT then none else some entry
  | none => none

inductive CacheEv where
  | request (now : ℤ) (frame : ℕ) (idy idx : ℤ)
  | purge (clock : ℕ → ℤ → ℤ → ℤ)

/-- The requests of one pre-emption, `order` being the order in which the schedule takes
    the loop's frames. -/
def Cube.preemptCache (q : Cube C) (clock : ℕ → ℤ → ℤ → ℤ) (order : List ℕ) (start stop x1 y1 x2 y2 : ℤ) :
    List CacheEv :=
  if stop < 0 ∨ start < 0 ∨ q.depth - 1 < stop ∨ q.depth - 1 < start then []
  else
    let lo := min start stop
    let hi := max start stop
    let from_ := makeIndices (max 0 x1) (max 0 y1)
    let to_ := makeIndices (min (q.width - 1) x2) (min (q.height - 1) y2)
    (order.filter fun i : ℕ => decide (lo ≤ i) && decide (i ≤ hi)).flatMap fun i =>
      if (q.cubePixels (i / 4)).isSome && (q.cubeMask i).isSome then
        (Lib.Tiling.ints from_.2 (to_.2 + 1)).flatMap fun idy =>
          (Lib.Tiling.ints from_.1 (to_.1 + 1)).map fun idx => .request (clock i idy idx) i idy idx
      else []

inductive CacheOp where
  | request (now : ℤ) (frame : ℕ) (idy idx : ℤ)
  | purge (clock : ℕ → ℤ → ℤ → ℤ)
  | preempt (clock : ℕ → ℤ → ℤ → ℤ) (order : List ℕ) (start stop x1 y1 x2 y2 : ℤ)

def Cube.events (q : Cube C) : CacheOp → List CacheEv
  | .request now frame idy idx => [.request now frame idy idx]
  | .purge clock => [.purge clock]
  | .preempt clock order start stop x1 y1 x2 y2 => q.preemptCache clock order start stop x1 y1 x2 y2

structure Handed (C : Codec) where
  frame : ℕ
  idy : ℤ
  idx : ℤ
  region : C.Region

structure CacheSt (C : Codec) where
  cache : Cache C
  handed : List (Handed C)

def CacheSt.init : CacheSt C := ⟨Cache.empty, []⟩

def Cube.step (q : Cube C) (s : CacheSt C) : CacheEv → CacheSt C
  | .request now frame idy idx =>
    let r := q.requestCachedRegionPtr now frame idy idx s.cache
    ⟨r.2, match r.1 with
      | some region => s.handed ++ [⟨frame, idy, idx, region⟩]
      | none => s.handed⟩
  | .purge clock => { s with cache := purgeCache clock s.cache }

def Cube.run (q : Cube C) (evs : List CacheEv) : CacheSt C := evs.foldl q.step CacheSt.init

/-! ## What a request can do -/

/-- The mask loop gives plane `j` under the mask of frame `frame + j`, for as many
    planes as the cube has from `frame` on. -/
theorem maskLoop_get {q : Cube C} {frame : ℕ} {idy idx : ℤ} {pixels : ℕ → ℕ → ℚ} :
    ∀ n k planes, q.maskLoop frame idy idx pixels n k = some planes → ∀ j plane, planes[j]? = some plane →
      ∃ mask_blocks buffer mask, q.cubeMask (frame + (k + j)) = some mask_blocks ∧ mask_blocks idy idx = some buffer ∧
        C.lz4DecompressSafe buffer = some mask ∧ plane = nanMask (pixels (k + j)) mask ∧ j < n := by
  intro n
  induction n with
  | zero =>
    intro k planes h j plane hj
    cases h
    simp at hj
  | succ n ih =>
    intro k planes h j plane hj
    simp only [Cube.maskLoop] at h
    split at h
    · cases h
      simp at hj
    · simp only [Option.bind_eq_bind, Option.bind_eq_some_iff] at h
      obtain ⟨mb, hmb, buf, hbuf, mask, hmask, rest, hrest, h⟩ := h
      cases h
      cases j with
      | zero =>
        simp only [List.getElem?_cons_zero, Option.some.injEq] at hj
        exact ⟨mb, buf, mask, hmb, hbuf, hmask, hj.symm, by omega⟩
      | succ j =>
        rw [List.getElem?_cons_succ] at hj
        obtain ⟨mb', buf', mask', h1, h2, h3, h4, h5⟩ := ih (k + 1) rest hrest j plane hj
        have e : k + 1 + j = k + (j + 1) := by omega
        rw [e] at h1 h4
        exact ⟨mb', buf', mask', h1, h2, h3, h4, by omega⟩

/-- For the first frame of a group, what the decoder gives for plane `j` is the region
    of frame `frame + j`. -/
theorem decode_group_first {q : Cube C} {frame : ℕ} {idy idx : ℤ} {planes : List (ℕ → Option ℚ)}
    (h : q.decode frame idy idx = some planes) (hf : frame % 4 = 0) (j : ℕ) (plane : ℕ → Option ℚ)
    (hj : planes[j]? = some plane) : q.frameRegion (frame + j) idy idx = some (f32tof16 plane) := by
  simp only [Cube.decode, Option.bind_eq_bind, Option.bind_eq_some_iff] at h
  obtain ⟨pb, hpb, stream, hstream, h⟩ := h
  obtain ⟨mb, buf, mask, h1, h2, h3, h4, h5⟩ := maskLoop_get 4 0 planes h j plane hj
  have e1 : (frame + j) / 4 = frame / 4 := by omega
  have e2 : (frame + j) % 4 = j := by omega
  rw [Nat.zero_add] at h1 h4
  simp only [Cube.frameRegion, Option.bind_eq_bind, e1, hpb, Option.bind_some, hstream, h1, h2, h3, e2, h4]

theorem insertLoop_get {now : ℤ} {frame : ℕ} {idy idx : ℤ} : ∀ (planes : List (ℕ → Option ℚ)) (k : ℕ) (cache : Cache C)
    (f : ℕ) (y x : ℤ) (e : CacheEntry C), insertLoop now frame idy idx k planes cache f y x = some e →
      (∃ j plane, planes[j]? = some plane ∧ f = frame + (k + j) ∧ y = idy ∧ x = idx ∧ e.data = f32tof16 plane) ∨
        cache f y x = some e := by
  intro planes
  induction planes with
  | nil =>
    intro k cache f y x e h
    exact Or.inr h
  | cons plane rest ih =>
    intro k cache f y x e h
    rcases ih (k + 1) _ f y x e h with ⟨j, p, hp, hf, hy, hx, he⟩ | h
    · exact Or.inl ⟨j + 1, p, by simpa using hp, by omega, hy, hx, he⟩
    · rcases Cache.put_cases h with ⟨hf, hy, hx, he⟩ | h
      · exact Or.inl ⟨0, plane, by simp, hf, hy, hx, by rw [he]⟩
      · exact Or.inr h

/-- A request answers from the cache and stamps the entry, answers null and leaves the
    cache alone, or decodes and files the decoded planes. -/
theorem request_cases (q : Cube C) (now : ℤ) (frame : ℕ) (idy idx : ℤ) (cache : Cache C) :
    (∃ entry, cache frame idy idx = some entry ∧ q.requestCachedRegionPtr now frame idy idx cache =
        (some entry.data, cache.put frame idy idx { entry with timestamp := now })) ∨
    (q.requestCachedRegionPtr now frame idy idx cache = (none, cache)) ∨
    (∃ planes, cache frame idy idx = none ∧ q.decode frame idy idx = some planes ∧
      q.requestCachedRegionPtr now frame idy idx cache =
        ((planes[frame % 4]?).map f32tof16, insertLoop now frame idy idx 0 planes cache)) := by
  unfold Cube.requestCachedRegionPtr
  cases hc : cache frame idy idx with
  | some entry => exact Or.inl ⟨entry, rfl, rfl⟩
  | none =>
    cases hd : q.decode frame idy idx with
    | none => exact Or.inr (Or.inl rfl)
    | some planes => exact Or.inr (Or.inr ⟨planes, rfl, rfl, rfl⟩)

/-! ## Coherence -/

/-- The region filed under, or handed back for, `(f, idy, idx)` is that frame's. -/
def Cube.Holds (q : Cube C) (f : ℕ) (idy idx : ℤ) (region : C.Region) : Prop := q.frameRegion f idy idx = some region

structure Cube.Coherent (q : Cube C) (s : CacheSt C) : Prop where
  cached : ∀ f idy idx entry, s.cache f idy idx = some entry → q.Holds f idy idx entry.data
  handed : ∀ r ∈ s.handed, q.Holds r.frame r.idy r.idx r.region

/-- A request that misses and finds all its blocks is for the first frame of a group. -/
def Cube.GroupFirst (q : Cube C) (s : CacheSt C) : CacheEv → Prop
  | .request _ frame idy idx => s.cache frame idy idx = none → (q.decode frame idy idx).isSome = true → frame % 4 = 0
  | .purge _ => True

theorem coherent_init (q : Cube C) : q.Coherent CacheSt.init where
  cached := by
    intro f idy idx entry h
    cases h
  handed := by
    intro r hr
    cases hr

theorem purgeCache_sub {clock : ℕ → ℤ → ℤ → ℤ} {cache : Cache C} {f : ℕ} {y x : ℤ} {e : CacheEntry C}
    (h : purgeCache clock cache f y x = some e) : cache f y x = some e := by
  unfold purgeCache at h
  split at h
  · rename_i entry hc
    split at h
    · cases h
    · rw [hc, h]
  · cases h

/-- One request of a coherent cache: the cache stays coherent and the region handed back
    is the frame's. -/
theorem request_coherent {q : Cube C} {s : CacheSt C} (hs : q.Coherent s) {now : ℤ} {frame : ℕ} {idy idx : ℤ}
    (hg : q.GroupFirst s (.request now frame idy idx)) :
    (∀ f y x e, (q.requestCachedRegionPtr now frame idy idx s.cache).2 f y x = some e → q.Holds f y x e.data) ∧
      (∀ region, (q.requestCachedRegionPtr now frame idy idx s.cache).1 = some region → q.Holds frame idy idx region) := by
  rcases request_cases q now frame idy idx s.cache with ⟨entry, hc, h⟩ | h | ⟨planes, hc, hd, h⟩
  · rw [h]
    refine ⟨fun f y x e he => ?_, fun region hr => ?_⟩
    · rcases Cache.put_cases he with ⟨rfl, rfl, rfl, rfl⟩ | he
      · exact hs.cached f y x entry hc
      · exact hs.cached f y x e he
    · cases hr
      exact hs.cached frame idy idx entry hc
  · rw [h]
    refine ⟨hs.cached, fun region hr => ?_⟩
    cases hr
  · have hf : frame % 4 = 0 := hg hc (by rw [hd]; rfl)
    rw [h]
    refine ⟨fun f y x e he => ?_, fun region hr => ?_⟩
    · rcases insertLoop_get planes 0 s.cache f y x e he with ⟨j, plane, hj, hfj, rfl, rfl, hdata⟩ | he
      · have := decode_group_first hd hf j plane hj
        rw [Cube.Holds, hfj, Nat.zero_add, hdata, this]
      · exact hs.cached f y x e he
    · obtain ⟨plane, hp, rfl⟩ := Option.map_eq_some_iff.mp hr
      rw [hf] at hp
      exact decode_group_first hd hf 0 plane hp

theorem step_coherent {q : Cube C} {s : CacheSt C} (hs : q.Coherent s) (ev : CacheEv) (hg : q.GroupFirst s ev) :
    q.Coherent (q.step s ev) := by
  cases ev with
  | purge clock => exact ⟨fun f y x e h => hs.cached f y x e (purgeCache_sub h), hs.handed⟩
  | request now frame idy idx =>
    obtain ⟨hcache, hregion⟩ := request_coherent hs hg
    refine ⟨hcache, fun r hr => ?_⟩
    simp only [Cube.step] at hr
    split at hr
    · rename_i region he
      rcases List.mem_append.mp hr with hr | hr
      · exact hs.handed r hr
      · rw [List.mem_singleton.mp hr]
        exact hregion region he
    · exact hs.handed r hr

theorem run_coherent {q : Cube C} (evs : List CacheEv) :
    (∀ pre ev post, evs = pre ++ ev :: post → q.GroupFirst (q.run pre) ev) → q.Coherent (q.run evs) := by
  induction evs using List.reverseRecOn with
  | nil => exact fun _ => coherent_init q
  | append_singleton evs ev ih =>
    intro h
    have hs : q.Coherent (q.run evs) := ih fun pre e post he => h pre e (post ++ [ev]) (by simp [he])
    have : q.run (evs ++ [ev]) = q.step (q.run evs) ev := by simp [Cube.run]
    rw [this]
    exact step_coherent hs ev (h evs ev [] rfl)

/-- In every run of requests, purges and pre-emptions in which every decoding miss is for
    the first frame of its group, every state reached is coherent: what is cached or was
    handed back for a frame is that frame's region, whatever was asked for first. -/
theorem coherent_of_group_first (q : Cube C) (ops : List CacheOp)
    (h : ∀ pre ev post, ops.flatMap q.events = pre ++ ev :: post → q.GroupFirst (q.run pre) ev) :
    ∀ pre post, ops.flatMap q.events = pre ++ post → q.Coherent (q.run pre) := by
  intro pre post he
  refine run_coherent pre fun pre' ev post' he' => h pre' ev (post' ++ post) ?_
  rw [he, he']
  simp

/-! ## Runs -/

/-- A 1 x 1 cube of four planes holding 1, 2, 4 and 8, compressed. -/
def fourPlanes : Cube Codec.plain :=
  Cube.zfpCompressCube ⟨1, 1, 4, fun _ => none, fun _ => none⟩ ⟨0, 1, -FLT_MAX, -FLT_MAX, FLT_MAX⟩
    (fun k _ => bswap32 ((0x3F800000 : UInt32) + (k.toUInt32 <<< 23))) 0

/-- Asking for frame 0 first, then for frame 1: the second request is a hit. -/
theorem coherent_of_group_first_run :
    fourPlanes.Coherent (fourPlanes.run [.request 0 0 0 0, .request 1 1 0 0]) ∧
      (fourPlanes.run [.request 0 0 0 0, .request 1 1 0 0]).handed.map (fun r => r.region 0) = [some 1, some 2] := by
  refine ⟨coherent_of_group_first fourPlanes [.request 0 0 0 0, .request 1 1 0 0] ?_ _ [] rfl, by decide +kernel⟩
  intro pre ev post h
  match pre, h with
  | [], h => cases h; exact fun _ _ => rfl
  | [a], h => cases h; exact fun hmiss => absurd hmiss (by decide)
  | a :: b :: rest, h => simp [Cube.events] at h

/-- Asking for frame 1 first files plane 0 under frame 1, and plane 1 under frame 2. -/
theorem a_second_frame_requested_first :
    ¬ ∀ (C : Codec) (q : Cube C) (ops : List CacheOp) (pre post : List CacheEv),
      ops.flatMap q.events = pre ++ post → q.Coherent (q.run pre) := by
  intro h
  have hs := h Codec.plain fourPlanes [.request 0 1 0 0] [.request 0 1 0 0] [] rfl
  have hd := hs.cached 1 0 0 _ rfl
  have h0 := congrArg (fun r => r.map fun region => region 0) hd
  revert h0
  decide +kernel

end FitsWebQL
