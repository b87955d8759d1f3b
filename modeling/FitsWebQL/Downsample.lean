/-
  FitsWebQL.Downsample — the viewport's spectrum brought down to the width of the
  browser's plot (`LargestTriangleThreeBuckets::Downsample` and the realtime worker, which
  calls it when the spectrum is longer than `dst_len = dx / 2`).

  The first and the last point are kept. Between them lie `destinationSize - 2` buckets of
  `every` points; of each the point is kept that spans the largest triangle with the last
  point kept and the average of the next bucket. Reading outside the source or writing
  outside the destination is an error here.

  The number of buckets is a `size_t`: with `destinationSize` 1 it is 2^64 - 1, and the
  first bucket's point is written behind the destination.

  Proved:
  - `bucketLoop_ok`: with more than two points to write, one point is picked in each bucket,
    between the previous bucket's and the last point.
  - `downsample_iff`: for any spectrum and any width that asks for fewer points than it has,
    the result is as it should be exactly when `dst_len` is not 1.
  - `one_point_overflows`: a plot two pixels wide.
-/

import Mathlib

namespace FitsWebQL

/-! ## Accesses -/

structure SpectrumPoint where
  x : ℚ
  y : ℚ
  deriving DecidableEq

inductive OutOfBounds where
  | read (index : ℕ)
  | write (index : ℕ)
  deriving DecidableEq

/-- The destination's cells and the place of the output iterator. -/
structure Destination where
  cells : List (Option SpectrumPoint)
  pos : ℕ
  deriving DecidableEq

def readPoint (source : List SpectrumPoint) (i : ℕ) : Except OutOfBounds SpectrumPoint :=
  match source[i]? with
  | some p => .ok p
  | none => .error (.read i)

/-- `*destination = p; ++destination;` -/
def Destination.put (o : Destination) (p : SpectrumPoint) : Except OutOfBounds Destination :=
  if o.pos < o.cells.length then .ok ⟨o.cells.set o.pos (some p), o.pos + 1⟩ else .error (.write o.pos)

/-- `a - b` of two `size_t`. -/
def sizeSub (a b : ℕ) : ℕ := if b ≤ a then a - b else a + 2 ^ 64 - b

/-! ## Downsample -/

/-- `for (; avgRangeStart < avgRangeEnd; ++avgRangeStart)`, `n` points from `i` on. -/
def sumPoints (source : List SpectrumPoint) : ℕ → ℕ → ℚ × ℚ → Except OutOfBounds (ℚ × ℚ)
  | 0, _, avg => .ok avg
  | n + 1, i, avg => do
    let p ← readPoint source i
    sumPoints source n (i + 1) (avg.1 + p.x, avg.2 + p.y)

def triangleArea (pointA : SpectrumPoint) (avg : ℚ × ℚ) (p : SpectrumPoint) : ℚ :=
  |(pointA.x - avg.1) * (p.y - pointA.y) - (pointA.x - p.x) * (avg.2 - pointA.y)| / 2

/-- `for (; rangeOffs < rangeTo; ++rangeOffs)`, `n` points from `i` on. -/
def largest (source : List SpectrumPoint) (pointA : SpectrumPoint) (avg : ℚ × ℚ) : ℕ → ℕ → ℚ → ℕ → Except OutOfBounds ℕ
  | 0, _, _, nextAIndex => .ok nextAIndex
  | n + 1, i, maxArea, nextAIndex => do
    let p ← readPoint source i
    if maxArea < triangleArea pointA avg p then largest source pointA avg n (i + 1) (triangleArea pointA avg p) i
    else largest source pointA avg n (i + 1) maxArea nextAIndex

/-- `static_cast<size_t>(i * every) + 1`. -/
def bucketStart (every : ℚ) (i : ℕ) : ℕ := ⌊i * every⌋₊ + 1

def pickPoint (source : List SpectrumPoint) (every : ℚ) (i aIndex : ℕ) : Except OutOfBounds ℕ := do
  let avgRangeStart := bucketStart every (i + 1)
  let avgRangeEnd := min (bucketStart every (i + 2)) source.length
  let total ← sumPoints source (avgRangeEnd - avgRangeStart) avgRangeStart (0, 0)
  let avgRangeLength := sizeSub avgRangeEnd avgRangeStart
  let avg := (total.1 / avgRangeLength, total.2 / avgRangeLength)
  let rangeOffs := bucketStart every i
  let rangeTo := bucketStart every (i + 1)
  let pointA ← readPoint source aIndex
  largest source pointA avg (rangeTo - rangeOffs) rangeOffs (-1) 0

def bucketLoop (source : List SpectrumPoint) (every : ℚ) : ℕ → ℕ → ℕ → Destination → Except OutOfBounds Destination
  | 0, _, _, destination => .ok destination
  | n + 1, i, aIndex, destination => do
    let nextAIndex ← pickPoint source every i aIndex
    let p ← readPoint source nextAIndex
    let destination ← destination.put p
    bucketLoop source every n (i + 1) nextAIndex destination

/-- `std::copy_n(source, sourceSize, destination)`, which leaves the iterator where it is. -/
def copyAll (source : List SpectrumPoint) (o : Destination) : Destination :=
  { o with cells := source.map some ++ o.cells.drop source.length }

def downsample (source : List SpectrumPoint) (destinationSize : ℕ) : Except OutOfBounds Destination :=
  let destination : Destination := ⟨List.replicate destinationSize none, 0⟩
  if destinationSize = 0 then .ok destination
  else do
    let destination := if source.length ≤ destinationSize then copyAll source destination else destination
    let first ← readPoint source 0
    let destination ← destination.put first
    let every : ℚ := sizeSub source.length 2 / sizeSub destinationSize 2
    let destination ← bucketLoop source every (sizeSub destinationSize 2) 0 0 destination
    let last ← readPoint source (sizeSub source.length 1)
    destination.put last

/-! ## The realtime worker -/

/-- `unsigned int dst_len = dx / 2;` -/
def dstLen (dx : ℤ) : ℕ := (dx.tdiv 2 % 2 ^ 32).toNat

/-- `in`: a point for each channel. -/
def spectrumPoints (spectrum : List ℚ) : List SpectrumPoint := spectrum.zipIdx.map fun p => ⟨p.2, p.1⟩

def viewportSpectrum (spectrum : List ℚ) (dx : ℤ) : Except OutOfBounds (List ℚ) :=
  if dstLen dx < spectrum.length then do
    let out ← downsample (spectrumPoints spectrum) (dstLen dx)
    return out.cells.map fun p => (p.map SpectrumPoint.y).getD 0
  else return spectrum

/-! ## Buckets -/

/-- `every` as it is for a source longer than the destination. -/
theorem every_bounds {n d : ℕ} (hd : 3 ≤ d) (hn : d < n) :
    1 ≤ (sizeSub n 2 / sizeSub d 2 : ℚ) ∧ ((d - 2 : ℕ) : ℚ) * (sizeSub n 2 / sizeSub d 2) = ((n - 2 : ℕ) : ℚ) := by
  have h1 : sizeSub n 2 = n - 2 := if_pos (by omega)
  have h2 : sizeSub d 2 = d - 2 := if_pos (by omega)
  have hpos : (0 : ℚ) < ((d - 2 : ℕ) : ℚ) := by exact_mod_cast (by omega : 0 < d - 2)
  rw [h1, h2]
  refine ⟨?_, mul_div_cancel₀ _ hpos.ne'⟩
  rw [le_div_iff₀ hpos, one_mul]
  exact_mod_cast (by omega : d - 2 ≤ n - 2)

/-- A bucket has a point. -/
theorem bucketStart_lt {every : ℚ} (h : 1 ≤ every) (i : ℕ) : bucketStart every i < bucketStart every (i + 1) := by
  have hpos : 0 ≤ i * every := by positivity
  have hstep : ⌊i * every⌋₊ + 1 ≤ ⌊((i + 1 : ℕ) : ℚ) * every⌋₊ := by
    rw [← Nat.floor_add_one hpos]
    refine Nat.floor_le_floor ?_
    push_cast
    linarith
  unfold bucketStart
  omega

theorem bucketStart_mono {every : ℚ} (h : 1 ≤ every) : StrictMono (bucketStart every) :=
  strictMono_nat_of_lt_succ (bucketStart_lt h)

/-- Buckets end before the last point. -/
theorem bucketStart_le {every : ℚ} {d n i : ℕ} (h : 1 ≤ every) (hlast : ((d - 2 : ℕ) : ℚ) * every = ((n - 2 : ℕ) : ℚ))
    (hn : 2 ≤ n) (hi : i ≤ d - 2) : bucketStart every i ≤ n - 1 := by
  have hle : bucketStart every i ≤ bucketStart every (d - 2) := (bucketStart_mono h).monotone hi
  have hend : bucketStart every (d - 2) = n - 2 + 1 := by rw [bucketStart, hlast, Nat.floor_natCast]
  omega

theorem bucketStart_zero (every : ℚ) : bucketStart every 0 = 1 := by simp [bucketStart]

/-! ## Reading inside the source -/

theorem inBounds_bind {α β : Type} (a : α) (f : α → Except OutOfBounds β) : (Except.ok a >>= f) = f a := rfl

theorem readPoint_ok {source : List SpectrumPoint} {i : ℕ} (h : i < source.length) : readPoint source i = .ok source[i] := by
  simp [readPoint, List.getElem?_eq_getElem h]

theorem sumPoints_ok {source : List SpectrumPoint} {n i : ℕ} (h : i + n ≤ source.length) (avg : ℚ × ℚ) :
    ∃ total, sumPoints source n i avg = .ok total := by
  induction n generalizing i avg with
  | zero => exact ⟨avg, rfl⟩
  | succ n ih =>
    rw [sumPoints, readPoint_ok (by omega)]
    exact ih (by omega) _

theorem triangleArea_nonneg (pointA : SpectrumPoint) (avg : ℚ × ℚ) (p : SpectrumPoint) : 0 ≤ triangleArea pointA avg p :=
  div_nonneg (abs_nonneg _) zero_le_two

/-- The index returned is one looked at, or the one it started with. -/
theorem largest_ok {source : List SpectrumPoint} (pointA : SpectrumPoint) (avg : ℚ × ℚ) {n i : ℕ}
    (h : i + n ≤ source.length) (maxArea : ℚ) (next : ℕ) :
    ∃ k, largest source pointA avg n i maxArea next = .ok k ∧ (k = next ∨ i ≤ k ∧ k < i + n) := by
  induction n generalizing i maxArea next with
  | zero => exact ⟨next, rfl, Or.inl rfl⟩
  | succ n ih =>
    rw [largest, readPoint_ok (by omega), inBounds_bind]
    split
    · obtain ⟨k, hk, hin⟩ := ih (i := i + 1) (by omega) (triangleArea pointA avg source[i]) i
      exact ⟨k, hk, Or.inr (by omega)⟩
    · obtain ⟨k, hk, hin⟩ := ih (i := i + 1) (by omega) maxArea next
      refine ⟨k, hk, ?_⟩
      rcases hin with rfl | hin
      · exact Or.inl rfl
      · exact Or.inr (by omega)

/-- An area is never negative, so the first point looked at is taken. -/
theorem largest_start {source : List SpectrumPoint} (pointA : SpectrumPoint) (avg : ℚ × ℚ) {n i : ℕ} (hn : 0 < n)
    (h : i + n ≤ source.length) : ∃ k, largest source pointA avg n i (-1) 0 = .ok k ∧ i ≤ k ∧ k < i + n := by
  obtain ⟨n, rfl⟩ : ∃ m, n = m + 1 := ⟨n - 1, by omega⟩
  have harea := triangleArea_nonneg pointA avg source[i]
  obtain ⟨k, hk, hin⟩ := @largest_ok source pointA avg n (i + 1) (by omega)
    (triangleArea pointA avg source[i]) i
  rw [largest, readPoint_ok (by omega), inBounds_bind, if_pos (by linarith)]
  exact ⟨k, hk, by omega⟩

/-- The point picked in a bucket lies in it. -/
theorem pickPoint_ok {source : List SpectrumPoint} {every : ℚ} {d i aIndex : ℕ} (h : 1 ≤ every)
    (hlast : ((d - 2 : ℕ) : ℚ) * every = ((source.length - 2 : ℕ) : ℚ)) (hn : 2 ≤ source.length) (hi : i < d - 2)
    (ha : aIndex < source.length) :
    ∃ k, pickPoint source every i aIndex = .ok k ∧ bucketStart every i ≤ k ∧ k < bucketStart every (i + 1) := by
  have hend : bucketStart every (i + 1) ≤ source.length - 1 := bucketStart_le h hlast hn hi
  have hlt := bucketStart_lt h i
  obtain ⟨total, htotal⟩ := @sumPoints_ok source (min (bucketStart every (i + 2)) source.length - bucketStart every (i + 1))
    (bucketStart every (i + 1)) (by omega) (0, 0)
  obtain ⟨k, hk, hlow, hhigh⟩ := @largest_start source source[aIndex]
    (total.1 / sizeSub (min (bucketStart every (i + 2)) source.length) (bucketStart every (i + 1)),
      total.2 / sizeSub (min (bucketStart every (i + 2)) source.length) (bucketStart every (i + 1)))
    (bucketStart every (i + 1) - bucketStart every i) (bucketStart every i) (by omega) (by omega)
  refine ⟨k, ?_, hlow, by omega⟩
  simp only [pickPoint]
  rw [htotal, inBounds_bind, readPoint_ok ha, inBounds_bind]
  exact hk

/-! ## The points picked -/

/-- The destination after the points `picked` were written to `d` cells. -/
def written (source : List SpectrumPoint) (d : ℕ) (picked : List ℕ) : Destination :=
  ⟨picked.map (fun i => source[i]?) ++ List.replicate (d - picked.length) none, picked.length⟩

theorem put_written {source : List SpectrumPoint} {d : ℕ} {picked : List ℕ} (hd : picked.length < d) {i : ℕ}
    (hi : i < source.length) : (written source d picked).put source[i] = .ok (written source d (picked ++ [i])) := by
  obtain ⟨m, hm⟩ : ∃ m, d - picked.length = m + 1 := ⟨d - picked.length - 1, by omega⟩
  have hm' : d - (picked ++ [i]).length = m := by
    simp only [List.length_append, List.length_singleton]
    omega
  rw [Destination.put, if_pos (by simp [written]; omega)]
  simp only [written, hm, hm', List.replicate_succ]
  simp [List.getElem?_eq_getElem hi]

structure Ascending (picked : List ℕ) (aIndex limit : ℕ) : Prop where
  sorted : picked.Pairwise (· < ·)
  first : picked.head? = some 0
  last : picked.getLast? = some aIndex
  bound : ∀ i ∈ picked, i < limit

theorem ascending_snoc {picked : List ℕ} {aIndex limit k limit' : ℕ} (h : Ascending picked aIndex limit) (hk : limit ≤ k)
    (hk' : k < limit') : Ascending (picked ++ [k]) k limit' := by
  refine ⟨?_, ?_, by simp, ?_⟩
  · rw [List.pairwise_append]
    refine ⟨h.sorted, by simp, fun a ha b hb => ?_⟩
    rw [List.mem_singleton.mp hb]
    exact (h.bound a ha).trans_le hk
  · rw [List.head?_append, h.first]
    rfl
  · intro i hi
    rcases List.mem_append.mp hi with hi | hi
    · exact ((h.bound i hi).trans_le hk).trans hk'
    · rw [List.mem_singleton.mp hi]
      exact hk'

theorem bucketLoop_ok {source : List SpectrumPoint} {every : ℚ} {d : ℕ} (h : 1 ≤ every)
    (hlast : ((d - 2 : ℕ) : ℚ) * every = ((source.length - 2 : ℕ) : ℚ)) (hn : 2 ≤ source.length) (hd : 3 ≤ d) {n i : ℕ}
    (hni : i + n = d - 2) {picked : List ℕ} {aIndex : ℕ} (hlen : picked.length = i + 1)
    (hp : Ascending picked aIndex (bucketStart every i)) :
    ∃ picked' aIndex', bucketLoop source every n i aIndex (written source d picked) = .ok (written source d picked') ∧
      picked'.length = d - 1 ∧ Ascending picked' aIndex' (source.length - 1) := by
  induction n generalizing i picked aIndex with
  | zero =>
    refine ⟨picked, aIndex, rfl, by omega, hp.sorted, hp.first, hp.last, fun j hj => ?_⟩
    exact (hp.bound j hj).trans_le (bucketStart_le h hlast hn (by omega))
  | succ n ih =>
    have hbound : bucketStart every i ≤ source.length - 1 := bucketStart_le h hlast hn (by omega)
    have ha : aIndex < source.length := by
      have := hp.bound aIndex (List.mem_of_getLast? hp.last)
      omega
    obtain ⟨k, hk, hlow, hhigh⟩ := pickPoint_ok h hlast hn (by omega : i < d - 2) ha
    have hks : k < source.length := by
      have : bucketStart every (i + 1) ≤ source.length - 1 := bucketStart_le h hlast hn (by omega)
      omega
    rw [bucketLoop, hk, inBounds_bind, readPoint_ok hks, inBounds_bind, put_written (by omega) hks, inBounds_bind]
    exact ih (by omega) (by simp [hlen]) (ascending_snoc hp hlow hhigh)

/-! ## The whole routine -/

/-- Every access inside its array, every cell of the destination written once, in order; from
    two points on the first and the last of the source kept and the others between them. -/
def KeepsShape (source : List SpectrumPoint) (destinationSize : ℕ) : Prop :=
  ∃ picked : List ℕ, picked.length = destinationSize ∧ (∀ i ∈ picked, i < source.length) ∧
    downsample source destinationSize = .ok (written source destinationSize picked) ∧
    (2 ≤ destinationSize →
      picked.Pairwise (· < ·) ∧ picked.head? = some 0 ∧ picked.getLast? = some (source.length - 1))

/-- The last point, after all the others. -/
theorem keepsShape_last {source : List SpectrumPoint} {d : ℕ} (hd : 2 ≤ d) {picked : List ℕ} {aIndex : ℕ}
    (hlen : picked.length = d - 1) (hp : Ascending picked aIndex (source.length - 1))
    (hn : 2 ≤ source.length) {o : Except OutOfBounds Destination}
    (ho : o = (written source d picked).put (source[source.length - 1])) (hdown : downsample source d = o) :
    KeepsShape source d := by
  have hall := ascending_snoc hp le_rfl (show source.length - 1 < source.length by omega)
  refine ⟨picked ++ [source.length - 1], by simp [hlen]; omega, hall.bound, ?_, fun _ => ⟨hall.sorted, hall.first, hall.last⟩⟩
  rw [hdown, ho, put_written (by omega) (by omega)]

theorem keepsShape_of_many {source : List SpectrumPoint} {d : ℕ} (hd : 2 ≤ d) (hn : d < source.length) :
    KeepsShape source d := by
  have hsub : sizeSub source.length 1 = source.length - 1 := if_pos (by omega)
  have hempty : (⟨List.replicate d none, 0⟩ : Destination) = written source d [] := by simp [written]
  have hfirst : Ascending [0] 0 (bucketStart (sizeSub source.length 2 / sizeSub d 2) 0) :=
    ⟨by simp, rfl, rfl, by simp [bucketStart_zero]⟩
  have hstart : downsample source d =
      bucketLoop source (sizeSub source.length 2 / sizeSub d 2) (sizeSub d 2) 0 0 (written source d [0]) >>= fun o =>
        (readPoint source (sizeSub source.length 1)) >>= fun last => o.put last := by
    simp only [downsample]
    rw [if_neg (by omega), if_neg (by omega), readPoint_ok (by omega), inBounds_bind, hempty,
      put_written (by simp; omega) (by omega), inBounds_bind]
    rfl
  rw [hsub, readPoint_ok (by omega)] at hstart
  rcases Nat.lt_or_eq_of_le hd with hd3 | rfl
  · obtain ⟨hevery, hlast⟩ := every_bounds hd3 hn
    have hbuckets : 0 + sizeSub d 2 = d - 2 := by
      rw [Nat.zero_add]
      exact if_pos hd
    obtain ⟨picked, aIndex, hloop, hlen, hp⟩ := bucketLoop_ok hevery hlast (by omega) hd3 hbuckets rfl hfirst
    rw [hloop, inBounds_bind, inBounds_bind] at hstart
    exact keepsShape_last hd hlen hp (by omega) rfl hstart
  · have hp : Ascending [0] 0 (source.length - 1) := ⟨by simp, rfl, rfl, by simp; omega⟩
    exact keepsShape_last le_rfl rfl hp (by omega) rfl hstart

theorem keepsShape_zero (source : List SpectrumPoint) : KeepsShape source 0 :=
  ⟨[], rfl, by simp, by simp [downsample, written], by simp⟩

theorem ok_of_bind {α β : Type} {m : Except OutOfBounds α} {f : α → Except OutOfBounds β} {b : β} (h : m >>= f = .ok b) :
    ∃ a, m = .ok a ∧ f a = .ok b := by
  cases m with
  | error e => cases h
  | ok a => exact ⟨a, rfl, h⟩

/-- A bucket's point cannot be written behind the destination. -/
theorem bucketLoop_full {source : List SpectrumPoint} {every : ℚ} {n i aIndex : ℕ} {o : Destination}
    (ho : o.cells.length ≤ o.pos) (o' : Destination) : bucketLoop source every (n + 1) i aIndex o ≠ .ok o' := by
  intro h
  rw [bucketLoop] at h
  obtain ⟨k, -, h⟩ := ok_of_bind h
  obtain ⟨p, -, h⟩ := ok_of_bind h
  obtain ⟨o'', hput, -⟩ := ok_of_bind h
  rw [Destination.put, if_neg (by omega)] at hput
  cases hput

/-- One cell and 2^64 - 1 buckets. -/
theorem downsample_one {source : List SpectrumPoint} (hn : 1 < source.length) (o : Destination) :
    downsample source 1 ≠ .ok o := by
  have hbuckets : sizeSub 1 2 = (2 ^ 64 - 2) + 1 := rfl
  have hput : (⟨List.replicate 1 none, 0⟩ : Destination).put source[0] = .ok ⟨[some source[0]], 1⟩ := rfl
  intro h
  simp only [downsample] at h
  rw [if_neg (by decide), if_neg (by omega), readPoint_ok (by omega), inBounds_bind, hput, inBounds_bind, hbuckets] at h
  obtain ⟨o', hloop, -⟩ := ok_of_bind h
  exact bucketLoop_full le_rfl o' hloop

theorem downsample_iff (spectrum : List ℚ) (dx : ℤ) (h : dstLen dx < spectrum.length) :
    KeepsShape (spectrumPoints spectrum) (dstLen dx) ↔ dstLen dx ≠ 1 := by
  have hlen : (spectrumPoints spectrum).length = spectrum.length := by simp [spectrumPoints]
  generalize dstLen dx = d at h ⊢
  constructor
  · rintro ⟨picked, -, -, hdown, -⟩ rfl
    exact downsample_one (by omega) _ hdown
  · intro hne
    rcases Nat.lt_or_ge d 2 with h2 | h2
    · obtain rfl : d = 0 := by omega
      exact keepsShape_zero _
    · exact keepsShape_of_many h2 (by omega)

/-- What the worker sends then has `dst_len` values. -/
theorem viewportSpectrum_length (spectrum : List ℚ) (dx : ℤ) (h : dstLen dx < spectrum.length) (h1 : dstLen dx ≠ 1) :
    ∃ sent, viewportSpectrum spectrum dx = .ok sent ∧ sent.length = dstLen dx := by
  have hlen : (spectrumPoints spectrum).length = spectrum.length := by simp [spectrumPoints]
  have hkeeps : KeepsShape (spectrumPoints spectrum) (dstLen dx) := by
    rcases Nat.lt_or_ge (dstLen dx) 2 with h2 | h2
    · rw [show dstLen dx = 0 by omega]
      exact keepsShape_zero _
    · exact keepsShape_of_many h2 (by omega)
  obtain ⟨picked, hpicked, -, hdown, -⟩ := hkeeps
  refine ⟨_, by rw [viewportSpectrum, if_pos h, hdown, inBounds_bind]; rfl, ?_⟩
  simp [written, hpicked]

/-- The widths, as a 32-bit `int`, that ask for one point. -/
theorem dstLen_eq_one {dx : ℤ} (h : -2 ^ 31 ≤ dx ∧ dx < 2 ^ 31) : dstLen dx = 1 ↔ dx = 2 ∨ dx = 3 := by
  unfold dstLen
  rcases le_total 0 dx with h0 | h0
  · rw [Int.tdiv_eq_ediv_of_nonneg h0]
    omega
  · obtain ⟨n, rfl⟩ : ∃ n : ℕ, dx = -n := ⟨dx.natAbs, by omega⟩
    rw [Int.neg_tdiv, Int.tdiv_eq_ediv_of_nonneg (by omega)]
    omega

theorem five_channels_in_three_points : KeepsShape (spectrumPoints [0, 2, 1, 5, 3]) (dstLen 6) :=
  (downsample_iff [0, 2, 1, 5, 3] 6 (by decide)).mpr (by decide)

/-- A plot two pixels wide and a spectrum of three channels. -/
theorem one_point_overflows : dstLen 2 = 1 ∧ dstLen 2 < [(0 : ℚ), 1, 2].length ∧
    downsample (spectrumPoints [0, 1, 2]) (dstLen 2) = .error (.write 1) := by
  decide +kernel

end FitsWebQL
