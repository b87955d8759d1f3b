/-
  FitsWebQL.Lib.ParallelFor — the three ways a loop over an array is split: into `n`
  consecutive chunks of equal size, the last taking what is left; the chunks among the
  threads of a team, each thread running its own in order on a private copy of the reduced
  variable; and a chunk's elements among the `W` lanes of a vector register.

  Proved: the chunks, in order, are the array (`chunks_join`); a reduction whose body stores
  a value keeps each thread's last (`reduction_store`); what an iteration brings about and
  the others keep holds of the thread that ran it (`threadRun_of_mem`); the lanes together
  hold what they held at the start plus every element's value (`reduceAdd_foreach`).
-/

import FitsWebQL.Lib.Tiling

namespace FitsWebQL.Lib.ParallelFor

/-! ## Chunks -/

variable {α : Type*}

def chunkStart (length n t : ℕ) : ℕ := t * (length / n)

def chunkSize (length n t : ℕ) : ℕ := if t + 1 = n then length - chunkStart length n t else length / n

def chunk (l : List α) (n t : ℕ) : List α := (l.drop (chunkStart l.length n t)).take (chunkSize l.length n t)

theorem chunkStart_le {length n t : ℕ} (h : t ≤ n) : chunkStart length n t ≤ length :=
  (Nat.mul_le_mul_right _ h).trans (Nat.mul_div_le length n)

theorem chunk_end_le {length n t : ℕ} (h : t < n) : chunkStart length n t + chunkSize length n t ≤ length := by
  have hs : chunkStart length n t ≤ length := chunkStart_le h.le
  have he : chunkStart length n (t + 1) ≤ length := chunkStart_le h
  unfold chunkSize
  split
  · omega
  · rw [chunkStart, Nat.succ_mul] at he
    exact he

theorem chunk_length {l : List α} {n t : ℕ} (h : t < n) : (chunk l n t).length = chunkSize l.length n t := by
  have hend : chunkStart l.length n t + chunkSize l.length n t ≤ l.length := chunk_end_le h
  rw [chunk, List.length_take, List.length_drop]
  omega

/-- The first `k` chunks, when the last is not among them. -/
theorem chunks_prefix (l : List α) {n : ℕ} : ∀ k < n, (List.range k).flatMap (chunk l n) = l.take (chunkStart l.length n k)
  | 0, _ => by simp [chunkStart]
  | k + 1, h => by
    have hsize : chunkSize l.length n k = l.length / n := if_neg (by omega)
    rw [List.range_succ, List.flatMap_append, chunks_prefix l k (by omega), chunkStart, chunkStart, Nat.succ_mul,
      List.take_add]
    simp [chunk, hsize, chunkStart]

theorem chunks_join (l : List α) {n : ℕ} (hn : 0 < n) : (List.range n).flatMap (chunk l n) = l := by
  obtain ⟨k, rfl⟩ : ∃ k, n = k + 1 := ⟨n - 1, by omega⟩
  have hlast : chunk l (k + 1) k = l.drop (chunkStart l.length (k + 1) k) := by
    rw [chunk, chunkSize, if_pos rfl]
    exact List.take_of_length_le (by simp)
  rw [List.range_succ, List.flatMap_append, chunks_prefix l k (by omega)]
  simp [hlast]

/-- Every element is in a chunk. -/
theorem mem_chunk {l : List α} {n : ℕ} (hn : 0 < n) {x : α} (hx : x ∈ l) : ∃ t < n, x ∈ chunk l n t := by
  rw [← chunks_join l hn] at hx
  simpa using hx

theorem chunk_zip {β : Type*} {l : List α} {l' : List β} (h : l.length = l'.length) (n t : ℕ) :
    chunk (l.zip l') n t = (chunk l n t).zip (chunk l' n t) := by
  have hlen : (l.zip l').length = l'.length := by simp [h]
  simp only [chunk, hlen, h]
  simp only [List.zip, List.drop_zipWith, List.take_zipWith]

/-- The indices in chunk `t`. -/
theorem chunk_range {length n t : ℕ} (h : t < n) :
    chunk (List.range length) n t = List.range' (chunkStart length n t) (chunkSize length n t) := by
  have hend : chunkStart length n t + chunkSize length n t ≤ length := chunk_end_le h
  rw [chunk, List.length_range, List.range_eq_range', List.drop_range', List.take_range'_of_length_ge (by omega)]
  simp

theorem chunk_map {β : Type*} (f : α → β) (l : List α) (n t : ℕ) : chunk (l.map f) n t = (chunk l n t).map f := by
  simp [chunk, List.map_drop, List.map_take]

/-- An index is in one chunk only. -/
theorem chunk_disjoint {length n t u i : ℕ} (ht : t < n) (hu : u < n)
    (hit : chunkStart length n t ≤ i ∧ i < chunkStart length n t + chunkSize length n t)
    (hiu : chunkStart length n u ≤ i ∧ i < chunkStart length n u + chunkSize length n u) : t = u := by
  have next : ∀ a b : ℕ, a < b → b < n → chunkStart length n a + chunkSize length n a ≤ chunkStart length n b := by
    intro a b hab hb
    have hmono : (a + 1) * (length / n) ≤ b * (length / n) := Nat.mul_le_mul_right _ hab
    rw [Nat.succ_mul] at hmono
    rw [chunkSize, if_neg (by omega)]
    exact hmono
  rcases Nat.lt_trichotomy t u with h | h | h
  · have := next t u h hu
    omega
  · exact h
  · have := next u t h ht
    omega

variable {M : Type*} [AddCommMonoid M]

theorem sum_chunks (l : List α) {n : ℕ} (hn : 0 < n) (g : α → M) :
    ((List.range n).map fun t => ((chunk l n t).map g).sum).sum = (l.map g).sum := by
  rw [← Tiling.sum_map_flatMap, chunks_join l hn]

/-! ## Threads -/

variable {σ : Type*}

/-- What thread `w` makes of its private copy: the iterations it was given, in order. -/
def threadRun (schedule : ℕ → ℕ) (n : ℕ) (body : σ → ℕ → σ) (init : σ) (w : ℕ) : σ :=
  ((List.range n).filter fun t => schedule t = w).foldl body init

/-- A property every step keeps, and the step for one element of the list brings about. -/
theorem foldl_of_mem {ι : Type*} {P : σ → Prop} {step : σ → ι → σ} (hkeep : ∀ s i, P s → P (step s i)) {l : List ι} {i : ι}
    (hi : i ∈ l) (hstep : ∀ s, P (step s i)) (s : σ) : P (l.foldl step s) := by
  have hrest : ∀ (l : List ι) (s : σ), P s → P (l.foldl step s) :=
    fun l s h => List.foldlRecOn l step h fun s h j _ => hkeep s j h
  induction l generalizing s with
  | nil => cases hi
  | cons j l ih =>
    rcases List.mem_cons.mp hi with rfl | hi
    · exact hrest l _ (hstep s)
    · exact ih hi _

theorem threadRun_of_mem {P : σ → Prop} {schedule : ℕ → ℕ} {n t : ℕ} {body : σ → ℕ → σ}
    (hkeep : ∀ s u, P s → P (body s u)) (ht : t < n) (hbody : ∀ s, P (body s t)) (init : σ) :
    P (threadRun schedule n body init (schedule t)) :=
  foldl_of_mem hkeep (List.mem_filter.mpr ⟨List.mem_range.mpr ht, by simp⟩) hbody init

/-- `reduction(+ : x)`, `x` being zero before the loop. -/
def reduction (schedule : ℕ → ℕ) (team n : ℕ) (body : M → ℕ → M) : M :=
  ((List.range team).map (threadRun schedule n body 0)).sum

/-- No later iteration of the loop is run by the thread that runs iteration `t`. -/
def IsLast (schedule : ℕ → ℕ) (n t : ℕ) : Prop := ∀ u < n, t < u → schedule u ≠ schedule t

instance (schedule : ℕ → ℕ) (n t : ℕ) : Decidable (IsLast schedule n t) := by
  unfold IsLast
  infer_instance

/-- A thread that stores a value at each iteration ends with its last one. -/
theorem threadRun_store (schedule : ℕ → ℕ) (g : ℕ → M) (w n : ℕ) :
    threadRun schedule n (fun _ t => g t) 0 w =
      ∑ t ∈ Finset.range n, if schedule t = w then if IsLast schedule n t then g t else 0 else 0 := by
  induction n with
  | zero => rfl
  | succ n ih =>
    have hrun : threadRun schedule (n + 1) (fun _ t => g t) 0 w =
        if schedule n = w then g n else threadRun schedule n (fun _ t => g t) 0 w := by
      unfold threadRun
      by_cases h : schedule n = w <;> simp [List.range_succ, List.filter_append, h]
    have hlast : IsLast schedule (n + 1) n := fun u hu hn => absurd hu (by omega)
    rw [hrun, Finset.sum_range_succ, if_pos hlast]
    by_cases h : schedule n = w
    · rw [if_pos h, if_pos h, Finset.sum_eq_zero, zero_add]
      intro t ht
      -- iteration `n` is later and the same thread's
      by_cases hw : schedule t = w
      · rw [if_pos hw, if_neg]
        intro hl
        exact hl n (by omega) (Finset.mem_range.mp ht) (h.trans hw.symm)
      · rw [if_neg hw]
    · rw [if_neg h, if_neg h, add_zero, ih]
      refine Finset.sum_congr rfl fun t ht => ?_
      by_cases hw : schedule t = w
      · have hiff : IsLast schedule n t ↔ IsLast schedule (n + 1) t := by
          constructor
          · intro hl u hu htu
            rcases Nat.lt_or_eq_of_le (Nat.lt_succ_iff.mp hu) with hlt | rfl
            · exact hl u hlt htu
            · rw [hw]
              exact h
          · intro hl u hu htu
            exact hl u (by omega) htu
        simp only [hiff]
      · rw [if_neg hw, if_neg hw]

theorem reduction_store {schedule : ℕ → ℕ} {team n : ℕ} (g : ℕ → M) (h : ∀ t < n, schedule t < team) :
    reduction schedule team n (fun _ t => g t) = ∑ t ∈ Finset.range n, if IsLast schedule n t then g t else 0 := by
  rw [reduction, ← List.sum_toFinset _ List.nodup_range, List.toFinset_range]
  simp only [threadRun_store]
  rw [Finset.sum_comm]
  refine Finset.sum_congr rfl fun t ht => ?_
  have hmem : schedule t ∈ Finset.range team := Finset.mem_range.mpr (h t (Finset.mem_range.mp ht))
  rw [Finset.sum_ite_eq, if_pos hmem]

/-! ## Lanes -/

variable {W : ℕ}

def reduceAdd (v : Fin W → M) : M := ∑ lane, v lane

theorem reduceAdd_update (v : Fin W → M) (lane : Fin W) (m : M) :
    reduceAdd (Function.update v lane (v lane + m)) = reduceAdd v + m := by
  unfold reduceAdd
  rw [Finset.sum_update_of_mem (Finset.mem_univ lane), ← Finset.add_sum_erase _ _ (Finset.mem_univ lane),
    Finset.sdiff_singleton_eq_erase]
  exact add_right_comm _ _ _

/-- A value that every lane starts from counts once for each of them. -/
theorem reduceAdd_const (m : M) : reduceAdd (fun _ : Fin W => m) = W • m := by
  simp [reduceAdd]

variable [NeZero W]

/-- `foreach`: element `i` is handled by lane `i % W`, which adds the element's value. -/
def foreach (f : α → M) : List α → ℕ → (Fin W → M) → Fin W → M
  | [], _, v => v
  | x :: xs, i, v => foreach f xs (i + 1) (Function.update v (Fin.ofNat W i) (v (Fin.ofNat W i) + f x))

theorem reduceAdd_foreach (f : α → M) (xs : List α) (i : ℕ) (v : Fin W → M) :
    reduceAdd (foreach f xs i v) = reduceAdd v + (xs.map f).sum := by
  induction xs generalizing i v with
  | nil => simp [foreach]
  | cons x xs ih => rw [foreach, ih, reduceAdd_update, List.map_cons, List.sum_cons, add_assoc]

end FitsWebQL.Lib.ParallelFor
