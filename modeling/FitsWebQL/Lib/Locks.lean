/-
  FitsWebQL.Lib.Locks — threads and reader-writer mutexes (`std::shared_mutex`). A thread
  holds at most one mutex at a time, and which one, and how, can be told from the point
  it is at (`holds`). Taking a mutex, giving it back and going on are single moves; each
  keeps the mutexes and the threads in agreement (`agree_acquire`, `agree_release`,
  `agree_move`), and where they agree a mutex held exclusively is held by one thread only
  (`Agree.exclusive`).
-/

import Mathlib

namespace FitsWebQL.Lib.Locks

inductive Mode
  | shared
  | exclusive
  deriving DecidableEq

structure SharedMutex (τ : Type*) where
  writer : Option τ
  readers : List τ

def SharedMutex.free {τ : Type*} : SharedMutex τ := ⟨none, []⟩

structure Threads (ι τ π : Type*) where
  mtx : ι → SharedMutex τ
  pc : τ → π

section
variable {τ : Type*}

/-- `lock` and `lock_shared`; none while the caller has to wait. -/
def SharedMutex.acquire (m : SharedMutex τ) (t : τ) : Mode → Option (SharedMutex τ)
  | .exclusive => if m.writer = none ∧ m.readers = [] then some { m with writer := some t } else none
  | .shared => if m.writer = none then some { m with readers := t :: m.readers } else none

/-- What a mutex is after it was taken. -/
theorem acquire_cases {m m' : SharedMutex τ} {t : τ} {mode : Mode} (h : m.acquire t mode = some m') :
    m.writer = none ∧ ((mode = .exclusive ∧ m.readers = [] ∧ m' = ⟨some t, []⟩) ∨
      (mode = .shared ∧ m' = ⟨none, t :: m.readers⟩)) := by
  cases mode with
  | exclusive =>
    simp only [SharedMutex.acquire] at h
    split at h
    · rename_i hfree
      cases h
      refine ⟨hfree.1, Or.inl ⟨rfl, hfree.2, ?_⟩⟩
      rw [hfree.2]
    · cases h
  | shared =>
    simp only [SharedMutex.acquire] at h
    split at h
    · rename_i hfree
      cases h
      refine ⟨hfree, Or.inr ⟨rfl, ?_⟩⟩
      rw [hfree]
    · cases h

def SharedMutex.Held (m : SharedMutex τ) (t : τ) : Mode → Prop
  | .exclusive => m.writer = some t
  | .shared => t ∈ m.readers

/-- A mutex is as it may be: readers once each, and none beside a writer. -/
structure SharedMutex.Ok (m : SharedMutex τ) : Prop where
  nodup : m.readers.Nodup
  excludes : ∀ t, m.writer = some t → m.readers = []

/-- Taking a mutex: the caller holds it, and others hold what they held. -/
theorem held_acquire {m m' : SharedMutex τ} {t : τ} {mode : Mode} (hm : m.Ok) (ht : ∀ mode', ¬ m.Held t mode')
    (h : m.acquire t mode = some m') :
    m'.Ok ∧ ∀ t' mode', m'.Held t' mode' ↔ m.Held t' mode' ∨ t' = t ∧ mode' = mode := by
  obtain ⟨hw, ⟨rfl, hr, rfl⟩ | ⟨rfl, rfl⟩⟩ := acquire_cases h
  · refine ⟨⟨List.nodup_nil, fun _ _ => rfl⟩, fun t' mode' => ?_⟩
    cases mode' with
    | exclusive => simp [SharedMutex.Held, hw, eq_comm]
    | shared => simp [SharedMutex.Held, hr]
  · refine ⟨⟨List.nodup_cons.mpr ⟨ht .shared, hm.nodup⟩, fun _ h => by cases h⟩, fun t' mode' => ?_⟩
    cases mode' with
    | exclusive => simp [SharedMutex.Held, hw]
    | shared => simp [SharedMutex.Held, or_comm]

variable [DecidableEq τ]

def SharedMutex.release (m : SharedMutex τ) (t : τ) : Mode → SharedMutex τ
  | .exclusive => { m with writer := none }
  | .shared => { m with readers := m.readers.erase t }

instance (m : SharedMutex τ) (t : τ) (mode : Mode) : Decidable (m.Held t mode) :=
  match mode with
  | .exclusive => inferInstanceAs (Decidable (m.writer = some t))
  | .shared => inferInstanceAs (Decidable (t ∈ m.readers))

/-- Giving it back: the caller holds it no more, and others hold what they held. -/
theorem held_release {m : SharedMutex τ} {t : τ} {mode : Mode} (hm : m.Ok) (ht : m.Held t mode) :
    (m.release t mode).Ok ∧ ∀ t' mode', (m.release t mode).Held t' mode' ↔ m.Held t' mode' ∧ t' ≠ t := by
  cases mode with
  | exclusive =>
    have hr := hm.excludes t ht
    refine ⟨⟨hm.nodup, fun _ h => by cases h⟩, fun t' mode' => ?_⟩
    cases mode' with
    | exclusive =>
      refine ⟨fun h => (by cases h), fun h => absurd ?_ h.2⟩
      exact Option.some.inj (h.1.symm.trans ht)
    | shared => simp [SharedMutex.Held, SharedMutex.release, hr]
  | shared =>
    have hw : m.writer = none := by
      cases hw : m.writer with
      | none => rfl
      | some w =>
        rw [SharedMutex.Held, hm.excludes w hw] at ht
        cases ht
    refine ⟨⟨hm.nodup.erase t, fun w h => ?_⟩, fun t' mode' => ?_⟩
    · have h' : m.writer = some w := h
      rw [hw] at h'
      cases h'
    · cases mode' with
      | exclusive => simp [SharedMutex.Held, SharedMutex.release, hw]
      | shared =>
        simp only [SharedMutex.Held, SharedMutex.release]
        rw [hm.nodup.mem_erase_iff]
        exact and_comm

end

/-! ## Threads -/

/-- The mutexes are held by the threads that are at points where they hold them. -/
structure Agree {ι τ π : Type*} (holds : π → Option (ι × Mode)) (s : Threads ι τ π) : Prop where
  held : ∀ i t mode, (s.mtx i).Held t mode ↔ holds (s.pc t) = some (i, mode)
  ok : ∀ i, (s.mtx i).Ok

section
variable {ι τ π : Type*} {holds : π → Option (ι × Mode)} {s : Threads ι τ π} {t : τ}

theorem agree_free {pc : τ → π} (h : ∀ t, holds (pc t) = none) :
    Agree holds (⟨fun _ => SharedMutex.free, pc⟩ : Threads ι τ π) where
  held i t mode := by
    rw [h t]
    cases mode with
    | exclusive => exact ⟨fun h => (by cases h), fun h => (by cases h)⟩
    | shared => exact ⟨fun h => (by cases h), fun h => (by cases h)⟩
  ok _ := ⟨List.nodup_nil, fun _ h => by cases h⟩

/-- A mutex held exclusively is held by nobody else. -/
theorem Agree.exclusive (h : Agree holds s) {t' : τ} {i : ι} {mode : Mode} (ht : holds (s.pc t) = some (i, .exclusive))
    (ht' : holds (s.pc t') = some (i, mode)) : t' = t := by
  have hw : (s.mtx i).writer = some t := (h.held i t .exclusive).mpr ht
  have hheld := (h.held i t' mode).mpr ht'
  cases mode with
  | exclusive => exact Option.some.inj (hheld.symm.trans hw)
  | shared =>
    rw [SharedMutex.Held, (h.ok i).excludes t hw] at hheld
    cases hheld

variable [DecidableEq τ]

def Threads.move (s : Threads ι τ π) (t : τ) (p : π) : Threads ι τ π := { s with pc := Function.update s.pc t p }

/-- A thread that goes on holds what it held. -/
theorem agree_move (h : Agree holds s) {p : π} (hp : holds p = holds (s.pc t)) : Agree holds (s.move t p) := by
  refine ⟨fun i t' mode => ?_, h.ok⟩
  show (s.mtx i).Held t' mode ↔ holds (Function.update s.pc t p t') = some (i, mode)
  by_cases ht : t' = t
  · rw [ht, Function.update_self, hp]
    exact h.held i t mode
  · rw [Function.update_of_ne ht]
    exact h.held i t' mode

variable [DecidableEq ι]

def Threads.acquire (s : Threads ι τ π) (t : τ) (i : ι) (mode : Mode) (p : π) : Option (Threads ι τ π) :=
  ((s.mtx i).acquire t mode).map fun m => ⟨Function.update s.mtx i m, Function.update s.pc t p⟩

def Threads.release (s : Threads ι τ π) (t : τ) (i : ι) (mode : Mode) (p : π) : Threads ι τ π :=
  ⟨Function.update s.mtx i ((s.mtx i).release t mode), Function.update s.pc t p⟩

/-- A thread that held nothing takes a mutex. -/
theorem agree_acquire {s' : Threads ι τ π} {p : π} {i : ι} {mode : Mode} (h : Agree holds s) (hold : holds (s.pc t) = none)
    (hp : holds p = some (i, mode)) (hs : s.acquire t i mode p = some s') : Agree holds s' := by
  obtain ⟨m, hm, rfl⟩ := Option.map_eq_some_iff.mp hs
  have hnot : ∀ j mode', ¬ (s.mtx j).Held t mode' := by
    intro j mode' hheld
    rw [h.held, hold] at hheld
    cases hheld
  obtain ⟨hok, hheld⟩ := held_acquire (h.ok i) (hnot i) hm
  constructor
  · intro j t' mode'
    show (Function.update s.mtx i m j).Held t' mode' ↔ holds (Function.update s.pc t p t') = some (j, mode')
    by_cases ht : t' = t
    · rw [ht, Function.update_self, hp]
      by_cases hj : j = i
      · subst hj
        rw [Function.update_self, hheld]
        simp [hnot, eq_comm]
      · rw [Function.update_of_ne hj]
        simp [hnot, Ne.symm hj]
    · rw [Function.update_of_ne ht, ← h.held]
      by_cases hj : j = i
      · subst hj
        rw [Function.update_self, hheld]
        simp [ht]
      · rw [Function.update_of_ne hj]
  · intro j
    show (Function.update s.mtx i m j).Ok
    by_cases hj : j = i
    · subst hj
      rw [Function.update_self]
      exact hok
    · rw [Function.update_of_ne hj]
      exact h.ok j

/-- A thread gives its mutex back. -/
theorem agree_release {p : π} {i : ι} {mode : Mode} (h : Agree holds s) (hold : holds (s.pc t) = some (i, mode))
    (hp : holds p = none) : Agree holds (s.release t i mode p) := by
  have hmine : (s.mtx i).Held t mode := (h.held i t mode).mpr hold
  obtain ⟨hok, hheld⟩ := held_release (h.ok i) hmine
  constructor
  · intro j t' mode'
    show (Function.update s.mtx i ((s.mtx i).release t mode) j).Held t' mode' ↔
      holds (Function.update s.pc t p t') = some (j, mode')
    by_cases ht : t' = t
    · subst ht
      rw [Function.update_self, hp]
      by_cases hj : j = i
      · subst hj
        rw [Function.update_self, hheld]
        simp
      · rw [Function.update_of_ne hj, h.held, hold]
        simp [Ne.symm hj]
    · rw [Function.update_of_ne ht, ← h.held]
      by_cases hj : j = i
      · subst hj
        rw [Function.update_self, hheld]
        simp [ht]
      · rw [Function.update_of_ne hj]
  · intro j
    show (Function.update s.mtx i ((s.mtx i).release t mode) j).Ok
    by_cases hj : j = i
    · subst hj
      rw [Function.update_self]
      exact hok
    · rw [Function.update_of_ne hj]
      exact h.ok j

end

end FitsWebQL.Lib.Locks
