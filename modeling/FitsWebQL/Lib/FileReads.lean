/-
  FitsWebQL.Lib.FileReads — reading a file: by `pread` at a place, which transfers MAX_RW_COUNT
  bytes at most, and by zlib's `gzread` behind what was read before.

  zlib is known by its manual only (`Zlib`): a read gives what comes next, all that was asked
  for when it is there, and nothing when the length does not fit an int.

  Proved:
  - `pread_full`: when `pread` gives all that was asked for.
  - `Zlib.gzread_full`, `Zlib.gzread_short`: when `gzread` does, and what is left then.
-/

import Mathlib.Algebra.Order.Ring.Nat
import Mathlib.Data.List.Basic
import Mathlib.Tactic.Common

namespace FitsWebQL.Lib.FileReads

/-- The most that one `pread` transfers. -/
def MAX_RW_COUNT : ℕ := 0x7ffff000

def pread (file : List UInt8) (count offset : ℕ) : List UInt8 := (file.drop offset).take (min count MAX_RW_COUNT)

/-- What is still to come of an open gzip, and whether an error has been met. -/
structure GzStream where
  rest : List UInt8
  error : Bool

/-- `gzread(file, buf, len)`, as the manual has it: the bytes read, `none` being -1, and the
    stream behind them. -/
structure Zlib where
  gzread : GzStream → ℕ → Option (List UInt8) × GzStream
  /-- All that was asked for, when it is there. -/
  whole : ∀ {s len}, s.error = false → len < 2 ^ 31 → len ≤ s.rest.length →
    gzread s len = (some (s.rest.take len), ⟨s.rest.drop len, false⟩)
  /-- What is read is what comes next. -/
  next : ∀ {s len bytes}, (gzread s len).1 = some bytes →
    bytes.length ≤ len ∧ bytes = s.rest.take bytes.length ∧ (gzread s len).2.rest = s.rest.drop bytes.length
  /-- A length that does not fit an int. -/
  long : ∀ {s len}, 2 ^ 31 ≤ len → (gzread s len).1 = none

/-! ## pread -/

theorem pread_length (file : List UInt8) (count offset : ℕ) :
    (pread file count offset).length = min (min count MAX_RW_COUNT) (file.length - offset) := by
  rw [pread, List.length_take, List.length_drop]

theorem pread_full {file : List UInt8} {count offset : ℕ} :
    (pread file count offset).length = count ↔ count ≤ MAX_RW_COUNT ∧ count ≤ file.length - offset := by
  rw [pread_length]
  omega

theorem pread_eq {file : List UInt8} {count : ℕ} (h : count ≤ MAX_RW_COUNT) (offset : ℕ) :
    pread file count offset = (file.drop offset).take count := by
  rw [pread, Nat.min_eq_left h]

/-! ## gzread -/

namespace Zlib

variable (z : Zlib) {s : GzStream} {len : ℕ} {bytes : List UInt8}

/-- A read that gives as much as was asked for: there is as much, and it is behind. -/
theorem gzread_full (h : (z.gzread s len).1 = some bytes) (hlen : bytes.length = len) :
    len ≤ s.rest.length ∧ bytes = s.rest.take len ∧ (z.gzread s len).2.rest = s.rest.drop len := by
  obtain ⟨-, hbytes, hrest⟩ := z.next h
  rw [hlen] at hbytes hrest
  have htake := congrArg List.length hbytes
  rw [List.length_take, hlen] at htake
  exact ⟨by omega, hbytes, hrest⟩

/-- Asked for as many bytes as an `unsigned` says of a length that is too long. -/
theorem gzread_short (hlen : 2 ^ 31 ≤ len) (h : (z.gzread s (len % 2 ^ 32)).1 = some bytes) : bytes.length ≠ len := by
  intro he
  have hle := (z.next h).1
  have hmod : ¬ 2 ^ 31 ≤ len % 2 ^ 32 := by
    intro hlong
    rw [z.long hlong] at h
    cases h
  omega

end Zlib

def exactZlib : Zlib where
  gzread s len :=
    if s.error = true ∨ 2 ^ 31 ≤ len then (none, { s with error := true })
    else (some (s.rest.take len), { s with rest := s.rest.drop len })
  whole := by
    intro s len hok hlen _
    have hgo : ¬ (s.error = true ∨ 2 ^ 31 ≤ len) := by
      rw [hok]
      simpa using hlen
    rw [if_neg hgo, hok]
  next := by
    intro s len bytes h
    split at h
    · cases h
    · rename_i hok
      cases h
      rw [if_neg hok, List.length_take]
      refine ⟨Nat.min_le_left _ _, ?_, ?_⟩
      · rw [← List.take_eq_take_min]
      · dsimp only
        rcases Nat.le_total len s.rest.length with hle | hle
        · rw [Nat.min_eq_left hle]
        · rw [Nat.min_eq_right hle, List.drop_length, List.drop_of_length_le hle]
  long := by
    intro s len hlen
    rw [if_pos (Or.inr hlen)]

end FitsWebQL.Lib.FileReads
