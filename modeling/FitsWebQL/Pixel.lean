/-
  FitsWebQL.Pixel — pixel values (`webql.ispc`). A plane of a FITS cube is an array of
  32-bit words, big-endian IEEE single precision; a kernel swaps the bytes, scales the
  value by `bzero`/`bscale` and drops it when it is NaN or infinite, not above `ignrval`,
  or outside `[datamin, datamax]`.

  Arithmetic is exact: a value is a rational, or `none` for NaN and the infinities, so a
  kernel's `isnan(tmp) || isinf(tmp)` is `none`. The header's scalars are rationals.

  The three codecs (half floats, ZFP, LZ4) are parameters that give back what they were
  given (`Codec`); everything around them is the code's.
-/

import FitsWebQL.Lib.Tiling

namespace FitsWebQL

/-! ## Words and floats -/

/-- A raw plane: `(int32_t *)fits_cube[frame].get()`. -/
abbrev Plane := ℕ → UInt32

def bswap32 (u : UInt32) : UInt32 :=
  ((u &&& 0xFF) <<< 24) ||| (((u >>> 8) &&& 0xFF) <<< 16) ||| (((u >>> 16) &&& 0xFF) <<< 8) |||
    (((u >>> 24) &&& 0xFF) <<< 0)

/-- The value of an IEEE single-precision word; `none` for NaN and the infinities. -/
def floatbits (u : UInt32) : Option ℚ :=
  let n : ℕ := u.toNat
  let exponent : ℕ := n / 2 ^ 23 % 2 ^ 8
  let mantissa : ℕ := n % 2 ^ 23
  if exponent = 255 then none
  else
    let magnitude : ℚ :=
      if exponent = 0 then (mantissa : ℚ) * 2 ^ (-149 : ℤ)
      else ((2 ^ 23 + mantissa : ℕ) : ℚ) * 2 ^ ((exponent : ℤ) - 150)
    some (if n / 2 ^ 31 = 1 then -magnitude else magnitude)

def FLT_MAX : ℚ := (2 ^ 24 - 1) * 2 ^ 104

/-! ## Scaling and filtering -/

structure Scale where
  bzero : ℚ
  bscale : ℚ
  ignrval : ℚ
  datamin : ℚ
  datamax : ℚ
  deriving DecidableEq

/-- `(tmp <= ignrval) || (tmp < datamin) || (tmp > datamax)`. -/
def Scale.ignored (s : Scale) (tmp : ℚ) : Bool :=
  decide (tmp ≤ s.ignrval) || decide (tmp < s.datamin) || decide (s.datamax < tmp)

/-- `bzero + bscale * v`, or `none` where the kernel's `nan` is true. -/
def Scale.physical (s : Scale) : Option ℚ → Option ℚ
  | none => none
  | some v => if s.ignored (s.bzero + s.bscale * v) then none else some (s.bzero + s.bscale * v)

def Scale.word (s : Scale) (u : UInt32) : Option ℚ := s.physical (floatbits (bswap32 u))

def Scale.pixel (s : Scale) (src : Plane) (i : ℕ) : Option ℚ := s.physical (floatbits (bswap32 (src i)))

/-- The scaling `get_spectrum` passes for cached values: `bzero` 0, `bscale` 1. -/
def Scale.unscaled (s : Scale) : Scale := { s with bzero := 0, bscale := 1 }

theorem Scale.not_ignored_of_physical {s : Scale} {v : Option ℚ} {q : ℚ} (h : s.physical v = some q) :
    s.ignored q = false := by
  cases v with
  | none => cases h
  | some v =>
    simp only [Scale.physical] at h
    split at h
    · cases h
    · cases h
      simpa using ‹¬ s.ignored _ = true›

/-- A value that passed the filter passes it again, unscaled. -/
theorem Scale.unscaled_physical {s : Scale} {v : Option ℚ} : s.unscaled.physical (s.physical v) = s.physical v := by
  cases h : s.physical v with
  | none => rfl
  | some q =>
    have hq : s.unscaled.ignored q = false := s.not_ignored_of_physical h
    simp only [Scale.physical, Scale.unscaled, zero_add, one_mul]
    rw [if_neg]
    simpa [Scale.unscaled] using hq

/-- What an F16 kernel given `bzero` and `bscale` makes of cached pixel `i`: the physical
    value, scaled again. -/
def Scale.rescaled (s : Scale) (src : Plane) (i : ℕ) : Option ℚ := s.physical (s.pixel src i)

theorem rescaled_none {s : Scale} {plane : Plane} {p : ℕ} (h : s.pixel plane p = none) : s.rescaled plane p = none := by
  rw [Scale.rescaled, h]
  rfl

/-- A valid value scaled again is itself exactly when the scaling fixes it. -/
theorem Scale.rescaled_eq_iff {s : Scale} {src : Plane} {i : ℕ} {v : ℚ} (h : s.pixel src i = some v) :
    s.rescaled src i = some v ↔ s.bzero + s.bscale * v = v := by
  have hv : s.ignored v = false := Scale.not_ignored_of_physical h
  rw [Scale.rescaled, h, Scale.physical]
  constructor
  · intro he
    split at he
    · cases he
    · exact Option.some.inj he
  · intro he
    rw [he, hv]
    rfl

/-! ## Codecs -/

/-- Half floats, ZFP streams of 4x4x4 blocks and LZ4 blocks, each giving back what it
    was given. A ZFP stream holds block `n`'s value at offset `o`. -/
structure Codec where
  Half : Type
  floatToHalfFast : Option ℚ → Half
  halfToFloatFast : Half → Option ℚ
  half_lossless : ∀ v, halfToFloatFast (floatToHalfFast v) = v
  Zfp : Type
  encodeZfp : (ℕ → ℕ → ℚ) → Zfp
  decodeZfp : Zfp → ℕ → ℕ → ℚ
  zfp_lossless : ∀ b, decodeZfp (encodeZfp b) = b
  Lz4 : Type
  lz4CompressHC : (ℕ → UInt8) → Lz4
  lz4DecompressSafe : Lz4 → Option (ℕ → UInt8)
  lz4_lossless : ∀ m, lz4DecompressSafe (lz4CompressHC m) = some m

attribute [simp] Codec.half_lossless Codec.zfp_lossless Codec.lz4_lossless

abbrev Codec.plain : Codec where
  Half := Option ℚ
  floatToHalfFast := id
  halfToFloatFast := id
  half_lossless _ := rfl
  Zfp := ℕ → ℕ → ℚ
  encodeZfp := id
  decodeZfp := id
  zfp_lossless _ := rfl
  Lz4 := ℕ → UInt8
  lz4CompressHC := id
  lz4DecompressSafe := some
  lz4_lossless _ := rfl

abbrev Codec.Region (C : Codec) := ℕ → C.Half

end FitsWebQL
