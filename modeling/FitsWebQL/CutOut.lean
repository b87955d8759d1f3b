/-
  FitsWebQL.CutOut — a part of a cube as a FITS file (`stream_partial_fits`, with
  `hdr_set_long_value` and `hdr_set_double_value`).

  The header goes out with its cards rewritten in place, then, plane by plane, the box's
  pixels, then zeros up to a unit of 2880 bytes. A plane is read whole, from a plain file
  at its own offset, from a gzipped one behind the last; when it cannot be read, or there is
  no memory for it or for the box, nothing more is sent.

  Coordinates are `int`s, which wrap where they overflow, and sizes are `size_t`s. The
  connection stays open, and memory is there for the header and the padding. Memory for
  pixels is there or not (`CutOutEnv`). The buffer a plane is cut out to (`dest_buf`) is not
  cleared: what it holds at first is a parameter.
-/

import FitsWebQL.Header
import FitsWebQL.Lib.FileReads
import FitsWebQL.Lib.Malloc
import FitsWebQL.Lib.Printf
import FitsWebQL.Lib.Wire

namespace FitsWebQL

open Lib.Binary Lib.FileReads Lib.Malloc Lib.Printf Lib.Wire

/-! ## The request -/

def int (n : ℤ) : ℤ := n.bmod (2 ^ 32)

def long (n : ℤ) : ℤ := n.bmod (2 ^ 64)

theorem int_range (n : ℤ) : -2 ^ 31 ≤ int n ∧ int n < 2 ^ 31 := ⟨Int.le_bmod (by decide), Int.bmod_lt (by decide)⟩

theorem int_eq {n : ℤ} (hlow : -2 ^ 31 ≤ n) (hhigh : n < 2 ^ 31) : int n = n := Int.bmod_eq_of_le (by omega) (by omega)

theorem long_eq {n : ℤ} (hlow : -2 ^ 63 ≤ n) (hhigh : n < 2 ^ 63) : long n = n := Int.bmod_eq_of_le (by omega) (by omega)

/-- A FITS object and its file, uncompressed: the header's bytes, and all that follows. -/
structure StoredFits where
  fits : FitsHeader
  header : Bytes
  data : Bytes

def StoredFits.content (s : StoredFits) : Bytes := s.header ++ s.data

/-- How the file is stored: plain (`fits_file_desc`) or gzipped (`compressed_fits_stream`). -/
inductive Storage
  | plain
  | gzipped
  deriving DecidableEq

structure CutOutRequest where
  px1 : Int32
  px2 : Int32
  py1 : Int32
  py2 : Int32
  start : Int32
  stop : Int32

structure Box where
  x1 : ℤ
  x2 : ℤ
  y1 : ℤ
  y2 : ℤ
  start : ℕ
  stop : ℕ
  x1_nonneg : 0 ≤ x1
  y1_nonneg : 0 ≤ y1
  x2_lt : x2 < 2 ^ 31
  y2_lt : y2 < 2 ^ 31

def FitsHeader.rejects (f : FitsHeader) (hdr_len : ℕ) (r : CutOutRequest) : Bool :=
  decide (f.bitpix ≠ -32) || decide (hdr_len = 0) || decide (r.stop.toInt < 0) || decide (r.start.toInt < 0) ||
    decide (f.depth - 1 < r.stop.toInt) || decide (f.depth - 1 < r.start.toInt)

def FitsHeader.box (f : FitsHeader) (r : CutOutRequest) : Box where
  x1 := max 0 (min r.px1.toInt r.px2.toInt)
  x2 := int (min f.width (max r.px1.toInt r.px2.toInt))
  y1 := max 0 (min r.py1.toInt r.py2.toInt)
  y2 := int (min f.height (max r.py1.toInt r.py2.toInt))
  start := (min r.start.toInt r.stop.toInt).toNat
  stop := (max r.start.toInt r.stop.toInt).toNat
  x1_nonneg := le_max_left _ _
  y1_nonneg := le_max_left _ _
  x2_lt := (int_range _).2
  y2_lt := (int_range _).2

/-- `size_t side = abs(b - a)`. -/
def side (a b : ℤ) : ℕ := size_t (int |int (b - a)|)

def Box.partial_width (b : Box) : ℕ := side b.x1 b.x2
def Box.partial_height (b : Box) : ℕ := side b.y1 b.y2

def Box.partial_depth (b : Box) : ℕ := size_t (int (b.stop - b.start + 1))

def Box.partial_size (b : Box) : ℕ := b.partial_height * b.partial_width % 2 ^ 64

/-- `abs(bitpix / 8)`. -/
def FitsHeader.sampleSize (f : FitsHeader) : ℕ := (f.bitpix.tdiv 8).natAbs

def FitsHeader.partialDataSize (f : FitsHeader) (b : Box) : ℕ :=
  b.partial_height * b.partial_width * b.partial_depth * f.sampleSize % 2 ^ 64

def noUnits (partial_data_size : ℕ) : ℕ :=
  partial_data_size / FITS_CHUNK_LENGTH + if 0 < partial_data_size % FITS_CHUNK_LENGTH then 1 else 0

def FitsHeader.requiredMemory (f : FitsHeader) (hdr_len : ℕ) (b : Box) : ℕ :=
  (hdr_len + noUnits (f.partialDataSize b) * FITS_CHUNK_LENGTH) % 2 ^ 64

/-! ## The header -/

/-- The text `s` and blanks, from column 10 to the end of the card at the front. -/
def hdrSetValue (line s : Bytes) : Bytes :=
  line.take 10 ++ s ++ List.replicate (FITS_LINE_LENGTH - 10 - s.length) 32 ++ line.drop FITS_LINE_LENGTH

def hdrSetLongValue (line : Bytes) (value : ℤ) : Bytes := hdrSetValue line (ld value)

def hdrSetDoubleValue (line : Bytes) (value : Value) : Bytes := hdrSetValue line (E value)

def doubleValue (s : Bytes) : Value := binary64.value (strtod s).1 (strtod s).2

def float (x : ℤ) : Value := binary32.value (decide (x < 0)) |(x : ℚ)|

/-- `crpix - float(x)`, `crpix` being a float. -/
def crpixFrom (line : Bytes) (x : ℤ) : Value := binary32.sub (binary32.convert (doubleValue (line.drop 10))) (float x)

/-- The cards that are rewritten. `line` is the header from a card on: a value is read up to
    where it ends, which may be behind the card. -/
def cutOutCards (b : Box) : List (Bytes × (Bytes → Bytes)) := [
  (lit "NAXIS1  = ", fun line => hdrSetLongValue line (long b.partial_width)),
  (lit "NAXIS2  = ", fun line => hdrSetLongValue line (long b.partial_height)),
  (lit "NAXIS3  = ", fun line => hdrSetLongValue line (long b.partial_depth)),
  (lit "NAXIS4  = ", fun line => hdrSetLongValue line 1),
  (lit "CRPIX1  = ", fun line => hdrSetDoubleValue line (crpixFrom line b.x1)),
  (lit "CRPIX2  = ", fun line => hdrSetDoubleValue line (crpixFrom line b.y1)),
  (lit "CRPIX3  = ", fun line => hdrSetDoubleValue line (crpixFrom line b.start))]

def rewriteCard (b : Box) (line : Bytes) : Bytes :=
  (cutOutCards b).foldl (fun line c => if hasKey line c.1 then c.2 line else line) line

def rewriteCards (b : Box) : ℕ → Bytes → Bytes
  | 0, header => header
  | n + 1, header =>
    let header := rewriteCard b header
    header.take FITS_LINE_LENGTH ++ rewriteCards b n (header.drop FITS_LINE_LENGTH)

def rewriteHeader (b : Box) (header : Bytes) : Bytes :=
  rewriteCards b (header.length / FITS_CHUNK_LENGTH * (FITS_CHUNK_LENGTH / FITS_LINE_LENGTH)) header

/-! ## The planes -/

def rows (b : Box) : List ℕ := List.range' b.y1.toNat (b.y2 - b.y1).toNat
def columns (b : Box) : List ℕ := List.range' b.x1.toNat (b.x2 - b.x1).toNat

def FitsHeader.boxPixels (f : FitsHeader) (b : Box) (plane : Bytes) : List UInt32 :=
  (rows b).flatMap fun y => (columns b).map fun x => wordOf (plane.drop (4 * (y * f.width.toNat + x)))

abbrev Dest := ℕ → UInt32

def copyTo (dest : Dest) (pixels : List UInt32) : Dest := fun i => pixels[i]?.getD (dest i)

def Box.chunk (b : Box) (dest : Dest) : Bytes := ((List.range b.partial_size).map dest).flatMap bytesOf

def FitsHeader.frameSize (f : FitsHeader) : ℕ := f.planeSize * f.sampleSize

/-- The loop over the frames, by the state and the frame a plane is read with: what is sent,
    and whether all planes were read. -/
def FitsHeader.sendPlanes {σ : Type} (f : FitsHeader) (b : Box) (read : σ → ℕ → Option Bytes × σ) :
    List ℕ → σ → Dest → Bytes × Bool
  | [], _, _ => ([], true)
  | frame :: frames, st, dest =>
    match (read st frame).1 with
    | none => ([], false)
    | some plane =>
      if plane.length ≠ f.frameSize then ([], false)
      else
        let dest := copyTo dest (f.boxPixels b plane)
        let r := f.sendPlanes b read frames (read st frame).2 dest
        (b.chunk dest ++ r.1, r.2)

def StoredFits.preadFrame (s : StoredFits) (_ : Unit) (frame : ℕ) : Option Bytes × Unit :=
  (some (pread s.content s.fits.frameSize (s.header.length + s.fits.frameSize * frame)), ())

/-- Behind the frame before; the length is an `unsigned`. -/
def StoredFits.gzreadFrame (s : StoredFits) (z : Zlib) (stream : GzStream) (_ : ℕ) : Option Bytes × GzStream :=
  z.gzread stream (s.fits.frameSize % 2 ^ 32)

/-- The stream after `gzseek`, which counts pixels where `pread` counts bytes. -/
def StoredFits.gzseek (s : StoredFits) (b : Box) : GzStream :=
  ⟨s.content.drop (s.header.length + b.start * s.fits.planeSize), false⟩

/-- What is outside: zlib, and the memory there is for a plane and for a box. -/
structure CutOutEnv where
  zlib : Zlib
  pixels : Allocator 4
  dest : Allocator 4

def Box.frames (b : Box) : List ℕ := List.range' b.start (b.stop - b.start + 1)

def StoredFits.sendFile (s : StoredFits) (env : CutOutEnv) (b : Box) (dest : Dest) : Storage → Bytes × Bool
  | .plain => s.fits.sendPlanes b s.preadFrame b.frames () dest
  | .gzipped => s.fits.sendPlanes b (s.gzreadFrame env.zlib) b.frames (s.gzseek b) dest

/-! ## The response -/

structure Response where
  contentLength : Option ℕ
  body : Bytes

/-- `stream_partial_fits`, `dest` being what `dest_buf` holds at first. -/
def streamPartialFits (env : CutOutEnv) (dest : Dest) (s : StoredFits) (storage : Storage) (r : CutOutRequest) : Response :=
  if s.fits.rejects s.header.length r then ⟨none, []⟩
  else
    let b := s.fits.box r
    let required_memory := s.fits.requiredMemory s.header.length b
    let header := rewriteHeader b s.header
    if env.pixels.gives s.fits.planeSize = false ∨ env.dest.gives b.partial_size = false then ⟨some required_memory, header⟩
    else
      let planes := s.sendFile env b dest storage
      let padding := List.replicate (size_t (required_memory - (s.header.length + s.fits.partialDataSize b))) 0
      ⟨some required_memory, header ++ planes.1 ++ if planes.2 then padding else []⟩

end FitsWebQL
