/-
  FitsWebQL.Header — the FITS header (`FITS::defaults`, `FITS::process_fits_header_unit`,
  the `hdr_get_*` helpers, `FITS::frame_reference_unit`, `FITS::frame_reference_type`).

  A header unit is 36 cards of 80 bytes. Each card is copied to a C string (it ends at a
  NUL) and compared with the known keywords one after the other; the value starts at
  column 10. Numbers are what `atoi`, `atol` and `atof` read; `atof` reads decimal text
  only here, INF, NAN and hexadecimal forms have no exact value.
-/

import FitsWebQL.Pixel

namespace FitsWebQL

abbrev Bytes := List UInt8

def FITS_CHUNK_LENGTH : ℕ := 2880
def FITS_LINE_LENGTH : ℕ := 80

def lit (s : String) : Bytes := s.toList.map fun c => UInt8.ofNat c.toNat

/-! ## C strings and numbers -/

def isspace (b : UInt8) : Bool := b == 32 || (decide (9 ≤ b) && decide (b ≤ 13))

def isdigit (b : UInt8) : Bool := decide (48 ≤ b) && decide (b ≤ 57)

def toLower (b : UInt8) : UInt8 := if 65 ≤ b ∧ b ≤ 90 then b + 32 else b

/-- `hay.find(needle) != npos`. -/
def find (hay needle : Bytes) : Bool := hay.tails.any needle.isPrefixOf

def digitsValue (ds : Bytes) : ℕ := ds.foldl (fun n d => 10 * n + (d.toNat - 48)) 0

/-- An optional sign: whether it is a minus, and what follows it. -/
def sign : Bytes → Bool × Bytes
  | 45 :: rest => (true, rest)
  | 43 :: rest => (false, rest)
  | s => (false, s)

def strtol (s : Bytes) : ℤ :=
  let r := sign (s.dropWhile isspace)
  let n : ℤ := digitsValue (r.2.takeWhile isdigit)
  max (-(2 ^ 63)) (min (2 ^ 63 - 1) (if r.1 then -n else n))

/-- `(int)strtol(s)`. -/
def atoi (s : Bytes) : ℤ := (strtol s + 2 ^ 31) % 2 ^ 32 - 2 ^ 31

def atol (s : Bytes) : ℤ := strtol s

def exponentPart : Bytes → ℤ
  | b :: rest =>
    if b == 101 || b == 69 then
      let r := sign rest
      let n : ℤ := digitsValue (r.2.takeWhile isdigit)
      if r.1 then -n else n
    else 0
  | [] => 0

def strtod (s : Bytes) : Bool × ℚ :=
  let r := sign (s.dropWhile isspace)
  let whole := r.2.takeWhile isdigit
  let afterWhole := r.2.dropWhile isdigit
  let fraction := match afterWhole with
    | 46 :: rest => rest.takeWhile isdigit
    | _ => []
  let afterFraction := match afterWhole with
    | 46 :: rest => rest.dropWhile isdigit
    | other => other
  if whole = [] ∧ fraction = [] then (false, 0)
  else (r.1, digitsValue (whole ++ fraction) * 10 ^ (exponentPart afterFraction - fraction.length))

def atof (s : Bytes) : ℚ := if (strtod s).1 then -(strtod s).2 else (strtod s).2

/-! ## hdr_get_* -/

def hdrGetIntValue (hdr : Bytes) : ℤ := atoi hdr
def hdrGetLongValue (hdr : Bytes) : ℤ := atol hdr
def hdrGetDoubleValue (hdr : Bytes) : ℚ := atof hdr

/-- `sscanf(hdr, "'%s'", string)`, less a trailing quote. -/
def hdrGetStringValue : Bytes → Bytes
  | 39 :: rest =>
    let string := (rest.dropWhile isspace).takeWhile fun b => !isspace b
    if string.getLast? = some 39 then string.dropLast else string
  | _ => []

/-- The text between the first two quotes, and `hdr` cut at the second one. -/
def hdrGetStringValueWithSpaces (hdr : Bytes) : Bytes × Bytes :=
  let before := hdr.takeWhile (· != 39)
  match hdr.dropWhile (· != 39) with
  | _ :: rest =>
    let string := rest.takeWhile (· != 39)
    if string.length < rest.length then (string, before ++ 39 :: string) else ([], hdr)
  | [] => ([], hdr)

/-! ## The header's fields -/

/-- What the header sets; `none` is the default NaN. -/
structure FitsHeader where
  flux : Bytes := []
  width : ℤ := 0
  height : ℤ := 0
  depth : ℤ := 1
  polarisation : ℤ := 1
  bitpix : ℤ := 0
  naxis : ℤ := 0
  btype : Bytes := []
  bunit : Bytes := []
  scale : Scale := { bzero := 0, bscale := 1, ignrval := -FLT_MAX, datamin := -FLT_MAX, datamax := FLT_MAX }
  crval1 : ℚ := 0
  cdelt1 : Option ℚ := none
  crpix1 : ℚ := 0
  cunit1 : Bytes := []
  ctype1 : Bytes := []
  crval2 : ℚ := 0
  cdelt2 : Option ℚ := none
  crpix2 : ℚ := 0
  cunit2 : Bytes := []
  ctype2 : Bytes := []
  crval3 : ℚ := 0
  cdelt3 : ℚ := 1
  crpix3 : ℚ := 0
  cunit3 : Bytes := []
  ctype3 : Bytes := []
  frame_multiplier : ℚ := 1
  cd1_1 : Option ℚ := none
  cd1_2 : Option ℚ := none
  cd2_1 : Option ℚ := none
  cd2_2 : Option ℚ := none
  bmaj : ℚ := 0
  bmin : ℚ := 0
  bpa : ℚ := 0
  restfrq : ℚ := 0
  obsra : ℚ := 0
  obsdec : ℚ := 0
  line : Bytes := []
  filter : Bytes := []
  specsys : Bytes := []
  timesys : Bytes := []
  object : Bytes := []
  date_obs : Bytes := []
  beam_unit : Bytes := []
  beam_type : Bytes := []
  has_frequency : Bool := false
  has_velocity : Bool := false
  is_optical : Bool := true
  is_xray : Bool := false

def FitsHeader.withScale (h : FitsHeader) (s : Scale) : FitsHeader := { h with scale := s }

/-- `defaults()`, for a data set named `object` and shown with `flux`. -/
def FitsHeader.defaults (object flux : Bytes) : FitsHeader := { object := object, flux := flux }

def valueCards : List (Bytes × (FitsHeader → Bytes → FitsHeader)) := [
  (lit "BITPIX  = ", fun h v => { h with bitpix := hdrGetIntValue v }),
  (lit "NAXIS   = ", fun h v => { h with naxis := hdrGetIntValue v }),
  (lit "NAXIS1  = ", fun h v => { h with width := hdrGetLongValue v }),
  (lit "NAXIS2  = ", fun h v => { h with height := hdrGetLongValue v }),
  (lit "NAXIS3  = ", fun h v => { h with depth := hdrGetLongValue v }),
  (lit "NAXIS4  = ", fun h v => { h with polarisation := hdrGetLongValue v }),
  (lit "BTYPE   = ", fun h v => { h with btype := hdrGetStringValue v, beam_type := hdrGetStringValue v }),
  (lit "BUNIT   = ", fun h v => { h with bunit := hdrGetStringValue v, beam_unit := hdrGetStringValue v }),
  (lit "BSCALE  = ", fun h v => { h with scale := { h.scale with bscale := hdrGetDoubleValue v } }),
  (lit "BZERO   = ", fun h v => { h with scale := { h.scale with bzero := hdrGetDoubleValue v } }),
  (lit "IGNRVAL = ", fun h v => { h with scale := { h.scale with ignrval := hdrGetDoubleValue v } }),
  (lit "CRVAL1  = ", fun h v => { h with crval1 := hdrGetDoubleValue v }),
  (lit "CDELT1  = ", fun h v => { h with cdelt1 := some (hdrGetDoubleValue v) }),
  (lit "CRPIX1  = ", fun h v => { h with crpix1 := hdrGetDoubleValue v }),
  (lit "CRVAL2  = ", fun h v => { h with crval2 := hdrGetDoubleValue v }),
  (lit "CDELT2  = ", fun h v => { h with cdelt2 := some (hdrGetDoubleValue v) }),
  (lit "CRPIX2  = ", fun h v => { h with crpix2 := hdrGetDoubleValue v }),
  (lit "CRVAL3  = ", fun h v => { h with crval3 := hdrGetDoubleValue v }),
  (lit "CDELT3  = ", fun h v => { h with cdelt3 := hdrGetDoubleValue v }),
  (lit "CRPIX3  = ", fun h v => { h with crpix3 := hdrGetDoubleValue v }),
  (lit "BMAJ    = ", fun h v => { h with bmaj := hdrGetDoubleValue v }),
  (lit "BMIN    = ", fun h v => { h with bmin := hdrGetDoubleValue v }),
  (lit "BPA     = ", fun h v => { h with bpa := hdrGetDoubleValue v }),
  (lit "RESTFRQ = ", fun h v => { h with restfrq := hdrGetDoubleValue v }),
  (lit "RESTFREQ= ", fun h v => { h with restfrq := hdrGetDoubleValue v }),
  (lit "OBSRA   = ", fun h v => { h with obsra := hdrGetDoubleValue v }),
  (lit "OBSDEC  = ", fun h v => { h with obsdec := hdrGetDoubleValue v }),
  (lit "DATAMIN = ", fun h v => { h with scale := { h.scale with datamin := hdrGetDoubleValue v } }),
  (lit "DATAMAX = ", fun h v => { h with scale := { h.scale with datamax := hdrGetDoubleValue v } }),
  (lit "SPECSYS = ", fun h v => { h with specsys := hdrGetStringValue v }),
  (lit "TIMESYS = ", fun h v => { h with timesys := hdrGetStringValue v }),
  (lit "DATE-OBS= ", fun h v => { h with date_obs := hdrGetStringValue v }),
  (lit "CUNIT1  = ", fun h v => { h with cunit1 := hdrGetStringValue v }),
  (lit "CUNIT2  = ", fun h v => { h with cunit2 := hdrGetStringValue v }),
  (lit "CUNIT3  = ", fun h v => { h with cunit3 := hdrGetStringValue v }),
  (lit "CTYPE1  = ", fun h v => { h with ctype1 := hdrGetStringValue v }),
  (lit "CTYPE2  = ", fun h v => { h with ctype2 := hdrGetStringValue v }),
  (lit "CTYPE3  = ", fun h v => { h with ctype3 := hdrGetStringValue v }),
  (lit "CD1_1   = ", fun h v => { h with cd1_1 := some (hdrGetDoubleValue v) }),
  (lit "CD1_2   = ", fun h v => { h with cd1_2 := some (hdrGetDoubleValue v) }),
  (lit "CD2_1   = ", fun h v => { h with cd2_1 := some (hdrGetDoubleValue v) }),
  (lit "CD2_2   = ", fun h v => { h with cd2_2 := some (hdrGetDoubleValue v) })]

/-- The cards read by `hdr_get_string_value_with_spaces`, which cuts the line. -/
def textCards : List (Bytes × (FitsHeader → Bytes → FitsHeader)) := [
  (lit "LINE    = ", fun h v => { h with line := v }),
  (lit "J_LINE  = ", fun h v => { h with line := v }),
  (lit "FILTER  = ", fun h v => { h with filter := v }),
  (lit "OBJECT  = ", fun h v => { h with object := v })]

/-- `strncmp(hdrLine, key, 10) == 0`. -/
def hasKey (hdrLine key : Bytes) : Bool := hdrLine.take 10 == key

/-! ## One card -/

def telescopeCard (h : FitsHeader) (hdrLine : Bytes) : FitsHeader :=
  if hasKey hdrLine (lit "TELESCOP= ") then
    let telescope := (hdrGetStringValue (hdrLine.drop 10)).map toLower
    let h := if find telescope (lit "alma") then { h with is_optical := false } else h
    let h := if find telescope (lit "vla") || find telescope (lit "ska") then { h with is_optical := false } else h
    let h := if find telescope (lit "nro45") then { h with is_optical := false, flux := lit "logistic" } else h
    if find telescope (lit "chandra") then { h with is_optical := false, is_xray := true } else h
  else h

def surveyCard (h : FitsHeader) (line : Bytes) : FitsHeader :=
  let h := if find line (lit "ASTRO-F") then { h with is_optical := true, flux := lit "logistic" } else h
  let h := if find line (lit "HSCPIPE") then { h with is_optical := true, flux := lit "ratio" } else h
  let h :=
    if hasKey line (lit "FRAMEID = ") then
      let frameid := hdrGetStringValue (line.drop 10)
      if find frameid (lit "SUPM") || find frameid (lit "MCSM") then { h with is_optical := true, flux := lit "ratio" } else h
    else h
  let lower := line.map toLower
  if find lower (lit "suzaku") || find lower (lit "hitomi") || find lower (lit "x-ray") then
    let h := { h with is_optical := false, is_xray := true, flux := lit "legacy" }
    if h.scale.ignrval = -FLT_MAX then { h with scale := { h.scale with ignrval := -1 } } else h
  else h

def processCard (h : FitsHeader) (hdrLine : Bytes) : FitsHeader :=
  let h := valueCards.foldl (fun h c => if hasKey hdrLine c.1 then c.2 h (hdrLine.drop 10) else h) h
  let r := textCards.foldl (fun (r : FitsHeader × Bytes) c =>
    if hasKey r.2 c.1 then
      let v := hdrGetStringValueWithSpaces (r.2.drop 10)
      (c.2 r.1 v.1, r.2.take 10 ++ v.2)
    else r) (h, hdrLine)
  let h := r.1
  let h := if h.scale.datamin = h.scale.datamax then
      { h with scale := { h.scale with datamin := -FLT_MAX, datamax := FLT_MAX } } else h
  surveyCard (telescopeCard h r.2) r.2

/-! ## One unit -/

def cardsOf : ℕ → Bytes → List Bytes
  | 0, _ => []
  | n + 1, buf => buf.take FITS_LINE_LENGTH :: cardsOf n (buf.drop FITS_LINE_LENGTH)

/-- `process_fits_header_unit`: the header after the unit, and whether the unit ends it. -/
def processFitsHeaderUnit (h : FitsHeader) (buf : Bytes) : FitsHeader × Bool :=
  let cards := cardsOf (FITS_CHUNK_LENGTH / FITS_LINE_LENGTH) buf
  (cards.foldl (fun h card => processCard h (card.takeWhile (· != 0))) h,
    cards.any fun card => hasKey card (lit "END       "))

/-! ## The spectral axis -/

def frameReferenceUnit (h : FitsHeader) : FitsHeader :=
  let unit := h.cunit3.map toLower
  if unit = lit "hz" then { h with has_frequency := true, frame_multiplier := 1 }
  else if unit = lit "khz" then { h with has_frequency := true, frame_multiplier := 10 ^ 3 }
  else if unit = lit "mhz" then { h with has_frequency := true, frame_multiplier := 10 ^ 6 }
  else if unit = lit "ghz" then { h with has_frequency := true, frame_multiplier := 10 ^ 9 }
  else if unit = lit "thz" then { h with has_frequency := true, frame_multiplier := 999999995904 } -- 1e12f
  else if unit = lit "m/s" then { h with has_velocity := true, frame_multiplier := 1 }
  else if unit = lit "km/s" then { h with has_velocity := true, frame_multiplier := 10 ^ 3 }
  else h

def frameReferenceType (h : FitsHeader) : FitsHeader :=
  { h with
    has_frequency := h.has_frequency || h.ctype3.contains 70 || h.ctype3.contains 102
    has_velocity := h.has_velocity || h.ctype3.contains 86 || h.ctype3.contains 118 }

def headerEnd (h : FitsHeader) : FitsHeader :=
  let h := frameReferenceType (frameReferenceUnit h)
  let h := if h.has_frequency || h.has_velocity then { h with is_optical := false } else h
  if 0 < h.restfrq then { h with has_frequency := true } else h

def size_t (n : ℤ) : ℕ := (n % 2 ^ 64).toNat

def FitsHeader.planeSize (h : FitsHeader) : ℕ := size_t (h.width * h.height)

/-- The width of a channel that `integrated` spectra are multiplied by. -/
def FitsHeader.cdelt (h : FitsHeader) : ℚ := if h.has_velocity then h.cdelt3 * h.frame_multiplier / 1000 else 1

end FitsWebQL
