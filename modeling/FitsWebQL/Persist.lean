/-
  FitsWebQL.Persist — what is kept of a FITS object between two runs of the server. The
  destructor lets the image planes go, whose deleters write `.pixels` and `.mask`, lets the
  compressed blocks go, and writes the members to `.json.gz` (`serialise`). The object
  made for the data set next takes the members up by name and type, and maps the files
  (`deserialise`).

  The JSON library writes and reads finite numbers and strings as they are, and a number
  that is not finite as `null`; an integer goes through a `double`. A member whose tag is
  not the one looked for is left at what it was, and an element of an array left out.

  An object of a finished load comes back with the members it had when its numbers are
  finite or the constructor's own (`saved_members_restored`).
  `a_loaded_object_changed`: a mean of NaN moves the means of the frames behind it.
-/

import FitsWebQL.BlockFile
import FitsWebQL.Messages
import FitsWebQL.Pixel
import FitsWebQL.Lib.Binary
import FitsWebQL.Lib.Members

namespace FitsWebQL

open Lib.Binary Lib.Members

/-! ## Values -/

abbrev Single := Number binary32
abbrev Double := Number binary64

def Single.of (v : Value) : Single := Number.of (by decide) v
def Double.of (v : Value) : Double := Number.of (by decide) v

theorem Single.of_value (x : Single) : Single.of x.value = x := Number.of_value _ x
theorem Double.of_value (x : Double) : Double.of x.value = x := Number.of_value _ x

def exactly (q : ℚ) : Value := .finite (decide (q < 0)) |q|

inductive Json
  | null
  | bool (b : Bool)
  | string (s : String)
  | number (negative : Bool) (magnitude : ℚ)
  | array (elements : List Json)

/-- `json_mknumber`, as it is encoded. -/
def Json.ofValue : Value → Json
  | .finite negative magnitude => .number negative magnitude
  | _ => .null

def Json.value? : Json → Option Value
  | .number negative magnitude => some (.finite negative magnitude)
  | _ => none

def doubleOf (n : ℤ) : Value := binary64.convert (exactly n)

def truncated : Value → ℤ
  | .finite negative magnitude => if negative then -⌊magnitude⌋₊ else ⌊magnitude⌋₊
  | _ => 0

/-! ## Members -/

inductive Kind
  | string | long | int | float | double | bool | floats | hist | header
  deriving DecidableEq

abbrev Kind.Val : Kind → Type
  | .string => String
  | .long => Int64
  | .int => Int32
  | .float => Single
  | .double => Double
  | .bool => Bool
  | .floats => List Single
  | .hist => Fin NBINS → UInt32
  | .header => Option String

inductive Member
  | flux | width | height | depth | polarisation | bitpix | naxis | btype | bunit | bscale | bzero | ignrval | crval1
  | cdelt1 | crpix1 | cunit1 | ctype1 | crval2 | cdelt2 | crpix2 | cunit2 | ctype2 | crval3 | cdelt3 | crpix3 | cunit3
  | ctype3 | frame_multiplier | cd1_1 | cd1_2 | cd2_1 | cd2_2 | bmaj | bmin | bpa | restfrq | obsra | obsdec | datamin
  | datamax | line | filter | specsys | timesys | object | date_obs | beam_unit | beam_type | has_frequency
  | has_velocity | is_optical | is_xray | dmin | dmax | data_median | data_madN | data_madP | frame_min | frame_max
  | mean_spectrum | integrated_spectrum | hist | min | max | median | mad | madP | madN | black | white | sensitivity
  | ratio_sensitivity | lmin | lmax | has_header | has_data | has_error | header
  deriving DecidableEq

def Member.kind : Member → Kind
  | .flux | .btype | .bunit | .cunit1 | .ctype1 | .cunit2 | .ctype2 | .cunit3 | .ctype3 | .line | .filter | .specsys |
    .timesys | .object | .date_obs | .beam_unit | .beam_type => .string
  | .width | .height | .depth | .polarisation => .long
  | .bitpix | .naxis => .int
  | .bscale | .bzero | .ignrval | .datamin | .datamax | .dmin | .dmax | .data_median | .data_madN | .data_madP |
    .min | .max | .median | .mad | .madP | .madN | .black | .white | .sensitivity | .ratio_sensitivity | .lmin | .lmax => .float
  | .crval1 | .cdelt1 | .crpix1 | .crval2 | .cdelt2 | .crpix2 | .crval3 | .cdelt3 | .crpix3 | .frame_multiplier |
    .cd1_1 | .cd1_2 | .cd2_1 | .cd2_2 | .bmaj | .bmin | .bpa | .restfrq | .obsra | .obsdec => .double
  | .has_frequency | .has_velocity | .is_optical | .is_xray | .has_header | .has_data | .has_error => .bool
  | .frame_min | .frame_max | .mean_spectrum | .integrated_spectrum => .floats
  | .hist => .hist
  | .header => .header

abbrev Members := (f : Member) → f.kind.Val

namespace Members

variable (s : Members)

abbrev width : Int64 := s .width
abbrev height : Int64 := s .height
abbrev depth : Int64 := s .depth
abbrev bitpix : Int32 := s .bitpix
abbrev has_data : Bool := s .has_data
abbrev header : Option String := s .header

def arrays : List (List Single) := [s .frame_min, s .frame_max, s .mean_spectrum, s .integrated_spectrum]

def setHasData (b : Bool) : Members := Function.update s .has_data b

def plane_size : ℕ := (s.width.toInt * s.height.toInt % 2 ^ 64).toNat
def frame_size : ℕ := s.plane_size * (s.bitpix.toInt.tdiv 8).natAbs % 2 ^ 64

end Members

/-! ## Writing and taking up -/

def writeMember : (k : Kind) → k.Val → Json
  | .string, (s : String) => .string s
  | .long, (n : Int64) => .ofValue (doubleOf n.toInt)
  | .int, (n : Int32) => .ofValue (doubleOf n.toInt)
  | .float, (x : Single) => .ofValue x.value
  | .double, (x : Double) => .ofValue x.value
  | .bool, (b : Bool) => .bool b
  | .floats, (xs : List Single) => .array (xs.map fun x => .ofValue x.value)
  | .hist, (h : Fin NBINS → UInt32) => .array (List.ofFn fun i => .ofValue (doubleOf (h i).toNat))
  -- a `NULL` header is not written (`serialise`)
  | .header, (h : Option String) => .string (h.getD "")

/-- The value a member gives, where the tag is the one looked for. -/
def takeMember : (k : Kind) → Json → k.Val → k.Val
  | .string, .string t, _ => t
  | .long, .number n m, _ => Int64.ofInt (truncated (.finite n m))
  | .int, .number n m, _ => Int32.ofInt (truncated (.finite n m))
  | .float, .number n m, _ => Single.of (.finite n m)
  | .double, .number n m, _ => Double.of (.finite n m)
  | .bool, .bool b, _ => b
  | .floats, .array es, _ => (es.filterMap Json.value?).map Single.of
  | .hist, .array es, (h : Fin NBINS → UInt32) =>
    fun i => ((es.filterMap Json.value?)[i.val]?.map fun v => UInt32.ofNat (truncated v).toNat).getD (h i)
  | .header, .string t, _ => some t
  | _, _, old => old

def memberCoding : Coding (fun f : Member => f.kind.Val) Json := ⟨fun f => writeMember f.kind, fun f => takeMember f.kind⟩

def serialiseMembers : List (String × Member) := [
  ("flux", .flux), ("width", .width), ("height", .height), ("depth", .depth), ("polarisation", .polarisation),
  ("bitpix", .bitpix), ("naxis", .naxis), ("btype", .btype), ("bunit", .bunit), ("bscale", .bscale),
  ("bzero", .bzero), ("ignrval", .ignrval), ("crval1", .crval1), ("cdelt1", .cdelt1), ("crpix1", .crpix1),
  ("cunit1", .cunit1), ("ctype1", .ctype1), ("crval2", .crval2), ("cdelt2", .cdelt2), ("crpix2", .crpix2),
  ("cunit2", .cunit2), ("ctype2", .ctype2), ("crval3", .crval3), ("cdelt3", .cdelt3), ("crpix3", .crpix3),
  ("cunit3", .cunit3), ("ctype3", .ctype3), ("frame_multiplier", .frame_multiplier), ("cd1_1", .cd1_1),
  ("cd1_2", .cd1_2), ("cd2_1", .cd2_1), ("cd2_2", .cd2_2), ("bmaj", .bmaj), ("bmin", .bmin), ("bpa", .bpa),
  ("restfrq", .restfrq), ("obsra", .obsra), ("obsdec", .obsdec), ("datamin", .datamin), ("datamax", .datamax),
  ("line", .line), ("filter", .filter), ("specsys", .specsys), ("timesys", .timesys), ("object", .object),
  ("date_obs", .date_obs), ("beam_unit", .beam_unit), ("beam_type", .beam_type), ("has_frequency", .has_frequency),
  ("has_velocity", .has_velocity), ("is_optical", .is_optical), ("is_xray", .is_xray), ("dmin", .dmin),
  ("dmax", .dmax), ("data_median", .data_median), ("data_madN", .data_madN), ("data_madP", .data_madP),
  ("frame_min", .frame_min), ("frame_max", .frame_max), ("mean_spectrum", .mean_spectrum),
  ("integrated_spectrum", .integrated_spectrum), ("hist", .hist), ("min", .min), ("max", .max), ("median", .median),
  ("mad", .mad), ("madP", .madP), ("madN", .madN), ("black", .black), ("white", .white),
  ("sensitivity", .sensitivity), ("ratio_sensitivity", .ratio_sensitivity), ("lmin", .lmin), ("lmax", .lmax),
  ("has_header", .has_header), ("has_data", .has_data), ("has_error", .has_error), ("header", .header)]

def deserialiseMembers : List (String × Member) := [
  ("flux", .flux), ("width", .width), ("height", .height), ("depth", .depth), ("polarisation", .polarisation),
  ("bitpix", .bitpix), ("naxis", .naxis), ("btype", .btype), ("bunit", .bunit), ("bscale", .bscale),
  ("bzero", .bzero), ("ignrval", .ignrval), ("crval1", .crval1), ("cdelt1", .cdelt1), ("crpix1", .crpix1),
  ("cunit1", .cunit1), ("ctype1", .ctype1), ("crval2", .crval2), ("cdelt2", .cdelt2), ("crpix2", .crpix2),
  ("cunit2", .cunit2), ("ctype2", .ctype2), ("crval3", .crval3), ("cdelt3", .cdelt3), ("crpix3", .crpix3),
  ("cunit3", .cunit3), ("ctype3", .ctype3), ("frame_multiplier", .frame_multiplier), ("cd1_1", .cd1_1),
  ("cd1_2", .cd1_2), ("cd2_1", .cd2_1), ("cd2_2", .cd2_2), ("bmaj", .bmaj), ("bmin", .bmin), ("bpa", .bpa),
  ("restfrq", .restfrq), ("obsra", .obsra), ("obsdec", .obsdec), ("datamin", .datamin), ("datamax", .datamax),
  ("line", .line), ("filter", .filter), ("specsys", .specsys), ("timesys", .timesys), ("object", .object),
  ("date_obs", .date_obs), ("beam_unit", .beam_unit), ("beam_type", .beam_type), ("has_frequency", .has_frequency),
  ("has_velocity", .has_velocity), ("is_optical", .is_optical), ("is_xray", .is_xray), ("dmin", .dmin),
  ("dmax", .dmax), ("data_median", .data_median), ("data_madN", .data_madN), ("data_madP", .data_madP),
  ("frame_min", .frame_min), ("frame_max", .frame_max), ("mean_spectrum", .mean_spectrum),
  ("integrated_spectrum", .integrated_spectrum), ("hist", .hist), ("min", .min), ("max", .max), ("median", .median),
  ("mad", .mad), ("madP", .madP), ("madN", .madN), ("black", .black), ("white", .white),
  ("sensitivity", .sensitivity), ("ratio_sensitivity", .ratio_sensitivity), ("lmin", .lmin), ("lmax", .lmax),
  ("has_header", .has_header), ("has_data", .has_data), ("has_error", .has_error), ("header", .header)]

/-! ## Objects and files -/

def double (q : ℚ) : Double := Double.of (exactly q)
def single (q : ℚ) : Single := Single.of (exactly q)
def NAN {f : Format} : Number f := ⟨.nan, rfl⟩

/-- The members of a new object; `logf` is the C library's. -/
def Members.defaults (logf : ℚ → Single) (dataset_id flux : String) : Members
  | .flux => flux
  | .object => (dataset_id.replace ".fits" "").replace ".FITS" ""
  | .btype | .bunit | .cunit1 | .ctype1 | .cunit2 | .ctype2 | .cunit3 | .ctype3 | .line | .filter | .specsys | .timesys |
    .date_obs | .beam_unit | .beam_type => ""
  | .width | .height => (0 : Int64)
  | .depth | .polarisation => (1 : Int64)
  | .bitpix | .naxis => (0 : Int32)
  | .bscale => single 1
  | .bzero => single 0
  | .ignrval | .datamin | .dmin => single (-FLT_MAX)
  | .datamax | .dmax => single FLT_MAX
  | .lmin => logf (1 / 2)
  | .lmax => logf (3 / 2)
  | .data_median | .data_madN | .data_madP | .min | .max | .median | .mad | .madP | .madN | .black | .white | .sensitivity |
    .ratio_sensitivity => (NAN : Single)
  | .crval1 | .crpix1 | .crval2 | .crpix2 | .crval3 | .crpix3 | .bmaj | .bmin | .bpa | .restfrq | .obsra | .obsdec => double 0
  | .cdelt3 | .frame_multiplier => double 1
  | .cdelt1 | .cdelt2 | .cd1_1 | .cd1_2 | .cd2_1 | .cd2_2 => (NAN : Double)
  | .is_optical => true
  | .has_frequency | .has_velocity | .is_xray | .has_header | .has_data | .has_error => false
  | .frame_min | .frame_max | .mean_spectrum | .integrated_spectrum => ([] : List Single)
  | .hist => fun _ : Fin NBINS => (0 : UInt32)
  | .header => (none : Option String)

/-- What `img_pixels` and `img_mask` point at; `failed` is `MAP_FAILED`. -/
inductive ImageBuffer
  | allocated (content : BlockBytes)
  | mapped (content : BlockBytes)
  | failed

/-- The compressed blocks of an object, in the order they are let go. -/
structure BlockLog where
  zfp : ℕ → List RegionBlock
  lz4 : ℕ → List RegionBlock

structure FITS where
  members : Members
  processed_header : Bool
  processed_data : Bool
  img_pixels : Option ImageBuffer
  img_mask : Option ImageBuffer
  /-- What is mapped of `cube_pixels` and `cube_mask`. -/
  cube : StoredBlocks
  compressed : BlockLog

def FITS.new (logf : ℚ → Single) (dataset_id flux : String) : FITS :=
  ⟨Members.defaults logf dataset_id flux, false, false, none, none, ⟨fun _ => none, fun _ => none⟩, ⟨fun _ => [], fun _ => []⟩⟩

structure CacheFiles where
  json : Option (List (String × Json))
  pixels : Option BlockBytes
  mask : Option BlockBytes
  blocks : BlockFiles

/-! ## The destructor -/

/-- The deleter of a plane: a file of its size is left as it is. -/
def saveImage (file : Option BlockBytes) : Option ImageBuffer → Option BlockBytes
  | some (.allocated content) => if file.map List.length = some content.length then file else some content
  | _ => file

def BlockFiles.letGo (files : BlockFiles) (log : BlockLog) : BlockFiles where
  zfp k := (log.zfp k).foldl appendBlock (files.zfp k)
  lz4 k := (log.lz4 k).foldl appendBlock (files.lz4 k)

/-- `FITS::serialise`: a file that is there is left; without a header the server is gone
    before the file gets its name. -/
def FITS.serialise (o : FITS) (json : Option (List (String × Json))) : Option (List (String × Json)) :=
  match json, o.members.header with
  | none, some _ => some (memberCoding.save serialiseMembers o.members)
  | _, _ => json

def FITS.destroy (o : FITS) (files : CacheFiles) : CacheFiles where
  json := o.serialise files.json
  pixels := saveImage files.pixels o.img_pixels
  mask := saveImage files.mask o.img_mask
  blocks := files.blocks.letGo o.compressed

/-! ## The next object -/

/-- A file is mapped when it has the size looked for; `mmap` of no bytes fails. -/
def mapImage (file : Option BlockBytes) (size : ℕ) (buffer : Option ImageBuffer) : Option ImageBuffer :=
  match file with
  | some content => if content.length = size then some (if size = 0 then .failed else .mapped content) else buffer
  | none => buffer

def imageReady : Option ImageBuffer → Bool
  | some (.allocated _) | some (.mapped _) => true
  | _ => false

def mmapGroups (files : BlockFiles) (depth : ℕ) : StoredBlocks × Bool :=
  ((List.range depth).filter (4 ∣ ·)).foldl (fun r k => let group := zfpMmapCube files k r.1; (group.1, r.2 && group.2))
    (⟨fun _ => none, fun _ => none⟩, true)

/-- The planes' files, and what becomes of `has_data`. -/
def FITS.mapImages (o : FITS) (files : CacheFiles) : FITS :=
  let pixels := mapImage files.pixels o.members.frame_size o.img_pixels
  let mask := mapImage files.mask o.members.plane_size o.img_mask
  { o with
    members := if imageReady pixels && imageReady mask then o.members else o.members.setHasData false
    img_pixels := pixels
    img_mask := mask
    processed_header := true }

/-- The blocks' files, and what becomes of `processed_data`. -/
def FITS.mapCube (o : FITS) (files : CacheFiles) : FITS :=
  if 1 < o.members.depth then
    let groups := mmapGroups files.blocks o.members.depth.toInt.toNat
    { o with cube := groups.1, processed_data := o.processed_data || groups.2 }
  else { o with processed_data := true }

def FITS.deserialise (o : FITS) (files : CacheFiles) : FITS :=
  match files.json with
  | none => o
  | some json =>
    ({ o with members := memberCoding.restore deserialiseMembers json o.members }.mapImages files).mapCube files

/-! ## A member, written and taken up -/

def isFinite : Value → Bool
  | .finite _ _ => true
  | _ => false

/-- An integer that `json_mknumber` is given as it is. -/
def IsDouble (n : Int64) : Prop := binary64.round |(n.toInt : ℚ)| = some |(n.toInt : ℚ)|

/-- What comes back of a member: an integer that is a `double`, a number that is finite or
    the constructor's, elements that are finite. -/
def Kept : (k : Kind) → k.Val → k.Val → Prop
  | .long, (n : Int64), _ => IsDouble n
  | .float, (x : Single), (d : Single) => isFinite x.value ∨ x = d
  | .double, (x : Double), (d : Double) => isFinite x.value ∨ x = d
  | .floats, (xs : List Single), _ => ∀ x ∈ xs, isFinite x.value
  | .header, (h : Option String), _ => h ≠ none
  | _, _, _ => True

theorem truncated_exactly (n : ℤ) : truncated (exactly n) = n := by
  show (if decide ((n : ℚ) < 0) = true then -(⌊|(n : ℚ)|⌋₊ : ℤ) else ⌊|(n : ℚ)|⌋₊) = n
  have habs : ⌊|(n : ℚ)|⌋₊ = n.natAbs := by
    rw [← Int.cast_abs, Int.abs_eq_natAbs, Int.cast_natCast, Nat.floor_natCast]
  simp only [habs, decide_eq_true_eq, Int.cast_lt_zero]
  split
  · omega
  · omega

theorem doubleOf_eq {n : ℤ} (h : binary64.round |(n : ℚ)| = some |(n : ℚ)|) : doubleOf n = exactly n := by
  show binary64.value _ _ = _
  unfold Format.value
  rw [h]
  rfl

theorem round_of_le {n : ℤ} (h : n.natAbs ≤ 2 ^ 53) : binary64.round |(n : ℚ)| = some |(n : ℚ)| := by
  rw [← Int.cast_abs, Int.abs_eq_natAbs, Int.cast_natCast]
  exact round_natCast (by decide) (by decide) (by decide) h

theorem filterMap_ofValue (vs : List Value) : (vs.map Json.ofValue).filterMap Json.value? = vs.filter isFinite := by
  induction vs with
  | nil => rfl
  | cons v vs ih =>
    cases v with
    | finite _ _ => exact congrArg _ ih
    | infinite _ => exact ih
    | nan => exact ih

/-- The elements taken up are the finite ones, one behind the other. -/
theorem takeMember_floats (xs old : List Single) :
    takeMember .floats (writeMember .floats xs) old = xs.filter fun x => isFinite x.value := by
  have hmap : (xs.map fun x : Single => Json.ofValue x.value) = (xs.map Number.value).map Json.ofValue := by
    rw [List.map_map]
    rfl
  show (((xs.map fun x => Json.ofValue x.value).filterMap Json.value?).map Single.of : List Single) = _
  rw [hmap, filterMap_ofValue, List.filter_map, List.map_map]
  have hof : Single.of ∘ Number.value = id := funext Single.of_value
  rw [hof, List.map_id]
  rfl

theorem takeMember_long {n : Int64} (h : IsDouble n) (old : Int64) :
    takeMember .long (writeMember .long n) old = n := by
  show takeMember .long (.ofValue (doubleOf n.toInt)) old = n
  rw [doubleOf_eq h]
  show Int64.ofInt (truncated (exactly n.toInt)) = n
  rw [truncated_exactly, Int64.ofInt_toInt]

theorem takeMember_int (n old : Int32) : takeMember .int (writeMember .int n) old = n := by
  have hint : n.toInt.natAbs ≤ 2 ^ 53 := by
    have hlo := Int32.le_toInt n
    have hhi := Int32.toInt_lt n
    omega
  show takeMember .int (.ofValue (doubleOf n.toInt)) old = n
  rw [doubleOf_eq (round_of_le hint)]
  show Int32.ofInt (truncated (exactly n.toInt)) = n
  rw [truncated_exactly, Int32.ofInt_toInt]

/-- A number that is not finite is left at what it was. -/
theorem takeMember_float (x old : Single) :
    takeMember .float (writeMember .float x) old = if isFinite x.value then x else old := by
  obtain ⟨v, hv⟩ := x
  cases v with
  | finite n m => exact Single.of_value ⟨.finite n m, hv⟩
  | infinite _ => rfl
  | nan => rfl

theorem takeMember_double (x old : Double) :
    takeMember .double (writeMember .double x) old = if isFinite x.value then x else old := by
  obtain ⟨v, hv⟩ := x
  cases v with
  | finite n m => exact Double.of_value ⟨.finite n m, hv⟩
  | infinite _ => rfl
  | nan => rfl

theorem takeMember_hist (h old : Fin NBINS → UInt32) : takeMember .hist (writeMember .hist h) old = h := by
  funext i
  have hcount : ∀ j, doubleOf ((h j).toNat : ℤ) = exactly ((h j).toNat : ℤ) := by
    intro j
    apply doubleOf_eq
    apply round_of_le
    have hlt := (h j).toNat_lt
    rw [Int.natAbs_natCast]
    omega
  have hvalues : ((List.ofFn fun j => Json.ofValue (doubleOf (h j).toNat)).filterMap Json.value?) =
      List.ofFn fun j => exactly ((h j).toNat : ℤ) := by
    have hmap : (List.ofFn fun j => Json.ofValue (doubleOf (h j).toNat)) =
        (List.ofFn fun j => exactly ((h j).toNat : ℤ)).map Json.ofValue := by
      rw [List.map_ofFn]
      congr 1
      funext j
      exact congrArg Json.ofValue (hcount j)
    rw [hmap, filterMap_ofValue, List.filter_eq_self]
    intro v hv
    obtain ⟨j, rfl⟩ := List.mem_ofFn.mp hv
    rfl
  show ((((List.ofFn fun j => Json.ofValue (doubleOf (h j).toNat)).filterMap Json.value?)[i.val]?.map fun v =>
    UInt32.ofNat (truncated v).toNat).getD (old i)) = h i
  rw [hvalues, List.getElem?_ofFn, dif_pos i.isLt]
  show UInt32.ofNat (truncated (exactly ((h i).toNat : ℤ))).toNat = h i
  rw [truncated_exactly, Int.toNat_natCast, UInt32.ofNat_toNat]

theorem takeMember_writeMember (k : Kind) {v d : k.Val} (h : Kept k v d) : takeMember k (writeMember k v) d = v := by
  cases k with
  | string => rfl
  | bool => rfl
  | long => exact takeMember_long h d
  | int => exact takeMember_int v d
  | float =>
    rw [takeMember_float]
    rcases h with h | rfl
    · exact if_pos h
    · exact ite_self _
  | double =>
    rw [takeMember_double]
    rcases h with h | rfl
    · exact if_pos h
    · exact ite_self _
  | floats => exact (takeMember_floats v d).trans (List.filter_eq_self.mpr h)
  | hist => exact takeMember_hist v d
  | header =>
    cases v with
    | none => exact absurd rfl h
    | some t => rfl

/-! ## The members -/

theorem mem_serialiseMembers (f : Member) : f ∈ serialiseMembers.map Prod.snd := by cases f <;> decide

/-! ## An object after a load -/

/-- What is saved has the size of the plane. -/
theorem saveImage_length {content : BlockBytes} (file : Option BlockBytes) :
    ∃ content', saveImage file (some (.allocated content)) = some content' ∧ content'.length = content.length := by
  unfold saveImage
  dsimp only
  split
  · rename_i hlen
    obtain ⟨content', rfl, hlen'⟩ := Option.map_eq_some_iff.mp hlen
    exact ⟨content', rfl, hlen'⟩
  · exact ⟨content, rfl, rfl⟩

theorem imageReady_mapImage {content : BlockBytes} (h : 0 < content.length) (file : Option BlockBytes)
    (buffer : Option ImageBuffer) :
    imageReady (mapImage (saveImage file (some (.allocated content))) content.length buffer) = true := by
  obtain ⟨content', hfile, hlen⟩ := @saveImage_length content file
  rw [hfile]
  unfold mapImage
  dsimp only
  rw [if_pos hlen, if_neg h.ne']
  rfl

theorem frame_size_of_bitpix {s : Members} (hbitpix : s.bitpix = -32) (hmem : 4 * s.plane_size < 2 ^ 64) :
    s.frame_size = 4 * s.plane_size := by
  have hfour : ((-32 : Int32).toInt.tdiv 8).natAbs = 4 := by decide
  unfold Members.frame_size
  rw [hbitpix, hfour]
  omega

structure FITS.Loaded (o : FITS) : Prop where
  header : o.members.header ≠ none
  has_data : o.members.has_data = true
  bitpix : o.members.bitpix = -32
  plane_pos : 0 < o.members.plane_size
  memory : 4 * o.members.plane_size < 2 ^ 64
  img_pixels : ∃ content, o.img_pixels = some (.allocated content) ∧ content.length = 4 * o.members.plane_size
  img_mask : ∃ content, o.img_mask = some (.allocated content) ∧ content.length = o.members.plane_size
  image : o.members.depth ≤ 1 → ∀ xs ∈ o.members.arrays, xs = []
  cube : 1 < o.members.depth → ∀ xs ∈ o.members.arrays, (xs.length : ℤ) = o.members.depth.toInt

/-- The members as they were written, taken up by another object. -/
def Members.rewritten (s d : Members) : Members := memberCoding.restore deserialiseMembers (memberCoding.save serialiseMembers s) d

theorem rewritten_apply (s d : Members) (f : Member) : s.rewritten d f = takeMember f.kind (writeMember f.kind (s f)) (d f) := by
  have hkeys : (deserialiseMembers.map Prod.fst).Nodup := by decide +kernel
  have hmembers : (serialiseMembers.map Prod.snd).Nodup := by decide +kernel
  have hsub : serialiseMembers ⊆ deserialiseMembers := List.Subset.refl _
  exact Coding.restore_save hkeys hsub hmembers (mem_serialiseMembers f) s d

theorem rewritten_eq {s d : Members} (h : ∀ f, Kept f.kind (s f) (d f)) : s.rewritten d = s := by
  funext f
  rw [rewritten_apply]
  exact takeMember_writeMember f.kind (h f)

theorem deserialise_save {o : FITS} {files : CacheFiles} {s : Members}
    (h : files.json = some (memberCoding.save serialiseMembers s)) :
    o.deserialise files = ({ o with members := s.rewritten o.members }.mapImages files).mapCube files := by
  unfold FITS.deserialise
  rw [h]
  rfl

@[simp] theorem mapCube_members (o : FITS) (files : CacheFiles) : (o.mapCube files).members = o.members := by
  unfold FITS.mapCube
  split
  · rfl
  · rfl

theorem mapImages_members {o : FITS} {files : CacheFiles}
    (hpixels : imageReady (mapImage files.pixels o.members.frame_size o.img_pixels) = true)
    (hmask : imageReady (mapImage files.mask o.members.plane_size o.img_mask) = true) : (o.mapImages files).members = o.members := by
  unfold FITS.mapImages
  dsimp only
  rw [hpixels, hmask]
  rfl

theorem destroy_json {o : FITS} {files : CacheFiles} (h : o.members.header ≠ none) (hjson : files.json = none) :
    (o.destroy files).json = some (memberCoding.save serialiseMembers o.members) := by
  obtain ⟨header, hheader⟩ := Option.ne_none_iff_exists'.mp h
  show o.serialise files.json = _
  unfold FITS.serialise
  rw [hjson, hheader]

theorem rewritten_bitpix (s d : Members) : (s.rewritten d).bitpix = s.bitpix :=
  (rewritten_apply s d .bitpix).trans (takeMember_int _ _)

/-- Where the planes have the size they had, `has_data` is what was written. -/
theorem members_deserialise {o : FITS} {files : CacheFiles} (ho : o.Loaded) (hjson : files.json = none) {o' : FITS}
    (hplane : (o.members.rewritten o'.members).plane_size = o.members.plane_size) :
    (o'.deserialise (o.destroy files)).members = o.members.rewritten o'.members := by
  obtain ⟨pixels, hpixels, hplen⟩ := ho.img_pixels
  obtain ⟨mask, hmask, hmlen⟩ := ho.img_mask
  have hpos := ho.plane_pos
  have hframe : (o.members.rewritten o'.members).frame_size = pixels.length := by
    unfold Members.frame_size
    rw [hplane, rewritten_bitpix, hplen]
    exact frame_size_of_bitpix ho.bitpix ho.memory
  rw [deserialise_save (destroy_json ho.header hjson), mapCube_members]
  apply mapImages_members
  · show imageReady (mapImage (saveImage files.pixels o.img_pixels) (o.members.rewritten o'.members).frame_size _) = true
    rw [hframe, hpixels]
    apply imageReady_mapImage
    omega
  · show imageReady (mapImage (saveImage files.mask o.img_mask) (o.members.rewritten o'.members).plane_size _) = true
    rw [hplane, ← hmlen, hmask]
    apply imageReady_mapImage
    omega

/-- The members are what they were, and an array has an element for each frame. -/
def Members.ComesBack (s s' : Members) : Prop :=
  s' = s ∧ List.Forall₂ (fun xs' xs => (xs'.length : ℤ) = s.depth.toInt ∧ ∀ i : ℕ, xs'[i]? = xs[i]?) s'.arrays s.arrays

/-- When nothing is lost on the way to the file, an object loaded comes back with the members
    it had, and a cube's with an element for each frame; an image has none. -/
theorem saved_members_restored {logf : ℚ → Single} {dataset_id flux : String} {o : FITS} {files : CacheFiles} (ho : o.Loaded)
    (hjson : files.json = none) (hkept : ∀ f, Kept f.kind (o.members f) (Members.defaults logf dataset_id flux f)) :
    ((FITS.new logf dataset_id flux).deserialise (o.destroy files)).members = o.members ∧
    (1 < o.members.depth → o.members.ComesBack ((FITS.new logf dataset_id flux).deserialise (o.destroy files)).members) ∧
    (o.members.depth ≤ 1 → ∀ xs ∈ ((FITS.new logf dataset_id flux).deserialise (o.destroy files)).members.arrays, xs = []) := by
  have hsame : o.members.rewritten (FITS.new logf dataset_id flux).members = o.members := rewritten_eq hkept
  have hmembers : ((FITS.new logf dataset_id flux).deserialise (o.destroy files)).members = o.members := by
    rw [members_deserialise ho hjson, hsame]
    rw [hsame]
  rw [hmembers]
  refine ⟨rfl, fun hdepth => ⟨rfl, ?_⟩, ho.image⟩
  apply List.forall₂_same.mpr
  intro xs hxs
  exact ⟨ho.cube hdepth xs hxs, fun _ => rfl⟩

def pixelObject (depth polarisation : Int64) (xs : List Single) : FITS where
  members
    | .header => some "END"
    | .has_header | .has_data => true
    | .bitpix => (-32 : Int32)
    | .width | .height => (1 : Int64)
    | .depth => depth
    | .polarisation => polarisation
    | .frame_min | .frame_max | .mean_spectrum | .integrated_spectrum => xs
    | f => Members.defaults single "" "" f
  processed_header := true
  processed_data := true
  img_pixels := some (.allocated [63, 128, 0, 0])
  img_mask := some (.allocated [255])
  cube := ⟨fun _ => none, fun _ => none⟩
  compressed := ⟨fun _ => [], fun _ => []⟩

def CacheFiles.none : CacheFiles := ⟨Option.none, Option.none, Option.none, ⟨fun _ => Option.none, fun _ => Option.none⟩⟩

theorem pixelObject_loaded {depth polarisation : Int64} {xs : List Single} (himage : depth ≤ 1 → xs = [])
    (hcube : 1 < depth → (xs.length : ℤ) = depth.toInt) : (pixelObject depth polarisation xs).Loaded := by
  have hplane : (pixelObject depth polarisation xs).members.plane_size = 1 := rfl
  have harrays : ∀ xs' ∈ (pixelObject depth polarisation xs).members.arrays, xs' = xs := by
    intro xs' hxs
    simpa [Members.arrays, pixelObject] using hxs
  refine ⟨Option.some_ne_none _, rfl, rfl, ?_, ?_, ⟨_, rfl, rfl⟩, ⟨_, rfl, rfl⟩, ?_, ?_⟩
  · rw [hplane]
    exact Nat.one_pos
  · rw [hplane]
    decide
  · intro h xs' hxs
    rw [harrays xs' hxs]
    exact himage h
  · intro h xs' hxs
    rw [harrays xs' hxs]
    exact hcube h

theorem pixelObject_kept {depth polarisation : Int64} {xs : List Single} (hdepth : depth.toInt.natAbs ≤ 2 ^ 53)
    (hpol : polarisation.toInt.natAbs ≤ 2 ^ 53) (hxs : ∀ x ∈ xs, isFinite x.value) (f : Member) :
    Kept f.kind ((pixelObject depth polarisation xs).members f) (Members.defaults single "" "" f) := by
  have hone : IsDouble 1 := round_of_le (by decide)
  cases f with
  | width | height => exact hone
  | depth => exact round_of_le hdepth
  | polarisation => exact round_of_le hpol
  | frame_min | frame_max | mean_spectrum | integrated_spectrum => exact hxs
  | header => exact Option.some_ne_none _
  | _ => first | exact trivial | exact Or.inr rfl

theorem saved_members_restored_two_frames :
    ((FITS.new single "" "").deserialise ((pixelObject 2 1 [single 1, single 2]).destroy .none)).members =
      (pixelObject 2 1 [single 1, single 2]).members ∧
    (1 < (pixelObject 2 1 [single 1, single 2]).members.depth → (pixelObject 2 1 [single 1, single 2]).members.ComesBack
      ((FITS.new single "" "").deserialise ((pixelObject 2 1 [single 1, single 2]).destroy .none)).members) ∧
    ((pixelObject 2 1 [single 1, single 2]).members.depth ≤ 1 →
      ∀ xs ∈ ((FITS.new single "" "").deserialise ((pixelObject 2 1 [single 1, single 2]).destroy .none)).members.arrays, xs = []) :=
  saved_members_restored (pixelObject_loaded (fun h => absurd h (by decide)) fun _ => by decide) rfl
    (pixelObject_kept (by decide) (by decide) (by decide +kernel))

theorem pixelObject_back (depth polarisation : Int64) (xs : List Single) (himage : depth ≤ 1 → xs = [])
    (hcube : 1 < depth → (xs.length : ℤ) = depth.toInt) (f : Member) :
    ((FITS.new single "" "").deserialise ((pixelObject depth polarisation xs).destroy .none)).members f =
      takeMember f.kind (writeMember f.kind ((pixelObject depth polarisation xs).members f)) (Members.defaults single "" "" f) := by
  have hone : IsDouble 1 := round_of_le (by decide)
  have hwidth : ((pixelObject depth polarisation xs).members.rewritten (FITS.new single "" "").members).width = 1 :=
    (rewritten_apply _ _ .width).trans (takeMember_long hone _)
  have hheight : ((pixelObject depth polarisation xs).members.rewritten (FITS.new single "" "").members).height = 1 :=
    (rewritten_apply _ _ .height).trans (takeMember_long hone _)
  rw [members_deserialise (pixelObject_loaded himage hcube) rfl]
  · exact rewritten_apply _ _ f
  · unfold Members.plane_size
    rw [hwidth, hheight]
    rfl

/-- An image has no arrays, a mean that is not finite makes its frame's place the next one's,
    and a polarisation of 2⁵³ + 1 is not a `double`. -/
theorem a_loaded_object_changed :
    ((pixelObject 1 1 []).Loaded ∧
      ¬ (pixelObject 1 1 []).members.ComesBack ((FITS.new single "" "").deserialise ((pixelObject 1 1 []).destroy .none)).members) ∧
    ((pixelObject 2 1 [NAN, single 1]).Loaded ∧
      ((FITS.new single "" "").deserialise ((pixelObject 2 1 [NAN, single 1]).destroy .none)).members .mean_spectrum = [single 1]) ∧
    ((pixelObject 1 9007199254740993 []).Loaded ∧
      ((FITS.new single "" "").deserialise ((pixelObject 1 9007199254740993 []).destroy .none)).members .polarisation =
        (9007199254740992 : Int64)) := by
  have himage : (1 : Int64) ≤ 1 → ([] : List Single) = [] := fun _ => rfl
  have hcube : 1 < (1 : Int64) → (([] : List Single).length : ℤ) = (1 : Int64).toInt := fun h => absurd h (by decide)
  have himage' : (2 : Int64) ≤ 1 → ([NAN, single 1] : List Single) = [] := fun h => absurd h (by decide)
  have hcube' : 1 < (2 : Int64) → (([NAN, single 1] : List Single).length : ℤ) = (2 : Int64).toInt := fun _ => by decide
  refine ⟨⟨pixelObject_loaded himage hcube, ?_⟩, ⟨pixelObject_loaded himage' hcube', ?_⟩, pixelObject_loaded himage hcube, ?_⟩
  · rintro ⟨hsame, harrays⟩
    rw [hsame] at harrays
    have hfirst := List.forall₂_same.mp harrays [] List.mem_cons_self
    exact absurd hfirst.1 (by decide)
  · rw [pixelObject_back _ _ _ himage' hcube']
    exact (takeMember_floats [NAN, single 1] []).trans (by decide +kernel)
  · rw [pixelObject_back _ _ _ himage hcube]
    show takeMember .long (writeMember .long (9007199254740993 : Int64)) (1 : Int64) = (9007199254740992 : Int64)
    decide +kernel

end FitsWebQL
