/-
  FitsWebQL.ClientText — the parameters of HTTP queries and WebSocket messages, as the
  handlers of `main_uWS.cpp` read them: `key=value` with '&' between, each parameter given
  to one test of the key after the other, a number read with `std::stoi`, `std::stof` or
  `std::stod`, a name unescaped with `curl_easy_unescape`.

  A conversion without a number at the front of the text throws `invalid_argument`, one out
  of range `out_of_range`, and a `std::string` of a null pointer a `logic_error`. Only the
  quality of `image_spectrum` is caught, and only when it is no number. An exception that
  leaves a handler ends the server.

  `text_safe_iff`: a text does no harm, and every parameter that can be read is kept,
  exactly when every conversion that is made finds a number, in range, or a text.
  `sequence_without_number`: a message that ends the server.
-/

import FitsWebQL.Header
import FitsWebQL.Spectrum
import FitsWebQL.Lib.Binary
import FitsWebQL.Lib.Params

namespace FitsWebQL

open Lib.Binary Lib.Params

/-! ## Conversions -/

inductive Thrown
  | invalid_argument
  | out_of_range
  /-- A `std::string` of NULL. -/
  | logic_error
  deriving DecidableEq

def integer (s : Bytes) : Option ℤ :=
  let r := sign (s.dropWhile isspace)
  let digits := r.2.takeWhile isdigit
  let n : ℤ := digitsValue digits
  if digits = [] then none else some (if r.1 then -n else n)

def IsInt (n : ℤ) : Prop := -2 ^ 31 ≤ n ∧ n < 2 ^ 31

instance (n : ℤ) : Decidable (IsInt n) := inferInstanceAs (Decidable (_ ∧ _))

def stoi (s : Bytes) : Except Thrown ℤ :=
  match integer s with
  | none => .error .invalid_argument
  | some n => if IsInt n then .ok n else .error .out_of_range

def hexDigit (b : UInt8) : Option ℕ :=
  if isdigit b then some (b.toNat - 48)
  else if 97 ≤ toLower b ∧ toLower b ≤ 102 then some ((toLower b).toNat - 87)
  else none

def isHexDigit (b : UInt8) : Bool := (hexDigit b).isSome

def hexValue (ds : Bytes) : ℕ := ds.foldl (fun n d => 16 * n + (hexDigit d).getD 0) 0

def pointed (isDigit : UInt8 → Bool) (s : Bytes) : Bytes × Bytes × Bytes :=
  let after := s.dropWhile isDigit
  match after with
  | 46 :: rest => (s.takeWhile isDigit, rest.takeWhile isDigit, rest.dropWhile isDigit)
  | _ => (s.takeWhile isDigit, [], after)

def binaryExponent : Bytes → ℤ
  | b :: rest =>
    if toLower b = 112 then
      let r := sign rest
      let n : ℤ := digitsValue (r.2.takeWhile isdigit)
      if r.1 then -n else n
    else 0
  | [] => 0

def magnitude (s : Bytes) : Option ℚ :=
  let hex := pointed isHexDigit (s.drop 2)
  if (s.take 2).map toLower = lit "0x" ∧ hex.1 ++ hex.2.1 ≠ [] then
    some (hexValue (hex.1 ++ hex.2.1) * 2 ^ (binaryExponent hex.2.2 - 4 * hex.2.1.length))
  else
    let decimal := pointed isdigit s
    if decimal.1 ++ decimal.2.1 = [] then none
    else some (digitsValue (decimal.1 ++ decimal.2.1) * 10 ^ (exponentPart decimal.2.2 - decimal.2.1.length))

/-- The number a text begins with, as `strtod` reads it: before it is rounded. -/
def numeral (s : Bytes) : Option Value :=
  let r := sign (s.dropWhile isspace)
  let word := (r.2.take 3).map toLower
  if word = lit "inf" then some (.infinite r.1)
  else if word = lit "nan" then some .nan
  else (magnitude r.2).map (.finite r.1)

/-- A magnitude that is not too large, nor too small for all its bits (`ERANGE`). -/
def InRangeOf (f : Format) (q : ℚ) : Prop :=
  f.round q ≠ none ∧ (q = 0 ∨ (1 - 2 ^ (-(f.precision + 1) : ℤ)) * 2 ^ (f.emin + f.precision - 1) ≤ q ∨ f.round q = some q)

instance (f : Format) (q : ℚ) : Decidable (InRangeOf f q) := inferInstanceAs (Decidable (_ ∧ _))

def stofd (f : Format) (s : Bytes) : Except Thrown Value :=
  match numeral s with
  | none => .error .invalid_argument
  | some (.finite negative q) => if InRangeOf f q then .ok (f.convert (.finite negative q)) else .error .out_of_range
  | some (.infinite negative) => .ok (.infinite negative)
  | some .nan => .ok .nan

def stof : Bytes → Except Thrown Value := stofd binary32
def stod : Bytes → Except Thrown Value := stofd binary64

/-! ## Parameters -/

inductive Slot (σ : Type)
  | int (set : σ → ℤ → σ)
  | float (set : σ → Value → σ)
  | double (set : σ → Value → σ)
  /-- `catch (std::invalid_argument &exc)`. -/
  | caughtFloat (set : σ → Value → σ)
  | unescaped (set : σ → Bytes → σ)
  | text (set : σ → Bytes → σ)

abbrev Table (σ : Type) := List ((Bytes → Bool) × Slot σ)

/-- `key.find(name) != std::string::npos`. -/
def named (name : String) (key : Bytes) : Bool := find key (lit name)

/-- `key == name`. -/
def called (name : String) (key : Bytes) : Bool := key == lit name

section Reading

variable {σ : Type} (curl_easy_unescape : Bytes → Option Bytes)

def Slot.read : Slot σ → Bytes → Except Thrown (σ → σ)
  | .int set, value => (stoi value).map fun n s => set s n
  | .float set, value => (stof value).map fun x s => set s x
  | .double set, value => (stod value).map fun x s => set s x
  | .caughtFloat set, value =>
    match stof value with
    | .ok x => .ok fun s => set s x
    | .error .invalid_argument => .ok id
    | .error .out_of_range => .error .out_of_range
    | .error .logic_error => .error .logic_error
  | .unescaped set, value =>
    match curl_easy_unescape value with
    | none => .error .logic_error
    | some str => .ok fun s => set s str
  | .text set, value => .ok fun s => set s value

def Table.rules (table : Table σ) : List (Rule UInt8 Thrown σ) := table.map fun t => ⟨t.1, t.2.read curl_easy_unescape⟩

def queryParams (query : Bytes) : List (Bytes × Bytes) := params 38 61 query

/-- A number in the range of its type stands at the front of the value, or `curl` can
    unescape it; anything else is for a text. -/
def Slot.Takes : Slot σ → Bytes → Prop
  | .int _, value => ∃ n, integer value = some n ∧ IsInt n
  | .float _, value => ∃ x, numeral value = some x ∧ ∀ negative q, x = .finite negative q → InRangeOf binary32 q
  | .double _, value => ∃ x, numeral value = some x ∧ ∀ negative q, x = .finite negative q → InRangeOf binary64 q
  | .caughtFloat _, value => ∀ negative q, numeral value = some (.finite negative q) → InRangeOf binary32 q
  | .unescaped _, value => curl_easy_unescape value ≠ none
  | .text _, _ => True

def Table.Takes (table : Table σ) (query : Bytes) : Prop :=
  ∀ p ∈ queryParams query, ∀ t ∈ table, t.1 p.1 = true → t.2.Takes curl_easy_unescape p.2

def Table.parse (table : Table σ) (init : σ) (query : Bytes) : Except Thrown σ :=
  run (table.rules curl_easy_unescape) init (queryParams query)

def Table.accepted (table : Table σ) (init : σ) (query : Bytes) : σ :=
  keep (table.rules curl_easy_unescape) init (queryParams query)

theorem stoi_ok_iff {s : Bytes} : (∃ n, stoi s = .ok n) ↔ ∃ n, integer s = some n ∧ IsInt n := by
  unfold stoi
  cases hinteger : integer s with
  | none => simp
  | some n =>
    by_cases hint : IsInt n
    · simp [hint]
    · simp [hint]

theorem stofd_ok_iff {f : Format} {s : Bytes} :
    (∃ x, stofd f s = .ok x) ↔ ∃ x, numeral s = some x ∧ ∀ negative q, x = .finite negative q → InRangeOf f q := by
  unfold stofd
  rcases hnumeral : numeral s with _ | (⟨negative, q⟩ | negative | _)
  · simp
  · by_cases hrange : InRangeOf f q
    · simp [hrange]
    · simp [hrange]
  · simp
  · simp

theorem caught_ok_iff {s : Bytes} (set : σ → Value → σ) :
    (∃ change, (Slot.caughtFloat set).read curl_easy_unescape s = .ok change) ↔
      ∀ negative q, numeral s = some (.finite negative q) → InRangeOf binary32 q := by
  rcases hnumeral : numeral s with _ | (⟨negative, q⟩ | negative | _)
  · simp [Slot.read, stof, stofd, hnumeral]
  · by_cases hrange : InRangeOf binary32 q
    · simp [Slot.read, stof, stofd, hnumeral, hrange]
    · simp [Slot.read, stof, stofd, hnumeral, hrange]
  · simp [Slot.read, stof, stofd, hnumeral]
  · simp [Slot.read, stof, stofd, hnumeral]

theorem map_ok_iff {β : Type} {x : Except Thrown β} {g : β → σ → σ} :
    (∃ change, x.map g = .ok change) ↔ ∃ b, x = .ok b := by
  cases x with
  | error e => simp [Except.map]
  | ok b => simp [Except.map]

theorem read_ok_iff {slot : Slot σ} {value : Bytes} :
    (∃ change, slot.read curl_easy_unescape value = .ok change) ↔ slot.Takes curl_easy_unescape value := by
  cases slot with
  | int set => exact map_ok_iff.trans stoi_ok_iff
  | float set => exact map_ok_iff.trans stofd_ok_iff
  | double set => exact map_ok_iff.trans stofd_ok_iff
  | caughtFloat set => exact caught_ok_iff curl_easy_unescape set
  | unescaped set =>
    cases hstr : curl_easy_unescape value with
    | none => simp [Slot.read, Slot.Takes, hstr]
    | some str => simp [Slot.read, Slot.Takes, hstr]
  | text set => simp [Slot.read, Slot.Takes]

theorem parse_iff {table : Table σ} (init : σ) {query : Bytes} :
    table.parse curl_easy_unescape init query = .ok (table.accepted curl_easy_unescape init query) ↔
      table.Takes curl_easy_unescape query := by
  refine run_eq_keep_iff.trans ?_
  unfold Table.Takes Table.rules
  refine forall₂_congr fun p _ => ?_
  simp only [List.forall_mem_map, Rule.Reads, read_ok_iff]

end Reading

/-! ## Handlers -/

structure GetDirectoryParams where
  dir : Bytes := []

structure ImageSpectrumParams where
  datasetid : Bytes := []
  width : ℤ := 0
  height : ℤ := 0
  quality : Value := .finite false 45
  fetch_data : Bool := false

structure GetMoleculesParams where
  datasetid : Bytes := []
  freq_start : Value := .finite false 0
  freq_end : Value := .finite false 0

structure GetFitsParams where
  datasetid : Bytes := []
  frame_start : Value := .finite false 0
  frame_end : Value := .finite false 0
  ref_freq : Value := .finite false 0
  x1 : ℤ := -1
  x2 : ℤ := -1
  y1 : ℤ := -1
  y2 : ℤ := -1

structure FITSWebQLParams where
  url : Bytes := []
  datasets : List Bytes := []
  dir : Bytes := []
  ext : Bytes := []
  db : Bytes := []
  table : Bytes := []
  flux : Bytes := []
  composite : Bool := false

structure KalmanResetParams where
  seq : ℤ := -1

structure InitVideoParams where
  seq : ℤ := -1
  fps : ℤ := 10
  bitrate : ℤ := 1000
  width : ℤ := -1
  height : ℤ := -1
  frame : Value := .finite false 0
  ref_freq : Value := .finite false 0
  timestamp : Value := .finite false 0
  flux : Bytes := []

structure VideoParams where
  seq : ℤ := -1
  fps : ℤ := 10
  bitrate : ℤ := 1000
  frame : Value := .finite false 0
  ref_freq : Value := .finite false 0
  timestamp : Value := .finite false 0
  keyframe : Bool := false

structure ImageParams where
  quality : Value := .finite false 45
  view_width : ℤ := -1
  view_height : ℤ := -1
  frame_start : Value := .finite false 0
  frame_end : Value := .finite false 0
  ref_freq : Value := .finite false 0
  timestamp : Value := .finite false 0

structure RealtimeParams where
  seq : ℤ := -1
  dx : ℤ := 0
  quality : Value := .finite false 45
  image_update : Bool := false
  x1 : ℤ := -1
  x2 : ℤ := -1
  y1 : ℤ := -1
  y2 : ℤ := -1
  view_width : ℤ := -1
  view_height : ℤ := -1
  frame_start : Value := .finite false 0
  frame_end : Value := .finite false 0
  ref_freq : Value := .finite false 0
  timestamp : Value := .finite false 0
  intensity : IntensityMode := .mean
  beam : BeamShape := .square

def gigahertz : Value → Value
  | .finite negative q => binary64.convert (.finite negative (q / 10 ^ 9))
  | .infinite negative => .infinite negative
  | .nan => .nan

/-- `strcasecmp(name, value.c_str()) == 0`. -/
def sameWord (name : String) (value : Bytes) : Bool := (value.takeWhile (· ≠ 0)).map toLower == lit name

/-- What the handlers of HTTP routes and the branches of the WebSocket handler read. -/
inductive Handler
  | get_directory
  | image_spectrum
  | get_molecules
  | get_fits
  | fitswebql
  | kalman_reset
  | init_video
  | video
  | image
  | realtime_image_spectrum
  deriving DecidableEq

abbrev Handler.Params : Handler → Type
  | .get_directory => GetDirectoryParams
  | .image_spectrum => ImageSpectrumParams
  | .get_molecules => GetMoleculesParams
  | .get_fits => GetFitsParams
  | .fitswebql => FITSWebQLParams
  | .kalman_reset => KalmanResetParams
  | .init_video => InitVideoParams
  | .video => VideoParams
  | .image => ImageParams
  | .realtime_image_spectrum => RealtimeParams

def Handler.init : (h : Handler) → h.Params
  | .get_directory => {}
  | .image_spectrum => {}
  | .get_molecules => {}
  | .get_fits => {}
  | .fitswebql => {}
  | .kalman_reset => {}
  | .init_video => {}
  | .video => {}
  | .image => {}
  | .realtime_image_spectrum => {}

def Handler.table : (h : Handler) → Table h.Params
  | .get_directory => [(called "dir", .unescaped fun p dir => { p with dir })]
  | .image_spectrum =>
    [(named "dataset", .unescaped fun p datasetid => { p with datasetid }),
     (named "width", .int fun p width => { p with width }),
     (named "height", .int fun p height => { p with height }),
     (named "quality", .caughtFloat fun p quality => { p with quality }),
     (named "fetch_data", .text fun p value => if value = lit "true" then { p with fetch_data := true } else p)]
  | .get_molecules =>
    [(named "dataset", .unescaped fun p datasetid => { p with datasetid }),
     (named "freq_start", .double fun p x => { p with freq_start := gigahertz x }),
     (named "freq_end", .double fun p x => { p with freq_end := gigahertz x })]
  | .get_fits =>
    [(named "dataset", .unescaped fun p datasetid => { p with datasetid }),
     (named "x1", .int fun p x1 => { p with x1 }),
     (named "x2", .int fun p x2 => { p with x2 }),
     (named "y1", .int fun p y1 => { p with y1 }),
     (named "y2", .int fun p y2 => { p with y2 }),
     (named "frame_start", .double fun p frame_start => { p with frame_start }),
     (named "frame_end", .double fun p frame_end => { p with frame_end }),
     (named "ref_freq", .double fun p ref_freq => { p with ref_freq })]
  | .fitswebql =>
    [(called "url", .unescaped fun p url => { p with url }),
     (named "dataset", .unescaped fun p str => { p with datasets := p.datasets ++ [str] }),
     (named "filename", .unescaped fun p str => { p with datasets := p.datasets ++ [str] }),
     (called "dir", .unescaped fun p dir => { p with dir }),
     (called "ext", .unescaped fun p ext => { p with ext }),
     (called "db", .text fun p db => { p with db }),
     (called "table", .text fun p table => { p with table }),
     (called "flux", .text fun p flux =>
       if flux ∈ ["linear", "logistic", "ratio", "square", "legacy"].map lit then { p with flux } else p),
     (called "view", .text fun p value => if find value (lit "composite") then { p with composite := true } else p)]
  | .kalman_reset => [(named "seq", .int fun p seq => { p with seq })]
  | .init_video =>
    [(named "seq", .int fun p seq => { p with seq }),
     (named "width", .int fun p width => { p with width }),
     (named "height", .int fun p height => { p with height }),
     (named "bitrate", .int fun p bitrate => { p with bitrate }),
     (named "fps", .int fun p fps => { p with fps }),
     (named "frame", .double fun p frame => { p with frame }),
     (named "ref_freq", .double fun p ref_freq => { p with ref_freq }),
     (named "flux", .text fun p flux => { p with flux }),
     (named "timestamp", .float fun p timestamp => { p with timestamp })]
  | .video =>
    [(named "seq", .int fun p seq => { p with seq }),
     (named "bitrate", .int fun p bitrate => { p with bitrate }),
     (named "fps", .int fun p fps => { p with fps }),
     (named "frame", .double fun p frame => { p with frame }),
     (named "ref_freq", .double fun p ref_freq => { p with ref_freq }),
     (named "key", .text fun p value => if value = lit "true" then { p with keyframe := true } else p),
     (named "timestamp", .float fun p timestamp => { p with timestamp })]
  | .image =>
    [(named "quality", .float fun p quality => { p with quality }),
     (named "width", .int fun p view_width => { p with view_width }),
     (named "height", .int fun p view_height => { p with view_height }),
     (named "frame_start", .double fun p frame_start => { p with frame_start }),
     (named "frame_end", .double fun p frame_end => { p with frame_end }),
     (named "ref_freq", .double fun p ref_freq => { p with ref_freq }),
     (named "timestamp", .float fun p timestamp => { p with timestamp })]
  | .realtime_image_spectrum =>
    [(named "seq", .int fun p seq => { p with seq }),
     (named "dx", .int fun p dx => { p with dx }),
     (named "quality", .float fun p quality => { p with quality }),
     (named "image", .text fun p value => if value = lit "true" then { p with image_update := true } else p),
     (named "width", .int fun p view_width => { p with view_width }),
     (named "height", .int fun p view_height => { p with view_height }),
     (named "x1", .int fun p x1 => { p with x1 }),
     (named "x2", .int fun p x2 => { p with x2 }),
     (named "y1", .int fun p y1 => { p with y1 }),
     (named "y2", .int fun p y2 => { p with y2 }),
     (named "frame_start", .double fun p frame_start => { p with frame_start }),
     (named "frame_end", .double fun p frame_end => { p with frame_end }),
     (named "ref_freq", .double fun p ref_freq => { p with ref_freq }),
     (named "timestamp", .float fun p timestamp => { p with timestamp }),
     (named "beam", .text fun p value => { p with beam := if sameWord "circle" value then .circle else .square }),
     (named "intensity", .text fun p value =>
       { p with intensity := if sameWord "integrated" value then .integrated else .mean })]

/-! ## Texts of a client -/

inductive ClientText
  /-- The query of `/get_directory`. -/
  | get_directory (query : Bytes)
  /-- The query of `/:root/*`. -/
  | get (uri query : Bytes)
  /-- A WebSocket message: whether the socket has a session, and whether the branch of
      `[init_video]` returns. -/
  | message (has_user returns : Bool) (text : Bytes)

/-- The handler of `/:root/*`: none where a file is served. -/
def route (uri : Bytes) : Option Handler :=
  if find uri (lit "/image_spectrum") then some .image_spectrum
  else if find uri (lit "/get_molecules") then some .get_molecules
  else if find uri (lit "/get_fits") then some .get_fits
  else if find uri (lit "FITSWebQL.html") then some .fitswebql
  else none

/-- The branches of the message handler, none excluding those after it. -/
def branches (returns : Bool) (text : Bytes) : List Handler :=
  (if find text (lit "[kalman_reset]") then [Handler.kalman_reset] else []) ++
    if find text (lit "[init_video]") && returns then [Handler.init_video]
    else
      (if find text (lit "[init_video]") then [Handler.init_video] else []) ++
      (if find text (lit "[video]") then [Handler.video] else []) ++
      (if find text (lit "[image]") then [Handler.image] else []) ++
      (if find text (lit "[realtime_image_spectrum]") then [Handler.realtime_image_spectrum] else [])

def messageQuery (text : Bytes) : Bytes := (text.dropWhile (· ≠ 32)).drop 1

def ClientText.handled : ClientText → List (Handler × Bytes)
  | .get_directory query => [(.get_directory, query)]
  | .get uri query => (route uri).toList.map fun h => (h, query)
  | .message has_user returns text =>
    if find text (lit "[heartbeat]") || !has_user then [] else (branches returns text).map fun h => (h, messageQuery text)

variable (curl_easy_unescape : Bytes → Option Bytes)

/-- What the handlers have read when they go on; an exception ends the server. -/
def ClientText.parse (text : ClientText) : Except Thrown (List (Σ h : Handler, h.Params)) :=
  text.handled.mapM fun r => (r.1.table.parse curl_easy_unescape r.1.init r.2).map (Sigma.mk r.1)

/-- Every parameter that can be read is assigned, the others are ignored. -/
def ClientText.accepted (text : ClientText) : List (Σ h : Handler, h.Params) :=
  text.handled.map fun r => ⟨r.1, r.1.table.accepted curl_easy_unescape r.1.init r.2⟩

/-- No text but one with a value that a conversion cannot take does harm. -/
theorem text_safe_iff (text : ClientText) :
    text.parse curl_easy_unescape = .ok (text.accepted curl_easy_unescape) ↔
      ∀ r ∈ text.handled, r.1.table.Takes curl_easy_unescape r.2 := by
  refine mapM_eq_map_iff.trans (forall₂_congr fun r _ => ?_)
  rw [← parse_iff curl_easy_unescape r.1.init]
  cases hparse : r.1.table.parse curl_easy_unescape r.1.init r.2 with
  | error e => simp [Except.map]
  | ok p => simp [Except.map]

/-- `std::stoi("abc")`: the server ends, and the 7 with it. -/
theorem sequence_without_number :
    (ClientText.message true false (lit "[kalman_reset] seq=7&seq=abc")).parse some = .error .invalid_argument ∧
      (ClientText.message true false (lit "[kalman_reset] seq=7&seq=abc")).accepted some = [⟨.kalman_reset, { seq := 7 }⟩] :=
  ⟨rfl, rfl⟩

end FitsWebQL
