/-
  FitsWebQL.ImageReply — the reply to `image_spectrum`: the bytes `stream_image_spectrum`
  writes (`main_uWS.cpp`) and what `fetch_image_spectrum` makes of them
  (`fitswebqlse.js`). The image is an OpenEXR file, bytes here; the metadata are JSON,
  compressed with LZ4. The browser makes one character of each byte of them and leaves the
  text to `JSON.parse`, a parameter; `none` where that throws.

  The reply does not say whether metadata follow: the browser reads past the image and
  takes the RangeError for a no.

  Proved: the browser gets back what the server had (`reply_read_back`), metadata exactly
  when they were sent, but under the flux "legacy" it shows the image from its minimum to
  its maximum, whatever black and white were sent (`legacy_drops_black_and_white`). The
  metadata have to be ASCII: another character comes out as the bytes of its UTF-8
  (`accent_misread`).
-/

import FitsWebQL.Messages
import FitsWebQL.Lib.JsonText

namespace FitsWebQL

open Lib.Wire Lib.JsonText

def LZ4_MAX_INPUT_SIZE : ℕ := 0x7E000000

/-- LZ4's blocks on the two sides: the server's compressor, the browser's decoder with the
    size of its buffer. -/
structure BlockCodec where
  LZ4_compress_HC : Bytes → Bytes
  decodeBlock : Bytes → ℕ → Bytes
  lossless : ∀ src, src.length ≤ LZ4_MAX_INPUT_SIZE → decodeBlock (LZ4_compress_HC src) src.length = src

/-! ## The server -/

/-- What is streamed: the tone mapping of the `FITS` object, the image and, with
    `fetch_data`, the JSON. -/
structure ImageSpectrum where
  flux : Bytes
  tone_mapping : ToneMapping
  output : Bytes
  /-- A `uint64_t`. -/
  output_size : output.length < 2 ^ 64
  fetch_data : Bool
  json : Bytes
  /-- What LZ4 takes. -/
  json_size : json.length ≤ LZ4_MAX_INPUT_SIZE

/-- A `uint64_t`, its lower half first. -/
def bytesOf64 (n : ℕ) : Bytes := bytesOf (UInt32.ofNat n) ++ bytesOf (UInt32.ofNat (n / 2 ^ 32))

def writeStatistics (t : ToneMapping) : Bytes :=
  [bytesOf t.min, bytesOf t.max, bytesOf t.median, bytesOf t.sensitivity, bytesOf t.ratio_sensitivity, bytesOf t.white,
    bytesOf t.black].flatten

def writeMetadata (codec : BlockCodec) (s : ImageSpectrum) : Bytes :=
  if s.fetch_data then bytesOf (UInt32.ofNat s.json.length) ++ codec.LZ4_compress_HC s.json else []

/-- An aborted connection apart. -/
def stream_image_spectrum (codec : BlockCodec) (s : ImageSpectrum) : Bytes :=
  if 0 < s.output.length then
    bytesOf (UInt32.ofNat s.flux.length) ++ (s.flux ++ (writeStatistics s.tone_mapping ++ (bytesOf64 s.output.length ++
      (s.output ++ writeMetadata codec s))))
  else []

/-! ## The browser -/

/-- The `fitsData` are what `JSON.parse` gave, of whatever kind its values are. -/
structure FetchedImage (α : Type) where
  flux : String
  tone_mapping : ToneMapping
  frame : Bytes
  fitsData : Option α
  deriving DecidableEq

inductive Fetched (α : Type)
  /-- `show_not_found()`: nothing came. -/
  | notFound
  | image (image : FetchedImage α)
  deriving DecidableEq

/-- The sum is exact for a safe integer, and no `ArrayBuffer` is longer than one. -/
def getUint64 (dataview : Bytes) (byteOffset : ℕ) : Option ℕ := do
  let left ← getUint32 dataview byteOffset
  let right ← getUint32 dataview (byteOffset + 4)
  return left.toNat + 2 ^ 32 * right.toNat

def BOM : Bytes := [0xEF, 0xBB, 0xBF]

/-- `TextDecoder("utf-8")`: a byte order mark is dropped, and bytes that are no UTF-8 come
    out with replacement characters, `malformed`. -/
def textDecoder (malformed : Bytes → String) (bytes : Bytes) : String :=
  let text := if bytes.take 3 = BOM then bytes.drop 3 else bytes
  (String.fromUTF8? text.toByteArray).getD (malformed text)

def readStatistics (msg : Bytes) (off : ℕ) : Option ToneMapping := do
  let min ← getUint32 msg off
  let max ← getUint32 msg (off + 4)
  let median ← getUint32 msg (off + 8)
  let sensitivity ← getUint32 msg (off + 12)
  let ratio_sensitivity ← getUint32 msg (off + 16)
  let white ← getUint32 msg (off + 20)
  let black ← getUint32 msg (off + 24)
  return ⟨min, max, median, black, white, sensitivity, ratio_sensitivity⟩

/-- The first `try` block; `none` is its `catch`. -/
def readBlock (msg : Bytes) (off : ℕ) : Option (ℕ × Bytes) := do
  let data_len ← getUint32 msg off
  let data ← getBytes msg (off + 4)
  return (data_len.toNat, data)

/-- `String.fromCharCode`: a character for each byte, on both paths of the second `try`. -/
def fromCharCode (uncompressed : Bytes) : String := String.ofList (uncompressed.map fun b => Char.ofNat b.toNat)

/-- The `fitsData`, if there are any; `none`: `JSON.parse` throws, and nothing catches it. -/
def readMetadata {α : Type} (codec : BlockCodec) (parse : String → Option α) (msg : Bytes) (off : ℕ) : Option (Option α) :=
  match readBlock msg off with
  | none => some none
  | some (data_len, data) => (parse (fromCharCode (codec.decodeBlock data data_len))).map some

/-- `none` is an exception: a read past the end of the message, or of `JSON.parse`. -/
def fetch_image_spectrum {α : Type} (codec : BlockCodec) (malformed : Bytes → String) (parse : String → Option α)
    (msg : Bytes) : Option (Fetched α) :=
  if msg.length = 0 then some .notFound
  else do
    let str_length ← getUint32 msg 0
    let flux ← getSlice msg 4 str_length.toNat
    let offset := 4 + str_length.toNat
    let tone_mapping ← readStatistics msg offset
    let img_length ← getUint64 msg (offset + 28)
    let frame ← getSlice msg (offset + 28 + 8) img_length
    let flux := textDecoder malformed flux
    let fitsData ← readMetadata codec parse msg (offset + 28 + 8 + img_length)
    return .image ⟨flux, tone_mapping.shown (flux = "legacy"), frame, fitsData⟩

/-! ## The round trip -/

def utf8 (s : String) : Bytes := s.toByteArray.data.toList

theorem toByteArray_utf8 (s : String) : (utf8 s).toByteArray = s.toByteArray := by
  apply ByteArray.ext
  rw [List.data_toByteArray, utf8, Array.toArray_toList]

theorem textDecoder_utf8 (malformed : Bytes → String) {s : String} (h : (utf8 s).take 3 ≠ BOM) :
    textDecoder malformed (utf8 s) = s := by
  have hvalid : (utf8 s).toByteArray.IsValidUTF8 := by
    rw [toByteArray_utf8]
    exact s.isValidUTF8
  unfold textDecoder
  simp only [if_neg h, String.fromUTF8?, dif_pos hvalid, Option.getD_some]
  exact String.toByteArray_inj.mp (toByteArray_utf8 s)

theorem at_statistics {msg rest : Bytes} {off : ℕ} {t : ToneMapping} (h : At msg off (writeStatistics t ++ rest)) :
    readStatistics msg off = some t ∧ At msg (off + 28) rest := by
  simp only [writeStatistics, List.flatten_cons, List.flatten_nil, List.append_nil, List.append_assoc] at h
  obtain ⟨hmin, h⟩ := h.word
  obtain ⟨hmax, h⟩ := h.word
  obtain ⟨hmedian, h⟩ := h.word
  obtain ⟨hsensitivity, h⟩ := h.word
  obtain ⟨hratio, h⟩ := h.word
  obtain ⟨hwhite, h⟩ := h.word
  obtain ⟨hblack, h⟩ := h.word
  refine ⟨?_, h⟩
  simp [readStatistics, hmin, hmax, hmedian, hsensitivity, hratio, hwhite, hblack]

theorem at_uint64 {msg rest : Bytes} {off n : ℕ} (h : At msg off (bytesOf64 n ++ rest)) (hn : n < 2 ^ 64) :
    getUint64 msg off = some n ∧ At msg (off + 8) rest := by
  rw [bytesOf64, List.append_assoc] at h
  obtain ⟨hleft, h⟩ := h.word
  obtain ⟨hright, h⟩ := h.word
  refine ⟨?_, h⟩
  simp only [getUint64, hleft, hright, Option.bind_eq_bind, Option.bind_some, Option.pure_def, Option.some.injEq,
    UInt32.toNat_ofNat']
  omega

theorem at_metadata {codec : BlockCodec} {msg : Bytes} {off : ℕ} {s : ImageSpectrum}
    (h : At msg off (writeMetadata codec s)) {α : Type} (parse : String → Option α) :
    readMetadata codec parse msg off = if s.fetch_data then (parse (fromCharCode s.json)).map some else some none := by
  have hsize := s.json_size
  unfold writeMetadata at h
  cases hdata : s.fetch_data with
  | false =>
    rw [hdata, if_neg (by simp)] at h
    simp [readMetadata, readBlock, h.ended]
  | true =>
    rw [hdata, if_pos rfl] at h
    obtain ⟨hlen, h⟩ := h.word
    have hnat : (UInt32.ofNat s.json.length).toNat = s.json.length := by
      rw [UInt32.toNat_ofNat']
      unfold LZ4_MAX_INPUT_SIZE at hsize
      omega
    have hread : readBlock msg off = some (s.json.length, codec.LZ4_compress_HC s.json) := by
      simp [readBlock, hlen, h.rest, hnat]
    simp [readMetadata, hread, codec.lossless s.json hsize]

/-- Whatever the bytes of the flux and of the metadata. -/
theorem fetch_stream (codec : BlockCodec) (malformed : Bytes → String) {α : Type} (parse : String → Option α)
    (s : ImageSpectrum) (himage : 0 < s.output.length) (hflux : s.flux.length < 2 ^ 32) :
    fetch_image_spectrum codec malformed parse (stream_image_spectrum codec s) =
      (if s.fetch_data then (parse (fromCharCode s.json)).map some else some none).map fun fitsData =>
        .image ⟨textDecoder malformed s.flux, s.tone_mapping.shown (textDecoder malformed s.flux = "legacy"), s.output,
          fitsData⟩ := by
  obtain ⟨msg, hmsg⟩ : ∃ msg, msg = stream_image_spectrum codec s := ⟨_, rfl⟩
  have hstart := At.start msg
  rw [← hmsg]
  rw [stream_image_spectrum, if_pos himage] at hmsg
  nth_rewrite 2 [hmsg] at hstart
  have hne : msg.length ≠ 0 := by
    rw [hmsg, List.length_append, bytesOf_length]
    omega
  have hnat : (UInt32.ofNat s.flux.length).toNat = s.flux.length := by
    rw [UInt32.toNat_ofNat']
    omega
  obtain ⟨hlen, h⟩ := hstart.word
  obtain ⟨hbytes, h⟩ := h.slice
  obtain ⟨hstats, h⟩ := at_statistics h
  obtain ⟨hsize, h⟩ := at_uint64 h s.output_size
  obtain ⟨hframe, h⟩ := h.slice
  have hmeta := at_metadata h parse
  rw [Nat.zero_add] at hbytes hstats hsize hframe hmeta
  rw [fetch_image_spectrum, if_neg hne]
  simp only [hlen, hnat, hbytes, hstats, hsize, hframe, hmeta, Option.bind_eq_bind, Option.bind_some, Option.pure_def,
    Option.map_eq_bind, Function.comp_def]

theorem fetch_without_image (codec : BlockCodec) (malformed : Bytes → String) {α : Type} (parse : String → Option α)
    (s : ImageSpectrum) (himage : s.output = []) :
    fetch_image_spectrum codec malformed parse (stream_image_spectrum codec s) = some .notFound := by
  simp [stream_image_spectrum, fetch_image_spectrum, himage]

/-! ### One character a byte -/

theorem utf8_eq_flatMap (s : String) : utf8 s = s.toList.flatMap String.utf8EncodeChar := by
  have hbytes : s.toByteArray = (s.toList.flatMap String.utf8EncodeChar).toByteArray := s.utf8Encode_toList.symm
  rw [utf8, hbytes, List.data_toByteArray]

/-- An ASCII character is one byte, its number. -/
theorem encodeChar_ascii {c : Char} (h : c.toNat ≤ 0x7F) : String.utf8EncodeChar c = [UInt8.ofNat c.toNat] := by
  have hsize : c.utf8Size = 1 := by
    rw [Char.utf8Size_eq_one_iff, UInt32.le_iff_toNat_le]
    exact h
  rw [String.utf8EncodeChar_eq_singleton hsize]
  rfl

theorem utf8_fromCharCode {bytes : Bytes} (h : ∀ b ∈ bytes, b ≤ 0x7F) : utf8 (fromCharCode bytes) = bytes := by
  rw [utf8_eq_flatMap, fromCharCode, String.toList_ofList]
  induction bytes with
  | nil => rfl
  | cons b bytes ih =>
    rw [List.forall_mem_cons] at h
    have hb : b.toNat ≤ 0x7F := UInt8.le_iff_toNat_le.mp h.1
    have hchar : (Char.ofNat b.toNat).toNat = b.toNat := by
      rw [Char.toNat_ofNat, if_pos (.inl (by omega))]
    rw [List.map_cons, List.flatMap_cons, ih h.2, encodeChar_ascii (by omega), hchar]
    simp

theorem fromCharCode_utf8 {text : String} (h : ∀ b ∈ utf8 text, b ≤ 0x7F) : fromCharCode (utf8 text) = text := by
  have hbytes := utf8_fromCharCode h
  have harray := congrArg List.toByteArray hbytes
  rw [toByteArray_utf8, toByteArray_utf8] at harray
  exact String.toByteArray_inj.mp harray

/-! ### What the browser has -/

/-- No metadata are sent, or a text of ASCII characters that `JSON.parse` reads as `value`. -/
def ImageSpectrum.Describes {α : Type} (s : ImageSpectrum) (parse : String → Option α) : Option α → Prop
  | none => s.fetch_data = false
  | some value => s.fetch_data = true ∧
    ∃ text, s.json = utf8 text ∧ (∀ b ∈ utf8 text, b ≤ 0x7F) ∧ parse text = some value

def ImageSpectrum.sent {α : Type} (s : ImageSpectrum) (flux : String) (fitsData : Option α) : FetchedImage α :=
  ⟨flux, s.tone_mapping, s.output, fitsData⟩

theorem described_read {α : Type} {s : ImageSpectrum} {parse : String → Option α} {fitsData : Option α}
    (h : s.Describes parse fitsData) :
    (if s.fetch_data then (parse (fromCharCode s.json)).map some else some none) = some fitsData := by
  cases fitsData with
  | none =>
    have hdata : s.fetch_data = false := h
    rw [hdata, if_neg (by simp)]
  | some value =>
    obtain ⟨hdata, text, hjson, hascii, hvalue⟩ := h
    rw [if_pos hdata, hjson, fromCharCode_utf8 hascii, hvalue, Option.map_some]

theorem reply_read_back (codec : BlockCodec) (malformed : Bytes → String) {α : Type} (parse : String → Option α)
    (s : ImageSpectrum) (flux : String) (fitsData : Option α) (htext : s.flux = utf8 flux)
    (hbom : (utf8 flux).take 3 ≠ BOM) (hflux : (utf8 flux).length < 2 ^ 32) (himage : 0 < s.output.length)
    (hmetadata : s.Describes parse fitsData) :
    fetch_image_spectrum codec malformed parse (stream_image_spectrum codec s) =
      some (.image { s.sent flux fitsData with tone_mapping := s.tone_mapping.shown (flux = "legacy") }) := by
  have hread := fetch_stream codec malformed parse s himage (by rwa [htext])
  rw [described_read hmetadata, htext, textDecoder_utf8 malformed hbom] at hread
  exact hread

/-! ## A codec, and a reply -/

/-- The rest of a length of literals, 255 a byte. -/
def readLength : Bytes → ℕ → ℕ × Bytes
  | [], n => (n, [])
  | b :: rest, n => if b = 255 then readLength rest (n + 255) else (n + b.toNat, rest)

theorem readLength_replicate (k r n : ℕ) (hr : r < 255) (rest : Bytes) :
    readLength (List.replicate k 255 ++ UInt8.ofNat r :: rest) n = (n + 255 * k + r, rest) := by
  have hnat : (UInt8.ofNat r).toNat = r := by
    rw [UInt8.toNat_ofNat']
    omega
  induction k generalizing n with
  | zero =>
    have hne : UInt8.ofNat r ≠ 255 := by
      intro h
      rw [h] at hnat
      simp at hnat
      omega
    simp [readLength, hne, hnat]
  | succ k ih =>
    rw [List.replicate_succ, List.cons_append, readLength, if_pos rfl, ih]
    congr 1
    omega

def literalBlock (src : Bytes) : Bytes :=
  if src.length < 15 then UInt8.ofNat (16 * src.length) :: src
  else 240 :: (List.replicate ((src.length - 15) / 255) 255 ++ UInt8.ofNat ((src.length - 15) % 255) :: src)

def readLiterals (block : Bytes) (size : ℕ) : Bytes :=
  match block with
  | [] => []
  | token :: rest =>
    if token.toNat / 16 < 15 then (rest.take (token.toNat / 16)).take size
    else ((readLength rest 15).2.take (readLength rest 15).1).take size

theorem readLiterals_literalBlock (src : Bytes) : readLiterals (literalBlock src) src.length = src := by
  unfold literalBlock
  by_cases h : src.length < 15
  · have hlen : 16 * src.length % 256 / 16 = src.length := by omega
    simp [readLiterals, h, hlen]
  · have hlen : 15 + 255 * ((src.length - 15) / 255) + (src.length - 15) % 255 = src.length := by omega
    have hread := readLength_replicate ((src.length - 15) / 255) ((src.length - 15) % 255) 15 (by omega) src
    rw [hlen] at hread
    simp [readLiterals, h, hread]

/-- LZ4 as it writes what is too short for a match. -/
def literalCodec : BlockCodec where
  LZ4_compress_HC := literalBlock
  decodeBlock := readLiterals
  lossless src _ := readLiterals_literalBlock src

def halfTone : ToneMapping := ⟨0, 0x3F800000, 0x3F000000, 0x3E800000, 0x3F000000, 0x3F800000, 0x3F800000⟩

def smallReply (flux json : String) (hjson : (utf8 json).length ≤ LZ4_MAX_INPUT_SIZE) : ImageSpectrum where
  flux := utf8 flux
  tone_mapping := halfTone
  output := [0x76, 0x2F, 0x31, 0x01]
  output_size := by simp
  fetch_data := true
  json := utf8 json
  json_size := hjson

def widthJson : String := "\x7b\"width\" : 2\x7d"

theorem widthJson_size : (utf8 widthJson).length ≤ LZ4_MAX_INPUT_SIZE := by decide

/-- A text's tokens, in the place of the object that `JSON.parse` builds from them. -/
def parseTokens (text : String) : Option (List Token) := lex (utf8 text)

def widthTokens : List Token :=
  [.punct 123, .string [119, 105, 100, 116, 104], .punct 58, .number [50], .punct 125]

theorem widthJson_read : (∀ b ∈ utf8 widthJson, b ≤ 0x7F) ∧ parseTokens widthJson = some widthTokens := by
  decide +kernel

theorem smallReply_describes (flux : String) :
    (smallReply flux widthJson widthJson_size).Describes parseTokens (some widthTokens) := by
  unfold ImageSpectrum.Describes
  exact ⟨rfl, widthJson, by unfold smallReply; dsimp only, widthJson_read⟩

theorem reply_read_back_linear :
    fetch_image_spectrum literalCodec (fun _ => "") parseTokens
        (stream_image_spectrum literalCodec (smallReply "linear" widthJson widthJson_size)) =
      some (.image ((smallReply "linear" widthJson widthJson_size).sent "linear" (some widthTokens))) := by
  have hread := reply_read_back literalCodec (fun _ => "") parseTokens (smallReply "linear" widthJson widthJson_size)
    "linear" (some widthTokens) rfl (by decide) (by decide) (by decide) (smallReply_describes _)
  have hlinear : ("linear" : String) ≠ "legacy" := by decide
  simp only [ToneMapping.shown, hlinear, decide_false] at hread
  exact hread

/-- The image from 0 to 1 instead of 0.25 to 0.5. -/
theorem legacy_drops_black_and_white :
    fetch_image_spectrum literalCodec (fun _ => "") parseTokens
          (stream_image_spectrum literalCodec (smallReply "legacy" widthJson widthJson_size)) =
        some (.image { (smallReply "legacy" widthJson widthJson_size).sent "legacy" (some widthTokens) with
          tone_mapping := { halfTone with black := 0, white := 0x3F800000 } }) ∧
      fetch_image_spectrum literalCodec (fun _ => "") parseTokens
          (stream_image_spectrum literalCodec (smallReply "legacy" widthJson widthJson_size)) ≠
        some (.image ((smallReply "legacy" widthJson widthJson_size).sent "legacy" (some widthTokens))) := by
  have hread := fetch_stream literalCodec (fun _ => "") parseTokens (smallReply "legacy" widthJson widthJson_size)
    (by decide) (by decide)
  have hflux : textDecoder (fun _ => "") (smallReply "legacy" widthJson widthJson_size).flux = "legacy" :=
    textDecoder_utf8 _ (by decide)
  have hparse : parseTokens (fromCharCode (smallReply "legacy" widthJson widthJson_size).json) = some widthTokens := by
    have hjson : (smallReply "legacy" widthJson widthJson_size).json = utf8 widthJson := rfl
    rw [hjson, fromCharCode_utf8 widthJson_read.1, widthJson_read.2]
  rw [hflux, hparse] at hread
  refine ⟨hread, ?_⟩
  rw [hread]
  simp [ImageSpectrum.sent, smallReply, ToneMapping.shown, halfTone]

/-- The name of an object, with an accent: two characters for its two bytes. -/
theorem accent_misread : fromCharCode (utf8 "\"Orión\"") = "\"OriÃ³n\"" := by decide

end FitsWebQL
