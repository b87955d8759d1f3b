/-
  FitsWebQL.Messages — the binary WebSocket messages: what the server builds
  (`main_uWS.cpp`) and what the browser's `message` handler makes of it
  (`fitswebqlse.js`). Both sides are little-endian; a float is the word of its bits. A
  read outside the message is a RangeError, here `none`.

  The handler does with black and white what the flux chosen on the page asks for: with
  "legacy" it puts the minimum and the maximum in their place. A histogram refresh (type
  4) is read but never sent.

  Proved: a message fits its buffer (`encode_length_le`), and comes out as it went in
  exactly when `Message.Decodes` says so (`decodes_iff`); black and white are read in each
  other's place (`black_is_read_as_white`).
-/

import FitsWebQL.Header
import FitsWebQL.Lib.Wire

namespace FitsWebQL

open Lib.Wire

def NBINS : ℕ := 1024

/-! ## The server -/

structure ToneMapping where
  min : UInt32
  max : UInt32
  median : UInt32
  black : UInt32
  white : UInt32
  sensitivity : UInt32
  ratio_sensitivity : UInt32
  deriving DecidableEq

/-- The cube's image; `output` is its OpenEXR frame. -/
structure ImageMessage where
  timestamp : UInt32
  tone_mapping : ToneMapping
  hist : List UInt32
  hist_length : hist.length = NBINS
  output : Bytes

/-- Both spectra, sent only when they are there and of one size. -/
structure SpectraMessage where
  timestamp : UInt32
  mean_spectrum : List UInt32
  integrated_spectrum : List UInt32
  some_spectrum : 0 < mean_spectrum.length
  same_size : mean_spectrum.length = integrated_spectrum.length

inductive Message
  /-- A spectrum, compressed with FPZIP. -/
  | spectrum (timestamp seq elapsed : UInt32) (compressed : Bytes)
  /-- A viewport, as an OpenEXR image. -/
  | viewport (timestamp seq : UInt32) (output : Bytes)
  | image (m : ImageMessage)
  | refresh (m : SpectraMessage)
  /-- A NAL unit of the video. -/
  | video (timestamp seq elapsed : UInt32) (payload : Bytes)

def encodeImage (m : ImageMessage) : Bytes :=
  [bytesOf m.timestamp, bytesOf 0, bytesOf 2, bytesOf m.tone_mapping.min, bytesOf m.tone_mapping.max,
    bytesOf m.tone_mapping.median, bytesOf m.tone_mapping.black, bytesOf m.tone_mapping.white,
    bytesOf m.tone_mapping.sensitivity, bytesOf m.tone_mapping.ratio_sensitivity, bytesOf (UInt32.ofNat NBINS),
    m.hist.flatMap bytesOf, m.output].flatten

def encodeSpectra (m : SpectraMessage) : Bytes :=
  [bytesOf m.timestamp, bytesOf 0, bytesOf 3, bytesOf (UInt32.ofNat m.mean_spectrum.length),
    m.mean_spectrum.flatMap bytesOf, m.integrated_spectrum.flatMap bytesOf].flatten

def encode : Message → Bytes
  | .spectrum timestamp seq elapsed compressed =>
    [bytesOf timestamp, bytesOf seq, bytesOf 0, bytesOf elapsed, compressed].flatten
  | .viewport timestamp seq output => [bytesOf timestamp, bytesOf seq, bytesOf 1, output].flatten
  | .image m => encodeImage m
  | .refresh m => encodeSpectra m
  | .video timestamp seq elapsed payload => [bytesOf timestamp, bytesOf seq, bytesOf 5, bytesOf elapsed, payload].flatten

/-- The `malloc` of each message. -/
def bufferSize : Message → ℕ
  | .spectrum _ _ _ compressed => 16 + compressed.length
  | .viewport _ _ output => 12 + output.length
  | .image m => 12 + (7 * 4 + 4 + NBINS * 4) + m.output.length
  | .refresh m => 20 + m.mean_spectrum.length * 4 + m.integrated_spectrum.length * 4
  | .video _ _ _ payload => 16 + payload.length

/-- What is copied to a message's buffer fits in it. -/
theorem encode_length_le (m : Message) : (encode m).length ≤ bufferSize m := by
  cases m with
  | image m =>
    show (encodeImage m).length ≤ 12 + (7 * 4 + 4 + NBINS * 4) + m.output.length
    have h := m.hist_length
    simp only [encodeImage, List.flatten_cons, List.flatten_nil, List.length_append, bytesOf_length, flatMap_bytesOf_length,
      List.length_nil]
    omega
  | refresh m =>
    show (encodeSpectra m).length ≤ 20 + m.mean_spectrum.length * 4 + m.integrated_spectrum.length * 4
    simp only [encodeSpectra, List.flatten_cons, List.flatten_nil, List.length_append, bytesOf_length, flatMap_bytesOf_length,
      List.length_nil]
    omega
  | _ =>
    simp only [encode, bufferSize, List.flatten_cons, List.flatten_nil, List.length_append, bytesOf_length, List.length_nil]
    omega

/-! ## The browser -/

inductive Content
  | spectrum (computed : UInt32) (frame : Bytes)
  | viewport (frame : Bytes)
  | image (tone_mapping : ToneMapping) (histogram : List ℤ) (frame : Bytes)
  | refresh (depth : ℕ) (mean_spectrum integrated_spectrum : List UInt32)
  | histogram (tone_mapping : ToneMapping) (histogram : List ℤ)
  | video (computed : UInt32) (frame : Bytes)
  | other
  deriving DecidableEq

structure Received where
  timestamp : UInt32
  recv_seq_id : UInt32
  content : Content
  deriving DecidableEq

def int32 (w : UInt32) : ℤ := if w.toNat < 2 ^ 31 then w.toNat else w.toNat - 2 ^ 32

def getInt32s (msg : Bytes) (off n : ℕ) : Option (List ℤ) := (getWords msg off n).map fun ws => ws.map int32

/-- `if (tone_mapping.flux == "legacy")`. -/
def ToneMapping.shown (t : ToneMapping) (legacy : Bool) : ToneMapping :=
  if legacy then { t with black := t.min, white := t.max } else t

def readImage (legacy : Bool) (msg : Bytes) : Option Content := do
  let min ← getUint32 msg 12
  let max ← getUint32 msg 16
  let median ← getUint32 msg 20
  let white ← getUint32 msg 24
  let black ← getUint32 msg 28
  let sensitivity ← getUint32 msg 32
  let ratio_sensitivity ← getUint32 msg 36
  let nbins ← getUint32 msg 40
  let histogram ← getInt32s msg 44 nbins.toNat
  let frame ← getBytes msg (44 + nbins.toNat * 4)
  return .image (ToneMapping.shown ⟨min, max, median, black, white, sensitivity, ratio_sensitivity⟩ legacy) histogram frame

def readSpectra (msg : Bytes) : Option Content := do
  let length ← getUint32 msg 12
  let mean_spectrum ← getWords msg 16 length.toNat
  let integrated_spectrum ← getWords msg (16 + 4 * length.toNat) length.toNat
  return .refresh length.toNat mean_spectrum integrated_spectrum

def readHistogram (msg : Bytes) : Option Content := do
  let min ← getUint32 msg 12
  let max ← getUint32 msg 16
  let black ← getUint32 msg 20
  let white ← getUint32 msg 24
  let median ← getUint32 msg 28
  let sensitivity ← getUint32 msg 32
  let ratio_sensitivity ← getUint32 msg 36
  let nbins ← getUint32 msg 40
  let histogram ← getInt32s msg 44 nbins.toNat
  return .histogram ⟨min, max, median, black, white, sensitivity, ratio_sensitivity⟩ histogram

def readContent (legacy : Bool) (msg : Bytes) (type : UInt32) : Option Content :=
  if type = 0 then do
    let computed ← getUint32 msg 12
    let frame ← getBytes msg 16
    return .spectrum computed frame
  else if type = 1 then (getBytes msg 12).map .viewport
  else if type = 2 then readImage legacy msg
  else if type = 3 then readSpectra msg
  else if type = 4 then readHistogram msg
  else if type = 5 then do
    let computed ← getUint32 msg 12
    let frame ← getBytes msg 16
    return .video computed frame
  else some .other

/-- The handler of `message`, the page's flux being "legacy" or not. -/
def onMessage (legacy : Bool) (msg : Bytes) : Option Received := do
  let timestamp ← getUint32 msg 0
  let recv_seq_id ← getUint32 msg 4
  let type ← getUint32 msg 8
  let content ← readContent legacy msg type
  return ⟨timestamp, recv_seq_id, content⟩

/-! ## What was sent -/

def Message.sent : Message → Received
  | .spectrum timestamp seq elapsed compressed => ⟨timestamp, seq, .spectrum elapsed compressed⟩
  | .viewport timestamp seq output => ⟨timestamp, seq, .viewport output⟩
  | .image m => ⟨m.timestamp, 0, .image m.tone_mapping (m.hist.map fun bin => (bin.toNat : ℤ)) m.output⟩
  | .refresh m => ⟨m.timestamp, 0, .refresh m.mean_spectrum.length m.mean_spectrum m.integrated_spectrum⟩
  | .video timestamp seq elapsed payload => ⟨timestamp, seq, .video elapsed payload⟩

/-- Black and white are read in each other's place, counts as signed numbers, and a
    spectrum's length is a word. -/
def Message.Decodes (legacy : Bool) : Message → Prop
  | .image m =>
    (if legacy then m.tone_mapping.black = m.tone_mapping.min ∧ m.tone_mapping.white = m.tone_mapping.max
      else m.tone_mapping.black = m.tone_mapping.white) ∧ ∀ bin ∈ m.hist, bin.toNat < 2 ^ 31
  | .refresh m => m.mean_spectrum.length < 2 ^ 32
  | _ => True

/-- The three words every message starts with. -/
theorem onMessage_start {msg : Bytes} {timestamp id type : UInt32} {rest : Bytes} (legacy : Bool)
    (h : At msg 0 (bytesOf timestamp ++ (bytesOf id ++ (bytesOf type ++ rest)))) :
    At msg 12 rest ∧
      onMessage legacy msg = (readContent legacy msg type).map fun content => ⟨timestamp, id, content⟩ := by
  obtain ⟨h0, h⟩ := h.word
  obtain ⟨h4, h⟩ := h.word
  obtain ⟨h8, h⟩ := h.word
  refine ⟨h, ?_⟩
  unfold onMessage
  rw [h0, h4, h8]
  simp only [Option.bind_eq_bind, Option.bind_some]
  cases readContent legacy msg type with
  | none => rfl
  | some content => rfl

/-- An elapsed time and bytes. -/
theorem timed_frame {msg : Bytes} {elapsed : UInt32} {frame : Bytes} (h : At msg 12 (bytesOf elapsed ++ frame)) :
    getUint32 msg 12 = some elapsed ∧ getBytes msg 16 = some frame := by
  obtain ⟨h12, h⟩ := h.word
  exact ⟨h12, h.rest⟩

theorem onMessage_spectrum (legacy : Bool) (timestamp seq elapsed : UInt32) (compressed : Bytes) :
    onMessage legacy (encode (.spectrum timestamp seq elapsed compressed)) =
      some ⟨timestamp, seq, .spectrum elapsed compressed⟩ := by
  have hmsg := At.start (encode (.spectrum timestamp seq elapsed compressed))
  simp only [encode, List.flatten_cons, List.flatten_nil, List.append_nil] at hmsg ⊢
  obtain ⟨h, heq⟩ := onMessage_start legacy hmsg
  obtain ⟨h12, h16⟩ := timed_frame h
  rw [heq, readContent, if_pos rfl, h12, h16]
  rfl

theorem onMessage_video (legacy : Bool) (timestamp seq elapsed : UInt32) (payload : Bytes) :
    onMessage legacy (encode (.video timestamp seq elapsed payload)) = some ⟨timestamp, seq, .video elapsed payload⟩ := by
  have hmsg := At.start (encode (.video timestamp seq elapsed payload))
  simp only [encode, List.flatten_cons, List.flatten_nil, List.append_nil] at hmsg ⊢
  obtain ⟨h, heq⟩ := onMessage_start legacy hmsg
  obtain ⟨h12, h16⟩ := timed_frame h
  rw [heq, readContent, if_neg (by decide), if_neg (by decide), if_neg (by decide), if_neg (by decide), if_neg (by decide),
    if_pos rfl, h12, h16]
  rfl

theorem onMessage_viewport (legacy : Bool) (timestamp seq : UInt32) (output : Bytes) :
    onMessage legacy (encode (.viewport timestamp seq output)) = some ⟨timestamp, seq, .viewport output⟩ := by
  have hmsg := At.start (encode (.viewport timestamp seq output))
  simp only [encode, List.flatten_cons, List.flatten_nil, List.append_nil] at hmsg ⊢
  obtain ⟨h, heq⟩ := onMessage_start legacy hmsg
  rw [heq, readContent, if_neg (by decide), if_pos rfl, h.rest]
  rfl

/-- An image comes out with black and white in each other's place. -/
theorem onMessage_image (legacy : Bool) (m : ImageMessage) :
    onMessage legacy (encode (.image m)) = some ⟨m.timestamp, 0,
      .image (ToneMapping.shown { m.tone_mapping with black := m.tone_mapping.white, white := m.tone_mapping.black } legacy)
        (m.hist.map int32) m.output⟩ := by
  have hmsg := At.start (encode (.image m))
  simp only [encode, encodeImage, List.flatten_cons, List.flatten_nil, List.append_nil] at hmsg ⊢
  obtain ⟨h, heq⟩ := onMessage_start legacy hmsg
  obtain ⟨h12, h⟩ := h.word
  obtain ⟨h16, h⟩ := h.word
  obtain ⟨h20, h⟩ := h.word
  obtain ⟨h24, h⟩ := h.word
  obtain ⟨h28, h⟩ := h.word
  obtain ⟨h32, h⟩ := h.word
  obtain ⟨h36, h⟩ := h.word
  obtain ⟨h40, h⟩ := h.word
  obtain ⟨h44, h⟩ := h.words (by decide)
  have hbins : (UInt32.ofNat NBINS).toNat = m.hist.length := m.hist_length.symm
  have hframe := h.rest
  rw [Nat.mul_comm 4 m.hist.length] at hframe
  rw [heq, readContent, if_neg (by decide), if_neg (by decide), if_pos rfl]
  unfold readImage getInt32s
  rw [h12, h16, h20, h24, h28, h32, h36, h40]
  simp only [Option.bind_eq_bind, Option.bind_some, hbins]
  rw [h44, hframe]
  rfl

theorem onMessage_refresh (legacy : Bool) (m : SpectraMessage) (hlen : m.mean_spectrum.length < 2 ^ 32) :
    onMessage legacy (encode (.refresh m)) =
      some ⟨m.timestamp, 0, .refresh m.mean_spectrum.length m.mean_spectrum m.integrated_spectrum⟩ := by
  have hmsg := At.start (encode (.refresh m))
  simp only [encode, encodeSpectra, List.flatten_cons, List.flatten_nil] at hmsg ⊢
  obtain ⟨h, heq⟩ := onMessage_start legacy hmsg
  obtain ⟨h12, h⟩ := h.word
  obtain ⟨h16, h⟩ := h.words (by decide)
  obtain ⟨hlast, -⟩ := h.words (by omega)
  have hn : (UInt32.ofNat m.mean_spectrum.length).toNat = m.mean_spectrum.length := UInt32.toNat_ofNat_of_lt' hlen
  rw [← m.same_size] at hlast
  rw [heq, readContent, if_neg (by decide), if_neg (by decide), if_neg (by decide), if_pos rfl]
  unfold readSpectra
  rw [h12]
  simp only [Option.bind_eq_bind, Option.bind_some, hn]
  rw [h16, hlast]
  rfl

/-- A spectrum that is read has a word's length. -/
theorem readSpectra_depth {msg : Bytes} {depth : ℕ} {mean integrated : List UInt32}
    (h : readSpectra msg = some (.refresh depth mean integrated)) : depth < 2 ^ 32 := by
  unfold readSpectra at h
  simp only [Option.bind_eq_bind, Option.bind_eq_some_iff] at h
  obtain ⟨length, -, _, -, _, -, heq⟩ := h
  cases heq
  exact length.toNat_lt

/-- The browser's fields are the server's, each under its own name, exactly for the
    messages of `Decodes`. -/
theorem decodes_iff (legacy : Bool) (m : Message) : onMessage legacy (encode m) = some m.sent ↔ m.Decodes legacy := by
  cases m with
  | spectrum timestamp seq elapsed compressed =>
    exact ⟨fun _ => trivial, fun _ => onMessage_spectrum legacy timestamp seq elapsed compressed⟩
  | viewport timestamp seq output => exact ⟨fun _ => trivial, fun _ => onMessage_viewport legacy timestamp seq output⟩
  | video timestamp seq elapsed payload =>
    exact ⟨fun _ => trivial, fun _ => onMessage_video legacy timestamp seq elapsed payload⟩
  | image m =>
    have hbins : m.hist.map int32 = m.hist.map (fun bin => (bin.toNat : ℤ)) ↔ ∀ bin ∈ m.hist, bin.toNat < 2 ^ 31 := by
      rw [List.map_inj_left]
      apply forall₂_congr
      intro bin _
      unfold int32
      split
      · exact ⟨fun _ => ‹_›, fun _ => rfl⟩
      · exact ⟨fun h => by omega, fun h => absurd h ‹_›⟩
    have htone : ToneMapping.shown { m.tone_mapping with black := m.tone_mapping.white, white := m.tone_mapping.black } legacy =
        m.tone_mapping ↔ if legacy then m.tone_mapping.black = m.tone_mapping.min ∧ m.tone_mapping.white = m.tone_mapping.max
          else m.tone_mapping.black = m.tone_mapping.white := by
      obtain ⟨min, max, median, black, white, sensitivity, ratio_sensitivity⟩ := m.tone_mapping
      cases legacy with
      | true =>
        simp only [ToneMapping.shown, if_true, ToneMapping.mk.injEq, true_and, and_true]
        exact and_congr eq_comm eq_comm
      | false =>
        simp only [ToneMapping.shown, Bool.false_eq_true, if_false, ToneMapping.mk.injEq, true_and, and_true]
        exact ⟨fun h => h.2, fun h => ⟨h.symm, h⟩⟩
    rw [onMessage_image]
    show some (Received.mk _ _ _) = some (Received.mk _ _ _) ↔ _ ∧ _
    rw [Option.some_inj, Received.mk.injEq, Content.image.injEq, hbins, htone]
    exact ⟨fun h => ⟨h.2.2.1, h.2.2.2.1⟩, fun h => ⟨rfl, rfl, h.1, h.2, rfl⟩⟩
  | refresh m =>
    refine ⟨?_, onMessage_refresh legacy m⟩
    intro h
    have hmsg := At.start (encode (.refresh m))
    simp only [encode, encodeSpectra, List.flatten_cons, List.flatten_nil] at hmsg h
    obtain ⟨-, heq⟩ := onMessage_start legacy hmsg
    rw [heq, readContent, if_neg (by decide), if_neg (by decide), if_neg (by decide), if_pos rfl] at h
    obtain ⟨content, hread, hsent⟩ := Option.map_eq_some_iff.mp h
    have hcontent : content = .refresh m.mean_spectrum.length m.mean_spectrum m.integrated_spectrum :=
      congrArg Received.content hsent
    rw [hcontent] at hread
    exact readSpectra_depth hread

def darkImage : ImageMessage where
  timestamp := 0
  tone_mapping := ⟨0, 0x3F800000, 0x3F000000, 0, 0x3F800000, 0x3F800000, 0x3F800000⟩
  hist := List.replicate NBINS 0
  hist_length := List.length_replicate
  output := []

theorem black_is_read_as_white :
    ¬ ∀ (legacy : Bool) (m : Message), onMessage legacy (encode m) = some m.sent := by
  intro h
  have himage := h false (.image darkImage)
  rw [onMessage_image] at himage
  have hcontent := congrArg Received.content (Option.some.inj himage)
  have hblack := congrArg ToneMapping.black (Content.image.inj hcontent).1
  exact absurd hblack (by decide)

end FitsWebQL
